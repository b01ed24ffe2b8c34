import PocketKernel.Proofs.Volume.Inodes
import PocketKernel.Proofs.Volume.Rewrite
import PocketKernel.Proofs.Volume.Walk

/-!
# Creating entries

A new entry takes the lowest free inode and a record in the directory it is created in. The record
is appended last; if that fails, the inode is taken back. What cannot be taken back is the record
itself, when it was appended in memory and the size of the directory could not be stored.

## Main definitions

* `Snapshot.Vacancy`: the place of a new entry.
* `Volume.Created`: all the ways in which creating an entry ends.

## Main results

* `Volume.create_ends`, `Volume.touch_ends`, `Volume.mkdir_ends`, `Volume.write_ends`: the
  operations that change something.
-/

namespace PocketKernel

theorem Geometry.toNat_ofNat_inode (g : Geometry) {index : ℕ} (h : index < g.inodeCount) :
    (UInt32.ofNat index).toNat = index := by
  have hle := g.inodeCount_le
  exact UInt32.toNat_ofNat_of_lt' (Nat.lt_of_lt_of_le h (Nat.le_trans hle (by decide)))

namespace Snapshot

variable {g : Geometry} {w : Snapshot} {parent index : ℕ} {record : DirectoryRecord}

/-- The directory and the inode of a new entry, and the record that leads from one to the other. -/
structure Vacancy (g : Geometry) (w : Snapshot) (parent index : ℕ) (record : DirectoryRecord) :
    Prop where
  known : w.Known g parent
  directory : (w.memory.inode parent).isDirectory = true
  lowest : w.LowestFree g index
  target : record.target.toNat = index

theorem Vacancy.ne (h : w.Vacancy g parent index record) : index ≠ parent :=
  (h.lowest.ne_of_known h.known).symm

theorem Vacancy.not_isLive (hw : w.Sound g) (h : w.Vacancy g parent index record) :
    (w.memory.inode index).isLive = false :=
  hw.not_isLive_of_lowestFree h.lowest

/-- The parent of the new inode is the directory. -/
theorem Vacancy.known_parent (h : w.Vacancy g parent index record) :
    w.Known g (UInt32.ofNat parent).toNat := by
  rw [g.toNat_ofNat_inode h.known.lt]
  exact h.known

theorem Vacancy.sound_enlisted (hw : w.Sound g) (h : w.Vacancy g parent index record)
    (kind : InodeKind) : (w.enlisted index (Inode.empty kind (UInt32.ofNat parent))).Sound g :=
  hw.enlisted h.lowest h.known_parent

theorem Vacancy.sound_enrolled (hw : w.Sound g) (h : w.Vacancy g parent index record)
    (kind : InodeKind) : (w.enrolled index (Inode.empty kind (UInt32.ofNat parent))).Sound g :=
  (h.sound_enlisted hw kind).publish _

theorem Vacancy.directory_enrolled (h : w.Vacancy g parent index record) (x : Inode) :
    ((w.enrolled index x).memory.inode parent).isDirectory = true := by
  rw [(spares_enrolled h.ne.symm).memory_inode]
  exact h.directory

end Snapshot

namespace Volume

variable {δ α : Type} [BlockDevice δ] [LawfulDevice δ] {g : Geometry} {v w x : Volume δ}
  {kind : InodeKind}

/-- How creating an entry ends. -/
inductive Created (g : Geometry) (v : Volume δ) (kind : InodeKind) :
    Except Stop Unit → Volume δ → Prop
  /-- Nothing happened. -/
  | refused {w : Volume δ} (cause : VolumeError) : w.snapshot = v.snapshot →
      Created g v kind (.error (.error cause)) w
  /-- An inode was handed out and lost. -/
  | lost {w : Volume δ} {parent index : ℕ} {record : DirectoryRecord} :
      v.snapshot.Vacancy g parent index record → v.Faulted w →
      w.snapshot = v.snapshot.enlisted index (Inode.empty kind (UInt32.ofNat parent)) →
      Created g v kind (.error (.error .io)) w
  /-- The entry was created. -/
  | entered {w x : Volume δ} {parent index : ℕ} {record : DirectoryRecord} :
      v.snapshot.Vacancy g parent index record → v.Continues g x →
      x.snapshot = v.snapshot.enrolled index (Inode.empty kind (UInt32.ofNat parent)) →
      x.Rewrites g parent w → x.Appended parent record (.ok ()) w →
      Created g v kind (.ok ()) w
  /-- The record could not be appended, and the inode was taken back. -/
  | undone {w x y : Volume δ} {parent index : ℕ} {record : DirectoryRecord} (cause : VolumeError) :
      v.snapshot.Vacancy g parent index record → v.Continues g x →
      x.snapshot = v.snapshot.enrolled index (Inode.empty kind (UInt32.ofNat parent)) →
      x.Rewrites g parent y → x.Appended parent record (.error (.error cause)) y →
      y.Releases g index w →
      Created g v kind (.error (.error cause)) w

theorem Created.of_keeps {outcome : Except Stop Unit} (hvx : v.Keeps g x)
    (h : x.Created g kind outcome w) : v.Created g kind outcome w := by
  cases h with
  | refused cause hw => exact .refused cause (hw.trans hvx.2)
  | lost hvacancy hfault hw =>
    rw [hvx.2] at hvacancy hw
    exact .lost hvacancy (.of_continues hvx.1 hfault) hw
  | entered hvacancy hcontinues hx hrewrites happended =>
    rw [hvx.2] at hvacancy hx
    exact .entered hvacancy (hvx.1.trans hcontinues) hx hrewrites happended
  | undone cause hvacancy hcontinues hx hrewrites happended hreleases =>
    rw [hvx.2] at hvacancy hx
    exact .undone cause hvacancy (hvx.1.trans hcontinues) hx hrewrites happended hreleases

/-- After an operation that reads, an operation that changes something goes on from the same
snapshot. -/
theorem Reads.bind_change {β : Type} {first : VolumeM δ β} {next : β → VolumeM δ α}
    {answer : Except VolumeError β} {post : Except Stop α → Volume δ → Prop}
    (hfirst : v.Ends first fun outcome w => v.Reads g answer outcome w)
    (hok : ∀ b, answer = .ok b → ∀ w : Volume δ, v.Keeps g w → w.Ends (next b) post)
    (hstop : ∀ cause (w : Volume δ), v.Keeps g w → post (.error (.error cause)) w) :
    v.Ends (first >>= next) post := by
  refine Ends.bind hfirst ?_ ?_
  · exact fun b w h => hok b h.answer_eq w ⟨h.continues, h.snapshot⟩
  · rintro stop w ⟨hvw, hsnapshot, houtcome | ⟨⟨rfl⟩, -⟩⟩
    · cases answer with
      | ok b => cases houtcome
      | error cause =>
        cases houtcome
        exact hstop cause w ⟨hvw, hsnapshot⟩
    · exact hstop .io w ⟨hvw, hsnapshot⟩

end Volume

/-- The part of creating an entry that changes something. -/
def VolumeM.enter {δ : Type} [BlockDevice δ] (parent : ℕ) (leaf : Text) (kind : InodeKind) :
    VolumeM δ Unit := do
  let index ← allocInode kind parent
  match ← attempt (appendRecord parent (.named index leaf)) with
  | .ok () => pure ()
  | .error cause =>
    discard (attempt (releaseInode index))
    fail cause

namespace Volume

variable {δ α : Type} [BlockDevice δ] [LawfulDevice δ] {g : Geometry} {v w x : Volume δ}
  {kind : InodeKind}

/-- After an inode was handed out, a record that leads to it can be appended. -/
structure Enrolled (g : Geometry) (kind : InodeKind) (parent index : ℕ) (leaf : Text)
    (v x : Volume δ) : Prop where
  continues : v.Continues g x
  snapshot : x.snapshot = v.snapshot.enrolled index (Inode.empty kind (UInt32.ofNat parent))
  vacancy : v.snapshot.Vacancy g parent index (.named index leaf)
  sound : x.snapshot.Sound g
  nascent : x.snapshot.Nascent g index
  known : x.snapshot.Known g parent
  directory : (x.snapshot.memory.inode parent).isDirectory = true

theorem enrolled_of_lowestFree (hw : v.snapshot.Sound g) {parent index : ℕ}
    (hknown : v.snapshot.Known g parent)
    (hdirectory : (v.snapshot.memory.inode parent).isDirectory = true) (leaf : Text)
    (hlow : v.snapshot.LowestFree g index) (hvx : v.Continues g x)
    (hx : x.snapshot = v.snapshot.enrolled index (Inode.empty kind (UInt32.ofNat parent))) :
    v.Enrolled g kind parent index leaf x := by
  have hvacancy : v.snapshot.Vacancy g parent index (.named index leaf) :=
    ⟨hknown, hdirectory, hlow, g.toNat_ofNat_inode hlow.lt⟩
  refine ⟨hvx, hx, hvacancy, ?_, ?_, ?_, ?_⟩
  · rw [hx]
    exact hvacancy.sound_enrolled hw kind
  · rw [hx]
    exact hw.nascent_enrolled hlow hvacancy.known_parent
  · rw [hx]
    exact Snapshot.Known.enrolled hw hlow hvacancy.known_parent hknown
  · rw [hx]
    exact hvacancy.directory_enrolled _

theorem Enrolled.append_ends {parent index : ℕ} {leaf : Text}
    (h : v.Enrolled g kind parent index leaf x) :
    x.Ends (VolumeM.appendRecord parent (.named index leaf)) fun outcome y =>
      x.Rewrites g parent y ∧ x.Appended parent (.named index leaf) outcome y := by
  have htarget := h.vacancy.target
  refine appendRecord_ends h.continues.shaped h.sound h.known h.directory _ ?_ ?_
  · rw [htarget]
    exact h.nascent.known
  · rw [htarget]
    exact h.nascent.ne_zero

/-- After the record was worked on, the inode can still be taken back. -/
theorem Enrolled.nascent_of_rewrites {parent index : ℕ} {leaf : Text} {y : Volume δ}
    (h : v.Enrolled g kind parent index leaf x) (hrewrites : x.Rewrites g parent y) :
    y.snapshot.Nascent g index :=
  h.nascent.reworks h.sound h.vacancy.ne hrewrites.reworks

theorem enter_ends (hv : v.Shaped g) (hw : v.snapshot.Sound g) {parent : ℕ}
    (hknown : v.snapshot.Known g parent)
    (hdirectory : (v.snapshot.memory.inode parent).isDirectory = true) (leaf : Text)
    (kind : InodeKind) :
    v.Ends (VolumeM.enter parent leaf kind) fun outcome w =>
      v.Continues g w ∧ v.Created g kind outcome w := by
  unfold VolumeM.enter
  refine Ends.bind (allocInode_ends hv kind parent) ?_ ?_
  · rintro index x ⟨hvx, hallocated⟩
    cases hallocated with
    | handed index hlow hx =>
    have h := enrolled_of_lowestFree hw hknown hdirectory leaf hlow hvx hx
    refine Ends.attempt_bind h.append_ends ?_ ?_ ?_
    · rintro ⟨⟩ y ⟨hrewrites, happended⟩
      exact ⟨hvx.trans hrewrites.continues, .entered h.vacancy hvx hx hrewrites happended⟩
    · rintro cause y ⟨hrewrites, happended⟩
      have hrelease := releaseInode_ends hrewrites.continues.shaped hrewrites.sound
        (h.nascent_of_rewrites hrewrites)
      have hend {z : Volume δ} (hz : y.Releases g index z) :
          v.Continues g z ∧ v.Created g kind (.error (.error cause)) z :=
        ⟨hvx.trans (hrewrites.continues.trans hz.continues),
          .undone cause h.vacancy hvx hx hrewrites happended hz⟩
      show y.Ends (discard (VolumeM.attempt (VolumeM.releaseInode index)) >>=
        fun _ => VolumeM.fail cause) _
      rw [discard_bind]
      exact Ends.attempt_bind hrelease (fun _ _ h => hend h.2) (fun _ _ h => hend h.2)
        fun _ h => absurd rfl h.1
    · rintro y ⟨hrewrites, happended⟩
      cases happended
  · rintro stop x ⟨hvx, hallocated⟩
    cases hallocated with
    | lost index hlow hfault hx =>
      have hvacancy : v.snapshot.Vacancy g parent index (.named index leaf) :=
        ⟨hknown, hdirectory, hlow, g.toNat_ofNat_inode hlow.lt⟩
      exact ⟨hvx, .lost hvacancy hfault hx⟩
    | refused hfault hx => exact ⟨hvx, .refused _ hx⟩
    | full hfull hx => exact ⟨hvx, .refused _ (by rw [hx])⟩

theorem create_ends (hv : v.Shaped g) (hw : v.snapshot.Sound g) (path : Text)
    (kind : InodeKind) :
    v.Ends (VolumeM.create path kind) fun outcome w =>
      v.Continues g w ∧ v.Created g kind outcome w := by
  unfold VolumeM.create
  cases Path.leafName path with
  | error cause => exact ⟨hv.continues, .refused cause rfl⟩
  | ok leaf =>
  cases Path.components path with
  | error cause => exact ⟨hv.continues, .refused cause rfl⟩
  | ok segments =>
  show v.Ends (VolumeM.walk segments.dropLast >>= fun parent => _) _
  refine Reads.bind_change (walk_ends hv hw segments.dropLast) ?_
    fun cause w hvw => ⟨hvw.1, .refused cause hvw.2⟩
  intro parent hparent w hvw
  rw [← hvw.2] at hw hparent
  have hknown := hw.known_walk hparent
  show w.Ends (VolumeM.findInode parent >>= fun inode => _) _
  rw [ends_findInode_bind hvw.1.shaped hknown.lt]
  by_cases hdirectory : (w.snapshot.memory.inode parent).isDirectory = true
  · rw [hdirectory]
    refine (enter_ends hvw.1.shaped hw hknown hdirectory leaf kind).mono ?_
    exact fun outcome x h => ⟨hvw.1.trans h.1, h.2.of_keeps hvw⟩
  · rw [Bool.eq_false_iff.mpr hdirectory]
    exact ⟨hvw.1, .refused _ hvw.2⟩

/-! ### The operations that change something -/

/-- What touching a path does: it creates a file, or nothing. -/
theorem touch_ends (hv : v.Shaped g) (hw : v.snapshot.Sound g) (path : Text) :
    v.Ends (VolumeM.touch path) fun outcome w =>
      v.Continues g w ∧ (w.snapshot = v.snapshot ∨ v.Created g .file outcome w) := by
  refine Ends.bind (requireMounted_keeps hv) ?_ fun _ w hvw => ⟨hvw.1, .inl hvw.2⟩
  rintro ⟨⟩ w hvw
  rw [← hvw.2] at hw
  refine Ends.attempt_bind (resolve_ends hvw.1.shaped hw path) ?_ ?_ ?_
  · rintro index x ⟨hwx, hx, -⟩
    refine (Keeps.bind (findInode_keeps hwx.shaped index) fun inode y hxy => ?_).mono
      fun outcome y hxy => ⟨hvw.1.trans (hwx.trans hxy.1), .inl (hxy.2.trans (hx.trans hvw.2))⟩
    cases inode.isDirectory with
    | true => exact ⟨hxy.1.shaped.continues, rfl⟩
    | false => exact ⟨hxy.1.shaped.continues, rfl⟩
  · rintro cause x ⟨hwx, hx, -⟩
    rw [← hx] at hw
    have hkeeps : v.Keeps g x := ⟨hvw.1.trans hwx, hx.trans hvw.2⟩
    have hrest := create_ends hwx.shaped hw path .file
    cases cause with
    | notFound =>
      exact hrest.mono fun outcome y h => ⟨hkeeps.1.trans h.1, .inr (h.2.of_keeps hkeeps)⟩
    | _ => exact ⟨hkeeps.1, .inl hkeeps.2⟩
  · rintro x ⟨hwx, hx, -⟩
    exact ⟨hvw.1.trans hwx, .inl (hx.trans hvw.2)⟩

/-- What making a directory does: it creates one, or nothing. -/
theorem mkdir_ends (hv : v.Shaped g) (hw : v.snapshot.Sound g) (path : Text) :
    v.Ends (VolumeM.mkdir path) fun outcome w => v.Continues g w
      ∧ ((w.snapshot = v.snapshot ∧ ∃ stop, outcome = .error stop)
        ∨ v.Created g .directory outcome w) := by
  refine Ends.bind (requireMounted_keeps hv) ?_ fun _ w hvw => ⟨hvw.1, .inl ⟨hvw.2, _, rfl⟩⟩
  rintro ⟨⟩ w hvw
  rw [← hvw.2] at hw
  refine Ends.attempt_bind (resolve_ends hvw.1.shaped hw path) ?_ ?_ ?_
  · rintro index x ⟨hwx, hx, -⟩
    exact ⟨hvw.1.trans hwx, .inl ⟨hx.trans hvw.2, _, rfl⟩⟩
  · rintro cause x ⟨hwx, hx, -⟩
    rw [← hx] at hw
    have hkeeps : v.Keeps g x := ⟨hvw.1.trans hwx, hx.trans hvw.2⟩
    have hrest := create_ends hwx.shaped hw path .directory
    cases cause with
    | notFound =>
      exact hrest.mono fun outcome y h => ⟨hkeeps.1.trans h.1, .inr (h.2.of_keeps hkeeps)⟩
    | _ => exact ⟨hkeeps.1, .inl ⟨hkeeps.2, _, rfl⟩⟩
  · rintro x ⟨hwx, hx, -⟩
    exact ⟨hvw.1.trans hwx, .inl ⟨hx.trans hvw.2, _, rfl⟩⟩

theorem Rewrites.of_keeps {index : ℕ} (hvx : v.Keeps g x) (h : x.Rewrites g index w) :
    v.Rewrites g index w := by
  refine ⟨hvx.1.trans h.continues, h.sound, by rw [← hvx.2]; exact h.reworks, fun hsettled => ?_⟩
  rw [← hvx.2] at hsettled
  exact (h.settled hsettled).imp_left fun hfault => .of_continues hvx.1 hfault

/-- **What a write does**: it works on the inode that its path leads to, or does nothing. -/
theorem write_ends (hv : v.Shaped g) (hw : v.snapshot.Sound g) (path : Text) (offset : ℕ)
    (data : List UInt8) (truncate : Bool) :
    v.Ends (VolumeM.write path offset data truncate) fun outcome w => v.Continues g w
      ∧ ((w.snapshot = v.snapshot ∧ ∃ stop, outcome = .error stop)
        ∨ ∃ index, (v.run (VolumeM.resolve path)).1 = .ok index
          ∧ v.snapshot.resolveFile path = .ok index ∧ v.Rewrites g index w
          ∧ ∀ count, outcome = .ok count →
            w.snapshot.memory.inode index ≠ Inode.blank
              ∧ w.snapshot.disk.inode index = w.snapshot.memory.inode index) := by
  unfold VolumeM.write
  cases hmounted : v.mounted with
  | false =>
    rw [Ends, run_requireMounted_bind hmounted]
    exact ⟨hv.continues, .inl ⟨rfl, _, rfl⟩⟩
  | true =>
  rw [ends_requireMounted_bind hmounted]
  refine Ends.bind ((resolveFile_ends hv hw path).and (run_resolve_of_resolveFile v path)) ?_ ?_
  · rintro index x ⟨hread, hrun⟩
    have hvx := hread.continues
    have hx := hread.snapshot
    have hfound := hread.answer_eq
    obtain ⟨hresolve, hfile⟩ := Snapshot.of_resolveFile_eq_ok hfound
    have hknown := hw.known_resolve hresolve
    rw [← hx] at hw hknown hfile
    refine (writeFile_ends hvx.shaped hw hknown hfile truncate).mono ?_
    rintro outcome y ⟨hrewrites, hstored⟩
    exact ⟨hvx.trans hrewrites.continues, .inr ⟨index, hrun index rfl, hfound,
      hrewrites.of_keeps ⟨hvx, hx⟩, hstored⟩⟩
  · rintro stop x ⟨⟨hvx, hx, -⟩, -⟩
    exact ⟨hvx, .inl ⟨hx, _, rfl⟩⟩

end Volume

end PocketKernel
