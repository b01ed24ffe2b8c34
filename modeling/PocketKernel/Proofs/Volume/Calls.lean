import PocketKernel.Proofs.Volume.Create
import PocketKernel.Proofs.Volume.Format

/-!
# What clients can do to a volume

Whatever a client asks of a volume, one of three things happens to it: nothing, an entry is created,
or an inode is written to. Together with mounting this covers every way to come to a volume, so what
each of them keeps holds of all volumes there are.

## Main definitions

* `Call`, `Call.operation`: what can be asked.
* `Volume.Effect`: what it does to the volume.
* `Volume.Standing`: what holds of a volume at any time.

## Main results

* `Volume.call_ends`: every call has one of the effects.
* `Volume.Standing.mount`, `Volume.Standing.call`: mounting and calls keep a volume standing.
-/

namespace PocketKernel

/-- A volume of eight inodes on twenty sectors. -/
def Geometry.tiny : Geometry where
  startLba := 0
  totalSectors := 20
  inodeCount := 8
  inodeCount_pos := by decide
  inodeCount_le := by decide
  table_lt := by decide
  blocks_le := by decide
  end_lt := by decide

/-- What a client can ask of a volume. -/
inductive Call where
  | touch (path : Text)
  | mkdir (path : Text)
  | write (path : Text) (offset : ℕ) (data : List UInt8) (truncate : Bool)
  | read (path : Text) (offset count : ℕ)
  | list (path : Text)
  | stat (path : Text)

/-- The operation of a call, without its answer. -/
def Call.operation {δ : Type} [BlockDevice δ] : Call → VolumeM δ Unit
  | touch path => VolumeM.touch path
  | mkdir path => VolumeM.mkdir path
  | write path offset data truncate => do
    let _ ← VolumeM.write path offset data truncate
    pure ()
  | read path offset count => do
    let _ ← VolumeM.read path offset count
    pure ()
  | list path => do
    let _ ← VolumeM.list path
    pure ()
  | stat path => do
    let _ ← VolumeM.stat path
    pure ()

namespace Volume

variable {δ α : Type} [BlockDevice δ] [LawfulDevice δ] {g : Geometry} {v w x : Volume δ}
  {kind : InodeKind} {outcome : Except Stop Unit} {k : ℕ}

/-! ### What a new entry leaves alone -/

theorem Created.sound (hw : v.snapshot.Sound g) (h : v.Created g kind outcome w) :
    w.snapshot.Sound g := by
  cases h with
  | refused cause hsame => rwa [hsame]
  | lost hvacancy hfault hx =>
    rw [hx]
    exact hvacancy.sound_enlisted hw kind
  | entered hvacancy hvx hx hrewrites happended => exact hrewrites.sound
  | undone cause hvacancy hvx hx hrewrites happended hreleases => exact hreleases.sound

/-- Creating an entry leaves every inode alone but the directory and the new one. -/
theorem Created.spares (h : v.Created g kind outcome w) (hknown : v.snapshot.Known g k)
    (hfile : (v.snapshot.memory.inode k).isDirectory = false) :
    v.snapshot.Spares k w.snapshot := by
  have hparent {parent index : ℕ} {record : DirectoryRecord}
      (hvacancy : v.snapshot.Vacancy g parent index record) : k ≠ parent := by
    rintro rfl
    have hdirectory := hvacancy.directory
    rw [hfile] at hdirectory
    cases hdirectory
  cases h with
  | refused cause hsame =>
    rw [hsame]
    exact .refl _ _
  | lost hvacancy hfault hx =>
    rw [hx]
    exact Snapshot.spares_enlisted (hvacancy.lowest.ne_of_known hknown)
  | entered hvacancy hvx hx hrewrites happended =>
    have hhanded : v.snapshot.Spares k _ := hx ▸
      Snapshot.spares_enrolled (hvacancy.lowest.ne_of_known hknown)
    exact hhanded.trans (hrewrites.reworks.spares k (hparent hvacancy))
  | undone cause hvacancy hvx hx hrewrites happended hreleases =>
    have hindex := hvacancy.lowest.ne_of_known hknown
    have hhanded : v.snapshot.Spares k _ := hx ▸ Snapshot.spares_enrolled hindex
    exact (hhanded.trans (hrewrites.reworks.spares k (hparent hvacancy))).trans
      (hreleases.spares k hindex)

/-- After the inode of a new entry was handed out, it has no blocks, and no other has new ones. -/
theorem gained_enrolled {w w' : Snapshot} {parent index slot block : ℕ} {y : Inode}
    (hy : ∀ slot, y.blockAt slot = none) (h : (w.enrolled index y).Reworks parent w')
    (hblock : (w'.memory.inode k).blockAt slot = some block) :
    (∃ slot, (w.memory.inode k).blockAt slot = some block) ∨ w.memory.blockUsed block = false := by
  have hold {slot : ℕ} (hslot : ((w.enrolled index y).memory.inode k).blockAt slot = some block) :
      ∃ slot, (w.memory.inode k).blockAt slot = some block := by
    by_cases hk : k = index
    · subst hk
      rw [Snapshot.memory_enrolled, hy] at hslot
      cases hslot
    · rw [(Snapshot.spares_enrolled hk).memory_inode] at hslot
      exact ⟨slot, hslot⟩
  by_cases hk : k = parent
  · subst hk
    rcases h.gained hblock with ⟨slot', hslot'⟩ | hfree
    · exact .inl (hold hslot')
    · exact .inr hfree
  · rw [(h.spares k hk).memory_inode] at hblock
    exact .inl (hold hblock)

/-- A block that an inode points at after an entry was created was its own or was free. -/
theorem Created.gained {slot block : ℕ} (h : v.Created g kind outcome w)
    (hblock : (w.snapshot.memory.inode k).blockAt slot = some block) :
    (∃ slot, (v.snapshot.memory.inode k).blockAt slot = some block)
      ∨ v.snapshot.memory.blockUsed block = false := by
  have hempty (parent : UInt32) (slot : ℕ) : (Inode.empty kind parent).blockAt slot = none :=
    Inode.blockAt_empty kind parent
  cases h with
  | refused cause hsame =>
    rw [hsame] at hblock
    exact .inl ⟨slot, hblock⟩
  | @lost _ parent index _ hvacancy hfault hx =>
    rw [hx] at hblock
    by_cases hk : k = index
    · subst hk
      rw [Snapshot.memory_enlisted, hempty] at hblock
      cases hblock
    · rw [(Snapshot.spares_enlisted hk).memory_inode] at hblock
      exact .inl ⟨slot, hblock⟩
  | entered hvacancy hvx hx hrewrites happended =>
    have hreworks := hrewrites.reworks
    rw [hx] at hreworks
    exact gained_enrolled (hempty _) hreworks hblock
  | @undone _ _ _ parent index _ cause hvacancy hvx hx hrewrites happended hreleases =>
    have hreworks := hrewrites.reworks
    rw [hx] at hreworks
    by_cases hk : k = index
    · subst hk
      rw [hreleases.memory_inode, Inode.blockAt_free] at hblock
      cases hblock
    · rw [(hreleases.spares k hk).memory_inode] at hblock
      exact gained_enrolled (hempty _) hreworks hblock

/-! ### Calls -/

/-- What a call does to a volume. -/
inductive Effect (g : Geometry) (v : Volume δ) : Call → Except Stop Unit → Volume δ → Prop
  /-- Nothing changes. -/
  | same {call : Call} {outcome : Except Stop Unit} {w : Volume δ} : w.snapshot = v.snapshot →
      Effect g v call outcome w
  /-- An entry is created. -/
  | touched {path : Text} {outcome : Except Stop Unit} {w : Volume δ} :
      v.Created g .file outcome w → Effect g v (.touch path) outcome w
  /-- A directory is created. -/
  | made {path : Text} {outcome : Except Stop Unit} {w : Volume δ} :
      v.Created g .directory outcome w → Effect g v (.mkdir path) outcome w
  /-- The inode that a path leads to is written to. -/
  | written {path : Text} {offset : ℕ} {data : List UInt8} {truncate : Bool} {index : ℕ}
      {outcome : Except Stop Unit} {w : Volume δ} : (v.run (VolumeM.resolve path)).1 = .ok index →
      v.snapshot.resolveFile path = .ok index → v.Rewrites g index w →
      Effect g v (.write path offset data truncate) outcome w

omit [BlockDevice δ] [LawfulDevice δ] in
theorem run_unit (operation : VolumeM δ α) (v : Volume δ) :
    v.run (operation >>= fun _ => pure ())
      = ((v.run operation).1.map fun _ => (), (v.run operation).2) := by
  rw [run_bind]
  rcases v.run operation with ⟨stop | answer, left⟩
  · rfl
  · rfl

omit [BlockDevice δ] [LawfulDevice δ] in
theorem Ends.unit {operation : VolumeM δ α} {mid : Except Stop α → Volume δ → Prop}
    {post : Except Stop Unit → Volume δ → Prop} (h : v.Ends operation mid)
    (himp : ∀ outcome w, mid outcome w → post (outcome.map fun _ => ()) w) :
    v.Ends (operation >>= fun _ => pure ()) post :=
  h.bind (fun answer w hmid => himp (.ok answer) w hmid)
    fun stop w hmid => himp (.error stop) w hmid

/-- **Every call has one of the effects**, and leaves the volume mounted or not as it was. -/
theorem call_ends (hv : v.Shaped g) (hw : v.snapshot.Sound g) (call : Call) :
    v.Ends call.operation fun outcome w => v.Continues g w ∧ v.Effect g call outcome w := by
  cases call with
  | touch path =>
    exact (touch_ends hv hw path).mono fun _ _ h => ⟨h.1, h.2.elim .same .touched⟩
  | mkdir path =>
    exact (mkdir_ends hv hw path).mono fun _ _ h => ⟨h.1, h.2.elim (fun h => .same h.1) .made⟩
  | write path offset data truncate =>
    refine (write_ends hv hw path offset data truncate).unit fun _ _ h => ⟨h.1, ?_⟩
    rcases h.2 with ⟨hsame, -⟩ | ⟨index, hrun, hresolve, hrewrites, -⟩
    · exact .same hsame
    · exact .written hrun hresolve hrewrites
  | read path offset count =>
    exact (read_keeps hv hw path offset count).unit fun _ _ h => ⟨h.1, .same h.2⟩
  | list path => exact (list_keeps hv hw path).unit fun _ _ h => ⟨h.1, .same h.2⟩
  | stat path => exact (stat_keeps hv hw path).unit fun _ _ h => ⟨h.1, .same h.2⟩

omit [LawfulDevice δ] in
/-- A volume that is not mounted refuses every call. -/
theorem call_unmounted (h : v.mounted = false) (call : Call) :
    v.run call.operation = (.error (.error .notReady), v) := by
  have hrefused {β : Type} (next : Unit → VolumeM δ β) := run_requireMounted_bind h next
  cases call with
  | touch path => exact hrefused _
  | mkdir path => exact hrefused _
  | write path offset data truncate =>
    rw [Call.operation, run_bind, VolumeM.write, hrefused]
  | read path offset count => rw [Call.operation, run_bind, VolumeM.read, hrefused]
  | list path => rw [Call.operation, run_bind, VolumeM.list, hrefused]
  | stat path => rw [Call.operation, run_bind, VolumeM.stat, hrefused]

theorem Effect.sound {asked : Call} (hw : v.snapshot.Sound g) (h : v.Effect g asked outcome w) :
    w.snapshot.Sound g := by
  cases h with
  | same hsame => rwa [hsame]
  | touched hcreated => exact hcreated.sound hw
  | made hcreated => exact hcreated.sound hw
  | written hrun hresolve hrewrites => exact hrewrites.sound

/-! ### Any time -/

/-- **What holds of a volume at any time.** -/
structure Standing (g : Geometry) (v : Volume δ) : Prop where
  geometry : v.geometry = g
  mounted : v.mounted = true → v.Shaped g ∧ v.snapshot.Sound g
  unmounted : v.mounted = false → v.snapshot.Dormant g

theorem Standing.of_sound (hv : v.Shaped g) (hw : v.snapshot.Sound g) : v.Standing g :=
  ⟨hv.geometry, fun _ => ⟨hv, hw⟩, fun _ => .inr hw.crash⟩

theorem Standing.dormant (hv : v.Standing g) : v.snapshot.Dormant g := by
  cases hmounted : v.mounted with
  | true => exact .inr (hv.mounted hmounted).2.crash
  | false => exact hv.unmounted hmounted

theorem Standing.call (hv : v.Standing g) (call : Call) :
    (v.run call.operation).2.Standing g := by
  cases hmounted : v.mounted with
  | false =>
    rw [call_unmounted hmounted]
    exact hv
  | true =>
    obtain ⟨hshaped, hsound⟩ := hv.mounted hmounted
    obtain ⟨hcontinues, heffect⟩ := call_ends hshaped hsound call
    exact .of_sound hcontinues.shaped (heffect.sound hsound)

/-- A sound volume is never formatted again. -/
theorem loadable_of_sound {w : Snapshot} (h : w.crash.Sound g) : w.Loadable g where
  accepted := h.accepted
  directory := h.root_directory .disk
  used := h.known_root.used .disk

/-- What formatting stores is sound. -/
theorem sound_formattedSnapshot (hgeometry : v.geometry = g) :
    v.formattedSnapshot.Sound g := by
  have hraw : v.formattedSnapshot.Raw := ⟨fun _ => .inr rfl, .inr rfl, rfl⟩
  refine hraw.sound ⟨?_, rfl, rfl⟩
  rw [← hgeometry]
  exact v.geometry.accepts_superblock

/-- What mounting finds or makes is sound. -/
theorem Mounts.standing (hv : v.Standing g) (hmounted : v.mounted = false)
    (h : v.Mounts g outcome w) : w.Standing g := by
  have hdormant := hv.unmounted hmounted
  have hclosed (hplaced : w.Placed g) (hdormant : w.snapshot.Dormant g) (hw : w.mounted = false) :
      w.Standing g :=
    ⟨hplaced.geometry, (fun h => by rw [hw] at h; cases h), fun _ => hdormant⟩
  cases h with
  | tooSmall hsmall => exact hv
  | loaded hopen hshaped hload hw =>
    refine .of_sound hshaped ?_
    rw [hw]
    rcases hdormant with hraw | hsound
    · exact hraw.sound hload
    · exact hsound
  | formatted hopen hshaped hload hw =>
    refine .of_sound hshaped ?_
    rw [hw]
    exact sound_formattedSnapshot hv.geometry
  | refused hw hplaced hfault hsame => exact hclosed hplaced (hdormant.of_crash hsame) hw
  | interrupted hw hplaced hfault hload hraw =>
    rcases hdormant with hraw' | hsound
    · exact hclosed hplaced (.inl (hraw hraw')) hw
    · exact absurd (loadable_of_sound hsound) hload

omit [LawfulDevice δ] in
/-- A mounted volume is not mounted again. -/
theorem mount_mounted (h : v.mounted = true) : v.run VolumeM.mount = (.ok (), v) := by
  have hends : v.Ends VolumeM.mount fun outcome w => (outcome, w) = (.ok (), v) := by
    rw [VolumeM.mount, ends_get_bind, if_pos h]
    rfl
  exact hends

theorem Standing.mount (hv : v.Standing g) : (v.run VolumeM.mount).2.Standing g := by
  cases hmounted : v.mounted with
  | true =>
    rw [mount_mounted hmounted]
    exact hv
  | false => exact (mount_ends hv.geometry hmounted).1.standing hv hmounted

end Volume

end PocketKernel
