import PocketKernel.Proofs.Volume.Sound
import PocketKernel.Proofs.Volume.Transfer
import PocketKernel.Volume.Operations

/-!
# Reading contents and following paths

Nothing that only reads changes what a volume holds. What it answers is a function of the snapshot,
written down here once more without transfers: the content of an inode, the records of a directory,
and where a path leads. The operations give this answer, or report that a transfer was refused.

## Main definitions

* `Stop.ofExcept`: an answer or an error, as an outcome.
* `Snapshot.look`, `Snapshot.step`, `Snapshot.walk`: where names and paths lead.
* `Volume.Reads`: an operation that reads gave its answer, or was refused a transfer.

## Main results

* `Volume.readContent_ends`, `Volume.records_ends`, `Volume.walk_ends`.
* `Snapshot.Sound.known_walk`: a path leads to an inode that is in use in both copies.
-/

namespace PocketKernel

/-- An answer or an error, as an outcome. -/
def Stop.ofExcept {α : Type} : Except VolumeError α → Except Stop α
  | .ok answer => .ok answer
  | .error cause => .error (.error cause)

namespace Snapshot

variable {g : Geometry} {w : Snapshot} {index : ℕ}

/-! ### Where paths lead -/

/-- The inode that a record with this name leads to, past stale records. -/
def look (w : Snapshot) (directory : ℕ) (name : Text) : Option ℕ :=
  (((w.records (w.memory.inode directory)).filter fun record =>
    (w.memory.inode record.target.toNat).isLive).find? (·.isNamed name)).map (·.target.toNat)

/-- One step along a path. -/
def step (w : Snapshot) (current : ℕ) (segment : Text) : Except VolumeError ℕ :=
  if (w.memory.inode current).isDirectory then
    if segment = ['.', '.'] then .ok (w.memory.inode current).parent.toNat
    else match w.look current segment with
      | some target => .ok target
      | none => .error .notFound
  else .error .notADirectory

/-- Where a path leads from an inode. -/
def walkFrom (w : Snapshot) (current : ℕ) (segments : List Text) : Except VolumeError ℕ :=
  segments.foldlM w.step current

/-- Where a path leads from the root. -/
def walk (w : Snapshot) (segments : List Text) : Except VolumeError ℕ := w.walkFrom 0 segments

/-- Where a path leads. -/
def resolve (w : Snapshot) (path : Text) : Except VolumeError ℕ :=
  match Path.components path with
  | .ok segments => w.walk segments
  | .error cause => .error cause

/-- Where a path to a file leads; a directory is refused. -/
def resolveFile (w : Snapshot) (path : Text) : Except VolumeError ℕ :=
  match w.resolve path with
  | .ok index => if (w.memory.inode index).isDirectory then .error .isADirectory else .ok index
  | .error cause => .error cause

theorem Sound.known_of_isLive (hw : w.Sound g) (hlt : index < g.inodeCount)
    (hlive : (w.memory.inode index).isLive = true) (hstored : w.disk.inode index ≠ Inode.blank) :
    w.Known g index := by
  refine ⟨hlt, fun c => hw.live_used c hlive, ?_⟩
  rintro (_ | _)
  · exact Inode.ne_blank_of_isLive hlive
  · exact hstored

/-- A record that is not stale leads to a known inode. -/
theorem Sound.known_look (hw : w.Sound g) {directory target : ℕ} {name : Text}
    (hdirectory : (w.memory.inode directory).isDirectory = true)
    (h : w.look directory name = some target) :
    w.Known g target ∧ (w.memory.inode target).isLive = true ∧ target ≠ 0 := by
  unfold look at h
  obtain ⟨record, hfind, rfl⟩ := Option.map_eq_some_iff.mp h
  have hmem := List.mem_of_find?_eq_some hfind
  rw [List.mem_filter] at hmem
  have hlisting := hw.listing .memory hdirectory
  exact ⟨hw.known_of_isLive (hlisting.target_lt record hmem.1) hmem.2
    (hlisting.target_stored record hmem.1), hmem.2, hlisting.target_ne_zero record hmem.1⟩

theorem Sound.known_step (hw : w.Sound g) {current next : ℕ} {segment : Text}
    (h : w.step current segment = .ok next) : w.Known g next := by
  unfold step at h
  split at h
  · rename_i hdirectory
    split at h
    · cases h
      exact hw.known_parent .memory current
    · split at h
      · rename_i hlook
        cases h
        exact (hw.known_look hdirectory hlook).1
      · cases h
  · cases h

theorem Sound.known_walkFrom (hw : w.Sound g) {segments : List Text} {current last : ℕ}
    (hcurrent : w.Known g current) (h : w.walkFrom current segments = .ok last) :
    w.Known g last := by
  induction segments generalizing current with
  | nil =>
    cases h
    exact hcurrent
  | cons segment segments ih =>
    rw [walkFrom, List.foldlM_cons] at h
    cases hstep : w.step current segment with
    | error cause => rw [hstep] at h; cases h
    | ok next =>
      rw [hstep] at h
      exact ih (hw.known_step hstep) h

/-- **A path leads to an inode that is in use in both copies**, even one that ends in `..`. -/
theorem Sound.known_walk (hw : w.Sound g) {segments : List Text} {last : ℕ}
    (h : w.walk segments = .ok last) : w.Known g last :=
  hw.known_walkFrom hw.known_root h

theorem Sound.known_resolve (hw : w.Sound g) {path : Text} {last : ℕ}
    (h : w.resolve path = .ok last) : w.Known g last := by
  unfold resolve at h
  cases hsegments : Path.components path with
  | error cause => rw [hsegments] at h; cases h
  | ok segments =>
    rw [hsegments] at h
    exact hw.known_walk h

theorem of_resolveFile_eq_ok {path : Text} {last : ℕ} (h : w.resolveFile path = .ok last) :
    w.resolve path = .ok last ∧ (w.memory.inode last).isDirectory = false := by
  unfold resolveFile at h
  cases hlast : w.resolve path with
  | error cause => rw [hlast] at h; cases h
  | ok index =>
    rw [hlast] at h
    by_cases hdirectory : (w.memory.inode index).isDirectory = true
    · simp only [hdirectory, if_true] at h
      cases h
    · simp only [hdirectory] at h
      cases h
      exact ⟨rfl, by simpa using hdirectory⟩

/-! ### Stretches of a content -/

/-- The bytes of an inode at a stretch of positions. -/
def bytesAt (w : Snapshot) (x : Inode) (position count : ℕ) : List UInt8 :=
  (List.range count).map fun k => w.byteAt x (position + k)

theorem bytesAt_add (x : Inode) (position front back : ℕ) :
    w.bytesAt x position (front + back)
      = w.bytesAt x position front ++ w.bytesAt x (position + front) back := by
  rw [bytesAt, List.range_add, List.map_append, List.map_map]
  simp only [bytesAt, Function.comp_def, Nat.add_assoc]

theorem bytesAt_zero (x : Inode) : w.bytesAt x 0 x.size.toNat = w.content x := by
  simp only [bytesAt, content, Nat.zero_add]

/-- A chunk of a content is a slice of its block. -/
theorem slice_eq_bytesAt {x : Inode} {position count block : ℕ}
    (hfits : position % sectorSize + count ≤ sectorSize)
    (hblock : x.blockAt (position / sectorSize) = some block) :
    (w.block block).slice (position % sectorSize) count = w.bytesAt x position count := by
  rw [Sector.slice_eq_map _ hfits, bytesAt]
  refine List.map_congr_left fun k hk => ?_
  rw [List.mem_range] at hk
  have hdiv : (position + k) / sectorSize = position / sectorSize := by
    simp only [sectorSize] at *
    omega
  have hmod : (position + k) % sectorSize = position % sectorSize + k := by
    simp only [sectorSize] at *
    omega
  rw [byteAt_of_blockAt (by rw [hdiv]; exact hblock), hmod]

end Snapshot

namespace Volume

variable {δ α : Type} [BlockDevice δ] [LawfulDevice δ] {g : Geometry} {v w x : Volume δ}
  {index : ℕ}

/-! ### Reading -/

/-- An operation that reads leaves all that the volume holds, and gives its answer or was refused a
transfer. -/
structure Reads (g : Geometry) (v : Volume δ) (answer : Except VolumeError α)
    (outcome : Except Stop α) (w : Volume δ) : Prop where
  continues : v.Continues g w
  snapshot : w.snapshot = v.snapshot
  outcome : outcome = Stop.ofExcept answer ∨ (outcome = .error (.error .io) ∧ v.Faulted w)

/-- What was answered is what was to be answered. -/
theorem Reads.answer_eq {answer : Except VolumeError α} {a : α} (h : v.Reads g answer (.ok a) w) :
    answer = .ok a := by
  rcases h.outcome with houtcome | ⟨⟨⟩, -⟩
  cases answer with
  | error cause => cases houtcome
  | ok b =>
    cases houtcome
    rfl

theorem Shaped.reads (hv : v.Shaped g) (answer : Except VolumeError α) :
    v.Reads g answer (Stop.ofExcept answer) v :=
  ⟨hv.continues, rfl, .inl rfl⟩

/-- A step that reads, and then an operation that reads. -/
theorem Reads.bind {β : Type} {first : VolumeM δ β} {next : β → VolumeM δ α}
    {answer : Except VolumeError β} {rest : Except VolumeError α}
    (hfirst : v.Ends first fun outcome w => v.Reads g answer outcome w)
    (hok : ∀ b, answer = .ok b → ∀ w : Volume δ, v.Continues g w → w.snapshot = v.snapshot →
      w.Ends (next b) fun outcome x => w.Reads g rest outcome x)
    (herror : ∀ cause, answer = .error cause → rest = .error cause) :
    v.Ends (first >>= next) fun outcome w => v.Reads g rest outcome w := by
  refine Ends.bind hfirst ?_ ?_
  · rintro b w ⟨hvw, hsnapshot, hanswer | ⟨⟨⟩, -⟩⟩
    cases answer with
    | error cause => cases hanswer
    | ok b' =>
      cases hanswer
      refine (hok b rfl w hvw hsnapshot).mono ?_
      rintro outcome x ⟨hwx, hsnapshot', houtcome⟩
      refine ⟨hvw.trans hwx, hsnapshot'.trans hsnapshot, houtcome.imp_right ?_⟩
      rintro ⟨rfl, hfault⟩
      exact ⟨rfl, .of_continues hvw hfault⟩
  · rintro stop w ⟨hvw, hsnapshot, hanswer | ⟨⟨rfl⟩, hfault⟩⟩
    · cases answer with
      | ok b => cases hanswer
      | error cause =>
        cases hanswer
        exact ⟨hvw, hsnapshot, .inl (by rw [herror cause rfl]; rfl)⟩
    · exact ⟨hvw, hsnapshot, .inr ⟨rfl, hfault⟩⟩

omit [LawfulDevice δ] in
theorem ends_blockOf_bind {post : Except Stop α → Volume δ → Prop} (hv : v.Shaped g) {x : Inode}
    {slot block : ℕ} (hblock : x.blockAt slot = some block) (hlt : block < g.dataBlocks)
    (next : ℕ → VolumeM δ α) :
    v.Ends (VolumeM.blockOf x slot >>= next) post ↔ v.Ends (next block) post := by
  obtain ⟨hslot, hne, rfl⟩ := Inode.blockAt_eq_some.mp hblock
  have hin : ¬ (decide (x.direct[slot] = noBlock)
      || decide (v.geometry.dataBlocks ≤ x.direct[slot].toNat)) = true := by
    rw [hv.geometry]
    simp only [Bool.or_eq_true, decide_eq_true_eq, not_or]
    exact ⟨hne, Nat.not_le.mpr hlt⟩
  simp only [VolumeM.blockOf, Vector.getElem?_eq_getElem hslot, bind_assoc]
  rw [ends_get_bind, if_neg hin]
  rfl

/-- The chunks of a stretch are read one after the other. -/
theorem readChunks_ends (hv : v.Shaped g) {x : Inode} {position left : ℕ}
    (hblocks : ∀ k < left, ∃ block, x.blockAt ((position + k) / sectorSize) = some block
      ∧ block < g.dataBlocks) :
    v.Ends (VolumeM.readChunks x position left) fun outcome w =>
      v.Reads g (.ok (v.snapshot.bytesAt x position left)) outcome w := by
  induction left using Nat.strongRecOn generalizing v position with
  | ind left ih =>
  rw [VolumeM.readChunks]
  by_cases hnil : left = 0
  · subst hnil
    rw [dif_pos rfl]
    exact hv.reads _
  rw [dif_neg hnil]
  have hpos := VolumeM.chunkLength_pos position hnil
  dsimp only
  generalize hcount : VolumeM.chunkLength position left = count at hpos ⊢
  have hle : count ≤ left := by rw [← hcount, VolumeM.chunkLength]; omega
  have hfits : position % sectorSize + count ≤ sectorSize := by
    have : position % sectorSize < sectorSize := Nat.mod_lt _ (by decide)
    rw [← hcount, VolumeM.chunkLength]
    omega
  obtain ⟨block, hblock, hlt⟩ := hblocks 0 (Nat.pos_of_ne_zero hnil)
  rw [Nat.add_zero] at hblock
  rw [ends_blockOf_bind hv hblock hlt, ends_get_bind]
  have hsplit : v.snapshot.bytesAt x position left = v.snapshot.bytesAt x position count
      ++ v.snapshot.bytesAt x (position + count) (left - count) := by
    rw [← Snapshot.bytesAt_add, Nat.add_sub_cancel' hle]
  have hread : v.Ends (VolumeM.readSector (v.geometry.blockLba block)) fun outcome w =>
      v.Reads g (.ok (v.snapshot.block block)) outcome w := by
    refine (readBlock_ends hv hlt).mono ?_
    rintro outcome w ⟨hvw, hsnapshot, ⟨rfl, -⟩ | ⟨rfl, hfault⟩⟩
    · exact ⟨hvw, hsnapshot, .inl rfl⟩
    · exact ⟨hvw, hsnapshot, .inr ⟨rfl, hfault⟩⟩
  refine Reads.bind hread ?_ fun _ h => by cases h
  rintro sector ⟨⟩ w hvw hw
  refine Reads.bind (ih (left - count) (by omega) hvw.shaped fun k hk => ?_) ?_
    fun _ h => by cases h
  · rw [Nat.add_assoc]
    exact hblocks (count + k) (by omega)
  · rintro rest ⟨⟩ y hwy hy
    rw [hsplit, ← Snapshot.slice_eq_bytesAt hfits hblock, hw]
    exact hwy.shaped.reads _

/-- The content of an inode is read from one position on. -/
theorem readContent_ends (hv : v.Shaped g) (hw : v.snapshot.Sound g)
    (hknown : v.snapshot.Known g index) (offset count : ℕ) :
    v.Ends (VolumeM.readContent index offset count) fun outcome w =>
      v.Reads g (.ok (v.snapshot.bytesAt (v.snapshot.memory.inode index) offset
        (min count ((v.snapshot.memory.inode index).size.toNat - offset)))) outcome w := by
  unfold VolumeM.readContent
  rw [ends_findInode_bind hv hknown.lt]
  by_cases hend : (v.snapshot.memory.inode index).size.toNat ≤ offset
  · rw [if_pos hend, Nat.sub_eq_zero_of_le hend, Nat.min_zero]
    exact hv.reads _
  · rw [if_neg hend]
    refine readChunks_ends hv fun k hk => ?_
    obtain ⟨block, hblock⟩ := Option.isSome_iff_exists.mp
      ((hw.filled .memory index).block (offset + k) (by rw [Snapshot.image_memory]; omega))
    exact ⟨block, hblock, hw.owned_lt (hknown.owns hblock)⟩

/-! ### Directories -/

/-- The records of a directory. -/
theorem records_ends (hv : v.Shaped g) (hw : v.snapshot.Sound g)
    (hknown : v.snapshot.Known g index) :
    v.Ends (VolumeM.records index) fun outcome w =>
      v.Reads g (if (v.snapshot.memory.inode index).isDirectory = true
        then .ok (v.snapshot.records (v.snapshot.memory.inode index))
        else .error .notADirectory) outcome w := by
  unfold VolumeM.records
  rw [ends_findInode_bind hv hknown.lt]
  by_cases hdirectory : (v.snapshot.memory.inode index).isDirectory = true
  · have hmod := (hw.listing .memory hdirectory).size_mod
    rw [Snapshot.image_memory] at hmod
    simp only [hdirectory, Bool.not_true, Bool.false_eq_true, if_false, if_true, hmod, ne_eq,
      not_true_eq_false]
    refine Reads.bind (readContent_ends hv hw hknown 0 _) ?_ fun _ h => by cases h
    rintro content ⟨⟩ w hvw hsnapshot
    rw [Nat.sub_zero, Nat.min_self, Snapshot.bytesAt_zero, Snapshot.length_content,
      if_neg (by simp)]
    exact hvw.shaped.reads _
  · simp only [hdirectory, Bool.not_false, if_true, Bool.false_eq_true, if_false]
    exact hv.reads (.error .notADirectory)

/-- Whether an inode is live is what the snapshot says, past the end of the table as well. -/
theorem getD_isLive (index : ℕ) : ((v.inodes[index]?.map Inode.isLive).getD false)
    = (v.snapshot.memory.inode index).isLive := by
  simp only [snapshot, Array.getD_eq_getD_getElem?]
  cases v.inodes[index]? with
  | some x => rfl
  | none => rfl

theorem liveRecords_ends (hv : v.Shaped g) (hw : v.snapshot.Sound g)
    (hknown : v.snapshot.Known g index) :
    v.Ends (VolumeM.liveRecords index) fun outcome w =>
      v.Reads g (if (v.snapshot.memory.inode index).isDirectory = true
        then .ok ((v.snapshot.records (v.snapshot.memory.inode index)).filter fun record =>
          (v.snapshot.memory.inode record.target.toNat).isLive)
        else .error .notADirectory) outcome w := by
  unfold VolumeM.liveRecords
  refine Reads.bind (records_ends hv hw hknown) ?_ ?_
  · intro all hall w hvw hsnapshot
    split at hall
    · rename_i hdirectory
      cases hall
      rw [if_pos hdirectory, ends_get_bind]
      simp only [getD_isLive, hsnapshot]
      exact hvw.shaped.reads _
    · cases hall
  · intro cause h
    split at h
    · cases h
    · rename_i hdirectory
      cases h
      rw [if_neg hdirectory]

theorem lookup_ends (hv : v.Shaped g) (hw : v.snapshot.Sound g)
    (hknown : v.snapshot.Known g index)
    (hdirectory : (v.snapshot.memory.inode index).isDirectory = true) (name : Text) :
    v.Ends (VolumeM.lookup index name) fun outcome w =>
      v.Reads g (.ok (v.snapshot.look index name)) outcome w := by
  unfold VolumeM.lookup
  have hlive := liveRecords_ends hv hw hknown
  rw [if_pos hdirectory] at hlive
  refine Reads.bind hlive ?_ fun _ h => by cases h
  rintro live ⟨⟩ w hvw hsnapshot
  exact hvw.shaped.reads _

/-! ### Paths -/

theorem step_ends (hv : v.Shaped g) (hw : v.snapshot.Sound g)
    (hknown : v.snapshot.Known g index) (segment : Text) :
    v.Ends (VolumeM.step index segment) fun outcome w =>
      v.Reads g (v.snapshot.step index segment) outcome w := by
  unfold VolumeM.step Snapshot.step
  rw [ends_findInode_bind hv hknown.lt]
  by_cases hdirectory : (v.snapshot.memory.inode index).isDirectory = true
  · simp only [hdirectory, Bool.not_true, Bool.false_eq_true, if_false, if_true]
    by_cases hdots : segment = ['.', '.']
    · rw [if_pos hdots, if_pos hdots]
      exact hv.reads _
    · rw [if_neg hdots, if_neg hdots]
      refine Reads.bind (lookup_ends hv hw hknown hdirectory segment) ?_ fun _ h => by cases h
      rintro found ⟨⟩ w hvw hsnapshot
      cases v.snapshot.look index segment with
      | some target => exact hvw.shaped.reads _
      | none => exact hvw.shaped.reads (.error .notFound)
  · simp only [hdirectory, Bool.not_false, if_true, Bool.false_eq_true, if_false]
    exact hv.reads (.error .notADirectory)

theorem walkFrom_ends (hv : v.Shaped g) (hw : v.snapshot.Sound g)
    (hknown : v.snapshot.Known g index) (segments : List Text) :
    v.Ends (segments.foldlM VolumeM.step index) fun outcome w =>
      v.Reads g (v.snapshot.walkFrom index segments) outcome w := by
  induction segments generalizing v index with
  | nil => exact hv.reads _
  | cons segment segments ih =>
    rw [List.foldlM_cons, Snapshot.walkFrom, List.foldlM_cons]
    refine Reads.bind (step_ends hv hw hknown segment) ?_ ?_
    · intro next hstep w hvw hsnapshot
      rw [hstep, ← hsnapshot]
      rw [← hsnapshot] at hw hstep
      exact ih hvw.shaped hw (hw.known_step hstep)
    · intro cause hstep
      rw [hstep]
      rfl

theorem walk_ends (hv : v.Shaped g) (hw : v.snapshot.Sound g) (segments : List Text) :
    v.Ends (VolumeM.walk segments) fun outcome w =>
      v.Reads g (v.snapshot.walk segments) outcome w :=
  walkFrom_ends hv hw hw.known_root segments

/-- **A path leads where the snapshot says.** -/
theorem resolve_ends (hv : v.Shaped g) (hw : v.snapshot.Sound g) (path : Text) :
    v.Ends (VolumeM.resolve path) fun outcome w =>
      v.Reads g (v.snapshot.resolve path) outcome w := by
  unfold VolumeM.resolve Snapshot.resolve
  cases Path.components path with
  | error cause => exact hv.reads (.error cause)
  | ok segments => exact walk_ends hv hw segments

theorem resolveFile_ends (hv : v.Shaped g) (hw : v.snapshot.Sound g) (path : Text) :
    v.Ends (VolumeM.resolveFile path) fun outcome w =>
      v.Reads g (v.snapshot.resolveFile path) outcome w := by
  unfold VolumeM.resolveFile Snapshot.resolveFile
  refine Reads.bind (resolve_ends hv hw path) ?_ ?_
  · intro last hlast w hvw hsnapshot
    rw [hlast]
    rw [← hsnapshot] at hw hlast
    rw [ends_findInode_bind hvw.shaped (hw.known_resolve hlast).lt, hsnapshot]
    dsimp only
    split
    · exact hvw.shaped.reads (.error .isADirectory)
    · exact hvw.shaped.reads _
  · intro cause h
    rw [h]

omit [LawfulDevice δ] in
/-- A file is where its path leads. -/
theorem run_resolve_of_resolveFile (v : Volume δ) (path : Text) :
    v.Ends (VolumeM.resolveFile path) fun outcome _ => ∀ index, outcome = .ok index →
      (v.run (VolumeM.resolve path)).1 = .ok index := by
  have hresolve : v.Ends (VolumeM.resolve path)
    fun outcome _ => (v.run (VolumeM.resolve path)).1 = outcome := rfl
  refine Ends.bind hresolve ?_ fun stop w _ index h => by cases h
  intro last w hlast
  have hany : w.Ends (VolumeM.findInode last) fun _ _ => True := trivial
  refine Ends.bind hany ?_ fun stop x _ index h => by cases h
  intro inode x _
  cases inode.isDirectory with
  | true => exact fun index h => by cases h
  | false =>
    intro index h
    cases h
    exact hlast

/-! ### Asking -/

/-- Nothing that the volume holds has changed. -/
def Keeps (g : Geometry) (v w : Volume δ) : Prop := v.Continues g w ∧ w.snapshot = v.snapshot

theorem Keeps.bind {β : Type} {first : VolumeM δ β} {next : β → VolumeM δ α}
    (hfirst : v.Ends first fun _ w => v.Keeps g w)
    (hnext : ∀ b (w : Volume δ), v.Keeps g w → w.Ends (next b) fun _ x => w.Keeps g x) :
    v.Ends (first >>= next) fun _ w => v.Keeps g w := by
  refine Ends.bind hfirst ?_ fun _ _ h => h
  intro b w hvw
  refine (hnext b w hvw).mono fun _ x hwx => ?_
  exact ⟨hvw.1.trans hwx.1, hwx.2.trans hvw.2⟩

/-- After an operation that reads, its answer is known. -/
theorem Reads.bind_keeps {β : Type} {first : VolumeM δ β} {next : β → VolumeM δ α}
    {answer : Except VolumeError β}
    (hfirst : v.Ends first fun outcome w => v.Reads g answer outcome w)
    (hnext : ∀ b, answer = .ok b → ∀ w : Volume δ, v.Keeps g w →
      w.Ends (next b) fun _ x => w.Keeps g x) :
    v.Ends (first >>= next) fun _ w => v.Keeps g w := by
  refine Ends.bind hfirst ?_ fun _ _ h => ⟨h.continues, h.snapshot⟩
  intro b w h
  refine (hnext b h.answer_eq w ⟨h.continues, h.snapshot⟩).mono fun _ x hwx => ?_
  exact ⟨h.continues.trans hwx.1, hwx.2.trans h.snapshot⟩

theorem Ends.keeps {operation : VolumeM δ α} {answer : Except VolumeError α}
    (h : v.Ends operation fun outcome w => v.Reads g answer outcome w) :
    v.Ends operation fun _ w => v.Keeps g w :=
  h.mono fun _ _ hreads => ⟨hreads.continues, hreads.snapshot⟩

theorem findInode_keeps (hv : v.Shaped g) (index : ℕ) :
    v.Ends (VolumeM.findInode index) fun _ w => v.Keeps g w := by
  unfold VolumeM.findInode
  rw [ends_get_bind]
  cases v.inodes[index]? with
  | some x => exact ⟨hv.continues, rfl⟩
  | none => exact ⟨hv.continues, rfl⟩

theorem statOf_keeps (hv : v.Shaped g) (index : ℕ) :
    v.Ends (VolumeM.statOf index) fun _ w => v.Keeps g w :=
  Keeps.bind (findInode_keeps hv index) fun _ _ hvw => ⟨hvw.1.shaped.continues, rfl⟩

theorem entryFor_keeps (hv : v.Shaped g) (name : List UInt8) (index : ℕ) :
    v.Ends (VolumeM.entryFor name index) fun _ w => v.Keeps g w :=
  Keeps.bind (statOf_keeps hv index) fun _ _ hvw => ⟨hvw.1.shaped.continues, rfl⟩

theorem mapM_keeps {β : Type} (hv : v.Shaped g) {step : β → VolumeM δ α} (items : List β)
    (hstep : ∀ item (w : Volume δ), w.Shaped g → w.Ends (step item) fun _ x => w.Keeps g x) :
    v.Ends (items.mapM step) fun _ w => v.Keeps g w := by
  induction items generalizing v with
  | nil => exact ⟨hv.continues, rfl⟩
  | cons item items ih =>
    rw [List.mapM_cons]
    refine Keeps.bind (hstep item v hv) fun _ w hvw => ?_
    exact Keeps.bind (ih hvw.1.shaped) fun _ x hwx => ⟨hwx.1.shaped.continues, rfl⟩

omit [BlockDevice δ] [LawfulDevice δ] in
theorem ends_requireMounted_bind {post : Except Stop α → Volume δ → Prop} (h : v.mounted = true)
    (next : Unit → VolumeM δ α) :
    v.Ends (VolumeM.requireMounted >>= next) post ↔ v.Ends (next ()) post := by
  rw [VolumeM.requireMounted, bind_assoc, ends_get_bind, h]
  rfl

omit [BlockDevice δ] [LawfulDevice δ] in
theorem run_requireMounted_bind (h : v.mounted = false) (next : Unit → VolumeM δ α) :
    v.run (VolumeM.requireMounted >>= next) = (.error (.error .notReady), v) := by
  rw [VolumeM.requireMounted, bind_assoc, run_bind]
  show v.run (ite ((!v.mounted) = true) (VolumeM.fail .notReady) (pure ()) >>= next) = _
  rw [h]
  rfl

theorem requireMounted_keeps (hv : v.Shaped g) :
    v.Ends VolumeM.requireMounted fun _ w => v.Keeps g w := by
  unfold VolumeM.requireMounted
  rw [ends_get_bind]
  split
  · exact ⟨hv.continues, rfl⟩
  · exact ⟨hv.continues, rfl⟩

theorem stat_keeps (hv : v.Shaped g) (hw : v.snapshot.Sound g) (path : Text) :
    v.Ends (VolumeM.stat path) fun _ w => v.Keeps g w := by
  refine Keeps.bind (requireMounted_keeps hv) fun _ w hvw => ?_
  rw [← hvw.2] at hw
  refine Keeps.bind (resolve_ends hvw.1.shaped hw path).keeps fun index x hwx => ?_
  exact statOf_keeps hwx.1.shaped index

theorem read_keeps (hv : v.Shaped g) (hw : v.snapshot.Sound g) (path : Text)
    (offset count : ℕ) : v.Ends (VolumeM.read path offset count) fun _ w => v.Keeps g w := by
  refine Keeps.bind (requireMounted_keeps hv) fun _ w hvw => ?_
  rw [← hvw.2] at hw
  refine Reads.bind_keeps (resolveFile_ends hvw.1.shaped hw path) fun index hindex x hwx => ?_
  have hknown := hw.known_resolve (Snapshot.of_resolveFile_eq_ok hindex).1
  rw [← hwx.2] at hw hknown
  exact (readContent_ends hwx.1.shaped hw hknown offset count).keeps

theorem list_keeps (hv : v.Shaped g) (hw : v.snapshot.Sound g) (path : Text) :
    v.Ends (VolumeM.list path) fun _ w => v.Keeps g w := by
  refine Keeps.bind (requireMounted_keeps hv) fun _ w hvw => ?_
  rw [← hvw.2] at hw
  refine Reads.bind_keeps (resolve_ends hvw.1.shaped hw path) fun index hindex x hwx => ?_
  have hknown := hw.known_resolve hindex
  rw [← hwx.2] at hw hknown
  rw [ends_findInode_bind hwx.1.shaped hknown.lt]
  split
  · refine Keeps.bind (liveRecords_ends hwx.1.shaped hw hknown).keeps fun live y hxy => ?_
    exact mapM_keeps hxy.1.shaped live fun record z hz => entryFor_keeps hz _ _
  · exact Keeps.bind (entryFor_keeps hwx.1.shaped _ _) fun _ y hxy => ⟨hxy.1.shaped.continues, rfl⟩

end Volume

end PocketKernel
