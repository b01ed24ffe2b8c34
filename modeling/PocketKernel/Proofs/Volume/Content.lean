import PocketKernel.Proofs.Volume.Frame
import PocketKernel.Proofs.Volume.Write

/-!
# Replacing the content of an inode

A write first takes the old content away if it is asked to, then lays its chunks over what is
there, and finally stores the inode with its new size. Each of these parts may stop; the lemmas here
list the states in which they do. The inode is stored whatever became of the chunks, so that it
keeps the blocks it has gained.

## Main definitions

* `Snapshot.emptied`: the state after an inode was stored without its content.
* `Snapshot.Base`: what the chunks of a write find.

## Main results

* `Snapshot.Sound.emptied`: taking the content away is harmless.
* `Volume.truncateContent_ends`, `Volume.writeContent_ends`: all the ways these operations end.
-/

namespace PocketKernel

/-! ### Taking blocks back -/

namespace Bitmap

/-- Take one entry back, and remember whether any was in use. -/
def releaseStep (state : Bitmap × Bool) (block : UInt32) : Bitmap × Bool :=
  match state.1.release? block.toNat with
  | some map => (map, true)
  | none => state

variable {map : Bitmap}

theorem releaseStep_fst (state : Bitmap × Bool) (block : UInt32) :
    (releaseStep state block).1 = (state.1.release? block.toNat).getD state.1 := by
  unfold releaseStep
  cases state.1.release? block.toNat with
  | some map => rfl
  | none => rfl

theorem releaseStep_snd {state : Bitmap × Bool} {block : UInt32}
    (h : (releaseStep state block).2 = false) : releaseStep state block = state := by
  unfold releaseStep at *
  cases hrelease : state.1.release? block.toNat with
  | some map => rw [hrelease] at h; cases h
  | none => rfl

theorem length_foldl_releaseStep (blocks : List UInt32) (state : Bitmap × Bool) :
    (blocks.foldl releaseStep state).1.length = state.1.length := by
  induction blocks generalizing state with
  | nil => rfl
  | cons block blocks ih =>
    rw [List.foldl_cons, ih, releaseStep_fst, length_getD_release?]

/-- A row of entries is taken back, those that were not in use included. -/
theorem isSet_foldl_releaseStep {blocks : List UInt32} {state : Bitmap × Bool}
    (hfit : state.1.FitsSector) (k : ℕ) : (blocks.foldl releaseStep state).1.isSet k
      = (state.1.isSet k && !blocks.any (·.toNat = k)) := by
  induction blocks generalizing state with
  | nil => simp
  | cons block blocks ih =>
    have hfit' : (releaseStep state block).1.FitsSector := by
      rw [FitsSector, releaseStep_fst, length_getD_release?]
      exact hfit
    rw [List.foldl_cons, ih hfit', releaseStep_fst, isSet_getD_release? hfit, List.any_cons]
    by_cases hk : k = block.toNat
    · simp [hk]
    · simp [hk, Ne.symm hk]

/-- If none of them was in use, the bitmap is the same. -/
theorem foldl_releaseStep_of_false {blocks : List UInt32} {state : Bitmap × Bool}
    (h : (blocks.foldl releaseStep state).2 = false) : blocks.foldl releaseStep state = state := by
  induction blocks generalizing state with
  | nil => rfl
  | cons block blocks ih =>
    rw [List.foldl_cons] at h ⊢
    have hrest := ih h
    rw [hrest] at h ⊢
    exact releaseStep_snd h

end Bitmap

namespace Inode

variable (x : Inode)

/-- The pointers of an inode that point at a block are its slots. -/
theorem any_direct (block : ℕ) :
    (x.direct.toList.filter (· != noBlock)).any (·.toNat = block)
      = (List.range directBlocks).any (x.blockAt · = some block) := by
  rw [Bool.eq_iff_iff]
  simp only [List.any_eq_true, List.mem_filter, List.mem_range, decide_eq_true_eq, bne_iff_ne,
    ne_eq]
  constructor
  · rintro ⟨pointer, ⟨hmem, hne⟩, hblock⟩
    obtain ⟨slot, hslot, rfl⟩ := Vector.mem_iff_getElem.mp (Vector.mem_toList_iff.mp hmem)
    exact ⟨slot, hslot, blockAt_eq_some.mpr ⟨hslot, hne, hblock⟩⟩
  · rintro ⟨slot, -, hblock⟩
    obtain ⟨hslot, hne, htoNat⟩ := blockAt_eq_some.mp hblock
    exact ⟨x.direct[slot], ⟨Vector.mem_toList_iff.mpr (Vector.getElem_mem hslot), hne⟩, htoNat⟩

theorem filter_direct_eq_nil (h : ∀ slot, x.blockAt slot = none) :
    x.direct.toList.filter (· != noBlock) = [] := by
  rw [List.filter_eq_nil_iff]
  intro pointer hmem hne
  rw [bne_iff_ne] at hne
  obtain ⟨slot, hslot, rfl⟩ := Vector.mem_iff_getElem.mp (Vector.mem_toList_iff.mp hmem)
  have hsome := blockAt_eq_some.mpr ⟨hslot, hne, rfl⟩
  rw [h slot] at hsome
  cases hsome

end Inode

/-- Taking blocks back is one change of the bitmap and at most one store. -/
theorem VolumeM.freeBlocks_eq {δ : Type} [BlockDevice δ] (blocks : List UInt32) :
    (freeBlocks blocks : VolumeM δ Unit) = (get >>= fun v =>
      let state := (blocks.filter (· != noBlock)).foldl Bitmap.releaseStep (v.blockMap, false)
      setBlockMap state.1 >>= fun _ => if state.2 then flushBlockMap else pure ()) :=
  rfl

namespace Volume

variable {δ : Type} [BlockDevice δ] [LawfulDevice δ] {g : Geometry} {v w : Volume δ} {index : ℕ}

/-- The blocks of an inode are taken back in memory, and in the store unless none was in use. -/
theorem freeBlocks_ends (hv : v.Shaped g) (x : Inode) :
    v.Ends (VolumeM.freeBlocks x.direct.toList) fun outcome w => v.Continues g w ∧
      ((outcome = .ok () ∧ w.snapshot = (v.snapshot.clearBlocks x).storeBlockMap
          ∧ ∃ slot, (x.blockAt slot).isSome = true)
        ∨ (outcome = .ok () ∧ w.snapshot = v.snapshot ∧ v.snapshot.clearBlocks x = v.snapshot)
        ∨ (outcome = .error (.error .io) ∧ v.Faulted w ∧ w.snapshot = v.snapshot.clearBlocks x
          ∧ ∃ slot, (x.blockAt slot).isSome = true)) := by
  rw [VolumeM.freeBlocks_eq, ends_get_bind]
  dsimp only
  generalize hfold : (x.direct.toList.filter (· != noBlock)).foldl
    Bitmap.releaseStep (v.blockMap, false) = result
  have hlength : result.1.length = v.blockMap.length := by
    rw [← hfold, Bitmap.length_foldl_releaseStep]
  have hisSet : result.1.isSet = fun block =>
      v.blockMap.isSet block && !(List.range directBlocks).any (x.blockAt · = some block) := by
    funext block
    rw [← hfold, Bitmap.isSet_foldl_releaseStep hv.fitsSector_blockMap, Inode.any_direct]
  have hmid := hv.continues_of_copies v.inodes v.inodeMap result.1 rfl rfl hlength
  have hsnapshot : { v with blockMap := result.1 }.snapshot = v.snapshot.clearBlocks x := by
    have hleft : { v with blockMap := result.1 }.snapshot
        = { v.snapshot with memory.blockUsed := result.1.isSet } := rfl
    rw [hleft, hisSet]
    rfl
  rw [VolumeM.setBlockMap, ends_modify_bind]
  by_cases hfreed : result.2 = true
  · have hsome : ∃ slot, (x.blockAt slot).isSome = true := by
      by_contra hnone
      have hnil := x.filter_direct_eq_nil fun slot => by
        by_contra hslot
        exact hnone ⟨slot, Option.ne_none_iff_isSome.mp hslot⟩
      rw [hnil] at hfold
      rw [← hfold] at hfreed
      cases hfreed
    rw [if_pos hfreed]
    refine (flushBlockMap_ends hmid.shaped).mono ?_
    rw [hsnapshot]
    rintro outcome w ⟨hcontinues, ⟨rfl, -, hw⟩ | ⟨rfl, hfault, hw⟩⟩
    · exact ⟨hmid.trans hcontinues, .inl ⟨rfl, hw, hsome⟩⟩
    · exact ⟨hmid.trans hcontinues, .inr (.inr ⟨rfl, hfault, hw.trans hsnapshot, hsome⟩)⟩
  · rw [if_neg hfreed]
    have hsame : result = (v.blockMap, false) := by
      rw [← hfold] at hfreed ⊢
      exact Bitmap.foldl_releaseStep_of_false (by simpa using hfreed)
    have hkeep : v.snapshot.clearBlocks x = v.snapshot := by
      rw [← hsnapshot, hsame]
    exact ⟨hmid, .inr (.inl ⟨rfl, hsnapshot.trans hkeep, hkeep⟩)⟩

end Volume

/-! ### Taking the content away -/

namespace Snapshot

variable {g : Geometry} {index : ℕ} {w w' base : Snapshot}

/-- The state after an inode was stored without its content and its blocks were taken back in
memory. -/
def emptied (w : Snapshot) (index : ℕ) : Snapshot :=
  ((w.putInode index (w.memory.inode index).detached).publish
    (index / inodesPerSector)).clearBlocks (w.memory.inode index)

theorem putInode_putInode_self (x : Inode) :
    (w.putInode index x).putInode index (w.memory.inode index) = w := by
  simp only [putInode, Function.update_idem, Function.update_eq_self]

theorem Sound.admits_detached (hw : w.Sound g) (hknown : w.Known g index)
    (hfile : (w.memory.inode index).isDirectory = false) :
    w.Admits g index (w.memory.inode index).detached where
  ne_blank := Inode.ne_blank_of_blockAt Inode.blockAt_detached
  block_lt h := by rw [Inode.blockAt_detached] at h; cases h
  block_used _ _ _ h := by rw [Inode.blockAt_detached] at h; cases h
  block_once h := by rw [Inode.blockAt_detached] at h; cases h
  block_apart h := by rw [Inode.blockAt_detached] at h; cases h
  filled := Inode.filled_of_size rfl
  live_used c h := hw.live_used c h
  known_parent := hw.known_parent .memory index
  root h := by
    subst h
    have hroot := hw.root_directory .memory
    rw [image_memory, hfile] at hroot
    cases hroot
  listing h := absurd (h.symm.trans hfile) (by decide)
  grown hdirectory hsize := by
    have hmemory := (hw.grown hdirectory hsize).1
    rw [hfile] at hmemory
    cases hmemory

theorem memory_emptied : (w.emptied index).memory.inode index = (w.memory.inode index).detached :=
  Function.update_self _ _ _

theorem disk_emptied : (w.emptied index).disk.inode index = (w.memory.inode index).detached := by
  refine (if_pos rfl).trans ?_
  exact Function.update_self _ _ _

/-- Once an inode is stored without its content, neither copy points at its blocks. -/
theorem Sound.not_owns_emptied (hw : w.Sound g) (hknown : w.Known g index) {c : Copy}
    {other slot slot' block : ℕ} (howns : ((w.emptied index).image c).Owns other slot block) :
    (w.memory.inode index).blockAt slot' ≠ some block := by
  intro hblock
  by_cases hother : other = index
  · subst hother
    have hdetached : ((w.emptied other).image c).inode other = (w.memory.inode other).detached := by
      cases c with
      | memory => exact memory_emptied
      | disk => exact disk_emptied
    rw [Image.Owns, hdetached, Inode.blockAt_detached] at howns
    exact absurd howns.2 (by simp)
  · have hdraws := draws_publish
      (w := w.putInode index (w.memory.inode index).detached) (index / inodesPerSector)
    have howns' : (((w.putInode index (w.memory.inode index).detached).publish
        (index / inodesPerSector)).image c).Owns other slot block := by
      cases c <;> exact howns
    obtain ⟨c', hc'⟩ := hdraws.owns howns'
    rw [Image.Owns, image_putInode_of_ne _ c' hother] at hc'
    exact hother (hw.owned_once hc' (hknown.owns hblock)).1

/-- **Taking the content of a file away is harmless.** -/
theorem Sound.emptied (hw : w.Sound g) (hknown : w.Known g index)
    (hfile : (w.memory.inode index).isDirectory = false) : (w.emptied index).Sound g := by
  refine ((hw.putInode (hw.admits_detached hknown hfile)).publish _).clearBlocks ?_
  intro c other slot slot' block howns
  have howns' : ((w.emptied index).image c).Owns other slot block := by
    cases c <;> exact howns
  exact hw.not_owns_emptied hknown howns'

theorem spares_emptied {other : ℕ} (hne : other ≠ index) : Spares other w (w.emptied index) :=
  (spares_putInode hne _).trans ((spares_publish _).trans (spares_clearBlocks _))

theorem Known.emptied (hw : w.Sound g) (hknown : w.Known g index)
    (hfile : (w.memory.inode index).isDirectory = false) {other : ℕ} (h : w.Known g other) :
    (w.emptied index).Known g other := by
  have hput := hw.putInode (hw.admits_detached hknown hfile)
  have hpublish := (h.putInode (Inode.ne_blank_of_blockAt
    Inode.blockAt_detached)).publish hput (index / inodesPerSector)
  refine hpublish.of_inode ?_ ?_
  · rintro (_ | _) <;> rfl
  · rintro (_ | _)
    · exact h.used .memory
    · exact h.used .disk

end Snapshot

namespace Volume

variable {δ : Type} [BlockDevice δ] [LawfulDevice δ] {g : Geometry} {v w : Volume δ} {index : ℕ}

/-- The content is taken away, or the inode keeps it because it could not be stored. -/
theorem truncateContent_ends (hv : v.Shaped g) (hlt : index < g.inodeCount) :
    v.Ends (VolumeM.truncateContent index) fun outcome w => v.Continues g w ∧
      ((outcome = .ok () ∧ w.snapshot = (v.snapshot.emptied index).storeBlockMap)
        ∨ (outcome = .ok () ∧ w.snapshot = v.snapshot.emptied index
          ∧ (v.snapshot.emptied index).memory.blockUsed = v.snapshot.memory.blockUsed)
        ∨ (outcome = .error (.error .io) ∧ v.Faulted w
          ∧ (w.snapshot = v.snapshot ∨ w.snapshot = v.snapshot.emptied index))) := by
  simp only [VolumeM.truncateContent, VolumeM.detachBlocks, bind_assoc, pure_bind]
  rw [ends_inodeAt_bind hv hlt, ends_inodeAt_bind hv hlt, ends_setInode_bind hv hlt]
  have hput := hv.continues_put index (v.snapshot.memory.inode index).detached
  have hputs := snapshot_put hv hlt (v.snapshot.memory.inode index).detached
  refine Ends.attempt_bind (flushInode_ends hput.shaped hlt) ?_ ?_ ?_
  · rintro ⟨⟩ x ⟨hcontinues, ⟨-, -, hx⟩ | ⟨⟨⟩, -⟩⟩
    rw [hputs] at hx
    refine (freeBlocks_ends hcontinues.shaped (v.snapshot.memory.inode index)).mono ?_
    have hclear : x.snapshot.clearBlocks (v.snapshot.memory.inode index)
        = v.snapshot.emptied index := by rw [hx]; rfl
    have hused : x.snapshot.memory.blockUsed = v.snapshot.memory.blockUsed := by rw [hx]; rfl
    rintro outcome y ⟨hxy, ⟨rfl, hy, -⟩ | ⟨rfl, hy, hkeep⟩ | ⟨rfl, hfault, hy, -⟩⟩
    · exact ⟨hput.trans (hcontinues.trans hxy), .inl ⟨rfl, by rw [hy, hclear]⟩⟩
    · rw [hclear] at hkeep
      exact ⟨hput.trans (hcontinues.trans hxy), .inr (.inl ⟨rfl, by rw [hy, ← hkeep],
        by rw [hkeep, hused]⟩)⟩
    · exact ⟨hput.trans (hcontinues.trans hxy), .inr (.inr ⟨rfl,
        .of_continues (hput.trans hcontinues) hfault, .inr (by rw [hy, hclear])⟩)⟩
  · rintro cause x ⟨hcontinues, ⟨⟨⟩, -⟩ | ⟨⟨rfl⟩, hfault, hx⟩⟩
    rw [hputs] at hx
    rw [ends_setInode_bind hcontinues.shaped hlt]
    refine ⟨hput.trans (hcontinues.trans (hcontinues.shaped.continues_put _ _)),
      .inr (.inr ⟨rfl, hfault, .inl ?_⟩)⟩
    refine (snapshot_put hcontinues.shaped hlt _).trans ?_
    rw [hx, Snapshot.putInode_putInode_self]
  · rintro x ⟨-, ⟨⟨⟩, -⟩ | ⟨⟨⟩, -⟩⟩

end Volume

/-! ### Laying bytes over it -/

/-- The inode with a size that reaches at least up to a position. -/
def Inode.grownTo (x : Inode) (last : ℕ) : Inode :=
  { x with size := max x.size (UInt32.ofNat last) }

/-- The second half of a write: the chunks, and the inode with its new size. -/
def VolumeM.storeContent {δ : Type} [BlockDevice δ] (index offset : ℕ) (data : List UInt8) :
    VolumeM δ ℕ := do
  let written ← attempt (writeChunks index offset data)
  if written.isOk then
    let inode ← inodeAt index
    setInode index (inode.grownTo (offset + data.length))
  let stored ← attempt (flushInode index)
  orFail written
  orFail stored
  pure data.length

/-- What the chunks of a write find: the content as it was, or nothing. -/
inductive Snapshot.Base (w : Snapshot) (index : ℕ) : Bool → Snapshot → Prop
  | kept : Base w index false w
  | emptied : Base w index true (w.emptied index).storeBlockMap
  | nothing : (w.emptied index).memory.blockUsed = w.memory.blockUsed →
      Base w index true (w.emptied index)

namespace Volume

variable {δ : Type} [BlockDevice δ] [LawfulDevice δ] {g : Geometry} {v w : Volume δ}
  {index offset : ℕ} {data : List UInt8}

/-- How the second half of a write ends, after its chunks have led to a state. -/
inductive Wrote (g : Geometry) (v : Volume δ) (index offset : ℕ) (data : List UInt8)
    (mid : Snapshot) : Except Stop ℕ → Volume δ → Prop
  /-- All was written and stored. -/
  | stored {w : Volume δ} : mid.Holds (mid.memory.inode index) offset data →
      w.snapshot = (mid.putInode index ((mid.memory.inode index).grownTo
        (offset + data.length))).publish (index / inodesPerSector) →
      Wrote g v index offset data mid (.ok data.length) w
  /-- All was written, but the inode could not be stored. -/
  | unstored {w : Volume δ} : mid.Holds (mid.memory.inode index) offset data → v.Faulted w →
      w.snapshot = mid.putInode index ((mid.memory.inode index).grownTo (offset + data.length)) →
      Wrote g v index offset data mid (.error (.error .io)) w
  /-- There was no block for some chunk; the inode was stored with what it has gained. -/
  | full {w : Volume δ} : (∀ block < g.dataBlocks, mid.memory.blockUsed block = true) →
      w.snapshot = mid.publish (index / inodesPerSector) →
      Wrote g v index offset data mid (.error (.error .noSpace)) w
  /-- There was none, and the inode could not be stored either. -/
  | fullUnstored {w : Volume δ} : (∀ block < g.dataBlocks, mid.memory.blockUsed block = true) →
      v.Faulted w → w.snapshot = mid →
      Wrote g v index offset data mid (.error (.error .noSpace)) w
  /-- A transfer of some chunk was refused, and then the inode could not be stored. -/
  | cut {w : Volume δ} : v.Faulted w → w.snapshot = mid →
      Wrote g v index offset data mid (.error (.error .io)) w

/-- After a fault, a store is refused as well. -/
theorem Stores.of_faulted {x : Volume δ} {change : Snapshot} {outcome : Except Stop Unit}
    (h : w.Stores change outcome x) (hfault : v.Faulted w) :
    outcome = .error (.error .io) ∧ v.Faulted x ∧ x.snapshot = w.snapshot := by
  rcases h with ⟨-, hnot, -⟩ | ⟨rfl, hafter, hx⟩
  · exact absurd hfault.1 hnot
  · exact ⟨rfl, ⟨hafter.1, hfault.2⟩, hx⟩

/-- **The second half of a write.** -/
theorem storeContent_ends (hv : v.Shaped g) (hw : v.snapshot.Sound g)
    (hknown : v.snapshot.Known g index) (hend : offset + data.length ≤ maxFileSize)
    (hbehind : (v.snapshot.memory.inode index).isDirectory = true →
      (v.snapshot.memory.inode index).size.toNat ≤ offset) :
    v.Ends (VolumeM.storeContent index offset data) fun outcome w => v.Continues g w
      ∧ ∃ mid, Snapshot.Extended g index offset (offset + data.length) v.snapshot mid
        ∧ v.Wrote g index offset data mid outcome w := by
  unfold VolumeM.storeContent
  refine Ends.attempt_bind (writeChunks_ends hv hw hknown hend hbehind) ?_ ?_ ?_
  · rintro ⟨⟩ x ⟨hvx, hextended, ⟨-, hholds⟩ | ⟨⟨⟩, -⟩ | ⟨⟨⟩, -⟩⟩
    show x.Ends (VolumeM.inodeAt index >>= fun inode => _) _
    rw [ends_inodeAt_bind hvx.shaped hknown.lt, ends_setInode_bind hvx.shaped hknown.lt]
    have hput := hvx.shaped.continues_put index
      ((x.snapshot.memory.inode index).grownTo (offset + data.length))
    have hputs := snapshot_put hvx.shaped hknown.lt
      ((x.snapshot.memory.inode index).grownTo (offset + data.length))
    refine Ends.attempt_bind (flushInode_ends hput.shaped hknown.lt) ?_ ?_ ?_
    · rintro ⟨⟩ y ⟨hxy, ⟨-, -, hy⟩ | ⟨⟨⟩, -⟩⟩
      rw [hputs] at hy
      exact ⟨hvx.trans (hput.trans hxy), _, hextended, .stored hholds hy⟩
    · rintro cause y ⟨hxy, ⟨⟨⟩, -⟩ | ⟨⟨rfl⟩, hfault, hy⟩⟩
      rw [hputs] at hy
      exact ⟨hvx.trans (hput.trans hxy), _, hextended,
        .unstored hholds (.of_continues (hvx.trans hput) hfault) hy⟩
    · rintro y ⟨-, ⟨⟨⟩, -⟩ | ⟨⟨⟩, -⟩⟩
  · rintro cause x ⟨hvx, hextended, ⟨⟨⟩, -⟩ | ⟨⟨rfl⟩, hfault⟩ | ⟨⟨rfl⟩, hfull⟩⟩
    · show x.Ends (VolumeM.attempt (VolumeM.flushInode index) >>= fun stored => _) _
      refine Ends.attempt_bind (flushInode_ends hvx.shaped hknown.lt) ?_ ?_ ?_
      · rintro ⟨⟩ y ⟨hxy, hstores⟩
        cases (hstores.of_faulted hfault).1
      · rintro cause y ⟨hxy, hstores⟩
        obtain ⟨-, hafter, hy⟩ := hstores.of_faulted hfault
        exact ⟨hvx.trans hxy, _, hextended, .cut hafter hy⟩
      · rintro y ⟨-, ⟨⟨⟩, -⟩ | ⟨⟨⟩, -⟩⟩
    · show x.Ends (VolumeM.attempt (VolumeM.flushInode index) >>= fun stored => _) _
      refine Ends.attempt_bind (flushInode_ends hvx.shaped hknown.lt) ?_ ?_ ?_
      · rintro ⟨⟩ y ⟨hxy, ⟨-, -, hy⟩ | ⟨⟨⟩, -⟩⟩
        exact ⟨hvx.trans hxy, _, hextended, .full hfull hy⟩
      · rintro cause y ⟨hxy, ⟨⟨⟩, -⟩ | ⟨⟨rfl⟩, hfault, hy⟩⟩
        exact ⟨hvx.trans hxy, _, hextended,
          .fullUnstored hfull (.of_continues hvx hfault) hy⟩
      · rintro y ⟨-, ⟨⟨⟩, -⟩ | ⟨⟨⟩, -⟩⟩
  · rintro x ⟨-, -, ⟨⟨⟩, -⟩ | ⟨⟨⟩, -⟩ | ⟨⟨⟩, -⟩⟩

theorem Wrote.of_continues {x : Volume δ} {mid : Snapshot} {outcome : Except Stop ℕ}
    (hvx : v.Continues g x) (h : x.Wrote g index offset data mid outcome w) :
    v.Wrote g index offset data mid outcome w := by
  cases h with
  | stored hholds hw => exact .stored hholds hw
  | unstored hholds hfault hw => exact .unstored hholds (.of_continues hvx hfault) hw
  | full hfull hw => exact .full hfull hw
  | fullUnstored hfull hfault hw => exact .fullUnstored hfull (.of_continues hvx hfault) hw
  | cut hfault hw => exact .cut (.of_continues hvx hfault) hw

/-- Why a write is refused before anything happens. -/
def Refused (v : Volume δ) (index offset : ℕ) (data : List UInt8) (truncate : Bool)
    (cause : VolumeError) : Prop :=
  (cause = .fileTooLarge ∧ maxFileSize < offset + data.length)
    ∨ (cause = .invalidOffset ∧ if truncate = true then offset ≠ 0
        else (v.snapshot.memory.inode index).size.toNat < offset)

/-- How a write ends that gets as far as its chunks: what they find, and what they lead to. -/
structure Chunked (g : Geometry) (v : Volume δ) (index offset : ℕ) (data : List UInt8)
    (truncate : Bool) (base mid : Snapshot) (outcome : Except Stop ℕ) (w : Volume δ) : Prop where
  start : v.snapshot.Base index truncate base
  sound : base.Sound g
  known : base.Known g index
  fits : offset + data.length ≤ maxFileSize
  reached : offset ≤ (base.memory.inode index).size.toNat
  extended : Snapshot.Extended g index offset (offset + data.length) base mid
  wrote : v.Wrote g index offset data mid outcome w

/-- The chunks of a write go on from whatever was left for them. -/
theorem storeContent_chunked_ends {x : Volume δ} {truncate : Bool} (hvx : v.Continues g x)
    (hbase : v.snapshot.Base index truncate x.snapshot) (hx : x.snapshot.Sound g)
    (hknown : x.snapshot.Known g index) (hend : offset + data.length ≤ maxFileSize)
    (hreached : offset ≤ (x.snapshot.memory.inode index).size.toNat)
    (hbehind : (x.snapshot.memory.inode index).isDirectory = true →
      (x.snapshot.memory.inode index).size.toNat ≤ offset) :
    x.Ends (VolumeM.storeContent index offset data) fun outcome w => v.Continues g w
      ∧ ∃ base mid, v.Chunked g index offset data truncate base mid outcome w := by
  refine (storeContent_ends hvx.shaped hx hknown hend hbehind).mono ?_
  rintro outcome w ⟨hxw, mid, hextended, hwrote⟩
  exact ⟨hvx.trans hxw, _, mid, hbase, hx, hknown, hend, hreached, hextended,
    hwrote.of_continues hvx⟩

/-- **A write.** It is refused, it stops while it takes the old content away, or its chunks lead to
some state and the inode is stored. -/
theorem writeContent_ends (hv : v.Shaped g) (hw : v.snapshot.Sound g)
    (hknown : v.snapshot.Known g index) {truncate : Bool}
    (hfile : truncate = true → (v.snapshot.memory.inode index).isDirectory = false)
    (hbehind : (v.snapshot.memory.inode index).isDirectory = true →
      (v.snapshot.memory.inode index).size.toNat ≤ offset) :
    v.Ends (VolumeM.writeContent index offset data truncate) fun outcome w => v.Continues g w ∧
      ((∃ cause, outcome = .error (.error cause) ∧ v.Refused index offset data truncate cause
          ∧ w = v)
        ∨ (outcome = .error (.error .io) ∧ v.Faulted w ∧ truncate = true
          ∧ (w.snapshot = v.snapshot ∨ w.snapshot = v.snapshot.emptied index))
        ∨ ∃ base mid, v.Chunked g index offset data truncate base mid outcome w) := by
  unfold VolumeM.writeContent
  by_cases hlarge : maxFileSize < offset + data.length
  · rw [if_pos hlarge]
    exact ⟨hv.continues, .inl ⟨_, rfl, .inl ⟨rfl, hlarge⟩, rfl⟩⟩
  have hend : offset + data.length ≤ maxFileSize := Nat.le_of_not_lt hlarge
  rw [if_neg hlarge]
  show v.Ends (VolumeM.findInode index >>= fun inode => _) _
  rw [ends_findInode_bind hv hknown.lt]
  by_cases hoffset : (truncate && decide (offset ≠ 0)
      || !truncate && decide ((v.snapshot.memory.inode index).size.toNat < offset)) = true
  · rw [if_pos hoffset]
    refine ⟨hv.continues, .inl ⟨_, rfl, .inr ⟨rfl, ?_⟩, rfl⟩⟩
    cases truncate with
    | true => simpa using hoffset
    | false => simpa using hoffset
  rw [if_neg hoffset]
  cases truncate with
  | false =>
    have hle : offset ≤ (v.snapshot.memory.inode index).size.toNat := by simpa using hoffset
    refine (storeContent_chunked_ends hv.continues .kept hw hknown hend hle hbehind).mono ?_
    exact fun _ _ h => ⟨h.1, .inr (.inr h.2)⟩
  | true =>
    have hzero : offset = 0 := by simpa using hoffset
    have hfile' := hfile rfl
    have hempty : (v.snapshot.emptied index).memory.inode index
        = (v.snapshot.memory.inode index).detached := Snapshot.memory_emptied
    have hnot {x : Inode} (hx : x = (v.snapshot.memory.inode index).detached)
        (h : x.isDirectory = true) : x.size.toNat ≤ offset := by
      rw [hx] at h
      exact absurd (h.symm.trans hfile') (by decide)
    have hsound := hw.emptied hknown hfile'
    have hknown' := Snapshot.Known.emptied hw hknown hfile' hknown
    show v.Ends (VolumeM.truncateContent index >>= fun _ =>
      VolumeM.storeContent index offset data) _
    refine Ends.bind (truncateContent_ends hv hknown.lt) ?_ ?_
    · rintro ⟨⟩ x ⟨hvx, ⟨-, hx⟩ | ⟨-, hx, hused⟩ | ⟨⟨⟩, -⟩⟩
      · refine (storeContent_chunked_ends hvx (hx ▸ .emptied) (hx ▸ hsound.storeBlockMap) ?_ hend
          (by omega) (hnot (hx ▸ hempty))).mono fun _ _ h => ⟨h.1, .inr (.inr h.2)⟩
        rw [hx]
        refine hknown'.of_inode ?_ ?_
        · rintro (_ | _) <;> rfl
        · rintro (_ | _)
          · exact hknown'.used .memory
          · exact hknown'.used .disk
      · refine (storeContent_chunked_ends hvx (hx ▸ .nothing hused) (hx ▸ hsound) (hx ▸ hknown')
          hend (by omega) (hnot (hx ▸ hempty))).mono fun _ _ h => ⟨h.1, .inr (.inr h.2)⟩
    · rintro stop x ⟨hvx, ⟨⟨⟩, -⟩ | ⟨⟨⟩, -⟩ | ⟨⟨rfl⟩, hfault, hx⟩⟩
      exact ⟨hvx, .inr (.inl ⟨rfl, hfault, rfl, hx⟩)⟩

end Volume

end PocketKernel
