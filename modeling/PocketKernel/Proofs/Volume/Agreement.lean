import Mathlib.Data.Set.Insert
import PocketKernel.Proofs.Volume.Contained

/-!
# Memory and device agree

On a device that refuses no transfer, every operation ends with all it changed in memory written
through, however it ends and whatever the volume held before. The allocation state is looked at
piece by piece: the two bitmaps with all their bits, and every inode. A piece is *pending* while the
memory is ahead of the device, and the store of a sector settles the pieces that lie in it.

## Main definitions

* `Piece`: a piece of the allocation state, and where it lies.
* `Volume.Stored`: the device holds what the memory says about a piece.
* `Volume.Agrees`: all pieces are stored but those that are pending.

## Main results

* `Volume.Agrees.writeSector_ends`: a store settles what lies in its sector.
* `Volume.callInvariant_agrees`: every call keeps memory and device in agreement.
* `Volume.agrees_of_mount`: so does mounting, by loading or by formatting.
-/

namespace PocketKernel

/-- A piece of the allocation state. -/
inductive Piece where
  | inodeMap
  | blockMap
  | inode (index : ℕ)

/-- The sector that a piece is stored in. -/
def Piece.sector : Piece → ℕ
  | inodeMap => inodeBitmapSector
  | blockMap => blockBitmapSector
  | inode index => inodeTableStart + index / inodesPerSector

namespace Volume

variable {δ α : Type} [BlockDevice δ] [LawfulDevice δ] {g : Geometry} {v w : Volume δ}
  {pending pending' : Set Piece} {piece : Piece} {index : ℕ}

/-- The device holds what the memory says about a piece. -/
def Stored (v : Volume δ) : Piece → Prop
  | .inodeMap => v.storedInodeMap = v.inodeMap
  | .blockMap => v.storedBlockMap = v.blockMap
  | .inode index => index < v.geometry.inodeCount →
      v.storedInode index = v.inodes.getD index Inode.free

/-- What is stored depends on the sector of the piece only. -/
theorem Stored.of_sectorAt (hw : w = { v with device := w.device }) (h : v.Stored piece)
    (hsector : piece.sector < v.geometry.dataStart →
      w.sectorAt (v.geometry.lba piece.sector) = v.sectorAt (v.geometry.lba piece.sector)) :
    w.Stored piece := by
  rw [hw]
  cases piece with
  | inodeMap =>
    refine Eq.trans ?_ h
    exact congrArg (Bitmap.mk · _) (hsector v.geometry.inodeBitmapSector_lt)
  | blockMap =>
    refine Eq.trans ?_ h
    exact congrArg (Bitmap.mk · _) (hsector v.geometry.blockBitmapSector_lt)
  | inode index =>
    intro hlt
    refine Eq.trans ?_ (h hlt)
    exact congrArg (fun s : Sector => Inode.ofBytes (s.slice _ _))
      (hsector (v.geometry.table_lt_dataStart (v.geometry.div_lt_tableSectors hlt)))

/-- Memory and device of a volume on a dependable device agree in all pieces but those that are
pending, and a later mount will find the volume. -/
structure Agrees (g : Geometry) (pending : Set Piece) (v : Volume δ) : Prop where
  shaped : v.Shaped g
  dependable : LawfulDevice.Dependable v.device
  accepted : g.accepts (Superblock.ofBytes (v.sectorAt (g.lba superblockSector)).bytes) = true
  root : (v.inodes.getD 0 Inode.free).isDirectory = true
  used : v.inodeMap.isSet 0 = true
  stored : ∀ piece, piece ∉ pending → v.Stored piece

/-- A dependable device refuses no write. -/
theorem Shaped.writeSector_dependable (hv : v.Shaped g)
    (hdependable : LawfulDevice.Dependable v.device) {lba : ℕ} (content : Sector)
    (hlba : lba < g.startLba + g.totalSectors) :
    v.Ends (VolumeM.writeSector lba content) fun outcome w => outcome = .ok () ∧ v.Transferred w
      ∧ w.sectorAt = Function.update v.sectorAt lba content := by
  refine (Volume.writeSector_ends content (Nat.lt_of_lt_of_le hlba hv.fits)).mono ?_
  rintro outcome w ⟨htransferred, ⟨rfl, -, hsectors⟩ | ⟨-, hfault, -⟩⟩
  · exact ⟨rfl, htransferred, hsectors⟩
  · exact absurd hdependable hfault.2

omit [LawfulDevice δ] in
/-- The inode table after one inode was replaced. -/
theorem getD_put (hv : v.Shaped g) (hlt : index < g.inodeCount) (x : Inode) (k : ℕ) :
    (v.put index x).inodes.getD k Inode.free
      = if k = index then x else v.inodes.getD k Inode.free := by
  have hsize : index < v.inodes.size := by rw [hv.size_inodes]; exact hlt
  by_cases hk : k = index
  · subst hk
    simp [put, hsize]
  · simp [put, hk, Ne.symm hk]

namespace Agrees

theorem sized (h : v.Agrees g pending) : v.Sized g := h.shaped.sized

theorem mono (h : v.Agrees g pending) (hsubset : pending ⊆ pending') : v.Agrees g pending' :=
  ⟨h.shaped, h.dependable, h.accepted, h.root, h.used,
    fun piece hpiece => h.stored piece fun hmem => hpiece (hsubset hmem)⟩

/-- Pieces that are stored need not be pending. -/
theorem settle (h : v.Agrees g pending) {settled : Set Piece}
    (hsettled : ∀ piece ∈ settled, v.Stored piece) : v.Agrees g (pending \ settled) := by
  refine ⟨h.shaped, h.dependable, h.accepted, h.root, h.used, fun piece hpiece => ?_⟩
  by_cases hmem : piece ∈ settled
  · exact hsettled piece hmem
  · exact h.stored piece fun hpending => hpiece ⟨hpending, hmem⟩

theorem of_insert {settled : Set Piece} (h : v.Agrees g (insert piece pending \ settled))
    (hmem : piece ∈ settled) : v.Agrees g pending := by
  refine h.mono ?_
  rintro other ⟨rfl | hother, hnot⟩
  · exact absurd hmem hnot
  · exact hother

/-! ### Transfers -/

/-- Looking changes nothing. -/
theorem looking (h : v.Agrees g pending) {d : δ} (hasked : Asked g.Looking v.device d) :
    { v with device := d }.Agrees g pending := by
  have hkept : LawfulDevice.sectorAt d = LawfulDevice.sectorAt v.device
      ∧ BlockDevice.capacity d = BlockDevice.capacity v.device ∧ LawfulDevice.Dependable d := by
    induction hasked with
    | nothing => exact ⟨rfl, rfl, h.dependable⟩
    | @read later lba _ hlba ih =>
      obtain ⟨hsectors, hcapacity, hdependable⟩ := ih
      have hlt : lba < BlockDevice.capacity later := by
        rw [hcapacity]
        exact Nat.lt_of_lt_of_le hlba.2 h.shaped.fits
      exact ⟨(LawfulDevice.sectorAt_read lba later).trans hsectors,
        (LawfulDevice.capacity_read lba later).trans hcapacity,
        (LawfulDevice.read_of_dependable hdependable hlt).2⟩
    | write sector _ hwrite => exact hwrite.elim
  obtain ⟨hsectors, hcapacity, hdependable⟩ := hkept
  have hsectorAt : ({ v with device := d } : Volume δ).sectorAt = v.sectorAt := hsectors
  refine ⟨⟨h.shaped.1, h.shaped.2, h.shaped.3, h.shaped.4, ?_⟩, hdependable, ?_, h.root, h.used, ?_⟩
  · rw [hcapacity]
    exact h.shaped.fits
  · rw [hsectorAt]
    exact h.accepted
  · exact fun piece hpiece => (h.stored piece hpiece).of_sectorAt rfl fun _ => by rw [hsectorAt]

/-- A write may put out of step what lies in its sector, and nothing else. -/
theorem write_ends (h : v.Agrees g pending) {lba : ℕ} (content : Sector)
    (hlba : lba < g.startLba + g.totalSectors) (hne : lba ≠ g.lba superblockSector) :
    v.Ends (VolumeM.writeSector lba content) fun outcome w => outcome = .ok ()
      ∧ w = { v with device := w.device } ∧ w.sectorAt lba = content
      ∧ w.Agrees g (pending ∪ {piece | piece.sector < g.dataStart ∧ g.lba piece.sector = lba}) := by
  refine (h.shaped.writeSector_dependable h.dependable content hlba).mono ?_
  rintro outcome w ⟨rfl, htransferred, hsectors⟩
  refine ⟨rfl, htransferred.copies, by rw [hsectors, Function.update_self],
    (htransferred.continues h.shaped).shaped, htransferred.dependable h.dependable, ?_, ?_, ?_, ?_⟩
  · rw [hsectors, Function.update_of_ne hne.symm]
    exact h.accepted
  · rw [htransferred.copies]
    exact h.root
  · rw [htransferred.copies]
    exact h.used
  · intro piece hpiece
    rw [Set.mem_union, not_or] at hpiece
    refine (h.stored piece hpiece.1).of_sectorAt htransferred.copies fun hlt => ?_
    rw [h.shaped.geometry] at hlt ⊢
    rw [hsectors, Function.update_of_ne fun heq => hpiece.2 ⟨hlt, heq⟩]

/-- No piece lies among the data blocks. -/
theorem writeBlock_ends (h : v.Agrees g pending) {lba : ℕ} (content : Sector)
    (hlba : g.InData lba) :
    v.Ends (VolumeM.writeSector lba content) fun outcome w =>
      outcome = .ok () ∧ w.Agrees g pending := by
  have hout {sector : ℕ} (hsector : sector < g.dataStart) : g.lba sector < lba := by
    have hfirst := hlba.1
    simp only [Geometry.lba] at *
    omega
  refine (h.write_ends content hlba.2 (hout g.superblockSector_lt).ne').mono ?_
  rintro outcome w ⟨rfl, -, -, hw⟩
  refine ⟨rfl, hw.mono ?_⟩
  rintro piece (hpending | ⟨hsector, heq⟩)
  · exact hpending
  · exact absurd heq (hout hsector).ne

/-- **A store settles what lies in its sector.** -/
theorem writeSector_ends (h : v.Agrees g pending) {sector : ℕ} (content : Sector)
    (hpos : superblockSector < sector) (hlt : sector < g.dataStart)
    (hstored : ∀ d : δ, LawfulDevice.sectorAt d (g.lba sector) = content →
      ∀ piece, piece.sector = sector → { v with device := d }.Stored piece) :
    v.Ends (VolumeM.writeSector (g.lba sector) content) fun outcome w => outcome = .ok ()
      ∧ w.Agrees g (pending \ {piece | piece.sector = sector}) := by
  refine (h.write_ends content (g.lba_lt hlt) (mt g.lba_inj.mp hpos.ne')).mono ?_
  rintro outcome w ⟨rfl, hcopies, hcontent, hw⟩
  have hsettled := hstored w.device hcontent
  rw [← hcopies] at hsettled
  refine ⟨rfl, (hw.settle hsettled).mono ?_⟩
  rintro piece ⟨hpending | ⟨-, heq⟩, hsector⟩
  · exact ⟨hpending, hsector⟩
  · exact absurd (g.lba_inj.mp heq) hsector

theorem flushInodeMap_ends (h : v.Agrees g pending) :
    v.Ends VolumeM.flushInodeMap fun outcome w => outcome = .ok ()
      ∧ w.Agrees g (pending \ {piece | piece.sector = inodeBitmapSector}) := by
  unfold VolumeM.flushInodeMap
  obtain rfl := h.shaped.geometry
  refine h.writeSector_ends _ (by decide) v.geometry.inodeBitmapSector_lt
    fun d hcontent piece hsector => ?_
  cases piece with
  | inodeMap =>
    show Bitmap.mk (LawfulDevice.sectorAt d _) _ = v.inodeMap
    rw [hcontent, ← h.shaped.length_inodeMap]
  | blockMap => exact absurd hsector blockBitmapSector_ne
  | inode index => exact absurd hsector (inodeBitmapSector_ne_table _).symm

theorem flushBlockMap_ends (h : v.Agrees g pending) :
    v.Ends VolumeM.flushBlockMap fun outcome w => outcome = .ok ()
      ∧ w.Agrees g (pending \ {piece | piece.sector = blockBitmapSector}) := by
  unfold VolumeM.flushBlockMap
  obtain rfl := h.shaped.geometry
  refine h.writeSector_ends _ (by decide) v.geometry.blockBitmapSector_lt
    fun d hcontent piece hsector => ?_
  cases piece with
  | inodeMap => exact absurd hsector blockBitmapSector_ne.symm
  | blockMap =>
    show Bitmap.mk (LawfulDevice.sectorAt d _) _ = v.blockMap
    rw [hcontent, ← h.shaped.length_blockMap]
  | inode index => exact absurd hsector (blockBitmapSector_ne_table _).symm

/-- All inodes of a sector of the inode table are stored at once. -/
theorem flushTableSector_ends (h : v.Agrees g pending) {tableSector : ℕ}
    (hlt : tableSector < g.tableSectors) :
    v.Ends (VolumeM.flushTableSector tableSector) fun outcome w => outcome = .ok ()
      ∧ w.Agrees g (pending \ {piece | piece.sector = inodeTableStart + tableSector}) := by
  unfold VolumeM.flushTableSector
  have hfirst : inodesPerSector * tableSector ≤ v.inodes.size := by
    rw [h.shaped.size_inodes]
    simp only [Geometry.tableSectors, tableSectorsFor, inodesPerSector] at *
    omega
  obtain rfl := h.shaped.geometry
  rw [ends_get_bind]
  dsimp only
  rw [if_pos hfirst]
  have hpos : superblockSector < inodeTableStart + tableSector :=
    Nat.lt_of_lt_of_le (by decide) (Nat.le_add_right inodeTableStart _)
  refine h.writeSector_ends _ hpos (v.geometry.table_lt_dataStart hlt)
    fun d hcontent piece hsector => ?_
  cases piece with
  | inodeMap => exact absurd hsector (inodeBitmapSector_ne_table _)
  | blockMap => exact absurd hsector (blockBitmapSector_ne_table _)
  | inode index =>
    have hindex : index / inodesPerSector = tableSector := Nat.add_left_cancel hsector
    subst hindex
    intro hin
    refine Eq.trans ?_ (ofBytes_slice_packed h.shaped hin)
    exact congrArg (fun s : Sector => Inode.ofBytes (s.slice _ _)) hcontent

theorem flushInode_ends (h : v.Agrees g (insert (.inode index) pending))
    (hlt : index < g.inodeCount) :
    v.Ends (VolumeM.flushInode index) fun outcome w => outcome = .ok () ∧ w.Agrees g pending :=
  (h.flushTableSector_ends (g.div_lt_tableSectors hlt)).mono
    fun _ _ hw => ⟨hw.1, hw.2.of_insert rfl⟩

/-! ### Changes of the memory -/

theorem setInodeMap (h : v.Agrees g pending) {map : Bitmap} (hlength : map.length = g.inodeCount)
    (hused : map.isSet 0 = true) :
    { v with inodeMap := map }.Agrees g (insert Piece.inodeMap pending) := by
  have hv := h.shaped
  refine ⟨⟨hv.1, hv.2, hlength, hv.4, hv.5⟩, h.dependable, h.accepted, h.root, hused, ?_⟩
  intro piece hpiece
  have hstored := h.stored piece fun hmem => hpiece (.inr hmem)
  cases piece with
  | inodeMap => exact absurd (.inl rfl) hpiece
  | blockMap => exact hstored
  | inode index => exact hstored

theorem setBlockMap (h : v.Agrees g pending) {map : Bitmap} (hlength : map.length = g.dataBlocks) :
    { v with blockMap := map }.Agrees g (insert Piece.blockMap pending) := by
  have hv := h.shaped
  refine ⟨⟨hv.1, hv.2, hv.3, hlength, hv.5⟩, h.dependable, h.accepted, h.root, h.used, ?_⟩
  intro piece hpiece
  have hstored := h.stored piece fun hmem => hpiece (.inr hmem)
  cases piece with
  | inodeMap => exact hstored
  | blockMap => exact absurd (.inl rfl) hpiece
  | inode index => exact hstored

/-- The root has to stay a directory. -/
theorem put (h : v.Agrees g pending) (hlt : index < g.inodeCount) {x : Inode}
    (hroot : index = 0 → x.isDirectory = true) :
    (v.put index x).Agrees g (insert (.inode index) pending) := by
  refine ⟨(h.shaped.continues_put index x).shaped, h.dependable, h.accepted, ?_, h.used, ?_⟩
  · rw [getD_put h.shaped hlt]
    split
    · exact hroot (Eq.symm ‹_›)
    · exact h.root
  · intro piece hpiece
    have hstored := h.stored piece fun hmem => hpiece (.inr hmem)
    cases piece with
    | inodeMap => exact hstored
    | blockMap => exact hstored
    | inode k =>
      have hk : k ≠ index := fun heq => hpiece (.inl (congrArg Piece.inode heq))
      intro hin
      rw [getD_put h.shaped hlt, if_neg hk]
      exact hstored hin

/-- An inode that is pending anyway may be replaced. -/
theorem put_again (h : v.Agrees g (insert (.inode index) pending)) (hlt : index < g.inodeCount)
    {x : Inode} (hroot : index = 0 → x.isDirectory = true) :
    (v.put index x).Agrees g (insert (.inode index) pending) := by
  have hput := h.put hlt hroot
  rwa [Set.insert_idem] at hput

theorem root_inode (h : v.Agrees g pending) (hzero : index = 0) :
    (v.snapshot.memory.inode index).isDirectory = true := by
  subst hzero
  exact h.root

/-! ### Handing out and taking back -/

theorem allocBlock_ends (h : v.Agrees g pending) :
    v.Ends VolumeM.allocBlock fun _ w => w.Agrees g pending := by
  unfold VolumeM.allocBlock
  rw [ends_get_bind]
  cases halloc : v.blockMap.alloc? with
  | none => exact h
  | some found =>
    obtain ⟨block, map⟩ := found
    obtain ⟨-, -, -, rfl⟩ := Bitmap.of_alloc?_eq_some halloc
    show v.Ends (VolumeM.setBlockMap _ >>= _) _
    rw [VolumeM.setBlockMap, ends_modify_bind]
    have hset := h.setBlockMap ((Bitmap.length_set v.blockMap block).trans h.shaped.length_blockMap)
    exact hset.flushBlockMap_ends.attempt_bind_ok fun w hw => hw.of_insert rfl

theorem freeBlocks_ends (h : v.Agrees g pending) (blocks : List UInt32) :
    v.Ends (VolumeM.freeBlocks blocks) fun outcome w =>
      outcome = .ok () ∧ w.Agrees g pending := by
  rw [VolumeM.freeBlocks_eq, ends_get_bind]
  dsimp only
  generalize hfold : (blocks.filter (· != noBlock)).foldl
    Bitmap.releaseStep (v.blockMap, false) = state
  rw [VolumeM.setBlockMap, ends_modify_bind]
  by_cases hfreed : state.2 = true
  · rw [if_pos hfreed]
    have hlength : state.1.length = g.dataBlocks := by
      rw [← hfold, Bitmap.length_foldl_releaseStep]
      exact h.shaped.length_blockMap
    exact (h.setBlockMap hlength).flushBlockMap_ends.mono fun _ w hw =>
      ⟨hw.1, hw.2.of_insert rfl⟩
  · rw [if_neg hfreed]
    have hsame : state = (v.blockMap, false) := by
      rw [← hfold] at hfreed ⊢
      exact Bitmap.foldl_releaseStep_of_false (by simpa using hfreed)
    rw [hsame]
    exact ⟨rfl, h⟩

/-- An inode that is handed out is not the root, which is marked. -/
theorem allocInode_ends (h : v.Agrees g pending) (kind : InodeKind) (parent : ℕ) :
    v.Ends (VolumeM.allocInode kind parent) fun _ w => w.Agrees g pending := by
  unfold VolumeM.allocInode
  rw [ends_get_bind]
  cases halloc : v.inodeMap.alloc? with
  | none => exact h
  | some found =>
    obtain ⟨index, map⟩ := found
    obtain ⟨hlt, hclear, -, rfl⟩ := Bitmap.of_alloc?_eq_some halloc
    have hroot : index ≠ 0 := by
      rintro rfl
      rw [h.used] at hclear
      cases hclear
    have hused : (v.inodeMap.set index).isSet 0 = true := by
      rw [Bitmap.isSet_set h.shaped.fitsSector_inodeMap hlt, h.used, Bool.or_true]
    have hset := h.setInodeMap
      ((Bitmap.length_set v.inodeMap index).trans h.shaped.length_inodeMap) hused
    rw [h.shaped.length_inodeMap] at hlt
    show v.Ends (VolumeM.setInodeMap _ >>= _) _
    rw [VolumeM.setInodeMap, ends_modify_bind]
    refine hset.flushInodeMap_ends.attempt_bind_ok fun w hw => ?_
    have hw := hw.of_insert rfl
    have hput := hw.put hlt (x := Inode.empty kind (UInt32.ofNat parent))
      fun hzero => absurd hzero hroot
    show w.Ends (VolumeM.setInode index _ >>= fun _ => _) _
    rw [ends_setInode_bind hw.shaped hlt]
    exact (hput.flushInode_ends hlt).bind_ok fun x hx => hx

/-- An inode other than the root is given up. -/
theorem releaseInode_ends (h : v.Agrees g pending) (hlt : index < g.inodeCount) :
    v.Ends (VolumeM.releaseInode index) fun _ w => w.Agrees g pending := by
  unfold VolumeM.releaseInode
  by_cases hzero : index = 0
  · rw [if_pos hzero]
    exact h
  rw [if_neg hzero]
  have hroot {x : Inode} : index = 0 → x.isDirectory = true := fun heq => absurd heq hzero
  simp only [VolumeM.detachBlocks, bind_assoc, pure_bind]
  have hdetach := h.put hlt (x := (v.snapshot.memory.inode index).detached) hroot
  have hstrike := hdetach.put_again hlt (x := Inode.free) hroot
  rw [ends_inodeAt_bind h.shaped hlt, ends_setInode_bind h.shaped hlt,
    ends_setInode_bind hdetach.shaped hlt]
  refine (hstrike.flushInode_ends hlt).attempt_bind_ok fun w hw => ?_
  refine (hw.freeBlocks_ends _).attempt_bind_ok fun x hx => ?_
  have hused : ((x.inodeMap.release? index).getD x.inodeMap).isSet 0 = true := by
    rw [Bitmap.isSet_getD_release? hx.shaped.fitsSector_inodeMap, hx.used]
    simp [Ne.symm hzero]
  have hcleared := hx.setInodeMap
    (Bitmap.length_getD_release?.trans hx.shaped.length_inodeMap) hused
  rw [ends_get_bind, VolumeM.setInodeMap, ends_modify_bind]
  exact hcleared.flushInodeMap_ends.attempt_bind_ok fun y hy => hy.of_insert rfl

/-! ### Contents -/

theorem truncateContent_ends (h : v.Agrees g pending) (hlt : index < g.inodeCount) :
    v.Ends (VolumeM.truncateContent index) fun _ w => w.Agrees g pending := by
  unfold VolumeM.truncateContent
  have hdetach := h.put hlt (x := (v.snapshot.memory.inode index).detached) h.root_inode
  simp only [VolumeM.detachBlocks, bind_assoc, pure_bind]
  rw [ends_inodeAt_bind h.shaped hlt, ends_inodeAt_bind h.shaped hlt,
    ends_setInode_bind h.shaped hlt]
  refine (hdetach.flushInode_ends hlt).attempt_bind_ok fun w hw => ?_
  exact (hw.freeBlocks_ends _).mono fun _ _ hx => hx.2

end Agrees

/-- An operation that serves serves what it keeps as well. -/
theorem Serves.keeping {allowed : Access → Prop} {operation : VolumeM δ α} {P : α → Prop}
    (h : Serves (Sized g) allowed operation P)
    (hkeeps : ∀ v : Volume δ, v.Agrees g pending →
      v.Ends operation fun _ w => w.Agrees g pending) :
    Serves (Agrees g pending) allowed operation P := by
  intro v hv
  refine ((h v hv.sized).and (hkeeps v hv)).mono ?_
  rintro outcome w ⟨⟨hserved, hproper⟩, hw⟩
  exact ⟨⟨hw, hserved.mounted, hserved.asked⟩, hproper⟩

/-- While chunks are written, the inode that gains blocks is pending. -/
theorem chunkInvariant_agrees (hlt : index < g.inodeCount) :
    ChunkInvariant g (Agrees g (insert (.inode index) pending) : Volume δ → Prop) g.Writing index
      fun x => index = 0 → x.isDirectory = true where
  sized _ hv := hv.sized
  looking _ _ hv := hv.looking
  reads _ := id
  inodeAt := by
    refine serves_get_bind fun v hv => ?_
    rw [hv.shaped.getElem?_inodes hlt]
    exact serves_pure hv.root_inode
  setInode x slot pointer hroot := by
    refine (serves_setInode hlt _).keeping fun v hv => ?_
    have hput := hv.put_again hlt (x := x.withBlock slot pointer) hroot
    rw [← bind_pure (VolumeM.setInode index _), ends_setInode_bind hv.shaped hlt]
    exact hput
  allocBlock := serves_allocBlock.keeping fun _ hv => hv.allocBlock_ends
  writeBlock _ sector hlba :=
    (serves_writeSector Sized.device sector (.inl hlba)).keeping fun _ hv =>
      (hv.writeBlock_ends sector hlba).mono fun _ _ hw => hw.2

/-- However far the chunks have come, the inode is stored afterwards. -/
theorem Agrees.storeContent_ends (h : v.Agrees g pending) (hlt : index < g.inodeCount)
    {offset : ℕ} {data : List UInt8} (hend : offset + data.length ≤ maxFileSize) :
    v.Ends (VolumeM.storeContent index offset data) fun _ w => w.Agrees g pending := by
  have hstore (written : Except VolumeError Unit) {w : Volume δ}
      (hw : w.Agrees g (insert (.inode index) pending)) :
      w.Ends (VolumeM.attempt (VolumeM.flushInode index) >>=
        fun stored => VolumeM.orFail written >>= fun _ => VolumeM.orFail stored >>= fun _ =>
          pure data.length) fun _ x => x.Agrees g pending := by
    refine (hw.flushInode_ends hlt).attempt_bind_ok fun x hx => ?_
    cases written with
    | ok answer => exact hx
    | error cause => exact hx
  have hchunks := (chunkInvariant_agrees hlt).writeChunks hend v
    (h.mono (Set.subset_insert (.inode index) pending))
  unfold VolumeM.storeContent
  refine Ends.attempt_bind hchunks ?_ ?_ fun w hw => absurd rfl hw.2
  · rintro ⟨⟩ w ⟨hserved, -⟩
    have hw := hserved.holds
    show w.Ends (VolumeM.inodeAt index >>= fun inode => _) _
    rw [ends_inodeAt_bind hw.shaped hlt, ends_setInode_bind hw.shaped hlt]
    exact hstore _ (hw.put_again hlt hw.root_inode)
  · exact fun cause w hw => hstore _ hw.1.holds

/-- **Every call keeps memory and device in agreement**, however it ends. -/
theorem callInvariant_agrees :
    CallInvariant g (Agrees g pending : Volume δ → Prop) g.Calling where
  sized _ hv := hv.sized
  looking _ _ hv := hv.looking
  reads _ := id
  allocInode kind parent :=
    (serves_allocInode kind parent).keeping fun _ hv => hv.allocInode_ends kind parent
  releaseInode _ hlt := (serves_releaseInode hlt).keeping fun _ hv => hv.releaseInode_ends hlt
  truncateContent _ hlt :=
    (serves_truncateContent hlt).keeping fun _ hv => hv.truncateContent_ends hlt
  storeContent _ hlt _ _ hend :=
    (serves_storeContent hlt hend).keeping fun _ hv => hv.storeContent_ends hlt hend

end Volume

end PocketKernel
