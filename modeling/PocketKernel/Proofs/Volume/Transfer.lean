import PocketKernel.Proofs.Volume.Outcome
import PocketKernel.Proofs.Volume.Snapshot

/-!
# Transfers of a volume

A sector that is read leaves the volume as it was. Each kind of store is one change of the snapshot,
because no two structures of a volume share a sector; a store that is refused changes nothing and
leaves the device failed.

## Main definitions

* `Volume.Transferred`: what any transfer leaves alone.
* `Volume.Stores`: a store made a given change or was refused.

## Main results

* `Volume.readSector_ends`, `Volume.writeSector_ends`: the two transfers.
* `Volume.flushInodeMap_ends`, `Volume.flushBlockMap_ends`, `Volume.flushInode_ends`,
  `Volume.writeBlock_ends`: the stores of a mounted volume.
* `Volume.readBlock_ends`: a data block is read.
-/

namespace PocketKernel

/-! ### Where the structures of a volume lie -/

theorem blockBitmapSector_ne : blockBitmapSector ≠ inodeBitmapSector := by decide

theorem superblockSector_ne_inodeBitmapSector : superblockSector ≠ inodeBitmapSector := by decide

theorem superblockSector_ne_blockBitmapSector : superblockSector ≠ blockBitmapSector := by decide

theorem superblockSector_ne_table (tableSector : ℕ) :
    superblockSector ≠ inodeTableStart + tableSector := by
  simp only [inodeTableStart, superblockSector]
  omega

theorem inodeBitmapSector_ne_table (tableSector : ℕ) :
    inodeBitmapSector ≠ inodeTableStart + tableSector := by
  simp only [inodeTableStart, inodeBitmapSector]
  omega

theorem blockBitmapSector_ne_table (tableSector : ℕ) :
    blockBitmapSector ≠ inodeTableStart + tableSector := by
  simp only [inodeTableStart, blockBitmapSector]
  omega

namespace Geometry

variable (g : Geometry)

theorem superblockSector_lt : superblockSector < g.dataStart := by
  simp only [dataStart, inodeTableStart, superblockSector]
  omega

theorem inodeBitmapSector_lt : inodeBitmapSector < g.dataStart := by
  simp only [dataStart, inodeTableStart, inodeBitmapSector]
  omega

theorem blockBitmapSector_lt : blockBitmapSector < g.dataStart := by
  simp only [dataStart, inodeTableStart, blockBitmapSector]
  omega

theorem dataStart_lt : g.dataStart < g.totalSectors := g.table_lt

theorem blockLba_inj {a b : ℕ} : g.blockLba a = g.blockLba b ↔ a = b := by
  simp only [blockLba]
  omega

theorem lba_inj {a b : ℕ} : g.lba a = g.lba b ↔ a = b := by
  simp only [lba]
  omega

/-- No data block lies among the metadata. -/
theorem blockLba_ne_lba {sector : ℕ} (h : sector < g.dataStart) (block : ℕ) :
    g.blockLba block ≠ g.lba sector := by
  simp only [blockLba, lba]
  omega

theorem lba_lt {sector : ℕ} (h : sector < g.dataStart) :
    g.lba sector < g.startLba + g.totalSectors := by
  have := g.dataStart_lt
  simp only [lba]
  omega

/-- The sector of the inode table that holds an inode. -/
theorem div_lt_tableSectors {index : ℕ} (h : index < g.inodeCount) :
    index / inodesPerSector < g.tableSectors := by
  simp only [tableSectors, tableSectorsFor, inodesPerSector]
  omega

theorem table_lt_dataStart {tableSector : ℕ} (h : tableSector < g.tableSectors) :
    inodeTableStart + tableSector < g.dataStart := by
  simp only [dataStart]
  omega

end Geometry

namespace Volume

variable {δ : Type} [BlockDevice δ] [LawfulDevice δ] {g : Geometry} {v w : Volume δ}

/-! ### The two transfers -/

/-- What any transfer inside the device leaves alone: the copies in memory, the capacity, and
whether the device has failed or is dependable. -/
structure Transferred (v w : Volume δ) : Prop where
  copies : w = { v with device := w.device }
  capacity : BlockDevice.capacity w.device = BlockDevice.capacity v.device
  failed : LawfulDevice.Failed v.device → LawfulDevice.Failed w.device
  dependable : LawfulDevice.Dependable v.device → LawfulDevice.Dependable w.device

theorem Transferred.continues (h : v.Transferred w) (hv : v.Shaped g) : v.Continues g w := by
  refine ⟨by rw [h.copies], ⟨?_, ?_, ?_, ?_, ?_⟩, h.failed, h.dependable⟩
  · rw [h.copies]; exact hv.geometry
  · rw [h.copies]; exact hv.size_inodes
  · rw [h.copies]; exact hv.length_inodeMap
  · rw [h.copies]; exact hv.length_blockMap
  · rw [h.capacity]; exact hv.fits

/-- A transfer that leaves the sectors alone leaves the snapshot alone. -/
theorem Transferred.snapshot_eq (h : v.Transferred w)
    (hsectors : LawfulDevice.sectorAt w.device = LawfulDevice.sectorAt v.device) :
    w.snapshot = v.snapshot := by
  rw [h.copies]
  simp only [snapshot, storedInode, storedInodeMap, storedBlockMap, sectorAt, hsectors]

theorem readSector_ends {lba : ℕ} (hlba : lba < BlockDevice.capacity v.device) :
    v.Ends (VolumeM.readSector lba) fun outcome w => v.Transferred w
      ∧ LawfulDevice.sectorAt w.device = LawfulDevice.sectorAt v.device
      ∧ ((outcome = .ok (v.sectorAt lba) ∧ ¬ LawfulDevice.Failed v.device)
        ∨ (outcome = .error (.error .io) ∧ v.Faulted w)) := by
  unfold Ends
  rw [run_readSector]
  have hsectors := LawfulDevice.sectorAt_read lba v.device
  have htransferred : v.Transferred { v with device := (BlockDevice.read lba v.device).2 } :=
    ⟨rfl, LawfulDevice.capacity_read lba v.device,
      fun hfailed => (LawfulDevice.read_of_failed lba hfailed).2,
      fun hdep => (LawfulDevice.read_of_dependable hdep hlba).2⟩
  cases hread : (BlockDevice.read lba v.device).1 with
  | ok sector =>
    refine ⟨htransferred, hsectors, .inl ⟨?_, fun hfailed => ?_⟩⟩
    · rw [LawfulDevice.eq_sectorAt_of_read hread]
      rfl
    · obtain ⟨cause, hcause⟩ := (LawfulDevice.read_of_failed lba hfailed).1
      rw [hread] at hcause
      cases hcause
  | error cause =>
    refine ⟨htransferred, hsectors, .inr ⟨rfl, LawfulDevice.failed_of_read hlba hread,
      fun hdep => ?_⟩⟩
    obtain ⟨sector, hsector⟩ := (LawfulDevice.read_of_dependable hdep hlba).1
    rw [hread] at hsector
    cases hsector

theorem writeSector_ends {lba : ℕ} (sector : Sector)
    (hlba : lba < BlockDevice.capacity v.device) :
    v.Ends (VolumeM.writeSector lba sector) fun outcome w => v.Transferred w
      ∧ ((outcome = .ok () ∧ ¬ LawfulDevice.Failed v.device
          ∧ LawfulDevice.sectorAt w.device
            = Function.update (LawfulDevice.sectorAt v.device) lba sector)
        ∨ (outcome = .error (.error .io) ∧ v.Faulted w
          ∧ LawfulDevice.sectorAt w.device = LawfulDevice.sectorAt v.device)) := by
  unfold Ends
  rw [run_writeSector]
  have htransferred :
      v.Transferred { v with device := (BlockDevice.write lba sector v.device).2 } :=
    ⟨rfl, LawfulDevice.capacity_write lba sector v.device,
      fun hfailed => (LawfulDevice.write_of_failed lba sector hfailed).2,
      fun hdep => (LawfulDevice.write_of_dependable sector hdep hlba).2⟩
  cases hwrite : (BlockDevice.write lba sector v.device).1 with
  | ok answer =>
    refine ⟨htransferred, .inl ⟨rfl, fun hfailed => ?_, LawfulDevice.sectorAt_write hwrite⟩⟩
    obtain ⟨cause, hcause⟩ := (LawfulDevice.write_of_failed lba sector hfailed).1
    rw [hwrite] at hcause
    cases hcause
  | error cause =>
    refine ⟨htransferred, .inr ⟨rfl, ⟨LawfulDevice.failed_of_write hlba hwrite, fun hdep => ?_⟩,
      LawfulDevice.sectorAt_refused hwrite⟩⟩
    have hok := (LawfulDevice.write_of_dependable sector hdep hlba).1
    rw [hwrite] at hok
    cases hok

/-! ### Stores -/

/-- A store that makes a change to the snapshot: it was made, or it was refused. A failed device
refuses it. -/
def Stores (v : Volume δ) (change : Snapshot) (outcome : Except Stop Unit) (w : Volume δ) : Prop :=
  (outcome = .ok () ∧ ¬ LawfulDevice.Failed v.device ∧ w.snapshot = change)
    ∨ (outcome = .error (.error .io) ∧ v.Faulted w ∧ w.snapshot = v.snapshot)

/-- A write to a sector of the volume is a store, once it is known what it does to the snapshot. -/
theorem Shaped.writeSector_ends (hv : v.Shaped g) {lba : ℕ} (sector : Sector) {change : Snapshot}
    (hlba : lba < g.startLba + g.totalSectors)
    (hchange : ∀ w : Volume δ, v.Transferred w → LawfulDevice.sectorAt w.device
      = Function.update (LawfulDevice.sectorAt v.device) lba sector → w.snapshot = change) :
    v.Ends (VolumeM.writeSector lba sector) fun outcome w =>
      v.Continues g w ∧ v.Stores change outcome w := by
  refine (Volume.writeSector_ends sector (Nat.lt_of_lt_of_le hlba hv.fits)).mono ?_
  rintro outcome w ⟨htransferred, ⟨rfl, hfailed, hsectors⟩ | ⟨rfl, hfault, hsectors⟩⟩
  · exact ⟨htransferred.continues hv, .inl ⟨rfl, hfailed, hchange w htransferred hsectors⟩⟩
  · exact ⟨htransferred.continues hv, .inr ⟨rfl, hfault, htransferred.snapshot_eq hsectors⟩⟩

theorem flushInodeMap_ends (hv : v.Shaped g) :
    v.Ends VolumeM.flushInodeMap fun outcome w =>
      v.Continues g w ∧ v.Stores v.snapshot.storeInodeMap outcome w := by
  unfold VolumeM.flushInodeMap
  rw [ends_get_bind]
  obtain ⟨rfl⟩ := hv.geometry
  refine hv.writeSector_ends _ (v.geometry.lba_lt v.geometry.inodeBitmapSector_lt) ?_
  intro w htransferred hsectors
  rw [htransferred.copies]
  have hmap : (⟨v.inodeMap.sector, v.geometry.inodeCount⟩ : Bitmap) = v.inodeMap := by
    rw [← hv.length_inodeMap]
  simp only [snapshot, Snapshot.storeInodeMap, storedInode, storedInodeMap, storedBlockMap,
    sectorAt, hsectors, Function.update_self, hmap,
    Function.update_of_ne (mt v.geometry.lba_inj.mp superblockSector_ne_inodeBitmapSector),
    Function.update_of_ne (mt v.geometry.lba_inj.mp (inodeBitmapSector_ne_table _).symm),
    Function.update_of_ne (mt v.geometry.lba_inj.mp blockBitmapSector_ne),
    Function.update_of_ne (v.geometry.blockLba_ne_lba v.geometry.inodeBitmapSector_lt _)]

theorem flushBlockMap_ends (hv : v.Shaped g) :
    v.Ends VolumeM.flushBlockMap fun outcome w =>
      v.Continues g w ∧ v.Stores v.snapshot.storeBlockMap outcome w := by
  unfold VolumeM.flushBlockMap
  rw [ends_get_bind]
  obtain ⟨rfl⟩ := hv.geometry
  refine hv.writeSector_ends _ (v.geometry.lba_lt v.geometry.blockBitmapSector_lt) ?_
  intro w htransferred hsectors
  rw [htransferred.copies]
  have hmap : (⟨v.blockMap.sector, v.geometry.dataBlocks⟩ : Bitmap) = v.blockMap := by
    rw [← hv.length_blockMap]
  simp only [snapshot, Snapshot.storeBlockMap, storedInode, storedInodeMap, storedBlockMap,
    sectorAt, hsectors, Function.update_self, hmap,
    Function.update_of_ne (mt v.geometry.lba_inj.mp superblockSector_ne_blockBitmapSector),
    Function.update_of_ne (mt v.geometry.lba_inj.mp (blockBitmapSector_ne_table _).symm),
    Function.update_of_ne (mt v.geometry.lba_inj.mp blockBitmapSector_ne.symm),
    Function.update_of_ne (v.geometry.blockLba_ne_lba v.geometry.blockBitmapSector_lt _)]

omit [LawfulDevice δ] in
/-- What is read back from a sector of the inode table that was just stored. -/
theorem ofBytes_slice_packed (hv : v.Shaped g) {index : ℕ} (h : index < g.inodeCount) :
    Inode.ofBytes ((VolumeM.packInodes v.inodes
        (inodesPerSector * (index / inodesPerSector))).slice
          (inodeSize * (index % inodesPerSector)) inodeSize)
      = v.inodes.getD index Inode.free := by
  have hsplit : inodesPerSector * (index / inodesPerSector) + index % inodesPerSector = index :=
    Nat.div_add_mod index inodesPerSector
  have hlt : index < v.inodes.size := by rw [hv.size_inodes]; exact h
  rw [VolumeM.ofBytes_slice_packInodes (Nat.mod_lt _ (by decide)) (by rw [hsplit]; exact hlt)]
  simp only [hsplit]
  rw [Array.getD_eq_getD_getElem?, Array.getElem?_eq_getElem hlt, Option.getD_some]

theorem flushTableSector_ends (hv : v.Shaped g) {tableSector : ℕ}
    (h : tableSector < g.tableSectors) :
    v.Ends (VolumeM.flushTableSector tableSector) fun outcome w =>
      v.Continues g w ∧ v.Stores (v.snapshot.publish tableSector) outcome w := by
  unfold VolumeM.flushTableSector
  rw [ends_get_bind]
  obtain ⟨rfl⟩ := hv.geometry
  have hfirst : inodesPerSector * tableSector ≤ v.inodes.size := by
    rw [hv.size_inodes]
    simp only [Geometry.tableSectors, tableSectorsFor, inodesPerSector] at *
    omega
  rw [if_pos hfirst]
  refine hv.writeSector_ends _ (v.geometry.lba_lt (v.geometry.table_lt_dataStart h)) ?_
  intro w htransferred hsectors
  rw [htransferred.copies]
  have hinodes : (fun index => if index < v.geometry.inodeCount then
        Inode.ofBytes ((Function.update (LawfulDevice.sectorAt v.device)
          (v.geometry.lba (inodeTableStart + tableSector))
          (VolumeM.packInodes v.inodes (inodesPerSector * tableSector))
            (v.geometry.lba (inodeTableStart + index / inodesPerSector))).slice
          (inodeSize * (index % inodesPerSector)) inodeSize)
        else Inode.free)
      = fun index => if index / inodesPerSector = tableSector then v.inodes.getD index Inode.free
        else if index < v.geometry.inodeCount then v.storedInode index else Inode.free := by
    funext index
    by_cases hin : index < v.geometry.inodeCount
    · by_cases hsame : index / inodesPerSector = tableSector
      · subst hsame
        rw [if_pos hin, if_pos rfl, Function.update_self, ofBytes_slice_packed hv hin]
      · rw [if_pos hin, if_neg hsame, if_pos hin, Function.update_of_ne
          (mt v.geometry.lba_inj.mp (fun heq => hsame (Nat.add_left_cancel heq)))]
        rfl
    · have hout : v.inodes.getD index Inode.free = Inode.free := by
        rw [Array.getD_eq_getD_getElem?, Array.getElem?_eq_none (by rw [hv.size_inodes]; omega),
          Option.getD_none]
      rw [if_neg hin, if_neg hin, hout, ite_self]
  simp only [snapshot, Snapshot.publish, storedInode, storedInodeMap, storedBlockMap,
    sectorAt, hsectors, hinodes,
    Function.update_of_ne (mt v.geometry.lba_inj.mp (superblockSector_ne_table _)),
    Function.update_of_ne (mt v.geometry.lba_inj.mp (inodeBitmapSector_ne_table _)),
    Function.update_of_ne (mt v.geometry.lba_inj.mp (blockBitmapSector_ne_table _)),
    Function.update_of_ne (v.geometry.blockLba_ne_lba (v.geometry.table_lt_dataStart h) _)]

theorem flushInode_ends (hv : v.Shaped g) {index : ℕ} (h : index < g.inodeCount) :
    v.Ends (VolumeM.flushInode index) fun outcome w => v.Continues g w
      ∧ v.Stores (v.snapshot.publish (index / inodesPerSector)) outcome w :=
  flushTableSector_ends hv (g.div_lt_tableSectors h)

/-! ### Data blocks -/

theorem readBlock_ends (hv : v.Shaped g) {block : ℕ} (h : block < g.dataBlocks) :
    v.Ends (VolumeM.readSector (v.geometry.blockLba block)) fun outcome w => v.Continues g w
      ∧ w.snapshot = v.snapshot
      ∧ ((outcome = .ok (v.snapshot.block block) ∧ ¬ LawfulDevice.Failed v.device)
        ∨ (outcome = .error (.error .io) ∧ v.Faulted w)) := by
  obtain ⟨rfl⟩ := hv.geometry
  refine (readSector_ends (Nat.lt_of_lt_of_le (v.geometry.blockLba_lt h) hv.fits)).mono ?_
  rintro outcome w ⟨htransferred, hsectors, hcases⟩
  exact ⟨htransferred.continues hv, htransferred.snapshot_eq hsectors, hcases⟩

theorem writeBlock_ends (hv : v.Shaped g) {block : ℕ} (sector : Sector)
    (h : block < g.dataBlocks) :
    v.Ends (VolumeM.writeSector (v.geometry.blockLba block) sector) fun outcome w =>
      v.Continues g w ∧ v.Stores (v.snapshot.putBlock block sector) outcome w := by
  obtain ⟨rfl⟩ := hv.geometry
  refine hv.writeSector_ends _ (v.geometry.blockLba_lt h) ?_
  intro w htransferred hsectors
  rw [htransferred.copies]
  have htable {sector : ℕ} (hsector : sector < v.geometry.dataStart) :
      v.geometry.lba sector ≠ v.geometry.blockLba block :=
    (v.geometry.blockLba_ne_lba hsector block).symm
  have hinodes : (fun index => if index < v.geometry.inodeCount then
        Inode.ofBytes ((Function.update (LawfulDevice.sectorAt v.device)
          (v.geometry.blockLba block) sector
            (v.geometry.lba (inodeTableStart + index / inodesPerSector))).slice
          (inodeSize * (index % inodesPerSector)) inodeSize)
        else Inode.free)
      = fun index => if index < v.geometry.inodeCount then v.storedInode index else Inode.free := by
    funext index
    by_cases hin : index < v.geometry.inodeCount
    · rw [if_pos hin, if_pos hin, Function.update_of_ne (htable
        (v.geometry.table_lt_dataStart (v.geometry.div_lt_tableSectors hin)))]
      rfl
    · rw [if_neg hin, if_neg hin]
  have hblocks : (fun b => Function.update (LawfulDevice.sectorAt v.device)
        (v.geometry.blockLba block) sector (v.geometry.blockLba b))
      = Function.update (fun b => v.sectorAt (v.geometry.blockLba b)) block sector := by
    funext b
    by_cases hb : b = block
    · subst hb
      rw [Function.update_self, Function.update_self]
    · rw [Function.update_of_ne hb, Function.update_of_ne (mt v.geometry.blockLba_inj.mp hb)]
      rfl
  simp only [snapshot, Snapshot.putBlock, storedInode, storedInodeMap, storedBlockMap,
    sectorAt, hsectors, hinodes, hblocks,
    Function.update_of_ne (htable v.geometry.superblockSector_lt),
    Function.update_of_ne (htable v.geometry.inodeBitmapSector_lt),
    Function.update_of_ne (htable v.geometry.blockBitmapSector_lt)]

/-! ### The copies in memory -/

variable {α : Type} {post : Except Stop α → Volume δ → Prop} {index : ℕ}

theorem ends_inodeAt_bind (hv : v.Shaped g) (h : index < g.inodeCount)
    (next : Inode → VolumeM δ α) : v.Ends (VolumeM.inodeAt index >>= next) post
      ↔ v.Ends (next (v.snapshot.memory.inode index)) post := by
  unfold VolumeM.inodeAt
  rw [bind_assoc, ends_get_bind, hv.getElem?_inodes h]
  rfl

theorem ends_findInode_bind (hv : v.Shaped g) (h : index < g.inodeCount)
    (next : Inode → VolumeM δ α) : v.Ends (VolumeM.findInode index >>= next) post
      ↔ v.Ends (next (v.snapshot.memory.inode index)) post := by
  unfold VolumeM.findInode
  rw [bind_assoc, ends_get_bind, hv.getElem?_inodes h]
  rfl

omit [LawfulDevice δ] in
theorem ends_setInode_bind (hv : v.Shaped g) (h : index < g.inodeCount) (x : Inode)
    (next : Unit → VolumeM δ α) : v.Ends (VolumeM.setInode index x >>= next) post
      ↔ (v.put index x).Ends (next ()) post := by
  unfold VolumeM.setInode
  rw [bind_assoc, ends_get_bind, if_pos (by rw [hv.size_inodes]; exact h)]
  rfl

end Volume

end PocketKernel
