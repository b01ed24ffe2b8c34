import PocketKernel.Proofs.Volume.Ownership
import PocketKernel.Proofs.Volume.Consistency

/-!
# Formatting that was interrupted

Formatting makes its stores in a fixed order, the superblock first. If the device refuses one of
them, what is left on it is a mixture: a number of sectors as formatting leaves them, and the others
as they came. The next mount takes the mixture for a volume as soon as the superblock was stored and
the root is a directory that is in use, and then everything that the old sectors say counts.

The number of transfers after which a RAM disk gives up decides what the mixture is, so it is known
exactly which interruptions lead to a fresh volume.

## Main definitions

* `VolumeM.formatStore`, `Snapshot.formattedUpTo`: the stores one by one, and what they lead to.
* `Image.halfway`: the mixture on the device.
* `Volume.Pristine`, `Image.Bare`: a volume that looks as if it was formatted.

## Main results

* `Volume.format_interrupted_ends`: the stores that are made before the disk gives up.
* `Volume.pristine_after_interrupted_iff`: when the next mount gives a fresh volume.
* `Volume.not_pristine_after_interrupted`: an old root that is found again.
-/

namespace PocketKernel

/-! ### The stores of formatting -/

/-- The stores of formatting, in their order: the superblock, the two bitmaps, and the sectors of
the inode table. -/
def VolumeM.formatStore {δ : Type} [BlockDevice δ] (g : Geometry) : ℕ → VolumeM δ Unit
  | 0 => writeSector (g.lba superblockSector) (Sector.ofBytes g.superblock.bytes)
  | 1 => flushInodeMap
  | 2 => flushBlockMap
  | tableSector + 3 => flushTableSector tableSector

/-- The number of these stores. -/
def Geometry.formatStores (g : Geometry) : ℕ := g.tableSectors + 3

namespace Snapshot

variable {g : Geometry} {w : Snapshot}

/-- What has become of the device after so many of these stores. -/
def formattedUpTo (g : Geometry) (w : Snapshot) (stores : ℕ) : Snapshot where
  memory := w.memory
  disk :=
    { inode := fun index =>
        if index / inodesPerSector + 3 < stores then w.memory.inode index else w.disk.inode index
      inodeUsed := if 1 < stores then w.memory.inodeUsed else w.disk.inodeUsed
      blockUsed := if 2 < stores then w.memory.blockUsed else w.disk.blockUsed }
  superblock := if 0 < stores then Sector.ofBytes g.superblock.bytes else w.superblock
  block := w.block

theorem superblock_formattedUpTo (stores : ℕ) : (w.formattedUpTo g stores).superblock
    = if 0 < stores then Sector.ofBytes g.superblock.bytes else w.superblock :=
  rfl

theorem formattedUpTo_zero : w.formattedUpTo g 0 = w := by
  simp [formattedUpTo]

theorem formattedUpTo_one : w.formattedUpTo g 1
    = { w.formattedUpTo g 0 with superblock := Sector.ofBytes g.superblock.bytes } := by
  simp [formattedUpTo]

theorem formattedUpTo_two : w.formattedUpTo g 2 = (w.formattedUpTo g 1).storeInodeMap := by
  simp [formattedUpTo, storeInodeMap]

theorem formattedUpTo_three : w.formattedUpTo g 3 = (w.formattedUpTo g 2).storeBlockMap := by
  simp [formattedUpTo, storeBlockMap]

theorem formattedUpTo_table (tableSector : ℕ) : w.formattedUpTo g (tableSector + 4)
    = (w.formattedUpTo g (tableSector + 3)).publish tableSector := by
  have hinode (index : ℕ) : (if index / inodesPerSector + 3 < tableSector + 4
        then w.memory.inode index else w.disk.inode index)
      = if index / inodesPerSector = tableSector then w.memory.inode index
        else if index / inodesPerSector + 3 < tableSector + 3 then w.memory.inode index
        else w.disk.inode index := by
    by_cases hsame : index / inodesPerSector = tableSector
    · rw [if_pos (by omega), if_pos hsame]
    · rw [if_neg hsame]
      refine if_congr ?_ rfl rfl
      omega
  simp only [formattedUpTo, publish, hinode]
  simp

end Snapshot

namespace Volume

variable {δ : Type} [BlockDevice δ] [LawfulDevice δ] {g : Geometry} {v w : Volume δ} {u : Snapshot}

/-- One store after the other. -/
theorem formatStore_ends (hv : v.Shaped g) {stores : ℕ} (hlt : stores < g.formatStores)
    (hu : v.snapshot = u.formattedUpTo g stores) :
    v.Ends (VolumeM.formatStore g stores) fun outcome w => v.Continues g w
      ∧ v.Stores (u.formattedUpTo g (stores + 1)) outcome w := by
  match stores with
  | 0 =>
    rw [Snapshot.formattedUpTo_one, ← hu]
    exact storeSuperblock_ends hv _
  | 1 =>
    rw [Snapshot.formattedUpTo_two, ← hu]
    exact flushInodeMap_ends hv
  | 2 =>
    rw [Snapshot.formattedUpTo_three, ← hu]
    exact flushBlockMap_ends hv
  | tableSector + 3 =>
    rw [Snapshot.formattedUpTo_table, ← hu]
    exact flushTableSector_ends hv (by rw [Geometry.formatStores] at hlt; omega)

omit [LawfulDevice δ] in
/-- Formatting is these stores, after the copies were made. -/
theorem run_format (v : Volume δ) : v.run VolumeM.format
    = v.prepared.run ((List.range v.geometry.formatStores).forM
      (VolumeM.formatStore v.geometry)) := by
  have hrow : List.range v.geometry.formatStores
      = [0, 1, 2] ++ (List.range v.geometry.tableSectors).map (· + 3) := by
    rw [Geometry.formatStores, Nat.add_comm, List.range_add]
    simp [List.range_succ, Nat.add_comm]
  have htable (tableSectors : List ℕ) :
      (forM (tableSectors.map (· + 3)) (VolumeM.formatStore v.geometry) : VolumeM δ Unit)
        = forM tableSectors VolumeM.flushTableSector := by
    induction tableSectors with
    | nil => rfl
    | cons t tableSectors ih =>
      rw [List.map_cons, List.forM_cons, List.forM_cons, ih]
      rfl
  rw [List.forM_eq_forM, hrow, List.forM_append, htable]
  simp only [List.forM_cons, List.forM_nil, bind_assoc, pure_bind]
  rfl

/-! ### A budget of transfers -/

section Budget

variable {v w : Volume RamDisk} {lba budget : ℕ}

/-- A read takes a transfer from the budget, if there is one left. -/
theorem readSector_spends (hlba : lba < v.device.capacity)
    (h : v.device.faultAfter = some budget) :
    v.Ends (VolumeM.readSector lba) fun _ w => w.device.faultAfter = some (budget - 1) := by
  have hdevice (outcome : Except DiskError Sector) (device : RamDisk) :
      (({ v with device := device } : Volume RamDisk).run
        (VolumeM.ofTransfer outcome)).2.device = device := by
    cases outcome with
    | ok sector => rfl
    | error cause => rfl
  show (({ v with device := (RamDisk.read lba v.device).2 } : Volume RamDisk).run
    (VolumeM.ofTransfer (RamDisk.read lba v.device).1)).2.device.faultAfter = _
  rw [hdevice]
  cases budget with
  | zero => simp only [RamDisk.read, RamDisk.grant, if_pos hlba, h]
  | succ left => simp only [RamDisk.read, RamDisk.grant, if_pos hlba, h]; rfl

/-- A write is granted while there is a transfer left. -/
theorem writeSector_spends (hlba : lba < v.device.capacity) (sector : Sector)
    (h : v.device.faultAfter = some (budget + 1)) :
    v.Ends (VolumeM.writeSector lba sector) fun outcome w =>
      outcome = .ok () ∧ w.device.faultAfter = some budget := by
  have hgrant : v.device.grant lba = .ok { v.device with faultAfter := some budget } := by
    simp only [RamDisk.grant, if_pos hlba, h]
  have hwrite : BlockDevice.write lba sector v.device = _ :=
    RamDisk.write_granted sector hgrant
  unfold Ends
  rw [run_writeSector, hwrite]
  exact ⟨rfl, rfl⟩

theorem formatStore_spends (hv : v.Shaped g) {stores : ℕ} (hlt : stores < g.formatStores)
    (h : v.device.faultAfter = some (budget + 1)) :
    v.Ends (VolumeM.formatStore g stores) fun outcome w =>
      outcome = .ok () ∧ w.device.faultAfter = some budget := by
  obtain ⟨rfl⟩ := hv.geometry
  have hwrite {sector : ℕ} (hsector : sector < v.geometry.dataStart) (content : Sector) :=
    writeSector_spends (Nat.lt_of_lt_of_le (v.geometry.lba_lt hsector) hv.fits) content h
  match stores with
  | 0 => exact hwrite v.geometry.superblockSector_lt _
  | 1 => exact hwrite v.geometry.inodeBitmapSector_lt _
  | 2 => exact hwrite v.geometry.blockBitmapSector_lt _
  | tableSector + 3 =>
    have htable : tableSector < v.geometry.tableSectors := by
      rw [Geometry.formatStores] at hlt
      omega
    have hfirst : inodesPerSector * tableSector ≤ v.inodes.size := by
      rw [hv.size_inodes]
      simp only [Geometry.tableSectors, tableSectorsFor, inodesPerSector] at *
      omega
    rw [VolumeM.formatStore, VolumeM.flushTableSector, ends_get_bind]
    dsimp only
    rw [if_pos hfirst]
    exact hwrite (v.geometry.table_lt_dataStart htable) _

/-- A row of stores goes as far as the budget. -/
theorem formatStores_ends (hv : v.Shaped g) {stores count : ℕ}
    (hle : stores + count ≤ g.formatStores) (hu : v.snapshot = u.formattedUpTo g stores)
    (h : v.device.faultAfter = some budget) :
    v.Ends (forM (List.range' stores count) (VolumeM.formatStore g)) fun outcome w =>
      v.Continues g w
        ∧ ((count ≤ budget ∧ outcome = .ok ())
          ∨ (budget < count ∧ outcome = .error (.error .io)
            ∧ w.snapshot = u.formattedUpTo g (stores + budget))) := by
  induction count generalizing v stores budget with
  | zero => exact ⟨hv.continues, .inl ⟨Nat.zero_le _, rfl⟩⟩
  | succ count ih =>
    rw [List.range'_succ, List.forM_cons]
    have hlt : stores < g.formatStores := by omega
    cases budget with
    | zero =>
      refine Ends.bind (formatStore_ends hv hlt hu) ?_ ?_
      · rintro ⟨⟩ w ⟨-, ⟨-, hnot, -⟩ | ⟨⟨⟩, -⟩⟩
        exact absurd h hnot
      · rintro stop w ⟨hvw, ⟨⟨⟩, -⟩ | ⟨⟨rfl⟩, -, hw⟩⟩
        exact ⟨hvw, .inr ⟨Nat.succ_pos _, rfl, hw.trans hu⟩⟩
    | succ left =>
      refine Ends.bind ((formatStore_ends hv hlt hu).and (formatStore_spends hv hlt h)) ?_ ?_
      · rintro ⟨⟩ w ⟨⟨hvw, ⟨-, -, hw⟩ | ⟨⟨⟩, -⟩⟩, -, hleft⟩
        refine (ih hvw.shaped (by omega) hw hleft).mono ?_
        rintro outcome x ⟨hwx, ⟨hall, rfl⟩ | ⟨hsome, rfl, hx⟩⟩
        · exact ⟨hvw.trans hwx, .inl ⟨by omega, rfl⟩⟩
        · refine ⟨hvw.trans hwx, .inr ⟨by omega, rfl, ?_⟩⟩
          rw [hx]
          congr 1
          omega
      · rintro stop w ⟨-, ⟨⟩, -⟩

/-- **The stores that formatting makes** before the disk gives up. -/
theorem format_interrupted_ends (hv : v.Placed g) (h : v.device.faultAfter = some budget) :
    v.Ends VolumeM.format fun outcome w => v.prepared.Continues g w
      ∧ ((g.formatStores ≤ budget ∧ outcome = .ok ())
        ∨ (budget < g.formatStores ∧ outcome = .error (.error .io)
          ∧ w.snapshot
            = ({ v.snapshot with memory := Image.formatted } : Snapshot).formattedUpTo g budget))
    := by
  unfold Ends
  rw [run_format, hv.geometry, List.forM_eq_forM, List.range_eq_range']
  have hends := formatStores_ends (g := g) (shaped_prepared hv) (Nat.zero_add _).le
    (v.snapshot_prepared.trans Snapshot.formattedUpTo_zero.symm) h
  rwa [Nat.zero_add] at hends

/-- A device whose superblock is another is not read any further. -/
theorem load_refused_ends (hv : v.Placed g)
    (hnone : g.accepts (Superblock.ofBytes (v.sectorAt (g.lba superblockSector)).bytes) = false)
    (h : v.device.faultAfter = some budget) :
    v.Ends VolumeM.load fun outcome w => v.Fetched w ∧ (∃ cause, outcome = .error (.error cause))
      ∧ w.device.faultAfter = some (budget - 1) := by
  obtain ⟨rfl⟩ := hv.geometry
  unfold VolumeM.load
  rw [ends_get_bind]
  dsimp only
  have hlt := v.geometry.superblockSector_lt
  refine Ends.bind ((hv.readSector_ends hlt).and (readSector_spends
    (Nat.lt_of_lt_of_le (v.geometry.lba_lt hlt) hv.fits) h)) ?_ ?_
  · rintro superblock w ⟨⟨hvw, hanswer | ⟨⟨⟩, -⟩⟩, hbudget⟩
    cases hanswer
    rw [hnone]
    exact ⟨hvw, ⟨_, rfl⟩, hbudget⟩
  · rintro stop w ⟨⟨hvw, ⟨⟨⟩⟩ | ⟨⟨rfl⟩, -⟩⟩, hbudget⟩
    exact ⟨hvw, ⟨_, rfl⟩, hbudget⟩

/-- **Mounting that is interrupted**, where there is no volume: the first transfer is a read, and
the others are the stores of formatting. -/
theorem mount_interrupted_ends (hv : v.Placed g) (hclosed : v.mounted = false)
    (hnone : g.accepts (Superblock.ofBytes (v.sectorAt (g.lba superblockSector)).bytes) = false)
    (h : v.device.faultAfter = some budget) :
    v.Ends VolumeM.mount fun outcome w => (g.formatStores < budget ∧ outcome = .ok ())
      ∨ (budget ≤ g.formatStores ∧ outcome = .error (.error .io) ∧ w.mounted = false ∧ w.Placed g
        ∧ w.snapshot = ({ v.snapshot with memory := Image.formatted } : Snapshot).formattedUpTo g
          (budget - 1)) := by
  unfold VolumeM.mount
  rw [ends_get_bind, if_neg (by rw [hclosed]; decide),
    if_neg (by rw [hv.geometry]; exact Nat.not_lt.mpr hv.fits)]
  refine Ends.attempt_bind (load_refused_ends hv hnone h) ?_ ?_ ?_
  · rintro ⟨⟩ w ⟨-, ⟨cause, ⟨⟩⟩, -⟩
  · rintro cause x ⟨hvx, -, hbudget⟩
    have hpos : 0 < g.formatStores := Nat.succ_pos _
    refine Ends.bind (format_interrupted_ends (hv.fetched hvx) hbudget) ?_ ?_
    · rintro ⟨⟩ w ⟨-, ⟨hall, -⟩ | ⟨-, ⟨⟩, -⟩⟩
      exact .inl ⟨by omega, rfl⟩
    · rintro stop w ⟨hxw, ⟨-, ⟨⟩⟩ | ⟨hsome, ⟨rfl⟩, hw⟩⟩
      rw [hvx.snapshot] at hw
      exact .inr ⟨by omega, rfl, hxw.mounted.trans (hvx.mounted.trans hclosed),
        hxw.shaped.placed, hw⟩
  · rintro w ⟨-, ⟨cause, ⟨⟩⟩, -⟩

end Budget

end Volume

/-! ### Pristine volumes -/

namespace Image

variable {g : Geometry}

/-- What is on the device after so many stores of formatting, if it came with an old image. -/
def halfway (old : Image) (stores : ℕ) : Image where
  inode index :=
    if index / inodesPerSector + 3 < stores then formatted.inode index else old.inode index
  inodeUsed := if 1 < stores then formatted.inodeUsed else old.inodeUsed
  blockUsed := if 2 < stores then formatted.blockUsed else old.blockUsed

/-- The root is a directory that is in use. -/
def Rooted (image : Image) : Prop :=
  (image.inode 0).isDirectory = true ∧ image.inodeUsed 0 = true

/-- Nothing but an empty root is in use, and no live inode has a block. -/
structure Bare (image : Image) : Prop where
  size : (image.inode 0).size = 0
  inodes : ∀ index, image.inodeUsed index = true → index = 0
  blocks : ∀ block, image.blockUsed block = false
  pointers : ∀ index slot block, ¬ image.Claims index slot block

theorem bare_formatted : formatted.Bare where
  size := size_formatted 0
  inodes _ h := of_decide_eq_true h
  blocks _ := rfl
  pointers index slot block h := by
    have hblock := h.2
    rw [blockAt_formatted] at hblock
    cases hblock

end Image

namespace Volume

variable {δ : Type} [BlockDevice δ] [LawfulDevice δ] {g : Geometry} {v w : Volume δ}

open Snapshot

/-- A volume looks as if it was formatted: its root is empty, nothing else is in use, and every
block that a live inode points at is marked and its own. -/
structure Pristine (g : Geometry) (v : Volume δ) : Prop where
  listing : (v.run (VolumeM.list ['/'])).1 = .ok []
  usage : v.usage = ⟨1, g.inodeCount, 0, g.dataBlocks⟩
  marked : ∀ {index slot block}, v.snapshot.memory.Claims index slot block →
    v.snapshot.memory.blockUsed block = true
  once : ∀ {index index' slot slot' block}, v.snapshot.memory.Claims index slot block →
    v.snapshot.memory.Claims index' slot' block → index = index' ∧ slot = slot'

/-- Listing the root comes down to its records. -/
theorem ends_list_root {post : Except Stop (List DirectoryEntry) → Volume δ → Prop}
    (hv : v.Shaped g) (hmounted : v.mounted = true)
    (hroot : (v.snapshot.memory.inode 0).isDirectory = true) :
    v.Ends (VolumeM.list ['/']) post ↔ v.Ends (VolumeM.liveRecords 0 >>= fun live =>
      live.mapM fun record => VolumeM.entryFor record.name record.target.toNat) post := by
  unfold VolumeM.list
  rw [ends_requireMounted_bind hmounted]
  show v.Ends (VolumeM.findInode 0 >>= fun inode => _) post ↔ _
  rw [ends_findInode_bind hv g.inodeCount_pos, hroot]
  rfl

/-- An empty directory has no records. -/
theorem records_of_size_ends (hv : v.Shaped g) {index : ℕ} (hlt : index < g.inodeCount)
    (hdirectory : (v.snapshot.memory.inode index).isDirectory = true)
    (hsize : (v.snapshot.memory.inode index).size = 0) :
    v.Ends (VolumeM.records index) fun outcome w => outcome = .ok [] ∧ w = v := by
  have hcontent : v.Ends (VolumeM.readContent index 0 0) fun outcome w =>
      outcome = .ok [] ∧ w = v := by
    unfold VolumeM.readContent
    rw [ends_findInode_bind hv hlt, hsize]
    exact ⟨rfl, rfl⟩
  unfold VolumeM.records
  rw [ends_findInode_bind hv hlt, hdirectory, hsize]
  refine Ends.bind hcontent ?_ ?_
  · rintro content w ⟨⟨rfl⟩, rfl⟩
    exact ⟨rfl, rfl⟩
  · rintro stop w ⟨⟨⟩, -⟩

/-- The content of an inode without blocks cannot be read. -/
theorem records_without_blocks_ends (hv : v.Shaped g) {index : ℕ} (hlt : index < g.inodeCount)
    (hdirectory : (v.snapshot.memory.inode index).isDirectory = true)
    (hsize : (v.snapshot.memory.inode index).size ≠ 0)
    (hnone : (v.snapshot.memory.inode index).blockAt 0 = none) :
    v.Ends (VolumeM.records index) fun outcome _ => ∃ stop, outcome = .error stop := by
  have hpos : ¬ (v.snapshot.memory.inode index).size.toNat ≤ 0 := by
    rw [Nat.le_zero]
    exact fun hzero => hsize (UInt32.toNat_inj.mp hzero)
  have hpointer : (v.snapshot.memory.inode index).direct[0] = noBlock := by
    by_contra hne
    rw [Inode.blockAt_eq_some.mpr ⟨by decide, hne, rfl⟩] at hnone
    cases hnone
  have hblock : v.Ends (VolumeM.blockOf (v.snapshot.memory.inode index) 0)
      fun outcome _ => ∃ stop, outcome = .error stop := by
    have hget : (v.snapshot.memory.inode index).direct[0]? = some noBlock := by
      rw [Vector.getElem?_eq_getElem (by decide), hpointer]
    unfold VolumeM.blockOf
    rw [hget]
    exact ⟨_, rfl⟩
  have hchunks : v.Ends (VolumeM.readChunks (v.snapshot.memory.inode index) 0
      (v.snapshot.memory.inode index).size.toNat) fun outcome _ =>
        ∃ stop, outcome = .error stop := by
    rw [VolumeM.readChunks, dif_neg fun hzero => hpos (Nat.le_of_eq hzero)]
    exact Ends.bind hblock (fun _ _ h => by obtain ⟨stop, ⟨⟩⟩ := h) fun _ _ h => ⟨_, rfl⟩
  unfold VolumeM.records
  rw [ends_findInode_bind hv hlt, hdirectory]
  by_cases hmod : (v.snapshot.memory.inode index).size.toNat % recordSize ≠ 0
  · rw [if_neg (by decide)]
    dsimp only
    rw [if_pos hmod]
    exact ⟨_, rfl⟩
  · rw [if_neg (by decide)]
    dsimp only
    rw [if_neg hmod]
    have hcontent : v.Ends (VolumeM.readContent index 0
        (v.snapshot.memory.inode index).size.toNat) fun outcome _ =>
          ∃ stop, outcome = .error stop := by
      unfold VolumeM.readContent
      rw [ends_findInode_bind hv hlt, if_neg hpos, Nat.sub_zero, Nat.min_self]
      exact hchunks
    exact Ends.bind hcontent (fun _ _ h => by obtain ⟨stop, ⟨⟩⟩ := h) fun _ _ h => ⟨_, rfl⟩

/-- An empty root has no entries. -/
theorem list_empty_root (hv : v.Shaped g) (hmounted : v.mounted = true)
    (hroot : (v.snapshot.memory.inode 0).isDirectory = true)
    (hsize : (v.snapshot.memory.inode 0).size = 0) :
    (v.run (VolumeM.list ['/'])).1 = .ok [] := by
  suffices h : v.Ends (VolumeM.list ['/']) fun outcome _ => outcome = .ok [] from h
  have hlive : v.Ends (VolumeM.liveRecords 0) fun outcome _ => outcome = .ok [] := by
    refine Ends.bind (records_of_size_ends hv g.inodeCount_pos hroot hsize) ?_ ?_
    · rintro all w ⟨⟨rfl⟩, -⟩
      rfl
    · rintro stop w ⟨⟨⟩, -⟩
  rw [ends_list_root hv hmounted hroot]
  refine Ends.bind hlive ?_ ?_
  · rintro live w ⟨rfl⟩
    rfl
  · rintro stop w ⟨⟩

/-- A root that has a size but no blocks cannot be listed. -/
theorem list_root_without_blocks (hv : v.Shaped g) (hmounted : v.mounted = true)
    (hroot : (v.snapshot.memory.inode 0).isDirectory = true)
    (hsize : (v.snapshot.memory.inode 0).size ≠ 0)
    (hnone : (v.snapshot.memory.inode 0).blockAt 0 = none) :
    (v.run (VolumeM.list ['/'])).1 ≠ .ok [] := by
  suffices h : v.Ends (VolumeM.list ['/']) fun outcome _ => ∃ stop, outcome = .error stop by
    obtain ⟨stop, hstop⟩ := h
    rw [hstop]
    exact fun h => by cases h
  have hlive : v.Ends (VolumeM.liveRecords 0) fun outcome _ => ∃ stop, outcome = .error stop :=
    Ends.bind (records_without_blocks_ends hv g.inodeCount_pos hroot hsize hnone)
      (fun _ _ h => by obtain ⟨stop, ⟨⟩⟩ := h) fun _ _ _ => ⟨_, rfl⟩
  rw [ends_list_root hv hmounted hroot]
  exact Ends.bind hlive (fun _ _ h => by obtain ⟨stop, ⟨⟩⟩ := h) fun _ _ _ => ⟨_, rfl⟩

/-- **A mounted volume looks fresh** exactly if its copies are bare. -/
theorem pristine_iff (hv : v.Shaped g) (hmounted : v.mounted = true)
    (hroot : v.snapshot.memory.Rooted) : v.Pristine g ↔ v.snapshot.memory.Bare := by
  have husage : v.usage = ⟨v.inodeMap.count, g.inodeCount, v.blockMap.count, g.dataBlocks⟩ := by
    rw [Volume.usage, hv.length_inodeMap, hv.length_blockMap]
  have hset : v.inodeMap.isSet 0 = true := hroot.2
  constructor
  · rintro ⟨hlisting, hfigures, hmarked, -⟩
    rw [husage, Usage.mk.injEq] at hfigures
    obtain ⟨hone, -, hnone, -⟩ := hfigures
    rw [Bitmap.count_eq_ncard, Set.ncard_eq_one] at hone
    obtain ⟨only, honly⟩ := hone
    have hzero : 0 = only := by
      have hmem : 0 ∈ {index | v.inodeMap.isSet index = true} := hset
      rwa [honly] at hmem
    have hblocks (block : ℕ) : v.snapshot.memory.blockUsed block = false := by
      by_contra hused
      have hused : v.blockMap.isSet block = true := Bool.eq_true_of_not_eq_false hused
      rw [Bitmap.count, List.countP_eq_zero] at hnone
      exact hnone block (List.mem_range.mpr (Bitmap.lt_length_of_isSet hused)) hused
    have hpointers (index slot block : ℕ) : ¬ v.snapshot.memory.Claims index slot block := by
      intro hclaims
      have hused := hmarked hclaims
      rw [hblocks] at hused
      cases hused
    refine ⟨?_, fun index hindex => ?_, hblocks, hpointers⟩
    · by_contra hsize
      refine list_root_without_blocks hv hmounted hroot.1 hsize ?_ hlisting
      by_contra hsome
      obtain ⟨block, hblock⟩ := Option.ne_none_iff_exists'.mp hsome
      exact hpointers 0 0 block ⟨Inode.isLive_of_isDirectory hroot.1, hblock⟩
    · have hmem : index ∈ {index | v.inodeMap.isSet index = true} := hindex
      rw [honly] at hmem
      exact hmem.trans hzero.symm
  · intro hbare
    have hone : v.inodeMap.count = 1 := by
      rw [Bitmap.count_eq_ncard, Set.ncard_eq_one]
      refine ⟨0, Set.ext fun index => ⟨hbare.inodes index, ?_⟩⟩
      rintro rfl
      exact hset
    have hnone : v.blockMap.count = 0 := by
      rw [Bitmap.count, List.countP_eq_zero]
      intro block _ hused
      have hclear : v.blockMap.isSet block = false := hbare.blocks block
      rw [hclear] at hused
      cases hused
    refine ⟨list_empty_root hv hmounted hroot.1 hbare.size, by rw [husage, hone, hnone], ?_, ?_⟩
    · exact fun hclaims => absurd hclaims (hbare.pointers _ _ _)
    · exact fun hclaims => absurd hclaims (hbare.pointers _ _ _)

end Volume

/-! ### The next mount -/

namespace Volume

open Snapshot

/-- The volume after mounting was interrupted, the disk was healed, and it was mounted again. -/
def retried (g : Geometry) (disk : RamDisk) (transfers : ℕ) : Volume RamDisk :=
  ((Event.heal.apply ((Volume.unmounted (disk.failAfter transfers) g).run VolumeM.mount).2).run
    VolumeM.mount).2

/-- **When the next mount gives a fresh volume.** Suppose that a RAM disk does not hold the
superblock of the geometry, and that mounting fails because the disk gives up after so many
transfers. Once the disk is healed, the volume can be mounted, and it looks fresh exactly if the
superblock was not yet stored, or the mixture on the disk has no root in use, or the mixture is
bare. -/
theorem pristine_after_interrupted_iff (g : Geometry) (disk : RamDisk) (transfers : ℕ)
    (hfits : g.startLba + g.totalSectors ≤ disk.capacity)
    (hnone : g.accepts (Superblock.ofBytes
      ((Volume.unmounted disk g).sectorAt (g.lba superblockSector)).bytes) = false)
    (hfailed : ((Volume.unmounted (disk.failAfter transfers) g).run VolumeM.mount).1
      = .error (.error .io)) :
    let found := (Volume.unmounted disk g).snapshot.disk.halfway (transfers - 1)
    (retried g disk transfers).mounted = true
      ∧ ((retried g disk transfers).Pristine g ↔ transfers ≤ 1 ∨ ¬ found.Rooted ∨ found.Bare) := by
  intro found
  generalize hv : ((Volume.unmounted (disk.failAfter transfers) g).run VolumeM.mount).2 = v
  have hsnapshot : (Volume.unmounted (disk.failAfter transfers) g).snapshot
      = (Volume.unmounted disk g).snapshot := rfl
  have hplaced : (Volume.unmounted (disk.failAfter transfers) g).Placed g := ⟨rfl, hfits⟩
  have hmount : (Volume.unmounted (disk.failAfter transfers) g).run VolumeM.mount
      = (.error (.error .io), v) := Prod.ext hfailed hv
  obtain ⟨-, ⟨⟩⟩ | ⟨-, -, hclosed, hplaced, hleft⟩ :=
    (mount_interrupted_ends hplaced rfl hnone rfl).of_run hmount
  rw [hsnapshot] at hleft
  have hdisk : v.snapshot.disk = found := by
    rw [hleft]
    rfl
  have hhealed : (Event.heal.apply v).snapshot = v.snapshot := Session.snapshot_of_fault rfl
  have hload : (Event.heal.apply v).snapshot.Loadable g ↔ 1 < transfers ∧ found.Rooted := by
    rw [hhealed, ← hdisk]
    constructor
    · rintro ⟨haccepted, hdirectory, hused⟩
      refine ⟨?_, hdirectory, hused⟩
      by_contra hfirst
      rw [hleft, superblock_formattedUpTo, if_neg (by omega)] at haccepted
      exact Bool.false_ne_true (hnone.symm.trans haccepted)
    · rintro ⟨hlater, hdirectory, hused⟩
      refine ⟨?_, hdirectory, hused⟩
      rw [hleft, superblock_formattedUpTo, if_pos (by omega)]
      exact g.accepts_superblock
  have hmounts := (mount_ends (v := Event.heal.apply v) hplaced.geometry hclosed).1
  unfold retried
  rw [hv]
  generalize (Event.heal.apply v).run VolumeM.mount = result at hmounts ⊢
  obtain ⟨outcome, w⟩ := result
  dsimp only at hmounts ⊢
  cases hmounts with
  | tooSmall hsmall => exact absurd hplaced.fits (Nat.not_le.mpr hsmall)
  | loaded hopen hshaped hloadable hw =>
    obtain ⟨hlater, hrooted⟩ := hload.mp hloadable
    have hmemory : w.snapshot.memory = found := by
      rw [hw, hhealed, ← hdisk]
      rfl
    refine ⟨hopen, ?_⟩
    rw [pristine_iff hshaped hopen (by rwa [hmemory]), hmemory]
    constructor
    · exact fun hbare => .inr (.inr hbare)
    · rintro (hfirst | hnot | hbare)
      · omega
      · exact absurd hrooted hnot
      · exact hbare
  | formatted hopen hshaped hnot hw =>
    have hmemory : w.snapshot.memory = Image.formatted := by
      rw [hw]
      rfl
    have hpristine : w.Pristine g := by
      rw [pristine_iff hshaped hopen (by rw [hmemory]; exact ⟨rfl, rfl⟩), hmemory]
      exact Image.bare_formatted
    refine ⟨hopen, fun _ => ?_, fun _ => hpristine⟩
    by_cases hfirst : transfers ≤ 1
    · exact .inl hfirst
    · exact .inr (.inl fun hrooted => hnot (hload.mpr ⟨by omega, hrooted⟩))
  | refused _ _ hfault _ => exact absurd rfl hfault.2
  | interrupted _ _ hfault _ _ => exact absurd rfl hfault.2

/-- On a blank disk, the superblock and the first bitmap do not make a volume. -/
theorem pristine_after_interrupted_blank :
    (retried .tiny (RamDisk.blank 20) 3).mounted = true
      ∧ (retried .tiny (RamDisk.blank 20) 3).Pristine .tiny := by
  obtain ⟨hopen, hpristine⟩ := pristine_after_interrupted_iff .tiny (RamDisk.blank 20) 3 (by decide)
    (by decide +kernel) (by decide +kernel)
  exact ⟨hopen, hpristine.mpr (.inr (.inl fun hrooted => absurd hrooted.1 (by decide +kernel)))⟩

/-- A disk with a volume on it that holds one directory, and whose superblock was damaged. -/
def damaged : RamDisk :=
  (Session.after .tiny 20 [.mount, .call (.mkdir ['/', 'a'])]).device.poke 0 0 [0]

/-- **An old root is found again.** If formatting is interrupted before it stores the first sector
of the inode table, the next mount takes what is on the disk for a volume: the old root is back, and
its block is not marked. -/
theorem not_pristine_after_interrupted :
    Geometry.tiny.startLba + Geometry.tiny.totalSectors ≤ damaged.capacity
      ∧ Geometry.tiny.accepts (Superblock.ofBytes ((Volume.unmounted damaged .tiny).sectorAt
        (Geometry.tiny.lba superblockSector)).bytes) = false
      ∧ ((Volume.unmounted (damaged.failAfter 4) .tiny).run VolumeM.mount).1
        = .error (.error .io)
      ∧ (retried .tiny damaged 4).mounted = true
      ∧ (retried .tiny damaged 4).snapshot.memory.Claims 0 0 0
      ∧ (retried .tiny damaged 4).snapshot.memory.blockUsed 0 = false
      ∧ ¬ (retried .tiny damaged 4).Pristine .tiny := by
  have hclaims : (retried .tiny damaged 4).snapshot.memory.Claims 0 0 0 :=
    ⟨by decide +kernel, by decide +kernel⟩
  have hclear : (retried .tiny damaged 4).snapshot.memory.blockUsed 0 = false := by decide +kernel
  refine ⟨by decide +kernel, by decide +kernel, by decide +kernel, by decide +kernel, hclaims,
    hclear, fun hpristine => ?_⟩
  have hmarked := hpristine.marked hclaims
  rw [hclear] at hmarked
  cases hmarked

end Volume

end PocketKernel
