import Mathlib.Data.Nat.Notation
import PocketKernel.Proofs.Disk.Lawful
import PocketKernel.Proofs.Volume.Bitmap
import PocketKernel.Proofs.Volume.Codec
import PocketKernel.Volume.Operations

/-!
# What a volume holds, in memory and on its device

The allocation state of a mounted volume exists twice: as copies in memory and as sectors of the
device. The two drift apart whenever a store is refused, and a crash replaces the first by the
second. A `Snapshot` is both of them side by side, together with the data blocks, which exist only
on the device. Nothing is said about how any of it is encoded.

Every change that an operation makes to a volume is one of a few changes of its snapshot: a field
of the memory image is replaced, a bitmap or a sector of the inode table is stored, or a data block
is written. They are the functions below.

## Main definitions

* `Image`, `Snapshot`: the view of one copy, and of a whole volume.
* `Volume.snapshot`: the view of a volume on a lawful device.
* `Snapshot.content`, `Snapshot.records`: the bytes of an inode, and the entries of a directory.
* `Snapshot.putInode`, `Snapshot.publish` and so on: the changes.
-/

namespace PocketKernel

/-- The block that an inode points at from a slot, if there is one. -/
def Inode.blockAt (inode : Inode) (slot : ℕ) : Option ℕ :=
  match inode.direct[slot]? with
  | some block => if block = noBlock then none else some block.toNat
  | none => none

theorem Inode.blockAt_eq_some {inode : Inode} {slot block : ℕ} :
    inode.blockAt slot = some block
      ↔ ∃ h : slot < 8, inode.direct[slot] ≠ noBlock ∧ inode.direct[slot].toNat = block := by
  unfold blockAt
  by_cases hslot : slot < 8
  · rw [Vector.getElem?_eq_getElem hslot]
    by_cases hnone : inode.direct[slot] = noBlock
    · simp [hnone]
    · simp [hnone, hslot]
  · rw [Vector.getElem?_eq_none (Nat.le_of_not_lt hslot)]
    simp [hslot]

/-- One copy of the allocation state. -/
@[ext] structure Image where
  /-- The inode table. -/
  inode : ℕ → Inode
  /-- The inodes that are marked as in use. -/
  inodeUsed : ℕ → Bool
  /-- The data blocks that are marked as in use. -/
  blockUsed : ℕ → Bool

/-- The two places where the allocation state is kept. -/
inductive Copy where
  | memory
  | disk
deriving DecidableEq

/-- What a volume holds. -/
structure Snapshot where
  /-- The copy that operations work with. -/
  memory : Image
  /-- The copy that a later mount will find. -/
  disk : Image
  /-- The sector that tells what volume this is. -/
  superblock : Sector
  /-- The data blocks. -/
  block : ℕ → Sector

namespace Snapshot

/-- One of the two copies. -/
def image (w : Snapshot) : Copy → Image
  | .memory => w.memory
  | .disk => w.disk

@[simp] theorem image_memory (w : Snapshot) : w.image .memory = w.memory := rfl

@[simp] theorem image_disk (w : Snapshot) : w.image .disk = w.disk := rfl

/-! ### Contents -/

/-- The byte at a position of the content of an inode. -/
def byteAt (w : Snapshot) (inode : Inode) (position : ℕ) : UInt8 :=
  (w.block ((inode.blockAt (position / sectorSize)).getD 0)).byteAt (position % sectorSize)

theorem byteAt_of_blockAt {w : Snapshot} {inode : Inode} {position block : ℕ}
    (h : inode.blockAt (position / sectorSize) = some block) :
    w.byteAt inode position = (w.block block).byteAt (position % sectorSize) := by
  rw [byteAt, h, Option.getD_some]

/-- The content of an inode. -/
def content (w : Snapshot) (inode : Inode) : List UInt8 :=
  (List.range inode.size.toNat).map (w.byteAt inode)

/-- The entries in the content of an inode, read as a directory. -/
def records (w : Snapshot) (inode : Inode) : List DirectoryRecord :=
  DirectoryRecord.readAll (w.content inode)

@[simp] theorem length_content (w : Snapshot) (inode : Inode) :
    (w.content inode).length = inode.size.toNat := by
  rw [content, List.length_map, List.length_range]

/-! ### Changes -/

/-- Replace an inode of the memory image. -/
def putInode (w : Snapshot) (index : ℕ) (inode : Inode) : Snapshot :=
  { w with memory.inode := Function.update w.memory.inode index inode }

/-- Mark or clear an inode in the memory image. -/
def markInode (w : Snapshot) (index : ℕ) (used : Bool) : Snapshot :=
  { w with memory.inodeUsed := Function.update w.memory.inodeUsed index used }

/-- Mark a data block in the memory image. -/
def markBlock (w : Snapshot) (block : ℕ) : Snapshot :=
  { w with memory.blockUsed := Function.update w.memory.blockUsed block true }

/-- Clear all data blocks that an inode points at in the memory image. -/
def clearBlocks (w : Snapshot) (inode : Inode) : Snapshot :=
  { w with memory.blockUsed := fun block =>
      w.memory.blockUsed block && !(List.range directBlocks).any (inode.blockAt · = some block) }

/-- Store the bitmap of the inodes. -/
def storeInodeMap (w : Snapshot) : Snapshot :=
  { w with disk.inodeUsed := w.memory.inodeUsed }

/-- Store the bitmap of the data blocks. -/
def storeBlockMap (w : Snapshot) : Snapshot :=
  { w with disk.blockUsed := w.memory.blockUsed }

/-- Store one sector of the inode table: an inode and the seven others that share its sector. -/
def publish (w : Snapshot) (tableSector : ℕ) : Snapshot :=
  { w with disk.inode := fun index =>
      if index / inodesPerSector = tableSector then w.memory.inode index else w.disk.inode index }

/-- Write a data block. -/
def putBlock (w : Snapshot) (block : ℕ) (sector : Sector) : Snapshot :=
  { w with block := Function.update w.block block sector }

/-- Lose the memory image and take what is stored in its place. -/
def crash (w : Snapshot) : Snapshot := { w with memory := w.disk }

end Snapshot

/-! ### The snapshot of a volume -/

namespace Volume

variable {δ : Type} [BlockDevice δ] [LawfulDevice δ]

/-- What a sector of the device holds. -/
def sectorAt (v : Volume δ) (lba : ℕ) : Sector := LawfulDevice.sectorAt v.device lba

/-- The inode that is stored at an index of the inode table. -/
def storedInode (v : Volume δ) (index : ℕ) : Inode :=
  Inode.ofBytes ((v.sectorAt (v.geometry.lba (inodeTableStart + index / inodesPerSector))).slice
    (inodeSize * (index % inodesPerSector)) inodeSize)

/-- The bitmap of the inodes that is stored. -/
def storedInodeMap (v : Volume δ) : Bitmap :=
  ⟨v.sectorAt (v.geometry.lba inodeBitmapSector), v.geometry.inodeCount⟩

/-- The bitmap of the data blocks that is stored. -/
def storedBlockMap (v : Volume δ) : Bitmap :=
  ⟨v.sectorAt (v.geometry.lba blockBitmapSector), v.geometry.dataBlocks⟩

/-- What a volume holds. Past the end of the inode table there are free inodes. -/
def snapshot (v : Volume δ) : Snapshot where
  memory :=
    { inode := fun index => v.inodes.getD index Inode.free
      inodeUsed := v.inodeMap.isSet
      blockUsed := v.blockMap.isSet }
  disk :=
    { inode := fun index =>
        if index < v.geometry.inodeCount then v.storedInode index else Inode.free
      inodeUsed := v.storedInodeMap.isSet
      blockUsed := v.storedBlockMap.isSet }
  superblock := v.sectorAt (v.geometry.lba superblockSector)
  block := fun block => v.sectorAt (v.geometry.blockLba block)

/-- A volume of a geometry on a device that holds it, with copies of the right sizes. -/
structure Shaped (g : Geometry) (v : Volume δ) : Prop where
  geometry : v.geometry = g
  size_inodes : v.inodes.size = g.inodeCount
  length_inodeMap : v.inodeMap.length = g.inodeCount
  length_blockMap : v.blockMap.length = g.dataBlocks
  fits : g.startLba + g.totalSectors ≤ BlockDevice.capacity v.device

/-- What every step of an operation keeps: the mounted state, the shape, and the state of the
device. -/
structure Continues (g : Geometry) (v w : Volume δ) : Prop where
  mounted : w.mounted = v.mounted
  shaped : w.Shaped g
  failed : LawfulDevice.Failed v.device → LawfulDevice.Failed w.device
  dependable : LawfulDevice.Dependable v.device → LawfulDevice.Dependable w.device

/-- Between the two volumes a transfer was refused: the device was not dependable, and it has
failed. -/
def Faulted (v w : Volume δ) : Prop :=
  LawfulDevice.Failed w.device ∧ ¬ LawfulDevice.Dependable v.device

variable {g : Geometry} {v w x : Volume δ}

theorem Shaped.continues (hv : v.Shaped g) : v.Continues g v := ⟨rfl, hv, id, id⟩

theorem Continues.trans (hvw : v.Continues g w) (hwx : w.Continues g x) : v.Continues g x :=
  ⟨hwx.mounted.trans hvw.mounted, hwx.shaped, hwx.failed ∘ hvw.failed,
    hwx.dependable ∘ hvw.dependable⟩

theorem Faulted.of_continues (hvw : v.Continues g w) (h : w.Faulted x) : v.Faulted x :=
  ⟨h.1, fun hv => h.2 (hvw.dependable hv)⟩

theorem Faulted.continues (h : v.Faulted w) (hwx : w.Continues g x) : v.Faulted x :=
  ⟨hwx.failed h.1, h.2⟩

omit [LawfulDevice δ] in
theorem Shaped.fitsSector_inodeMap (hv : v.Shaped g) : v.inodeMap.FitsSector := by
  rw [Bitmap.FitsSector, hv.length_inodeMap]
  exact g.inodeCount_le

omit [LawfulDevice δ] in
theorem Shaped.fitsSector_blockMap (hv : v.Shaped g) : v.blockMap.FitsSector := by
  rw [Bitmap.FitsSector, hv.length_blockMap]
  exact g.dataBlocks_le

theorem Shaped.getElem?_inodes (hv : v.Shaped g) {index : ℕ} (h : index < g.inodeCount) :
    v.inodes[index]? = some (v.snapshot.memory.inode index) := by
  have hlt : index < v.inodes.size := by rw [hv.size_inodes]; exact h
  simp [snapshot, hlt]

/-! ### Changes of the memory image -/

/-- A change to the copies in memory that keeps their sizes. -/
theorem Shaped.continues_of_copies (hv : v.Shaped g) (inodes : Array Inode)
    (inodeMap blockMap : Bitmap) (hinodes : inodes.size = v.inodes.size)
    (hinodeMap : inodeMap.length = v.inodeMap.length)
    (hblockMap : blockMap.length = v.blockMap.length) :
    v.Continues g { v with inodes := inodes, inodeMap := inodeMap, blockMap := blockMap } :=
  ⟨rfl, ⟨hv.geometry, hinodes.trans hv.size_inodes, hinodeMap.trans hv.length_inodeMap,
    hblockMap.trans hv.length_blockMap, hv.fits⟩, id, id⟩

/-- The volume with an inode of its table replaced. -/
def put (v : Volume δ) (index : ℕ) (x : Inode) : Volume δ :=
  { v with inodes := v.inodes.setIfInBounds index x }

theorem Shaped.continues_put (hv : v.Shaped g) (index : ℕ) (x : Inode) :
    v.Continues g (v.put index x) :=
  hv.continues_of_copies _ _ _ Array.size_setIfInBounds rfl rfl

theorem snapshot_put {index : ℕ} (hv : v.Shaped g) (h : index < g.inodeCount) (x : Inode) :
    (v.put index x).snapshot = v.snapshot.putInode index x := by
  have hinodes : (fun k => (v.inodes.setIfInBounds index x).getD k Inode.free)
      = Function.update (fun k => v.inodes.getD k Inode.free) index x := by
    have hlt : index < v.inodes.size := by rw [hv.size_inodes]; exact h
    funext k
    by_cases hk : k = index
    · subst hk
      simp [hlt]
    · simp [Function.update_of_ne hk, Ne.symm hk]
  simp only [snapshot, put, Snapshot.putInode, hinodes]
  rfl

theorem snapshot_set_inodeMap {index : ℕ} (hv : v.Shaped g) (h : index < g.inodeCount) :
    { v with inodeMap := v.inodeMap.set index }.snapshot = v.snapshot.markInode index true := by
  have hmap : (v.inodeMap.set index).isSet = Function.update v.inodeMap.isSet index true := by
    funext k
    rw [Bitmap.isSet_set hv.fitsSector_inodeMap (by rw [hv.length_inodeMap]; exact h)]
    by_cases hk : k = index
    · simp [hk]
    · simp [hk]
  simp only [snapshot, Snapshot.markInode, hmap]
  rfl

theorem snapshot_release_inodeMap (hv : v.Shaped g) (index : ℕ) :
    { v with inodeMap := (v.inodeMap.release? index).getD v.inodeMap }.snapshot
      = v.snapshot.markInode index false := by
  have hmap : ((v.inodeMap.release? index).getD v.inodeMap).isSet
      = Function.update v.inodeMap.isSet index false := by
    funext k
    rw [Bitmap.isSet_getD_release? hv.fitsSector_inodeMap]
    by_cases hk : k = index
    · simp [hk]
    · simp [hk]
  simp only [snapshot, Snapshot.markInode, hmap]
  rfl

theorem snapshot_set_blockMap {block : ℕ} (hv : v.Shaped g) (h : block < g.dataBlocks) :
    { v with blockMap := v.blockMap.set block }.snapshot = v.snapshot.markBlock block := by
  have hmap : (v.blockMap.set block).isSet = Function.update v.blockMap.isSet block true := by
    funext k
    rw [Bitmap.isSet_set hv.fitsSector_blockMap (by rw [hv.length_blockMap]; exact h)]
    by_cases hk : k = block
    · simp [hk]
    · simp [hk]
  simp only [snapshot, Snapshot.markBlock, hmap]
  rfl

end Volume

end PocketKernel
