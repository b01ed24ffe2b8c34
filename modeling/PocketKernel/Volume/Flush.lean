import PocketKernel.Volume.Basic

/-!
# Writing metadata through

Every change to a bitmap or to an inode is written to the device before the operation that made
it goes on. A bitmap takes one sector; an inode shares its sector with seven others, which are
written along with it.
-/

namespace PocketKernel.VolumeM

variable {δ : Type} [BlockDevice δ]

/-- Store the bitmap of the inodes. -/
def flushInodeMap : VolumeM δ Unit := do
  let volume ← get
  writeSector (volume.geometry.lba inodeBitmapSector) volume.inodeMap.sector

/-- Store the bitmap of the data blocks. -/
def flushBlockMap : VolumeM δ Unit := do
  let volume ← get
  writeSector (volume.geometry.lba blockBitmapSector) volume.blockMap.sector

/-- The sector of the inode table that holds inodes `first` to `first + 7`. -/
def packInodes (inodes : Array Inode) (first : Nat) : Sector :=
  Sector.ofBytes ((inodes.extract first (first + inodesPerSector)).toList.flatMap Inode.bytes)

/-- The inodes in a sector of the inode table. -/
def unpackInodes (sector : Sector) : List Inode :=
  (List.range inodesPerSector).map fun slot =>
    Inode.ofBytes (sector.slice (inodeSize * slot) inodeSize)

/-- Store one sector of the inode table. -/
def flushTableSector (tableSector : Nat) : VolumeM δ Unit := do
  let volume ← get
  let first := inodesPerSector * tableSector
  if first ≤ volume.inodes.size then
    writeSector (volume.geometry.lba (inodeTableStart + tableSector))
      (packInodes volume.inodes first)
  else
    outOfBounds

/-- Store the sector of the inode table that holds an inode. -/
def flushInode (index : Nat) : VolumeM δ Unit :=
  flushTableSector (index / inodesPerSector)

end PocketKernel.VolumeM
