import PocketKernel.Volume.Flush

/-!
# Mounting a volume

Mounting makes the copies of a volume's allocation state. They are read from the device if what
is there describes a volume of this geometry; otherwise the stretch of the device is formatted
and becomes a fresh, empty volume.
-/

namespace PocketKernel.VolumeM

variable {δ : Type} [BlockDevice δ]

/-- Read the inode table, one sector after the other. -/
def loadTable : VolumeM δ (List Inode) := do
  let g := (← get).geometry
  let sectors ← (List.range g.tableSectors).mapM fun tableSector =>
    readSector (g.lba (inodeTableStart + tableSector))
  pure ((sectors.flatMap unpackInodes).take g.inodeCount)

/-- Copy the allocation state from the device. The superblock must be the one of the geometry,
and the root must be a directory that is marked as in use; nothing else is checked. -/
def load : VolumeM δ Unit := do
  let g := (← get).geometry
  let superblock ← readSector (g.lba superblockSector)
  if !g.accepts (Superblock.ofBytes superblock.bytes) then
    fail .corrupt
  let inodeMap := Bitmap.mk (← readSector (g.lba inodeBitmapSector)) g.inodeCount
  let blockMap := Bitmap.mk (← readSector (g.lba blockBitmapSector)) g.dataBlocks
  let inodes ← loadTable
  let rootIsDirectory := (inodes.head?.map Inode.isDirectory).getD false
  if !rootIsDirectory || !inodeMap.isSet 0 then
    fail .corrupt
  modify fun volume =>
    { volume with inodeMap := inodeMap, blockMap := blockMap, inodes := inodes.toArray }

/-- Store a fresh volume that holds nothing but an empty root. -/
def format : VolumeM δ Unit := do
  let g := (← get).geometry
  modify fun volume =>
    { volume with
      inodeMap := (Bitmap.empty g.inodeCount).set 0
      blockMap := Bitmap.empty g.dataBlocks
      inodes := (Array.replicate g.inodeCount Inode.free).setIfInBounds 0
        (Inode.empty .directory 0) }
  writeSector (g.lba superblockSector) (Sector.ofBytes g.superblock.bytes)
  flushInodeMap
  flushBlockMap
  (List.range g.tableSectors).forM flushTableSector

/-- Mount the volume, formatting it if there is none of its geometry. A mounted volume stays as
it is, and a device that is too small is refused untouched. -/
def mount : VolumeM δ Unit := do
  let volume ← get
  if volume.mounted then
    pure ()
  else if BlockDevice.capacity volume.device
      < volume.geometry.startLba + volume.geometry.totalSectors then
    fail .noSpace
  else
    match ← attempt load with
    | .ok () => pure ()
    | .error _ => format
    modify fun volume => { volume with mounted := true }

end PocketKernel.VolumeM
