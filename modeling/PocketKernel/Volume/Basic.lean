import PocketKernel.Volume.Bitmap
import PocketKernel.Volume.Error
import PocketKernel.Volume.Geometry
import PocketKernel.Volume.Inode

/-!
# Volumes and the operations on them

A `Volume` is a device, the geometry of the volume on it, and, while it is mounted, copies of its
two bitmaps and its inode table. An operation is a `VolumeM`: it may stop (see `Stop`), and it
keeps every change it made before it stopped, on the device and in the copies alike. Rolling back
is therefore always something that an operation does itself.

## Main definitions

* `Volume`, `Volume.unmounted`: the state, and the state before mounting.
* `VolumeM`: an operation.
* `VolumeM.fail`, `VolumeM.attempt`: report an error, and look at the error of a step.
* `VolumeM.readSector`, `VolumeM.writeSector`: the only two steps that touch the device.
* `VolumeM.inodeAt`, `VolumeM.setInode`: one inode of the copied table.
-/

namespace PocketKernel

/-- A volume on a device, with its copies of the allocation state. -/
structure Volume (δ : Type) where
  /-- The device. -/
  device : δ
  /-- Where the volume lies on the device. -/
  geometry : Geometry
  /-- The copies below are those of the device, and operations are served. -/
  mounted : Bool
  /-- The inodes in use. -/
  inodeMap : Bitmap
  /-- The data blocks in use. -/
  blockMap : Bitmap
  /-- The inode table. -/
  inodes : Array Inode

namespace Volume

/-- A volume that is not mounted. -/
def unmounted {δ : Type} (device : δ) (geometry : Geometry) : Volume δ where
  device := device
  geometry := geometry
  mounted := false
  inodeMap := Bitmap.empty geometry.inodeCount
  blockMap := Bitmap.empty geometry.dataBlocks
  inodes := #[]

end Volume

/-- How many inodes and data blocks there are, and how many of them are in use. -/
structure Usage where
  inodesUsed : Nat
  inodesTotal : Nat
  blocksUsed : Nat
  blocksTotal : Nat
deriving DecidableEq, Repr

/-- The figures that the two bitmaps give. -/
def Volume.usage {δ : Type} (volume : Volume δ) : Usage where
  inodesUsed := volume.inodeMap.count
  inodesTotal := volume.inodeMap.length
  blocksUsed := volume.blockMap.count
  blocksTotal := volume.blockMap.length

/-- An operation on a volume. It keeps its changes when it stops. -/
abbrev VolumeM (δ : Type) := ExceptT Stop (StateM (Volume δ))

namespace VolumeM

variable {δ α : Type}

/-- Stop with an error for the caller. -/
def fail (cause : VolumeError) : VolumeM δ α := throw (.error cause)

/-- Stop because an index left its table. -/
def outOfBounds : VolumeM δ α := throw .broken

/-- Run a step and go on with its answer or its error. -/
def attempt (step : VolumeM δ α) : VolumeM δ (Except VolumeError α) := ExceptT.mk do
  match ← step.run with
  | .ok answer => pure (.ok (.ok answer))
  | .error (.error cause) => pure (.ok (.error cause))
  | .error .broken => pure (.error .broken)

/-- Stop with the error that a step reported, if it reported one. -/
def orFail : Except VolumeError α → VolumeM δ α
  | .ok answer => pure answer
  | .error cause => fail cause

/-- Pass on the outcome of a transfer. -/
def ofTransfer : Except DiskError α → VolumeM δ α
  | .ok answer => pure answer
  | .error cause => fail (.ofDisk cause)

section Device

variable [BlockDevice δ]

/-- Fetch a sector of the device. -/
def readSector (lba : Nat) : VolumeM δ Sector := do
  let volume ← get
  let (outcome, device) := BlockDevice.read lba volume.device
  set { volume with device := device }
  ofTransfer outcome

/-- Store a sector on the device. -/
def writeSector (lba : Nat) (sector : Sector) : VolumeM δ Unit := do
  let volume ← get
  let (outcome, device) := BlockDevice.write lba sector volume.device
  set { volume with device := device }
  ofTransfer outcome

end Device

/-- The inode at an index that is known to be in the table. -/
def inodeAt (index : Nat) : VolumeM δ Inode := do
  match (← get).inodes[index]? with
  | some inode => pure inode
  | none => outOfBounds

/-- The inode at an index that was read from the device. -/
def findInode (index : Nat) : VolumeM δ Inode := do
  match (← get).inodes[index]? with
  | some inode => pure inode
  | none => fail .corrupt

/-- Replace the inode at an index that is known to be in the table. -/
def setInode (index : Nat) (inode : Inode) : VolumeM δ Unit := do
  if index < (← get).inodes.size then
    modify fun volume => { volume with inodes := volume.inodes.setIfInBounds index inode }
  else
    outOfBounds

/-- Change the bitmap of the inodes. -/
def setInodeMap (map : Bitmap) : VolumeM δ Unit :=
  modify fun volume => { volume with inodeMap := map }

/-- Change the bitmap of the data blocks. -/
def setBlockMap (map : Bitmap) : VolumeM δ Unit :=
  modify fun volume => { volume with blockMap := map }

end VolumeM

end PocketKernel
