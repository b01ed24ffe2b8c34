import PocketKernel.Volume.Flush

/-!
# Handing out inodes and blocks

An inode or a block is marked in its bitmap, and the bitmap is stored, before anything points at
it; it is taken out of the table, and the table is stored, before its mark is removed. So a crash
may leave something marked that nobody uses, but never something used that is not marked.
-/

namespace PocketKernel.VolumeM

variable {δ : Type} [BlockDevice δ]

/-- Hand out a data block. The mark is taken back if it cannot be stored. -/
def allocBlock : VolumeM δ UInt32 := do
  match (← get).blockMap.alloc? with
  | none => fail .noSpace
  | some (block, map) =>
    setBlockMap map
    match ← attempt flushBlockMap with
    | .ok () => pure (UInt32.ofNat block)
    | .error cause =>
      setBlockMap (map.clear block)
      fail cause

/-- Take blocks back, with one store of the bitmap if any of them was in use. -/
def freeBlocks (blocks : List UInt32) : VolumeM δ Unit := do
  let before := (← get).blockMap
  let step (state : Bitmap × Bool) (block : UInt32) : Bitmap × Bool :=
    match state.1.release? block.toNat with
    | some map => (map, true)
    | none => state
  let (map, freed) := (blocks.filter (· != noBlock)).foldl step (before, false)
  setBlockMap map
  if freed then flushBlockMap

/-- Take the content away from an inode of the table and return its pointers. -/
def detachBlocks (index : Nat) : VolumeM δ (List UInt32) := do
  let inode ← inodeAt index
  setInode index inode.detached
  pure inode.direct.toList

/-- Hand out an inode and store it, empty, in the table. The mark is taken back if it cannot be
stored. -/
def allocInode (kind : InodeKind) (parent : Nat) : VolumeM δ Nat := do
  match (← get).inodeMap.alloc? with
  | none => fail .noInodes
  | some (index, map) =>
    setInodeMap map
    match ← attempt flushInodeMap with
    | .error cause =>
      setInodeMap (map.clear index)
      fail cause
    | .ok () =>
      setInode index (Inode.empty kind (UInt32.ofNat parent))
      flushInode index
      pure index

/-- Give up an inode and its blocks. Every step is taken, whatever becomes of the others; the
first error is reported. The root is never given up. -/
def releaseInode (index : Nat) : VolumeM δ Unit := do
  if index = 0 then
    fail .invalidPath
  let blocks ← detachBlocks index
  setInode index Inode.free
  let stored ← attempt (flushInode index)
  let freed ← attempt (freeBlocks blocks)
  let map := (← get).inodeMap
  setInodeMap ((map.release? index).getD map)
  let cleared ← attempt flushInodeMap
  orFail stored
  orFail freed
  orFail cleared

end PocketKernel.VolumeM
