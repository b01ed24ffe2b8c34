import PocketKernel.Volume.Alloc

/-!
# The content of an inode

The content of an inode is a row of bytes, kept in up to eight data blocks in order. It is read
and written in chunks that do not cross a block boundary; a chunk of a write that does not fill
its block keeps the other bytes of the block, and a block is handed out when a write first
reaches it.

## Main definitions

* `VolumeM.readContent`: read a stretch of the content.
* `VolumeM.writeContent`: write a stretch, after taking the old content away if asked to.
-/

namespace PocketKernel.VolumeM

variable {δ : Type} [BlockDevice δ]

/-- The length of the chunk at a position: up to the end of its block, and no more than what is
left. -/
def chunkLength (position left : Nat) : Nat := min (sectorSize - position % sectorSize) left

theorem chunkLength_pos (position : Nat) {left : Nat} (h : left ≠ 0) :
    0 < chunkLength position left := by
  have : position % sectorSize < sectorSize := Nat.mod_lt _ (by decide)
  simp only [chunkLength]
  omega

/-- The data block that holds a slot of an inode's content. A slot past the last pointer, an
absent block and a block past the end of the volume are corruption. -/
def blockOf (inode : Inode) (slot : Nat) : VolumeM δ Nat := do
  match inode.direct[slot]? with
  | none => fail .corrupt
  | some block =>
    if block = noBlock || (← get).geometry.dataBlocks ≤ block.toNat then
      fail .corrupt
    else
      pure block.toNat

/-- Read the next `left` bytes of an inode's content from a position on, chunk by chunk. -/
def readChunks (inode : Inode) (position left : Nat) : VolumeM δ (List UInt8) := do
  if h : left = 0 then
    pure []
  else
    have := chunkLength_pos position h
    let count := chunkLength position left
    let block ← blockOf inode (position / sectorSize)
    let sector ← readSector ((← get).geometry.blockLba block)
    let rest ← readChunks inode (position + count) (left - count)
    pure (sector.slice (position % sectorSize) count ++ rest)
termination_by left
decreasing_by omega

/-- Read up to `count` bytes of the content of an inode from an offset on; there are none at or
past the end. -/
def readContent (index offset count : Nat) : VolumeM δ (List UInt8) := do
  let inode ← findInode index
  let size := inode.size.toNat
  if size ≤ offset then
    pure []
  else
    readChunks inode offset (min count (size - offset))

/-- The block for the next chunk of a write, and whether it was handed out just now. -/
def blockForWrite (index slot : Nat) : VolumeM δ (Nat × Bool) := do
  let inode ← inodeAt index
  match inode.direct[slot]? with
  | none => outOfBounds
  | some block =>
    if block = noBlock then
      let fresh ← allocBlock
      let inode ← inodeAt index
      setInode index { inode with direct := inode.direct.setIfInBounds slot fresh }
      pure (fresh.toNat, true)
    else if (← get).geometry.dataBlocks ≤ block.toNat then
      fail .corrupt
    else
      pure (block.toNat, false)

/-- What a block holds before a chunk is laid over it: nothing if it is new or is to be filled,
and otherwise what is stored. -/
def blockBefore (lba : Nat) (fresh : Bool) (count : Nat) : VolumeM δ Sector := do
  if fresh || sectorSize ≤ count then
    pure Sector.zero
  else
    readSector lba

/-- Write bytes into the blocks of an inode from a position on, chunk by chunk. -/
def writeChunks (index position : Nat) (data : List UInt8) : VolumeM δ Unit := do
  if h : data.length = 0 then
    pure ()
  else
    have := chunkLength_pos position h
    let count := chunkLength position data.length
    let (block, fresh) ← blockForWrite index (position / sectorSize)
    let lba := (← get).geometry.blockLba block
    let before ← blockBefore lba fresh count
    writeSector lba (before.overlay (position % sectorSize) (data.take count))
    writeChunks index (position + count) (data.drop count)
termination_by data.length
decreasing_by simp only [List.length_drop]; omega

/-- Take the content away from an inode. The table is stored before the blocks can be handed out
again; if that fails, the inode keeps its content. -/
def truncateContent (index : Nat) : VolumeM δ Unit := do
  let saved ← inodeAt index
  let blocks ← detachBlocks index
  match ← attempt (flushInode index) with
  | .error cause =>
    setInode index saved
    fail cause
  | .ok () => freeBlocks blocks

/-- Write bytes into an inode at an offset, after taking its content away if `truncate` is set.
A write that would grow the content past eight blocks, or leave a hole, changes nothing. The
inode is stored even if the bytes could not be, as it may have gained blocks. -/
def writeContent (index offset : Nat) (data : List UInt8) (truncate : Bool) :
    VolumeM δ Nat := do
  let last := offset + data.length
  if maxFileSize < last then
    fail .fileTooLarge
  let size := (← findInode index).size.toNat
  if (truncate && offset ≠ 0) || (!truncate && size < offset) then
    fail .invalidOffset
  if truncate then
    truncateContent index
  let written ← attempt (writeChunks index offset data)
  if written.isOk then
    let inode ← inodeAt index
    setInode index { inode with size := max inode.size (UInt32.ofNat last) }
  let stored ← attempt (flushInode index)
  orFail written
  orFail stored
  pure data.length

end PocketKernel.VolumeM
