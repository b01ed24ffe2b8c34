import PocketKernel.Heap.Arena

/-!
# The record of blocks

To report on the free memory without looking at the holes, the blocks that are handed out are
recorded, up to a number, in the order of their addresses; of the others only the number is kept.
A block that comes back and is not on record is taken to be one of those. The free stretches are
the gaps between the recorded blocks.

## Main definitions

* `BlockRecord`, `BlockRecord.insert`, `BlockRecord.remove`: the record.
* `BlockRecord.gaps`: the sizes of the gaps.
-/

namespace PocketKernel

/-- The blocks that are handed out. -/
structure BlockRecord where
  /-- The recorded blocks, in the order of their addresses. -/
  blocks : List Extent
  /-- The number of blocks that are not recorded. -/
  uncharted : Nat
deriving DecidableEq, Repr

namespace BlockRecord

/-- How many blocks can be recorded. -/
def capacity : Nat := 1024

/-- Nothing is handed out. -/
def empty : BlockRecord := ⟨[], 0⟩

/-- Enter a block at its place in the order. -/
def insertOrdered (block : Extent) : List Extent → List Extent
  | [] => [block]
  | other :: blocks =>
    if other.start < block.start then other :: insertOrdered block blocks
    else block :: other :: blocks

/-- A block was handed out. -/
def insert (record : BlockRecord) (block : Extent) : BlockRecord :=
  if record.blocks.length < capacity then
    { record with blocks := insertOrdered block record.blocks }
  else
    { record with uncharted := record.uncharted + 1 }

/-- The block at an address came back. -/
def remove (record : BlockRecord) (start : Nat) : BlockRecord :=
  if record.blocks.any (·.start = start) then
    { record with blocks := record.blocks.eraseP (·.start = start) }
  else
    { record with uncharted := record.uncharted - 1 }

/-- The number of blocks that are handed out. -/
def count (record : BlockRecord) : Nat := record.blocks.length + record.uncharted

/-- The sizes of the gaps between an address and the next blocks, the last one up to `top`. -/
def gapsFrom (top : Nat) : Nat → List Extent → List Nat
  | cursor, [] => if cursor < top then [top - cursor] else []
  | cursor, block :: blocks =>
    let rest := gapsFrom top (max cursor block.stop) blocks
    if cursor < block.start then (block.start - cursor) :: rest else rest

/-- The sizes of the gaps between the recorded blocks from `bottom` to `top`. -/
def gaps (record : BlockRecord) (bottom top : Nat) : List Nat :=
  gapsFrom top bottom record.blocks

end BlockRecord

end PocketKernel
