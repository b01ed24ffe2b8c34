/-!
# The arena of the heap

The heap hands out blocks of one stretch of memory, the arena. What is not handed out is a list of
holes in the order of their addresses. A request is served from the first hole that can hold it;
what is left of the hole at either end becomes a hole again, and has to be large enough to be one.
A block that comes back becomes a hole and is merged with the holes that it touches.

Blocks start at multiples of eight, their sizes are multiples of eight, and none is smaller than
sixteen bytes.

## Main definitions

* `Extent`: a stretch of memory.
* `BlockRequest`, `BlockRequest.make?`: what a block is asked for with.
* `Arena.allocate`, `Arena.release`: hand a block out and take it back.
-/

namespace PocketKernel

/-- A stretch of memory. -/
structure Extent where
  start : Nat
  size : Nat
deriving DecidableEq, Repr

/-- The first address behind a stretch. -/
def Extent.stop (extent : Extent) : Nat := extent.start + extent.size

/-- The least multiple of `unit` that is not below `n`. -/
def roundUp (n unit : Nat) : Nat := (n + unit - 1) / unit * unit

/-- The unit of block starts and sizes. -/
def blockUnit : Nat := 8

/-- The size of the smallest block, and of the smallest hole. -/
def minBlock : Nat := 16

/-- A request for a block: how many bytes, and a power of two that divides its start. -/
structure BlockRequest where
  size : Nat
  align : Nat
deriving DecidableEq, Repr

/-- Why something cannot be asked for. -/
inductive RequestError where
  /-- The alignment is not a power of two, or the size rounded up to it is out of range. -/
  | refused
  /-- The request is in range, but its block would not be. -/
  | overflow
deriving DecidableEq, Repr

namespace BlockRequest

/-- Sizes and the alignment together stay below this. -/
def rangeLimit : Nat := 1 <<< 63

/-- The bytes that are set aside for a request. -/
def blockSize (request : BlockRequest) : Nat := roundUp (max request.size minBlock) blockUnit

/-- A number is a power of two below `2 ^ 64`. -/
def isPowerOfTwo (n : Nat) : Bool := (List.range 64).any (n = 1 <<< ·)

/-- The request for a size and an alignment, if they may be asked for. -/
def make? (size align : Nat) : Except RequestError BlockRequest :=
  if isPowerOfTwo align && size + (align - 1) < rangeLimit then
    let request : BlockRequest := ⟨size, align⟩
    if request.blockSize + (align - 1) < rangeLimit then .ok request else .error .overflow
  else
    .error .refused

end BlockRequest

/-- The memory that blocks are handed out from. -/
structure Arena where
  bottom : Nat
  /-- The bytes that can be handed out. -/
  size : Nat
  /-- The bytes at the end that are too few to be handed out. -/
  rest : Nat
  /-- The bytes that are handed out. -/
  used : Nat
  /-- The free stretches, in the order of their addresses. -/
  holes : List Extent
deriving DecidableEq, Repr

namespace Arena

/-- An arena that was never set up. -/
def empty : Arena := ⟨0, 0, 0, 0, []⟩

/-- The arena in `size` bytes from `start` on. It begins at the next multiple of eight and is
rounded down to one; `none` if less than the smallest hole is left. -/
def make? (start size : Nat) : Option Arena :=
  let bottom := roundUp start blockUnit
  let usable := size - (bottom - start)
  let whole := usable / blockUnit * blockUnit
  if minBlock ≤ whole then
    some ⟨bottom, whole, usable - whole, 0, [⟨bottom, whole⟩]⟩
  else
    none

/-- The first address behind the arena. -/
def top (arena : Arena) : Nat := arena.bottom + arena.size + arena.rest

/-- The bytes that are not handed out. -/
def available (arena : Arena) : Nat := arena.size - arena.used

/-- Cut a block of a size out of a hole: where it starts, and what is left of the hole. -/
def carve? (hole : Extent) (size align : Nat) : Option (Nat × List Extent) :=
  let start := if hole.start % align = 0 then hole.start else roundUp (hole.start + minBlock) align
  let behind := hole.stop - (start + size)
  if hole.size < size || hole.stop < start + size || (behind ≠ 0 && behind < minBlock) then
    none
  else
    let front := if start = hole.start then [] else [⟨hole.start, start - hole.start⟩]
    let back := if behind = 0 then [] else [⟨start + size, behind⟩]
    some (start, front ++ back)

/-- Cut a block out of the first hole that can hold it. -/
def carveFirst? (size align : Nat) : List Extent → Option (Nat × List Extent)
  | [] => none
  | hole :: holes =>
    match carve? hole size align with
    | some (start, left) => some (start, left ++ holes)
    | none => (carveFirst? size align holes).map fun (start, holes) => (start, hole :: holes)

/-- Enter a stretch among the holes, merged with those that it touches. -/
def enterHole (freed : Extent) : List Extent → List Extent
  | [] => [freed]
  | hole :: holes =>
    if freed.stop < hole.start then
      freed :: hole :: holes
    else if freed.stop = hole.start then
      ⟨freed.start, freed.size + hole.size⟩ :: holes
    else if hole.stop = freed.start then
      enterHole ⟨hole.start, hole.size + freed.size⟩ holes
    else
      hole :: enterHole freed holes

/-- Hand out a block, if a hole can hold it. -/
def allocate (arena : Arena) (request : BlockRequest) : Option (Nat × Arena) :=
  (carveFirst? request.blockSize request.align arena.holes).map fun (start, holes) =>
    (start, { arena with holes := holes, used := arena.used + request.blockSize })

/-- Take back the block that starts at an address and was asked for in this way. -/
def release (arena : Arena) (start : Nat) (request : BlockRequest) : Arena :=
  { arena with
    holes := enterHole ⟨start, request.blockSize⟩ arena.holes
    used := arena.used - request.blockSize }

end Arena

end PocketKernel
