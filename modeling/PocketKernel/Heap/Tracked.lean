import PocketKernel.Heap.Extents

/-!
# The heap and its statistics

A heap is an allocator together with the record of what was handed out of it. Any allocator will do;
`Heap` is a heap over an arena. `HeapStats` is what the rest of the system is told.

## Main definitions

* `BlockAllocator`: what a heap asks of an allocator.
* `TrackedHeap`, `Heap`: a heap.
* `TrackedHeap.allocate`, `TrackedHeap.release`, `TrackedHeap.stats`: its operations.
-/

namespace PocketKernel

/-- Figures about the heap. -/
structure HeapStats where
  /-- The bytes that can be handed out. -/
  total : Nat
  used : Nat
  free : Nat
  largestFreeBlock : Nat
  allocationCount : Nat
  freeBlockCount : Nat
deriving DecidableEq, Repr

/-- All figures are zero. -/
def HeapStats.none : HeapStats := ⟨0, 0, 0, 0, 0, 0⟩

/-- An allocator that hands out blocks of one stretch of memory. -/
class BlockAllocator (α : Type) where
  /-- Where the memory starts. -/
  bottom : α → Nat
  /-- The first address behind the memory. -/
  top : α → Nat
  /-- The bytes that can be handed out. -/
  capacity : α → Nat
  /-- The bytes that are handed out. -/
  used : α → Nat
  /-- The bytes that are not handed out. -/
  available : α → Nat
  /-- Hand out a block; what is returned is where it starts. -/
  allocate : α → BlockRequest → Option (Nat × α)
  /-- Take back the block that starts at an address and was asked for in this way. -/
  release : α → Nat → BlockRequest → α

instance : BlockAllocator Arena where
  bottom := Arena.bottom
  top := Arena.top
  capacity := Arena.size
  used := Arena.used
  available := Arena.available
  allocate := Arena.allocate
  release := Arena.release

/-- An allocator and the record of its blocks. -/
structure TrackedHeap (α : Type) where
  arena : α
  record : BlockRecord
deriving DecidableEq, Repr

/-- A heap over an arena. -/
abbrev Heap := TrackedHeap Arena

namespace Heap

/-- A heap that was never set up. -/
def empty : Heap := ⟨.empty, .empty⟩

/-- The heap in `size` bytes from `start` on, if they are enough. -/
def make? (start size : Nat) : Option Heap :=
  (Arena.make? start size).map fun arena => ⟨arena, .empty⟩

end Heap

namespace TrackedHeap

variable {α : Type} [BlockAllocator α]

/-- Hand out a block and record it. -/
def allocate (heap : TrackedHeap α) (request : BlockRequest) : Option (Nat × TrackedHeap α) :=
  (BlockAllocator.allocate heap.arena request).map fun (start, arena) =>
    (start, ⟨arena, heap.record.insert ⟨start, request.blockSize⟩⟩)

/-- Take back the block that starts at an address and was asked for in this way. -/
def release (heap : TrackedHeap α) (start : Nat) (request : BlockRequest) : TrackedHeap α :=
  ⟨BlockAllocator.release heap.arena start request, heap.record.remove start⟩

/-- The figures about the heap. -/
def stats (heap : TrackedHeap α) : HeapStats :=
  let gaps := heap.record.gaps (BlockAllocator.bottom heap.arena) (BlockAllocator.top heap.arena)
  { total := BlockAllocator.capacity heap.arena
    used := BlockAllocator.used heap.arena
    free := BlockAllocator.available heap.arena
    largestFreeBlock := gaps.foldl max 0
    allocationCount := heap.record.count
    freeBlockCount := gaps.length }

end TrackedHeap

end PocketKernel
