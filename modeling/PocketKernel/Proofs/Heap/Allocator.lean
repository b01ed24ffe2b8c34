import Mathlib.Algebra.GroupWithZero.Nat
import Mathlib.Data.List.Pairwise
import Mathlib.Data.List.Perm.Basic
import Mathlib.Tactic.ByContra
import PocketKernel.Heap.Tracked

/-!
# Allocators that keep their word

`BlockAllocator` says how an allocator is asked, and nothing of what it answers. A lawful one hands
out blocks of the size that was asked for, inside its memory and apart from all that are handed out,
and it tells how many bytes that are. What it does with requests that it refuses is left open, and
so is how much of its memory it can hand out.

The arena is lawful. Its holes are what is not handed out, address by address, and they are apart
from each other, so that a block which is cut out of one hole takes nothing from the others.

## Main definitions

* `Block`: a block that is handed out, with the request for it.
* `LawfulAllocator`: the laws.
* `Arena.Lends`: how an arena keeps them.

## Main results

* `Arena.lends_make?`, `Arena.Lends.allocate`, `Arena.Lends.release`: an arena keeps the laws.
-/

namespace PocketKernel

namespace Extent

/-- The address lies in the stretch. -/
def Has (extent : Extent) (place : ℕ) : Prop := extent.start ≤ place ∧ place < extent.stop

/-- No address lies in both stretches. -/
def Apart (a b : Extent) : Prop := ∀ place, a.Has place → ¬ b.Has place

/-- The address lies in one of the stretches. -/
def Covers (extents : List Extent) (place : ℕ) : Prop := ∃ extent ∈ extents, extent.Has place

@[simp] theorem covers_nil (place : ℕ) : ¬ Covers [] place := by
  rintro ⟨extent, hmem, _⟩
  cases hmem

@[simp] theorem covers_cons {extent : Extent} {extents : List Extent} {place : ℕ} :
    Covers (extent :: extents) place ↔ extent.Has place ∨ Covers extents place :=
  List.exists_mem_cons_iff ..

@[simp] theorem covers_append {extents others : List Extent} {place : ℕ} :
    Covers (extents ++ others) place ↔ Covers extents place ∨ Covers others place := by
  simp only [Covers, List.mem_append, or_and_right, exists_or]

theorem covers_singleton {extent : Extent} {place : ℕ} :
    Covers [extent] place ↔ extent.Has place := by
  simp

theorem covers_perm {extents others : List Extent} (h : extents.Perm others) (place : ℕ) :
    Covers extents place ↔ Covers others place := by
  simp only [Covers, h.mem_iff]

theorem has_start {extent : Extent} (hpos : 0 < extent.size) : extent.Has extent.start :=
  ⟨Nat.le_refl _, Nat.lt_add_of_pos_right hpos⟩

theorem forall_apart_iff {extent : Extent} {extents : List Extent} :
    (∀ other ∈ extents, extent.Apart other)
      ↔ ∀ place, extent.Has place → ¬ Covers extents place := by
  constructor
  · rintro h place hplace ⟨other, hmem, hother⟩
    exact h other hmem place hplace hother
  · exact fun h other hmem place hplace hother => h place hplace ⟨other, hmem, hother⟩

theorem Apart.symm {a b : Extent} (h : a.Apart b) : b.Apart a :=
  fun place hb ha => h place ha hb

/-- Two stretches that are not empty are apart if one of them ends before the other. -/
theorem Apart.le_or_le {a b : Extent} (h : a.Apart b) (ha : 0 < a.size) (hb : 0 < b.size) :
    a.stop ≤ b.start ∨ b.stop ≤ a.start := by
  by_contra hmeet
  refine h (max a.start b.start) ⟨?_, ?_⟩ ⟨?_, ?_⟩ <;> simp only [stop] at * <;> omega

end Extent

open Extent

/-- A request that may be made: the alignment is a power of two, and the size rounded up to it is in
range. -/
def BlockRequest.IsValid (request : BlockRequest) : Prop :=
  isPowerOfTwo request.align = true ∧ request.size + (request.align - 1) < rangeLimit

instance (request : BlockRequest) : Decidable request.IsValid := inferInstanceAs (Decidable (_ ∧ _))

theorem BlockRequest.IsValid.align_pos {request : BlockRequest} (h : request.IsValid) :
    0 < request.align := by
  obtain ⟨n, _, hn⟩ := List.any_eq_true.mp h.1
  rw [of_decide_eq_true hn, Nat.one_shiftLeft]
  exact Nat.two_pow_pos n

theorem BlockRequest.minBlock_le_blockSize (request : BlockRequest) :
    minBlock ≤ request.blockSize := by
  simp only [blockSize, roundUp, minBlock, blockUnit]
  omega

/-- A block that is handed out, and the request that it was asked for with. -/
structure Block where
  start : ℕ
  request : BlockRequest
deriving DecidableEq, Repr

/-- The memory of a block. -/
def Block.extent (block : Block) : Extent := ⟨block.start, block.request.blockSize⟩

theorem Block.size_extent_pos (block : Block) : 0 < block.extent.size :=
  Nat.lt_of_lt_of_le (by decide) block.request.minBlock_le_blockSize

theorem Block.perm_erase_extent {block : Block} {live : List Block} (hmem : block ∈ live) :
    (live.map Block.extent).Perm (block.extent :: (live.erase block).map Block.extent) :=
  (List.perm_cons_erase hmem).map Block.extent

/-- **An allocator that keeps its word.** -/
class LawfulAllocator (α : Type) [BlockAllocator α] where
  /-- These blocks are handed out, and no others. -/
  Lends : α → List Block → Prop
  allocate {allocator later : α} {live : List Block} {request : BlockRequest} {start : ℕ} :
    Lends allocator live → request.IsValid →
    BlockAllocator.allocate allocator request = some (start, later) →
    Lends later (⟨start, request⟩ :: live)
  release {allocator : α} {live : List Block} {block : Block} :
    Lends allocator live → block ∈ live →
    Lends (BlockAllocator.release allocator block.start block.request) (live.erase block)
  bottom_le {allocator : α} {live : List Block} : Lends allocator live →
    BlockAllocator.bottom allocator ≤ BlockAllocator.top allocator
  inside {allocator : α} {live : List Block} {block : Block} :
    Lends allocator live → block ∈ live → BlockAllocator.bottom allocator ≤ block.extent.start
      ∧ block.extent.stop ≤ BlockAllocator.top allocator
  apart {allocator : α} {live : List Block} : Lends allocator live →
    (live.map Block.extent).Pairwise Apart
  used_eq {allocator : α} {live : List Block} : Lends allocator live →
    BlockAllocator.used allocator = ((live.map Block.extent).map Extent.size).sum
  used_add_available {allocator : α} {live : List Block} : Lends allocator live →
    BlockAllocator.used allocator + BlockAllocator.available allocator
      = BlockAllocator.capacity allocator

namespace LawfulAllocator

variable {α : Type} [BlockAllocator α] [LawfulAllocator α] {allocator : α} {live : List Block}

theorem nodup_extents (h : Lends allocator live) : (live.map Block.extent).Nodup := by
  refine (apart h).imp_of_mem fun {a b} hmem _ hapart heq => ?_
  obtain ⟨block, _, rfl⟩ := List.mem_map.mp hmem
  have hfirst := has_start block.size_extent_pos
  exact hapart block.start hfirst (heq ▸ hfirst)

/-- Two blocks never start at the same address. -/
theorem eq_of_start_eq (h : Lends allocator live) {a b : Block} (ha : a ∈ live) (hb : b ∈ live)
    (hstart : a.start = b.start) : a.extent = b.extent := by
  by_contra hne
  have hsymm : Std.Symm Extent.Apart := ⟨fun _ _ => Apart.symm⟩
  have hapart := (apart h).forall (List.mem_map_of_mem ha) (List.mem_map_of_mem hb) hne
  refine hapart a.start (has_start a.size_extent_pos) ?_
  rw [hstart]
  exact has_start b.size_extent_pos

end LawfulAllocator

/-! ### Holes -/

namespace Arena

variable {holes left : List Extent} {size align start : ℕ}

/-- A block was cut out of some stretches: it was covered by one of them, the rest of them is left,
and nothing is lost. -/
structure Cuts (block : Extent) (holes left : List Extent) : Prop where
  inside : ∀ place, block.Has place → Covers holes place
  covers_iff : ∀ place, Covers left place ↔ Covers holes place ∧ ¬ block.Has place
  apart : left.Pairwise Apart
  sum_eq : (left.map Extent.size).sum + block.size = (holes.map Extent.size).sum

theorem le_roundUp (n : ℕ) (hunit : 0 < align) : n ≤ roundUp n align := by
  have hdiv := Nat.div_add_mod' (n + align - 1) align
  have hmod := Nat.mod_lt (n + align - 1) hunit
  rw [roundUp]
  omega

/-- What is left of a hole at one end, if anything is. -/
def piece (start size : ℕ) : List Extent := if size = 0 then [] else [⟨start, size⟩]

theorem covers_piece {place : ℕ} :
    Covers (piece start size) place ↔ start ≤ place ∧ place < start + size := by
  rw [piece]
  split
  next hzero =>
    refine iff_of_false (covers_nil place) ?_
    omega
  next => simp only [Covers, List.mem_singleton, exists_eq_left, Has, stop]

theorem sum_piece (start size : ℕ) : ((piece start size).map Extent.size).sum = size := by
  rw [piece]
  split
  next hzero => rw [hzero]; rfl
  next => rfl

theorem pairwise_piece (start size : ℕ) : (piece start size).Pairwise Apart := by
  rw [piece]
  split
  next => exact .nil
  next => exact List.pairwise_singleton ..

theorem cuts_middle {hole : Extent} (hfront : hole.start ≤ start)
    (hback : start + size ≤ hole.stop) : Cuts ⟨start, size⟩ [hole]
      (piece hole.start (start - hole.start)
        ++ piece (start + size) (hole.stop - (start + size))) := by
  simp only [stop] at hback
  refine ⟨fun place hplace => covers_singleton.mpr ?_, fun place => ?_, ?_, ?_⟩
  · simp only [Has, stop] at *
    omega
  · rw [covers_append, covers_piece, covers_piece, covers_singleton]
    simp only [Has, stop]
    omega
  · refine List.pairwise_append.mpr ⟨pairwise_piece _ _, pairwise_piece _ _, ?_⟩
    intro a ha b hb place hplace hplace'
    have hin := covers_piece.mp ⟨a, ha, hplace⟩
    have hin' := covers_piece.mp ⟨b, hb, hplace'⟩
    omega
  · rw [List.map_append, List.sum_append, sum_piece, sum_piece, List.map_singleton,
      List.sum_singleton]
    simp only [stop]
    omega

theorem cuts_of_carve? {hole : Extent} (halign : 0 < align)
    (h : carve? hole size align = some (start, left)) : Cuts ⟨start, size⟩ [hole] left := by
  have hfront : hole.start ≤ (if hole.start % align = 0 then hole.start
      else roundUp (hole.start + minBlock) align) := by
    split
    next => exact Nat.le_refl _
    next => exact Nat.le_trans (Nat.le_add_right _ _) (le_roundUp _ halign)
  simp only [carve?] at h
  generalize (if hole.start % align = 0 then hole.start
    else roundUp (hole.start + minBlock) align) = place at h hfront
  split at h
  next => cases h
  next hfits =>
    obtain ⟨rfl, rfl⟩ := Prod.mk.inj (Option.some.inj h)
    simp only [Bool.or_eq_true, decide_eq_true_eq, not_or] at hfits
    have hcuts := cuts_middle hfront (Nat.le_of_not_lt hfits.1.2)
    have hzero : place - hole.start = 0 ↔ place = hole.start := by omega
    simpa only [piece, hzero] using hcuts

theorem Cuts.behind {block hole : Extent} {rest : List Extent} (h : Cuts block [hole] left)
    (hholes : (hole :: rest).Pairwise Apart) : Cuts block (hole :: rest) (left ++ rest) := by
  obtain ⟨hhole, hrest⟩ := List.pairwise_cons.mp hholes
  rw [forall_apart_iff] at hhole
  refine ⟨fun place hplace => ?_, fun place => ?_, ?_, ?_⟩
  · exact covers_cons.mpr (.inl (covers_singleton.mp (h.inside place hplace)))
  · have hblock : Covers rest place → ¬ block.Has place :=
      fun hrest hplace => hhole place (covers_singleton.mp (h.inside place hplace)) hrest
    rw [covers_append, h.covers_iff, covers_singleton, covers_cons]
    tauto
  · refine List.pairwise_append.mpr ⟨h.apart, hrest, fun a ha b hb place hplace hplace' => ?_⟩
    have hin := ((h.covers_iff place).mp ⟨a, ha, hplace⟩).1
    exact hhole place (covers_singleton.mp hin) ⟨b, hb, hplace'⟩
  · have hsum := h.sum_eq
    rw [List.map_cons, List.map_nil, List.sum_cons, List.sum_nil] at hsum
    rw [List.map_append, List.sum_append, List.map_cons, List.sum_cons]
    omega

theorem Cuts.before {block hole : Extent} {rest : List Extent} (h : Cuts block rest left)
    (hholes : (hole :: rest).Pairwise Apart) : Cuts block (hole :: rest) (hole :: left) := by
  have hhole := forall_apart_iff.mp (List.pairwise_cons.mp hholes).1
  refine ⟨fun place hplace => ?_, fun place => ?_, ?_, ?_⟩
  · exact covers_cons.mpr (.inr (h.inside place hplace))
  · have hblock : hole.Has place → ¬ block.Has place :=
      fun hin hplace => hhole place hin (h.inside place hplace)
    rw [covers_cons, covers_cons, h.covers_iff]
    tauto
  · refine List.pairwise_cons.mpr ⟨forall_apart_iff.mpr fun place hin hleft => ?_, h.apart⟩
    exact hhole place hin ((h.covers_iff place).mp hleft).1
  · have hsum := h.sum_eq
    rw [List.map_cons, List.sum_cons, List.map_cons, List.sum_cons]
    omega

/-- **Handing out** cuts the block out of the holes. -/
theorem cuts_of_carveFirst? (halign : 0 < align) (hholes : holes.Pairwise Apart)
    (h : carveFirst? size align holes = some (start, left)) : Cuts ⟨start, size⟩ holes left := by
  induction holes generalizing left with
  | nil => cases h
  | cons hole rest ih =>
    rw [carveFirst?] at h
    split at h
    next place pieces hcarved =>
      obtain ⟨rfl, rfl⟩ := Prod.mk.inj (Option.some.inj h)
      exact (cuts_of_carve? halign hcarved).behind hholes
    next =>
      obtain ⟨⟨place, later⟩, hlater, heq⟩ := Option.map_eq_some_iff.mp h
      obtain ⟨rfl, rfl⟩ := Prod.mk.inj heq
      exact (ih (List.pairwise_cons.mp hholes).2 hlater).before hholes

/-- A stretch was added to some stretches that are apart from it and from each other. -/
structure Joins (freed : Extent) (holes joined : List Extent) : Prop where
  covers_iff : ∀ place, Covers joined place ↔ freed.Has place ∨ Covers holes place
  apart : joined.Pairwise Apart
  sum_eq : (joined.map Extent.size).sum = freed.size + (holes.map Extent.size).sum

theorem has_merged {a b : Extent} (h : a.stop = b.start) (place : ℕ) :
    Extent.Has ⟨a.start, a.size + b.size⟩ place ↔ a.Has place ∨ b.Has place := by
  simp only [Has, stop] at *
  omega

/-- Two stretches that touch are merged into one. -/
theorem pairwise_merged {a b : Extent} {rest : List Extent} (h : a.stop = b.start)
    (hall : (a :: b :: rest).Pairwise Apart) :
    ((⟨a.start, a.size + b.size⟩ : Extent) :: rest).Pairwise Apart := by
  obtain ⟨ha, hrest⟩ := List.pairwise_cons.mp hall
  obtain ⟨hb, hrest⟩ := List.pairwise_cons.mp hrest
  refine List.pairwise_cons.mpr ⟨fun other hmem place hplace => ?_, hrest⟩
  rcases (has_merged h place).mp hplace with hin | hin
  · exact ha other (List.mem_cons_of_mem _ hmem) place hin
  · exact hb other hmem place hin

/-- **Taking back** adds the stretch to the holes. -/
theorem joins_enterHole {freed : Extent} (h : (freed :: holes).Pairwise Apart) :
    Joins freed holes (enterHole freed holes) := by
  fun_induction enterHole freed holes with
  | case1 freed => exact ⟨fun place => covers_cons, h, List.sum_cons⟩
  | case2 freed hole rest hbefore => exact ⟨fun place => covers_cons, h, List.sum_cons⟩
  | case3 freed hole rest hbefore htouches =>
    refine ⟨fun place => ?_, pairwise_merged htouches h, ?_⟩
    · rw [covers_cons, covers_cons, has_merged htouches, or_assoc]
    · rw [List.map_cons, List.sum_cons, List.map_cons, List.sum_cons, Nat.add_assoc]
  | case4 freed hole rest hbefore hapart htouches ih =>
    have hswapped : (hole :: freed :: rest).Pairwise Apart :=
      h.perm (List.Perm.swap ..) Apart.symm
    have hjoins := ih (pairwise_merged htouches hswapped)
    refine ⟨fun place => ?_, hjoins.apart, ?_⟩
    · rw [hjoins.covers_iff, has_merged htouches, covers_cons]
      tauto
    · rw [hjoins.sum_eq, List.map_cons, List.sum_cons]
      show hole.size + freed.size + _ = _
      omega
  | case5 freed hole rest hbefore hapart htouches ih =>
    have hswapped : (hole :: freed :: rest).Pairwise Apart :=
      h.perm (List.Perm.swap ..) Apart.symm
    obtain ⟨hhole, hrest⟩ := List.pairwise_cons.mp hswapped
    have hjoins := ih hrest
    rw [forall_apart_iff] at hhole
    refine ⟨fun place => ?_, List.pairwise_cons.mpr ⟨?_, hjoins.apart⟩, ?_⟩
    · rw [covers_cons, hjoins.covers_iff, covers_cons]
      tauto
    · refine forall_apart_iff.mpr fun place hin hjoined => hhole place hin ?_
      exact covers_cons.mpr ((hjoins.covers_iff place).mp hjoined)
    · rw [List.map_cons, List.sum_cons, hjoins.sum_eq, List.map_cons, List.sum_cons]
      omega

/-! ### The arena is lawful -/

/-- An arena has handed out some blocks: what is not handed out is in its holes, address by
address. -/
structure Lends (arena : Arena) (live : List Block) : Prop where
  free_iff : ∀ place, Covers arena.holes place ↔ arena.bottom ≤ place
    ∧ place < arena.bottom + arena.size ∧ ¬ Covers (live.map Block.extent) place
  holes_apart : arena.holes.Pairwise Apart
  inside : ∀ block ∈ live, arena.bottom ≤ block.extent.start
    ∧ block.extent.stop ≤ arena.bottom + arena.size
  apart : (live.map Block.extent).Pairwise Apart
  used_eq : arena.used = ((live.map Block.extent).map Extent.size).sum
  used_add : arena.used + (arena.holes.map Extent.size).sum = arena.size

variable {arena later : Arena} {live : List Block} {block : Block}

/-- An arena that was just set up has handed out nothing. -/
theorem lends_make? {first count : ℕ} (h : Arena.make? first count = some arena) :
    arena.Lends [] := by
  rw [Arena.make?] at h
  split at h
  next =>
    obtain rfl := Option.some.inj h
    refine ⟨fun place => ?_, List.pairwise_singleton .., nofun, .nil, rfl, Nat.zero_add _⟩
    simp [Has, stop]
  next => cases h

theorem Lends.allocate (h : arena.Lends live) {request : BlockRequest} (hrequest : request.IsValid)
    (hsome : arena.allocate request = some (start, later)) :
    later.Lends (⟨start, request⟩ :: live) := by
  obtain ⟨⟨place, holes⟩, hcarved, heq⟩ := Option.map_eq_some_iff.mp hsome
  obtain ⟨rfl, rfl⟩ := Prod.mk.inj heq
  have hcuts := cuts_of_carveFirst? hrequest.align_pos h.holes_apart hcarved
  have hfree (other : ℕ) (hother : (Block.extent ⟨place, request⟩).Has other) :=
    (h.free_iff other).mp (hcuts.inside other hother)
  have hpos : 0 < request.blockSize := Block.size_extent_pos ⟨place, request⟩
  refine ⟨fun other => ?_, hcuts.apart, ?_, ?_, ?_, ?_⟩
  · rw [hcuts.covers_iff, h.free_iff, List.map_cons, covers_cons]
    show _ ∧ ¬ (Block.extent ⟨place, request⟩).Has other ↔ _
    tauto
  · refine List.forall_mem_cons.mpr ⟨?_, h.inside⟩
    have hfirst := hfree place (has_start hpos)
    have hlast := hfree (place + request.blockSize - 1)
      (by simp only [Has, Block.extent, stop]; omega)
    simp only [Block.extent, stop]
    omega
  · rw [List.map_cons, List.pairwise_cons, forall_apart_iff]
    exact ⟨fun other hother => (hfree other hother).2.2, h.apart⟩
  · rw [List.map_cons, List.map_cons, List.sum_cons, ← h.used_eq]
    exact Nat.add_comm ..
  · have hsum : (holes.map Extent.size).sum + request.blockSize
        = (arena.holes.map Extent.size).sum := hcuts.sum_eq
    have hused := h.used_add
    show arena.used + request.blockSize + (holes.map Extent.size).sum = arena.size
    omega

theorem Lends.release (h : arena.Lends live) (hmem : block ∈ live) :
    (arena.release block.start block.request).Lends (live.erase block) := by
  have hperm := Block.perm_erase_extent hmem
  obtain ⟨hblock, hothers⟩ := List.pairwise_cons.mp (h.apart.perm hperm Apart.symm)
  rw [forall_apart_iff] at hblock
  have hlive (place : ℕ) := (covers_perm hperm place).trans covers_cons
  have hjoins : Joins block.extent arena.holes (enterHole block.extent arena.holes) := by
    refine joins_enterHole (List.pairwise_cons.mpr ⟨?_, h.holes_apart⟩)
    refine forall_apart_iff.mpr fun place hin hhole => ?_
    exact ((h.free_iff place).mp hhole).2.2 ((hlive place).mpr (.inl hin))
  have hinside := h.inside block hmem
  have hsum := (hperm.map Extent.size).sum_nat
  rw [List.map_cons, List.sum_cons, ← h.used_eq] at hsum
  have hused : (arena.release block.start block.request).used
      = (((live.erase block).map Block.extent).map Extent.size).sum := by
    show arena.used - block.extent.size = _
    omega
  refine ⟨fun place => ?_, hjoins.apart, fun other hother => h.inside other ?_, hothers, hused, ?_⟩
  · refine (hjoins.covers_iff place).trans ?_
    rw [h.free_iff, hlive]
    have hapart := hblock place
    show _ ↔ arena.bottom ≤ place ∧ place < arena.bottom + arena.size ∧ _
    have hbounds (hin : block.extent.Has place) : arena.bottom ≤ place
        ∧ place < arena.bottom + arena.size := by
      simp only [Has] at hin
      omega
    tauto
  · exact List.mem_of_mem_erase hother
  · have htotal := h.used_add
    rw [hused]
    refine Eq.trans ?_ htotal
    rw [show (arena.release block.start block.request).holes
      = enterHole block.extent arena.holes from rfl, hjoins.sum_eq]
    omega

instance : LawfulAllocator Arena where
  Lends := Lends
  allocate h hrequest hsome := Lends.allocate h hrequest hsome
  release h hmem := Lends.release h hmem
  bottom_le {arena _} _ := by
    show arena.bottom ≤ arena.bottom + arena.size + arena.rest
    omega
  inside {arena _ _} h hmem := by
    have hinside := h.inside _ hmem
    refine ⟨hinside.1, Nat.le_trans hinside.2 ?_⟩
    exact Nat.le_add_right (arena.bottom + arena.size) arena.rest
  apart h := h.apart
  used_eq h := h.used_eq
  used_add_available {arena _} h := by
    have hused := h.used_add
    show arena.used + (arena.size - arena.used) = arena.size
    omega

end Arena

end PocketKernel
