import Mathlib.Algebra.BigOperators.Group.Finset.Basic
import Mathlib.Data.Finset.Lattice.Fold
import Mathlib.Order.Lattice.Nat
import PocketKernel.Proofs.Heap.Gaps

/-!
# The figures about the heap

A heap does not look into its allocator. It records the blocks that it got, as long as there is room
for them, and counts the others; a block that comes back and is not on record is taken to be one of
those. That is right because two blocks never start at the same address, so the number of blocks is
always right, and as long as every block is on record the gaps between them are all the free memory.

The memory of an allocator may be larger than what it can hand out. An arena leaves out the bytes at
its end that do not make up a unit. They are in no block and so are part of the last gap: the gaps
are larger by that much than what is free, and an arena that is handed out as a whole still has one.

## Main definitions

* `TrackedHeap.Reached`: the heaps that come up, with the blocks that are handed out.
* `TrackedHeap.Tracks`: the record is one of these blocks.

## Main results

* `TrackedHeap.Reached.tracks`: so it is after every call.
* `TrackedHeap.stats_exact_iff`: the figures.
-/

namespace PocketKernel

open Extent BlockRecord

namespace BlockRecord

variable {block : Extent} {blocks : List Extent} {record : BlockRecord}

theorem insertOrdered_perm (block : Extent) (blocks : List Extent) :
    (insertOrdered block blocks).Perm (block :: blocks) := by
  induction blocks with
  | nil => exact .refl _
  | cons other blocks ih =>
    rw [insertOrdered]
    split
    next => exact (ih.cons other).trans (.swap ..)
    next => exact .refl _

/-- A block that is apart from the others is entered at its place. -/
theorem pairwise_insertOrdered (hblocks : blocks.Pairwise (·.stop ≤ ·.start))
    (hapart : ∀ other ∈ blocks, block.stop ≤ other.start ∨ other.stop ≤ block.start)
    (hsize : ∀ other ∈ blocks, 0 < other.size) (hpos : 0 < block.size) :
    (insertOrdered block blocks).Pairwise (·.stop ≤ ·.start) := by
  induction blocks with
  | nil => exact List.pairwise_singleton ..
  | cons other blocks ih =>
    obtain ⟨hother, hrest⟩ := List.pairwise_cons.mp hblocks
    obtain ⟨hfirst, hapart⟩ := List.forall_mem_cons.mp hapart
    obtain ⟨hlast, hsize⟩ := List.forall_mem_cons.mp hsize
    rw [insertOrdered]
    split
    next hlt =>
      refine List.pairwise_cons.mpr ⟨fun later hmem => ?_, ih hrest hapart hsize⟩
      rcases List.mem_cons.mp ((insertOrdered_perm block blocks).mem_iff.mp hmem) with rfl | hmem
      · simp only [stop] at *
        omega
      · exact hother later hmem
    next hge =>
      have hle : block.stop ≤ other.start := by
        simp only [stop] at *
        omega
      refine List.pairwise_cons.mpr ⟨fun later hmem => ?_, hblocks⟩
      rcases List.mem_cons.mp hmem with rfl | hmem
      · exact hle
      · have hlater := hother later hmem
        simp only [stop] at *
        omega

theorem pairwise_remove (h : record.blocks.Pairwise (·.stop ≤ ·.start)) (start : ℕ) :
    (record.remove start).blocks.Pairwise (·.stop ≤ ·.start) := by
  rw [remove]
  split
  next => exact h.sublist List.eraseP_sublist
  next => exact h

/-- A block on record is known by its start. -/
theorem remove_of_mem (hmem : block ∈ record.blocks)
    (honly : ∀ other ∈ record.blocks, other.start = block.start → other = block) :
    record.blocks.Perm (block :: (record.remove block.start).blocks)
      ∧ (record.remove block.start).uncharted = record.uncharted := by
  have hstart : decide (block.start = block.start) = true := decide_eq_true rfl
  obtain ⟨erased, front, back, _, hfound, hblocks, heq⟩ :=
    List.exists_of_eraseP (p := (·.start = block.start)) hmem hstart
  have herased : erased ∈ record.blocks := by
    rw [hblocks]
    exact List.mem_append_right _ (List.mem_cons_self ..)
  obtain rfl := honly erased herased (of_decide_eq_true hfound)
  rw [remove, if_pos (List.any_eq_true.mpr ⟨erased, hmem, hstart⟩)]
  refine ⟨?_, rfl⟩
  show record.blocks.Perm (erased :: record.blocks.eraseP _)
  rw [heq, hblocks]
  exact List.perm_middle

theorem remove_of_forall_ne {start : ℕ} (h : ∀ other ∈ record.blocks, other.start ≠ start) :
    record.remove start = { record with uncharted := record.uncharted - 1 } := by
  rw [remove, if_neg]
  intro hany
  obtain ⟨other, hmem, hstart⟩ := List.any_eq_true.mp hany
  exact h other hmem (of_decide_eq_true hstart)

end BlockRecord

namespace TrackedHeap

variable {α : Type} [BlockAllocator α] [LawfulAllocator α] {heap later : TrackedHeap α}
  {live : List Block} {block : Block} {extent : Extent} {request : BlockRequest} {start : ℕ}

/-- The heaps that come up, each with the blocks that are handed out then: a heap is set up over an
allocator that has handed out nothing, and then blocks are handed out and taken back, each with the
request that it was asked for with. -/
inductive Reached : TrackedHeap α → List Block → Prop
  | start {arena : α} : LawfulAllocator.Lends arena [] → Reached ⟨arena, .empty⟩ []
  | allocate {heap later : TrackedHeap α} {live : List Block} {request : BlockRequest}
      {start : ℕ} : Reached heap live → request.IsValid →
      heap.allocate request = some (start, later) → Reached later (⟨start, request⟩ :: live)
  | release {heap : TrackedHeap α} {live : List Block} {block : Block} : Reached heap live →
      block ∈ live → Reached (heap.release block.start block.request) (live.erase block)

/-- The record is one of the blocks that are handed out: some of them are on record in the order of
their addresses, and the number of the others is known. -/
structure Tracks (heap : TrackedHeap α) (live : List Block) : Prop where
  lends : LawfulAllocator.Lends heap.arena live
  sorted : heap.record.blocks.Pairwise (·.stop ≤ ·.start)
  exists_others : ∃ others, (live.map Block.extent).Perm (heap.record.blocks ++ others)
    ∧ others.length = heap.record.uncharted

theorem tracks_start {arena : α} (h : LawfulAllocator.Lends arena []) :
    Tracks ⟨arena, .empty⟩ [] :=
  ⟨h, .nil, [], .refl _, rfl⟩

theorem Tracks.exists_block (h : heap.Tracks live) (hmem : extent ∈ heap.record.blocks) :
    ∃ block ∈ live, block.extent = extent := by
  obtain ⟨others, hperm, _⟩ := h.exists_others
  exact List.mem_map.mp (hperm.mem_iff.mpr (List.mem_append_left _ hmem))

theorem Tracks.size_pos (h : heap.Tracks live) (hmem : extent ∈ heap.record.blocks) :
    0 < extent.size := by
  obtain ⟨block, _, rfl⟩ := h.exists_block hmem
  exact block.size_extent_pos

theorem Tracks.allocate (h : heap.Tracks live) (hrequest : request.IsValid)
    (hsome : heap.allocate request = some (start, later)) :
    later.Tracks (⟨start, request⟩ :: live) := by
  obtain ⟨⟨place, arena⟩, hasked, heq⟩ := Option.map_eq_some_iff.mp hsome
  obtain ⟨rfl, rfl⟩ := Prod.mk.inj heq
  have hlends := LawfulAllocator.allocate h.lends hrequest hasked
  obtain ⟨others, hperm, hlength⟩ := h.exists_others
  have hnew := (List.pairwise_cons.mp (LawfulAllocator.apart hlends)).1
  refine ⟨hlends, ?_, ?_⟩
  · show (heap.record.insert _).blocks.Pairwise _
    rw [BlockRecord.insert]
    split
    next =>
      have hpos := Block.size_extent_pos ⟨place, request⟩
      refine pairwise_insertOrdered h.sorted (fun other hmem => ?_) (fun _ => h.size_pos) hpos
      obtain ⟨block, hblock, rfl⟩ := h.exists_block hmem
      exact (hnew _ (List.mem_map_of_mem hblock)).le_or_le hpos block.size_extent_pos
    next => exact h.sorted
  · show ∃ others, List.Perm _ ((heap.record.insert _).blocks ++ others)
      ∧ others.length = (heap.record.insert _).uncharted
    rw [List.map_cons, BlockRecord.insert]
    split
    next =>
      refine ⟨others, ?_, hlength⟩
      exact (hperm.cons _).trans ((insertOrdered_perm ..).symm.append_right _)
    next =>
      refine ⟨Block.extent ⟨place, request⟩ :: others, ?_, by rw [List.length_cons, hlength]⟩
      exact (hperm.cons _).trans List.perm_middle.symm

/-- The record does not say whether the block is one of its own. It is exactly if one of its own
starts at the same address, since no other block does. -/
theorem Tracks.release (h : heap.Tracks live) (hmem : block ∈ live) :
    (heap.release block.start block.request).Tracks (live.erase block) := by
  obtain ⟨others, hperm, hlength⟩ := h.exists_others
  have hlive := Block.perm_erase_extent hmem
  have hself (extent : Extent) (hextent : extent ∈ heap.record.blocks)
      (hstart : extent.start = block.start) : extent = block.extent := by
    obtain ⟨other, hother, rfl⟩ := h.exists_block hextent
    exact LawfulAllocator.eq_of_start_eq h.lends hother hmem hstart
  refine ⟨LawfulAllocator.release h.lends hmem, pairwise_remove h.sorted _, ?_⟩
  show ∃ others, List.Perm _ ((heap.record.remove block.extent.start).blocks ++ others)
    ∧ others.length = (heap.record.remove block.extent.start).uncharted
  by_cases hcharted : block.extent ∈ heap.record.blocks
  · obtain ⟨hblocks, hcount⟩ := remove_of_mem hcharted hself
    refine ⟨others, ?_, hlength.trans hcount.symm⟩
    exact (hlive.symm.trans (hperm.trans (hblocks.append_right _))).cons_inv
  · have hother : block.extent ∈ others :=
      (List.mem_append.mp (hperm.mem_iff.mp (List.mem_map_of_mem hmem))).resolve_left hcharted
    have hnone (extent : Extent) (hextent : extent ∈ heap.record.blocks) :
        extent.start ≠ block.extent.start :=
      fun hstart => hcharted (hself extent hextent hstart ▸ hextent)
    rw [remove_of_forall_ne hnone]
    refine ⟨others.erase block.extent, ?_, ?_⟩
    · have hmoved := (List.perm_cons_erase hother).append_left heap.record.blocks
      exact (hlive.symm.trans (hperm.trans (hmoved.trans List.perm_middle))).cons_inv
    · rw [List.length_erase_of_mem hother, hlength]

/-- **The record is right** after every call. -/
theorem Reached.tracks (h : heap.Reached live) : heap.Tracks live := by
  induction h with
  | start harena => exact tracks_start harena
  | allocate _ hrequest hsome ih => exact ih.allocate hrequest hsome
  | release _ hmem ih => exact ih.release hmem

/-! ### The figures -/

theorem Tracks.count_eq (h : heap.Tracks live) : heap.record.count = live.length := by
  obtain ⟨others, hperm, hlength⟩ := h.exists_others
  have hsame := hperm.length_eq
  rw [List.length_map, List.length_append, hlength] at hsame
  exact hsame.symm

theorem Tracks.strung (h : heap.Tracks live) : Strung (BlockAllocator.top heap.arena)
    (BlockAllocator.bottom heap.arena) heap.record.blocks := by
  refine strung_of_pairwise (LawfulAllocator.bottom_le h.lends) h.sorted (fun _ => h.size_pos) ?_
  intro extent hmem
  obtain ⟨block, hblock, rfl⟩ := h.exists_block hmem
  exact LawfulAllocator.inside h.lends hblock

/-- If every block is on record, the record has these blocks and no others. -/
theorem Tracks.perm_blocks (h : heap.Tracks live)
    (hall : ∀ block ∈ live, block.extent ∈ heap.record.blocks) :
    (live.map Block.extent).Perm heap.record.blocks := by
  obtain ⟨others, hperm, _⟩ := h.exists_others
  have hdisjoint := (List.nodup_append.mp (hperm.nodup (LawfulAllocator.nodup_extents h.lends))).2.2
  have hnone : others = [] := by
    refine List.eq_nil_iff_forall_not_mem.mpr fun extent hmem => ?_
    obtain ⟨block, hblock, rfl⟩ :=
      List.mem_map.mp (hperm.mem_iff.mpr (List.mem_append_right _ hmem))
    exact hdisjoint _ (hall block hblock) _ hmem rfl
  rwa [hnone, List.append_nil] at hperm

theorem foldl_max_eq_sup (gaps : List Extent) (n : ℕ) :
    (gaps.map Extent.size).foldl max n = max n (gaps.toFinset.sup Extent.size) := by
  induction gaps generalizing n with
  | nil => exact (Nat.max_zero n).symm
  | cons gap gaps ih =>
    rw [List.map_cons, List.foldl_cons, ih, List.toFinset_cons, Finset.sup_insert]
    exact max_assoc ..

/-- If every block is on record, the pass over the record finds what no block takes. -/
theorem Tracks.mem_gapExtents_iff (h : heap.Tracks live)
    (hall : ∀ block ∈ live, block.extent ∈ heap.record.blocks) {gap : Extent} :
    gap ∈ gapExtents (BlockAllocator.top heap.arena) (BlockAllocator.bottom heap.arena)
        heap.record.blocks
      ↔ IsGap (FreeAt (BlockAllocator.bottom heap.arena) (BlockAllocator.top heap.arena)
        (live.map Block.extent)) gap := by
  rw [h.strung.mem_gapExtents_iff]
  refine iff_of_eq (congrArg (IsGap · gap) (funext fun place => ?_))
  rw [FreeAt, FreeAt, covers_perm (h.perm_blocks hall)]

theorem Tracks.sum_gapExtents (h : heap.Tracks live)
    (hall : ∀ block ∈ live, block.extent ∈ heap.record.blocks) :
    ((gapExtents (BlockAllocator.top heap.arena) (BlockAllocator.bottom heap.arena)
        heap.record.blocks).map Extent.size).sum + BlockAllocator.used heap.arena
      = BlockAllocator.top heap.arena - BlockAllocator.bottom heap.arena := by
  rw [LawfulAllocator.used_eq h.lends, ((h.perm_blocks hall).map Extent.size).sum_nat]
  exact h.strung.sum_gapExtents

/-- **What the figures are worth.** The number of blocks is right, and what is on record are blocks
in the order of their addresses. While every block is on record the other figures are those of the
gaps. Together the gaps are what is not handed out if nothing of the memory is left out. -/
theorem stats_exact_iff (h : heap.Reached live) :
    heap.stats.allocationCount = live.length
      ∧ heap.record.blocks.Pairwise (·.stop ≤ ·.start)
      ∧ (∀ extent ∈ heap.record.blocks, ∃ block ∈ live, block.extent = extent)
      ∧ ((∀ block ∈ live, block.extent ∈ heap.record.blocks) → ∃ gaps : Finset Extent,
          (∀ gap, gap ∈ gaps ↔ IsGap (FreeAt (BlockAllocator.bottom heap.arena)
            (BlockAllocator.top heap.arena) (live.map Block.extent)) gap)
          ∧ heap.stats.freeBlockCount = gaps.card
          ∧ heap.stats.largestFreeBlock = gaps.sup Extent.size
          ∧ (∑ gap ∈ gaps, gap.size = heap.stats.total - heap.stats.used
            ↔ BlockAllocator.bottom heap.arena + heap.stats.total
              = BlockAllocator.top heap.arena)) := by
  have htracks := h.tracks
  refine ⟨htracks.count_eq, htracks.sorted, fun _ => htracks.exists_block, fun hall => ?_⟩
  have hnodup := htracks.strung.nodup_gapExtents
  have hgaps : heap.record.gaps (BlockAllocator.bottom heap.arena)
      (BlockAllocator.top heap.arena) = (gapExtents (BlockAllocator.top heap.arena)
        (BlockAllocator.bottom heap.arena) heap.record.blocks).map Extent.size := gapsFrom_eq ..
  refine ⟨List.toFinset (gapExtents (BlockAllocator.top heap.arena)
    (BlockAllocator.bottom heap.arena) heap.record.blocks), fun gap => ?_, ?_, ?_, ?_⟩
  · rw [List.mem_toFinset, htracks.mem_gapExtents_iff hall]
  · rw [List.toFinset_card_of_nodup hnodup, ← List.length_map Extent.size, ← hgaps]
    rfl
  · rw [← Nat.zero_max (Finset.sup _ _), ← foldl_max_eq_sup, ← hgaps]
    rfl
  · have hsum := htracks.sum_gapExtents hall
    have hle := LawfulAllocator.bottom_le htracks.lends
    have htotal := LawfulAllocator.used_add_available htracks.lends
    rw [List.sum_toFinset Extent.size hnodup]
    show _ = BlockAllocator.capacity heap.arena - BlockAllocator.used heap.arena
      ↔ _ + BlockAllocator.capacity heap.arena = _
    omega

/-- Two blocks, of which the first one came back. -/
theorem stats_exact_iff_returned : ∃ heap : Heap,
    heap.Reached [⟨64, ⟨64, 8⟩⟩] ∧ heap.stats = ⟨4096, 64, 4032, 3968, 1, 2⟩
      ∧ ∃ gaps : Finset Extent, (∀ gap, gap ∈ gaps ↔ IsGap (FreeAt 0 4096 [⟨64, 64⟩]) gap)
        ∧ gaps.card = 2 ∧ gaps.sup Extent.size = 3968 ∧ ∑ gap ∈ gaps, gap.size = 4032 := by
  have hvalid : BlockRequest.IsValid ⟨64, 8⟩ := by decide +kernel
  have harena : Arena.make? 0 4096 = some ⟨0, 4096, 0, 0, [⟨0, 4096⟩]⟩ := rfl
  have hnone : Reached (⟨⟨0, 4096, 0, 0, [⟨0, 4096⟩]⟩, .empty⟩ : Heap) [] :=
    .start (Arena.lends_make? harena)
  have hone : Reached (⟨⟨0, 4096, 0, 64, [⟨64, 4032⟩]⟩, ⟨[⟨0, 64⟩], 0⟩⟩ : Heap)
      [⟨0, ⟨64, 8⟩⟩] := .allocate hnone hvalid (by decide)
  have htwo : Reached (⟨⟨0, 4096, 0, 128, [⟨128, 3968⟩]⟩, ⟨[⟨0, 64⟩, ⟨64, 64⟩], 0⟩⟩ : Heap)
      [⟨64, ⟨64, 8⟩⟩, ⟨0, ⟨64, 8⟩⟩] := .allocate hone hvalid (by decide)
  have hback : Reached (⟨⟨0, 4096, 0, 64, [⟨0, 64⟩, ⟨128, 3968⟩]⟩, ⟨[⟨64, 64⟩], 0⟩⟩ : Heap)
      [⟨64, ⟨64, 8⟩⟩] := by
    have hsecond := List.mem_cons_of_mem (⟨64, ⟨64, 8⟩⟩ : Block)
      (List.mem_singleton_self ⟨0, ⟨64, 8⟩⟩)
    convert htwo.release hsecond using 1 <;> decide
  obtain ⟨gaps, hgaps, hcount, hlargest, hsum⟩ := (stats_exact_iff hback).2.2.2 (by decide)
  have hlive : [Block.mk 64 ⟨64, 8⟩].map Block.extent = [⟨64, 64⟩] := by decide
  rw [hlive] at hgaps
  exact ⟨_, hback, by decide, gaps, hgaps, hcount.symm, hlargest.symm, hsum.mpr (by decide)⟩

/-- Of thirty-one bytes twenty-four can be handed out, and the one gap is all thirty-one. -/
theorem gap_exceeds_free : ∃ heap : Heap, Heap.make? 0 31 = some heap ∧ heap.Reached []
    ∧ heap.stats = ⟨24, 0, 24, 31, 0, 1⟩ ∧ ∀ gaps : Finset Extent,
      (∀ gap, gap ∈ gaps ↔ IsGap (FreeAt 0 31 []) gap) →
        ∑ gap ∈ gaps, gap.size ≠ heap.stats.total - heap.stats.used := by
  have harena : Arena.make? 0 31 = some ⟨0, 24, 7, 0, [⟨0, 24⟩]⟩ := rfl
  refine ⟨⟨⟨0, 24, 7, 0, [⟨0, 24⟩]⟩, .empty⟩, rfl, .start (Arena.lends_make? harena), by decide,
    fun gaps hgaps => ?_⟩
  have hstrung : Strung 31 0 [] := Nat.zero_le 31
  have hone : gaps = {⟨0, 31⟩} := by
    ext gap
    rw [hgaps, ← hstrung.mem_gapExtents_iff, Finset.mem_singleton]
    exact List.mem_singleton
  rw [hone, Finset.sum_singleton]
  decide

end TrackedHeap

end PocketKernel
