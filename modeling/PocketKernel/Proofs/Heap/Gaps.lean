import PocketKernel.Proofs.Heap.Allocator

/-!
# The gaps between blocks

The figures about free memory come from one pass over the recorded blocks, from the bottom to the
top, that measures what lies between one block and the next. Here a gap is what it is without any
order of looking: a stretch of memory in which nothing is taken and which cannot be made longer. If
the blocks are in the order of their addresses and do not overlap, the pass finds all the gaps and
nothing else.

## Main definitions

* `IsGap`: a gap in a stretch of memory.
* `BlockRecord.gapExtents`: the gaps that the pass finds.

## Main results

* `Strung.mem_gapExtents_iff`: they are the gaps.
* `Strung.sum_gapExtents`: the gaps and the blocks together are the whole memory.
-/

namespace PocketKernel

open Extent

variable {bottom top cursor : ℕ} {taken rest : List Extent} {block gap : Extent}

/-- The address is one of the memory, and in no stretch that is taken. -/
def FreeAt (bottom top : ℕ) (taken : List Extent) (place : ℕ) : Prop :=
  bottom ≤ place ∧ place < top ∧ ¬ Covers taken place

/-- A stretch of free addresses that cannot be made longer. -/
structure IsGap (free : ℕ → Prop) (gap : Extent) : Prop where
  pos : 0 < gap.size
  all_free : ∀ place, gap.Has place → free place
  maximal : ∀ longer : Extent, (∀ place, gap.Has place → longer.Has place) →
    (∀ place, longer.Has place → free place) → longer = gap

/-- The gaps between an address and the next blocks, the last one up to `top`. -/
def BlockRecord.gapExtents (top : ℕ) : ℕ → List Extent → List Extent
  | cursor, [] => if cursor < top then [⟨cursor, top - cursor⟩] else []
  | cursor, block :: blocks =>
    let rest := gapExtents top (max cursor block.stop) blocks
    if cursor < block.start then ⟨cursor, block.start - cursor⟩ :: rest else rest

open BlockRecord

/-! ### Gaps by their ends -/

/-- A gap is known by the two addresses at its ends, which are not free. -/
theorem isGap_iff {free : ℕ → Prop} : IsGap free gap ↔ 0 < gap.size
    ∧ (∀ place, gap.Has place → free place) ∧ ¬ free gap.stop
    ∧ ∀ place, place + 1 = gap.start → ¬ free place := by
  constructor
  · intro h
    refine ⟨h.pos, h.all_free, fun hstop => ?_, fun place hplace hfree => ?_⟩
    · have heq := h.maximal ⟨gap.start, gap.size + 1⟩
        (fun place hin => by simp only [Has, stop] at *; omega) fun place hin => by
          by_cases hlast : place = gap.stop
          · rw [hlast]
            exact hstop
          · exact h.all_free place (by simp only [Has, stop] at *; omega)
      exact Nat.succ_ne_self _ (congrArg Extent.size heq)
    · have heq := h.maximal ⟨place, gap.size + 1⟩
        (fun other hin => by simp only [Has, stop] at *; omega) fun other hin => by
          by_cases hfirst : other = place
          · rw [hfirst]
            exact hfree
          · exact h.all_free other (by simp only [Has, stop] at *; omega)
      exact Nat.succ_ne_self _ (congrArg Extent.size heq)
  · rintro ⟨hpos, hall, hstop, hstart⟩
    refine ⟨hpos, hall, fun longer hcontains hfree => ?_⟩
    have hfirst := hcontains gap.start (by simp only [Has, stop]; omega)
    have hlast := hcontains (gap.stop - 1) (by simp only [Has, stop]; omega)
    have hlow : longer.start = gap.start := by
      by_contra hne
      refine hstart (gap.start - 1) ?_ (hfree _ ?_) <;> simp only [Has, stop] at * <;> omega
    have hhigh : longer.stop = gap.stop := by
      by_contra hne
      refine hstop (hfree _ ?_)
      simp only [Has, stop] at *
      omega
    obtain ⟨start, size⟩ := longer
    obtain ⟨start', size'⟩ := gap
    simp only [stop, Extent.mk.injEq] at *
    omega

section FirstGap

/-! Free addresses from `low` on up to `mid`, which is taken, and later ones only behind it. -/

variable {free later : ℕ → Prop} {low mid : ℕ}

theorem isGap_first (hfree : ∀ place, free place ↔ (low ≤ place ∧ place < mid) ∨ later place)
    (hlater : ∀ place, later place → mid < place) (hlt : low < mid) :
    IsGap free ⟨low, mid - low⟩ := by
  have hstop : Extent.stop ⟨low, mid - low⟩ = mid := Nat.add_sub_of_le (Nat.le_of_lt hlt)
  rw [isGap_iff]
  refine ⟨Nat.sub_pos_of_lt hlt, fun place hin => ?_, fun h => ?_, fun place hplace h => ?_⟩
  · rw [Has, hstop] at hin
    exact (hfree place).mpr (.inl hin)
  · rw [hstop] at h
    rcases (hfree mid).mp h with hin | hbehind
    · exact Nat.lt_irrefl _ hin.2
    · exact Nat.lt_irrefl _ (hlater mid hbehind)
  · change place + 1 = low at hplace
    rcases (hfree place).mp h with hin | hbehind
    · omega
    · have hmid := hlater place hbehind
      omega

theorem IsGap.eq_first (hfree : ∀ place, free place ↔ (low ≤ place ∧ place < mid) ∨ later place)
    (hlater : ∀ place, later place → mid < place) (h : IsGap free gap)
    (hin : low ≤ gap.start ∧ gap.start < mid) : gap = ⟨low, mid - low⟩ := by
  obtain ⟨_, hall, hstop, hstart⟩ := isGap_iff.mp h
  have hle : gap.stop ≤ mid := by
    by_contra hlt
    rcases (hfree mid).mp (hall mid ⟨Nat.le_of_lt hin.2, Nat.lt_of_not_le hlt⟩) with hmid | hbehind
    · exact Nat.lt_irrefl _ hmid.2
    · exact Nat.lt_irrefl _ (hlater mid hbehind)
  have hge : mid ≤ gap.stop := by
    by_contra hlt
    refine hstop ((hfree _).mpr (.inl ?_))
    simp only [stop] at *
    omega
  have hlow : gap.start = low := by
    by_contra hne
    exact hstart (gap.start - 1) (by omega) ((hfree _).mpr (.inl (by omega)))
  obtain ⟨start, size⟩ := gap
  simp only [stop, Extent.mk.injEq] at *
  omega

/-- Behind the taken address only the later ones count. -/
theorem isGap_iff_later (hfree : ∀ place, free place ↔ (low ≤ place ∧ place < mid) ∨ later place)
    (hmid : mid < gap.start) : IsGap free gap ↔ IsGap later gap := by
  have hsame (place : ℕ) (hplace : mid ≤ place) : free place ↔ later place :=
    (hfree place).trans (or_iff_right fun hin => Nat.not_lt_of_le hplace hin.2)
  have hstop : mid ≤ gap.stop := Nat.le_trans (Nat.le_of_lt hmid) (Nat.le_add_right _ _)
  rw [isGap_iff, isGap_iff]
  refine and_congr_right fun _ => and_congr ?_ (and_congr (not_congr (hsame _ hstop)) ?_)
  · exact forall_congr' fun place => imp_congr_right fun hin =>
      hsame place (Nat.le_trans (Nat.le_of_lt hmid) hin.1)
  · exact forall_congr' fun place => imp_congr_right fun hplace =>
      not_congr (hsame place (by omega))

theorem isGap_or_iff (hfree : ∀ place, free place ↔ (low ≤ place ∧ place < mid) ∨ later place)
    (hlater : ∀ place, later place → mid < place) :
    IsGap free gap ↔ (low < mid ∧ gap = ⟨low, mid - low⟩) ∨ IsGap later gap := by
  constructor
  · intro h
    rcases (hfree gap.start).mp (h.all_free _ (has_start h.pos)) with hin | hbehind
    · exact .inl ⟨Nat.lt_of_le_of_lt hin.1 hin.2, h.eq_first hfree hlater hin⟩
    · exact .inr ((isGap_iff_later hfree (hlater _ hbehind)).mp h)
  · rintro (⟨hlt, rfl⟩ | h)
    · exact isGap_first hfree hlater hlt
    · exact (isGap_iff_later hfree (hlater _ (h.all_free _ (has_start h.pos)))).mpr h

end FirstGap

/-! ### The pass finds the gaps -/

theorem gapsFrom_eq (top cursor : ℕ) (blocks : List Extent) :
    gapsFrom top cursor blocks = (gapExtents top cursor blocks).map Extent.size := by
  induction blocks generalizing cursor with
  | nil =>
    rw [gapsFrom, gapExtents]
    split <;> rfl
  | cons block blocks ih =>
    rw [gapsFrom, gapExtents, ih]
    split <;> rfl

/-- Stretches between two addresses that are not empty and stand in the order of their addresses. -/
def Strung (top : ℕ) : ℕ → List Extent → Prop
  | cursor, [] => cursor ≤ top
  | cursor, block :: rest => cursor ≤ block.start ∧ 0 < block.size ∧ Strung top block.stop rest

theorem strung_of_pairwise (hle : bottom ≤ top) (hsorted : taken.Pairwise (·.stop ≤ ·.start))
    (hpos : ∀ block ∈ taken, 0 < block.size)
    (hinside : ∀ block ∈ taken, bottom ≤ block.start ∧ block.stop ≤ top) :
    Strung top bottom taken := by
  induction taken generalizing bottom with
  | nil => exact hle
  | cons block rest ih =>
    obtain ⟨hblock, hrest⟩ := List.pairwise_cons.mp hsorted
    obtain ⟨hfirst, hinside⟩ := List.forall_mem_cons.mp hinside
    obtain ⟨hsize, hpos⟩ := List.forall_mem_cons.mp hpos
    exact ⟨hfirst.1, hsize, ih hfirst.2 hrest hpos fun other hmem =>
      ⟨hblock other hmem, (hinside other hmem).2⟩⟩

theorem Strung.le_of_covers (h : Strung top cursor taken) {place : ℕ}
    (hplace : Covers taken place) : cursor ≤ place := by
  induction taken generalizing cursor with
  | nil => exact absurd hplace (covers_nil place)
  | cons block rest ih =>
    obtain ⟨hstart, _, hrest⟩ := h
    rcases covers_cons.mp hplace with hin | hlater
    · exact Nat.le_trans hstart hin.1
    · have hle := ih hrest hlater
      simp only [stop] at hle
      omega

theorem Strung.le (h : Strung top cursor taken) : cursor ≤ top := by
  induction taken generalizing cursor with
  | nil => exact h
  | cons block rest ih =>
    obtain ⟨hstart, _, hrest⟩ := h
    have hle := ih hrest
    simp only [stop] at hle
    omega

/-- Before the first block all is free, the block is taken, and behind it the others decide. -/
theorem Strung.freeAt_cons (h : Strung top cursor (block :: rest)) (place : ℕ) :
    FreeAt cursor top (block :: rest) place
      ↔ (cursor ≤ place ∧ place < block.start) ∨ FreeAt block.stop top rest place := by
  obtain ⟨hstart, hpos, hrest⟩ := h
  have hle := hrest.le
  have hcovers (hplace : Covers rest place) := hrest.le_of_covers hplace
  simp only [FreeAt, covers_cons, Has, stop] at *
  by_cases hplace : Covers rest place
  · have hbehind := hcovers hplace
    simp only [hplace, not_true_eq_false, or_true, and_false, or_false, false_iff]
    omega
  · simp only [hplace, not_false_eq_true, or_false, and_true]
    omega

/-- What the pass finds from a block on: the stretch before it, if there is one, and the rest. -/
theorem Strung.gapExtents_cons (h : Strung top cursor (block :: rest)) :
    gapExtents top cursor (block :: rest)
      = if cursor < block.start then
          ⟨cursor, block.start - cursor⟩ :: gapExtents top block.stop rest
        else gapExtents top block.stop rest := by
  have hle : cursor ≤ block.stop := Nat.le_trans h.1 (Nat.le_add_right _ _)
  rw [gapExtents, Nat.max_eq_right hle]

/-- **The pass finds the gaps**, and nothing else. -/
theorem Strung.mem_gapExtents_iff (h : Strung top cursor taken) :
    gap ∈ gapExtents top cursor taken ↔ IsGap (FreeAt cursor top taken) gap := by
  induction taken generalizing cursor with
  | nil =>
    have hfree (place : ℕ) :
        FreeAt cursor top [] place ↔ (cursor ≤ place ∧ place < top) ∨ False := by
      simp only [FreeAt, covers_nil, not_false_eq_true, and_true, or_false]
    have hnone : ¬ IsGap (fun _ => False) gap := fun hgap =>
      hgap.all_free gap.start (has_start hgap.pos)
    rw [isGap_or_iff hfree (fun _ h => h.elim), or_iff_left hnone, gapExtents]
    split
    next hlt => simp only [hlt, true_and, List.mem_singleton]
    next hge => simp only [hge, false_and, List.not_mem_nil]
  | cons block rest ih =>
    have hbehind (place : ℕ) (hplace : FreeAt block.stop top rest place) : block.start < place :=
      Nat.lt_of_lt_of_le (Nat.lt_add_of_pos_right h.2.1) hplace.1
    rw [isGap_or_iff h.freeAt_cons hbehind, h.gapExtents_cons, ← ih h.2.2]
    split
    next hlt => simp only [hlt, true_and, List.mem_cons]
    next hge => simp only [hge, false_and, false_or]

/-- **Nothing is lost**: gaps and blocks together are the whole memory. -/
theorem Strung.sum_gapExtents (h : Strung top cursor taken) :
    ((gapExtents top cursor taken).map Extent.size).sum + (taken.map Extent.size).sum
      = top - cursor := by
  induction taken generalizing cursor with
  | nil =>
    rw [gapExtents]
    split
    next => rfl
    next hge =>
      show 0 = top - cursor
      omega
  | cons block rest ih =>
    have hstart := h.1
    have hle := h.2.2.le
    have hsum := ih h.2.2
    rw [h.gapExtents_cons, List.map_cons, List.sum_cons]
    split
    · rw [List.map_cons, List.sum_cons]
      simp only [stop] at *
      omega
    · simp only [stop] at *
      omega

theorem Strung.nodup_gapExtents (h : Strung top cursor taken) :
    (gapExtents top cursor taken).Nodup := by
  induction taken generalizing cursor with
  | nil =>
    rw [gapExtents]
    split
    next => exact List.pairwise_singleton ..
    next => exact List.nodup_nil
  | cons block rest ih =>
    have hnodup := ih h.2.2
    rw [h.gapExtents_cons]
    split
    next hlt =>
      refine List.nodup_cons.mpr ⟨fun hmem => ?_, hnodup⟩
      have hgap := h.2.2.mem_gapExtents_iff.mp hmem
      have hfirst := hgap.all_free cursor (has_start hgap.pos)
      have hstop := hfirst.1
      simp only [stop] at hstop
      omega
    next => exact hnodup

end PocketKernel
