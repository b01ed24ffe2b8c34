import Mathlib.Data.Nat.Notation
import PocketKernel.Proofs.Process.Table

/-!
# Selecting a slot and handing the processor over

The slots take turns: after a slot was picked, the search starts at the one behind it and comes to
the picked one last. The turn of a slot is the number of slots that the search looks at before. A
slot is selected because its process is ready and no process whose turn is earlier is; if none is
ready, because its process is running; and if there is none either, because it is not stopped.

## Main definitions

* `Scheduler.turn`: how many slots come before one in the search.
* `Scheduler.HandsOver`: what it means that a slot gets the processor.

## Main results

* `Scheduler.of_firstIn_eq_some`: the search finds the slot whose turn is earliest.
* `Scheduler.selects_of_select`: why a slot is selected.
* `Scheduler.schedule_of_select`: what scheduling does with the selected slot.
-/

namespace PocketKernel

namespace Scheduler

variable {s t : Scheduler} {slot other next last : Slot} {test : ProcessState → Bool}

/-! ### Turns -/

/-- How many slots come before a slot in the search that starts behind `last`. -/
def turn (last slot : Slot) : ℕ := (slot.val + 15 - last.val) % 16

theorem turn_lt (last slot : Slot) : turn last slot < 16 := Nat.mod_lt _ (by decide)

theorem turn_self (slot : Slot) : turn slot slot = 15 := by
  rw [turn]
  omega

theorem eq_of_turn_eq (h : turn last slot = turn last other) : slot = other := by
  rw [turn, turn] at h
  exact Fin.ext (by omega)

/-- Seen from a slot that was picked, the turns of the slots behind it have come closer. -/
theorem turn_of_turn_lt (h : turn last slot < turn last other) :
    turn slot other + turn last slot + 1 = turn last other := by
  rw [turn, turn] at *
  rw [turn]
  omega

/-- A slot that comes before another one, seen from a third one, comes after the third one. -/
theorem turn_lt_of_turn_lt (h : turn last next < turn last other)
    (hslot : turn next slot < turn next other) :
    turn last next < turn last slot ∧ turn last slot < turn last other := by
  rw [turn, turn] at *
  rw [turn]
  omega

/-! ### The search -/

/-- The slot at a position of the search that starts behind `last`. -/
def slotAfter (last : Slot) (position : ℕ) : Slot :=
  ⟨(last.val + (position + 1)) % 16, Nat.mod_lt _ (by decide)⟩

theorem rotation_eq (s : Scheduler) : s.rotation = (List.range 16).map (slotAfter s.last) := rfl

theorem slotAfter_turn (last slot : Slot) : slotAfter last (turn last slot) = slot := by
  rw [Fin.ext_iff, slotAfter, turn]
  show (last.val + ((slot.val + 15 - last.val) % 16 + 1)) % 16 = slot.val
  omega

theorem turn_slotAfter (last : Slot) {position : ℕ} (h : position < 16) :
    turn last (slotAfter last position) = position := by
  rw [turn]
  show ((last.val + (position + 1)) % 16 + 15 - last.val) % 16 = position
  omega

/-- **The search finds the slot whose turn is earliest.** -/
theorem of_firstIn_eq_some (h : s.firstIn test = some slot) :
    test (s.table.process slot).state = true
      ∧ ∀ other, test (s.table.process other).state = true →
        turn s.last slot ≤ turn s.last other := by
  rw [firstIn, rotation_eq, List.find?_map, Option.map_eq_some_iff] at h
  obtain ⟨position, hfind, rfl⟩ := h
  rw [List.find?_range_eq_some] at hfind
  obtain ⟨htest, hmem, hbefore⟩ := hfind
  refine ⟨htest, fun other hother => ?_⟩
  rw [turn_slotAfter s.last (List.mem_range.mp hmem)]
  refine Nat.le_of_not_lt fun hlt => ?_
  have hnot := hbefore (turn s.last other) hlt
  rw [Function.comp_apply, slotAfter_turn, hother] at hnot
  cases hnot

theorem test_of_firstIn_eq_none (h : s.firstIn test = none) (slot : Slot) :
    test (s.table.process slot).state = false := by
  rw [firstIn, List.find?_eq_none] at h
  refine Bool.eq_false_iff.mpr (h slot ?_)
  rw [rotation_eq, List.mem_map]
  exact ⟨turn s.last slot, List.mem_range.mpr (turn_lt _ _), slotAfter_turn _ _⟩

/-! ### The selected slot -/

/-- Why a slot is selected. -/
inductive Selects (s : Scheduler) (next : Slot) : Prop where
  /-- Its process is ready, and it is the first such slot. -/
  | ready (hready : (s.table.process next).state = .ready)
      (hfirst : ∀ other, (s.table.process other).state = .ready →
        turn s.last next ≤ turn s.last other)
  /-- No process is ready, and its process is running. -/
  | running (hnone : ∀ other, (s.table.process other).state ≠ .ready)
      (hcurrent : s.current = some next) (hrunning : (s.table.process next).state = .running)
  /-- Nobody could run, and it is the first slot with a process. -/
  | waiting (hnone : ∀ other, (s.table.process other).state ≠ .ready)
      (hidle : ∀ slot, s.current = some slot → (s.table.process slot).state ≠ .running)
      (hlive : (s.table.process next).state ≠ .stopped)
      (hfirst : ∀ other, (s.table.process other).state ≠ .stopped →
        turn s.last next ≤ turn s.last other)

/-- **A slot is selected for a reason.** -/
theorem selects_of_select (h : s.select = some next) : s.Selects next := by
  rw [select] at h
  cases hready : s.firstIn (· = .ready) with
  | some slot =>
    rw [hready] at h
    cases h
    obtain ⟨htest, hfirst⟩ := of_firstIn_eq_some hready
    exact .ready (of_decide_eq_true htest) fun other hother => hfirst other (decide_eq_true hother)
  | none =>
    have hnone (other : Slot) : (s.table.process other).state ≠ .ready :=
      of_decide_eq_false (test_of_firstIn_eq_none hready other)
    rw [hready] at h
    cases hrunning : s.current.filter fun slot => (s.table.process slot).state = .running with
    | some slot =>
      rw [hrunning] at h
      cases h
      obtain ⟨hcurrent, hstate⟩ := Option.filter_eq_some_iff.mp hrunning
      exact .running hnone hcurrent (of_decide_eq_true hstate)
    | none =>
      rw [hrunning] at h
      have hidle (slot : Slot) (hcurrent : s.current = some slot) :
          (s.table.process slot).state ≠ .running := by
        rw [Option.filter_eq_none_iff] at hrunning
        exact fun hstate => hrunning slot hcurrent (decide_eq_true hstate)
      have hwaiting : s.firstIn (· ≠ .stopped) = some next := h
      obtain ⟨htest, hfirst⟩ := of_firstIn_eq_some hwaiting
      exact .waiting hnone hidle (of_decide_eq_true htest) fun other hother =>
        hfirst other (decide_eq_true hother)

theorem Selects.ne_stopped (h : s.Selects next) : (s.table.process next).state ≠ .stopped := by
  cases h with
  | ready hready hfirst =>
    rw [hready]
    decide
  | running hnone hcurrent hrunning =>
    rw [hrunning]
    decide
  | waiting hnone hidle hlive hfirst => exact hlive

/-- While a process is ready, a ready one is selected whose turn is not later. -/
theorem Selects.of_ready (h : s.Selects next) (hslot : (s.table.process slot).state = .ready) :
    (s.table.process next).state = .ready ∧ turn s.last next ≤ turn s.last slot := by
  cases h with
  | ready hready hfirst => exact ⟨hready, hfirst slot hslot⟩
  | running hnone hcurrent hrunning => exact absurd hslot (hnone slot)
  | waiting hnone hidle hlive hfirst => exact absurd hslot (hnone slot)

/-- Nothing is selected only if there are no processes. -/
theorem stopped_of_select_eq_none (h : s.select = none) (slot : Slot) :
    (s.table.process slot).state = .stopped := by
  simp only [select, Option.orElse_eq_orElse, Option.orElse_eq_or, Option.or_eq_none_iff] at h
  have hstopped := test_of_firstIn_eq_none h.2.2 slot
  exact Decidable.of_not_not (of_decide_eq_false hstopped)

/-! ### Handing over -/

/-- A slot gets the processor: its process runs if it was ready, and the one that ran before is
ready again. -/
structure HandsOver (s : Scheduler) (next : Slot) (t : Scheduler) : Prop where
  current : t.current = some next
  last : t.last = next
  nextPid : t.nextPid = s.nextPid
  process : ∀ slot, t.table.process slot =
    if slot = next then start (s.table.process slot)
    else if s.current = some slot then preempt (s.table.process slot)
    else s.table.process slot

/-- The switch by which a slot gets the processor; none if it has it already. -/
def planTo (s : Scheduler) (next : Slot) : Option SwitchPlan :=
  if s.current = some next then none else some ⟨s.savePlace, next⟩

theorem schedule_of_select_eq_none (h : s.select = none) : s.schedule = (none, s) := by
  rw [schedule, h]

/-- The slot that has the processor keeps it. -/
theorem schedule_of_current (h : s.select = some next) (hcurrent : s.current = some next) :
    s.schedule = (none, { s with last := next }.update next start) := by
  rw [schedule, h]
  exact if_pos hcurrent

/-- Another slot gets the processor. -/
theorem schedule_of_ne_current (h : s.select = some next) (hcurrent : s.current ≠ some next) :
    s.schedule = (some ⟨s.savePlace, next⟩,
      { ({ s with last := next }.changeCurrent preempt).update next start with
        current := some next }) := by
  rw [schedule, h]
  exact if_neg hcurrent

/-- **Scheduling hands over to the selected slot.** -/
theorem schedule_of_select (h : s.select = some next) :
    ∃ t, s.schedule = (s.planTo next, t) ∧ s.HandsOver next t := by
  rw [planTo]
  by_cases hcurrent : s.current = some next
  · rw [schedule_of_current h hcurrent, if_pos hcurrent]
    refine ⟨_, rfl, hcurrent, rfl, rfl, fun slot => ?_⟩
    rw [process_update]
    by_cases hslot : slot = next
    · rw [if_pos hslot, if_pos hslot, hslot]
    · rw [if_neg hslot, if_neg hslot, if_neg]
      rw [hcurrent]
      exact fun h => hslot (Option.some.inj h).symm
  · rw [schedule_of_ne_current h hcurrent, if_neg hcurrent]
    refine ⟨_, rfl, rfl, last_changeCurrent _ preempt, nextPid_changeCurrent _ preempt,
      fun slot => ?_⟩
    show (update _ next start).table.process slot = _
    rw [process_update, process_changeCurrent, process_changeCurrent, if_neg hcurrent]
    by_cases hslot : slot = next
    · rw [if_pos hslot, if_pos hslot, hslot]
    · rw [if_neg hslot, if_neg hslot]

end Scheduler

end PocketKernel
