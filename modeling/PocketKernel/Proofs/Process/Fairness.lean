import Mathlib.Data.List.Perm.Subperm
import PocketKernel.Proofs.Process.Coherent

/-!
# Nobody waits longer than one round

A slot whose process is ready is selected in the course of one round. The measure is its turn: every
pass that selects another slot selects one whose turn is earlier, and seen from there the turn of the
waiting slot has come closer. So the slots that are selected while it waits come in the order of
their turns, none of them twice, and there are at most fifteen of them.

The waiting process is not ended or put to sleep meanwhile, and what is running is not made a
process; everything else may happen to the other ones.

## Main definitions

* `Scheduler.Action.selected?`, `Scheduler.selections`: the slots that passes select.
* `Scheduler.Spares`: calls that leave a waiting slot to wait.
* `Scheduler.runnable`: the slots whose processes could run.

## Main results

* `Scheduler.Coherent.waits`: what is selected while a slot waits.
* `Scheduler.Coherent.served`: the slot is selected, and its process runs.
* `Scheduler.Coherent.selections_perm`: one round of scheduling serves everyone once.
* `Scheduler.no_starvation`: all of it, after any calls.
-/

namespace PocketKernel

namespace Scheduler

variable {s t : Scheduler} {slot next waiting : Slot} {action : Action} {actions : List Action}

/-- The slot that a call selects: the one that has the processor after a pass. -/
def Action.selected? (s : Scheduler) (action : Action) : Option Slot :=
  if action.dispatches s then (action.apply s).current else none

/-- The slots that several calls select, in their order. -/
def selections : Scheduler → List Action → List Slot
  | _, [] => []
  | s, action :: actions => (action.selected? s).toList ++ (action.apply s).selections actions

/-- The call leaves a waiting slot to wait: what is running is not adopted, and the process that is
ended or put to sleep is another one. -/
def Action.Spares (waiting : Slot) (s : Scheduler) : Action → Prop
  | adoptCurrent => False
  | sleepCurrent _ | exitCurrent => s.current ≠ some waiting
  | kill pid => s.table.slotOf? pid ≠ some waiting
  | create .. | yieldCurrent | schedule | advanceSleep _ | tick _ | takeParkedStack => True

/-- Several calls leave a waiting slot to wait. -/
def Spares (waiting : Slot) : Scheduler → List Action → Prop
  | _, [] => True
  | s, action :: actions => action.Spares waiting s ∧ Spares waiting (action.apply s) actions

/-! ### One call -/

theorem preempt_of_ready {process : Process} (h : process.state = .ready) :
    preempt process = process := by
  rw [preempt, if_neg]
  rw [h]
  exact ProcessState.noConfusion

theorem advance_of_ready {process : Process} (ticks : ℕ) (h : process.state = .ready) :
    advance ticks process = process := by
  rw [advance, if_neg]
  rw [h]
  exact ProcessState.noConfusion

theorem start_of_ready {process : Process} (h : process.state = .ready) :
    start process = { process with state := .running } :=
  if_pos h

/-- A call that ends or puts to sleep another process does not prepare the waiting one for it. -/
theorem Action.Spares.process_prepared (h : action.Spares waiting s)
    (hdispatches : action.dispatches s = true)
    (hready : (s.table.process waiting).state = .ready) :
    (action.prepared s).table.process waiting = s.table.process waiting := by
  cases action with
  | create | adoptCurrent | schedule | advanceSleep | takeParkedStack => rfl
  | tick ticks =>
    exact (process_advanceSleep ..).trans (advance_of_ready ticks hready)
  | yieldCurrent =>
    refine (process_changeCurrent ..).trans ?_
    split
    · exact preempt_of_ready hready
    · rfl
  | sleepCurrent ticks => exact (process_changeCurrent ..).trans (if_neg h)
  | exitCurrent => exact (process_ended ..).trans (if_neg h)
  | kill pid =>
    refine (process_ended ..).trans (if_neg fun hcurrent => ?_)
    rw [dispatches, hcurrent, Option.any_some, Bool.and_eq_true, decide_eq_true_eq] at hdispatches
    exact h hdispatches.1

/-- A call without a pass does nothing to the waiting slot. -/
theorem Action.Plain.process_eq (h : action.Plain s t) (hspares : action.Spares waiting s)
    (hready : (s.table.process waiting).state = .ready) :
    t.table.process waiting = s.table.process waiting ∧ t.last = s.last := by
  cases h with
  | kept | taken => exact ⟨rfl, rfl⟩
  | @created entry stackSize memory slot hgrants hfree =>
    refine ⟨(process_seat ..).trans (if_neg ?_), rfl⟩
    rintro rfl
    have hstopped := ProcessTable.isFree_of_freeSlot? hfree
    rw [Process.isFree, hready] at hstopped
    simp at hstopped
  | adopted hnone hfree => exact hspares.elim
  | @killed pid slot hslot hcurrent =>
    refine ⟨process_update_of_ne ?_ _, rfl⟩
    rintro rfl
    exact hspares hslot
  | @advanced ticks =>
    exact ⟨(process_advanceSleep ..).trans (advance_of_ready ticks hready), rfl⟩

/-- What a call does while a slot waits: it selects nothing and leaves the slot as it is, or it
selects the slot, or it selects one whose turn is earlier. -/
theorem Coherent.spares (hs : s.Coherent) (hspares : action.Spares waiting s)
    (hready : (s.table.process waiting).state = .ready) :
    (action.selected? s = none ∧ (action.apply s).last = s.last
        ∧ (action.apply s).table.process waiting = s.table.process waiting)
      ∨ (action.selected? s = some waiting ∧ (action.apply s).current = some waiting
        ∧ (action.apply s).table.process waiting
          = { s.table.process waiting with state := .running })
      ∨ ∃ next, action.selected? s = some next ∧ (action.apply s).last = next
        ∧ turn s.last next < turn s.last waiting
        ∧ (action.apply s).table.process waiting = s.table.process waiting := by
  rw [Action.selected?]
  cases hdispatches : action.dispatches s with
  | false =>
    obtain ⟨hprocess, hlast⟩ := (Action.plain hdispatches).2.process_eq hspares hready
    exact .inl ⟨rfl, hlast, hprocess⟩
  | true =>
    have hprepared := hspares.process_prepared hdispatches hready
    have hpass := Action.passes hdispatches hs.live
    rw [if_pos rfl, Action.apply]
    generalize action.perform s = outcome at hpass
    have hstate : ((action.prepared s).table.process waiting).state = .ready := by
      rw [hprepared, hready]
    refine .inr ?_
    cases hpass with
    | idle hstopped =>
      rw [hstopped waiting] at hstate
      cases hstate
    | @picked next t hselects hhands =>
      obtain ⟨-, hturn⟩ := hselects.of_ready hstate
      rw [Action.last_prepared] at hturn
      by_cases hnext : next = waiting
      · subst hnext
        refine .inl ⟨hhands.current, hhands.current, ?_⟩
        show t.table.process next = _
        rw [hhands.process, if_pos rfl, start_of_ready hstate, hprepared]
      · refine .inr ⟨next, hhands.current, hhands.last, ?_, ?_⟩
        · exact Nat.lt_of_le_of_ne hturn fun h => hnext (eq_of_turn_eq h)
        · show t.table.process waiting = _
          rw [hhands.process, if_neg (Ne.symm hnext), preempt_of_ready hstate, ite_self, hprepared]

/-! ### Runs in which a slot waits -/

theorem selections_cons_of_none (h : action.selected? s = none) (actions : List Action) :
    s.selections (action :: actions) = (action.apply s).selections actions := by
  rw [selections, h]
  rfl

theorem selections_cons_of_some (h : action.selected? s = some slot) (actions : List Action) :
    s.selections (action :: actions) = slot :: (action.apply s).selections actions := by
  rw [selections, h]
  rfl

theorem Spares.of_append {later : List Action} (h : Spares waiting s (actions ++ later)) :
    Spares waiting s actions := by
  induction actions generalizing s with
  | nil => trivial
  | cons action actions ih => exact ⟨h.1, ih h.2⟩

/-- **While a slot waits, the others are selected in the order of their turns.** All these turns are
earlier than its own, so there are no more passes than slots before it; and its process stays as it
is. -/
theorem Coherent.waits (hs : s.Coherent) (hspares : Spares waiting s actions)
    (hready : (s.table.process waiting).state = .ready) (hnot : waiting ∉ s.selections actions) :
    (s.selections actions).Pairwise (fun slot other => turn s.last slot < turn s.last other)
      ∧ (∀ slot ∈ s.selections actions, turn s.last slot < turn s.last waiting)
      ∧ (s.selections actions).length ≤ turn s.last waiting
      ∧ (s.run actions).table.process waiting = s.table.process waiting := by
  induction actions generalizing s with
  | nil => exact ⟨.nil, (fun _ h => by cases h), Nat.zero_le _, rfl⟩
  | cons action actions ih =>
    obtain ⟨hfirst, hrest⟩ := hspares
    have hcoherent := (hs.apply action).1
    rcases hs.spares hfirst hready with ⟨hnone, hlast, hprocess⟩ | ⟨hself, -⟩
      | ⟨next, hnext, hlast, hturn, hprocess⟩
    · rw [selections_cons_of_none hnone] at hnot ⊢
      obtain ⟨hsorted, hbefore, hlength, hsame⟩ := ih hcoherent hrest (hprocess ▸ hready) hnot
      rw [hlast] at hsorted hbefore hlength
      exact ⟨hsorted, hbefore, hlength, hsame.trans hprocess⟩
    · rw [selections_cons_of_some hself] at hnot
      exact absurd (List.mem_cons_self ..) hnot
    · rw [selections_cons_of_some hnext] at hnot ⊢
      obtain ⟨hsorted, hbefore, hlength, hsame⟩ := ih hcoherent hrest (hprocess ▸ hready)
        fun h => hnot (List.mem_cons_of_mem _ h)
      rw [hlast] at hsorted hbefore hlength
      -- seen from `s.last`, what comes before `waiting` behind `next` comes after `next`
      have hbetween (slot : Slot) (hslot : slot ∈ (action.apply s).selections actions) :
          turn s.last next < turn s.last slot ∧ turn s.last slot < turn s.last waiting :=
        turn_lt_of_turn_lt hturn (hbefore slot hslot)
      have hcloser := turn_of_turn_lt hturn
      refine ⟨.cons (fun slot hslot => (hbetween slot hslot).1) ?_, ?_, ?_, hsame.trans hprocess⟩
      · refine hsorted.imp_of_mem fun {slot other} hslot hother hlt => ?_
        have hslot' := turn_of_turn_lt (hbetween slot hslot).1
        have hother' := turn_of_turn_lt (hbetween other hother).1
        omega
      · intro slot hslot
        rcases List.mem_cons.mp hslot with rfl | hslot
        · exact hturn
        · exact (hbetween slot hslot).2
      · rw [List.length_cons]
        omega

/-- **A slot that is selected is served**: when it is selected for the first time, its process
runs. -/
theorem Coherent.served (hs : s.Coherent) (hspares : Spares waiting s actions)
    (hready : (s.table.process waiting).state = .ready) (hmem : waiting ∈ s.selections actions) :
    ∃ earlier action later, actions = earlier ++ action :: later
      ∧ waiting ∉ s.selections earlier
      ∧ action.selected? (s.run earlier) = some waiting
      ∧ (s.run (earlier ++ [action])).current = some waiting
      ∧ (s.run (earlier ++ [action])).table.process waiting
        = { s.table.process waiting with state := .running } := by
  induction actions generalizing s with
  | nil => cases hmem
  | cons action actions ih =>
    obtain ⟨hfirst, hrest⟩ := hspares
    have hcoherent := (hs.apply action).1
    rcases hs.spares hfirst hready with ⟨hnone, -, hprocess⟩ | ⟨hself, hcurrent, hprocess⟩
      | ⟨next, hnext, -, hturn, hprocess⟩
    · rw [selections_cons_of_none hnone] at hmem
      obtain ⟨earlier, last, later, rfl, hnot, hselected, hcurrent, hsame⟩ :=
        ih hcoherent hrest (hprocess ▸ hready) hmem
      refine ⟨action :: earlier, last, later, rfl, ?_, hselected, hcurrent, ?_⟩
      · rwa [selections_cons_of_none hnone]
      · rw [← hprocess]
        exact hsame
    · exact ⟨[], action, actions, rfl, List.not_mem_nil, hself, hcurrent, hprocess⟩
    · have hne : waiting ≠ next := by
        rintro rfl
        exact absurd hturn (Nat.lt_irrefl _)
      rw [selections_cons_of_some hnext] at hmem
      obtain ⟨earlier, last, later, rfl, hnot, hselected, hcurrent, hsame⟩ :=
        ih hcoherent hrest (hprocess ▸ hready) ((List.mem_cons.mp hmem).resolve_left hne)
      refine ⟨action :: earlier, last, later, rfl, ?_, hselected, hcurrent, ?_⟩
      · rw [selections_cons_of_some hnext, List.mem_cons, not_or]
        exact ⟨hne, hnot⟩
      · rw [← hprocess]
        exact hsame

/-! ### One round of scheduling -/

instance : DecidablePred Process.Runnable := fun _ => inferInstanceAs (Decidable (_ ∨ _))

/-- The slots whose processes could run. -/
def runnable (s : Scheduler) : List Slot :=
  (List.finRange 16).filter fun slot => (s.table.process slot).Runnable

theorem mem_runnable : slot ∈ s.runnable ↔ (s.table.process slot).Runnable := by
  rw [runnable, List.mem_filter, decide_eq_true_eq]
  exact and_iff_right (List.mem_finRange slot)

theorem nodup_runnable (s : Scheduler) : s.runnable.Nodup := (List.nodup_finRange 16).filter _

/-- While a process could run, scheduling selects such a one, and the same ones could run after
it. -/
theorem Coherent.schedule (hs : s.Coherent) (hslot : (s.table.process slot).Runnable) :
    ∃ next, Action.schedule.selected? s = some next ∧ (s.table.process next).Runnable
      ∧ s.HandsOver next (Action.schedule.apply s)
      ∧ (Action.schedule.apply s).runnable = s.runnable := by
  have hpass : s.Passes (Action.schedule.perform s) := passes_schedule hs.live
  rw [Action.selected?, Action.apply]
  generalize Action.schedule.perform s = outcome at hpass
  cases hpass with
  | idle hstopped =>
    rcases hslot with h | h <;> exact ProcessState.noConfusion (h.symm.trans (hstopped slot))
  | @picked next t hselects hhands =>
    refine ⟨next, hhands.current, hselects.runnable hs.toTidy hslot, hhands, ?_⟩
    exact List.filter_congr fun slot _ => decide_eq_decide.mpr (hhands.runnable_iff slot)

/-- Every scheduling selects a slot whose process could run. -/
theorem Coherent.selections_schedule (hs : s.Coherent) (hslot : (s.table.process slot).Runnable)
    (count : ℕ) :
    (s.selections (List.replicate count .schedule)).length = count
      ∧ s.selections (List.replicate count .schedule) ⊆ s.runnable := by
  induction count generalizing s with
  | zero => exact ⟨rfl, List.nil_subset _⟩
  | succ count ih =>
    obtain ⟨next, hselected, hnext, hhands, hrunnable⟩ := hs.schedule hslot
    obtain ⟨hlength, hsubset⟩ := ih (hs.apply .schedule).1
      ((hhands.runnable_iff slot).mpr hslot)
    rw [List.replicate_succ, selections_cons_of_some hselected]
    rw [hrunnable] at hsubset
    exact ⟨congrArg (· + 1) hlength, List.cons_subset.mpr ⟨mem_runnable.mpr hnext, hsubset⟩⟩

theorem spares_schedule (waiting : Slot) (s : Scheduler) (count : ℕ) :
    Spares waiting s (List.replicate count .schedule) := by
  induction count generalizing s with
  | zero => trivial
  | succ count ih => exact ⟨trivial, ih _⟩

/-- While a slot waits, scheduling selects neither it nor the slot that was picked last. -/
theorem Coherent.length_lt_of_waits (hs : s.Coherent)
    (hready : (s.table.process waiting).state = .ready) {count : ℕ}
    (hnot : waiting ∉ s.selections (List.replicate count .schedule)) :
    (waiting :: s.selections (List.replicate count .schedule)).Nodup
      ∧ s.last ∉ s.selections (List.replicate count .schedule)
      ∧ waiting :: s.selections (List.replicate count .schedule) ⊆ s.runnable := by
  obtain ⟨hsorted, hbefore, -, -⟩ := hs.waits (spares_schedule waiting s count) hready hnot
  refine ⟨List.nodup_cons.mpr ⟨hnot, hsorted.imp fun h heq => ?_⟩, fun hlast => ?_, ?_⟩
  · rw [heq] at h
    exact absurd h (Nat.lt_irrefl _)
  · have hlt := hbefore s.last hlast
    have hle := turn_lt s.last waiting
    rw [turn_self] at hlt
    omega
  · exact List.cons_subset.mpr ⟨mem_runnable.mpr (.inl hready),
      (hs.selections_schedule (.inl hready) count).2⟩

/-- In one round of scheduling, every slot whose process could run is selected. -/
theorem Coherent.mem_selections_schedule (hs : s.Coherent)
    (hslot : (s.table.process slot).Runnable) :
    slot ∈ s.selections (List.replicate s.runnable.length .schedule) := by
  by_contra hnot
  rcases hslot with hready | hrunning
  · obtain ⟨hnodup, -, hsubset⟩ := hs.length_lt_of_waits hready hnot
    have hle := (List.subperm_of_subset hnodup hsubset).length_le
    rw [List.length_cons, (hs.selections_schedule (.inl hready) _).1] at hle
    omega
  · -- the running process is ready again after the first call, and waits for the rest of the round
    obtain ⟨next, hselected, hnext, hhands, hrunnable⟩ := hs.schedule (.inr hrunning)
    have hcoherent := (hs.apply .schedule).1
    have hcurrent := hs.current slot hrunning
    obtain ⟨rest, hrest⟩ : ∃ rest, s.runnable.length = rest + 1 :=
      Nat.exists_eq_succ_of_ne_zero fun h => by
        have hmem := mem_runnable.mpr (.inr hrunning)
        rw [List.length_eq_zero_iff.mp h] at hmem
        cases hmem
    rw [hrest, List.replicate_succ, selections_cons_of_some hselected, List.mem_cons,
      not_or] at hnot
    obtain ⟨hne, hnot⟩ := hnot
    have hready : ((Action.schedule.apply s).table.process slot).state = .ready := by
      rw [hhands.process, if_neg hne, if_pos hcurrent, preempt, if_pos hrunning]
    obtain ⟨hnodup, hlast, hsubset⟩ := hcoherent.length_lt_of_waits hready hnot
    rw [hrunnable] at hsubset
    rw [hhands.last] at hlast
    have hle := (List.subperm_of_subset
      (List.nodup_cons.mpr ⟨fun h => (List.mem_cons.mp h).elim (Ne.symm hne) hlast, hnodup⟩)
      (List.cons_subset.mpr ⟨mem_runnable.mpr hnext, hsubset⟩)).length_le
    rw [List.length_cons, List.length_cons,
      (hcoherent.selections_schedule (.inl hready) _).1] at hle
    omega

/-- **One round of scheduling serves everyone once**: as many calls as there are processes that could
run give the processor to each of them exactly once. -/
theorem Coherent.selections_perm (hs : s.Coherent) :
    (s.selections (List.replicate s.runnable.length .schedule)).Perm s.runnable := by
  have hall : s.runnable ⊆ s.selections (List.replicate s.runnable.length .schedule) :=
    fun slot hslot => hs.mem_selections_schedule (mem_runnable.mp hslot)
  have hlength : (s.selections (List.replicate s.runnable.length .schedule)).length
      ≤ s.runnable.length := by
    cases hrunnable : s.runnable with
    | nil => exact Nat.le_refl 0
    | cons slot rest =>
      have hslot : slot ∈ s.runnable := hrunnable ▸ List.mem_cons_self ..
      exact Nat.le_of_eq (hs.selections_schedule (mem_runnable.mp hslot) _).1
  exact ((List.subperm_of_subset s.nodup_runnable hall).perm_of_length_le hlength).symm

/-- **Round robin does not starve.** Take any scheduler that calls lead to.

A slot whose process is ready waits while the calls spare it. As long as it is not selected, no slot
is selected twice, there are fewer than sixteen passes, and its process stays as it is. Once it is
selected, there is a call that selects it first, with fewer than sixteen passes before it and none of
their slots twice; after this call the slot has the processor and its process runs.

And as many calls to schedule as there are processes that could run give the processor to each of
them exactly once. -/
theorem no_starvation (history : List Action) :
    let s := after history
    (∀ waiting, (s.table.process waiting).state = .ready →
      ∀ actions, Spares waiting s actions →
        (waiting ∉ s.selections actions →
          (s.selections actions).Nodup ∧ (s.selections actions).length < 16
            ∧ (s.run actions).table.process waiting = s.table.process waiting)
        ∧ (waiting ∈ s.selections actions →
          ∃ earlier action later, actions = earlier ++ action :: later
            ∧ waiting ∉ s.selections earlier
            ∧ (s.selections earlier).Nodup ∧ (s.selections earlier).length < 16
            ∧ action.selected? (s.run earlier) = some waiting
            ∧ (s.run (earlier ++ [action])).current = some waiting
            ∧ (s.run (earlier ++ [action])).table.process waiting
              = { s.table.process waiting with state := .running }))
      ∧ (s.selections (List.replicate s.runnable.length .schedule)).Perm s.runnable := by
  intro s
  have hs : s.Coherent := coherent_after history
  have hround (waiting : Slot) (hready : (s.table.process waiting).state = .ready)
      (actions : List Action) (hspares : Spares waiting s actions)
      (hnot : waiting ∉ s.selections actions) :
      (s.selections actions).Nodup ∧ (s.selections actions).length < 16
        ∧ (s.run actions).table.process waiting = s.table.process waiting := by
    obtain ⟨hsorted, -, hlength, hsame⟩ := hs.waits hspares hready hnot
    refine ⟨hsorted.imp fun h heq => ?_, Nat.lt_of_le_of_lt hlength (turn_lt _ _), hsame⟩
    rw [heq] at h
    exact absurd h (Nat.lt_irrefl _)
  refine ⟨fun waiting hready actions hspares => ⟨hround waiting hready actions hspares, ?_⟩,
    hs.selections_perm⟩
  intro hmem
  obtain ⟨earlier, action, later, rfl, hnot, hselected, hcurrent, hprocess⟩ :=
    hs.served hspares hready hmem
  obtain ⟨hnodup, hlength, -⟩ := hround waiting hready earlier hspares.of_append hnot
  exact ⟨earlier, action, later, rfl, hnot, hnodup, hlength, hselected, hcurrent, hprocess⟩

/-- Three processes come and wait for the processor. -/
def threeWorkers : List Action := [.create 1 0 .ample, .create 2 0 .ample, .create 3 0 .ample]

/-- The first process runs and yields, a fourth one is created, and the second one goes to sleep. -/
def thirdWaits : List Action := [.schedule, .yieldCurrent, .create 4 0 .ample, .sleepCurrent 9]

theorem spares_thirdWaits : Spares 2 (after threeWorkers) thirdWaits := by
  refine ⟨trivial, trivial, trivial, ?_, trivial⟩
  show _ ≠ _
  decide

/-- The third process waits for two others, and then it is its turn. -/
theorem no_starvation_third :
    ((after threeWorkers).table.process 2).state = .ready
      ∧ Spares 2 (after threeWorkers) thirdWaits
      ∧ 2 ∈ (after threeWorkers).selections thirdWaits
      ∧ ∃ earlier action later, thirdWaits = earlier ++ action :: later
        ∧ 2 ∉ (after threeWorkers).selections earlier
        ∧ ((after threeWorkers).selections earlier).Nodup
        ∧ ((after threeWorkers).selections earlier).length < 16
        ∧ action.selected? ((after threeWorkers).run earlier) = some 2
        ∧ ((after threeWorkers).run (earlier ++ [action])).current = some 2
        ∧ ((after threeWorkers).run (earlier ++ [action])).table.process 2
          = { (after threeWorkers).table.process 2 with state := .running } :=
  have hready : ((after threeWorkers).table.process 2).state = .ready := by decide
  have hmem : 2 ∈ (after threeWorkers).selections thirdWaits := by decide
  ⟨hready, spares_thirdWaits, hmem,
    ((no_starvation threeWorkers).1 2 hready thirdWaits spares_thirdWaits).2 hmem⟩

end Scheduler

end PocketKernel
