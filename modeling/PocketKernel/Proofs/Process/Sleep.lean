import PocketKernel.Proofs.Process.Fairness
import PocketKernel.Proofs.Process.Numbers

/-!
# Sleep is exact

A process that goes to sleep sleeps for as many ticks as it asked for, no matter in what portions
they pass. Until then it stays asleep, even on the processor, where it is left if nobody else could
run; and from then on it could run. A tick that wakes it wakes it before a slot is selected, so it
takes part in that selection.

What is followed along a run is one process, and the sum of all ticks since it went to sleep. The
process is not ended and not put to sleep anew meanwhile; everything else may happen.

## Main definitions

* `Process.Due`: what a sleeper is like after so many ticks.
* `Scheduler.Action.elapsed`, `Scheduler.elapsed`: how many ticks calls let pass.
* `Scheduler.LetSleep`: calls that neither end a process nor put it to sleep.

## Main results

* `Scheduler.Coherent.due_apply`, `Scheduler.Coherent.due_run`: ticks are counted by every call, and
  along every run.
* `Scheduler.Coherent.takes_part`: who is woken by a tick takes part in its selection.
* `Scheduler.sleeps_exactly`: all of it, after any calls.
-/

namespace PocketKernel

namespace Process

variable {process process' : Process} {total passed : ℕ}

/-- What a process that went to sleep for some ticks is like when so many have passed. -/
structure Due (total passed : ℕ) (process : Process) : Prop where
  asleep : passed < total → process.state = .sleeping ∧ process.wakeTicks = total - passed
  awake : total ≤ passed → process.Runnable ∧ process.wakeTicks = 0

theorem Runnable.ne_sleeping (h : process.Runnable) : process.state ≠ .sleeping := by
  rcases h with h | h <;> exact fun hsleeping => ProcessState.noConfusion (h.symm.trans hsleeping)

theorem Due.ne_stopped (h : process.Due total passed) : process.state ≠ .stopped := by
  rcases Nat.lt_or_ge passed total with hlt | hle
  · rw [(h.asleep hlt).1]
    exact ProcessState.noConfusion
  · rcases (h.awake hle).1 with hstate | hstate <;> rw [hstate] <;> exact ProcessState.noConfusion

/-- A process that goes to sleep has all its ticks before it. -/
theorem due_asleep (process : Process) (hticks : 0 < total) :
    (process.asleep total).Due total 0 :=
  ⟨fun _ => ⟨rfl, rfl⟩, fun h => absurd hticks (Nat.not_lt_of_le h)⟩

/-- A change that leaves sleepers alone and stops nobody. -/
theorem Due.of_kept (h : process.Due total passed)
    (hsleeping : process.state = .sleeping → process' = process)
    (hrunnable : process.Runnable → process'.Runnable)
    (hticks : process'.wakeTicks = process.wakeTicks) : process'.Due total passed := by
  refine ⟨fun hlt => ?_, fun hle => ?_⟩
  · rw [hsleeping (h.asleep hlt).1]
    exact h.asleep hlt
  · exact ⟨hrunnable (h.awake hle).1, hticks.trans (h.awake hle).2⟩

theorem Due.start (h : process.Due total passed) : (Scheduler.start process).Due total passed := by
  refine h.of_kept (fun hsleeping => ?_) Scheduler.runnable_start.mpr ?_
  · rw [Scheduler.start, hsleeping, if_neg ProcessState.noConfusion]
  · rw [Scheduler.start]
    split <;> rfl

theorem Due.preempt (h : process.Due total passed) :
    (Scheduler.preempt process).Due total passed := by
  refine h.of_kept (fun hsleeping => ?_) Scheduler.runnable_preempt.mpr ?_
  · rw [Scheduler.preempt, hsleeping, if_neg ProcessState.noConfusion]
  · rw [Scheduler.preempt]
    split <;> rfl

/-- **Ticks are counted one portion after the other.** A portion that is too long is cut off. -/
theorem Due.advance (h : process.Due total passed) (ticks : ℕ) :
    (Scheduler.advance ticks process).Due total (passed + ticks) := by
  rcases Nat.lt_or_ge passed total with hlt | hle
  · obtain ⟨hstate, hwake⟩ := h.asleep hlt
    rw [Scheduler.advance, if_pos hstate, hwake, Nat.sub_sub]
    refine ⟨fun hlater => ⟨if_neg ?_, rfl⟩, fun hover => ⟨.inl (if_pos ?_), ?_⟩⟩
    · exact Nat.sub_ne_zero_of_lt hlater
    · exact Nat.sub_eq_zero_of_le hover
    · exact Nat.sub_eq_zero_of_le hover
  · obtain ⟨hrunnable, hwake⟩ := h.awake hle
    rw [Scheduler.advance, if_neg hrunnable.ne_sleeping]
    exact ⟨fun hlater => absurd hle (by omega), fun _ => ⟨hrunnable, hwake⟩⟩

end Process

namespace Scheduler

variable {s t : Scheduler} {slot : Slot} {action : Action} {actions : List Action}
  {total passed ticks : ℕ}

/-- How many ticks a call lets pass. -/
def Action.elapsed : Action → ℕ
  | advanceSleep ticks | tick ticks => ticks
  | create .. | adoptCurrent | exitCurrent | sleepCurrent _ | yieldCurrent | kill _ | schedule
  | takeParkedStack => 0

/-- How many ticks several calls let pass. -/
def elapsed (actions : List Action) : ℕ := (actions.map Action.elapsed).sum

/-- The call neither ends the process in a slot nor puts it to sleep. To sleep for zero ticks is to
yield, and a process that is sheltered is not killed. -/
def Action.LetsSleep (slot : Slot) (s : Scheduler) : Action → Prop
  | exitCurrent => s.current ≠ some slot
  | sleepCurrent ticks => s.current = some slot → ticks = 0
  | kill pid => s.table.slotOf? pid = some slot → (s.table.process slot).sheltered = true
  | create .. | adoptCurrent | yieldCurrent | schedule | advanceSleep _ | tick _
  | takeParkedStack => True

/-- Several calls neither end the process in a slot nor put it to sleep. -/
def LetSleep (slot : Slot) : Scheduler → List Action → Prop
  | _, [] => True
  | s, action :: actions => action.LetsSleep slot s ∧ LetSleep slot (action.apply s) actions

/-! ### One call -/

/-- Preparing a pass lets the ticks of the call pass. -/
theorem Action.LetsSleep.due_prepared (h : action.LetsSleep slot s)
    (hdispatches : action.dispatches s = true)
    (hdue : (s.table.process slot).Due total passed) :
    ((action.prepared s).table.process slot).Due total (passed + action.elapsed) := by
  cases action with
  | create | adoptCurrent | advanceSleep | takeParkedStack => cases hdispatches
  | schedule => exact hdue
  | tick ticks =>
    show ((s.advanceSleep ticks).table.process slot).Due total (passed + ticks)
    rw [process_advanceSleep]
    exact hdue.advance ticks
  | yieldCurrent =>
    show ((s.changeCurrent preempt).table.process slot).Due total passed
    rw [process_changeCurrent]
    split
    · exact hdue.preempt
    · exact hdue
  | sleepCurrent ticks =>
    show ((s.changeCurrent _).table.process slot).Due total passed
    rw [process_changeCurrent]
    split
    next hcurrent =>
      rw [if_pos (h hcurrent)]
      exact hdue.preempt
    next => exact hdue
  | exitCurrent =>
    show (s.ended.table.process slot).Due total passed
    rw [process_ended, if_neg h]
    exact hdue
  | kill pid =>
    show (s.ended.table.process slot).Due total passed
    rw [process_ended, if_neg]
    · exact hdue
    · intro hcurrent
      rw [dispatches, hcurrent, Option.any_some, Bool.and_eq_true, decide_eq_true_eq,
        Bool.not_eq_true'] at hdispatches
      rw [h hdispatches.1] at hdispatches
      cases hdispatches.2

/-- Handing over the processor wakes nobody and puts nobody to sleep. -/
theorem Passes.due {outcome : Option SwitchPlan × Scheduler} (h : s.Passes outcome)
    (hdue : (s.table.process slot).Due total passed) :
    (outcome.2.table.process slot).Due total passed := by
  cases h with
  | idle hstopped => exact absurd (hstopped slot) hdue.ne_stopped
  | @picked next t hselects hhands =>
    show (t.table.process slot).Due total passed
    rw [hhands.process]
    split
    · exact hdue.start
    · split
      · exact hdue.preempt
      · exact hdue

/-- A call without a pass lets its ticks pass, and does nothing else to a process that it spares. -/
theorem Action.LetsSleep.due_plain (h : action.LetsSleep slot s)
    (hdispatches : action.dispatches s = false)
    (hdue : (s.table.process slot).Due total passed) :
    ((action.apply s).table.process slot).Due total (passed + action.elapsed) := by
  -- a newcomer gets a slot that is free, and this one is not
  have hseat {new : Slot} (hfree : s.table.freeSlot? = some new) (newcomer : Process) :
      ((s.seat new newcomer).table.process slot).Due total passed := by
    rw [process_seat, if_neg]
    · exact hdue
    · rintro rfl
      have hisFree := ProcessTable.isFree_of_freeSlot? hfree
      rw [Process.isFree, Bool.and_eq_true] at hisFree
      exact hdue.ne_stopped (of_decide_eq_true hisFree.2)
  have hplain := (Action.plain hdispatches).2
  cases action with
  | schedule | tick | yieldCurrent => cases hdispatches
  | advanceSleep ticks =>
    show ((s.advanceSleep ticks).table.process slot).Due total (passed + ticks)
    rw [process_advanceSleep]
    exact hdue.advance ticks
  | kill pid =>
    rcases apply_kill s pid with hsame | ⟨victim, hvictim, hsheltered, ⟨hcurrent, -⟩ | ⟨-, hupdate⟩⟩
    · rw [hsame]
      exact hdue
    · rw [dispatches, hcurrent, Option.any_some, hvictim, hsheltered, decide_eq_true rfl]
        at hdispatches
      cases hdispatches
    · rw [hupdate, process_update_of_ne]
      · exact hdue
      · rintro rfl
        rw [h hvictim] at hsheltered
        cases hsheltered
  | create entry stackSize memory =>
    generalize (create entry stackSize memory).apply s = t at hplain
    cases hplain with
    | kept => exact hdue
    | created hgrants hfree => exact hseat hfree _
  | adoptCurrent =>
    generalize adoptCurrent.apply s = t at hplain
    cases hplain with
    | kept => exact hdue
    | adopted hnone hfree => exact hseat hfree _
  | takeParkedStack =>
    generalize takeParkedStack.apply s = t at hplain
    cases hplain with
    | kept | taken => exact hdue
  | sleepCurrent ticks =>
    generalize (sleepCurrent ticks).apply s = t at hplain
    cases hplain with
    | kept => exact hdue
  | exitCurrent =>
    generalize exitCurrent.apply s = t at hplain
    cases hplain with
    | kept => exact hdue

/-- **Every call counts the ticks that it lets pass.** -/
theorem Coherent.due_apply (hs : s.Coherent) (hlets : action.LetsSleep slot s)
    (hdue : (s.table.process slot).Due total passed) :
    ((action.apply s).table.process slot).Due total (passed + action.elapsed) := by
  cases hdispatches : action.dispatches s with
  | true => exact (Action.passes hdispatches hs.live).due (hlets.due_prepared hdispatches hdue)
  | false => exact hlets.due_plain hdispatches hdue

/-! ### Runs -/

theorem elapsed_cons (action : Action) (actions : List Action) :
    elapsed (action :: actions) = action.elapsed + elapsed actions :=
  List.sum_cons

/-- **Along a run, ticks add up.** -/
theorem Coherent.due_run (hs : s.Coherent) (hlets : LetSleep slot s actions)
    (hdue : (s.table.process slot).Due total passed) :
    ((s.run actions).table.process slot).Due total (passed + elapsed actions)
      ∧ (s.run actions).pid slot = s.pid slot := by
  induction actions generalizing s passed with
  | nil => exact ⟨hdue, rfl⟩
  | cons action actions ih =>
    obtain ⟨hfirst, hrest⟩ := hlets
    have hdue' := hs.due_apply hfirst hdue
    obtain ⟨hlast, hpid⟩ := ih (hs.apply action).1 hrest hdue'
    rw [elapsed_cons, ← Nat.add_assoc, run_cons]
    exact ⟨hlast, hpid.trans (hs.pid_apply_of_live (live_of_ne_stopped hdue.ne_stopped)
      (live_of_ne_stopped hdue'.ne_stopped))⟩

/-- What is running goes to sleep. -/
theorem Coherent.due_sleepCurrent (hs : s.Coherent) (hcurrent : s.current = some slot)
    (hticks : 0 < ticks) :
    (((Action.sleepCurrent ticks).apply s).table.process slot).Due ticks 0 := by
  have hdispatches : (Action.sleepCurrent ticks).dispatches s = true := by
    rw [Action.dispatches, hcurrent, Option.isSome_some]
  refine (Action.passes hdispatches hs.live).due ?_
  show ((s.changeCurrent _).table.process slot).Due ticks 0
  rw [process_changeCurrent, if_pos hcurrent, if_neg (Nat.ne_of_gt hticks)]
  exact Process.due_asleep _ hticks

/-- **Who is woken by a tick takes part in its selection**: it is ready then, and the slot that is
selected is a ready one whose turn is not later. -/
theorem Coherent.takes_part (hs : s.Coherent) (hdue : (s.table.process slot).Due total passed)
    (hlt : passed < total) (hle : total ≤ passed + ticks) :
    ((s.advanceSleep ticks).table.process slot).state = .ready
      ∧ ∃ next, ((s.advanceSleep ticks).table.process next).state = .ready
        ∧ turn s.last next ≤ turn s.last slot
        ∧ (s.advanceSleep ticks).HandsOver next ((Action.tick ticks).apply s) := by
  have hready : ((s.advanceSleep ticks).table.process slot).state = .ready := by
    obtain ⟨hstate, hwake⟩ := hdue.asleep hlt
    rw [process_advanceSleep, advance, if_pos hstate, hwake]
    exact if_pos (by omega)
  have hdispatches : (Action.tick ticks).dispatches s = true := rfl
  have hpass : (s.advanceSleep ticks).Passes ((Action.tick ticks).perform s) :=
    Action.passes hdispatches hs.live
  refine ⟨hready, ?_⟩
  rw [Action.apply]
  generalize (Action.tick ticks).perform s = outcome at hpass
  cases hpass with
  | idle hstopped =>
    rw [hstopped slot] at hready
    cases hready
  | @picked next t hselects hhands =>
    obtain ⟨hnext, hturn⟩ := hselects.of_ready hready
    exact ⟨next, hnext, hturn, hhands⟩

/-- **Sleep is exact.** Take any scheduler that calls lead to, and let the process that has the
processor go to sleep for some ticks. After any calls that neither end it nor put it to sleep anew,
it is still there, with its number. As long as fewer ticks have passed, it sleeps, with the
difference left; and from then on it could run, with none left.

A tick that wakes it does so before a slot is selected: what is selected then is a ready slot whose
turn is not later than its own, and if its own turn is the earliest one, it runs. -/
theorem sleeps_exactly (history : List Action) {slot : Slot} {ticks : ℕ} (actions : List Action)
    (hcurrent : (after history).current = some slot) (hticks : 0 < ticks)
    (hlets : LetSleep slot ((Action.sleepCurrent ticks).apply (after history)) actions) :
    let s := ((Action.sleepCurrent ticks).apply (after history)).run actions
    s.pid slot = (after history).pid slot
      ∧ (elapsed actions < ticks → (s.table.process slot).state = .sleeping
          ∧ (s.table.process slot).wakeTicks = ticks - elapsed actions)
      ∧ (ticks ≤ elapsed actions →
          ((s.table.process slot).state = .ready ∨ (s.table.process slot).state = .running)
          ∧ (s.table.process slot).wakeTicks = 0)
      ∧ ∀ last, elapsed actions < ticks → ticks ≤ elapsed actions + last →
          (∃ next, (Action.tick last).selected? s = some next
            ∧ ((s.advanceSleep last).table.process next).state = .ready
            ∧ turn s.last next ≤ turn s.last slot)
          ∧ ((∀ other, ((s.advanceSleep last).table.process other).state = .ready →
              turn s.last slot ≤ turn s.last other) →
            ((Action.tick last).apply s).current = some slot
              ∧ (((Action.tick last).apply s).table.process slot).state = .running) := by
  intro s
  have hbefore : (after history).Coherent := coherent_after history
  have hdue := hbefore.due_sleepCurrent hcurrent hticks
  have hslept := (hbefore.apply (.sleepCurrent ticks)).1
  obtain ⟨hrun, hpid⟩ := hslept.due_run hlets hdue
  rw [Nat.zero_add] at hrun
  have hs : s.Coherent := hslept.run actions
  have hsame := hbefore.pid_apply_of_live (live_of_ne_stopped (hbefore.live slot hcurrent))
    (live_of_ne_stopped hdue.ne_stopped)
  refine ⟨hpid.trans hsame, hrun.asleep, hrun.awake, fun last hlt hle => ?_⟩
  obtain ⟨hready, next, hnext, hturn, hhands⟩ := hs.takes_part hrun hlt hle
  refine ⟨⟨next, hhands.current, hnext, hturn⟩, fun hfirst => ?_⟩
  obtain rfl : next = slot := eq_of_turn_eq (Nat.le_antisymm hturn (hfirst next hnext))
  refine ⟨hhands.current, ?_⟩
  rw [hhands.process, if_pos rfl, state_start_eq_running]
  exact .inl hready

/-- A process that sleeps on the processor, because it is alone, while another one comes and ticks
pass in two portions. -/
def sleepsAlone : List Action := [.advanceSleep 2, .yieldCurrent, .create 2 0 .ample, .tick 2]

theorem letSleep_sleepsAlone : LetSleep 0
    ((Action.sleepCurrent 5).apply (after [.create 1 0 .ample, .schedule])) sleepsAlone :=
  ⟨trivial, trivial, trivial, trivial, trivial⟩

/-- After four of five ticks one is left; and a tick of seven wakes it, and then it is its turn. -/
theorem sleeps_exactly_alone :
    let s := ((Action.sleepCurrent 5).apply (after [.create 1 0 .ample, .schedule])).run sleepsAlone
    (after [.create 1 0 .ample, .schedule]).current = some 0
      ∧ LetSleep 0
        ((Action.sleepCurrent 5).apply (after [.create 1 0 .ample, .schedule])) sleepsAlone
      ∧ (s.table.process 0).state = .sleeping ∧ (s.table.process 0).wakeTicks = 1
      ∧ ((Action.tick 7).apply s).current = some 0
      ∧ (((Action.tick 7).apply s).table.process 0).state = .running := by
  intro s
  have hcurrent : (after [.create 1 0 .ample, .schedule]).current = some 0 := by decide
  obtain ⟨-, hasleep, -, hwakes⟩ := sleeps_exactly [.create 1 0 .ample, .schedule] sleepsAlone
    hcurrent (by decide) letSleep_sleepsAlone
  have hfour := hasleep (by decide)
  refine ⟨hcurrent, letSleep_sleepsAlone, hfour.1, hfour.2, (hwakes 7 (by decide) (by decide)).2 ?_⟩
  decide +kernel

end Scheduler

end PocketKernel
