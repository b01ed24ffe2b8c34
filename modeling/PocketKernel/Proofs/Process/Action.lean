import PocketKernel.Proofs.Process.Selection

/-!
# What the scheduler is asked to do

An action is one call to the scheduler, and a run is a list of them. An action either lets a slot be
selected, or it does not. If it does, it first prepares the table (the running process is put to
sleep, say), and then the processor is handed over or, when nobody is left, given up: this is a pass.
If it does not, there is no switch, and what it may change is listed in `Action.Plain`.

All that is proved about runs goes through these two lists and opens no operation again.

## Main definitions

* `Scheduler.Action`, `Scheduler.Action.perform`: the calls.
* `Scheduler.Action.dispatches`: the call lets a slot be selected.
* `Scheduler.run`, `Scheduler.after`: what several calls lead to.
* `Scheduler.Passes`: how a pass ends.
* `Scheduler.Action.Plain`: what a call without a pass does.

## Main results

* `Scheduler.Action.passes`, `Scheduler.Action.plain`: every call is one or the other.
-/

namespace PocketKernel

namespace Process

/-- A process that was created, and waits to run for the first time. -/
def worker (pid entry : ℕ) (stack : Stack) : Process :=
  { free with pid := pid, state := .ready, context := .starting entry, stack := some stack }

/-- A process that was made of what is running. -/
def adopted (pid : ℕ) : Process := { free with pid := pid, state := .running, sheltered := true }

/-- A process that goes to sleep. -/
def asleep (ticks : ℕ) (process : Process) : Process :=
  { process with state := .sleeping, wakeTicks := ticks }

/-- What is left in the slot of a process that ended itself. -/
def retired (process : Process) : Process :=
  { process with stack := none, state := .stopped, pid := 0, wakeTicks := 0, sheltered := false }

end Process

namespace Scheduler

variable {s t : Scheduler} {slot next : Slot}

/-- One call to the scheduler. A process is created with whatever memory there is at that time. -/
inductive Action where
  | create (entry stackSize : ℕ) (memory : StackMemory)
  | adoptCurrent
  | exitCurrent
  | sleepCurrent (ticks : ℕ)
  | yieldCurrent
  | kill (pid : ℕ)
  | schedule
  | advanceSleep (ticks : ℕ)
  | tick (ticks : ℕ)
  | takeParkedStack

namespace Action

variable {action : Action}

/-- The switch that a call asks for, and the scheduler after it. A call that is refused changes
nothing. -/
def perform (s : Scheduler) : Action → Option SwitchPlan × Scheduler
  | create entry stackSize memory =>
    match s.create entry stackSize memory with
    | .ok (_, t) => (none, t)
    | .error _ => (none, s)
  | adoptCurrent =>
    match s.adoptCurrent with
    | .ok (_, t) => (none, t)
    | .error _ => (none, s)
  | exitCurrent => s.exitCurrent
  | sleepCurrent ticks => s.sleepCurrent ticks
  | yieldCurrent => s.yieldCurrent
  | kill pid =>
    match s.kill pid with
    | .ok outcome => outcome
    | .error _ => (none, s)
  | schedule => s.schedule
  | advanceSleep ticks => (none, s.advanceSleep ticks)
  | tick ticks => s.tick ticks
  | takeParkedStack => (none, s.takeParkedStack.2)

/-- The scheduler after a call. -/
def apply (s : Scheduler) (action : Action) : Scheduler := (action.perform s).2

/-- The call lets a slot be selected. To end or to put to sleep what is running, something has to
run; and of the processes that are killed, only the one that has the processor leaves it to another
one. -/
def dispatches (s : Scheduler) : Action → Bool
  | schedule | tick _ | yieldCurrent => true
  | sleepCurrent _ | exitCurrent => s.current.isSome
  | kill pid => s.current.any fun slot =>
      s.table.slotOf? pid = some slot && !(s.table.process slot).sheltered
  | create .. | adoptCurrent | advanceSleep _ | takeParkedStack => false

end Action

/-- The scheduler after several calls. -/
def run (s : Scheduler) (actions : List Action) : Scheduler := actions.foldl Action.apply s

/-- The scheduler after several calls, from the beginning. -/
def after (actions : List Action) : Scheduler := run initial actions

theorem run_append (s : Scheduler) (actions later : List Action) :
    s.run (actions ++ later) = (s.run actions).run later :=
  List.foldl_append

theorem run_cons (s : Scheduler) (action : Action) (later : List Action) :
    s.run (action :: later) = (action.apply s).run later :=
  rfl

theorem after_append (actions later : List Action) :
    after (actions ++ later) = (after actions).run later :=
  run_append ..

/-! ### Calls that select a slot -/

/-- The process that has the processor ends, and its stack is parked. -/
def ended (s : Scheduler) : Scheduler :=
  { s.changeCurrent .retired with
    parked := s.current.bind fun slot => (s.table.process slot).stack }

/-- What a call does to the table before a slot is selected. -/
def Action.prepared (s : Scheduler) : Action → Scheduler
  | tick ticks => s.advanceSleep ticks
  | yieldCurrent => s.changeCurrent preempt
  | sleepCurrent ticks => s.changeCurrent (if ticks = 0 then preempt else .asleep ticks)
  | exitCurrent | kill _ => s.ended
  | schedule | create .. | adoptCurrent | advanceSleep _ | takeParkedStack => s

@[simp] theorem current_ended (s : Scheduler) : s.ended.current = s.current :=
  current_changeCurrent ..

theorem process_ended (s : Scheduler) (slot : Slot) :
    s.ended.table.process slot
      = if s.current = some slot then (s.table.process slot).retired
        else s.table.process slot :=
  process_changeCurrent ..

@[simp] theorem Action.current_prepared (s : Scheduler) (action : Action) :
    (action.prepared s).current = s.current := by
  cases action with
  | yieldCurrent | sleepCurrent ticks => exact current_changeCurrent ..
  | exitCurrent | kill pid => exact current_ended s
  | create | adoptCurrent | schedule | advanceSleep | tick | takeParkedStack => rfl

@[simp] theorem Action.last_prepared (s : Scheduler) (action : Action) :
    (action.prepared s).last = s.last := by
  cases action with
  | yieldCurrent | sleepCurrent ticks | exitCurrent | kill pid => exact last_changeCurrent ..
  | create | adoptCurrent | schedule | advanceSleep | tick | takeParkedStack => rfl

@[simp] theorem Action.nextPid_prepared (s : Scheduler) (action : Action) :
    (action.prepared s).nextPid = s.nextPid := by
  cases action with
  | yieldCurrent | sleepCurrent ticks | exitCurrent | kill pid => exact nextPid_changeCurrent ..
  | create | adoptCurrent | schedule | advanceSleep | tick | takeParkedStack => rfl

/-- How a pass ends. -/
inductive Passes (s : Scheduler) : Option SwitchPlan × Scheduler → Prop where
  /-- There are no processes, and nobody has the processor. -/
  | idle (hstopped : ∀ slot, (s.table.process slot).state = .stopped) :
      Passes s (none, { s with current := none })
  /-- The processor is handed over. -/
  | picked {next : Slot} {t : Scheduler} (hselects : s.Selects next)
      (hhands : s.HandsOver next t) : Passes s (s.planTo next, t)

/-- Scheduling is a pass, unless a slot without a process has the processor. -/
theorem passes_schedule
    (hlive : ∀ slot, s.current = some slot → (s.table.process slot).state ≠ .stopped) :
    s.Passes s.schedule := by
  cases hselect : s.select with
  | none =>
    have hstopped := stopped_of_select_eq_none hselect
    have hcurrent : s.current = none := by
      rw [Option.eq_none_iff_forall_ne_some]
      exact fun slot h => hlive slot h (hstopped slot)
    have hidle : s = { s with current := none } := by
      rw [← hcurrent]
    rw [schedule_of_select_eq_none hselect]
    exact hidle ▸ Passes.idle hstopped
  | some next =>
    obtain ⟨t, hschedule, hhands⟩ := schedule_of_select hselect
    rw [hschedule]
    exact .picked (selects_of_select hselect) hhands

/-- What is running ends, and the processor is given up if nobody takes it. -/
theorem exitCurrent_of_current (hcurrent : s.current = some slot) :
    s.exitCurrent = (s.ended.schedule.1,
      if s.ended.schedule.2.current = some slot then { s.ended.schedule.2 with current := none }
      else s.ended.schedule.2) := by
  have hended : s.ended = { s.update slot .retired with
      parked := (s.table.process slot).stack } := by
    rw [ended, changeCurrent_of_some hcurrent, hcurrent]
    rfl
  rw [exitCurrent, hcurrent, hended]
  rfl

/-- Ending what is running is a pass. While a slot is selected, the processor is still with the slot
that was given up; nobody selects it again. -/
theorem passes_exitCurrent (hcurrent : s.current = some slot) : s.ended.Passes s.exitCurrent := by
  have hstopped : (s.ended.table.process slot).state = .stopped := by
    rw [process_ended, if_pos hcurrent]
    rfl
  rw [exitCurrent_of_current hcurrent]
  cases hselect : s.ended.select with
  | none =>
    rw [schedule_of_select_eq_none hselect, if_pos ((current_ended s).trans hcurrent)]
    exact .idle (stopped_of_select_eq_none hselect)
  | some next =>
    obtain ⟨t, hschedule, hhands⟩ := schedule_of_select hselect
    have hselects := selects_of_select hselect
    have hnext : next ≠ slot := by
      rintro rfl
      exact hselects.ne_stopped hstopped
    rw [hschedule, hhands.current, if_neg fun h => hnext (Option.some.inj h)]
    exact .picked hselects hhands

theorem sleepCurrent_of_current (hcurrent : s.current = some slot) (ticks : ℕ) :
    s.sleepCurrent ticks
      = (s.changeCurrent (if ticks = 0 then preempt else .asleep ticks)).schedule := by
  rw [sleepCurrent, hcurrent, changeCurrent_of_some hcurrent]
  by_cases hticks : ticks = 0
  · simp only [if_pos hticks, yieldCurrent, hcurrent]
  · simp only [if_neg hticks]
    rfl

theorem yieldCurrent_eq (s : Scheduler) : s.yieldCurrent = (s.changeCurrent preempt).schedule := by
  cases hcurrent : s.current with
  | none => rw [yieldCurrent, changeCurrent_of_none hcurrent, hcurrent]
  | some slot => rw [yieldCurrent, changeCurrent_of_some hcurrent, hcurrent]

theorem kill_current {pid : ℕ} (hslot : s.table.slotOf? pid = some slot)
    (hsheltered : (s.table.process slot).sheltered = false) (hcurrent : s.current = some slot) :
    s.kill pid = .ok s.exitCurrent := by
  rw [kill, hslot]
  simp only [hsheltered, hcurrent, if_true, Bool.false_eq_true, if_false]

/-- Preparing a process that is there does not stop it. -/
theorem changeCurrent_ne_stopped {change : Process → Process}
    (hlive : ∀ slot, s.current = some slot → (s.table.process slot).state ≠ .stopped)
    (hchange : ∀ process, process.state ≠ .stopped → (change process).state ≠ .stopped)
    (slot : Slot) (hcurrent : (s.changeCurrent change).current = some slot) :
    ((s.changeCurrent change).table.process slot).state ≠ .stopped := by
  rw [current_changeCurrent] at hcurrent
  rw [process_changeCurrent, if_pos hcurrent]
  exact hchange _ (hlive slot hcurrent)

theorem preempt_ne_stopped {process : Process} (h : process.state ≠ .stopped) :
    (preempt process).state ≠ .stopped := by
  rw [preempt]
  split
  · exact ProcessState.noConfusion
  · exact h

theorem advance_ne_stopped {process : Process} (ticks : ℕ) (h : process.state ≠ .stopped) :
    (advance ticks process).state ≠ .stopped := by
  rw [advance]
  split
  · dsimp only
    split <;> exact ProcessState.noConfusion
  · exact h

/-- **A call that dispatches is a pass**, unless a slot without a process has the processor. -/
theorem Action.passes {action : Action} (h : action.dispatches s = true)
    (hlive : ∀ slot, s.current = some slot → (s.table.process slot).state ≠ .stopped) :
    (action.prepared s).Passes (action.perform s) := by
  cases action with
  | create | adoptCurrent | advanceSleep | takeParkedStack => cases h
  | schedule => exact passes_schedule hlive
  | tick ticks =>
    show (s.advanceSleep ticks).Passes (s.advanceSleep ticks).schedule
    refine passes_schedule fun slot hcurrent => ?_
    rw [process_advanceSleep]
    exact advance_ne_stopped ticks (hlive slot hcurrent)
  | yieldCurrent =>
    show (s.changeCurrent preempt).Passes s.yieldCurrent
    rw [yieldCurrent_eq]
    exact passes_schedule (changeCurrent_ne_stopped hlive fun _ => preempt_ne_stopped)
  | sleepCurrent ticks =>
    obtain ⟨slot, hcurrent⟩ := Option.isSome_iff_exists.mp h
    show (s.changeCurrent _).Passes (s.sleepCurrent ticks)
    rw [sleepCurrent_of_current hcurrent]
    refine passes_schedule (changeCurrent_ne_stopped hlive fun process hprocess => ?_)
    split
    · exact preempt_ne_stopped hprocess
    · exact ProcessState.noConfusion
  | exitCurrent =>
    obtain ⟨slot, hcurrent⟩ := Option.isSome_iff_exists.mp h
    exact passes_exitCurrent hcurrent
  | kill pid =>
    obtain ⟨slot, hcurrent, hkill⟩ := (Option.any_eq_true ..).mp h
    rw [Bool.and_eq_true, decide_eq_true_eq, Bool.not_eq_true'] at hkill
    show s.ended.Passes (match s.kill pid with
      | .ok outcome => outcome
      | .error _ => (none, s))
    rw [kill_current hkill.1 hkill.2 hcurrent]
    exact passes_exitCurrent hcurrent

/-! ### Calls that do not -/

/-- A process with the next number is put into a slot. -/
def seat (s : Scheduler) (slot : Slot) (process : Process) : Scheduler :=
  { s with table := s.table.put slot process, nextPid := pidAfter s.nextPid }

/-- What it takes to create a process. -/
theorem of_create_eq_ok {entry stackSize : ℕ} {memory : StackMemory} {outcome : ℕ × Scheduler}
    (h : s.create entry stackSize memory = .ok outcome) :
    memory.grants (askedSize stackSize) = true
      ∧ ∃ slot, s.table.freeSlot? = some slot ∧ outcome = (s.nextPid,
        { s.seat slot (.worker s.nextPid entry ⟨s.nextStack, askedSize stackSize⟩) with
          nextStack := s.nextStack + 1 }) := by
  rw [create] at h
  cases hfree : s.table.freeSlot? with
  | none =>
    rw [hfree] at h
    cases h
  | some slot =>
    simp only [hfree] at h
    split at h
    next => cases h
    next hgrants =>
      exact ⟨Bool.not_eq_false _ ▸ hgrants, slot, rfl, (Except.ok.inj h).symm⟩

/-- What is running is a process already, or becomes one. -/
theorem of_adoptCurrent_eq_ok {outcome : ℕ × Scheduler} (h : s.adoptCurrent = .ok outcome) :
    (∃ slot, s.current = some slot ∧ outcome = ((s.table.process slot).pid, s))
      ∨ ∃ slot, s.current = none ∧ s.table.freeSlot? = some slot ∧ outcome = (s.nextPid,
        { s.seat slot (.adopted s.nextPid) with current := some slot, last := slot }) := by
  rw [adoptCurrent] at h
  cases hcurrent : s.current with
  | some slot =>
    rw [hcurrent] at h
    exact .inl ⟨slot, rfl, (Except.ok.inj h).symm⟩
  | none =>
    rw [hcurrent] at h
    cases hfree : s.table.freeSlot? with
    | none =>
      simp only [hfree] at h
      cases h
    | some slot =>
      simp only [hfree] at h
      exact .inr ⟨slot, rfl, rfl, (Except.ok.inj h).symm⟩

/-- A process that is killed ends itself if it has the processor, and is torn down otherwise. -/
theorem of_kill_eq_ok {pid : ℕ} {outcome : Option SwitchPlan × Scheduler}
    (h : s.kill pid = .ok outcome) :
    ∃ slot, s.table.slotOf? pid = some slot ∧ (s.table.process slot).sheltered = false
      ∧ (s.current = some slot ∧ outcome = s.exitCurrent
        ∨ s.current ≠ some slot ∧ outcome = (none, s.update slot fun _ => .free)) := by
  rw [kill] at h
  cases hslot : s.table.slotOf? pid with
  | none =>
    rw [hslot] at h
    cases h
  | some slot =>
    simp only [hslot] at h
    split at h
    next => cases h
    next hsheltered =>
      refine ⟨slot, rfl, Bool.eq_false_iff.mpr hsheltered, ?_⟩
      split at h
      next hcurrent => exact .inl ⟨hcurrent, (Except.ok.inj h).symm⟩
      next hcurrent => exact .inr ⟨hcurrent, (Except.ok.inj h).symm⟩

/-- To kill a process is refused, or it is as if the process ended itself, or it is torn down. -/
theorem Action.apply_kill (s : Scheduler) (pid : ℕ) :
    (kill pid).apply s = s
      ∨ ∃ slot, s.table.slotOf? pid = some slot ∧ (s.table.process slot).sheltered = false
        ∧ (s.current = some slot ∧ (kill pid).apply s = s.exitCurrent.2
          ∨ s.current ≠ some slot ∧ (kill pid).apply s = s.update slot fun _ => .free) := by
  rw [apply, perform]
  cases hkill : s.kill pid with
  | error cause => exact .inl rfl
  | ok outcome =>
    obtain ⟨slot, hslot, hsheltered, ⟨hcurrent, rfl⟩ | ⟨hcurrent, rfl⟩⟩ := of_kill_eq_ok hkill
    · exact .inr ⟨slot, hslot, hsheltered, .inl ⟨hcurrent, rfl⟩⟩
    · exact .inr ⟨slot, hslot, hsheltered, .inr ⟨hcurrent, rfl⟩⟩

/-- What a call without a pass does. -/
inductive Action.Plain (s : Scheduler) : Action → Scheduler → Prop where
  /-- It was refused, or there was nothing to do. -/
  | kept {action : Action} : Plain s action s
  /-- There is a new process in a slot that was free. -/
  | created {entry stackSize : ℕ} {memory : StackMemory} {slot : Slot}
      (hgrants : memory.grants (askedSize stackSize) = true)
      (hfree : s.table.freeSlot? = some slot) : Plain s (.create entry stackSize memory)
        { s.seat slot (.worker s.nextPid entry ⟨s.nextStack, askedSize stackSize⟩) with
          nextStack := s.nextStack + 1 }
  /-- What runs is a process now, in a slot that was free. -/
  | adopted {slot : Slot} (hnone : s.current = none) (hfree : s.table.freeSlot? = some slot) :
      Plain s .adoptCurrent
        { s.seat slot (.adopted s.nextPid) with current := some slot, last := slot }
  /-- A process that does not have the processor was torn down. -/
  | killed {pid : ℕ} {slot : Slot} (hslot : s.table.slotOf? pid = some slot)
      (hcurrent : s.current ≠ some slot) : Plain s (.kill pid) (s.update slot fun _ => .free)
  | advanced {ticks : ℕ} : Plain s (.advanceSleep ticks) (s.advanceSleep ticks)
  /-- The parked stack is gone. -/
  | taken : Plain s .takeParkedStack { s with parked := none }

/-- **A call that does not dispatch is a plain one, and asks for no switch.** -/
theorem Action.plain {action : Action} (h : action.dispatches s = false) :
    (action.perform s).1 = none ∧ action.Plain s (action.apply s) := by
  cases action with
  | schedule | tick | yieldCurrent => cases h
  | create entry stackSize memory =>
    rw [apply, perform]
    cases hcreate : s.create entry stackSize memory with
    | error cause => exact ⟨rfl, .kept⟩
    | ok outcome =>
      obtain ⟨hgrants, slot, hfree, rfl⟩ := of_create_eq_ok hcreate
      exact ⟨rfl, .created hgrants hfree⟩
  | adoptCurrent =>
    rw [apply, perform]
    cases hadopt : s.adoptCurrent with
    | error cause => exact ⟨rfl, .kept⟩
    | ok outcome =>
      obtain ⟨-, -, rfl⟩ | ⟨slot, hnone, hfree, rfl⟩ := of_adoptCurrent_eq_ok hadopt
      · exact ⟨rfl, .kept⟩
      · exact ⟨rfl, .adopted hnone hfree⟩
  | advanceSleep ticks => exact ⟨rfl, .advanced⟩
  | takeParkedStack =>
    refine ⟨rfl, ?_⟩
    show Plain s .takeParkedStack s.takeParkedStack.2
    rw [Scheduler.takeParkedStack]
    split
    · exact .kept
    · exact .taken
  | sleepCurrent ticks =>
    have hkept : s.sleepCurrent ticks = (none, s) := by
      rw [Scheduler.sleepCurrent, Option.not_isSome_iff_eq_none.mp (Bool.eq_false_iff.mp h)]
    rw [apply, perform, hkept]
    exact ⟨rfl, .kept⟩
  | exitCurrent =>
    have hkept : s.exitCurrent = (none, s) := by
      rw [Scheduler.exitCurrent, Option.not_isSome_iff_eq_none.mp (Bool.eq_false_iff.mp h)]
    rw [apply, perform, hkept]
    exact ⟨rfl, .kept⟩
  | kill pid =>
    rw [apply, perform]
    cases hkill : s.kill pid with
    | error cause => exact ⟨rfl, .kept⟩
    | ok outcome =>
      obtain ⟨slot, hslot, hsheltered, ⟨hcurrent, -⟩ | ⟨hcurrent, rfl⟩⟩ := of_kill_eq_ok hkill
      · rw [dispatches, hcurrent, Option.any_some, hslot, hsheltered, decide_eq_true rfl] at h
        cases h
      · exact ⟨rfl, .killed hslot hcurrent⟩

end Scheduler

end PocketKernel
