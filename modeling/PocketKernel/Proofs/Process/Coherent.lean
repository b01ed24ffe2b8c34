import PocketKernel.Proofs.Process.Action

/-!
# The scheduler stays coherent

Whatever the scheduler is asked for, only the slot that has the processor is running, that slot is
not free, and number, state and remaining ticks of every process fit together. After every pass the
processor is with a running process if any process could run.

A process that ends itself leaves the processor with a free slot while the next one is selected. So
there are two invariants: a tidy scheduler is one in which only the slot with the processor is
running, and a coherent one is tidy and has the processor with a process. Preparing a pass keeps a
scheduler tidy, and the pass makes a coherent one of it.

## Main definitions

* `Process.Lawful`: number, state and ticks of a process fit together.
* `Process.Runnable`: the process could run.
* `Scheduler.Tidy`, `Scheduler.Coherent`: the invariants.
* `Scheduler.Busy`: the processor is not left to a sleeper while a process could run.

## Main results

* `Scheduler.Coherent.apply`, `Scheduler.coherent_after`: every run stays coherent.
* `Scheduler.Coherent.perform_fst`: when a call asks for a switch, and for which.
* `Scheduler.invariants_after`: what is certain after every run.
-/

namespace PocketKernel

namespace Process

variable {process : Process}

/-- Only what is stopped has number zero, and only what sleeps has ticks left. -/
structure Lawful (process : Process) : Prop where
  stopped_iff : process.pid = 0 ↔ process.state = .stopped
  sleeping_iff : process.state = .sleeping ↔ 0 < process.wakeTicks

/-- The process could run. -/
def Runnable (process : Process) : Prop := process.state = .ready ∨ process.state = .running

theorem lawful_free : free.Lawful := by
  constructor <;> decide

theorem lawful_retired (process : Process) : process.retired.Lawful :=
  ⟨⟨fun _ => rfl, fun _ => rfl⟩,
    ⟨(ProcessState.noConfusion ·), fun h => absurd h (Nat.lt_irrefl 0)⟩⟩

/-- A process with a number that neither sleeps nor is stopped. -/
theorem lawful_of_awake (hpid : process.pid ≠ 0) (hstate : process.state ≠ .stopped)
    (hsleeping : process.state ≠ .sleeping) (hticks : process.wakeTicks = 0) : process.Lawful :=
  ⟨⟨fun h => absurd h hpid, fun h => absurd h hstate⟩,
    ⟨fun h => absurd h hsleeping, fun h => absurd hticks (Nat.ne_of_gt h)⟩⟩

theorem Lawful.pid_ne_zero (h : process.Lawful) (hstate : process.state ≠ .stopped) :
    process.pid ≠ 0 :=
  fun hpid => hstate (h.stopped_iff.mp hpid)

theorem Lawful.wakeTicks_eq_zero (h : process.Lawful) (hstate : process.state ≠ .sleeping) :
    process.wakeTicks = 0 :=
  Nat.eq_zero_of_not_pos fun hticks => hstate (h.sleeping_iff.mpr hticks)

theorem Lawful.asleep {ticks : ℕ} (h : process.Lawful) (hstate : process.state ≠ .stopped)
    (hticks : ticks ≠ 0) : (process.asleep ticks).Lawful :=
  ⟨⟨fun hpid => absurd hpid (h.pid_ne_zero hstate), (ProcessState.noConfusion ·)⟩,
    ⟨fun _ => Nat.pos_of_ne_zero hticks, fun _ => rfl⟩⟩

theorem Lawful.start (h : process.Lawful) : (Scheduler.start process).Lawful := by
  rw [Scheduler.start]
  split
  next hready =>
    have hstate : process.state ≠ .stopped := hready ▸ ProcessState.noConfusion
    have hsleeping : process.state ≠ .sleeping := hready ▸ ProcessState.noConfusion
    exact lawful_of_awake (h.pid_ne_zero hstate) ProcessState.noConfusion ProcessState.noConfusion
      (h.wakeTicks_eq_zero hsleeping)
  next => exact h

theorem Lawful.preempt (h : process.Lawful) : (Scheduler.preempt process).Lawful := by
  rw [Scheduler.preempt]
  split
  next hrunning =>
    have hstate : process.state ≠ .stopped := hrunning ▸ ProcessState.noConfusion
    have hsleeping : process.state ≠ .sleeping := hrunning ▸ ProcessState.noConfusion
    exact lawful_of_awake (h.pid_ne_zero hstate) ProcessState.noConfusion ProcessState.noConfusion
      (h.wakeTicks_eq_zero hsleeping)
  next => exact h

theorem Lawful.advance (h : process.Lawful) (ticks : ℕ) :
    (Scheduler.advance ticks process).Lawful := by
  rw [Scheduler.advance]
  split
  next hsleeping =>
    have hpid : process.pid ≠ 0 := h.pid_ne_zero (hsleeping ▸ ProcessState.noConfusion)
    dsimp only
    split
    next hleft => exact lawful_of_awake hpid ProcessState.noConfusion ProcessState.noConfusion hleft
    next hleft =>
      exact ⟨⟨fun h => absurd h hpid, (ProcessState.noConfusion ·)⟩,
        ⟨fun _ => Nat.pos_of_ne_zero hleft, fun _ => rfl⟩⟩
  next => exact h

end Process

namespace Scheduler

variable {s t : Scheduler} {slot next : Slot} {action : Action}

/-- The processes fit together, and only the slot with the processor is running. -/
structure Tidy (s : Scheduler) : Prop where
  lawful : ∀ slot, (s.table.process slot).Lawful
  current : ∀ slot, (s.table.process slot).state = .running → s.current = some slot
  nextPid_pos : 0 < s.nextPid

/-- A tidy scheduler in which the processor is with a process, the one that was picked last. -/
structure Coherent (s : Scheduler) : Prop extends s.Tidy where
  live : ∀ slot, s.current = some slot → (s.table.process slot).state ≠ .stopped
  last : ∀ slot, s.current = some slot → s.last = slot

/-- If a process could run, the processor is with a running one. -/
def Busy (s : Scheduler) : Prop :=
  ∀ slot, (s.table.process slot).Runnable →
    ∃ current, s.current = some current ∧ (s.table.process current).state = .running

theorem coherent_initial : initial.Coherent := by
  have hprocess (slot : Slot) : initial.table.process slot = .free :=
    ProcessTable.process_replicate ..
  refine ⟨⟨fun slot => ?_, fun slot h => ?_, Nat.one_pos⟩, fun _ h => ?_, fun _ h => ?_⟩
  · rw [hprocess]
    exact Process.lawful_free
  · rw [hprocess] at h
    cases h
  · cases h
  · cases h

theorem pidAfter_pos (pid : ℕ) : 0 < pidAfter pid := by
  rw [pidAfter]
  split <;> omega

/-! ### Preparing a pass -/

/-- Changing the process that has the processor keeps a scheduler tidy. -/
theorem Tidy.changeCurrent (hs : s.Tidy) {change : Process → Process}
    (hlawful : ∀ slot, s.current = some slot → (change (s.table.process slot)).Lawful) :
    (s.changeCurrent change).Tidy := by
  refine ⟨fun slot => ?_, fun slot h => ?_, ?_⟩
  · rw [process_changeCurrent]
    split
    next hcurrent => exact hlawful slot hcurrent
    next => exact hs.lawful slot
  · rw [process_changeCurrent] at h
    rw [current_changeCurrent]
    split at h
    next hcurrent => exact hcurrent
    next => exact hs.current slot h
  · rw [nextPid_changeCurrent]
    exact hs.nextPid_pos

theorem Tidy.ended (hs : s.Tidy) : s.ended.Tidy :=
  have h : (s.changeCurrent .retired).Tidy :=
    hs.changeCurrent fun _ _ => Process.lawful_retired _
  ⟨h.lawful, h.current, h.nextPid_pos⟩

/-- Time does not start a process. -/
theorem state_of_advance_eq_running {process : Process} {ticks : ℕ}
    (h : (advance ticks process).state = .running) : process.state = .running := by
  rw [advance] at h
  split at h
  · dsimp only at h
    split at h <;> cases h
  · exact h

theorem Tidy.advanceSleep (hs : s.Tidy) (ticks : ℕ) : (s.advanceSleep ticks).Tidy := by
  refine ⟨fun slot => ?_, fun slot h => ?_, hs.nextPid_pos⟩
  · rw [process_advanceSleep]
    exact (hs.lawful slot).advance ticks
  · rw [process_advanceSleep] at h
    exact hs.current slot (state_of_advance_eq_running h)

theorem Coherent.prepared (hs : s.Coherent) (action : Action) : (action.prepared s).Tidy := by
  cases action with
  | create | adoptCurrent | schedule | advanceSleep | takeParkedStack => exact hs.toTidy
  | tick ticks => exact hs.advanceSleep ticks
  | yieldCurrent => exact hs.changeCurrent fun slot _ => (hs.lawful slot).preempt
  | sleepCurrent ticks =>
    refine hs.changeCurrent fun slot hcurrent => ?_
    split
    next => exact (hs.lawful slot).preempt
    next hticks => exact (hs.lawful slot).asleep (hs.live slot hcurrent) hticks
  | exitCurrent | kill pid => exact hs.ended

/-! ### Passes -/

theorem state_start_eq_running {process : Process} :
    (start process).state = .running ↔ process.Runnable := by
  rw [start]
  split
  next hready => exact ⟨fun _ => .inl hready, fun _ => rfl⟩
  next hready => exact ⟨.inr, fun h => h.resolve_left hready⟩

theorem runnable_start {process : Process} : (start process).Runnable ↔ process.Runnable := by
  rw [start]
  split
  next hready => exact ⟨fun _ => .inl hready, fun _ => .inr rfl⟩
  next => rfl

theorem runnable_preempt {process : Process} :
    (preempt process).Runnable ↔ process.Runnable := by
  rw [preempt]
  split
  next hrunning => exact ⟨fun _ => .inr hrunning, fun _ => .inl rfl⟩
  next => rfl

/-- Who gets the processor does not change who could run. -/
theorem HandsOver.runnable_iff (h : s.HandsOver next t) (slot : Slot) :
    (t.table.process slot).Runnable ↔ (s.table.process slot).Runnable := by
  rw [h.process]
  split
  · exact runnable_start
  · split
    · exact runnable_preempt
    · rfl

theorem preempt_ne_running (process : Process) : (preempt process).state ≠ .running := by
  rw [preempt]
  split
  next => exact ProcessState.noConfusion
  next h => exact h

/-- Handing over makes a coherent scheduler of a tidy one. -/
theorem HandsOver.coherent (h : s.HandsOver next t) (hs : s.Tidy)
    (hnext : (s.table.process next).state ≠ .stopped) : t.Coherent := by
  refine ⟨⟨fun slot => ?_, fun slot hrunning => ?_, ?_⟩, fun slot hcurrent => ?_,
    fun slot hcurrent => ?_⟩
  · rw [h.process]
    split
    · exact (hs.lawful slot).start
    · split
      · exact (hs.lawful slot).preempt
      · exact hs.lawful slot
  · rw [h.process] at hrunning
    split at hrunning
    next hslot => rw [h.current, hslot]
    next =>
      split at hrunning
      next => exact absurd hrunning (preempt_ne_running _)
      next hcurrent => exact absurd (hs.current slot hrunning) hcurrent
  · rw [h.nextPid]
    exact hs.nextPid_pos
  · rw [h.current, Option.some.injEq] at hcurrent
    subst hcurrent
    rw [h.process, if_pos rfl, start]
    split
    · exact ProcessState.noConfusion
    · exact hnext
  · rw [h.current] at hcurrent
    rw [h.last]
    exact Option.some.inj hcurrent

/-- While a process could run, such a one is selected. -/
theorem Selects.runnable (h : s.Selects next) (hs : s.Tidy)
    (hslot : (s.table.process slot).Runnable) : (s.table.process next).Runnable := by
  cases h with
  | ready hready hfirst => exact .inl hready
  | running hnone hcurrent hrunning => exact .inr hrunning
  | waiting hnone hidle hlive hfirst =>
    rcases hslot with hready | hrunning
    · exact absurd hready (hnone slot)
    · exact absurd hrunning (hidle slot (hs.current slot hrunning))

/-- Handing over to the selected slot leaves the processor busy: if the selected process cannot run,
no process can. -/
theorem HandsOver.busy (h : s.HandsOver next t) (hs : s.Tidy) (hnext : s.Selects next) :
    t.Busy := by
  intro slot hslot
  rw [h.runnable_iff] at hslot
  refine ⟨next, h.current, ?_⟩
  rw [h.process, if_pos rfl, state_start_eq_running]
  exact hnext.runnable hs hslot

/-- **A pass makes a coherent scheduler of a tidy one, and leaves it busy.** -/
theorem Passes.coherent {outcome : Option SwitchPlan × Scheduler} (h : s.Passes outcome)
    (hs : s.Tidy) : outcome.2.Coherent ∧ outcome.2.Busy := by
  cases h with
  | idle hstopped =>
    have hnever (slot : Slot) : ¬ (s.table.process slot).Runnable := by
      rintro (h | h) <;> exact ProcessState.noConfusion (h.symm.trans (hstopped slot))
    refine ⟨⟨⟨hs.lawful, fun slot h => absurd (.inr h) (hnever slot), hs.nextPid_pos⟩,
      (fun _ h => by cases h), (fun _ h => by cases h)⟩, fun slot h => ?_⟩
    exact absurd h (hnever slot)
  | picked hselects hhands =>
    exact ⟨hhands.coherent hs hselects.ne_stopped, hhands.busy hs hselects⟩

/-- A pass asks for a switch exactly if the processor moves to another slot. -/
theorem Passes.fst_eq_some_iff {outcome : Option SwitchPlan × Scheduler} (h : s.Passes outcome)
    (plan : SwitchPlan) :
    outcome.1 = some plan ↔ ∃ slot, outcome.2.current = some slot ∧ s.current ≠ some slot
      ∧ plan = ⟨s.savePlace, slot⟩ := by
  cases h with
  | idle hstopped =>
    refine ⟨(nomatch ·), ?_⟩
    rintro ⟨slot, h, -⟩
    cases h
  | @picked next t hselects hhands =>
    show s.planTo next = some plan ↔ ∃ slot, t.current = some slot ∧ _
    rw [hhands.current, planTo]
    constructor
    · intro h
      split at h
      next => cases h
      next hcurrent => exact ⟨next, rfl, hcurrent, (Option.some.inj h).symm⟩
    · rintro ⟨slot, hslot, hcurrent, rfl⟩
      cases hslot
      rw [if_neg hcurrent]

/-! ### Calls without a pass -/

theorem process_seat (s : Scheduler) (slot other : Slot) (process : Process) :
    (s.seat slot process).table.process other
      = if other = slot then process else s.table.process other :=
  ProcessTable.process_put ..

theorem Tidy.lawful_seat (hs : s.Tidy) {process : Process} (hlawful : process.Lawful)
    (other : Slot) : ((s.seat slot process).table.process other).Lawful := by
  rw [process_seat]
  split
  · exact hlawful
  · exact hs.lawful other

/-- A free slot does not have the processor. -/
theorem Coherent.current_ne_of_isFree (hs : s.Coherent)
    (hfree : (s.table.process slot).isFree = true) : s.current ≠ some slot := by
  intro hcurrent
  rw [Process.isFree, Bool.and_eq_true] at hfree
  exact hs.live slot hcurrent (of_decide_eq_true hfree.2)

theorem Coherent.lawful_worker (hs : s.Coherent) (entry : ℕ) (stack : Stack) :
    (Process.worker s.nextPid entry stack).Lawful :=
  Process.lawful_of_awake (Nat.ne_of_gt hs.nextPid_pos) ProcessState.noConfusion
    ProcessState.noConfusion rfl

theorem Coherent.lawful_adopted (hs : s.Coherent) : (Process.adopted s.nextPid).Lawful :=
  Process.lawful_of_awake (Nat.ne_of_gt hs.nextPid_pos) ProcessState.noConfusion
    ProcessState.noConfusion rfl

/-- **A call without a pass keeps a scheduler coherent.** -/
theorem Coherent.plain (hs : s.Coherent) (h : action.Plain s t) : t.Coherent := by
  cases h with
  | kept => exact hs
  | @created entry stackSize memory slot hgrants hfree =>
    have hcurrent := hs.current_ne_of_isFree (ProcessTable.isFree_of_freeSlot? hfree)
    refine ⟨⟨hs.lawful_seat (hs.lawful_worker ..), fun other h => ?_, pidAfter_pos _⟩,
      fun other h => ?_, hs.last⟩
    · change ((s.seat slot _).table.process other).state = .running at h
      rw [process_seat] at h
      split at h
      next => cases h
      next => exact hs.current other h
    · have hother : other ≠ slot := by
        rintro rfl
        exact hcurrent h
      show ((s.seat slot _).table.process other).state ≠ .stopped
      rw [process_seat, if_neg hother]
      exact hs.live other h
  | @adopted slot hnone hfree =>
    refine ⟨⟨hs.lawful_seat hs.lawful_adopted, fun other h => ?_, pidAfter_pos _⟩,
      fun other h => ?_, fun other h => Option.some.inj h⟩
    · change ((s.seat slot _).table.process other).state = .running at h
      rw [process_seat] at h
      split at h
      next hother => rw [hother]
      next =>
        have hrunning := hs.current other h
        rw [hnone] at hrunning
        cases hrunning
    · cases h
      show ((s.seat slot _).table.process slot).state ≠ .stopped
      rw [process_seat, if_pos rfl]
      exact ProcessState.noConfusion
  | @killed pid slot hslot hcurrent =>
    refine ⟨⟨fun other => ?_, fun other h => ?_, hs.nextPid_pos⟩, fun other h => ?_, hs.last⟩
    · rw [process_update]
      split
      · exact Process.lawful_free
      · exact hs.lawful other
    · rw [process_update] at h
      split at h
      next => cases h
      next => exact hs.current other h
    · have hother : other ≠ slot := by
        rintro rfl
        exact hcurrent h
      rw [process_update_of_ne hother]
      exact hs.live other h
  | @advanced ticks =>
    refine ⟨hs.advanceSleep ticks, fun other h => ?_, hs.last⟩
    rw [process_advanceSleep]
    exact advance_ne_stopped ticks (hs.live other h)
  | taken => exact ⟨⟨hs.lawful, hs.current, hs.nextPid_pos⟩, hs.live, hs.last⟩

/-! ### Runs -/

/-- **Every call keeps a scheduler coherent**, and if it dispatches it leaves it busy. -/
theorem Coherent.apply (hs : s.Coherent) (action : Action) :
    (action.apply s).Coherent ∧ (action.dispatches s = true → (action.apply s).Busy) := by
  cases hdispatches : action.dispatches s with
  | true =>
    obtain ⟨hcoherent, hbusy⟩ := (Action.passes hdispatches hs.live).coherent (hs.prepared action)
    exact ⟨hcoherent, fun _ => hbusy⟩
  | false => exact ⟨hs.plain (Action.plain hdispatches).2, (nomatch ·)⟩

theorem Coherent.run (hs : s.Coherent) (actions : List Action) : (s.run actions).Coherent := by
  induction actions generalizing s with
  | nil => exact hs
  | cons action actions ih => exact ih (hs.apply action).1

theorem coherent_after (actions : List Action) : (after actions).Coherent :=
  coherent_initial.run actions

/-- Preparing a pass does not move the processor. -/
theorem Action.savePlace_prepared (s : Scheduler) (action : Action) :
    (action.prepared s).savePlace = s.savePlace := by
  rw [savePlace, savePlace, Action.current_prepared]

/-- Only what is running is adopted without a switch when the processor moves to another slot. -/
theorem Action.Plain.current (h : action.Plain s t) (hadopt : action ≠ .adoptCurrent) :
    t.current = s.current := by
  cases h with
  | adopted hnone hfree => exact absurd rfl hadopt
  | kept | created | killed | advanced | taken => rfl

/-- **A switch is asked for exactly if the processor moves to another slot.** The running context is
to be saved with the slot that had the processor. -/
theorem Coherent.perform_fst (hs : s.Coherent) (hadopt : action ≠ .adoptCurrent)
    (plan : SwitchPlan) :
    (action.perform s).1 = some plan ↔ ∃ slot, (action.apply s).current = some slot
      ∧ s.current ≠ some slot ∧ plan = ⟨s.savePlace, slot⟩ := by
  cases hdispatches : action.dispatches s with
  | true =>
    have hpass := (Action.passes hdispatches hs.live).fst_eq_some_iff plan
    rwa [Action.current_prepared, Action.savePlace_prepared] at hpass
  | false =>
    obtain ⟨hnone, hplain⟩ := Action.plain hdispatches
    rw [hnone, hplain.current hadopt]
    refine ⟨(nomatch ·), ?_⟩
    rintro ⟨slot, hcurrent, hne, -⟩
    exact absurd hcurrent hne

/-- **The invariants of the scheduler.** After any calls, at most one process is running, and it is
in the slot that has the processor; that slot is not free; exactly the stopped ones have number zero,
and exactly the sleeping ones have ticks left. A call that dispatches leaves the processor busy. And
a call asks for a switch exactly if the processor moves to another slot: from the context of the slot
that had the processor, or from the boot area if none had it. Only the adoption of what is running
gives the processor to a slot without a switch. -/
theorem invariants_after (actions : List Action) (action : Action) :
    let s := after actions
    (∀ slot other, (s.table.process slot).state = .running →
        (s.table.process other).state = .running → slot = other)
      ∧ (∀ slot, (s.table.process slot).state = .running → s.current = some slot)
      ∧ (∀ slot, s.current = some slot → (s.table.process slot).isFree = false)
      ∧ (∀ slot, (s.table.process slot).pid = 0 ↔ (s.table.process slot).state = .stopped)
      ∧ (∀ slot, (s.table.process slot).state = .sleeping ↔ 0 < (s.table.process slot).wakeTicks)
      ∧ (action.dispatches s = true → (action.apply s).Busy)
      ∧ (action ≠ .adoptCurrent → ∀ plan, (action.perform s).1 = some plan ↔
        ∃ slot, (action.apply s).current = some slot ∧ s.current ≠ some slot
          ∧ plan = ⟨s.current.elim .boot .slot, slot⟩) := by
  intro s
  have hs : s.Coherent := coherent_after actions
  refine ⟨fun slot other hslot hother => ?_, hs.current, fun slot hcurrent => ?_,
    fun slot => (hs.lawful slot).stopped_iff, fun slot => (hs.lawful slot).sleeping_iff,
    (hs.apply action).2, fun hadopt plan => ?_⟩
  · exact Option.some.inj ((hs.current slot hslot).symm.trans (hs.current other hother))
  · exact Bool.eq_false_iff.mpr fun hfree => hs.current_ne_of_isFree hfree hcurrent
  · have hplace : s.savePlace = s.current.elim .boot .slot := by
      rw [savePlace]
      cases s.current <;> rfl
    rw [← hplace]
    exact hs.perform_fst hadopt plan

/-- One process is asleep on the processor and another one comes: scheduling switches to it. -/
theorem invariants_after_switch :
    let s := after [.create 1 0 .ample, .schedule, .sleepCurrent 5, .create 2 0 .ample]
    Action.schedule.dispatches s = true ∧ (Action.schedule.apply s).Busy
      ∧ Action.schedule ≠ .adoptCurrent ∧ (Action.schedule.perform s).1 = some ⟨.slot 0, 1⟩ := by
  intro s
  have hinvariants :=
    invariants_after [.create 1 0 .ample, .schedule, .sleepCurrent 5, .create 2 0 .ample] .schedule
  have hdispatches : Action.schedule.dispatches s = true := rfl
  have hadopt : Action.schedule ≠ .adoptCurrent := nofun
  have hswitch := hinvariants.2.2.2.2.2.2 hadopt ⟨.slot 0, 1⟩
  exact ⟨hdispatches, hinvariants.2.2.2.2.2.1 hdispatches, hadopt,
    hswitch.mpr ⟨1, by decide, by decide, by decide⟩⟩

end Scheduler

end PocketKernel
