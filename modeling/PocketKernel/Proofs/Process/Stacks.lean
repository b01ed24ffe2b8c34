import Mathlib.Algebra.BigOperators.Fin
import Mathlib.Algebra.Order.Sub.Basic
import Mathlib.Data.Multiset.OrderedMonoid
import PocketKernel.Proofs.Process.Numbers

/-!
# Where stacks are

Every stack is made for a process and stays with it for as long as the process lives. A process that
ends itself still stands on its stack, so the stack is parked, and it is released by whoever runs
next and takes it, or when another stack is parked in its place. The stack of a process that is
killed by another one is released at once. No other call releases a stack.

What a call releases is what the scheduler has before it and not after it. The ledger of a run sums
this up, and lists the stacks that were made. It balances: what was released and what the scheduler
has is together what was made. As no stack is made twice, every stack is in one place at any time.

## Main definitions

* `Scheduler.stacksHeld`, `Scheduler.Action.releases`: the stacks that the scheduler has, and those
  that a call releases.
* `Scheduler.Action.Ends`: a call ends the process that has the processor.
* `Scheduler.Issue`, `Scheduler.Ledger`, `Scheduler.ledger`: the stacks that were made and released
  in a run.
* `Scheduler.StackPlace`, `Scheduler.Ledger.At`: where a stack is.
* `Scheduler.StacksAccounted`: all that is promised about stacks.

## Main results

* `Scheduler.restacks`: what a call does to the stacks.
* `Scheduler.Ledger.Balanced.apply`: every call keeps the ledger balanced.
* `Scheduler.Ledger.Balanced.existsUnique_at`: every stack that was made is in one place.
* `Scheduler.stacks_accounted`: the promise holds after any calls.
-/

namespace PocketKernel

namespace Scheduler

variable {s t : Scheduler} {slot next : Slot} {action : Action} {actions : List Action}

/-! ### The stacks that the scheduler has -/

/-- A stack that was made, and for which process: its slot and its number. -/
structure Issue where
  stack : Stack
  slot : Slot
  number : ℕ
deriving DecidableEq

/-- The stack of the process in a slot. -/
def stackOf (s : Scheduler) (slot : Slot) : Option Stack := (s.table.process slot).stack

/-- The stack of the process in a slot, with the number of the process. -/
def holding (s : Scheduler) (slot : Slot) : Option Issue :=
  (s.stackOf slot).map (⟨·, slot, s.pid slot⟩)

/-- What is in a place that holds at most one thing. -/
def contents {α : Type} (place : Option α) : Multiset α := ↑place.toList

/-- The stacks that are held with some processes. -/
def stacksOf (holding : Slot → Option Issue) : Multiset Stack :=
  ∑ slot, contents ((holding slot).map Issue.stack)

/-- All stacks that the scheduler has: those of its processes, and the parked one. -/
def stacksHeld (s : Scheduler) : Multiset Stack := stacksOf s.holding + contents s.parked

/-- What a call releases: what the scheduler has before it and not after it. -/
def Action.releases (s : Scheduler) (action : Action) : Multiset Stack :=
  s.stacksHeld - (action.apply s).stacksHeld

@[simp] theorem contents_none {α : Type} : contents (none : Option α) = 0 := rfl

@[simp] theorem contents_some {α : Type} (a : α) : contents (some a) = {a} := rfl

theorem mem_contents {α : Type} {place : Option α} {a : α} :
    a ∈ contents place ↔ place = some a := by
  rw [contents, Multiset.mem_coe, Option.mem_toList]

theorem mem_stacksHeld_of_parked {stack : Stack} (h : s.parked = some stack) :
    stack ∈ s.stacksHeld :=
  Multiset.mem_add.mpr (.inr (mem_contents.mpr h))

theorem map_stack_holding (s : Scheduler) (slot : Slot) :
    (s.holding slot).map Issue.stack = s.stackOf slot := by
  rw [holding, Option.map_map]
  exact Option.map_id'

/-- What changes hands in one slot. -/
theorem stacksOf_update (holding : Slot → Option Issue) (slot : Slot) (issue : Option Issue) :
    stacksOf (Function.update holding slot issue) + contents ((holding slot).map Issue.stack)
      = stacksOf holding + contents (issue.map Issue.stack) := by
  have hothers : ∑ other ∈ Finset.univ.erase slot,
        contents ((Function.update holding slot issue other).map Issue.stack)
      = ∑ other ∈ Finset.univ.erase slot, contents ((holding other).map Issue.stack) := by
    refine Finset.sum_congr rfl fun other hother => ?_
    rw [Function.update_of_ne (Finset.ne_of_mem_erase hother)]
  rw [stacksOf, stacksOf, ← Finset.add_sum_erase _ _ (Finset.mem_univ slot), hothers,
    ← Finset.add_sum_erase _ (fun other => contents ((holding other).map Issue.stack))
      (Finset.mem_univ slot), Function.update_self]
  ac_rfl

/-! ### What a call does to the stacks -/

/-- The call ends the process in a slot, which has the processor. -/
def Action.Ends (s : Scheduler) (slot : Slot) : Action → Prop
  | exitCurrent => s.current = some slot
  | kill pid => s.current = some slot ∧ s.table.slotOf? pid = some slot
      ∧ (s.table.process slot).sheltered = false
  | create .. | adoptCurrent | sleepCurrent _ | yieldCurrent | schedule | advanceSleep _ | tick _
  | takeParkedStack => False

/-- The stack that a call makes, and the process that it is for. -/
def Action.issue? (s : Scheduler) : Action → Option Issue
  | create entry stackSize memory =>
    match s.create entry stackSize memory, s.table.freeSlot? with
    | .ok (number, t), some slot => (t.stackOf slot).map (⟨·, slot, number⟩)
    | _, _ => none
  | adoptCurrent | exitCurrent | sleepCurrent _ | yieldCurrent | kill _ | schedule | advanceSleep _
  | tick _ | takeParkedStack => none

/-- All stacks stay where they are. -/
structure KeepsStacks (s t : Scheduler) : Prop where
  holding : t.holding = s.holding
  parked : t.parked = s.parked
  nextStack : t.nextStack = s.nextStack

/-- What a call does to the stacks. -/
inductive Restacks (s : Scheduler) (action : Action) (t : Scheduler) : Prop
  | still (hissue : action.issue? s = none) (hkeeps : s.KeepsStacks t)
  /-- A stack is made for a newcomer. -/
  | issued {issue : Issue} (hissue : action.issue? s = some issue)
      (hserial : issue.stack.serial = s.nextStack) (hnumber : issue.number = s.nextPid)
      (hfree : s.holding issue.slot = none)
      (hholding : t.holding = Function.update s.holding issue.slot (some issue))
      (hparked : t.parked = s.parked) (hnext : t.nextStack = s.nextStack + 1)
  /-- The stack of the process that ends is parked. -/
  | ended {slot : Slot} (hends : action.Ends s slot)
      (hholding : t.holding = Function.update s.holding slot none)
      (hparked : t.parked = s.stackOf slot) (hnext : t.nextStack = s.nextStack)
  /-- The stack of a process that does not have the processor goes with it. -/
  | torn {pid : ℕ} {slot : Slot} (hkill : action = .kill pid)
      (hslot : s.table.slotOf? pid = some slot) (hcurrent : s.current ≠ some slot)
      (hholding : t.holding = Function.update s.holding slot none)
      (hparked : t.parked = s.parked) (hnext : t.nextStack = s.nextStack)
  /-- The parked stack is taken. -/
  | taken (htake : action = .takeParkedStack) (hcurrent : s.current.isSome = true)
      (hholding : t.holding = s.holding) (hparked : t.parked = none)
      (hnext : t.nextStack = s.nextStack)

theorem KeepsStacks.refl (s : Scheduler) : s.KeepsStacks s := ⟨rfl, rfl, rfl⟩

theorem KeepsStacks.trans {u : Scheduler} (h : s.KeepsStacks t) (h' : t.KeepsStacks u) :
    s.KeepsStacks u :=
  ⟨h'.holding.trans h.holding, h'.parked.trans h.parked, h'.nextStack.trans h.nextStack⟩

/-- The stack that goes with a process. -/
def issueOf (slot : Slot) (process : Process) : Option Issue :=
  process.stack.map (⟨·, slot, process.pid⟩)

theorem holding_eq (s : Scheduler) (slot : Slot) :
    s.holding slot = issueOf slot (s.table.process slot) :=
  rfl

theorem issueOf_start (slot : Slot) (process : Process) :
    issueOf slot (start process) = issueOf slot process := by
  rw [start]
  split <;> rfl

theorem issueOf_preempt (slot : Slot) (process : Process) :
    issueOf slot (preempt process) = issueOf slot process := by
  rw [preempt]
  split <;> rfl

theorem issueOf_advance (slot : Slot) (ticks : ℕ) (process : Process) :
    issueOf slot (advance ticks process) = issueOf slot process := by
  rw [advance]
  split <;> rfl

/-- One process is replaced by another. -/
theorem holding_of_process {process : Process}
    (h : ∀ other, t.table.process other = if other = slot then process else s.table.process other) :
    t.holding = Function.update s.holding slot (issueOf slot process) := by
  funext other
  rw [holding_eq, h]
  by_cases hother : other = slot
  · rw [if_pos hother, hother, Function.update_self]
  · rw [if_neg hother, Function.update_of_ne hother, holding_eq]

theorem holding_update (s : Scheduler) (slot : Slot) (change : Process → Process) :
    (s.update slot change).holding
      = Function.update s.holding slot (issueOf slot (change (s.table.process slot))) :=
  holding_of_process fun _ => process_update ..

theorem holding_seat (s : Scheduler) (slot : Slot) (process : Process) :
    (s.seat slot process).holding = Function.update s.holding slot (issueOf slot process) :=
  holding_of_process fun _ => process_seat ..

theorem keepsStacks_advanceSleep (s : Scheduler) (ticks : ℕ) :
    s.KeepsStacks (s.advanceSleep ticks) := by
  refine ⟨funext fun slot => ?_, rfl, rfl⟩
  rw [holding_eq, process_advanceSleep, issueOf_advance, holding_eq]

theorem keepsStacks_changeCurrent {change : Process → Process}
    (hchange : ∀ slot process, issueOf slot (change process) = issueOf slot process)
    (s : Scheduler) : s.KeepsStacks (s.changeCurrent change) := by
  refine ⟨funext fun slot => ?_, parked_changeCurrent .., nextStack_changeCurrent ..⟩
  rw [holding_eq, process_changeCurrent]
  split
  · exact hchange _ _
  · rfl

/-- Who has the processor is no matter of stacks. -/
theorem keepsStacks_schedule (s : Scheduler) : s.KeepsStacks s.schedule.2 := by
  cases hselect : s.select with
  | none =>
    rw [schedule_of_select_eq_none hselect]
    exact .refl s
  | some next =>
    have hholding : s.schedule.2.holding = s.holding := by
      obtain ⟨t, hschedule, hhands⟩ := schedule_of_select hselect
      rw [hschedule]
      funext slot
      rw [holding_eq, hhands.process]
      split
      · exact issueOf_start ..
      · split
        · exact issueOf_preempt ..
        · rfl
    by_cases hcurrent : s.current = some next
    · refine ⟨hholding, ?_, ?_⟩ <;> rw [schedule_of_current hselect hcurrent] <;> rfl
    · refine ⟨hholding, ?_, ?_⟩ <;> rw [schedule_of_ne_current hselect hcurrent]
      · exact parked_changeCurrent ..
      · exact nextStack_changeCurrent ..

/-- What ends leaves its stack behind, parked. -/
theorem exitCurrent_stacks (hcurrent : s.current = some slot) :
    s.exitCurrent.2.holding = Function.update s.holding slot none
      ∧ s.exitCurrent.2.parked = s.stackOf slot ∧ s.exitCurrent.2.nextStack = s.nextStack := by
  have hended : s.ended.holding = Function.update s.holding slot none := by
    show (s.changeCurrent .retired).holding = _
    rw [changeCurrent_of_some hcurrent, holding_update]
    rfl
  have hparked : s.ended.parked = s.stackOf slot := by
    rw [ended, hcurrent]
    rfl
  have hkeeps : s.ended.KeepsStacks s.exitCurrent.2 := by
    obtain ⟨hholding, hparked, hnext⟩ := keepsStacks_schedule s.ended
    rw [exitCurrent_of_current hcurrent]
    dsimp only
    split <;> exact ⟨hholding, hparked, hnext⟩
  exact ⟨hkeeps.holding.trans hended, hkeeps.parked.trans hparked,
    hkeeps.nextStack.trans (nextStack_changeCurrent ..)⟩

theorem Action.apply_of_ends (hends : action.Ends s slot) :
    s.current = some slot ∧ action.apply s = s.exitCurrent.2 := by
  cases action with
  | exitCurrent => exact ⟨hends, rfl⟩
  | kill pid =>
    obtain ⟨hcurrent, hslot, hsheltered⟩ := hends
    refine ⟨hcurrent, ?_⟩
    rw [apply, perform, kill_current hslot hsheltered hcurrent]
  | create | adoptCurrent | sleepCurrent | yieldCurrent | schedule | advanceSleep | tick
  | takeParkedStack => exact hends.elim

theorem Action.issue?_of_ends (hends : action.Ends s slot) : action.issue? s = none := by
  cases action with
  | exitCurrent | kill => rfl
  | create | adoptCurrent | sleepCurrent | yieldCurrent | schedule | advanceSleep | tick
  | takeParkedStack => exact hends.elim

theorem restacks_of_ends (hends : action.Ends s slot) : s.Restacks action (action.apply s) := by
  obtain ⟨hcurrent, happly⟩ := Action.apply_of_ends hends
  obtain ⟨hholding, hparked, hnext⟩ := exitCurrent_stacks hcurrent
  rw [happly]
  exact .ended hends hholding hparked hnext

/-- The stack that a newcomer gets. -/
theorem issue?_of_create {entry stackSize : ℕ} {memory : StackMemory} {outcome : ℕ × Scheduler}
    (h : s.create entry stackSize memory = .ok outcome) :
    ∃ issue, (Action.create entry stackSize memory).issue? s = some issue
      ∧ issue.stack = ⟨s.nextStack, askedSize stackSize⟩ ∧ outcome.1 = s.nextPid
      ∧ issue.number = outcome.1 ∧ s.table.freeSlot? = some issue.slot
      ∧ outcome.2.stackOf issue.slot = some issue.stack
      ∧ outcome.2.holding = Function.update s.holding issue.slot (some issue)
      ∧ outcome.2.parked = s.parked ∧ outcome.2.nextStack = s.nextStack + 1 := by
  obtain ⟨-, slot, hfree, houtcome⟩ := of_create_eq_ok h
  have hstack : outcome.2.stackOf slot = some ⟨s.nextStack, askedSize stackSize⟩ := by
    rw [houtcome]
    show ((s.seat slot _).table.process slot).stack = _
    rw [process_seat, if_pos rfl]
    rfl
  refine ⟨⟨⟨s.nextStack, askedSize stackSize⟩, slot, outcome.1⟩, ?_, rfl, ?_, rfl, hfree, hstack,
    ?_⟩
  · rw [Action.issue?, h, hfree]
    dsimp only
    rw [hstack, Option.map_some]
  · rw [houtcome]
  · rw [houtcome]
    exact ⟨holding_seat .., rfl, rfl⟩

/-- **What a call does to the stacks.** It is supposed that free slots have none. -/
theorem restacks (hvacant : ∀ slot, s.pid slot = 0 → s.holding slot = none) (action : Action) :
    s.Restacks action (action.apply s) := by
  cases action with
  | schedule => exact .still rfl (keepsStacks_schedule s)
  | advanceSleep ticks => exact .still rfl (keepsStacks_advanceSleep s ticks)
  | tick ticks =>
    exact .still rfl ((keepsStacks_advanceSleep s ticks).trans (keepsStacks_schedule _))
  | yieldCurrent =>
    show s.Restacks _ s.yieldCurrent.2
    rw [yieldCurrent_eq]
    exact .still rfl ((keepsStacks_changeCurrent issueOf_preempt s).trans (keepsStacks_schedule _))
  | sleepCurrent ticks =>
    show s.Restacks _ (s.sleepCurrent ticks).2
    cases hcurrent : s.current with
    | none =>
      rw [sleepCurrent, hcurrent]
      exact .still rfl (.refl s)
    | some slot =>
      rw [sleepCurrent_of_current hcurrent]
      refine .still rfl ((keepsStacks_changeCurrent (fun slot process => ?_) s).trans
        (keepsStacks_schedule _))
      split
      · exact issueOf_preempt ..
      · rfl
  | exitCurrent =>
    cases hcurrent : s.current with
    | none =>
      have happly : Action.exitCurrent.apply s = s := by
        rw [Action.apply, Action.perform, exitCurrent, hcurrent]
      rw [happly]
      exact .still rfl (.refl s)
    | some slot => exact restacks_of_ends (show Action.exitCurrent.Ends s slot from hcurrent)
  | kill pid =>
    rcases Action.apply_kill s pid with hsame | ⟨slot, hslot, hsheltered,
      ⟨hcurrent, -⟩ | ⟨hcurrent, hupdate⟩⟩
    · rw [hsame]
      exact .still rfl (.refl s)
    · have hends : (Action.kill pid).Ends s slot := ⟨hcurrent, hslot, hsheltered⟩
      exact restacks_of_ends hends
    · rw [hupdate]
      exact .torn rfl hslot hcurrent (holding_update ..) rfl rfl
  | takeParkedStack =>
    show s.Restacks _ s.takeParkedStack.2
    cases hcurrent : s.current with
    | none =>
      rw [takeParkedStack, hcurrent]
      exact .still rfl (.refl s)
    | some slot =>
      have hsome : s.current.isSome = true := by rw [hcurrent, Option.isSome_some]
      rw [takeParkedStack, hcurrent]
      exact .taken rfl hsome rfl rfl rfl
  | adoptCurrent =>
    rw [Action.apply, Action.perform]
    cases hadopt : s.adoptCurrent with
    | error cause => exact .still rfl (.refl s)
    | ok outcome =>
      obtain ⟨-, -, rfl⟩ | ⟨slot, hnone, hfree, rfl⟩ := of_adoptCurrent_eq_ok hadopt
      · exact .still rfl (.refl s)
      · refine .still rfl ⟨(holding_seat ..).trans ?_, rfl, rfl⟩
        rw [Function.update_eq_self_iff, hvacant slot (pid_of_freeSlot? hfree)]
        rfl
  | create entry stackSize memory =>
    rw [Action.apply, Action.perform]
    cases hcreate : s.create entry stackSize memory with
    | error cause =>
      refine .still ?_ (.refl s)
      rw [Action.issue?, hcreate]
    | ok outcome =>
      obtain ⟨issue, hissue, hmade, hpid, hnumber, hfree, hstack, hholding, hparked, hnext⟩ :=
        issue?_of_create hcreate
      exact .issued hissue (by rw [hmade]) (hnumber.trans hpid)
        (hvacant _ (pid_of_freeSlot? hfree)) hholding hparked hnext

/-! ### What a call releases -/

theorem KeepsStacks.stacksHeld (h : s.KeepsStacks t) : t.stacksHeld = s.stacksHeld := by
  rw [Scheduler.stacksHeld, Scheduler.stacksHeld, h.holding, h.parked]

/-- When a stack is made, all that were there stay. -/
theorem stacksHeld_of_issued {issue : Issue} (hfree : s.holding issue.slot = none)
    (hholding : t.holding = Function.update s.holding issue.slot (some issue))
    (hparked : t.parked = s.parked) : t.stacksHeld = s.stacksHeld + {issue.stack} := by
  have hsum := stacksOf_update s.holding issue.slot (some issue)
  rw [hfree, Option.map_none, contents_none, add_zero, Option.map_some, contents_some] at hsum
  rw [stacksHeld, hholding, hparked, hsum, stacksHeld]
  ac_rfl

/-- What was parked before is gone when a process parks its stack. -/
theorem stacksHeld_of_ended (hholding : t.holding = Function.update s.holding slot none)
    (hparked : t.parked = s.stackOf slot) :
    s.stacksHeld = t.stacksHeld + contents s.parked := by
  have hsum := stacksOf_update s.holding slot none
  rw [map_stack_holding, Option.map_none, contents_none, add_zero] at hsum
  rw [stacksHeld, stacksHeld, hholding, hparked, hsum]

theorem stacksHeld_of_torn (hholding : t.holding = Function.update s.holding slot none)
    (hparked : t.parked = s.parked) :
    s.stacksHeld = t.stacksHeld + contents (s.stackOf slot) := by
  have hsum := stacksOf_update s.holding slot none
  rw [map_stack_holding, Option.map_none, contents_none, add_zero] at hsum
  rw [stacksHeld, stacksHeld, hholding, hparked, ← hsum]
  ac_rfl

theorem stacksHeld_of_taken (hholding : t.holding = s.holding) (hparked : t.parked = none) :
    s.stacksHeld = t.stacksHeld + contents s.parked := by
  rw [stacksHeld, stacksHeld, hholding, hparked, contents_none, add_zero]

theorem Action.releases_of_eq {gone : Multiset Stack}
    (h : s.stacksHeld = (action.apply s).stacksHeld + gone) : action.releases s = gone := by
  rw [releases, h, add_tsub_cancel_left]

theorem Action.releases_eq_zero (h : s.stacksHeld ≤ (action.apply s).stacksHeld) :
    action.releases s = 0 :=
  tsub_eq_zero_iff_le.mpr h

/-- **No stack is lost**: what a call leaves and what it releases is what was there, and what it
made. -/
theorem Restacks.balance (h : s.Restacks action (action.apply s)) :
    (action.apply s).stacksHeld + action.releases s
      = s.stacksHeld + contents ((action.issue? s).map Issue.stack) := by
  have hfewer {gone : Multiset Stack} (hissue : action.issue? s = none)
      (heq : s.stacksHeld = (action.apply s).stacksHeld + gone) :
      (action.apply s).stacksHeld + action.releases s
        = s.stacksHeld + contents ((action.issue? s).map Issue.stack) := by
    rw [Action.releases_of_eq heq, hissue, Option.map_none, contents_none, add_zero, ← heq]
  cases h with
  | still hissue hkeeps => exact hfewer hissue (hkeeps.stacksHeld.symm.trans (add_zero _).symm)
  | issued hissue hserial hnumber hfree hholding hparked hnext =>
    have hheld := stacksHeld_of_issued hfree hholding hparked
    rw [Action.releases_eq_zero (hheld ▸ Multiset.le_add_right ..), hheld, hissue, add_zero]
    rfl
  | ended hends hholding hparked hnext =>
    exact hfewer (Action.issue?_of_ends hends) (stacksHeld_of_ended hholding hparked)
  | torn hkill hslot hcurrent hholding hparked hnext =>
    exact hfewer (hkill ▸ rfl) (stacksHeld_of_torn hholding hparked)
  | taken htake hcurrent hholding hparked hnext =>
    exact hfewer (htake ▸ rfl) (stacksHeld_of_taken hholding hparked)

/-! ### The ledger of a run -/

/-- A scheduler, and the stacks that were made and released on the way to it. -/
structure Ledger where
  scheduler : Scheduler
  issued : List Issue
  released : Multiset Stack

/-- The ledger after a call. -/
def Ledger.apply (l : Ledger) (action : Action) : Ledger where
  scheduler := action.apply l.scheduler
  issued := l.issued ++ (action.issue? l.scheduler).toList
  released := l.released + action.releases l.scheduler

/-- The ledger of a run from the beginning. -/
def ledger (actions : List Action) : Ledger := actions.foldl Ledger.apply ⟨initial, [], 0⟩

theorem ledger_concat (actions : List Action) (action : Action) :
    ledger (actions ++ [action]) = (ledger actions).apply action :=
  List.foldl_concat ..

theorem scheduler_ledger (actions : List Action) : (ledger actions).scheduler = after actions := by
  suffices h : ∀ l : Ledger, (actions.foldl Ledger.apply l).scheduler = l.scheduler.run actions from
    h _
  induction actions with
  | nil => exact fun l => rfl
  | cons action actions ih => exact fun l => ih (l.apply action)

namespace Ledger

variable {l : Ledger}

/-- The ledger balances, and no stack was made twice. -/
structure Balanced (l : Ledger) : Prop where
  coherent : l.scheduler.Coherent
  balance : l.released + l.scheduler.stacksHeld = ↑(l.issued.map Issue.stack)
  nodup : (l.issued.map Issue.stack).Nodup
  serial_lt : ∀ issue ∈ l.issued, issue.stack.serial < l.scheduler.nextStack
  number_ne_zero : ∀ issue ∈ l.issued, issue.number ≠ 0
  /-- Every process has the stack that was made for it. -/
  holding : ∀ slot, ∀ issue ∈ l.scheduler.holding slot, issue ∈ l.issued

theorem balanced_initial : Balanced ⟨initial, [], 0⟩ := by
  have hholding (slot : Slot) : initial.holding slot = none :=
    congrArg (issueOf slot) (ProcessTable.process_replicate ..)
  refine ⟨coherent_initial, ?_, .nil, List.forall_mem_nil _, List.forall_mem_nil _,
    fun slot issue h => ?_⟩
  · rw [stacksHeld, stacksOf]
    simp only [hholding]
    rfl
  · rw [hholding] at h
    cases h

/-- A free slot has no stack. -/
theorem Balanced.holding_eq_none (hl : l.Balanced) {slot : Slot}
    (hfree : l.scheduler.pid slot = 0) : l.scheduler.holding slot = none := by
  rw [Option.eq_none_iff_forall_ne_some]
  intro issue h
  refine hl.number_ne_zero issue (hl.holding slot issue h) ?_
  obtain ⟨stack, -, rfl⟩ := Option.map_eq_some_iff.mp h
  exact hfree

/-- A call that makes no stack. -/
theorem Balanced.apply_of_none (hl : l.Balanced) (hissue : action.issue? l.scheduler = none)
    (hbalance : (l.apply action).released + (l.apply action).scheduler.stacksHeld
      = ↑((l.apply action).issued.map Issue.stack))
    (hholding : ∀ slot, ∀ issue ∈ (l.apply action).scheduler.holding slot,
      issue ∈ l.scheduler.holding slot)
    (hnext : (l.apply action).scheduler.nextStack = l.scheduler.nextStack) :
    (l.apply action).Balanced := by
  have hissued : (l.apply action).issued = l.issued := by
    rw [apply, hissue, Option.toList_none, List.append_nil]
  refine ⟨(hl.coherent.apply action).1, hbalance, ?_, ?_, ?_, fun slot issue h => ?_⟩
  · rw [hissued]
    exact hl.nodup
  · rw [hissued, hnext]
    exact hl.serial_lt
  · rw [hissued]
    exact hl.number_ne_zero
  · rw [hissued]
    exact hl.holding slot issue (hholding slot issue h)

/-- **Every call keeps the ledger balanced.** -/
theorem Balanced.apply (hl : l.Balanced) (action : Action) : (l.apply action).Balanced := by
  have hrestacks : l.scheduler.Restacks action (action.apply l.scheduler) :=
    restacks (fun _ => hl.holding_eq_none) action
  have hbalance : (l.apply action).released + (l.apply action).scheduler.stacksHeld
      = ↑((l.apply action).issued.map Issue.stack) := by
    have hcall := hrestacks.balance
    calc l.released + action.releases l.scheduler + (action.apply l.scheduler).stacksHeld
        = l.released + ((action.apply l.scheduler).stacksHeld + action.releases l.scheduler) := by
          ac_rfl
      _ = l.released + l.scheduler.stacksHeld
          + contents ((action.issue? l.scheduler).map Issue.stack) := by rw [hcall, add_assoc]
      _ = ↑((l.issued ++ (action.issue? l.scheduler).toList).map Issue.stack) := by
          rw [hl.balance, List.map_append, ← Multiset.coe_add, contents, Option.toList_map]
  have hfewer {slot other : Slot} {issue : Issue}
      (h : issue ∈ Function.update l.scheduler.holding slot none other) :
      issue ∈ l.scheduler.holding other := by
    rw [Function.update_apply] at h
    split at h
    · cases h
    · exact h
  cases hrestacks with
  | still hissue hkeeps =>
    exact hl.apply_of_none hissue hbalance (fun slot issue h => hkeeps.holding ▸ h)
      hkeeps.nextStack
  | ended hends hholding hparked hnext =>
    exact hl.apply_of_none (Action.issue?_of_ends hends) hbalance
      (fun slot issue h => hfewer (hholding ▸ h)) hnext
  | torn hkill hslot hcurrent hholding hparked hnext =>
    exact hl.apply_of_none (hkill ▸ rfl) hbalance (fun slot issue h => hfewer (hholding ▸ h)) hnext
  | taken htake hcurrent hholding hparked hnext =>
    exact hl.apply_of_none (htake ▸ rfl) hbalance (fun slot issue h => hholding ▸ h) hnext
  | @issued made hissue hserial hnumber hfree hholding hparked hnext =>
    have hissued : (l.apply action).issued = l.issued ++ [made] := by
      rw [Ledger.apply, hissue, Option.toList_some]
    refine ⟨(hl.coherent.apply action).1, hbalance, ?_, ?_, ?_, fun slot issue h => ?_⟩
    · rw [hissued, List.map_append, List.map_singleton, ← List.concat_eq_append,
        List.nodup_concat]
      refine ⟨fun hmem => ?_, hl.nodup⟩
      obtain ⟨issue, hold, hsame⟩ := List.mem_map.mp hmem
      have hlt := hl.serial_lt issue hold
      rw [hsame, hserial] at hlt
      exact Nat.lt_irrefl _ hlt
    · rw [hissued, List.forall_mem_append, List.forall_mem_singleton]
      show (∀ issue ∈ l.issued, issue.stack.serial < (action.apply l.scheduler).nextStack)
        ∧ made.stack.serial < (action.apply l.scheduler).nextStack
      rw [hnext, hserial]
      exact ⟨fun issue h => Nat.lt_succ_of_lt (hl.serial_lt issue h), Nat.lt_succ_self _⟩
    · rw [hissued, List.forall_mem_append, List.forall_mem_singleton, hnumber]
      exact ⟨hl.number_ne_zero, Nat.ne_of_gt hl.coherent.nextPid_pos⟩
    · rw [hissued, List.mem_append, List.mem_singleton]
      change issue ∈ (action.apply l.scheduler).holding slot at h
      rw [hholding, Function.update_apply] at h
      split at h
      · exact .inr (Option.some.inj h).symm
      · exact .inl (hl.holding slot issue h)

end Ledger

theorem balanced_ledger (actions : List Action) : (ledger actions).Balanced := by
  suffices h : ∀ l : Ledger, l.Balanced → (actions.foldl Ledger.apply l).Balanced from
    h _ Ledger.balanced_initial
  induction actions with
  | nil => exact fun l hl => hl
  | cons action actions ih => exact fun l hl => ih _ (hl.apply action)

/-! ### Where a stack is -/

/-- Where a stack can be. -/
inductive StackPlace where
  /-- With the process that it was made for. -/
  | process
  | parked
  | released
deriving DecidableEq

/-- A stack that was made is in a place. -/
def Ledger.At (l : Ledger) (issue : Issue) : StackPlace → Prop
  | .process => l.scheduler.Live issue.slot ∧ l.scheduler.pid issue.slot = issue.number
      ∧ l.scheduler.stackOf issue.slot = some issue.stack
  | .parked => l.scheduler.parked = some issue.stack
  | .released => issue.stack ∈ l.released

/-- The stacks in a place. -/
def Ledger.stacksAt (l : Ledger) : StackPlace → Multiset Stack
  | .process => stacksOf l.scheduler.holding
  | .parked => contents l.scheduler.parked
  | .released => l.released

theorem mem_stacksOf {holding : Slot → Option Issue} {stack : Stack} :
    stack ∈ stacksOf holding ↔ ∃ slot issue, holding slot = some issue ∧ issue.stack = stack := by
  simp only [stacksOf, Multiset.mem_sum, Finset.mem_univ, true_and, mem_contents,
    Option.map_eq_some_iff]

theorem holding_eq_some_iff {issue : Issue} :
    s.holding slot = some issue
      ↔ issue.slot = slot ∧ s.pid slot = issue.number ∧ s.stackOf slot = some issue.stack := by
  obtain ⟨stack, slot', number⟩ := issue
  simp only [holding, Option.map_eq_some_iff, Issue.mk.injEq]
  constructor
  · rintro ⟨made, hstack, rfl, rfl, rfl⟩
    exact ⟨rfl, rfl, hstack⟩
  · rintro ⟨rfl, hnumber, hstack⟩
    exact ⟨stack, hstack, rfl, rfl, hnumber⟩

namespace Ledger

variable {l : Ledger} {issue : Issue}

theorem Balanced.at_iff_mem (hl : l.Balanced) (hissue : issue ∈ l.issued) (place : StackPlace) :
    l.At issue place ↔ issue.stack ∈ l.stacksAt place := by
  cases place with
  | released => exact Iff.rfl
  | parked => exact mem_contents.symm
  | process =>
    rw [At, stacksAt, mem_stacksOf]
    constructor
    · rintro ⟨hlive, hnumber, hstack⟩
      exact ⟨_, issue, holding_eq_some_iff.mpr ⟨rfl, hnumber, hstack⟩, rfl⟩
    · rintro ⟨slot, other, hholding, hsame⟩
      -- No two entries of the ledger are about one stack.
      obtain rfl : other = issue := List.inj_on_of_nodup_map hl.nodup
        (hl.holding slot other hholding) hissue hsame
      obtain ⟨rfl, hnumber, hstack⟩ := holding_eq_some_iff.mp hholding
      exact ⟨hl.coherent.live_iff.mpr (hnumber ▸ hl.number_ne_zero other hissue), hnumber, hstack⟩

theorem Balanced.count_eq_one (hl : l.Balanced) (hissue : issue ∈ l.issued) :
    (l.stacksAt .released).count issue.stack
      + ((l.stacksAt .process).count issue.stack + (l.stacksAt .parked).count issue.stack) = 1 := by
  rw [← Multiset.count_add, ← Multiset.count_add]
  show (l.released + l.scheduler.stacksHeld).count issue.stack = 1
  rw [hl.balance]
  exact Multiset.count_eq_one_of_mem (Multiset.coe_nodup.mpr hl.nodup)
    (Multiset.mem_coe.mpr (List.mem_map_of_mem hissue))

/-- **Every stack that was made is in one place.** -/
theorem Balanced.existsUnique_at (hl : l.Balanced) (hissue : issue ∈ l.issued) :
    ∃! place, l.At issue place := by
  have hone := hl.count_eq_one hissue
  have hat (place : StackPlace) : l.At issue place ↔ 0 < (l.stacksAt place).count issue.stack :=
    (hl.at_iff_mem hissue place).trans Multiset.count_pos.symm
  simp only [hat]
  obtain hreleased | hprocess | hparked : 0 < (l.stacksAt .released).count issue.stack
      ∨ 0 < (l.stacksAt .process).count issue.stack
      ∨ 0 < (l.stacksAt .parked).count issue.stack := by omega
  · refine ⟨.released, hreleased, fun place hplace => ?_⟩
    cases place <;> first | rfl | omega
  · refine ⟨.process, hprocess, fun place hplace => ?_⟩
    cases place <;> first | rfl | omega
  · refine ⟨.parked, hparked, fun place hplace => ?_⟩
    cases place <;> first | rfl | omega

theorem Balanced.nodup_all (hl : l.Balanced) : (l.released + l.scheduler.stacksHeld).Nodup := by
  rw [hl.balance]
  exact Multiset.coe_nodup.mpr hl.nodup

/-- What the scheduler has was not released. -/
theorem Balanced.notMem_released (hl : l.Balanced) {stack : Stack}
    (hheld : stack ∈ l.scheduler.stacksHeld) : stack ∉ l.released := fun hreleased =>
  Multiset.disjoint_left.mp (Multiset.nodup_add.mp hl.nodup_all).2.2 hreleased hheld

/-- What was released stays released. -/
theorem released_le_foldl (l : Ledger) (actions : List Action) :
    l.released ≤ (actions.foldl Ledger.apply l).released := by
  induction actions generalizing l with
  | nil => exact le_rfl
  | cons action actions ih => exact (Multiset.le_add_right ..).trans (ih (l.apply action))

end Ledger

/-! ### What the calls do with stacks -/

/-- A parked stack stays until a process ends, or someone who runs takes it. -/
theorem Restacks.parked (h : s.Restacks action t) :
    t.parked = s.parked ∨ (∃ slot, action.Ends s slot)
      ∨ action = .takeParkedStack ∧ s.current.isSome = true := by
  cases h with
  | still hissue hkeeps => exact .inl hkeeps.parked
  | issued hissue hserial hnumber hfree hholding hparked hnext => exact .inl hparked
  | torn hkill hslot hcurrent hholding hparked hnext => exact .inl hparked
  | ended hends hholding hparked hnext => exact .inr (.inl ⟨_, hends⟩)
  | taken htake hcurrent hholding hparked hnext => exact .inr (.inr ⟨htake, hcurrent⟩)

/-- Only ends, kills and taking the parked stack release anything. -/
theorem Restacks.releases_eq_zero (h : s.Restacks action (action.apply s))
    (hexit : action ≠ .exitCurrent) (hkill : ∀ pid, action ≠ .kill pid)
    (htake : action ≠ .takeParkedStack) : action.releases s = 0 := by
  cases h with
  | still hissue hkeeps => exact Action.releases_eq_zero hkeeps.stacksHeld.ge
  | issued hissue hserial hnumber hfree hholding hparked hnext =>
    exact Action.releases_eq_zero
      (stacksHeld_of_issued hfree hholding hparked ▸ Multiset.le_add_right ..)
  | torn hkilled hslot hcurrent hholding hparked hnext => exact absurd hkilled (hkill _)
  | taken htaken hcurrent hholding hparked hnext => exact absurd htaken htake
  | ended hends hholding hparked hnext =>
    cases action with
    | exitCurrent => exact absurd rfl hexit
    | kill pid => exact absurd rfl (hkill pid)
    | create | adoptCurrent | sleepCurrent | yieldCurrent | schedule | advanceSleep | tick
    | takeParkedStack => exact hends.elim

theorem takeParkedStack_eq_some_iff {stack : Stack} :
    s.takeParkedStack.1 = some stack ↔ s.current.isSome = true ∧ s.parked = some stack := by
  rw [takeParkedStack]
  cases s.current with
  | none => simp
  | some slot => simp

theorem takeParkedStack_releases (s : Scheduler) :
    Action.takeParkedStack.releases s = contents s.takeParkedStack.1 := by
  refine Action.releases_of_eq ?_
  show s.stacksHeld = s.takeParkedStack.2.stacksHeld + _
  rw [takeParkedStack]
  cases s.current with
  | none => exact (add_zero _).symm
  | some slot => exact stacksHeld_of_taken rfl rfl

/-- The end of a process releases the stack that was parked before, and parks its own. -/
theorem Action.Ends.stacks (hends : action.Ends s slot) :
    (action.apply s).parked = s.stackOf slot ∧ action.releases s = contents s.parked := by
  obtain ⟨hcurrent, happly⟩ := Action.apply_of_ends hends
  obtain ⟨hholding, hparked, -⟩ := exitCurrent_stacks hcurrent
  rw [happly]
  refine ⟨hparked, Action.releases_of_eq ?_⟩
  rw [happly]
  exact stacksHeld_of_ended hholding hparked

/-- A process that is killed by another one leaves nothing. -/
theorem kill_releases {pid : ℕ} {outcome : Option SwitchPlan × Scheduler}
    (hkill : s.kill pid = .ok outcome) (hslot : s.table.slotOf? pid = some slot)
    (hcurrent : s.current ≠ some slot) :
    (Action.kill pid).releases s = contents (s.stackOf slot) := by
  obtain ⟨found, hfound, -, ⟨hself, -⟩ | ⟨-, rfl⟩⟩ := of_kill_eq_ok hkill
  · exact absurd (hself.trans (hfound.symm.trans hslot)) hcurrent
  · obtain rfl : found = slot := Option.some.inj (hfound.symm.trans hslot)
    refine Action.releases_of_eq ?_
    rw [Action.apply, Action.perform, hkill]
    exact stacksHeld_of_torn (holding_update ..) rfl

/-- Where the stacks are after some calls, and what becomes of them in the next one. -/
structure StacksAccounted (actions : List Action) : Prop where
  /-- A process that is created gets a stack that was not made before, of the size that was asked
  for, and there was memory for it. -/
  made : ∀ entry stackSize memory number t,
    (after actions).create entry stackSize memory = .ok (number, t) →
      ∃ issue, (ledger (actions ++ [.create entry stackSize memory])).issued
          = (ledger actions).issued ++ [issue]
        ∧ issue.number = number ∧ t.stackOf issue.slot = some issue.stack
        ∧ issue.stack ∉ (ledger actions).issued.map Issue.stack
        ∧ issue.stack.size = (if stackSize = 0 then 4096 else stackSize)
        ∧ memory.grants issue.stack.size = true ∧ issue.stack.size < 2 ^ 63
  /-- Every stack is with its process, or parked, or released. -/
  place : ∀ issue ∈ (ledger actions).issued, ∃! place, (ledger actions).At issue place
  /-- A process that ends leaves its stack parked, in place of the one that was parked before. -/
  ended : ∀ (action : Action) (slot : Slot), action.Ends (after actions) slot →
    (action.apply (after actions)).parked = (after actions).stackOf slot
      ∧ action.releases (after actions) = contents (after actions).parked
      ∧ ∀ stack, (after actions).stackOf slot = some stack →
        stack ∉ (ledger (actions ++ [action])).released
  /-- What is parked stays, unless a process ends or someone who runs takes it. -/
  parked : ∀ (action : Action) (stack : Stack), (after actions).parked = some stack →
    (action.apply (after actions)).parked = some stack
      ∨ (∃ slot, action.Ends (after actions) slot)
      ∨ action = .takeParkedStack ∧ (after actions).current.isSome = true
  taken : ∀ stack, (after actions).takeParkedStack.1 = some stack ↔
    (after actions).current.isSome = true ∧ (after actions).parked = some stack
  /-- Whoever takes a stack is the only one to get it. -/
  taken_once : ∀ stack later, (after actions).takeParkedStack.1 = some stack →
    (after (actions ++ .takeParkedStack :: later)).takeParkedStack.1 ≠ some stack
  /-- The stack of a process that is killed by another one is released at once. -/
  killed : ∀ pid slot outcome, (after actions).kill pid = .ok outcome →
    (after actions).table.slotOf? pid = some slot → (after actions).current ≠ some slot →
      (Action.kill pid).releases (after actions) = contents ((after actions).stackOf slot)
  /-- No other call releases anything, whether it is refused or not. -/
  retained : ∀ action : Action, action ≠ .exitCurrent → (∀ pid, action ≠ .kill pid) →
    action ≠ .takeParkedStack → action.releases (after actions) = 0

theorem vacant_after (actions : List Action) (slot : Slot) (hfree : (after actions).pid slot = 0) :
    (after actions).holding slot = none := by
  rw [← scheduler_ledger] at hfree ⊢
  exact (balanced_ledger actions).holding_eq_none hfree

theorem notMem_released_ledger {stack : Stack} (hheld : stack ∈ (after actions).stacksHeld) :
    stack ∉ (ledger actions).released := by
  rw [← scheduler_ledger] at hheld
  exact (balanced_ledger actions).notMem_released hheld

/-- A stack that was taken is released, whatever comes later. -/
theorem mem_released_of_taken {stack : Stack}
    (htaken : (after actions).takeParkedStack.1 = some stack) (later : List Action) :
    stack ∈ (ledger (actions ++ .takeParkedStack :: later)).released := by
  have hreleases : stack ∈ Action.takeParkedStack.releases (ledger actions).scheduler := by
    rw [takeParkedStack_releases, mem_contents, scheduler_ledger, htaken]
  rw [ledger, List.foldl_append, List.foldl_cons]
  exact Multiset.mem_of_le (Ledger.released_le_foldl _ later)
    (Multiset.mem_add.mpr (.inr hreleases))

/-- **No stack is lost, and none is released too early.** -/
theorem stacks_accounted (actions : List Action) : StacksAccounted actions := by
  have hbalanced := balanced_ledger actions
  have hrestacks (action : Action) :
      (after actions).Restacks action (action.apply (after actions)) :=
    restacks (vacant_after actions) action
  refine
    { made := fun entry stackSize memory number t hcreate => ?_
      place := fun issue hissue => hbalanced.existsUnique_at hissue
      ended := fun action slot hends => ?_
      parked := fun action stack hparked => ?_
      taken := fun stack => takeParkedStack_eq_some_iff
      taken_once := fun stack later htaken hagain => ?_
      killed := fun pid slot outcome hkill hslot hcurrent => kill_releases hkill hslot hcurrent
      retained := fun action hexit hkill htake =>
        (hrestacks action).releases_eq_zero hexit hkill htake }
  · obtain ⟨issue, hissue, hmade, -, hnumber, -, hstack, -⟩ := issue?_of_create hcreate
    have hgrants : memory.grants issue.stack.size = true := by
      rw [hmade]
      exact (of_create_eq_ok hcreate).1
    refine ⟨issue, ?_, hnumber, hstack, fun hmem => ?_, by rw [hmade]; rfl, hgrants,
      memory.grants_lt _ hgrants⟩
    · rw [ledger_concat, Ledger.apply, scheduler_ledger, hissue, Option.toList_some]
    · obtain ⟨old, hold, hsame⟩ := List.mem_map.mp hmem
      have hlt := hbalanced.serial_lt old hold
      rw [hsame, hmade, scheduler_ledger] at hlt
      exact Nat.lt_irrefl _ hlt
  · obtain ⟨hparked, hreleases⟩ := hends.stacks
    refine ⟨hparked, hreleases, fun stack hstack => notMem_released_ledger ?_⟩
    rw [after_append]
    exact mem_stacksHeld_of_parked (hparked.trans hstack)
  · exact (hrestacks action).parked.imp_left fun h => h.trans hparked
  · obtain ⟨-, hparked⟩ := takeParkedStack_eq_some_iff.mp hagain
    exact notMem_released_ledger (mem_stacksHeld_of_parked hparked)
      (mem_released_of_taken htaken later)

/-- Three processes are created. The first one runs and ends on its stack, and the second one has
the processor. -/
def relay : List Action :=
  [.adoptCurrent, .create 1 0 .ample, .create 2 0 .ample, .create 3 0 .ample, .schedule,
    .exitCurrent]

/-- The stack of the first process is parked and can be taken once, that of the third one goes with
it when it is killed, and a tick releases none. -/
theorem stacks_accounted_relay :
    (∃! place, (ledger relay).At ⟨⟨0, 4096⟩, 1, 2⟩ place)
      ∧ (after relay).takeParkedStack.1 = some ⟨0, 4096⟩
      ∧ (∀ later, (after (relay ++ .takeParkedStack :: later)).takeParkedStack.1 ≠ some ⟨0, 4096⟩)
      ∧ (Action.kill 4).releases (after relay) = {⟨2, 4096⟩}
      ∧ (Action.tick 5).releases (after relay) = 0 := by
  have haccounted := stacks_accounted relay
  have htaken : (after relay).takeParkedStack.1 = some ⟨0, 4096⟩ :=
    (haccounted.taken _).mpr (by decide +kernel)
  have hkilled := haccounted.killed 4 3 (none, (after relay).update 3 fun _ => .free) (by rfl)
    (by decide) (by decide)
  have hticked := haccounted.retained (.tick 5) Action.noConfusion (fun _ => Action.noConfusion)
    Action.noConfusion
  exact ⟨haccounted.place _ (by decide +kernel), htaken,
    fun later => haccounted.taken_once _ later htaken, hkilled, hticked⟩

end Scheduler

end PocketKernel
