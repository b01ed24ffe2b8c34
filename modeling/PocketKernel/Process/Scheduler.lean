import PocketKernel.Process.Table

/-!
# The scheduler

Sixteen processes share the processor in turn. The scheduler only decides: an operation that
hands the processor to another process returns a `SwitchPlan`, which says in which place the
running context is to be saved and from which slot the next one is to be taken. Carrying out the
plan is up to the caller (`Scheduler.save` is the part of it that shows later).

The next process is the first one that is ready, searching from the slot after the one that was
picked last. If none is ready the running process goes on; if there is none, whoever is not
stopped is picked, sleepers included.

A process that exits is still standing on its stack, so the stack is parked until someone else
runs and takes it away.

Whether there is memory for a new stack is not up to the scheduler. It is a parameter, which may
differ from one request to the next.

## Main definitions

* `Scheduler`, `Scheduler.initial`: the state.
* `StackMemory`: which stacks there is memory for.
* `Scheduler.create`, `Scheduler.adoptCurrent`, `Scheduler.kill`: processes come and go.
* `Scheduler.schedule`, `Scheduler.yieldCurrent`, `Scheduler.sleepCurrent`,
  `Scheduler.exitCurrent`, `Scheduler.tick`: the processor changes hands.
-/

namespace PocketKernel

/-- Where a running context is saved. -/
inductive SavePlace where
  /-- The area for what ran before any process did. -/
  | boot
  /-- The context of a slot. -/
  | slot (slot : Slot)
deriving DecidableEq, Repr

/-- A switch that is to be carried out. -/
structure SwitchPlan where
  /-- Where the running context is to be saved. -/
  source : SavePlace
  /-- The slot whose context is to go on. -/
  target : Slot
deriving DecidableEq, Repr

/-- The processes and who of them has the processor. -/
structure Scheduler where
  table : ProcessTable
  /-- The slot that has the processor. -/
  current : Option Slot
  /-- The slot that was picked last. -/
  last : Slot
  /-- The number of the next process. -/
  nextPid : Nat
  /-- The serial number of the next stack. -/
  nextStack : Nat
  /-- The stack of a process that exited on it. -/
  parked : Option Stack
  /-- Saved from what ran before any process did. -/
  boot : Context
deriving DecidableEq

/-- What there is memory for when a stack is asked for. Nothing is known of it, except that a stack
never takes half of all addresses. -/
structure StackMemory where
  /-- There is memory for a stack of this size. -/
  grants : Nat → Bool
  grants_lt : ∀ size, grants size = true → size < 1 <<< 63

/-- There is memory for every stack that takes less than half of all addresses. -/
def StackMemory.ample : StackMemory where
  grants size := size < 1 <<< 63
  grants_lt _ := of_decide_eq_true

namespace Scheduler

/-- No process, and the search for the first one starts at slot 0. -/
def initial : Scheduler where
  table := Vector.replicate 16 Process.free
  current := none
  last := Fin.last 15
  nextPid := 1
  nextStack := 0
  parked := none
  boot := .blank

/-- The size of a stack whose size is not given. -/
def standardStackSize : Nat := 4096

/-- The number after the last one that fits in 32 bits is 1 again. -/
def pidAfter (pid : Nat) : Nat := if pid + 1 < UInt32.size then pid + 1 else 1

/-- Change the process in a slot. -/
def update (s : Scheduler) (slot : Slot) (change : Process → Process) : Scheduler :=
  { s with table := s.table.put slot (change (s.table.process slot)) }

/-- The size of the stack that is asked for. Zero asks for the standard stack. -/
def askedSize (stackSize : Nat) : Nat := if stackSize = 0 then standardStackSize else stackSize

/-- Create a process that is ready to run an entry function, if there is a free slot and then memory
for its stack. -/
def create (s : Scheduler) (entry stackSize : Nat) (memory : StackMemory := .ample) :
    Except ProcessError (Nat × Scheduler) :=
  match s.table.freeSlot? with
  | none => .error .tableFull
  | some slot =>
    let size := askedSize stackSize
    if memory.grants size = false then
      .error .outOfMemory
    else
      let process : Process :=
        { Process.free with
          pid := s.nextPid
          state := .ready
          context := .starting entry
          stack := some ⟨s.nextStack, size⟩ }
      .ok (s.nextPid,
        { s with
          table := s.table.put slot process
          nextPid := pidAfter s.nextPid
          nextStack := s.nextStack + 1 })

/-- Make a process of what is running, if it is not one yet. It owns no stack and cannot be
killed. -/
def adoptCurrent (s : Scheduler) : Except ProcessError (Nat × Scheduler) :=
  match s.current with
  | some slot => .ok ((s.table.process slot).pid, s)
  | none =>
    match s.table.freeSlot? with
    | none => .error .tableFull
    | some slot =>
      let process : Process :=
        { Process.free with pid := s.nextPid, state := .running, sheltered := true }
      .ok (s.nextPid,
        { s with
          table := s.table.put slot process
          current := some slot
          last := slot
          nextPid := pidAfter s.nextPid })

/-- All slots, starting after the one that was picked last and ending with it. -/
def rotation (s : Scheduler) : List Slot :=
  (List.range 16).map fun k => ⟨(s.last.val + (k + 1)) % 16, Nat.mod_lt _ (by decide)⟩

/-- The slot in the given state that comes first in the rotation. -/
def firstIn (s : Scheduler) (test : ProcessState → Bool) : Option Slot :=
  s.rotation.find? fun slot => test (s.table.process slot).state

/-- The slot that gets the processor next: a ready one, else the running one, else any that is
not stopped. -/
def select (s : Scheduler) : Option Slot :=
  s.firstIn (· = .ready)
    <|> s.current.filter (fun slot => (s.table.process slot).state = .running)
    <|> s.firstIn (· ≠ .stopped)

/-- Give a ready process the running state. -/
def start (process : Process) : Process :=
  if process.state = .ready then { process with state := .running } else process

/-- Take the running state from a process; it is ready to go on. -/
def preempt (process : Process) : Process :=
  if process.state = .running then { process with state := .ready } else process

/-- The place in which the context of what is running is saved. -/
def savePlace (s : Scheduler) : SavePlace :=
  match s.current with
  | some slot => .slot slot
  | none => .boot

/-- Hand the processor to the selected slot, if there is one. There is a plan unless it has the
processor already. -/
def schedule (s : Scheduler) : Option SwitchPlan × Scheduler :=
  match s.select with
  | none => (none, s)
  | some next =>
    let picked := { s with last := next }
    if s.current = some next then
      (none, picked.update next start)
    else
      let left :=
        match s.current with
        | some slot => picked.update slot preempt
        | none => picked
      (some ⟨s.savePlace, next⟩, { left.update next start with current := some next })

/-- Give up the processor for now. -/
def yieldCurrent (s : Scheduler) : Option SwitchPlan × Scheduler :=
  match s.current with
  | some slot => (s.update slot preempt).schedule
  | none => s.schedule

/-- Give up the processor for a number of ticks; for zero ticks this is a yield. -/
def sleepCurrent (s : Scheduler) (ticks : Nat) : Option SwitchPlan × Scheduler :=
  match s.current with
  | none => (none, s)
  | some slot =>
    if ticks = 0 then
      s.yieldCurrent
    else
      (s.update slot fun process =>
        { process with state := .sleeping, wakeTicks := ticks }).schedule

/-- End the running process. Its stack is parked, in place of one that was parked before; its
context stays in the slot, as the place in which the switch away saves. -/
def exitCurrent (s : Scheduler) : Option SwitchPlan × Scheduler :=
  match s.current with
  | none => (none, s)
  | some slot =>
    let ended :=
      { s.update slot fun process =>
          { process with
            stack := none, state := .stopped, pid := 0, wakeTicks := 0, sheltered := false } with
        parked := (s.table.process slot).stack }
    let (plan, next) := ended.schedule
    (plan, if next.current = some slot then { next with current := none } else next)

/-- End a process. If it is the running one it exits; any other is torn down with its stack. -/
def kill (s : Scheduler) (pid : Nat) : Except ProcessError (Option SwitchPlan × Scheduler) :=
  match s.table.slotOf? pid with
  | none => .error .noSuchProcess
  | some slot =>
    if (s.table.process slot).sheltered then
      .error .isProtected
    else if s.current = some slot then
      .ok s.exitCurrent
    else
      .ok (none, s.update slot fun _ => Process.free)

/-- The parked stack, for whoever runs now to release. -/
def takeParkedStack (s : Scheduler) : Option Stack × Scheduler :=
  match s.current with
  | none => (none, s)
  | some _ => (s.parked, { s with parked := none })

/-- Let ticks pass for one process. -/
def advance (ticks : Nat) (process : Process) : Process :=
  if process.state = .sleeping then
    let left := process.wakeTicks - ticks
    { process with wakeTicks := left, state := if left = 0 then .ready else .sleeping }
  else
    process

/-- Let ticks pass for the sleepers, and wake those whose time is up. -/
def advanceSleep (s : Scheduler) (ticks : Nat) : Scheduler :=
  { s with table := s.table.map (advance ticks) }

/-- Let ticks pass, and schedule. -/
def tick (s : Scheduler) (ticks : Nat) : Option SwitchPlan × Scheduler :=
  (s.advanceSleep ticks).schedule

/-- The context that is saved in a place. -/
def contextAt (s : Scheduler) : SavePlace → Context
  | .boot => s.boot
  | .slot slot => (s.table.process slot).context

/-- Save the point at which the context of a place goes on. -/
def save (s : Scheduler) (place : SavePlace) (resume : ResumePoint) : Scheduler :=
  match place with
  | .boot => { s with boot := { s.boot with resume := resume } }
  | .slot slot => s.update slot fun process =>
      { process with context := { process.context with resume := resume } }

/-- The number of processes. -/
def count (s : Scheduler) : Nat := s.table.live.length

/-- All processes, in the order of their slots. -/
def snapshot (s : Scheduler) : List ProcessInfo := s.table.live.map Process.info

/-- The process at a position of the snapshot. -/
def byIndex? (s : Scheduler) (index : Nat) : Option ProcessInfo := s.snapshot[index]?

/-- The process with a number. -/
def byPid? (s : Scheduler) (pid : Nat) : Option ProcessInfo :=
  (s.table.slotOf? pid).map fun slot => (s.table.process slot).info

/-- The number of the process that has the processor. -/
def currentPid? (s : Scheduler) : Option Nat :=
  (s.current.map fun slot => (s.table.process slot).pid).filter (· ≠ 0)

end Scheduler

end PocketKernel
