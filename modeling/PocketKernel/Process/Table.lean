import PocketKernel.Process.Context

/-!
# The process table

A process lives in one of sixteen slots. A slot is free when its process has number zero and is
stopped. Every stack has a serial number, so that it can be followed from the slot of its process
to the place where it is parked.

## Main definitions

* `ProcessState`, `Process`, `ProcessInfo`: a process and the view of it that is shown.
* `ProcessError`: why a request was refused.
* `ProcessTable`: the slots.
-/

namespace PocketKernel

/-- What a process is doing. -/
inductive ProcessState where
  /-- It could run. -/
  | ready
  /-- It has the processor. -/
  | running
  /-- It waits for its ticks to pass. -/
  | sleeping
  /-- There is no process. -/
  | stopped
deriving DecidableEq, Repr

/-- The text shown for a state. -/
def ProcessState.text : ProcessState → String
  | .ready => "READY"
  | .running => "RUNNING"
  | .sleeping => "SLEEPING"
  | .stopped => "STOPPED"

/-- Why a request about processes was refused. -/
inductive ProcessError where
  /-- All slots are in use. -/
  | tableFull
  /-- There is no memory for the stack. -/
  | outOfMemory
  /-- No process has this number. -/
  | noSuchProcess
  /-- The process may not be killed. -/
  | isProtected
deriving DecidableEq, Repr

namespace ProcessError

/-- All refusals, in their listed order. -/
def all : List ProcessError := [.tableFull, .outOfMemory, .noSuchProcess, .isProtected]

/-- The text shown for a refusal. -/
def message : ProcessError → String
  | .tableFull => "process table full"
  | .outOfMemory => "out of memory"
  | .noSuchProcess => "no such process"
  | .isProtected => "process is protected"

end ProcessError

/-- A stack that was set aside for a process. -/
structure Stack where
  /-- Tells the stacks apart. -/
  serial : Nat
  /-- Its size in bytes. -/
  size : Nat
deriving DecidableEq, Repr

/-- One slot of the process table. -/
structure Process where
  /-- The number of the process; zero in a free slot. -/
  pid : Nat
  state : ProcessState
  context : Context
  /-- The stack of the process, unless it runs on one that it does not own. -/
  stack : Option Stack
  /-- The ticks that are left to sleep. -/
  wakeTicks : Nat
  priority : Nat
  /-- It may not be killed. -/
  sheltered : Bool
deriving DecidableEq, Repr

/-- The view of a process that is shown. -/
structure ProcessInfo where
  pid : Nat
  state : ProcessState
  priority : Nat
  wakeTicks : Nat
  /-- Zero for a process that does not own its stack. -/
  stackSize : Nat
deriving DecidableEq, Repr

namespace Process

/-- The priority that every process has. -/
def standardPriority : Nat := 128

/-- A free slot. -/
def free : Process where
  pid := 0
  state := .stopped
  context := .blank
  stack := none
  wakeTicks := 0
  priority := standardPriority
  sheltered := false

instance : Inhabited Process := ⟨free⟩

/-- The slot is free. -/
def isFree (process : Process) : Bool := process.pid = 0 && process.state = .stopped

/-- The view of a process that is shown. -/
def info (process : Process) : ProcessInfo where
  pid := process.pid
  state := process.state
  priority := process.priority
  wakeTicks := process.wakeTicks
  stackSize := (process.stack.map Stack.size).getD 0

end Process

/-- The number of slots. -/
def maxProcesses : Nat := 16

/-- A place in the process table. -/
abbrev Slot := Fin 16

/-- The process table. -/
abbrev ProcessTable := Vector Process 16

namespace ProcessTable

/-- The process in a slot. -/
def process (table : ProcessTable) (slot : Slot) : Process := table[slot]

/-- The table with another process in a slot. -/
def put (table : ProcessTable) (slot : Slot) (process : Process) : ProcessTable :=
  table.set slot process

/-- The first slot whose process passes a test. -/
def findSlot? (table : ProcessTable) (test : Process → Bool) : Option Slot :=
  (List.finRange 16).find? fun slot => test (table.process slot)

/-- The first free slot. -/
def freeSlot? (table : ProcessTable) : Option Slot := table.findSlot? Process.isFree

/-- The slot of the process with a number. -/
def slotOf? (table : ProcessTable) (pid : Nat) : Option Slot :=
  if pid = 0 then none else table.findSlot? (·.pid == pid)

/-- The processes there are, in the order of their slots. -/
def live (table : ProcessTable) : List Process := table.toList.filter (!·.isFree)

end ProcessTable

end PocketKernel
