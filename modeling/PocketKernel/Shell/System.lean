import PocketKernel.Heap.Tracked
import PocketKernel.Keyboard.Layout
import PocketKernel.Process.Table

/-!
# What the shell asks of the machine

The commands of the shell need more than files: time, processes, figures about the heap, the
layout of the keyboard, and a way to find out whether the user has interrupted them. `System` is
the interface to all of that. Looking for an interrupt is a step of its own, because a machine may
count how often it was asked.

## Main definitions

* `System`: the interface.
* `ScriptedSystem`: a machine that follows a script and keeps a record.
-/

namespace PocketKernel

/-- The services of the machine that the shell runs on. -/
class System (σ : Type) where
  /-- Let some milliseconds pass. -/
  sleep : Nat → σ → σ
  /-- Whether an interrupt is pending. -/
  interrupted : σ → Bool × σ
  /-- Forget a pending interrupt. -/
  clearInterrupt : σ → σ
  processes : σ → List ProcessInfo
  /-- End the process with a number. -/
  kill : Nat → σ → Except ProcessError σ
  heapStats : σ → HeapStats
  layout : σ → Layout
  setLayout : Layout → σ → σ
  /-- Start the machine anew. There is no state to go on with if the machine goes down for it. -/
  reboot : σ → Option σ

/-- A machine that follows a script. Interrupts come after a set time or a set number of looks, and
what was asked of the machine is recorded. -/
structure ScriptedSystem where
  /-- An interrupt is pending. -/
  pending : Bool
  /-- The total time of sleep at which an interrupt comes. -/
  interruptAtMs : Option Nat
  /-- How many looks are left before the one that finds an interrupt. -/
  looksLeft : Option Nat
  /-- The total time of sleep in milliseconds. -/
  slept : Nat
  /-- How often the machine was started anew. -/
  reboots : Nat
  processes : List ProcessInfo
  /-- The numbers of the processes that were ended, in order. -/
  killed : List Nat
  heap : HeapStats
  layout : Layout

namespace ScriptedSystem

/-- A machine on which nothing happens. -/
def idle : ScriptedSystem where
  pending := false
  interruptAtMs := none
  looksLeft := none
  slept := 0
  reboots := 0
  processes := []
  killed := []
  heap := .none
  layout := .german

/-- Let time pass. -/
def sleep (ms : Nat) (system : ScriptedSystem) : ScriptedSystem :=
  let slept := system.slept + ms
  { system with
    slept := slept
    pending := system.pending || system.interruptAtMs == some slept }

/-- Look for an interrupt. -/
def interrupted (system : ScriptedSystem) : Bool × ScriptedSystem :=
  match system.looksLeft with
  | none => (system.pending, system)
  | some 0 => (true, { system with pending := true, looksLeft := none })
  | some (looks + 1) => (system.pending, { system with looksLeft := some looks })

/-- The number of the process that may not be ended. -/
def shelteredPid : Nat := 1

/-- End a process. -/
def kill (pid : Nat) (system : ScriptedSystem) : Except ProcessError ScriptedSystem :=
  if !system.processes.any (·.pid == pid) then .error .noSuchProcess
  else if pid = shelteredPid then .error .isProtected
  else .ok { system with
    processes := system.processes.eraseP (·.pid == pid)
    killed := system.killed ++ [pid] }

instance : System ScriptedSystem where
  sleep := sleep
  interrupted := interrupted
  clearInterrupt system := { system with pending := false }
  processes := processes
  kill := kill
  heapStats := heap
  layout := layout
  setLayout layout system := { system with layout := layout }
  reboot system := some { system with reboots := system.reboots + 1 }

end ScriptedSystem

end PocketKernel
