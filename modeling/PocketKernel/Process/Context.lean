/-!
# Saved execution contexts

When the processor leaves a process, what is needed to go on later is saved in a context. Which
registers those are is the business of the switch; here a context is the entry function that the
process was created for, the point at which it goes on, and its processor flags.

## Main definitions

* `ResumePoint`: where a context goes on.
* `Context`, `Context.starting`, `Context.blank`: the saved state.
-/

namespace PocketKernel

/-- Where a context goes on. -/
inductive ResumePoint where
  /-- Nothing was ever saved here. -/
  | nowhere
  /-- At the beginning of the entry function. -/
  | start
  /-- Where the processor was at a switch; `mark` tells the switches apart. -/
  | saved (mark : Nat)
deriving DecidableEq, Repr

/-- What is saved of a process that is not running. -/
structure Context where
  /-- The entry function, by number; zero if there is none. -/
  entry : Nat
  /-- Where it goes on. -/
  resume : ResumePoint
  /-- The processor flags. -/
  flags : Nat
deriving DecidableEq, Repr

namespace Context

/-- The flags of a new process: interrupts enabled, and the bit that is always set. -/
def initialFlags : Nat := 0x202

/-- The context of a process that has yet to start. -/
def starting (entry : Nat) : Context := ⟨entry, .start, initialFlags⟩

/-- The context of a place in which nothing was saved. -/
def blank : Context := ⟨0, .nowhere, 0⟩

end Context

end PocketKernel
