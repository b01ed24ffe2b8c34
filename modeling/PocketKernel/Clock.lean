/-!
# The clock

An interval timer interrupts once per millisecond, and every interrupt is counted as one tick.
The timer divides a fixed input frequency, so it is set up with the divisor that comes nearest
from below.

## Main definitions

* `Clock.setup`: what is written to the ports of the timer.
* `Clock`, `Clock.tick`: the count of ticks.
* `Clock.ticksOfMs?`: how many ticks a time takes.
-/

namespace PocketKernel

/-- The ticks since the start. -/
structure Clock where
  ticks : Nat
deriving DecidableEq, Repr

namespace Clock

/-- The input frequency of the timer in Hertz. -/
def inputFrequency : Nat := 1193182

/-- The number of ticks per second. -/
def tickRate : Nat := 1000

/-- What the input frequency is divided by. -/
def divisor : Nat := inputFrequency / tickRate

/-- The ports and values that set the timer up: the mode that interrupts over and over, and the
divisor, low byte first. -/
def setup : List (Nat × UInt8) :=
  [(0x43, 0x34), (0x40, UInt8.ofNat divisor), (0x40, UInt8.ofNat (divisor / 256))]

/-- No tick was counted yet. -/
def start : Clock := ⟨0⟩

/-- Count one tick. Returns the new count. -/
def tick (clock : Clock) : Nat × Clock := (clock.ticks + 1, ⟨clock.ticks + 1⟩)

/-- The least number of ticks that take at least `ms` milliseconds; `none` if the product that it
is computed from leaves the range of 64 bits. -/
def ticksOfMs? (ms : Nat) : Option Nat :=
  if ms * tickRate < UInt64.size then some ((ms * tickRate + 999) / 1000) else none

end Clock

end PocketKernel
