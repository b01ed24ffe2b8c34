import PocketKernel.Keyboard.Key

/-!
# Key events

What the rest of the system sees of the keyboard is a row of events, each a symbol with the
modifiers that were in effect. Keys without a character have symbols of their own, from U+0080 on.
Events wait in a ring of 64 slots; when it is full, the oldest one makes room.

## Main definitions

* `Symbol`: the symbols of keys without a character.
* `KeyEvent`, `EventQueue`: the events and the queue.
-/

namespace PocketKernel

namespace Symbol

/-- The symbol of the arrow up. -/
def arrowUp : Char := '\u0080'

/-- The symbol of the arrow down. -/
def arrowDown : Char := '\u0081'

/-- The symbol of the arrow to the left. -/
def arrowLeft : Char := '\u0082'

/-- The symbol of the arrow to the right. -/
def arrowRight : Char := '\u0083'

/-- The symbol of the delete key. -/
def delete : Char := '\u0084'

/-- The symbol of the key that goes to the start of the line. -/
def home : Char := '\u0085'

/-- The symbol of the key that goes to the end of the line. -/
def toEnd : Char := '\u0086'

/-- The symbol of the interrupt key, control and C. -/
def interrupt : Char := '\x03'

/-- The symbol of the backspace key. -/
def backspace : Char := '\x08'

/-- The symbol of a key that stands for itself, if it has one. -/
def ofKey? : Key → Option Char
  | .arrowUp => some arrowUp
  | .arrowDown => some arrowDown
  | .arrowLeft => some arrowLeft
  | .arrowRight => some arrowRight
  | .delete => some delete
  | .home => some home
  | .toEnd => some toEnd
  | _ => none

end Symbol

/-- A symbol that came from the keyboard. -/
structure KeyEvent where
  symbol : Char
  modifiers : Modifiers
  /-- The key went down. -/
  pressed : Bool
deriving DecidableEq, Repr

namespace KeyEvent

/-- What stands in a slot that no event was put into. -/
def blank : KeyEvent := ⟨'\x00', .none, false⟩

end KeyEvent

/-- How many events can wait. -/
def EventQueue.capacity : Nat := 64

/-- A ring of slots for the events that wait. The oldest one is in the slot `head`, the others
follow it around the ring, and the slots behind the last one hold what was there before. -/
structure EventQueue where
  slots : Vector KeyEvent EventQueue.capacity
  /-- The slot of the oldest event. -/
  head : Fin EventQueue.capacity
  /-- The number of events that wait. -/
  size : Nat
  size_le : size ≤ EventQueue.capacity
deriving DecidableEq, Repr

namespace EventQueue

theorem capacity_pos : 0 < capacity := by decide

/-- Nothing waits. -/
def empty : EventQueue where
  slots := Vector.replicate capacity .blank
  head := ⟨0, capacity_pos⟩
  size := 0
  size_le := Nat.zero_le _

/-- Nothing waits. -/
def isEmpty (queue : EventQueue) : Bool := queue.size = 0

/-- The slot that is some steps around the ring from the one of the oldest event. -/
def slotAt (queue : EventQueue) (steps : Nat) : Fin capacity :=
  ⟨(queue.head.val + steps) % capacity, Nat.mod_lt _ capacity_pos⟩

/-- The events that wait, oldest first. -/
def events (queue : EventQueue) : List KeyEvent :=
  (List.range queue.size).map fun steps => queue.slots.get (queue.slotAt steps)

/-- Give up the oldest event. -/
def dropOldest (queue : EventQueue) : EventQueue :=
  { queue with
    head := queue.slotAt 1
    size := queue.size - 1
    size_le := Nat.le_trans (Nat.sub_le _ _) queue.size_le }

/-- In a full queue the oldest event makes room. -/
def makeRoom (queue : EventQueue) : EventQueue :=
  if queue.size = capacity then queue.dropOldest else queue

theorem size_makeRoom_lt (queue : EventQueue) : queue.makeRoom.size < capacity := by
  have hle : queue.size ≤ capacity := queue.size_le
  unfold makeRoom
  split
  next hfull =>
    show queue.size - 1 < capacity
    rw [hfull]
    exact Nat.sub_lt capacity_pos Nat.one_pos
  next hroom => exact Nat.lt_of_le_of_ne hle hroom

/-- Put an event behind all that wait in a queue that has room. -/
def append (queue : EventQueue) (hroom : queue.size < capacity) (event : KeyEvent) : EventQueue :=
  { queue with
    slots := queue.slots.set (queue.slotAt queue.size) event
    size := queue.size + 1
    size_le := hroom }

/-- Enter an event behind all that wait. -/
def push (queue : EventQueue) (event : KeyEvent) : EventQueue :=
  queue.makeRoom.append queue.size_makeRoom_lt event

/-- Take the oldest event out. -/
def pop? (queue : EventQueue) : Option (KeyEvent × EventQueue) :=
  if queue.size = 0 then none else some (queue.slots.get queue.head, queue.dropOldest)

end EventQueue

end PocketKernel
