/-!
# Signal subscriptions

Whoever wants to know of the interrupt key subscribes a handler with a context word and gets the
number of a slot back. When the signal is raised, the handlers that are subscribed at that moment
run one after the other in the order of their slots. They work on the table as they run, so what
they subscribe and unsubscribe counts from the next time on.

There is one signal, so a subscription does not say for which one it is. A signal that is raised
while the table is being changed is dropped.

## Main definitions

* `SignalTable`, `SignalTable.subscribe`, `SignalTable.unsubscribe?`: the table.
* `SignalTable.enter`, `SignalTable.leave`, `SignalTable.raise`: the use of a table that is shared.
-/

namespace PocketKernel

/-- A subscription could not be entered. -/
inductive SignalError where
  /-- All slots are in use. -/
  | tableFull
deriving DecidableEq, Repr

namespace SignalError

/-- All errors. -/
def all : List SignalError := [.tableFull]

/-- The text shown for an error. -/
def message : SignalError → String
  | .tableFull => "signal table full"

end SignalError

/-- A handler and the word that it is given. -/
structure Subscription (η : Type) where
  handler : η
  context : Nat
deriving DecidableEq, Repr

/-- Sixteen slots for subscriptions. -/
structure SignalTable (η : Type) where
  slots : Vector (Option (Subscription η)) 16

namespace SignalTable

variable {η α : Type}

/-- Nobody is subscribed. -/
def empty : SignalTable η := ⟨Vector.replicate 16 none⟩

/-- The first free slot. -/
def freeSlot? (table : SignalTable η) : Option (Fin 16) :=
  (List.finRange 16).find? fun id => table.slots[id].isNone

/-- Subscribe a handler in the first free slot. -/
def subscribe (table : SignalTable η) (handler : η) (context : Nat) :
    Except SignalError (Nat × SignalTable η) :=
  match table.freeSlot? with
  | some id => .ok (id.val, ⟨table.slots.set id (some ⟨handler, context⟩)⟩)
  | none => .error .tableFull

/-- Clear a slot; `none` if nobody was subscribed there. -/
def unsubscribe? (table : SignalTable η) (id : Nat) : Option (SignalTable η) :=
  if h : id < 16 then
    if table.slots[id].isSome then some ⟨table.slots.set id none⟩ else none
  else
    none

/-- The subscriptions, in the order of their slots. -/
def subscriptions (table : SignalTable η) : List (Subscription η) :=
  table.slots.toList.filterMap id

/-- The number of subscriptions. -/
def size (table : SignalTable η) : Nat := table.subscriptions.length

/-- Nobody is subscribed. -/
def isEmpty (table : SignalTable η) : Bool := table.size = 0

section Shared

variable {m : Type → Type} [Monad m] [MonadStateOf (SignalTable η) m]

/-- Subscribe a handler in the table that everybody shares. The table stays as it is if it is
full. -/
def enter (handler : η) (context : Nat) : m (Except SignalError Nat) := do
  match (← getThe (SignalTable η)).subscribe handler context with
  | .ok (id, table) =>
    set table
    pure (.ok id)
  | .error cause => pure (.error cause)

/-- Clear a slot of the shared table. Returns whether somebody was subscribed there. -/
def leave (id : Nat) : m Bool := do
  match (← getThe (SignalTable η)).unsubscribe? id with
  | some table =>
    set table
    pure true
  | none => pure false

/-- Run the handlers that are subscribed now, and collect what they report. They may use the shared
table as they run. Nothing runs if the table is busy. -/
def raise (busy : Bool) (behaviour : η → Nat → m α) : m (List α) := do
  if busy then
    pure []
  else
    let now := (← getThe (SignalTable η)).subscriptions
    now.mapM fun subscription => behaviour subscription.handler subscription.context

end Shared

end SignalTable

end PocketKernel
