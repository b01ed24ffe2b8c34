import PocketKernel.Keyboard.Decoder
import PocketKernel.Keyboard.Event

/-!
# The keyboard

The keyboard turns bytes into events. Its decoder tells what a key produces, and an event has the
symbol of that and the modifiers that were held. While control is held, letters become the control
characters 1 to 26. Every event is put into the queue and also handed to whoever fed the byte; for
the interrupt key a signal is raised besides.

## Main definitions

* `KeyboardDriver`, `Keyboard`: the state, with any decoder and with the one by tables.
* `KeyboardDriver.process`, `KeyboardDriver.feed`: one byte of the keyboard.
* `KeyboardDriver.poll`, `KeyboardDriver.pollChar`: take the oldest event.
-/

namespace PocketKernel

/-- The layout, the decoder, and the events that wait. -/
structure KeyboardDriver (δ : Type) where
  layout : Layout
  decoder : δ
  queue : EventQueue
deriving DecidableEq, Repr

/-- A keyboard that is decoded by tables. -/
abbrev Keyboard := KeyboardDriver ScancodeDecoder

namespace Keyboard

/-- What a character becomes while control is held: a letter becomes its number in the
alphabet. -/
def controlChar (c : Char) : Char :=
  if c.isAlpha then Char.ofNat (c.toLower.toNat - 96) else c

/-- The symbol of what a key produced. The character 7F is the delete key. -/
def symbolOf? (mods : Modifiers) : Produced → Option Char
  | .char c =>
    some (if c = '\x7f' then Symbol.delete else if mods.control then controlChar c else c)
  | .key key => Symbol.ofKey? key

/-- The event is the one that raises the interrupt signal. -/
def isInterrupt (event : KeyEvent) : Bool := event.symbol = Symbol.interrupt

end Keyboard

namespace KeyboardDriver

open KeyDecoder Keyboard

variable {δ : Type} [KeyDecoder δ]

/-- A keyboard on which nothing was pressed yet. -/
def initial (layout : Layout) : KeyboardDriver δ where
  layout := layout
  decoder := start layout
  queue := .empty

/-- Change the layout. What was held is forgotten; the events that wait stay. -/
def setLayout (keyboard : KeyboardDriver δ) (layout : Layout) : KeyboardDriver δ :=
  { initial layout with queue := keyboard.queue }

/-- The modifiers that are in effect. -/
def modifiers (keyboard : KeyboardDriver δ) : Modifiers := (held keyboard.decoder).modifiers

/-- Process one byte. Returns the event that it made, if any, after queueing it. The modifiers are
those from before the key. `raise` is done for each event of the interrupt key, once the event is in
the queue. -/
def process {m : Type → Type} [Monad m] (raise : m Unit) (keyboard : KeyboardDriver δ)
    (byte : UInt8) : m (Option KeyEvent × KeyboardDriver δ) :=
  let (change, decoder) := addByte keyboard.decoder byte
  match change with
  | none => pure (none, { keyboard with decoder := decoder })
  | some change =>
    let mods := (held decoder).modifiers
    let (produced, decoder) := strike decoder change
    let keyboard := { keyboard with decoder := decoder }
    match produced.bind (symbolOf? mods) with
    | none => pure (none, keyboard)
    | some symbol => do
      let event : KeyEvent := ⟨symbol, mods, true⟩
      let keyboard := { keyboard with queue := keyboard.queue.push event }
      if isInterrupt event then
        raise
      pure (some event, keyboard)

/-- Process one byte with nobody there to be told of interrupts. -/
def feed (keyboard : KeyboardDriver δ) (byte : UInt8) : Option KeyEvent × KeyboardDriver δ :=
  Id.run (process (pure ()) keyboard byte)

omit [KeyDecoder δ]

/-- Take the oldest event that waits. -/
def poll (keyboard : KeyboardDriver δ) : Option KeyEvent × KeyboardDriver δ :=
  match keyboard.queue.pop? with
  | none => (none, keyboard)
  | some (event, queue) => (some event, { keyboard with queue := queue })

/-- Take the oldest event that waits, for its symbol. -/
def pollChar (keyboard : KeyboardDriver δ) : Option Char × KeyboardDriver δ :=
  let (event, keyboard) := keyboard.poll
  (event.map KeyEvent.symbol, keyboard)

end KeyboardDriver

end PocketKernel
