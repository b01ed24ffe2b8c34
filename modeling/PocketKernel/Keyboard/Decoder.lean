import PocketKernel.Keyboard.Layout
import PocketKernel.Keyboard.Scancode

/-!
# Decoders

A decoder stands between the bytes of a keyboard and what its keys produce. It is asked twice: a
byte may tell that a key goes down or up, and such a key may produce something. In between it can be
asked what is held, before that key counts.

A keyboard works with any decoder. `ScancodeDecoder` is one that looks the bytes up in the tables
and the keys in a layout.

## Main definitions

* `KeyDecoder`: what a keyboard asks of a decoder.
* `ScancodeDecoder`: the decoder by tables.
-/

namespace PocketKernel

/-- A decoder for the bytes of a keyboard. -/
class KeyDecoder (δ : Type) where
  /-- A decoder that has seen no byte. -/
  start : Layout → δ
  /-- Take a byte. What is returned is the key that goes down or up, if the byte tells of one. -/
  addByte : δ → UInt8 → Option (Key × Motion) × δ
  /-- The keys that modify others, and which of them are held. -/
  held : δ → Held
  /-- Let a key go down or up. What is returned is what it produces, if anything. -/
  strike : δ → Key × Motion → Option Produced × δ

/-- The decoder by tables. -/
structure ScancodeDecoder where
  layout : Layout
  /-- The table in which the next byte is looked up. -/
  table : ScancodeTable
  held : Held
deriving DecidableEq, Repr

namespace ScancodeDecoder

/-- Nothing was pressed yet. -/
def start (layout : Layout) : ScancodeDecoder := ⟨layout, .plain, .initial⟩

/-- Look a byte up. -/
def addByte (decoder : ScancodeDecoder) (byte : UInt8) :
    Option (Key × Motion) × ScancodeDecoder :=
  let (table, change) := decoder.table.feed byte
  (change, { decoder with table := table })

/-- A key produces something when it goes down, with what is held then. -/
def strike (decoder : ScancodeDecoder) : Key × Motion → Option Produced × ScancodeDecoder
  | (key, motion) =>
    let held := decoder.held.after key motion
    let produced := match motion with
      | .down => decoder.layout.produce key held
      | .up => none
    (produced, { decoder with held := held })

instance : KeyDecoder ScancodeDecoder where
  start := start
  addByte := addByte
  held := held
  strike := strike

end ScancodeDecoder

end PocketKernel
