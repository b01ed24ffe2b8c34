import PocketKernel.Keyboard.Decoder
import PocketKernel.Proofs.Keyboard.Codes

/-!
# Decoders that keep their word

`KeyDecoder` says how a decoder is asked, and nothing of what it answers. A lawful one cuts the
bytes into codes, whatever they are. It knows the codes of the keys that modify others, and keeps
track of these keys when they go down or up. What the other keys are, and what they produce, is left
open.

The decoder by tables is lawful.

## Main definitions

* `Key.place?`, `Held.holds`: the keys that modify others.
* `LawfulDecoder`: the laws.
* the instance for `ScancodeDecoder`.
-/

namespace PocketKernel

open KeyDecoder Scancode

/-- Where the codes are of a key that modifies others. -/
def Key.place? : Key → Option (ScancodeTable × ℕ)
  | leftShift => some (.plain, 0x2A)
  | rightShift => some (.plain, 0x36)
  | leftControl => some (.plain, 0x1D)
  | rightControl => some (.extended, 0x1D)
  | leftAlt => some (.plain, 0x38)
  | rightAlt => some (.extended, 0x38)
  | capsLock => some (.plain, 0x3A)
  | _ => none

/-- The key is held. -/
def Held.holds (held : Held) : Key → Bool
  | .leftShift => held.leftShift
  | .rightShift => held.rightShift
  | .leftControl => held.leftControl
  | .rightControl => held.rightControl
  | .leftAlt => held.leftAlt
  | .rightAlt => held.rightAlt
  | _ => false

/-- Behind a table, the byte announces another one. -/
def Announces (table : ScancodeTable) (byte : UInt8) : Prop :=
  table = .plain ∧ (announced? byte).isSome = true

/-- **A decoder that keeps its word.** -/
class LawfulDecoder (δ : Type) [KeyDecoder δ] where
  /-- The table in which the next byte is looked up. -/
  table : δ → ScancodeTable
  table_start (layout : Layout) : table (start layout) = .plain
  held_start (layout : Layout) : held (start layout : δ) = .initial
  /-- A byte that announces a table tells of no key. -/
  addByte_announced {decoder : δ} {byte : UInt8} {next : ScancodeTable} :
    table decoder = .plain → announced? byte = some next →
    (addByte decoder byte).1 = none ∧ table (addByte decoder byte).2 = next
  /-- Behind any other byte a new code starts, whether it tells of a key or not. -/
  table_addByte {decoder : δ} {byte : UInt8} :
    ¬ Announces (table decoder) byte → table (addByte decoder byte).2 = .plain
  /-- The keys that modify others have their codes, and no other key has them. -/
  addByte_place {decoder : δ} {byte : UInt8} {key : Key} {place : ScancodeTable × ℕ} :
    ¬ Announces (table decoder) byte → key.place? = some place →
    ((addByte decoder byte).1.map Prod.fst = some key
      ↔ (Scancode.mk (table decoder) byte).isOf place.1 place.2 = true)
  /-- The highest bit of a code tells which way the key goes. -/
  addByte_motion {decoder : δ} {byte : UInt8} {key : Key} {motion : Motion} :
    (addByte decoder byte).1 = some (key, motion) →
    (motion = .down ↔ (Scancode.mk (table decoder) byte).isMake = true)
  held_addByte (decoder : δ) (byte : UInt8) : held (addByte decoder byte).2 = held decoder
  table_strike (decoder : δ) (change : Key × Motion) :
    table (strike decoder change).2 = table decoder
  /-- A key is held after it went down, until it goes up. -/
  holds_strike {key : Key} {place : ScancodeTable × ℕ} (decoder : δ) (moved : Key)
      (motion : Motion) : key.place? = some place → key ≠ .capsLock →
    (held (strike decoder (moved, motion)).2).holds key
      = if moved = key then decide (motion = .down) else (held decoder).holds key
  /-- The lock changes when its key goes down. -/
  capsLock_strike (decoder : δ) (moved : Key) (motion : Motion) :
    (held (strike decoder (moved, motion)).2).capsLock
      = ((held decoder).capsLock ^^ decide (moved = .capsLock ∧ motion = .down))
  /-- A key that modifies others produces nothing but itself. -/
  strike_place {decoder : δ} {key : Key} {place : ScancodeTable × ℕ} {motion : Motion}
      {produced : Produced} : key.place? = some place →
    (strike decoder (key, motion)).1 = some produced → produced = .key key

/-! ### The decoder by tables -/

namespace ScancodeTable

variable {table next : ScancodeTable} {byte : UInt8} {key : Key} {place : ScancodeTable × ℕ}

theorem feed_of_announced (h : announced? byte = some next) : feed .plain byte = (next, none) := by
  rw [announced?] at h
  split at h
  next hfirst =>
    cases h
    rw [hfirst]
    rfl
  next hfirst =>
    split at h
    next hsecond =>
      cases h
      rw [hsecond]
      rfl
    next => cases h

theorem feed_of_not_announces (h : ¬ Announces table byte) :
    table.feed byte = (.plain, (table.key? (byte.toNat % 128)).map
      (·, if byte < 0x80 then .down else .up)) := by
  by_cases hplain : table = .plain
  · have hfirst : byte ≠ 0xE0 := by
      rintro rfl
      exact h ⟨hplain, rfl⟩
    have hsecond : byte ≠ 0xE1 := by
      rintro rfl
      exact h ⟨hplain, rfl⟩
    simp [feed, hfirst, hsecond]
  · simp [feed, hplain]

/-- No other key has the codes of one that modifies. -/
theorem key?_eq_some_iff (hplace : key.place? = some place) (table : ScancodeTable) :
    ∀ number < 128, table.key? number = some key ↔ (table, number) = place := by
  cases key <;> cases hplace <;> cases table <;> decide +kernel

end ScancodeTable

namespace Held

variable {key : Key} {place : ScancodeTable × ℕ}

theorem holds_after (hplace : key.place? = some place) (hlock : key ≠ .capsLock) (held : Held)
    (moved : Key) (motion : Motion) : (held.after moved motion).holds key
      = if moved = key then decide (motion = .down) else held.holds key := by
  cases key with
  | capsLock => exact absurd rfl hlock
  | leftShift | rightShift | leftControl | rightControl | leftAlt | rightAlt =>
    cases moved <;> rfl
  | _ => cases hplace

theorem capsLock_after (held : Held) (moved : Key) (motion : Motion) :
    (held.after moved motion).capsLock
      = (held.capsLock ^^ decide (moved = .capsLock ∧ motion = .down)) := by
  cases moved <;> cases motion <;> simp [after]

end Held

namespace ScancodeDecoder

variable {decoder : ScancodeDecoder} {byte : UInt8} {key : Key} {place : ScancodeTable × ℕ}
  {motion : Motion}

theorem addByte_of_not_announces (h : ¬ Announces decoder.table byte) :
    decoder.addByte byte = ((decoder.table.key? (byte.toNat % 128)).map
      (·, if byte < 0x80 then .down else .up), { decoder with table := .plain }) := by
  rw [addByte, ScancodeTable.feed_of_not_announces h]

theorem produce_place (hplace : key.place? = some place) (layout : Layout) (held : Held) :
    layout.produce key held = none := by
  cases key <;> cases hplace <;> cases layout <;> rfl

theorem strike_place (hplace : key.place? = some place) (decoder : ScancodeDecoder)
    (motion : Motion) : (decoder.strike (key, motion)).1 = none := by
  cases motion with
  | down => exact produce_place hplace decoder.layout _
  | up => rfl

theorem addByte_place (h : ¬ Announces decoder.table byte) (hplace : key.place? = some place) :
    (decoder.addByte byte).1.map Prod.fst = some key
      ↔ (Scancode.mk decoder.table byte).isOf place.1 place.2 = true := by
  have hnumber : byte.toNat % 128 < 128 := Nat.mod_lt _ (by decide)
  have hkey := ScancodeTable.key?_eq_some_iff hplace decoder.table _ hnumber
  rw [addByte_of_not_announces h, Option.map_map, isOf, Bool.and_eq_true, decide_eq_true_iff,
    decide_eq_true_iff, number, ← Prod.mk.injEq, ← hkey, Function.comp_def, Option.map_id']

theorem addByte_motion (h : (decoder.addByte byte).1 = some (key, motion)) :
    motion = .down ↔ (Scancode.mk decoder.table byte).isMake = true := by
  rw [isMake, decide_eq_true_iff]
  by_cases hannounces : Announces decoder.table byte
  · obtain ⟨hplain, next, hnext⟩ := hannounces.imp_right Option.isSome_iff_exists.mp
    rw [addByte, hplain, ScancodeTable.feed_of_announced hnext] at h
    cases h
  · rw [addByte_of_not_announces hannounces] at h
    obtain ⟨key', -, hmotion⟩ := Option.map_eq_some_iff.mp h
    obtain ⟨-, rfl⟩ := Prod.mk.inj hmotion
    split <;> simp_all

instance : LawfulDecoder ScancodeDecoder where
  table := table
  table_start _ := rfl
  held_start _ := rfl
  addByte_announced {decoder byte next} hplain hnext := by
    change (decoder.addByte byte).1 = none ∧ (decoder.addByte byte).2.table = next
    rw [addByte, hplain, ScancodeTable.feed_of_announced hnext]
    exact ⟨rfl, rfl⟩
  table_addByte {decoder byte} h := by
    change (decoder.addByte byte).2.table = .plain
    rw [addByte_of_not_announces h]
  addByte_place := addByte_place
  addByte_motion := addByte_motion
  held_addByte _ _ := rfl
  table_strike _ _ := rfl
  holds_strike decoder moved motion hplace hlock :=
    Held.holds_after hplace hlock decoder.held moved motion
  capsLock_strike decoder moved motion := Held.capsLock_after decoder.held moved motion
  strike_place {decoder key place motion produced} hplace h := by
    cases (strike_place hplace decoder motion).symm.trans h

end ScancodeDecoder

end PocketKernel
