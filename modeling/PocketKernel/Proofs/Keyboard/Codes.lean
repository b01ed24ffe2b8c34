import Mathlib.Data.Nat.Notation
import PocketKernel.Keyboard.Scancode

/-!
# The codes in a row of bytes

A byte that announces a table makes one code with the byte behind it, whatever that is, and any
other byte is a code by itself. However some bytes came, what follows is cut as if nothing had been
before, at once or behind one byte.

## Main definitions

* `Scancode`, `Scancode.codes`: the codes in a row of bytes.
* `Scancode.awaited`: the table that was announced for the next byte.

## Main results

* `Scancode.codes_append`, `Scancode.codes_append_cons`: what follows some bytes.
* `Scancode.codes_concat`: one byte more.
-/

namespace PocketKernel

/-- A byte of the keyboard, with the table that it is looked up in. -/
structure Scancode where
  table : ScancodeTable
  byte : UInt8
deriving DecidableEq, Repr

namespace Scancode

/-- The number of the key in the table. -/
def number (code : Scancode) : ℕ := code.byte.toNat % 128

/-- The key goes down. -/
def isMake (code : Scancode) : Bool := code.byte < 0x80

/-- The code belongs to the key with a number in a table. -/
def isOf (table : ScancodeTable) (number : ℕ) (code : Scancode) : Bool :=
  code.table = table && code.number = number

/-- The table that a byte announces. -/
def announced? (byte : UInt8) : Option ScancodeTable :=
  if byte = 0xE0 then some .extended
  else if byte = 0xE1 then some .secondExtended
  else none

/-- The codes in a row of bytes. A byte that announces a table is no code without the next one. -/
def codes : List UInt8 → List Scancode
  | [] => []
  | byte :: bytes =>
    match announced? byte, bytes with
    | none, bytes => ⟨.plain, byte⟩ :: codes bytes
    | some _, [] => []
    | some table, next :: bytes => ⟨table, next⟩ :: codes bytes

/-- The table that the last of some bytes announces, if it is not part of a code. -/
def awaited : List UInt8 → ScancodeTable
  | [] => .plain
  | byte :: bytes =>
    match announced? byte, bytes with
    | none, bytes => awaited bytes
    | some table, [] => table
    | some _, _ :: bytes => awaited bytes

/-! ### Cutting bytes into codes -/

variable {byte : UInt8} {bytes : List UInt8} {table : ScancodeTable}

theorem codes_cons_of_none (h : announced? byte = none) (bytes : List UInt8) :
    codes (byte :: bytes) = ⟨.plain, byte⟩ :: codes bytes
      ∧ awaited (byte :: bytes) = awaited bytes := by
  rw [codes.eq_def, awaited.eq_def]
  simp only [h, and_self]

theorem codes_cons_of_some (h : announced? byte = some table) (next : UInt8)
    (bytes : List UInt8) : codes (byte :: next :: bytes) = ⟨table, next⟩ :: codes bytes
      ∧ awaited (byte :: next :: bytes) = awaited bytes := by
  rw [codes.eq_def, awaited.eq_def]
  simp only [h, and_self]

theorem announced?_ne_plain (h : announced? byte = some table) : table ≠ .plain := by
  rw [announced?] at h
  split at h
  · cases h
    nofun
  · split at h
    · cases h
      nofun
    · cases h

/-- **Behind whole codes**, bytes are cut as if they were the first ones. -/
theorem codes_append (h : awaited bytes = .plain) (rest : List UInt8) :
    codes (bytes ++ rest) = codes bytes ++ codes rest
      ∧ awaited (bytes ++ rest) = awaited rest := by
  fun_induction awaited bytes with
  | case1 => exact ⟨rfl, rfl⟩
  | case2 byte bytes hannounced ih =>
    obtain ⟨hcodes, hawaited⟩ := ih h
    rw [List.cons_append, (codes_cons_of_none hannounced _).1, (codes_cons_of_none hannounced _).1,
      (codes_cons_of_none hannounced _).2, hcodes]
    exact ⟨rfl, hawaited⟩
  | case3 byte table hannounced => exact absurd h (announced?_ne_plain hannounced)
  | case4 byte table next bytes hannounced ih =>
    obtain ⟨hcodes, hawaited⟩ := ih h
    rw [List.cons_append, List.cons_append, (codes_cons_of_some hannounced _ _).1,
      (codes_cons_of_some hannounced _ _).1, (codes_cons_of_some hannounced _ _).2, hcodes]
    exact ⟨rfl, hawaited⟩

/-- **Behind a byte that announces a table**, the next one is looked up in it, whatever it is. -/
theorem codes_append_cons (h : awaited bytes ≠ .plain) (byte : UInt8) (rest : List UInt8) :
    codes (bytes ++ byte :: rest) = codes bytes ++ ⟨awaited bytes, byte⟩ :: codes rest
      ∧ awaited (bytes ++ byte :: rest) = awaited rest := by
  fun_induction awaited bytes with
  | case1 => exact absurd rfl h
  | case2 first bytes hannounced ih =>
    obtain ⟨hcodes, hawaited⟩ := ih h
    rw [List.cons_append, (codes_cons_of_none hannounced _).1, (codes_cons_of_none hannounced _).1,
      (codes_cons_of_none hannounced _).2, hcodes]
    exact ⟨rfl, hawaited⟩
  | case3 first table hannounced =>
    have hnone : codes [first] = [] := by
      rw [codes.eq_def]
      simp only [hannounced]
    rw [hnone]
    exact codes_cons_of_some hannounced byte rest
  | case4 first table next bytes hannounced ih =>
    obtain ⟨hcodes, hawaited⟩ := ih h
    rw [List.cons_append, List.cons_append, (codes_cons_of_some hannounced _ _).1,
      (codes_cons_of_some hannounced _ _).1, (codes_cons_of_some hannounced _ _).2, hcodes]
    exact ⟨rfl, hawaited⟩

/-- **One byte more.** It announces a table, or it completes a code. -/
theorem codes_concat (bytes : List UInt8) (byte : UInt8) :
    (∃ table, awaited bytes = .plain ∧ announced? byte = some table
        ∧ codes (bytes ++ [byte]) = codes bytes ∧ awaited (bytes ++ [byte]) = table)
      ∨ (¬ (awaited bytes = .plain ∧ (announced? byte).isSome)
        ∧ codes (bytes ++ [byte]) = codes bytes ++ [⟨awaited bytes, byte⟩]
        ∧ awaited (bytes ++ [byte]) = .plain) := by
  by_cases hplain : awaited bytes = .plain
  · obtain ⟨hcodes, hawaited⟩ := codes_append hplain [byte]
    cases hannounced : announced? byte with
    | none =>
      obtain ⟨hcode, hlast⟩ := codes_cons_of_none hannounced []
      refine .inr ⟨fun h => by simp at h, ?_, hawaited.trans hlast⟩
      rw [hcodes, hcode, hplain]
      rfl
    | some table =>
      have hcode : codes [byte] = [] ∧ awaited [byte] = table := by
        rw [codes.eq_def, awaited.eq_def]
        simp only [hannounced, and_self]
      refine .inl ⟨table, hplain, rfl, ?_, hawaited.trans hcode.2⟩
      rw [hcodes, hcode.1, List.append_nil]
  · exact .inr ⟨fun h => hplain h.1, codes_append_cons hplain byte []⟩

end Scancode

end PocketKernel
