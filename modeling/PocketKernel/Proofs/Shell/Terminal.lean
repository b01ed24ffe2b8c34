import Mathlib.Data.Nat.Notation
import PocketKernel.Shell.Console

/-!
# A terminal with one row

The smallest console on which a line can be edited: one row of bytes with a cursor. A byte is put
over the one at the cursor, or behind the last one, and a line feed starts the row anew. The cursor
can be moved back as far as the start of the row.

While no line feed comes, a terminal is best seen as the bytes before and behind its cursor: what is
written goes before the cursor and takes away as many bytes behind it, and moving back lets bytes
cross over.

## Main definitions

* `Terminal`, `Terminal.tell?`, `Terminal.show?`: the terminal, and what it is told.
* `Terminal.between`: the terminal by what is before and behind its cursor.

## Main results

* `Terminal.tell?_write`, `Terminal.tell?_left`: writing and moving back.
* `Terminal.foldl_put_newline`: a line feed starts the row anew.
-/

namespace PocketKernel

/-- A terminal with one row. -/
structure Terminal where
  row : List UInt8
  /-- How many bytes of the row stand before the cursor. -/
  column : ℕ
deriving DecidableEq, Repr

namespace Terminal

/-- Nothing was shown. -/
def blank : Terminal := ⟨[], 0⟩

/-- Put a byte at the cursor. A line feed starts the row anew. -/
def put (terminal : Terminal) (byte : UInt8) : Terminal :=
  if byte = 0x0A then blank
  else if terminal.column < terminal.row.length then
    ⟨terminal.row.set terminal.column byte, terminal.column + 1⟩
  else
    ⟨terminal.row ++ [byte], terminal.column + 1⟩

/-- Tell the terminal something; `none` if the cursor would leave the row. Clearing the screen is no
matter of the row. -/
def tell? (terminal : Terminal) : ConsoleEvent → Option Terminal
  | .write bytes => some (bytes.foldl put terminal)
  | .left count =>
    if count ≤ terminal.column then some { terminal with column := terminal.column - count }
    else none
  | .clear => some terminal

/-- Tell the terminal several things. -/
def show? (terminal : Terminal) (events : List ConsoleEvent) : Option Terminal :=
  events.foldlM tell? terminal

/-- The terminal with some bytes before the cursor and some behind it. -/
def between (before behind : List UInt8) : Terminal := ⟨before ++ behind, before.length⟩

variable {terminal : Terminal} {before behind bytes : List UInt8} {byte : UInt8}

theorem show?_cons (terminal : Terminal) (event : ConsoleEvent) (events : List ConsoleEvent) :
    terminal.show? (event :: events) = (terminal.tell? event).bind (·.show? events) :=
  List.foldlM_cons

theorem show?_append (terminal : Terminal) (events later : List ConsoleEvent) :
    terminal.show? (events ++ later) = (terminal.show? events).bind (·.show? later) :=
  List.foldlM_append

@[simp] theorem show?_singleton (terminal : Terminal) (event : ConsoleEvent) :
    terminal.show? [event] = terminal.tell? event := by
  rw [show?_cons]
  cases terminal.tell? event <;> rfl

/-! ### Writing on a row -/

theorem put_between (h : byte ≠ 0x0A) (before behind : List UInt8) :
    (between before behind).put byte = between (before ++ [byte]) (behind.drop 1) := by
  rw [put, if_neg h]
  cases behind with
  | nil =>
    rw [if_neg (by simp [between])]
    simp [between]
  | cons old behind =>
    rw [if_pos (by simp [between])]
    simp [between]

theorem foldl_put_between (h : ∀ byte ∈ bytes, byte ≠ 0x0A) (before behind : List UInt8) :
    bytes.foldl put (between before behind)
      = between (before ++ bytes) (behind.drop bytes.length) := by
  induction bytes generalizing before behind with
  | nil => simp
  | cons byte bytes ih =>
    rw [List.forall_mem_cons] at h
    rw [List.foldl_cons, put_between h.1, ih h.2, List.drop_drop, List.append_assoc]
    simp [Nat.add_comm]

/-- **Writing** goes over as many bytes as are written. -/
theorem tell?_write (h : ∀ byte ∈ bytes, byte ≠ 0x0A) (before behind : List UInt8) :
    (between before behind).tell? (.write bytes)
      = some (between (before ++ bytes) (behind.drop bytes.length)) := by
  rw [tell?, foldl_put_between h]

/-- **Moving back** lets the last bytes before the cursor be behind it. -/
theorem tell?_left (before bytes behind : List UInt8) :
    (between (before ++ bytes) behind).tell? (.left bytes.length)
      = some (between before (bytes ++ behind)) := by
  rw [tell?, if_pos (by simp [between])]
  simp [between]

/-! ### Starting a row -/

/-- **A line feed** at the end of what is written leaves a row with nothing in it. -/
theorem foldl_put_newline (terminal : Terminal) (bytes : List UInt8) :
    (bytes ++ [0x0A]).foldl put terminal = between [] [] := by
  rw [List.foldl_append]
  rfl

/-- On a row that ends at the cursor, so does the row after anything was written. -/
theorem exists_foldl_put (before bytes : List UInt8) :
    ∃ row, bytes.foldl put (between before []) = between row [] := by
  induction bytes generalizing before with
  | nil => exact ⟨before, rfl⟩
  | cons byte bytes ih =>
    rw [List.foldl_cons]
    by_cases h : byte = 0x0A
    · rw [put, if_pos h]
      exact ih []
    · rw [put_between h]
      exact ih _

/-- The event leaves the cursor where the row ends, if it was there. -/
def Plain : ConsoleEvent → Prop
  | .left _ => False
  | _ => True

theorem exists_show?_of_plain {events : List ConsoleEvent} (h : ∀ event ∈ events, Plain event)
    (before : List UInt8) : ∃ row, (between before []).show? events = some (between row []) := by
  induction events generalizing before with
  | nil => exact ⟨before, rfl⟩
  | cons event events ih =>
    rw [List.forall_mem_cons] at h
    rw [show?_cons]
    cases event with
    | write bytes =>
      obtain ⟨row, hrow⟩ := exists_foldl_put before bytes
      rw [tell?, hrow]
      exact ih h.2 row
    | left count => exact h.1.elim
    | clear => exact ih h.2 before

end Terminal

end PocketKernel
