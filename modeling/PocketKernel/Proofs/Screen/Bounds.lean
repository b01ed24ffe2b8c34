import Mathlib.Data.Nat.Notation
import PocketKernel.Screen.Basic

/-!
# How long the cursor stays on the screen

The column may rest behind the last cell of a row, since a row that is full is left only when the
next byte comes. A move back counts cells through the rows, and there the end of a row and the
start of the next one are the same place. At the end of the last row this place is no cell: a move
by nothing takes the cursor from column 80 of the last row to a row below it, where the hardware is
told to show it and where the next byte cannot be written.

Nothing else takes the cursor off the screen. So a screen stays whole exactly as long as it is not
asked for a move by nothing while its last row is full.

## Main definitions

* `Screen.Action`, `Screen.run?`: what a screen is asked to do.
* `Screen.InBounds`: the cursor is on the screen.
* `Screen.Brimful`: the last row is full.

## Main results

* `Screen.InBounds.perform?`: one action keeps the cursor on the screen, with one exception.
* `Screen.stays_inBounds_iff`: which runs keep it there.
-/

namespace PocketKernel

namespace Screen

variable {s t : Screen}

/-- One call to the screen. -/
inductive Action where
  | write (bytes : List UInt8)
  | writeByte (byte : UInt8)
  | cursorLeft (count : ℕ)
  | setColors (letter back : Color)
  | clear
deriving DecidableEq

/-- The screen after a call, unless the call writes outside of it. -/
def Action.perform? (s : Screen) : Action → Option Screen
  | write bytes => s.write? bytes
  | writeByte byte => s.writeByte? byte
  | cursorLeft count => some (s.cursorLeft count)
  | setColors letter back => some (s.setColors letter back)
  | clear => some s.clear

/-- The screen after several calls, unless one of them writes outside of it. -/
def run? (s : Screen) (actions : List Action) : Option Screen := actions.foldlM Action.perform? s

/-- The cursor is on the screen, or behind the last cell of a row, and the hardware shows it on the
screen. -/
structure InBounds (s : Screen) : Prop where
  row_lt : s.row < screenRows
  column_le : s.column ≤ screenColumns
  shown_lt : ∀ place, s.shownCursor = some place → place < screenRows * screenColumns

/-- The cursor stands behind the last cell of the last row. -/
def Brimful (s : Screen) : Prop := s.position = screenRows * screenColumns

/-! ### Writing -/

theorem InBounds.cursorPosition_lt (hs : s.InBounds) :
    s.cursorPosition < screenRows * screenColumns := by
  have hrow := hs.row_lt
  simp only [cursorPosition, screenRows, screenColumns] at *
  omega

theorem InBounds.showCursor (hs : s.InBounds) : s.showCursor.InBounds := by
  refine ⟨hs.row_lt, hs.column_le, fun place hplace => ?_⟩
  obtain rfl : s.cursorPosition = place := by simpa using hplace
  exact hs.cursorPosition_lt

theorem InBounds.newLine (hs : s.InBounds) : s.newLine.InBounds := by
  refine ⟨?_, ?_, ?_⟩
  · have hrow := hs.row_lt
    rw [row_newLine, screenRows] at *
    split <;> omega
  · rw [column_newLine]
    exact Nat.zero_le _
  · rw [shownCursor_newLine]
    exact hs.shown_lt

theorem InBounds.wrap (hs : s.InBounds) :
    s.wrap.InBounds ∧ s.wrap.column < screenColumns := by
  unfold Screen.wrap
  split
  next => exact ⟨hs.newLine, by rw [column_newLine]; decide⟩
  next hroom => exact ⟨hs, Nat.lt_of_not_le hroom⟩

/-- Where the column has room, there is a cell. -/
theorem InBounds.put? (hs : s.InBounds) (hroom : s.column < screenColumns) (byte : UInt8) :
    ∃ t, s.put? byte = some t ∧ t.InBounds := by
  have hrow := hs.row_lt
  have hcell : s.position < screenRows * screenColumns := by
    simp only [position, screenRows, screenColumns] at *
    omega
  rw [Screen.put?, dif_pos hcell]
  exact ⟨_, rfl, hrow, hroom, hs.shown_lt⟩

/-- **A byte can be written** wherever the cursor is on the screen. -/
theorem InBounds.writeByte? (hs : s.InBounds) (byte : UInt8) :
    ∃ t, s.writeByte? byte = some t ∧ t.InBounds := by
  unfold Screen.writeByte?
  split
  next => exact ⟨_, rfl, hs.newLine⟩
  next =>
    split
    next => exact ⟨_, rfl, hs.row_lt, Nat.zero_le _, hs.shown_lt⟩
    next => exact hs.wrap.1.put? hs.wrap.2 byte

theorem InBounds.write? (hs : s.InBounds) (bytes : List UInt8) :
    ∃ t, s.write? bytes = some t ∧ t.InBounds := by
  have hfold : ∃ t, bytes.foldlM (fun s byte => s.writeByte? (glyph byte)) s = some t
      ∧ t.InBounds := by
    induction bytes generalizing s with
    | nil => exact ⟨s, rfl, hs⟩
    | cons byte bytes ih =>
      obtain ⟨t, ht, hbounds⟩ := hs.writeByte? (glyph byte)
      rw [List.foldlM_cons, ht]
      exact ih hbounds
  obtain ⟨t, ht, hbounds⟩ := hfold
  rw [Screen.write?, ht]
  exact ⟨_, rfl, hbounds.showCursor⟩

/-! ### Moving back -/

/-- A move back ends on a cell, unless it is no move and starts behind the last cell. -/
theorem InBounds.cursorLeft (hs : s.InBounds) {count : ℕ} (h : ¬ (count = 0 ∧ s.Brimful)) :
    (s.cursorLeft count).InBounds := by
  have hrow := hs.row_lt
  have hcolumn := hs.column_le
  refine InBounds.showCursor ⟨?_, ?_, hs.shown_lt⟩
  · simp only [Brimful, position, screenRows, screenColumns] at *
    omega
  · simp only [screenColumns]
    omega

/-- Behind the last cell, a move by nothing leaves the screen, and the hardware is told so. -/
theorem Brimful.not_inBounds_cursorLeft (hs : s.Brimful) : ¬ (s.cursorLeft 0).InBounds := by
  intro h
  have hrow := h.row_lt
  simp only [Screen.cursorLeft, row_showCursor, Nat.sub_zero, show s.position = _ from hs] at hrow
  exact absurd hrow (by decide)

theorem inBounds_clear (s : Screen) : s.clear.InBounds := by
  have hrow : 0 < screenRows := by decide
  refine ⟨hrow, Nat.zero_le _, fun place hplace => ?_⟩
  obtain rfl : 0 = place := by simpa [clear, cursorPosition] using hplace
  decide

/-! ### Runs -/

/-- **One call keeps the cursor on the screen**, and none writes outside of it, unless the call is a
move by nothing while the last row is full. -/
theorem InBounds.perform? (hs : s.InBounds) {action : Action}
    (h : ¬ (action = .cursorLeft 0 ∧ s.Brimful)) :
    ∃ t, action.perform? s = some t ∧ t.InBounds := by
  cases action with
  | write bytes => exact hs.write? bytes
  | writeByte byte => exact hs.writeByte? byte
  | cursorLeft count => exact ⟨_, rfl, hs.cursorLeft fun hslip => h ⟨by rw [hslip.1], hslip.2⟩⟩
  | setColors letter back => exact ⟨_, rfl, hs.row_lt, hs.column_le, hs.shown_lt⟩
  | clear => exact ⟨_, rfl, inBounds_clear s⟩

theorem run?_cons (s : Screen) (action : Action) (later : List Action) :
    s.run? (action :: later) = (action.perform? s).bind fun t => t.run? later :=
  List.foldlM_cons ..

theorem run?_append (s : Screen) (actions later : List Action) :
    s.run? (actions ++ later) = (s.run? actions).bind fun t => t.run? later :=
  List.foldlM_append ..

/-- No call of a run is a move by nothing that is made while the last row is full. -/
def NeverSlips (s : Screen) (actions : List Action) : Prop :=
  ∀ earlier later t, actions = earlier ++ .cursorLeft 0 :: later → s.run? earlier = some t →
    ¬ t.Brimful

/-- After every call of a run the cursor is on the screen, and no call has written outside of it. -/
def StaysInBounds (s : Screen) (actions : List Action) : Prop :=
  ∀ earlier later, actions = earlier ++ later → ∃ t, s.run? earlier = some t ∧ t.InBounds

theorem NeverSlips.not_slip {action : Action} {later : List Action}
    (h : s.NeverSlips (action :: later)) : ¬ (action = .cursorLeft 0 ∧ s.Brimful) := by
  rintro ⟨rfl, hbrim⟩
  exact h [] later s rfl rfl hbrim

theorem NeverSlips.tail {action : Action} {later : List Action}
    (h : s.NeverSlips (action :: later)) (ht : action.perform? s = some t) :
    t.NeverSlips later := by
  intro earlier behind u heq hu
  refine h (action :: earlier) behind u (by rw [heq]; rfl) ?_
  rw [run?_cons, ht]
  exact hu

/-- **A run that does not slip** ends on the screen. -/
theorem InBounds.run? (hs : s.InBounds) {actions : List Action} (h : s.NeverSlips actions) :
    ∃ t, s.run? actions = some t ∧ t.InBounds := by
  induction actions generalizing s with
  | nil => exact ⟨s, rfl, hs⟩
  | cons action later ih =>
    obtain ⟨t, ht, hbounds⟩ := hs.perform? h.not_slip
    rw [run?_cons, ht]
    exact ih hbounds (h.tail ht)

/-- **Which runs stay on the screen.** From a cleared screen on, the cursor is on the screen after
every call, and no byte is written outside of it, exactly if no move by nothing is made while the
last row is full. -/
theorem stays_inBounds_iff (start : Screen) (actions : List Action) :
    start.clear.StaysInBounds actions ↔ start.clear.NeverSlips actions := by
  constructor
  · rintro h earlier later t heq ht hbrim
    obtain ⟨u, hu, hbounds⟩ := h (earlier ++ [.cursorLeft 0]) later (by rw [heq]; simp)
    rw [run?_append, ht] at hu
    obtain rfl : t.cursorLeft 0 = u := Option.some.inj hu
    exact hbrim.not_inBounds_cursorLeft hbounds
  · rintro h earlier later heq
    refine (inBounds_clear start).run? fun before behind t hsplit => ?_
    exact h before (behind ++ later) t (by rw [heq, hsplit]; simp)

/-- A text that goes to the last row and fills it. -/
def brimText : List UInt8 := List.replicate 24 0x0A ++ List.replicate 80 0x61

/-- The last row is filled, and then the cursor is moved by nothing: it is in row 25, the hardware
is told to show it in cell 2000, and the next byte has no cell. -/
theorem off_screen_after_empty_move :
    ¬ blank.clear.StaysInBounds [.write brimText, .cursorLeft 0]
      ∧ (blank.clear.run? [.write brimText, .cursorLeft 0]).map (fun s => (s.row, s.shownCursor))
        = some (screenRows, some (screenRows * screenColumns))
      ∧ blank.clear.run? [.write brimText, .cursorLeft 0, .write [0x61]] = none := by
  refine ⟨fun h => ?_, by decide +kernel, by decide +kernel⟩
  obtain ⟨s, hs, hbounds⟩ := h [.write brimText, .cursorLeft 0] [] rfl
  have hrow : (blank.clear.run? [.write brimText, .cursorLeft 0]).map (fun s : Screen => s.row)
      = some screenRows := by
    decide +kernel
  rw [hs] at hrow
  exact Nat.lt_irrefl _ (Option.some.inj hrow ▸ hbounds.row_lt)

end Screen

end PocketKernel
