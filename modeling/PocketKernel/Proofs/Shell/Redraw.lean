import PocketKernel.Proofs.Shell.Terminal
import PocketKernel.Proofs.Text.Slices
import PocketKernel.Shell.Editor

/-!
# The editor keeps its line on the screen

Every operation of the line editor changes the line and says how the console has to be changed. On a
terminal with one row both go together: if the row is some prompt, the line and then blanks, with
the cursor where the one of the editor is, then it is so again after the operation.

That an operation does this is a judgement on operations, with a rule for sequencing. The operations
that change the line in the middle write the rest of it again from the cursor on; one lemma says
what that does to the row, whatever stood there before.

## Main definitions

* `LineEditor.Displays`: a terminal shows the line behind a prompt.
* `EditM.Redrawn`, `EditM.Redraws`: an operation keeps the line on the terminal.
* `History.older?`, `History.newer?`: which line is recalled.

## Main results

* `EditM.redraws_insert`, `EditM.redraws_backspace`, `EditM.redraws_delete`: change the line.
* `EditM.redraws_replace`, `EditM.redrawn_older`, `EditM.redrawn_newer`: recall lines.
-/

namespace PocketKernel

open Text

/-- A number of blanks. -/
def blanks (count : ℕ) : List UInt8 := List.replicate count 0x20

theorem drop_blanks (count taken : ℕ) : (blanks count).drop taken = blanks (count - taken) :=
  List.drop_replicate ..

theorem blanks_append (count count' : ℕ) :
    blanks count ++ blanks count' = blanks (count + count') :=
  List.replicate_append_replicate ..

theorem utf8_replicate_blank (count : ℕ) : utf8 (List.replicate count ' ') = blanks count := by
  induction count with
  | zero => rfl
  | succ count ih =>
    rw [List.replicate_succ, utf8_cons, ih]
    rfl

/-- The line consists of printable characters, no more than can be typed. -/
structure Text.Typed (line : Text) : Prop where
  printable : ∀ c ∈ line, isPrintable c = true
  length_le : line.length ≤ LineEditor.sizeLimit

/-- Nothing was typed. -/
theorem Text.typed_nil : Typed [] := ⟨nofun, Nat.zero_le _⟩

theorem Text.Typed.before {before behind : Text} (h : Typed (before ++ behind)) :
    ∀ c ∈ before, isPrintable c = true :=
  fun c hc => h.printable c (List.mem_append_left _ hc)

theorem Text.Typed.behind {before behind : Text} (h : Typed (before ++ behind)) :
    ∀ c ∈ behind, isPrintable c = true :=
  fun c hc => h.printable c (List.mem_append_right _ hc)

/-- A shorter line of characters of a line that was typed. -/
theorem Text.Typed.sublist {line shorter : Text} (h : Typed line) (hsub : shorter.Sublist line) :
    Typed shorter :=
  ⟨fun c hc => h.printable c (hsub.subset hc), Nat.le_trans hsub.length_le h.length_le⟩

/-- What is left of a row when as many bytes are passed over as a text has, and some more. -/
theorem drop_utf8_append {text : Text} (h : ∀ c ∈ text, isPrintable c = true) (back : List UInt8)
    (more : ℕ) : (utf8 text ++ back).drop (text.length + more) = back.drop more := by
  rw [← utf8Size_eq_length h, ← length_utf8, List.drop_length_add_append]

/-- A line with one more character. -/
theorem Text.Typed.insert {before behind : Text} {c : Char} (h : Typed (before ++ behind))
    (hc : isPrintable c = true) (hroom : (before ++ behind).length < LineEditor.sizeLimit) :
    Typed (before ++ c :: behind) := by
  refine ⟨fun d hd => ?_, ?_⟩
  · rw [List.mem_append, List.mem_cons] at hd
    rcases hd with hd | rfl | hd
    · exact h.before d hd
    · exact hc
    · exact h.behind d hd
  · rw [List.length_append] at hroom ⊢
    exact hroom

theorem isPrintable_of_mem_replicate {c : Char} {count : ℕ} (h : c ∈ List.replicate count ' ') :
    isPrintable c = true := by
  rw [List.eq_of_mem_replicate h]
  rfl

namespace Terminal

variable {text behind : Text} {front back : List UInt8}

/-- The text has only printable characters, so it is shown as it is. -/
theorem tell?_text (h : ∀ c ∈ text, isPrintable c = true) (front back : List UInt8) :
    (between front back).tell? (.text text)
      = some (between (front ++ utf8 text) (back.drop text.length)) := by
  rw [ConsoleEvent.text, tell?_write (fun _ => ne_newline_of_mem_utf8 h), length_utf8,
    utf8Size_eq_length h]

/-- A text is written over itself: the cursor moves over it. -/
theorem tell?_over (h : ∀ c ∈ text, isPrintable c = true) (front back : List UInt8) :
    (between front (utf8 text ++ back)).tell? (.text text)
      = some (between (front ++ utf8 text) back) := by
  rw [tell?_text h]
  exact congrArg (fun left => some (between (front ++ utf8 text) left)) (drop_utf8_append h back 0)

theorem tell?_back (h : ∀ c ∈ text, isPrintable c = true) (front back : List UInt8) :
    (between (front ++ utf8 text) back).tell? (.left text.length)
      = some (between front (utf8 text ++ back)) := by
  rw [← utf8Size_eq_length h, ← length_utf8, tell?_left]

/-- Cells are blanked. -/
theorem show?_blank (front back : List UInt8) (stale : ℕ) :
    (between front back).show? [.text (List.replicate stale ' '), .left stale]
      = some (between front (blanks stale ++ back.drop stale)) := by
  have hlength : (blanks stale).length = stale := List.length_replicate
  have hleft := tell?_left front (blanks stale) (back.drop stale)
  rw [hlength] at hleft
  rw [show?_cons, tell?_text fun _ => isPrintable_of_mem_replicate, Option.bind_some,
    utf8_replicate_blank, List.length_replicate, show?_singleton, hleft]

/-- What is said to write the end of a line again, when some cells behind it are left over. -/
def rewriting (behind : Text) (stale : ℕ) : List ConsoleEvent :=
  [.text behind, .text (List.replicate stale ' '), .left (utf8Size behind + stale)]

/-- **The end of a line is written again**, and what is left over is blanked. -/
theorem show?_rewriting {stale count : ℕ} (h : ∀ c ∈ behind, isPrintable c = true)
    (hback : back.drop (behind.length + stale) = blanks count) :
    (between front back).show? (rewriting behind stale)
      = some (between front (utf8 behind ++ blanks (stale + count))) := by
  have hlength : (utf8 behind ++ blanks stale).length = utf8Size behind + stale := by
    rw [List.length_append, length_utf8, blanks, List.length_replicate]
  have hleft := tell?_left front (utf8 behind ++ blanks stale) (blanks count)
  rw [hlength] at hleft
  rw [rewriting, show?_cons, tell?_text h, Option.bind_some, show?_cons,
    tell?_text fun _ => isPrintable_of_mem_replicate, Option.bind_some, List.drop_drop,
    List.length_replicate, hback, utf8_replicate_blank, List.append_assoc, show?_singleton, hleft,
    List.append_assoc, blanks_append]

/-- The cursor moves back over a character. -/
theorem show?_left_one {before : Text} {c : Char} (h : Typed (before ++ c :: behind))
    (prompt : List UInt8) (count : ℕ) :
    (between (prompt ++ utf8 (before ++ [c])) (utf8 behind ++ blanks count)).show? [.left 1]
      = some (between (prompt ++ utf8 before) (utf8 (c :: behind) ++ blanks count)) := by
  have hc : ∀ d ∈ [c], isPrintable d = true := fun d hd =>
    h.behind d (List.mem_singleton.mp hd ▸ List.mem_cons_self)
  simpa using tell?_back hc (prompt ++ utf8 before) (utf8 behind ++ blanks count)

/-- The cursor moves over a character, which is written again. -/
theorem show?_right_one {before : Text} {c : Char} (h : Typed (before ++ c :: behind))
    (prompt : List UInt8) (count : ℕ) :
    (between (prompt ++ utf8 before) (utf8 (c :: behind) ++ blanks count)).show? [.text [c]]
      = some (between (prompt ++ utf8 (before ++ [c])) (utf8 behind ++ blanks count)) := by
  have hc : ∀ d ∈ [c], isPrintable d = true := fun d hd =>
    h.behind d (List.mem_singleton.mp hd ▸ List.mem_cons_self)
  simpa using tell?_over hc (prompt ++ utf8 before) (utf8 behind ++ blanks count)

/-- A character is gone from the line, and the cell behind its end is blanked. -/
theorem show?_rewriting_one {c : Char} (h : ∀ d ∈ c :: behind, isPrintable d = true)
    (front : List UInt8) (count : ℕ) :
    (between front (utf8 (c :: behind) ++ blanks count)).show? (rewriting behind 1)
      = some (between front (utf8 behind ++ blanks (1 + count))) :=
  show?_rewriting (List.forall_mem_cons.mp h).2 (drop_utf8_append h (blanks count) 0)

end Terminal

namespace History

/-- The index of the line that the key for older lines recalls. -/
def older? (history : History) (recalled : Option ℕ) : Option ℕ :=
  if history.isEmpty then none
  else match recalled with
    | none => some (history.size - 1)
    | some 0 => none
    | some (index + 1) => some index

/-- The index of the line that the key for newer lines recalls. -/
def newer? (history : History) (recalled : Option ℕ) : Option ℕ :=
  recalled.bind fun index => if index + 1 < history.size then some (index + 1) else none

end History

namespace LineEditor

/-- Behind a prompt, the terminal shows the line and then blanks, and its cursor is where the one of
the editor is. -/
structure Displays (prompt : List UInt8) (editor : LineEditor) (terminal : Terminal) : Prop where
  typed : Typed editor.line
  shown : ∃ before behind count, editor.line = before ++ behind ∧ editor.cursor = before.length
    ∧ terminal = .between (prompt ++ utf8 before) (utf8 behind ++ blanks count)

theorem Displays.cursor_le {prompt : List UInt8} {editor : LineEditor} {terminal : Terminal}
    (h : Displays prompt editor terminal) : editor.cursor ≤ editor.line.length := by
  obtain ⟨before, behind, count, hline, hcursor, -⟩ := h.shown
  rw [hline, hcursor, List.length_append]
  exact Nat.le_add_right _ _

/-- What the row of the terminal holds, and where its cursor is. -/
theorem Displays.row_eq {prompt : List UInt8} {editor : LineEditor} {terminal : Terminal}
    (h : Displays prompt editor terminal) :
    (∃ count, terminal.row = prompt ++ utf8 editor.line ++ blanks count)
      ∧ terminal.column = prompt.length + editor.cursor := by
  obtain ⟨before, behind, count, hline, hcursor, rfl⟩ := h.shown
  have hprintable : ∀ c ∈ before, isPrintable c = true := fun c hc =>
    h.typed.printable c (hline ▸ List.mem_append_left _ hc)
  refine ⟨⟨count, ?_⟩, ?_⟩
  · simp [Terminal.between, hline]
  · rw [Terminal.between, List.length_append, length_utf8, utf8Size_eq_length hprintable, hcursor]

end LineEditor

/-- Editing with some text before the cursor and some behind it. -/
abbrev Editing.between (before behind : Text) (recalled : Option ℕ) (shown : List ConsoleEvent) :
    Editing :=
  ⟨⟨before ++ behind, before.length, recalled⟩, shown⟩

namespace EditM

variable {α : Type} {before behind : Text} {recalled : Option ℕ} {shown : List ConsoleEvent}
  {c : Char}

/-! ### What operations say -/

theorem run_parts (h : Typed (before ++ behind)) :
    parts.run (.between before behind recalled shown)
      = some ((before, behind), .between before behind recalled shown) := by
  have hsplit := Text.splitAtByte?_append before behind
  rw [utf8Size_eq_length h.before] at hsplit
  show (StateT.lift (splitAtByte? (before ++ behind) before.length)).run _ = _
  rw [hsplit]
  rfl

theorem run_redraw (h : Typed (before ++ behind)) (stale : ℕ) :
    (redraw stale).run (.between before behind recalled shown)
      = some ((), .between before behind recalled (shown ++ Terminal.rewriting behind stale)) := by
  rw [redraw, StateT.run_bind, run_parts h]
  simp [display, back, tell, Terminal.rewriting]

/-- The character behind the cursor is taken out, and what is behind it is written again. -/
theorem run_remove (h : Typed (before ++ c :: behind)) :
    (do remove; redraw 1 : EditM Unit).run (.between before (c :: behind) recalled shown)
      = some ((), .between before behind recalled (shown ++ Terminal.rewriting behind 1)) := by
  rw [StateT.run_bind, remove, StateT.run_bind, run_parts h]
  exact run_redraw (h.sublist (by simp)) 1

/-- The cursor moves over a character, which is written again. -/
theorem run_moveRight (h : Typed (before ++ c :: behind)) :
    moveRight.run (.between before (c :: behind) recalled shown)
      = some ((), .between (before ++ [c]) behind recalled (shown ++ [.text [c]])) := by
  have hc : c.utf8Size = 1 := utf8Size_of_isPrintable (h.behind c List.mem_cons_self)
  have hsize : utf8Size before = before.length := utf8Size_eq_length h.before
  have hpos : 0 < 1 + utf8Size behind := Nat.lt_of_lt_of_le Nat.one_pos (Nat.le_add_right _ _)
  simp [moveRight, EditM.editor, LineEditor.size, hpos, run_parts h, hsize, hc, display, tell,
    change]

/-! ### The judgement -/

/-- An operation does not break off here, and what it says makes the terminal show the line. -/
def Redrawn (operation : EditM Unit) (prompt : List UInt8) (editor : LineEditor)
    (terminal : Terminal) : Prop :=
  ∃ editor' terminal' events,
    (∀ shown, operation.run ⟨editor, shown⟩ = some ((), ⟨editor', shown ++ events⟩))
      ∧ terminal.show? events = some terminal' ∧ LineEditor.Displays prompt editor' terminal'

/-- An operation that is done while a terminal shows the line never breaks off, and what it says
makes the terminal show the line again. -/
def Redraws (operation : EditM Unit) : Prop :=
  ∀ prompt editor terminal, LineEditor.Displays prompt editor terminal →
    Redrawn operation prompt editor terminal

theorem Redraws.pure : Redraws (pure ()) :=
  fun _ editor terminal h => ⟨editor, terminal, [], fun _ => by rw [List.append_nil]; rfl, rfl, h⟩

/-- **Sequencing.** -/
theorem Redraws.bind {first next : EditM Unit} (hfirst : Redraws first) (hnext : Redraws next) :
    Redraws (first >>= fun _ => next) := by
  intro prompt editor terminal h
  obtain ⟨editor₁, terminal₁, events₁, hrun₁, hshow₁, h₁⟩ := hfirst prompt editor terminal h
  obtain ⟨editor₂, terminal₂, events₂, hrun₂, hshow₂, h₂⟩ := hnext prompt editor₁ terminal₁ h₁
  refine ⟨editor₂, terminal₂, events₁ ++ events₂, fun shown => ?_, ?_, h₂⟩
  · rw [StateT.run_bind, hrun₁, ← List.append_assoc]
    exact hrun₂ _
  · rw [Terminal.show?_append, hshow₁]
    exact hshow₂

theorem Redraws.forM {step : α → EditM Unit} (items : List α)
    (hstep : ∀ item ∈ items, Redraws (step item)) : Redraws (items.forM step) := by
  induction items with
  | nil => exact .pure
  | cons item items ih =>
    rw [List.forall_mem_cons] at hstep
    exact hstep.1.bind (ih hstep.2)

/-- An operation by what it makes of a line with the cursor at some place. -/
theorem Redraws.of_parts {operation : EditM Unit}
    (h : ∀ before behind recalled, Typed (before ++ behind) →
      ∃ before' behind' recalled' events, Typed (before' ++ behind')
        ∧ (∀ shown, operation.run (.between before behind recalled shown)
          = some ((), .between before' behind' recalled' (shown ++ events)))
        ∧ ∀ prompt count, ∃ count',
          (Terminal.between (prompt ++ utf8 before) (utf8 behind ++ blanks count)).show? events
            = some (.between (prompt ++ utf8 before') (utf8 behind' ++ blanks count'))) :
    Redraws operation := by
  rintro prompt ⟨line, cursor, recalled⟩ _ ⟨htyped, before, behind, count, rfl, rfl, rfl⟩
  obtain ⟨before', behind', recalled', events, htyped', hrun, hshow⟩ :=
    h before behind recalled htyped
  obtain ⟨count', hshow⟩ := hshow prompt count
  exact ⟨_, _, events, hrun, hshow, htyped', before', behind', count', rfl, rfl, rfl⟩

/-! ### Moving -/

theorem redraws_moveLeft : Redraws moveLeft := by
  refine .of_parts fun before behind recalled htyped => ?_
  rcases List.eq_nil_or_concat before with rfl | ⟨before, c, rfl⟩
  · refine ⟨[], behind, recalled, [], htyped, fun shown => ?_, fun prompt count => ⟨count, rfl⟩⟩
    simp [moveLeft, EditM.editor]
  · rw [List.concat_eq_append] at htyped ⊢
    have htyped : Typed (before ++ c :: behind) := by simpa using htyped
    refine ⟨before, c :: behind, recalled, [.left 1], htyped, fun shown => ?_,
      fun prompt count => ⟨count, Terminal.show?_left_one htyped prompt count⟩⟩
    simp [moveLeft, EditM.editor, change, back, tell]

theorem redraws_moveRight : Redraws moveRight := by
  refine .of_parts fun before behind recalled htyped => ?_
  cases behind with
  | nil =>
    refine ⟨before, [], recalled, [], htyped, fun shown => ?_, fun prompt count => ⟨count, rfl⟩⟩
    simp [moveRight, EditM.editor, LineEditor.size, utf8Size_eq_length htyped.before]
  | cons c behind =>
    exact ⟨before ++ [c], behind, recalled, [.text [c]], by simpa using htyped,
      fun shown => run_moveRight htyped, fun prompt count =>
        ⟨count, Terminal.show?_right_one htyped prompt count⟩⟩

theorem redraws_home : Redraws home := by
  refine .of_parts fun before behind recalled htyped => ?_
  refine ⟨[], before ++ behind, recalled, [.left before.length], htyped, fun shown => ?_,
    fun prompt count => ⟨count, ?_⟩⟩
  · simp [home, EditM.editor, change, back, tell]
  · simpa using Terminal.tell?_back htyped.before prompt (utf8 behind ++ blanks count)

theorem redraws_toEnd : Redraws toEnd := by
  refine .of_parts fun before behind recalled htyped => ?_
  refine ⟨before ++ behind, [], recalled, [.text behind], by simpa using htyped, fun shown => ?_,
    fun prompt count => ⟨count, ?_⟩⟩
  · rw [toEnd, StateT.run_bind, run_parts htyped]
    simp [display, tell, change, LineEditor.size, utf8Size_eq_length htyped.before,
      utf8Size_eq_length htyped.behind]
  · simpa using Terminal.tell?_over htyped.behind (prompt ++ utf8 before) (blanks count)

/-! ### Changing the line -/

theorem redraws_backspace : Redraws backspace := by
  refine .of_parts fun before behind recalled htyped => ?_
  rcases List.eq_nil_or_concat before with rfl | ⟨before, c, rfl⟩
  · refine ⟨[], behind, recalled, [], htyped, fun shown => ?_, fun prompt count => ⟨count, rfl⟩⟩
    simp [backspace, EditM.editor]
  · rw [List.concat_eq_append] at htyped ⊢
    have htyped : Typed (before ++ c :: behind) := by simpa using htyped
    refine ⟨before, behind, recalled, [.left 1] ++ Terminal.rewriting behind 1,
      htyped.sublist (by simp), fun shown => ?_, fun prompt count => ⟨1 + count, ?_⟩⟩
    · have hremove : (do remove; redraw 1 : EditM Unit).run
            (.between before (c :: behind) recalled (shown ++ [.left 1]))
          = some ((), .between before behind recalled
            (shown ++ [.left 1] ++ Terminal.rewriting behind 1)) :=
        run_remove htyped
      simpa [backspace, EditM.editor, change, back, tell] using hremove
    · rw [Terminal.show?_append, Terminal.show?_left_one htyped]
      exact Terminal.show?_rewriting_one htyped.behind _ _

theorem redraws_delete : Redraws delete := by
  refine .of_parts fun before behind recalled htyped => ?_
  cases behind with
  | nil =>
    refine ⟨before, [], recalled, [], htyped, fun shown => ?_, fun prompt count => ⟨count, rfl⟩⟩
    simp [delete, EditM.editor, LineEditor.size, utf8Size_eq_length htyped.before]
  | cons c behind =>
    refine ⟨before, behind, recalled, Terminal.rewriting behind 1, htyped.sublist (by simp),
      fun shown => ?_, fun prompt count =>
        ⟨1 + count, Terminal.show?_rewriting_one htyped.behind _ _⟩⟩
    have hne : before.length ≠ utf8Size before + (c.utf8Size + utf8Size behind) := by
      have hc := c.utf8Size_pos
      rw [utf8Size_eq_length htyped.before]
      omega
    rw [← run_remove htyped, delete]
    simp [EditM.editor, LineEditor.size, hne]

/-- A character that is typed at the end of the line is just shown. -/
theorem run_insert_end (h : Typed (before ++ [c])) :
    (insert c).run (.between before [] recalled shown)
      = some ((), .between (before ++ [c]) [] recalled (shown ++ [.text [c]])) := by
  have hsize : utf8Size before = before.length := utf8Size_eq_length h.before
  have hroom : before.length < LineEditor.sizeLimit := by
    have hle := h.length_le
    rw [List.length_append] at hle
    exact hle
  have hmove : moveRight.run (.between before [c] recalled shown)
      = some ((), .between (before ++ [c]) [] recalled (shown ++ [.text [c]])) :=
    run_moveRight h
  simpa [insert, EditM.editor, LineEditor.size, hroom, hsize, change] using hmove

/-- A character that is typed in the middle is shown with the rest of the line behind it, and then
the cursor moves over it. -/
theorem run_insert_middle (h : Typed (before ++ c :: behind)) (hne : behind ≠ []) :
    (insert c).run (.between before behind recalled shown)
      = some ((), .between (before ++ [c]) behind recalled
        (shown ++ (Terminal.rewriting (c :: behind) 0 ++ [.text [c]]))) := by
  have h' : Typed (before ++ behind) := h.sublist (by simp)
  have hbefore : utf8Size before = before.length := utf8Size_eq_length h.before
  have hbehind : utf8Size behind = behind.length := utf8Size_eq_length h'.behind
  have hroom : before.length + behind.length < LineEditor.sizeLimit := by
    have hle := h.length_le
    rw [List.length_append] at hle
    exact hle
  have hredraw : (redraw 0).run (.between before (c :: behind) recalled shown)
      = some ((), .between before (c :: behind) recalled
        (shown ++ Terminal.rewriting (c :: behind) 0)) :=
    run_redraw h 0
  have hmove : moveRight.run (.between before (c :: behind) recalled
        (shown ++ Terminal.rewriting (c :: behind) 0))
      = some ((), .between (before ++ [c]) behind recalled
        (shown ++ Terminal.rewriting (c :: behind) 0 ++ [.text [c]])) :=
    run_moveRight h
  simp [insert, EditM.editor, LineEditor.size, hroom, hbefore, hbehind, hne, change, run_parts h',
    hredraw, hmove]

/-- There is no room for a character. -/
theorem run_insert_full (h : Typed (before ++ behind))
    (hfull : LineEditor.sizeLimit ≤ (before ++ behind).length) :
    (insert c).run (.between before behind recalled shown)
      = some ((), .between before behind recalled shown) := by
  have hbefore : utf8Size before = before.length := utf8Size_eq_length h.before
  have hbehind : utf8Size behind = behind.length := utf8Size_eq_length h.behind
  rw [List.length_append] at hfull
  simp [insert, EditM.editor, LineEditor.size, hbefore, hbehind, Nat.not_lt.mpr hfull]

/-- A character is typed where there is room for it. -/
theorem redraws_insert (hc : isPrintable c = true) : Redraws (insert c) := by
  refine .of_parts fun before behind recalled htyped => ?_
  by_cases hroom : (before ++ behind).length < LineEditor.sizeLimit
  · have htyped' : Typed (before ++ c :: behind) := htyped.insert hc hroom
    by_cases hne : behind = []
    · subst hne
      refine ⟨before ++ [c], [], recalled, [.text [c]], by simpa using htyped',
        fun shown => run_insert_end htyped', fun prompt count => ⟨count - 1, ?_⟩⟩
      have hwrite := Terminal.tell?_text htyped'.behind (prompt ++ utf8 before) (blanks count)
      rw [drop_blanks, List.append_assoc, ← utf8_append] at hwrite
      rw [Terminal.show?_singleton]
      exact hwrite
    · refine ⟨before ++ [c], behind, recalled, Terminal.rewriting (c :: behind) 0 ++ [.text [c]],
        by simpa using htyped', fun shown => run_insert_middle htyped' hne,
        fun prompt count => ⟨0 + (count - 1), ?_⟩⟩
      have hdrop : (utf8 behind ++ blanks count).drop ((c :: behind).length + 0)
          = blanks (count - 1) :=
        (drop_utf8_append htyped.behind (blanks count) 1).trans (drop_blanks count 1)
      rw [Terminal.show?_append, Terminal.show?_rewriting htyped'.behind hdrop]
      exact Terminal.show?_right_one htyped' prompt _
  · refine ⟨before, behind, recalled, [], htyped, fun shown => ?_, fun prompt count => ⟨count, rfl⟩⟩
    rw [List.append_nil]
    exact run_insert_full htyped (Nat.le_of_not_lt hroom)

/-- Whatever of a text can be typed is typed. -/
theorem redraws_insertAll (text : Text) : Redraws (insertAll text) :=
  .forM _ fun _ hc => redraws_insert (List.mem_filter.mp hc).2

/-! ### Recalling lines -/

/-- Another line is shown over the line, and cells that are left over are blanked. -/
theorem redraws_replace {line : Text} (hline : Typed line) : Redraws (replace line) := by
  refine .of_parts fun before behind recalled htyped => ?_
  have hsize : utf8Size line = line.length := utf8Size_eq_length hline.printable
  have hbefore : utf8Size before = before.length := utf8Size_eq_length htyped.before
  have hbehind : utf8Size behind = behind.length := utf8Size_eq_length htyped.behind
  refine ⟨line, [], recalled, [.left before.length, .text line] ++
    [.text (List.replicate (before.length + behind.length - line.length) ' '),
      .left (before.length + behind.length - line.length)], by simpa using hline,
    fun shown => ?_, fun prompt count => ?_⟩
  · simp [replace, home, EditM.editor, change, display, back, tell, LineEditor.size, hsize, hbefore,
      hbehind]
  · generalize hstale : before.length + behind.length - line.length = stale
    have hhome := Terminal.tell?_back htyped.before prompt (utf8 behind ++ blanks count)
    have hwritten : (Terminal.between (prompt ++ utf8 before) (utf8 behind ++ blanks count)).show?
          [.left before.length, .text line]
        = some (.between (prompt ++ utf8 line)
          ((utf8 (before ++ behind) ++ blanks count).drop line.length)) := by
      rw [Terminal.show?_cons, hhome, Option.bind_some, Terminal.show?_singleton,
        Terminal.tell?_text hline.printable, utf8_append, List.append_assoc]
    obtain ⟨more, hmore⟩ : ∃ more, line.length + stale = (before ++ behind).length + more := by
      rw [List.length_append]
      exact ⟨line.length + stale - (before.length + behind.length), by omega⟩
    refine ⟨stale + (count - more), ?_⟩
    rw [Terminal.show?_append, hwritten, Option.bind_some, Terminal.show?_blank, List.drop_drop,
      hmore, drop_utf8_append htyped.printable, drop_blanks, blanks_append]
    rfl

/-- Which line was recalled is not shown. -/
theorem redraws_change_recalled (recalled : Option ℕ) :
    Redraws (change fun editor => { editor with recalled := recalled }) :=
  fun _ editor terminal h => ⟨{ editor with recalled := recalled }, terminal, [],
    fun _ => by rw [List.append_nil]; rfl, rfl, h.typed, h.shown⟩

variable {history : History} {editor : LineEditor}

theorem redraws_recallAt {index : ℕ} (h : ∀ line ∈ history.get? index, Typed line) :
    Redraws (recallAt history index) := by
  refine (redraws_change_recalled _).bind (redraws_replace ?_)
  cases hline : history.get? index with
  | none => exact typed_nil
  | some line => exact h line hline

/-- A recalled line takes the place of the line, whatever it is. -/
theorem run_recallAt (history : History) (index : ℕ) (editor : LineEditor)
    (shown : List ConsoleEvent) : ∃ shown', (recallAt history index).run ⟨editor, shown⟩
      = some ((), ⟨⟨(history.get? index).getD [], utf8Size ((history.get? index).getD []),
        some index⟩, shown'⟩) :=
  ⟨_, rfl⟩

/-- What the key for older lines does. -/
theorem run_older (history : History) (editor : LineEditor) (shown : List ConsoleEvent) :
    (older history).run ⟨editor, shown⟩ = match history.older? editor.recalled with
      | some index => (recallAt history index).run ⟨editor, shown⟩
      | none => some ((), ⟨editor, shown⟩) := by
  rw [older, History.older?.eq_def]
  cases history.isEmpty
  · rcases editor with ⟨line, cursor, _ | _ | index⟩
    · rfl
    · rfl
    · rfl
  · rfl

/-- What the key for newer lines does. Behind the latest one is an empty line. -/
theorem run_newer (history : History) (editor : LineEditor) (shown : List ConsoleEvent) :
    (newer history).run ⟨editor, shown⟩ = match history.newer? editor.recalled with
      | some index => (recallAt history index).run ⟨editor, shown⟩
      | none =>
        if editor.recalled = none then some ((), ⟨editor, shown⟩)
        else (do
          change fun editor => { editor with recalled := none }
          replace [] : EditM Unit).run ⟨editor, shown⟩ := by
  rcases editor with ⟨line, cursor, _ | index⟩
  · rfl
  · show (if index + 1 < history.size then _ else _ : EditM Unit).run _ = _
    rw [History.newer?]
    by_cases hnext : index + 1 < history.size
    · simp only [hnext, if_true, Option.bind_some]
    · simp only [hnext, if_false, Option.bind_some, reduceCtorEq]

/-- **A line that can be typed is recalled.** -/
theorem redrawn_older {prompt : List UInt8} {terminal : Terminal}
    (h : ∀ line ∈ (history.older? editor.recalled).bind history.get?, Typed line)
    (hdisplays : LineEditor.Displays prompt editor terminal) :
    Redrawn (older history) prompt editor terminal := by
  simp only [Redrawn, run_older]
  cases hindex : history.older? editor.recalled with
  | none => exact Redraws.pure prompt editor terminal hdisplays
  | some index =>
    rw [hindex, Option.bind_some] at h
    exact redraws_recallAt h prompt editor terminal hdisplays

theorem redrawn_newer {prompt : List UInt8} {terminal : Terminal}
    (h : ∀ line ∈ (history.newer? editor.recalled).bind history.get?, Typed line)
    (hdisplays : LineEditor.Displays prompt editor terminal) :
    Redrawn (newer history) prompt editor terminal := by
  simp only [Redrawn, run_newer]
  cases hindex : history.newer? editor.recalled with
  | none =>
    dsimp only
    split
    · exact Redraws.pure prompt editor terminal hdisplays
    · exact ((redraws_change_recalled none).bind (redraws_replace typed_nil)) prompt editor terminal
        hdisplays
  | some index =>
    rw [hindex, Option.bind_some] at h
    exact redraws_recallAt h prompt editor terminal hdisplays

theorem redraws_older (h : ∀ line ∈ history.lines, Typed line) : Redraws (older history) := by
  intro prompt editor terminal hdisplays
  refine redrawn_older (fun line hline => ?_) hdisplays
  obtain ⟨index, -, hget⟩ := Option.bind_eq_some_iff.mp hline
  exact h line (List.mem_of_getElem? hget)

theorem redraws_newer (h : ∀ line ∈ history.lines, Typed line) : Redraws (newer history) := by
  intro prompt editor terminal hdisplays
  refine redrawn_newer (fun line hline => ?_) hdisplays
  obtain ⟨index, -, hget⟩ := Option.bind_eq_some_iff.mp hline
  exact h line (List.mem_of_getElem? hget)

end EditM

end PocketKernel
