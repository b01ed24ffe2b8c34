import Mathlib.Data.List.DropRight
import PocketKernel.Proofs.Shell.Display

/-!
# Which line is recalled

Of everything that was submitted, a shell remembers the last sixteen lines that are not blank. The
keys for older and newer lines go back and forth among them from behind the latest one, and the line
that is reached takes the place of the one that is edited. What else is typed, moved over or taken
out in between does not matter for where the keys go next; only the return key and the interrupt key
go back behind the latest line.

The place itself is kept in two parts: the editor has the index of the line that was recalled, and
nothing while it is behind the latest one. `Browsing` follows the keys without this distinction, and
`Shell.At` says that the editor agrees with it.

## Main definitions

* `Browsing`, `Browsing.after`: the lines that were submitted, the position, and one stroke.
* `Shell.browsed`: a row of key events.
* `EditM.KeepsPlace`, `ShellM.KeepsPlace`: steps that leave the history and the position alone.
* `Shell.Recalls`: the history and the two keys, at some position.

## Main results

* `Browsing.history_after`: one line more is remembered.
* `Shell.At.key`: one key.
* `Shell.recalls_browsed`: any keys in a new shell.
-/

namespace PocketKernel

variable {δ σ α β : Type}

/-! ### Going through the history -/

/-- What the keys have made of the history. -/
structure Browsing where
  /-- The lines that were submitted, in order. -/
  submitted : List Text
  /-- Which of the lines that are remembered was recalled; behind the latest one is a new line. -/
  position : ℕ

namespace Browsing

/-- The lines that are remembered: the last sixteen that are not blank, oldest first. -/
def lines (browsing : Browsing) : List Text :=
  (browsing.submitted.filter fun line => !line.all Text.isBlank).rtake 16

/-- Behind the latest of some lines. -/
def behind (submitted : List Text) : Browsing where
  submitted := submitted
  position := (lines ⟨submitted, 0⟩).length

/-- After a stroke, while some line is edited. -/
def after (browsing : Browsing) (edited : Text) : Stroke → Browsing
  | .submit => behind (browsing.submitted ++ [edited])
  | .interrupt => behind browsing.submitted
  | .older => { browsing with position := browsing.position - 1 }
  | .newer =>
    if browsing.position < browsing.lines.length
    then { browsing with position := browsing.position + 1 } else browsing
  | _ => browsing

/-- After a key event, while some line is edited. -/
def key (browsing : Browsing) (edited : Text) (event : KeyEvent) : Browsing :=
  if event.pressed then
    ((Stroke.ofSymbol? event.symbol).map (browsing.after edited)).getD browsing
  else
    browsing

/-- The line at the position. Behind the latest one is an empty line. -/
def line (browsing : Browsing) : Text := (browsing.lines[browsing.position]?).getD []

/-- The history as a shell keeps it. -/
def history (browsing : Browsing) : History := ⟨browsing.lines⟩

/-- The position as an editor keeps it. -/
def recalled? (browsing : Browsing) : Option ℕ :=
  if browsing.position < browsing.lines.length then some browsing.position else none

variable {browsing : Browsing}

theorem recalled?_of_lt (h : browsing.position < browsing.lines.length) :
    browsing.recalled? = some browsing.position := if_pos h

theorem recalled?_of_le (h : browsing.lines.length ≤ browsing.position) :
    browsing.recalled? = none := if_neg (Nat.not_lt.mpr h)

theorem line_of_le (h : browsing.lines.length ≤ browsing.position) : browsing.line = [] := by
  rw [line, List.getElem?_eq_none h, Option.getD_none]

/-- At the oldest line, the key for older lines goes nowhere. -/
theorem after_older_of_zero (h : browsing.position = 0) (edited : Text) :
    browsing.after edited .older = browsing := by
  obtain ⟨submitted, position⟩ := browsing
  cases h
  rfl

/-- Nothing is recalled behind the latest line. -/
theorem recalled?_behind (submitted : List Text) : (behind submitted).recalled? = none :=
  recalled?_of_le (Nat.le_refl _)

/-- **One line more is remembered**, and the oldest one is forgotten if there are too many. -/
theorem history_after (browsing : Browsing) (edited : Text) :
    browsing.history.push edited = (browsing.after edited .submit).history := by
  show _ = History.mk (((browsing.submitted ++ [edited]).filter _).rtake 16)
  rw [List.filter_append, History.push]
  split
  next hblank => rw [List.filter_cons_of_neg (by simpa using hblank), List.filter_nil,
    List.append_nil, history, lines]
  next hblank =>
    rw [List.filter_cons_of_pos (by simpa using hblank), List.filter_nil, History.size, history,
      lines]
    generalize browsing.submitted.filter _ = kept
    simp only [List.rtake, List.length_append, List.length_singleton, List.length_drop,
      History.capacity, List.drop_drop]
    split
    · rw [List.drop_append_of_le_length (by omega)]
      congr 3
      omega
    · rw [List.drop_append_of_le_length (by omega)]
      congr 3
      omega

theorem position_key_le (h : browsing.position ≤ browsing.lines.length) (edited : Text)
    (event : KeyEvent) :
    (browsing.key edited event).position ≤ (browsing.key edited event).lines.length := by
  rw [key]
  split
  · cases Stroke.ofSymbol? event.symbol with
    | none => exact h
    | some stroke =>
      cases stroke with
      | submit | interrupt => exact Nat.le_refl _
      | older => exact Nat.le_trans (Nat.sub_le _ _) h
      | newer =>
        show (ite _ _ _ : Browsing).position ≤ (ite _ _ _ : Browsing).lines.length
        split
        next hlt => exact hlt
        next => exact h
      | _ => exact h
  · exact h

/-- Where the key for older lines goes. -/
theorem older?_eq (h : browsing.position ≤ browsing.lines.length) :
    browsing.history.older? browsing.recalled?
      = if browsing.position = 0 then none else some (browsing.position - 1) := by
  rw [History.older?.eq_def, History.isEmpty, history, History.size]
  rcases Nat.lt_or_eq_of_le h with hlt | heq
  · have hne : browsing.lines.isEmpty = false := by
      rw [List.isEmpty_eq_false_iff, ← List.length_pos_iff]
      exact Nat.zero_lt_of_lt hlt
    rw [recalled?_of_lt hlt, hne]
    cases browsing.position <;> rfl
  · rw [recalled?_of_le heq.ge, heq]
    simp only [List.isEmpty_iff_length_eq_zero]

/-- Where the key for newer lines goes, unless it is behind the latest one. -/
theorem newer?_eq (browsing : Browsing) : browsing.history.newer? browsing.recalled?
    = if browsing.position + 1 < browsing.lines.length then some (browsing.position + 1)
      else none := by
  rw [History.newer?, recalled?, history, History.size]
  split
  next => rfl
  next h => rw [if_neg (fun hlt => h (Nat.lt_of_succ_lt hlt)), Option.bind_none]

end Browsing

/-! ### Operations of the editor -/

namespace EditM

/-- An operation that leaves the index of the recalled line alone. -/
def KeepsPlace (operation : EditM α) : Prop :=
  ∀ editing : Editing, ∀ ended ∈ operation.run editing,
    ended.2.editor.recalled = editing.editor.recalled

/-- **Sequencing.** -/
theorem KeepsPlace.bind {first : EditM β} {next : β → EditM α} (hfirst : KeepsPlace first)
    (hnext : ∀ answer, KeepsPlace (next answer)) : KeepsPlace (first >>= next) := by
  intro editing ended hended
  rw [StateT.run_bind] at hended
  obtain ⟨⟨answer, middle⟩, hmiddle, hlast⟩ := Option.bind_eq_some_iff.mp hended
  exact (hnext answer middle ended hlast).trans (hfirst editing _ hmiddle)

theorem keepsPlace_pure (answer : α) : KeepsPlace (pure answer : EditM α) := by
  rintro editing _ ⟨⟩
  rfl

theorem keepsPlace_failure : KeepsPlace (failure : EditM α) := nofun

theorem keepsPlace_editor_bind {next : LineEditor → EditM α}
    (h : ∀ editor, KeepsPlace (next editor)) : KeepsPlace (editor >>= next) :=
  fun editing => h editing.editor editing

theorem keepsPlace_change {change : LineEditor → LineEditor}
    (h : ∀ editor, (change editor).recalled = editor.recalled) :
    KeepsPlace (EditM.change change) := by
  rintro editing _ ⟨⟩
  exact h editing.editor

theorem keepsPlace_tell (event : ConsoleEvent) : KeepsPlace (tell event) := by
  rintro editing _ ⟨⟩
  rfl

theorem keepsPlace_parts : KeepsPlace parts := by
  refine keepsPlace_editor_bind fun editor editing ended hended => ?_
  rw [StateT.run_lift] at hended
  obtain ⟨answer, -, hlast⟩ := Option.bind_eq_some_iff.mp hended
  cases hlast
  rfl

theorem keepsPlace_redraw (stale : ℕ) : KeepsPlace (redraw stale) :=
  keepsPlace_parts.bind fun _ => (keepsPlace_tell _).bind fun _ =>
    (keepsPlace_tell _).bind fun _ => keepsPlace_tell _

theorem keepsPlace_remove : KeepsPlace remove := by
  refine keepsPlace_parts.bind fun parts => ?_
  split
  · exact keepsPlace_change fun _ => rfl
  · exact keepsPlace_failure

theorem keepsPlace_moveRight : KeepsPlace moveRight := by
  refine keepsPlace_editor_bind fun editor => ?_
  split
  · refine keepsPlace_parts.bind fun parts => ?_
    split
    · split
      · exact (keepsPlace_tell _).bind fun _ => keepsPlace_change fun _ => rfl
      · exact keepsPlace_failure
    · exact keepsPlace_failure
  · exact keepsPlace_pure _

theorem keepsPlace_moveLeft : KeepsPlace moveLeft := by
  refine keepsPlace_editor_bind fun editor => ?_
  split
  · refine KeepsPlace.bind (keepsPlace_change fun _ => rfl) fun _ => ?_
    exact keepsPlace_tell _
  · exact keepsPlace_pure _

theorem keepsPlace_insert (c : Char) : KeepsPlace (insert c) := by
  refine keepsPlace_editor_bind fun editor => ?_
  split
  · split
    · exact KeepsPlace.bind (keepsPlace_change fun _ => rfl) fun _ => keepsPlace_moveRight
    · refine keepsPlace_parts.bind fun _ => ?_
      refine KeepsPlace.bind (keepsPlace_change fun _ => rfl) fun _ => ?_
      exact (keepsPlace_redraw 0).bind fun _ => keepsPlace_moveRight
  · exact keepsPlace_pure _

theorem keepsPlace_insertAll (text : Text) : KeepsPlace (insertAll text) := by
  rw [insertAll]
  induction text.filter isPrintable with
  | nil => exact keepsPlace_pure _
  | cons c rest ih => exact (keepsPlace_insert c).bind fun _ => ih

theorem keepsPlace_backspace : KeepsPlace backspace := by
  refine keepsPlace_editor_bind fun editor => ?_
  split
  · refine KeepsPlace.bind (keepsPlace_change fun _ => rfl) fun _ => ?_
    exact (keepsPlace_tell _).bind fun _ => keepsPlace_remove.bind fun _ => keepsPlace_redraw 1
  · exact keepsPlace_pure _

theorem keepsPlace_delete : KeepsPlace delete := by
  refine keepsPlace_editor_bind fun editor => ?_
  split
  · exact keepsPlace_remove.bind fun _ => keepsPlace_redraw 1
  · exact keepsPlace_pure _

theorem keepsPlace_home : KeepsPlace home :=
  keepsPlace_editor_bind fun _ => (keepsPlace_tell _).bind fun _ =>
    keepsPlace_change fun _ => rfl

theorem keepsPlace_toEnd : KeepsPlace toEnd :=
  keepsPlace_parts.bind fun _ => (keepsPlace_tell _).bind fun _ =>
    keepsPlace_change fun _ => rfl

/-- Behind the latest line, an empty line takes the place of the line. -/
theorem run_leave (editor : LineEditor) (shown : List ConsoleEvent) : ∃ shown', (do
    change fun editor => { editor with recalled := none }
    replace [] : EditM Unit).run ⟨editor, shown⟩ = some ((), ⟨.empty, shown'⟩) :=
  ⟨_, rfl⟩

end EditM

/-! ### Steps of the shell -/

/-- What the keys for older and newer lines depend on is the same, and whether the key of an
interrupt is still to come. -/
structure Shell.SamePlace (shell later : Shell δ σ) : Prop where
  history_eq : later.session.history = shell.session.history
  recalled_eq : later.editor.recalled = shell.editor.recalled
  awaits_eq : later.awaitsInterruptKey = shell.awaitsInterruptKey

theorem Shell.SamePlace.refl (shell : Shell δ σ) : shell.SamePlace shell := ⟨rfl, rfl, rfl⟩

theorem Shell.SamePlace.trans {shell later last : Shell δ σ} (h : shell.SamePlace later)
    (h' : later.SamePlace last) : shell.SamePlace last :=
  ⟨h'.history_eq.trans h.history_eq, h'.recalled_eq.trans h.recalled_eq,
    h'.awaits_eq.trans h.awaits_eq⟩

/-- No move changes the history. -/
theorem Session.Reaches.history_eq [BlockDevice δ] {allowed : ConsoleEvent → Prop}
    {session later : Session δ σ} (h : Session.Reaches allowed session later) :
    later.history = session.history := by
  have hmove {before after : Session δ σ} (hmove : Session.Move allowed before after)
      (hbefore : before.history = session.history) : after.history = session.history := by
    cases hmove <;> exact hbefore
  exact h.lasts hmove rfl

/-- A step that leaves the history and the index of the recalled line alone. -/
def ShellM.KeepsPlace (step : ShellM δ σ α) : Prop :=
  ∀ shell : Shell δ σ, shell.SamePlace (shell.run step).2

namespace ShellM

/-- **Sequencing.** -/
theorem KeepsPlace.bind {first : ShellM δ σ β} {next : β → ShellM δ σ α}
    (hfirst : KeepsPlace first) (hnext : ∀ answer, KeepsPlace (next answer)) :
    KeepsPlace (first >>= next) := by
  intro shell
  have hlater := hfirst shell
  rw [run_bind]
  rcases hrun : shell.run first with ⟨halt | answer, later⟩ <;> rw [hrun] at hlater
  · exact hlater
  · exact hlater.trans (hnext answer later)

theorem keepsPlace_pure (answer : α) : KeepsPlace (pure answer : ShellM δ σ α) := .refl

theorem keepsPlace_throw (halt : Halt) : KeepsPlace (throw halt : ShellM δ σ α) := .refl

theorem keepsPlace_get_bind {next : Shell δ σ → ShellM δ σ α}
    (h : ∀ shell, KeepsPlace (next shell)) : KeepsPlace (get >>= next) :=
  fun shell => h shell shell

/-- An operation of the editor that breaks off leaves the line as it was. -/
theorem keepsPlace_edit {operation : EditM Unit} (h : operation.KeepsPlace) :
    KeepsPlace (edit operation : ShellM δ σ Unit) := by
  intro shell
  rw [edit, run_get_bind]
  rcases hrun : operation.run ⟨shell.editor, []⟩ with _ | ⟨⟨⟩, editing⟩
  · exact .refl shell
  · exact ⟨rfl, h _ _ hrun, rfl⟩

variable [BlockDevice δ] [System σ]

theorem keepsPlace_inSession {step : SessionM δ σ α} (h : SessionM.Moves (fun _ => True) step) :
    KeepsPlace (inSession step) := by
  intro shell
  rw [run_inSession]
  exact ⟨(h shell.session).1.history_eq, rfl, rfl⟩

theorem keepsPlace_say (pieces : List Text) : KeepsPlace (say pieces : ShellM δ σ Unit) :=
  keepsPlace_inSession (SessionM.moves_tell fun _ _ => trivial)

theorem keepsPlace_prompt : KeepsPlace (prompt : ShellM δ σ Unit) :=
  fun shell => keepsPlace_say _ shell

/-- **The completion key.** -/
theorem keepsPlace_complete : KeepsPlace (complete : ShellM δ σ Unit) := by
  have hcompletion : KeepsPlace (completion : ShellM δ σ Completion) := by
    refine keepsPlace_get_bind fun shell => ?_
    dsimp only
    split
    · exact keepsPlace_throw _
    · exact (keepsPlace_inSession (SessionM.moves_candidates _)).bind fun _ => keepsPlace_pure _
  refine hcompletion.bind fun found => ?_
  cases found with
  | nothing => exact keepsPlace_pure ()
  | whole rest ending =>
    exact keepsPlace_edit ((EditM.keepsPlace_insertAll rest).bind fun _ =>
      EditM.keepsPlace_insert ending)
  | part rest => exact keepsPlace_edit (EditM.keepsPlace_insertAll rest)
  | listing candidates =>
    refine ((keepsPlace_say _).bind fun _ => keepsPlace_prompt).bind fun _ => ?_
    refine keepsPlace_get_bind fun shell => (keepsPlace_say _).bind fun _ => ?_
    exact keepsPlace_inSession (SessionM.moves_tell fun _ _ => trivial)

/-- What a stroke does in the editor. -/
theorem keepsPlace_stroke (awaited : Bool) {stroke : Stroke} (hsubmit : stroke ≠ .submit)
    (hinterrupt : stroke ≠ .interrupt) (holder : stroke ≠ .older) (hnewer : stroke ≠ .newer) :
    KeepsPlace (handleStroke awaited stroke : ShellM δ σ Unit) := by
  cases stroke with
  | submit => exact absurd rfl hsubmit
  | interrupt => exact absurd rfl hinterrupt
  | older => exact absurd rfl holder
  | newer => exact absurd rfl hnewer
  | complete => exact keepsPlace_complete
  | backspace => exact keepsPlace_edit EditM.keepsPlace_backspace
  | delete => exact keepsPlace_edit EditM.keepsPlace_delete
  | moveLeft => exact keepsPlace_edit EditM.keepsPlace_moveLeft
  | moveRight => exact keepsPlace_edit EditM.keepsPlace_moveRight
  | home => exact keepsPlace_edit EditM.keepsPlace_home
  | toEnd => exact keepsPlace_edit EditM.keepsPlace_toEnd
  | insert c => exact keepsPlace_edit (EditM.keepsPlace_insert c)

end ShellM

/-! ### Keys -/

namespace Shell

/-- The history and the index of the recalled line. While the key of an interrupt is still to come,
no line is recalled. -/
structure At (history : History) (recalled : Option ℕ) (shell : Shell δ σ) : Prop where
  history_eq : shell.session.history = history
  recalled_eq : shell.editor.recalled = recalled
  awaits : shell.awaitsInterruptKey = true → recalled = none

variable {shell : Shell δ σ} {browsing : Browsing}

theorem At.of_same {history : History} {recalled : Option ℕ} {later : Shell δ σ}
    (h : shell.At history recalled) (hsame : shell.SamePlace later) : later.At history recalled :=
  ⟨hsame.history_eq.trans h.history_eq, hsame.recalled_eq.trans h.recalled_eq,
    fun hawaits => h.awaits (hsame.awaits_eq.symm.trans hawaits)⟩

/-- The line at the position takes the place of the line. -/
def Takes (browsing : Browsing) (shell : Shell δ σ) (ended : Except Halt Unit × Shell δ σ) :
    Prop :=
  ∃ said, ended = (.ok (), { shell with
    editor := ⟨browsing.line, Text.utf8Size browsing.line, browsing.recalled?⟩
    session := { shell.session with console := shell.session.console ++ said } })

/-- **The key for older lines.** -/
theorem At.older (h : shell.At browsing.history browsing.recalled?)
    (hposition : browsing.position ≤ browsing.lines.length) (edited : Text) :
    if browsing.position = 0 then
      shell.run (ShellM.edit (EditM.older shell.session.history)) = (.ok (), shell)
    else Takes (browsing.after edited .older) shell
      (shell.run (ShellM.edit (EditM.older shell.session.history))) := by
  have hrun := EditM.run_older shell.session.history shell.editor []
  rw [h.history_eq, h.recalled_eq, Browsing.older?_eq hposition] at hrun
  rw [h.history_eq]
  split
  next hzero =>
    rw [if_pos hzero] at hrun
    rw [ShellM.run_edit hrun, List.append_nil]
  next hpos =>
    rw [if_neg hpos] at hrun
    obtain ⟨said, hrecall⟩ :=
      EditM.run_recallAt browsing.history (browsing.position - 1) shell.editor []
    have hlt : browsing.position - 1 < browsing.lines.length := by omega
    refine ⟨said, ?_⟩
    rw [ShellM.run_edit (hrun.trans hrecall), Browsing.recalled?_of_lt hlt]
    rfl

/-- **The key for newer lines.** -/
theorem At.newer (h : shell.At browsing.history browsing.recalled?) (edited : Text) :
    if browsing.position < browsing.lines.length then
      Takes (browsing.after edited .newer) shell
        (shell.run (ShellM.edit (EditM.newer shell.session.history)))
    else shell.run (ShellM.edit (EditM.newer shell.session.history)) = (.ok (), shell) := by
  have hrun := EditM.run_newer shell.session.history shell.editor []
  rw [h.history_eq, h.recalled_eq, Browsing.newer?_eq] at hrun
  rw [h.history_eq]
  split
  next hlt =>
    have hafter : browsing.after edited .newer
        = { browsing with position := browsing.position + 1 } := if_pos hlt
    rw [hafter]
    by_cases hnext : browsing.position + 1 < browsing.lines.length
    · rw [if_pos hnext] at hrun
      obtain ⟨said, hrecall⟩ :=
        EditM.run_recallAt browsing.history (browsing.position + 1) shell.editor []
      refine ⟨said, ?_⟩
      rw [ShellM.run_edit (hrun.trans hrecall), Browsing.recalled?_of_lt hnext]
      rfl
    · rw [if_neg hnext, Browsing.recalled?_of_lt hlt] at hrun
      obtain ⟨said, hleave⟩ := EditM.run_leave shell.editor []
      have hempty : Browsing.line { browsing with position := browsing.position + 1 } = [] :=
        Browsing.line_of_le (Nat.le_of_not_lt hnext)
      refine ⟨said, ?_⟩
      rw [ShellM.run_edit (hrun.trans hleave), hempty,
        Browsing.recalled?_of_le (Nat.le_of_not_lt hnext)]
      rfl
  next hge =>
    rw [if_neg (by omega), Browsing.recalled?_of_le (Nat.le_of_not_lt hge)] at hrun
    rw [ShellM.run_edit hrun, List.append_nil]

theorem Takes.at {ended : Except Halt Unit × Shell δ σ} (h : Takes browsing shell ended)
    (hhistory : shell.session.history = browsing.history)
    (hawaits : shell.awaitsInterruptKey = false) :
    ended.2.At browsing.history browsing.recalled? := by
  obtain ⟨said, rfl⟩ := h
  refine ⟨hhistory, rfl, fun h => ?_⟩
  rw [hawaits] at h
  cases h

variable [BlockDevice δ] [System σ]

/-- **A line is executed** behind the latest one, and the next one is asked for. -/
theorem At.execute {history : History} (h : shell.At history none) (line : Text) :
    (shell.run (ShellM.execute line >>= fun _ => ShellM.prompt)).2.At history none := by
  obtain ⟨session, hreaches, hended⟩ := ShellM.execute_cases shell line
  have hexecuted : (shell.run (ShellM.execute line)).2.At history none := by
    rcases hended with ⟨-, -, hrun⟩ | ⟨-, hrun⟩ <;> rw [hrun]
    · exact ⟨hreaches.history_eq.trans h.history_eq, h.recalled_eq, fun _ => rfl⟩
    · exact ⟨hreaches.history_eq.trans h.history_eq, h.recalled_eq, fun _ => rfl⟩
  rw [ShellM.run_bind]
  rcases hrun : shell.run (ShellM.execute line) with ⟨halt | ⟨⟩, later⟩ <;> rw [hrun] at hexecuted
  · exact hexecuted
  · exact hexecuted.of_same (ShellM.keepsPlace_prompt later)

/-- **A stroke.** -/
theorem At.stroke (h : shell.At browsing.history browsing.recalled?)
    (hposition : browsing.position ≤ browsing.lines.length) (stroke : Stroke) {later : Shell δ σ}
    (hlater : later = { shell with awaitsInterruptKey := false }) :
    (later.run (ShellM.handleStroke shell.awaitsInterruptKey stroke)).2.At
      (browsing.after shell.editor.line stroke).history
      (browsing.after shell.editor.line stroke).recalled? := by
  have hat : later.At browsing.history browsing.recalled? := by
    subst hlater
    exact ⟨h.history_eq, h.recalled_eq, nofun⟩
  have hawaits : later.awaitsInterruptKey = false := by rw [hlater]
  have hedited : shell.editor.line = later.editor.line := by rw [hlater]
  rw [hedited]
  clear hlater hedited
  cases stroke with
  | submit =>
    rw [ShellM.handleStroke, ShellM.run_submit, Browsing.after, Browsing.recalled?_behind]
    refine At.execute ⟨?_, rfl, fun _ => rfl⟩ _
    show later.session.history.push later.editor.line = _
    rw [hat.history_eq, browsing.history_after]
    rfl
  | interrupt =>
    rw [Browsing.after, Browsing.recalled?_behind, ShellM.handleStroke]
    split
    next hawaited =>
      exact ⟨hat.history_eq, hat.recalled_eq.trans (h.awaits hawaited), fun _ => rfl⟩
    next =>
      rw [ShellM.run_cancel]
      exact ⟨hat.history_eq, rfl, fun _ => rfl⟩
  | older =>
    have hkey := hat.older hposition later.editor.line
    rw [ShellM.handleStroke, ShellM.run_session_bind]
    split at hkey
    next hzero =>
      rw [hkey, Browsing.after_older_of_zero hzero]
      exact hat
    next => exact hkey.at hat.history_eq hawaits
  | newer =>
    have hkey := hat.newer later.editor.line
    rw [ShellM.handleStroke, ShellM.run_session_bind]
    split at hkey
    next hlt =>
      exact hkey.at (by rw [hat.history_eq, Browsing.after, if_pos hlt]; rfl) hawaits
    next hge =>
      rw [hkey, Browsing.after, if_neg hge]
      exact hat
  | _ =>
    refine hat.of_same (ShellM.keepsPlace_stroke _ ?_ ?_ ?_ ?_ later)
    all_goals rintro ⟨⟩

/-- **One key.** -/
theorem At.key (h : shell.At browsing.history browsing.recalled?)
    (hposition : browsing.position ≤ browsing.lines.length) (event : KeyEvent) :
    (shell.run (ShellM.handleKey event)).2.At (browsing.key shell.editor.line event).history
      (browsing.key shell.editor.line event).recalled? := by
  cases hpressed : event.pressed with
  | false =>
    rw [ShellM.run_handleKey_of_released shell hpressed, Browsing.key, if_neg (by simp [hpressed])]
    exact h
  | true =>
    rw [ShellM.run_handleKey_of_pressed shell hpressed, Browsing.key, if_pos hpressed]
    cases Stroke.ofSymbol? event.symbol with
    | none => exact ⟨h.history_eq, h.recalled_eq, nofun⟩
    | some stroke => exact h.stroke hposition stroke rfl

/-! ### Any keys -/

/-- What some key events make of the history, as long as the shell goes on. -/
def browsed (shell : Shell δ σ) (browsing : Browsing) : List KeyEvent → Browsing
  | [] => browsing
  | event :: events =>
    match shell.run (ShellM.handleKey event) with
    | (.ok (), later) => later.browsed (browsing.key shell.editor.line event) events
    | (.error _, _) => browsing.key shell.editor.line event

/-- **Any keys.** -/
theorem At.pressed (h : shell.At browsing.history browsing.recalled?)
    (hposition : browsing.position ≤ browsing.lines.length) (events : List KeyEvent) :
    (shell.pressed events).2.At (shell.browsed browsing events).history
        (shell.browsed browsing events).recalled?
      ∧ (shell.browsed browsing events).position
        ≤ (shell.browsed browsing events).lines.length := by
  induction events generalizing shell browsing with
  | nil => exact ⟨h, hposition⟩
  | cons event events ih =>
    have hlater := h.key hposition event
    have hle := Browsing.position_key_le hposition shell.editor.line event
    rw [pressed_cons, browsed]
    rcases hrun : shell.run (ShellM.handleKey event) with ⟨halt | ⟨⟩, later⟩ <;>
      rw [hrun] at hlater
    · exact ⟨hlater, hle⟩
    · exact ih hlater hle

/-- What a shell has of the history at a position, and what the keys for older and newer lines do
there: at an end nothing but that no key of an interrupt is awaited any more, and elsewhere the next
line takes the place of the line. -/
structure Recalls (browsing : Browsing) (shell : Shell δ σ) : Prop where
  history_eq : shell.session.history.lines = browsing.lines
  position_le : browsing.position ≤ browsing.lines.length
  recalled_eq : shell.editor.recalled = browsing.recalled?
  older : ∀ event : KeyEvent, event.pressed = true →
    Stroke.ofSymbol? event.symbol = some .older →
    if browsing.position = 0 then shell.run (ShellM.handleKey event)
      = (.ok (), { shell with awaitsInterruptKey := false })
    else Takes (browsing.after shell.editor.line .older)
      { shell with awaitsInterruptKey := false } (shell.run (ShellM.handleKey event))
  newer : ∀ event : KeyEvent, event.pressed = true →
    Stroke.ofSymbol? event.symbol = some .newer →
    if browsing.position < browsing.lines.length then
      Takes (browsing.after shell.editor.line .newer)
        { shell with awaitsInterruptKey := false } (shell.run (ShellM.handleKey event))
    else shell.run (ShellM.handleKey event) = (.ok (), { shell with awaitsInterruptKey := false })

/-- **Lines are recalled** as the keys say, in a new shell on any volume and any machine. -/
theorem recalls_browsed (volume : Volume δ) (system : σ) (events : List KeyEvent) :
    let first := Shell.start volume system
    (first.pressed events).2.Recalls (first.browsed (.behind []) events) := by
  intro first
  have hfirst : first.At (Browsing.behind []).history (Browsing.behind []).recalled? :=
    ⟨rfl, rfl, nofun⟩
  obtain ⟨hat, hposition⟩ := hfirst.pressed (Nat.le_refl _) events
  generalize (first.pressed events).2 = last at hat
  generalize first.browsed (.behind []) events = browsing at hat hposition
  have hwaiting : ({ last with awaitsInterruptKey := false } : Shell δ σ).At browsing.history
      browsing.recalled? := ⟨hat.history_eq, hat.recalled_eq, nofun⟩
  refine ⟨congrArg History.lines hat.history_eq, hposition, hat.recalled_eq,
    fun event hpressed hstroke => ?_, fun event hpressed hstroke => ?_⟩
  · have hrun := ShellM.run_handleKey_of_pressed last hpressed
    rw [hstroke] at hrun
    dsimp only at hrun
    rw [hrun, ShellM.handleStroke, ShellM.run_session_bind]
    exact hwaiting.older hposition _
  · have hrun := ShellM.run_handleKey_of_pressed last hpressed
    rw [hstroke] at hrun
    dsimp only at hrun
    rw [hrun, ShellM.handleStroke, ShellM.run_session_bind]
    exact hwaiting.newer _

end Shell

end PocketKernel
