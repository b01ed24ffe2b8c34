import PocketKernel.Proofs.Shell.Display

/-!
# The edited line

The editor cuts its line at byte positions, and moves through it byte by byte. That is right as long
as the line consists of printable characters, of which each is one byte. Characters that are typed
or completed are checked for that, but a line that is recalled is taken as it was remembered; and
among the lines that a shell remembers are those that it was given without a keyboard, whatever they
consist of.

So the line stays *sound* exactly as long as only lines are recalled that could have been typed. If
a line is recalled that could not, then it is not sound from there on, and keys that move the cursor
may break the shell off.

## Main definitions

* `LineEditor.Sound`: the line can be edited.
* `Shell.recalled?`, `Shell.Input.recalled?`: the line that a stroke or an input recalls.
* `Shell.RecallsTyped`: only lines that could have been typed are recalled.
* `Shell.Tidy`, `Shell.Stays`, `ShellM.Tidies`: the line of a shell is sound, and a step keeps that.

## Main results

* `Shell.Tidy.stays_input`, `Shell.Input.line_of_recalled?`: one input.
* `Shell.line_sound_iff`: any inputs of a new shell.
* `Shell.line_unsound`: a line for which it fails.
-/

namespace PocketKernel

open Text

/-! ### Sound lines -/

namespace LineEditor

/-- The line consists of printable characters, no more than can be typed, and can be cut at the
cursor. -/
structure Sound (editor : LineEditor) : Prop where
  printable : ∀ c ∈ editor.line, isPrintable c = true
  size_le : editor.size ≤ 127
  cursor_le : editor.cursor ≤ editor.size
  cut : (splitAtByte? editor.line editor.cursor).isSome = true

variable {editor : LineEditor}

theorem Sound.typed (h : editor.Sound) : Typed editor.line :=
  ⟨h.printable, (utf8Size_eq_length h.printable).symm.trans_le h.size_le⟩

/-- A line that a terminal can show is sound. -/
theorem Displays.sound {prompt : List UInt8} {terminal : Terminal}
    (h : Displays prompt editor terminal) : editor.Sound := by
  have hsize : editor.size = editor.line.length := utf8Size_eq_length h.typed.printable
  refine ⟨h.typed.printable, hsize.trans_le h.typed.length_le, hsize.symm ▸ h.cursor_le, ?_⟩
  obtain ⟨before, behind, count, hline, hcursor, -⟩ := h.shown
  have hbefore : utf8Size before = before.length := utf8Size_eq_length fun c hc =>
    h.typed.printable c (hline ▸ List.mem_append_left _ hc)
  rw [hline, hcursor, ← hbefore, splitAtByte?_append]
  rfl

/-- A sound line has a part before the cursor and one behind it. -/
theorem Sound.exists_parts (h : editor.Sound) : ∃ before behind,
    editor.line = before ++ behind ∧ editor.cursor = before.length := by
  obtain ⟨⟨before, behind⟩, hcut⟩ := Option.isSome_iff_exists.mp h.cut
  obtain ⟨hline, hcursor⟩ := append_of_splitAtByte? hcut
  have hbefore : utf8Size before = before.length := utf8Size_eq_length fun c hc =>
    h.printable c (hline ▸ List.mem_append_left _ hc)
  exact ⟨before, behind, hline, hcursor.symm.trans hbefore⟩

/-- Some terminal shows a sound line. -/
theorem Sound.displays (h : editor.Sound) : ∃ terminal, Displays [] editor terminal := by
  obtain ⟨before, behind, hline, hcursor⟩ := h.exists_parts
  exact ⟨_, h.typed, before, behind, 0, hline, hcursor, rfl⟩

theorem sound_empty : empty.Sound := ⟨nofun, Nat.zero_le _, Nat.le_refl _, rfl⟩

end LineEditor

/-! ### Recalled lines -/

variable {δ σ α β : Type}

/-- The line that a stroke recalls. -/
def Shell.recalled? (shell : Shell δ σ) : Stroke → Option Text
  | .older => (shell.session.history.older? shell.editor.recalled).bind shell.session.history.get?
  | .newer => (shell.session.history.newer? shell.editor.recalled).bind shell.session.history.get?
  | _ => none

/-- The line that an input recalls. -/
def Shell.Input.recalled? (shell : Shell δ σ) : Shell.Input → Option Text
  | .key event =>
    if event.pressed then (Stroke.ofSymbol? event.symbol).bind shell.recalled? else none
  | .line _ => none

/-- Only lines that could have been typed are recalled by some inputs, one after the other. -/
def Shell.RecallsTyped [BlockDevice δ] [System σ] (shell : Shell δ σ) : List Shell.Input → Prop
  | [] => True
  | input :: inputs => (∀ line ∈ input.recalled? shell, Typed line)
    ∧ ∀ later, shell.run input.step = (.ok (), later) → later.RecallsTyped inputs

/-! ### The judgement -/

variable {g : Geometry} {kept : Text → Prop}

/-- The line can be edited, the volume is sound, and something is known of the lines that are
remembered: that they could have been typed, say, or nothing at all. -/
structure Shell.Tidy (g : Geometry) (kept : Text → Prop) (shell : Shell δ σ) : Prop where
  regular : shell.session.volume.Regular g
  sound : shell.editor.Sound
  remembered : ∀ line ∈ shell.session.history.lines, kept line

variable [System σ]

/-- How a step of a shell ends: it stops only for a reason, and leaves a tidy shell. -/
structure Shell.Stays (g : Geometry) (kept : Text → Prop) (ended : Except Halt α × Shell δ σ) :
    Prop where
  justified : ∀ halt, ended.1 = .error halt → halt.Justified σ
  tidy : ended.2.Tidy g kept

/-- A step that leaves a tidy shell tidy. -/
def ShellM.Tidies (g : Geometry) (kept : Text → Prop) (step : ShellM δ σ α) : Prop :=
  ∀ shell : Shell δ σ, shell.Tidy g kept → Shell.Stays g kept (shell.run step)

namespace ShellM

theorem Tidies.bind {first : ShellM δ σ β} {next : β → ShellM δ σ α}
    (hfirst : Tidies g kept first) (hnext : ∀ answer, Tidies g kept (next answer)) :
    Tidies g kept (first >>= next) := by
  intro shell h
  have hstays := hfirst shell h
  rw [run_bind]
  rcases hrun : shell.run first with ⟨halt | answer, later⟩ <;> rw [hrun] at hstays
  · refine ⟨?_, hstays.tidy⟩
    rintro _ ⟨⟩
    exact hstays.justified halt rfl
  · exact hnext answer later hstays.tidy

theorem tidies_get_bind {next : Shell δ σ → ShellM δ σ α}
    (h : ∀ shell, shell.Tidy g kept → Tidies g kept (next shell)) : Tidies g kept (get >>= next) :=
  fun shell htidy => h shell htidy shell htidy

/-- A step that works on the session. -/
theorem tidies_inSession {allowed : ConsoleEvent → Prop} {step : SessionM δ σ α}
    (h : SessionM.Behaves g allowed step) : Tidies g kept (inSession step) := by
  intro shell htidy
  obtain ⟨hkept, hhalt⟩ := h shell.session htidy.regular
  rw [run_inSession]
  exact ⟨hhalt, hkept.regular, htidy.sound, hkept.history_eq.symm ▸ htidy.remembered⟩

/-- A step that leaves the line alone. -/
theorem Tells.tidies {step : ShellM δ σ α} (h : Tells g step) : Tidies g kept step := by
  intro shell htidy
  obtain ⟨⟨hkept, heditor⟩, hhalt⟩ := h shell htidy.regular
  exact ⟨hhalt, hkept.regular, heditor.symm ▸ htidy.sound,
    hkept.history_eq.symm ▸ htidy.remembered⟩

/-- Nothing of a line is left when it is dropped. -/
theorem tidies_clear : Tidies g kept (edit EditM.clear : ShellM δ σ Unit) :=
  fun _ h => ⟨Halt.justified_of_ok _, h.regular, LineEditor.sound_empty, h.remembered⟩

end ShellM

namespace Shell

variable {shell : Shell δ σ}

/-- **An operation of the editor.** -/
theorem Tidy.stays_edit (h : shell.Tidy g kept) {operation : EditM Unit}
    (hop : ∀ terminal, LineEditor.Displays [] shell.editor terminal →
      operation.Redrawn [] shell.editor terminal) :
    Stays g kept (shell.run (ShellM.edit operation)) := by
  obtain ⟨terminal, hdisplays⟩ := h.sound.displays
  obtain ⟨editor, _, events, hrun, -, hdisplays'⟩ := hop terminal hdisplays
  rw [ShellM.run_edit (hrun [])]
  exact ⟨Halt.justified_of_ok _, h.regular, hdisplays'.sound, h.remembered⟩

theorem tidies_edit {operation : EditM Unit} (hop : operation.Redraws) :
    ShellM.Tidies g kept (ShellM.edit operation : ShellM δ σ Unit) :=
  fun shell h => h.stays_edit fun terminal => hop [] shell.editor terminal

variable [BlockDevice δ]

/-- **A line that is given**, whatever it consists of. -/
theorem tidies_runLine {line : Text} (hline : kept line) :
    ShellM.Tidies g kept (ShellM.runLine line : ShellM δ σ Unit) := by
  refine ShellM.Tidies.bind ?_ fun _ =>
    (ShellM.tells_execute line).tidies.bind fun _ => ShellM.tells_prompt.tidies
  intro shell h
  exact ⟨Halt.justified_of_ok _, h.regular, h.sound,
    History.forall_mem_push h.remembered hline⟩

/-- Names are listed, and the line is written again. -/
theorem tidies_listing (candidates : List Candidate) : ShellM.Tidies g kept (do
    ShellM.listCandidates candidates
    ShellM.showAgain : ShellM δ σ Unit) := by
  have hlist : ShellM.Tells g (ShellM.listCandidates candidates : ShellM δ σ Unit) :=
    (ShellM.tells_say _).bind fun _ => ShellM.tells_prompt
  refine hlist.tidies.bind fun _ => ShellM.tidies_get_bind fun shell _ => ?_
  refine (ShellM.tells_say _).tidies.bind fun _ => ?_
  exact ShellM.tidies_inSession (SessionM.moves_tell fun _ _ => trivial).behaves

/-- The return key. -/
theorem tidies_submit (hkept : ∀ line, Typed line → kept line) :
    ShellM.Tidies g kept (ShellM.submit : ShellM δ σ Unit) := by
  refine (ShellM.tells_say _).tidies.bind fun _ => ShellM.tidies_get_bind fun shell h => ?_
  exact ShellM.tidies_clear.bind fun _ => tidies_runLine (hkept _ h.sound.typed)

omit [BlockDevice δ] in
/-- The interrupt key. -/
theorem tidies_cancel : ShellM.Tidies g kept (ShellM.cancel : ShellM δ σ Unit) := by
  refine (ShellM.tells_say _).tidies.bind fun _ => ShellM.tidies_clear.bind fun _ => ?_
  exact (ShellM.tells_inSession SessionM.behaves_clearInterrupt).tidies.bind
    fun _ => ShellM.tells_prompt.tidies

/-- **The completion key.** What it types is checked like what is typed on the keyboard. -/
theorem Tidy.stays_complete (h : shell.Tidy g kept) :
    Stays g kept (shell.run ShellM.complete) := by
  obtain ⟨⟨before, behind⟩, hcut⟩ := Option.isSome_iff_exists.mp h.sound.cut
  obtain ⟨hhalt, hwhole, session, hlast, hkept⟩ := run_completion h.regular hcut
  have hfound : (shell.run ShellM.completion).2.Tidy g kept := by
    rw [hlast]
    exact ⟨hkept.regular, h.sound, hkept.history_eq.symm ▸ h.remembered⟩
  rw [ShellM.complete, ShellM.run_bind]
  rcases hrun : shell.run ShellM.completion with ⟨halt | found, later⟩ <;>
    rw [hrun] at hhalt hwhole hfound
  · refine ⟨?_, hfound⟩
    rintro _ ⟨⟩
    exact hhalt halt rfl
  · cases found with
    | nothing => exact ⟨Halt.justified_of_ok _, hfound⟩
    | whole rest ending =>
      exact tidies_edit ((EditM.redraws_insertAll rest).bind
        (EditM.redraws_insert (hwhole rest ending rfl))) later hfound
    | part rest => exact tidies_edit (EditM.redraws_insertAll rest) later hfound
    | listing candidates => exact tidies_listing candidates later hfound

/-- **Any stroke**, if it recalls no line that could not have been typed. -/
theorem Tidy.stays_stroke (h : shell.Tidy g kept) (hkept : ∀ line, Typed line → kept line)
    (awaited : Bool) {stroke : Stroke} (hinsert : ∀ c, stroke = .insert c → isPrintable c = true)
    (hrecalled : ∀ line ∈ shell.recalled? stroke, Typed line) :
    Stays g kept (shell.run (ShellM.handleStroke awaited stroke)) := by
  cases stroke with
  | submit => exact tidies_submit hkept shell h
  | interrupt =>
    cases awaited with
    | true => exact ⟨Halt.justified_of_ok _, h⟩
    | false => exact tidies_cancel shell h
  | backspace => exact tidies_edit EditM.redraws_backspace shell h
  | delete => exact tidies_edit EditM.redraws_delete shell h
  | moveLeft => exact tidies_edit EditM.redraws_moveLeft shell h
  | moveRight => exact tidies_edit EditM.redraws_moveRight shell h
  | home => exact tidies_edit EditM.redraws_home shell h
  | toEnd => exact tidies_edit EditM.redraws_toEnd shell h
  | older =>
    rw [ShellM.handleStroke, ShellM.run_session_bind]
    exact h.stays_edit fun _ hdisplays => EditM.redrawn_older hrecalled hdisplays
  | newer =>
    rw [ShellM.handleStroke, ShellM.run_session_bind]
    exact h.stays_edit fun _ hdisplays => EditM.redrawn_newer hrecalled hdisplays
  | complete => exact h.stays_complete
  | insert c => exact tidies_edit (EditM.redraws_insert (hinsert c rfl)) shell h

/-- **Any input**, if it recalls no line that could not have been typed. -/
theorem Tidy.stays_input (h : shell.Tidy g kept) (hkept : ∀ line, Typed line → kept line)
    {input : Shell.Input} (hline : ∀ line, input = .line line → kept line)
    (hrecalled : ∀ line ∈ input.recalled? shell, Typed line) :
    Stays g kept (shell.run input.step) := by
  cases input with
  | line text => exact tidies_runLine (hline text rfl) shell h
  | key event =>
    rw [Input.recalled?] at hrecalled
    rw [Input.step]
    cases hpressed : event.pressed with
    | false =>
      rw [ShellM.run_handleKey_of_released shell hpressed]
      exact ⟨Halt.justified_of_ok _, h⟩
    | true =>
      rw [if_pos hpressed] at hrecalled
      rw [ShellM.run_handleKey_of_pressed shell hpressed]
      let waiting : Shell δ σ := { shell with awaitsInterruptKey := false }
      have hwaiting : waiting.Tidy g kept := ⟨h.regular, h.sound, h.remembered⟩
      cases hstroke : Stroke.ofSymbol? event.symbol with
      | none => exact ⟨Halt.justified_of_ok _, hwaiting⟩
      | some stroke =>
        rw [hstroke, Option.bind_some] at hrecalled
        exact hwaiting.stays_stroke hkept shell.awaitsInterruptKey
          (fun c hc => Stroke.isPrintable_of_insert (hc ▸ hstroke)) hrecalled

/-! ### Lines that could not have been typed -/

omit [System σ] [BlockDevice δ] in
/-- A line is recalled at an index, whatever it is. -/
theorem line_of_recallAt {operation : EditM Unit} {index : ℕ} {line : Text}
    (hrun : operation.run ⟨shell.editor, []⟩
      = (EditM.recallAt shell.session.history index).run ⟨shell.editor, []⟩)
    (hline : shell.session.history.get? index = some line) :
    (shell.run (ShellM.edit operation)).2.editor.line = line := by
  obtain ⟨events, hrecall⟩ := EditM.run_recallAt shell.session.history index shell.editor []
  have hedit : operation.run ⟨shell.editor, []⟩ = some ((), ⟨_, [] ++ events⟩) :=
    hrun.trans hrecall
  rw [ShellM.run_edit hedit]
  exact congrArg (Option.getD · []) hline

/-- **A stroke that recalls a line** puts it in the place of the line. -/
theorem line_of_recalled? (awaited : Bool) {stroke : Stroke} {line : Text}
    (h : line ∈ shell.recalled? stroke) :
    (shell.run (ShellM.handleStroke awaited stroke)).2.editor.line = line := by
  cases stroke with
  | older =>
    obtain ⟨index, hindex, hline⟩ := Option.bind_eq_some_iff.mp h
    rw [ShellM.handleStroke, ShellM.run_session_bind]
    refine line_of_recallAt ?_ hline
    rw [EditM.run_older, hindex]
  | newer =>
    obtain ⟨index, hindex, hline⟩ := Option.bind_eq_some_iff.mp h
    rw [ShellM.handleStroke, ShellM.run_session_bind]
    refine line_of_recallAt ?_ hline
    rw [EditM.run_newer, hindex]
  | _ => cases h

theorem Input.line_of_recalled? {input : Shell.Input} {line : Text}
    (h : line ∈ input.recalled? shell) : (shell.run input.step).2.editor.line = line := by
  cases input with
  | line text => cases h
  | key event =>
    rw [Input.recalled?] at h
    rw [Input.step]
    split at h
    next hpressed =>
      obtain ⟨stroke, hstroke, hline⟩ := Option.bind_eq_some_iff.mp h
      let waiting : Shell δ σ := { shell with awaitsInterruptKey := false }
      have hwaiting : line ∈ waiting.recalled? stroke := hline
      rw [ShellM.run_handleKey_of_pressed shell hpressed, hstroke]
      exact Shell.line_of_recalled? shell.awaitsInterruptKey hwaiting
    next => cases h

/-! ### Any inputs -/

theorem fed_singleton (shell : Shell δ σ) (input : Shell.Input) :
    shell.fed [input] = shell.run input.step := by
  rw [fed_cons]
  rcases shell.run input.step with ⟨halt | ⟨⟩, later⟩
  · rfl
  · rfl

/-- **Any inputs.** The line stays sound exactly as long as no line is recalled that could not have
been typed. -/
theorem Tidy.sound_iff (h : shell.Tidy g fun _ => True) (inputs : List Shell.Input) :
    (∀ given, given <+: inputs →
        (shell.fed given).1 ≠ .error .broken ∧ (shell.fed given).2.editor.Sound)
      ↔ shell.RecallsTyped inputs := by
  induction inputs generalizing shell with
  | nil =>
    refine ⟨fun _ => trivial, fun _ given hgiven => ?_⟩
    obtain rfl := List.prefix_nil.mp hgiven
    exact ⟨nofun, h.sound⟩
  | cons input inputs ih =>
    have hstays (hrecalled : ∀ line ∈ input.recalled? shell, Typed line) :
        Stays g (fun _ => True) (shell.run input.step) :=
      h.stays_input (fun _ _ => trivial) (fun _ _ => trivial) hrecalled
    constructor
    · intro hsound
      have hrecalled : ∀ line ∈ input.recalled? shell, Typed line := by
        intro line hline
        have hfirst := hsound [input] (List.prefix_append [input] inputs)
        rw [fed_singleton] at hfirst
        rw [← Input.line_of_recalled? hline]
        exact hfirst.2.typed
      refine ⟨hrecalled, fun later hrun => ?_⟩
      have hlater := (hstays hrecalled).tidy
      rw [hrun] at hlater
      refine (ih hlater).mp fun given hgiven => ?_
      have hnext := hsound (input :: given) (List.cons_prefix_cons.mpr ⟨rfl, hgiven⟩)
      rwa [fed_cons, hrun] at hnext
    · rintro ⟨hrecalled, hothers⟩ given hgiven
      cases given with
      | nil => exact ⟨nofun, h.sound⟩
      | cons first given =>
        obtain ⟨rfl, hrest⟩ := List.cons_prefix_cons.mp hgiven
        have hfirst := hstays hrecalled
        rw [fed_cons]
        rcases hrun : shell.run first.step with ⟨halt | ⟨⟩, later⟩ <;> rw [hrun] at hfirst
        · refine ⟨?_, hfirst.tidy.sound⟩
          rintro ⟨⟩
          exact hfirst.justified .broken rfl
        · exact (ih hfirst.tidy).mpr (hothers later hrun) given hrest

omit [System σ] [BlockDevice δ] in
/-- What is recalled was remembered. -/
theorem Input.mem_of_recalled? {input : Shell.Input} {line : Text}
    (h : line ∈ input.recalled? shell) : line ∈ shell.session.history.lines := by
  have hget {index? : Option ℕ} (h : line ∈ index?.bind shell.session.history.get?) :
      line ∈ shell.session.history.lines := by
    obtain ⟨index, -, hline⟩ := Option.bind_eq_some_iff.mp h
    exact List.mem_of_getElem? hline
  cases input with
  | line text => cases h
  | key event =>
    rw [Input.recalled?] at h
    split at h
    · obtain ⟨stroke, -, hline⟩ := Option.bind_eq_some_iff.mp h
      cases stroke with
      | older => exact hget hline
      | newer => exact hget hline
      | _ => cases hline
    · cases h

/-- If all lines that are given could have been typed, no others are recalled. -/
theorem Tidy.recallsTyped (h : shell.Tidy g Typed) {inputs : List Shell.Input}
    (hlines : ∀ line, .line line ∈ inputs → Typed line) : shell.RecallsTyped inputs := by
  induction inputs generalizing shell with
  | nil => trivial
  | cons input inputs ih =>
    have hrecalled : ∀ line ∈ input.recalled? shell, Typed line := fun line hline =>
      h.remembered line (Input.mem_of_recalled? hline)
    have hstays : Stays g Typed (shell.run input.step) :=
      h.stays_input (fun _ => id) (fun line hline => hlines line (hline ▸ List.mem_cons_self))
        hrecalled
    refine ⟨hrecalled, fun later hrun => ?_⟩
    rw [hrun] at hstays
    exact ih hstays.tidy fun line hline => hlines line (List.mem_cons_of_mem _ hline)

/-- **The edited line stays sound exactly as long as no line is recalled that could not have been
typed.** A new shell on any volume is given any inputs: after each of them, no position has left its
text or table, and the line can be edited. All this is certain if the lines that the shell is given
could have been typed. -/
theorem line_sound_iff (device : δ) (g : Geometry) (requests : List Request) (system : σ)
    (inputs : List Shell.Input) :
    let first := Shell.start ((Volume.unmounted device g).served requests) system
    ((∀ given, given <+: inputs →
          (first.fed given).1 ≠ .error .broken ∧ (first.fed given).2.editor.Sound)
        ↔ first.RecallsTyped inputs)
      ∧ ((∀ line, .line line ∈ inputs → Typed line) → first.RecallsTyped inputs) := by
  intro first
  have hregular : first.session.volume.Regular g :=
    ((Volume.regular_unmounted device g).served requests).1
  have htidy (kept : Text → Prop) : first.Tidy g kept :=
    ⟨hregular, LineEditor.sound_empty, nofun⟩
  exact ⟨(htidy _).sound_iff inputs, (htidy Typed).recallsTyped⟩

/-- A line with a character that cannot be typed is given to a new shell and recalled. Then it is in
the editor, and the keys that move the cursor break the shell off. -/
theorem line_unsound :
    let first := Shell.start (Volume.unmounted (RamDisk.blank 20) .tiny) ScriptedSystem.idle
    let key (symbol : Char) : Shell.Input := .key ⟨symbol, .none, true⟩
    let recalled := [.line ['a', 'é'], key Symbol.arrowUp]
    let moved := recalled ++ [key Symbol.arrowLeft, key Symbol.arrowRight]
    (first.fed recalled).1 = .ok () ∧ (first.fed recalled).2.editor.line = ['a', 'é']
      ∧ ¬ (first.fed recalled).2.editor.Sound ∧ (first.fed moved).1 = .error .broken := by
  intro first key recalled moved
  have hline : (first.fed recalled).2.editor.line = ['a', 'é'] := by decide +kernel
  refine ⟨by decide +kernel, hline, fun hsound => ?_, by decide +kernel⟩
  have hprintable := hsound.printable 'é' (hline ▸ by decide)
  exact absurd hprintable (by decide)

end Shell

end PocketKernel
