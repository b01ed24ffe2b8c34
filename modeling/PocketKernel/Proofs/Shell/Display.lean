import PocketKernel.Proofs.Shell.Inputs
import PocketKernel.Proofs.Shell.Redraw

/-!
# The screen shows the line that is edited

From the moment a shell asks for a line, a terminal with one row shows the question, the line as far
as it was typed and then blanks, with its cursor where the one of the editor is. No key changes
that: not the ones that edit the line, not the completion key, and not the ones after which the
shell asks again, whatever a command wrote in between.

Two conditions take turns. While a line is edited, the terminal *shows* it, and every operation of
the editor keeps that. When a line feed ends the line, the terminal is *ready*: its cursor is where
its row ends. Commands keep that, since they do not move the cursor back, and the next question for
a line turns it into the first one again.

## Main definitions

* `Shell.terminal?`: what the console was told, on a terminal with one row.
* `Shell.Shows`, `Shell.Ready`: the two conditions.
* `Shell.saidWhenAsked`: what had been said when the shell asked for a line the last time.
* `Shell.ShowsLine`: what is on the terminal while a line is edited.

## Main results

* `Shell.Shows.leads_key`, `Shell.Shows.leads_keys`: one key, and any keys.
* `Shell.shows_line`: any keys, from the first question of a new shell on.
-/

namespace PocketKernel

open Text

variable {δ σ α β : Type} {g : Geometry}

/-! ### What is on the terminal -/

/-- What a shell has told its console, shown on a terminal. -/
def Shell.terminal? (shell : Shell δ σ) : Option Terminal :=
  Terminal.blank.show? shell.session.console

/-- The last thing that was said is a question for a line. -/
def Prompted (said : List ConsoleEvent) : Prop :=
  ∃ earlier directory, said = earlier ++ [.text (List.flatten ["lux:", directory, "> "])]

/-- Behind what stood on the terminal when the shell asked for a line, it shows the line. -/
structure Shell.Shows (g : Geometry) (said : List ConsoleEvent) (shell : Shell δ σ) : Prop where
  regular : shell.session.volume.Regular g
  remembered : ∀ line ∈ shell.session.history.lines, Typed line
  prompted : Prompted said
  began : said <+: shell.session.console
  displays : ∃ before now, Terminal.blank.show? said = some before ∧ shell.terminal? = some now
    ∧ shell.editor.Displays before.row now

/-- The cursor of the terminal is where its row ends, so anything may be written. -/
structure Shell.Ready (g : Geometry) (shell : Shell δ σ) : Prop where
  regular : shell.session.volume.Regular g
  remembered : ∀ line ∈ shell.session.history.lines, Typed line
  typed : Typed shell.editor.line
  cursor_le : shell.editor.cursor ≤ shell.editor.line.length
  row : ∃ row, shell.terminal? = some (.between row [])

namespace Shell

variable {shell later : Shell δ σ} {said : List ConsoleEvent}

/-- An empty line is on the terminal when nothing was written. -/
theorem Ready.shows (h : shell.Ready g) (hempty : shell.editor = .empty)
    (hprompted : Prompted shell.session.console) : shell.Shows g shell.session.console := by
  obtain ⟨row, hrow⟩ := h.row
  refine ⟨h.regular, h.remembered, hprompted, List.prefix_rfl, _, _, hrow, hrow, h.typed, [], [], 0,
    ?_, ?_, ?_⟩
  · rw [hempty]
    rfl
  · rw [hempty]
    rfl
  · simp [Terminal.between, blanks]

end Shell

/-- What is remembered is what was, and the line. -/
theorem History.forall_mem_push {kept : Text → Prop} {history : History} {line : Text}
    (h : ∀ old ∈ history.lines, kept old) (hline : kept line) :
    ∀ old ∈ (history.push line).lines, kept old := by
  rw [push]
  split
  · exact h
  · intro old hmem
    rcases List.mem_append.mp hmem with hmem | hmem
    · split at hmem
      · exact h old hmem
      · exact h old (List.mem_of_mem_drop hmem)
    · rw [List.mem_singleton.mp hmem]
      exact hline

/-! ### What is typed -/

/-- What ends a name can be typed. -/
theorem Completion.isPrintable_of_whole {start rest : Text} {ending : Char}
    {candidates : List Candidate}
    (h : Completion.ofCandidates start candidates = .whole rest ending) :
    isPrintable ending = true := by
  rw [Completion.ofCandidates.eq_def] at h
  split at h
  · cases h
  · cases h
    rw [Candidate.ending]
    split <;> rfl
  · dsimp only at h
    split at h <;> cases h

/-- A stroke puts only printable characters into the line. -/
theorem Stroke.isPrintable_of_insert {symbol c : Char}
    (h : ofSymbol? symbol = some (.insert c)) : isPrintable c = true := by
  simp only [ofSymbol?, ite_eq_iff, Option.some.injEq, reduceCtorEq, and_false, false_or,
    insert.injEq, or_false] at h
  obtain ⟨-, -, -, -, -, -, -, -, -, -, -, hprintable, rfl⟩ := h
  exact hprintable

/-! ### Writing behind the line -/

/-- The shell wrote on the console and left the line alone. -/
structure Shell.Told (g : Geometry) (shell later : Shell δ σ) : Prop where
  kept : Session.Kept g Terminal.Plain shell.session later.session
  editor_eq : later.editor = shell.editor

theorem Shell.Told.trans {shell later last : Shell δ σ} (h : shell.Told g later)
    (h' : later.Told g last) : shell.Told g last :=
  ⟨h.kept.trans h'.kept, h'.editor_eq.trans h.editor_eq⟩

theorem Shell.Ready.told {shell later : Shell δ σ} (h : shell.Ready g)
    (htold : shell.Told g later) : later.Ready g := by
  obtain ⟨row, hrow⟩ := h.row
  obtain ⟨said, hsaid, hplain⟩ := htold.kept.said
  obtain ⟨row', hrow'⟩ := Terminal.exists_show?_of_plain hplain row
  refine ⟨htold.kept.regular, htold.kept.history_eq ▸ h.remembered, htold.editor_eq ▸ h.typed,
    htold.editor_eq ▸ h.cursor_le, row', ?_⟩
  rw [Shell.terminal?, hsaid, Terminal.show?_append, ← Shell.terminal?, hrow]
  exact hrow'

variable [System σ]

namespace ShellM

/-- A step that writes on the console and leaves the line alone. -/
def Tells (g : Geometry) (step : ShellM δ σ α) : Prop :=
  ∀ shell : Shell δ σ, shell.session.volume.Regular g → shell.Told g (shell.run step).2
    ∧ ∀ halt, (shell.run step).1 = .error halt → halt.Justified σ

theorem tells_inSession {step : SessionM δ σ α} (h : SessionM.Speaks g step) :
    Tells g (inSession step) := by
  intro shell hshell
  rw [run_inSession]
  obtain ⟨hkept, hhalt⟩ := h shell.session hshell
  exact ⟨⟨hkept, rfl⟩, hhalt⟩

theorem Tells.bind {first : ShellM δ σ β} {next : β → ShellM δ σ α} (hfirst : Tells g first)
    (hnext : ∀ answer, Tells g (next answer)) : Tells g (first >>= next) := by
  intro shell hshell
  obtain ⟨htold, hhalt⟩ := hfirst shell hshell
  rw [run_bind]
  rcases hrun : shell.run first with ⟨halt | answer, later⟩
  · rw [hrun] at htold hhalt
    refine ⟨htold, ?_⟩
    rintro _ ⟨⟩
    exact hhalt halt rfl
  · rw [hrun] at htold
    obtain ⟨htold', hhalt'⟩ := hnext answer later htold.kept.regular
    exact ⟨htold.trans htold', hhalt'⟩

theorem tells_pure (answer : α) : Tells g (pure answer : ShellM δ σ α) :=
  fun _ h => ⟨⟨.refl h, rfl⟩, Halt.justified_of_ok _⟩

theorem tells_say (pieces : List Text) : Tells g (say pieces : ShellM δ σ Unit) :=
  tells_inSession (SessionM.behaves_say pieces)

theorem tells_awaitInterruptKey (awaits : Bool) :
    Tells g (awaitInterruptKey awaits : ShellM δ σ Unit) :=
  fun _ h => ⟨⟨.refl h, rfl⟩, Halt.justified_of_ok _⟩

theorem tells_prompt : Tells g (prompt : ShellM δ σ Unit) :=
  fun shell h => tells_say ["lux:", shell.session.directory, "> "] shell h

/-- **A line is executed** without looking at the line that is edited. -/
theorem tells_execute [BlockDevice δ] (line : Text) : Tells g (execute line : ShellM δ σ Unit) := by
  refine (tells_inSession SessionM.behaves_clearInterrupt).bind fun _ => ?_
  split
  · exact tells_say _
  · exact tells_pure ()
  · split
    · exact tells_say _
    · refine (tells_inSession (SessionM.moves_runJobs _ _ _).behaves).bind fun whole => ?_
      split
      · exact tells_awaitInterruptKey true
      · exact tells_pure ()

end ShellM

/-! ### Keys -/

/-- How a step of a shell ends: it stops only for a reason, nothing that was said made the cursor
leave the row, and if it did not stop, the line is shown behind what stood there when something had
been said. -/
structure Shell.Leads (g : Geometry) (said : List ConsoleEvent)
    (ended : Except Halt Unit × Shell δ σ) : Prop where
  justified : ∀ halt, ended.1 = .error halt → halt.Justified σ
  told : ended.2.terminal?.isSome
  shows : ended.1 = .ok () → ended.2.Shows g said

namespace Shell

variable {shell : Shell δ σ} {said : List ConsoleEvent}

theorem Shows.leads (h : shell.Shows g said) : Leads g said (.ok (), shell) := by
  obtain ⟨before, now, hbefore, hnow, hdisplays⟩ := h.displays
  exact ⟨Halt.justified_of_ok _, Option.isSome_iff_exists.mpr ⟨now, hnow⟩, fun _ => h⟩

/-- **An operation of the editor** does not stop, and the line is shown again. -/
theorem Shows.leads_edit (h : shell.Shows g said) {operation : EditM Unit}
    (hop : operation.Redraws) : Leads g said (shell.run (ShellM.edit operation)) := by
  obtain ⟨before, now, hbefore, hnow, hdisplays⟩ := h.displays
  obtain ⟨editor, terminal, events, hrun, hshow, hdisplays'⟩ := hop _ _ _ hdisplays
  rw [ShellM.run_edit (hrun [])]
  refine Shows.leads ⟨h.regular, h.remembered, h.prompted,
    h.began.trans (List.prefix_append ..), before, terminal, hbefore, ?_, hdisplays'⟩
  show Terminal.blank.show? (shell.session.console ++ events) = some terminal
  rw [Terminal.show?_append, ← Shell.terminal?, hnow]
  exact hshow

/-- Anything may be written, and then a line is asked for. -/
theorem Ready.leads_prompt (h : shell.Ready g) (hempty : shell.editor = .empty)
    {step : ShellM δ σ Unit} (hstep : ShellM.Tells g step) :
    Leads g (shell.run (step >>= fun _ => ShellM.prompt)).2.session.console
      (shell.run (step >>= fun _ => ShellM.prompt)) := by
  obtain ⟨htold, hhalt⟩ := hstep shell h.regular
  rw [ShellM.run_bind]
  rcases hrun : shell.run step with ⟨halt | ⟨⟩, later⟩ <;> rw [hrun] at htold hhalt
  · obtain ⟨row, hrow⟩ := (h.told htold).row
    exact ⟨hhalt, Option.isSome_iff_exists.mpr ⟨_, hrow⟩, nofun⟩
  · obtain ⟨hprompt, -⟩ := ShellM.tells_prompt later htold.kept.regular
    have hready := (h.told htold).told hprompt
    refine Shows.leads (hready.shows ?_ ⟨later.session.console, later.session.directory, rfl⟩)
    rw [hprompt.editor_eq, htold.editor_eq, hempty]

omit [System σ] in
/-- A line feed leaves the line behind that was shown. -/
theorem Shows.ready_newline (h : shell.Shows g said) {later : Shell δ σ} {text : Text}
    {front : List UInt8} (htext : utf8 text = front ++ [0x0A])
    (hconsole : later.session.console = shell.session.console ++ [.text text])
    (hvolume : later.session.volume = shell.session.volume)
    (hremembered : ∀ line ∈ later.session.history.lines, Typed line)
    (htyped : Typed later.editor.line)
    (hcursor : later.editor.cursor ≤ later.editor.line.length) : later.Ready g := by
  obtain ⟨before, now, hbefore, hnow, hdisplays⟩ := h.displays
  refine ⟨hvolume ▸ h.regular, hremembered, htyped, hcursor, [], ?_⟩
  rw [Shell.terminal?, hconsole, Terminal.show?_append, ← Shell.terminal?, hnow, Option.bind_some,
    Terminal.show?_singleton, ConsoleEvent.text, Terminal.tell?, htext, Terminal.foldl_put_newline]

/-- **The line is dropped.** -/
theorem Shows.leads_cancel (h : shell.Shows g said) :
    Leads g (shell.run ShellM.cancel).2.session.console (shell.run ShellM.cancel) := by
  have hrun : shell.run ShellM.cancel = ({ shell with
        editor := .empty
        session := { shell.session with
          console := shell.session.console ++ [.text "^C\n"] ++ [] } } : Shell δ σ).run
      (ShellM.inSession SessionM.clearInterrupt >>= fun _ => ShellM.prompt) := rfl
  rw [hrun]
  refine Ready.leads_prompt ?_ rfl (ShellM.tells_inSession SessionM.behaves_clearInterrupt)
  refine h.ready_newline (show utf8 "^C\n" = [0x5E, 0x43] ++ [0x0A] by rfl) ?_ rfl
    h.remembered typed_nil (Nat.zero_le _)
  exact List.append_nil _

/-- The line is written again behind a new question. -/
theorem Ready.leads_showAgain (h : shell.Ready g) (hprompted : Prompted shell.session.console) :
    Leads g shell.session.console (shell.run ShellM.showAgain) := by
  obtain ⟨row, hrow⟩ := h.row
  obtain ⟨before, behind, hline, hcursor⟩ : ∃ before behind,
      shell.editor.line = before ++ behind ∧ shell.editor.cursor = before.length :=
    ⟨shell.editor.line.take shell.editor.cursor, shell.editor.line.drop shell.editor.cursor,
      (List.take_append_drop ..).symm, (List.length_take_of_le h.cursor_le).symm⟩
  have htyped : Typed (before ++ behind) := hline ▸ h.typed
  have hback : shell.editor.size - shell.editor.cursor = behind.length := by
    rw [LineEditor.size, utf8Size_eq_length h.typed.printable, hline, hcursor, List.length_append,
      Nat.add_sub_cancel_left]
  have hwritten : (Terminal.between row []).tell? (.text (before ++ behind))
      = some (.between (row ++ utf8 before ++ utf8 behind) []) := by
    rw [Terminal.tell?_text htyped.printable, List.drop_nil, utf8_append, List.append_assoc]
  have hrun : shell.run ShellM.showAgain = (.ok (), { shell with session := { shell.session with
      console := shell.session.console ++ [.text [shell.editor.line].flatten]
        ++ [.left (shell.editor.size - shell.editor.cursor)] } }) := rfl
  rw [hrun]
  refine Shows.leads ⟨h.regular, h.remembered, hprompted, (List.prefix_append ..).trans
    (List.prefix_append ..), _, _, hrow, ?_, h.typed, before, behind, 0, hline, hcursor, rfl⟩
  show Terminal.blank.show? (shell.session.console ++ [.text [shell.editor.line].flatten]
    ++ [.left (shell.editor.size - shell.editor.cursor)]) = _
  rw [Terminal.show?_append, Terminal.show?_append, ← Shell.terminal?, hrow, Option.bind_some,
    Terminal.show?_singleton, List.flatten_singleton, hline, hwritten, Option.bind_some,
    Terminal.show?_singleton, hback, Terminal.tell?_back htyped.behind]
  simp [Terminal.between, blanks]

/-- Names are listed, and the line is shown behind a new question. -/
theorem Shows.leads_listing (h : shell.Shows g said) (candidates : List Candidate) :
    Leads g (shell.run (ShellM.listCandidates candidates)).2.session.console
      (shell.run (do ShellM.listCandidates candidates; ShellM.showAgain)) := by
  obtain ⟨before, now, hbefore, hnow, hdisplays⟩ := h.displays
  let names := List.intercalate [' ', ' '] (candidates.map Candidate.shown)
  let listed : Shell δ σ := { shell with session := { shell.session with
    console := shell.session.console ++ [.text [['\n'], names, ['\n']].flatten] } }
  have hrun : shell.run (ShellM.listCandidates candidates) = listed.run ShellM.prompt := rfl
  have htext : utf8 [['\n'], names, ['\n']].flatten = utf8 ('\n' :: names) ++ [0x0A] :=
    utf8_append ('\n' :: names) ['\n']
  have hready : listed.Ready g :=
    h.ready_newline htext rfl rfl h.remembered hdisplays.typed hdisplays.cursor_le
  obtain ⟨hprompt, -⟩ := ShellM.tells_prompt listed hready.regular
  rw [ShellM.run_bind, hrun]
  exact (hready.told hprompt).leads_showAgain
    ⟨listed.session.console, listed.session.directory, rfl⟩

variable [BlockDevice δ]

/-- **A line is executed.** -/
theorem Shows.leads_submit (h : shell.Shows g said) :
    Leads g (shell.run ShellM.submit).2.session.console (shell.run ShellM.submit) := by
  obtain ⟨before, now, hbefore, hnow, hdisplays⟩ := h.displays
  rw [ShellM.run_submit]
  refine Ready.leads_prompt ?_ rfl (ShellM.tells_execute _)
  exact h.ready_newline (show utf8 ['\n'] = [] ++ [0x0A] by rfl) rfl rfl
    (History.forall_mem_push h.remembered hdisplays.typed) typed_nil (Nat.zero_le _)

/-- Looking for names says nothing, and what it finds can be typed. -/
theorem run_completion {before behind : Text} (hregular : shell.session.volume.Regular g)
    (hcut : splitAtByte? shell.editor.line shell.editor.cursor = some (before, behind)) :
    (∀ halt, (shell.run ShellM.completion).1 = .error halt → halt.Justified σ)
      ∧ (∀ rest ending, (shell.run ShellM.completion).1 = .ok (.whole rest ending) →
        isPrintable ending = true)
      ∧ ∃ session, (shell.run ShellM.completion).2 = { shell with session := session }
        ∧ Session.Kept g (fun _ => False) shell.session session := by
  rw [ShellM.completion, ShellM.run_get_bind]
  dsimp only
  rw [hcut]
  dsimp only
  have hquiet : SessionM.Behaves g (fun _ => False)
      (SessionM.candidates (CompletionPoint.ofText before) : SessionM δ σ _) :=
    (SessionM.moves_candidates _).behaves
  obtain ⟨hkept, hhalt⟩ := hquiet shell.session hregular
  rw [ShellM.run_bind, ShellM.run_inSession]
  rcases hrun : (SessionM.candidates (CompletionPoint.ofText before)).run.run shell.session with
    ⟨halt | found, session⟩ <;> rw [hrun] at hkept hhalt
  · refine ⟨?_, nofun, session, rfl, hkept⟩
    rintro _ ⟨⟩
    exact hhalt halt rfl
  · exact ⟨nofun, fun rest ending hwhole =>
      Completion.isPrintable_of_whole (Except.ok.inj hwhole), session, rfl, hkept⟩

/-- The line is still shown when names were looked for. -/
theorem Shows.completion (h : shell.Shows g said) :
    (∀ halt, (shell.run ShellM.completion).1 = .error halt → halt.Justified σ)
      ∧ (∀ rest ending, (shell.run ShellM.completion).1 = .ok (.whole rest ending) →
        isPrintable ending = true)
      ∧ (shell.run ShellM.completion).2.Shows g said := by
  obtain ⟨before, now, hbefore, hnow, hdisplays⟩ := h.displays
  obtain ⟨front, behind, count, hline, hcursor, hshown⟩ := hdisplays.shown
  have hcut : splitAtByte? shell.editor.line shell.editor.cursor = some (front, behind) := by
    rw [hcursor, ← utf8Size_eq_length fun c hc => hdisplays.typed.printable c
      (hline ▸ List.mem_append_left _ hc), hline]
    exact splitAtByte?_append front behind
  obtain ⟨hhalt, hwhole, session, hlast, hkept⟩ := run_completion h.regular hcut
  refine ⟨hhalt, hwhole, ?_⟩
  obtain ⟨quiet, hquiet, hnone⟩ := hkept.said
  obtain rfl : quiet = [] := List.eq_nil_iff_forall_not_mem.mpr hnone
  rw [List.append_nil] at hquiet
  rw [hlast]
  refine ⟨hkept.regular, hkept.history_eq ▸ h.remembered, h.prompted, hquiet ▸ h.began, before,
    now, hbefore, ?_, hdisplays⟩
  rw [← hnow, Shell.terminal?, hquiet]
  rfl

/-- What the console had been told when a stroke made the shell ask for a line again, if it did. -/
def askedBy? (shell : Shell δ σ) (awaited : Bool) : Stroke → Option (List ConsoleEvent)
  | .submit => some (shell.run ShellM.submit).2.session.console
  | .interrupt => if awaited then none else some (shell.run ShellM.cancel).2.session.console
  | .complete =>
    match shell.run ShellM.completion with
    | (.ok (.listing candidates), found) =>
      some (found.run (ShellM.listCandidates candidates)).2.session.console
    | _ => none
  | _ => none

/-- **The completion key.** -/
theorem Shows.leads_complete (h : shell.Shows g said) (awaited : Bool) :
    Leads g ((shell.askedBy? awaited .complete).getD said) (shell.run ShellM.complete) := by
  obtain ⟨hhalt, hwhole, hshows⟩ := h.completion
  rw [ShellM.complete, ShellM.run_bind, askedBy?]
  rcases hrun : shell.run ShellM.completion with ⟨halt | found, later⟩ <;>
    rw [hrun] at hhalt hwhole hshows
  · refine ⟨?_, hshows.leads.told, nofun⟩
    rintro _ ⟨⟩
    exact hhalt halt rfl
  · cases found with
    | nothing => exact hshows.leads
    | whole rest ending =>
      exact hshows.leads_edit ((EditM.redraws_insertAll rest).bind
        (EditM.redraws_insert (hwhole rest ending rfl)))
    | part rest => exact hshows.leads_edit (EditM.redraws_insertAll rest)
    | listing candidates => exact hshows.leads_listing candidates

/-- **Any stroke.** -/
theorem Shows.leads_stroke (h : shell.Shows g said) (awaited : Bool) {stroke : Stroke}
    (hinsert : ∀ c, stroke = .insert c → isPrintable c = true) :
    Leads g ((shell.askedBy? awaited stroke).getD said)
      (shell.run (ShellM.handleStroke awaited stroke)) := by
  cases stroke <;> simp only [ShellM.handleStroke, askedBy?, Option.getD_some, Option.getD_none]
  case submit => exact h.leads_submit
  case interrupt =>
    cases awaited
    case true => exact h.leads
    case false => exact h.leads_cancel
  case backspace => exact h.leads_edit EditM.redraws_backspace
  case delete => exact h.leads_edit EditM.redraws_delete
  case moveLeft => exact h.leads_edit EditM.redraws_moveLeft
  case moveRight => exact h.leads_edit EditM.redraws_moveRight
  case home => exact h.leads_edit EditM.redraws_home
  case toEnd => exact h.leads_edit EditM.redraws_toEnd
  case older =>
    rw [ShellM.run_session_bind]
    exact h.leads_edit (EditM.redraws_older h.remembered)
  case newer =>
    rw [ShellM.run_session_bind]
    exact h.leads_edit (EditM.redraws_newer h.remembered)
  case complete => exact h.leads_complete awaited
  case insert c => exact h.leads_edit (EditM.redraws_insert (hinsert c rfl))

/-- What the console had been told when a key made the shell ask for a line again, if it did. -/
def asked? (shell : Shell δ σ) (event : KeyEvent) : Option (List ConsoleEvent) :=
  if event.pressed then
    (Stroke.ofSymbol? event.symbol).bind
      ({ shell with awaitsInterruptKey := false }.askedBy? shell.awaitsInterruptKey)
  else
    none

/-- **Any key.** -/
theorem Shows.leads_key (h : shell.Shows g said) (event : KeyEvent) :
    Leads g ((shell.asked? event).getD said) (shell.run (ShellM.handleKey event)) := by
  have hwaiting : ({ shell with awaitsInterruptKey := false } : Shell δ σ).Shows g said :=
    ⟨h.regular, h.remembered, h.prompted, h.began, h.displays⟩
  rw [asked?]
  cases hpressed : event.pressed with
  | false =>
    rw [ShellM.run_handleKey_of_released shell hpressed]
    exact h.leads
  | true =>
    rw [ShellM.run_handleKey_of_pressed shell hpressed, if_pos rfl]
    cases hstroke : Stroke.ofSymbol? event.symbol with
    | none => exact hwaiting.leads
    | some stroke =>
      exact hwaiting.leads_stroke _ fun c hc => Stroke.isPrintable_of_insert (hc ▸ hstroke)

/-! ### Any keys -/

/-- A shell when some keys were pressed. -/
def pressed (shell : Shell δ σ) (events : List KeyEvent) : Except Halt Unit × Shell δ σ :=
  shell.run (events.forM ShellM.handleKey)

theorem pressed_cons (shell : Shell δ σ) (event : KeyEvent) (events : List KeyEvent) :
    shell.pressed (event :: events) = match shell.run (ShellM.handleKey event) with
      | (.ok (), later) => later.pressed events
      | (.error halt, later) => (.error halt, later) :=
  ShellM.run_forM_cons ShellM.handleKey event events shell

/-- What the console had been told when the shell asked for a line the last time, while some keys
were pressed. -/
def saidWhenAsked (shell : Shell δ σ) (said : List ConsoleEvent) :
    List KeyEvent → List ConsoleEvent
  | [] => said
  | event :: events =>
    (shell.run (ShellM.handleKey event)).2.saidWhenAsked ((shell.asked? event).getD said) events

/-- **Any keys.** -/
theorem Shows.leads_keys (h : shell.Shows g said) (events : List KeyEvent) :
    Leads g (shell.saidWhenAsked said events) (shell.pressed events) := by
  induction events generalizing shell said with
  | nil => exact h.leads
  | cons event events ih =>
    have hkey := h.leads_key event
    rw [pressed_cons, saidWhenAsked]
    rcases hrun : shell.run (ShellM.handleKey event) with ⟨halt | ⟨⟩, later⟩ <;> rw [hrun] at hkey
    · exact ⟨hkey.justified, hkey.told, nofun⟩
    · exact ih (hkey.shows rfl)

/-- What is on the terminal while a line is edited: what its row held when the last thing that was
said was a question for a line, then the line, then blanks. -/
structure ShowsLine (said : List ConsoleEvent) (shell : Shell δ σ) : Prop where
  prompted : Prompted said
  began : said <+: shell.session.console
  row_eq : ∃ before now count, Terminal.blank.show? said = some before
    ∧ shell.terminal? = some now
    ∧ now.row = before.row ++ utf8 shell.editor.line ++ blanks count
    ∧ now.column = before.row.length + shell.editor.cursor
  cursor_le : shell.editor.cursor ≤ shell.editor.line.length
  length_le : shell.editor.line.length ≤ 127
  printable : ∀ c ∈ shell.editor.line, isPrintable c = true

omit [System σ] [BlockDevice δ] in
theorem Shows.showsLine (h : shell.Shows g said) : shell.ShowsLine said := by
  obtain ⟨before, now, hbefore, hnow, hdisplays⟩ := h.displays
  obtain ⟨⟨count, hrow⟩, hcolumn⟩ := hdisplays.row_eq
  exact ⟨h.prompted, h.began, ⟨before, now, count, hbefore, hnow, hrow, hcolumn⟩,
    hdisplays.cursor_le, hdisplays.typed.length_le, hdisplays.typed.printable⟩

omit [BlockDevice δ] in
/-- A new shell has asked for a line. -/
theorem shows_of_start {volume : Volume δ} (h : volume.Regular g) (system : σ) :
    ((Shell.start volume system).run ShellM.prompt).2.Shows g
      ((Shell.start volume system).run ShellM.prompt).2.session.console := by
  have hready : (Shell.start volume system).Ready g :=
    ⟨h, nofun, typed_nil, Nat.zero_le _, [], rfl⟩
  obtain ⟨htold, -⟩ := ShellM.tells_prompt (Shell.start volume system) h
  exact (hready.told htold).shows htold.editor_eq ⟨[], ['/'], rfl⟩

/-- **The line is on the screen.** A new shell on any volume asks for a line, and then any keys are
pressed. The shell stops only when the machine goes down, the cursor of the terminal was never to
leave its row, and while the shell goes on the terminal shows the line behind the last question. -/
theorem shows_line (device : δ) (g : Geometry) (requests : List Request) (system : σ)
    (events : List KeyEvent) :
    let volume := (Volume.unmounted device g).served requests
    let first := ((Shell.start volume system).run ShellM.prompt).2
    let said := first.saidWhenAsked first.session.console events
    let (outcome, last) := first.pressed events
    (∀ halt, outcome = .error halt → halt = .poweredOff ∧ ∃ system : σ, System.reboot system = none)
      ∧ last.terminal?.isSome
      ∧ (outcome = .ok () → last.ShowsLine said) := by
  intro volume first said
  have hregular : volume.Regular g := ((Volume.regular_unmounted device g).served requests).1
  have hleads : Leads g said (first.pressed events) :=
    (shows_of_start hregular system).leads_keys events
  refine ⟨fun halt hhalt => ?_, hleads.told, fun hok => (hleads.shows hok).showsLine⟩
  have hjustified := hleads.justified halt hhalt
  cases halt with
  | broken => exact hjustified.elim
  | poweredOff => exact ⟨rfl, hjustified⟩

end Shell

end PocketKernel
