import PocketKernel.Proofs.Shell.Recall

/-!
# The key of an interrupt

The interrupt key raises an interrupt at once, and is queued behind the keys that were pressed
before it. If the interrupt cuts a command short, the key is handled by that: when it comes out of
the queue, it should do nothing any more. A shell only has a flag for it, which says that the key is
still to come, and every key that is pressed takes the flag down. So the key is recognised if it is
the next one. If something was typed ahead while the command ran, then the key of the interrupt
drops what was typed ahead, and is shown a second time.

## Main definitions

* `Shell.CutBy`, `Shell.JustCut`: a key submits a line that is cut short, and it was the last one.
* `Shell.Ignores`, `Shell.Cancels`: what the interrupt key does.

## Main results

* `Shell.awaits_key`, `Shell.awaits_pressed`: the flag after one key, and after any keys.
* `Shell.interrupt_handled_iff`: when the key of an interrupt is recognised.
* `Shell.interrupt_handled_twice`: a key that is not.
-/

namespace PocketKernel

variable {δ σ : Type} [System σ] {shell : Shell δ σ}

namespace Shell

/-- The session in which a line is executed when the return key submits it. -/
def submitted (shell : Shell δ σ) : Session δ σ :=
  { shell.session with
    history := shell.session.history.push shell.editor.line
    console := shell.session.console ++ [.text ['\n']] }

/-- A key that is pressed does nothing, except that no key of an interrupt is to come any more. -/
def Ignores [BlockDevice δ] (shell : Shell δ σ) (event : KeyEvent) : Prop :=
  shell.run (ShellM.handleKey event) = (.ok (), { shell with awaitsInterruptKey := false })

/-- A key drops the line: that is shown, the interrupt is forgotten, and a line is asked for. -/
def Cancels [BlockDevice δ] (shell : Shell δ σ) (event : KeyEvent) : Prop :=
  shell.run (ShellM.handleKey event) = (.ok (), {
    session := { shell.session with
      system := System.clearInterrupt shell.session.system
      console := shell.session.console ++ [.text "^C\n",
        .text (List.flatten ["lux:", shell.session.directory, "> "])] }
    editor := .empty
    awaitsInterruptKey := false })

variable [BlockDevice δ]

/-- A key that is pressed submits a line that is cut short. -/
def CutBy (shell : Shell δ σ) (event : KeyEvent) : Prop :=
  Stroke.ofSymbol? event.symbol = some .submit ∧ shell.submitted.CutShort shell.editor.line

/-- The last key that was pressed among some key events submitted a line that is cut short. If none
was pressed, that depends on what was before. -/
def JustCut (shell : Shell δ σ) (before : Prop) : List KeyEvent → Prop
  | [] => before
  | event :: events => (shell.run (ShellM.handleKey event)).2.JustCut
      (if event.pressed then shell.CutBy event else before) events

/-! ### The flag -/

omit [System σ] [BlockDevice δ] in
theorem awaits_edit (operation : EditM Unit) (shell : Shell δ σ) :
    (shell.run (ShellM.edit operation)).2.awaitsInterruptKey = shell.awaitsInterruptKey := by
  rw [ShellM.edit, ShellM.run_get_bind]
  rcases operation.run ⟨shell.editor, []⟩ with _ | ⟨⟨⟩, editing⟩
  · rfl
  · rfl

/-- Only the return key executes a line. -/
theorem awaits_stroke (shell : Shell δ σ) (awaited : Bool) {stroke : Stroke}
    (h : stroke ≠ .submit) : (shell.run (ShellM.handleStroke awaited stroke)).2.awaitsInterruptKey
      = shell.awaitsInterruptKey := by
  cases stroke with
  | submit => exact absurd rfl h
  | interrupt =>
    rw [ShellM.handleStroke]
    split
    · rfl
    · rw [ShellM.run_cancel]
  | older =>
    rw [ShellM.handleStroke, ShellM.run_session_bind]
    exact awaits_edit _ shell
  | newer =>
    rw [ShellM.handleStroke, ShellM.run_session_bind]
    exact awaits_edit _ shell
  | complete => exact (ShellM.keepsPlace_complete shell).awaits_eq
  | _ => exact awaits_edit _ shell

/-- A line that is submitted sets the flag if it is cut short. -/
theorem awaits_submit (h : shell.awaitsInterruptKey = false) :
    (shell.run ShellM.submit).2.awaitsInterruptKey = true
      ↔ shell.submitted.CutShort shell.editor.line := by
  let given : Shell δ σ := { shell with editor := .empty, session := shell.submitted }
  have hrun : shell.run ShellM.submit
      = given.run (ShellM.execute shell.editor.line >>= fun _ => ShellM.prompt) :=
    ShellM.run_submit shell
  have hexecuted : (given.run (ShellM.execute shell.editor.line)).2.awaitsInterruptKey = true
      ↔ given.session.CutShort shell.editor.line := by
    obtain ⟨session, -, ⟨hcut, -, hexecute⟩ | ⟨hcut, hexecute⟩⟩ :=
      ShellM.execute_cases given shell.editor.line
    · rw [hexecute]
      exact iff_of_true rfl hcut
    · rw [hexecute]
      exact iff_of_false (fun hawaits => by cases h.symm.trans hawaits) hcut
  rw [hrun, ShellM.run_bind]
  rcases hlast : given.run (ShellM.execute shell.editor.line) with ⟨halt | ⟨⟩, later⟩ <;>
    rw [hlast] at hexecuted
  · exact hexecuted
  · exact hexecuted

/-- **One key.** -/
theorem awaits_key (shell : Shell δ σ) (event : KeyEvent) :
    (shell.run (ShellM.handleKey event)).2.awaitsInterruptKey = true
      ↔ if event.pressed then shell.CutBy event else shell.awaitsInterruptKey = true := by
  cases hpressed : event.pressed with
  | false => rw [ShellM.run_handleKey_of_released shell hpressed, if_neg Bool.false_ne_true]
  | true =>
    rw [ShellM.run_handleKey_of_pressed shell hpressed, if_pos rfl, CutBy]
    cases hstroke : Stroke.ofSymbol? event.symbol with
    | none => exact iff_of_false Bool.false_ne_true nofun
    | some stroke =>
      let waiting : Shell δ σ := { shell with awaitsInterruptKey := false }
      by_cases hsubmit : stroke = .submit
      · subst hsubmit
        have hsubmitted : (waiting.run ShellM.submit).2.awaitsInterruptKey = true
            ↔ shell.submitted.CutShort shell.editor.line :=
          awaits_submit rfl
        exact hsubmitted.trans (and_iff_right rfl).symm
      · have hsame := awaits_stroke waiting shell.awaitsInterruptKey hsubmit
        refine iff_of_false (fun hawaits => ?_) fun hcut => hsubmit (Option.some.inj hcut.1)
        cases hsame.symm.trans hawaits

/-- **Any keys.** The flag is up as long as no key was pressed since a line was cut short. -/
theorem awaits_pressed {before : Prop} (h : shell.awaitsInterruptKey = true ↔ before)
    {events : List KeyEvent} (hok : (shell.pressed events).1 = .ok ()) :
    (shell.pressed events).2.awaitsInterruptKey = true ↔ shell.JustCut before events := by
  induction events generalizing shell before with
  | nil => exact h
  | cons event events ih =>
    have hkey := shell.awaits_key event
    rw [pressed_cons] at hok ⊢
    rw [JustCut]
    rcases hrun : shell.run (ShellM.handleKey event) with ⟨halt | ⟨⟩, later⟩ <;>
      rw [hrun] at hkey hok
    · cases hok
    · refine ih (hkey.trans ?_) hok
      split
      · exact Iff.rfl
      · exact h

/-! ### The interrupt key -/

/-- The interrupt key does nothing if it was still to come, and else drops the line. -/
theorem interrupt_key (shell : Shell δ σ) {event : KeyEvent} (hpressed : event.pressed = true)
    (hsymbol : event.symbol = Symbol.interrupt) :
    if shell.awaitsInterruptKey then shell.Ignores event else shell.Cancels event := by
  have hrun := ShellM.run_handleKey_of_pressed shell hpressed
  have hstroke : Stroke.ofSymbol? Symbol.interrupt = some .interrupt := by decide
  rw [hsymbol, hstroke] at hrun
  dsimp only at hrun
  rw [Ignores, Cancels, hrun, ShellM.handleStroke]
  split
  · rfl
  · exact ShellM.run_cancel _

/-- It cannot do both: a line that is dropped is shown to be. -/
theorem Cancels.not_ignores {event : KeyEvent} (h : shell.Cancels event) :
    ¬ shell.Ignores event := by
  intro hignores
  have hended := congrArg (fun ended => ended.2.session.console) (hignores.symm.trans h)
  exact List.cons_ne_nil _ _ (List.append_right_eq_self.mp hended.symm)

/-- **When the key of an interrupt is recognised.** A line is cut short by an interrupt, which is
said last, and the next line is asked for or not. Then come any key events that do not end the
shell. The interrupt key does nothing after them if no key was pressed since a line was cut short.
Otherwise it drops the line that was typed, as if there had been no interrupt. -/
theorem interrupt_handled_iff {line : Text} (hcut : shell.session.CutShort line)
    (events : List KeyEvent) {event : KeyEvent} (hpressed : event.pressed = true)
    (hsymbol : event.symbol = Symbol.interrupt) :
    let executed := (shell.run (ShellM.execute line)).2
    (∃ before : Session δ σ, (System.interrupted before.system).1 = true
        ∧ executed.session.console = before.console ++ [.text "^C\n"])
      ∧ ∀ first, first = executed ∨ first = (executed.run ShellM.prompt).2 →
        let (outcome, last) := first.pressed events
        outcome = .ok () →
          (last.Ignores event ↔ first.JustCut True events)
            ∧ (last.Cancels event ↔ ¬ first.JustCut True events) := by
  intro executed
  obtain ⟨session, -, ⟨-, ⟨before, hfound, rfl⟩, hrun⟩ | ⟨hnot, -⟩⟩ :=
    ShellM.execute_cases shell line
  case inr => exact absurd hcut hnot
  have hexecuted : executed = { shell with session := before.cut, awaitsInterruptKey := true } :=
    congrArg Prod.snd hrun
  refine ⟨⟨before, hfound, by rw [hexecuted]; rfl⟩, fun first hfirst hok => ?_⟩
  have hflag : executed.awaitsInterruptKey = true := congrArg awaitsInterruptKey hexecuted
  have hawaits : first.awaitsInterruptKey = true ↔ True := by
    rcases hfirst with rfl | rfl
    · exact iff_of_true hflag trivial
    · exact iff_of_true ((ShellM.keepsPlace_prompt executed).awaits_eq.trans hflag) trivial
  have hlast := awaits_pressed hawaits hok
  have hkey := interrupt_key (first.pressed events).2 hpressed hsymbol
  split at hkey
  next hup =>
    have hjust := hlast.mp hup
    exact ⟨iff_of_true hkey hjust, iff_of_false (fun h => h.not_ignores hkey) fun h => h hjust⟩
  next hdown =>
    have hjust := fun h => hdown (hlast.mpr h)
    exact ⟨iff_of_false hkey.not_ignores hjust, iff_of_true hkey hjust⟩

/-- A shell whose user interrupts after five milliseconds of sleep. -/
def impatient : Shell RamDisk ScriptedSystem :=
  Shell.start (Volume.unmounted (RamDisk.blank 20) .tiny)
    { ScriptedSystem.idle with interruptAtMs := some 5 }

theorem cutShort_impatient : impatient.session.CutShort "sleep 100".toList := by
  have hline : Pipeline.ofText "sleep 100".toList
      = .ok (some ⟨[⟨"sleep".toList, ["100".toList]⟩], none⟩) := by decide +kernel
  have hjobs : [Stage.mk "sleep".toList ["100".toList]].mapM Job.ofStage
      = .ok [⟨.sleep, ["100".toList]⟩] := by decide +kernel
  exact (Session.cutShort_iff hline hjobs).mpr (by decide +kernel)

/-- A sleep is cut short, and the key of the interrupt comes next. -/
theorem interrupt_handled_sleep :
    impatient.session.CutShort "sleep 100".toList
      ∧ ((impatient.run (ShellM.execute "sleep 100".toList)).2.run ShellM.prompt).2.Ignores
        ⟨Symbol.interrupt, .none, true⟩ :=
  ⟨cutShort_impatient,
    ((interrupt_handled_iff cutShort_impatient [] rfl rfl).2 _ (.inr rfl) rfl).1.mpr trivial⟩

/-- A character is typed during the sleep, before the key of the interrupt. Then that key drops the
character, and is shown again. -/
theorem interrupt_handled_twice :
    let key (symbol : Char) : KeyEvent := ⟨symbol, .none, true⟩
    let first := ((impatient.run (ShellM.execute "sleep 100".toList)).2.run ShellM.prompt).2
    let (outcome, typed) := first.pressed [key 'x']
    let (outcome', last) := typed.run (ShellM.handleKey (key Symbol.interrupt))
    impatient.session.CutShort "sleep 100".toList ∧ outcome = .ok () ∧ typed.editor.line = ['x']
      ∧ outcome' = .ok () ∧ last.editor.line = []
      ∧ last.session.console = typed.session.console ++ [.text "^C\n", .text "lux:/> "] :=
  ⟨cutShort_impatient, by decide +kernel, by decide +kernel, by decide +kernel, by decide +kernel,
    by decide +kernel⟩

end Shell

end PocketKernel
