import PocketKernel.Proofs.Shell.Commands
import PocketKernel.Proofs.Shell.Stages

/-!
# What a shell is given

A shell is given key events, and lines as if they had been typed. Both are taken by steps of the
shell that work on its session by moves, apart from the lines that are remembered. So a property of
sessions that no move ends, and that does not depend on the history, lasts as long as the shell.

## Main definitions

* `Shell.Input`, `Shell.fed`: what a shell is given, and the shell afterwards.
* `Session.Lasting`: a property that no move ends.
* `ShellM.Keeps`: a step of a shell keeps a property of its session.

## Main results

* `ShellM.run_bind`, `ShellM.run_inSession`, `ShellM.run_edit`: how steps of a shell run.
* `ShellM.execute_cases`: how a line is executed.
* `Session.Lasting.fed`: what lasts, lasts through any inputs.
-/

namespace PocketKernel

variable {δ σ α β : Type}

/-! ### Runs of steps of a shell -/

namespace ShellM

theorem run_bind (first : ShellM δ σ β) (next : β → ShellM δ σ α) (shell : Shell δ σ) :
    shell.run (first >>= next) = match shell.run first with
      | (.ok answer, later) => later.run (next answer)
      | (.error halt, later) => (.error halt, later) := by
  show StateT.run (ExceptT.run (first >>= next)) shell = _
  rw [ExceptT.run_bind, StateT.run_bind]
  simp only [Shell.run]
  rcases StateT.run (ExceptT.run first) shell with ⟨halt | answer, later⟩
  · rfl
  · rfl

theorem run_get_bind (next : Shell δ σ → ShellM δ σ α) (shell : Shell δ σ) :
    shell.run (get >>= next) = shell.run (next shell) := rfl

theorem run_inSession (step : SessionM δ σ α) (shell : Shell δ σ) :
    shell.run (inSession step) = ((step.run.run shell.session).1,
      { shell with session := (step.run.run shell.session).2 }) := by
  rw [inSession, run_get_bind]
  rcases step.run.run shell.session with ⟨halt | answer, session⟩
  · rfl
  · rfl

theorem run_session_bind (next : Session δ σ → ShellM δ σ α) (shell : Shell δ σ) :
    shell.run (session >>= next) = shell.run (next shell.session) := rfl

/-- A step for each of some items, as long as none stops. -/
theorem run_forM_cons (step : α → ShellM δ σ Unit) (item : α) (items : List α)
    (shell : Shell δ σ) : shell.run ((item :: items).forM step) = match shell.run (step item) with
      | (.ok (), later) => later.run (items.forM step)
      | (.error halt, later) => (.error halt, later) := by
  rw [List.forM_eq_forM, List.forM_cons, run_bind]
  rcases shell.run (step item) with ⟨halt | ⟨⟩, later⟩
  · rfl
  · rfl

/-- What the editor shows goes to the console. -/
theorem run_edit {operation : EditM Unit} {shell : Shell δ σ} {editor : LineEditor}
    {events : List ConsoleEvent}
    (h : operation.run ⟨shell.editor, []⟩ = some ((), ⟨editor, [] ++ events⟩)) :
    shell.run (edit operation) = (.ok (), { shell with
      editor := editor
      session := { shell.session with console := shell.session.console ++ events } }) := by
  rw [edit, run_get_bind]
  dsimp only
  rw [h]
  rfl

section Keys

variable [BlockDevice δ] [System σ] {event : KeyEvent}

theorem run_handleKey_of_released (shell : Shell δ σ) (h : event.pressed = false) :
    shell.run (handleKey event) = (.ok (), shell) := by
  rw [handleKey, if_neg (by rw [h]; decide)]
  rfl

/-- A key that is pressed does what it asks for, and no interrupt key is awaited any more. -/
theorem run_handleKey_of_pressed (shell : Shell δ σ) (h : event.pressed = true) :
    shell.run (handleKey event) = match Stroke.ofSymbol? event.symbol with
      | some stroke => ({ shell with awaitsInterruptKey := false } : Shell δ σ).run
          (handleStroke shell.awaitsInterruptKey stroke)
      | none => (.ok (), { shell with awaitsInterruptKey := false }) := by
  rw [handleKey, if_pos h, run_get_bind]
  cases Stroke.ofSymbol? event.symbol <;> rfl

/-- The return key: the line is remembered, and then executed as a line that is no longer typed. -/
theorem run_submit (shell : Shell δ σ) : shell.run submit = ({ shell with
      editor := .empty
      session := { shell.session with
        history := shell.session.history.push shell.editor.line
        console := shell.session.console ++ [.text ['\n']] } } : Shell δ σ).run
    (execute shell.editor.line >>= fun _ => prompt) := by
  rw [← List.append_nil (shell.session.console ++ [ConsoleEvent.text ['\n']])]
  rfl

omit [BlockDevice δ] in
/-- The interrupt key: the line is dropped. -/
theorem run_cancel (shell : Shell δ σ) : shell.run cancel = (.ok (), { shell with
    editor := .empty
    session := { shell.session with
      system := System.clearInterrupt shell.session.system
      console := shell.session.console ++ [.text "^C\n",
        .text (List.flatten ["lux:", shell.session.directory, "> "])] } }) := by
  have hconsole : shell.session.console ++ [.text (List.flatten ["^C\n"])] ++ []
      ++ [.text (List.flatten ["lux:", shell.session.directory, "> "])]
      = shell.session.console ++ [.text "^C\n",
        .text (List.flatten ["lux:", shell.session.directory, "> "])] := by
    rw [List.append_nil, List.append_assoc]
    rfl
  rw [← hconsole]
  rfl

end Keys

section Lines

variable [BlockDevice δ] [System σ] {shell : Shell δ σ} {line : Text} {pipeline : Pipeline}
  {jobs : List Job}

omit [BlockDevice δ] in
theorem run_clearInterrupt (shell : Shell δ σ) : shell.run (inSession SessionM.clearInterrupt)
    = (.ok (), { shell with session := shell.session.cleared }) := rfl

/-- How a line runs whose commands are known. -/
theorem run_execute (hline : Pipeline.ofText line = .ok (some pipeline))
    (hjobs : pipeline.stages.mapM Job.ofStage = .ok jobs) :
    shell.run (execute line)
      = match (SessionM.runJobs pipeline.redirect jobs none).run.run shell.session.cleared with
        | (.ok true, session) => (.ok (), { shell with session := session })
        | (.ok false, session) =>
          (.ok (), { shell with session := session, awaitsInterruptKey := true })
        | (.error halt, session) => (.error halt, { shell with session := session }) := by
  rw [execute, run_bind, run_clearInterrupt, hline]
  dsimp only
  rw [hjobs]
  dsimp only
  rw [run_bind, run_inSession]
  rcases (SessionM.runJobs pipeline.redirect jobs none).run.run shell.session.cleared with
    ⟨halt | _ | _, session⟩
  · rfl
  · rfl
  · rfl

/-- How a line runs that has no commands, or one that is not known: if at all, the console is told
of it. -/
theorem run_execute_of_none (shell : Shell δ σ)
    (h : ∀ pipeline jobs, Pipeline.ofText line = .ok (some pipeline) →
      pipeline.stages.mapM Job.ofStage ≠ .ok jobs) : ∃ events,
      (∀ event ∈ events, Terminal.Plain event)
        ∧ shell.run (execute line) = (.ok (), { shell with
          session := shell.session.cleared.told events }) := by
  have hplain (text : Text) : ∀ event ∈ [ConsoleEvent.text text], Terminal.Plain event :=
    fun _ hmem => List.mem_singleton.mp hmem ▸ trivial
  rw [execute, run_bind, run_clearInterrupt]
  dsimp only
  cases hline : Pipeline.ofText line with
  | error cause => exact ⟨_, hplain _, rfl⟩
  | ok read =>
    cases read with
    | none => exact ⟨[], nofun, by rw [Session.told_nil]; rfl⟩
    | some pipeline =>
      dsimp only
      cases hjobs : pipeline.stages.mapM Job.ofStage with
      | error name => exact ⟨_, hplain _, rfl⟩
      | ok jobs => exact absurd hjobs (h pipeline jobs hline)

/-- **A line is executed.** It works on the session by moves and leaves the rest of the shell alone.
Only if it is cut short, that was said last, and the key of the interrupt is still to come. -/
theorem execute_cases (shell : Shell δ σ) (line : Text) :
    ∃ session, Session.Reaches Terminal.Plain shell.session session
      ∧ ((shell.session.CutShort line
          ∧ (∃ before : Session δ σ, (System.interrupted before.system).1 = true
            ∧ session = before.cut)
          ∧ shell.run (execute line)
            = (.ok (), { shell with session := session, awaitsInterruptKey := true }))
        ∨ (¬ shell.session.CutShort line
          ∧ (shell.run (execute line)).2 = { shell with session := session })) := by
  have hcleared : Session.Reaches Terminal.Plain shell.session shell.session.cleared :=
    Session.Move.reaches (.asked _)
  by_cases hknown : ∃ pipeline jobs, Pipeline.ofText line = .ok (some pipeline)
      ∧ pipeline.stages.mapM Job.ofStage = .ok jobs
  · obtain ⟨pipeline, jobs, hline, hjobs⟩ := hknown
    have hmoves := (SessionM.moves_runJobs pipeline.redirect jobs none shell.session.cleared).1
    rw [run_execute hline hjobs, Session.cutShort_iff hline hjobs]
    rcases hrun : (SessionM.runJobs pipeline.redirect jobs none).run.run shell.session.cleared with
      ⟨halt | _ | _, session⟩ <;> rw [hrun] at hmoves
    · exact ⟨session, hcleared.trans hmoves, .inr ⟨nofun, rfl⟩⟩
    · exact ⟨session, hcleared.trans hmoves, .inl ⟨rfl, SessionM.cut_of_runJobs hrun, rfl⟩⟩
    · exact ⟨session, hcleared.trans hmoves, .inr ⟨nofun, rfl⟩⟩
  · have hnone : ∀ pipeline jobs, Pipeline.ofText line = .ok (some pipeline) →
        pipeline.stages.mapM Job.ofStage ≠ .ok jobs :=
      fun pipeline jobs hline hjobs => hknown ⟨pipeline, jobs, hline, hjobs⟩
    obtain ⟨events, hevents, hrun⟩ := run_execute_of_none shell hnone
    exact ⟨_, hcleared.tail (.told hevents),
      .inr ⟨Session.not_cutShort hnone, congrArg Prod.snd hrun⟩⟩

end Lines

end ShellM

/-! ### Inputs -/

/-- What a shell is given. -/
inductive Shell.Input where
  | key (event : KeyEvent)
  /-- A line, as if it had been typed. -/
  | line (text : Text)

variable [BlockDevice δ] [System σ]

/-- The step that takes an input. -/
def Shell.Input.step : Shell.Input → ShellM δ σ Unit
  | key event => ShellM.handleKey event
  | line text => ShellM.runLine text

/-- A shell when it was given some inputs. -/
def Shell.fed (shell : Shell δ σ) (inputs : List Shell.Input) : Except Halt Unit × Shell δ σ :=
  shell.run (inputs.forM Input.step)

theorem Shell.fed_cons (shell : Shell δ σ) (input : Shell.Input) (inputs : List Shell.Input) :
    shell.fed (input :: inputs) = match shell.run input.step with
      | (.ok (), later) => later.fed inputs
      | (.error halt, later) => (.error halt, later) :=
  ShellM.run_forM_cons Input.step input inputs shell

/-! ### What lasts -/

/-- A property of sessions that no move ends, and no line that is remembered. -/
structure Session.Lasting (kept : Session δ σ → Prop) : Prop where
  move : ∀ {session later}, Move (fun _ => True) session later → kept session → kept later
  remembered : ∀ {session} history, kept session → kept { session with history := history }

/-- A step of a shell keeps a property of its session. -/
def ShellM.Keeps (kept : Session δ σ → Prop) (step : ShellM δ σ α) : Prop :=
  ∀ shell : Shell δ σ, kept shell.session → kept (shell.run step).2.session

namespace ShellM

variable {kept : Session δ σ → Prop}

omit [BlockDevice δ] [System σ]

theorem Keeps.bind {first : ShellM δ σ β} {next : β → ShellM δ σ α} (hfirst : Keeps kept first)
    (hnext : ∀ answer, Keeps kept (next answer)) : Keeps kept (first >>= next) := by
  intro shell h
  have hlater := hfirst shell h
  rw [run_bind]
  rcases hrun : shell.run first with ⟨halt | answer, later⟩ <;> rw [hrun] at hlater
  · exact hlater
  · exact hnext answer later hlater

theorem keeps_pure (answer : α) : Keeps kept (pure answer : ShellM δ σ α) := fun _ h => h

theorem keeps_throw (halt : Halt) : Keeps kept (throw halt : ShellM δ σ α) := fun _ h => h

theorem keeps_get_bind {next : Shell δ σ → ShellM δ σ α}
    (h : ∀ shell, Keeps kept (next shell)) : Keeps kept (get >>= next) :=
  fun shell => h shell shell

theorem keeps_session_bind {next : Session δ σ → ShellM δ σ α}
    (h : ∀ session, Keeps kept (next session)) : Keeps kept (session >>= next) :=
  fun shell => h shell.session shell

theorem keeps_awaitInterruptKey (awaits : Bool) :
    Keeps kept (awaitInterruptKey awaits : ShellM δ σ Unit) := fun _ h => h

end ShellM

namespace Session.Lasting

variable {kept : Session δ σ → Prop} (h : Lasting kept)
include h

open ShellM

/-- A step of the session that makes moves. -/
theorem inSession {step : SessionM δ σ α} (hstep : SessionM.Moves (fun _ => True) step) :
    Keeps kept (ShellM.inSession step) := by
  intro shell hshell
  rw [run_inSession]
  exact (hstep shell.session).1.lasts h.move hshell

theorem say (pieces : List Text) : Keeps kept (ShellM.say pieces : ShellM δ σ Unit) :=
  h.inSession (SessionM.moves_tell fun _ _ => trivial)

theorem prompt : Keeps kept (ShellM.prompt : ShellM δ σ Unit) :=
  keeps_session_bind fun _ => h.say _

omit [System σ] in
/-- The editor only tells the console something. -/
theorem edit (operation : EditM Unit) : Keeps kept (ShellM.edit operation : ShellM δ σ Unit) := by
  intro shell hshell
  rw [ShellM.edit, run_get_bind]
  rcases operation.run ⟨shell.editor, []⟩ with _ | ⟨⟨⟩, editing⟩
  · exact hshell
  · exact h.move (.told fun _ _ => trivial) hshell

theorem execute (line : Text) : Keeps kept (ShellM.execute line : ShellM δ σ Unit) := by
  refine (h.inSession SessionM.moves_clearInterrupt).bind fun _ => ?_
  split
  · exact h.say _
  · exact keeps_pure ()
  · split
    · exact h.say _
    · refine Keeps.bind ?_ fun whole => ?_
      · exact h.inSession ((SessionM.moves_runJobs _ _ _).mono fun _ _ => trivial)
      split
      · exact keeps_awaitInterruptKey true
      · exact keeps_pure ()

theorem runLine (line : Text) : Keeps kept (ShellM.runLine line : ShellM δ σ Unit) := by
  refine Keeps.bind ?_ fun _ => (h.execute line).bind fun _ => h.prompt
  intro shell hshell
  exact h.remembered _ hshell

theorem completion : Keeps kept (ShellM.completion : ShellM δ σ Completion) := by
  refine keeps_get_bind fun shell => ?_
  dsimp only
  split
  · exact keeps_throw _
  · exact (h.inSession (SessionM.moves_candidates _)).bind
      fun _ => keeps_pure _

theorem complete : Keeps kept (ShellM.complete : ShellM δ σ Unit) := by
  refine h.completion.bind fun found => ?_
  cases found with
  | nothing => exact keeps_pure ()
  | whole rest ending => exact h.edit _
  | part rest => exact h.edit _
  | listing candidates =>
    refine ((h.say _).bind fun _ => h.prompt).bind fun _ => keeps_get_bind fun shell => ?_
    exact (h.say _).bind fun _ => h.inSession (SessionM.moves_tell fun _ _ => trivial)

theorem stroke (awaited : Bool) (stroke : Stroke) :
    Keeps kept (ShellM.handleStroke awaited stroke : ShellM δ σ Unit) := by
  cases stroke with
  | submit =>
    refine (h.say _).bind fun _ => keeps_get_bind fun shell => ?_
    exact (h.edit _).bind fun _ => h.runLine _
  | interrupt =>
    rw [ShellM.handleStroke]
    split
    · exact keeps_pure ()
    · refine (h.say _).bind fun _ => (h.edit _).bind fun _ => ?_
      exact (h.inSession SessionM.moves_clearInterrupt).bind fun _ => h.prompt
  | older => exact keeps_session_bind fun _ => h.edit _
  | newer => exact keeps_session_bind fun _ => h.edit _
  | complete => exact h.complete
  | _ => exact h.edit _

theorem key (event : KeyEvent) : Keeps kept (ShellM.handleKey event : ShellM δ σ Unit) := by
  rw [ShellM.handleKey]
  split
  · refine keeps_get_bind fun shell => (keeps_awaitInterruptKey false).bind fun _ => ?_
    split
    · exact h.stroke _ _
    · exact keeps_pure ()
  · exact keeps_pure ()

theorem input (input : Shell.Input) : Keeps kept (input.step : ShellM δ σ Unit) := by
  cases input with
  | key event => exact h.key event
  | line text => exact h.runLine text

/-- **What lasts, lasts through any inputs**, even if the shell ends in one. -/
theorem fed {shell : Shell δ σ} (hshell : kept shell.session) (inputs : List Shell.Input) :
    kept (shell.fed inputs).2.session := by
  induction inputs generalizing shell with
  | nil => exact hshell
  | cons input inputs ih =>
    have hlater := h.input input shell hshell
    rw [Shell.fed_cons]
    rcases hrun : shell.run input.step with ⟨halt | ⟨⟩, later⟩ <;> rw [hrun] at hlater
    · exact hlater
    · exact ih hlater

end Session.Lasting

end PocketKernel
