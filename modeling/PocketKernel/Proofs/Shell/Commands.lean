import PocketKernel.Proofs.Shell.Moves
import PocketKernel.Proofs.Volume.Contained
import PocketKernel.Shell.Execute
import PocketKernel.Shell.Keys

/-!
# What commands may do to a session

Whatever command is run, with whatever arguments, on whatever volume: it only makes moves. So it
writes on the console but never moves its cursor back, it leaves the history alone, and no index
leaves its table on the way. Only starting the machine anew may end the shell, on a machine that
goes down for it.

## Main definitions

* `Session.Kept`: what is still true of a session.
* `SessionM.Behaves`, `SessionM.Speaks`: a step keeps it, and stops only for a reason.

## Main results

* `Command.moves_run`: every command makes moves.
* `SessionM.moves_runJobs`: every line does.
* `SessionM.Moves.behaves`: a step that makes moves keeps what is true of a session.
-/

namespace PocketKernel

variable {δ σ α β : Type} {g : Geometry} {allowed : ConsoleEvent → Prop}

/-! ### Commands -/

namespace Builtin

open SessionM VolumeM

variable [BlockDevice δ] [System σ]

theorem moves_help : Acts (help : SessionM δ σ Unit) :=
  (moves_printLine _).bind fun _ => moves_forM _ fun _ => moves_printLine _

theorem moves_echo (arguments : List Text) : Acts (echo arguments : SessionM δ σ Unit) :=
  moves_printLine _

theorem moves_clear : Acts (clear : SessionM δ σ Unit) :=
  moves_tell fun _ h => List.mem_singleton.mp h ▸ trivial

theorem moves_pwd : Acts (pwd : SessionM δ σ Unit) :=
  moves_get_bind fun _ => moves_printLine _

theorem moves_history : Acts (history : SessionM δ σ Unit) := by
  refine moves_get_bind fun session => ?_
  dsimp only
  split
  · exact moves_printLine _
  · exact (moves_printLine _).bind fun _ => moves_forM _ fun _ => moves_printLine _

theorem moves_layout (arguments : List Text) :
    Acts (layout arguments : SessionM δ σ Unit) := by
  rw [layout.eq_def]
  split
  · exact moves_get_bind fun _ => moves_printLine _
  · split
    next layout _ =>
      exact (moves_modifySystem (System.setLayout layout)).bind fun _ => moves_printLine _
    next => exact moves_printLine _
  · exact moves_printLine _

/-- The one command that may end the shell. -/
theorem moves_reboot : Acts (reboot : SessionM δ σ Unit) := by
  refine (moves_printLine _).bind fun _ session => ?_
  rw [run_get_bind]
  split
  next system _ => exact ⟨Session.Move.reaches (.asked system), Session.stops_of_ok _⟩
  next hdown =>
    refine ⟨.refl, ?_⟩
    rintro _ ⟨⟩
    exact .poweredOff hdown

theorem moves_sleepFor (ms : ℕ) : Acts (sleepFor ms : SessionM δ σ Unit) := by
  induction ms with
  | zero => exact moves_pure ()
  | succ ms ih =>
    exact moves_unlessInterrupted ((moves_modifySystem (System.sleep 1)).bind fun _ => ih)

theorem moves_sleep (arguments : List Text) :
    Acts (sleep arguments : SessionM δ σ Unit) := by
  rw [sleep.eq_def]
  split
  · split
    · exact moves_sleepFor _
    · exact moves_printLine _
  · exact moves_printLine _

theorem moves_ps : Acts (ps : SessionM δ σ Unit) := by
  refine moves_get_bind fun session => ?_
  dsimp only
  split
  · exact moves_printLine _
  · refine (moves_printLine _).bind fun _ => (moves_printLine _).bind fun _ => ?_
    exact moves_forM _ fun _ => moves_printLine _

theorem moves_kill (arguments : List Text) : Acts (kill arguments : SessionM δ σ Unit) := by
  rw [kill.eq_def]
  split
  · split
    · exact moves_printLine _
    · intro session
      rw [run_get_bind]
      split
      next system _ => exact ⟨Session.Move.reaches (.asked system), Session.stops_of_ok _⟩
      next => exact moves_printLine _ session
  · exact moves_printLine _

theorem moves_meminfo : Acts (meminfo : SessionM δ σ Unit) := by
  refine moves_get_bind fun _ => ?_
  dsimp only
  iterate 6 refine (moves_printLine _).bind fun _ => ?_
  exact moves_printLine _

theorem moves_pathUsage (command : Text) :
    Acts (pathUsage command : SessionM δ σ Unit) :=
  moves_printLine _

theorem moves_eachPath (command : Text) {step : Text → Text → SessionM δ σ Unit}
    (h : ∀ path named, Acts (step path named)) (paths : List Text) :
    Acts (eachPath command step paths) := by
  refine moves_forM _ fun named => (moves_resolve? named).bind fun path => ?_
  split
  · exact moves_printLine _
  · exact h _ _

theorem moves_complain (command named : Text) (cause : VolumeError) :
    Acts (complain command named cause : SessionM δ σ Unit) :=
  moves_printLine _

/-! ### Commands about files -/

/-- The one command that changes the working directory. -/
theorem moves_cd (arguments : List Text) : Acts (cd arguments : SessionM δ σ Unit) := by
  refine moves_whenAvailable _ fun session => ?_
  rw [run_resolve?_bind]
  cases hpath : Path.resolve? session.directory (arguments.headD ['/']) with
  | none => exact moves_printLine _ session
  | some path =>
    have hcall : session.volume.run (Call.stat path).operation = _ := Volume.run_unit _ _
    have hcalled : Session.Reaches Terminal.Plain session (session.called [.stat path]) :=
      Session.Move.reaches (.called _)
    have hsession : session.called [.stat path]
        = { session with volume := (session.volume.run (.stat path)).2 } :=
      congrArg (fun answer => { session with volume := answer.2 }) hcall
    dsimp only
    rw [run_onVolume_bind]
    rcases hrun : session.volume.run (.stat path) with
      ⟨(cause | _) | ⟨inode, _ | _, size⟩, volume⟩ <;> rw [hrun] at hcall hsession
    · rw [hsession] at hcalled
      exact (moves_printLine _).after hcalled
    · rw [hsession] at hcalled
      refine ⟨hcalled, ?_⟩
      rintro _ ⟨⟩
      exact .broken .refl (congrArg Prod.fst hcall)
    · rw [hsession] at hcalled
      exact (moves_printLine _).after hcalled
    · have hentered : Session.Move Terminal.Plain session _ :=
        .entered hpath (congrArg Prod.fst hrun)
      rw [hsession] at hentered
      exact ⟨hentered.reaches, Session.stops_of_ok _⟩

theorem moves_listPath (path named : Text) :
    Acts (listPath path named : SessionM δ σ Unit) := by
  refine (moves_onVolume (calls_list path)).bind fun found => ?_
  split
  · exact moves_forM _ fun _ => moves_printLine _
  · exact moves_printLine _

theorem moves_touch (arguments : List Text) (input : Option (List UInt8)) :
    Acts (touch arguments input : SessionM δ σ Unit) := by
  rw [touch]
  split
  · exact (moves_pathUsage _).bind fun _ => moves_printLine _
  · refine moves_whenAvailable _ ?_
    split
    · exact moves_printLine _
    · refine moves_eachPath _ (fun path named => ?_) _
      refine (moves_onVolume (calls_touch path)).bind fun created => ?_
      split
      · exact moves_complain _ _ _
      · split
        · exact moves_pure ()
        · refine (moves_onVolume (calls_write _ _ _ _)).bind fun written => ?_
          split
          · exact moves_complain _ _ _
          · exact moves_pure ()

theorem moves_mkdir (arguments : List Text) :
    Acts (mkdir arguments : SessionM δ σ Unit) := by
  rw [mkdir]
  split
  · exact moves_pathUsage _
  · refine moves_whenAvailable _ (moves_eachPath _ (fun path named => ?_) _)
    refine (moves_onVolume (calls_mkdir path)).bind fun created => ?_
    split
    · exact moves_complain _ _ _
    · exact moves_pure ()

theorem moves_stat (arguments : List Text) :
    Acts (stat arguments : SessionM δ σ Unit) := by
  refine moves_whenAvailable _ ?_
  split
  · refine moves_get_bind fun _ => ?_
    dsimp only
    exact (moves_printLine _).bind fun _ => moves_printLine _
  · refine moves_eachPath _ (fun path named => ?_) _
    refine (moves_onVolume (calls_stat path)).bind fun found => ?_
    split
    · exact moves_complain _ _ _
    · iterate 3 refine (moves_printLine _).bind fun _ => ?_
      exact moves_printLine _

theorem moves_listEach (headed : Bool) (paths : List Text) :
    Acts (listEach headed paths : SessionM δ σ Unit) := by
  induction paths with
  | nil => exact moves_pure ()
  | cons named rest ih =>
    refine moves_unlessInterrupted ((moves_resolve? named).bind fun path => ?_)
    split
    · exact (moves_printLine _).bind fun _ => ih
    next path =>
      have hrest : Acts (do
          listPath path named
          if headed && rest ≠ [] then
            printLine []
          listEach headed rest : SessionM δ σ Unit) := by
        refine (moves_listPath path named).bind fun _ => ?_
        dsimp only
        split
        · exact (moves_printLine _).bind fun _ => ih
        · exact ih
      dsimp only
      split
      · exact (moves_printLine _).bind fun _ => hrest
      · exact hrest

theorem moves_ls (arguments : List Text) : Acts (ls arguments : SessionM δ σ Unit) := by
  refine moves_whenAvailable _ ?_
  split
  · exact moves_get_bind fun _ => moves_listPath _ _
  · exact moves_listEach _ _

theorem moves_catFrom (path named : Text) (size offset : ℕ) :
    Acts (catFrom path named size offset : SessionM δ σ Unit) := by
  induction h : size - offset using Nat.strongRecOn generalizing offset with
  | ind left ih =>
    rw [catFrom]
    split
    · refine moves_unlessInterrupted ((moves_onVolume (calls_read _ _ _)).bind fun found => ?_)
      split
      · exact moves_complain _ _ _
      · exact moves_pure ()
      · refine (moves_write _).bind fun _ => ih _ ?_ _ rfl
        omega
    · exact moves_pure ()

theorem moves_catFile (named : Text) : Acts (catFile named : SessionM δ σ Unit) := by
  refine (moves_resolve? named).bind fun path => ?_
  split
  · exact moves_printLine _
  · refine (moves_onVolume (calls_stat _)).bind fun found => ?_
    split
    · exact moves_complain _ _ _
    · split
      · exact moves_printLine _
      · exact moves_catFrom _ _ _ _

theorem moves_cat (arguments : List Text) (input : Option (List UInt8)) :
    Acts (cat arguments input : SessionM δ σ Unit) := by
  rw [cat.eq_def]
  split
  · split
    · exact moves_write _
    · exact moves_pathUsage _
  · exact moves_whenAvailable _ (moves_eachUntilInterrupt moves_catFile _)

theorem moves_dumpData (file : Option Text) (input : List UInt8) (length : ℕ) :
    Acts (dumpData file input length : SessionM δ σ _) := by
  rw [dumpData.eq_def]
  split
  · exact moves_pure _
  · refine (moves_available _).bind fun mounted => ?_
    split
    · refine (moves_resolve? _).bind fun path => ?_
      split
      · exact (moves_printLine _).bind fun _ => moves_pure _
      · refine (moves_onVolume (calls_read _ _ _)).bind fun found => ?_
        split
        · exact moves_pure _
        · exact (moves_complain _ _ _).bind fun _ => moves_pure _
    · exact moves_pure _

theorem moves_dumpStart (file : Option Text) (input : List UInt8) (count : ℕ) :
    Acts (dumpStart file input count : SessionM δ σ Unit) :=
  (moves_dumpData _ _ _).bind fun _ =>
    moves_eachUntilInterrupt (fun _ => moves_printLine _) _

theorem moves_dump (file : Option Text) (input : List UInt8) (length : Option Text) :
    Acts (dump file input length : SessionM δ σ Unit) := by
  rw [dump]
  split
  · exact moves_dumpStart _ _ _
  · exact moves_printLine _
  · exact moves_printLine _
  · exact moves_dumpStart _ _ _

theorem moves_hexdump (arguments : List Text) (input : Option (List UInt8)) :
    Acts (hexdump arguments input : SessionM δ σ Unit) := by
  rw [hexdump.eq_def]
  split
  · exact moves_dump _ _ _
  · exact moves_dump _ _ _
  · exact moves_dump _ _ _
  · exact moves_dump _ _ _
  · exact (moves_printLine _).bind fun _ => moves_printLine _

end Builtin

section Lines

variable [BlockDevice δ] [System σ]

/-- **Every command**, with any arguments and any input. -/
theorem Command.moves_run (command : Command) (arguments : List Text)
    (input : Option (List UInt8)) :
    SessionM.Acts (command.run arguments input : SessionM δ σ Unit) := by
  cases command with
  | help => exact Builtin.moves_help
  | echo => exact Builtin.moves_echo arguments
  | clear => exact Builtin.moves_clear
  | cd => exact Builtin.moves_cd arguments
  | pwd => exact Builtin.moves_pwd
  | ls => exact Builtin.moves_ls arguments
  | cat => exact Builtin.moves_cat arguments input
  | touch => exact Builtin.moves_touch arguments input
  | mkdir => exact Builtin.moves_mkdir arguments
  | stat => exact Builtin.moves_stat arguments
  | hexdump => exact Builtin.moves_hexdump arguments input
  | sleep => exact Builtin.moves_sleep arguments
  | ps => exact Builtin.moves_ps
  | kill => exact Builtin.moves_kill arguments
  | meminfo => exact Builtin.moves_meminfo
  | history => exact Builtin.moves_history
  | layout => exact Builtin.moves_layout arguments
  | reboot => exact Builtin.moves_reboot

/-! ### Lines -/

namespace SessionM

theorem moves_takeWritten : Moves allowed (takeWritten : SessionM δ σ _) :=
  fun _ => ⟨Session.Move.reaches (.written []), Session.stops_of_ok _⟩

theorem moves_runJob (job : Job) (input : Option (List UInt8)) :
    Acts (runJob job input : SessionM δ σ Unit) :=
  moves_clearWritten.bind fun _ => job.command.moves_run _ _

/-- What a command wrote is shown even if the shell ends in it. -/
theorem moves_runShown (job : Job) (input : Option (List UInt8)) :
    Acts (runShown job input : SessionM δ σ Unit) := by
  have hshow : Acts (do tell [.write (← takeWritten)] : SessionM δ σ Unit) :=
    moves_takeWritten.bind fun _ => moves_tell fun _ h => List.mem_singleton.mp h ▸ trivial
  have hshown := (moves_runJob job input).lift_bind hshow
  simp only [bind_assoc] at hshown
  exact hshown

theorem moves_runPiped (job : Job) (input : Option (List UInt8)) :
    Acts (runPiped job input : SessionM δ σ _) := by
  refine (moves_runJob job input).bind fun _ => moves_takeWritten.bind fun written => ?_
  dsimp only
  split
  · exact (moves_say _).bind fun _ => moves_pure _
  · exact moves_pure _

theorem calls_redirectInto (mode : RedirectMode) (path : Text) (data : List UInt8) :
    VolumeM.Calls (VolumeM.redirectInto mode path data : VolumeM δ _) := by
  refine (VolumeM.calls_touch path).bind fun _ => ?_
  cases mode with
  | truncate => exact (VolumeM.calls_write path 0 data true).discard
  | append =>
    exact (VolumeM.calls_stat path).bind fun stat =>
      (VolumeM.calls_write path stat.size data false).discard

theorem moves_runRedirect (redirect : Redirect) (data : List UInt8) :
    Acts (runRedirect redirect data : SessionM δ σ Unit) := by
  refine (moves_resolve? _).bind fun path => ?_
  dsimp only
  split
  · exact moves_say _
  · refine (moves_onVolume (calls_redirectInto _ _ _)).bind fun outcome => ?_
    split
    · exact moves_pure ()
    · exact moves_say _

/-- **Every line**, from any of its stages on. -/
theorem moves_runJobs (redirect : Option Redirect) (jobs : List Job)
    (input : Option (List UInt8)) :
    Acts (runJobs redirect jobs input : SessionM δ σ Bool) := by
  induction jobs generalizing input with
  | nil =>
    rw [runJobs.eq_def]
    dsimp only
    split
    · exact (moves_runRedirect _ _).bind fun _ => moves_pure true
    · exact moves_pure true
  | cons job jobs ih =>
    have hrest (output : Option (List UInt8)) : Acts (do
        if ← interrupted then
          say ["^C\n"]
          pure false
        else
          runJobs redirect jobs output : SessionM δ σ Bool) := by
      refine moves_interrupted.bind fun found => ?_
      split
      · exact (moves_say _).bind fun _ => moves_pure false
      · exact ih output
    rw [runJobs]
    split
    · exact (moves_runShown job input).bind fun _ => (moves_pure none).bind hrest
    · exact ((moves_runPiped job input).map some).bind hrest

/-! ### Completion -/

/-- Looking for names says nothing. -/
theorem moves_candidates (point : CompletionPoint) :
    Moves allowed (candidates point : SessionM δ σ _) := by
  have hentries (path : Text) : Moves allowed (entriesOf path : SessionM δ σ _) := by
    refine (moves_onVolume (VolumeM.calls_stat path)).bind fun found => ?_
    split
    · refine (moves_onVolume (VolumeM.calls_list path)).bind fun entries => ?_
      split
      · exact moves_pure _
      · exact moves_pure _
    · exact moves_pure _
  rw [candidates]
  split
  · exact moves_pure _
  · refine moves_get_bind fun session => ?_
    split
    · exact moves_pure _
    · refine (moves_resolve? _).bind fun path => ?_
      split
      · exact moves_pure _
      · exact (hentries _).bind fun _ => moves_pure _

end SessionM

end Lines

/-! ### What is still true -/

/-- A reason for the shell to end: the machine goes down when it is started anew. -/
def Halt.Justified (σ : Type) [System σ] : Halt → Prop
  | .broken => False
  | .poweredOff => ∃ system : σ, System.reboot system = none

/-- What did not stop needs no reason. -/
theorem Halt.justified_of_ok [System σ] (answer : α) :
    ∀ halt, (.ok answer : Except Halt α) = .error halt → halt.Justified σ := nofun

/-- The later session has a sound volume and the same history, and all that was said on the console
since is allowed. -/
structure Session.Kept (g : Geometry) (allowed : ConsoleEvent → Prop)
    (session later : Session δ σ) : Prop where
  regular : later.volume.Regular g
  history_eq : later.history = session.history
  said : ∃ said, later.console = session.console ++ said ∧ ∀ event ∈ said, allowed event

theorem Volume.Regular.called [BlockDevice δ] {v : Volume δ} (h : v.Regular g)
    (calls : List Call) : (v.called calls).Regular g := by
  induction calls generalizing v with
  | nil => exact h
  | cons call calls ih => exact ih (call_confined h call).1

namespace Session

variable {session later : Session δ σ}

/-- Nothing was said, and other parts of the session may have changed. -/
theorem Kept.of_eq (h : later.volume.Regular g) (hhistory : later.history = session.history)
    (hconsole : later.console = session.console) : Kept g allowed session later :=
  ⟨h, hhistory, [], hconsole.trans (List.append_nil _).symm, nofun⟩

theorem Kept.refl (h : session.volume.Regular g) : Kept g allowed session session :=
  .of_eq h rfl rfl

theorem Kept.trans {last : Session δ σ} (h : Kept g allowed session later)
    (h' : Kept g allowed later last) : Kept g allowed session last := by
  obtain ⟨said, hsaid, hplain⟩ := h.said
  obtain ⟨said', hsaid', hplain'⟩ := h'.said
  refine ⟨h'.regular, h'.history_eq.trans h.history_eq, said ++ said', ?_, ?_⟩
  · rw [hsaid', hsaid, List.append_assoc]
  · exact List.forall_mem_append.mpr ⟨hplain, hplain'⟩

/-- One move. -/
theorem Move.kept [BlockDevice δ] (h : Move allowed session later)
    (hregular : session.volume.Regular g) : Kept g allowed session later := by
  cases h with
  | written bytes => exact .of_eq hregular rfl rfl
  | told hevents => exact ⟨hregular, rfl, _, rfl, hevents⟩
  | asked system => exact .of_eq hregular rfl rfl
  | called calls => exact .of_eq (hregular.called calls) rfl rfl
  | entered hpath hstat => exact .of_eq (hregular.called _) rfl rfl

/-- Any moves. -/
theorem Reaches.kept [BlockDevice δ] (h : Reaches allowed session later)
    (hregular : session.volume.Regular g) : Kept g allowed session later := by
  induction h with
  | refl => exact .refl hregular
  | tail _ hlast ih => exact ih.trans (hlast.kept ih.regular)

/-- On a sound volume, no index leaves its table. -/
theorem Stops.justified [BlockDevice δ] [System σ] {halt : Halt}
    (h : Stops allowed session halt) (hregular : session.volume.Regular g) :
    halt.Justified σ := by
  cases h with
  | poweredOff hdown => exact ⟨_, hdown⟩
  | broken hlater hcall =>
    exact (Volume.call_confined (hlater.kept hregular).regular _).2.2.ne_broken hcall

end Session

namespace SessionM

section

variable [System σ]

/-- From a session with a sound volume, a step keeps it so, says only what is allowed, and stops
only for a reason. -/
def Behaves (g : Geometry) (allowed : ConsoleEvent → Prop) (step : SessionM δ σ α) : Prop :=
  ∀ session, session.volume.Regular g → Session.Kept g allowed session (step.run.run session).2
    ∧ ∀ halt, (step.run.run session).1 = .error halt → halt.Justified σ

/-- A step that may say anything, but does not move the cursor of the console back. -/
abbrev Speaks (g : Geometry) (step : SessionM δ σ α) : Prop := Behaves g Terminal.Plain step

/-- **A step that makes moves behaves.** -/
theorem Moves.behaves [BlockDevice δ] {step : SessionM δ σ α} (h : Moves allowed step) :
    Behaves g allowed step := by
  intro session hregular
  obtain ⟨hreaches, hhalt⟩ := h session
  exact ⟨hreaches.kept hregular, fun halt hstop => (hhalt halt hstop).justified hregular⟩

theorem behaves_say (pieces : List Text) : Speaks g (say pieces : SessionM δ σ Unit) := by
  refine fun session h => ⟨⟨h, rfl, [.text pieces.flatten], rfl, ?_⟩, Halt.justified_of_ok _⟩
  rintro _ (_ | ⟨_, ⟨⟩⟩)
  trivial

theorem behaves_clearInterrupt : Behaves g allowed (clearInterrupt : SessionM δ σ Unit) :=
  fun _ h => ⟨.of_eq h rfl rfl, Halt.justified_of_ok _⟩

end

end SessionM

end PocketKernel
