import PocketKernel.Proofs.Shell.Moves
import PocketKernel.Shell.Execute

/-!
# The stages of a line

The stages of a line before its last one all write into pipes, whether the output of the line is
shown or goes into a file. So two lines that differ in this alone run alike up to the end of their
last command, and what follows is said of both here: what the command wrote is shown, or it is held
by a pipe and put into a file; and before that, the shell looks for an interrupt.

## Main definitions

* `SessionM.feed`: run stages that all write into pipes.
* `Job.notice`, `Redirect.report`: what is said of a full pipe, and of a file.
* `Session.looked`, `Session.shown`, `Session.piped`: a session after a look for an interrupt, and
  after what was written was shown or was put into a pipe.
* `Session.CutShort`: a line is cut short by an interrupt.

## Main results

* `SessionM.runJobs_append`: a line is its first stages and then the others.
* `SessionM.run_runJobs_last`, `SessionM.run_runJobs_last_redirect`: its last stage.
* `SessionM.run_runJobs_interrupted`, `SessionM.cut_of_runJobs`: what happens at an interrupt.
-/

namespace PocketKernel

/-- What the console is told when a stage has written more than a pipe holds. -/
def Job.notice (job : Job) (bytes : List UInt8) : List ConsoleEvent :=
  if pipeCapacity < bytes.length then
    [.text (List.flatten
      [job.command.name, ": output truncated to ", Text.decimal pipeCapacity, " bytes\n"])]
  else []

/-- What the console is told when bytes were put where a redirection says, or were not. -/
def Redirect.report (redirect : Redirect) : Except VolumeError Unit → List ConsoleEvent
  | .ok () => []
  | .error cause => [.text (List.flatten [redirect.target, ": ", cause.message, "\n"])]

variable {δ σ : Type}

namespace Session

/-- What the console is told goes behind what it was told. -/
def told (session : Session δ σ) (events : List ConsoleEvent) : Session δ σ :=
  { session with console := session.console ++ events }

/-- What the command wrote is shown. -/
def shown (session : Session δ σ) : Session δ σ :=
  { session.told [.write session.written] with written := [] }

/-- What the command wrote is held by a pipe. -/
def piped (session : Session δ σ) (job : Job) : Session δ σ :=
  { session.told (job.notice session.written) with written := [] }

@[simp] theorem told_nil (session : Session δ σ) : session.told [] = session := by
  rw [told, List.append_nil]

@[simp] theorem system_shown (session : Session δ σ) : session.shown.system = session.system := rfl

@[simp] theorem system_piped (session : Session δ σ) (job : Job) :
    (session.piped job).system = session.system := rfl

variable [System σ]

/-- The shell looks for an interrupt. -/
def looked (session : Session δ σ) : Session δ σ :=
  { session with system := (System.interrupted session.system).2 }

@[simp] theorem volume_looked (session : Session δ σ) : session.looked.volume = session.volume :=
  rfl

/-- A session whose interrupt was forgotten. -/
def cleared (session : Session δ σ) : Session δ σ :=
  { session with system := System.clearInterrupt session.system }

/-- The shell looks for an interrupt, and finds one. -/
def cut (session : Session δ σ) : Session δ σ := session.looked.told [.text "^C\n"]

end Session

namespace SessionM

variable [BlockDevice δ] [System σ] {redirect : Option Redirect} {job : Job}
  {input : Option (List UInt8)} {session later : Session δ σ}

/-- Run stages that all write into pipes. Answers what the last pipe holds, or nothing if the user
has interrupted. -/
def feed : List Job → Option (List UInt8) → SessionM δ σ (Option (Option (List UInt8)))
  | [], input => pure (some input)
  | job :: jobs, input => do
    let output ← runPiped job input
    if ← interrupted then
      say ["^C\n"]
      pure none
    else
      feed jobs (some output)

/-- **A line is its first stages and then the others**, as long as the first ones are followed by
something. -/
theorem runJobs_append (front : List Job) {back : List Job}
    (hback : (back.isEmpty && redirect.isNone) = false) (input : Option (List UInt8)) :
    (runJobs redirect (front ++ back) input : SessionM δ σ Bool) = (do
      match ← feed front input with
      | none => pure false
      | some output => runJobs redirect back output) := by
  induction front generalizing input with
  | nil => rw [feed, pure_bind, List.nil_append]
  | cons job front ih =>
    have hfollowed : ((front ++ back).isEmpty && redirect.isNone) = false := by
      cases front with
      | nil => exact hback
      | cons _ _ => rfl
    rw [List.cons_append, runJobs, hfollowed, feed, bind_assoc]
    simp only [Bool.false_eq_true, if_false, bind_map_left, bind_assoc]
    refine bind_congr fun output => bind_congr fun found => ?_
    cases found with
    | false => exact ih (some output)
    | true => simp only [if_true, bind_assoc, pure_bind]

/-! ### Runs -/

omit [BlockDevice δ] in
/-- The shell looks for an interrupt before it goes on. -/
theorem run_unlessCut {α : Type} (answer : α) (next : SessionM δ σ α) (session : Session δ σ) :
    (do
      if ← interrupted then
        say ["^C\n"]
        pure answer
      else
        next : SessionM δ σ α).run.run session
      = if (System.interrupted session.system).1 then (.ok answer, session.cut)
        else next.run.run session.looked := by
  show (if (System.interrupted session.system).1 then _ else _ : SessionM δ σ α).run.run
    session.looked = _
  cases (System.interrupted session.system).1 with
  | false => rfl
  | true => rfl

omit [BlockDevice δ] [System σ] in
theorem run_takeWritten_bind {α : Type} (next : List UInt8 → SessionM δ σ α)
    (session : Session δ σ) : (takeWritten >>= next).run.run session
      = (next session.written).run.run { session with written := [] } := rfl

/-- What a command wrote is shown even if the shell ends in it. -/
theorem run_runShown (job : Job) (input : Option (List UInt8)) (session : Session δ σ) :
    (runShown job input).run.run session = (((runJob job input).run.run session).1,
      ((runJob job input).run.run session).2.shown) := by
  rw [runShown, run_bind, run_lift]
  rfl

/-- A pipe holds the first bytes that a command wrote. -/
theorem run_runPiped (job : Job) (input : Option (List UInt8)) (session : Session δ σ) :
    (runPiped job input).run.run session = match (runJob job input).run.run session with
      | (.ok (), later) => (.ok (later.written.take pipeCapacity), later.piped job)
      | (.error halt, later) => (.error halt, later) := by
  rw [runPiped, run_bind]
  rcases (runJob job input).run.run session with ⟨halt | ⟨⟩, later⟩
  · rfl
  · dsimp only
    rw [run_takeWritten_bind, Session.piped, Job.notice]
    by_cases hlong : pipeCapacity < later.written.length
    · rw [if_pos hlong, if_pos hlong]
      rfl
    · rw [if_neg hlong, if_neg hlong, Session.told_nil]
      rfl

/-- The last stage of a line whose output is shown. -/
theorem run_runJobs_last (last : Job) (input : Option (List UInt8)) (session : Session δ σ) :
    (runJobs none [last] input).run.run session
      = match (runJob last input).run.run session with
        | (.ok (), later) =>
          if (System.interrupted later.system).1 then (.ok false, later.shown.cut)
          else (.ok true, later.shown.looked)
        | (.error halt, later) => (.error halt, later.shown) := by
  rw [runJobs]
  simp only [List.isEmpty_nil, Option.isNone_none, Bool.and_self, if_true]
  rw [run_bind, run_runShown]
  rcases (runJob last input).run.run session with ⟨halt | ⟨⟩, later⟩
  · rfl
  · dsimp only
    rw [pure_bind, run_unlessCut, Session.system_shown]
    rfl

/-- The last stage of a line whose output goes into a file. -/
theorem run_runJobs_last_redirect (redirect : Redirect) (last : Job)
    (input : Option (List UInt8)) (session : Session δ σ) :
    (runJobs (some redirect) [last] input).run.run session
      = match (runJob last input).run.run session with
        | (.ok (), later) =>
          if (System.interrupted later.system).1 then (.ok false, (later.piped last).cut)
          else (do
            runRedirect redirect (later.written.take pipeCapacity)
            pure true : SessionM δ σ Bool).run.run (later.piped last).looked
        | (.error halt, later) => (.error halt, later) := by
  rw [runJobs]
  simp only [List.isEmpty_nil, Option.isNone_some, Bool.and_false, Bool.false_eq_true, if_false,
    bind_map_left]
  rw [run_bind, run_runPiped]
  rcases (runJob last input).run.run session with ⟨halt | ⟨⟩, later⟩
  · rfl
  · dsimp only
    rw [run_unlessCut, Session.system_piped]
    rfl

/-! ### Interrupts -/

theorem feed_append (front back : List Job) (input : Option (List UInt8)) :
    (feed (front ++ back) input : SessionM δ σ _) = (do
      match ← feed front input with
      | none => pure none
      | some output => feed back output) := by
  induction front generalizing input with
  | nil => rw [feed, pure_bind, List.nil_append]
  | cons job front ih =>
    rw [List.cons_append, feed, feed, bind_assoc]
    refine bind_congr fun output => ?_
    rw [bind_assoc]
    refine bind_congr fun found => ?_
    cases found with
    | false => exact ih (some output)
    | true => simp only [if_true, bind_assoc, pure_bind]

/-- **An interrupt ends the line.** If one is found after some stage, the session stays as that
stage left it, whatever was to come. -/
theorem run_runJobs_interrupted {front : List Job} {output : Option (List UInt8)}
    {before : Session δ σ} {bytes : List UInt8}
    (hfront : (feed front input).run.run session = (.ok (some output), before))
    (hjob : (runPiped job output).run.run before = (.ok bytes, later))
    (hfound : (System.interrupted later.system).1 = true) (redirect : Redirect) (back : List Job) :
    (runJobs (some redirect) (front ++ job :: back) input).run.run session
      = (.ok false, later.cut) := by
  have hfeed : (feed (front ++ job :: back) input).run.run session = (.ok none, later.cut) := by
    rw [feed_append, run_bind, hfront]
    dsimp only
    rw [feed, run_bind, hjob]
    dsimp only
    rw [run_unlessCut, if_pos hfound]
  have happend : (runJobs (some redirect) (front ++ job :: back ++ []) input : SessionM δ σ Bool)
      = _ := runJobs_append _ rfl input
  rw [List.append_nil] at happend
  rw [happend, run_bind, hfeed]
  rfl

/-- **Nothing else cuts a line short**: if not all of it happened, the shell had found an
interrupt. -/
theorem cut_of_runJobs {redirect : Option Redirect} {jobs : List Job}
    (h : (runJobs redirect jobs input).run.run session = (.ok false, later)) :
    ∃ before : Session δ σ, (System.interrupted before.system).1 = true ∧ later = before.cut := by
  induction jobs generalizing input session with
  | nil =>
    exfalso
    rw [runJobs.eq_def] at h
    cases redirect with
    | none => cases h
    | some redirect =>
      rw [run_bind] at h
      split at h
      · cases h
      · cases h
  | cons job jobs ih =>
    have hrest {output : Option (List UInt8)} {before : Session δ σ} (hrun : (do
          if ← interrupted then
            say ["^C\n"]
            pure false
          else
            runJobs redirect jobs output : SessionM δ σ Bool).run.run before = (.ok false, later)) :
        ∃ before : Session δ σ, (System.interrupted before.system).1 = true
          ∧ later = before.cut := by
      rw [run_unlessCut] at hrun
      split at hrun
      next hfound =>
        cases hrun
        exact ⟨before, hfound, rfl⟩
      next => exact ih hrun
    rw [runJobs] at h
    split at h
    · rw [run_bind] at h
      split at h
      next => exact hrest h
      next => cases h
    · rw [bind_map_left, run_bind] at h
      split at h
      next => exact hrest h
      next => cases h

end SessionM

namespace Session

variable [BlockDevice δ] [System σ] {session : Session δ σ} {line : Text}

/-- A line is cut short when it is executed in a session: an interrupt is found before all of it has
happened. -/
def CutShort (session : Session δ σ) (line : Text) : Prop :=
  ∃ pipeline jobs, Pipeline.ofText line = .ok (some pipeline)
    ∧ pipeline.stages.mapM Job.ofStage = .ok jobs
    ∧ ((SessionM.runJobs pipeline.redirect jobs none).run.run session.cleared).1 = .ok false

/-- A line that is executed is cut short if its jobs are. -/
theorem cutShort_iff {pipeline : Pipeline} {jobs : List Job}
    (hpipeline : Pipeline.ofText line = .ok (some pipeline))
    (hjobs : pipeline.stages.mapM Job.ofStage = .ok jobs) : session.CutShort line
      ↔ ((SessionM.runJobs pipeline.redirect jobs none).run.run session.cleared).1
        = .ok false := by
  refine ⟨?_, fun hcut => ⟨pipeline, jobs, hpipeline, hjobs, hcut⟩⟩
  rintro ⟨pipeline', jobs', hpipeline', hjobs', hcut⟩
  rw [hpipeline] at hpipeline'
  cases hpipeline'
  rw [hjobs] at hjobs'
  cases hjobs'
  exact hcut

/-- A line that is not executed is not cut short. -/
theorem not_cutShort (h : ∀ pipeline jobs, Pipeline.ofText line = .ok (some pipeline) →
    pipeline.stages.mapM Job.ofStage ≠ .ok jobs) : ¬ session.CutShort line := by
  rintro ⟨pipeline, jobs, hpipeline, hjobs, -⟩
  exact h pipeline jobs hpipeline hjobs

end Session

end PocketKernel
