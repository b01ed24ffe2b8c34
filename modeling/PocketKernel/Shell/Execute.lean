import PocketKernel.Shell.Builtin.Run
import PocketKernel.Shell.Pipeline
import PocketKernel.Shell.State

/-!
# Executing command lines

The stages of a line run one after the other. What a stage writes is piped into the next one; the
last stage of a line without a redirection writes on the console, and of a line with one, into the
file. A pipe holds 4096 bytes, and what does not fit is dropped, which is said.

After every stage the shell looks for an interrupt. If there is one, nothing more of the line
happens.

## Main definitions

* `SessionM.runStage`: run one command and take what it wrote.
* `VolumeM.redirectInto`: put bytes into a file.
* `ShellM.execute`: execute a line.
* `ShellM.runLine`: remember and execute a line, and ask for the next.
-/

namespace PocketKernel

variable {δ σ : Type} [BlockDevice δ] [System σ]

/-- How many bytes a pipe holds. -/
def pipeCapacity : Nat := 4096

/-- A stage of a line whose command is known. -/
structure Job where
  command : Command
  arguments : List Text
deriving DecidableEq, Repr

/-- The command of a stage; if there is none, the name that was used. -/
def Job.ofStage (stage : Stage) : Except Text Job :=
  match Command.find? stage.name with
  | some command => .ok ⟨command, stage.arguments⟩
  | none => .error stage.name

/-- Create a file if need be, and put bytes into it or behind what it contains. -/
def VolumeM.redirectInto (mode : RedirectMode) (path : Text) (data : List UInt8) :
    VolumeM δ Unit := do
  touch path
  match mode with
  | .truncate => discard (write path 0 data true)
  | .append =>
    let stat ← stat path
    discard (write path stat.size data false)

namespace SessionM

/-- Run a command. What it has written remains to be taken. -/
def runJob (job : Job) (input : Option (List UInt8)) : SessionM δ σ Unit := do
  modify fun session => { session with written := [] }
  job.command.run job.arguments input

/-- Take what the command has written. -/
def takeWritten : SessionM δ σ (List UInt8) := do
  let session ← get
  set { session with written := [] }
  pure session.written

/-- Run a command that writes on the console. What it wrote is shown even if the shell ends. -/
def runShown (job : Job) (input : Option (List UInt8)) : SessionM δ σ Unit := do
  let outcome ← ExceptT.lift (runJob job input).run
  tell [.write (← takeWritten)]
  ExceptT.mk (pure outcome)

/-- Run a command that writes into a pipe, and return what the pipe holds then. -/
def runPiped (job : Job) (input : Option (List UInt8)) : SessionM δ σ (List UInt8) := do
  runJob job input
  let written ← takeWritten
  if pipeCapacity < written.length then
    say [job.command.name, ": output truncated to ", Text.decimal pipeCapacity, " bytes\n"]
  pure (written.take pipeCapacity)

/-- Put bytes where a redirection says. -/
def runRedirect (redirect : Redirect) (data : List UInt8) : SessionM δ σ Unit := do
  let outcome ← match ← resolve? redirect.target with
    | none => pure (.error .invalidPath)
    | some path => onVolume (.redirectInto redirect.mode path data)
  match outcome with
  | .ok () => pure ()
  | .error cause => say [redirect.target, ": ", cause.message, "\n"]

/-- Run the stages of a line, behind a stage that wrote into a pipe, if there was one. Returns
whether all of it happened. -/
def runJobs (redirect : Option Redirect) : List Job → Option (List UInt8) → SessionM δ σ Bool
  | [], input => do
    match redirect with
    | some redirect => runRedirect redirect (input.getD [])
    | none => pure ()
    pure true
  | job :: jobs, input => do
    let output ←
      if jobs.isEmpty && redirect.isNone then do
        runShown job input
        pure none
      else
        some <$> runPiped job input
    if ← interrupted then
      say ["^C\n"]
      pure false
    else
      runJobs redirect jobs output

end SessionM

namespace ShellM

/-- Execute a line. -/
def execute (line : Text) : ShellM δ σ Unit := do
  inSession SessionM.clearInterrupt
  match Pipeline.ofText line with
  | .error cause => say ["parse error: ", cause.message, "\n"]
  | .ok none => pure ()
  | .ok (some pipeline) =>
    match pipeline.stages.mapM Job.ofStage with
    | .error name =>
      say ["Unknown command: ", name, ". Type 'help' for available commands.\n"]
    | .ok jobs =>
      if !(← inSession (SessionM.runJobs pipeline.redirect jobs none)) then
        awaitInterruptKey true

/-- Remember and execute a line, and ask for the next. -/
def runLine (line : Text) : ShellM δ σ Unit := do
  inSession (modify fun session => { session with history := session.history.push line })
  execute line
  prompt

end ShellM

end PocketKernel
