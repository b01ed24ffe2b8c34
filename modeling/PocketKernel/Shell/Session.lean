import PocketKernel.Shell.Console
import PocketKernel.Shell.History
import PocketKernel.Shell.Resolve
import PocketKernel.Shell.System
import PocketKernel.Volume.Operations

/-!
# Sessions

A session is what the commands of the shell work on: the volume, the machine, the working
directory, what the console was told, and what the command that runs has written so far. Commands
write to whoever reads them, which may be the next command or the console, so their output is kept
apart until the stage is over.

A step of a session may end the shell for good. It keeps what it did until then.

## Main definitions

* `Session`, `Halt`, `SessionM`: the state and the steps on it.
* `SessionM.print`, `SessionM.printLine`: output of a command.
* `SessionM.say`: tell the console directly.
* `SessionM.onVolume`: use the volume.
* `SessionM.eachUntilInterrupt`: repeat a step until the user interrupts.
-/

namespace PocketKernel

/-- What a shell and its commands work on. -/
structure Session (δ σ : Type) where
  volume : Volume δ
  system : σ
  /-- The working directory, an absolute path. -/
  directory : Text
  history : History
  /-- What the console was told, in order. -/
  console : List ConsoleEvent
  /-- What the command that runs has written so far. -/
  written : List UInt8

/-- Why the shell came to an end. -/
inductive Halt where
  /-- A position left the text or table that it belongs to. -/
  | broken
  /-- The machine went down. -/
  | poweredOff
deriving DecidableEq, Repr

/-- A step of a session. It keeps what it did when it stops. -/
abbrev SessionM (δ σ : Type) := ExceptT Halt (StateM (Session δ σ))

namespace SessionM

variable {δ σ α : Type}

/-- Write bytes for whoever reads the command. -/
def write (bytes : List UInt8) : SessionM δ σ Unit :=
  modify fun session => { session with written := session.written ++ bytes }

/-- Write pieces of text. -/
def print (pieces : List Text) : SessionM δ σ Unit := write (Text.utf8 pieces.flatten)

/-- Write a line that consists of pieces of text. -/
def printLine (pieces : List Text) : SessionM δ σ Unit := print (pieces ++ [['\n']])

/-- Tell the console something. -/
def tell (events : List ConsoleEvent) : SessionM δ σ Unit :=
  modify fun session => { session with console := session.console ++ events }

/-- Write pieces of text on the console. -/
def say (pieces : List Text) : SessionM δ σ Unit := tell [.text pieces.flatten]

/-- Use the volume. -/
def onVolume (operation : VolumeM δ α) : SessionM δ σ (Except VolumeError α) := do
  let session ← get
  let (outcome, volume) := session.volume.run operation
  set { session with volume := volume }
  match outcome with
  | .ok answer => pure (.ok answer)
  | .error (.error cause) => pure (.error cause)
  | .error .broken => throw .broken

/-- Whether the volume is mounted. A command that finds that it is not says so. -/
def available (command : Text) : SessionM δ σ Bool := do
  if (← get).volume.mounted then
    pure true
  else
    printLine [command, ": filesystem not available"]
    pure false

/-- The absolute path that a path means in the working directory, unless it is too long. -/
def resolve? (path : Text) : SessionM δ σ (Option Text) := do
  pure (Path.resolve? (← get).directory path)

section System

variable [System σ]

/-- Whether the user has interrupted. -/
def interrupted : SessionM δ σ Bool := do
  let session ← get
  let (answer, system) := System.interrupted session.system
  set { session with system := system }
  pure answer

/-- Forget that the user has interrupted. -/
def clearInterrupt : SessionM δ σ Unit :=
  modify fun session => { session with system := System.clearInterrupt session.system }

/-- Run a step for each item, until the user interrupts. -/
def eachUntilInterrupt (step : α → SessionM δ σ Unit) : List α → SessionM δ σ Unit
  | [] => pure ()
  | item :: items => do
    if !(← interrupted) then
      step item
      eachUntilInterrupt step items

end System

end SessionM

end PocketKernel
