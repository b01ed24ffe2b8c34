import PocketKernel.Shell.Editor
import PocketKernel.Shell.Session

/-!
# The state of a shell

A shell is a session and the line that is being typed in it. Steps of the session and operations of
the editor become steps of the shell here; what the editor shows goes to the console of the
session.

## Main definitions

* `Shell`, `Shell.start`: the state, and a new shell.
* `ShellM`: a step of a shell.
* `ShellM.inSession`, `ShellM.edit`: steps of the two parts.
* `ShellM.prompt`: ask for a line.
-/

namespace PocketKernel

/-- A shell. -/
structure Shell (δ σ : Type) where
  session : Session δ σ
  editor : LineEditor
  /-- A command was cut short by an interrupt, and the key that raised it is still to come. -/
  awaitsInterruptKey : Bool

/-- A new shell in the root directory. -/
def Shell.start {δ σ : Type} (volume : Volume δ) (system : σ) : Shell δ σ where
  session :=
    { volume := volume
      system := system
      directory := ['/']
      history := .empty
      console := []
      written := [] }
  editor := .empty
  awaitsInterruptKey := false

/-- A step of a shell. It keeps what it did when it stops. -/
abbrev ShellM (δ σ : Type) := ExceptT Halt (StateM (Shell δ σ))

namespace ShellM

variable {δ σ α : Type}

/-- A step of the session. -/
def inSession (step : SessionM δ σ α) : ShellM δ σ α := do
  let shell ← get
  let (outcome, session) := step.run.run shell.session
  set { shell with session := session }
  match outcome with
  | .ok answer => pure answer
  | .error halt => throw halt

/-- An operation of the editor. -/
def edit (operation : EditM Unit) : ShellM δ σ Unit := do
  let shell ← get
  match operation.run ⟨shell.editor, []⟩ with
  | none => throw .broken
  | some ((), editing) =>
    set { shell with editor := editing.editor }
    inSession (SessionM.tell editing.shown)

/-- The session. -/
def session : ShellM δ σ (Session δ σ) := do
  pure (← get).session

/-- Write pieces of text on the console. -/
def say (pieces : List Text) : ShellM δ σ Unit := inSession (SessionM.say pieces)

/-- Ask for a line. -/
def prompt : ShellM δ σ Unit := do
  say ["lux:", (← session).directory, "> "]

/-- Set whether the key of an interrupt is still to come. -/
def awaitInterruptKey (awaits : Bool) : ShellM δ σ Unit :=
  modify fun shell => { shell with awaitsInterruptKey := awaits }

end ShellM

/-- Run a step of a shell. -/
def Shell.run {δ σ α : Type} (shell : Shell δ σ) (step : ShellM δ σ α) :
    Except Halt α × Shell δ σ :=
  StateT.run (ExceptT.run step) shell

end PocketKernel
