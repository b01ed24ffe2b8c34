import PocketKernel.Keyboard.Event
import PocketKernel.Shell.Completion
import PocketKernel.Shell.Execute

/-!
# Keys

What the shell does when a key is pressed. Most keys change the line that is being typed. The
return key executes it, the interrupt key drops it, and the completion key looks for names that go
on with the word before the cursor.

When an interrupt has cut a command short, the key that raised it still arrives afterwards. The
next key that is pressed shows whether it is that one; if so, it does nothing.

## Main definitions

* `Stroke`, `Stroke.ofSymbol?`: what a symbol asks for.
* `ShellM.completion`, `ShellM.complete`: the completion key.
* `ShellM.handleKey`: any key.
-/

namespace PocketKernel

/-- What a key asks for. -/
inductive Stroke where
  | submit
  | interrupt
  | backspace
  | delete
  | moveLeft
  | moveRight
  | home
  | toEnd
  | older
  | newer
  | complete
  | insert (c : Char)
deriving DecidableEq, Repr

/-- What a symbol asks for, if it is one that the shell knows. -/
def Stroke.ofSymbol? (symbol : Char) : Option Stroke :=
  if symbol = '\n' ∨ symbol = '\r' then some .submit
  else if symbol = Symbol.interrupt then some .interrupt
  else if symbol = Symbol.backspace then some .backspace
  else if symbol = Symbol.delete then some .delete
  else if symbol = Symbol.arrowLeft then some .moveLeft
  else if symbol = Symbol.arrowRight then some .moveRight
  else if symbol = Symbol.home then some .home
  else if symbol = Symbol.toEnd then some .toEnd
  else if symbol = Symbol.arrowUp then some .older
  else if symbol = Symbol.arrowDown then some .newer
  else if symbol = '\t' then some .complete
  else if isPrintable symbol then some (.insert symbol)
  else none

/-- An entry of a directory as a candidate, if its name is plain ASCII. -/
def Candidate.ofEntry? (entry : DirectoryEntry) : Option Candidate :=
  if entry.text.all (·.toNat < 128) then some ⟨entry.text, entry.stat.isDirectory⟩ else none

/-- The entries of a directory whose names start in a given way. -/
def Candidate.ofEntries (start : Text) (entries : List DirectoryEntry) : List Candidate :=
  (entries.filterMap ofEntry?).filter (start.isPrefixOf ·.name)

namespace SessionM

variable {δ σ : Type} [BlockDevice δ]

/-- The entries of the directory at a path; none if there is no such directory. -/
def entriesOf (path : Text) : SessionM δ σ (List DirectoryEntry) := do
  match ← onVolume (.stat path) with
  | .ok ⟨_, true, _⟩ =>
    match ← onVolume (.list path) with
    | .ok entries => pure entries
    | .error _ => pure []
  | _ => pure []

/-- The names that go on with what stands before the cursor. -/
def candidates (point : CompletionPoint) : SessionM δ σ (List Candidate) := do
  if point.isCommand then
    pure (Candidate.ofCommands point.start)
  else if !(← get).volume.mounted then
    pure []
  else
    match ← resolve? (if point.directory = [] then ['.'] else point.directory) with
    | none => pure []
    | some path => pure (Candidate.ofEntries point.start (← entriesOf path))

end SessionM

namespace ShellM

variable {δ σ : Type} [BlockDevice δ]

/-- What the completion key does here. -/
def completion : ShellM δ σ Completion := do
  let editor := (← get).editor
  match Text.splitAtByte? editor.line editor.cursor with
  | none => throw .broken
  | some (before, _) =>
    let point := CompletionPoint.ofText before
    let candidates ← inSession (SessionM.candidates point)
    pure (Completion.ofCandidates point.start candidates)

/-- List names, and ask again. -/
def listCandidates (candidates : List Candidate) : ShellM δ σ Unit := do
  say [['\n'], List.intercalate [' ', ' '] (candidates.map Candidate.shown), ['\n']]
  prompt

/-- Write the line again as it was. -/
def showAgain : ShellM δ σ Unit := do
  let editor := (← get).editor
  say [editor.line]
  inSession (SessionM.tell [.left (editor.size - editor.cursor)])

/-- Go on with the word before the cursor as far as it is clear. -/
def complete : ShellM δ σ Unit := do
  match ← completion with
  | .nothing => pure ()
  | .whole rest ending =>
    edit do
      EditM.insertAll rest
      EditM.insert ending
  | .part rest => edit (EditM.insertAll rest)
  | .listing candidates =>
    listCandidates candidates
    showAgain

variable [System σ]

/-- Execute the line that was typed. -/
def submit : ShellM δ σ Unit := do
  say [['\n']]
  let line := (← get).editor.line
  edit EditM.clear
  runLine line

/-- Drop the line that was typed. -/
def cancel : ShellM δ σ Unit := do
  say ["^C\n"]
  edit EditM.clear
  inSession SessionM.clearInterrupt
  prompt

/-- Do what a key asks for. -/
def handleStroke (awaited : Bool) : Stroke → ShellM δ σ Unit
  | .submit => submit
  | .interrupt => if awaited then pure () else cancel
  | .backspace => edit EditM.backspace
  | .delete => edit EditM.delete
  | .moveLeft => edit EditM.moveLeft
  | .moveRight => edit EditM.moveRight
  | .home => edit EditM.home
  | .toEnd => edit EditM.toEnd
  | .older => do edit (EditM.older (← session).history)
  | .newer => do edit (EditM.newer (← session).history)
  | .complete => complete
  | .insert c => edit (EditM.insert c)

/-- Take a key event. Keys that are released do nothing. -/
def handleKey (event : KeyEvent) : ShellM δ σ Unit := do
  if event.pressed then
    let awaited := (← get).awaitsInterruptKey
    awaitInterruptKey false
    match Stroke.ofSymbol? event.symbol with
    | some stroke => handleStroke awaited stroke
    | none => pure ()

end ShellM

end PocketKernel
