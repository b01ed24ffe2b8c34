import PocketKernel.Shell.Command
import PocketKernel.Text.Blank

/-!
# What the completion key completes

The word that is completed is what stands between the last separator and the cursor. At the start
of a stage it is the name of a command. Elsewhere it is a path, of which the part behind the last
slash is completed.

If one name remains, the rest of it is typed and something behind it: a slash for a directory, a
blank for everything else. If several remain, what they have in common is typed; if that is no more
than what is there, they are listed.

## Main definitions

* `CompletionPoint`, `CompletionPoint.ofText`: what stands before the cursor.
* `Candidate`, `Candidate.ofCommands`: the names that remain.
* `Completion`, `Completion.ofCandidates`: what the key does.
-/

namespace PocketKernel

namespace Text

/-- The longest text that two texts start with. -/
def commonStart : Text → Text → Text
  | a :: as, b :: bs => if a = b then a :: commonStart as bs else []
  | _, _ => []

/-- A text up to the last character of a class and from there on. -/
def splitBehind (isEnd : Char → Bool) (text : Text) : Text × Text :=
  ((text.reverse.dropWhile fun c => !isEnd c).reverse,
    (text.reverse.takeWhile fun c => !isEnd c).reverse)

theorem splitBehind_append (isEnd : Char → Bool) (text : Text) :
    (splitBehind isEnd text).1 ++ (splitBehind isEnd text).2 = text := by
  rw [splitBehind, ← List.reverse_append, List.takeWhile_append_dropWhile, List.reverse_reverse]

end Text

/-- What stands before the cursor when the completion key is pressed. -/
structure CompletionPoint where
  /-- The word is the name of a command. -/
  isCommand : Bool
  /-- The part of a path up to its last slash; empty for a command. -/
  directory : Text
  /-- What the names have to start with. -/
  start : Text
deriving DecidableEq, Repr

namespace CompletionPoint

/-- The character ends the word before it. -/
def isSeparator (c : Char) : Bool := c = ' ' || c = '|' || c = '>'

/-- What stands before the cursor. -/
def ofText (before : Text) : CompletionPoint :=
  let (head, word) := Text.splitBehind isSeparator before
  match (Text.trimEnd head).getLast? with
  | none | some '|' => ⟨true, [], word⟩
  | some _ =>
    let (directory, start) := Text.splitBehind (· = '/') word
    ⟨false, directory, start⟩

end CompletionPoint

/-- A name that may be completed to. -/
structure Candidate where
  name : Text
  isDirectory : Bool
deriving DecidableEq, Repr

namespace Candidate

/-- The commands whose names start in a given way. -/
def ofCommands (start : Text) : List Candidate :=
  (Command.all.map fun command => ⟨command.name, false⟩).filter (start.isPrefixOf ·.name)

/-- What is typed behind a name that was completed. -/
def ending (candidate : Candidate) : Char := if candidate.isDirectory then '/' else ' '

/-- How a name is listed. -/
def shown (candidate : Candidate) : Text :=
  candidate.name ++ if candidate.isDirectory then ['/'] else []

/-- What the names of all candidates start with. -/
def commonStart (first : Candidate) (others : List Candidate) : Text :=
  others.foldl (fun start other => Text.commonStart start other.name) first.name

end Candidate

/-- What the completion key does. -/
inductive Completion where
  /-- Nothing fits. -/
  | nothing
  /-- One name fits: type its rest, and what ends it. -/
  | whole (rest : Text) (ending : Char)
  /-- Several names fit: type what they have in common. -/
  | part (rest : Text)
  /-- Several names fit that have nothing more in common: list them. -/
  | listing (candidates : List Candidate)
deriving DecidableEq, Repr

/-- What the key does, by the names that remain. All of them start with what is there. -/
def Completion.ofCandidates (start : Text) : List Candidate → Completion
  | [] => .nothing
  | [candidate] => .whole (candidate.name.drop start.length) candidate.ending
  | first :: others =>
    let common := Candidate.commonStart first others
    if start.length < common.length then .part (common.drop start.length)
    else .listing (first :: others)

end PocketKernel
