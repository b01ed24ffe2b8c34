import PocketKernel.Text.Utf8

/-!
# Command lines

A command line is a row of stages between bars, and may end in a redirection. A stage is the name
of a command and its arguments. Words are separated by blanks and tabs. A stretch between double
quotes is one word, whatever it contains; a quote cannot be escaped, and quoted and plain stretches
that touch are words of their own.

```text
line      ::= stage ('|' stage)* (('>' | '>>') target)?
stage     ::= word+            at most 8 words
target    ::= word             not empty
```

A line is first cut into tokens, so a quote without a partner is reported before anything else.

## Main definitions

* `Token`, `Token.ofText`: the tokens of a line.
* `Stage`, `Redirect`, `Pipeline`: what a line means.
* `Pipeline.ofText`: read a line; a line without tokens means nothing.
* `LineError`: what can be wrong with a line.
-/

namespace PocketKernel

/-- What is wrong with a command line. -/
inductive LineError where
  /-- A quote has no partner. -/
  | unterminatedQuote
  /-- A stage has no words. -/
  | emptyStage
  /-- A redirection is not followed by a word with characters. -/
  | missingTarget
  /-- Something stands behind the target of a redirection. -/
  | trailingInput
  /-- A stage has too many words. -/
  | tooManyArguments
  /-- There are too many stages. -/
  | tooManyStages
deriving DecidableEq, Repr

namespace LineError

/-- All errors, in their listed order. -/
def all : List LineError :=
  [.unterminatedQuote, .emptyStage, .missingTarget, .trailingInput, .tooManyArguments,
    .tooManyStages]

/-- The text shown for an error. -/
def message : LineError → String
  | .unterminatedQuote => "unterminated quote"
  | .emptyStage => "empty command in pipeline"
  | .missingTarget => "missing redirection target"
  | .trailingInput => "unexpected input after redirection"
  | .tooManyArguments => "too many arguments"
  | .tooManyStages => "too many pipeline stages"

end LineError

/-- What a redirection does with a file that exists. -/
inductive RedirectMode where
  /-- Replace its content. -/
  | truncate
  /-- Go on behind its content. -/
  | append
deriving DecidableEq, Repr

/-- A token of a command line. -/
inductive Token where
  | word (text : Text)
  | bar
  | redirect (mode : RedirectMode)
deriving DecidableEq, Repr

namespace Token

/-- The character separates words. -/
def isSeparator (c : Char) : Bool := c = ' ' || c = '\t'

/-- The character goes on with a plain word. -/
def isWordChar (c : Char) : Bool := !isSeparator c && c ≠ '|' && c ≠ '>' && c ≠ '"'

theorem length_dropWhile_le (p : Char → Bool) (text : Text) :
    (text.dropWhile p).length ≤ text.length :=
  (List.dropWhile_sublist p).length_le

/-- The tokens of a line. -/
def ofText : Text → Except LineError (List Token)
  | [] => .ok []
  | c :: rest =>
    if isSeparator c then ofText rest
    else if c = '|' then (ofText rest).map (bar :: ·)
    else if c = '>' then
      match rest with
      | '>' :: rest => (ofText rest).map (redirect .append :: ·)
      | rest => (ofText rest).map (redirect .truncate :: ·)
    else if c = '"' then
      match hquote : rest.dropWhile (· ≠ '"') with
      | [] => .error .unterminatedQuote
      | _ :: after =>
        have _ := hquote ▸ length_dropWhile_le (· ≠ '"') rest
        (ofText after).map (word (rest.takeWhile (· ≠ '"')) :: ·)
    else
      have _ := length_dropWhile_le isWordChar rest
      (ofText (rest.dropWhile isWordChar)).map (word (c :: rest.takeWhile isWordChar) :: ·)
termination_by text => text.length
decreasing_by all_goals (simp only [List.length_cons] at *; omega)

end Token

/-- The name of a command and its arguments. -/
structure Stage where
  name : Text
  arguments : List Text
deriving DecidableEq, Repr

/-- The words of a stage. -/
def Stage.words (stage : Stage) : List Text := stage.name :: stage.arguments

/-- A redirection into a file. -/
structure Redirect where
  mode : RedirectMode
  /-- The path of the file. -/
  target : Text
deriving DecidableEq, Repr

/-- What a command line means. -/
structure Pipeline where
  /-- The stages, each reading what the one before it wrote. -/
  stages : List Stage
  redirect : Option Redirect
deriving DecidableEq, Repr

namespace Pipeline

/-- How many words a stage may have. -/
def maxWords : Nat := 8

/-- How many stages a line may have. -/
def maxStages : Nat := 4

/-- Close the stage that is open. -/
def close (stages : List Stage) : List Text → Except LineError (List Stage)
  | [] => .error .emptyStage
  | name :: arguments => .ok (stages ++ [⟨name, arguments⟩])

/-- Close the last stage of a line. -/
def finish (stages : List Stage) (words : List Text) (redirect : Option Redirect) :
    Except LineError Pipeline := do
  let stages ← close stages words
  if maxStages < stages.length then
    throw .tooManyStages
  pure ⟨stages, redirect⟩

/-- Read tokens, behind some closed stages and the words of an open one. -/
def ofTokens (stages : List Stage) (words : List Text) : List Token → Except LineError Pipeline
  | [] => finish stages words none
  | .word text :: tokens =>
    if words.length = maxWords then .error .tooManyArguments
    else ofTokens stages (words ++ [text]) tokens
  | .bar :: tokens => do
    let stages ← close stages words
    ofTokens stages [] tokens
  | .redirect mode :: tokens =>
    match tokens with
    | .word (c :: target) :: [] => finish stages words (some ⟨mode, c :: target⟩)
    | .word (_ :: _) :: _ => .error .trailingInput
    | _ => .error .missingTarget

/-- Read a line; `none` if it has no tokens. -/
def ofText (text : Text) : Except LineError (Option Pipeline) := do
  match ← Token.ofText text with
  | [] => pure none
  | tokens => (ofTokens [] [] tokens).map some

end Pipeline

end PocketKernel
