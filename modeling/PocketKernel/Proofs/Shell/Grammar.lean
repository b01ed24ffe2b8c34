import PocketKernel.Proofs.Shell.Scan

/-!
# The grammar of command lines

The tokens that a pipeline is written with are the words of its stages with bars between the stages,
and then the redirection. A line means a pipeline exactly if its tokens are those, and the pipeline
is within the limits: this is the grammar, with the pipeline as the derivation.

The reader goes through the tokens with some stages that are closed and some words of an open one.
What it has read so far is written with `Pipeline.openTokens`, and this is what its steps keep.

## Main definitions

* `Pipeline.tokens`: the tokens that a pipeline is written with.
* `Pipeline.WithinLimits`: there are not too many stages and words, and the target is not empty.

## Main results

* `Pipeline.ofTokens_eq_ok_iff`: the tokens of a pipeline within limits are read as that pipeline, and
  no others are accepted.
* `Pipeline.ofText_eq_ok_some_iff`, `Pipeline.ofText_eq_unterminatedQuote_iff`: what a line means, and
  when a quote is missing.
* `Pipeline.ofText_grammar`: all of it.
-/

namespace PocketKernel

/-- The tokens that a stage is written with. -/
def Stage.tokens (stage : Stage) : List Token := stage.words.map .word

/-- The tokens that a redirection is written with. -/
def Redirect.tokens (redirect : Redirect) : List Token :=
  [.redirect redirect.mode, .word redirect.target]

namespace Pipeline

variable {stages front : List Stage} {stage : Stage} {words texts : List Text}
  {redirect : Option Redirect} {input : List Token} {p : Pipeline}

/-- The tokens that a pipeline is written with. -/
def tokens (p : Pipeline) : List Token :=
  [Token.bar].intercalate (p.stages.map Stage.tokens) ++ (p.redirect.map Redirect.tokens).getD []

/-- A pipeline has one to four stages of one to eight words each, and the target of its redirection
has characters. (Every stage has a name, so it has a word.) -/
structure WithinLimits (p : Pipeline) : Prop where
  stages_ne_nil : p.stages ≠ []
  length_stages_le : p.stages.length ≤ maxStages
  length_words_le : ∀ stage ∈ p.stages, stage.words.length ≤ maxWords
  target_ne_nil : ∀ redirect ∈ p.redirect, redirect.target ≠ []

/-- A pipeline has a last stage. -/
theorem WithinLimits.exists_concat (hp : p.WithinLimits) :
    ∃ front last redirect, p = ⟨front ++ [last], redirect⟩ := by
  obtain ⟨stages, redirect⟩ := p
  exact ⟨_, _, redirect, congrArg (Pipeline.mk · redirect)
    (List.dropLast_concat_getLast hp.stages_ne_nil).symm⟩

/-- The tokens that were read when some stages are closed and a stage with some words is open. -/
def openTokens (stages : List Stage) (words : List Text) : List Token :=
  stages.flatMap (fun stage => stage.tokens ++ [.bar]) ++ words.map .word

theorem openTokens_concat_word (stages : List Stage) (words : List Text) (text : Text) :
    openTokens stages (words ++ [text]) = openTokens stages words ++ [.word text] := by
  simp only [openTokens, List.map_append, List.map_cons, List.map_nil, List.append_assoc]

theorem openTokens_concat_stage (stages : List Stage) (stage : Stage) :
    openTokens (stages ++ [stage]) [] = openTokens stages stage.words ++ [.bar] := by
  simp only [openTokens, Stage.tokens, List.flatMap_append, List.flatMap_cons, List.flatMap_nil,
    List.map_nil, List.append_nil, List.append_assoc]

/-- Bars between the stages are bars behind all stages but the last one. -/
theorem intercalate_concat (stages : List Stage) (last : Stage) :
    [Token.bar].intercalate ((stages ++ [last]).map Stage.tokens)
      = openTokens stages last.words := by
  induction stages with
  | nil => exact List.append_nil _
  | cons stage stages ih =>
    obtain ⟨next, rest, hrest⟩ : ∃ next rest, (stages ++ [last]).map Stage.tokens = next :: rest :=
      List.exists_cons_of_ne_nil (by simp)
    rw [List.cons_append, List.map_cons, hrest, List.intercalate_cons_cons, ← hrest, ih]
    simp only [openTokens, List.flatMap_cons, List.append_assoc]

theorem tokens_concat (stages : List Stage) (last : Stage) (redirect : Option Redirect) :
    tokens ⟨stages ++ [last], redirect⟩
      = openTokens stages last.words ++ (redirect.map Redirect.tokens).getD [] := by
  rw [tokens, intercalate_concat]

/-! ### Closing stages -/

theorem close_eq_ok_iff {closed : List Stage} :
    close stages words = .ok closed ↔
      ∃ last : Stage, last.words = words ∧ closed = stages ++ [last] := by
  cases words with
  | nil =>
    refine ⟨(nomatch ·), ?_⟩
    rintro ⟨last, hwords, -⟩
    cases hwords
  | cons name arguments =>
    constructor
    · intro h
      exact ⟨⟨name, arguments⟩, rfl, (Except.ok.inj h).symm⟩
    · rintro ⟨last, hwords, rfl⟩
      obtain ⟨rfl, rfl⟩ := List.cons.inj hwords
      rfl

/-- A line ends well if its last stage can be closed and there are not too many. -/
theorem finish_eq_ok_iff :
    finish stages words redirect = .ok p ↔
      ∃ last : Stage, last.words = words ∧ (stages ++ [last]).length ≤ maxStages
        ∧ p = ⟨stages ++ [last], redirect⟩ := by
  rw [finish]
  cases hclose : close stages words with
  | error cause =>
    refine ⟨(nomatch ·), ?_⟩
    rintro ⟨last, hwords, -⟩
    cases hclose.symm.trans (close_eq_ok_iff.mpr ⟨last, hwords, rfl⟩)
  | ok closed =>
    show (if maxStages < closed.length then throw .tooManyStages
      else pure ⟨closed, redirect⟩ : Except LineError Pipeline) = .ok p ↔ _
    constructor
    · intro h
      obtain ⟨last, hwords, rfl⟩ := close_eq_ok_iff.mp hclose
      split at h
      next => cases h
      next hlength => exact ⟨last, hwords, Nat.le_of_not_lt hlength, (Except.ok.inj h).symm⟩
    · rintro ⟨last, hwords, hlength, rfl⟩
      cases hclose.symm.trans (close_eq_ok_iff.mpr ⟨last, hwords, rfl⟩)
      rw [if_neg (Nat.not_lt_of_le hlength)]
      rfl

/-! ### Reading the tokens of a pipeline -/

/-- Words are read as long as there is room for them. -/
theorem ofTokens_words (hwords : (words ++ texts).length ≤ maxWords) :
    ofTokens stages words (texts.map .word ++ input) = ofTokens stages (words ++ texts) input := by
  induction texts generalizing words with
  | nil => rw [List.append_nil]; rfl
  | cons text texts ih =>
    have hroom : words.length ≠ maxWords := by
      rw [List.length_append, List.length_cons] at hwords
      omega
    rw [List.append_cons] at hwords ⊢
    rw [List.map_cons, List.cons_append, ofTokens, if_neg hroom, ih hwords]

/-- Stages with bars behind them are closed one after the other. -/
theorem ofTokens_stages (hfront : ∀ stage ∈ front, stage.words.length ≤ maxWords) :
    ofTokens stages [] (front.flatMap (fun stage => stage.tokens ++ [.bar]) ++ input)
      = ofTokens (stages ++ front) [] input := by
  induction front generalizing stages with
  | nil => rw [List.append_nil]; rfl
  | cons stage front ih =>
    obtain ⟨hstage, hfront⟩ := List.forall_mem_cons.mp hfront
    rw [List.flatMap_cons, List.append_assoc, List.append_assoc, Stage.tokens,
      ofTokens_words hstage, List.append_cons, ← ih hfront]
    rfl

/-- The redirection stands at the very end. -/
theorem ofTokens_redirect (htarget : ∀ r ∈ redirect, r.target ≠ []) :
    ofTokens stages words ((redirect.map Redirect.tokens).getD [])
      = finish stages words redirect := by
  cases redirect with
  | none => rfl
  | some r =>
    obtain ⟨mode, target⟩ := r
    obtain ⟨c, target, rfl⟩ := List.exists_cons_of_ne_nil (htarget _ rfl)
    rfl

/-- A pipeline within limits is read from its tokens. -/
theorem ofTokens_tokens (hp : p.WithinLimits) : ofTokens [] [] p.tokens = .ok p := by
  obtain ⟨front, last, redirect, rfl⟩ := hp.exists_concat
  obtain ⟨hfront, hlast⟩ := List.forall_mem_append.mp hp.length_words_le
  rw [tokens_concat, openTokens, List.append_assoc, ofTokens_stages hfront,
    ofTokens_words (hlast last List.mem_cons_self), ofTokens_redirect hp.target_ne_nil]
  exact finish_eq_ok_iff.mpr ⟨last, rfl, hp.length_stages_le, rfl⟩

/-! ### What has been read -/

/-- What is behind an operator of redirection, if a pipeline is read. -/
theorem of_ofTokens_redirect {mode : RedirectMode}
    (h : ofTokens stages words (.redirect mode :: input) = .ok p) :
    ∃ target, target ≠ [] ∧ input = [.word target]
      ∧ finish stages words (some ⟨mode, target⟩) = .ok p := by
  rw [ofTokens.eq_def] at h
  dsimp only at h
  split at h
  next c target => exact ⟨c :: target, List.cons_ne_nil _ _, rfl, h⟩
  next => cases h
  next => cases h

/-- A line that ends well was written with the tokens of a pipeline. -/
theorem of_finish_eq_ok (hstages : ∀ stage ∈ stages, stage.words.length ≤ maxWords)
    (hwords : words.length ≤ maxWords) (htarget : ∀ r ∈ redirect, r.target ≠ [])
    (h : finish stages words redirect = .ok p) :
    p.tokens = openTokens stages words ++ (redirect.map Redirect.tokens).getD []
      ∧ p.WithinLimits := by
  obtain ⟨last, rfl, hlength, rfl⟩ := finish_eq_ok_iff.mp h
  refine ⟨tokens_concat .., ⟨List.concat_ne_nil _ _, hlength, ?_, htarget⟩⟩
  exact List.forall_mem_append.mpr ⟨hstages, List.forall_mem_singleton.mpr hwords⟩

/-- What is read and what is left are the tokens of the pipeline, and it is within limits. -/
theorem of_ofTokens_eq_ok (hstages : ∀ stage ∈ stages, stage.words.length ≤ maxWords)
    (hwords : words.length ≤ maxWords) (h : ofTokens stages words input = .ok p) :
    p.tokens = openTokens stages words ++ input ∧ p.WithinLimits := by
  induction input generalizing stages words with
  | nil => exact of_finish_eq_ok hstages hwords (fun _ h => absurd h (Option.not_mem_none _)) h
  | cons token input ih =>
    cases token with
    | word text =>
      rw [ofTokens] at h
      split at h
      next => cases h
      next hroom =>
        have hlength : (words ++ [text]).length ≤ maxWords := by
          rw [List.length_append]
          exact Nat.lt_of_le_of_ne hwords hroom
        rw [List.append_cons, ← openTokens_concat_word]
        exact ih hstages hlength h
    | bar =>
      rw [ofTokens] at h
      cases hclose : close stages words with
      | error cause =>
        rw [hclose] at h
        cases h
      | ok closed =>
        obtain ⟨last, rfl, rfl⟩ := close_eq_ok_iff.mp hclose
        rw [hclose] at h
        rw [List.append_cons, ← openTokens_concat_stage]
        refine ih ?_ (Nat.zero_le _) h
        exact List.forall_mem_append.mpr ⟨hstages, List.forall_mem_singleton.mpr hwords⟩
    | redirect mode =>
      obtain ⟨target, htarget, rfl, hfinish⟩ := of_ofTokens_redirect h
      exact of_finish_eq_ok hstages hwords (fun _ h => Option.some.inj h ▸ htarget) hfinish

/-- **The reader accepts the tokens of the pipelines within limits, and no others.** -/
theorem ofTokens_eq_ok_iff : ofTokens [] [] input = .ok p ↔ input = p.tokens ∧ p.WithinLimits := by
  constructor
  · intro h
    obtain ⟨htokens, hp⟩ := of_ofTokens_eq_ok (List.forall_mem_nil _) (Nat.zero_le _) h
    exact ⟨htokens.symm, hp⟩
  · rintro ⟨rfl, hp⟩
    exact ofTokens_tokens hp

/-! ### Reading a line -/

theorem close_ne_unterminatedQuote : close stages words ≠ .error .unterminatedQuote := by
  cases words <;> exact (nomatch ·)

theorem finish_ne_unterminatedQuote :
    finish stages words redirect ≠ .error .unterminatedQuote := by
  rw [finish]
  cases hclose : close stages words with
  | error cause =>
    rintro ⟨⟩
    exact close_ne_unterminatedQuote hclose
  | ok closed =>
    show (if maxStages < closed.length then throw .tooManyStages
      else pure ⟨closed, redirect⟩ : Except LineError Pipeline) ≠ _
    split <;> exact (nomatch ·)

/-- Quotes are no matter of tokens. -/
theorem ofTokens_ne_unterminatedQuote :
    ofTokens stages words input ≠ .error .unterminatedQuote := by
  induction input generalizing stages words with
  | nil => exact finish_ne_unterminatedQuote
  | cons token input ih =>
    rw [ofTokens.eq_def]
    cases token with
    | word text =>
      dsimp only
      split
      next => exact (nomatch ·)
      next => exact ih
    | bar =>
      dsimp only
      cases hclose : close stages words with
      | error cause =>
        rintro ⟨⟩
        exact close_ne_unterminatedQuote hclose
      | ok closed => exact ih
    | redirect mode =>
      dsimp only
      split
      next => exact finish_ne_unterminatedQuote
      next => exact (nomatch ·)
      next => exact (nomatch ·)

/-- A pipeline is not written without tokens. -/
theorem tokens_ne_nil (hp : p.WithinLimits) : p.tokens ≠ [] := by
  obtain ⟨front, last, redirect, rfl⟩ := hp.exists_concat
  have hwords : openTokens front last.words ≠ [] :=
    List.append_ne_nil_of_right_ne_nil _ (List.cons_ne_nil _ _)
  rw [tokens_concat]
  exact List.append_ne_nil_of_left_ne_nil hwords _

variable {line : Text}

/-- A line is cut into tokens first. -/
theorem ofText_eq_bind (line : Text) :
    ofText line = (Token.ofText line).bind fun tokens =>
      if tokens = [] then .ok none else (ofTokens [] [] tokens).map some := by
  rw [ofText]
  cases Token.ofText line with
  | error cause => rfl
  | ok tokens => cases tokens <;> rfl

theorem map_some_eq_ok_iff {result : Except LineError Pipeline} :
    result.map some = .ok (some p) ↔ result = .ok p := by
  cases result with
  | error cause => exact ⟨(nomatch ·), (nomatch ·)⟩
  | ok q => simp only [Except.map, Except.ok.injEq, Option.some.injEq]

/-- A line without tokens means nothing. -/
theorem ofText_eq_ok_none_iff : ofText line = .ok none ↔ Token.Lexed line [] := by
  rw [ofText_eq_bind, ← Token.ofText_eq_ok_iff]
  cases Token.ofText line with
  | error cause => exact ⟨(nomatch ·), (nomatch ·)⟩
  | ok tokens =>
    show (if tokens = [] then _ else _) = _ ↔ _
    rw [Except.ok.injEq]
    split
    next hnil => exact ⟨fun _ => hnil, fun _ => rfl⟩
    next hne =>
      refine ⟨fun h => ?_, fun h => absurd h hne⟩
      cases hread : ofTokens [] [] tokens <;> rw [hread] at h <;> cases h

/-- **A line means the pipelines within limits that are written with its tokens.** -/
theorem ofText_eq_ok_some_iff :
    ofText line = .ok (some p) ↔ Token.Lexed line p.tokens ∧ p.WithinLimits := by
  rw [ofText_eq_bind, ← Token.ofText_eq_ok_iff]
  cases Token.ofText line with
  | error cause => exact ⟨(nomatch ·), (nomatch ·.1)⟩
  | ok tokens =>
    show (if tokens = [] then _ else _) = _ ↔ _
    rw [Except.ok.injEq]
    split
    next hnil =>
      refine ⟨(nomatch ·), ?_⟩
      rintro ⟨htokens, hp⟩
      exact absurd (htokens.symm.trans hnil) (tokens_ne_nil hp)
    next hne => rw [map_some_eq_ok_iff, ofTokens_eq_ok_iff]

/-- Only a line that cannot be cut into tokens misses a quote. -/
theorem ofText_eq_unterminatedQuote_iff :
    ofText line = .error .unterminatedQuote ↔ ¬ ∃ tokens, Token.Lexed line tokens := by
  rw [ofText_eq_bind]
  cases htokens : Token.ofText line with
  | error cause =>
    obtain ⟨rfl, hodd⟩ := Token.ofText_eq_error_iff.mp htokens
    refine ⟨fun _ => ?_, fun _ => rfl⟩
    rintro ⟨tokens, hlexed⟩
    cases htokens.symm.trans (Token.ofText_of_lexed hlexed)
  | ok tokens =>
    refine ⟨fun h => ?_, fun h => absurd ⟨tokens, Token.lexed_of_ofText htokens⟩ h⟩
    change (if tokens = [] then _ else _) = _ at h
    split at h
    next => cases h
    next =>
      cases hread : ofTokens [] [] tokens with
      | error cause =>
        rw [hread] at h
        cases h
        exact absurd hread ofTokens_ne_unterminatedQuote
      | ok q =>
        rw [hread] at h
        cases h

/-- **The grammar of command lines.** A line means nothing exactly if it has no tokens; it means a
pipeline exactly if the pipeline is within limits and is written with the tokens of the line; and
everything else is an error. The error is a missing quote exactly if the line cannot be cut into
tokens, and this is if the number of its quotes is odd. All words are stretches of the line. And the
tokens can be found by looking at bytes alone: every word begins and ends between characters. -/
theorem ofText_grammar (line : Text) :
    (ofText line = .ok none ↔ Token.Lexed line [])
      ∧ (∀ p, ofText line = .ok (some p) ↔ Token.Lexed line p.tokens ∧ p.WithinLimits)
      ∧ ((∃ cause, ofText line = .error cause) ↔
          ¬ Token.Lexed line [] ∧ ∀ p : Pipeline, ¬ (Token.Lexed line p.tokens ∧ p.WithinLimits))
      ∧ (ofText line = .error .unterminatedQuote ↔ ¬ ∃ tokens, Token.Lexed line tokens)
      ∧ ((∃ tokens, Token.Lexed line tokens) ↔ Even (line.count '"'))
      ∧ (∀ p, ofText line = .ok (some p) → ∀ text, .word text ∈ p.tokens → text <:+: line)
      ∧ (Token.scan 0 (Text.utf8 line)).map (·.mapM (Token.Mark.token? line))
          = (Token.ofText line).map some := by
  refine ⟨ofText_eq_ok_none_iff, fun p => ofText_eq_ok_some_iff, ?_,
    ofText_eq_unterminatedQuote_iff, Token.exists_lexed_iff, fun p h text hword =>
      (ofText_eq_ok_some_iff.mp h).1.isInfix_of_mem hword, Token.scan_utf8 line⟩
  simp only [← ofText_eq_ok_none_iff, ← ofText_eq_ok_some_iff]
  cases ofText line with
  | error cause => exact ⟨fun _ => ⟨(nomatch ·), fun p => (nomatch ·)⟩, fun _ => ⟨cause, rfl⟩⟩
  | ok outcome =>
    refine ⟨fun ⟨cause, h⟩ => (nomatch h), fun ⟨hnone, hsome⟩ => ?_⟩
    cases outcome with
    | none => exact absurd rfl hnone
    | some p => exact absurd rfl (hsome p)

/-- A word that takes two bytes, a quoted one that touches it, and a redirection. -/
theorem ofText_grammar_redirect :
    let line : Text := ['é', '"', 'a', '|', '"', '>', 'x']
    let p : Pipeline := ⟨[⟨['é'], [['a', '|']]⟩], some ⟨.truncate, ['x']⟩⟩
    ofText line = .ok (some p) ∧ ∀ text, .word text ∈ p.tokens → text <:+: line := by
  intro line p
  have hgrammar := ofText_grammar line
  have hlexed : Token.Lexed line p.tokens := by
    show Token.Lexed (['é'] ++ ('"' :: (['a', '|'] ++ '"' :: ('>' :: (['x'] ++ []))))) p.tokens
    refine .plain (List.cons_ne_nil _ _) (List.forall_mem_singleton.mpr rfl) ?_ (.quoted (by decide)
      (.truncate (by decide) (.plain (List.cons_ne_nil _ _) (List.forall_mem_singleton.mpr rfl) ?_
        .nil)))
    · rintro _ ⟨⟩
      rfl
    · rintro _ ⟨⟩
  have hlimits : p.WithinLimits := ⟨by decide, by decide, by decide, by decide⟩
  have hread : ofText line = .ok (some p) := (hgrammar.2.1 p).mpr ⟨hlexed, hlimits⟩
  exact ⟨hread, hgrammar.2.2.2.2.2.1 p hread⟩

end Pipeline

end PocketKernel
