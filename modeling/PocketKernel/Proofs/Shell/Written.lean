import Mathlib.Data.List.Chain
import PocketKernel.Proofs.Shell.Grammar

/-!
# Writing command lines

A pipeline is written with all its words between quotes, with bars between its stages and with the
redirection at the end. There is a gap before every token and one at the end of the line: a run of
blanks and tabs, which may be empty. What is written is read as the pipeline, whatever the gaps are.
A quote ends its word even if another quote follows at once, and behind an operator of redirection
stands a gap or a quote, so that two operators never touch.

A quote cannot be escaped, so a word with a quote in it cannot be written. All other words can be:
there is nothing else that a pipeline within limits has to avoid.

## Main definitions

* `Token.written`, `Token.spaced`: how tokens are written, and how rows of them are.
* `Pipeline.written`: how a pipeline is written.
* `Pipeline.Quotable`: no word has a quote in it.

## Main results

* `Token.lexed_spaced`: the tokens of a line that was written.
* `Pipeline.ofText_written_iff`: the pipelines that are read as they were written.
-/

namespace PocketKernel

namespace Token

variable {gaps : ℕ → Text} {tokens : List Token} {line text : Text}

/-- How a token is written. Words stand between quotes. -/
def written : Token → Text
  | word text => '"' :: (text ++ ['"'])
  | bar => ['|']
  | redirect .truncate => ['>']
  | redirect .append => ['>', '>']

/-- How a row of tokens is written, with a gap before each of them and one at the end. -/
def spaced (gaps : ℕ → Text) : List Token → Text
  | [] => gaps 0
  | token :: tokens => gaps 0 ++ token.written ++ spaced (fun k => gaps (k + 1)) tokens

/-- Two operators of redirection that touch could be taken for one. -/
def Apart (token next : Token) : Prop :=
  token = redirect .truncate → ∀ mode, next ≠ redirect mode

/-- Gaps are passed over. -/
theorem Lexed.gap {gap : Text} (hgap : ∀ c ∈ gap, isSeparator c = true) (h : Lexed line tokens) :
    Lexed (gap ++ line) tokens := by
  induction gap with
  | nil => exact h
  | cons c gap ih =>
    obtain ⟨hc, hgap⟩ := List.forall_mem_cons.mp hgap
    exact .separator hc (ih hgap)

/-- Behind a gap, only an operator of redirection starts with its character. -/
theorem head?_spaced_ne (hgaps : ∀ k, ∀ c ∈ gaps k, isSeparator c = true)
    (hfirst : ∀ token ∈ tokens.head?, ∀ mode, token ≠ redirect mode) :
    (spaced gaps tokens).head? ≠ some '>' := by
  have hgap : (gaps 0).head? ≠ some '>' := by
    intro h
    have hc := hgaps 0 '>' (List.mem_of_head? h)
    cases hc
  cases tokens with
  | nil => exact hgap
  | cons token tokens =>
    rw [spaced, List.append_assoc, List.head?_append]
    cases hhead : (gaps 0).head? with
    | some c =>
      rw [hhead] at hgap
      exact hgap
    | none =>
      cases token with
      | word text => exact (nomatch ·)
      | bar => exact (nomatch ·)
      | redirect mode => exact absurd rfl (hfirst _ rfl mode)

/-- **What is written has the tokens that were written.** -/
theorem lexed_spaced (hgaps : ∀ k, ∀ c ∈ gaps k, isSeparator c = true)
    (hquotes : ∀ text, word text ∈ tokens → '"' ∉ text) (hapart : tokens.IsChain Apart) :
    Lexed (spaced gaps tokens) tokens := by
  induction tokens generalizing gaps with
  | nil =>
    have hgap : Lexed (gaps 0 ++ []) [] := Lexed.nil.gap (hgaps 0)
    rwa [List.append_nil] at hgap
  | cons token tokens ih =>
    have hgaps' : ∀ k, ∀ c ∈ gaps (k + 1), isSeparator c = true := fun k => hgaps (k + 1)
    have hrest := ih hgaps' (fun text h => hquotes text (List.mem_cons_of_mem _ h)) hapart.tail
    rw [spaced, List.append_assoc]
    refine Lexed.gap (hgaps 0) ?_
    cases token with
    | word text =>
      rw [written, List.cons_append, List.append_assoc]
      exact .quoted (hquotes text List.mem_cons_self) hrest
    | bar => exact .bar hrest
    | redirect mode =>
      cases mode with
      | append => exact .append hrest
      | truncate =>
        refine .truncate (head?_spaced_ne hgaps' fun next hnext => ?_) hrest
        exact hapart.rel_head? hnext rfl

/-- No word of a line has a quote in it. -/
theorem Lexed.quote_not_mem (h : Lexed line tokens) (hword : word text ∈ tokens) : '"' ∉ text := by
  induction h with
  | nil => cases hword
  | separator hc hrest ih => exact ih hword
  | bar hrest ih | append hrest ih | truncate hhead hrest ih =>
    exact ih (List.mem_of_ne_of_mem Token.noConfusion hword)
  | quoted hinner hrest ih =>
    rcases List.mem_cons.mp hword with hhead | htail
    · cases hhead
      exact hinner
    · exact ih htail
  | plain hne hrun hhead hrest ih =>
    rcases List.mem_cons.mp hword with hfirst | htail
    · cases hfirst
      exact fun hquote => (isWordChar_iff.mp (hrun _ hquote)).2.2.2 rfl
    · exact ih htail

end Token

namespace Pipeline

variable {gaps : ℕ → Text} {p : Pipeline} {stages : List Stage} {words : List Text} {text : Text}
  {token : Token}

/-- How a pipeline is written, with gaps around its tokens. -/
def written (p : Pipeline) (gaps : ℕ → Text) : Text := Token.spaced gaps p.tokens

/-- No word has a quote in it. -/
structure Quotable (p : Pipeline) : Prop where
  word : ∀ stage ∈ p.stages, ∀ text ∈ stage.words, '"' ∉ text
  target : ∀ redirect ∈ p.redirect, '"' ∉ redirect.target

theorem mem_openTokens : token ∈ openTokens stages words ↔
    (∃ stage ∈ stages, token ∈ stage.tokens ∨ token = .bar) ∨ token ∈ words.map .word := by
  simp only [openTokens, List.mem_append, List.mem_flatMap, List.mem_singleton]

/-- The stages of a pipeline are written without operators of redirection. -/
theorem ne_redirect_of_mem_openTokens (h : token ∈ openTokens stages words) (mode : RedirectMode) :
    token ≠ .redirect mode := by
  rcases mem_openTokens.mp h with ⟨stage, -, hmem | rfl⟩ | hmem
  · obtain ⟨text, -, rfl⟩ := List.mem_map.mp hmem
    exact Token.noConfusion
  · exact Token.noConfusion
  · obtain ⟨text, -, rfl⟩ := List.mem_map.mp hmem
    exact Token.noConfusion

theorem word_mem_openTokens : .word text ∈ openTokens stages words ↔
    (∃ stage ∈ stages, text ∈ stage.words) ∨ text ∈ words := by
  simp [mem_openTokens, Stage.tokens]

/-- The tokens of the stages, and those of the redirection. -/
theorem exists_openTokens (p : Pipeline) : ∃ front words,
    p.tokens = openTokens front words ++ (p.redirect.map Redirect.tokens).getD []
      ∧ ∀ text, ((∃ stage ∈ front, text ∈ stage.words) ∨ text ∈ words) ↔
        ∃ stage ∈ p.stages, text ∈ stage.words := by
  obtain ⟨stages, redirect⟩ := p
  rcases List.eq_nil_or_concat stages with rfl | ⟨front, last, rfl⟩
  · exact ⟨[], [], rfl, fun text => by simp⟩
  · refine ⟨front, last.words, by rw [List.concat_eq_append, tokens_concat], fun text => ?_⟩
    simp [or_and_right, exists_or]

/-- A pipeline is written with its words and with the target of its redirection. -/
theorem quotable_iff : p.Quotable ↔ ∀ text, .word text ∈ p.tokens → '"' ∉ text := by
  obtain ⟨front, words, htokens, hwords⟩ := p.exists_openTokens
  have hmem (text : Text) : .word text ∈ p.tokens ↔
      (∃ stage ∈ p.stages, text ∈ stage.words)
        ∨ ∃ redirect ∈ p.redirect, redirect.target = text := by
    rw [htokens, List.mem_append, word_mem_openTokens, hwords]
    cases p.redirect with
    | none => simp
    | some redirect => simp [Redirect.tokens, eq_comm]
  simp only [hmem]
  constructor
  · rintro ⟨hword, htarget⟩ text (⟨stage, hstage, htext⟩ | ⟨redirect, hredirect, rfl⟩)
    · exact hword stage hstage text htext
    · exact htarget redirect hredirect
  · intro h
    exact ⟨fun stage hstage text htext => h text (.inl ⟨stage, hstage, htext⟩),
      fun redirect hredirect => h _ (.inr ⟨redirect, hredirect, rfl⟩)⟩

/-- Behind an operator of redirection stands its target. -/
theorem isChain_apart_tokens (p : Pipeline) : p.tokens.IsChain Token.Apart := by
  obtain ⟨front, words, htokens, -⟩ := p.exists_openTokens
  rw [htokens, List.isChain_append]
  refine ⟨List.Pairwise.isChain (List.pairwise_of_forall_mem_list ?_), ?_, ?_⟩
  · exact fun token htoken next hnext _ => ne_redirect_of_mem_openTokens hnext
  · cases p.redirect with
    | none => exact .nil
    | some redirect =>
      refine .cons_cons (fun _ mode => ?_) (.singleton _)
      exact Token.noConfusion
  · rintro token htoken next hnext rfl
    exact absurd rfl (ne_redirect_of_mem_openTokens (List.mem_of_mem_getLast? htoken) .truncate)

/-- **A pipeline is read as it was written.** However long the gaps are, the line of a pipeline is
read as that pipeline exactly if it has one to four stages of one to eight words, the target of its
redirection has characters, and there is no quote in any word. Words may be empty, and have blanks,
bars, operators and any other characters in them. -/
theorem ofText_written_iff (hgaps : ∀ k, ∀ c ∈ gaps k, Token.isSeparator c = true) :
    ofText (p.written gaps) = .ok (some p) ↔ p.WithinLimits ∧ p.Quotable := by
  rw [ofText_eq_ok_some_iff, quotable_iff]
  constructor
  · rintro ⟨hlexed, hp⟩
    exact ⟨hp, fun text => hlexed.quote_not_mem⟩
  · rintro ⟨hp, hquotes⟩
    exact ⟨Token.lexed_spaced hgaps hquotes p.isChain_apart_tokens, hp⟩

/-- Words with a blank and a bar, without characters, and with an operator in them, two of which
touch. -/
theorem ofText_written_iff_touching :
    let gaps : ℕ → Text := fun k => if k % 2 = 0 then [] else [' ', '\t']
    let p : Pipeline := ⟨[⟨['é', ' ', '|'], [[], ['>']]⟩, ⟨['b'], []⟩], some ⟨.append, ['x', ' ']⟩⟩
    (∀ k, ∀ c ∈ gaps k, Token.isSeparator c = true)
      ∧ p.written gaps = "\"é |\" \t\"\"\">\" \t|\"b\" \t>>\"x \" \t".toList
      ∧ ofText (p.written gaps) = .ok (some p) := by
  intro gaps p
  have hgaps : ∀ k, ∀ c ∈ gaps k, Token.isSeparator c = true := by
    intro k
    show ∀ c ∈ if k % 2 = 0 then [] else [' ', '\t'], Token.isSeparator c = true
    split
    · exact List.forall_mem_nil _
    · rw [List.forall_mem_cons, List.forall_mem_singleton]
      exact ⟨rfl, rfl⟩
  exact ⟨hgaps, by rfl, (ofText_written_iff hgaps).mpr
    ⟨⟨by decide, by decide, by decide, by decide⟩, ⟨by decide, by decide⟩⟩⟩

end Pipeline

end PocketKernel
