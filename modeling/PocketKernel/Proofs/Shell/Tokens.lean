import Mathlib.Algebra.Ring.Parity
import Mathlib.Data.List.TakeWhile
import PocketKernel.Shell.Pipeline

/-!
# The tokens of a command line

What the tokens of a line are is said by a relation, and the reader is shown to compute it. The two
have little in common: the relation takes a line apart into pieces that fit together, while the
reader goes through it from left to right.

A line that is not empty starts with a separator, an operator, a quoted stretch, the longest stretch
of word characters that stands there, or a quote without a partner. `Token.line_induction` follows
these cases, and all that is proved about lines goes by it.

## Main definitions

* `Token.Lexed`: some tokens are the tokens of a line.

## Main results

* `Token.line_induction`: induction along the pieces of a line.
* `Token.ofText_eq_ok_iff`: the reader returns the tokens of a line.
* `Token.ofText_eq_error_iff`: it refuses the lines with an odd number of quotes.
* `Token.exists_lexed_iff`: the other lines are those that have tokens.
* `Token.Lexed.isInfix_of_mem`: every word is a stretch of the line.
-/

namespace PocketKernel.Token

variable {c : Char} {line run inner rest : Text} {tokens : List Token}

/-- These are the tokens of a line. -/
inductive Lexed : Text → List Token → Prop where
  | nil : Lexed [] []
  | separator {c : Char} {rest : Text} {tokens : List Token} (hc : isSeparator c = true)
      (hrest : Lexed rest tokens) : Lexed (c :: rest) tokens
  | bar {rest : Text} {tokens : List Token} (hrest : Lexed rest tokens) :
      Lexed ('|' :: rest) (.bar :: tokens)
  | append {rest : Text} {tokens : List Token} (hrest : Lexed rest tokens) :
      Lexed ('>' :: '>' :: rest) (.redirect .append :: tokens)
  | truncate {rest : Text} {tokens : List Token} (hhead : rest.head? ≠ some '>')
      (hrest : Lexed rest tokens) : Lexed ('>' :: rest) (.redirect .truncate :: tokens)
  /-- A quoted stretch, without its quotes. -/
  | quoted {inner rest : Text} {tokens : List Token} (hinner : '"' ∉ inner)
      (hrest : Lexed rest tokens) : Lexed ('"' :: (inner ++ '"' :: rest)) (.word inner :: tokens)
  /-- A stretch of word characters that does not go on. -/
  | plain {run rest : Text} {tokens : List Token} (hne : run ≠ [])
      (hrun : ∀ c ∈ run, isWordChar c = true) (hhead : ∀ c ∈ rest.head?, isWordChar c = false)
      (hrest : Lexed rest tokens) : Lexed (run ++ rest) (.word run :: tokens)

/-! ### Induction along a line -/

theorem isWordChar_iff :
    isWordChar c = true ↔ isSeparator c = false ∧ c ≠ '|' ∧ c ≠ '>' ∧ c ≠ '"' := by
  simp only [isWordChar, Bool.and_eq_true, Bool.not_eq_true', decide_eq_true_eq, and_assoc]

theorem eq_append_of_quote_mem (h : '"' ∈ rest) :
    ∃ inner after, '"' ∉ inner ∧ rest = inner ++ '"' :: after := by
  obtain ⟨inner, after, heq, hinner⟩ := List.eq_append_cons_of_mem h
  exact ⟨inner, after, hinner, heq⟩

/-- The longest stretch of word characters, and what is behind it. -/
theorem eq_append_of_isWordChar (hc : isWordChar c = true) (rest : Text) :
    ∃ run after, c :: rest = run ++ after ∧ run ≠ [] ∧ (∀ c ∈ run, isWordChar c = true)
      ∧ ∀ c ∈ after.head?, isWordChar c = false := by
  refine ⟨(c :: rest).takeWhile isWordChar, (c :: rest).dropWhile isWordChar,
    List.takeWhile_append_dropWhile.symm, ?_, fun _ => List.mem_takeWhile_imp, fun next h => ?_⟩
  · rw [List.takeWhile_cons_of_pos hc]
    exact List.cons_ne_nil _ _
  · have := List.head?_dropWhile_not isWordChar (c :: rest)
    rw [h] at this
    exact this

/-- Induction along the pieces of a line. -/
@[elab_as_elim]
theorem line_induction {motive : Text → Prop} (nil : motive [])
    (separator : ∀ c rest, isSeparator c = true → motive rest → motive (c :: rest))
    (bar : ∀ rest, motive rest → motive ('|' :: rest))
    (append : ∀ rest, motive rest → motive ('>' :: '>' :: rest))
    (truncate : ∀ rest, rest.head? ≠ some '>' → motive rest → motive ('>' :: rest))
    (unterminated : ∀ rest, '"' ∉ rest → motive ('"' :: rest))
    (quoted : ∀ inner rest, '"' ∉ inner → motive rest → motive ('"' :: (inner ++ '"' :: rest)))
    (plain : ∀ run rest, run ≠ [] → (∀ c ∈ run, isWordChar c = true) →
      (∀ c ∈ rest.head?, isWordChar c = false) → motive rest → motive (run ++ rest))
    (line : Text) : motive line := by
  induction hlength : line.length using Nat.strong_induction_on generalizing line with
  | _ length ih =>
    subst hlength
    cases line with
    | nil => exact nil
    | cons c rest =>
      by_cases hseparator : isSeparator c = true
      · exact separator c rest hseparator (ih _ (Nat.lt_succ_self _) rest rfl)
      by_cases hbar : c = '|'
      · exact hbar ▸ bar rest (ih _ (Nat.lt_succ_self _) rest rfl)
      by_cases hredirect : c = '>'
      · subst hredirect
        by_cases hhead : rest.head? = some '>'
        · obtain ⟨after, rfl⟩ := List.head?_eq_some_iff.mp hhead
          exact append after (ih _ (by simp only [List.length_cons]; omega) after rfl)
        · exact truncate rest hhead (ih _ (Nat.lt_succ_self _) rest rfl)
      by_cases hquote : c = '"'
      · subst hquote
        by_cases hmem : '"' ∈ rest
        · obtain ⟨inner, after, hinner, rfl⟩ := eq_append_of_quote_mem hmem
          refine quoted inner after hinner (ih _ ?_ after rfl)
          simp only [List.length_cons, List.length_append]
          omega
        · exact unterminated rest hmem
      have hword : isWordChar c = true :=
        isWordChar_iff.mpr ⟨Bool.eq_false_iff.mpr hseparator, hbar, hredirect, hquote⟩
      obtain ⟨run, after, heq, hne, hrun, hhead⟩ := eq_append_of_isWordChar hword rest
      rw [heq] at ih ⊢
      refine plain run after hne hrun hhead (ih _ ?_ after rfl)
      rw [List.length_append]
      exact Nat.lt_add_of_pos_left (List.length_pos_iff.mpr hne)

/-! ### What the reader does with a piece -/

theorem ofText_nil : ofText [] = .ok [] := by
  rw [ofText]

theorem ofText_separator (hc : isSeparator c = true) (rest : Text) :
    ofText (c :: rest) = ofText rest := by
  rw [ofText.eq_def]
  exact if_pos hc

theorem ofText_bar (rest : Text) : ofText ('|' :: rest) = (ofText rest).map (.bar :: ·) := by
  rw [ofText.eq_def]
  rfl

theorem ofText_append (rest : Text) :
    ofText ('>' :: '>' :: rest) = (ofText rest).map (.redirect .append :: ·) := by
  rw [ofText.eq_def]
  rfl

theorem ofText_truncate (hhead : rest.head? ≠ some '>') :
    ofText ('>' :: rest) = (ofText rest).map (.redirect .truncate :: ·) := by
  rw [ofText.eq_def]
  dsimp only
  rw [if_neg (by decide), if_neg (by decide), if_pos rfl]
  split
  next => exact absurd rfl hhead
  next => rfl

/-- A quoted stretch ends at the next quote. -/
theorem dropWhile_ne_quote (hinner : '"' ∉ inner) (rest : Text) :
    (inner ++ rest).dropWhile (· ≠ '"') = rest.dropWhile (· ≠ '"') :=
  List.dropWhile_append_of_pos fun _ hc => decide_eq_true (ne_of_mem_of_not_mem hc hinner)

theorem takeWhile_ne_quote (hinner : '"' ∉ inner) (rest : Text) :
    (inner ++ '"' :: rest).takeWhile (· ≠ '"') = inner := by
  rw [List.takeWhile_append_of_pos
      fun _ hc => decide_eq_true (ne_of_mem_of_not_mem hc hinner),
    List.takeWhile_cons_of_neg (by decide), List.append_nil]

theorem ofText_unterminated (hrest : '"' ∉ rest) :
    ofText ('"' :: rest) = .error .unterminatedQuote := by
  rw [ofText.eq_def]
  dsimp only
  rw [if_neg (by decide), if_neg (by decide), if_neg (by decide), if_pos rfl]
  split
  next => rfl
  next head after hafter =>
    have hnil := dropWhile_ne_quote hrest []
    rw [List.append_nil, hafter] at hnil
    cases hnil

theorem ofText_quoted (hinner : '"' ∉ inner) (rest : Text) :
    ofText ('"' :: (inner ++ '"' :: rest)) = (ofText rest).map (.word inner :: ·) := by
  rw [ofText.eq_def]
  dsimp only
  rw [if_neg (by decide), if_neg (by decide), if_neg (by decide), if_pos rfl]
  have hdrop : (inner ++ '"' :: rest).dropWhile (· ≠ '"') = '"' :: rest := by
    rw [dropWhile_ne_quote hinner, List.dropWhile_cons_of_neg (by decide)]
  split
  next hafter => cases hdrop.symm.trans hafter
  next head after hafter =>
    obtain ⟨-, rfl⟩ := List.cons.inj (hdrop.symm.trans hafter)
    rw [takeWhile_ne_quote hinner]

/-- A stretch of word characters ends where no word character stands. -/
theorem takeWhile_isWordChar (hrun : ∀ c ∈ run, isWordChar c = true)
    (hhead : ∀ c ∈ rest.head?, isWordChar c = false) :
    (run ++ rest).takeWhile isWordChar = run ∧ (run ++ rest).dropWhile isWordChar = rest := by
  rw [List.takeWhile_append_of_pos hrun, List.dropWhile_append_of_pos hrun]
  cases rest with
  | nil => exact ⟨List.append_nil run, rfl⟩
  | cons c rest =>
    have hc : ¬ isWordChar c = true := Bool.eq_false_iff.mp (hhead c rfl)
    rw [List.takeWhile_cons_of_neg hc, List.dropWhile_cons_of_neg hc]
    exact ⟨List.append_nil run, rfl⟩

theorem ofText_plain (hne : run ≠ []) (hrun : ∀ c ∈ run, isWordChar c = true)
    (hhead : ∀ c ∈ rest.head?, isWordChar c = false) :
    ofText (run ++ rest) = (ofText rest).map (.word run :: ·) := by
  obtain ⟨c, run, rfl⟩ := List.exists_cons_of_ne_nil hne
  have htail := takeWhile_isWordChar (fun _ h => hrun _ (List.mem_cons_of_mem _ h)) hhead
  obtain ⟨hseparator, hbar, hredirect, hquote⟩ := isWordChar_iff.mp (hrun c List.mem_cons_self)
  rw [ofText.eq_def]
  simp only [List.cons_append]
  rw [if_neg (Bool.eq_false_iff.mp hseparator), if_neg hbar, if_neg hredirect, if_neg hquote,
    htail.1, htail.2]

/-! ### The reader and the relation -/

theorem ofText_of_lexed (h : Lexed line tokens) : ofText line = .ok tokens := by
  induction h with
  | nil => exact ofText_nil
  | separator hc hrest ih => rw [ofText_separator hc, ih]
  | bar hrest ih => rw [ofText_bar, ih]; rfl
  | append hrest ih => rw [ofText_append, ih]; rfl
  | truncate hhead hrest ih => rw [ofText_truncate hhead, ih]; rfl
  | quoted hinner hrest ih => rw [ofText_quoted hinner, ih]; rfl
  | plain hne hrun hhead hrest ih => rw [ofText_plain hne hrun hhead, ih]; rfl

/-- What it takes to return tokens behind another one. -/
theorem of_map_cons_eq_ok {token : Token} {result : Except LineError (List Token)}
    (h : result.map (token :: ·) = .ok tokens) :
    ∃ tail, result = .ok tail ∧ tokens = token :: tail := by
  cases result with
  | error cause => cases h
  | ok tail => exact ⟨tail, rfl, (Except.ok.inj h).symm⟩

theorem lexed_of_ofText (h : ofText line = .ok tokens) : Lexed line tokens := by
  induction line using line_induction generalizing tokens with
  | nil =>
    rw [ofText_nil] at h
    cases h
    exact .nil
  | separator c rest hc ih =>
    rw [ofText_separator hc] at h
    exact .separator hc (ih h)
  | bar rest ih =>
    rw [ofText_bar] at h
    obtain ⟨tail, hrest, rfl⟩ := of_map_cons_eq_ok h
    exact .bar (ih hrest)
  | append rest ih =>
    rw [ofText_append] at h
    obtain ⟨tail, hrest, rfl⟩ := of_map_cons_eq_ok h
    exact .append (ih hrest)
  | truncate rest hhead ih =>
    rw [ofText_truncate hhead] at h
    obtain ⟨tail, hrest, rfl⟩ := of_map_cons_eq_ok h
    exact .truncate hhead (ih hrest)
  | unterminated rest hrest =>
    rw [ofText_unterminated hrest] at h
    cases h
  | quoted inner rest hinner ih =>
    rw [ofText_quoted hinner] at h
    obtain ⟨tail, hrest, rfl⟩ := of_map_cons_eq_ok h
    exact .quoted hinner (ih hrest)
  | plain run rest hne hrun hhead ih =>
    rw [ofText_plain hne hrun hhead] at h
    obtain ⟨tail, hrest, rfl⟩ := of_map_cons_eq_ok h
    exact .plain hne hrun hhead (ih hrest)

/-- **The reader returns the tokens of a line.** -/
theorem ofText_eq_ok_iff : ofText line = .ok tokens ↔ Lexed line tokens :=
  ⟨lexed_of_ofText, ofText_of_lexed⟩

theorem map_eq_error_iff {cause : LineError} {token : Token}
    {result : Except LineError (List Token)} :
    result.map (token :: ·) = .error cause ↔ result = .error cause := by
  cases result with
  | error cause' => exact Iff.rfl
  | ok tail => exact ⟨(nomatch ·), (nomatch ·)⟩

theorem count_quote_eq_zero (hrun : ∀ c ∈ run, isWordChar c = true) : run.count '"' = 0 :=
  List.count_eq_zero.mpr fun h => (isWordChar_iff.mp (hrun _ h)).2.2.2 rfl

/-- **The reader refuses the lines with an odd number of quotes**, and no others. -/
theorem ofText_eq_error_iff {cause : LineError} :
    ofText line = .error cause ↔ cause = .unterminatedQuote ∧ Odd (line.count '"') := by
  induction line using line_induction with
  | nil =>
    rw [ofText_nil]
    exact ⟨(nomatch ·), fun h => absurd h.2 (by decide)⟩
  | separator c rest hc ih =>
    have hquote : c ≠ '"' := by
      rintro rfl
      cases hc
    rw [ofText_separator hc, ih, List.count_cons_of_ne hquote]
  | bar rest ih => rw [ofText_bar, map_eq_error_iff, ih, List.count_cons_of_ne (by decide)]
  | append rest ih =>
    rw [ofText_append, map_eq_error_iff, ih, List.count_cons_of_ne (by decide),
      List.count_cons_of_ne (by decide)]
  | truncate rest hhead ih =>
    rw [ofText_truncate hhead, map_eq_error_iff, ih, List.count_cons_of_ne (by decide)]
  | unterminated rest hrest =>
    rw [ofText_unterminated hrest, List.count_cons_self, List.count_eq_zero.mpr hrest,
      Except.error.injEq, eq_comm]
    exact (and_iff_left odd_one).symm
  | quoted inner rest hinner ih =>
    have hcount : ('"' :: (inner ++ '"' :: rest)).count '"' = rest.count '"' + 2 := by
      rw [List.count_cons_self, List.count_append, List.count_eq_zero.mpr hinner,
        List.count_cons_self, Nat.zero_add]
    rw [ofText_quoted hinner, map_eq_error_iff, ih, hcount, Nat.odd_add,
      iff_true_right even_two]
  | plain run rest hne hrun hhead ih =>
    rw [ofText_plain hne hrun hhead, map_eq_error_iff, ih, List.count_append,
      count_quote_eq_zero hrun, Nat.zero_add]

/-- A line has tokens if every quote has a partner. -/
theorem exists_lexed_iff : (∃ tokens, Lexed line tokens) ↔ Even (line.count '"') := by
  rw [← Nat.not_odd_iff_even]
  constructor
  · rintro ⟨tokens, h⟩ hodd
    cases (ofText_of_lexed h).symm.trans (ofText_eq_error_iff.mpr ⟨rfl, hodd⟩)
  · intro hodd
    cases htokens : ofText line with
    | error cause => exact absurd (ofText_eq_error_iff.mp htokens).2 hodd
    | ok tokens => exact ⟨tokens, lexed_of_ofText htokens⟩

/-- **Every word is a stretch of the line.** -/
theorem Lexed.isInfix_of_mem (h : Lexed line tokens) {text : Text} (hword : .word text ∈ tokens) :
    text <:+: line := by
  induction h with
  | nil => cases hword
  | separator hc hrest ih => exact (ih hword).trans (List.suffix_cons _ _).isInfix
  | bar hrest ih =>
    have htail := List.mem_of_ne_of_mem Token.noConfusion hword
    exact (ih htail).trans (List.suffix_cons _ _).isInfix
  | append hrest ih =>
    have htail := List.mem_of_ne_of_mem Token.noConfusion hword
    exact (ih htail).trans ⟨['>', '>'], [], List.append_nil _⟩
  | truncate hhead hrest ih =>
    have htail := List.mem_of_ne_of_mem Token.noConfusion hword
    exact (ih htail).trans (List.suffix_cons _ _).isInfix
  | @quoted inner rest tokens hinner hrest ih =>
    rcases List.mem_cons.mp hword with hhead | htail
    · cases hhead
      exact ⟨['"'], '"' :: rest, rfl⟩
    · exact (ih htail).trans ⟨'"' :: inner ++ ['"'], [], by simp⟩
  | plain hne hrun hhead hrest ih =>
    rcases List.mem_cons.mp hword with hhead | htail
    · cases hhead
      exact (List.prefix_append _ _).isInfix
    · exact (ih htail).trans (List.suffix_append _ _).isInfix

end PocketKernel.Token
