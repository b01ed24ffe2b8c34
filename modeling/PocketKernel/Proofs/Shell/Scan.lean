import PocketKernel.Proofs.Shell.Tokens
import PocketKernel.Proofs.Text.Slices

/-!
# Reading a command line byte by byte

All characters that mean something in a command line are ASCII. So its tokens can be found by looking
at the bytes alone, with words marked by the position at which they begin and their length. Such a
reader never needs to know where characters begin, but the stretches that it marks have to begin and
end between characters when they are cut out. They always do, and what is cut out are the tokens of
the line.

## Main definitions

* `Token.Mark`, `Token.Mark.token?`: a token as it is found among bytes.
* `Token.scan`: find the tokens among the bytes of a line.

## Main results

* `Token.scan_utf8`: every word can be cut out of the line, and the tokens are those of the line.
-/

namespace PocketKernel.Token

/-- A token as it is found among the bytes of a line: of a word, only where it begins and its length
are known. -/
inductive Mark where
  | word (start length : Nat)
  | bar
  | redirect (mode : RedirectMode)
deriving DecidableEq, Repr

/-- The token that is marked in a line; `none` if a word does not begin and end between
characters. -/
def Mark.token? (line : Text) : Mark → Option Token
  | word start length => (line.slice? start length).map .word
  | bar => some .bar
  | redirect mode => some (.redirect mode)

/-- Find the tokens among bytes, the first of which stands at a position of the line. -/
def scan (position : Nat) : List UInt8 → Except LineError (List Mark)
  | [] => .ok []
  | b :: rest =>
    if isSeparator (Char.ofUInt8 b) then scan (position + 1) rest
    else if Char.ofUInt8 b = '|' then (scan (position + 1) rest).map (.bar :: ·)
    else if Char.ofUInt8 b = '>' then
      if rest.head?.any (Char.ofUInt8 · = '>') then
        (scan (position + 2) rest.tail).map (.redirect .append :: ·)
      else
        (scan (position + 1) rest).map (.redirect .truncate :: ·)
    else if Char.ofUInt8 b = '"' then
      match rest.findIdx? (Char.ofUInt8 · = '"') with
      | none => .error .unterminatedQuote
      | some length =>
        (scan (position + 1 + length + 1) (rest.drop (length + 1))).map
          (.word (position + 1) length :: ·)
    else
      let length := (rest.takeWhile fun b => isWordChar (Char.ofUInt8 b)).length
      (scan (position + 1 + length) (rest.drop length)).map (.word position (1 + length) :: ·)
termination_by bytes => bytes.length
decreasing_by all_goals (simp only [List.length_cons, List.length_tail, List.length_drop]; omega)

/-- Marks and tokens are the same up to cutting out the words. -/
def Agrees (line : Text) (marks : Except LineError (List Mark))
    (tokens : Except LineError (List Token)) : Prop :=
  marks.map (·.mapM (Mark.token? line)) = tokens.map some

variable {line run inner rest : Text}

theorem Agrees.cons {marks : Except LineError (List Mark)} {tokens : Except LineError (List Token)}
    (h : Agrees line marks tokens) {mark : Mark} {token : Token}
    (hmark : mark.token? line = some token) :
    Agrees line (marks.map (mark :: ·)) (tokens.map (token :: ·)) := by
  cases marks with
  | error cause =>
    cases tokens with
    | error cause' => exact h
    | ok tokens => cases h
  | ok marks =>
    cases tokens with
    | error cause' => cases h
    | ok tokens =>
      have hmarks : marks.mapM (Mark.token? line) = some tokens := Except.ok.inj h
      show Except.ok ((mark :: marks).mapM _) = _
      rw [List.mapM_cons, hmark, hmarks]
      rfl

/-! ### What is found of a piece -/

theorem bytewise_isSeparator : Text.Bytewise isSeparator := by
  intro c b h
  simp only [isSeparator, Text.ofUInt8_eq_iff (d := ' ') (by decide) h,
    Text.ofUInt8_eq_iff (d := '\t') (by decide) h]

theorem bytewise_isWordChar : Text.Bytewise isWordChar := by
  intro c b h
  simp only [isWordChar, bytewise_isSeparator c b h, ne_eq,
    Text.ofUInt8_eq_iff (d := '|') (by decide) h, Text.ofUInt8_eq_iff (d := '>') (by decide) h,
    Text.ofUInt8_eq_iff (d := '"') (by decide) h]

theorem scan_nil (position : Nat) : scan position (Text.utf8 []) = .ok [] := by
  rw [Text.utf8_nil, scan]

theorem scan_separator {c : Char} (hc : isSeparator c = true) (position : Nat) (rest : Text) :
    scan position (Text.utf8 (c :: rest)) = scan (position + c.utf8Size) (Text.utf8 rest) := by
  obtain rfl | rfl : c = ' ' ∨ c = '\t' := by
    simpa only [isSeparator, Bool.or_eq_true, decide_eq_true_eq] using hc
  all_goals
    show scan position (_ :: Text.utf8 rest) = _
    rw [scan, if_pos (by decide)]
    rfl

theorem scan_bar (position : Nat) (rest : Text) :
    scan position (Text.utf8 ('|' :: rest))
      = (scan (position + 1) (Text.utf8 rest)).map (.bar :: ·) := by
  show scan position (124 :: Text.utf8 rest) = _
  rw [scan, if_neg (by decide), if_pos (by decide)]

theorem scan_append (position : Nat) (rest : Text) :
    scan position (Text.utf8 ('>' :: '>' :: rest))
      = (scan (position + 2) (Text.utf8 rest)).map (.redirect .append :: ·) := by
  show scan position (62 :: 62 :: Text.utf8 rest) = _
  rw [scan, if_neg (by decide), if_neg (by decide), if_pos (by decide)]
  exact if_pos rfl

theorem scan_truncate (hhead : rest.head? ≠ some '>') (position : Nat) :
    scan position (Text.utf8 ('>' :: rest))
      = (scan (position + 1) (Text.utf8 rest)).map (.redirect .truncate :: ·) := by
  have hnext : ¬ (Text.utf8 rest).head?.any (Char.ofUInt8 · = '>') = true := by
    rw [Text.any_head?_utf8 (Text.bytewise_eq (by decide))]
    intro h
    obtain ⟨c, hc, heq⟩ := (Option.any_eq_true ..).mp h
    exact hhead (hc.trans (congrArg some (of_decide_eq_true heq)))
  show scan position (62 :: Text.utf8 rest) = _
  rw [scan, if_neg (by decide), if_neg (by decide), if_pos (by decide), if_neg hnext]

theorem scan_unterminated (hrest : '"' ∉ rest) (position : Nat) :
    scan position (Text.utf8 ('"' :: rest)) = .error .unterminatedQuote := by
  show scan position (34 :: Text.utf8 rest) = _
  rw [scan, if_neg (by decide), if_neg (by decide), if_neg (by decide), if_pos (by decide),
    Text.findIdx?_utf8_eq_none (by decide) hrest]

theorem scan_quoted (hinner : '"' ∉ inner) (position : Nat) (rest : Text) :
    scan position (Text.utf8 ('"' :: (inner ++ '"' :: rest)))
      = (scan (position + 1 + Text.utf8Size inner + 1) (Text.utf8 rest)).map
          (.word (position + 1) (Text.utf8Size inner) :: ·) := by
  have hdrop : (Text.utf8 (inner ++ '"' :: rest)).drop (Text.utf8Size inner + 1)
      = Text.utf8 rest := by
    rw [← List.drop_drop, Text.drop_utf8]
    rfl
  show scan position (34 :: Text.utf8 (inner ++ '"' :: rest)) = _
  rw [scan, if_neg (by decide), if_neg (by decide), if_neg (by decide), if_pos (by decide),
    Text.findIdx?_utf8 (by decide) hinner]
  simp only [hdrop]

theorem scan_plain (hne : run ≠ []) (hrun : ∀ c ∈ run, isWordChar c = true)
    (hhead : ∀ c ∈ rest.head?, isWordChar c = false) (position : Nat) :
    scan position (Text.utf8 (run ++ rest))
      = (scan (position + Text.utf8Size run) (Text.utf8 rest)).map
          (.word position (Text.utf8Size run) :: ·) := by
  obtain ⟨b, others, hutf8, hb, hlength, hdrop⟩ := Text.exists_cons_utf8_append
    bytewise_isWordChar hne hrun (takeWhile_isWordChar hrun hhead).1
  obtain ⟨hseparator, hbar, hredirect, hquote⟩ := isWordChar_iff.mp hb
  rw [hutf8, scan, if_neg (Bool.eq_false_iff.mp hseparator), if_neg hbar, if_neg hredirect,
    if_neg hquote]
  simp only [hdrop, Nat.add_assoc, hlength]

/-! ### Reading a line -/

/-- The tokens of the rest of a line are found, whatever stands before it. -/
def Found (rest : Text) : Prop :=
  ∀ before, Agrees (before ++ rest) (scan (Text.utf8Size before) (Text.utf8 rest)) (ofText rest)

theorem Found.behind (h : Found rest) (before piece : Text) :
    Agrees (before ++ (piece ++ rest))
      (scan (Text.utf8Size before + Text.utf8Size piece) (Text.utf8 rest)) (ofText rest) := by
  rw [← List.append_assoc, ← Text.utf8Size_append]
  exact h (before ++ piece)

theorem found (rest : Text) : Found rest := by
  intro before
  induction rest using line_induction generalizing before with
  | nil =>
    rw [scan_nil, ofText_nil]
    rfl
  | separator c rest hc ih =>
    rw [scan_separator hc, ofText_separator hc]
    exact Found.behind ih before [c]
  | bar rest ih =>
    rw [scan_bar, ofText_bar]
    exact (Found.behind ih before ['|']).cons rfl
  | append rest ih =>
    rw [scan_append, ofText_append]
    exact (Found.behind ih before ['>', '>']).cons rfl
  | truncate rest hhead ih =>
    rw [scan_truncate hhead, ofText_truncate hhead]
    exact (Found.behind ih before ['>']).cons rfl
  | unterminated rest hrest =>
    rw [scan_unterminated hrest, ofText_unterminated hrest]
    rfl
  | quoted inner rest hinner ih =>
    have hstart : Text.utf8Size (before ++ ['"']) = Text.utf8Size before + 1 :=
      Text.utf8Size_append ..
    have hrest := Found.behind ih (before ++ ['"']) (inner ++ ['"'])
    rw [Text.utf8Size_append inner, hstart, List.append_assoc inner, List.singleton_append] at hrest
    rw [scan_quoted hinner, ofText_quoted hinner, List.append_cons]
    refine hrest.cons ?_
    rw [Mark.token?, ← hstart, Text.slice?_append]
    rfl
  | plain run rest hne hrun hhead ih =>
    rw [scan_plain hne hrun hhead, ofText_plain hne hrun hhead]
    refine (Found.behind ih before run).cons ?_
    rw [Mark.token?, Text.slice?_append]
    rfl

/-- **Reading byte by byte finds the tokens of a line**, and every word can be cut out of it. -/
theorem scan_utf8 (line : Text) :
    (scan 0 (Text.utf8 line)).map (·.mapM (Mark.token? line)) = (ofText line).map some :=
  found line []

end PocketKernel.Token
