import PocketKernel.Text.Boundary
import PocketKernel.Text.Printable

/-!
# Bytes and characters of a text

A program may read a text byte by byte, look for a few ASCII characters, and cut out what is between
them. This is as good as reading it character by character: an ASCII byte is never part of another
character, so looking finds the same places, and all of them are between two characters.

## Main definitions

* `Text.slice?`: cut a stretch of bytes out of a text.
* `Text.Bytewise`: a test of characters tells the same of their bytes.

## Main results

* `Text.ofUInt8_eq_iff`: an ASCII byte stands for nothing but its character.
* `Text.takeWhile_utf8`, `Text.findIdx?_utf8`: what is found among the bytes.
* `Text.slice?_append`: a stretch between two characters can be cut out.
* `Text.utf8Size_eq_length`: printable characters are one byte each.
-/

namespace PocketKernel.Text

variable {b : UInt8} {c d : Char} {text inner : Text} {test : Char → Bool}

/-- Cut out a stretch of bytes; `none` if it does not begin and end between characters. -/
def slice? (text : Text) (start length : Nat) : Option Text :=
  (text.splitAtByte? start).bind fun (_, rest) => (rest.splitAtByte? length).map Prod.fst

theorem slice?_append (before inner after : Text) :
    slice? (before ++ (inner ++ after)) (utf8Size before) (utf8Size inner) = some inner := by
  rw [slice?, splitAtByte?_append, Option.bind_some]
  show ((inner ++ after).splitAtByte? (utf8Size inner)).map Prod.fst = some inner
  rw [splitAtByte?_append, Option.map_some]

/-- Texts with the same bytes are the same. -/
theorem utf8_injective : Function.Injective utf8 := by
  intro text text' h
  have hencoded : text.utf8Encode = text'.utf8Encode := congrArg List.toByteArray h
  have hdecoded := congrArg ByteArray.utf8Decode? hencoded
  rw [List.utf8Decode?_utf8Encode, List.utf8Decode?_utf8Encode, Option.some_inj] at hdecoded
  exact congrArg Array.toList hdecoded

theorem mem_utf8 : b ∈ utf8 text ↔ ∃ c ∈ text, b ∈ String.utf8EncodeChar c :=
  List.mem_flatMap

/-- The only byte of an ASCII character is its number; the bytes of the other ones are greater. -/
theorem toNat_of_mem_utf8EncodeChar (h : b ∈ String.utf8EncodeChar c) :
    b.toNat = c.toNat ∨ 128 ≤ b.toNat ∧ 128 ≤ c.toNat := by
  have hbyte (n : Nat) : (UInt8.ofNat n).toNat = n % 256 := UInt8.toNat_ofNat'
  rw [← Char.toNat_val]
  rw [String.utf8EncodeChar] at h
  split at h
  next =>
    obtain rfl := List.mem_singleton.mp h
    rw [hbyte]
    omega
  next hlarge =>
    refine .inr ⟨?_, by omega⟩
    split at h
    next =>
      simp only [List.mem_cons, List.not_mem_nil, or_false] at h
      rcases h with rfl | rfl <;> rw [hbyte] <;> omega
    next =>
      split at h
      next =>
        simp only [List.mem_cons, List.not_mem_nil, or_false] at h
        rcases h with rfl | rfl | rfl <;> rw [hbyte] <;> omega
      next =>
        simp only [List.mem_cons, List.not_mem_nil, or_false] at h
        rcases h with rfl | rfl | rfl | rfl <;> rw [hbyte] <;> omega

/-- **An ASCII byte stands for nothing but its character.** -/
theorem ofUInt8_eq_iff (hd : d.toNat < 128) (h : b ∈ String.utf8EncodeChar c) :
    Char.ofUInt8 b = d ↔ c = d := by
  have hb : (Char.ofUInt8 b).toNat = b.toNat := rfl
  rw [← Char.toNat_inj, ← Char.toNat_inj, hb]
  rcases toNat_of_mem_utf8EncodeChar h with heq | hlarge
  · rw [heq]
  · omega

theorem exists_cons_utf8EncodeChar (c : Char) :
    ∃ b bytes, String.utf8EncodeChar c = b :: bytes :=
  List.exists_cons_of_length_pos ((String.length_utf8EncodeChar c).symm ▸ c.utf8Size_pos)

/-- The test says the same of a character and of its bytes. -/
def Bytewise (test : Char → Bool) : Prop :=
  ∀ c, ∀ b ∈ String.utf8EncodeChar c, test (Char.ofUInt8 b) = test c

/-- Asking for an ASCII character goes byte by byte. -/
theorem bytewise_eq (hd : d.toNat < 128) : Bytewise (· = d) :=
  fun _ _ h => decide_eq_decide.mpr (ofUInt8_eq_iff hd h)

/-- The bytes up to the first one that fails a test are those of the characters up to there. -/
theorem takeWhile_utf8 (htest : Bytewise test) (text : Text) :
    (utf8 text).takeWhile (fun b => test (Char.ofUInt8 b)) = utf8 (text.takeWhile test) := by
  induction text with
  | nil => rfl
  | cons c text ih =>
    rw [utf8_cons]
    by_cases hc : test c = true
    · rw [List.takeWhile_append_of_pos fun b h => (htest c b h).trans hc, ih,
        List.takeWhile_cons_of_pos hc, utf8_cons]
    · obtain ⟨b, bytes, hbytes⟩ := exists_cons_utf8EncodeChar c
      have hb : ¬ test (Char.ofUInt8 b) = true := by
        rwa [htest c b (hbytes ▸ List.mem_cons_self)]
      rw [List.takeWhile_cons_of_neg hc, hbytes, List.cons_append,
        List.takeWhile_cons_of_neg (p := fun b => test (Char.ofUInt8 b)) hb, utf8_nil]

/-- A character that is not there is not found among the bytes. -/
theorem findIdx?_utf8_eq_none (hd : d.toNat < 128) (hmem : d ∉ text) :
    (utf8 text).findIdx? (fun b => Char.ofUInt8 b = d) = none := by
  refine List.findIdx?_eq_none_iff.mpr fun b hb => ?_
  obtain ⟨c, hc, h⟩ := mem_utf8.mp hb
  exact decide_eq_false fun heq => hmem ((ofUInt8_eq_iff hd h).mp heq ▸ hc)

/-- The first place of a character is found among the bytes, behind the bytes before it. -/
theorem findIdx?_utf8 (hd : d.toNat < 128) (hinner : d ∉ inner) (rest : Text) :
    (utf8 (inner ++ d :: rest)).findIdx? (fun b => Char.ofUInt8 b = d)
      = some (utf8Size inner) := by
  obtain ⟨b, bytes, hbytes⟩ := exists_cons_utf8EncodeChar d
  have hb : Char.ofUInt8 b = d := (ofUInt8_eq_iff hd (hbytes ▸ List.mem_cons_self)).mpr rfl
  rw [utf8_append, utf8_cons, hbytes, List.findIdx?_append, findIdx?_utf8_eq_none hd hinner,
    List.cons_append, List.findIdx?_cons, if_pos (decide_eq_true hb), length_utf8]
  exact congrArg some (Nat.zero_add _)

/-- Whether the first character passes a test is told by the first byte. -/
theorem any_head?_utf8 (htest : Bytewise test) (text : Text) :
    (utf8 text).head?.any (fun b => test (Char.ofUInt8 b)) = text.head?.any test := by
  cases text with
  | nil => rfl
  | cons c text =>
    obtain ⟨b, bytes, hbytes⟩ := exists_cons_utf8EncodeChar c
    rw [utf8_cons, hbytes]
    exact htest c b (hbytes ▸ List.mem_cons_self)

theorem drop_utf8 (before rest : Text) :
    (utf8 (before ++ rest)).drop (utf8Size before) = utf8 rest := by
  rw [utf8_append, ← length_utf8, List.drop_left]

/-- The longest stretch that passes a test, as it is found when the first byte is looked at before
the other ones. -/
theorem exists_cons_utf8_append {run rest : Text} (htest : Bytewise test) (hne : run ≠ [])
    (hrun : ∀ c ∈ run, test c = true) (hrest : (run ++ rest).takeWhile test = run) :
    ∃ b others, utf8 (run ++ rest) = b :: others ∧ test (Char.ofUInt8 b) = true
      ∧ 1 + (others.takeWhile fun b => test (Char.ofUInt8 b)).length = utf8Size run
      ∧ others.drop (others.takeWhile fun b => test (Char.ofUInt8 b)).length = utf8 rest := by
  obtain ⟨c, run, rfl⟩ := List.exists_cons_of_ne_nil hne
  obtain ⟨b, bytes, hbytes⟩ := exists_cons_utf8EncodeChar c
  have hb : test (Char.ofUInt8 b) = true := by
    rw [htest c b (hbytes ▸ List.mem_cons_self)]
    exact hrun c List.mem_cons_self
  have hutf8 : utf8 (c :: run ++ rest) = b :: (bytes ++ utf8 (run ++ rest)) := by
    rw [List.cons_append, utf8_cons, hbytes, List.cons_append]
  have hlength : 1 + ((bytes ++ utf8 (run ++ rest)).takeWhile
      fun b => test (Char.ofUInt8 b)).length = utf8Size (c :: run) := by
    have htake := takeWhile_utf8 htest (c :: run ++ rest)
    rw [hutf8, hrest, List.takeWhile_cons_of_pos (p := fun b => test (Char.ofUInt8 b)) hb] at htake
    rw [← length_utf8, ← htake, List.length_cons, Nat.add_comm]
  refine ⟨b, _, hutf8, hb, hlength, ?_⟩
  rw [← drop_utf8 (c :: run) rest, hutf8, ← hlength, Nat.add_comm, List.drop_succ_cons]

/-! ### Printable characters -/

theorem toNat_of_isPrintable (h : isPrintable c = true) : 32 ≤ c.toNat ∧ c.toNat ≤ 126 := by
  rw [isPrintable, Bool.and_eq_true, decide_eq_true_eq, decide_eq_true_eq] at h
  exact h

theorem utf8Size_of_isPrintable (h : isPrintable c = true) : c.utf8Size = 1 := by
  have hle : c.val.toNat ≤ 127 := Nat.le_succ_of_le (toNat_of_isPrintable h).2
  exact Char.utf8Size_eq_one_iff.mpr (UInt32.le_iff_toNat_le.mpr hle)

theorem utf8Size_eq_length (h : ∀ c ∈ text, isPrintable c = true) :
    utf8Size text = text.length := by
  induction text with
  | nil => rfl
  | cons c text ih =>
    rw [List.forall_mem_cons] at h
    rw [utf8Size_cons, utf8Size_of_isPrintable h.1, ih h.2, List.length_cons, Nat.add_comm]

/-- Among the bytes of printable characters there is no line feed. -/
theorem ne_newline_of_mem_utf8 (h : ∀ c ∈ text, isPrintable c = true) (hb : b ∈ utf8 text) :
    b ≠ 0x0A := by
  obtain ⟨c, hc, hb⟩ := mem_utf8.mp hb
  have hlarge := (toNat_of_isPrintable (h c hc)).1
  rintro rfl
  have hten : (0x0A : UInt8).toNat = 10 := rfl
  have hbyte := toNat_of_mem_utf8EncodeChar hb
  omega

end PocketKernel.Text
