import PocketKernel.Text.Utf8

/-!
# Byte positions in texts

The editor counts positions in a line in bytes. A text can only be cut between two characters, so
a position that lies inside of one is no place to cut at.

## Main definitions

* `Text.splitAtByte?`: cut a text at a byte position.

## Main results

* `Text.splitAtByte?_append`, `Text.append_of_splitAtByte?`: where the cut goes.
-/

namespace PocketKernel.Text

/-- Cut a text in two so that the first part has `position` bytes; `none` if no such cut exists. -/
def splitAtByte? : Text → Nat → Option (Text × Text)
  | text, 0 => some ([], text)
  | [], _ + 1 => none
  | c :: text, position + 1 =>
    if c.utf8Size ≤ position + 1 then
      (splitAtByte? text (position + 1 - c.utf8Size)).map fun (before, after) => (c :: before, after)
    else
      none

@[simp] theorem splitAtByte?_zero (text : Text) : splitAtByte? text 0 = some ([], text) := by
  cases text <;> rfl

theorem splitAtByte?_append (before after : Text) :
    splitAtByte? (before ++ after) (utf8Size before) = some (before, after) := by
  induction before with
  | nil => simp
  | cons c before ih =>
    have hc : 0 < c.utf8Size := Char.utf8Size_pos c
    obtain ⟨k, hk⟩ : ∃ k, utf8Size (c :: before) = k + 1 := by
      refine ⟨utf8Size (c :: before) - 1, ?_⟩
      rw [utf8Size_cons]
      omega
    have hrest : k + 1 - c.utf8Size = utf8Size before := by
      rw [← hk, utf8Size_cons]
      omega
    have hle : c.utf8Size ≤ k + 1 := by
      rw [← hk, utf8Size_cons]
      omega
    rw [hk, List.cons_append, splitAtByte?, if_pos hle, hrest, ih]
    rfl

theorem append_of_splitAtByte? {text before after : Text} {position : Nat}
    (h : splitAtByte? text position = some (before, after)) :
    text = before ++ after ∧ utf8Size before = position := by
  induction text generalizing position before with
  | nil =>
    cases position with
    | zero => simp_all
    | succ position => simp [splitAtByte?] at h
  | cons c text ih =>
    cases position with
    | zero => simp_all
    | succ position =>
      rw [splitAtByte?] at h
      split at h
      next hle =>
        obtain ⟨⟨front, back⟩, hsplit, heq⟩ := Option.map_eq_some_iff.mp h
        obtain ⟨hfront, hback⟩ := Prod.mk.inj heq
        subst hfront
        subst hback
        obtain ⟨htext, hsize⟩ := ih hsplit
        refine ⟨by rw [htext]; rfl, ?_⟩
        rw [utf8Size_cons, hsize]
        omega
      next => simp at h

end PocketKernel.Text
