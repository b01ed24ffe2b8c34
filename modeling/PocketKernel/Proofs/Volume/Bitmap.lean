import PocketKernel.Volume.Bitmap

/-!
# Bitmaps as sets

A bitmap is read through `Bitmap.isSet`: the entries below its length whose bits are set. Every
operation is described by what it does to single bits, and from that to the view; nothing else
about the bytes is used elsewhere. A bitmap can describe at most as many entries as its sector has
bits, which is `FitsSector` below.

## Main definitions

* `Bitmap.bitAt`: the bits in a row of bytes.

## Main results

* `Bitmap.bitAt_set`, `Bitmap.bitAt_clear`: marking and clearing change one bit.
* `Bitmap.isSet_set`, `Bitmap.isSet_clear`: marking and clearing one entry.
* `Bitmap.of_alloc?_eq_some`, `Bitmap.of_alloc?_eq_none`: the lowest free entry is handed out.
* `Bitmap.isSet_getD_release?`: taking an entry back.
-/

namespace PocketKernel.Bitmap

variable {map : Bitmap} {index other : Nat}

/-- The entries of the bitmap have bits in its sector. -/
def FitsSector (map : Bitmap) : Prop := map.length ≤ 8 * sectorSize

/-! ### One byte -/

theorem byteAt_withByte_self (byte : UInt8) {position : Nat} (h : position < sectorSize) :
    (map.withByte position byte).byteAt position = byte := by
  have hlen : position < map.sector.bytes.length := by rw [Sector.length_bytes]; exact h
  simp only [byteAt, withByte, List.getD_eq_getElem?_getD, List.getElem?_set_self hlen,
    Option.getD_some]

theorem byteAt_withByte_of_ne (byte : UInt8) {position target : Nat} (h : target ≠ position) :
    (map.withByte position byte).byteAt target = map.byteAt target := by
  simp only [byteAt, withByte, List.getD_eq_getElem?_getD, List.getElem?_set_ne h.symm]

/-! ### One bit -/

/-- The bit at a position of a row of bytes. -/
def bitAt (bytes : List UInt8) (position : Nat) : Bool :=
  (bytes.getD (position / 8) 0).toBitVec.getLsbD (position % 8)

theorem isSet_eq (map : Bitmap) (index : Nat) :
    map.isSet index = (decide (index < map.length) && bitAt map.sector.bytes index) := rfl

theorem isSet_eq_bitAt (h : index < map.length) :
    map.isSet index = bitAt map.sector.bytes index := by
  rw [isSet_eq, decide_eq_true h, Bool.true_and]

/-- A byte of the sector is replaced, and with it the eight bits that are in it. -/
theorem bitAt_withByte (byte : UInt8) {position : Nat} (h : position < sectorSize) :
    bitAt (map.withByte position byte).sector.bytes other
      = if other / 8 = position then byte.toBitVec.getLsbD (other % 8)
        else bitAt map.sector.bytes other := by
  show ((map.withByte position byte).byteAt (other / 8)).toBitVec.getLsbD (other % 8) = _
  split
  · rename_i hbyte
    rw [hbyte, byteAt_withByte_self _ h]
  · rename_i hbyte
    rw [byteAt_withByte_of_ne _ hbyte]
    rfl

/-- Marking an entry sets its bit and no other. -/
theorem bitAt_set (hfit : map.FitsSector) (h : index < map.length) :
    bitAt (map.set index).sector.bytes other
      = (decide (other = index) || bitAt map.sector.bytes other) := by
  have hpos : index / 8 < sectorSize := by unfold FitsSector at hfit; omega
  rw [set, if_pos h, bitAt_withByte _ hpos]
  by_cases hbyte : other / 8 = index / 8
  · have hlt : index % 8 < 8 := Nat.mod_lt _ (by decide)
    have hsame : other = index ↔ index % 8 = other % 8 := by omega
    rw [if_pos hbyte, BitVec.getLsbD_or, BitVec.getLsbD_twoPow, ← hbyte, decide_eq_true hlt,
      Bool.true_and, decide_eq_decide.mpr hsame, Bool.or_comm]
    rfl
  · have hne : other ≠ index := fun he => hbyte (by rw [he])
    rw [if_neg hbyte, decide_eq_false hne, Bool.false_or]

/-- Clearing an entry clears its bit and no other. -/
theorem bitAt_clear (hfit : map.FitsSector) (h : index < map.length) :
    bitAt (map.clear index).sector.bytes other
      = (!decide (other = index) && bitAt map.sector.bytes other) := by
  have hpos : index / 8 < sectorSize := by unfold FitsSector at hfit; omega
  rw [clear, if_pos h, bitAt_withByte _ hpos]
  by_cases hbyte : other / 8 = index / 8
  · have hlt : index % 8 < 8 := Nat.mod_lt _ (by decide)
    have hlt' : other % 8 < 8 := Nat.mod_lt _ (by decide)
    have hsame : other = index ↔ index % 8 = other % 8 := by omega
    rw [if_pos hbyte, BitVec.getLsbD_and, BitVec.getLsbD_not, BitVec.getLsbD_twoPow, ← hbyte,
      decide_eq_true hlt, decide_eq_true hlt', Bool.true_and, Bool.true_and,
      decide_eq_decide.mpr hsame, Bool.and_comm]
    rfl
  · have hne : other ≠ index := fun he => hbyte (by rw [he])
    rw [if_neg hbyte, decide_eq_false hne, Bool.not_false, Bool.true_and]

/-! ### One entry -/

theorem isSet_set (hfit : map.FitsSector) (h : index < map.length) :
    (map.set index).isSet other = (decide (other = index) || map.isSet other) := by
  rw [isSet_eq, isSet_eq, length_set, bitAt_set hfit h]
  by_cases he : other = index
  · simp [he, h]
  · simp [he]

theorem isSet_clear (hfit : map.FitsSector) (h : index < map.length) :
    (map.clear index).isSet other = (!decide (other = index) && map.isSet other) := by
  rw [isSet_eq, isSet_eq, length_clear, bitAt_clear hfit h]
  by_cases he : other = index
  · simp [he]
  · simp [he]

theorem lt_length_of_isSet (h : map.isSet index = true) : index < map.length := by
  rcases Nat.lt_or_ge index map.length with hlt | hge
  · exact hlt
  · rw [isSet_eq_false_of_le hge] at h
    cases h

/-- Taking back an entry that was just handed out leaves the bitmap as it was. -/
theorem isSet_clear_set (hfit : map.FitsSector) (h : index < map.length)
    (hfree : map.isSet index = false) : ((map.set index).clear index).isSet = map.isSet := by
  funext other
  have hfit' : (map.set index).FitsSector := by unfold FitsSector at *; rw [length_set]; exact hfit
  rw [isSet_clear hfit' (by rw [length_set]; exact h), isSet_set hfit h]
  by_cases he : other = index
  · subst he; simp [hfree]
  · simp [he]

/-! ### The lowest free entry -/

theorem bitAt_cons_of_lt (byte : UInt8) (bytes : List UInt8) {position : Nat} (h : position < 8) :
    bitAt (byte :: bytes) position = byte.toBitVec.getLsbD position := by
  rw [bitAt, Nat.div_eq_of_lt h, Nat.mod_eq_of_lt h]
  rfl

theorem bitAt_cons_add (byte : UInt8) (bytes : List UInt8) (position : Nat) :
    bitAt (byte :: bytes) (position + 8) = bitAt bytes position := by
  rw [bitAt, bitAt, show (position + 8) / 8 = position / 8 + 1 by omega,
    show (position + 8) % 8 = position % 8 by omega]
  rfl

/-- What the search for a clear bit says: it is the first one, or there is none. -/
theorem lowestClear_spec (bytes : List UInt8) :
    match lowestClear bytes with
    | some found => found < 8 * bytes.length ∧ bitAt bytes found = false
        ∧ ∀ k < found, bitAt bytes k = true
    | none => ∀ k < 8 * bytes.length, bitAt bytes k = true := by
  induction bytes with
  | nil => intro k hk; simp at hk
  | cons byte bytes ih =>
    rw [lowestClear]
    cases hfind : (List.range 8).find? fun k => !byte.toBitVec.getLsbD k with
    | some k =>
      obtain ⟨hclear, hk8, hbelow⟩ := List.find?_range_eq_some.mp hfind
      rw [List.mem_range] at hk8
      refine ⟨by rw [List.length_cons]; omega, ?_, fun j hj => ?_⟩
      · rw [bitAt_cons_of_lt _ _ hk8]
        simpa using hclear
      · rw [bitAt_cons_of_lt _ _ (by omega)]
        simpa using hbelow j hj
    | none =>
      have hbyte : ∀ k < 8, byte.toBitVec.getLsbD k = true := by
        intro k hk
        simpa using List.find?_eq_none.mp hfind k (List.mem_range.mpr hk)
      have hlow : ∀ k < 8, bitAt (byte :: bytes) k = true := fun k hk => by
        rw [bitAt_cons_of_lt _ _ hk]
        exact hbyte k hk
      cases hrest : lowestClear bytes with
      | some found =>
        rw [hrest] at ih
        obtain ⟨hlt, hclear, hbelow⟩ := ih
        show found + 8 < 8 * (byte :: bytes).length ∧ bitAt (byte :: bytes) (found + 8) = false
          ∧ ∀ k < found + 8, bitAt (byte :: bytes) k = true
        refine ⟨by rw [List.length_cons]; omega, by rw [bitAt_cons_add]; exact hclear, ?_⟩
        intro k hk
        rcases Nat.lt_or_ge k 8 with hk8 | hk8
        · exact hlow k hk8
        · obtain ⟨j, rfl⟩ := Nat.exists_eq_add_of_le' hk8
          rw [bitAt_cons_add]
          exact hbelow j (by omega)
      | none =>
        rw [hrest] at ih
        intro k hk
        rw [List.length_cons] at hk
        rcases Nat.lt_or_ge k 8 with hk8 | hk8
        · exact hlow k hk8
        · obtain ⟨j, rfl⟩ := Nat.exists_eq_add_of_le' hk8
          rw [bitAt_cons_add]
          exact ih j (by omega)

/-- **First fit.** What is handed out is the lowest free entry, and it is then marked. -/
theorem of_alloc?_eq_some {handed : Bitmap} (h : map.alloc? = some (index, handed)) :
    index < map.length ∧ map.isSet index = false ∧ (∀ k < index, map.isSet k = true)
      ∧ handed = map.set index := by
  have hspec := lowestClear_spec map.sector.bytes
  unfold alloc? at h
  cases hlow : lowestClear map.sector.bytes with
  | none => rw [hlow] at h; cases h
  | some found =>
    rw [hlow] at h hspec
    obtain ⟨-, hclear, hbelow⟩ := hspec
    by_cases hlt : found < map.length
    · simp only [if_pos hlt, Option.some.injEq, Prod.mk.injEq] at h
      obtain ⟨rfl, rfl⟩ := h
      refine ⟨hlt, by rw [isSet_eq_bitAt hlt, hclear], fun k hk => ?_, rfl⟩
      rw [isSet_eq_bitAt (by omega), hbelow k hk]
    · simp only [if_neg hlt] at h
      cases h

/-- Nothing is handed out only if everything is in use. -/
theorem of_alloc?_eq_none (hfit : map.FitsSector) (h : map.alloc? = none) :
    ∀ k < map.length, map.isSet k = true := by
  have hspec := lowestClear_spec map.sector.bytes
  intro k hk
  rw [isSet_eq_bitAt hk]
  unfold alloc? at h
  cases hlow : lowestClear map.sector.bytes with
  | none =>
    rw [hlow, Sector.length_bytes] at hspec
    exact hspec k (by unfold FitsSector at hfit; omega)
  | some found =>
    rw [hlow] at h hspec
    by_cases hlt : found < map.length
    · simp only [if_pos hlt] at h
      cases h
    · exact hspec.2.2 k (by omega)

/-! ### Taking entries back -/

/-- Taking an entry back clears it, whether it was in use or not. -/
theorem isSet_getD_release? (hfit : map.FitsSector) :
    ((map.release? index).getD map).isSet other = (!decide (other = index) && map.isSet other) := by
  unfold release?
  cases h : map.isSet index with
  | true => exact isSet_clear hfit (lt_length_of_isSet h)
  | false =>
    by_cases he : other = index
    · subst he; simp [h]
    · simp [he]

@[simp] theorem length_getD_release? :
    ((map.release? index).getD map).length = map.length := by
  unfold release?
  split
  · exact length_clear map index
  · rfl

end PocketKernel.Bitmap
