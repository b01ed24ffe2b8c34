import PocketKernel.Disk.Sector

/-!
# The bytes of a sector, one by one

Contents of files and directories are compared byte by byte, so the operations on sectors are
restated for a single byte here: what stands at a position after an overlay, and a slice as the
row of the bytes at its positions.

## Main results

* `Bytes.getElem?_splice`: the same for a row that grows if it has to.
* `Sector.byteAt_overlay`: an overlay replaces the bytes it covers and no other.
* `Sector.slice_eq_map`: a slice, byte by byte.
-/

namespace PocketKernel

namespace Bytes

variable {α : Type}

theorem getElem?_overlay (base data : List α) (start position : Nat)
    (h : start + data.length ≤ base.length) :
    (overlay base start data)[position]? =
      if start ≤ position ∧ position < start + data.length then data[position - start]?
      else base[position]? := by
  have hdata : data.take (base.length - start) = data := List.take_of_length_le (by omega)
  have htake : (base.take start).length = start := by rw [List.length_take]; omega
  rw [overlay, hdata, List.append_assoc]
  rcases Nat.lt_or_ge position start with hlt | hge
  · rw [List.getElem?_append_left (by omega), List.getElem?_take_of_lt hlt, if_neg (by omega)]
  · rw [List.getElem?_append_right (by omega), htake]
    rcases Nat.lt_or_ge position (start + data.length) with hin | hout
    · rw [List.getElem?_append_left (by omega), if_pos ⟨hge, hin⟩]
    · rw [List.getElem?_append_right (by omega), List.getElem?_drop, if_neg (by omega)]
      congr 1
      omega

/-- Cells laid over a row from a position on, which grows if they reach past its end. -/
def splice (base : List α) (start : Nat) (data : List α) : List α :=
  base.take start ++ data ++ base.drop (start + data.length)

theorem length_splice {base : List α} {start : Nat} (data : List α) (h : start ≤ base.length) :
    (splice base start data).length = max base.length (start + data.length) := by
  simp only [splice, List.length_append, List.length_take, List.length_drop]
  omega

theorem getElem?_splice {base : List α} {start : Nat} (data : List α) (h : start ≤ base.length)
    (position : Nat) : (splice base start data)[position]? =
      if start ≤ position ∧ position < start + data.length then data[position - start]?
      else base[position]? := by
  have htake : (base.take start).length = start := by rw [List.length_take]; omega
  rw [splice, List.append_assoc]
  rcases Nat.lt_or_ge position start with hlt | hge
  · rw [List.getElem?_append_left (by omega), List.getElem?_take_of_lt hlt, if_neg (by omega)]
  · rw [List.getElem?_append_right (by omega), htake]
    rcases Nat.lt_or_ge position (start + data.length) with hin | hout
    · rw [List.getElem?_append_left (by omega), if_pos ⟨hge, hin⟩]
    · rw [List.getElem?_append_right (by omega), List.getElem?_drop, if_neg (by omega)]
      congr 1
      omega

/-- At the end of a row, cells are appended. -/
theorem splice_length (base data : List α) : splice base base.length data = base ++ data := by
  rw [splice, List.take_length, List.drop_eq_nil_of_le (Nat.le_add_right _ _), List.append_nil]

end Bytes

namespace Sector

/-- The byte at a position of a sector. -/
def byteAt (sector : Sector) (position : Nat) : UInt8 := sector.bytes.getD position 0

theorem byteAt_overlay (sector : Sector) {data : List UInt8} {start position : Nat}
    (h : start + data.length ≤ sectorSize) :
    (sector.overlay start data).byteAt position =
      if start ≤ position ∧ position < start + data.length then data.getD (position - start) 0
      else sector.byteAt position := by
  simp only [byteAt, overlay, List.getD_eq_getElem?_getD]
  rw [Bytes.getElem?_overlay _ _ _ _ (by rw [length_bytes]; exact h)]
  split
  · rfl
  · rfl

theorem slice_eq_map (sector : Sector) {start count : Nat} (h : start + count ≤ sectorSize) :
    sector.slice start count = (List.range count).map fun k => sector.byteAt (start + k) := by
  apply List.ext_getElem
  · rw [length_slice sector h, List.length_map, List.length_range]
  · intro k hk hk'
    rw [length_slice sector h] at hk
    have hin : start + k < sector.bytes.length := by rw [length_bytes]; omega
    simp only [slice, List.getElem_take, List.getElem_drop, List.getElem_map, List.getElem_range,
      byteAt, List.getD_eq_getElem?_getD, List.getElem?_eq_getElem hin, Option.getD_some]

/-- A slice of a sector that was filled from bytes is a slice of these bytes and the zeros
behind them. -/
theorem slice_ofBytes {bytes : List UInt8} (h : bytes.length ≤ sectorSize) (start count : Nat) :
    (ofBytes bytes).slice start count
      = ((bytes ++ List.replicate (sectorSize - bytes.length) 0).drop start).take count := by
  simp only [slice, ofBytes, List.take_of_length_le h]

end Sector

end PocketKernel
