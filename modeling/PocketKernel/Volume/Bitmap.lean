import PocketKernel.Disk.Sector

/-!
# Allocation bitmaps

A bitmap records in one sector which of `length` entries are in use: bit `n % 8` of byte `n / 8`
stands for entry `n`. Entries are handed out lowest first. Bits at or beyond `length` stand for
nothing; they are never set or cleared and keep whatever was found in them.

## Main definitions

* `Bitmap.isSet`, `Bitmap.set`, `Bitmap.clear`: one entry.
* `Bitmap.alloc?`, `Bitmap.release?`: hand out the lowest free entry, take one back.
* `Bitmap.count`: the entries in use.
-/

namespace PocketKernel

/-- A set of numbers below `length`, kept in a sector. -/
structure Bitmap where
  /-- The sector that holds the bits. -/
  sector : Sector
  /-- The number of entries. -/
  length : Nat
deriving DecidableEq

namespace Bitmap

/-- The bitmap in which no entry is in use. -/
def empty (length : Nat) : Bitmap := ⟨Sector.zero, length⟩

/-- The byte at a position of the sector. -/
def byteAt (map : Bitmap) (position : Nat) : UInt8 := map.sector.bytes.getD position 0

/-- The bitmap with one byte of its sector replaced. -/
def withByte (map : Bitmap) (position : Nat) (byte : UInt8) : Bitmap :=
  { map with
    sector := {
      bytes := map.sector.bytes.set position byte
      length_bytes := by simp } }

/-- Entry `index` is in use. -/
def isSet (map : Bitmap) (index : Nat) : Bool :=
  index < map.length && (map.byteAt (index / 8)).toBitVec.getLsbD (index % 8)

/-- Mark entry `index` as in use. -/
def set (map : Bitmap) (index : Nat) : Bitmap :=
  if index < map.length then
    map.withByte (index / 8)
      ⟨(map.byteAt (index / 8)).toBitVec ||| BitVec.twoPow 8 (index % 8)⟩
  else
    map

/-- Mark entry `index` as free. -/
def clear (map : Bitmap) (index : Nat) : Bitmap :=
  if index < map.length then
    map.withByte (index / 8)
      ⟨(map.byteAt (index / 8)).toBitVec &&& ~~~ BitVec.twoPow 8 (index % 8)⟩
  else
    map

/-- The position of the lowest bit that is clear in a row of bytes. -/
def lowestClear : List UInt8 → Option Nat
  | [] => none
  | byte :: bytes =>
    match (List.range 8).find? fun k => !byte.toBitVec.getLsbD k with
    | some k => some k
    | none => (lowestClear bytes).map (· + 8)

/-- Hand out the lowest free entry, if there is one. -/
def alloc? (map : Bitmap) : Option (Nat × Bitmap) :=
  match lowestClear map.sector.bytes with
  | some index => if index < map.length then some (index, map.set index) else none
  | none => none

/-- Take an entry back; `none` if it was not in use. -/
def release? (map : Bitmap) (index : Nat) : Option Bitmap :=
  if map.isSet index then some (map.clear index) else none

/-- The number of entries in use. -/
def count (map : Bitmap) : Nat := (List.range map.length).countP map.isSet

@[simp] theorem length_set (map : Bitmap) (index : Nat) : (map.set index).length = map.length := by
  unfold set
  split <;> rfl

@[simp] theorem length_clear (map : Bitmap) (index : Nat) :
    (map.clear index).length = map.length := by
  unfold clear
  split <;> rfl

@[simp] theorem isSet_empty (length index : Nat) : (empty length).isSet index = false := by
  have hzero : (List.replicate sectorSize (0 : UInt8)).getD (index / 8) 0 = 0 := by
    rw [List.getD_eq_getElem?_getD, List.getElem?_replicate]
    split <;> rfl
  simp only [isSet, empty, byteAt, Sector.zero, hzero]
  simp

theorem isSet_eq_false_of_le {map : Bitmap} {index : Nat} (h : map.length ≤ index) :
    map.isSet index = false := by
  simp [isSet, Nat.not_lt.mpr h]

end Bitmap

end PocketKernel
