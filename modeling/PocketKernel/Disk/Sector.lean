import PocketKernel.Bytes.LittleEndian
import PocketKernel.Bytes.Overlay

/-!
# Sectors

The unit of every disk transfer: exactly 512 bytes. The length is part of the type, so no
operation on a disk has to check it.

## Main definitions

* `Sector`: 512 bytes.
* `Sector.ofBytes`: a sector that starts with given bytes and is zero behind them.
* `Sector.slice`, `Sector.overlay`: read and replace a stretch of a sector.
* `Sector.words`, `Sector.ofWords`: a sector as a row of 16-bit words.

## Main results

* `Sector.ofWords_words`: a sector is put together again from its words.
-/

namespace PocketKernel

/-- The number of bytes in a sector. -/
def sectorSize : Nat := 512

/-- One sector worth of bytes. -/
structure Sector where
  /-- The bytes of the sector, in order. -/
  bytes : List UInt8
  /-- There are always 512 of them. -/
  length_bytes : bytes.length = sectorSize
deriving DecidableEq

namespace Sector

attribute [simp] length_bytes

/-- A sector that starts with the given bytes; the rest is zero, and what does not fit is lost. -/
def ofBytes (bytes : List UInt8) : Sector where
  bytes := bytes.take sectorSize ++ List.replicate (sectorSize - bytes.length) 0
  length_bytes := by
    simp only [List.length_append, List.length_take, List.length_replicate]
    omega

/-- The sector whose bytes are all zero. -/
def zero : Sector where
  bytes := List.replicate sectorSize 0
  length_bytes := List.length_replicate

instance : Inhabited Sector := ⟨zero⟩

/-- The `count` bytes of a sector from position `start` on. -/
def slice (sector : Sector) (start count : Nat) : List UInt8 :=
  (sector.bytes.drop start).take count

/-- Replace the bytes of a sector from position `start` on by `data`. -/
def overlay (sector : Sector) (start : Nat) (data : List UInt8) : Sector where
  bytes := Bytes.overlay sector.bytes start data
  length_bytes := by simp

/-- The words in a row of bytes, low byte first. A byte without a partner is dropped. -/
def pairs : List UInt8 → List UInt16
  | low :: high :: bytes => Bytes.toUInt16 [low, high] :: pairs bytes
  | _ => []

/-- The 256 words of a sector. -/
def words (sector : Sector) : List UInt16 := pairs sector.bytes

/-- The sector that consists of the given words. -/
def ofWords (words : List UInt16) : Sector := ofBytes (words.flatMap Bytes.ofUInt16)

theorem length_slice (sector : Sector) {start count : Nat} (h : start + count ≤ sectorSize) :
    (sector.slice start count).length = count := by
  simp only [slice, List.length_take, List.length_drop, length_bytes]
  omega

theorem ofBytes_bytes (sector : Sector) : ofBytes sector.bytes = sector := by
  cases sector with
  | mk bytes h =>
    have htake : bytes.take sectorSize = bytes := List.take_of_length_le (by omega)
    simp [ofBytes, htake, h]

theorem flatMap_pairs {bytes : List UInt8} (h : bytes.length % 2 = 0) :
    (pairs bytes).flatMap Bytes.ofUInt16 = bytes := by
  induction bytes using pairs.induct with
  | case1 low high bytes ih =>
    have hpair : Bytes.ofUInt16 (Bytes.toUInt16 [low, high]) = [low, high] :=
      Bytes.ofUInt16_toUInt16 rfl
    rw [List.length_cons, List.length_cons] at h
    rw [pairs, List.flatMap_cons, ih (by omega), hpair]
    rfl
  | case2 bytes hne =>
    match bytes with
    | [] => rfl
    | [_] => simp at h
    | low :: high :: rest => exact absurd rfl (hne low high rest)

theorem ofWords_words (sector : Sector) : ofWords sector.words = sector := by
  rw [ofWords, words, flatMap_pairs (by simp [sectorSize]), ofBytes_bytes]

end Sector

end PocketKernel
