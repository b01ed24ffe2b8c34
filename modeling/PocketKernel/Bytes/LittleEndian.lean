/-!
# Little-endian words

Every structure that is stored on a disk is a row of words, least significant byte first.
`littleEndian width n` writes a number in a given number of bytes and `ofLittleEndian` reads it
back; the two are inverse on numbers that fit.

## Main results

* `ofLittleEndian_littleEndian`: reading back what was written gives the number modulo
  `byteLimit width`.
* `littleEndian_ofLittleEndian`: writing back what was read gives the same bytes.
-/

namespace PocketKernel.Bytes

/-- The lowest `width` bytes of a number, least significant first. -/
def littleEndian : Nat → Nat → List UInt8
  | 0, _ => []
  | width + 1, n => UInt8.ofNat n :: littleEndian width (n / 256)

/-- The least number that does not fit in `width` bytes. -/
def byteLimit : Nat → Nat
  | 0 => 1
  | width + 1 => 256 * byteLimit width

/-- The number with the given bytes, least significant first. -/
def ofLittleEndian : List UInt8 → Nat
  | [] => 0
  | b :: bytes => b.toNat + 256 * ofLittleEndian bytes

@[simp] theorem length_littleEndian (width n : Nat) : (littleEndian width n).length = width := by
  induction width generalizing n with
  | zero => rfl
  | succ width ih => simp [littleEndian, ih]

theorem ofLittleEndian_lt (bytes : List UInt8) :
    ofLittleEndian bytes < byteLimit bytes.length := by
  induction bytes with
  | nil => decide
  | cons b bytes ih =>
    have hb : b.toNat < 256 := b.toNat_lt
    simp only [ofLittleEndian, List.length_cons, byteLimit]
    omega

theorem ofLittleEndian_littleEndian (width n : Nat) :
    ofLittleEndian (littleEndian width n) = n % byteLimit width := by
  induction width generalizing n with
  | zero => simp [littleEndian, ofLittleEndian, byteLimit, Nat.mod_one]
  | succ width ih =>
    have hn : (UInt8.ofNat n).toNat = n % 256 := by simp
    rw [littleEndian, ofLittleEndian, ih, hn, byteLimit, Nat.mod_mul]

theorem littleEndian_ofLittleEndian (bytes : List UInt8) :
    littleEndian bytes.length (ofLittleEndian bytes) = bytes := by
  induction bytes with
  | nil => rfl
  | cons b bytes ih =>
    have hb : b.toNat < 256 := b.toNat_lt
    have hlow : UInt8.ofNat (b.toNat + 256 * ofLittleEndian bytes) = b := by
      apply UInt8.toNat_inj.mp
      simp
    have hhigh : (b.toNat + 256 * ofLittleEndian bytes) / 256 = ofLittleEndian bytes := by omega
    rw [List.length_cons, ofLittleEndian, littleEndian, hlow, hhigh, ih]

/-- The two bytes of a 16-bit word. -/
def ofUInt16 (word : UInt16) : List UInt8 := littleEndian 2 word.toNat

/-- The four bytes of a 32-bit word. -/
def ofUInt32 (word : UInt32) : List UInt8 := littleEndian 4 word.toNat

/-- The 16-bit word in the first two bytes of a byte string. -/
def toUInt16 (bytes : List UInt8) : UInt16 := UInt16.ofNat (ofLittleEndian (bytes.take 2))

/-- The 32-bit word in the first four bytes of a byte string. -/
def toUInt32 (bytes : List UInt8) : UInt32 := UInt32.ofNat (ofLittleEndian (bytes.take 4))

@[simp] theorem length_ofUInt16 (word : UInt16) : (ofUInt16 word).length = 2 :=
  length_littleEndian 2 _

@[simp] theorem length_ofUInt32 (word : UInt32) : (ofUInt32 word).length = 4 :=
  length_littleEndian 4 _

theorem toUInt16_ofUInt16 (word : UInt16) (rest : List UInt8) :
    toUInt16 (ofUInt16 word ++ rest) = word := by
  have hw : word.toNat < byteLimit 2 := word.toNat_lt
  rw [toUInt16, List.take_left' (length_ofUInt16 word), ofUInt16, ofLittleEndian_littleEndian,
    Nat.mod_eq_of_lt hw, UInt16.ofNat_toNat]

theorem toUInt32_ofUInt32 (word : UInt32) (rest : List UInt8) :
    toUInt32 (ofUInt32 word ++ rest) = word := by
  have hw : word.toNat < byteLimit 4 := word.toNat_lt
  rw [toUInt32, List.take_left' (length_ofUInt32 word), ofUInt32, ofLittleEndian_littleEndian,
    Nat.mod_eq_of_lt hw, UInt32.ofNat_toNat]

theorem ofUInt16_toUInt16 {bytes : List UInt8} (h : bytes.length = 2) :
    ofUInt16 (toUInt16 bytes) = bytes := by
  have hlt := ofLittleEndian_lt bytes
  rw [h] at hlt
  have htake : bytes.take 2 = bytes := List.take_of_length_le (by omega)
  have hback := littleEndian_ofLittleEndian bytes
  rw [h] at hback
  rw [ofUInt16, toUInt16, htake, UInt16.toNat_ofNat_of_lt' hlt, hback]

theorem ofUInt32_toUInt32 {bytes : List UInt8} (h : bytes.length = 4) :
    ofUInt32 (toUInt32 bytes) = bytes := by
  have hlt := ofLittleEndian_lt bytes
  rw [h] at hlt
  have htake : bytes.take 4 = bytes := List.take_of_length_le (by omega)
  have hback := littleEndian_ofLittleEndian bytes
  rw [h] at hback
  rw [ofUInt32, toUInt32, htake, UInt32.toNat_ofNat_of_lt' hlt, hback]

end PocketKernel.Bytes
