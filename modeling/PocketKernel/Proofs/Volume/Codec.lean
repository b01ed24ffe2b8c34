import PocketKernel.Proofs.Disk.Cells
import PocketKernel.Volume.Flush
import PocketKernel.Volume.Record

/-!
# Reading back what is stored

The stored forms of inodes, superblocks and directory records, read back from where they were put.
All of them are rows of pieces of one width, so one lemma about such rows, `drop_flatMap`, carries
the whole file.

## Main definitions

* `Inode.blank`: what a sector of the inode table that was never written says about an inode.

## Main results

* `Inode.ofBytes_bytes_append`: an inode is read back, whatever stands behind it.
* `VolumeM.ofBytes_slice_packInodes`: so is one in a sector of the inode table.
* `Superblock.ofBytes_bytes_append`: a superblock is read back.
* `DirectoryRecord.target_ofBytes_bytes`: a directory record leads where it was told to.
* `DirectoryRecord.readAll_append`: a record is appended to a directory.
-/

namespace PocketKernel

namespace Bytes

variable {α : Type}

theorem length_flatMap_of_width {piece : α → List UInt8} {width : Nat}
    (hwidth : ∀ a, (piece a).length = width) (pieces : List α) :
    (pieces.flatMap piece).length = width * pieces.length := by
  induction pieces with
  | nil => rfl
  | cons a pieces ih =>
    rw [List.flatMap_cons, List.length_append, hwidth, ih, List.length_cons, Nat.mul_succ]
    omega

/-- In a row of pieces of one width, what stands from the `k`-th place on starts with the `k`-th
piece. -/
theorem drop_flatMap {pieces : List α} {piece : α → List UInt8} {width : Nat}
    (hwidth : ∀ a, (piece a).length = width) (rest : List UInt8) {k : Nat}
    (hk : k < pieces.length) :
    (pieces.flatMap piece ++ rest).drop (width * k)
      = piece pieces[k] ++ ((pieces.drop (k + 1)).flatMap piece ++ rest) := by
  induction pieces generalizing k with
  | nil => exact absurd hk (Nat.not_lt_zero k)
  | cons a pieces ih =>
    rw [List.flatMap_cons, List.append_assoc]
    cases k with
    | zero => rw [Nat.mul_zero, List.drop_zero]; rfl
    | succ k =>
      have hk' : k < pieces.length := Nat.lt_of_succ_lt_succ hk
      have hsplit : width * (k + 1) = (piece a).length + width * k := by
        rw [hwidth, Nat.mul_succ, Nat.add_comm]
      rw [hsplit, List.drop_append, List.drop_eq_nil_of_le (by omega), List.nil_append,
        Nat.add_sub_cancel_left, ih hk']
      rfl

/-- A word is read back from its place in a row of words. -/
theorem toUInt32_drop_flatMap {words : List UInt32} (rest : List UInt8) {k : Nat}
    (hk : k < words.length) :
    toUInt32 ((words.flatMap ofUInt32 ++ rest).drop (4 * k)) = words[k] := by
  rw [drop_flatMap length_ofUInt32 rest hk, toUInt32_ofUInt32]

end Bytes

namespace Inode

/-- The first fields of an inode, ahead of its pointers. -/
private def headBytes (inode : Inode) : List UInt8 :=
  [inode.kindByte, inode.flags] ++ Bytes.ofUInt16 inode.spare ++ Bytes.ofUInt32 inode.size
    ++ Bytes.ofUInt32 inode.parent

private theorem length_headBytes (inode : Inode) : inode.headBytes.length = 12 := by
  simp only [headBytes, List.length_append, Bytes.length_ofUInt16, Bytes.length_ofUInt32]
  rfl

theorem length_bytes (inode : Inode) : inode.bytes.length = inodeSize := by
  simp only [bytes, List.length_append, Bytes.length_ofUInt16, Bytes.length_ofUInt32,
    Bytes.length_flatMap_of_width Bytes.length_ofUInt32, Vector.length_toList]
  rfl

/-- **An inode is read back**, whatever stands behind it. -/
theorem ofBytes_bytes_append (inode : Inode) (rest : List UInt8) :
    ofBytes (inode.bytes ++ rest) = inode := by
  have hbytes : inode.bytes ++ rest = inode.headBytes ++ (inode.direct.toList.flatMap Bytes.ofUInt32
      ++ (inode.reserved.toList.flatMap Bytes.ofUInt32 ++ rest)) := by
    simp only [bytes, headBytes, List.append_assoc]
  have hdirect : (inode.direct.toList.flatMap Bytes.ofUInt32).length = 32 := by
    rw [Bytes.length_flatMap_of_width Bytes.length_ofUInt32, Vector.length_toList]
  have hspare : (inode.bytes ++ rest).drop 2 = Bytes.ofUInt16 inode.spare
      ++ (Bytes.ofUInt32 inode.size ++ (Bytes.ofUInt32 inode.parent
        ++ (inode.direct.toList.flatMap Bytes.ofUInt32
          ++ (inode.reserved.toList.flatMap Bytes.ofUInt32 ++ rest)))) := by
    simp only [bytes, List.append_assoc]
    rfl
  have hsize : (inode.bytes ++ rest).drop 4 = Bytes.ofUInt32 inode.size
      ++ (Bytes.ofUInt32 inode.parent ++ (inode.direct.toList.flatMap Bytes.ofUInt32
        ++ (inode.reserved.toList.flatMap Bytes.ofUInt32 ++ rest))) := by
    have h := congrArg (List.drop 2) hspare
    rwa [List.drop_drop, List.drop_left' (Bytes.length_ofUInt16 _)] at h
  have hparent : (inode.bytes ++ rest).drop 8 = Bytes.ofUInt32 inode.parent
      ++ (inode.direct.toList.flatMap Bytes.ofUInt32
        ++ (inode.reserved.toList.flatMap Bytes.ofUInt32 ++ rest)) := by
    have h := congrArg (List.drop 4) hsize
    rwa [List.drop_drop, List.drop_left' (Bytes.length_ofUInt32 _)] at h
  have hpointers (k : Nat) : (inode.bytes ++ rest).drop (12 + k)
      = (inode.direct.toList.flatMap Bytes.ofUInt32
        ++ (inode.reserved.toList.flatMap Bytes.ofUInt32 ++ rest)).drop k := by
    rw [← List.drop_drop, hbytes, List.drop_left' (length_headBytes inode)]
  have hreserved (k : Nat) : (inode.bytes ++ rest).drop (44 + k)
      = (inode.reserved.toList.flatMap Bytes.ofUInt32 ++ rest).drop k := by
    rw [show 44 + k = 12 + (32 + k) by omega, hpointers, ← List.drop_drop,
      List.drop_left' hdirect]
  have hslots : (Vector.ofFn fun slot : Fin 8 =>
      Bytes.toUInt32 ((inode.bytes ++ rest).drop (12 + 4 * slot.val))) = inode.direct := by
    ext slot hslot
    rw [Vector.getElem_ofFn, hpointers,
      Bytes.toUInt32_drop_flatMap _ (by rw [Vector.length_toList]; exact hslot),
      Vector.getElem_toList]
  have hwords : (Vector.ofFn fun word : Fin 4 =>
      Bytes.toUInt32 ((inode.bytes ++ rest).drop (44 + 4 * word.val))) = inode.reserved := by
    ext word hword
    rw [Vector.getElem_ofFn, hreserved,
      Bytes.toUInt32_drop_flatMap _ (by rw [Vector.length_toList]; exact hword),
      Vector.getElem_toList]
  rw [ofBytes, hspare, hsize, hparent, hslots, hwords, Bytes.toUInt16_ofUInt16,
    Bytes.toUInt32_ofUInt32, Bytes.toUInt32_ofUInt32]
  rfl

/-- What a sector of the inode table that was never written says about an inode. It is not in
use, but all its pointers are block 0. -/
def blank : Inode := ofBytes (List.replicate inodeSize 0)

theorem ofBytes_slice_zero {slot : Nat} (h : slot < inodesPerSector) :
    ofBytes (Sector.zero.slice (inodeSize * slot) inodeSize) = blank := by
  have hlen : min inodeSize (sectorSize - inodeSize * slot) = inodeSize := by
    simp only [inodesPerSector, inodeSize, sectorSize] at *
    omega
  rw [Sector.slice, Sector.zero, List.drop_replicate, List.take_replicate, hlen]
  rfl

end Inode

namespace VolumeM

/-- **An inode is read back from its sector of the inode table.** -/
theorem ofBytes_slice_packInodes {inodes : Array Inode} {first slot : Nat}
    (hslot : slot < inodesPerSector) (h : first + slot < inodes.size) :
    Inode.ofBytes ((packInodes inodes first).slice (inodeSize * slot) inodeSize)
      = inodes[first + slot] := by
  let pieces := (inodes.extract first (first + inodesPerSector)).toList
  have hlen : pieces.length = min (first + inodesPerSector) inodes.size - first := by
    simp only [pieces, Array.length_toList, Array.size_extract]
  have hin : slot < pieces.length := by omega
  have hget : pieces[slot] = inodes[first + slot] := by
    simp only [pieces, Array.getElem_toList, Array.getElem_extract]
  have hfits : (pieces.flatMap Inode.bytes).length ≤ sectorSize := by
    rw [Bytes.length_flatMap_of_width Inode.length_bytes]
    simp only [inodesPerSector, inodeSize, sectorSize] at *
    omega
  rw [show packInodes inodes first = Sector.ofBytes (pieces.flatMap Inode.bytes) from rfl,
    Sector.slice_ofBytes hfits, Bytes.drop_flatMap Inode.length_bytes _ hin,
    List.take_left' (Inode.length_bytes _), hget]
  simpa using Inode.ofBytes_bytes_append inodes[first + slot] []

end VolumeM

namespace Superblock

/-- **A superblock is read back**, whatever stands behind it. -/
theorem ofBytes_bytes_append (sb : Superblock) (rest : List UInt8) :
    ofBytes (sb.bytes ++ rest) = sb := by
  have hword (k : Nat) (hk : k < sb.words.length) :
      Bytes.toUInt32 ((sb.words.flatMap Bytes.ofUInt32 ++ rest).drop (4 * k)) = sb.words[k] :=
    Bytes.toUInt32_drop_flatMap rest hk
  simp only [ofBytes, bytes, hword 0 (by simp [words]), hword 1 (by simp [words]),
    hword 2 (by simp [words]), hword 3 (by simp [words]), hword 4 (by simp [words]),
    hword 5 (by simp [words]), hword 6 (by simp [words]), hword 7 (by simp [words]),
    hword 8 (by simp [words]), hword 9 (by simp [words])]
  rfl

end Superblock

namespace Geometry

variable (g : Geometry)

/-- The sector that is stored for a geometry is accepted for it. -/
theorem accepts_superblock :
    g.accepts (Superblock.ofBytes (Sector.ofBytes g.superblock.bytes).bytes) = true := by
  have hlen : g.superblock.bytes.length ≤ sectorSize := by
    rw [Superblock.bytes, Bytes.length_flatMap_of_width Bytes.length_ofUInt32,
      show g.superblock.words.length = 10 from rfl]
    decide
  simp only [Sector.ofBytes, List.take_of_length_le hlen, Superblock.ofBytes_bytes_append, accepts,
    decide_true]

/-- A sector that was never written is accepted for no geometry. -/
theorem not_accepts_zero : g.accepts (Superblock.ofBytes Sector.zero.bytes) = false := by
  have hmagic : (Superblock.ofBytes Sector.zero.bytes).magic = 0 := by decide
  rw [accepts, decide_eq_false_iff_not]
  intro h
  rw [h] at hmagic
  exact absurd (show (0x4C555846 : UInt32) = 0 from hmagic) (by decide)

end Geometry

namespace DirectoryRecord

theorem length_bytes (record : DirectoryRecord) : record.bytes.length = recordSize := by
  simp only [bytes, List.length_append, Bytes.length_ofUInt32, List.length_replicate,
    List.length_take, Path.nameLimit, recordSize]
  omega

/-- **A record leads where it was told to.** -/
theorem target_ofBytes_bytes (record : DirectoryRecord) (rest : List UInt8) :
    (ofBytes (record.bytes ++ rest)).target = record.target := by
  rw [ofBytes, bytes, List.append_assoc, List.append_assoc, Bytes.toUInt32_ofUInt32]

/-- A record is read from its 36 bytes, whatever stands behind them. -/
theorem ofBytes_append {bytes : List UInt8} (h : recordSize ≤ bytes.length) (rest : List UInt8) :
    ofBytes (bytes ++ rest) = ofBytes bytes := by
  simp only [recordSize] at h
  have hdrop : (bytes ++ rest).drop 4 = bytes.drop 4 ++ rest :=
    List.drop_append_of_le_length (by omega)
  have htarget : (bytes ++ rest).take 4 = bytes.take 4 := List.take_append_of_le_length (by omega)
  have hname : (bytes.drop 4 ++ rest).take Path.nameLimit = (bytes.drop 4).take Path.nameLimit :=
    List.take_append_of_le_length (by simp only [List.length_drop, Path.nameLimit]; omega)
  rw [ofBytes, ofBytes, Bytes.toUInt32, Bytes.toUInt32, hdrop, htarget, hname]

/-- **A record behind a row of records is one more record.** -/
theorem readAll_append {bytes data : List UInt8} (h : bytes.length % recordSize = 0)
    (hdata : data.length = recordSize) :
    readAll (bytes ++ data) = readAll bytes ++ [ofBytes data] := by
  have hcount : (bytes ++ data).length / recordSize = bytes.length / recordSize + 1 := by
    rw [List.length_append, hdata]
    simp only [recordSize] at *
    omega
  have hfull : recordSize * (bytes.length / recordSize) = bytes.length := by
    simp only [recordSize] at *
    omega
  rw [readAll, hcount, List.range_succ, List.map_append, List.map_singleton, hfull,
    List.drop_left, readAll]
  congr 1
  refine List.map_congr_left fun k hk => ?_
  rw [List.mem_range] at hk
  have hle : recordSize * k + recordSize ≤ bytes.length := by
    rw [← hfull, ← Nat.mul_succ]
    exact Nat.mul_le_mul_left _ hk
  rw [List.drop_append_of_le_length (by omega), ofBytes_append (by rw [List.length_drop]; omega)]

end DirectoryRecord

end PocketKernel
