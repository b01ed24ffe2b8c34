import PocketKernel.Proofs.Volume.Calls
import PocketKernel.Proofs.Volume.Format

/-!
# Stored forms carry everything

What is read from sixty bytes as an inode says all that they said, the reserved fields and a kind
byte that means nothing included: written again, it is the same bytes. A superblock says all that
its forty bytes said. So the one string of bytes that is accepted for a geometry is the stored form
of the geometry's own superblock, and no two geometries share it.

The inode table takes eight inodes to a sector, and the last sector may be filled in part. What is
stored sector by sector is read back as a whole.

## Main results

* `Inode.bytes_ofBytes`, `Superblock.bytes_ofBytes`: writing back what was read.
* `Geometry.accepts_ofBytes_iff`, `Geometry.accepts_superblock_iff`: what is accepted.
* `Volume.flush_load`: the inode table is read back.
* `Volume.stored_forms`: all of it.
-/

namespace PocketKernel

namespace Bytes

/-! ### Words -/

theorem ofUInt16_toUInt16_eq_take (bytes : List UInt8) (h : 2 ≤ bytes.length) :
    ofUInt16 (toUInt16 bytes) = bytes.take 2 := by
  have hback : ofUInt16 (toUInt16 (bytes.take 2)) = bytes.take 2 :=
    ofUInt16_toUInt16 (by rw [List.length_take, Nat.min_eq_left h])
  rwa [toUInt16, List.take_take, Nat.min_self] at hback

theorem ofUInt32_toUInt32_eq_take (bytes : List UInt8) (h : 4 ≤ bytes.length) :
    ofUInt32 (toUInt32 bytes) = bytes.take 4 := by
  have hback : ofUInt32 (toUInt32 (bytes.take 4)) = bytes.take 4 :=
    ofUInt32_toUInt32 (by rw [List.length_take, Nat.min_eq_left h])
  rwa [toUInt32, List.take_take, Nat.min_self] at hback

/-- **A row of words that was read is written back**, one word after the other. -/
theorem flatMap_ofUInt32_toUInt32 (bytes : List UInt8) (start count : ℕ)
    (h : start + 4 * count ≤ bytes.length) :
    (List.range count).flatMap (fun k => ofUInt32 (toUInt32 (bytes.drop (start + 4 * k))))
      = (bytes.drop start).take (4 * count) := by
  induction count with
  | zero => rfl
  | succ count ih =>
    have hword : 4 ≤ (bytes.drop (start + 4 * count)).length := by
      rw [List.length_drop]
      omega
    rw [List.range_succ, List.flatMap_append, ih (by omega), List.flatMap_singleton,
      ofUInt32_toUInt32_eq_take _ hword, Nat.mul_succ, List.take_add, List.drop_drop]

end Bytes

/-! ### Inodes -/

namespace Inode

theorem toList_ofFn_flatMap (word : ℕ → UInt32) (count : ℕ) :
    (Vector.ofFn fun slot : Fin count => word slot).toList.flatMap Bytes.ofUInt32
      = (List.range count).flatMap fun k => Bytes.ofUInt32 (word k) := by
  have hlist : (Vector.ofFn fun slot : Fin count => word slot).toList
      = (List.range count).map word := by
    refine List.ext_getElem (by simp) fun k hk hk' => ?_
    simp
  rw [hlist, List.flatMap_map]

/-- **What was read as an inode is written back as it was.** -/
theorem bytes_ofBytes {bytes : List UInt8} (h : bytes.length = inodeSize) :
    (ofBytes bytes).bytes = bytes := by
  have hlength : bytes.length = 60 := h
  have hhead : [bytes.getD 0 0, bytes.getD 1 0] = bytes.take 2 := by
    match bytes, hlength with
    | first :: second :: rest, _ => rfl
  have hspare := Bytes.ofUInt16_toUInt16_eq_take (bytes.drop 2) (by rw [List.length_drop]; omega)
  have hsize := Bytes.ofUInt32_toUInt32_eq_take (bytes.drop 4) (by rw [List.length_drop]; omega)
  have hparent := Bytes.ofUInt32_toUInt32_eq_take (bytes.drop 8) (by rw [List.length_drop]; omega)
  have hdirect := Bytes.flatMap_ofUInt32_toUInt32 bytes 12 8 (by omega)
  have hreserved := Bytes.flatMap_ofUInt32_toUInt32 bytes 44 4 (by omega)
  have hjoin {front back : ℕ} : bytes.take front ++ (bytes.drop front).take back
      = bytes.take (front + back) := List.take_add.symm
  rw [Inode.bytes, ofBytes]
  dsimp only
  rw [toList_ofFn_flatMap fun k => Bytes.toUInt32 (bytes.drop (12 + 4 * k)),
    toList_ofFn_flatMap fun k => Bytes.toUInt32 (bytes.drop (44 + 4 * k)),
    hhead, hspare, hsize, hparent, hdirect, hreserved, hjoin, hjoin, hjoin, hjoin, hjoin]
  exact List.take_of_length_le (Nat.le_of_eq hlength)

end Inode

/-! ### Superblocks -/

namespace Superblock

theorem length_bytes (sb : Superblock) : sb.bytes.length = 40 := by
  rw [bytes, Bytes.length_flatMap_of_width Bytes.length_ofUInt32]
  rfl

theorem ofBytes_bytes (sb : Superblock) : ofBytes sb.bytes = sb := by
  simpa using sb.ofBytes_bytes_append []

/-- **What was read as a superblock is written back as it was.** -/
theorem bytes_ofBytes {bytes : List UInt8} (h : 40 ≤ bytes.length) :
    (ofBytes bytes).bytes = bytes.take 40 := by
  have hwords : (ofBytes bytes).words
      = (List.range 10).map fun k => Bytes.toUInt32 (bytes.drop (0 + 4 * k)) := by
    simp only [Nat.zero_add]
    rfl
  rw [Superblock.bytes, hwords, List.flatMap_map,
    Bytes.flatMap_ofUInt32_toUInt32 bytes 0 10 (by omega)]
  rfl

end Superblock

namespace Geometry

variable {g g' : Geometry}

/-- **One string of forty bytes is accepted.** -/
theorem accepts_ofBytes_iff {bytes : List UInt8} (h : 40 ≤ bytes.length) :
    g.accepts (Superblock.ofBytes bytes) = true ↔ bytes.take 40 = g.superblock.bytes := by
  rw [accepts, decide_eq_true_iff, ← Superblock.bytes_ofBytes h]
  refine ⟨congrArg Superblock.bytes, fun hbytes => ?_⟩
  rw [← Superblock.ofBytes_bytes (.ofBytes bytes), hbytes, Superblock.ofBytes_bytes]

theorem totalSectors_lt (g : Geometry) : g.totalSectors < UInt32.size :=
  Nat.lt_of_le_of_lt (Nat.le_add_left ..) g.end_lt

theorem startLba_lt (g : Geometry) : g.startLba < UInt32.size :=
  Nat.lt_of_le_of_lt (Nat.le_add_right ..) g.end_lt

theorem inodeCount_lt (g : Geometry) : g.inodeCount < UInt32.size :=
  Nat.lt_of_le_of_lt g.inodeCount_le (by decide)

/-- **A superblock tells its geometry.** -/
theorem superblock_injective : Function.Injective superblock := by
  intro g g' h
  have hword {n n' : ℕ} (hn : n < UInt32.size) (hn' : n' < UInt32.size)
      (heq : UInt32.ofNat n = UInt32.ofNat n') : n = n' := by
    rwa [← UInt32.toNat_inj, UInt32.toNat_ofNat_of_lt' hn, UInt32.toNat_ofNat_of_lt' hn'] at heq
  have hstart := hword g.startLba_lt g'.startLba_lt (congrArg Superblock.startLba h)
  have htotal := hword g.totalSectors_lt g'.totalSectors_lt (congrArg Superblock.totalSectors h)
  have hcount := hword g.inodeCount_lt g'.inodeCount_lt (congrArg Superblock.inodeCount h)
  cases g
  cases g'
  dsimp only at hstart htotal hcount
  subst hstart htotal hcount
  rfl

/-- The stored form of a geometry's superblock is accepted for that geometry only. -/
theorem accepts_superblock_iff :
    g'.accepts (Superblock.ofBytes g.superblock.bytes) = true ↔ g' = g := by
  rw [accepts, decide_eq_true_iff, Superblock.ofBytes_bytes, superblock_injective.eq_iff]
  exact eq_comm

/-- A stored superblock in which a byte was changed is not accepted. -/
theorem not_accepts_changed {position : ℕ} {byte : UInt8}
    (hne : g.superblock.bytes[position]? ≠ some byte) (hlt : position < 40) :
    g.accepts (Superblock.ofBytes (g.superblock.bytes.set position byte)) = false := by
  have hlength := g.superblock.length_bytes
  have hlength' : (g.superblock.bytes.set position byte).length = 40 :=
    List.length_set.trans hlength
  rw [Bool.eq_false_iff, Ne, accepts_ofBytes_iff (Nat.le_of_eq hlength'.symm),
    List.take_of_length_le (Nat.le_of_eq hlength')]
  intro hsame
  rw [← hsame, List.getElem?_set_self (by omega)] at hne
  exact hne rfl

end Geometry

/-! ### The inode table -/

namespace Volume

variable {δ : Type} [BlockDevice δ] [LawfulDevice δ] {g : Geometry} {v w : Volume δ}

/-- All sectors of the table are stored, and then the table is read. -/
def flushAndLoad : VolumeM δ (List Inode) := do
  let g := (← get).geometry
  (List.range g.tableSectors).forM VolumeM.flushTableSector
  VolumeM.loadTable

/-- Once all its sectors are stored, a table is on the device as it is in memory. -/
theorem copiedInodes_of_published (hv : v.Shaped g) (hw : w.Shaped g)
    (h : w.snapshot = v.snapshot.publishAll (List.range g.tableSectors)) :
    w.copiedInodes = v.inodes.toList := by
  have hlength := w.length_copiedInodes
  rw [hw.geometry] at hlength
  refine List.ext_getElem? fun k => ?_
  rcases Nat.lt_or_ge k g.inodeCount with hlt | hge
  · have hstored : w.snapshot.disk.inode k = v.snapshot.memory.inode k := by
      rw [h]
      exact if_pos (List.mem_range.mpr (g.div_lt_tableSectors hlt))
    rw [w.getElem?_copiedInodes (by rw [hw.geometry]; exact hlt), hstored, Array.getElem?_toList]
    exact (hv.getElem?_inodes hlt).symm
  · rw [List.getElem?_eq_none (by omega),
      List.getElem?_eq_none (by rw [Array.length_toList, hv.size_inodes]; exact hge)]

/-- **The inode table is read back** as it was stored. -/
theorem flush_load (hv : v.Shaped g) (hdependable : LawfulDevice.Dependable v.device) :
    (v.run flushAndLoad).1 = .ok v.inodes.toList := by
  show v.Ends flushAndLoad fun outcome _ => outcome = .ok v.inodes.toList
  unfold flushAndLoad
  rw [ends_get_bind, hv.geometry]
  refine Ends.bind (forM_flushTableSector_ends hv fun t ht => List.mem_range.mp ht) ?_ ?_
  · rintro ⟨⟩ w ⟨hcontinues, ⟨-, hw⟩ | ⟨⟨⟩, -⟩⟩
    refine (loadTable_ends hcontinues.shaped.placed).mono fun outcome x hx => ?_
    rw [← copiedInodes_of_published hv hcontinues.shaped hw]
    exact hx.outcome.resolve_right fun hio => hio.2.2 (hcontinues.dependable hdependable)
  · rintro stop w ⟨-, ⟨⟨⟩, -⟩ | ⟨-, hfault, -⟩⟩
    exact absurd hdependable hfault.2

/-- A volume on a blank disk, with a table of inodes in memory. -/
def withTable (g : Geometry) (table : List Inode) : Volume RamDisk :=
  { unmounted (RamDisk.blank (g.startLba + g.totalSectors)) g with inodes := table.toArray }

theorem shaped_withTable {table : List Inode} (h : table.length = g.inodeCount) :
    (withTable g table).Shaped g where
  geometry := rfl
  size_inodes := h
  length_inodeMap := rfl
  length_blockMap := rfl
  fits := Nat.le_of_eq (Array.size_replicate).symm

/-- Every table that a bitmap can describe is the table of a volume. -/
theorem exists_withTable {table : List Inode} (hpos : 0 < table.length)
    (hle : table.length ≤ bitsPerSector) : ∃ g, (withTable g table).Shaped g := by
  have hsectors : tableSectorsFor table.length ≤ bitsPerSector := by
    simp only [tableSectorsFor, inodesPerSector, bitsPerSector] at *
    omega
  let g : Geometry :=
    { startLba := 0
      totalSectors := inodeTableStart + tableSectorsFor table.length + 1
      inodeCount := table.length
      inodeCount_pos := hpos
      inodeCount_le := hle
      table_lt := Nat.lt_succ_self _
      blocks_le := by
        simp only [bitsPerSector]
        omega
      end_lt := by
        simp only [inodeTableStart, bitsPerSector, UInt32.size] at *
        omega }
  exact ⟨g, shaped_withTable rfl⟩

/-- **Stored forms carry everything.** Sixty bytes and an inode stand for each other. Whatever the
number of inodes, a table that is stored sector by sector and read again is the same, and all tables
that a bitmap can describe can be stored. For each geometry, one string of forty bytes is accepted
as its superblock: no other geometry accepts it, and it is not accepted with a byte changed. -/
theorem stored_forms :
    (∀ bytes : List UInt8, bytes.length = inodeSize → (Inode.ofBytes bytes).bytes = bytes)
      ∧ (∀ inode : Inode, inode.bytes.length = inodeSize ∧ Inode.ofBytes inode.bytes = inode)
      ∧ (∀ (g : Geometry) (v : Volume δ), v.Shaped g → LawfulDevice.Dependable v.device →
        (v.run flushAndLoad).1 = .ok v.inodes.toList)
      ∧ (∀ table : List Inode, 0 < table.length → table.length ≤ bitsPerSector → ∃ g,
        (withTable g table).Shaped g ∧ ((withTable g table).run flushAndLoad).1 = .ok table)
      ∧ (∀ g : Geometry, g.superblock.bytes.length = 40
        ∧ ∀ bytes : List UInt8, bytes.length = 40 →
          (g.accepts (Superblock.ofBytes bytes) = true ↔ bytes = g.superblock.bytes))
      ∧ (∀ g g' : Geometry,
        g'.accepts (Superblock.ofBytes g.superblock.bytes) = true ↔ g' = g)
      ∧ ∀ (g : Geometry), ∀ position < 40, ∀ byte : UInt8,
        g.superblock.bytes[position]? ≠ some byte →
          g.accepts (Superblock.ofBytes (g.superblock.bytes.set position byte)) = false := by
  refine ⟨fun bytes => Inode.bytes_ofBytes, fun inode => ⟨inode.length_bytes, ?_⟩,
    fun g v => flush_load, fun table hpos hle => ?_, fun g => ⟨g.superblock.length_bytes,
      fun bytes hlength => ?_⟩, fun g g' => Geometry.accepts_superblock_iff,
    fun g position hlt byte hne => Geometry.not_accepts_changed hne hlt⟩
  · simpa using inode.ofBytes_bytes_append []
  · obtain ⟨g, hshaped⟩ := exists_withTable hpos hle
    exact ⟨g, hshaped, flush_load hshaped rfl⟩
  · rw [Geometry.accepts_ofBytes_iff (Nat.le_of_eq hlength.symm),
      List.take_of_length_le (Nat.le_of_eq hlength)]

/-- Ten inodes, of which the last two have a sector to themselves; an inode of which no field means
anything; and a superblock with a flaw. -/
theorem stored_forms_ragged :
    let table := List.replicate 9 Inode.free ++ [Inode.empty .directory 7]
    (∃ g, (withTable g table).Shaped g ∧ ((withTable g table).run flushAndLoad).1 = .ok table)
      ∧ (Inode.ofBytes (List.replicate 60 0xFF)).kind = .free
      ∧ (Inode.ofBytes (List.replicate 60 0xFF)).bytes = List.replicate 60 0xFF
      ∧ Geometry.tiny.superblock.bytes[4]? = some 1
      ∧ Geometry.tiny.accepts (Superblock.ofBytes (Geometry.tiny.superblock.bytes.set 4 2))
        = false := by
  intro table
  obtain ⟨hbytes, -, -, htable, -, -, hchanged⟩ := @stored_forms RamDisk _ _
  exact ⟨htable table (by decide) (by decide), by decide, hbytes _ List.length_replicate,
    by decide, hchanged .tiny 4 (by decide) 2 (by decide)⟩

end Volume

end PocketKernel
