import PocketKernel.Proofs.Volume.Settled

/-!
# What a write does to a volume

The many ways a write can end have a lot in common, and this is what callers go on with: the volume
is sound, only the content of one inode changed, and a settled volume is settled again unless a
transfer was refused. For a directory it is also known what its records are.

## Main definitions

* `Volume.Rewrites`: what all ends of a write have in common.

## Main results

* `Volume.writeFile_ends`: a write to something that is not a directory.
* `Volume.appendRecord_ends`: a record is appended, or appended in memory alone, or not at all.
-/

namespace PocketKernel

namespace Inode

variable (x : Inode)

theorem size_grownTo {last : ℕ} (h : last ≤ maxFileSize) :
    (x.grownTo last).size.toNat = max x.size.toNat last := by
  have hlast : (UInt32.ofNat last).toNat = last :=
    UInt32.toNat_ofNat_of_lt' (Nat.lt_of_le_of_lt h (by decide))
  show (max x.size (UInt32.ofNat last)).toNat = _
  rw [show max x.size (UInt32.ofNat last)
    = if x.size ≤ UInt32.ofNat last then UInt32.ofNat last else x.size from rfl]
  by_cases hle : x.size ≤ UInt32.ofNat last
  · have hle' := UInt32.le_iff_toNat_le.mp hle
    rw [if_pos hle]
    omega
  · have hle' := mt UInt32.le_iff_toNat_le.mpr hle
    rw [if_neg hle]
    omega

theorem blockAt_grownTo (last slot : ℕ) : (x.grownTo last).blockAt slot = x.blockAt slot := rfl

theorem kin_grownTo (last : ℕ) : (x.grownTo last).Kin x := ⟨rfl, rfl⟩

end Inode

namespace Snapshot

variable {g : Geometry} {index offset : ℕ} {data : List UInt8} {w mid : Snapshot}

/-- Pointers of a known inode are not all the same. -/
theorem Sound.ne_blank_of_direct (hw : w.Sound g) (hknown : w.Known g index) {x : Inode}
    (hx : x.direct = (w.memory.inode index).direct) : x ≠ Inode.blank := by
  rintro rfl
  have hpointers (slot : ℕ) : (w.memory.inode index).blockAt slot = Inode.blank.blockAt slot := by
    rw [Inode.blockAt, ← hx, Inode.blockAt]
  have hzero : (w.memory.inode index).blockAt 0 = some 0 := (hpointers 0).trans (by decide)
  have hone : (w.memory.inode index).blockAt 1 = some 0 := (hpointers 1).trans (by decide)
  exact absurd (hw.owned_once (hknown.owns hzero) (hknown.owns hone)).2 (by decide)

/-- An inode may take the size that its bytes reach. -/
theorem Sound.admits_grownTo (hw : w.Sound g) (hknown : w.Known g index)
    (hend : offset + data.length ≤ maxFileSize)
    (hle : offset ≤ (w.memory.inode index).size.toNat)
    (hholds : w.Holds (w.memory.inode index) offset data)
    (hlisting : (w.memory.inode index).isDirectory = true →
      w.Listing g ((w.memory.inode index).grownTo (offset + data.length))) :
    w.Admits g index ((w.memory.inode index).grownTo (offset + data.length)) where
  ne_blank := hw.ne_blank_of_direct hknown rfl
  block_lt h := hw.owned_lt (hknown.owns h)
  block_used c _ _ h := hw.owned_used c (hknown.owns h)
  block_once h h' := (hw.owned_once (hknown.owns h) (hknown.owns h')).2
  block_apart h howns := hw.owned_once howns (hknown.owns h)
  filled := by
    have hfilled := hw.filled .memory index
    rw [image_memory] at hfilled
    refine ⟨?_, fun position hposition => ?_⟩
    · rw [Inode.size_grownTo _ hend]
      exact Nat.max_le.mpr ⟨hfilled.size_le, hend⟩
    · rw [Inode.size_grownTo _ hend] at hposition
      rw [Inode.blockAt_grownTo]
      by_cases hin : position < (w.memory.inode index).size.toNat
      · exact hfilled.block position hin
      · have hblock := (hholds (position - offset) (by omega)).1
        rwa [Nat.add_sub_cancel' (by omega)] at hblock
  live_used c h := hw.live_used c h
  known_parent := hw.known_parent .memory index
  root h := by
    subst h
    exact ⟨hw.root_directory .memory, hw.root_parent .memory⟩
  listing := hlisting
  grown hdirectory hsize := by
    obtain ⟨hmemory, hsize'⟩ := hw.grown hdirectory hsize
    refine ⟨hmemory, ?_⟩
    rw [Inode.size_grownTo _ hend]
    exact Nat.le_trans hsize' (Nat.le_max_left _ _)

end Snapshot

namespace Volume

variable {δ : Type} [BlockDevice δ] [LawfulDevice δ] {g : Geometry} {v w x : Volume δ}
  {index offset : ℕ} {data : List UInt8} {truncate : Bool} {base mid : Snapshot}
  {outcome : Except Stop ℕ}

/-- What all ends of a write to an inode have in common. -/
structure Rewrites (g : Geometry) (index : ℕ) (v w : Volume δ) : Prop where
  continues : v.Continues g w
  sound : w.snapshot.Sound g
  reworks : v.snapshot.Reworks index w.snapshot
  settled : v.snapshot.Settled → v.Faulted w ∨ w.snapshot.Settled

theorem Rewrites.refl (hv : v.Shaped g) (hw : v.snapshot.Sound g) (index : ℕ) :
    v.Rewrites g index v :=
  ⟨hv.continues, hw, .refl _ _, .inr⟩

/-- Nothing was done but an error reported. -/
theorem Rewrites.of_eq (hw : v.snapshot.Sound g) (hvw : v.Continues g w)
    (h : w.snapshot = v.snapshot) : v.Rewrites g index w :=
  ⟨hvw, by rw [h]; exact hw, by rw [h]; exact .refl _ _, fun hsettled => .inr (by rwa [h])⟩

theorem reworks_emptied {w : Snapshot} : w.Reworks index (w.emptied index) := by
  have hdetach : w.Reworks index ((w.putInode index (w.memory.inode index).detached).publish
      (index / inodesPerSector)) := by
    refine (Snapshot.reworks_putInode (x := (w.memory.inode index).detached) ⟨rfl, rfl⟩
      fun h => ?_).trans (Snapshot.reworks_publish _)
    rw [Inode.blockAt_detached] at h
    cases h
  refine ⟨fun k hk => (hdetach.spares k hk).trans (Snapshot.spares_clearBlocks _), ?_,
    hdetach.memory_kin, hdetach.disk_kin, hdetach.gained, fun {block} hused => ?_⟩
  · rintro (_ | _) <;> rfl
  · by_cases hown : ∃ slot, (w.memory.inode index).blockAt slot = some block
    · exact .inr hown
    · exact .inl (Snapshot.blockUsed_clearBlocks hused fun slot hslot => hown ⟨slot, hslot⟩)

theorem reworks_base {w : Snapshot} (h : w.Base index truncate base) :
    w.Reworks index base := by
  cases h with
  | kept => exact .refl _ _
  | emptied => exact reworks_emptied.trans Snapshot.reworks_storeBlockMap
  | nothing => exact reworks_emptied

/-- **The second half of a write, as callers see it.** The size that an inode gets is right; for a
directory that depends on what was written. -/
theorem Chunked.rewrites (h : v.Chunked g index offset data truncate base mid outcome w)
    (hvw : v.Continues g w)
    (hbehind : (base.memory.inode index).isDirectory = true →
      (base.memory.inode index).size.toNat ≤ offset)
    (hlisting : mid.Holds (mid.memory.inode index) offset data →
      (mid.memory.inode index).isDirectory = true →
      mid.Listing g ((mid.memory.inode index).grownTo (offset + data.length))) :
    v.Rewrites g index w := by
  have hmid := h.extended.sound h.sound h.known hbehind
  have hreworks := (reworks_base h.start).trans (h.extended.reworks h.sound h.known)
  have hkin := (mid.memory.inode index).kin_grownTo (offset + data.length)
  have hadmits (hholds : mid.Holds (mid.memory.inode index) offset data) :=
    hmid.admits_grownTo (h.known.extended h.extended) h.fits
      (by rw [h.extended.size_eq]; exact h.reached) hholds (hlisting hholds)
  cases h.wrote with
  | stored hholds hw =>
    refine ⟨hvw, ?_, ?_, fun hv => .inr ?_⟩
    · rw [hw]
      exact (hmid.putInode (hadmits hholds)).publish _
    · rw [hw]
      exact hreworks.trans ((Snapshot.reworks_putInode hkin id).trans (Snapshot.reworks_publish _))
    · rw [hw]
      exact (hv.of_base h.start).publish h.extended rfl (hadmits hholds).ne_blank
  | unstored hholds hfault hw =>
    refine ⟨hvw, ?_, ?_, fun _ => .inl hfault⟩
    · rw [hw]
      exact hmid.putInode (hadmits hholds)
    · rw [hw]
      exact hreworks.trans (Snapshot.reworks_putInode hkin id)
  | full hfull hw =>
    refine ⟨hvw, ?_, ?_, fun hv => .inr ?_⟩
    · rw [hw]
      exact hmid.publish _
    · rw [hw]
      exact hreworks.trans (Snapshot.reworks_publish _)
    · rw [hw]
      have hpublish := (hv.of_base h.start).publish h.extended rfl h.extended.ne_blank
      rwa [Snapshot.putInode, Function.update_eq_self] at hpublish
  | fullUnstored hfull hfault hw =>
    exact ⟨hvw, by rw [hw]; exact hmid, by rw [hw]; exact hreworks, fun _ => .inl hfault⟩
  | cut hfault hw =>
    exact ⟨hvw, by rw [hw]; exact hmid, by rw [hw]; exact hreworks, fun _ => .inl hfault⟩

/-- **A write to a file.** If it succeeded, the inode is stored. -/
theorem writeFile_ends (hv : v.Shaped g) (hw : v.snapshot.Sound g)
    (hknown : v.snapshot.Known g index)
    (hfile : (v.snapshot.memory.inode index).isDirectory = false) (truncate : Bool) :
    v.Ends (VolumeM.writeContent index offset data truncate) fun outcome w =>
      v.Rewrites g index w ∧ ∀ count, outcome = .ok count →
        w.snapshot.memory.inode index ≠ Inode.blank
          ∧ w.snapshot.disk.inode index = w.snapshot.memory.inode index := by
  have hnot {y : Inode} (hy : y.isDirectory = false) {p : Prop} (h : y.isDirectory = true) : p := by
    rw [hy] at h
    cases h
  refine (writeContent_ends hv hw hknown (fun _ => hfile) (hnot hfile)).mono ?_
  rintro outcome w ⟨hvw, ⟨cause, rfl, -, rfl⟩ | ⟨rfl, hfault, -, hstate⟩
    | ⟨base, mid, hchunked⟩⟩
  · exact ⟨.refl hv hw index, fun _ h => by cases h⟩
  · refine ⟨?_, fun _ h => by cases h⟩
    rcases hstate with hsame | hemptied
    · exact .of_eq hw hvw hsame
    · refine ⟨hvw, ?_, ?_, fun _ => .inl hfault⟩
      · rw [hemptied]
        exact hw.emptied hknown hfile
      · rw [hemptied]
        exact reworks_emptied
  · have hfile' : (base.memory.inode index).isDirectory = false := by
      rw [(reworks_base hchunked.start).memory_kin.isDirectory_eq, hfile]
    have hmid : (mid.memory.inode index).isDirectory = false := by
      have hsame := hchunked.extended.isDirectory_eq .memory index
      rwa [Snapshot.image_memory, Snapshot.image_memory, hfile'] at hsame
    refine ⟨hchunked.rewrites hvw (hnot hfile') fun _ => hnot hmid, ?_⟩
    intro count hcount
    cases hchunked.wrote with
    | stored hholds hw =>
      rw [hw]
      refine ⟨?_, if_pos rfl⟩
      have hmid := hchunked.extended.sound hchunked.sound hchunked.known (hnot hfile')
      show (mid.putInode index _).memory.inode index ≠ Inode.blank
      rw [Snapshot.memory_putInode]
      exact hmid.ne_blank_of_direct (hchunked.known.extended hchunked.extended) rfl
    | unstored => cases hcount
    | full => cases hcount
    | fullUnstored => cases hcount
    | cut => cases hcount

end Volume

/-! ### Appending to a directory -/

namespace Snapshot

variable {g : Geometry} {index : ℕ} {data : List UInt8} {w mid : Snapshot}

/-- What stands in an inode whose size reaches over bytes that were written. -/
theorem Extended.content_grownTo {offset : ℕ} (hfilled : (w.memory.inode index).Filled)
    (h : Extended g index offset (offset + data.length) w mid)
    (hoffset : offset ≤ (w.memory.inode index).size.toNat)
    (hend : offset + data.length ≤ maxFileSize)
    (hholds : mid.Holds (mid.memory.inode index) offset data) :
    mid.content ((mid.memory.inode index).grownTo (offset + data.length))
      = Bytes.splice (w.content (w.memory.inode index)) offset data := by
  have hlength : offset ≤ (w.content (w.memory.inode index)).length := by
    rw [length_content]
    exact hoffset
  apply List.ext_getElem?
  intro position
  rw [Bytes.getElem?_splice data hlength, content, content, List.getElem?_map, List.getElem?_map,
    Inode.size_grownTo _ hend, h.size_eq]
  by_cases hin : offset ≤ position ∧ position < offset + data.length
  · have hbyte := (hholds (position - offset) (by omega)).2
    rw [Nat.add_sub_cancel' hin.1] at hbyte
    rw [if_pos hin, List.getElem?_range (by omega), List.getElem?_eq_getElem (by omega)]
    exact congrArg some hbyte
  · rw [if_neg hin]
    rcases Nat.lt_or_ge position (w.memory.inode index).size.toNat with hlt | hge
    · rw [List.getElem?_range (by omega), List.getElem?_range hlt]
      exact congrArg some (h.bytes hin (hfilled.block position hlt))
    · rw [List.getElem?_eq_none (by rw [List.length_range]; omega),
        List.getElem?_eq_none (by rw [List.length_range]; exact hge)]
      rfl

/-- The records of a directory with one more behind them. -/
theorem Extended.records_grownTo {record : DirectoryRecord} {offset : ℕ}
    (hfilled : (w.memory.inode index).Filled)
    (hmod : (w.memory.inode index).size.toNat % recordSize = 0)
    (h : Extended g index offset (offset + record.bytes.length) w mid)
    (hoffset : offset = (w.memory.inode index).size.toNat)
    (hend : offset + record.bytes.length ≤ maxFileSize)
    (hholds : mid.Holds (mid.memory.inode index) offset record.bytes) :
    mid.records ((mid.memory.inode index).grownTo (offset + record.bytes.length))
      = w.records (w.memory.inode index) ++ [DirectoryRecord.ofBytes record.bytes] := by
  subst hoffset
  have happend := Bytes.splice_length (w.content (w.memory.inode index)) record.bytes
  rw [length_content] at happend
  rw [records, h.content_grownTo hfilled (Nat.le_refl _) hend hholds, happend, records,
    DirectoryRecord.readAll_append (by rw [length_content]; exact hmod) record.length_bytes]

theorem DirectoryRecord.target_ofBytes (record : DirectoryRecord) :
    (DirectoryRecord.ofBytes record.bytes).target = record.target := by
  have h := record.target_ofBytes_bytes []
  rwa [List.append_nil] at h

/-- A directory may take a record that leads to a known inode other than the root. -/
theorem Extended.listing_grownTo {record : DirectoryRecord} {offset : ℕ}
    (hw : w.Sound g) (hdirectory : (w.memory.inode index).isDirectory = true)
    (htarget : w.Known g record.target.toNat) (hroot : record.target.toNat ≠ 0)
    (h : Extended g index offset (offset + record.bytes.length) w mid)
    (hoffset : offset = (w.memory.inode index).size.toNat)
    (hend : offset + record.bytes.length ≤ maxFileSize)
    (hholds : mid.Holds (mid.memory.inode index) offset record.bytes) :
    mid.Listing g ((mid.memory.inode index).grownTo (offset + record.bytes.length)) := by
  have hlisting := hw.listing .memory hdirectory
  rw [image_memory] at hlisting
  have hrecords := h.records_grownTo (hw.filled .memory index) hlisting.size_mod hoffset hend hholds
  have hmem {r : DirectoryRecord} (hr : r ∈ mid.records
      ((mid.memory.inode index).grownTo (offset + record.bytes.length))) :
      r ∈ w.records (w.memory.inode index) ∨ r.target = record.target := by
    rw [hrecords, List.mem_append, List.mem_singleton] at hr
    refine hr.imp_right ?_
    rintro rfl
    exact DirectoryRecord.target_ofBytes record
  refine ⟨?_, fun r hr => ?_, fun r hr => ?_, fun r hr => ?_⟩
  · have hmod := hlisting.size_mod
    rw [Inode.size_grownTo _ hend, h.size_eq, ← hoffset, record.length_bytes]
    rw [← hoffset] at hmod
    simp only [recordSize] at *
    omega
  · rcases hmem hr with hold | hnew
    · exact hlisting.target_lt r hold
    · rw [hnew]
      exact htarget.lt
  · rcases hmem hr with hold | hnew
    · exact hlisting.target_ne_zero r hold
    · rw [hnew]
      exact hroot
  · rw [h.disk_inode]
    rcases hmem hr with hold | hnew
    · exact hlisting.target_stored r hold
    · rw [hnew]
      exact htarget.ne_blank .disk

end Snapshot

namespace Volume

variable {δ : Type} [BlockDevice δ] [LawfulDevice δ] {g : Geometry} {v w : Volume δ} {index : ℕ}

/-- How an attempt to append a record ends, as the records of the directory in memory tell. -/
inductive Appended (v : Volume δ) (index : ℕ) (record : DirectoryRecord) :
    Except Stop Unit → Volume δ → Prop
  /-- The record was appended and stored. -/
  | stored {w : Volume δ} : w.snapshot.records (w.snapshot.memory.inode index)
      = v.snapshot.records (v.snapshot.memory.inode index)
        ++ [DirectoryRecord.ofBytes record.bytes] →
      Appended v index record (.ok ()) w
  /-- The record was appended in memory, but the size of the directory could not be stored. -/
  | unstored {w : Volume δ} : v.Faulted w → w.snapshot.records (w.snapshot.memory.inode index)
      = v.snapshot.records (v.snapshot.memory.inode index)
        ++ [DirectoryRecord.ofBytes record.bytes] →
      Appended v index record (.error (.error .io)) w
  /-- The record was not appended. -/
  | none {w : Volume δ} (cause : VolumeError) :
      w.snapshot.records (w.snapshot.memory.inode index)
        = v.snapshot.records (v.snapshot.memory.inode index) →
      Appended v index record (.error (.error cause)) w

/-- The write of a record behind the end of a directory. -/
theorem writeRecord_ends (hv : v.Shaped g) (hw : v.snapshot.Sound g)
    (hknown : v.snapshot.Known g index)
    (hdirectory : (v.snapshot.memory.inode index).isDirectory = true) (record : DirectoryRecord)
    (htarget : v.snapshot.Known g record.target.toNat) (hroot : record.target.toNat ≠ 0) :
    v.Ends (VolumeM.writeContent index (v.snapshot.memory.inode index).size.toNat record.bytes
        false) fun outcome w =>
      v.Rewrites g index w ∧ v.Appended index record (outcome.map fun _ => ()) w := by
  refine (writeContent_ends hv hw hknown (fun h => by cases h) fun _ => Nat.le_refl _).mono ?_
  rintro outcome w ⟨hvw, ⟨cause, rfl, -, rfl⟩ | ⟨-, -, ⟨⟩, -⟩
    | ⟨base, mid, hchunked⟩⟩
  · exact ⟨.refl hv hw index, .none cause rfl⟩
  obtain ⟨⟩ := hchunked.start
  have hend := hchunked.fits
  have hextended := hchunked.extended
  have hfilled := hw.filled .memory index
  have hmod := (hw.listing .memory hdirectory).size_mod
  rw [Snapshot.image_memory] at hfilled hmod
  refine ⟨hchunked.rewrites hvw (fun _ => Nat.le_refl _) fun hholds _ =>
    hextended.listing_grownTo hw hdirectory htarget hroot rfl hend hholds, ?_⟩
  have hsame := hextended.records_eq hw hknown (fun _ => Nat.le_refl _) .memory hdirectory
  rw [Snapshot.image_memory, Snapshot.image_memory] at hsame
  have hgrown (hholds) := hextended.records_grownTo hfilled hmod rfl hend hholds
  cases hchunked.wrote with
  | stored hholds hw =>
    refine .stored ?_
    rw [hw, ← hgrown hholds]
    exact congrArg (mid.records ·) (Snapshot.memory_putInode _ _)
  | unstored hholds hfault hw =>
    refine .unstored hfault ?_
    rw [hw, ← hgrown hholds]
    exact congrArg (mid.records ·) (Snapshot.memory_putInode _ _)
  | full hfull hw =>
    refine .none _ ?_
    rw [hw, ← hsame]
    rfl
  | fullUnstored hfull hfault hw => exact .none _ (by rw [hw, hsame])
  | cut hfault hw => exact .none _ (by rw [hw, hsame])

/-- **A record is appended**, or appended in memory alone, or not at all. -/
theorem appendRecord_ends (hv : v.Shaped g) (hw : v.snapshot.Sound g)
    (hknown : v.snapshot.Known g index)
    (hdirectory : (v.snapshot.memory.inode index).isDirectory = true) (record : DirectoryRecord)
    (htarget : v.snapshot.Known g record.target.toNat) (hroot : record.target.toNat ≠ 0) :
    v.Ends (VolumeM.appendRecord index record) fun outcome w =>
      v.Rewrites g index w ∧ v.Appended index record outcome w := by
  have hmod := (hw.listing .memory hdirectory).size_mod
  rw [Snapshot.image_memory] at hmod
  unfold VolumeM.appendRecord
  rw [ends_findInode_bind hv hknown.lt]
  simp only [hmod, ne_eq, not_true_eq_false, if_false]
  refine Ends.attempt_bind (writeRecord_ends hv hw hknown hdirectory record htarget hroot) ?_ ?_ ?_
  · rintro count w ⟨hrewrites, happended⟩
    exact ⟨hrewrites, happended⟩
  · rintro cause w ⟨hrewrites, happended⟩
    cases happended with
    | unstored hfault hrecords => exact ⟨hrewrites, .unstored hfault hrecords⟩
    | none _ hrecords =>
      split
      · rename_i heq
        cases heq
      · exact ⟨hrewrites, .none _ hrecords⟩
      · rename_i heq
        cases heq
        exact ⟨hrewrites, .none _ hrecords⟩
  · rintro w ⟨hrewrites, happended⟩
    exact ⟨hrewrites, happended⟩

end Volume

end PocketKernel
