import PocketKernel.Proofs.Volume.Outcome
import PocketKernel.Proofs.Volume.Transfer
import PocketKernel.Volume.Mount

/-!
# Copying the allocation state from the device

What a volume copies from its device when it is mounted is what is stored there, so afterwards the
memory and the device agree, as after a crash. Whether it goes on depends on the superblock and the
root alone.

## Main definitions

* `Snapshot.Loadable`: there is a volume of the geometry on the device.
* `Volume.Fetched`: sectors were read, and nothing else happened.

## Main results

* `Volume.load_ends`: the copies are made, the device is refused, or a transfer is.
-/

namespace PocketKernel

/-- In a row of pieces of one width, every place belongs to one piece. -/
theorem getElem?_flatMap_of_length {α β : Type} {piece : α → List β} {width : ℕ}
    (hpos : 0 < width) (hwidth : ∀ a, (piece a).length = width) (pieces : List α) (k : ℕ) :
    (pieces.flatMap piece)[k]? = pieces[k / width]?.bind fun a => (piece a)[k % width]? := by
  induction pieces generalizing k with
  | nil => rfl
  | cons a pieces ih =>
    rw [List.flatMap_cons]
    rcases Nat.lt_or_ge k width with hlt | hge
    · rw [List.getElem?_append_left (by rw [hwidth]; exact hlt), Nat.div_eq_of_lt hlt,
        Nat.mod_eq_of_lt hlt]
      rfl
    · rw [List.getElem?_append_right (by rw [hwidth]; exact hge), hwidth, ih,
        Nat.div_eq_sub_div hpos hge, Nat.mod_eq_sub_mod hge, List.getElem?_cons_succ]

/-- There is a volume of this geometry on the device: its superblock is stored, and the root is a
directory that is in use. -/
structure Snapshot.Loadable (g : Geometry) (w : Snapshot) : Prop where
  accepted : g.accepts (Superblock.ofBytes w.superblock.bytes) = true
  directory : (w.disk.inode 0).isDirectory = true
  used : w.disk.inodeUsed 0 = true

namespace Volume

variable {δ α : Type} [BlockDevice δ] [LawfulDevice δ] {g : Geometry} {v w x : Volume δ}

/-! ### Reading sectors -/

/-- Sectors were read, and nothing else happened. -/
structure Fetched (v w : Volume δ) : Prop where
  transferred : v.Transferred w
  sectors : LawfulDevice.sectorAt w.device = LawfulDevice.sectorAt v.device

theorem Fetched.refl (v : Volume δ) : v.Fetched v := ⟨⟨rfl, rfl, id, id⟩, rfl⟩

theorem Fetched.trans (h : v.Fetched w) (h' : w.Fetched x) : v.Fetched x := by
  refine ⟨⟨?_, h'.transferred.capacity.trans h.transferred.capacity,
    h'.transferred.failed ∘ h.transferred.failed,
    h'.transferred.dependable ∘ h.transferred.dependable⟩, h'.sectors.trans h.sectors⟩
  rw [h'.transferred.copies, h.transferred.copies]

theorem Fetched.geometry (h : v.Fetched w) : w.geometry = v.geometry := by
  rw [h.transferred.copies]

theorem Fetched.snapshot (h : v.Fetched w) : w.snapshot = v.snapshot :=
  h.transferred.snapshot_eq h.sectors

theorem Fetched.faulted (h : v.Fetched w) (hfault : w.Faulted x) : v.Faulted x :=
  ⟨hfault.1, fun hdep => hfault.2 (h.transferred.dependable hdep)⟩

/-- The volume lies on a device that holds it. -/
structure Placed (g : Geometry) (v : Volume δ) : Prop where
  geometry : v.geometry = g
  fits : g.startLba + g.totalSectors ≤ BlockDevice.capacity v.device

omit [LawfulDevice δ] in
theorem Shaped.placed (hv : v.Shaped g) : v.Placed g := ⟨hv.geometry, hv.fits⟩

theorem Placed.fetched (hv : v.Placed g) (h : v.Fetched w) : w.Placed g :=
  ⟨h.geometry.trans hv.geometry, by rw [h.transferred.capacity]; exact hv.fits⟩

/-- How reading ends: with what the device holds, or with a refused transfer. -/
structure Fetches (v : Volume δ) (answer : α) (outcome : Except Stop α) (w : Volume δ) : Prop where
  fetched : v.Fetched w
  outcome : outcome = .ok answer ∨ (outcome = .error (.error .io) ∧ v.Faulted w)

theorem Placed.readSector_ends (hv : v.Placed g) {sector : ℕ} (h : sector < g.dataStart) :
    v.Ends (VolumeM.readSector (g.lba sector)) fun outcome w =>
      v.Fetches (v.sectorAt (g.lba sector)) outcome w := by
  refine (Volume.readSector_ends (Nat.lt_of_lt_of_le (g.lba_lt h) hv.fits)).mono ?_
  rintro outcome w ⟨htransferred, hsectors, ⟨rfl, -⟩ | ⟨rfl, hfault⟩⟩
  · exact ⟨⟨htransferred, hsectors⟩, .inl rfl⟩
  · exact ⟨⟨htransferred, hsectors⟩, .inr ⟨rfl, hfault⟩⟩

/-- After reading, what was read is known. -/
theorem Fetches.bind {β : Type} {first : VolumeM δ β} {next : β → VolumeM δ α} {answer : β}
    {post : Except Stop α → Volume δ → Prop}
    (hfirst : v.Ends first fun outcome w => v.Fetches answer outcome w)
    (hok : ∀ w : Volume δ, v.Fetched w → w.Ends (next answer) post)
    (hio : ∀ w : Volume δ, v.Fetched w → v.Faulted w → post (.error (.error .io)) w) :
    v.Ends (first >>= next) post := by
  refine Ends.bind hfirst ?_ ?_
  · rintro b w ⟨hvw, hanswer | ⟨⟨⟩, -⟩⟩
    cases hanswer
    exact hok w hvw
  · rintro stop w ⟨hvw, hanswer | ⟨⟨rfl⟩, hfault⟩⟩
    · cases hanswer
    · exact hio w hvw hfault

theorem mapM_readSector_ends (hv : v.Placed g) {sectors : List ℕ}
    (h : ∀ sector ∈ sectors, sector < g.dataStart) :
    v.Ends (sectors.mapM fun sector => VolumeM.readSector (g.lba sector)) fun outcome w =>
      v.Fetches (sectors.map fun sector => v.sectorAt (g.lba sector)) outcome w := by
  induction sectors generalizing v with
  | nil => exact ⟨.refl v, .inl rfl⟩
  | cons sector sectors ih =>
    rw [List.mapM_cons]
    refine Fetches.bind (hv.readSector_ends (h sector (List.mem_cons_self ..))) ?_
      fun w hvw hfault => ⟨hvw, .inr ⟨rfl, hfault⟩⟩
    intro w hvw
    have hsame : (fun s => w.sectorAt (g.lba s)) = fun s => v.sectorAt (g.lba s) := by
      funext s
      rw [sectorAt, hvw.sectors, sectorAt]
    refine Fetches.bind (ih (hv.fetched hvw) fun s hs => h s (List.mem_cons_of_mem _ hs)) ?_
      fun x hwx hfault => ⟨hvw.trans hwx, .inr ⟨rfl, hvw.faulted hfault⟩⟩
    intro x hwx
    rw [hsame]
    exact ⟨hvw.trans hwx, .inl rfl⟩

/-! ### The inode table -/

theorem getElem?_unpackInodes {sector : Sector} {slot : ℕ} (h : slot < inodesPerSector) :
    (VolumeM.unpackInodes sector)[slot]?
      = some (Inode.ofBytes (sector.slice (inodeSize * slot) inodeSize)) := by
  rw [VolumeM.unpackInodes, List.getElem?_map, List.getElem?_range h]
  rfl

/-- The inodes in sectors of the inode table, one after the other. -/
theorem getElem?_flatMap_unpackInodes (sectors : List Sector) (k : ℕ) :
    (sectors.flatMap VolumeM.unpackInodes)[k]? = sectors[k / inodesPerSector]?.map fun sector =>
      Inode.ofBytes (sector.slice (inodeSize * (k % inodesPerSector)) inodeSize) := by
  have hlength (sector : Sector) : (VolumeM.unpackInodes sector).length = inodesPerSector := by
    rw [VolumeM.unpackInodes, List.length_map, List.length_range]
  rw [getElem?_flatMap_of_length (by decide) hlength]
  cases sectors[k / inodesPerSector]? with
  | none => rfl
  | some sector => exact getElem?_unpackInodes (Nat.mod_lt _ (by decide))

/-- The inodes that a volume copies from its table. -/
def copiedInodes (v : Volume δ) : List Inode :=
  (((List.range v.geometry.tableSectors).map fun t =>
    v.sectorAt (v.geometry.lba (inodeTableStart + t))).flatMap VolumeM.unpackInodes).take
      v.geometry.inodeCount

theorem getElem?_copiedInodes (v : Volume δ) {k : ℕ} (h : k < v.geometry.inodeCount) :
    v.copiedInodes[k]? = some (v.snapshot.disk.inode k) := by
  have hsector : ((List.range v.geometry.tableSectors).map fun t =>
      v.sectorAt (v.geometry.lba (inodeTableStart + t)))[k / inodesPerSector]?
        = some (v.sectorAt (v.geometry.lba (inodeTableStart + k / inodesPerSector))) := by
    rw [List.getElem?_map, List.getElem?_range (v.geometry.div_lt_tableSectors h)]
    rfl
  rw [copiedInodes, List.getElem?_take_of_lt h, getElem?_flatMap_unpackInodes, hsector]
  simp only [Option.map_some, snapshot, if_pos h, storedInode]

theorem length_copiedInodes (v : Volume δ) : v.copiedInodes.length = v.geometry.inodeCount := by
  refine Nat.le_antisymm (List.length_take_le _ _) ?_
  have hlast := v.getElem?_copiedInodes
    (Nat.sub_lt v.geometry.inodeCount_pos Nat.one_pos : v.geometry.inodeCount - 1 < _)
  have hlt := (List.getElem?_eq_some_iff.mp hlast).1
  omega

/-- What the copies say about an index, past the end of the table as well. -/
theorem getD_copiedInodes (v : Volume δ) :
    (fun k => v.copiedInodes.toArray.getD k Inode.free) = v.snapshot.disk.inode := by
  funext k
  rw [Array.getD_eq_getD_getElem?, List.getElem?_toArray]
  by_cases hk : k < v.geometry.inodeCount
  · rw [v.getElem?_copiedInodes hk, Option.getD_some]
  · rw [List.getElem?_eq_none (by rw [length_copiedInodes]; omega), Option.getD_none]
    simp only [snapshot, if_neg hk]

theorem loadTable_ends (hv : v.Placed g) :
    v.Ends VolumeM.loadTable fun outcome w => v.Fetches v.copiedInodes outcome w := by
  unfold VolumeM.loadTable
  obtain ⟨rfl⟩ := hv.geometry
  rw [ends_get_bind]
  dsimp only
  have hmap : (((List.range v.geometry.tableSectors).map fun t => inodeTableStart + t).mapM
      fun sector => VolumeM.readSector (v.geometry.lba sector) : VolumeM δ (List Sector))
      = (List.range v.geometry.tableSectors).mapM fun t =>
        VolumeM.readSector (v.geometry.lba (inodeTableStart + t)) := by
    rw [List.mapM_map]
    rfl
  rw [← hmap]
  refine Fetches.bind (mapM_readSector_ends hv fun sector hsector => ?_) ?_
    fun w hvw hfault => ⟨hvw, .inr ⟨rfl, hfault⟩⟩
  · obtain ⟨t, ht, rfl⟩ := List.mem_map.mp hsector
    exact v.geometry.table_lt_dataStart (List.mem_range.mp ht)
  · intro w hvw
    rw [List.map_map]
    exact ⟨hvw, .inl rfl⟩

/-! ### The whole copy -/

/-- The volume with copies of what is stored. -/
def copied (v : Volume δ) : Volume δ where
  device := v.device
  geometry := v.geometry
  mounted := v.mounted
  inodeMap := v.storedInodeMap
  blockMap := v.storedBlockMap
  inodes := v.copiedInodes.toArray

theorem snapshot_copied (v : Volume δ) : v.copied.snapshot = v.snapshot.crash := by
  have hinodes := v.getD_copiedInodes
  have hmemory : v.copied.snapshot.memory = v.snapshot.disk := by
    show Image.mk (fun k => v.copiedInodes.toArray.getD k Inode.free) _ _ = _
    rw [hinodes]
    rfl
  have hleft : v.copied.snapshot = { v.snapshot with memory := v.copied.snapshot.memory } := rfl
  rw [hleft, hmemory]
  rfl

theorem shaped_copied (hv : v.Placed g) : v.copied.Shaped g := by
  obtain ⟨rfl⟩ := hv.geometry
  refine ⟨rfl, ?_, rfl, rfl, hv.fits⟩
  show v.copiedInodes.toArray.size = _
  rw [List.size_toArray, length_copiedInodes]

theorem Fetched.sectorAt_eq (h : v.Fetched w) : w.sectorAt = v.sectorAt := h.sectors

theorem head?_copiedInodes (v : Volume δ) :
    (v.copiedInodes.head?.map Inode.isDirectory).getD false
      = (v.snapshot.disk.inode 0).isDirectory := by
  rw [List.head?_eq_getElem?, v.getElem?_copiedInodes v.geometry.inodeCount_pos]
  rfl

/-- **Loading** makes the copies, or refuses what is on the device, or is refused a transfer. -/
theorem load_ends (hv : v.Placed g) :
    v.Ends VolumeM.load fun outcome w => ∃ x : Volume δ, v.Fetched x ∧
      ((outcome = .ok () ∧ v.snapshot.Loadable g ∧ w = x.copied)
        ∨ (outcome = .error (.error .corrupt) ∧ ¬ v.snapshot.Loadable g ∧ w = x)
        ∨ (outcome = .error (.error .io) ∧ v.Faulted x ∧ w = x)) := by
  obtain ⟨rfl⟩ := hv.geometry
  unfold VolumeM.load
  rw [ends_get_bind]
  dsimp only
  refine Fetches.bind (hv.readSector_ends v.geometry.superblockSector_lt) ?_
    fun x hvx hfault => ⟨x, hvx, .inr (.inr ⟨rfl, hfault, rfl⟩)⟩
  intro x₁ h₁
  cases haccepts : v.geometry.accepts
      (Superblock.ofBytes (v.sectorAt (v.geometry.lba superblockSector)).bytes) with
  | false =>
    refine ⟨x₁, h₁, .inr (.inl ⟨rfl, fun hload => ?_, rfl⟩)⟩
    have haccepted := hload.accepted
    rw [show v.snapshot.superblock = v.sectorAt (v.geometry.lba superblockSector) from rfl,
      haccepts] at haccepted
    cases haccepted
  | true =>
  show x₁.Ends (VolumeM.readSector _ >>= fun _ => _) _
  refine Fetches.bind ((hv.fetched h₁).readSector_ends v.geometry.inodeBitmapSector_lt) ?_
    fun x hx hfault => ⟨x, h₁.trans hx, .inr (.inr ⟨rfl, h₁.faulted hfault, rfl⟩)⟩
  intro x₂ h₂
  have h₁₂ := h₁.trans h₂
  refine Fetches.bind ((hv.fetched h₁₂).readSector_ends v.geometry.blockBitmapSector_lt) ?_
    fun x hx hfault => ⟨x, h₁₂.trans hx, .inr (.inr ⟨rfl, h₁₂.faulted hfault, rfl⟩)⟩
  intro x₃ h₃
  have h₁₃ := h₁₂.trans h₃
  refine Fetches.bind (loadTable_ends (hv.fetched h₁₃)) ?_
    fun x hx hfault => ⟨x, h₁₃.trans hx, .inr (.inr ⟨rfl, h₁₃.faulted hfault, rfl⟩)⟩
  intro x h₄
  have h := h₁₃.trans h₄
  have hinodes : x₃.copiedInodes = v.copiedInodes := by
    rw [copiedInodes, copiedInodes, h₁₃.sectorAt_eq, h₁₃.geometry]
  have hmap : (⟨x₁.sectorAt (v.geometry.lba inodeBitmapSector), v.geometry.inodeCount⟩ : Bitmap)
      = v.storedInodeMap := by
    rw [h₁.sectorAt_eq]
    rfl
  rw [hinodes, hmap, head?_copiedInodes]
  by_cases hroot : (!(v.snapshot.disk.inode 0).isDirectory || !v.storedInodeMap.isSet 0) = true
  · rw [if_pos hroot]
    refine ⟨x, h, .inr (.inl ⟨rfl, fun hload => ?_, rfl⟩)⟩
    have hused : v.storedInodeMap.isSet 0 = true := hload.used
    rw [hload.directory, hused] at hroot
    cases hroot
  · rw [if_neg hroot]
    simp only [Bool.or_eq_true, Bool.not_eq_true', not_or, Bool.not_eq_false] at hroot
    refine ⟨x, h, .inl ⟨rfl, ⟨haccepts, hroot.1, hroot.2⟩, ?_⟩⟩
    have hcopied : x.copied = { x with
        inodeMap := v.storedInodeMap
        blockMap := ⟨x₂.sectorAt (v.geometry.lba blockBitmapSector), v.geometry.dataBlocks⟩
        inodes := v.copiedInodes.toArray } := by
      rw [copied, storedInodeMap, storedBlockMap, copiedInodes, h.sectorAt_eq, h.geometry,
        h₁₂.sectorAt_eq]
      rfl
    rw [hcopied]
    rfl

end Volume

end PocketKernel
