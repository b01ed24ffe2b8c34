import PocketKernel.Proofs.Volume.Load
import PocketKernel.Proofs.Volume.Sound

/-!
# Formatting and mounting

A device that was never used, or on which formatting was cut short, is `Snapshot.Raw`: every sector
of the metadata is either as it came or as formatting leaves it. Enough of a raw device for mounting
to accept it is a sound volume. A volume that was used before is never formatted again, because only
a refused transfer can make loading fail, and then nothing can be written either.

## Main definitions

* `Image.formatted`: the copy that formatting makes.
* `Snapshot.Raw`, `Snapshot.Dormant`: what is on the device of a volume that is not mounted.
* `Volume.Mounts`: all the ways in which mounting ends.

## Main results

* `Snapshot.Raw.sound`: a raw device that is accepted is sound.
* `Volume.format_ends`, `Volume.mount_ends`.
-/

namespace PocketKernel

/-- The copy that formatting makes: an empty root, and nothing else. -/
def Image.formatted : Image where
  inode index := if index = 0 then Inode.empty .directory 0 else Inode.free
  inodeUsed index := decide (index = 0)
  blockUsed _ := false

namespace Image

theorem blockAt_formatted (index slot : ℕ) : (formatted.inode index).blockAt slot = none := by
  simp only [formatted]
  split
  · exact Inode.blockAt_empty _ _
  · exact Inode.blockAt_free

theorem size_formatted (index : ℕ) : (formatted.inode index).size = 0 := by
  simp only [formatted]
  split
  · rfl
  · rfl

theorem parent_formatted (index : ℕ) : (formatted.inode index).parent = 0 := by
  simp only [formatted]
  split
  · rfl
  · rfl

theorem isLive_formatted (index : ℕ) : (formatted.inode index).isLive = decide (index = 0) := by
  by_cases h : index = 0
  · subst h
    rfl
  · simp only [formatted, h, decide_false]
    rfl

end Image

namespace Snapshot

variable {g : Geometry} {w w' : Snapshot}

/-- Every sector of the metadata is as it came or as formatting leaves it. -/
structure Raw (w : Snapshot) : Prop where
  inode : ∀ index, w.disk.inode index = Inode.blank
    ∨ w.disk.inode index = Image.formatted.inode index
  inodeUsed : w.disk.inodeUsed = (fun _ => false) ∨ w.disk.inodeUsed = Image.formatted.inodeUsed
  blockUsed : w.disk.blockUsed = fun _ => false

/-- What is on the device of a volume that is not mounted. -/
def Dormant (g : Geometry) (w : Snapshot) : Prop := w.Raw ∨ w.crash.Sound g

theorem Raw.crash (h : w.Raw) : w.crash.Raw := ⟨h.inode, h.inodeUsed, h.blockUsed⟩

/-- The state of the device is all that counts. -/
theorem Raw.of_crash (h : w.Raw) (heq : w'.crash = w.crash) : w'.Raw := by
  have hraw := h.crash
  rw [← heq] at hraw
  exact ⟨hraw.inode, hraw.inodeUsed, hraw.blockUsed⟩

theorem Dormant.of_crash (h : w.Dormant g) (heq : w'.crash = w.crash) : w'.Dormant g := by
  rcases h with hraw | hsound
  · exact .inl (hraw.of_crash heq)
  · right
    rwa [heq]

theorem Raw.cases_inode (h : w.Raw) (c : Copy) (index : ℕ) :
    (w.crash.image c).inode index = Inode.blank
      ∨ (w.crash.image c).inode index = Image.formatted.inode index := by
  cases c with
  | memory => exact h.inode index
  | disk => exact h.inode index

theorem Raw.size_eq (h : w.Raw) (c : Copy) (index : ℕ) :
    ((w.crash.image c).inode index).size = 0 := by
  rcases h.cases_inode c index with hblank | hformatted
  · rw [hblank]; rfl
  · rw [hformatted]; exact Image.size_formatted index

/-- **A raw device that is accepted is sound.** -/
theorem Raw.sound (h : w.Raw) (hload : w.Loadable g) : w.crash.Sound g := by
  have hroot (c : Copy) : (w.crash.image c).inode 0 = Image.formatted.inode 0 := by
    rcases h.cases_inode c 0 with hblank | hformatted
    · have hdirectory := hload.directory
      cases c <;> exact absurd ((congrArg Inode.isDirectory hblank).symm.trans hdirectory)
        (by decide)
    · exact hformatted
  have howns {c : Copy} {index slot block : ℕ} :
      ¬ (w.crash.image c).Owns index slot block := by
    rintro ⟨hne, hblock⟩
    rcases h.cases_inode c index with hblank | hformatted
    · exact hne hblank
    · rw [hformatted, Image.blockAt_formatted] at hblock
      cases hblock
  have hparent (c : Copy) (index : ℕ) : ((w.crash.image c).inode index).parent = 0 := by
    rcases h.cases_inode c index with hblank | hformatted
    · rw [hblank]; rfl
    · rw [hformatted]; exact Image.parent_formatted index
  have hlive {index : ℕ} (hlive : (w.disk.inode index).isLive = true) : index = 0 := by
    rcases h.inode index with hblank | hformatted
    · rw [hblank, Inode.not_isLive_blank] at hlive
      cases hlive
    · rw [hformatted, Image.isLive_formatted] at hlive
      exact of_decide_eq_true hlive
  have hused (c : Copy) : (w.crash.image c).inodeUsed 0 = true := by
    cases c <;> exact hload.used
  have hknown : w.crash.Known g 0 := by
    refine ⟨g.inodeCount_pos, hused, fun c => ?_⟩
    rw [hroot c]
    decide
  exact {
    accepted := hload.accepted
    owned_lt := fun h => absurd h howns
    owned_used := fun _ _ _ _ h => absurd h howns
    owned_once := fun h => absurd h howns
    filled := fun c index => Inode.filled_of_size (h.size_eq c index)
    live_used := fun c index h => by rw [hlive h]; exact hused c
    stored_used := fun h =>
      ⟨by rw [hlive h]; exact hused .disk, .inl (by rw [hlive h]; exact hused .memory)⟩
    known_parent := fun c index => by rw [hparent c index]; exact hknown
    root_directory := fun c => by rw [hroot c]; rfl
    root_parent := fun c => hparent c 0
    written := id
    listing := fun c index _ => listing_of_size (h.size_eq c index)
    grown := fun h _ => ⟨h, Nat.le_refl _⟩ }

/-- Store several sectors of the inode table. -/
def publishAll (w : Snapshot) (tableSectors : List ℕ) : Snapshot :=
  { w with disk.inode := fun index =>
      if index / inodesPerSector ∈ tableSectors then w.memory.inode index else w.disk.inode index }

theorem publishAll_nil : w.publishAll [] = w := by
  simp only [publishAll, List.not_mem_nil, if_false]

theorem publishAll_publish (tableSector : ℕ) (tableSectors : List ℕ) :
    (w.publish tableSector).publishAll tableSectors
      = w.publishAll (tableSector :: tableSectors) := by
  have hinode : (fun index => if index / inodesPerSector ∈ tableSectors then w.memory.inode index
        else if index / inodesPerSector = tableSector then w.memory.inode index
        else w.disk.inode index)
      = fun index => if index / inodesPerSector ∈ tableSector :: tableSectors
        then w.memory.inode index else w.disk.inode index := by
    funext index
    by_cases hmem : index / inodesPerSector ∈ tableSectors
    · simp [hmem]
    · simp [hmem]
  simp only [publishAll, publish, hinode]

/-- While formatting stores what it has made, the device stays raw. -/
theorem Raw.publishAll (h : w.Raw) (hmemory : w.memory = Image.formatted)
    (tableSectors : List ℕ) : (w.publishAll tableSectors).Raw := by
  refine ⟨fun index => ?_, h.inodeUsed, h.blockUsed⟩
  by_cases hmem : index / inodesPerSector ∈ tableSectors
  · right
    rw [← hmemory]
    exact if_pos hmem
  · have hsame : (w.publishAll tableSectors).disk.inode index = w.disk.inode index := if_neg hmem
    rw [hsame]
    exact h.inode index

end Snapshot

namespace Volume

variable {δ : Type} [BlockDevice δ] [LawfulDevice δ] {g : Geometry} {v w x : Volume δ}

/-! ### Formatting -/

theorem storeSuperblock_ends (hv : v.Shaped g) (sector : Sector) :
    v.Ends (VolumeM.writeSector (g.lba superblockSector) sector) fun outcome w =>
      v.Continues g w ∧ v.Stores { v.snapshot with superblock := sector } outcome w := by
  obtain ⟨rfl⟩ := hv.geometry
  refine hv.writeSector_ends _ (v.geometry.lba_lt v.geometry.superblockSector_lt) ?_
  intro w htransferred hsectors
  rw [htransferred.copies]
  simp only [snapshot, storedInode, storedInodeMap, storedBlockMap,
    sectorAt, hsectors, Function.update_self,
    Function.update_of_ne (mt v.geometry.lba_inj.mp superblockSector_ne_inodeBitmapSector.symm),
    Function.update_of_ne (mt v.geometry.lba_inj.mp superblockSector_ne_blockBitmapSector.symm),
    Function.update_of_ne (mt v.geometry.lba_inj.mp (superblockSector_ne_table _).symm),
    Function.update_of_ne (v.geometry.blockLba_ne_lba v.geometry.superblockSector_lt _)]

theorem forM_flushTableSector_ends (hv : v.Shaped g) {tableSectors : List ℕ}
    (h : ∀ t ∈ tableSectors, t < g.tableSectors) :
    v.Ends (tableSectors.forM VolumeM.flushTableSector) fun outcome w => v.Continues g w ∧
      ((outcome = .ok () ∧ w.snapshot = v.snapshot.publishAll tableSectors)
        ∨ (outcome = .error (.error .io) ∧ v.Faulted w
          ∧ ∃ stored, w.snapshot = v.snapshot.publishAll stored)) := by
  induction tableSectors generalizing v with
  | nil => exact ⟨hv.continues, .inl ⟨rfl, Snapshot.publishAll_nil.symm⟩⟩
  | cons t tableSectors ih =>
    refine Ends.bind (flushTableSector_ends hv (h t (List.mem_cons_self ..))) ?_ ?_
    · rintro ⟨⟩ w ⟨hvw, ⟨-, -, hw⟩ | ⟨⟨⟩, -⟩⟩
      refine (ih hvw.shaped fun s hs => h s (List.mem_cons_of_mem _ hs)).mono ?_
      rw [hw]
      rintro outcome x ⟨hwx, ⟨rfl, hx⟩ | ⟨rfl, hfault, stored, hx⟩⟩
      · exact ⟨hvw.trans hwx, .inl ⟨rfl, by rw [hx, Snapshot.publishAll_publish]⟩⟩
      · exact ⟨hvw.trans hwx, .inr ⟨rfl, .of_continues hvw hfault, t :: stored,
          by rw [hx, Snapshot.publishAll_publish]⟩⟩
    · rintro stop w ⟨hvw, ⟨⟨⟩, -⟩ | ⟨⟨rfl⟩, hfault, hw⟩⟩
      exact ⟨hvw, .inr ⟨rfl, hfault, [], by rw [hw, Snapshot.publishAll_nil]⟩⟩

/-- The volume with the copies that formatting makes. -/
def prepared (v : Volume δ) : Volume δ where
  device := v.device
  geometry := v.geometry
  mounted := v.mounted
  inodeMap := (Bitmap.empty v.geometry.inodeCount).set 0
  blockMap := Bitmap.empty v.geometry.dataBlocks
  inodes := (Array.replicate v.geometry.inodeCount Inode.free).setIfInBounds 0
    (Inode.empty .directory 0)

omit [LawfulDevice δ] in
theorem shaped_prepared (hv : v.Placed g) : v.prepared.Shaped g := by
  obtain ⟨rfl⟩ := hv.geometry
  exact ⟨rfl, by simp [prepared], Bitmap.length_set _ _, rfl, hv.fits⟩

theorem memory_prepared (v : Volume δ) : v.prepared.snapshot.memory = Image.formatted := by
  have hpos := v.geometry.inodeCount_pos
  have hinode : (fun k => v.prepared.inodes.getD k Inode.free) = Image.formatted.inode := by
    funext k
    by_cases hk : k = 0
    · subst hk
      simp [prepared, Image.formatted, hpos]
    · by_cases hlt : k < v.geometry.inodeCount
      · simp [prepared, Image.formatted, hk, Ne.symm hk, hlt]
      · simp [prepared, Image.formatted, hk, hlt]
  have hused : v.prepared.inodeMap.isSet = Image.formatted.inodeUsed := by
    funext k
    have hfit : (Bitmap.empty v.geometry.inodeCount).FitsSector := v.geometry.inodeCount_le
    rw [prepared, Bitmap.isSet_set hfit hpos, Bitmap.isSet_empty, Bool.or_false]
    rfl
  have hblocks : v.prepared.blockMap.isSet = Image.formatted.blockUsed := by
    funext k
    exact Bitmap.isSet_empty _ k
  exact Image.ext hinode hused hblocks

theorem snapshot_prepared (v : Volume δ) :
    v.prepared.snapshot = { v.snapshot with memory := Image.formatted } := by
  rw [← v.memory_prepared]
  rfl

/-- What a completely formatted volume holds. -/
def formattedSnapshot (v : Volume δ) : Snapshot where
  memory := Image.formatted
  disk := Image.formatted
  superblock := Sector.ofBytes v.geometry.superblock.bytes
  block := v.snapshot.block

/-- Once all sectors of the table are stored, they hold the table that was prepared. -/
theorem inode_published (v : Volume δ) :
    (fun index => if index / inodesPerSector ∈ List.range v.geometry.tableSectors
      then Image.formatted.inode index else v.snapshot.disk.inode index)
        = Image.formatted.inode := by
  funext index
  by_cases hlt : index < v.geometry.inodeCount
  · rw [if_pos (List.mem_range.mpr (v.geometry.div_lt_tableSectors hlt))]
  · have hpos := v.geometry.inodeCount_pos
    have hout : v.snapshot.disk.inode index = Image.formatted.inode index := by
      have hzero : index ≠ 0 := by omega
      simp only [snapshot, if_neg hlt, Image.formatted, if_neg hzero]
    rw [hout, ite_self]

/-- **Formatting** stores a fresh volume, or is interrupted. A device that was failed already is
left as it was, and one that was raw stays so. -/
theorem format_ends (hv : v.Placed g) :
    v.Ends VolumeM.format fun outcome w => v.prepared.Continues g w ∧
      ((outcome = .ok () ∧ ¬ LawfulDevice.Failed v.device ∧ w.snapshot = v.formattedSnapshot)
        ∨ (outcome = .error (.error .io) ∧ v.Faulted w
          ∧ (LawfulDevice.Failed v.device → w.snapshot.crash = v.snapshot.crash)
          ∧ (v.snapshot.Raw → w.snapshot.Raw))) := by
  unfold VolumeM.format
  rw [ends_get_bind]
  dsimp only
  rw [ends_modify_bind]
  change v.prepared.Ends _ _
  have hshaped := shaped_prepared hv
  have hprepared := v.snapshot_prepared
  obtain ⟨rfl⟩ := hv.geometry
  refine Ends.bind (storeSuperblock_ends hshaped _) ?_ ?_
  rotate_left
  · rintro stop w ⟨hvw, ⟨⟨⟩, -⟩ | ⟨⟨rfl⟩, hfault, hw⟩⟩
    rw [hprepared] at hw
    refine ⟨hvw, .inr ⟨rfl, hfault, fun _ => by rw [hw]; rfl, fun hraw => ?_⟩⟩
    rw [hw]
    exact ⟨hraw.inode, hraw.inodeUsed, hraw.blockUsed⟩
  rintro ⟨⟩ x₁ ⟨h₁, ⟨-, hnot, hx₁⟩ | ⟨⟨⟩, -⟩⟩
  -- from here on the device was not failed at the start
  have hfailed {p : Prop} (h : LawfulDevice.Failed v.device) : p := absurd h hnot
  rw [hprepared] at hx₁
  refine Ends.bind (flushInodeMap_ends h₁.shaped) ?_ ?_
  rotate_left
  · rintro stop w ⟨hvw, ⟨⟨⟩, -⟩ | ⟨⟨rfl⟩, hfault, hw⟩⟩
    rw [hx₁] at hw
    refine ⟨h₁.trans hvw, .inr ⟨rfl, .of_continues (v := v.prepared) h₁ hfault, hfailed,
      fun hraw => ?_⟩⟩
    rw [hw]
    exact ⟨hraw.inode, hraw.inodeUsed, hraw.blockUsed⟩
  rintro ⟨⟩ x₂ ⟨h₂, ⟨-, -, hx₂⟩ | ⟨⟨⟩, -⟩⟩
  rw [hx₁] at hx₂
  have h₁₂ := h₁.trans h₂
  refine Ends.bind (flushBlockMap_ends h₂.shaped) ?_ ?_
  rotate_left
  · rintro stop w ⟨hvw, ⟨⟨⟩, -⟩ | ⟨⟨rfl⟩, hfault, hw⟩⟩
    rw [hx₂] at hw
    refine ⟨h₁₂.trans hvw, .inr ⟨rfl, .of_continues (v := v.prepared) h₁₂ hfault, hfailed,
      fun hraw => ?_⟩⟩
    rw [hw]
    exact ⟨hraw.inode, .inr rfl, hraw.blockUsed⟩
  rintro ⟨⟩ x₃ ⟨h₃, ⟨-, -, hx₃⟩ | ⟨⟨⟩, -⟩⟩
  rw [hx₂] at hx₃
  have h₁₃ := h₁₂.trans h₃
  refine (forM_flushTableSector_ends h₃.shaped fun t ht => List.mem_range.mp ht).mono ?_
  rw [hx₃]
  rintro outcome w ⟨h₄, ⟨rfl, hw⟩ | ⟨rfl, hfault, stored, hw⟩⟩
  · refine ⟨h₁₃.trans h₄, .inl ⟨rfl, hnot, ?_⟩⟩
    rw [hw]
    show Snapshot.mk _ ⟨fun index => if index / inodesPerSector ∈ List.range v.geometry.tableSectors
        then Image.formatted.inode index else v.snapshot.disk.inode index, _, _⟩ _ _ = _
    rw [v.inode_published]
    rfl
  · refine ⟨h₁₃.trans h₄, .inr ⟨rfl, .of_continues (v := v.prepared) h₁₃ hfault, hfailed,
      fun hraw => ?_⟩⟩
    rw [hw]
    refine Snapshot.Raw.publishAll ⟨?_, ?_, ?_⟩ rfl stored
    · exact hraw.inode
    · exact .inr rfl
    · rfl

/-! ### Mounting -/

theorem Fetched.mounted (h : v.Fetched w) : w.mounted = v.mounted := by
  rw [h.transferred.copies]

theorem Fetched.formattedSnapshot (h : v.Fetched w) :
    w.formattedSnapshot = v.formattedSnapshot := by
  rw [Volume.formattedSnapshot, Volume.formattedSnapshot, h.geometry, h.snapshot]

omit [LawfulDevice δ] in
theorem Shaped.opened (hv : v.Shaped g) : { v with mounted := true }.Shaped g :=
  ⟨hv.geometry, hv.size_inodes, hv.length_inodeMap, hv.length_blockMap, hv.fits⟩

/-- How mounting a volume that is not mounted ends. -/
inductive Mounts (g : Geometry) (v : Volume δ) : Except Stop Unit → Volume δ → Prop
  /-- The device is too small. -/
  | tooSmall : BlockDevice.capacity v.device < g.startLba + g.totalSectors →
      Mounts g v (.error (.error .noSpace)) v
  /-- The copies were made. -/
  | loaded {w : Volume δ} : w.mounted = true → w.Shaped g → v.snapshot.Loadable g →
      w.snapshot = v.snapshot.crash → Mounts g v (.ok ()) w
  /-- There was no volume on the device, and now there is. -/
  | formatted {w : Volume δ} : w.mounted = true → w.Shaped g → ¬ v.snapshot.Loadable g →
      w.snapshot = v.formattedSnapshot → Mounts g v (.ok ()) w
  /-- A transfer was refused before anything was stored. -/
  | refused {w : Volume δ} : w.mounted = false → w.Placed g → v.Faulted w →
      w.snapshot.crash = v.snapshot.crash → Mounts g v (.error (.error .io)) w
  /-- Formatting was interrupted. -/
  | interrupted {w : Volume δ} : w.mounted = false → w.Placed g → v.Faulted w →
      ¬ v.snapshot.Loadable g → (v.snapshot.Raw → w.snapshot.Raw) →
      Mounts g v (.error (.error .io)) w

/-- **Mounting.** -/
theorem mount_ends (hgeometry : v.geometry = g) (hmounted : v.mounted = false) :
    v.Ends VolumeM.mount fun outcome w => v.Mounts g outcome w
      ∧ (LawfulDevice.Dependable v.device → LawfulDevice.Dependable w.device) := by
  unfold VolumeM.mount
  rw [ends_get_bind]
  obtain rfl := hgeometry
  rw [if_neg (by rw [hmounted]; decide)]
  by_cases hsmall : BlockDevice.capacity v.device < v.geometry.startLba + v.geometry.totalSectors
  · rw [if_pos hsmall]
    exact ⟨.tooSmall hsmall, id⟩
  rw [if_neg hsmall]
  have hv : v.Placed v.geometry := ⟨rfl, Nat.le_of_not_lt hsmall⟩
  refine Ends.attempt_bind (load_ends hv) ?_ ?_ ?_
  · rintro ⟨⟩ w ⟨x, hx, ⟨-, hload, rfl⟩ | ⟨⟨⟩, -⟩ | ⟨⟨⟩, -⟩⟩
    refine ⟨.loaded rfl (shaped_copied (hv.fetched hx)).opened hload ?_,
      hx.transferred.dependable⟩
    rw [← hx.snapshot, ← x.snapshot_copied]
    rfl
  · rintro cause x ⟨x, hx, ⟨⟨⟩, -⟩ | ⟨⟨rfl⟩, hload, rfl⟩ | ⟨⟨rfl⟩, hfault, rfl⟩⟩
    · refine Ends.bind (format_ends (hv.fetched hx)) ?_ ?_
      · rintro ⟨⟩ w ⟨hxw, ⟨-, -, hw⟩ | ⟨⟨⟩, -⟩⟩
        rw [hx.formattedSnapshot] at hw
        exact ⟨.formatted rfl hxw.shaped.opened hload hw,
          hxw.dependable ∘ hx.transferred.dependable⟩
      · rintro stop w ⟨hxw, ⟨⟨⟩, -⟩ | ⟨⟨rfl⟩, hfault, -, hraw⟩⟩
        rw [hx.snapshot] at hraw
        exact ⟨.interrupted (hxw.mounted.trans (hx.mounted.trans hmounted)) hxw.shaped.placed
          (hx.faulted hfault) hload hraw, hxw.dependable ∘ hx.transferred.dependable⟩
    -- the device refuses a transfer now, so formatting it refuses as well
    · refine Ends.bind (format_ends (hv.fetched hx)) ?_ ?_
      · rintro ⟨⟩ w ⟨-, ⟨-, hnot, -⟩ | ⟨⟨⟩, -⟩⟩
        exact absurd hfault.1 hnot
      · rintro stop w ⟨hxw, ⟨⟨⟩, -⟩ | ⟨⟨rfl⟩, -, hsame, -⟩⟩
        refine ⟨.refused (hxw.mounted.trans (hx.mounted.trans hmounted)) hxw.shaped.placed
          ⟨hxw.failed hfault.1, hfault.2⟩ ?_, hxw.dependable ∘ hx.transferred.dependable⟩
        rw [hsame hfault.1, hx.snapshot]
  · rintro w ⟨x, hx, ⟨⟨⟩, -⟩ | ⟨⟨⟩, -⟩ | ⟨⟨⟩, -⟩⟩

end Volume

end PocketKernel
