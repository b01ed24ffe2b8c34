import PocketKernel.Proofs.Volume.Calls

/-!
# Runs on a RAM disk that breaks

A session is anything that can happen to a volume on a RAM disk that was all zero at first: it is
mounted, calls come in, the disk is told to refuse transfers from some point on and is healed, and
the volume is dropped and set up again. A volume may be dropped at any time, also right after a call
that was cut short.

## Main definitions

* `Event`, `Event.apply`: what can happen.
* `Session.after`: the volume that a session leaves.

## Main results

* `Session.standing`: every volume in a session is standing.
-/

namespace PocketKernel

/-- Something that happens to a volume on a RAM disk. -/
inductive Event where
  /-- The volume is mounted. -/
  | mount
  | call (call : Call)
  /-- After so many more transfers, the disk refuses all of them. -/
  | failAfter (transfers : ℕ)
  /-- The disk stops refusing transfers. -/
  | heal
  /-- The volume is dropped, and set up again on the same disk. -/
  | crash

/-- The volume after an event. -/
def Event.apply (v : Volume RamDisk) : Event → Volume RamDisk
  | mount => (v.run VolumeM.mount).2
  | call asked => (v.run asked.operation).2
  | failAfter transfers => { v with device := v.device.failAfter transfers }
  | heal => { v with device := v.device.heal }
  | crash => .unmounted v.device v.geometry

/-- An answer is what makes an option of an outcome something. -/
theorem eq_ok_of_toOption {ε α : Type} {outcome : Except ε α} {answer : α}
    (h : outcome.toOption = some answer) : outcome = .ok answer := by
  cases outcome with
  | error stop => cases h
  | ok found =>
    cases h
    rfl

namespace Session

variable {g : Geometry} {v : Volume RamDisk} {count : ℕ}

/-- The volume after several events. -/
def resume (v : Volume RamDisk) (events : List Event) : Volume RamDisk :=
  events.foldl Event.apply v

/-- The volume that a session leaves on a disk of so many sectors, all zero at first. -/
def after (g : Geometry) (count : ℕ) (events : List Event) : Volume RamDisk :=
  resume (.unmounted (RamDisk.blank count) g) events

theorem resume_append (v : Volume RamDisk) (events later : List Event) :
    resume v (events ++ later) = resume (resume v events) later :=
  List.foldl_append

theorem after_append (g : Geometry) (count : ℕ) (events later : List Event) :
    after g count (events ++ later) = resume (after g count events) later :=
  resume_append _ _ _

/-! ### A blank disk -/

theorem sectorAt_blank (g : Geometry) (count lba : ℕ) :
    (Volume.unmounted (RamDisk.blank count) g).sectorAt lba = Sector.zero := by
  show (Array.replicate count Sector.zero).getD lba Sector.zero = Sector.zero
  rw [Array.getD_eq_getD_getElem?, Array.getElem?_replicate]
  split <;> rfl

/-- A blank disk is as raw as it gets. -/
theorem raw_blank (g : Geometry) (count : ℕ) :
    (Volume.unmounted (RamDisk.blank count) g).snapshot.Raw := by
  refine ⟨fun index => ?_, .inl ?_, ?_⟩
  · simp only [Volume.snapshot, Volume.storedInode, sectorAt_blank]
    split
    · exact .inl (Inode.ofBytes_slice_zero (Nat.mod_lt _ (by decide)))
    · rename_i hge
      have hzero : index ≠ 0 := by
        rintro rfl
        exact hge g.inodeCount_pos
      exact .inr (if_neg hzero).symm
  · funext index
    simp only [Volume.snapshot, Volume.storedInodeMap, sectorAt_blank]
    exact Bitmap.isSet_empty _ _
  · funext block
    simp only [Volume.snapshot, Volume.storedBlockMap, sectorAt_blank]
    exact Bitmap.isSet_empty _ _

/-- There is no volume on a blank disk. -/
theorem not_loadable_blank (g : Geometry) (count : ℕ) :
    ¬ (Volume.unmounted (RamDisk.blank count) g).snapshot.Loadable g := by
  intro h
  have haccepted := h.accepted
  have hzero : (Volume.unmounted (RamDisk.blank count) g).snapshot.superblock = Sector.zero :=
    sectorAt_blank g count _
  rw [hzero, Geometry.not_accepts_zero] at haccepted
  cases haccepted

theorem standing_blank (g : Geometry) (count : ℕ) :
    (Volume.unmounted (RamDisk.blank count) g).Standing g :=
  ⟨rfl, (fun h => by cases h), fun _ => .inl (raw_blank g count)⟩

/-! ### Steps and runs -/

/-- Faults are not seen in the snapshot. -/
theorem snapshot_of_fault {disk : RamDisk} (hsectors : disk.sectors = v.device.sectors) :
    { v with device := disk }.snapshot = v.snapshot := by
  have hsectorAt : LawfulDevice.sectorAt disk = LawfulDevice.sectorAt v.device := by
    show (fun lba => disk.sectors.getD lba Sector.zero) = fun lba => v.device.sectors.getD lba _
    rw [hsectors]
  simp only [Volume.snapshot, Volume.storedInode, Volume.storedInodeMap, Volume.storedBlockMap,
    Volume.sectorAt, hsectorAt]

theorem placed_of_fault (hv : v.Placed g) {disk : RamDisk}
    (hsectors : disk.sectors = v.device.sectors) : { v with device := disk }.Placed g := by
  refine ⟨hv.geometry, ?_⟩
  show _ ≤ disk.sectors.size
  rw [hsectors]
  exact hv.fits

theorem shaped_of_fault (hv : v.Shaped g) {disk : RamDisk}
    (hsectors : disk.sectors = v.device.sectors) : { v with device := disk }.Shaped g :=
  ⟨hv.geometry, hv.size_inodes, hv.length_inodeMap, hv.length_blockMap,
    (placed_of_fault hv.placed hsectors).fits⟩

theorem standing_of_fault (hv : v.Standing g) {disk : RamDisk}
    (hsectors : disk.sectors = v.device.sectors) : { v with device := disk }.Standing g := by
  have hsnapshot := snapshot_of_fault hsectors
  refine ⟨hv.geometry, fun h => ⟨shaped_of_fault (hv.mounted h).1 hsectors, ?_⟩, fun h => ?_⟩
  · rw [hsnapshot]
    exact (hv.mounted h).2
  · rw [hsnapshot]
    exact hv.unmounted h

/-- **Every event keeps a volume standing.** -/
theorem standing_apply (hv : v.Standing g) (event : Event) : (event.apply v).Standing g := by
  cases event with
  | mount => exact hv.mount
  | call asked => exact hv.call asked
  | failAfter transfers => exact standing_of_fault hv rfl
  | heal => exact standing_of_fault hv rfl
  | crash =>
    refine ⟨hv.geometry, (fun h => by cases h), fun _ => ?_⟩
    exact hv.dormant.of_crash rfl

theorem standing_resume (hv : v.Standing g) (events : List Event) :
    (resume v events).Standing g := by
  induction events generalizing v with
  | nil => exact hv
  | cons event events ih => exact ih (standing_apply hv event)

/-- **Every volume in a session is standing.** -/
theorem standing (g : Geometry) (count : ℕ) (events : List Event) :
    (after g count events).Standing g :=
  standing_resume (standing_blank g count) events

end Session

end PocketKernel
