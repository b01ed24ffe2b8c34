import Mathlib.Logic.Function.Basic
import PocketKernel.Disk.Ram

/-!
# Lawful devices

`BlockDevice` says how a device is asked for a transfer, and nothing of what comes of it. A lawful
device can be looked at from outside, and its transfers do what they say: a read that succeeds
gives the sector, a write that succeeds replaces that sector and no other, and a transfer that is
refused changes nothing.

Two states of a device matter to a volume on it. A *failed* device refuses every transfer from
now on; a transfer inside the device that is refused leaves it failed. A *dependable* device never
refuses a transfer inside it. A device need be neither.

## Main definitions

* `LawfulDevice`: the laws.
* the instance for `RamDisk`: failed with an empty budget, dependable with no fault armed.
-/

namespace PocketKernel

/-- A device whose transfers do what they say. -/
class LawfulDevice (δ : Type) [BlockDevice δ] where
  /-- What a sector holds, seen from outside. -/
  sectorAt : δ → Nat → Sector
  /-- Every transfer will be refused. -/
  Failed : δ → Prop
  /-- No transfer inside the device will be refused. -/
  Dependable : δ → Prop
  capacity_read (lba : Nat) (device : δ) :
    BlockDevice.capacity (BlockDevice.read lba device).2 = BlockDevice.capacity device
  capacity_write (lba : Nat) (sector : Sector) (device : δ) :
    BlockDevice.capacity (BlockDevice.write lba sector device).2 = BlockDevice.capacity device
  sectorAt_read (lba : Nat) (device : δ) :
    sectorAt (BlockDevice.read lba device).2 = sectorAt device
  eq_sectorAt_of_read {lba : Nat} {device : δ} {sector : Sector} :
    (BlockDevice.read lba device).1 = .ok sector → sector = sectorAt device lba
  sectorAt_write {lba : Nat} {sector : Sector} {device : δ} :
    (BlockDevice.write lba sector device).1 = .ok () →
      sectorAt (BlockDevice.write lba sector device).2
        = Function.update (sectorAt device) lba sector
  sectorAt_refused {lba : Nat} {sector : Sector} {device : δ} {cause : DiskError} :
    (BlockDevice.write lba sector device).1 = .error cause →
      sectorAt (BlockDevice.write lba sector device).2 = sectorAt device
  failed_of_read {lba : Nat} {device : δ} {cause : DiskError} :
    lba < BlockDevice.capacity device → (BlockDevice.read lba device).1 = .error cause →
      Failed (BlockDevice.read lba device).2
  failed_of_write {lba : Nat} {sector : Sector} {device : δ} {cause : DiskError} :
    lba < BlockDevice.capacity device → (BlockDevice.write lba sector device).1 = .error cause →
      Failed (BlockDevice.write lba sector device).2
  read_of_failed (lba : Nat) {device : δ} : Failed device →
    (∃ cause, (BlockDevice.read lba device).1 = .error cause)
      ∧ Failed (BlockDevice.read lba device).2
  write_of_failed (lba : Nat) (sector : Sector) {device : δ} : Failed device →
    (∃ cause, (BlockDevice.write lba sector device).1 = .error cause)
      ∧ Failed (BlockDevice.write lba sector device).2
  read_of_dependable {lba : Nat} {device : δ} : Dependable device →
    lba < BlockDevice.capacity device →
      (∃ sector, (BlockDevice.read lba device).1 = .ok sector)
        ∧ Dependable (BlockDevice.read lba device).2
  write_of_dependable {lba : Nat} (sector : Sector) {device : δ} : Dependable device →
    lba < BlockDevice.capacity device →
      (BlockDevice.write lba sector device).1 = .ok ()
        ∧ Dependable (BlockDevice.write lba sector device).2

namespace RamDisk

variable {disk : RamDisk} {lba : Nat}

/-! ### What a RAM disk grants -/

theorem grant_of_none (h : disk.faultAfter = none) (hlba : lba < disk.capacity) :
    disk.grant lba = .ok disk := by
  simp only [grant, if_pos hlba, h]

theorem grant_of_zero (h : disk.faultAfter = some 0) (lba : Nat) :
    ∃ cause, disk.grant lba = .error cause := by
  by_cases hlba : lba < disk.capacity
  · exact ⟨.deviceFault, by simp only [grant, if_pos hlba, h]⟩
  · exact ⟨.outOfRange, by simp only [grant, if_neg hlba]⟩

/-- What is granted is a transfer of the same sectors, inside the disk. -/
theorem sectors_of_grant {granted : RamDisk} (h : disk.grant lba = .ok granted) :
    granted.sectors = disk.sectors ∧ lba < disk.sectors.size := by
  unfold grant at h
  split at h
  · rename_i hlba
    split at h
    · cases h; exact ⟨rfl, hlba⟩
    · cases h
    · cases h; exact ⟨rfl, hlba⟩
  · cases h

/-- Inside the disk, only an empty budget refuses. -/
theorem faultAfter_of_grant {cause : DiskError} (hlba : lba < disk.capacity)
    (h : disk.grant lba = .error cause) : disk.faultAfter = some 0 := by
  simp only [grant, if_pos hlba] at h
  split at h
  · cases h
  · assumption
  · cases h

theorem read_granted {granted : RamDisk} (h : disk.grant lba = .ok granted) :
    read lba disk = (.ok (granted.sectors.getD lba Sector.zero),
      { granted with reads := granted.reads + 1 }) := by
  simp only [read, h]

theorem read_refused {cause : DiskError} (h : disk.grant lba = .error cause) :
    read lba disk = (.error cause, disk) := by
  simp only [read, h]

theorem write_granted {granted : RamDisk} (sector : Sector) (h : disk.grant lba = .ok granted) :
    write lba sector disk = (.ok (), { granted with
      sectors := granted.sectors.setIfInBounds lba sector
      writes := granted.writes + 1 }) := by
  simp only [write, h]

theorem write_refused {cause : DiskError} (sector : Sector) (h : disk.grant lba = .error cause) :
    write lba sector disk = (.error cause, disk) := by
  simp only [write, h]

theorem getD_setIfInBounds (sectors : Array Sector) (sector : Sector) (h : lba < sectors.size) :
    (fun k => (sectors.setIfInBounds lba sector).getD k Sector.zero)
      = Function.update (fun k => sectors.getD k Sector.zero) lba sector := by
  funext k
  by_cases hk : k = lba
  · subst hk
    simp [h]
  · simp [Function.update_of_ne hk, Ne.symm hk]

/-! ### The laws -/

instance : LawfulDevice RamDisk where
  sectorAt disk lba := disk.sectors.getD lba Sector.zero
  Failed disk := disk.faultAfter = some 0
  Dependable disk := disk.faultAfter = none
  capacity_read lba disk := by
    show (read lba disk).2.capacity = disk.capacity
    cases h : disk.grant lba with
    | ok granted =>
      rw [read_granted h, capacity, capacity, ← (sectors_of_grant h).1]
    | error cause => rw [read_refused h]
  capacity_write lba sector disk := by
    show (write lba sector disk).2.capacity = disk.capacity
    cases h : disk.grant lba with
    | ok granted =>
      rw [write_granted sector h, capacity, capacity, ← (sectors_of_grant h).1]
      exact Array.size_setIfInBounds
    | error cause => rw [write_refused sector h]
  sectorAt_read lba disk := by
    show (fun k => (read lba disk).2.sectors.getD k Sector.zero) = _
    cases h : disk.grant lba with
    | ok granted => rw [read_granted h, ← (sectors_of_grant h).1]
    | error cause => rw [read_refused h]
  eq_sectorAt_of_read {lba disk sector} hread := by
    have hread : (read lba disk).1 = .ok sector := hread
    cases h : disk.grant lba with
    | ok granted =>
      rw [read_granted h, (sectors_of_grant h).1] at hread
      exact (Except.ok.inj hread).symm
    | error cause => rw [read_refused h] at hread; cases hread
  sectorAt_write {lba sector disk} hwrite := by
    have hwrite : (write lba sector disk).1 = .ok () := hwrite
    show (fun k => (write lba sector disk).2.sectors.getD k Sector.zero) = _
    cases h : disk.grant lba with
    | ok granted =>
      rw [write_granted sector h, (sectors_of_grant h).1]
      exact getD_setIfInBounds disk.sectors sector (sectors_of_grant h).2
    | error cause => rw [write_refused sector h] at hwrite; cases hwrite
  sectorAt_refused {lba sector disk cause} hwrite := by
    have hwrite : (write lba sector disk).1 = .error cause := hwrite
    show (fun k => (write lba sector disk).2.sectors.getD k Sector.zero) = _
    cases h : disk.grant lba with
    | ok granted => rw [write_granted sector h] at hwrite; cases hwrite
    | error cause => rw [write_refused sector h]
  failed_of_read {lba disk cause} hlba hread := by
    have hread : (read lba disk).1 = .error cause := hread
    show (read lba disk).2.faultAfter = some 0
    cases h : disk.grant lba with
    | ok granted => rw [read_granted h] at hread; cases hread
    | error cause => rw [read_refused h]; exact faultAfter_of_grant hlba h
  failed_of_write {lba sector disk cause} hlba hwrite := by
    have hwrite : (write lba sector disk).1 = .error cause := hwrite
    show (write lba sector disk).2.faultAfter = some 0
    cases h : disk.grant lba with
    | ok granted => rw [write_granted sector h] at hwrite; cases hwrite
    | error cause => rw [write_refused sector h]; exact faultAfter_of_grant hlba h
  read_of_failed lba disk hfailed := by
    obtain ⟨cause, h⟩ := grant_of_zero hfailed lba
    show (∃ cause, (read lba disk).1 = .error cause) ∧ (read lba disk).2.faultAfter = some 0
    rw [read_refused h]
    exact ⟨⟨cause, rfl⟩, hfailed⟩
  write_of_failed lba sector disk hfailed := by
    obtain ⟨cause, h⟩ := grant_of_zero hfailed lba
    show (∃ cause, (write lba sector disk).1 = .error cause)
      ∧ (write lba sector disk).2.faultAfter = some 0
    rw [write_refused sector h]
    exact ⟨⟨cause, rfl⟩, hfailed⟩
  read_of_dependable {lba disk} hdisk hlba := by
    show (∃ sector, (read lba disk).1 = .ok sector) ∧ (read lba disk).2.faultAfter = none
    rw [read_granted (grant_of_none hdisk hlba)]
    exact ⟨⟨_, rfl⟩, hdisk⟩
  write_of_dependable {lba} sector {disk} hdisk hlba := by
    show (write lba sector disk).1 = .ok () ∧ (write lba sector disk).2.faultAfter = none
    rw [write_granted sector (grant_of_none hdisk hlba)]
    exact ⟨rfl, hdisk⟩

end RamDisk

end PocketKernel
