import PocketKernel.Disk.Device

/-!
# RAM disks

A disk that lives in memory. It can be told to break: once `faultAfter` is armed with a number,
that many further transfers succeed and every later one fails, until the disk is healed. Transfers
that succeed are counted. A sector past the end is refused before the fault is looked at, and a
refused transfer neither counts nor uses up the budget.

`peek` and `poke` look at the sectors from outside, past faults and counters.

## Main definitions

* `RamDisk`, `RamDisk.blank`: the disk, and a fresh one that is all zero.
* `RamDisk.read`, `RamDisk.write`: the transfers.
* `RamDisk.failAfter`, `RamDisk.heal`: arm and clear the fault.
-/

namespace PocketKernel

/-- A disk in memory, with an optional fault to come and counts of the transfers so far. -/
structure RamDisk where
  /-- The sectors of the disk. -/
  sectors : Array Sector
  /-- How many more transfers will succeed, if a fault is armed. -/
  faultAfter : Option Nat
  /-- The sectors read so far. -/
  reads : Nat
  /-- The sectors written so far. -/
  writes : Nat
deriving DecidableEq

namespace RamDisk

/-- A healthy disk of `count` zero sectors. -/
def blank (count : Nat) : RamDisk where
  sectors := Array.replicate count Sector.zero
  faultAfter := none
  reads := 0
  writes := 0

/-- The number of sectors. -/
def capacity (disk : RamDisk) : Nat := disk.sectors.size

/-- Let exactly `transfers` more transfers succeed. -/
def failAfter (disk : RamDisk) (transfers : Nat) : RamDisk :=
  { disk with faultAfter := some transfers }

/-- Clear an armed fault. -/
def heal (disk : RamDisk) : RamDisk :=
  { disk with faultAfter := none }

/-- Look at a sector from outside; `none` past the end. -/
def peek (disk : RamDisk) (lba : Nat) : Option Sector := disk.sectors[lba]?

/-- Replace the bytes of a sector from position `start` on, from outside. -/
def poke (disk : RamDisk) (lba start : Nat) (data : List UInt8) : RamDisk :=
  { disk with sectors := disk.sectors.modify lba (·.overlay start data) }

/-- Ask for one transfer of sector `lba`: it is refused past the end or when the budget is used
up, and otherwise takes one from the budget. -/
def grant (disk : RamDisk) (lba : Nat) : Except DiskError RamDisk :=
  if lba < disk.capacity then
    match disk.faultAfter with
    | none => .ok disk
    | some 0 => .error .deviceFault
    | some (left + 1) => .ok { disk with faultAfter := some left }
  else
    .error .outOfRange

/-- Fetch a sector. -/
def read (lba : Nat) : StateM RamDisk (Except DiskError Sector) := fun disk =>
  match disk.grant lba with
  | .ok disk => (.ok (disk.sectors.getD lba Sector.zero), { disk with reads := disk.reads + 1 })
  | .error cause => (.error cause, disk)

/-- Store a sector. -/
def write (lba : Nat) (sector : Sector) : StateM RamDisk (Except DiskError Unit) := fun disk =>
  match disk.grant lba with
  | .ok disk =>
    (.ok (), { disk with
      sectors := disk.sectors.setIfInBounds lba sector
      writes := disk.writes + 1 })
  | .error cause => (.error cause, disk)

instance : BlockDevice RamDisk where
  capacity := capacity
  read := read
  write := write

end RamDisk

end PocketKernel
