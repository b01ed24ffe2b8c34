import PocketKernel.Ata.Bus
import PocketKernel.Bytes.LittleEndian

/-!
# ATA drives

The driver of the one drive on a channel. It polls and never waits for an interrupt. A drive has
to be identified before it is used, which tells how many sectors it has; a drive that reports none
counts as absent. A transfer names its sector by 28 bits, spread over four registers.

A drive that does not answer within `pollLimit` looks at its status has timed out.

## Main definitions

* `AtaDrive`, `AtaDrive.unidentified`: a channel, and what is known of its drive.
* `AtaDrive.identify`: find out about the drive.
* `AtaDrive.read`, `AtaDrive.write`: the transfers.
-/

namespace PocketKernel

/-- A step on a channel. It keeps what it did when it stops. -/
abbrev AtaM (β : Type) := ExceptT DiskError (StateM β)

namespace AtaM

variable {β : Type} [AtaBus β]

/-- Look at the status. -/
def status : AtaM β UInt8 := ExceptT.lift AtaBus.status

/-- Write a register. -/
def writeRegister (register : AtaRegister) (value : UInt8) : AtaM β Unit :=
  ExceptT.lift (AtaBus.writeRegister register value)

/-- Give a command. -/
def give (command : AtaCommand) : AtaM β Unit := writeRegister .command command.code

/-- How often the status is looked at before a drive has timed out. -/
def pollLimit : Nat := 1000000

/-- Look at the status, at most a given number of times, until a rule decides. -/
def poll (rule : UInt8 → Option (Except DiskError Unit)) : Nat → AtaM β Unit
  | 0 => throw .timeout
  | tries + 1 => do
    match rule (← status) with
    | some verdict => ExceptT.mk (pure verdict)
    | none => poll rule tries

/-- Wait until the drive is not busy. -/
def waitIdle : AtaM β Unit :=
  poll (fun status => if AtaStatus.isBusy status then none else some (.ok ())) pollLimit

/-- Wait until the drive is ready to move data, or reports that it failed. -/
def waitData : AtaM β Unit :=
  poll (fun status =>
    if AtaStatus.hasFault status then some (.error .deviceFault)
    else if AtaStatus.wantsData status then some (.ok ())
    else none) pollLimit

/-- Give the drive the time that four looks at its status take. -/
def settle : AtaM β Unit :=
  (List.range 4).forM fun _ => discard (ExceptT.lift AtaBus.alternateStatus)

/-- The byte that selects the drive, with the top four bits of an address. -/
def selector (lba : Nat) : UInt8 := 0xE0 ||| UInt8.ofNat (lba / 0x1000000 % 16)

/-- Select the drive. -/
def select (lba : Nat) : AtaM β Unit := do
  writeRegister .driveSelect (selector lba)
  settle

/-- Read a number of words. -/
def readWords : Nat → AtaM β (List UInt16)
  | 0 => pure []
  | count + 1 => do
    let word ← ExceptT.lift AtaBus.readData
    let words ← readWords count
    pure (word :: words)

/-- Write words. -/
def writeWords (words : List UInt16) : AtaM β Unit :=
  words.forM fun word => ExceptT.lift (AtaBus.writeData word)

/-- The number of words in a sector. -/
def sectorWords : Nat := 256

/-- The number of sectors that a drive reports about itself: words 60 and 61, low word first. -/
def reportedCapacity (words : List UInt16) : Nat :=
  (words.getD 60 0).toNat + 0x10000 * (words.getD 61 0).toNat

/-- Ask the drive about itself, and return the number of its sectors. -/
def identify : AtaM β Nat := do
  writeRegister .control 0x02
  settle
  select 0
  writeRegister .sectorCount 0
  writeRegister .addressLow 0
  writeRegister .addressMiddle 0
  writeRegister .addressHigh 0
  give .identify
  if (← status) = 0 then
    throw .notReady
  waitIdle
  if AtaStatus.hasError (← status) then
    throw .deviceFault
  waitData
  let words ← readWords sectorWords
  if reportedCapacity words = 0 then
    throw .notReady
  pure (reportedCapacity words)

/-- Begin the transfer of a sector. -/
def begin (lba : Nat) (command : AtaCommand) : AtaM β Unit := do
  select lba
  writeRegister .features 0
  writeRegister .sectorCount 1
  writeRegister .addressLow (UInt8.ofNat lba)
  writeRegister .addressMiddle (UInt8.ofNat (lba / 0x100))
  writeRegister .addressHigh (UInt8.ofNat (lba / 0x10000))
  give command
  waitData

/-- Fetch a sector. -/
def readSector (lba : Nat) : AtaM β Sector := do
  begin lba .readSector
  let words ← readWords sectorWords
  settle
  pure (.ofWords words)

/-- Store a sector and see it through the cache of the drive. -/
def writeSector (lba : Nat) (sector : Sector) : AtaM β Unit := do
  begin lba .writeSector
  writeWords sector.words
  settle
  give .flushCache
  waitIdle

end AtaM

/-- A channel, and what is known of the drive on it. -/
structure AtaDrive (β : Type) where
  bus : β
  /-- The number of sectors of the drive; zero while it was not identified. -/
  capacity : Nat
deriving DecidableEq, Repr

namespace AtaDrive

variable {β α : Type}

/-- A drive of which nothing is known yet. -/
def unidentified (bus : β) : AtaDrive β := ⟨bus, 0⟩

/-- The drive was identified and has sectors. -/
def isReady (drive : AtaDrive β) : Bool := drive.capacity ≠ 0

variable [AtaBus β]

/-- Find out how many sectors the drive has. Until that succeeds, it has none. -/
def identify : StateM (AtaDrive β) (Except DiskError Unit) := fun drive =>
  match AtaM.identify.run.run drive.bus with
  | (.ok capacity, bus) => (.ok (), ⟨bus, capacity⟩)
  | (.error cause, bus) => (.error cause, ⟨bus, 0⟩)

/-- Run a transfer of a sector, if the drive has that sector. -/
def transfer (lba : Nat) (step : AtaM β α) : StateM (AtaDrive β) (Except DiskError α) := fun drive =>
  if !drive.isReady then (.error .notReady, drive)
  else if drive.capacity ≤ lba then (.error .outOfRange, drive)
  else
    let (outcome, bus) := step.run.run drive.bus
    (outcome, { drive with bus := bus })

/-- Fetch a sector. -/
def read (lba : Nat) : StateM (AtaDrive β) (Except DiskError Sector) :=
  transfer lba (AtaM.readSector lba)

/-- Store a sector. -/
def write (lba : Nat) (sector : Sector) : StateM (AtaDrive β) (Except DiskError Unit) :=
  transfer lba (AtaM.writeSector lba sector)

instance : BlockDevice (AtaDrive β) where
  capacity := capacity
  read := read
  write := write

end AtaDrive

end PocketKernel
