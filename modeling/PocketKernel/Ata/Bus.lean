import PocketKernel.Disk.Device

/-!
# The registers of an ATA channel

A drive on the primary channel is worked through a handful of registers. Reading the status tells
how far a command has come, the data register moves a sector one word at a time, and everything
else is written one byte at a time. `AtaBus` is a channel as its driver sees it; what a register
answers may depend on everything that was read and written before.

## Main definitions

* `AtaRegister`, `AtaRegister.port`: the registers that are written a byte at a time.
* `AtaStatus`: the flags of the status.
* `AtaCommand`: the commands that are given.
* `AtaBus`: a channel.
-/

namespace PocketKernel

/-- A register that is written one byte at a time. -/
inductive AtaRegister where
  | features
  | sectorCount
  | addressLow
  | addressMiddle
  | addressHigh
  | driveSelect
  | command
  | control
deriving DecidableEq, Repr

/-- The port of a register on the primary channel. -/
def AtaRegister.port : AtaRegister → Nat
  | .features => 0x1F1
  | .sectorCount => 0x1F2
  | .addressLow => 0x1F3
  | .addressMiddle => 0x1F4
  | .addressHigh => 0x1F5
  | .driveSelect => 0x1F6
  | .command => 0x1F7
  | .control => 0x3F6

/-- The port through which the words of a sector pass. -/
def AtaRegister.dataPort : Nat := 0x1F0

/-- A command to a drive. -/
inductive AtaCommand where
  | identify
  | readSector
  | writeSector
  | flushCache
deriving DecidableEq, Repr

/-- The code of a command. -/
def AtaCommand.code : AtaCommand → UInt8
  | .identify => 0xEC
  | .readSector => 0x20
  | .writeSector => 0x30
  | .flushCache => 0xE7

namespace AtaStatus

/-- The drive is busy; its other flags mean nothing. -/
def isBusy (status : UInt8) : Bool := status &&& 0x80 != 0

/-- The drive reports that the command went wrong. -/
def hasError (status : UInt8) : Bool := status &&& 0x01 != 0

/-- The drive reports an error or a fault of its own. -/
def hasFault (status : UInt8) : Bool := status &&& 0x21 != 0

/-- The drive is ready to move data. -/
def wantsData (status : UInt8) : Bool := !isBusy status && status &&& 0x08 != 0

end AtaStatus

/-- A channel with one drive. -/
class AtaBus (β : Type) where
  /-- Read the status. -/
  status : StateM β UInt8
  /-- Read the status from the register whose reading has no effect on the drive. -/
  alternateStatus : StateM β UInt8
  /-- Read one word of data. -/
  readData : StateM β UInt16
  /-- Write one word of data. -/
  writeData : UInt16 → StateM β Unit
  /-- Write a register. -/
  writeRegister : AtaRegister → UInt8 → StateM β Unit

end PocketKernel
