import PocketKernel.Ata.Bus

/-!
# Channels that play back a script

A channel whose answers are fixed beforehand: the status answers a list of bytes and then one byte
for ever, the data register answers a list of words and then zero. It keeps count of what was read
and a record of what was written, so a driver can be watched at work.

## Main definitions

* `AtaScript`: the answers to come.
* `ScriptedBus`: a script that is being played, with the record.
-/

namespace PocketKernel

/-- The answers that a channel will give. -/
structure AtaScript where
  /-- What the next looks at the status see. -/
  statuses : List UInt8
  /-- What all later looks see. -/
  lastStatus : UInt8
  /-- The next words of data; zero behind them. -/
  words : List UInt16
deriving DecidableEq, Repr

/-- Something that was written to a channel. -/
inductive AtaWrite where
  | register (register : AtaRegister) (value : UInt8)
  | data (word : UInt16)
deriving DecidableEq, Repr

/-- What was done to a channel. -/
structure AtaRecord where
  statusReads : Nat
  alternateReads : Nat
  dataReads : Nat
  /-- What was written, the latest first. -/
  reversedWrites : List AtaWrite
deriving DecidableEq, Repr

namespace AtaRecord

/-- Nothing was done. -/
def empty : AtaRecord := ⟨0, 0, 0, []⟩

/-- What was written, in order. -/
def writes (record : AtaRecord) : List AtaWrite := record.reversedWrites.reverse

/-- Enter something that was written. -/
def add (record : AtaRecord) (write : AtaWrite) : AtaRecord :=
  { record with reversedWrites := write :: record.reversedWrites }

end AtaRecord

/-- A channel that plays a script. -/
structure ScriptedBus where
  script : AtaScript
  record : AtaRecord
deriving DecidableEq, Repr

namespace ScriptedBus

/-- A channel that answers zero to everything. -/
def silent : ScriptedBus := ⟨⟨[], 0, []⟩, .empty⟩

/-- Go on with another script. -/
def follow (bus : ScriptedBus) (script : AtaScript) : ScriptedBus := { bus with script := script }

/-- Start a new record. -/
def forget (bus : ScriptedBus) : ScriptedBus := { bus with record := .empty }

/-- Read the status. -/
def status : StateM ScriptedBus UInt8 := fun ⟨script, record⟩ =>
  let record := { record with statusReads := record.statusReads + 1 }
  match script.statuses with
  | [] => (script.lastStatus, ⟨script, record⟩)
  | status :: statuses => (status, ⟨{ script with statuses := statuses }, record⟩)

/-- Read the other status register, which always answers zero. -/
def alternateStatus : StateM ScriptedBus UInt8 := fun ⟨script, record⟩ =>
  (0, ⟨script, { record with alternateReads := record.alternateReads + 1 }⟩)

/-- Read one word of data. -/
def readData : StateM ScriptedBus UInt16 := fun ⟨script, record⟩ =>
  let record := { record with dataReads := record.dataReads + 1 }
  match script.words with
  | [] => (0, ⟨script, record⟩)
  | word :: words => (word, ⟨{ script with words := words }, record⟩)

/-- Enter something that was written into the record. -/
def write (write : AtaWrite) : StateM ScriptedBus Unit := fun ⟨script, record⟩ =>
  ((), ⟨script, record.add write⟩)

instance : AtaBus ScriptedBus where
  status := status
  alternateStatus := alternateStatus
  readData := readData
  writeData word := write (.data word)
  writeRegister register value := write (.register register value)

end ScriptedBus

end PocketKernel
