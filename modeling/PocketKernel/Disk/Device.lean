import PocketKernel.Disk.Sector

/-!
# Block devices

A block device is a row of sectors that are read and written one at a time. `BlockDevice` is
what the volume layer asks of one: how many sectors it has, and the two transfers, each of which
may fail for one of the causes in `DiskError`. Transfers are state transitions, so a device may
count, refuse or remember them as it likes.

## Main definitions

* `DiskError`, `DiskError.message`: why a transfer failed.
* `BlockDevice`: the interface of a device.
-/

namespace PocketKernel

/-- Why a transfer failed. -/
inductive DiskError where
  /-- The device was never identified, or is absent. -/
  | notReady
  /-- The sector lies past the end of the device. -/
  | outOfRange
  /-- The device stayed busy for too long. -/
  | timeout
  /-- The device reported an error. -/
  | deviceFault
deriving DecidableEq, Repr

namespace DiskError

/-- All causes, in their listed order. -/
def all : List DiskError := [.notReady, .outOfRange, .timeout, .deviceFault]

/-- The text shown for a cause. -/
def message : DiskError → String
  | .notReady => "device not ready"
  | .outOfRange => "sector out of range"
  | .timeout => "device timeout"
  | .deviceFault => "device fault"

end DiskError

/-- A device that transfers whole sectors. -/
class BlockDevice (δ : Type) where
  /-- How many sectors the device has. -/
  capacity : δ → Nat
  /-- Fetch one sector. -/
  read : Nat → StateM δ (Except DiskError Sector)
  /-- Store one sector. -/
  write : Nat → Sector → StateM δ (Except DiskError Unit)

end PocketKernel
