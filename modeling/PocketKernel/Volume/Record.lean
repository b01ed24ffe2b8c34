import PocketKernel.Bytes.LittleEndian
import PocketKernel.Text.Utf8
import PocketKernel.Volume.Path

/-!
# Directory records

The content of a directory is a row of records of 36 bytes, each the number of an inode and the
name it has there, up to the first zero byte of a field of 32.

## Main definitions

* `DirectoryRecord`: a target and its name.
* `DirectoryRecord.bytes`, `DirectoryRecord.ofBytes`: the stored form.
* `DirectoryRecord.readAll`: the records of a directory's content.
-/

namespace PocketKernel

/-- The bytes that a record takes in a directory. -/
def recordSize : Nat := 36

/-- One entry of a directory as it is stored. -/
structure DirectoryRecord where
  /-- The number of the inode that the entry leads to. -/
  target : UInt32
  /-- The bytes of the name. -/
  name : List UInt8
deriving DecidableEq, Repr

namespace DirectoryRecord

/-- The entry that leads to an inode under a name. -/
def named (target : Nat) (name : Text) : DirectoryRecord :=
  ⟨UInt32.ofNat target, Text.utf8 name⟩

/-- The 36 bytes of a record; a name that does not leave room for the zero byte is cut. -/
def bytes (record : DirectoryRecord) : List UInt8 :=
  let name := record.name.take (Path.nameLimit - 1)
  Bytes.ofUInt32 record.target ++ name ++ List.replicate (Path.nameLimit - name.length) 0

/-- The record at the start of a byte string. -/
def ofBytes (bytes : List UInt8) : DirectoryRecord where
  target := Bytes.toUInt32 bytes
  name := ((bytes.drop 4).take Path.nameLimit).takeWhile (· != 0)

/-- The records in a byte string; what is left over at the end is ignored. -/
def readAll (bytes : List UInt8) : List DirectoryRecord :=
  (List.range (bytes.length / recordSize)).map fun k => ofBytes (bytes.drop (recordSize * k))

/-- The record has this name. -/
def isNamed (record : DirectoryRecord) (name : Text) : Bool := record.name = Text.utf8 name

end DirectoryRecord

end PocketKernel
