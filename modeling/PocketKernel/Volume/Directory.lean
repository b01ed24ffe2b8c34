import PocketKernel.Volume.Content
import PocketKernel.Volume.Record

/-!
# Directories

A directory is an inode whose content is a row of records. A content that is not a whole number
of records is corruption. A record whose target is not in use is stale: it is skipped by every
look-up and listing, but it stays where it is, and new records are appended behind it.

## Main definitions

* `VolumeM.records`, `VolumeM.liveRecords`, `VolumeM.lookup`: the entries of a directory.
* `VolumeM.appendRecord`: a new entry.
* `VolumeM.walk`, `VolumeM.resolve`: follow a path from the root.
-/

namespace PocketKernel.VolumeM

variable {δ : Type} [BlockDevice δ]

/-- Every record of a directory, stale ones included. -/
def records (directory : Nat) : VolumeM δ (List DirectoryRecord) := do
  let inode ← findInode directory
  if !inode.isDirectory then
    fail .notADirectory
  let size := inode.size.toNat
  if size % recordSize ≠ 0 then
    fail .corrupt
  let content ← readContent directory 0 size
  if content.length ≠ size then
    fail .corrupt
  pure (DirectoryRecord.readAll content)

/-- The records of a directory whose target is in use. -/
def liveRecords (directory : Nat) : VolumeM δ (List DirectoryRecord) := do
  let all ← records directory
  let inodes := (← get).inodes
  pure (all.filter fun record => (inodes[record.target.toNat]?.map Inode.isLive).getD false)

/-- What a name leads to in a directory. -/
def lookup (directory : Nat) (name : Text) : VolumeM δ (Option Nat) := do
  let live ← liveRecords directory
  pure ((live.find? (·.isNamed name)).map (·.target.toNat))

/-- Append a record to a directory. A directory that cannot grow is full. -/
def appendRecord (directory : Nat) (record : DirectoryRecord) : VolumeM δ Unit := do
  let size := (← findInode directory).size.toNat
  if size % recordSize ≠ 0 then
    fail .corrupt
  match ← attempt (writeContent directory size record.bytes false) with
  | .ok _ => pure ()
  | .error .fileTooLarge => fail .noSpace
  | .error cause => fail cause

/-- One step of a walk: from a directory along one segment. -/
def step (current : Nat) (segment : Text) : VolumeM δ Nat := do
  let inode ← findInode current
  if !inode.isDirectory then
    fail .notADirectory
  if segment = ['.', '.'] then
    pure inode.parent.toNat
  else
    match ← lookup current segment with
    | some target => pure target
    | none => fail .notFound

/-- Follow segments from the root. Where the last one leads is not looked at. -/
def walk (segments : List Text) : VolumeM δ Nat := segments.foldlM step 0

/-- Follow a path from the root. -/
def resolve (path : Text) : VolumeM δ Nat := do
  let segments ← orFail (Path.components path)
  walk segments

end PocketKernel.VolumeM
