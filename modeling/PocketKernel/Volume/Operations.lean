import PocketKernel.Volume.Directory
import PocketKernel.Volume.Mount

/-!
# The operations of a mounted volume

What a client of a volume can do with paths: create files and directories, ask about them, and
read and write files. Every operation is refused while the volume is not mounted.

## Main definitions

* `VolumeM.touch`, `VolumeM.mkdir`: create.
* `VolumeM.stat`, `VolumeM.list`: ask.
* `VolumeM.read`, `VolumeM.write`: the content of a file.
-/

namespace PocketKernel

/-- What is known of a file or directory. -/
structure FileStat where
  /-- Its inode. -/
  inode : Nat
  isDirectory : Bool
  /-- The size of its content in bytes. -/
  size : Nat
deriving DecidableEq, Repr

/-- One line of a listing. -/
structure DirectoryEntry where
  /-- The bytes of the name, at most 32. -/
  name : List UInt8
  stat : FileStat
deriving DecidableEq, Repr

/-- The name of an entry as text; a question mark if its bytes are not UTF-8. -/
def DirectoryEntry.text (entry : DirectoryEntry) : Text :=
  (Text.ofUtf8? entry.name).getD ['?']

namespace VolumeM

variable {δ : Type} [BlockDevice δ]

/-- Refuse to go on unless the volume is mounted. -/
def requireMounted : VolumeM δ Unit := do
  if !(← get).mounted then
    fail .notReady

/-- What is known of an inode. -/
def statOf (index : Nat) : VolumeM δ FileStat := do
  let inode ← findInode index
  pure ⟨index, inode.isDirectory, inode.size.toNat⟩

/-- The line of a listing for an inode under a name. -/
def entryFor (name : List UInt8) (index : Nat) : VolumeM δ DirectoryEntry := do
  let stat ← statOf index
  pure ⟨name.take Path.nameLimit, stat⟩

/-- Create an entry at a path. If the new inode cannot be entered into its directory, it is given
up again, and what becomes of that is not reported. -/
def create (path : Text) (kind : InodeKind) : VolumeM δ Unit := do
  let leaf ← orFail (Path.leafName path)
  let segments ← orFail (Path.components path)
  let parent ← walk segments.dropLast
  if !(← findInode parent).isDirectory then
    fail .notADirectory
  let index ← allocInode kind parent
  match ← attempt (appendRecord parent (.named index leaf)) with
  | .ok () => pure ()
  | .error cause =>
    discard (attempt (releaseInode index))
    fail cause

/-- Create an empty file, unless there is a file already. -/
def touch (path : Text) : VolumeM δ Unit := do
  requireMounted
  match ← attempt (resolve path) with
  | .ok index =>
    if (← findInode index).isDirectory then
      fail .isADirectory
  | .error .notFound => create path .file
  | .error cause => fail cause

/-- Create an empty directory. -/
def mkdir (path : Text) : VolumeM δ Unit := do
  requireMounted
  match ← attempt (resolve path) with
  | .ok _ => fail .alreadyExists
  | .error .notFound => create path .directory
  | .error cause => fail cause

/-- What is known of the file or directory at a path. -/
def stat (path : Text) : VolumeM δ FileStat := do
  requireMounted
  let index ← resolve path
  statOf index

/-- The entries of a directory, or the one line for a file. -/
def list (path : Text) : VolumeM δ (List DirectoryEntry) := do
  requireMounted
  let index ← resolve path
  let inode ← findInode index
  if inode.isDirectory then
    let live ← liveRecords index
    live.mapM fun record => entryFor record.name record.target.toNat
  else
    let entry ← entryFor (Text.utf8 (Path.basename path)) index
    pure [entry]

/-- The inode of the file at a path. -/
def resolveFile (path : Text) : VolumeM δ Nat := do
  let index ← resolve path
  if (← findInode index).isDirectory then
    fail .isADirectory
  pure index

/-- Read up to `count` bytes of a file from an offset on. -/
def read (path : Text) (offset count : Nat) : VolumeM δ (List UInt8) := do
  requireMounted
  let index ← resolveFile path
  readContent index offset count

/-- Write bytes into a file at an offset, after emptying it if `truncate` is set, and say how many
were written. -/
def write (path : Text) (offset : Nat) (data : List UInt8) (truncate : Bool) : VolumeM δ Nat := do
  requireMounted
  let index ← resolveFile path
  writeContent index offset data truncate

end VolumeM

/-- Run an operation on a volume. -/
def Volume.run {δ α : Type} (volume : Volume δ) (operation : VolumeM δ α) :
    Except Stop α × Volume δ :=
  StateT.run (ExceptT.run operation) volume

end PocketKernel
