import PocketKernel.Disk.Device

/-!
# Errors of a volume

An operation on a volume either returns an answer or stops. It stops with an `error`, which its
caller is told and may act on, or because an index left its table or a buffer, which is `broken`
and must never happen on a mounted volume: keeping the two apart lets that be stated.
-/

namespace PocketKernel

/-- What a caller of a volume can be told instead of an answer. -/
inductive VolumeError where
  /-- The volume is not mounted. -/
  | notReady
  /-- A segment of the path names nothing. -/
  | notFound
  /-- Something that is not a directory was used as one. -/
  | notADirectory
  /-- A directory was used as a file. -/
  | isADirectory
  /-- The name is taken. -/
  | alreadyExists
  /-- The path is empty where a name is needed, too deep, or has a segment that is too long. -/
  | invalidPath
  /-- Every inode is in use. -/
  | noInodes
  /-- Every data block is in use, or the directory is full. -/
  | noSpace
  /-- The write would grow the file past its eight blocks. -/
  | fileTooLarge
  /-- The write starts past the end of the file and would leave a hole. -/
  | invalidOffset
  /-- The structures on the disk contradict each other. -/
  | corrupt
  /-- A sector could not be read or written. -/
  | io
deriving DecidableEq, Repr

namespace VolumeError

/-- All errors, in their listed order. -/
def all : List VolumeError :=
  [.notReady, .notFound, .notADirectory, .isADirectory, .alreadyExists, .invalidPath, .noInodes,
    .noSpace, .fileTooLarge, .invalidOffset, .corrupt, .io]

/-- The text shown for an error. -/
def message : VolumeError → String
  | .notReady => "filesystem not ready"
  | .notFound => "no such file or directory"
  | .notADirectory => "not a directory"
  | .isADirectory => "is a directory"
  | .alreadyExists => "already exists"
  | .invalidPath => "invalid path"
  | .noInodes => "no free inodes"
  | .noSpace => "no space left on device"
  | .fileTooLarge => "file too large"
  | .invalidOffset => "invalid offset"
  | .corrupt => "filesystem corrupt"
  | .io => "i/o error"

/-- Whatever goes wrong on the disk, a caller of the volume is told the same. -/
def ofDisk (_ : DiskError) : VolumeError := .io

end VolumeError

/-- Why an operation on a volume stopped. -/
inductive Stop where
  /-- The caller is told this error. -/
  | error (cause : VolumeError)
  /-- An index left its table or its buffer. -/
  | broken
deriving DecidableEq, Repr

end PocketKernel
