import PocketKernel.Bytes.LittleEndian

/-!
# Inodes

An inode describes one file or directory: its size, the directory it lies in, and the data blocks
that hold its content. It is stored in sixty bytes, of which some are reserved; they are kept as
they are found.

A kind byte that means nothing counts as free, so that stale garbage is never followed.

## Main definitions

* `InodeKind`, `Inode`: the kinds and the structure.
* `Inode.bytes`, `Inode.ofBytes`: the stored form.
-/

namespace PocketKernel

/-- The number of block pointers in an inode. -/
def directBlocks : Nat := 8

/-- The bytes that an inode takes on the disk. -/
def inodeSize : Nat := 60

/-- The largest size of a file: all its block pointers in use. -/
def maxFileSize : Nat := 4096

/-- The pointer that stands for no block. -/
def noBlock : UInt32 := 0xFFFFFFFF

/-- What an inode is used for. -/
inductive InodeKind where
  | free
  | directory
  | file
deriving DecidableEq, Repr

namespace InodeKind

/-- The byte that is stored for a kind. -/
def byte : InodeKind → UInt8
  | .free => 0
  | .directory => 1
  | .file => 2

/-- The kind that a stored byte means. -/
def ofByte? (byte : UInt8) : Option InodeKind :=
  if byte = 0 then some .free
  else if byte = 1 then some .directory
  else if byte = 2 then some .file
  else none

end InodeKind

/-- An inode, with every field that is stored. -/
structure Inode where
  /-- The byte that tells the kind. -/
  kindByte : UInt8
  /-- Reserved. -/
  flags : UInt8
  /-- Reserved. -/
  spare : UInt16
  /-- The size of the content in bytes. -/
  size : UInt32
  /-- The inode of the directory that this one lies in. -/
  parent : UInt32
  /-- The data blocks of the content, in order. -/
  direct : Vector UInt32 8
  /-- Reserved. -/
  reserved : Vector UInt32 4
deriving DecidableEq, Repr

namespace Inode

/-- An inode that is not in use. -/
def free : Inode where
  kindByte := 0
  flags := 0
  spare := 0
  size := 0
  parent := 0
  direct := Vector.replicate 8 noBlock
  reserved := Vector.replicate 4 0

instance : Inhabited Inode := ⟨free⟩

/-- An empty inode of a kind in a directory. -/
def empty (kind : InodeKind) (parent : UInt32) : Inode :=
  { free with kindByte := kind.byte, parent := parent }

/-- The kind of an inode. -/
def kind (inode : Inode) : InodeKind := (InodeKind.ofByte? inode.kindByte).getD .free

/-- An inode describes a directory. -/
def isDirectory (inode : Inode) : Bool := inode.kind = .directory

/-- An inode is in use. -/
def isLive (inode : Inode) : Bool := inode.kind ≠ .free

/-- The inode without its content. -/
def detached (inode : Inode) : Inode :=
  { inode with direct := Vector.replicate 8 noBlock, size := 0 }

/-- The sixty bytes of an inode. -/
def bytes (inode : Inode) : List UInt8 :=
  [inode.kindByte, inode.flags] ++ Bytes.ofUInt16 inode.spare ++ Bytes.ofUInt32 inode.size
    ++ Bytes.ofUInt32 inode.parent ++ inode.direct.toList.flatMap Bytes.ofUInt32
    ++ inode.reserved.toList.flatMap Bytes.ofUInt32

/-- The inode at the start of a byte string. -/
def ofBytes (bytes : List UInt8) : Inode where
  kindByte := bytes.getD 0 0
  flags := bytes.getD 1 0
  spare := Bytes.toUInt16 (bytes.drop 2)
  size := Bytes.toUInt32 (bytes.drop 4)
  parent := Bytes.toUInt32 (bytes.drop 8)
  direct := Vector.ofFn fun slot => Bytes.toUInt32 (bytes.drop (12 + 4 * slot.val))
  reserved := Vector.ofFn fun word => Bytes.toUInt32 (bytes.drop (44 + 4 * word.val))

end Inode

end PocketKernel
