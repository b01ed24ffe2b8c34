import PocketKernel.Bytes.LittleEndian
import PocketKernel.Disk.Sector

/-!
# The geometry of a volume

A volume is a stretch of sectors on its device, laid out as follows; sector numbers are relative
to the start of the volume.

| sectors         | content                              |
|-----------------|--------------------------------------|
| 0               | superblock                           |
| 1               | bitmap of the inodes                 |
| 2               | bitmap of the data blocks            |
| 3 to 3 + T      | inode table, eight inodes per sector |
| 3 + T to the end | data blocks                         |

A `Geometry` carries the proof that each bitmap fits its sector, that there is at least one data
block, and that every sector of the volume has a 32-bit number.

## Main definitions

* `Geometry`, `Geometry.make?`: the accepted geometries.
* `Geometry.lba`, `Geometry.blockLba`: where a sector or a data block lies on the device.
* `Superblock`, `Geometry.superblock`, `Geometry.accepts`: the description kept in sector 0.
-/

namespace PocketKernel

/-- The number of bits in a sector, which bounds what a bitmap can describe. -/
def bitsPerSector : Nat := 4096

/-- The number of inodes that one sector of the inode table holds. -/
def inodesPerSector : Nat := 8

/-- The relative sector of the superblock. -/
def superblockSector : Nat := 0

/-- The relative sector of the bitmap of the inodes. -/
def inodeBitmapSector : Nat := 1

/-- The relative sector of the bitmap of the data blocks. -/
def blockBitmapSector : Nat := 2

/-- The first relative sector of the inode table. -/
def inodeTableStart : Nat := 3

/-- The sectors that a table of `inodeCount` inodes takes. -/
def tableSectorsFor (inodeCount : Nat) : Nat :=
  (inodeCount + inodesPerSector - 1) / inodesPerSector

/-- The size and the place of a volume on its device. -/
structure Geometry where
  /-- The sector of the device at which the volume starts. -/
  startLba : Nat
  /-- The sectors of the volume, metadata included. -/
  totalSectors : Nat
  /-- The inodes of the volume. -/
  inodeCount : Nat
  inodeCount_pos : 0 < inodeCount
  inodeCount_le : inodeCount ≤ bitsPerSector
  table_lt : inodeTableStart + tableSectorsFor inodeCount < totalSectors
  blocks_le : totalSectors - (inodeTableStart + tableSectorsFor inodeCount) ≤ bitsPerSector
  end_lt : startLba + totalSectors < UInt32.size
deriving DecidableEq

namespace Geometry

/-- The geometry with these figures, if a volume can have them. -/
def make? (startLba totalSectors inodeCount : Nat) : Option Geometry :=
  if h : 0 < inodeCount ∧ inodeCount ≤ bitsPerSector
      ∧ inodeTableStart + tableSectorsFor inodeCount < totalSectors
      ∧ totalSectors - (inodeTableStart + tableSectorsFor inodeCount) ≤ bitsPerSector
      ∧ startLba + totalSectors < UInt32.size then
    some ⟨startLba, totalSectors, inodeCount, h.1, h.2.1, h.2.2.1, h.2.2.2.1, h.2.2.2.2⟩
  else
    none

/-- The geometry of a volume that is not told otherwise: 128 inodes in 4096 sectors. -/
def standard : Geometry where
  startLba := 2048
  totalSectors := 4096
  inodeCount := 128
  inodeCount_pos := by decide
  inodeCount_le := by decide
  table_lt := by decide
  blocks_le := by decide
  end_lt := by decide

instance : Inhabited Geometry := ⟨standard⟩

/-- The sectors of the inode table. -/
def tableSectors (g : Geometry) : Nat := tableSectorsFor g.inodeCount

/-- The relative sector of the first data block. -/
def dataStart (g : Geometry) : Nat := inodeTableStart + g.tableSectors

/-- The number of data blocks. -/
def dataBlocks (g : Geometry) : Nat := g.totalSectors - g.dataStart

/-- Where a sector of the volume lies on the device. -/
def lba (g : Geometry) (sector : Nat) : Nat := g.startLba + sector

/-- Where a data block lies on the device. -/
def blockLba (g : Geometry) (block : Nat) : Nat := g.startLba + g.dataStart + block

theorem dataBlocks_le (g : Geometry) : g.dataBlocks ≤ bitsPerSector := g.blocks_le

/-- A data block lies inside the volume. -/
theorem blockLba_lt (g : Geometry) {block : Nat} (h : block < g.dataBlocks) :
    g.blockLba block < g.startLba + g.totalSectors := by
  simp only [blockLba, dataBlocks] at *
  omega

end Geometry

/-- What sector 0 of a volume says about it. -/
structure Superblock where
  magic : UInt32
  version : UInt32
  blockSize : UInt32
  startLba : UInt32
  totalSectors : UInt32
  tableStart : UInt32
  inodeCount : UInt32
  dataStart : UInt32
  dataBlocks : UInt32
  rootInode : UInt32
deriving DecidableEq, Repr

namespace Superblock

/-- The words of a superblock, in the order in which they are stored. -/
def words (sb : Superblock) : List UInt32 :=
  [sb.magic, sb.version, sb.blockSize, sb.startLba, sb.totalSectors, sb.tableStart, sb.inodeCount,
    sb.dataStart, sb.dataBlocks, sb.rootInode]

/-- The forty bytes of a superblock. -/
def bytes (sb : Superblock) : List UInt8 := sb.words.flatMap Bytes.ofUInt32

/-- The superblock at the start of a byte string. -/
def ofBytes (bytes : List UInt8) : Superblock :=
  let word (k : Nat) := Bytes.toUInt32 (bytes.drop (4 * k))
  { magic := word 0
    version := word 1
    blockSize := word 2
    startLba := word 3
    totalSectors := word 4
    tableStart := word 5
    inodeCount := word 6
    dataStart := word 7
    dataBlocks := word 8
    rootInode := word 9 }

end Superblock

namespace Geometry

/-- The superblock that describes a geometry. -/
def superblock (g : Geometry) : Superblock where
  magic := 0x4C555846
  version := 1
  blockSize := UInt32.ofNat sectorSize
  startLba := UInt32.ofNat g.startLba
  totalSectors := UInt32.ofNat g.totalSectors
  tableStart := UInt32.ofNat inodeTableStart
  inodeCount := UInt32.ofNat g.inodeCount
  dataStart := UInt32.ofNat g.dataStart
  dataBlocks := UInt32.ofNat g.dataBlocks
  rootInode := 0

/-- A superblock is accepted for a geometry if it says exactly what the geometry's own does. -/
def accepts (g : Geometry) (sb : Superblock) : Bool := sb = g.superblock

end Geometry

end PocketKernel
