import PocketKernel.Proofs.Volume.Answers

/-!
# How far an operation came

A RAM disk counts what is stored on it, and once it has failed nothing more is. So when a new entry
cannot be created, the number of stores tells how far that came: one for the mark of the inode, one
for its sector of the table, and then those of the record. A chunk of a record that needs a new
block takes two stores, and in between the directory has gained the block.

A record that is cut short has left nothing as long as fewer stores were made for it than it has
chunks. From then on, the directory has a block more or has grown.

## Main definitions

* `Inode.recordChunks`: the chunks of a record behind the end of a directory.
* `Snapshot.Takes`: one more data block is in use.
* `Volume.Laid`, `Volume.Remains`: how a row of chunks and a record end, by the number of stores.

## Main results

* `Asked.eq_of_failed`: a failed disk stays as it is.
* `Volume.writeRecord_laid_ends`, `Volume.appendRecord_remains_ends`: records.
* `Volume.allocInode_counts_ends`: inodes.
-/

namespace PocketKernel

/-! ### Transfers that do not store -/

theorem RamDisk.writes_of_grant {disk granted : RamDisk} {lba : ℕ}
    (h : disk.grant lba = .ok granted) : granted.writes = disk.writes := by
  unfold grant at h
  split at h
  · split at h
    · cases h; rfl
    · cases h
    · cases h; rfl
  · cases h

theorem RamDisk.writes_read (lba : ℕ) (disk : RamDisk) :
    (read lba disk).2.writes = disk.writes := by
  cases h : disk.grant lba with
  | ok granted =>
    rw [read_granted h]
    show granted.writes = disk.writes
    exact writes_of_grant h
  | error cause => rw [read_refused h]

theorem RamDisk.le_writes_write (lba : ℕ) (sector : Sector) (disk : RamDisk) :
    disk.writes ≤ (write lba sector disk).2.writes := by
  cases h : disk.grant lba with
  | ok granted =>
    rw [write_granted sector h, ← writes_of_grant h]
    exact Nat.le_succ _
  | error cause => rw [write_refused sector h]

namespace Asked

variable {allowed : Access → Prop} {d e : RamDisk}

/-- Who may not write stores nothing. -/
theorem writes_eq (h : Asked allowed d e) (hno : ∀ lba, ¬ allowed (.write lba)) :
    e.writes = d.writes := by
  induction h with
  | nothing => rfl
  | read _ _ ih => exact (RamDisk.writes_read _ _).trans ih
  | write _ _ hwrite => exact absurd hwrite (hno _)

/-- What was stored has been counted. -/
theorem writes_le (h : Asked allowed d e) : d.writes ≤ e.writes := by
  induction h with
  | nothing => exact Nat.le_refl _
  | read _ _ ih => exact ih.trans (RamDisk.writes_read _ _).ge
  | write sector _ _ ih => exact ih.trans (RamDisk.le_writes_write _ sector _)

/-- **A failed disk stays as it is**, whatever it is asked for. -/
theorem eq_of_failed (h : Asked allowed d e) (hd : LawfulDevice.Failed d) : e = d := by
  induction h with
  | nothing => rfl
  | @read later lba _ _ ih =>
    subst ih
    obtain ⟨cause, hgrant⟩ := RamDisk.grant_of_zero hd lba
    exact congrArg Prod.snd (RamDisk.read_refused hgrant)
  | @write later lba sector _ _ ih =>
    subst ih
    obtain ⟨cause, hgrant⟩ := RamDisk.grant_of_zero hd lba
    exact congrArg Prod.snd (RamDisk.write_refused sector hgrant)

end Asked

/-- The number of chunks that a record behind the end of a directory is written in. -/
def Inode.recordChunks (x : Inode) : ℕ :=
  if x.size.toNat % sectorSize + recordSize ≤ sectorSize then 1 else 2

theorem Inode.recordChunks_pos (x : Inode) : 0 < x.recordChunks := by
  unfold recordChunks
  split
  · exact Nat.one_pos
  · exact Nat.two_pos

/-- One more data block is in use. -/
def Snapshot.Takes (g : Geometry) (w w' : Snapshot) : Prop :=
  ∃ block < g.dataBlocks, w.memory.blockUsed block = false
    ∧ w'.memory.blockUsed = Function.update w.memory.blockUsed block true

namespace Volume

variable {α : Type} {g : Geometry} {v w x : Volume RamDisk} {index slot position count : ℕ}
  {chunk data : List UInt8}

/-! ### Single stores -/

/-- So many sectors were stored, or none if the operation stopped. -/
def Counts (count : ℕ) (v : Volume RamDisk) (outcome : Except Stop α) (w : Volume RamDisk) : Prop :=
  w.device.writes = v.device.writes + if outcome.isOk then count else 0

theorem Counts.of_error {stop : Stop} (h : v.Counts count (.error stop : Except Stop α) w) :
    w.device.writes = v.device.writes := h

theorem counts_error {stop : Stop} (h : w.device.writes = v.device.writes) :
    v.Counts count (.error stop : Except Stop α) w := h

theorem Looks.writes_ends {operation : VolumeM RamDisk α} {P : α → Prop}
    (h : Looks g operation P) (hv : v.Shaped g) :
    v.Ends operation fun _ w => w.device.writes = v.device.writes :=
  (h.ends hv.sized).mono fun _ _ hended => hended.2.1.writes_eq fun _ => id

theorem readSector_writes_ends (lba : ℕ) :
    v.Ends (VolumeM.readSector lba) fun _ w => w.device.writes = v.device.writes := by
  unfold Ends
  rw [run_readSector]
  refine Eq.trans ?_ (RamDisk.writes_read lba v.device)
  cases (BlockDevice.read lba v.device).1 with
  | ok sector => rfl
  | error cause => rfl

theorem blockBefore_writes_ends (lba : ℕ) (fresh : Bool) (count : ℕ) :
    v.Ends (VolumeM.blockBefore lba fresh count) fun _ w =>
      w.device.writes = v.device.writes := by
  unfold VolumeM.blockBefore
  split
  · exact rfl
  · exact readSector_writes_ends lba

theorem writeSector_counts_ends (lba : ℕ) (sector : Sector) :
    v.Ends (VolumeM.writeSector lba sector) fun outcome w => v.Counts 1 outcome w := by
  unfold Ends
  rw [run_writeSector]
  cases h : v.device.grant lba with
  | ok granted =>
    have hwrite : BlockDevice.write lba sector v.device = _ := RamDisk.write_granted sector h
    rw [hwrite]
    exact congrArg (· + 1) (RamDisk.writes_of_grant h)
  | error cause =>
    have hwrite : BlockDevice.write lba sector v.device = _ := RamDisk.write_refused sector h
    rw [hwrite]
    rfl

theorem flushInodeMap_counts_ends :
    v.Ends VolumeM.flushInodeMap fun outcome w => v.Counts 1 outcome w :=
  writeSector_counts_ends _ _

theorem flushBlockMap_counts_ends :
    v.Ends VolumeM.flushBlockMap fun outcome w => v.Counts 1 outcome w :=
  writeSector_counts_ends _ _

theorem flushInode_counts_ends (index : ℕ) :
    v.Ends (VolumeM.flushInode index) fun outcome w => v.Counts 1 outcome w := by
  unfold VolumeM.flushInode VolumeM.flushTableSector
  rw [ends_get_bind]
  dsimp only
  split
  · exact writeSector_counts_ends _ _
  · exact counts_error rfl

theorem allocBlock_counts_ends :
    v.Ends VolumeM.allocBlock fun outcome w => v.Counts 1 outcome w := by
  unfold VolumeM.allocBlock
  rw [ends_get_bind]
  cases v.blockMap.alloc? with
  | none => exact counts_error rfl
  | some found =>
    obtain ⟨block, map⟩ := found
    show v.Ends (VolumeM.setBlockMap _ >>= _) _
    rw [VolumeM.setBlockMap, ends_modify_bind]
    refine Ends.attempt_bind flushBlockMap_counts_ends ?_ ?_ ?_
    · exact fun _ _ h => h
    · exact fun _ _ h => h
    · exact fun _ h => h

/-! ### Chunks -/

/-- How a row of chunks ends, if so many stores are made for it at least. -/
inductive Laid (g : Geometry) (count : ℕ) (v : Volume RamDisk) :
    Except Stop Unit → Volume RamDisk → Prop
  /-- All of them were laid. -/
  | done {w : Volume RamDisk} : v.device.writes + count ≤ w.device.writes →
      Laid g count v (.ok ()) w
  /-- It was cut short before the inode gained a block. -/
  | short {w : Volume RamDisk} (stop : Stop) : w.device.writes < v.device.writes + count →
      w.snapshot.memory.blockUsed = v.snapshot.memory.blockUsed → Laid g count v (.error stop) w
  /-- It was cut short between the mark of the last block and what was to be written there. -/
  | gained {w : Volume RamDisk} : v.device.writes + count ≤ w.device.writes →
      v.snapshot.Takes g w.snapshot → Laid g count v (.error (.error .io)) w

/-- After some stores that left the blocks in use alone. -/
theorem Laid.after {outcome : Except Stop Unit} {first : ℕ}
    (hwrites : x.device.writes = v.device.writes + first)
    (hused : x.snapshot.memory.blockUsed = v.snapshot.memory.blockUsed)
    (h : x.Laid g count outcome w) : v.Laid g (first + count) outcome w := by
  cases h with
  | done hw => exact .done (by omega)
  | short stop hw hused' => exact .short stop (by omega) (hused'.trans hused)
  | gained hw htakes =>
    refine .gained (by omega) ?_
    rwa [Snapshot.Takes, hused] at htakes

/-- An inode that has the block for a chunk. -/
theorem blockForWrite_owned_ends (hv : v.Shaped g) (hw : v.snapshot.Sound g)
    (hknown : v.snapshot.Known g index) {block : ℕ}
    (hblock : (v.snapshot.memory.inode index).blockAt slot = some block) :
    v.Ends (VolumeM.blockForWrite index slot) fun outcome w =>
      outcome = .ok (block, false) ∧ w = v := by
  obtain ⟨hslot, hne, rfl⟩ := Inode.blockAt_eq_some.mp hblock
  have hlt := hw.owned_lt (hknown.owns hblock)
  unfold VolumeM.blockForWrite
  rw [ends_inodeAt_bind hv hknown.lt, Vector.getElem?_eq_getElem hslot]
  dsimp only
  rw [if_neg hne, ends_get_bind, if_neg (by rw [hv.geometry]; omega)]
  exact ⟨rfl, rfl⟩

/-- An inode that gains a block for a chunk. -/
theorem blockForWrite_fresh_ends (hv : v.Shaped g) (hlt : index < g.inodeCount)
    (hslot : slot < directBlocks)
    (hnone : (v.snapshot.memory.inode index).blockAt slot = none) :
    v.Ends (VolumeM.blockForWrite index slot) fun outcome w =>
      (∃ block, outcome = .ok (block, true) ∧ block < g.dataBlocks ∧ v.Continues g w
          ∧ w.device.writes = v.device.writes + 1 ∧ v.snapshot.Takes g w.snapshot)
        ∨ ∃ stop, outcome = .error stop ∧ w.device.writes = v.device.writes
          ∧ w.snapshot.memory.blockUsed = v.snapshot.memory.blockUsed := by
  have hget : (v.snapshot.memory.inode index).direct[slot]?
      = some (v.snapshot.memory.inode index).direct[slot] := Vector.getElem?_eq_getElem hslot
  have hfree : (v.snapshot.memory.inode index).direct[slot] = noBlock := by
    by_contra hne
    simp only [Inode.blockAt, hget, if_neg hne] at hnone
    cases hnone
  unfold VolumeM.blockForWrite
  rw [ends_inodeAt_bind hv hlt, hget]
  dsimp only
  rw [if_pos hfree]
  refine Ends.bind ((allocBlock_ends hv).and allocBlock_counts_ends) ?_ ?_
  · rintro pointer w ⟨⟨hvw, ⟨_, ⟨rfl⟩, -, hblock, hclear, hw⟩ | ⟨⟨⟩, -⟩ | ⟨⟨⟩, -⟩⟩, hcounts⟩
    rw [ends_inodeAt_bind hvw.shaped hlt, ends_setInode_bind hvw.shaped hlt]
    refine .inl ⟨_, rfl, hblock, hvw.trans (hvw.shaped.continues_put _ _), hcounts, _, hblock,
      hclear, ?_⟩
    exact congrArg (·.memory.blockUsed) ((snapshot_put hvw.shaped hlt _).trans
      (congrArg (Snapshot.putInode · index _) hw))
  · rintro stop w ⟨⟨hvw, ⟨_, ⟨⟩, -⟩ | ⟨-, -, hw⟩ | ⟨-, rfl, -⟩⟩, hcounts⟩
    · exact .inr ⟨stop, rfl, hcounts.of_error, by rw [hw]⟩
    · exact .inr ⟨stop, rfl, rfl, rfl⟩

/-- A chunk for which the inode has the block is one store, and no block more is in use. -/
theorem writeChunk_owned_ends (hv : v.Shaped g) (hw : v.snapshot.Sound g)
    (hknown : v.snapshot.Known g index)
    (hsome : ((v.snapshot.memory.inode index).blockAt (position / sectorSize)).isSome = true) :
    v.Ends (VolumeM.writeChunk index position chunk) fun outcome w => v.Counts 1 outcome w
      ∧ w.snapshot.memory.blockUsed = v.snapshot.memory.blockUsed := by
  obtain ⟨block, hblock⟩ := Option.isSome_iff_exists.mp hsome
  have hlt := hw.owned_lt (hknown.owns hblock)
  unfold VolumeM.writeChunk
  refine Ends.bind_ok (blockForWrite_owned_ends hv hw hknown hblock) ?_
  rintro _ rfl
  rw [ends_get_bind]
  refine Ends.bind ((blockBefore_ends hv hlt false chunk.length).and
    (blockBefore_writes_ends _ _ _)) ?_ ?_
  · rintro before x ⟨⟨hvx, hx, -⟩, hwrites⟩
    rw [hv.geometry.trans hvx.shaped.geometry.symm]
    refine ((writeBlock_ends hvx.shaped _ hlt).and (writeSector_counts_ends _ _)).mono ?_
    rintro outcome y ⟨⟨-, hstores⟩, hcounts⟩
    rw [Counts, hwrites] at hcounts
    refine ⟨hcounts, ?_⟩
    rw [← hx]
    rcases hstores with ⟨-, -, hy⟩ | ⟨-, -, hy⟩
    · rw [hy]
      rfl
    · rw [hy]
  · rintro stop x ⟨⟨-, hx, -⟩, hwrites⟩
    exact ⟨counts_error hwrites, by rw [hx]⟩

/-- **One chunk.** -/
theorem writeChunk_laid_ends (hv : v.Shaped g) (hw : v.snapshot.Sound g)
    (hknown : v.snapshot.Known g index) (hslot : position / sectorSize < directBlocks) :
    v.Ends (VolumeM.writeChunk index position chunk) fun outcome w => v.Laid g 1 outcome w := by
  cases hblock : (v.snapshot.memory.inode index).blockAt (position / sectorSize) with
  | some block =>
    refine (writeChunk_owned_ends hv hw hknown (by rw [hblock]; rfl)).mono ?_
    rintro (stop | ⟨⟩) w ⟨hcounts, hused⟩
    · exact .short stop (Nat.lt_succ_of_le hcounts.le) hused
    · exact .done hcounts.ge
  | none =>
    unfold VolumeM.writeChunk
    refine Ends.bind (blockForWrite_fresh_ends hv hknown.lt hslot hblock) ?_ ?_
    · rintro ⟨block, fresh⟩ x (⟨_, ⟨rfl⟩, hlt, hvx, hwrites, htakes⟩ | ⟨stop, ⟨⟩, -⟩)
      rw [ends_get_bind]
      -- a new block is not read before it is written
      show x.Ends (VolumeM.writeSector (x.geometry.blockLba block) _) _
      refine ((writeBlock_ends hvx.shaped _ hlt).and (writeSector_counts_ends _ _)).mono ?_
      rintro outcome y ⟨⟨-, ⟨rfl, -, -⟩ | ⟨rfl, -, hy⟩⟩, hcounts⟩
      · have hone : y.device.writes = x.device.writes + 1 := hcounts
        exact .done (by omega)
      · have hsame := hcounts.of_error
        exact .gained (by omega) (by rw [hy]; exact htakes)
    · rintro stop x (⟨_, ⟨⟩, -⟩ | ⟨_, ⟨rfl⟩, hwrites, hused⟩)
      exact .short _ (by omega) hused

end Volume

/-- A row that ends in the sector where it begins is a single chunk. -/
theorem VolumeM.writeChunks_eq_writeChunk {δ : Type} [BlockDevice δ] (index position : ℕ)
    {data : List UInt8} (hpos : 0 < data.length)
    (hfits : position % sectorSize + data.length ≤ sectorSize) :
    (writeChunks index position data : VolumeM δ Unit) = writeChunk index position data := by
  have hcount : chunkLength position data.length = data.length := by
    rw [chunkLength]
    omega
  rw [writeChunks_eq index position hpos.ne', hcount, List.take_length, List.drop_length,
    writeChunks_nil]
  exact bind_pure _

namespace Volume

variable {g : Geometry} {v w x : Volume RamDisk} {index position : ℕ} {data : List UInt8}
  {record : DirectoryRecord}

/-! ### Records -/

/-- **The chunks of a record** behind the end of a directory. -/
theorem writeRecord_laid_ends (hv : v.Shaped g) (hw : v.snapshot.Sound g)
    (hknown : v.snapshot.Known g index) (hlength : data.length = recordSize)
    (hend : (v.snapshot.memory.inode index).size.toNat + data.length ≤ maxFileSize) :
    v.Ends (VolumeM.writeChunks index (v.snapshot.memory.inode index).size.toNat data)
      fun outcome w => v.Laid g (v.snapshot.memory.inode index).recordChunks outcome w := by
  have hfilled := hw.filled .memory index
  rw [Snapshot.image_memory] at hfilled
  unfold Inode.recordChunks
  generalize hsize : (v.snapshot.memory.inode index).size.toNat = position at *
  have hslot : position / sectorSize < directBlocks := by
    simp only [sectorSize, recordSize, maxFileSize, directBlocks] at *
    omega
  split
  · rename_i hfits
    rw [VolumeM.writeChunks_eq_writeChunk _ _ (by rw [hlength]; decide)
      (by rw [hlength]; exact hfits)]
    exact writeChunk_laid_ends hv hw hknown hslot
  · rename_i hover
    -- the first chunk fills the last sector of the directory, which has its block
    generalize hcount : sectorSize - position % sectorSize = count
    have hfirst : VolumeM.chunkLength position data.length = count ∧ 0 < count
        ∧ count < data.length ∧ position % sectorSize + count ≤ sectorSize := by
      simp only [VolumeM.chunkLength, sectorSize, recordSize] at *
      omega
    have hlast : position - 1 < position ∧ (position - 1) / sectorSize = position / sectorSize := by
      simp only [sectorSize, recordSize] at *
      omega
    have hsecond : (position + count) / sectorSize < directBlocks
        ∧ (position + count) % sectorSize + (data.length - count) ≤ sectorSize := by
      simp only [sectorSize, recordSize, maxFileSize, directBlocks] at *
      omega
    have hsome := hfilled.block _ (by rw [hsize]; exact hlast.1)
    rw [hlast.2] at hsome
    have htake : (data.take count).length = count := by
      rw [List.length_take]
      omega
    rw [VolumeM.writeChunks_eq _ _ (by omega), hfirst.1,
      VolumeM.writeChunks_eq_writeChunk _ _ (by rw [List.length_drop]; omega)
        (by rw [List.length_drop]; exact hsecond.2)]
    refine Ends.bind ((writeChunk_ends hv hw hknown (by omega) hslot (by omega)).and
      (writeChunk_owned_ends hv hw hknown hsome)) ?_ ?_
    · rintro ⟨⟩ x ⟨⟨hvx, hextended, -⟩, hcounts, hused⟩
      have hx := hextended.sound hw hknown fun _ => hsize.le
      refine (writeChunk_laid_ends hvx.shaped hx (hknown.extended hextended) hsecond.1).mono ?_
      exact fun outcome y h => h.after hcounts hused
    · rintro stop x ⟨-, hcounts, hused⟩
      exact .short stop (by have := hcounts.of_error; omega) hused

/-- What an attempt to append a record leaves when it stops. -/
inductive Remains (g : Geometry) (index : ℕ) (v : Volume RamDisk) : Stop → Volume RamDisk → Prop
  /-- The directory has its size, and no block more is in use. -/
  | nothing {w : Volume RamDisk} (stop : Stop) :
      (w.snapshot.memory.inode index).size = (v.snapshot.memory.inode index).size →
      w.snapshot.memory.blockUsed = v.snapshot.memory.blockUsed →
      (stop = .error .io → LawfulDevice.Failed w.device ∧ w.device.writes
        < v.device.writes + (v.snapshot.memory.inode index).recordChunks) →
      Remains g index v stop w
  /-- It has grown, or there is a block more. -/
  | something {w : Volume RamDisk} : LawfulDevice.Failed w.device →
      v.device.writes + (v.snapshot.memory.inode index).recordChunks ≤ w.device.writes →
      ((w.snapshot.memory.inode index).size ≠ (v.snapshot.memory.inode index).size
        ∨ v.snapshot.Takes g w.snapshot) →
      Remains g index v (.error .io) w

theorem storeRecord_remains_ends (hv : v.Shaped g) (hw : v.snapshot.Sound g)
    (hknown : v.snapshot.Known g index) (hlength : data.length = recordSize)
    (hend : (v.snapshot.memory.inode index).size.toNat + data.length ≤ maxFileSize) :
    v.Ends (VolumeM.storeContent index (v.snapshot.memory.inode index).size.toNat data)
      fun outcome w => ∀ stop, outcome = .error stop → v.Remains g index stop w := by
  unfold VolumeM.storeContent
  refine Ends.attempt_bind ((writeChunks_ends hv hw hknown hend fun _ => Nat.le_refl _).and
    (writeRecord_laid_ends hv hw hknown hlength hend)) ?_ ?_ ?_
  · rintro ⟨⟩ x ⟨⟨hvx, hextended, -⟩, hlaid⟩
    cases hlaid with
    | done hwrites =>
    show x.Ends (VolumeM.inodeAt index >>= fun inode => _) _
    rw [ends_inodeAt_bind hvx.shaped hknown.lt, ends_setInode_bind hvx.shaped hknown.lt]
    have hput := hvx.shaped.continues_put index ((x.snapshot.memory.inode index).grownTo
      ((v.snapshot.memory.inode index).size.toNat + data.length))
    refine Ends.attempt_bind ((flushInode_ends hput.shaped hknown.lt).and
      (flushInode_counts_ends index)) ?_ ?_ ?_
    · rintro ⟨⟩ y - stop h
      cases h
    · rintro cause y ⟨⟨-, ⟨⟨⟩, -⟩ | ⟨⟨rfl⟩, hfault, hy⟩⟩, hcounts⟩ stop ⟨⟩
      show v.Remains g index (.error .io) y
      refine .something hfault.1 (hwrites.trans hcounts.of_error.ge) (.inl fun hsame => ?_)
      rw [hy, snapshot_put hvx.shaped hknown.lt, Snapshot.memory_putInode] at hsame
      have hgrown := congrArg UInt32.toNat hsame
      rw [Inode.size_grownTo _ hend, hlength, recordSize] at hgrown
      omega
    · rintro y ⟨⟨-, ⟨⟨⟩, -⟩ | ⟨⟨⟩, -⟩⟩, -⟩
  · rintro cause x ⟨⟨hvx, hextended, hcases⟩, hlaid⟩
    have hfailed (hio : cause = .io) : LawfulDevice.Failed x.device := by
      subst hio
      rcases hcases with ⟨⟨⟩, -⟩ | ⟨-, hfault⟩ | ⟨⟨⟩, -⟩
      exact hfault.1
    -- the inode is stored all the same, but not by a failed device
    have hleft {y : Volume RamDisk} (hmemory : y.snapshot.memory = x.snapshot.memory)
        (hlast : cause = .io → LawfulDevice.Failed y.device
          ∧ y.device.writes = x.device.writes) : v.Remains g index (.error cause) y := by
      cases hlaid with
      | short _ hwrites hused =>
        refine .nothing _ ?_ ?_ fun hio => ?_
        · rw [hmemory]
          exact hextended.size_eq
        · rw [hmemory]
          exact hused
        · obtain ⟨hfail, hsame⟩ := hlast (by cases hio; rfl)
          exact ⟨hfail, hsame ▸ hwrites⟩
      | gained hwrites htakes =>
        obtain ⟨hfail, hsame⟩ := hlast rfl
        refine .something hfail (hsame ▸ hwrites) (.inr ?_)
        rw [Snapshot.Takes, hmemory]
        exact htakes
    show x.Ends (VolumeM.attempt (VolumeM.flushInode index) >>= fun stored => _) _
    refine Ends.attempt_bind ((flushInode_ends hvx.shaped hknown.lt).and
      (flushInode_counts_ends index)) ?_ ?_ ?_
    · rintro ⟨⟩ y ⟨⟨-, ⟨-, hnot, hy⟩ | ⟨⟨⟩, -⟩⟩, -⟩ stop ⟨⟩
      exact hleft (y := y) (by rw [hy]; rfl) fun hio => absurd (hfailed hio) hnot
    · rintro _ y ⟨⟨-, ⟨⟨⟩, -⟩ | ⟨-, hfault, hy⟩⟩, hcounts⟩ stop ⟨⟩
      exact hleft (y := y) (by rw [hy]) fun _ => ⟨hfault.1, hcounts.of_error⟩
    · rintro y ⟨⟨-, ⟨⟨⟩, -⟩ | ⟨⟨⟩, -⟩⟩, -⟩
  · rintro x ⟨⟨-, -, ⟨⟨⟩, -⟩ | ⟨⟨⟩, -⟩ | ⟨⟨⟩, -⟩⟩, -⟩

/-- An attempt that was refused before anything was stored. -/
theorem remains_self {cause : VolumeError} (hcause : cause ≠ .io) :
    v.Remains g index (.error cause) v :=
  .nothing _ rfl rfl fun hio => absurd (Stop.error.inj hio) hcause

theorem writeRecord_remains_ends (hv : v.Shaped g) (hw : v.snapshot.Sound g)
    (hknown : v.snapshot.Known g index) (hlength : data.length = recordSize) :
    v.Ends (VolumeM.writeContent index (v.snapshot.memory.inode index).size.toNat data false)
      fun outcome w => ∀ stop, outcome = .error stop → v.Remains g index stop w := by
  unfold VolumeM.writeContent
  by_cases hlarge : maxFileSize < (v.snapshot.memory.inode index).size.toNat + data.length
  · rw [if_pos hlarge]
    rintro stop ⟨⟩
    exact remains_self (by decide)
  · rw [if_neg hlarge]
    show v.Ends (VolumeM.findInode index >>= fun inode => _) _
    rw [ends_findInode_bind hv hknown.lt, if_neg (by simp)]
    exact storeRecord_remains_ends hv hw hknown hlength (Nat.le_of_not_lt hlarge)

/-- **What an attempt to append a record leaves.** -/
theorem appendRecord_remains_ends (hv : v.Shaped g) (hw : v.snapshot.Sound g)
    (hknown : v.snapshot.Known g index) (record : DirectoryRecord) :
    v.Ends (VolumeM.appendRecord index record) fun outcome w => ∀ stop, outcome = .error stop →
      v.Remains g index stop w := by
  unfold VolumeM.appendRecord
  rw [ends_findInode_bind hv hknown.lt]
  dsimp only
  split
  · rintro stop ⟨⟩
    exact remains_self (by decide)
  refine Ends.attempt_bind (writeRecord_remains_ends hv hw hknown record.length_bytes) ?_ ?_ ?_
  · rintro count w - stop ⟨⟩
  · intro cause w hremains
    have hstop := hremains _ rfl
    cases cause with
    | fileTooLarge =>
      rintro stop ⟨⟩
      cases hstop with
      | nothing _ hsize hused => exact .nothing _ hsize hused nofun
    | _ =>
      rintro stop ⟨⟩
      exact hstop
  · rintro w hremains stop ⟨⟩
    exact hremains _ rfl

theorem appendRecord_writes_ends (hv : v.Shaped g) (hlt : index < g.inodeCount)
    (record : DirectoryRecord) : v.Ends (VolumeM.appendRecord index record) fun _ w =>
      v.device.writes ≤ w.device.writes :=
  (callInvariant_sized.appendRecord hlt record v hv.sized).mono fun _ _ h => h.1.asked.writes_le

/-! ### Inodes -/

/-- **The stores of handing out an inode**: two, or one if it was lost in between. -/
theorem allocInode_counts_ends (hv : v.Shaped g) (hw : v.snapshot.Sound g) {kind : InodeKind}
    (hkind : kind ≠ .free) (parent : ℕ) :
    v.Ends (VolumeM.allocInode kind parent) fun outcome w =>
      (outcome.isOk = true ∧ w.device.writes = v.device.writes + 2)
        ∨ (outcome.isOk = false ∧ w.device.writes = v.device.writes
          ∧ w.snapshot.live = v.snapshot.live)
        ∨ (outcome = .error (.error .io) ∧ w.device.writes = v.device.writes + 1
          ∧ w.snapshot.live ≠ v.snapshot.live) := by
  unfold VolumeM.allocInode
  rw [ends_get_bind]
  cases halloc : v.inodeMap.alloc? with
  | none => exact .inr (.inl ⟨rfl, rfl, rfl⟩)
  | some found =>
    obtain ⟨index, map⟩ := found
    obtain ⟨hlt, hclear, hbelow, rfl⟩ := Bitmap.of_alloc?_eq_some halloc
    rw [hv.length_inodeMap] at hlt
    have hdead : v.snapshot.live index = false :=
      hw.not_isLive_of_lowestFree ⟨hlt, hclear, hbelow⟩
    show v.Ends (VolumeM.setInodeMap _ >>= _) _
    rw [VolumeM.setInodeMap, ends_modify_bind]
    have hmid := hv.continues_of_copies v.inodes (v.inodeMap.set index) v.blockMap rfl
      (Bitmap.length_set _ _) rfl
    refine Ends.attempt_bind ((flushInodeMap_ends hmid.shaped).and flushInodeMap_counts_ends)
      ?_ ?_ ?_
    · rintro ⟨⟩ x ⟨⟨hvx, ⟨-, -, hx⟩ | ⟨⟨⟩, -⟩⟩, hone⟩
      show x.Ends (VolumeM.setInode index _ >>= fun _ => _) _
      rw [ends_setInode_bind hvx.shaped hlt]
      have hput := hvx.shaped.continues_put index (Inode.empty kind (UInt32.ofNat parent))
      refine Ends.bind ((flushInode_ends hput.shaped hlt).and (flushInode_counts_ends index)) ?_ ?_
      · rintro ⟨⟩ y ⟨-, htwo⟩
        refine .inl ⟨rfl, ?_⟩
        have hone' : x.device.writes = v.device.writes + 1 := hone
        exact Eq.trans htwo (congrArg (· + 1) hone')
      · rintro stop y ⟨⟨-, ⟨⟨⟩, -⟩ | ⟨⟨rfl⟩, -, hy⟩⟩, hcounts⟩
        refine .inr (.inr ⟨rfl, hcounts.of_error.trans hone, fun hsame => ?_⟩)
        have hlive := congrFun hsame index
        rw [hdead, Snapshot.live, hy, snapshot_put hvx.shaped hlt, Snapshot.memory_putInode,
          Inode.isLive_empty hkind] at hlive
        cases hlive
    · rintro cause x ⟨⟨-, ⟨⟨⟩, -⟩ | ⟨-, -, hx⟩⟩, hcounts⟩
      have hlive : x.snapshot.live = v.snapshot.live := by
        rw [hx]
        rfl
      exact .inr (.inl ⟨rfl, hcounts.of_error, hlive⟩)
    · rintro x ⟨⟨-, ⟨⟨⟩, -⟩ | ⟨⟨⟩, -⟩⟩, -⟩

/-- On a failed device, an inode is taken back in memory alone. -/
theorem releaseInode_writes_ends (hv : v.Shaped g) (hlt : index < g.inodeCount)
    (hfailed : LawfulDevice.Failed v.device) :
    v.Ends (VolumeM.releaseInode index) fun _ w => w.device.writes = v.device.writes :=
  (serves_releaseInode hlt v hv.sized).mono fun _ _ h =>
    congrArg RamDisk.writes (h.1.asked.eq_of_failed hfailed)

end Volume

end PocketKernel
