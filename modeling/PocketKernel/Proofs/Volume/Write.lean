import PocketKernel.Proofs.Volume.Growth
import PocketKernel.Proofs.Volume.Transfer
import PocketKernel.Volume.Content

/-!
# Writing chunks into an inode

What becomes of a row of chunks, from the block that is handed out for one of them on. Wherever it
stops, the blocks that were handed out belong to the inode, and nothing outside of the stretch that
was to be written has changed.

## Main results

* `Volume.allocBlock_ends`: a block is handed out only if it was free.
* `Volume.writeChunks_ends`: a row of chunks.
-/

namespace PocketKernel

namespace Volume

variable {δ : Type} [BlockDevice δ] [LawfulDevice δ] {g : Geometry} {v w : Volume δ}

/-! ### Handing out a block -/

theorem toNat_ofNat_block {block : ℕ} (h : block < g.dataBlocks) :
    (UInt32.ofNat block).toNat = block := by
  have hle := g.dataBlocks_le
  simp only [bitsPerSector] at hle
  exact UInt32.toNat_ofNat_of_lt' (Nat.lt_of_lt_of_le h (Nat.le_trans hle (by decide)))

theorem ofNat_block_ne_noBlock {block : ℕ} (h : block < g.dataBlocks) :
    UInt32.ofNat block ≠ noBlock := by
  intro heq
  have htoNat := toNat_ofNat_block h
  rw [heq] at htoNat
  have hle := g.dataBlocks_le
  simp only [bitsPerSector] at hle
  have hnoBlock : noBlock.toNat = 4294967295 := rfl
  omega

/-- A mark that is taken back leaves no trace. -/
theorem snapshot_clear_set_blockMap (hv : v.Shaped g) {block : ℕ} (h : block < g.dataBlocks)
    (hclear : v.blockMap.isSet block = false)
    (hw : w.snapshot = v.snapshot.markBlock block) :
    { w with blockMap := (v.blockMap.set block).clear block }.snapshot = v.snapshot := by
  have hmap : ((v.blockMap.set block).clear block).isSet = v.blockMap.isSet :=
    Bitmap.isSet_clear_set hv.fitsSector_blockMap (by rw [hv.length_blockMap]; exact h) hclear
  have hleft : { w with blockMap := (v.blockMap.set block).clear block }.snapshot
      = { w.snapshot with memory.blockUsed := ((v.blockMap.set block).clear block).isSet } := rfl
  rw [hleft, hw, hmap]
  rfl

/-- **A block is handed out only if it was free**, and it is marked in both bitmaps then. -/
theorem allocBlock_ends (hv : v.Shaped g) :
    v.Ends VolumeM.allocBlock fun outcome w => v.Continues g w ∧
      ((∃ pointer, outcome = .ok pointer ∧ pointer ≠ noBlock ∧ pointer.toNat < g.dataBlocks
          ∧ v.snapshot.memory.blockUsed pointer.toNat = false
          ∧ w.snapshot = (v.snapshot.markBlock pointer.toNat).storeBlockMap)
        ∨ (outcome = .error (.error .io) ∧ v.Faulted w ∧ w.snapshot = v.snapshot)
        ∨ (outcome = .error (.error .noSpace) ∧ w = v
          ∧ ∀ block < g.dataBlocks, v.snapshot.memory.blockUsed block = true)) := by
  unfold VolumeM.allocBlock
  rw [ends_get_bind]
  cases halloc : v.blockMap.alloc? with
  | none =>
    refine ⟨hv.continues, .inr (.inr ⟨rfl, rfl, fun block hblock => ?_⟩)⟩
    exact Bitmap.of_alloc?_eq_none hv.fitsSector_blockMap halloc block
      (by rw [hv.length_blockMap]; exact hblock)
  | some found =>
    obtain ⟨block, map⟩ := found
    obtain ⟨hlt, hclear, -, rfl⟩ := Bitmap.of_alloc?_eq_some halloc
    rw [hv.length_blockMap] at hlt
    show v.Ends (VolumeM.setBlockMap _ >>= _) _
    rw [VolumeM.setBlockMap, ends_modify_bind]
    have hmid := hv.continues_of_copies v.inodes v.inodeMap (v.blockMap.set block) rfl rfl
      (Bitmap.length_set _ _)
    refine Ends.attempt_bind (flushBlockMap_ends hmid.shaped) ?_ ?_ ?_
    · rintro ⟨⟩ w ⟨hcontinues, ⟨-, -, hsnapshot⟩ | ⟨hstop, -⟩⟩
      · refine (ends_pure _).mpr ⟨hmid.trans hcontinues, .inl ⟨_, rfl,
          ofNat_block_ne_noBlock hlt, ?_, ?_, ?_⟩⟩
        · rw [toNat_ofNat_block hlt]; exact hlt
        · rw [toNat_ofNat_block hlt]; exact hclear
        · rw [hsnapshot, toNat_ofNat_block hlt, snapshot_set_blockMap hv hlt]
      · cases hstop
    · rintro cause w ⟨hcontinues, ⟨hok, -⟩ | ⟨hio, hfault, hsnapshot⟩⟩
      · cases hok
      · cases hio
        have hleft := snapshot_clear_set_blockMap hv hlt hclear
          (hsnapshot.trans (snapshot_set_blockMap hv hlt))
        have hback := hcontinues.shaped.continues_of_copies w.inodes w.inodeMap
          ((v.blockMap.set block).clear block) rfl rfl
          (by rw [Bitmap.length_clear, Bitmap.length_set, hv.length_blockMap,
            hcontinues.shaped.length_blockMap])
        exact ⟨hmid.trans (hcontinues.trans hback), .inr (.inl ⟨rfl, hfault, hleft⟩)⟩
    · rintro w ⟨-, ⟨hok, -⟩ | ⟨hio, -⟩⟩
      · cases hok
      · cases hio

/-! ### One chunk -/

/-- The block for a chunk is one that the inode has, or a free one that it gains. -/
theorem blockForWrite_ends (hv : v.Shaped g) (hw : v.snapshot.Sound g) {index slot : ℕ}
    (hknown : v.snapshot.Known g index) (hslot : slot < directBlocks) (start : ℕ) {stop : ℕ}
    (hstop : slot * sectorSize < stop) :
    v.Ends (VolumeM.blockForWrite index slot) fun outcome w => v.Continues g w ∧
      ((∃ block fresh, outcome = .ok (block, fresh) ∧ block < g.dataBlocks
          ∧ Snapshot.Extended g index start stop v.snapshot w.snapshot
          ∧ (w.snapshot.memory.inode index).blockAt slot = some block
          ∧ (fresh = true → (v.snapshot.memory.inode index).blockAt slot = none))
        ∨ (outcome = .error (.error .io) ∧ v.Faulted w ∧ w.snapshot = v.snapshot)
        ∨ (outcome = .error (.error .noSpace) ∧ w = v
          ∧ ∀ block < g.dataBlocks, v.snapshot.memory.blockUsed block = true)) := by
  unfold VolumeM.blockForWrite
  rw [ends_inodeAt_bind hv hknown.lt]
  have hget : (v.snapshot.memory.inode index).direct[slot]?
      = some (v.snapshot.memory.inode index).direct[slot] := Vector.getElem?_eq_getElem hslot
  simp only [hget]
  by_cases hnone : (v.snapshot.memory.inode index).direct[slot] = noBlock
  · have hblockAt : (v.snapshot.memory.inode index).blockAt slot = none := by
      simp only [Inode.blockAt, hget, if_pos hnone]
    rw [if_pos hnone]
    refine Ends.bind (allocBlock_ends hv) ?_ ?_
    · rintro pointer w ⟨hcontinues, ⟨_, ⟨rfl⟩, hne, hlt, hclear, hsnapshot⟩ | ⟨⟨⟩, -⟩ | ⟨⟨⟩, -⟩⟩
      · have hmemory : w.snapshot.memory.inode index = v.snapshot.memory.inode index := by
          rw [hsnapshot]
          rfl
        have hput := snapshot_put hcontinues.shaped hknown.lt
          ((v.snapshot.memory.inode index).withBlock slot pointer)
        rw [hsnapshot] at hput
        have hextended := Snapshot.Extended.claim hw hknown hslot hblockAt hne hlt hclear start hstop
        rw [← hput] at hextended
        have hself := Inode.blockAt_withBlock_self (x := v.snapshot.memory.inode index) hslot hne
        rw [ends_inodeAt_bind hcontinues.shaped hknown.lt,
          ends_setInode_bind hcontinues.shaped hknown.lt, hmemory]
        refine ⟨hcontinues.trans (hcontinues.shaped.continues_put _ _),
          .inl ⟨_, _, rfl, hlt, hextended, ?_, fun _ => hblockAt⟩⟩
        rw [← hself]
        refine congrArg (Inode.blockAt · slot) ?_
        exact (congrArg (·.memory.inode index) hput).trans (Snapshot.memory_putInode _ _)
    · rintro stop w ⟨hcontinues, ⟨_, ⟨⟩, -⟩ | ⟨⟨rfl⟩, hfault⟩ | ⟨⟨rfl⟩, hfull⟩⟩
      · exact ⟨hcontinues, .inr (.inl ⟨rfl, hfault⟩)⟩
      · exact ⟨hcontinues, .inr (.inr ⟨rfl, hfull⟩)⟩
  · have hblockAt : (v.snapshot.memory.inode index).blockAt slot
        = some (v.snapshot.memory.inode index).direct[slot].toNat := by
      simp only [Inode.blockAt, hget, if_neg hnone]
    have hlt := hw.owned_lt (hknown.owns hblockAt)
    rw [if_neg hnone, ends_get_bind, if_neg (by rw [hv.geometry]; omega)]
    exact ⟨hv.continues, .inl ⟨_, _, rfl, hlt, .refl hw hknown _ _, hblockAt,
      fun h => absurd h (by decide)⟩⟩

theorem blockBefore_ends (hv : v.Shaped g) {block : ℕ} (hblock : block < g.dataBlocks)
    (fresh : Bool) (count : ℕ) :
    v.Ends (VolumeM.blockBefore (v.geometry.blockLba block) fresh count) fun outcome w =>
      v.Continues g w ∧ w.snapshot = v.snapshot
      ∧ ((∃ before, outcome = .ok before ∧
            (fresh = false → count < sectorSize → before = v.snapshot.block block))
        ∨ (outcome = .error (.error .io) ∧ v.Faulted w)) := by
  unfold VolumeM.blockBefore
  by_cases hskip : (fresh || decide (sectorSize ≤ count)) = true
  · rw [if_pos hskip]
    refine ⟨hv.continues, rfl, .inl ⟨_, rfl, fun hfresh hcount => ?_⟩⟩
    simp only [hfresh, Bool.false_or, decide_eq_true_eq] at hskip
    exact absurd hskip (Nat.not_le.mpr hcount)
  · rw [if_neg hskip]
    refine (readBlock_ends hv hblock).mono ?_
    rintro outcome w ⟨hcontinues, hsnapshot, ⟨rfl, -⟩ | ⟨rfl, hfault⟩⟩
    · exact ⟨hcontinues, hsnapshot, .inl ⟨_, rfl, fun _ _ => rfl⟩⟩
    · exact ⟨hcontinues, hsnapshot, .inr ⟨rfl, hfault⟩⟩

end Volume

/-- The write of one chunk. -/
def VolumeM.writeChunk {δ : Type} [BlockDevice δ] (index position : ℕ) (chunk : List UInt8) :
    VolumeM δ Unit := do
  let (block, fresh) ← blockForWrite index (position / sectorSize)
  let lba := (← get).geometry.blockLba block
  let before ← blockBefore lba fresh chunk.length
  writeSector lba (before.overlay (position % sectorSize) chunk)

theorem VolumeM.writeChunks_nil {δ : Type} [BlockDevice δ] (index position : ℕ) :
    (writeChunks index position [] : VolumeM δ Unit) = pure () := by
  rw [writeChunks]
  rfl

/-- A row of chunks is the first and then the others. -/
theorem VolumeM.writeChunks_eq {δ : Type} [BlockDevice δ] (index position : ℕ) {data : List UInt8}
    (h : data.length ≠ 0) : (writeChunks index position data : VolumeM δ Unit)
      = (writeChunk index position (data.take (chunkLength position data.length)) >>= fun _ =>
        writeChunks index (position + chunkLength position data.length)
          (data.drop (chunkLength position data.length))) := by
  have hlength : (data.take (chunkLength position data.length)).length
      = chunkLength position data.length := by
    rw [List.length_take, chunkLength]
    omega
  rw [writeChunks, dif_neg h, writeChunk, hlength]
  simp only [bind_assoc]

namespace Volume

variable {δ : Type} [BlockDevice δ] [LawfulDevice δ] {g : Geometry} {v w : Volume δ}
  {index : ℕ} {position : ℕ}

theorem writeChunk_ends (hv : v.Shaped g) (hw : v.snapshot.Sound g)
    (hknown : v.snapshot.Known g index) {chunk : List UInt8} (hpos : 0 < chunk.length)
    (hslot : position / sectorSize < directBlocks)
    (hfits : position % sectorSize + chunk.length ≤ sectorSize) :
    v.Ends (VolumeM.writeChunk index position chunk) fun outcome w => v.Continues g w
      ∧ Snapshot.Extended g index position (position + chunk.length) v.snapshot w.snapshot
      ∧ ((outcome = .ok ()
          ∧ w.snapshot.Holds (w.snapshot.memory.inode index) position chunk)
        ∨ (outcome = .error (.error .io) ∧ v.Faulted w)
        ∨ (outcome = .error (.error .noSpace)
          ∧ ∀ block < g.dataBlocks, w.snapshot.memory.blockUsed block = true)) := by
  unfold VolumeM.writeChunk
  have hrefl := Snapshot.Extended.refl hw hknown position (position + chunk.length)
  have hstop : position / sectorSize * sectorSize < position + chunk.length := by
    have := Nat.div_mul_le_self position sectorSize
    omega
  refine Ends.bind (blockForWrite_ends hv hw hknown hslot position hstop) ?_ ?_
  · rintro ⟨block, fresh⟩ x ⟨hvx, ⟨_, _, ⟨rfl⟩, hlt, hextended, hblock, hfresh⟩ | ⟨⟨⟩, -⟩ | ⟨⟨⟩, -⟩⟩
    rw [ends_get_bind]
    refine Ends.bind (blockBefore_ends hvx.shaped hlt fresh chunk.length) ?_ ?_
    · rintro before y ⟨hxy, hsnapshot, ⟨_, ⟨rfl⟩, hbefore⟩ | ⟨⟨⟩, -⟩⟩
      rw [hvx.shaped.geometry.trans hxy.shaped.geometry.symm]
      refine (writeBlock_ends hxy.shaped _ hlt).mono ?_
      rw [← hsnapshot] at hextended hblock hbefore
      have hbytes :
          ((v.snapshot.memory.inode index).blockAt (position / sectorSize)).isSome = true →
          chunk.length < sectorSize → before = y.snapshot.block block := by
        intro hsome hshort
        refine hbefore ?_ hshort
        by_contra hnew
        rw [hfresh (by simpa using hnew)] at hsome
        cases hsome
      obtain ⟨hput, hholds⟩ := hextended.chunk hfits hblock hbytes
      rintro outcome z ⟨hyz, ⟨rfl, -, hz⟩ | ⟨rfl, hfault, hz⟩⟩
      · refine ⟨hvx.trans (hxy.trans hyz), by rw [hz]; exact hput, .inl ⟨rfl, ?_⟩⟩
        rw [hz]
        exact hholds
      · exact ⟨hvx.trans (hxy.trans hyz), by rw [hz]; exact hextended,
          .inr (.inl ⟨rfl, .of_continues (hvx.trans hxy) hfault⟩)⟩
    · rintro stop y ⟨hxy, hsnapshot, ⟨_, ⟨⟩, -⟩ | ⟨⟨rfl⟩, hfault⟩⟩
      exact ⟨hvx.trans hxy, by rw [hsnapshot]; exact hextended,
        .inr (.inl ⟨rfl, .of_continues hvx hfault⟩)⟩
  · rintro stop x ⟨hvx, ⟨_, _, ⟨⟩, -⟩ | ⟨⟨rfl⟩, hfault, hsnapshot⟩ | ⟨⟨rfl⟩, rfl, hfull⟩⟩
    · exact ⟨hvx, by rw [hsnapshot]; exact hrefl, .inr (.inl ⟨rfl, hfault⟩)⟩
    · exact ⟨hvx, hrefl, .inr (.inr ⟨rfl, hfull⟩)⟩

/-- **A row of chunks.** Wherever it stops, all that happened is a write between its ends. -/
theorem writeChunks_ends (hv : v.Shaped g) (hw : v.snapshot.Sound g)
    (hknown : v.snapshot.Known g index) {data : List UInt8}
    (hend : position + data.length ≤ maxFileSize)
    (hbehind : (v.snapshot.memory.inode index).isDirectory = true →
      (v.snapshot.memory.inode index).size.toNat ≤ position) :
    v.Ends (VolumeM.writeChunks index position data) fun outcome w => v.Continues g w
      ∧ Snapshot.Extended g index position (position + data.length) v.snapshot w.snapshot
      ∧ ((outcome = .ok ()
          ∧ w.snapshot.Holds (w.snapshot.memory.inode index) position data)
        ∨ (outcome = .error (.error .io) ∧ v.Faulted w)
        ∨ (outcome = .error (.error .noSpace)
          ∧ ∀ block < g.dataBlocks, w.snapshot.memory.blockUsed block = true)) := by
  induction hlen : data.length using Nat.strongRecOn generalizing v position data with
  | ind n ih =>
  subst hlen
  by_cases hnil : data.length = 0
  · rw [List.length_eq_zero_iff] at hnil
    subst hnil
    rw [VolumeM.writeChunks_nil]
    exact ⟨hv.continues, .refl hw hknown _ _, .inl ⟨rfl, Snapshot.holds_nil⟩⟩
  rw [VolumeM.writeChunks_eq _ _ hnil]
  have hpos := VolumeM.chunkLength_pos position hnil
  generalize hcount : VolumeM.chunkLength position data.length = count at hpos ⊢
  have hle : count ≤ data.length := by
    rw [← hcount, VolumeM.chunkLength]
    omega
  have htake : (data.take count).length = count := by rw [List.length_take]; omega
  have hdrop : (data.drop count).length = data.length - count := List.length_drop
  have hfits : position % sectorSize + count ≤ sectorSize := by
    have : position % sectorSize < sectorSize := Nat.mod_lt _ (by decide)
    rw [← hcount, VolumeM.chunkLength]
    omega
  have hslot : position / sectorSize < directBlocks := by
    simp only [sectorSize, maxFileSize, directBlocks] at *
    omega
  refine Ends.bind (writeChunk_ends hv hw hknown (by rw [htake]; exact hpos) hslot
    (by rw [htake]; exact hfits)) ?_ ?_
  · rintro ⟨⟩ x ⟨hvx, hfirst, ⟨-, hheld⟩ | ⟨⟨⟩, -⟩ | ⟨⟨⟩, -⟩⟩
    rw [htake] at hfirst
    refine (ih _ (by rw [hdrop]; omega) hvx.shaped (hfirst.sound hw hknown hbehind)
      (hknown.extended hfirst) (by omega) (fun hdirectory => ?_) rfl).mono ?_
    · have hbefore := hfirst.isDirectory_eq .memory index
      rw [Snapshot.image_memory, Snapshot.image_memory] at hbefore
      rw [hbefore] at hdirectory
      have := hbehind hdirectory
      rw [hfirst.size_eq]
      omega
    · have hend' : position + count + (data.drop count).length = position + data.length := by omega
      rw [hend']
      rintro outcome y ⟨hxy, hrest, hcases⟩
      refine ⟨hvx.trans hxy, (hfirst.mono (Nat.le_refl _) (by omega)).trans
        (hrest.mono (by omega) (Nat.le_refl _)), ?_⟩
      rcases hcases with ⟨rfl, hback⟩ | ⟨rfl, hfault⟩ | ⟨rfl, hfull⟩
      · have hfront := hheld.extended hrest (Nat.le_of_eq (by rw [htake]))
        have hall := hfront.append (by rw [htake]; exact hback)
        rw [List.take_append_drop] at hall
        exact .inl ⟨rfl, hall⟩
      · exact .inr (.inl ⟨rfl, .of_continues hvx hfault⟩)
      · exact .inr (.inr ⟨rfl, hfull⟩)
  · rintro stop x ⟨hvx, hfirst, hcases⟩
    rw [htake] at hfirst
    refine ⟨hvx, hfirst.mono (Nat.le_refl _) (by omega), ?_⟩
    rcases hcases with ⟨⟨⟩, -⟩ | ⟨⟨rfl⟩, hfault⟩ | ⟨⟨rfl⟩, hfull⟩
    · exact .inr (.inl ⟨rfl, hfault⟩)
    · exact .inr (.inr ⟨rfl, hfull⟩)

end Volume

end PocketKernel
