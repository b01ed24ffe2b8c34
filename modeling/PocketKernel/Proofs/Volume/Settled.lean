import PocketKernel.Proofs.Volume.Content

/-!
# Settled volumes

A volume is settled if nothing is pending: the device holds what the memory says, and every block
that is marked belongs to an inode. An operation that is refused no transfer settles the volume
again, wherever it stops for another reason.

## Main definitions

* `Snapshot.Settled`: the copies agree, and no block is lost.

## Main results

* `Snapshot.Settled.of_base`, `Snapshot.Settled.publish`: the parts of a write.
-/

namespace PocketKernel

namespace Snapshot

variable {g : Geometry} {index start stop : ℕ} {w mid base : Snapshot}

/-- The device holds what the memory says, and no block is marked for nothing. -/
structure Settled (w : Snapshot) : Prop where
  synced : w.disk = w.memory
  tight : ∀ {block}, w.memory.blockUsed block = true → ∃ k slot, w.memory.Owns k slot block

/-- A sector of the inode table is all that was missing on the device. -/
theorem disk_publish (hother : ∀ k, k ≠ index → w.disk.inode k = w.memory.inode k) :
    (w.publish (index / inodesPerSector)).disk.inode = w.memory.inode := by
  funext k
  by_cases hsame : k / inodesPerSector = index / inodesPerSector
  · exact if_pos hsame
  · refine (if_neg hsame).trans (hother k ?_)
    rintro rfl
    exact hsame rfl

/-- An inode without blocks may be replaced: every block that is marked stays somebody's. -/
theorem Settled.tight_of_others {w' : Snapshot} (hw : w.Settled)
    (hnone : ∀ slot, (w.memory.inode index).blockAt slot = none)
    (hothers : ∀ k, k ≠ index → w'.memory.inode k = w.memory.inode k)
    (hblocks : w'.memory.blockUsed = w.memory.blockUsed) {block : ℕ}
    (h : w'.memory.blockUsed block = true) : ∃ k slot, w'.memory.Owns k slot block := by
  rw [hblocks] at h
  obtain ⟨k, slot, howns⟩ := hw.tight h
  have hk : k ≠ index := by
    rintro rfl
    have hsome := howns.2
    rw [hnone slot] at hsome
    cases hsome
  refine ⟨k, slot, ?_⟩
  rw [Image.Owns, hothers k hk]
  exact howns

/-- Blocks stay marked only for other inodes once those of one inode are taken back. -/
theorem Settled.tight_emptied (hw : w.Settled) {block : ℕ}
    (h : (w.emptied index).memory.blockUsed block = true) :
    ∃ k slot, (w.emptied index).memory.Owns k slot block := by
  have hboth : (w.memory.blockUsed block && !(List.range directBlocks).any
      ((w.memory.inode index).blockAt · = some block)) = true := h
  rw [Bool.and_eq_true, Bool.not_eq_true', List.any_eq_false] at hboth
  obtain ⟨k, slot, howns⟩ := hw.tight hboth.1
  have hk : k ≠ index := by
    rintro rfl
    refine hboth.2 slot (List.mem_range.mpr (Inode.lt_directBlocks_of_blockAt howns.2)) ?_
    simpa using howns.2
  refine ⟨k, slot, ?_⟩
  rw [Image.Owns, (spares_emptied hk).memory_inode]
  exact howns

theorem Settled.disk_emptied (hw : w.Settled) (index : ℕ) :
    (w.emptied index).disk.inode = (w.emptied index).memory.inode := by
  refine disk_publish (w := w.putInode index (w.memory.inode index).detached) fun k hk => ?_
  rw [memory_putInode_of_ne _ hk, ← hw.synced]
  rfl

/-- What the chunks of a write find is settled. -/
theorem Settled.of_base {truncate : Bool} (hw : w.Settled) (h : w.Base index truncate base) :
    base.Settled := by
  have hinode := hw.disk_emptied index
  have hused : w.disk.inodeUsed = w.memory.inodeUsed := by rw [hw.synced]
  have hblocks : w.disk.blockUsed = w.memory.blockUsed := by rw [hw.synced]
  cases h with
  | kept => exact hw
  | emptied => exact ⟨Image.ext hinode hused rfl, hw.tight_emptied⟩
  | nothing hkeep =>
    exact ⟨Image.ext hinode hused (hblocks.trans hkeep.symm), hw.tight_emptied⟩

/-- **Storing the inode settles a write**, whatever size it gets. -/
theorem Settled.publish (hbase : base.Settled) (h : Extended g index start stop base mid)
    {x : Inode} (hx : x.direct = (mid.memory.inode index).direct) (hne : x ≠ Inode.blank) :
    ((mid.putInode index x).publish (index / inodesPerSector)).Settled := by
  have hput (k : ℕ) (hk : k ≠ index) : (mid.putInode index x).memory.inode k
      = base.memory.inode k := by
    rw [memory_putInode_of_ne x hk]
    exact h.others k hk
  have hpointers (slot : ℕ) : x.blockAt slot = (mid.memory.inode index).blockAt slot := by
    rw [Inode.blockAt, hx, Inode.blockAt]
  constructor
  · have hinode : ((mid.putInode index x).publish (index / inodesPerSector)).disk.inode
        = (mid.putInode index x).memory.inode := by
      refine disk_publish fun k hk => ?_
      rw [hput k hk, ← hbase.synced]
      exact congrFun h.disk_inode k
    have hused : mid.disk.inodeUsed = mid.memory.inodeUsed := by
      rw [← image_disk, ← image_memory, h.inodeUsed .disk, h.inodeUsed .memory, image_disk,
        hbase.synced, image_memory]
    have hblocks : mid.disk.blockUsed = mid.memory.blockUsed := by
      rcases h.maps with ⟨hmemory, hdisk⟩ | hsame
      · rw [hmemory, hdisk, hbase.synced]
      · exact hsame
    exact Image.ext hinode hused hblocks
  · intro block hblock
    have hself : (mid.putInode index x).memory.inode index = x := memory_putInode x index
    rcases h.marked.mp hblock with hused | ⟨slot, hslot⟩
    · obtain ⟨k, slot, howns⟩ := hbase.tight hused
      refine ⟨k, slot, ?_⟩
      show (mid.putInode index x).memory.Owns k slot block
      by_cases hk : k = index
      · subst hk
        rw [Image.Owns, hself, hpointers]
        exact ⟨hne, h.kept howns.2⟩
      · rw [Image.Owns, hput k hk]
        exact howns
    · refine ⟨index, slot, ?_⟩
      show (mid.putInode index x).memory.Owns index slot block
      rw [Image.Owns, hself, hpointers]
      exact ⟨hne, hslot⟩

end Snapshot

end PocketKernel
