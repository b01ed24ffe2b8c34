import PocketKernel.Proofs.Volume.Growth

/-!
# What an operation leaves alone

An operation works on one or two inodes, and spares the others: they keep their place in the memory
image and the bytes of their blocks. Their copy on the device may change all the same, because a
store of the inode table takes seven neighbours along, but it can only become what the memory
says.

## Main definitions

* `Snapshot.Spares`: an inode is left alone.
* `Snapshot.Reworks`: at most the content of one inode changed.

## Main results

* `Snapshot.Spares.trans`, `Snapshot.Reworks.trans`, and one lemma for each change of a snapshot.
* `Snapshot.Spares.content_eq`: an inode that is spared keeps its content.
-/

namespace PocketKernel

/-- Two inodes are the same but for their content. -/
def Inode.Kin (x y : Inode) : Prop := x.kind = y.kind ∧ x.parent = y.parent

theorem Inode.Kin.isLive_eq {x y : Inode} (h : x.Kin y) : x.isLive = y.isLive := by
  rw [isLive, isLive, h.1]

theorem Inode.Kin.isDirectory_eq {x y : Inode} (h : x.Kin y) : x.isDirectory = y.isDirectory := by
  rw [isDirectory, isDirectory, h.1]

namespace Snapshot

variable {g : Geometry} {index : ℕ} {w w' w'' : Snapshot}

/-- An inode keeps its place in the memory image and the bytes of its blocks; its copy on the device
may be replaced by it. -/
structure Spares (index : ℕ) (w w' : Snapshot) : Prop where
  memory_inode : w'.memory.inode index = w.memory.inode index
  disk_inode : w'.disk.inode index = w.disk.inode index
    ∨ w'.disk.inode index = w.memory.inode index
  memory_used : w'.memory.inodeUsed index = w.memory.inodeUsed index
  disk_used : w'.disk.inodeUsed index = w.disk.inodeUsed index
    ∨ w'.disk.inodeUsed index = w.memory.inodeUsed index
  block : ∀ {slot block}, w.memory.Owns index slot block → w'.block block = w.block block

theorem Spares.refl (index : ℕ) (w : Snapshot) : Spares index w w :=
  ⟨rfl, .inl rfl, rfl, .inl rfl, fun _ => rfl⟩

theorem Spares.trans (h : Spares index w w') (h' : Spares index w' w'') :
    Spares index w w'' where
  memory_inode := h'.memory_inode.trans h.memory_inode
  disk_inode := by
    rcases h'.disk_inode with hdisk | hmemory
    · rw [hdisk]
      exact h.disk_inode
    · exact .inr (hmemory.trans h.memory_inode)
  memory_used := h'.memory_used.trans h.memory_used
  disk_used := by
    rcases h'.disk_used with hdisk | hmemory
    · rw [hdisk]
      exact h.disk_used
    · exact .inr (hmemory.trans h.memory_used)
  block {slot block} howns := by
    have howns' : w'.memory.Owns index slot block := by
      rw [Image.Owns, h.memory_inode]
      exact howns
    rw [h'.block howns', h.block howns]

/-! ### The changes of a snapshot -/

theorem spares_putInode {other : ℕ} (hne : index ≠ other) (x : Inode) :
    Spares index w (w.putInode other x) :=
  ⟨Function.update_of_ne hne _ _, .inl rfl, rfl, .inl rfl, fun _ => rfl⟩

theorem spares_publish (tableSector : ℕ) : Spares index w (w.publish tableSector) := by
  refine ⟨rfl, ?_, rfl, .inl rfl, fun _ => rfl⟩
  obtain ⟨c, hc⟩ := draws_publish (w := w) tableSector .disk index
  cases c with
  | memory => exact .inr hc
  | disk => exact .inl hc

theorem spares_markInode {other : ℕ} (hne : index ≠ other) (used : Bool) :
    Spares index w (w.markInode other used) :=
  ⟨rfl, .inl rfl, Function.update_of_ne hne _ _, .inl rfl, fun _ => rfl⟩

theorem spares_storeInodeMap : Spares index w w.storeInodeMap :=
  ⟨rfl, .inl rfl, rfl, .inr rfl, fun _ => rfl⟩

theorem spares_clearBlocks (x : Inode) : Spares index w (w.clearBlocks x) :=
  ⟨rfl, .inl rfl, rfl, .inl rfl, fun _ => rfl⟩

theorem spares_storeBlockMap : Spares index w w.storeBlockMap :=
  ⟨rfl, .inl rfl, rfl, .inl rfl, fun _ => rfl⟩

theorem Extended.spares {other start stop : ℕ} (hw : w.Sound g) (hknown : w.Known g other)
    (h : Extended g other start stop w w') (hne : index ≠ other) : Spares index w w' where
  memory_inode := h.others index hne
  disk_inode := .inl (congrFun h.disk_inode index)
  memory_used := congrFun (h.inodeUsed .memory) index
  disk_used := .inl (congrFun (h.inodeUsed .disk) index)
  block howns := h.block_eq (c := .memory) hw hknown howns hne

/-! ### What is spared -/

/-- An inode that is spared keeps its content. -/
theorem Spares.content_eq (hw : w.Sound g) (h : Spares index w w')
    (hne : w.memory.inode index ≠ Inode.blank) :
    w'.content (w'.memory.inode index) = w.content (w.memory.inode index) := by
  rw [h.memory_inode]
  refine content_congr rfl fun position hposition => ?_
  obtain ⟨block, hblock⟩ :=
    Option.isSome_iff_exists.mp ((hw.filled .memory index).block position hposition)
  rw [image_memory] at hblock
  rw [byteAt_of_blockAt hblock, byteAt_of_blockAt hblock, h.block ⟨hne, hblock⟩]

theorem Spares.records_eq (hw : w.Sound g) (h : Spares index w w')
    (hdirectory : (w.memory.inode index).isDirectory = true) :
    w'.records (w'.memory.inode index) = w.records (w.memory.inode index) := by
  rw [records, records, h.content_eq hw (Inode.ne_blank_of_isDirectory hdirectory)]

/-! ### The inode that is worked on -/

/-- Of one inode the content may have changed, and nothing else happened to any inode. -/
structure Reworks (index : ℕ) (w w' : Snapshot) : Prop where
  spares : ∀ k, k ≠ index → Spares k w w'
  inodeUsed : ∀ c, (w'.image c).inodeUsed = (w.image c).inodeUsed
  memory_kin : (w'.memory.inode index).Kin (w.memory.inode index)
  disk_kin : ∃ c, (w'.disk.inode index).Kin ((w.image c).inode index)
  /-- A block that it points at was its own or was free. -/
  gained : ∀ {slot block}, (w'.memory.inode index).blockAt slot = some block →
    (∃ slot, (w.memory.inode index).blockAt slot = some block) ∨ w.memory.blockUsed block = false
  /-- A mark that is gone was for a block of its own. -/
  marked : ∀ {block}, w.memory.blockUsed block = true → w'.memory.blockUsed block = true
    ∨ ∃ slot, (w.memory.inode index).blockAt slot = some block

theorem Reworks.refl (index : ℕ) (w : Snapshot) : Reworks index w w :=
  ⟨fun k _ => .refl k w, fun _ => rfl, ⟨rfl, rfl⟩, ⟨.disk, rfl, rfl⟩, fun h => .inl ⟨_, h⟩, .inl⟩

theorem Reworks.trans (h : Reworks index w w') (h' : Reworks index w' w'') :
    Reworks index w w'' where
  spares k hk := (h.spares k hk).trans (h'.spares k hk)
  inodeUsed c := (h'.inodeUsed c).trans (h.inodeUsed c)
  memory_kin := ⟨h'.memory_kin.1.trans h.memory_kin.1, h'.memory_kin.2.trans h.memory_kin.2⟩
  disk_kin := by
    obtain ⟨c, hkind, hparent⟩ := h'.disk_kin
    cases c with
    | memory =>
      exact ⟨.memory, hkind.trans h.memory_kin.1, hparent.trans h.memory_kin.2⟩
    | disk =>
      obtain ⟨c, hkind', hparent'⟩ := h.disk_kin
      exact ⟨c, hkind.trans hkind', hparent.trans hparent'⟩
  gained {slot block} hblock := by
    rcases h'.gained hblock with ⟨slot', hslot'⟩ | hfree
    · exact h.gained hslot'
    · by_cases hused : w.memory.blockUsed block = true
      · rcases h.marked hused with hused' | hown
        · rw [hfree] at hused'
          cases hused'
        · exact .inl hown
      · exact .inr (Bool.eq_false_iff.mpr hused)
  marked {block} hused := by
    rcases h.marked hused with hused' | hown
    · rcases h'.marked hused' with hused'' | ⟨slot, hslot⟩
      · exact .inl hused''
      · rcases h.gained hslot with hown | hfree
        · exact .inr hown
        · rw [hfree] at hused
          cases hused
    · exact .inr hown

theorem reworks_putInode {x : Inode} (hx : x.Kin (w.memory.inode index))
    (hpointers : ∀ {slot block}, x.blockAt slot = some block →
      (w.memory.inode index).blockAt slot = some block) :
    Reworks index w (w.putInode index x) := by
  refine ⟨fun k hk => spares_putInode hk x, ?_, ?_, ⟨.disk, rfl, rfl⟩, ?_, .inl⟩
  · rintro (_ | _) <;> rfl
  · rw [memory_putInode]
    exact hx
  · rw [memory_putInode]
    exact fun h => .inl ⟨_, hpointers h⟩

theorem reworks_publish (tableSector : ℕ) : Reworks index w (w.publish tableSector) := by
  refine ⟨fun k _ => spares_publish tableSector, ?_, ⟨rfl, rfl⟩, ?_, fun h => .inl ⟨_, h⟩, .inl⟩
  · rintro (_ | _) <;> rfl
  · obtain ⟨c, hc⟩ := draws_publish (w := w) tableSector .disk index
    exact ⟨c, by rw [← hc]; exact ⟨rfl, rfl⟩⟩

theorem reworks_storeBlockMap : Reworks index w w.storeBlockMap := by
  refine ⟨fun k _ => spares_storeBlockMap, ?_, ⟨rfl, rfl⟩, ⟨.disk, rfl, rfl⟩,
    fun h => .inl ⟨_, h⟩, .inl⟩
  rintro (_ | _) <;> rfl

theorem Extended.reworks {start stop : ℕ} (hw : w.Sound g) (hknown : w.Known g index)
    (h : Extended g index start stop w w') : Reworks index w w' where
  spares _ hk := h.spares hw hknown hk
  inodeUsed := h.inodeUsed
  memory_kin := ⟨h.kind_eq, h.parent_eq⟩
  disk_kin := ⟨.disk, by rw [h.disk_inode]; exact ⟨rfl, rfl⟩⟩
  gained hblock := (h.gained hblock).imp (fun hold => ⟨_, hold⟩) And.right
  marked hused := .inl (h.marked.mpr (.inl hused))

/-- Each inode of either copy is kin to what a copy said before. -/
theorem Reworks.kin (h : Reworks index w w') (c : Copy) (k : ℕ) :
    ∃ c', ((w'.image c).inode k).Kin ((w.image c').inode k) := by
  by_cases hk : k = index
  · subst hk
    cases c with
    | memory => exact ⟨.memory, h.memory_kin⟩
    | disk => exact h.disk_kin
  · have hspares := h.spares k hk
    cases c with
    | memory => exact ⟨.memory, by rw [image_memory, hspares.memory_inode]; exact ⟨rfl, rfl⟩⟩
    | disk =>
      rcases hspares.disk_inode with hdisk | hmemory
      · exact ⟨.disk, by rw [image_disk, hdisk]; exact ⟨rfl, rfl⟩⟩
      · exact ⟨.memory, by rw [image_disk, hmemory]; exact ⟨rfl, rfl⟩⟩

/-- The kinds and the parents in memory stay as they are. -/
theorem Reworks.kin_memory (h : Reworks index w w') (k : ℕ) :
    (w'.memory.inode k).Kin (w.memory.inode k) := by
  by_cases hk : k = index
  · subst hk
    exact h.memory_kin
  · rw [(h.spares k hk).memory_inode]
    exact ⟨rfl, rfl⟩

end Snapshot

end PocketKernel
