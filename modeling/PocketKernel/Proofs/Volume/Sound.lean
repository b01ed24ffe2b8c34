import PocketKernel.Proofs.Volume.Snapshot

/-!
# Sound volumes

What holds of the two copies of the allocation state whatever happened to the volume: operations
that succeed or fail, transfers that are refused, and crashes. It is not enough to say what the
copies have to look like; what the copy on the device says about an inode may be older than what the
memory says, and both have to be right about the blocks at the same time.

Formatting can be cut short and picked up later, so parts of the inode table may never have been
written. Such an inode is `Inode.blank`: it is not in use, but points at block 0 eight times. It is
left out wherever pointers count, and no directory leads to it.

## Main definitions

* `Image.Owns`: an inode of one copy points at a block.
* `Snapshot.Known`: an inode that a walk can come to.
* `Snapshot.Sound`: the invariant.

## Main results

* `Snapshot.Sound.crash`: a crash keeps it.
* `Snapshot.Sound.publish`: so does storing a sector of the inode table, whatever it contains.
* `Snapshot.Sound.clearBlocks`, `Snapshot.Sound.takeInode`, `Snapshot.Sound.giveInode`,
  `Snapshot.Sound.storeInodeMap`, `Snapshot.Sound.putInode`: the other changes, with what each of
  them has to check.
-/

namespace PocketKernel

namespace Inode

variable {inode : Inode} {slot : ℕ}

/-! ### Inodes that own nothing -/

theorem blockAt_of_replicate (h : inode.direct = Vector.replicate 8 noBlock) :
    inode.blockAt slot = none := by
  unfold blockAt
  rw [h]
  by_cases hslot : slot < 8
  · simp [hslot]
  · simp [hslot]

@[simp] theorem blockAt_free : free.blockAt slot = none := blockAt_of_replicate rfl

@[simp] theorem blockAt_empty (kind : InodeKind) (parent : UInt32) :
    (empty kind parent).blockAt slot = none := blockAt_of_replicate rfl

@[simp] theorem blockAt_detached : inode.detached.blockAt slot = none := blockAt_of_replicate rfl

theorem lt_directBlocks_of_blockAt {block : ℕ} (h : inode.blockAt slot = some block) :
    slot < directBlocks := (blockAt_eq_some.mp h).1

theorem isLive_of_isDirectory (h : inode.isDirectory = true) : inode.isLive = true := by
  simp only [isDirectory, isLive, decide_eq_true_eq] at *
  rw [h]
  decide

theorem isLive_empty {kind : InodeKind} (h : kind ≠ .free) (parent : UInt32) :
    (empty kind parent).isLive = true := by
  cases kind with
  | free => exact absurd rfl h
  | directory => rfl
  | file => rfl

theorem not_isLive_blank : blank.isLive = false := by decide

theorem not_isLive_free : free.isLive = false := by decide

theorem ne_blank_of_isLive (h : inode.isLive = true) : inode ≠ blank := by
  rintro rfl
  rw [not_isLive_blank] at h
  cases h

theorem ne_blank_of_isDirectory (h : inode.isDirectory = true) : inode ≠ blank :=
  ne_blank_of_isLive (isLive_of_isDirectory h)

/-- An inode without pointers was written at some time. -/
theorem ne_blank_of_blockAt (h : inode.blockAt 0 = none) : inode ≠ blank := by
  rintro rfl
  exact absurd h (by decide)

/-- The size is one that eight blocks can hold, and every byte up to there has its block. -/
structure Filled (inode : Inode) : Prop where
  size_le : inode.size.toNat ≤ maxFileSize
  block : ∀ position < inode.size.toNat, (inode.blockAt (position / sectorSize)).isSome = true

theorem filled_of_size (h : inode.size = 0) : inode.Filled := by
  refine ⟨?_, fun position hposition => ?_⟩
  · rw [h]; exact Nat.zero_le _
  · rw [h] at hposition; exact absurd hposition (Nat.not_lt_zero _)

end Inode

/-- An inode that was written at some time points at a block from a slot. -/
def Image.Owns (image : Image) (index slot block : ℕ) : Prop :=
  image.inode index ≠ Inode.blank ∧ (image.inode index).blockAt slot = some block

namespace Snapshot

variable {g : Geometry} {w w' : Snapshot}

/-! ### The invariant -/

/-- An inode that a walk can come to: in use and written, in both copies. -/
structure Known (g : Geometry) (w : Snapshot) (index : ℕ) : Prop where
  lt : index < g.inodeCount
  used : ∀ c, (w.image c).inodeUsed index = true
  ne_blank : ∀ c, (w.image c).inode index ≠ Inode.blank

/-- The content of a directory is a row of records that lead to inodes that are stored, and none of
them to the root. -/
structure Listing (g : Geometry) (w : Snapshot) (directory : Inode) : Prop where
  size_mod : directory.size.toNat % recordSize = 0
  target_lt : ∀ record ∈ w.records directory, record.target.toNat < g.inodeCount
  target_ne_zero : ∀ record ∈ w.records directory, record.target.toNat ≠ 0
  target_stored : ∀ record ∈ w.records directory,
    w.disk.inode record.target.toNat ≠ Inode.blank

/-- **The invariant of a volume.** A block that either copy points at is marked in both bitmaps and
belongs to one slot of one inode in both; whatever a walk follows leads to an inode that is in use
in both copies. -/
structure Sound (g : Geometry) (w : Snapshot) : Prop where
  accepted : g.accepts (Superblock.ofBytes w.superblock.bytes) = true
  owned_lt : ∀ {c index slot block}, (w.image c).Owns index slot block → block < g.dataBlocks
  owned_used : ∀ {c} c' {index slot block}, (w.image c).Owns index slot block →
    (w.image c').blockUsed block = true
  owned_once : ∀ {c c' index index' slot slot' block}, (w.image c).Owns index slot block →
    (w.image c').Owns index' slot' block → index = index' ∧ slot = slot'
  filled : ∀ c index, ((w.image c).inode index).Filled
  live_used : ∀ c {index}, (w.memory.inode index).isLive = true →
    (w.image c).inodeUsed index = true
  /-- An inode that only the device still takes for live is the next to be handed out. -/
  stored_used : ∀ {index}, (w.disk.inode index).isLive = true →
    w.disk.inodeUsed index = true ∧
      (w.memory.inodeUsed index = true ∨ ∀ k < index, w.memory.inodeUsed k = true)
  known_parent : ∀ c index, w.Known g ((w.image c).inode index).parent.toNat
  root_directory : ∀ c, ((w.image c).inode 0).isDirectory = true
  root_parent : ∀ c, ((w.image c).inode 0).parent = 0
  written : ∀ {index}, w.disk.inode index ≠ Inode.blank → w.memory.inode index ≠ Inode.blank
  listing : ∀ c {index}, ((w.image c).inode index).isDirectory = true →
    w.Listing g ((w.image c).inode index)
  /-- A directory only grows, so the device knows a beginning of it. -/
  grown : ∀ {index}, (w.disk.inode index).isDirectory = true → (w.disk.inode index).size ≠ 0 →
    (w.memory.inode index).isDirectory = true
      ∧ (w.disk.inode index).size.toNat ≤ (w.memory.inode index).size.toNat

theorem Sound.known_root (hw : w.Sound g) : w.Known g 0 := by
  have h := hw.known_parent .memory 0
  rwa [hw.root_parent .memory] at h

theorem Known.owns {index slot block : ℕ} (h : w.Known g index)
    (hblock : (w.memory.inode index).blockAt slot = some block) :
    (w.image .memory).Owns index slot block :=
  ⟨h.ne_blank .memory, hblock⟩

/-- A block that is not marked is nobody's. -/
theorem Sound.not_owns_of_clear (hw : w.Sound g) {c : Copy} {index slot block : ℕ}
    (hclear : w.memory.blockUsed block = false) : ¬ (w.image c).Owns index slot block := by
  intro howns
  have hused := hw.owned_used .memory howns
  rw [image_memory, hclear] at hused
  cases hused

/-! ### Reading a directory in another state -/

theorem content_congr {x y : Inode} (hsize : y.size = x.size)
    (hbyte : ∀ position < x.size.toNat, w'.byteAt y position = w.byteAt x position) :
    w'.content y = w.content x := by
  rw [content, content, hsize]
  refine List.map_congr_left fun position hposition => ?_
  exact hbyte position (List.mem_range.mp hposition)

theorem records_congr {x y : Inode} (hsize : y.size = x.size)
    (hbyte : ∀ position < x.size.toNat, w'.byteAt y position = w.byteAt x position) :
    w'.records y = w.records x := by
  rw [records, records, content_congr hsize hbyte]

theorem records_of_size {x : Inode} (h : x.size = 0) : w.records x = [] := by
  rw [records, content, h]
  simp [DirectoryRecord.readAll]

theorem listing_of_size {x : Inode} (h : x.size = 0) : w.Listing g x := by
  have hnil := records_of_size (w := w) h
  refine ⟨by rw [h]; rfl, ?_, ?_, ?_⟩ <;>
  · intro record hrecord
    rw [hnil] at hrecord
    cases hrecord

/-- A listing stays one as long as its records do and nothing stored is lost. -/
theorem Listing.mono {x y : Inode} (h : w.Listing g x) (hsize : y.size = x.size)
    (hrecords : w'.records y = w.records x)
    (hstored : ∀ index, w.disk.inode index ≠ Inode.blank → w'.disk.inode index ≠ Inode.blank) :
    w'.Listing g y := by
  refine ⟨by rw [hsize]; exact h.size_mod, ?_, ?_, ?_⟩
  · rw [hrecords]; exact h.target_lt
  · rw [hrecords]; exact h.target_ne_zero
  · rw [hrecords]
    exact fun record hrecord => hstored _ (h.target_stored record hrecord)

/-! ### Changes that take their inodes from the copies -/

/-- Every inode of the new state is one that a copy of the old state has at the same index. -/
def Draws (w w' : Snapshot) : Prop :=
  ∀ c index, ∃ c', (w'.image c).inode index = (w.image c').inode index

theorem Draws.owns (h : w.Draws w') {c : Copy} {index slot block : ℕ}
    (howns : (w'.image c).Owns index slot block) : ∃ c', (w.image c').Owns index slot block := by
  obtain ⟨c', hc'⟩ := h c index
  refine ⟨c', ?_⟩
  rw [Image.Owns, ← hc']
  exact howns

theorem draws_of_inode (h : ∀ c, (w'.image c).inode = (w.image c).inode) : w.Draws w' :=
  fun c index => ⟨c, by rw [h c]⟩

/-- What is left to check of a change that makes no inode of its own and writes no block. -/
theorem Sound.of_draws (hw : w.Sound g) (h : w.Draws w')
    (hsuperblock : w'.superblock = w.superblock) (hblock : w'.block = w.block)
    (hmarked : ∀ {c} c' {index slot block}, (w.image c).Owns index slot block →
      (w'.image c').blockUsed block = true)
    (hknown : ∀ {index}, w.Known g index → w'.Known g index)
    (hlive : ∀ c {index}, (w'.memory.inode index).isLive = true →
      (w'.image c).inodeUsed index = true)
    (hstored : ∀ {index}, (w'.disk.inode index).isLive = true →
      w'.disk.inodeUsed index = true ∧
        (w'.memory.inodeUsed index = true ∨ ∀ k < index, w'.memory.inodeUsed k = true))
    (hwritten : ∀ {index}, w'.disk.inode index ≠ Inode.blank →
      w'.memory.inode index ≠ Inode.blank)
    (hkept : ∀ index, w.disk.inode index ≠ Inode.blank → w'.disk.inode index ≠ Inode.blank)
    (hgrown : ∀ {index}, (w'.disk.inode index).isDirectory = true →
      (w'.disk.inode index).size ≠ 0 → (w'.memory.inode index).isDirectory = true
        ∧ (w'.disk.inode index).size.toNat ≤ (w'.memory.inode index).size.toNat) :
    w'.Sound g where
  accepted := by rw [hsuperblock]; exact hw.accepted
  owned_lt howns := by
    obtain ⟨c, hc⟩ := h.owns howns
    exact hw.owned_lt hc
  owned_used c' _ _ _ howns := by
    obtain ⟨c, hc⟩ := h.owns howns
    exact hmarked c' hc
  owned_once howns howns' := by
    obtain ⟨c, hc⟩ := h.owns howns
    obtain ⟨c', hc'⟩ := h.owns howns'
    exact hw.owned_once hc hc'
  filled c index := by
    obtain ⟨c', hc'⟩ := h c index
    rw [hc']
    exact hw.filled c' index
  live_used := hlive
  stored_used := hstored
  known_parent c index := by
    obtain ⟨c', hc'⟩ := h c index
    rw [hc']
    exact hknown (hw.known_parent c' index)
  root_directory c := by
    obtain ⟨c', hc'⟩ := h c 0
    rw [hc']
    exact hw.root_directory c'
  root_parent c := by
    obtain ⟨c', hc'⟩ := h c 0
    rw [hc']
    exact hw.root_parent c'
  written := hwritten
  listing c index hdirectory := by
    obtain ⟨c', hc'⟩ := h c index
    rw [hc'] at hdirectory ⊢
    refine (hw.listing c' hdirectory).mono rfl (records_congr rfl fun position _ => ?_) hkept
    rw [byteAt, byteAt, hblock]
  grown := hgrown

/-! ### Storing a sector of the inode table, and crashing -/

theorem draws_publish (tableSector : ℕ) : w.Draws (w.publish tableSector) := by
  rintro (_ | _) index
  · exact ⟨.memory, rfl⟩
  · by_cases h : index / inodesPerSector = tableSector
    · exact ⟨.memory, if_pos h⟩
    · exact ⟨.disk, if_neg h⟩

theorem Sound.stored_publish (hw : w.Sound g) (tableSector index : ℕ)
    (h : w.disk.inode index ≠ Inode.blank) :
    (w.publish tableSector).disk.inode index ≠ Inode.blank := by
  obtain ⟨c, hc⟩ := draws_publish (w := w) tableSector .disk index
  rw [image_disk] at hc
  rw [hc]
  cases c with
  | memory => exact hw.written h
  | disk => exact h

theorem Known.publish (hw : w.Sound g) (tableSector : ℕ) {index : ℕ} (h : w.Known g index) :
    (w.publish tableSector).Known g index := by
  refine ⟨h.lt, ?_, ?_⟩
  · rintro (_ | _)
    · exact h.used .memory
    · exact h.used .disk
  · rintro (_ | _)
    · exact h.ne_blank .memory
    · exact hw.stored_publish tableSector index (h.ne_blank .disk)

/-- **Storing a sector of the inode table is harmless**, although seven other inodes go with the
one that it is meant for. -/
theorem Sound.publish (hw : w.Sound g) (tableSector : ℕ) : (w.publish tableSector).Sound g := by
  have hdraws := draws_publish (w := w) tableSector
  refine hw.of_draws hdraws rfl rfl ?_ (Known.publish hw tableSector) ?_ ?_ ?_
    (hw.stored_publish tableSector) ?_
  · rintro c (_ | _) index slot block howns
    · exact hw.owned_used .memory howns
    · exact hw.owned_used .disk howns
  · rintro (_ | _) index hlive
    · exact hw.live_used .memory hlive
    · exact hw.live_used .disk hlive
  all_goals
    intro index h
    obtain ⟨c, hc⟩ := hdraws .disk index
    rw [image_disk] at hc
    rw [hc] at h
  · cases c with
    | memory => exact ⟨hw.live_used .disk h, .inl (hw.live_used .memory h)⟩
    | disk => exact hw.stored_used h
  · cases c with
    | memory => exact h
    | disk => exact hw.written h
  · rw [hc]
    cases c with
    | memory => exact fun _ => ⟨h, Nat.le_refl _⟩
    | disk => exact hw.grown h

theorem draws_crash : w.Draws w.crash := by
  rintro (_ | _) index
  · exact ⟨.disk, rfl⟩
  · exact ⟨.disk, rfl⟩

theorem Known.crash {index : ℕ} (h : w.Known g index) : w.crash.Known g index := by
  refine ⟨h.lt, ?_, ?_⟩
  · rintro (_ | _)
    · exact h.used .disk
    · exact h.used .disk
  · rintro (_ | _)
    · exact h.ne_blank .disk
    · exact h.ne_blank .disk

/-- **A crash is harmless.** -/
theorem Sound.crash (hw : w.Sound g) : w.crash.Sound g := by
  refine hw.of_draws draws_crash rfl rfl ?_ Known.crash ?_ ?_ id (fun _ => id) ?_
  · rintro c (_ | _) index slot block howns
    · exact hw.owned_used .disk howns
    · exact hw.owned_used .disk howns
  · rintro (_ | _) index hlive
    · exact (hw.stored_used hlive).1
    · exact (hw.stored_used hlive).1
  · exact fun hlive => ⟨(hw.stored_used hlive).1, .inl (hw.stored_used hlive).1⟩
  · exact fun hdirectory _ => ⟨hdirectory, Nat.le_refl _⟩

/-! ### The bitmap of the data blocks -/

theorem Known.of_inode {index : ℕ} (h : w.Known g index)
    (hinode : ∀ c, (w'.image c).inode = (w.image c).inode)
    (hused : ∀ c, (w'.image c).inodeUsed index = true) : w'.Known g index :=
  ⟨h.lt, hused, fun c => by rw [hinode c]; exact h.ne_blank c⟩

/-- The bitmaps of the data blocks may change as they like, as long as they keep what is owned. -/
theorem Sound.of_blockUsed (hw : w.Sound g) (hsuperblock : w'.superblock = w.superblock)
    (hblock : w'.block = w.block) (hinode : ∀ c, (w'.image c).inode = (w.image c).inode)
    (hused : ∀ c, (w'.image c).inodeUsed = (w.image c).inodeUsed)
    (hmarked : ∀ {c} c' {index slot block}, (w.image c).Owns index slot block →
      (w'.image c').blockUsed block = true) : w'.Sound g := by
  have hmemory := hinode .memory
  have hdisk := hinode .disk
  have hmemoryUsed := hused .memory
  have hdiskUsed := hused .disk
  simp only [image_memory, image_disk] at hmemory hdisk hmemoryUsed hdiskUsed
  refine hw.of_draws (draws_of_inode hinode) hsuperblock hblock hmarked
    (fun h => h.of_inode hinode fun c => by rw [hused c]; exact h.used c) ?_ ?_ ?_ ?_ ?_
  · intro c index
    rw [hmemory, hused c]
    exact hw.live_used c
  · intro index
    rw [hdisk, hdiskUsed, hmemoryUsed]
    exact hw.stored_used
  · intro index
    rw [hdisk, hmemory]
    exact hw.written
  · intro index
    rw [hdisk]
    exact id
  · intro index
    rw [hdisk, hmemory]
    exact hw.grown

theorem Sound.storeBlockMap (hw : w.Sound g) : w.storeBlockMap.Sound g := by
  refine hw.of_blockUsed rfl rfl ?_ ?_ ?_
  · rintro (_ | _) <;> rfl
  · rintro (_ | _) <;> rfl
  · rintro c (_ | _) index slot block howns
    · exact hw.owned_used .memory howns
    · exact hw.owned_used .memory howns

theorem blockUsed_clearBlocks {x : Inode} {block : ℕ} (h : w.memory.blockUsed block = true)
    (hfree : ∀ slot, x.blockAt slot ≠ some block) :
    (w.clearBlocks x).memory.blockUsed block = true := by
  have hnone : (List.range directBlocks).any (x.blockAt · = some block) = false := by
    rw [List.any_eq_false]
    intro slot _
    simpa using hfree slot
  show (w.memory.blockUsed block && !_) = true
  rw [h, hnone]
  rfl

/-- Blocks can be taken back once neither copy points at them. -/
theorem Sound.clearBlocks (hw : w.Sound g) {x : Inode}
    (hfree : ∀ {c index slot slot' block}, (w.image c).Owns index slot block →
      x.blockAt slot' ≠ some block) : (w.clearBlocks x).Sound g := by
  refine hw.of_blockUsed rfl rfl ?_ ?_ ?_
  · rintro (_ | _) <;> rfl
  · rintro (_ | _) <;> rfl
  · rintro c (_ | _) index slot block howns
    · exact blockUsed_clearBlocks (hw.owned_used .memory howns) fun _ => hfree howns
    · exact hw.owned_used .disk howns

/-! ### The bitmap of the inodes -/

/-- The bitmaps of the inodes may change as far as live inodes and parents let them. -/
theorem Sound.of_inodeUsed (hw : w.Sound g) (hsuperblock : w'.superblock = w.superblock)
    (hblock : w'.block = w.block) (hinode : ∀ c, (w'.image c).inode = (w.image c).inode)
    (hblockUsed : ∀ c, (w'.image c).blockUsed = (w.image c).blockUsed)
    (hparent : ∀ c index, ∀ c', (w'.image c').inodeUsed
      ((w.image c).inode index).parent.toNat = true)
    (hlive : ∀ c {index}, (w.memory.inode index).isLive = true →
      (w'.image c).inodeUsed index = true)
    (hstored : ∀ {index}, (w.disk.inode index).isLive = true →
      w'.disk.inodeUsed index = true ∧
        (w'.memory.inodeUsed index = true ∨ ∀ k < index, w'.memory.inodeUsed k = true)) :
    w'.Sound g where
  accepted := by rw [hsuperblock]; exact hw.accepted
  owned_lt {c _ _ _} howns := by
    rw [Image.Owns, hinode c] at howns
    exact hw.owned_lt howns
  owned_used {c} c' _ _ _ howns := by
    rw [Image.Owns, hinode c] at howns
    rw [hblockUsed c']
    exact hw.owned_used c' howns
  owned_once {c c' _ _ _ _ _} howns howns' := by
    rw [Image.Owns, hinode c] at howns
    rw [Image.Owns, hinode c'] at howns'
    exact hw.owned_once howns howns'
  filled c index := by rw [hinode c]; exact hw.filled c index
  live_used c index h := by
    have hmemory := hinode .memory
    rw [image_memory, image_memory] at hmemory
    rw [hmemory] at h
    exact hlive c h
  stored_used {index} h := by
    have hdisk := hinode .disk
    rw [image_disk, image_disk] at hdisk
    rw [hdisk] at h
    exact hstored h
  known_parent c index := by
    rw [hinode c]
    exact (hw.known_parent c index).of_inode hinode (hparent c index)
  root_directory c := by rw [hinode c]; exact hw.root_directory c
  root_parent c := by rw [hinode c]; exact hw.root_parent c
  written {index} := by
    rw [← image_disk, ← image_memory, hinode .disk, hinode .memory]
    exact hw.written
  listing c index h := by
    rw [hinode c] at h ⊢
    refine (hw.listing c h).mono rfl (records_congr rfl fun position _ => ?_) fun index hne => ?_
    · rw [byteAt, byteAt, hblock]
    · rw [← image_disk, hinode .disk]
      exact hne
  grown {index} := by
    rw [← image_disk, ← image_memory, hinode .disk, hinode .memory]
    exact hw.grown

/-- An inode is the lowest one that is not marked in memory. -/
structure LowestFree (g : Geometry) (w : Snapshot) (index : ℕ) : Prop where
  lt : index < g.inodeCount
  clear : w.memory.inodeUsed index = false
  below : ∀ k < index, w.memory.inodeUsed k = true

theorem Sound.storeInodeMap (hw : w.Sound g)
    (hmarked : ∀ {index}, (w.disk.inode index).isLive = true →
      w.memory.inodeUsed index = true) : w.storeInodeMap.Sound g := by
  refine hw.of_inodeUsed rfl rfl ?_ ?_ ?_ ?_ fun h => ⟨hmarked h, .inl (hmarked h)⟩
  · rintro (_ | _) <;> rfl
  · rintro (_ | _) <;> rfl
  · rintro c index (_ | _)
    · exact (hw.known_parent c index).used .memory
    · exact (hw.known_parent c index).used .memory
  · rintro (_ | _) index h
    · exact hw.live_used .memory h
    · exact hw.live_used .memory h

/-- An inode that the device takes for live is marked in memory, or it is the lowest free one. -/
theorem Sound.used_of_stored (hw : w.Sound g) {index other : ℕ} (hlow : w.LowestFree g index)
    (h : (w.disk.inode other).isLive = true) :
    other = index ∨ w.memory.inodeUsed other = true := by
  obtain ⟨-, hused | hbelow⟩ := hw.stored_used h
  · exact .inr hused
  · rcases Nat.lt_trichotomy other index with hlt | rfl | hgt
    · exact .inr (hlow.below other hlt)
    · exact .inl rfl
    · have hmarked := hbelow index hgt
      rw [hlow.clear] at hmarked
      cases hmarked

theorem LowestFree.ne_of_known {index other : ℕ} (hlow : w.LowestFree g index)
    (h : w.Known g other) : other ≠ index := by
  rintro rfl
  have hused := h.used .memory
  rw [image_memory, hlow.clear] at hused
  cases hused

/-- The lowest free inode is marked, and the mark is stored. -/
theorem Sound.takeInode (hw : w.Sound g) {index : ℕ} (hlow : w.LowestFree g index) :
    (w.markInode index true).storeInodeMap.Sound g := by
  have hmarked {k : ℕ} (h : k = index ∨ w.memory.inodeUsed k = true) :
      Function.update w.memory.inodeUsed index true k = true := by
    by_cases hk : k = index
    · rw [hk, Function.update_self]
    · rw [Function.update_of_ne hk]
      exact h.resolve_left hk
  refine hw.of_inodeUsed rfl rfl ?_ ?_ ?_ ?_ fun h => ?_
  · rintro (_ | _) <;> rfl
  · rintro (_ | _) <;> rfl
  · rintro c k (_ | _)
    · exact hmarked (.inr ((hw.known_parent c k).used .memory))
    · exact hmarked (.inr ((hw.known_parent c k).used .memory))
  · rintro (_ | _) k h
    · exact hmarked (.inr (hw.live_used .memory h))
    · exact hmarked (.inr (hw.live_used .memory h))
  · exact ⟨hmarked (hw.used_of_stored hlow h), .inl (hmarked (hw.used_of_stored hlow h))⟩

/-- A mark may be removed from an inode that is not live in memory and is nobody's parent, if every
inode below it is marked and every other one that the device takes for live is. -/
theorem Sound.giveInode (hw : w.Sound g) {index : ℕ}
    (hdead : (w.memory.inode index).isLive = false)
    (hbelow : ∀ k < index, w.memory.inodeUsed k = true)
    (hothers : ∀ k ≠ index, (w.disk.inode k).isLive = true → w.memory.inodeUsed k = true)
    (hparent : ∀ c k, ((w.image c).inode k).parent.toNat ≠ index) :
    (w.markInode index false).Sound g := by
  have hmarked {k : ℕ} (hne : k ≠ index) (h : w.memory.inodeUsed k = true) :
      Function.update w.memory.inodeUsed index false k = true := by
    rwa [Function.update_of_ne hne]
  refine hw.of_inodeUsed rfl rfl ?_ ?_ ?_ ?_ fun {k} h => ⟨(hw.stored_used h).1, ?_⟩
  · rintro (_ | _) <;> rfl
  · rintro (_ | _) <;> rfl
  · rintro c k (_ | _)
    · exact hmarked (hparent c k) ((hw.known_parent c k).used .memory)
    · exact (hw.known_parent c k).used .disk
  · rintro (_ | _) k h
    · refine hmarked ?_ (hw.live_used .memory h)
      rintro rfl
      rw [hdead] at h
      cases h
    · exact hw.live_used .disk h
  · by_cases hk : k = index
    · subst hk
      exact .inr fun j hj => hmarked (Nat.ne_of_lt hj) (hbelow j hj)
    · exact .inl (hmarked hk (hothers k hk h))

/-! ### An inode of the memory image -/

theorem image_putInode_of_ne (x : Inode) {index other : ℕ} (c : Copy) (h : other ≠ index) :
    ((w.putInode index x).image c).inode other = (w.image c).inode other := by
  cases c with
  | memory => exact Function.update_of_ne h _ _
  | disk => rfl

theorem memory_putInode (x : Inode) (index : ℕ) :
    (w.putInode index x).memory.inode index = x := Function.update_self _ _ _

theorem memory_putInode_of_ne (x : Inode) {index other : ℕ} (h : other ≠ index) :
    (w.putInode index x).memory.inode other = w.memory.inode other := Function.update_of_ne h _ _

/-- An inode is what it was, or what was put in its place. -/
theorem cases_putInode (w : Snapshot) (x : Inode) (index other : ℕ) (c : Copy) :
    ((w.putInode index x).image c).inode other = (w.image c).inode other
      ∨ (c = .memory ∧ other = index ∧ ((w.putInode index x).image c).inode other = x) := by
  by_cases hother : other = index
  · cases c with
    | memory =>
      subst hother
      exact .inr ⟨rfl, rfl, memory_putInode x other⟩
    | disk => exact .inl rfl
  · exact .inl (image_putInode_of_ne x c hother)

theorem Known.putInode {x : Inode} {index other : ℕ} (hx : x ≠ Inode.blank)
    (h : w.Known g other) : (w.putInode index x).Known g other := by
  refine ⟨h.lt, ?_, fun c => ?_⟩
  · rintro (_ | _)
    · exact h.used .memory
    · exact h.used .disk
  · rcases w.cases_putInode x index other c with hsame | ⟨-, -, hput⟩
    · rw [hsame]
      exact h.ne_blank c
    · rw [hput]
      exact hx

/-- What an inode has to be like to take a place in the memory image. -/
structure Admits (g : Geometry) (w : Snapshot) (index : ℕ) (x : Inode) : Prop where
  ne_blank : x ≠ Inode.blank
  block_lt : ∀ {slot block}, x.blockAt slot = some block → block < g.dataBlocks
  block_used : ∀ c {slot block}, x.blockAt slot = some block → (w.image c).blockUsed block = true
  block_once : ∀ {slot slot' block}, x.blockAt slot = some block → x.blockAt slot' = some block →
    slot = slot'
  block_apart : ∀ {c other slot slot' block}, x.blockAt slot = some block →
    (w.image c).Owns other slot' block → other = index ∧ slot' = slot
  filled : x.Filled
  live_used : ∀ c, x.isLive = true → (w.image c).inodeUsed index = true
  known_parent : w.Known g x.parent.toNat
  root : index = 0 → x.isDirectory = true ∧ x.parent = 0
  listing : x.isDirectory = true → w.Listing g x
  grown : (w.disk.inode index).isDirectory = true → (w.disk.inode index).size ≠ 0 →
    x.isDirectory = true ∧ (w.disk.inode index).size.toNat ≤ x.size.toNat

theorem owns_putInode {x : Inode} {index other slot block : ℕ} {c : Copy}
    (h : ((w.putInode index x).image c).Owns other slot block) :
    (w.image c).Owns other slot block ∨ (other = index ∧ x.blockAt slot = some block) := by
  rcases w.cases_putInode x index other c with hsame | ⟨-, hother, hput⟩
  · rw [Image.Owns, hsame] at h
    exact .inl h
  · rw [Image.Owns, hput] at h
    exact .inr ⟨hother, h.2⟩

/-- **An inode may take a place in the memory image**, if it is admitted. -/
theorem Sound.putInode (hw : w.Sound g) {x : Inode} {index : ℕ} (hx : w.Admits g index x) :
    (w.putInode index x).Sound g where
  accepted := hw.accepted
  owned_lt h := by
    rcases owns_putInode h with howns | ⟨rfl, hblock⟩
    · exact hw.owned_lt howns
    · exact hx.block_lt hblock
  owned_used c' _ _ _ h := by
    have hblockUsed : ((w.putInode index x).image c').blockUsed = (w.image c').blockUsed := by
      cases c' <;> rfl
    rw [hblockUsed]
    rcases owns_putInode h with howns | ⟨rfl, hblock⟩
    · exact hw.owned_used c' howns
    · exact hx.block_used c' hblock
  owned_once h h' := by
    rcases owns_putInode h with howns | ⟨rfl, hblock⟩
    · rcases owns_putInode h' with howns' | ⟨rfl, hblock'⟩
      · exact hw.owned_once howns howns'
      · exact hx.block_apart hblock' howns
    · rcases owns_putInode h' with howns' | ⟨rfl, hblock'⟩
      · obtain ⟨rfl, rfl⟩ := hx.block_apart hblock howns'
        exact ⟨rfl, rfl⟩
      · exact ⟨rfl, hx.block_once hblock hblock'⟩
  filled c other := by
    rcases w.cases_putInode x index other c with hsame | ⟨-, -, hput⟩
    · rw [hsame]
      exact hw.filled c other
    · rw [hput]
      exact hx.filled
  live_used c other h := by
    have hused : ((w.putInode index x).image c).inodeUsed = (w.image c).inodeUsed := by
      cases c <;> rfl
    rw [hused]
    rw [← image_memory] at h
    rcases w.cases_putInode x index other .memory with hsame | ⟨-, rfl, hput⟩
    · rw [hsame] at h
      exact hw.live_used c h
    · rw [hput] at h
      exact hx.live_used c h
  stored_used h := hw.stored_used h
  known_parent c other := by
    rcases w.cases_putInode x index other c with hsame | ⟨-, -, hput⟩
    · rw [hsame]
      exact (hw.known_parent c other).putInode hx.ne_blank
    · rw [hput]
      exact hx.known_parent.putInode hx.ne_blank
  root_directory c := by
    rcases w.cases_putInode x index 0 c with hsame | ⟨-, hroot, hput⟩
    · rw [hsame]
      exact hw.root_directory c
    · rw [hput]
      exact (hx.root hroot.symm).1
  root_parent c := by
    rcases w.cases_putInode x index 0 c with hsame | ⟨-, hroot, hput⟩
    · rw [hsame]
      exact hw.root_parent c
    · rw [hput]
      exact (hx.root hroot.symm).2
  written {other} h := by
    rw [← image_memory]
    rcases w.cases_putInode x index other .memory with hsame | ⟨-, -, hput⟩
    · rw [hsame]
      exact hw.written h
    · rw [hput]
      exact hx.ne_blank
  listing c other h := by
    have hlisting {y : Inode} (hy : w.Listing g y) : (w.putInode index x).Listing g y :=
      hy.mono rfl rfl fun _ => id
    rcases w.cases_putInode x index other c with hsame | ⟨-, -, hput⟩
    · rw [hsame] at h ⊢
      exact hlisting (hw.listing c h)
    · rw [hput] at h ⊢
      exact hlisting (hx.listing h)
  grown {other} h hsize := by
    rw [← image_memory]
    rcases w.cases_putInode x index other .memory with hsame | ⟨-, rfl, hput⟩
    · rw [hsame]
      exact hw.grown h hsize
    · rw [hput]
      exact hx.grown h hsize

end Snapshot

end PocketKernel
