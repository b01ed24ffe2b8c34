import PocketKernel.Proofs.Volume.Sound

/-!
# Writes into the content of an inode

While bytes are written into an inode, it gains blocks, its bytes change in the stretch that is
written, and nothing else happens. `Snapshot.Extended` says so for a stretch of positions. It is
kept by every part of a write: handing out a block and pointing at it, and filling a block.

A write may stop at any point, so this is all that is known of a write that failed. One that
succeeded also `Holds` its bytes.

## Main definitions

* `Snapshot.Extended`: the relation between the states before and after a write.
* `Snapshot.Holds`: bytes stand at a position of an inode's content.

## Main results

* `Snapshot.Extended.refl`, `Snapshot.Extended.trans`, `Snapshot.Extended.mono`.
* `Snapshot.Extended.claim`, `Snapshot.Extended.putBlock`: the two parts of a write.
* `Snapshot.Extended.sound`: a write is harmless if it leaves the records of directories alone.
-/

namespace PocketKernel

namespace Inode

variable {x : Inode} {slot slot' block : ℕ}

/-- The inode with a pointer replaced. -/
def withBlock (x : Inode) (slot : ℕ) (block : UInt32) : Inode :=
  { x with direct := x.direct.setIfInBounds slot block }

theorem blockAt_withBlock_self {pointer : UInt32} (hslot : slot < directBlocks)
    (h : pointer ≠ noBlock) : (x.withBlock slot pointer).blockAt slot = some pointer.toNat := by
  have hget : (x.direct.setIfInBounds slot pointer)[slot]? = some pointer :=
    Vector.getElem?_setIfInBounds_self_of_lt hslot
  simp only [blockAt, withBlock, hget, if_neg h]

theorem blockAt_withBlock_of_ne (pointer : UInt32) (h : slot' ≠ slot) :
    (x.withBlock slot pointer).blockAt slot' = x.blockAt slot' := by
  simp only [blockAt, withBlock, Vector.getElem?_setIfInBounds_ne (Ne.symm h)]

/-- A block of the new inode is the new one or was there before. -/
theorem cases_withBlock {pointer : UInt32} (hslot : slot < directBlocks)
    (hpointer : pointer ≠ noBlock)
    (h : (x.withBlock slot pointer).blockAt slot' = some block) :
    (slot' = slot ∧ block = pointer.toNat) ∨ (slot' ≠ slot ∧ x.blockAt slot' = some block) := by
  by_cases hsame : slot' = slot
  · subst hsame
    rw [blockAt_withBlock_self hslot hpointer] at h
    exact .inl ⟨rfl, (Option.some.inj h).symm⟩
  · rw [blockAt_withBlock_of_ne pointer hsame] at h
    exact .inr ⟨hsame, h⟩

/-- A pointer that takes an empty place takes nothing away. -/
theorem blockAt_withBlock_of_some (pointer : UInt32) (hnone : x.blockAt slot = none)
    (h : x.blockAt slot' = some block) : (x.withBlock slot pointer).blockAt slot' = some block := by
  rw [blockAt_withBlock_of_ne pointer ?_]
  · exact h
  · rintro rfl
    rw [hnone] at h
    cases h

end Inode

namespace Snapshot

variable {g : Geometry} {index start stop : ℕ} {w w' w'' : Snapshot}

/-- A write into the content of an inode, between two positions, may lead from one state to the
other. -/
structure Extended (g : Geometry) (index start stop : ℕ) (w w' : Snapshot) : Prop where
  superblock : w'.superblock = w.superblock
  inodeUsed : ∀ c, (w'.image c).inodeUsed = (w.image c).inodeUsed
  disk_inode : w'.disk.inode = w.disk.inode
  others : ∀ k, k ≠ index → w'.memory.inode k = w.memory.inode k
  fields : ∃ direct, w'.memory.inode index = { w.memory.inode index with direct := direct }
  kept : ∀ {slot block}, (w.memory.inode index).blockAt slot = some block →
    (w'.memory.inode index).blockAt slot = some block
  /-- A new block was free before. -/
  gained : ∀ {slot block}, (w'.memory.inode index).blockAt slot = some block →
    (w.memory.inode index).blockAt slot = some block
      ∨ (block < g.dataBlocks ∧ w.memory.blockUsed block = false)
  once : ∀ {slot slot' block}, (w'.memory.inode index).blockAt slot = some block →
    (w'.memory.inode index).blockAt slot' = some block → slot = slot'
  marked : ∀ {block}, w'.memory.blockUsed block = true ↔ w.memory.blockUsed block = true
    ∨ ∃ slot, (w'.memory.inode index).blockAt slot = some block
  stored : ∀ {slot block}, (w'.memory.inode index).blockAt slot = some block →
    w'.disk.blockUsed block = true
  maps : (w'.memory.blockUsed = w.memory.blockUsed ∧ w'.disk.blockUsed = w.disk.blockUsed)
    ∨ w'.disk.blockUsed = w'.memory.blockUsed
  /-- Blocks of other inodes are left alone. -/
  frame : ∀ {block}, w'.block block ≠ w.block block →
    ∃ slot, (w'.memory.inode index).blockAt slot = some block
  /-- So are the bytes outside of the stretch. -/
  bytes : ∀ {position}, ¬ (start ≤ position ∧ position < stop) →
    ((w.memory.inode index).blockAt (position / sectorSize)).isSome = true →
    w'.byteAt (w'.memory.inode index) position = w.byteAt (w.memory.inode index) position
  /-- Slots behind the stretch gain no block. -/
  beyond : ∀ {slot}, stop ≤ slot * sectorSize →
    (w'.memory.inode index).blockAt slot = (w.memory.inode index).blockAt slot

/-! ### Composing writes -/

theorem Extended.refl (hw : w.Sound g) (hknown : w.Known g index) (start stop : ℕ) :
    Extended g index start stop w w where
  superblock := rfl
  inodeUsed _ := rfl
  disk_inode := rfl
  others _ _ := rfl
  fields := ⟨_, rfl⟩
  kept h := h
  gained h := .inl h
  once h h' := (hw.owned_once (hknown.owns h) (hknown.owns h')).2
  marked {block} := by
    refine ⟨.inl, ?_⟩
    rintro (hused | ⟨slot, hslot⟩)
    · exact hused
    · exact hw.owned_used .memory (hknown.owns hslot)
  stored h := hw.owned_used .disk (hknown.owns h)
  maps := .inl ⟨rfl, rfl⟩
  frame h := absurd rfl h
  bytes _ _ := rfl
  beyond _ := rfl

theorem Extended.mono {start' stop' : ℕ} (h : Extended g index start stop w w')
    (hstart : start' ≤ start) (hstop : stop ≤ stop') :
    Extended g index start' stop' w w' :=
  { h with
    bytes := fun hout => h.bytes fun hin => hout ⟨by omega, by omega⟩
    beyond := fun hslot => h.beyond (Nat.le_trans hstop hslot) }

theorem Extended.trans (h : Extended g index start stop w w')
    (h' : Extended g index start stop w' w'') : Extended g index start stop w w'' where
  superblock := h'.superblock.trans h.superblock
  inodeUsed c := (h'.inodeUsed c).trans (h.inodeUsed c)
  disk_inode := h'.disk_inode.trans h.disk_inode
  others k hk := (h'.others k hk).trans (h.others k hk)
  fields := by
    obtain ⟨direct, hdirect⟩ := h.fields
    obtain ⟨direct', hdirect'⟩ := h'.fields
    exact ⟨direct', by rw [hdirect', hdirect]⟩
  kept hblock := h'.kept (h.kept hblock)
  gained hblock := by
    rcases h'.gained hblock with hold | ⟨hlt, hclear⟩
    · exact h.gained hold
    · refine .inr ⟨hlt, ?_⟩
      by_contra hused
      rw [h.marked.mpr (.inl (by simpa using hused))] at hclear
      cases hclear
  once := h'.once
  marked {block} := by
    rw [h'.marked, h.marked]
    constructor
    · rintro ((hused | ⟨slot, hslot⟩) | hslot)
      · exact .inl hused
      · exact .inr ⟨slot, h'.kept hslot⟩
      · exact .inr hslot
    · rintro (hused | hslot)
      · exact .inl (.inl hused)
      · exact .inr hslot
  stored := h'.stored
  maps := by
    rcases h'.maps with ⟨hmemory, hdisk⟩ | hsame
    · rw [hmemory, hdisk]
      exact h.maps
    · exact .inr hsame
  frame {block} hne := by
    by_cases hmid : w''.block block = w'.block block
    · obtain ⟨slot, hslot⟩ := h.frame (by rwa [← hmid])
      exact ⟨slot, h'.kept hslot⟩
    · exact h'.frame hmid
  bytes hout hsome := by
    obtain ⟨block, hblock⟩ := Option.isSome_iff_exists.mp hsome
    rw [h'.bytes hout (by rw [h.kept hblock]; rfl), h.bytes hout hsome]
  beyond hslot := (h'.beyond hslot).trans (h.beyond hslot)

/-! ### The two parts of a write -/

/-- A free block is handed out and pointed at from a slot that pointed at none. -/
theorem Extended.claim (hw : w.Sound g) (hknown : w.Known g index) {slot : ℕ} {pointer : UInt32}
    (hslot : slot < directBlocks) (hnone : (w.memory.inode index).blockAt slot = none)
    (hpointer : pointer ≠ noBlock) (hlt : pointer.toNat < g.dataBlocks)
    (hclear : w.memory.blockUsed pointer.toNat = false) (start : ℕ) {stop : ℕ}
    (hstop : slot * sectorSize < stop) :
    Extended g index start stop w (((w.markBlock pointer.toNat).storeBlockMap).putInode index
      ((w.memory.inode index).withBlock slot pointer)) := by
  have hmemory : (((w.markBlock pointer.toNat).storeBlockMap).putInode index
      ((w.memory.inode index).withBlock slot pointer)).memory.inode index
        = (w.memory.inode index).withBlock slot pointer := Function.update_self _ _ _
  -- the new block is owned by no slot of the inode as it was
  have hfresh {s : ℕ} : (w.memory.inode index).blockAt s ≠ some pointer.toNat :=
    fun hs => hw.not_owns_of_clear hclear (hknown.owns hs)
  have hcases {s b : ℕ} (h : ((w.memory.inode index).withBlock slot pointer).blockAt s = some b) :=
    Inode.cases_withBlock hslot hpointer h
  have hmarked {b : ℕ} : Function.update w.memory.blockUsed pointer.toNat true b = true ↔
      w.memory.blockUsed b = true ∨ b = pointer.toNat := by
    by_cases hb : b = pointer.toNat
    · simp [hb]
    · simp [hb]
  have hkept {s b : ℕ} (h : (w.memory.inode index).blockAt s = some b) :=
    Inode.blockAt_withBlock_of_some pointer hnone h
  refine ⟨rfl, ?_, rfl, fun k hk => Function.update_of_ne hk _ _, ⟨_, hmemory⟩, ?_, ?_, ?_, ?_, ?_,
    .inr rfl, fun h => absurd rfl h, ?_, ?_⟩
  · rintro (_ | _) <;> rfl
  · intro s b h
    rw [hmemory]
    exact hkept h
  · intro s b h
    rw [hmemory] at h
    rcases hcases h with ⟨-, rfl⟩ | ⟨-, hold⟩
    · exact .inr ⟨hlt, hclear⟩
    · exact .inl hold
  · intro s s' b h h'
    rw [hmemory] at h h'
    rcases hcases h with ⟨rfl, rfl⟩ | ⟨-, hold⟩
    · rcases hcases h' with ⟨rfl, -⟩ | ⟨-, hold'⟩
      · rfl
      · exact absurd hold' hfresh
    · rcases hcases h' with ⟨-, rfl⟩ | ⟨-, hold'⟩
      · exact absurd hold hfresh
      · exact (hw.owned_once (hknown.owns hold) (hknown.owns hold')).2
  · intro b
    rw [hmemory]
    refine hmarked.trans (or_congr_right' fun hunused => ⟨?_, ?_⟩)
    · rintro rfl
      exact ⟨slot, Inode.blockAt_withBlock_self hslot hpointer⟩
    · rintro ⟨s, hs⟩
      rcases hcases hs with ⟨-, rfl⟩ | ⟨-, hold⟩
      · rfl
      · exact absurd (hw.owned_used .memory (hknown.owns hold)) hunused
  · intro s b h
    rw [hmemory] at h
    refine hmarked.mpr ?_
    rcases hcases h with ⟨-, rfl⟩ | ⟨-, hold⟩
    · exact .inr rfl
    · exact .inl (hw.owned_used .memory (hknown.owns hold))
  · intro position _ hsome
    rw [hmemory]
    obtain ⟨b, hb⟩ := Option.isSome_iff_exists.mp hsome
    rw [byteAt_of_blockAt (hkept hb), byteAt_of_blockAt hb]
    rfl
  · intro s hs
    rw [hmemory]
    refine Inode.blockAt_withBlock_of_ne pointer ?_
    rintro rfl
    exact absurd hs (Nat.not_le.mpr hstop)

/-- A block of the inode is replaced, with the same bytes outside of the stretch. -/
theorem Extended.putBlock (h : Extended g index start stop w w') {slot block : ℕ}
    {sector : Sector} (hslot : (w'.memory.inode index).blockAt slot = some block)
    (hsector : ∀ position, ¬ (start ≤ position ∧ position < stop) → position / sectorSize = slot →
      ((w.memory.inode index).blockAt slot).isSome = true →
      sector.byteAt (position % sectorSize) = (w'.block block).byteAt (position % sectorSize)) :
    Extended g index start stop w (w'.putBlock block sector) where
  superblock := h.superblock
  inodeUsed c := by
    rw [← h.inodeUsed c]
    cases c <;> rfl
  disk_inode := h.disk_inode
  others := h.others
  fields := h.fields
  kept := h.kept
  gained := h.gained
  once := h.once
  marked := h.marked
  stored := h.stored
  maps := h.maps
  frame {other} hne := by
    by_cases hother : other = block
    · subst hother
      exact ⟨slot, hslot⟩
    · refine h.frame ?_
      rwa [show (w'.putBlock block sector).block other = w'.block other from
        Function.update_of_ne hother _ _] at hne
  bytes {position} hout hsome := by
    rw [← h.bytes hout hsome]
    obtain ⟨other, hother⟩ := Option.isSome_iff_exists.mp hsome
    have hkept := h.kept hother
    have hkept' : ((w'.putBlock block sector).memory.inode index).blockAt (position / sectorSize)
        = some other := hkept
    rw [byteAt_of_blockAt hkept, byteAt_of_blockAt hkept']
    by_cases hsame : other = block
    · subst hsame
      have hposition : position / sectorSize = slot := h.once hkept hslot
      have hself : (w'.putBlock other sector).block other = sector := Function.update_self _ _ _
      rw [hself]
      refine hsector position hout hposition ?_
      rw [← hposition]
      exact hsome
    · have hof : (w'.putBlock block sector).block other = w'.block other :=
        Function.update_of_ne hsame _ _
      rw [hof]
  beyond := h.beyond

/-! ### A write is harmless -/

theorem Extended.size_eq (h : Extended g index start stop w w') :
    (w'.memory.inode index).size = (w.memory.inode index).size := by
  obtain ⟨direct, hdirect⟩ := h.fields
  rw [hdirect]

theorem Extended.parent_eq (h : Extended g index start stop w w') :
    (w'.memory.inode index).parent = (w.memory.inode index).parent := by
  obtain ⟨direct, hdirect⟩ := h.fields
  rw [hdirect]

theorem Extended.kind_eq (h : Extended g index start stop w w') :
    (w'.memory.inode index).kind = (w.memory.inode index).kind := by
  obtain ⟨direct, hdirect⟩ := h.fields
  rw [hdirect]
  rfl

/-- Two pointers of an inode that was never written are the same, so a write does not lead to
one. -/
theorem Extended.ne_blank (h : Extended g index start stop w w') :
    w'.memory.inode index ≠ Inode.blank := by
  intro hblank
  have hzero : (w'.memory.inode index).blockAt 0 = some 0 := by rw [hblank]; decide
  have hone : (w'.memory.inode index).blockAt 1 = some 0 := by rw [hblank]; decide
  exact absurd (h.once hzero hone) (by decide)

section

variable (hw : w.Sound g) (hknown : w.Known g index) (h : Extended g index start stop w w')
include hw hknown h

/-- What the inode points at afterwards is owned by no other slot, in neither copy. -/
theorem Extended.apart {c : Copy} {other slot slot' block : ℕ}
    (hslot : (w'.memory.inode index).blockAt slot = some block)
    (howns : (w.image c).Owns other slot' block) : other = index ∧ slot' = slot := by
  rcases h.gained hslot with hold | ⟨-, hclear⟩
  · exact hw.owned_once howns (hknown.owns hold)
  · exact absurd howns (hw.not_owns_of_clear hclear)

/-- Blocks that belong to other inodes are left alone. -/
theorem Extended.block_eq {c : Copy} {other slot block : ℕ}
    (howns : (w.image c).Owns other slot block) (hne : other ≠ index) :
    w'.block block = w.block block := by
  by_contra hchanged
  obtain ⟨slot', hslot'⟩ := h.frame hchanged
  exact hne (h.apart hw hknown hslot' howns).1

/-- So are the bytes ahead of the stretch that the device finds in the inode itself. -/
theorem Extended.byteAt_stored {position : ℕ} (hlt : position < start)
    (hne : w.disk.inode index ≠ Inode.blank)
    (hsome : ((w.disk.inode index).blockAt (position / sectorSize)).isSome = true) :
    w'.byteAt (w.disk.inode index) position = w.byteAt (w.disk.inode index) position := by
  obtain ⟨block, hblock⟩ := Option.isSome_iff_exists.mp hsome
  rw [byteAt_of_blockAt hblock, byteAt_of_blockAt hblock]
  by_cases hsame : w'.block block = w.block block
  · rw [hsame]
  · -- the block was written, so it is the same slot of the memory image, ahead of the stretch
    obtain ⟨slot, hslot⟩ := h.frame hsame
    have howns : (w.image .disk).Owns index (position / sectorSize) block := ⟨hne, hblock⟩
    obtain ⟨-, rfl⟩ := h.apart hw hknown hslot howns
    rcases h.gained hslot with hold | ⟨-, hclear⟩
    · rw [← byteAt_of_blockAt hslot, ← byteAt_of_blockAt hold]
      exact h.bytes (by omega) (by rw [hold]; rfl)
    · exact absurd howns (hw.not_owns_of_clear hclear)

end

/-- Only the inode that is written to changes, and only in memory. -/
theorem Extended.cases_inode (h : Extended g index start stop w w') (c : Copy) (k : ℕ) :
    (c = .memory ∧ k = index)
      ∨ ((k ≠ index ∨ c = .disk) ∧ (w'.image c).inode k = (w.image c).inode k) := by
  cases c with
  | memory =>
    by_cases hk : k = index
    · exact .inl ⟨rfl, hk⟩
    · exact .inr ⟨.inl hk, h.others k hk⟩
  | disk => exact .inr ⟨.inr rfl, congrFun h.disk_inode k⟩

theorem Extended.owns (h : Extended g index start stop w w') {c : Copy} {k slot block : ℕ}
    (howns : (w'.image c).Owns k slot block) : (w.image c).Owns k slot block
      ∨ (k = index ∧ (w'.memory.inode index).blockAt slot = some block) := by
  rcases h.cases_inode c k with ⟨rfl, rfl⟩ | ⟨-, hsame⟩
  · exact .inr ⟨rfl, howns.2⟩
  · rw [Image.Owns, hsame] at howns
    exact .inl howns

theorem Extended.isLive_eq (h : Extended g index start stop w w') (k : ℕ) :
    (w'.memory.inode k).isLive = (w.memory.inode k).isLive := by
  by_cases hk : k = index
  · subst hk
    rw [Inode.isLive, h.kind_eq, Inode.isLive]
  · rw [h.others k hk]

theorem Extended.isDirectory_eq (h : Extended g index start stop w w') (c : Copy) (k : ℕ) :
    ((w'.image c).inode k).isDirectory = ((w.image c).inode k).isDirectory := by
  rcases h.cases_inode c k with ⟨rfl, rfl⟩ | ⟨-, hsame⟩
  · rw [Inode.isDirectory, Inode.isDirectory, image_memory, image_memory, h.kind_eq]
  · rw [hsame]

theorem Extended.parent_eq_image (h : Extended g index start stop w w') (c : Copy) (k : ℕ) :
    ((w'.image c).inode k).parent = ((w.image c).inode k).parent := by
  rcases h.cases_inode c k with ⟨rfl, rfl⟩ | ⟨-, hsame⟩
  · exact h.parent_eq
  · rw [hsame]

theorem Extended.size_eq_image (h : Extended g index start stop w w') (c : Copy) (k : ℕ) :
    ((w'.image c).inode k).size = ((w.image c).inode k).size := by
  rcases h.cases_inode c k with ⟨rfl, rfl⟩ | ⟨-, hsame⟩
  · exact h.size_eq
  · rw [hsame]

theorem Extended.filled (h : Extended g index start stop w w')
    (hfilled : (w.memory.inode index).Filled) : (w'.memory.inode index).Filled := by
  refine ⟨by rw [h.size_eq]; exact hfilled.size_le, fun position hposition => ?_⟩
  rw [h.size_eq] at hposition
  obtain ⟨block, hblock⟩ := Option.isSome_iff_exists.mp (hfilled.block position hposition)
  rw [h.kept hblock]
  rfl

theorem Known.extended (h : Extended g index start stop w w') {k : ℕ} (hk : w.Known g k) :
    w'.Known g k := by
  refine ⟨hk.lt, fun c => by rw [h.inodeUsed c]; exact hk.used c, fun c => ?_⟩
  rcases h.cases_inode c k with ⟨rfl, rfl⟩ | ⟨-, hsame⟩
  · exact h.ne_blank
  · rw [hsame]
    exact hk.ne_blank c

section

variable (hw : w.Sound g) (hknown : w.Known g index) (h : Extended g index start stop w w')
include hw hknown h

omit hknown in
theorem Extended.blockUsed {c : Copy} (c' : Copy) {k slot block : ℕ}
    (howns : (w'.image c).Owns k slot block) : (w'.image c').blockUsed block = true := by
  have hmemory : w'.memory.blockUsed block = true := by
    rcases h.owns howns with hold | ⟨-, hslot⟩
    · exact h.marked.mpr (.inl (hw.owned_used .memory hold))
    · exact h.marked.mpr (.inr ⟨slot, hslot⟩)
  cases c' with
  | memory => exact hmemory
  | disk =>
    rcases h.owns howns with hold | ⟨-, hslot⟩
    · rcases h.maps with ⟨-, hdisk⟩ | hsame
      · rw [image_disk, hdisk]
        exact hw.owned_used .disk hold
      · rw [image_disk, hsame]
        exact hmemory
    · exact h.stored hslot

/-- The entries of a directory are left alone by a write behind them, as both copies see them. -/
theorem Extended.records_eq (hbehind : (w.memory.inode index).isDirectory = true →
      (w.memory.inode index).size.toNat ≤ start) (c : Copy) {k : ℕ}
    (hdirectory : ((w.image c).inode k).isDirectory = true) :
    w'.records ((w'.image c).inode k) = w.records ((w.image c).inode k) := by
  refine records_congr (h.size_eq_image c k) fun position hposition => ?_
  have hsome := (hw.filled c k).block position hposition
  rcases h.cases_inode c k with ⟨rfl, rfl⟩ | ⟨hother, hsame⟩
  · have hle := hbehind hdirectory
    exact h.bytes (fun hin => absurd hin.1 (by simp only [image_memory] at hposition; omega)) hsome
  · rw [hsame]
    by_cases hk : k = index
    · subst hk
      obtain rfl : c = .disk := hother.resolve_left (fun hne => hne rfl)
      have hne : (w.disk.inode k).size ≠ 0 := by
        intro hzero
        rw [image_disk, hzero] at hposition
        exact absurd hposition (Nat.not_lt_zero _)
      obtain ⟨hmemory, hsize⟩ := hw.grown hdirectory hne
      have hle := hbehind hmemory
      rw [image_disk] at hposition
      exact h.byteAt_stored hw hknown (by omega) (Inode.ne_blank_of_isDirectory hdirectory) hsome
    · obtain ⟨block, hblock⟩ := Option.isSome_iff_exists.mp hsome
      rw [byteAt_of_blockAt hblock, byteAt_of_blockAt hblock]
      rw [h.block_eq hw hknown ⟨Inode.ne_blank_of_isDirectory hdirectory, hblock⟩ hk]

/-- **A write is harmless**, as long as it goes behind the entries of a directory. -/
theorem Extended.sound (hbehind : (w.memory.inode index).isDirectory = true →
    (w.memory.inode index).size.toNat ≤ start) : w'.Sound g where
  accepted := by rw [h.superblock]; exact hw.accepted
  owned_lt howns := by
    rcases h.owns howns with hold | ⟨rfl, hslot⟩
    · exact hw.owned_lt hold
    · rcases h.gained hslot with hold | ⟨hlt, -⟩
      · exact hw.owned_lt (hknown.owns hold)
      · exact hlt
  owned_used c' _ _ _ howns := h.blockUsed hw c' howns
  owned_once howns howns' := by
    rcases h.owns howns with hold | ⟨rfl, hslot⟩
    · rcases h.owns howns' with hold' | ⟨rfl, hslot'⟩
      · exact hw.owned_once hold hold'
      · exact h.apart hw hknown hslot' hold
    · rcases h.owns howns' with hold' | ⟨rfl, hslot'⟩
      · obtain ⟨rfl, rfl⟩ := h.apart hw hknown hslot hold'
        exact ⟨rfl, rfl⟩
      · exact ⟨rfl, h.once hslot hslot'⟩
  filled c k := by
    rcases h.cases_inode c k with ⟨rfl, rfl⟩ | ⟨-, hsame⟩
    · exact h.filled (hw.filled .memory k)
    · rw [hsame]
      exact hw.filled c k
  live_used c k hlive := by
    rw [h.isLive_eq] at hlive
    rw [h.inodeUsed c]
    exact hw.live_used c hlive
  stored_used {k} hlive := by
    rw [h.disk_inode] at hlive
    rw [← image_disk, ← image_memory, h.inodeUsed .disk, h.inodeUsed .memory]
    exact hw.stored_used hlive
  known_parent c k := by
    rw [h.parent_eq_image c k]
    exact (hw.known_parent c k).extended h
  root_directory c := by
    rw [h.isDirectory_eq c 0]
    exact hw.root_directory c
  root_parent c := by
    rw [h.parent_eq_image c 0]
    exact hw.root_parent c
  written {k} hne := by
    rcases h.cases_inode .memory k with ⟨-, rfl⟩ | ⟨-, hsame⟩
    · exact h.ne_blank
    · rw [← image_memory, hsame]
      rw [h.disk_inode] at hne
      exact hw.written hne
  listing c k hdirectory := by
    rw [h.isDirectory_eq c k] at hdirectory
    refine (hw.listing c hdirectory).mono (h.size_eq_image c k)
      (h.records_eq hw hknown hbehind c hdirectory) fun _ hne => ?_
    rw [h.disk_inode]
    exact hne
  grown {k} hdirectory hsize := by
    rw [h.disk_inode] at hdirectory hsize ⊢
    rw [← image_memory, h.isDirectory_eq .memory k, h.size_eq_image .memory k]
    exact hw.grown hdirectory hsize

end

/-! ### Bytes that were written -/

/-- Bytes stand at a position of the content of an inode, in blocks that it has. -/
def Holds (w : Snapshot) (x : Inode) (position : ℕ) (data : List UInt8) : Prop :=
  ∀ k (h : k < data.length), (x.blockAt ((position + k) / sectorSize)).isSome = true
    ∧ w.byteAt x (position + k) = data[k]

theorem holds_nil {x : Inode} {position : ℕ} : w.Holds x position [] :=
  fun _ h => absurd h (Nat.not_lt_zero _)

theorem Holds.append {x : Inode} {position : ℕ} {front back : List UInt8}
    (hfront : w.Holds x position front) (hback : w.Holds x (position + front.length) back) :
    w.Holds x position (front ++ back) := by
  intro k hk
  rcases Nat.lt_or_ge k front.length with hlt | hge
  · rw [List.getElem_append_left hlt]
    exact hfront k hlt
  · have hrest : k - front.length < back.length := by
      rw [List.length_append] at hk
      omega
    have hposition : position + front.length + (k - front.length) = position + k := by omega
    rw [List.getElem_append_right hge]
    have h := hback (k - front.length) hrest
    rwa [hposition] at h

/-- Bytes ahead of a write stay. -/
theorem Holds.extended {position : ℕ} {data : List UInt8}
    (hdata : w.Holds (w.memory.inode index) position data)
    (h : Extended g index start stop w w') (hle : position + data.length ≤ start) :
    w'.Holds (w'.memory.inode index) position data := by
  intro k hk
  obtain ⟨hsome, hbyte⟩ := hdata k hk
  obtain ⟨block, hblock⟩ := Option.isSome_iff_exists.mp hsome
  refine ⟨by rw [h.kept hblock]; rfl, ?_⟩
  rw [h.bytes (by omega) hsome, hbyte]

/-- A chunk that does not cross the end of its block is laid over the block. The rest of the block
has to be as it was, unless the block is new. -/
theorem Extended.chunk {position block : ℕ} {before : Sector} {data : List UInt8}
    (h : Extended g index position (position + data.length) w w')
    (hfits : position % sectorSize + data.length ≤ sectorSize)
    (hblock : (w'.memory.inode index).blockAt (position / sectorSize) = some block)
    (hbefore : ((w.memory.inode index).blockAt (position / sectorSize)).isSome = true →
      data.length < sectorSize → before = w'.block block) :
    Extended g index position (position + data.length) w
        (w'.putBlock block (before.overlay (position % sectorSize) data))
      ∧ (w'.putBlock block (before.overlay (position % sectorSize) data)).Holds
        (w'.memory.inode index) position data := by
  constructor
  · refine h.putBlock hblock fun other hout hslot hsome => ?_
    have hfits' := hfits
    simp only [sectorSize] at hout hslot hfits'
    have hoff : ¬ (position % sectorSize ≤ other % sectorSize
        ∧ other % sectorSize < position % sectorSize + data.length) := by
      simp only [sectorSize]
      omega
    rw [Sector.byteAt_overlay _ hfits, if_neg hoff, hbefore hsome]
    simp only [sectorSize] at hoff ⊢
    omega
  · intro k hk
    have hdiv : (position + k) / sectorSize = position / sectorSize := by
      simp only [sectorSize] at *
      omega
    have hmod : (position + k) % sectorSize = position % sectorSize + k := by
      simp only [sectorSize] at *
      omega
    have hself : (w'.putBlock block (before.overlay (position % sectorSize) data)).block block
        = before.overlay (position % sectorSize) data := Function.update_self _ _ _
    have hpointer : (w'.memory.inode index).blockAt ((position + k) / sectorSize) = some block := by
      rw [hdiv]
      exact hblock
    refine ⟨by rw [hpointer]; rfl, ?_⟩
    rw [byteAt_of_blockAt hpointer, hself, hmod, Sector.byteAt_overlay _ hfits,
      if_pos ⟨by omega, by omega⟩, Nat.add_sub_cancel_left, List.getD_eq_getElem?_getD,
      List.getElem?_eq_getElem hk, Option.getD_some]

end Snapshot

end PocketKernel
