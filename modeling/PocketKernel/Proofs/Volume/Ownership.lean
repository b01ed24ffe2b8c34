import PocketKernel.Proofs.Volume.Session

/-!
# No block is handed out twice

A crash may leave blocks marked that nobody uses. It never leaves two inodes with one block, neither
in one copy of the inode table nor across the two, so a block that is handed out belongs to nobody.

## Main definitions

* `Image.Claims`: a live inode points at a block.
* `Volume.OwnsBlocks`: the blocks of live inodes are marked, kept apart, and not handed out.

## Main results

* `Session.blocks_owned`: in a session, a mounted volume owns its blocks.
-/

namespace PocketKernel

/-- A live inode points at a block from a slot. -/
def Image.Claims (image : Image) (index slot block : ℕ) : Prop :=
  (image.inode index).isLive = true ∧ (image.inode index).blockAt slot = some block

theorem Image.Claims.owns {image : Image} {index slot block : ℕ}
    (h : image.Claims index slot block) : image.Owns index slot block :=
  ⟨Inode.ne_blank_of_isLive h.1, h.2⟩

namespace Volume

variable {δ : Type} [BlockDevice δ] [LawfulDevice δ] {g : Geometry} {v w : Volume δ}

/-- The blocks of live inodes lie on the volume, are marked, are kept apart, and are not handed out
again. All of this holds of the inode table and the bitmap in memory and of those on the device,
and of one of each. -/
structure OwnsBlocks (g : Geometry) (v : Volume δ) : Prop where
  lt : ∀ {c index slot block}, (v.snapshot.image c).Claims index slot block → block < g.dataBlocks
  marked : ∀ {c} c' {index slot block}, (v.snapshot.image c).Claims index slot block →
    (v.snapshot.image c').blockUsed block = true
  once : ∀ {c c' index index' slot slot' block}, (v.snapshot.image c).Claims index slot block →
    (v.snapshot.image c').Claims index' slot' block → index = index' ∧ slot = slot'
  /-- A block that is handed out is claimed by nobody, before and after. -/
  handed : ∀ {pointer w}, v.run VolumeM.allocBlock = (.ok pointer, w) → ∀ c index slot,
    ¬ (v.snapshot.image c).Claims index slot pointer.toNat
      ∧ ¬ (w.snapshot.image c).Claims index slot pointer.toNat
  /-- Nor was a block that an inode has after a call, unless it was its own before. -/
  called : ∀ (call : Call) {index slot block},
    ((v.run call.operation).2.snapshot.memory.inode index).blockAt slot = some block →
    (∃ slot, (v.snapshot.memory.inode index).blockAt slot = some block)
      ∨ ∀ c k slot, ¬ (v.snapshot.image c).Claims k slot block

/-- A block that an inode points at after a call was its own or was free. -/
theorem Effect.gained {asked : Call} {outcome : Except Stop Unit} {index slot block : ℕ}
    (h : v.Effect g asked outcome w)
    (hblock : (w.snapshot.memory.inode index).blockAt slot = some block) :
    (∃ slot, (v.snapshot.memory.inode index).blockAt slot = some block)
      ∨ v.snapshot.memory.blockUsed block = false := by
  cases h with
  | same hsame =>
    rw [hsame] at hblock
    exact .inl ⟨slot, hblock⟩
  | touched hcreated => exact hcreated.gained hblock
  | made hcreated => exact hcreated.gained hblock
  | @written _ _ _ _ target _ _ hrun hresolve hrewrites =>
    by_cases hindex : index = target
    · subst hindex
      exact hrewrites.reworks.gained hblock
    · rw [(hrewrites.reworks.spares index hindex).memory_inode] at hblock
      exact .inl ⟨slot, hblock⟩

/-- **A sound volume owns its blocks.** -/
theorem ownsBlocks (hv : v.Shaped g) (hw : v.snapshot.Sound g) : v.OwnsBlocks g := by
  have hfree {block : ℕ} (h : v.snapshot.memory.blockUsed block = false) (c : Copy)
      (index slot : ℕ) : ¬ (v.snapshot.image c).Claims index slot block :=
    fun hclaims => hw.not_owns_of_clear h hclaims.owns
  refine ⟨fun h => hw.owned_lt h.owns, fun c' _ _ _ h => hw.owned_used c' h.owns,
    fun h h' => hw.owned_once h.owns h'.owns, ?_, ?_⟩
  · intro pointer w hrun c index slot
    obtain ⟨-, ⟨pointer', houtcome, -, -, hclear, hw'⟩ | ⟨⟨⟩, -⟩ | ⟨⟨⟩, -⟩⟩ :=
      (allocBlock_ends hv).of_run hrun
    cases houtcome
    refine ⟨hfree hclear c index slot, ?_⟩
    rw [hw']
    have hinode : (((v.snapshot.markBlock pointer.toNat).storeBlockMap).image c).inode
        = (v.snapshot.image c).inode := by
      cases c <;> rfl
    rw [Image.Claims, hinode]
    exact hfree hclear c index slot
  · intro call index slot block hblock
    exact ((call_ends hv hw call).2.gained hblock).imp_right hfree

end Volume

namespace Session

/-- **Ownership of blocks.** Whatever happened to a volume, while it is mounted no two live inodes
have a block in common, and none is handed out that one of them has. -/
theorem blocks_owned (g : Geometry) (count : ℕ) (events : List Event)
    (h : (after g count events).mounted = true) : (after g count events).OwnsBlocks g := by
  obtain ⟨hshaped, hsound⟩ := (standing g count events).mounted h
  exact Volume.ownsBlocks hshaped hsound

/-- A directory is cut short after three transfers, and the volume is mounted again. -/
theorem blocks_owned_after_crash :
    (after .tiny 20 [.mount, .call (.touch ['/', 'a']), .call (.write ['/', 'a'] 0 [1, 2] false),
      .failAfter 3, .call (.mkdir ['/', 'b']), .crash, .heal, .mount]).OwnsBlocks .tiny :=
  blocks_owned .tiny 20 _ (by decide +kernel)

end Session

end PocketKernel
