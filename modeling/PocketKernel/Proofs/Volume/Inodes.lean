import PocketKernel.Proofs.Volume.Settled

/-!
# Handing out inodes and taking them back

An inode is handed out lowest first. It is marked on the device before it is entered in the table,
so what is interrupted in between may lose it, but never gives it to two. It is taken back only
right after it was handed out, when nothing leads to it yet and it has no content; such an inode is
`Snapshot.Nascent`. The steps of taking it back are all tried, whatever becomes of the others; once
the device has failed, the memory image gives the inode up and the device keeps it.

## Main definitions

* `Snapshot.enlisted`, `Snapshot.Nascent`: an inode that was just handed out.
* `Volume.Releases`: what taking it back leaves behind.

## Main results

* `Volume.allocInode_ends`, `Volume.releaseInode_ends`.
* `Snapshot.Nascent.reworks`: an inode stays nascent while another one is worked on.
-/

namespace PocketKernel

namespace Snapshot

variable {g : Geometry} {index other : ℕ} {w w' : Snapshot} {x : Inode} {kind : InodeKind}
  {parent : UInt32}

/-! ### Handing out -/

/-- The state in which the lowest free inode has been marked and entered in the table. -/
def enlisted (w : Snapshot) (index : ℕ) (x : Inode) : Snapshot :=
  ((w.markInode index true).storeInodeMap).putInode index x

/-- The same, after the table was stored. -/
def enrolled (w : Snapshot) (index : ℕ) (x : Inode) : Snapshot :=
  (w.enlisted index x).publish (index / inodesPerSector)

theorem Known.takeInode (h : w.Known g other) (index : ℕ) :
    (w.markInode index true).storeInodeMap.Known g other := by
  have hmarked : Function.update w.memory.inodeUsed index true other = true := by
    by_cases hother : other = index
    · rw [hother, Function.update_self]
    · rw [Function.update_of_ne hother]
      exact h.used .memory
  refine h.of_inode ?_ ?_
  · rintro (_ | _) <;> rfl
  · rintro (_ | _)
    · exact hmarked
    · exact hmarked

theorem Sound.not_isLive_of_lowestFree (hw : w.Sound g) (hlow : w.LowestFree g index) :
    (w.memory.inode index).isLive = false := by
  by_contra hlive
  have hused := hw.live_used .memory (by simpa using hlive)
  rw [image_memory, hlow.clear] at hused
  cases hused

theorem Sound.ne_zero_of_lowestFree (hw : w.Sound g) (hlow : w.LowestFree g index) :
    index ≠ 0 := (hlow.ne_of_known hw.known_root).symm

/-- What the device has at the lowest free inode is empty, if it is a directory at all. -/
theorem Sound.size_of_lowestFree (hw : w.Sound g) (hlow : w.LowestFree g index)
    (hdirectory : (w.disk.inode index).isDirectory = true) : (w.disk.inode index).size = 0 := by
  by_contra hsize
  have hmemory := Inode.isLive_of_isDirectory (hw.grown hdirectory hsize).1
  rw [hw.not_isLive_of_lowestFree hlow] at hmemory
  cases hmemory

theorem Sound.enlisted (hw : w.Sound g) (hlow : w.LowestFree g index)
    (hparent : w.Known g parent.toNat) :
    (w.enlisted index (Inode.empty kind parent)).Sound g := by
  refine (hw.takeInode hlow).putInode
    { ne_blank := Inode.ne_blank_of_blockAt (Inode.blockAt_empty kind parent)
      block_lt := fun h => by rw [Inode.blockAt_empty] at h; cases h
      block_used := fun _ _ _ h => by rw [Inode.blockAt_empty] at h; cases h
      block_once := fun h => by rw [Inode.blockAt_empty] at h; cases h
      block_apart := fun h => by rw [Inode.blockAt_empty] at h; cases h
      filled := Inode.filled_of_size rfl
      live_used := ?_
      known_parent := hparent.takeInode _
      root := fun hroot => absurd hroot (hw.ne_zero_of_lowestFree hlow)
      listing := fun _ => listing_of_size rfl
      grown := fun hdirectory hsize => absurd (hw.size_of_lowestFree hlow hdirectory) hsize }
  rintro (_ | _) _
  · exact Function.update_self _ _ _
  · exact Function.update_self _ _ _

theorem spares_enlisted (hne : other ≠ index) : Spares other w (w.enlisted index x) :=
  ((spares_markInode hne true).trans spares_storeInodeMap).trans (spares_putInode hne x)

theorem spares_enrolled (hne : other ≠ index) : Spares other w (w.enrolled index x) :=
  (spares_enlisted hne).trans (spares_publish _)

theorem memory_enlisted : (w.enlisted index x).memory.inode index = x :=
  Function.update_self _ _ _

theorem memory_enrolled : (w.enrolled index x).memory.inode index = x :=
  Function.update_self _ _ _

theorem disk_enrolled : (w.enrolled index x).disk.inode index = x :=
  (if_pos rfl).trans memory_enlisted

theorem used_enrolled (c : Copy) : ((w.enrolled index x).image c).inodeUsed index = true := by
  cases c with
  | memory => exact Function.update_self _ _ _
  | disk => exact Function.update_self _ _ _

/-- Marks of other inodes in memory stay, when one is handed out. -/
theorem used_enrolled_of_used (h : w.memory.inodeUsed other = true) :
    (w.enrolled index x).memory.inodeUsed other = true := by
  by_cases hother : other = index
  · subst hother
    exact used_enrolled .memory
  · rw [(spares_enrolled hother).memory_used]
    exact h

theorem Known.enrolled (hw : w.Sound g) (hlow : w.LowestFree g index)
    (hparent : w.Known g parent.toNat) (h : w.Known g other) :
    (w.enrolled index (Inode.empty kind parent)).Known g other :=
  ((h.takeInode index).putInode
    (Inode.ne_blank_of_blockAt (Inode.blockAt_empty kind parent))).publish
      (hw.enlisted hlow hparent) (index / inodesPerSector)

/-! ### An inode that was just handed out -/

/-- An inode that is in use and stored, without content, and that nothing depends on yet. -/
structure Nascent (g : Geometry) (w : Snapshot) (index : ℕ) : Prop where
  known : w.Known g index
  ne_zero : index ≠ 0
  below : ∀ k < index, w.memory.inodeUsed k = true
  others : ∀ k ≠ index, (w.disk.inode k).isLive = true → w.memory.inodeUsed k = true
  orphan : ∀ c k, ((w.image c).inode k).parent.toNat ≠ index
  unowned : ∀ slot, (w.memory.inode index).blockAt slot = none
  memory_size : (w.memory.inode index).size = 0
  disk_size : (w.disk.inode index).size = 0

theorem Sound.nascent_enrolled (hw : w.Sound g) (hlow : w.LowestFree g index)
    (hparent : w.Known g parent.toNat) :
    (w.enrolled index (Inode.empty kind parent)).Nascent g index where
  known := by
    have hne : Inode.empty kind parent ≠ Inode.blank :=
      Inode.ne_blank_of_blockAt (Inode.blockAt_empty kind parent)
    refine ⟨hlow.lt, used_enrolled, ?_⟩
    rintro (_ | _)
    · rw [image_memory, memory_enrolled]
      exact hne
    · rw [image_disk, disk_enrolled]
      exact hne
  ne_zero := hw.ne_zero_of_lowestFree hlow
  below k hk := used_enrolled_of_used (hlow.below k hk)
  others k hk hlive := by
    refine used_enrolled_of_used ?_
    rcases (spares_enrolled hk).disk_inode with hdisk | hmemory
    · rw [hdisk] at hlive
      exact (hw.used_of_stored hlow hlive).resolve_left hk
    · rw [hmemory] at hlive
      exact hw.live_used .memory hlive
  orphan c k := by
    have hold (c' : Copy) : ((w.image c').inode k).parent.toNat ≠ index :=
      hlow.ne_of_known (hw.known_parent c' k)
    by_cases hk : k = index
    · subst hk
      cases c with
      | memory => rw [image_memory, memory_enrolled]; exact hlow.ne_of_known hparent
      | disk => rw [image_disk, disk_enrolled]; exact hlow.ne_of_known hparent
    · have hspares := spares_enrolled (w := w) (x := Inode.empty kind parent) hk
      cases c with
      | memory => rw [image_memory, hspares.memory_inode]; exact hold .memory
      | disk =>
        rcases hspares.disk_inode with hdisk | hmemory
        · rw [image_disk, hdisk]; exact hold .disk
        · rw [image_disk, hmemory]; exact hold .memory
  unowned slot := by rw [memory_enrolled]; exact Inode.blockAt_empty kind parent
  memory_size := by rw [memory_enrolled]; rfl
  disk_size := by rw [disk_enrolled]; rfl

/-- An inode stays nascent while another one is worked on. -/
theorem Nascent.reworks (hw : w.Sound g) (h : w.Nascent g index) (hne : index ≠ other)
    (hreworks : Reworks other w w') : w'.Nascent g index := by
  have hspares := hreworks.spares index hne
  have hdisk : w'.disk.inode index = w.disk.inode index
      ∨ w'.disk.inode index = w.memory.inode index := hspares.disk_inode
  have hused := hreworks.inodeUsed .memory
  rw [image_memory, image_memory] at hused
  refine ⟨⟨h.known.lt, fun c => ?_, ?_⟩, h.ne_zero, fun k hk => ?_, fun k hk hlive => ?_,
    fun c k => ?_, fun slot => ?_, ?_, ?_⟩
  · rw [hreworks.inodeUsed c]
    exact h.known.used c
  · rintro (_ | _)
    · rw [image_memory, hspares.memory_inode]
      exact h.known.ne_blank .memory
    · rcases hdisk with hsame | hsame
      · rw [image_disk, hsame]; exact h.known.ne_blank .disk
      · rw [image_disk, hsame]; exact h.known.ne_blank .memory
  · rw [hused]
    exact h.below k hk
  · rw [hused]
    obtain ⟨c, hkin⟩ := hreworks.kin .disk k
    rw [image_disk] at hkin
    rw [hkin.isLive_eq] at hlive
    cases c with
    | memory => exact hw.live_used .memory hlive
    | disk => exact h.others k hk hlive
  · obtain ⟨c', hkin⟩ := hreworks.kin c k
    rw [hkin.2]
    exact h.orphan c' k
  · rw [hspares.memory_inode]
    exact h.unowned slot
  · rw [hspares.memory_inode]
    exact h.memory_size
  · rcases hdisk with hsame | hsame
    · rw [hsame]; exact h.disk_size
    · rw [hsame]; exact h.memory_size

/-! ### Taking back -/

/-- The state in which an inode has been taken out of the table. -/
def struck (w : Snapshot) (index : ℕ) : Snapshot := w.putInode index Inode.free

theorem Sound.struck (hw : w.Sound g) (h : w.Nascent g index) : (w.struck index).Sound g :=
  hw.putInode
    { ne_blank := Inode.ne_blank_of_blockAt Inode.blockAt_free
      block_lt := fun h => by rw [Inode.blockAt_free] at h; cases h
      block_used := fun _ _ _ h => by rw [Inode.blockAt_free] at h; cases h
      block_once := fun h => by rw [Inode.blockAt_free] at h; cases h
      block_apart := fun h => by rw [Inode.blockAt_free] at h; cases h
      filled := Inode.filled_of_size rfl
      live_used := fun _ h => by rw [Inode.not_isLive_free] at h; cases h
      known_parent := hw.known_root
      root := fun hroot => absurd hroot h.ne_zero
      listing := fun h => absurd h (by decide)
      grown := fun _ hsize => absurd h.disk_size hsize }

theorem memory_struck : (w.struck index).memory.inode index = Inode.free := memory_putInode _ _

/-- An inode has been taken out of the table, and the table may have been stored. -/
def Struck (index : ℕ) (w w' : Snapshot) : Prop :=
  w' = w.struck index ∨ w' = (w.struck index).publish (index / inodesPerSector)

theorem Struck.spares (h : w.Struck index w') (hne : other ≠ index) : Spares other w w' := by
  rcases h with rfl | rfl
  · exact spares_putInode hne _
  · exact (spares_putInode hne _).trans (spares_publish _)

theorem Struck.memory_eq (h : w.Struck index w') : w'.memory = (w.struck index).memory := by
  rcases h with rfl | rfl
  · rfl
  · rfl

theorem Struck.draws (h : w.Struck index w') : (w.struck index).Draws w' := by
  rcases h with rfl | rfl
  · exact draws_of_inode fun _ => rfl
  · exact draws_publish _

theorem Struck.sound (hw : w.Sound g) (hnascent : w.Nascent g index) (h : w.Struck index w') :
    w'.Sound g := by
  rcases h with rfl | rfl
  · exact hw.struck hnascent
  · exact (hw.struck hnascent).publish _

/-- What the device takes for live apart from the inode was marked before. -/
theorem Struck.used_of_stored (hw : w.Sound g) (hnascent : w.Nascent g index)
    (h : w.Struck index w') (hne : other ≠ index) (hlive : (w'.disk.inode other).isLive = true) :
    w.memory.inodeUsed other = true := by
  rcases (h.spares hne).disk_inode with hsame | hsame
  · rw [hsame] at hlive
    exact hnascent.others other hne hlive
  · rw [hsame] at hlive
    exact hw.live_used .memory hlive

/-- The mark of an inode may go once it was taken out of the table, stored or not. -/
theorem Sound.unmarked (hw : w.Sound g) (h : w.Nascent g index) (hstruck : w.Struck index w') :
    (w'.markInode index false).Sound g := by
  have hused : w'.memory.inodeUsed = w.memory.inodeUsed := by
    rw [hstruck.memory_eq]
    rfl
  refine (hstruck.sound hw h).giveInode ?_ ?_ ?_ ?_
  · rw [hstruck.memory_eq, memory_struck]
    exact Inode.not_isLive_free
  · rw [hused]
    exact h.below
  · intro k hk hlive
    rw [hused]
    exact hstruck.used_of_stored hw h hk hlive
  · intro c k
    obtain ⟨c', hc'⟩ := hstruck.draws c k
    rw [hc']
    rcases w.cases_putInode Inode.free index k c' with hsame | ⟨-, -, hput⟩
    · rw [show ((w.struck index).image c').inode k = (w.image c').inode k from hsame]
      exact h.orphan c' k
    · rw [show ((w.struck index).image c').inode k = Inode.free from hput]
      exact h.ne_zero.symm

/-- The mark that was removed may be stored once the table is. -/
theorem Sound.unlisted (hw : w.Sound g) (h : w.Nascent g index) :
    ((((w.struck index).publish (index / inodesPerSector)).markInode index
      false).storeInodeMap).Sound g := by
  have hstruck : w.Struck index ((w.struck index).publish (index / inodesPerSector)) := .inr rfl
  refine (hw.unmarked h hstruck).storeInodeMap fun {k} hlive => ?_
  have hlive' : (((w.struck index).publish (index / inodesPerSector)).disk.inode k).isLive
      = true := hlive
  by_cases hk : k = index
  · subst hk
    rw [show ((w.struck k).publish (k / inodesPerSector)).disk.inode k = Inode.free from
      (if_pos rfl).trans memory_struck, Inode.not_isLive_free] at hlive'
    cases hlive'
  · show Function.update w.memory.inodeUsed index false k = true
    rw [Function.update_of_ne hk]
    exact hstruck.used_of_stored hw h hk hlive'

end Snapshot

namespace Volume

variable {δ : Type} [BlockDevice δ] [LawfulDevice δ] {g : Geometry} {v w x : Volume δ}
  {index : ℕ} {kind : InodeKind} {parent : ℕ}

/-! ### The two operations -/

theorem snapshot_clear_set_inodeMap (hv : v.Shaped g) (h : index < g.inodeCount)
    (hclear : v.inodeMap.isSet index = false)
    (hw : w.snapshot = v.snapshot.markInode index true) :
    { w with inodeMap := (v.inodeMap.set index).clear index }.snapshot = v.snapshot := by
  have hmap : ((v.inodeMap.set index).clear index).isSet = v.inodeMap.isSet :=
    Bitmap.isSet_clear_set hv.fitsSector_inodeMap (by rw [hv.length_inodeMap]; exact h) hclear
  have hleft : { w with inodeMap := (v.inodeMap.set index).clear index }.snapshot
      = { w.snapshot with memory.inodeUsed := ((v.inodeMap.set index).clear index).isSet } := rfl
  rw [hleft, hw, hmap]
  rfl

/-- How handing out an inode ends. -/
inductive Allocated (g : Geometry) (v : Volume δ) (x : Inode) : Except Stop ℕ → Volume δ → Prop
  /-- The lowest free inode was handed out. -/
  | handed {w : Volume δ} (index : ℕ) : v.snapshot.LowestFree g index →
      w.snapshot = v.snapshot.enrolled index x → Allocated g v x (.ok index) w
  /-- It was lost, because the table could not be stored. -/
  | lost {w : Volume δ} (index : ℕ) : v.snapshot.LowestFree g index → v.Faulted w →
      w.snapshot = v.snapshot.enlisted index x → Allocated g v x (.error (.error .io)) w
  /-- Its mark could not be stored, and was taken back. -/
  | refused {w : Volume δ} : v.Faulted w → w.snapshot = v.snapshot →
      Allocated g v x (.error (.error .io)) w
  /-- There was none. -/
  | full {w : Volume δ} : (∀ k < g.inodeCount, v.snapshot.memory.inodeUsed k = true) →
      w = v → Allocated g v x (.error (.error .noInodes)) w

theorem allocInode_ends (hv : v.Shaped g) (kind : InodeKind) (parent : ℕ) :
    v.Ends (VolumeM.allocInode kind parent) fun outcome w => v.Continues g w
      ∧ v.Allocated g (Inode.empty kind (UInt32.ofNat parent)) outcome w := by
  unfold VolumeM.allocInode
  rw [ends_get_bind]
  cases halloc : v.inodeMap.alloc? with
  | none =>
    refine ⟨hv.continues, .full (fun k hk => ?_) rfl⟩
    exact Bitmap.of_alloc?_eq_none hv.fitsSector_inodeMap halloc k
      (by rw [hv.length_inodeMap]; exact hk)
  | some found =>
    obtain ⟨index, map⟩ := found
    obtain ⟨hlt, hclear, hbelow, rfl⟩ := Bitmap.of_alloc?_eq_some halloc
    rw [hv.length_inodeMap] at hlt
    have hlow : v.snapshot.LowestFree g index := ⟨hlt, hclear, hbelow⟩
    show v.Ends (VolumeM.setInodeMap _ >>= _) _
    rw [VolumeM.setInodeMap, ends_modify_bind]
    have hmid := hv.continues_of_copies v.inodes (v.inodeMap.set index) v.blockMap rfl
      (Bitmap.length_set _ _) rfl
    refine Ends.attempt_bind (flushInodeMap_ends hmid.shaped) ?_ ?_ ?_
    · rintro ⟨⟩ x ⟨hvx, ⟨-, -, hx⟩ | ⟨⟨⟩, -⟩⟩
      rw [snapshot_set_inodeMap hv hlt] at hx
      show x.Ends (VolumeM.setInode index _ >>= fun _ => _) _
      rw [ends_setInode_bind hvx.shaped hlt]
      have hput := hvx.shaped.continues_put index (Inode.empty kind (UInt32.ofNat parent))
      have hputs := snapshot_put hvx.shaped hlt (Inode.empty kind (UInt32.ofNat parent))
      rw [hx] at hputs
      refine Ends.bind (flushInode_ends hput.shaped hlt) ?_ ?_
      · rintro ⟨⟩ y ⟨hxy, ⟨-, -, hy⟩ | ⟨⟨⟩, -⟩⟩
        rw [hputs] at hy
        exact ⟨hmid.trans (hvx.trans (hput.trans hxy)), .handed index hlow hy⟩
      · rintro stop y ⟨hxy, ⟨⟨⟩, -⟩ | ⟨⟨rfl⟩, hfault, hy⟩⟩
        rw [hputs] at hy
        exact ⟨hmid.trans (hvx.trans (hput.trans hxy)), .lost index hlow
          (.of_continues (hmid.trans (hvx.trans hput)) hfault) hy⟩
    · rintro cause x ⟨hvx, ⟨⟨⟩, -⟩ | ⟨⟨rfl⟩, hfault, hx⟩⟩
      have hleft := snapshot_clear_set_inodeMap hv hlt hclear
        (hx.trans (snapshot_set_inodeMap hv hlt))
      have hback := hvx.shaped.continues_of_copies x.inodes
        ((v.inodeMap.set index).clear index) x.blockMap rfl
        (by rw [Bitmap.length_clear, Bitmap.length_set, hv.length_inodeMap,
          hvx.shaped.length_inodeMap]) rfl
      exact ⟨hmid.trans (hvx.trans hback), .refused hfault hleft⟩
    · rintro x ⟨-, ⟨⟨⟩, -⟩ | ⟨⟨⟩, -⟩⟩

/-- The last steps of taking an inode back: its mark is removed, and stored unless the device has
failed. -/
theorem unmark_ends (hx : x.Shaped g) {inode : Inode} (hunowned : ∀ slot, inode.blockAt slot = none)
    (index : ℕ) (stored : Except VolumeError Unit) :
    x.Ends (do
      let freed ← VolumeM.attempt (VolumeM.freeBlocks inode.direct.toList)
      let map := (← get).inodeMap
      VolumeM.setInodeMap ((map.release? index).getD map)
      let cleared ← VolumeM.attempt VolumeM.flushInodeMap
      VolumeM.orFail stored
      VolumeM.orFail freed
      VolumeM.orFail cleared) fun outcome w => outcome ≠ .error .broken ∧ x.Continues g w
        ∧ ((¬ LawfulDevice.Failed x.device
            ∧ w.snapshot = (x.snapshot.markInode index false).storeInodeMap)
          ∨ (x.Faulted w ∧ w.snapshot = x.snapshot.markInode index false)) := by
  refine Ends.attempt_bind (freeBlocks_ends hx inode) ?_ ?_ ?_
  · rintro ⟨⟩ y ⟨hxy, ⟨-, -, slot, hslot⟩ | ⟨-, hy, -⟩ | ⟨⟨⟩, -⟩⟩
    · rw [hunowned slot] at hslot
      cases hslot
    rw [ends_get_bind]
    show y.Ends (VolumeM.setInodeMap _ >>= fun _ => _) _
    rw [VolumeM.setInodeMap, ends_modify_bind]
    have hmid := hxy.shaped.continues_of_copies y.inodes
      ((y.inodeMap.release? index).getD y.inodeMap) y.blockMap rfl
      Bitmap.length_getD_release? rfl
    have hmids := snapshot_release_inodeMap hxy.shaped index
    rw [hy] at hmids
    refine Ends.attempt_bind (flushInodeMap_ends hmid.shaped) ?_ ?_ ?_
    · rintro ⟨⟩ z ⟨hyz, ⟨-, hnot, hz⟩ | ⟨⟨⟩, -⟩⟩
      rw [hmids] at hz
      have hpost : x.Continues g z ∧ ((¬ LawfulDevice.Failed x.device
            ∧ z.snapshot = (x.snapshot.markInode index false).storeInodeMap)
          ∨ (x.Faulted z ∧ z.snapshot = x.snapshot.markInode index false)) :=
        ⟨hxy.trans (hmid.trans hyz), .inl ⟨fun hfailed => hnot (hxy.failed hfailed), hz⟩⟩
      cases stored with
      | ok _ => exact ⟨(fun h => by cases h), hpost⟩
      | error _ => exact ⟨(fun h => by cases h), hpost⟩
    · rintro cause z ⟨hyz, ⟨⟨⟩, -⟩ | ⟨⟨rfl⟩, hfault, hz⟩⟩
      rw [hmids] at hz
      have hpost : x.Continues g z ∧ ((¬ LawfulDevice.Failed x.device
            ∧ z.snapshot = (x.snapshot.markInode index false).storeInodeMap)
          ∨ (x.Faulted z ∧ z.snapshot = x.snapshot.markInode index false)) :=
        ⟨hxy.trans (hmid.trans hyz), .inr ⟨.of_continues (hxy.trans hmid) hfault, hz⟩⟩
      cases stored with
      | ok _ => exact ⟨(fun h => by cases h), hpost⟩
      | error _ => exact ⟨(fun h => by cases h), hpost⟩
    · rintro z ⟨-, ⟨⟨⟩, -⟩ | ⟨⟨⟩, -⟩⟩
  · rintro cause y ⟨-, ⟨⟨⟩, -⟩ | ⟨⟨⟩, -⟩ | ⟨-, -, -, slot, hslot⟩⟩
    rw [hunowned slot] at hslot
    cases hslot
  · rintro y ⟨-, ⟨⟨⟩, -⟩ | ⟨⟨⟩, -⟩ | ⟨⟨⟩, -⟩⟩

/-- What is left behind when an inode was taken back, as far as that went. -/
structure Releases (g : Geometry) (index : ℕ) (v w : Volume δ) : Prop where
  continues : v.Continues g w
  sound : w.snapshot.Sound g
  spares : ∀ k, k ≠ index → v.snapshot.Spares k w.snapshot
  memory_inode : w.snapshot.memory.inode index = Inode.free
  memory_used : w.snapshot.memory.inodeUsed index = false
  settled : v.snapshot.Settled → v.Faulted w ∨ w.snapshot.Settled

/-- Taking an inode back completely settles the volume again. -/
theorem settled_unlisted {w : Snapshot} (hw : w.Settled) (h : w.Nascent g index) :
    ((((w.struck index).publish (index / inodesPerSector)).markInode index
      false).storeInodeMap).Settled := by
  have hother (k : ℕ) (hk : k ≠ index) : (w.struck index).memory.inode k = w.memory.inode k :=
    Snapshot.memory_putInode_of_ne _ hk
  have hinode : ((w.struck index).publish (index / inodesPerSector)).disk.inode
      = (w.struck index).memory.inode := by
    refine Snapshot.disk_publish fun k hk => ?_
    rw [hother k hk, ← hw.synced]
    rfl
  have hblocks : w.disk.blockUsed = w.memory.blockUsed := by rw [hw.synced]
  exact ⟨Image.ext hinode rfl hblocks, hw.tight_of_others h.unowned hother rfl⟩

/-- The mark is removed after the inode was taken out of the table, but not on the device. -/
theorem Releases.of_unmarked {mid : Snapshot} (hw : v.snapshot.Sound g)
    (h : v.snapshot.Nascent g index) (hmid : v.snapshot.Struck index mid) (hvw : v.Continues g w)
    (hfault : v.Faulted w) (hleft : w.snapshot = mid.markInode index false) :
    v.Releases g index w where
  continues := hvw
  sound := by
    rw [hleft]
    exact hw.unmarked h hmid
  spares k hk := by
    rw [hleft]
    exact (hmid.spares hk).trans (Snapshot.spares_markInode hk false)
  memory_inode := by
    rw [hleft]
    exact (congrArg (Image.inode · index) hmid.memory_eq).trans Snapshot.memory_struck
  memory_used := by
    rw [hleft]
    exact Function.update_self _ _ _
  settled _ := .inl hfault

/-- The inode is taken back completely. -/
theorem Releases.of_unlisted (hw : v.snapshot.Sound g) (h : v.snapshot.Nascent g index)
    (hvw : v.Continues g w) (hleft : w.snapshot = (((v.snapshot.struck index).publish
      (index / inodesPerSector)).markInode index false).storeInodeMap) :
    v.Releases g index w where
  continues := hvw
  sound := by
    rw [hleft]
    exact hw.unlisted h
  spares k hk := by
    rw [hleft]
    exact (((Snapshot.spares_putInode hk _).trans (Snapshot.spares_publish _)).trans
      (Snapshot.spares_markInode hk false)).trans Snapshot.spares_storeInodeMap
  memory_inode := by
    rw [hleft]
    exact Snapshot.memory_struck
  memory_used := by
    rw [hleft]
    exact Function.update_self _ _ _
  settled hsettled := .inr (by rw [hleft]; exact settled_unlisted hsettled h)

/-- Taking a nascent inode back goes all the way, or the device fails before its mark is stored. -/
theorem releaseInode_cases_ends (hv : v.Shaped g) (h : v.snapshot.Nascent g index) :
    v.Ends (VolumeM.releaseInode index) fun outcome w =>
      outcome ≠ .error .broken ∧ v.Continues g w
        ∧ (w.snapshot = (((v.snapshot.struck index).publish
            (index / inodesPerSector)).markInode index false).storeInodeMap
          ∨ (v.Faulted w ∧ ∃ mid, v.snapshot.Struck index mid
            ∧ w.snapshot = mid.markInode index false)) := by
  unfold VolumeM.releaseInode
  rw [if_neg h.ne_zero]
  simp only [VolumeM.detachBlocks, bind_assoc, pure_bind]
  have hdetach := hv.continues_put index (v.snapshot.memory.inode index).detached
  have hstrike := hdetach.trans (hdetach.shaped.continues_put index Inode.free)
  rw [ends_inodeAt_bind hv h.known.lt, ends_setInode_bind hv h.known.lt,
    ends_setInode_bind hdetach.shaped h.known.lt]
  have hstruck : ((v.put index (v.snapshot.memory.inode index).detached).put index
      Inode.free).snapshot = v.snapshot.struck index := by
    rw [snapshot_put hdetach.shaped h.known.lt, snapshot_put hv h.known.lt]
    simp only [Snapshot.putInode, Snapshot.struck, Function.update_idem]
  refine Ends.attempt_bind (flushInode_ends hstrike.shaped h.known.lt) ?_ ?_ ?_
  · rintro ⟨⟩ x ⟨hvx, ⟨-, -, hx⟩ | ⟨⟨⟩, -⟩⟩
    rw [hstruck] at hx
    have hvx' := hstrike.trans hvx
    refine (unmark_ends hvx.shaped h.unowned index _).mono ?_
    rw [hx]
    rintro _ y ⟨hstop, hxy, ⟨-, hy⟩ | ⟨hfault, hy⟩⟩
    · exact ⟨hstop, hvx'.trans hxy, .inl hy⟩
    · exact ⟨hstop, hvx'.trans hxy, .inr ⟨.of_continues hvx' hfault, _, .inr rfl, hy⟩⟩
  · rintro cause x ⟨hvx, ⟨⟨⟩, -⟩ | ⟨⟨rfl⟩, hfault, hx⟩⟩
    rw [hstruck] at hx
    refine (unmark_ends hvx.shaped h.unowned index _).mono ?_
    rw [hx]
    rintro _ y ⟨hstop, hxy, ⟨hnot, -⟩ | ⟨-, hy⟩⟩
    · exact absurd hfault.1 hnot
    · exact ⟨hstop, hstrike.trans (hvx.trans hxy),
        .inr ⟨(Faulted.of_continues hstrike hfault).continues hxy, _, .inl rfl, hy⟩⟩
  · rintro x ⟨-, ⟨⟨⟩, -⟩ | ⟨⟨⟩, -⟩⟩

/-- **A nascent inode is taken back**, whatever is reported about it. -/
theorem releaseInode_ends (hv : v.Shaped g) (hw : v.snapshot.Sound g)
    (h : v.snapshot.Nascent g index) :
    v.Ends (VolumeM.releaseInode index) fun outcome w =>
      outcome ≠ .error .broken ∧ v.Releases g index w := by
  refine (releaseInode_cases_ends hv h).mono ?_
  rintro outcome w ⟨hstop, hvw, hw' | ⟨hfault, mid, hmid, hw'⟩⟩
  · exact ⟨hstop, .of_unlisted hw h hvw hw'⟩
  · exact ⟨hstop, .of_unmarked hw h hmid hvw hfault hw'⟩

/-- No block is marked or cleared for it. -/
theorem releaseInode_blockUsed_ends (hv : v.Shaped g) (h : v.snapshot.Nascent g index) :
    v.Ends (VolumeM.releaseInode index) fun _ w =>
      w.snapshot.memory.blockUsed = v.snapshot.memory.blockUsed := by
  refine (releaseInode_cases_ends hv h).mono ?_
  rintro outcome w ⟨-, -, hw | ⟨-, mid, hmid, hw⟩⟩
  · rw [hw]
    rfl
  · rw [hw]
    show mid.memory.blockUsed = _
    rw [hmid.memory_eq]
    rfl

end Volume

end PocketKernel
