import Mathlib.Data.Set.Card
import PocketKernel.Proofs.Volume.Entries
import PocketKernel.Proofs.Volume.Session
import PocketKernel.Proofs.Volume.Stores

/-!
# Creations that fail

Creating an entry takes several stores, and when one of them is refused, what was done before is
taken back. That is not done in three places. An inode that was marked stays marked if it could not
be stored, and nothing leads to it. A block that the directory has gained stays there if the record
could not be written into it. And the directory keeps its new size if that could not be stored, with
a record at its end that leads to an inode which was given up.

Any of this takes a refused transfer; where there is no room or the path is wrong, nothing is left.
Which of the transfers was refused shows in how much was stored before: a trace is left after one
store, and once all chunks of the record were on the way.

## Main definitions

* `Snapshot.Unmoved`, `Snapshot.Scarred`: nothing that shows has changed, or one of the three has.
* `Volume.Traceless`: clients are told the same as before.
* `Volume.Strands`: the stores after which a trace is left.

## Main results

* `Snapshot.Unmoved.stat_eq`, `Snapshot.Unmoved.list_eq`: what is told after nothing has changed.
* `Volume.create_givenUp_ends`: all the ways in which creating an entry fails.
* `Session.failed_creation_traceless_iff`: when a creation that fails leaves nothing behind.
-/

namespace PocketKernel

namespace Snapshot

variable {g : Geometry} {kind : InodeKind} {current index parent parent' : ℕ}
  {leaf leaf' path : Text} {w w' : Snapshot}

/-! ### Nothing has changed -/

/-- No mark has changed, and of the inodes that paths lead to, none has changed but in its
pointers. -/
structure Unmoved (g : Geometry) (w w' : Snapshot) : Prop where
  inodeUsed : w'.memory.inodeUsed = w.memory.inodeUsed
  blockUsed : w'.memory.blockUsed = w.memory.blockUsed
  live : w'.live = w.live
  entries : w'.entries = w.entries
  kin : ∀ k, w.Known g k → (w'.memory.inode k).Kin (w.memory.inode k)
  size : ∀ k, w.Known g k → (w'.memory.inode k).size = (w.memory.inode k).size

theorem unmoved_self (g : Geometry) (w : Snapshot) : Unmoved g w w :=
  ⟨rfl, rfl, rfl, rfl, fun _ _ => ⟨rfl, rfl⟩, fun _ _ => rfl⟩

theorem Sound.known_of_mem_entries (hw : w.Sound g) {record : DirectoryRecord}
    (hmem : record ∈ w.entries index) (hlive : w.live record.target.toNat = true) :
    w.Known g record.target.toNat := by
  unfold entries at hmem
  split at hmem
  · rename_i hdirectory
    have hlisting := hw.listing .memory hdirectory
    exact hw.known_of_isLive (hlisting.target_lt record hmem) hlive
      (hlisting.target_stored record hmem)
  · cases hmem

namespace Unmoved

variable (h : Unmoved g w w') (hw : w.Sound g)
include h

theorem statOf_eq (hknown : w.Known g index) : w'.statOf index = w.statOf index := by
  rw [statOf, statOf, (h.kin index hknown).isDirectory_eq, h.size index hknown]

include hw

theorem walkFrom_eq (hknown : w.Known g current) (segments : List Text) :
    w'.walkFrom current segments = w.walkFrom current segments := by
  induction segments generalizing current with
  | nil => rfl
  | cons segment segments ih =>
    rw [walkFrom, walkFrom, List.foldlM_cons, List.foldlM_cons,
      step_congr (h.kin current hknown) h.entries h.live]
    cases hstep : w.step current segment with
    | error cause => rfl
    | ok next => exact ih (hw.known_step hstep)

theorem resolve_eq (path : Text) : w'.resolve path = w.resolve path := by
  unfold resolve
  cases Path.components path with
  | error cause => rfl
  | ok segments => exact h.walkFrom_eq hw hw.known_root segments

theorem stat_eq (path : Text) : w'.stat path = w.stat path := by
  rw [stat, stat, h.resolve_eq hw]
  cases hresolve : w.resolve path with
  | error cause => rfl
  | ok index => exact congrArg Except.ok (h.statOf_eq (hw.known_resolve hresolve))

theorem lines_eq (index : ℕ) : w'.lines index = w.lines index := by
  rw [lines, lines, h.entries, h.live]
  refine List.map_congr_left fun record hrecord => ?_
  obtain ⟨hmem, hlive⟩ := List.mem_filter.mp hrecord
  rw [lineOf, lineOf, h.statOf_eq (hw.known_of_mem_entries hmem hlive)]

theorem list_eq (path : Text) : w'.list path = w.list path := by
  rw [list, list, h.resolve_eq hw]
  cases hresolve : w.resolve path with
  | error cause => rfl
  | ok index =>
    have hknown := hw.known_resolve hresolve
    simp only [Except.map, (h.kin index hknown).isDirectory_eq, h.lines_eq hw, h.statOf_eq hknown]

end Unmoved

/-! ### Something was left -/

theorem Place.parent_eq (h : w.Place path parent leaf) (h' : w.Place path parent' leaf') :
    parent' = parent := by
  obtain ⟨segments, hsegments, hwalk⟩ := h.leads
  obtain ⟨segments', hsegments', hwalk'⟩ := h'.leads
  rw [hsegments] at hsegments'
  cases hsegments'
  rw [hwalk] at hwalk'
  exact (Except.ok.inj hwalk').symm

/-- The directory of a new entry has a path itself. -/
theorem Place.exists_resolve (h : w.Place path parent leaf) :
    ∃ front, w.resolve front = .ok parent := by
  obtain ⟨segments, hsegments, hwalk⟩ := h.leads
  obtain ⟨front, hfront⟩ := Path.exists_components_dropLast hsegments
  refine ⟨front, ?_⟩
  rw [resolve, hfront]
  exact hwalk

/-- What a creation that failed may have left: an inode in use, a block in use, or a directory of
another size. -/
inductive Scarred (g : Geometry) (path : Text) (w w' : Snapshot) : Prop
  | inode : w'.live ≠ w.live → Scarred g path w w'
  | block : w.Takes g w' → Scarred g path w w'
  | directory {parent : ℕ} {leaf : Text} : w.Place path parent leaf →
      (w'.memory.inode parent).size ≠ (w.memory.inode parent).size → Scarred g path w w'

end Snapshot

namespace Volume

/-! ### What clients see of it -/

section Traceless

variable {δ : Type} [BlockDevice δ] [LawfulDevice δ] {g : Geometry} {v w : Volume δ}
  {path : Text}

open Snapshot

/-- What happened between two volumes left no trace: clients are told the same of them. -/
structure Traceless (v w : Volume δ) : Prop where
  usage : w.usage = v.usage
  live : w.snapshot.live = v.snapshot.live
  stat : ∀ path, (w.run (VolumeM.stat path)).1 = (v.run (VolumeM.stat path)).1
  list : ∀ path, (w.run (VolumeM.list path)).1 = (v.run (VolumeM.list path)).1

theorem usage_of_unmoved (hv : v.Shaped g) (hw : w.Shaped g)
    (h : Unmoved g v.snapshot w.snapshot) : w.usage = v.usage := by
  have hinodes : w.inodeMap.isSet = v.inodeMap.isSet := h.inodeUsed
  have hblocks : w.blockMap.isSet = v.blockMap.isSet := h.blockUsed
  simp only [usage, Bitmap.count_eq_ncard, hinodes, hblocks, hv.length_inodeMap,
    hw.length_inodeMap, hv.length_blockMap, hw.length_blockMap]

/-- One more block is one more to count. -/
theorem blocksUsed_of_takes (h : v.snapshot.Takes g w.snapshot) :
    w.usage.blocksUsed = v.usage.blocksUsed + 1 := by
  obtain ⟨block, -, hclear, hused⟩ := h
  have hused' : w.blockMap.isSet = Function.update v.blockMap.isSet block true := hused
  have hset : {k | w.blockMap.isSet k = true} = insert block {k | v.blockMap.isSet k = true} := by
    ext k
    rw [hused']
    by_cases hk : k = block
    · simp [hk]
    · simp [hk]
  have hfinite : {k | v.blockMap.isSet k = true}.Finite :=
    (Set.finite_lt_nat v.blockMap.length).subset fun k hk => Bitmap.lt_length_of_isSet hk
  have hnew : block ∉ {k | v.blockMap.isSet k = true} := by
    intro hmem
    have hset' : v.blockMap.isSet block = true := hmem
    rw [show v.blockMap.isSet block = false from hclear] at hset'
    cases hset'
  show w.blockMap.count = v.blockMap.count + 1
  rw [Bitmap.count_eq_ncard, Bitmap.count_eq_ncard, hset, Set.ncard_insert_of_notMem hnew hfinite]

theorem Ready.traceless_of_unmoved (hv : v.Ready g) (hw : w.Ready g)
    (h : Unmoved g v.snapshot w.snapshot) : v.Traceless w where
  usage := usage_of_unmoved hv.shaped hw.shaped h
  live := h.live
  stat path := by rw [hv.run_stat, hw.run_stat, h.stat_eq hv.sound]
  list path := by rw [hv.run_list, hw.run_list, h.list_eq hv.sound]

/-- **What is left is seen.** -/
theorem Ready.not_traceless_of_scarred (hv : v.Ready g) (hw : w.Ready g)
    (h : Scarred g path v.snapshot w.snapshot) : ¬ v.Traceless w := by
  intro htraceless
  cases h with
  | inode hlive => exact hlive htraceless.live
  | block htakes =>
    have hmore := blocksUsed_of_takes htakes
    rw [htraceless.usage] at hmore
    omega
  | directory hplace hsize =>
    obtain ⟨front, hfront⟩ := hplace.exists_resolve
    have hstat := htraceless.stat front
    rw [hv.run_stat, hw.run_stat, Snapshot.stat, Snapshot.stat, hfront] at hstat
    cases hfront' : w.snapshot.resolve front with
    | error cause =>
      rw [hfront'] at hstat
      cases hstat
    | ok found =>
      rw [hfront'] at hstat
      have hsame : w.snapshot.statOf found = v.snapshot.statOf _ := Except.ok.inj hstat
      obtain rfl : found = _ := congrArg FileStat.inode hsame
      exact hsize (UInt32.toNat_inj.mp (congrArg FileStat.size hsame))

end Traceless

/-! ### How a creation fails -/

variable {g : Geometry} {v w x y z : Volume RamDisk} {kind : InodeKind} {parent index : ℕ}
  {leaf path : Text} {stop : Stop}

open Snapshot

/-- A transfer was refused after a single store, or after at least two and as many more as the
record has chunks. By then the inode was marked but not stored, or the directory had gained a block
or had grown. -/
def Strands (path : Text) (stop : Stop) (v w : Volume RamDisk) : Prop :=
  stop = .error .io ∧ (w.device.writes = v.device.writes + 1
    ∨ ∃ parent leaf, v.snapshot.Place path parent leaf ∧ v.device.writes + 2
      + (v.snapshot.memory.inode parent).recordChunks ≤ w.device.writes)

theorem strands_iff (hplace : v.snapshot.Place path parent leaf) : v.Strands path stop w
    ↔ stop = .error .io ∧ (w.device.writes = v.device.writes + 1 ∨ v.device.writes + 2
      + (v.snapshot.memory.inode parent).recordChunks ≤ w.device.writes) := by
  refine and_congr_right fun _ => or_congr_right ⟨?_, fun h => ⟨parent, leaf, hplace, h⟩⟩
  rintro ⟨parent', leaf', hplace', hle⟩
  obtain rfl := hplace.parent_eq hplace'
  exact hle

/-- Where nothing was stored, nothing is left. -/
theorem not_strands_of_writes (h : w.device.writes = v.device.writes) :
    ¬ v.Strands path stop w := by
  rintro ⟨-, hone | ⟨parent, leaf, -, hmore⟩⟩
  · omega
  · omega

/-- How a creation fails: nothing has changed, or a trace is left. -/
inductive GivenUp (g : Geometry) (path : Text) (v : Volume RamDisk) (stop : Stop)
    (w : Volume RamDisk) : Prop
  | clean : Unmoved g v.snapshot w.snapshot → ¬ v.Strands path stop w → GivenUp g path v stop w
  | scarred : v.Strands path stop w → Scarred g path v.snapshot w.snapshot → GivenUp g path v stop w

theorem GivenUp.of_looked (hx : x.snapshot = v.snapshot)
    (hwrites : x.device.writes = v.device.writes) (h : x.GivenUp g path stop w) :
    v.GivenUp g path stop w := by
  have hstrands : x.Strands path stop w ↔ v.Strands path stop w := by
    rw [Strands, Strands, hx, hwrites]
  cases h with
  | clean hunmoved hnot => exact .clean (hx ▸ hunmoved) (mt hstrands.mpr hnot)
  | scarred hstranded hscarred => exact .scarred (hstrands.mp hstranded) (hx ▸ hscarred)

/-- The operation stopped before anything was stored. -/
theorem givenUp_of_looked (hx : x.snapshot = v.snapshot)
    (hwrites : x.device.writes = v.device.writes) : v.GivenUp g path stop x :=
  .clean (hx ▸ unmoved_self g v.snapshot) (not_strands_of_writes hwrites)

theorem Enrolled.memory_parent (h : v.Enrolled g kind parent index leaf x) :
    x.snapshot.memory.inode parent = v.snapshot.memory.inode parent := by
  rw [h.snapshot, (spares_enrolled h.vacancy.ne.symm).memory_inode]

section Undoing

/-! An inode was handed out, a record that leads to it was worked on, and the inode was taken
back. -/

variable (h : v.Enrolled g kind parent index leaf x) (hrewrites : x.Rewrites g parent y)
  (hreleases : y.Releases g index z)
include h hrewrites hreleases

theorem Enrolled.released_of_ne {k : ℕ} (hk : k ≠ index) (hparent : k ≠ parent) :
    z.snapshot.memory.inode k = v.snapshot.memory.inode k := by
  rw [(hreleases.spares k hk).memory_inode, (hrewrites.reworks.spares k hparent).memory_inode,
    h.snapshot, (spares_enrolled hk).memory_inode]

omit hrewrites in
theorem Enrolled.released_parent :
    z.snapshot.memory.inode parent = y.snapshot.memory.inode parent :=
  (hreleases.spares parent h.vacancy.ne.symm).memory_inode

theorem Enrolled.released_kin {k : ℕ} (hk : k ≠ index) :
    (z.snapshot.memory.inode k).Kin (v.snapshot.memory.inode k) := by
  by_cases hparent : k = parent
  · subst hparent
    rw [h.released_parent hreleases, ← h.memory_parent]
    exact hrewrites.reworks.memory_kin
  · rw [h.released_of_ne hrewrites hreleases hk hparent]
    exact ⟨rfl, rfl⟩

theorem Enrolled.released_inodeUsed :
    z.snapshot.memory.inodeUsed = v.snapshot.memory.inodeUsed := by
  funext k
  by_cases hk : k = index
  · subst hk
    rw [hreleases.memory_used, h.vacancy.lowest.clear]
  · have hsame := congrFun (hrewrites.reworks.inodeUsed .memory) k
    rw [image_memory, image_memory] at hsame
    rw [(hreleases.spares k hk).memory_used, hsame, h.snapshot, (spares_enrolled hk).memory_used]

theorem Enrolled.released_live (hw : v.snapshot.Sound g) :
    z.snapshot.live = v.snapshot.live := by
  funext k
  by_cases hk : k = index
  · subst hk
    rw [live, hreleases.memory_inode, live, h.vacancy.not_isLive hw]
    rfl
  · exact (h.released_kin hrewrites hreleases hk).isLive_eq

/-- A directory that has kept its size has kept its records. -/
theorem Enrolled.released_entries (hw : v.snapshot.Sound g) {outcome : Except Stop Unit}
    (happended : x.Appended parent (.named index leaf) outcome y)
    (hsize : (y.snapshot.memory.inode parent).size = (x.snapshot.memory.inode parent).size) :
    z.snapshot.entries = v.snapshot.entries := by
  have hnascent := h.nascent_of_rewrites hrewrites
  rw [hreleases.entries_eq hrewrites.sound hnascent.memory_size]
  rcases happended.entries_eq hw h.vacancy h.snapshot hrewrites with ⟨-, hmore⟩ | ⟨-, hkept⟩
  · have hdirectory : (y.snapshot.memory.inode parent).isDirectory = true :=
      hrewrites.reworks.memory_kin.isDirectory_eq.trans h.directory
    have hlength := hrewrites.sound.size_eq_length hdirectory
    rw [hsize, h.sound.size_eq_length h.directory, hmore, Function.update_self, h.snapshot,
      entries_enrolled hw h.vacancy.lowest, List.length_append, List.length_singleton,
      recordSize] at hlength
    omega
  · exact hkept

/-- **All is as it was** but for what is in the directory and the blocks. -/
theorem Enrolled.unmoved_of_released (hw : v.snapshot.Sound g) {outcome : Except Stop Unit}
    (happended : x.Appended parent (.named index leaf) outcome y)
    (hsize : (y.snapshot.memory.inode parent).size = (x.snapshot.memory.inode parent).size)
    (hused : z.snapshot.memory.blockUsed = v.snapshot.memory.blockUsed) :
    Unmoved g v.snapshot z.snapshot where
  inodeUsed := h.released_inodeUsed hrewrites hreleases
  blockUsed := hused
  live := h.released_live hrewrites hreleases hw
  entries := h.released_entries hrewrites hreleases hw happended hsize
  kin k hk := h.released_kin hrewrites hreleases (h.vacancy.lowest.ne_of_known hk)
  size k hk := by
    by_cases hparent : k = parent
    · subst hparent
      rw [h.released_parent hreleases, hsize, h.memory_parent]
    · rw [h.released_of_ne hrewrites hreleases (h.vacancy.lowest.ne_of_known hk) hparent]

/-- What an attempt to append the record has left is left in the end. -/
theorem Enrolled.givenUp_of_remains (hw : v.snapshot.Sound g)
    (hplace : v.snapshot.Place path parent leaf) {cause : VolumeError}
    (happended : x.Appended parent (.named index leaf) (.error (.error cause)) y)
    (hremains : x.Remains g parent (.error cause) y)
    (hwrites : x.device.writes = v.device.writes + 2) (hle : x.device.writes ≤ y.device.writes)
    (hused : z.snapshot.memory.blockUsed = y.snapshot.memory.blockUsed)
    (hlast : LawfulDevice.Failed y.device → z.device.writes = y.device.writes) :
    v.GivenUp g path (.error cause) z := by
  have hstored : x.snapshot.memory.blockUsed = v.snapshot.memory.blockUsed := by
    rw [h.snapshot]
    rfl
  cases hremains with
  | nothing _ hsize hkept hshort =>
    refine .clean (h.unmoved_of_released hrewrites hreleases hw happended hsize
      (hused.trans (hkept.trans hstored))) fun hstrands => ?_
    obtain ⟨hio, hstores⟩ := (strands_iff hplace).mp hstrands
    obtain ⟨hfailed, hfew⟩ := hshort hio
    rw [h.memory_parent] at hfew
    have hsame := hlast hfailed
    omega
  | something hfailed hmany hscar =>
    rw [h.memory_parent] at hmany hscar
    have hsame := hlast hfailed
    refine .scarred ((strands_iff hplace).mpr ⟨rfl, .inr (by omega)⟩) ?_
    rcases hscar with hsize | htakes
    · refine .directory hplace ?_
      rw [h.released_parent hreleases]
      exact hsize
    · refine .block ?_
      rwa [Takes, hstored, ← hused] at htakes

end Undoing

/-- **How entering a new entry fails.** -/
theorem enter_givenUp_ends (hv : v.Shaped g) (hw : v.snapshot.Sound g)
    (hplace : v.snapshot.Place path parent leaf) (hknown : v.snapshot.Known g parent)
    (hdirectory : (v.snapshot.memory.inode parent).isDirectory = true) (hkind : kind ≠ .free) :
    v.Ends (VolumeM.enter parent leaf kind) fun outcome w => ∀ stop, outcome = .error stop →
      v.GivenUp g path stop w := by
  unfold VolumeM.enter
  refine Ends.bind ((allocInode_ends hv kind parent).and
    (allocInode_counts_ends hv hw hkind parent)) ?_ ?_
  · rintro index x ⟨⟨hvx, hallocated⟩, ⟨-, hwrites⟩ | ⟨⟨⟩, -⟩ | ⟨⟨⟩, -⟩⟩
    cases hallocated with
    | handed index hlow hx =>
    have h := enrolled_of_lowestFree hw hknown hdirectory leaf hlow hvx hx
    refine Ends.attempt_bind ((h.append_ends.and
      (appendRecord_remains_ends hvx.shaped h.sound h.known _)).and
        (appendRecord_writes_ends hvx.shaped h.known.lt _)) ?_ ?_ ?_
    · rintro ⟨⟩ y - stop ⟨⟩
    · rintro cause y ⟨⟨⟨hrewrites, happended⟩, hremains⟩, hle⟩
      have hnascent := h.nascent_of_rewrites hrewrites
      have hshaped := hrewrites.continues.shaped
      have hwrites' : y.Ends (VolumeM.releaseInode index) fun _ z =>
          LawfulDevice.Failed y.device → z.device.writes = y.device.writes :=
        fun hfailed => releaseInode_writes_ends hshaped hnascent.known.lt hfailed
      have hend {z : Volume RamDisk} (hz : y.Releases g index z)
          (hused : z.snapshot.memory.blockUsed = y.snapshot.memory.blockUsed)
          (hlast : LawfulDevice.Failed y.device → z.device.writes = y.device.writes) :
          v.GivenUp g path (.error cause) z :=
        h.givenUp_of_remains hrewrites hz hw hplace happended (hremains _ rfl) hwrites hle
          hused hlast
      show y.Ends (discard (VolumeM.attempt (VolumeM.releaseInode index)) >>=
        fun _ => VolumeM.fail cause) _
      rw [discard_bind]
      refine Ends.attempt_bind (((releaseInode_ends hshaped hrewrites.sound hnascent).and
        (releaseInode_blockUsed_ends hshaped hnascent)).and hwrites') ?_ ?_ ?_
      · rintro _ z ⟨⟨⟨-, hz⟩, hused⟩, hlast⟩ stop ⟨⟩
        exact hend hz hused hlast
      · rintro _ z ⟨⟨⟨-, hz⟩, hused⟩, hlast⟩ stop ⟨⟩
        exact hend hz hused hlast
      · rintro z ⟨⟨⟨hstop, -⟩, -⟩, -⟩
        exact absurd rfl hstop
    · rintro y ⟨⟨⟨-, happended⟩, -⟩, -⟩
      cases happended
  · rintro stop x ⟨⟨-, hallocated⟩, ⟨⟨⟩, -⟩ | ⟨-, hwrites, hlive⟩ | ⟨⟨⟩, hwrites, hlive⟩⟩ _ ⟨⟩
    · refine givenUp_of_looked ?_ hwrites
      cases hallocated with
      | lost index hlow hfault hx =>
        rw [hx, live_enlisted hkind] at hlive
        have hdead : v.snapshot.live index = false := hw.not_isLive_of_lowestFree hlow
        rw [← hlive, Function.update_self] at hdead
        cases hdead
      | refused hfault hx => exact hx
      | full hfull hx => rw [hx]
    · exact .scarred ((strands_iff hplace).mpr ⟨rfl, .inl hwrites⟩) (.inode hlive)

theorem create_givenUp_ends (hv : v.Shaped g) (hw : v.snapshot.Sound g) (path : Text)
    (hkind : kind ≠ .free) :
    v.Ends (VolumeM.create path kind) fun outcome w => ∀ stop, outcome = .error stop →
      v.GivenUp g path stop w := by
  unfold VolumeM.create
  cases hleaf : Path.leafName path with
  | error cause => exact fun _ _ => givenUp_of_looked rfl rfl
  | ok leaf =>
  cases hsegments : Path.components path with
  | error cause => exact fun _ _ => givenUp_of_looked rfl rfl
  | ok segments =>
  show v.Ends (VolumeM.walk segments.dropLast >>= fun parent => _) _
  refine Ends.bind ((walk_ends hv hw segments.dropLast).and
    ((looks_walk segments.dropLast).writes_ends hv)) ?_ ?_
  · rintro parent x ⟨hread, hwrites⟩
    have hx := hread.snapshot
    have hparent := hread.answer_eq
    have hplace : v.snapshot.Place path parent leaf := ⟨hleaf, segments, hsegments, hparent⟩
    have hknown := hw.known_walk hparent
    rw [← hx] at hw hknown hplace
    show x.Ends (VolumeM.findInode parent >>= fun inode => _) _
    rw [ends_findInode_bind hread.continues.shaped hknown.lt]
    by_cases hdirectory : (x.snapshot.memory.inode parent).isDirectory = true
    · rw [hdirectory]
      refine (enter_givenUp_ends hread.continues.shaped hw hplace hknown hdirectory hkind).mono ?_
      exact fun outcome y h stop hstop => (h stop hstop).of_looked hx hwrites
    · rw [Bool.eq_false_iff.mpr hdirectory]
      exact fun _ _ => givenUp_of_looked hx hwrites
  · rintro stop x ⟨⟨-, hx, -⟩, hwrites⟩ _ -
    exact givenUp_of_looked hx hwrites

/-- **How touching a path or making a directory fails.** -/
theorem call_givenUp_ends (hv : v.Shaped g) (hw : v.snapshot.Sound g) (hmounted : v.mounted = true)
    (directory : Bool) (path : Text) :
    v.Ends (Call.create directory path).operation fun outcome w => ∀ stop, outcome = .error stop →
      v.GivenUp g path stop w := by
  have hcreate {x : Volume RamDisk} (hvx : v.Continues g x) (hx : x.snapshot = v.snapshot)
      (hwrites : x.device.writes = v.device.writes) {kind : InodeKind} (hkind : kind ≠ .free) :
      x.Ends (VolumeM.create path kind) fun outcome w => ∀ stop, outcome = .error stop →
        v.GivenUp g path stop w := by
    rw [← hx] at hw
    refine (create_givenUp_ends hvx.shaped hw path hkind).mono ?_
    exact fun outcome w h stop hstop => (h stop hstop).of_looked hx hwrites
  have hresolve := (resolve_ends hv hw path).and ((looks_resolve path).writes_ends hv)
  cases directory with
  | false =>
    show v.Ends (VolumeM.touch path) _
    unfold VolumeM.touch
    rw [ends_requireMounted_bind hmounted]
    refine Ends.attempt_bind hresolve ?_ ?_ ?_
    · rintro index x ⟨hread, hwrites⟩
      show x.Ends (VolumeM.findInode index >>= fun inode => _) _
      rw [ends_findInode_bind hread.continues.shaped (hw.known_resolve hread.answer_eq).lt]
      split
      · exact fun _ _ => givenUp_of_looked hread.snapshot hwrites
      · exact nofun
    · rintro cause x ⟨⟨hvx, hx, -⟩, hwrites⟩
      cases cause with
      | notFound => exact hcreate hvx hx hwrites (by decide)
      | _ => exact fun _ _ => givenUp_of_looked hx hwrites
    · rintro x ⟨⟨-, hx, -⟩, hwrites⟩ _ -
      exact givenUp_of_looked hx hwrites
  | true =>
    show v.Ends (VolumeM.mkdir path) _
    unfold VolumeM.mkdir
    rw [ends_requireMounted_bind hmounted]
    refine Ends.attempt_bind hresolve ?_ ?_ ?_
    · rintro index x ⟨⟨hvx, hx, -⟩, hwrites⟩ _ -
      exact givenUp_of_looked hx hwrites
    · rintro cause x ⟨⟨hvx, hx, -⟩, hwrites⟩
      cases cause with
      | notFound => exact hcreate hvx hx hwrites (by decide)
      | _ => exact fun _ _ => givenUp_of_looked hx hwrites
    · rintro x ⟨⟨-, hx, -⟩, hwrites⟩ _ -
      exact givenUp_of_looked hx hwrites

end Volume

namespace Session

variable {g : Geometry} {v : Volume RamDisk}

open Volume

/-- A mounted volume is ready once its disk is healed. -/
theorem ready_heal (hv : v.Standing g) (hmounted : v.mounted = true) :
    (Event.heal.apply v).Ready g := by
  obtain ⟨hshaped, hsound⟩ := hv.mounted hmounted
  have hsnapshot : (Event.heal.apply v).snapshot = v.snapshot := snapshot_of_fault rfl
  exact ⟨hmounted, shaped_of_fault hshaped rfl, hsnapshot ▸ hsound, rfl⟩

end Session

end PocketKernel
