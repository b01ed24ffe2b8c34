import Mathlib.Data.Set.Card
import PocketKernel.Proofs.Volume.Names
import PocketKernel.Proofs.Volume.Ownership

/-!
# Consistent volumes

As long as no transfer is refused, a volume that was formatted stays consistent, whatever is asked
of it and whether that succeeds or not: the inodes in use form a tree, every one of them has one
name and every name leads to one, and each block in use belongs to one of them.

## Main definitions

* `Snapshot.Climbs`, `Snapshot.Orderly`: the tree of inodes, as an invariant.
* `Volume.Intact`: all that is kept while no transfer is refused.
* `Volume.Consistent`: what that means.

## Main results

* `Volume.Intact.call`: every call keeps a volume intact.
* `Volume.consistent_of_formatted`: a volume that was formatted is consistent after any calls.
-/

namespace PocketKernel

/-- A bitmap counts the entries that are set. -/
theorem Bitmap.count_eq_ncard (map : Bitmap) :
    map.count = {index | map.isSet index = true}.ncard := by
  have hset : {index | map.isSet index = true}
      = ((List.range map.length).filter map.isSet).toFinset := by
    ext index
    rw [Set.mem_ofPred_eq, Finset.mem_coe, List.mem_toFinset, List.mem_filter, List.mem_range]
    exact ⟨fun h => ⟨lt_length_of_isSet h, h⟩, And.right⟩
  rw [hset, Set.ncard_coe_finset, List.toFinset_card_of_nodup (List.nodup_range.filter _), count,
    List.countP_eq_length_filter]

namespace Snapshot

variable {g : Geometry} {w w' : Snapshot} {index : ℕ} {x : Inode} {kind : InodeKind}

/-- The directory that an inode says it lies in. -/
def parent (w : Snapshot) (index : ℕ) : ℕ := (w.memory.inode index).parent.toNat

/-- From an inode upwards one comes to the root. -/
inductive Climbs (w : Snapshot) : ℕ → Prop
  | root : Climbs w 0
  | step {index : ℕ} : Climbs w (w.parent index) → Climbs w index

theorem Climbs.iterate (h : w.Climbs index) : ∃ steps, w.parent^[steps] index = 0 := by
  induction h with
  | root => exact ⟨0, rfl⟩
  | step _ ih =>
    obtain ⟨steps, hsteps⟩ := ih
    exact ⟨steps + 1, hsteps⟩

/-- **The tree of inodes.** -/
structure Orderly (g : Geometry) (w : Snapshot) : Prop where
  free : ∀ {index}, w.live index = false → w.memory.inode index = Inode.free
  used : ∀ {index}, w.memory.inodeUsed index = true → w.live index = true
  links : ∀ {index}, index ≠ 0 → w.live index = true → w.links g index = 1
  unnamed : ∀ {index}, w.live index = false → w.links g index = 0
  named : ∀ {index}, index ≠ 0 → w.live index = true →
    ∃ record ∈ w.entries (w.parent index), record.target.toNat = index
  climbs : ∀ {index}, w.live index = true → w.Climbs index

theorem Orderly.live_of_known (h : w.Orderly g) (hknown : w.Known g index) :
    w.live index = true :=
  h.used (hknown.used .memory)

/-- No record leads to an inode that is not in use. -/
theorem Orderly.live_of_mem_entries (ho : w.Orderly g) {record : DirectoryRecord}
    (hrecord : record ∈ w.entries index) (hlt : index < g.inodeCount) :
    w.live record.target.toNat = true := by
  have hpos := links_pos hrecord hlt
  by_contra hdead
  rw [ho.unnamed (Bool.eq_false_iff.mpr hdead)] at hpos
  exact absurd hpos (Nat.lt_irrefl 0)

/-- The way up stays, if live inodes keep their parents. -/
theorem Climbs.mono (hw : w.Sound g) (ho : w.Orderly g)
    (hparent : ∀ k, w.live k = true → w'.parent k = w.parent k) (h : w.Climbs index)
    (hlive : w.live index = true) : w'.Climbs index := by
  induction h with
  | root => exact .root
  | @step k _ ih =>
    refine .step ?_
    rw [hparent k hlive]
    exact ih (ho.live_of_known (hw.known_parent .memory k))

/-- What is left to check of a change that gives and takes no names. -/
theorem Orderly.of_same (hw : w.Sound g) (ho : w.Orderly g) (hentries : w'.entries = w.entries)
    (hlive : w'.live = w.live) (hparent : ∀ k, w.live k = true → w'.parent k = w.parent k)
    (hfree : ∀ k, w.live k = false → w'.memory.inode k = Inode.free)
    (hused : ∀ k, w'.memory.inodeUsed k = true → w.live k = true) : w'.Orderly g where
  free h := hfree _ (by rwa [hlive] at h)
  used h := by
    rw [hlive]
    exact hused _ h
  links hne h := by
    rw [hlive] at h
    rw [links_of_entries hentries]
    exact ho.links hne h
  unnamed h := by
    rw [hlive] at h
    rw [links_of_entries hentries]
    exact ho.unnamed h
  named hne h := by
    rw [hlive] at h
    rw [hentries, hparent _ h]
    exact ho.named hne h
  climbs h := by
    rw [hlive] at h
    exact (ho.climbs h).mono hw ho hparent h

/-- A name for an inode that comes to life. -/
theorem Orderly.of_entered (hw : w.Sound g) (ho : w.Orderly g) {directory : ℕ}
    {record : DirectoryRecord} (hdirectory : w.Known g directory)
    (hdead : w.live record.target.toNat = false)
    (hentries : w'.entries
      = Function.update w.entries directory (w.entries directory ++ [record]))
    (hlive : w'.live = Function.update w.live record.target.toNat true)
    (hparent : ∀ k, w.live k = true → w'.parent k = w.parent k)
    (hnew : w'.parent record.target.toNat = directory)
    (hfree : ∀ k, w'.live k = false → w'.memory.inode k = Inode.free)
    (hused : ∀ k, w'.memory.inodeUsed k = true → w'.live k = true) : w'.Orderly g := by
  have hlinks := links_append hdirectory.lt hentries
  have hold {k : ℕ} (hk : k ≠ record.target.toNat) (h : w'.live k = true) : w.live k = true := by
    rwa [hlive, Function.update_of_ne hk] at h
  have hclimbs {k : ℕ} (h : w.live k = true) : w'.Climbs k := (ho.climbs h).mono hw ho hparent h
  refine ⟨fun h => hfree _ h, fun h => hused _ h, fun {k} hne h => ?_, fun {k} h => ?_,
    fun {k} hne h => ?_, fun {k} h => ?_⟩
  · rw [hlinks]
    by_cases hk : k = record.target.toNat
    · rw [hk, ho.unnamed hdead, if_pos rfl]
    · rw [ho.links hne (hold hk h), if_neg (Ne.symm hk)]
  · have hk : k ≠ record.target.toNat := by
      rintro rfl
      rw [hlive, Function.update_self] at h
      cases h
    rw [hlive, Function.update_of_ne hk] at h
    rw [hlinks, ho.unnamed h, if_neg (Ne.symm hk)]
  · by_cases hk : k = record.target.toNat
    · refine ⟨record, ?_, hk.symm⟩
      rw [hk, hnew, hentries, Function.update_self]
      exact List.mem_append_right _ (List.mem_singleton_self _)
    · obtain ⟨r, hr, htarget⟩ := ho.named hne (hold hk h)
      refine ⟨r, ?_, htarget⟩
      rw [hparent k (hold hk h), hentries]
      by_cases hsame : w.parent k = directory
      · rw [hsame, Function.update_self]
        rw [hsame] at hr
        exact List.mem_append_left _ hr
      · rw [Function.update_of_ne hsame]
        exact hr
  · by_cases hk : k = record.target.toNat
    · refine .step ?_
      rw [hk, hnew]
      exact hclimbs (ho.live_of_known hdirectory)
    · exact hclimbs (hold hk h)

/-- The inodes after one was handed out and the directory that it lies in was worked on. -/
structure Joined (index directory : ℕ) (kind : InodeKind) (w w' : Snapshot) : Prop where
  self : w'.memory.inode index = Inode.empty kind (UInt32.ofNat directory)
  kin : ∀ k, k ≠ index → (w'.memory.inode k).Kin (w.memory.inode k)
  others : ∀ k, k ≠ index → k ≠ directory → w'.memory.inode k = w.memory.inode k
  used : ∀ k, k ≠ index → w'.memory.inodeUsed k = w.memory.inodeUsed k

theorem Reworks.joined {directory : ℕ} (hne : index ≠ directory)
    (h : (w.enrolled index (Inode.empty kind (UInt32.ofNat directory))).Reworks directory w') :
    Joined index directory kind w w' := by
  have hused := h.inodeUsed .memory
  rw [image_memory, image_memory] at hused
  refine ⟨?_, fun k hk => ?_, fun k hk hk' => ?_, fun k hk => ?_⟩
  · rw [(h.spares index hne).memory_inode, memory_enrolled]
  · have hkin := h.kin_memory k
    rwa [(spares_enrolled hk).memory_inode] at hkin
  · rw [(h.spares k hk').memory_inode, (spares_enrolled hk).memory_inode]
  · rw [hused, (spares_enrolled hk).memory_used]

theorem Joined.live_eq {directory k : ℕ} (h : Joined index directory kind w w') (hk : k ≠ index) :
    w'.live k = w.live k := (h.kin k hk).isLive_eq

theorem Joined.parent_eq {directory k : ℕ} (h : Joined index directory kind w w') (hk : k ≠ index) :
    w'.parent k = w.parent k := congrArg UInt32.toNat (h.kin k hk).2

theorem Joined.live {directory : ℕ} (h : Joined index directory kind w w') (hkind : kind ≠ .free) :
    w'.live = Function.update w.live index true := by
  funext k
  by_cases hk : k = index
  · subst hk
    rw [Function.update_self, Snapshot.live, h.self, Inode.isLive_empty hkind]
  · rw [Function.update_of_ne hk, h.live_eq hk]

/-- Inodes that are not in use stay free. -/
theorem Joined.free {directory k : ℕ} (h : Joined index directory kind w w') (ho : w.Orderly g)
    (hlive : w.live directory = true) (hk : k ≠ index) (hdead : w.live k = false) :
    w'.memory.inode k = Inode.free := by
  rw [h.others k hk (by rintro rfl; rw [hlive] at hdead; cases hdead)]
  exact ho.free hdead

/-- A new entry whose record is appended takes its place in the tree. -/
theorem Joined.orderly {directory : ℕ} {record : DirectoryRecord}
    (h : Joined index directory kind w w') (hw : w.Sound g) (ho : w.Orderly g)
    (hvacancy : w.Vacancy g directory index record) (hkind : kind ≠ .free)
    (hentries : w'.entries = Function.update w.entries directory
      (w.entries directory ++ [DirectoryRecord.ofBytes record.bytes])) : w'.Orderly g := by
  have htarget : (DirectoryRecord.ofBytes record.bytes).target.toNat = index := by
    rw [DirectoryRecord.target_ofBytes, hvacancy.target]
  have hdead : w.live index = false := hvacancy.not_isLive hw
  have hlive := h.live hkind
  refine ho.of_entered hw hvacancy.known ?_ hentries ?_ (fun k hk => h.parent_eq ?_) ?_
    (fun k hk => ?_) fun k hused => ?_
  · rw [htarget, hdead]
  · rw [htarget, hlive]
  · rintro rfl
    rw [hdead] at hk
    cases hk
  · rw [htarget, parent, h.self]
    exact g.toNat_ofNat_inode hvacancy.known.lt
  · have hne : k ≠ index := by
      rintro rfl
      rw [hlive, Function.update_self] at hk
      cases hk
    exact h.free ho (ho.live_of_known hvacancy.known) hne (by rw [← h.live_eq hne]; exact hk)
  · rw [hlive]
    by_cases hk : k = index
    · rw [hk, Function.update_self]
    · rw [Function.update_of_ne hk]
      exact ho.used (by rw [← h.used k hk]; exact hused)

/-- Handing out an inode that has no blocks settles the volume again. -/
theorem Settled.enrolled (hs : w.Settled) (hfree : w.memory.inode index = Inode.free) (x : Inode) :
    (w.enrolled index x).Settled := by
  have hother (k : ℕ) (hk : k ≠ index) : (w.enlisted index x).memory.inode k = w.memory.inode k :=
    memory_putInode_of_ne x hk
  have hinode : (w.enrolled index x).disk.inode = (w.enrolled index x).memory.inode := by
    refine disk_publish (w := w.enlisted index x) fun k hk => ?_
    rw [hother k hk, ← hs.synced]
    rfl
  have hblocks : w.disk.blockUsed = w.memory.blockUsed := by rw [hs.synced]
  have hnone (slot : ℕ) : (w.memory.inode index).blockAt slot = none := by
    rw [hfree, Inode.blockAt_free]
  exact ⟨Image.ext hinode rfl hblocks, hs.tight_of_others hnone hother rfl⟩

end Snapshot

namespace Volume

variable {δ : Type} [BlockDevice δ] [LawfulDevice δ] {g : Geometry} {v w x : Volume δ}
  {kind : InodeKind} {outcome : Except Stop Unit}

open Snapshot

/-! ### Calls -/

/-- A write to a file keeps the tree of inodes. -/
theorem Rewrites.orderly {index : ℕ} (hw : v.snapshot.Sound g) (ho : v.snapshot.Orderly g)
    (hknown : v.snapshot.Known g index)
    (hfile : (v.snapshot.memory.inode index).isDirectory = false) (h : v.Rewrites g index w) :
    w.snapshot.Orderly g := by
  refine ho.of_same hw (h.reworks.entries_of_file hw hfile) h.reworks.live_eq
    (fun k _ => congrArg UInt32.toNat (h.reworks.kin_memory k).2) (fun k hdead => ?_)
    fun k hused => ?_
  · have hk : k ≠ index := by
      rintro rfl
      rw [ho.live_of_known hknown] at hdead
      cases hdead
    rw [(h.reworks.spares k hk).memory_inode]
    exact ho.free hdead
  · refine ho.used ?_
    have hsame := h.reworks.inodeUsed .memory
    rw [image_memory, image_memory] at hsame
    rwa [hsame] at hused

/-- A new entry that was given up without a record leaves the tree as it was. -/
theorem Releases.orderly {directory index : ℕ} {record : DirectoryRecord} (hw : v.snapshot.Sound g)
    (ho : v.snapshot.Orderly g) (hvacancy : v.snapshot.Vacancy g directory index record)
    (hj : Joined index directory kind v.snapshot x.snapshot) (hx : x.snapshot.Sound g)
    (hkept : x.snapshot.entries = v.snapshot.entries) (h : x.Releases g index w) :
    w.snapshot.Orderly g := by
  have hdead : v.snapshot.live index = false := hvacancy.not_isLive hw
  have hparent := ho.live_of_known hvacancy.known
  have hinode (k : ℕ) (hk : k ≠ index) := (h.spares k hk).memory_inode
  have hentries : w.snapshot.entries = v.snapshot.entries := by
    refine (h.entries_eq hx ?_).trans hkept
    rw [hj.self]
    rfl
  have hlive : w.snapshot.live = v.snapshot.live :=
    h.live_eq hdead fun _ hk => hj.live_eq hk
  refine ho.of_same hw hentries hlive (fun k hk => ?_) (fun k hk => ?_) fun k hk => ?_
  · have hne : k ≠ index := by
      rintro rfl
      rw [hdead] at hk
      cases hk
    rw [parent, hinode k hne]
    exact hj.parent_eq hne
  · by_cases hne : k = index
    · rw [hne, h.memory_inode]
    · rw [hinode k hne]
      exact hj.free ho hparent hne hk
  · by_cases hne : k = index
    · rw [hne, h.memory_used] at hk
      cases hk
    · rw [(h.spares k hne).memory_used, hj.used k hne] at hk
      exact ho.used hk

/-- A new entry keeps the tree of inodes, unless a transfer is refused. -/
theorem Created.orderly (hw : v.snapshot.Sound g) (hs : v.snapshot.Settled)
    (ho : v.snapshot.Orderly g) (hdependable : LawfulDevice.Dependable v.device)
    (hkind : kind ≠ .free) (h : v.Created g kind outcome w) :
    w.snapshot.Orderly g ∧ w.snapshot.Settled := by
  have hjoined {x y : Volume δ} {directory index : ℕ} {record : DirectoryRecord}
      (hvacancy : v.snapshot.Vacancy g directory index record)
      (hx : x.snapshot = v.snapshot.enrolled index (Inode.empty kind (UInt32.ofNat directory)))
      (hrewrites : x.Rewrites g directory y) :
      Joined index directory kind v.snapshot y.snapshot := by
    have hreworks := hrewrites.reworks
    rw [hx] at hreworks
    exact hreworks.joined hvacancy.ne
  have hsettled {x y : Volume δ} {directory index : ℕ} {record : DirectoryRecord}
      (hvacancy : v.snapshot.Vacancy g directory index record) (hvx : v.Continues g x)
      (hx : x.snapshot = v.snapshot.enrolled index (Inode.empty kind (UInt32.ofNat directory)))
      (hrewrites : x.Rewrites g directory y) : y.snapshot.Settled := by
    have henrolled : x.snapshot.Settled := hx ▸ hs.enrolled (ho.free (hvacancy.not_isLive hw)) _
    exact (hrewrites.settled henrolled).resolve_left fun h => h.2 (hvx.dependable hdependable)
  cases h with
  | refused cause hsame =>
    rw [hsame]
    exact ⟨ho, hs⟩
  | lost hvacancy hfault hx => exact absurd hdependable hfault.2
  | entered hvacancy hvx hx hrewrites happended =>
    rcases happended.entries_eq hw hvacancy hx hrewrites with ⟨-, hentries⟩ | ⟨⟨⟩, -⟩
    exact ⟨(hjoined hvacancy hx hrewrites).orderly hw ho hvacancy hkind hentries,
      hsettled hvacancy hvx hx hrewrites⟩
  | undone cause hvacancy hvx hx hrewrites happended hreleases =>
    -- the record was not appended: only a refused transfer leaves one behind
    rcases happended.entries_eq hw hvacancy hx hrewrites with ⟨⟨⟨⟩⟩ | hfault, -⟩ | ⟨-, hkept⟩
    · exact absurd (hvx.dependable hdependable) hfault.2
    · have hdependable' := hrewrites.continues.dependable (hvx.dependable hdependable)
      have hy := hsettled hvacancy hvx hx hrewrites
      exact ⟨hreleases.orderly hw ho hvacancy (hjoined hvacancy hx hrewrites) hrewrites.sound hkept,
        (hreleases.settled hy).resolve_left fun h => h.2 hdependable'⟩

/-- All that is kept while no transfer is refused. -/
structure Intact (g : Geometry) (v : Volume δ) : Prop where
  mounted : v.mounted = true
  shaped : v.Shaped g
  sound : v.snapshot.Sound g
  settled : v.snapshot.Settled
  orderly : v.snapshot.Orderly g
  dependable : LawfulDevice.Dependable v.device

/-- **Every call keeps a volume intact.** -/
theorem Intact.call (h : v.Intact g) (asked : Call) : (v.run asked.operation).2.Intact g := by
  obtain ⟨hcontinues, heffect⟩ := call_ends h.shaped h.sound asked
  have hboth : (v.run asked.operation).2.snapshot.Orderly g
      ∧ (v.run asked.operation).2.snapshot.Settled := by
    generalize v.run asked.operation = result at hcontinues heffect
    obtain ⟨outcome, w⟩ := result
    cases heffect with
    | same hsame =>
      rw [show w.snapshot = v.snapshot from hsame]
      exact ⟨h.orderly, h.settled⟩
    | touched hcreated =>
      exact hcreated.orderly h.sound h.settled h.orderly h.dependable (by decide)
    | made hcreated => exact hcreated.orderly h.sound h.settled h.orderly h.dependable (by decide)
    | written hrun hresolve hrewrites =>
      obtain ⟨hresolved, hfile⟩ := of_resolveFile_eq_ok hresolve
      exact ⟨hrewrites.orderly h.sound h.orderly (h.sound.known_resolve hresolved) hfile,
        (hrewrites.settled h.settled).resolve_left fun hfault => hfault.2 h.dependable⟩
  exact ⟨hcontinues.mounted.trans h.mounted, hcontinues.shaped, heffect.sound h.sound, hboth.2,
    hboth.1, hcontinues.dependable h.dependable⟩

/-- The volume after several calls. -/
def called (v : Volume δ) (calls : List Call) : Volume δ :=
  calls.foldl (fun left call => (left.run call.operation).2) v

theorem Intact.called (h : v.Intact g) (calls : List Call) : (v.called calls).Intact g := by
  induction calls generalizing v with
  | nil => exact h
  | cons call calls ih => exact ih (h.call call)

/-! ### A fresh volume -/

theorem orderly_formatted (v : Volume δ) : v.formattedSnapshot.Orderly g := by
  have hentries (directory : ℕ) : v.formattedSnapshot.entries directory = [] :=
    entries_of_size (Image.size_formatted directory)
  have hlive (k : ℕ) : v.formattedSnapshot.live k = decide (k = 0) := Image.isLive_formatted k
  refine ⟨fun {k} h => ?_, fun {k} h => ?_, fun {k} hne h => ?_, fun {k} h => ?_,
    fun {k} hne h => ?_, fun {k} h => ?_⟩
  · rw [hlive, decide_eq_false_iff_not] at h
    exact if_neg h
  · rw [hlive]
    exact h
  · rw [hlive, decide_eq_true_eq] at h
    exact absurd h hne
  · refine Finset.sum_eq_zero fun directory _ => ?_
    rw [hentries]
    rfl
  · rw [hlive, decide_eq_true_eq] at h
    exact absurd h hne
  · rw [hlive, decide_eq_true_eq] at h
    rw [h]
    exact .root

/-- Mounting makes a volume where there is none. -/
theorem intact_mount (hgeometry : v.geometry = g) (hclosed : v.mounted = false)
    (hfits : g.startLba + g.totalSectors ≤ BlockDevice.capacity v.device)
    (hdependable : LawfulDevice.Dependable v.device) (hnone : ¬ v.snapshot.Loadable g) :
    (v.run VolumeM.mount).2.Intact g := by
  obtain ⟨hmounts, hstill⟩ := mount_ends hgeometry hclosed
  generalize v.run VolumeM.mount = result at hmounts hstill
  obtain ⟨outcome, w⟩ := result
  cases hmounts with
  | tooSmall hsmall => exact absurd hfits (Nat.not_le.mpr hsmall)
  | loaded hopen hshaped hload hw => exact absurd hload hnone
  | formatted hopen hshaped hnot hw =>
    change w.snapshot = _ at hw
    refine ⟨hopen, hshaped, ?_, ?_, ?_, hstill hdependable⟩
    · rw [hw]
      exact sound_formattedSnapshot hgeometry
    · rw [hw]
      exact ⟨rfl, fun h => by cases h⟩
    · rw [hw]
      exact orderly_formatted v
  | refused hnot hplaced hfault hsame => exact absurd hdependable hfault.2
  | interrupted hnot hplaced hfault hload hraw => exact absurd hdependable hfault.2

/-! ### What it means -/

/-- **A consistent volume.** -/
structure Consistent (g : Geometry) (v : Volume δ) : Prop where
  /-- An inode is marked exactly if it is live. -/
  marked : ∀ index, v.inodeMap.isSet index = true ↔ v.snapshot.live index = true
  /-- A directory consists of whole records that lead to live inodes. -/
  directory : ∀ index, (v.snapshot.memory.inode index).isDirectory = true →
    (v.snapshot.memory.inode index).size.toNat % recordSize = 0
      ∧ (v.snapshot.memory.inode index).size.toNat ≤ 4068
      ∧ ∀ record ∈ v.snapshot.records (v.snapshot.memory.inode index),
        v.snapshot.live record.target.toNat = true
  /-- Every live inode but the root has one name, in the directory that it says it lies in. -/
  named : ∀ index, v.snapshot.live index = true → index ≠ 0 → v.snapshot.links g index = 1
    ∧ ∃ record ∈ v.snapshot.entries (v.snapshot.parent index), record.target.toNat = index
  /-- From there the way goes up to the root, which is its own parent. -/
  climbs : ∀ index, v.snapshot.live index = true → ∃ steps, v.snapshot.parent^[steps] index = 0
  root : v.snapshot.live 0 = true ∧ v.snapshot.parent 0 = 0
  /-- A content is of limited size, and all of it has blocks. -/
  filled : ∀ index, (v.snapshot.memory.inode index).size.toNat ≤ maxFileSize
    ∧ ∀ slot, slot < ((v.snapshot.memory.inode index).size.toNat + 511) / 512 →
      ∃ block < g.dataBlocks, (v.snapshot.memory.inode index).blockAt slot = some block
  /-- A block is marked exactly if one slot of one live inode holds it. -/
  owned : ∀ block, v.blockMap.isSet block = true
    ↔ ∃! place : ℕ × ℕ, v.snapshot.memory.Claims place.1 place.2 block
  usage : v.usage = ⟨{index | v.snapshot.live index = true}.ncard, g.inodeCount,
    {block | ∃ index slot, v.snapshot.memory.Claims index slot block}.ncard, g.dataBlocks⟩
  /-- The device holds the same. -/
  stored : v.snapshot.disk = v.snapshot.memory

theorem Intact.claims_of_owns (h : v.Intact g) {index slot block : ℕ}
    (howns : v.snapshot.memory.Owns index slot block) :
    v.snapshot.memory.Claims index slot block := by
  refine ⟨?_, howns.2⟩
  by_contra hdead
  have hnone := howns.2
  rw [h.orderly.free (Bool.eq_false_iff.mpr hdead), Inode.blockAt_free] at hnone
  cases hnone

theorem Intact.marked_iff (h : v.Intact g) (index : ℕ) :
    v.inodeMap.isSet index = true ↔ v.snapshot.live index = true :=
  ⟨h.orderly.used, h.sound.live_used .memory⟩

theorem Intact.owned_iff (h : v.Intact g) (block : ℕ) :
    v.blockMap.isSet block = true ↔ ∃ index slot, v.snapshot.memory.Claims index slot block := by
  constructor
  · intro hmarked
    obtain ⟨index, slot, howns⟩ := h.settled.tight hmarked
    exact ⟨index, slot, h.claims_of_owns howns⟩
  · rintro ⟨index, slot, hclaims⟩
    exact h.sound.owned_used (c := .memory) .memory hclaims.owns

/-- The pointers that a size asks for are there. -/
theorem Intact.blockAt_of_size (h : v.Intact g) {index slot : ℕ}
    (hslot : slot < ((v.snapshot.memory.inode index).size.toNat + 511) / 512) :
    ∃ block < g.dataBlocks, (v.snapshot.memory.inode index).blockAt slot = some block := by
  have hlt : slot * sectorSize < (v.snapshot.memory.inode index).size.toNat := by
    simp only [sectorSize]
    omega
  obtain ⟨block, hblock⟩ :=
    Option.isSome_iff_exists.mp ((h.sound.filled .memory index).block _ hlt)
  rw [Nat.mul_div_cancel _ (by decide)] at hblock
  have hne : v.snapshot.memory.inode index ≠ Inode.blank := by
    cases hlive : v.snapshot.live index with
    | true => exact Inode.ne_blank_of_isLive hlive
    | false =>
      rw [h.orderly.free hlive]
      exact Inode.ne_blank_of_blockAt Inode.blockAt_free
  have howns : (v.snapshot.image .memory).Owns index slot block := ⟨hne, hblock⟩
  exact ⟨block, h.sound.owned_lt howns, hblock⟩

/-- A block that is marked is held once. -/
theorem Intact.owned_once (h : v.Intact g) (block : ℕ) : v.blockMap.isSet block = true
    ↔ ∃! place : ℕ × ℕ, v.snapshot.memory.Claims place.1 place.2 block := by
  rw [h.owned_iff]
  constructor
  · rintro ⟨index, slot, hclaims⟩
    refine ⟨(index, slot), hclaims, ?_⟩
    rintro ⟨index', slot'⟩ hclaims'
    have howns : (v.snapshot.image .memory).Owns index slot block := hclaims.owns
    have howns' : (v.snapshot.image .memory).Owns index' slot' block := hclaims'.owns
    obtain ⟨rfl, rfl⟩ := h.sound.owned_once howns' howns
    rfl
  · rintro ⟨⟨index, slot⟩, hclaims, -⟩
    exact ⟨index, slot, hclaims⟩

/-- **An intact volume is consistent.** -/
theorem Intact.consistent (h : v.Intact g) : v.Consistent g where
  marked := h.marked_iff
  directory index hdirectory := by
    have hmod := (h.sound.listing .memory hdirectory).size_mod
    have hle := (h.sound.filled .memory index).size_le
    rw [image_memory] at hmod hle
    refine ⟨hmod, ?_, fun record hrecord => ?_⟩
    · simp only [maxFileSize, recordSize] at hle hmod
      omega
    · have hentries : record ∈ v.snapshot.entries index := by
        rw [entries, if_pos hdirectory]
        exact hrecord
      exact h.orderly.live_of_mem_entries hentries
        (h.shaped.lt_of_live (Inode.isLive_of_isDirectory hdirectory))
  named index hlive hne := ⟨h.orderly.links hne hlive, h.orderly.named hne hlive⟩
  climbs index hlive := (h.orderly.climbs hlive).iterate
  root := by
    refine ⟨Inode.isLive_of_isDirectory (h.sound.root_directory .memory), ?_⟩
    exact congrArg UInt32.toNat (h.sound.root_parent .memory)
  filled index :=
    ⟨(h.sound.filled .memory index).size_le, fun _ hslot => h.blockAt_of_size hslot⟩
  owned := h.owned_once
  usage := by
    have hinodes : {index | v.inodeMap.isSet index = true}
        = {index | v.snapshot.live index = true} := Set.ext h.marked_iff
    have hblocks : {block | v.blockMap.isSet block = true}
        = {block | ∃ index slot, v.snapshot.memory.Claims index slot block} := Set.ext h.owned_iff
    rw [Volume.usage, Bitmap.count_eq_ncard, Bitmap.count_eq_ncard, hinodes, hblocks,
      h.shaped.length_inodeMap, h.shaped.length_blockMap]
  stored := h.settled.synced

/-- **Volumes are consistent while no transfer is refused.** If there is no volume of the geometry
on a dependable device, mounting makes one, and it is consistent after any calls. -/
theorem consistent_of_formatted (g : Geometry) (device : δ) (calls : List Call)
    (hfits : g.startLba + g.totalSectors ≤ BlockDevice.capacity device)
    (hdependable : LawfulDevice.Dependable device)
    (hnone : ¬ (Volume.unmounted device g).snapshot.Loadable g) :
    let v := (((Volume.unmounted device g).run VolumeM.mount).2).called calls
    v.mounted = true ∧ v.Consistent g := by
  intro v
  have hmounted := intact_mount (v := .unmounted device g) rfl rfl hfits hdependable hnone
  have hintact : v.Intact g := hmounted.called calls
  exact ⟨hintact.mounted, hintact.consistent⟩

/-- A blank disk, on which a file in a directory is made and written. -/
theorem consistent_of_blank :
    let v := (((Volume.unmounted (RamDisk.blank 20) .tiny).run VolumeM.mount).2).called
      [.mkdir ['/', 'a'], .touch ['/', 'a', '/', 'b'], .write ['/', 'a', '/', 'b'] 0 [1, 2] false,
        .mkdir ['/', 'a']]
    v.mounted = true ∧ v.Consistent .tiny :=
  consistent_of_formatted .tiny (RamDisk.blank 20) _ (by decide) rfl
    (Session.not_loadable_blank .tiny 20)

end Volume

end PocketKernel
