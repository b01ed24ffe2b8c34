import PocketKernel.Proofs.Volume.Confined
import PocketKernel.Proofs.Volume.Names

/-!
# What clients are told

Besides the content of files, clients see a volume through `stat` and `list`. What these answer is a
function of the snapshot as well, and it depends on little: where paths lead, the records of
directories, which inodes are live, and the kinds and sizes of inodes.

## Main definitions

* `Snapshot.statOf`, `Snapshot.lines`: what is told of an inode, and of the entries of a directory.
* `Snapshot.stat`, `Snapshot.list`: the answers.
* `Volume.Untouched`: no copy and no sector has changed.

## Main results

* `Volume.stat_ends`, `Volume.list_ends`: the answers are given, or a transfer was refused.
* `Snapshot.resolve_congr`: what the way along a path depends on.
-/

namespace PocketKernel

namespace Snapshot

variable {g : Geometry} {index : ℕ} {w w' : Snapshot}

/-- What is told of an inode. -/
def statOf (w : Snapshot) (index : ℕ) : FileStat :=
  ⟨index, (w.memory.inode index).isDirectory, (w.memory.inode index).size.toNat⟩

/-- What is told of a record. -/
def lineOf (w : Snapshot) (record : DirectoryRecord) : DirectoryEntry :=
  ⟨record.name.take Path.nameLimit, w.statOf record.target.toNat⟩

/-- What is told of a directory: a line for each record that is not stale. -/
def lines (w : Snapshot) (directory : ℕ) : List DirectoryEntry :=
  ((w.entries directory).filter fun record => w.live record.target.toNat).map w.lineOf

/-- What is told of the file or directory at a path. -/
def stat (w : Snapshot) (path : Text) : Except VolumeError FileStat :=
  (w.resolve path).map w.statOf

/-- What is listed at a path: the lines of a directory, or the one for a file. -/
def list (w : Snapshot) (path : Text) : Except VolumeError (List DirectoryEntry) :=
  (w.resolve path).map fun index =>
    if (w.memory.inode index).isDirectory then w.lines index
    else [⟨(Text.utf8 (Path.basename path)).take Path.nameLimit, w.statOf index⟩]

/-- What one step along a path depends on. -/
theorem step_congr (hkin : (w'.memory.inode index).Kin (w.memory.inode index))
    (hentries : w'.entries = w.entries) (hlive : w'.live = w.live) (segment : Text) :
    w'.step index segment = w.step index segment := by
  have hrecords := congrFun hentries index
  have hlook (k : ℕ) : (w'.memory.inode k).isLive = (w.memory.inode k).isLive :=
    congrFun hlive k
  simp only [entries, hkin.isDirectory_eq] at hrecords
  simp only [step, hkin.isDirectory_eq, hkin.2]
  by_cases hdirectory : (w.memory.inode index).isDirectory = true
  · rw [if_pos hdirectory, if_pos hdirectory] at hrecords
    simp only [look, hrecords, hlook]
  · rw [if_neg hdirectory, if_neg hdirectory]

/-- Paths lead where they did as long as directories have the same records, and inodes the same
kinds and parents. -/
theorem resolve_congr (hkin : ∀ k, (w'.memory.inode k).Kin (w.memory.inode k))
    (hentries : w'.entries = w.entries) (path : Text) : w'.resolve path = w.resolve path := by
  have hlive : w'.live = w.live := funext fun k => (hkin k).isLive_eq
  have hstep : w'.step = w.step :=
    funext₂ fun current segment => step_congr (hkin current) hentries hlive segment
  simp only [resolve, walk, walkFrom, hstep]

theorem resolveFile_congr (hkin : ∀ k, (w'.memory.inode k).Kin (w.memory.inode k))
    (hentries : w'.entries = w.entries) (path : Text) :
    w'.resolveFile path = w.resolveFile path := by
  simp only [resolveFile, resolve_congr hkin hentries, fun k => (hkin k).isDirectory_eq]

end Snapshot

namespace Volume

variable {δ α β : Type} [BlockDevice δ] [LawfulDevice δ] {g : Geometry} {v w x : Volume δ}
  {index : ℕ}

open Snapshot

/-! ### The answers -/

/-- A row of steps that read gives the row of their answers. -/
theorem Reads.mapM (hv : v.Shaped g) {step : β → VolumeM δ α} {answer : β → α} (items : List β)
    (hstep : ∀ item ∈ items, ∀ x : Volume δ, v.Keeps g x →
      x.Ends (step item) fun outcome y => x.Reads g (.ok (answer item)) outcome y) :
    v.Ends (items.mapM step) fun outcome w => v.Reads g (.ok (items.map answer)) outcome w := by
  induction items generalizing v with
  | nil => exact hv.reads (.ok [])
  | cons item items ih =>
    rw [List.mapM_cons]
    refine Reads.bind (hstep item List.mem_cons_self v ⟨hv.continues, rfl⟩) ?_
      fun _ h => by cases h
    rintro first ⟨⟩ x hvx hx
    refine Reads.bind (ih hvx.shaped fun other hother y hxy => ?_) ?_ fun _ h => by cases h
    · exact hstep other (List.mem_cons_of_mem _ hother) y
        ⟨hvx.trans hxy.1, hxy.2.trans hx⟩
    · rintro rest ⟨⟩ y hxy hy
      exact hxy.shaped.reads (.ok (answer item :: items.map answer))

theorem statOf_ends (hv : v.Shaped g) (hlt : index < g.inodeCount) :
    v.Ends (VolumeM.statOf index) fun outcome w =>
      v.Reads g (.ok (v.snapshot.statOf index)) outcome w := by
  unfold VolumeM.statOf
  rw [ends_findInode_bind hv hlt]
  exact hv.reads _

theorem entryFor_ends (hv : v.Shaped g) (name : List UInt8) (hlt : index < g.inodeCount) :
    v.Ends (VolumeM.entryFor name index) fun outcome w =>
      v.Reads g (.ok ⟨name.take Path.nameLimit, v.snapshot.statOf index⟩) outcome w := by
  unfold VolumeM.entryFor
  refine Reads.bind (statOf_ends hv hlt) ?_ fun _ h => by cases h
  rintro stat ⟨⟩ w hvw hsnapshot
  exact hvw.shaped.reads _

/-- **What is told of a path.** -/
theorem stat_ends (hv : v.Shaped g) (hw : v.snapshot.Sound g) (hmounted : v.mounted = true)
    (path : Text) : v.Ends (VolumeM.stat path) fun outcome w =>
      v.Reads g (v.snapshot.stat path) outcome w := by
  unfold VolumeM.stat Snapshot.stat
  rw [ends_requireMounted_bind hmounted]
  refine Reads.bind (resolve_ends hv hw path) ?_ ?_
  · intro found hfound w hvw hsnapshot
    rw [hfound, ← hsnapshot]
    exact statOf_ends hvw.shaped (hw.known_resolve hfound).lt
  · intro cause h
    rw [h]
    rfl

/-- The lines of a directory are read from its records. -/
theorem lines_ends (hv : v.Shaped g) (hw : v.snapshot.Sound g) (hknown : v.snapshot.Known g index)
    (hdirectory : (v.snapshot.memory.inode index).isDirectory = true) :
    v.Ends (VolumeM.liveRecords index >>= fun live =>
      live.mapM fun record => VolumeM.entryFor record.name record.target.toNat) fun outcome w =>
      v.Reads g (.ok (v.snapshot.lines index)) outcome w := by
  have hlive := liveRecords_ends hv hw hknown
  rw [if_pos hdirectory] at hlive
  refine Reads.bind hlive ?_ fun _ h => by cases h
  rintro live ⟨⟩ w hvw hsnapshot
  rw [lines, entries, if_pos hdirectory]
  refine Reads.mapM hvw.shaped _ fun record hrecord x hwx => ?_
  have hlt := (hw.listing .memory hdirectory).target_lt record (List.mem_filter.mp hrecord).1
  rw [lineOf, ← hsnapshot, ← hwx.2]
  exact entryFor_ends hwx.1.shaped record.name hlt

/-- **What is listed at a path.** -/
theorem list_ends (hv : v.Shaped g) (hw : v.snapshot.Sound g) (hmounted : v.mounted = true)
    (path : Text) : v.Ends (VolumeM.list path) fun outcome w =>
      v.Reads g (v.snapshot.list path) outcome w := by
  unfold VolumeM.list Snapshot.list
  rw [ends_requireMounted_bind hmounted]
  refine Reads.bind (resolve_ends hv hw path) ?_ ?_
  · intro found hfound w hvw hsnapshot
    have hknown := hw.known_resolve hfound
    rw [hfound, ends_findInode_bind hvw.shaped hknown.lt]
    rw [← hsnapshot] at hw hknown ⊢
    by_cases hdirectory : (w.snapshot.memory.inode found).isDirectory = true
    · simp only [hdirectory, if_true, Except.map]
      exact lines_ends hvw.shaped hw hknown hdirectory
    · simp only [hdirectory, if_false, Except.map, Bool.false_eq_true]
      refine Reads.bind (entryFor_ends hvw.shaped _ hknown.lt) ?_ fun _ h => by cases h
      rintro entry ⟨⟩ x hwx hx
      exact hwx.shaped.reads _
  · intro cause h
    rw [h]
    rfl

/-! ### Looking changes nothing -/

/-- No copy and no sector has changed. -/
def Untouched (v w : Volume δ) : Prop :=
  w = { v with device := w.device } ∧ ∀ lba, w.sectorAt lba = v.sectorAt lba

theorem Untouched.refl (v : Volume δ) : v.Untouched v := ⟨rfl, fun _ => rfl⟩

theorem Untouched.trans (h : v.Untouched w) (h' : w.Untouched x) : v.Untouched x := by
  refine ⟨?_, fun lba => (h'.2 lba).trans (h.2 lba)⟩
  rw [h'.1, h.1]

theorem Looks.untouched {operation : VolumeM δ α} {P : α → Prop} (h : Looks g operation P)
    (hv : v.Shaped g) : v.Ends operation fun _ w => v.Untouched w := by
  refine (h.ends hv.sized).mono ?_
  rintro outcome w ⟨hcopies, hasked, -⟩
  exact ⟨hcopies, fun lba => hasked.glance_eq glance_sectorAt id⟩

end Volume

end PocketKernel
