import Mathlib.Algebra.BigOperators.Group.Finset.Piecewise
import Mathlib.Algebra.Order.BigOperators.Group.Finset
import PocketKernel.Proofs.Volume.Calls

/-!
# The names of inodes

The names of an inode are the records of live directories that lead to it. Operations on a volume
never remove a record, so names only come: one for every entry that is created, and one for an entry
that could be appended to its directory in memory but was given up because it could not be stored.

## Main definitions

* `Snapshot.entries`: the records of a directory in memory.
* `Snapshot.links`: how many records lead to an inode.
* `Snapshot.Names`: what a call does to names.

## Main results

* `Volume.Effect.names`: every call does one of four things to names.
* `Snapshot.Names.links_eq`: the names of a live inode never change.
-/

namespace PocketKernel

namespace Snapshot

variable {g : Geometry} {w w' : Snapshot} {index parent : ℕ} {kind : InodeKind}

/-- The records of a directory in memory; none, if it is something else. -/
def entries (w : Snapshot) (directory : ℕ) : List DirectoryRecord :=
  if (w.memory.inode directory).isDirectory then w.records (w.memory.inode directory) else []

/-- How many records of all directories lead to an inode. -/
def links (g : Geometry) (w : Snapshot) (index : ℕ) : ℕ :=
  ∑ directory ∈ Finset.range g.inodeCount,
    (w.entries directory).countP fun record => record.target.toNat = index

/-! ### Records -/

theorem entries_of_size (h : (w.memory.inode index).size = 0) : w.entries index = [] := by
  unfold entries
  split
  · exact records_of_size h
  · rfl

theorem entries_of_not_isDirectory (h : (w.memory.inode index).isDirectory = false) :
    w.entries index = [] := by
  simp [entries, h]

theorem Spares.entries_eq (hw : w.Sound g) (h : Spares index w w') :
    w'.entries index = w.entries index := by
  rw [entries, entries, h.memory_inode]
  by_cases hdirectory : (w.memory.inode index).isDirectory = true
  · have hrecords := h.records_eq hw hdirectory
    rw [h.memory_inode] at hrecords
    rw [if_pos hdirectory, if_pos hdirectory, hrecords]
  · rw [if_neg hdirectory, if_neg hdirectory]

/-- The records lead to inodes other than the root. -/
theorem Sound.target_of_mem_entries (hw : w.Sound g) {record : DirectoryRecord}
    (h : record ∈ w.entries index) :
    record.target.toNat < g.inodeCount ∧ record.target.toNat ≠ 0 := by
  unfold entries at h
  split at h
  · rename_i hdirectory
    have hlisting := hw.listing .memory hdirectory
    exact ⟨hlisting.target_lt record h, hlisting.target_ne_zero record h⟩
  · cases h

theorem Sound.ne_blank_of_mem_entries (hw : w.Sound g) {record : DirectoryRecord}
    (h : record ∈ w.entries index) : w.memory.inode record.target.toNat ≠ Inode.blank := by
  unfold entries at h
  split at h
  · rename_i hdirectory
    exact hw.written ((hw.listing .memory hdirectory).target_stored record h)
  · cases h

/-- A new inode has no records, and takes none from others. -/
theorem entries_enlisted (hw : w.Sound g) (hlow : w.LowestFree g index) (parent : UInt32) :
    (w.enlisted index (Inode.empty kind parent)).entries = w.entries := by
  funext k
  by_cases hk : k = index
  · subst hk
    have hdead : (w.memory.inode k).isDirectory = false := by
      by_contra hdirectory
      have hlive := Inode.isLive_of_isDirectory (by simpa using hdirectory)
      rw [hw.not_isLive_of_lowestFree hlow] at hlive
      cases hlive
    rw [entries_of_not_isDirectory hdead, entries_of_size (by rw [memory_enlisted]; rfl)]
  · exact (spares_enlisted hk).entries_eq hw

theorem entries_enrolled (hw : w.Sound g) (hlow : w.LowestFree g index) (parent : UInt32) :
    (w.enrolled index (Inode.empty kind parent)).entries = w.entries :=
  entries_enlisted hw hlow parent

/-- The records of a directory that was worked on, and of no other, may have become more. -/
theorem Reworks.entries_eq (hw : w.Sound g) (h : Reworks index w w')
    (hdirectory : (w.memory.inode index).isDirectory = true) {more : List DirectoryRecord}
    (hrecords : w'.records (w'.memory.inode index) = w.records (w.memory.inode index) ++ more) :
    w'.entries = Function.update w.entries index (w.entries index ++ more) := by
  funext k
  by_cases hk : k = index
  · subst hk
    have hdirectory' : (w'.memory.inode k).isDirectory = true := by
      rw [h.memory_kin.isDirectory_eq, hdirectory]
    rw [Function.update_self, entries, entries, if_pos hdirectory', if_pos hdirectory, hrecords]
  · rw [Function.update_of_ne hk, (h.spares k hk).entries_eq hw]

/-- Writing to a file changes no records. -/
theorem Reworks.entries_of_file (hw : w.Sound g) (h : Reworks index w w')
    (hfile : (w.memory.inode index).isDirectory = false) : w'.entries = w.entries := by
  funext k
  by_cases hk : k = index
  · subst hk
    rw [entries_of_not_isDirectory hfile,
      entries_of_not_isDirectory (h.memory_kin.isDirectory_eq.trans hfile)]
  · exact (h.spares k hk).entries_eq hw

/-! ### Counting -/

theorem links_of_entries (h : w'.entries = w.entries) : w'.links g index = w.links g index := by
  rw [links, links, h]

theorem links_zero (hw : w.Sound g) : w.links g 0 = 0 := by
  refine Finset.sum_eq_zero fun directory _ => ?_
  rw [List.countP_eq_zero]
  intro record hrecord
  simpa using (hw.target_of_mem_entries hrecord).2

theorem links_pos {directory : ℕ} {record : DirectoryRecord} (h : record ∈ w.entries directory)
    (hlt : directory < g.inodeCount) : 0 < w.links g record.target.toNat := by
  have hcount : 0 < (w.entries directory).countP
      fun r => r.target.toNat = record.target.toNat := by
    rw [List.countP_pos_iff]
    exact ⟨record, h, decide_eq_true rfl⟩
  have hle := Finset.single_le_sum (f := fun d => (w.entries d).countP fun r =>
    r.target.toNat = record.target.toNat) (fun _ _ => Nat.zero_le _) (Finset.mem_range.mpr hlt)
  exact Nat.lt_of_lt_of_le hcount hle

/-- A record in one directory counts for the inode that it leads to. -/
theorem links_append (hlt : parent < g.inodeCount) {record : DirectoryRecord}
    (h : w'.entries = Function.update w.entries parent (w.entries parent ++ [record])) (index : ℕ) :
    w'.links g index = w.links g index + if record.target.toNat = index then 1 else 0 := by
  have hcount (directory : ℕ) :
      (w'.entries directory).countP (fun r => r.target.toNat = index)
        = (w.entries directory).countP (fun r => r.target.toNat = index)
          + if directory = parent then if record.target.toNat = index then 1 else 0 else 0 := by
    rw [h]
    by_cases hdirectory : directory = parent
    · subst hdirectory
      simp [List.countP_append, List.countP_singleton]
    · simp [hdirectory]
  rw [links, links, Finset.sum_congr rfl fun directory _ => hcount directory,
    Finset.sum_add_distrib, Finset.sum_ite_eq', if_pos (Finset.mem_range.mpr hlt)]

/-! ### What calls do to names -/

/-- An inode is in use, as the memory says. -/
def live (w : Snapshot) (index : ℕ) : Bool := (w.memory.inode index).isLive

theorem live_enlisted (hkind : kind ≠ .free) (parent : UInt32) :
    (w.enlisted index (Inode.empty kind parent)).live = Function.update w.live index true := by
  funext k
  by_cases hk : k = index
  · subst hk
    rw [Function.update_self, live, memory_enlisted, Inode.isLive_empty hkind]
  · rw [Function.update_of_ne hk, live, (spares_enlisted hk).memory_inode, live]

theorem Reworks.live_eq (h : Reworks index w w') : w'.live = w.live :=
  funext fun k => (h.kin_memory k).isLive_eq

/-- What a call does to names. -/
inductive Names (g : Geometry) (w : Snapshot) : Except Stop Unit → Snapshot → Prop
  /-- Nothing. -/
  | kept {outcome : Except Stop Unit} {w' : Snapshot} : w'.entries = w.entries →
      w'.live = w.live → Names g w outcome w'
  /-- An inode came to life and got no name. -/
  | lost {w' : Snapshot} {index : ℕ} (cause : VolumeError) : w.live index = false →
      w'.entries = w.entries → w'.live = Function.update w.live index true →
      Names g w (.error (.error cause)) w'
  /-- An inode came to life and got a name. -/
  | entered {w' : Snapshot} {parent : ℕ} {record : DirectoryRecord} : parent < g.inodeCount →
      w.live record.target.toNat = false →
      w'.entries = Function.update w.entries parent (w.entries parent ++ [record]) →
      w'.live = Function.update w.live record.target.toNat true → Names g w (.ok ()) w'
  /-- An inode got a name, but is not alive. -/
  | stale {w' : Snapshot} {parent : ℕ} {record : DirectoryRecord} (cause : VolumeError) :
      parent < g.inodeCount → w.live record.target.toNat = false →
      w'.entries = Function.update w.entries parent (w.entries parent ++ [record]) →
      w'.live = w.live → Names g w (.error (.error cause)) w'

/-- An inode that is alive stays so, and its names stay the same. -/
theorem Names.links_eq {outcome : Except Stop Unit} (h : w.Names g outcome w')
    (hlive : w.live index = true) : w'.live index = true ∧ w'.links g index = w.links g index := by
  have hne {k : ℕ} (hdead : w.live k = false) : k ≠ index := by
    rintro rfl
    rw [hdead] at hlive
    cases hlive
  cases h with
  | kept hentries hsame => exact ⟨by rw [hsame]; exact hlive, links_of_entries hentries⟩
  | lost cause hdead hentries hnew =>
    refine ⟨?_, links_of_entries hentries⟩
    rw [hnew, Function.update_of_ne (hne hdead).symm]
    exact hlive
  | entered hlt hdead hentries hnew =>
    refine ⟨?_, ?_⟩
    · rw [hnew, Function.update_of_ne (hne hdead).symm]
      exact hlive
    · rw [links_append hlt hentries, if_neg (hne hdead), Nat.add_zero]
  | stale cause hlt hdead hentries hsame =>
    refine ⟨by rw [hsame]; exact hlive, ?_⟩
    rw [links_append hlt hentries, if_neg (hne hdead), Nat.add_zero]

/-- An inode that comes to life gets a name exactly if the call succeeds. -/
theorem Names.links_new {outcome : Except Stop Unit} (h : w.Names g outcome w')
    (hdead : w.live index = false) (hlive : w'.live index = true) :
    w'.links g index = w.links g index + if outcome.isOk then 1 else 0 := by
  have heq {k : ℕ} (hnew : w'.live = Function.update w.live k true) : k = index := by
    by_contra hne
    rw [hnew, Function.update_of_ne (Ne.symm hne), hdead] at hlive
    cases hlive
  cases h with
  | kept hentries hsame =>
    rw [hsame, hdead] at hlive
    cases hlive
  | lost cause hdead' hentries hnew => exact links_of_entries hentries
  | entered hlt hdead' hentries hnew => rw [links_append hlt hentries, if_pos (heq hnew)]; rfl
  | stale cause hlt hdead' hentries hsame =>
    rw [hsame, hdead] at hlive
    cases hlive

end Snapshot

namespace Volume

variable {δ : Type} [BlockDevice δ] [LawfulDevice δ] {g : Geometry} {v w : Volume δ}
  {kind : InodeKind} {outcome : Except Stop Unit}

open Snapshot

/-- A live inode lies in the table. -/
theorem Shaped.lt_of_live (hv : v.Shaped g) {index : ℕ} (h : v.snapshot.live index = true) :
    index < g.inodeCount := by
  by_contra hge
  have hnone : v.inodes[index]? = none := by
    rw [Array.getElem?_eq_none_iff, hv.size_inodes]
    exact Nat.le_of_not_lt hge
  rw [Snapshot.live, ← getD_isLive, hnone] at h
  cases h

/-- A directory with a record lies in the table. -/
theorem Shaped.lt_of_getElem?_entries (hv : v.Shaped g) {directory k : ℕ} {record : DirectoryRecord}
    (h : (v.snapshot.entries directory)[k]? = some record) : directory < g.inodeCount := by
  refine hv.lt_of_live ?_
  by_contra hdead
  have hnot : (v.snapshot.memory.inode directory).isDirectory = false := by
    by_contra hdirectory
    exact hdead (Inode.isLive_of_isDirectory (by simpa using hdirectory))
  rw [Snapshot.entries_of_not_isDirectory hnot] at h
  cases h

/-- An inode without content that is taken back takes no records with it. -/
theorem Releases.entries_eq {index : ℕ} (hw : v.snapshot.Sound g)
    (hsize : (v.snapshot.memory.inode index).size = 0) (h : v.Releases g index w) :
    w.snapshot.entries = v.snapshot.entries := by
  funext k
  by_cases hk : k = index
  · subst hk
    rw [entries_of_size hsize, entries_of_size (by rw [h.memory_inode]; rfl)]
  · exact (h.spares k hk).entries_eq hw

/-- An inode that is taken back is no longer live, so all is as it was before it was handed out. -/
theorem Releases.live_eq {u : Snapshot} {index : ℕ} (hdead : u.live index = false)
    (hlive : ∀ k, k ≠ index → v.snapshot.live k = u.live k) (h : v.Releases g index w) :
    w.snapshot.live = u.live := by
  funext k
  by_cases hk : k = index
  · rw [hk, hdead, live, h.memory_inode]
    rfl
  · rw [← hlive k hk, live, (h.spares k hk).memory_inode, live]

/-- What becomes of names when a record is appended for a new inode. -/
theorem Appended.entries_eq {parent index : ℕ} {record : DirectoryRecord} {x : Volume δ}
    (hw : v.snapshot.Sound g) (hvacancy : v.snapshot.Vacancy g parent index record)
    (hx : x.snapshot = v.snapshot.enrolled index (Inode.empty kind (UInt32.ofNat parent)))
    (hrewrites : x.Rewrites g parent w) (h : x.Appended parent record outcome w) :
    ((outcome.isOk = true ∨ x.Faulted w)
        ∧ w.snapshot.entries = Function.update v.snapshot.entries parent
          (v.snapshot.entries parent ++ [DirectoryRecord.ofBytes record.bytes]))
      ∨ (outcome.isOk = false ∧ w.snapshot.entries = v.snapshot.entries) := by
  have hsound : x.snapshot.Sound g := by
    rw [hx]
    exact hvacancy.sound_enrolled hw kind
  have hentries : x.snapshot.entries = v.snapshot.entries := by
    rw [hx]
    exact entries_enrolled hw hvacancy.lowest _
  have hdirectory : (x.snapshot.memory.inode parent).isDirectory = true := by
    rw [hx]
    exact hvacancy.directory_enrolled _
  rw [← hentries]
  cases h with
  | stored hrecords =>
    exact .inl ⟨.inl rfl, hrewrites.reworks.entries_eq hsound hdirectory hrecords⟩
  | unstored hfault hrecords =>
    exact .inl ⟨.inr hfault, hrewrites.reworks.entries_eq hsound hdirectory hrecords⟩
  | none cause hrecords =>
    have hmore := hrewrites.reworks.entries_eq hsound hdirectory
      (hrecords.trans (List.append_nil _).symm)
    rw [List.append_nil, Function.update_eq_self] at hmore
    exact .inr ⟨rfl, hmore⟩

theorem Created.names (hw : v.snapshot.Sound g) (hkind : kind ≠ .free)
    (h : v.Created g kind outcome w) : v.snapshot.Names g outcome w.snapshot := by
  have hdead {parent index : ℕ} {record : DirectoryRecord}
      (hvacancy : v.snapshot.Vacancy g parent index record) :
      v.snapshot.live (DirectoryRecord.ofBytes record.bytes).target.toNat = false := by
    rw [DirectoryRecord.target_ofBytes, hvacancy.target]
    exact hvacancy.not_isLive hw
  have hlive {parent index : ℕ} {record : DirectoryRecord} {x y : Volume δ}
      (hvacancy : v.snapshot.Vacancy g parent index record)
      (hx : x.snapshot = v.snapshot.enrolled index (Inode.empty kind (UInt32.ofNat parent)))
      (hrewrites : x.Rewrites g parent y) :
      y.snapshot.live = Function.update v.snapshot.live index true := by
    rw [hrewrites.reworks.live_eq, hx]
    exact live_enlisted hkind _
  cases h with
  | refused cause hsame => exact .kept (by rw [hsame]) (by rw [hsame])
  | lost hvacancy hfault hx =>
    rw [hx]
    exact .lost _ (hvacancy.not_isLive hw)
      (entries_enlisted hw hvacancy.lowest _) (live_enlisted hkind _)
  | entered hvacancy hvx hx hrewrites happended =>
    have hnew := hlive hvacancy hx hrewrites
    rcases happended.entries_eq hw hvacancy hx hrewrites with ⟨-, hentries⟩ | ⟨⟨⟩, -⟩
    rw [← hvacancy.target, ← DirectoryRecord.target_ofBytes] at hnew
    exact .entered hvacancy.known.lt (hdead hvacancy) hentries hnew
  | @undone _ x y parent index record cause hvacancy hvx hx hrewrites happended hreleases =>
    have hne : index ≠ parent := hvacancy.ne
    have hsize : (y.snapshot.memory.inode index).size = 0 := by
      rw [(hrewrites.reworks.spares index hne).memory_inode, hx, memory_enrolled]
      rfl
    have hentries := hreleases.entries_eq hrewrites.sound hsize
    have hsame : w.snapshot.live = v.snapshot.live :=
      hreleases.live_eq (hvacancy.not_isLive hw) fun k hk => by
        rw [hlive hvacancy hx hrewrites, Function.update_of_ne hk]
    rcases happended.entries_eq hw hvacancy hx hrewrites with ⟨-, hmore⟩ | ⟨-, hkept⟩
    · exact .stale _ hvacancy.known.lt (hdead hvacancy) (hentries.trans hmore) hsame
    · exact .kept (hentries.trans hkept) hsame

/-- **Every call does one of four things to names.** -/
theorem Effect.names {asked : Call} (hw : v.snapshot.Sound g) (h : v.Effect g asked outcome w) :
    v.snapshot.Names g outcome w.snapshot := by
  cases h with
  | same hsame => exact .kept (by rw [hsame]) (by rw [hsame])
  | touched hcreated => exact hcreated.names hw (by decide)
  | made hcreated => exact hcreated.names hw (by decide)
  | written hrun hresolve hrewrites =>
    obtain ⟨-, hfile⟩ := of_resolveFile_eq_ok hresolve
    refine .kept (hrewrites.reworks.entries_of_file hw hfile) (funext fun k => ?_)
    exact (hrewrites.reworks.kin_memory k).isLive_eq

end Volume

end PocketKernel
