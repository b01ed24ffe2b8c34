import PocketKernel.Proofs.Volume.Answers
import PocketKernel.Proofs.Volume.Consistency

/-!
# Paths last

A volume only grows: an inode that paths can lead to keeps its kind and its parent, and a directory
keeps its records and gets more behind them. So a path that leads somewhere leads there for good,
whatever is asked of the volume and whether that succeeds or not, as long as no transfer is refused.

## Main definitions

* `Snapshot.Outgrows`: what may have come to a snapshot.

## Main results

* `Snapshot.Outgrows.resolve`: a path leads where it did.
* `Volume.Effect.outgrows`: every call lets the snapshot grow.
* `Volume.Intact.called_resolve`: paths last through any calls.
-/

namespace PocketKernel

namespace Snapshot

variable {g : Geometry} {directory index : ℕ} {name path : Text} {w w' w'' : Snapshot}

/-! ### Tidy directories -/

/-- No record is passed over. -/
theorem Orderly.filter_entries (ho : w.Orderly g) (hlt : directory < g.inodeCount) :
    (w.entries directory).filter (fun record => w.live record.target.toNat)
      = w.entries directory :=
  List.filter_eq_self.mpr fun _ hrecord => ho.live_of_mem_entries hrecord hlt

theorem Orderly.look_eq (ho : w.Orderly g) (hlt : directory < g.inodeCount)
    (hdirectory : (w.memory.inode directory).isDirectory = true) (name : Text) :
    w.look directory name
      = ((w.entries directory).find? (·.isNamed name)).map (·.target.toNat) := by
  have hfilter := ho.filter_entries hlt
  rw [entries, if_pos hdirectory] at hfilter ⊢
  exact congrArg (fun records => (records.find? (·.isNamed name)).map (·.target.toNat)) hfilter

/-! ### Snapshots that grow -/

/-- Inodes that paths can lead to are what they were and where they were, and records were at most
appended. -/
structure Outgrows (g : Geometry) (w w' : Snapshot) : Prop where
  kin : ∀ k, w.Known g k → (w'.memory.inode k).Kin (w.memory.inode k)
  entries : ∀ k, w.entries k <+: w'.entries k

namespace Outgrows

variable (h : Outgrows g w w') (hw : w.Sound g) (ho : w.Orderly g) (ho' : w'.Orderly g)
include h ho ho'

/-- What is found by a name is found still: what was appended stands behind it. -/
theorem look (hknown : w.Known g directory)
    (hdirectory : (w.memory.inode directory).isDirectory = true)
    (hfound : w.look directory name = some index) : w'.look directory name = some index := by
  have hdirectory' := (h.kin directory hknown).isDirectory_eq.trans hdirectory
  obtain ⟨more, hmore⟩ := h.entries directory
  rw [ho.look_eq hknown.lt hdirectory] at hfound
  obtain ⟨record, hrecord, -⟩ := Option.map_eq_some_iff.mp hfound
  rw [ho'.look_eq hknown.lt hdirectory', ← hmore, List.find?_append, hrecord, Option.some_or,
    ← hrecord, hfound]

theorem step (hknown : w.Known g directory) {segment : Text}
    (hstep : w.step directory segment = .ok index) : w'.step directory segment = .ok index := by
  have hkin := h.kin directory hknown
  unfold Snapshot.step at hstep ⊢
  rw [hkin.isDirectory_eq, hkin.2]
  by_cases hdirectory : (w.memory.inode directory).isDirectory = true
  · rw [if_pos hdirectory] at hstep ⊢
    by_cases hdots : segment = ['.', '.']
    · rw [if_pos hdots] at hstep ⊢
      exact hstep
    · rw [if_neg hdots] at hstep ⊢
      cases hlook : w.look directory segment with
      | none =>
        rw [hlook] at hstep
        cases hstep
      | some target =>
        rw [hlook] at hstep
        rw [h.look ho ho' hknown hdirectory hlook]
        exact hstep
  · rw [if_neg hdirectory] at hstep
    cases hstep

include hw

theorem walkFrom {segments : List Text} (hknown : w.Known g directory)
    (hwalk : w.walkFrom directory segments = .ok index) :
    w'.walkFrom directory segments = .ok index := by
  induction segments generalizing directory with
  | nil => exact hwalk
  | cons segment segments ih =>
    rw [Snapshot.walkFrom, List.foldlM_cons] at hwalk ⊢
    cases hstep : w.step directory segment with
    | error cause =>
      rw [hstep] at hwalk
      cases hwalk
    | ok next =>
      rw [hstep] at hwalk
      rw [h.step ho ho' hknown hstep]
      exact ih (hw.known_step hstep) hwalk

/-- **Paths lead where they did.** -/
theorem resolve (hresolve : w.resolve path = .ok index) : w'.resolve path = .ok index := by
  unfold Snapshot.resolve at hresolve ⊢
  cases hsegments : Path.components path with
  | error cause =>
    rw [hsegments] at hresolve
    cases hresolve
  | ok segments =>
    rw [hsegments] at hresolve
    exact h.walkFrom hw ho ho' hw.known_root hresolve

end Outgrows

/-! ### What lets a snapshot grow -/

/-- No call takes a record away. -/
theorem Names.prefix_entries {outcome : Except Stop Unit} (h : w.Names g outcome w') (k : ℕ) :
    w.entries k <+: w'.entries k := by
  have hupdate {parent : ℕ} {record : DirectoryRecord}
      (hentries : w'.entries = Function.update w.entries parent (w.entries parent ++ [record])) :
      w.entries k <+: w'.entries k := by
    rw [hentries]
    by_cases hk : k = parent
    · rw [hk, Function.update_self]
      exact List.prefix_append ..
    · rw [Function.update_of_ne hk]
  cases h with
  | kept hentries _ => rw [hentries]
  | lost _ _ hentries _ => rw [hentries]
  | entered _ _ hentries _ => exact hupdate hentries
  | stale _ _ _ hentries _ => exact hupdate hentries

end Snapshot

namespace Volume

variable {δ : Type} [BlockDevice δ] [LawfulDevice δ] {g : Geometry} {v w : Volume δ}
  {kind : InodeKind} {outcome : Except Stop Unit} {index k : ℕ} {path : Text}

open Snapshot

/-- Creating an entry changes neither the kind nor the parent of another inode. -/
theorem Created.kin (h : v.Created g kind outcome w) (hknown : v.snapshot.Known g k) :
    (w.snapshot.memory.inode k).Kin (v.snapshot.memory.inode k) := by
  have hrework {x y : Volume δ} {parent index : ℕ} {record : DirectoryRecord}
      (hvacancy : v.snapshot.Vacancy g parent index record)
      (hx : x.snapshot = v.snapshot.enrolled index (Inode.empty kind (UInt32.ofNat parent)))
      (hrewrites : x.Rewrites g parent y) :
      (y.snapshot.memory.inode k).Kin (v.snapshot.memory.inode k) := by
    have hreworks := hrewrites.reworks
    rw [hx] at hreworks
    exact (hreworks.joined hvacancy.ne).kin k (hvacancy.lowest.ne_of_known hknown)
  cases h with
  | refused cause hsame =>
    rw [hsame]
    exact ⟨rfl, rfl⟩
  | lost hvacancy hfault hx =>
    rw [hx, (spares_enlisted (hvacancy.lowest.ne_of_known hknown)).memory_inode]
    exact ⟨rfl, rfl⟩
  | entered hvacancy hvx hx hrewrites happended => exact hrework hvacancy hx hrewrites
  | undone cause hvacancy hvx hx hrewrites happended hreleases =>
    rw [(hreleases.spares k (hvacancy.lowest.ne_of_known hknown)).memory_inode]
    exact hrework hvacancy hx hrewrites

/-- **Every call lets the snapshot grow.** -/
theorem Effect.outgrows {asked : Call} (hw : v.snapshot.Sound g) (h : v.Effect g asked outcome w) :
    v.snapshot.Outgrows g w.snapshot := by
  refine ⟨fun k hknown => ?_, (h.names hw).prefix_entries⟩
  cases h with
  | same hsame =>
    rw [hsame]
    exact ⟨rfl, rfl⟩
  | touched hcreated => exact hcreated.kin hknown
  | made hcreated => exact hcreated.kin hknown
  | written hrun hresolve hrewrites => exact hrewrites.reworks.kin_memory k

/-- **A call leaves paths where they lead**, and what they lead to of the kind that it is. -/
theorem Intact.call_resolve (h : v.Intact g) (asked : Call)
    (hresolve : v.snapshot.resolve path = .ok index) :
    (v.run asked.operation).2.snapshot.resolve path = .ok index
      ∧ ((v.run asked.operation).2.snapshot.memory.inode index).kind
        = (v.snapshot.memory.inode index).kind := by
  have hgrows : v.snapshot.Outgrows g (v.run asked.operation).2.snapshot :=
    (call_ends h.shaped h.sound asked).2.outgrows h.sound
  exact ⟨hgrows.resolve h.sound h.orderly (h.call asked).orderly hresolve,
    (hgrows.kin index (h.sound.known_resolve hresolve)).1⟩

/-- **Paths last through any calls.** -/
theorem Intact.called_resolve (h : v.Intact g) (calls : List Call)
    (hresolve : v.snapshot.resolve path = .ok index) :
    (v.called calls).snapshot.resolve path = .ok index
      ∧ ((v.called calls).snapshot.memory.inode index).kind
        = (v.snapshot.memory.inode index).kind := by
  induction calls generalizing v with
  | nil => exact ⟨hresolve, rfl⟩
  | cons call calls ih =>
    obtain ⟨hresolve', hkind⟩ := h.call_resolve call hresolve
    obtain ⟨hlast, hkinds⟩ := ih (h.call call) hresolve'
    exact ⟨hlast, hkinds.trans hkind⟩

end Volume

end PocketKernel
