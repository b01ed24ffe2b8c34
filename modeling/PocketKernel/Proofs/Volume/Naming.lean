import Mathlib.Data.List.Induction
import PocketKernel.Proofs.Volume.Names
import PocketKernel.Proofs.Volume.Session

/-!
# Names that lead to one inode

No operation gives a second name to an inode that is alive. But an entry that was given up may leave
its record behind, and when its inode is handed out again, the old name leads to the new entry. This
is the only way in which two names come to lead to one live inode: a session is free of such pairs
exactly as long as no call takes an inode that records still lead to.

## Main definitions

* `Snapshot.Unaliased`: no live inode has two names.
* `Volume.Reuses`: a call takes an inode that has a name already.

## Main results

* `Session.unaliased_iff`: when a session without crashes is free of pairs of names.
* `Session.aliased_after_fault`: that some are not.
-/

namespace PocketKernel

/-- Two positions of a list at which something holds. -/
theorem two_le_countP {α : Type} {p : α → Bool} {l : List α} {j k : ℕ} {a b : α}
    (ha : l[j]? = some a) (hb : l[k]? = some b) (hlt : j < k) (hpa : p a = true)
    (hpb : p b = true) : 2 ≤ l.countP p := by
  have hfront : 0 < (l.take k).countP p := by
    rw [List.countP_pos_iff]
    refine ⟨a, List.mem_of_getElem? (i := j) ?_, hpa⟩
    rw [List.getElem?_take_of_lt hlt, ha]
  have hback : 0 < (l.drop k).countP p := by
    rw [List.countP_pos_iff]
    refine ⟨b, List.mem_of_getElem? (i := 0) ?_, hpb⟩
    rw [List.getElem?_drop, Nat.add_zero, hb]
  rw [← List.take_append_drop k l, List.countP_append]
  omega

namespace Snapshot

variable {g : Geometry} {w : Snapshot} {directory directory' k k' : ℕ}
  {record record' : DirectoryRecord}

/-- No live inode has two names. -/
def Unaliased (g : Geometry) (w : Snapshot) : Prop :=
  ∀ index, w.live index = true → w.links g index ≤ 1

theorem unaliased_of_entries (h : ∀ directory, w.entries directory = []) : w.Unaliased g := by
  intro index _
  rw [links, Finset.sum_eq_zero fun directory _ => ?_]
  · exact Nat.zero_le 1
  · rw [h directory]
    rfl

/-- Two records that lead to one inode are counted twice. -/
theorem two_le_links (hrecord : (w.entries directory)[k]? = some record)
    (hrecord' : (w.entries directory')[k']? = some record')
    (hlt : directory < g.inodeCount) (hlt' : directory' < g.inodeCount)
    (hne : (directory, k) ≠ (directory', k'))
    (htarget : record.target.toNat = record'.target.toNat) :
    2 ≤ w.links g record.target.toNat := by
  have hcount {d j : ℕ} {r : DirectoryRecord} (hr : (w.entries d)[j]? = some r)
      (hsame : r.target.toNat = record.target.toNat) :
      0 < (w.entries d).countP fun r => r.target.toNat = record.target.toNat := by
    rw [List.countP_pos_iff]
    exact ⟨r, List.mem_of_getElem? hr, decide_eq_true hsame⟩
  rw [links]
  by_cases hdirectory : directory = directory'
  · subst hdirectory
    have hle : (w.entries directory).countP (fun r => r.target.toNat = record.target.toNat)
        ≤ ∑ d ∈ Finset.range g.inodeCount,
          (w.entries d).countP fun r => r.target.toNat = record.target.toNat :=
      Finset.single_le_sum (f := fun d => (w.entries d).countP fun r =>
        r.target.toNat = record.target.toNat) (fun _ _ => Nat.zero_le _) (Finset.mem_range.mpr hlt)
    refine Nat.le_trans ?_ hle
    have hk : k ≠ k' := fun h => hne (by rw [h])
    rcases Nat.lt_or_gt_of_ne hk with hk | hk
    · exact two_le_countP hrecord hrecord' hk (decide_eq_true rfl) (decide_eq_true htarget.symm)
    · exact two_le_countP hrecord' hrecord hk (decide_eq_true htarget.symm) (decide_eq_true rfl)
  · have hpair := Finset.sum_le_sum_of_subset (f := fun d => (w.entries d).countP fun r =>
      r.target.toNat = record.target.toNat)
      (s := {directory, directory'}) (t := Finset.range g.inodeCount) (by
        intro d hd
        rw [Finset.mem_insert, Finset.mem_singleton] at hd
        rcases hd with rfl | rfl
        · exact Finset.mem_range.mpr hlt
        · exact Finset.mem_range.mpr hlt')
    rw [Finset.sum_pair hdirectory] at hpair
    have hone := hcount hrecord rfl
    have hother := hcount hrecord' htarget.symm
    omega

end Snapshot

namespace Volume

variable {δ : Type} [BlockDevice δ] [LawfulDevice δ] {g : Geometry} {v w : Volume δ}

/-- A call takes an inode to which a record leads already, besides the one that it appends. -/
def Reuses (g : Geometry) (v : Volume δ) (call : Call) : Prop :=
  ∃ index, v.snapshot.live index = false ∧ (v.run call.operation).2.snapshot.live index = true
    ∧ 1 < v.snapshot.links g index + if (v.run call.operation).1.isOk then 1 else 0

/-- Only a call that reuses an inode gives two names to one. -/
theorem unaliased_call (hv : v.Standing g) (hmounted : v.mounted = true)
    (hu : v.snapshot.Unaliased g) (call : Call) :
    (v.run call.operation).2.snapshot.Unaliased g ↔ ¬ v.Reuses g call := by
  obtain ⟨hshaped, hsound⟩ := hv.mounted hmounted
  have hnames := (call_ends hshaped hsound call).2.names hsound
  constructor
  · rintro h ⟨index, hdead, hlive, hlinks⟩
    rw [← hnames.links_new hdead hlive] at hlinks
    exact absurd (h index hlive) (Nat.not_le.mpr hlinks)
  · intro hfresh index hlive
    cases hdead : v.snapshot.live index with
    | true =>
      rw [(hnames.links_eq hdead).2]
      exact hu index hdead
    | false =>
      rw [hnames.links_new hdead hlive]
      by_contra hlinks
      exact hfresh ⟨index, hdead, hlive, Nat.lt_of_not_le hlinks⟩

/-- A write through one of two records leaves what the other leads to as it is. -/
def NamesApart (v : Volume δ) : Prop :=
  ∀ {directory directory' k k' : ℕ} {record record' : DirectoryRecord},
    (v.snapshot.entries directory)[k]? = some record →
    (v.snapshot.entries directory')[k']? = some record' → (directory, k) ≠ (directory', k') →
    v.snapshot.live record.target.toNat = true →
    ∀ {path : Text}, (v.run (VolumeM.resolve path)).1 = .ok record.target.toNat →
    ∀ (offset : ℕ) (data : List UInt8) (truncate : Bool),
      let w := (v.run (VolumeM.write path offset data truncate)).2
      w.snapshot.memory.inode record'.target.toNat = v.snapshot.memory.inode record'.target.toNat
        ∧ w.snapshot.content (w.snapshot.memory.inode record'.target.toNat)
          = v.snapshot.content (v.snapshot.memory.inode record'.target.toNat)

/-- **Different names are different files**, while no inode has two of them. -/
theorem Shaped.namesApart (hv : v.Shaped g) (hw : v.snapshot.Sound g)
    (hu : v.snapshot.Unaliased g) : v.NamesApart := by
  intro directory directory' k k' record record' hrecord hrecord' hne hlive path hresolve offset
    data truncate w
  have htarget : record'.target.toNat ≠ record.target.toNat := by
    intro hsame
    have htwo := Snapshot.two_le_links hrecord hrecord' (hv.lt_of_getElem?_entries hrecord)
      (hv.lt_of_getElem?_entries hrecord') hne hsame.symm
    have hone := hu _ hlive
    omega
  have hspares : v.snapshot.Spares record'.target.toNat w.snapshot := by
    rcases (write_ends hv hw path offset data truncate).2 with ⟨hsame, -⟩
      | ⟨index, hrun, -, hrewrites, -⟩
    · rw [show w.snapshot = v.snapshot from hsame]
      exact .refl _ _
    · rw [hresolve] at hrun
      cases hrun
      exact hrewrites.reworks.spares _ htarget
  exact ⟨hspares.memory_inode, hspares.content_eq hw
    (hw.ne_blank_of_mem_entries (List.mem_of_getElem? hrecord'))⟩

/-- A volume that was just mounted for the first time has no records. -/
theorem Mounts.entries_eq_nil {outcome : Except Stop Unit} (hraw : v.snapshot.Raw)
    (hclosed : v.mounted = false) (h : v.Mounts g outcome w) (hopen : w.mounted = true)
    (directory : ℕ) : w.snapshot.entries directory = [] := by
  refine Snapshot.entries_of_size ?_
  cases h with
  | tooSmall hsmall =>
    rw [hclosed] at hopen
    cases hopen
  | loaded hmounted hshaped hload hw =>
    rw [hw]
    exact hraw.size_eq .memory directory
  | formatted hmounted hshaped hnot hw =>
    rw [hw]
    exact Image.size_formatted directory
  | refused hnot hplaced hfault hsame =>
    rw [hnot] at hopen
    cases hopen
  | interrupted hnot hplaced hfault hload hraw =>
    rw [hnot] at hopen
    cases hopen

/-- Until a volume is mounted for the first time, its device stays raw. -/
theorem Mounts.raw {outcome : Except Stop Unit} (hraw : v.snapshot.Raw)
    (h : v.Mounts g outcome w) (hclosed : w.mounted = false) : w.snapshot.Raw := by
  cases h with
  | tooSmall hsmall => exact hraw
  | loaded hmounted hshaped hload hw =>
    rw [hmounted] at hclosed
    cases hclosed
  | formatted hmounted hshaped hnot hw =>
    rw [hmounted] at hclosed
    cases hclosed
  | refused hnot hplaced hfault hsame => exact hraw.of_crash hsame
  | interrupted hnot hplaced hfault hload hraw' => exact hraw' hraw

/-- What can be said of a volume that was not dropped yet: until it is mounted its device is raw,
and then no inode has two names. -/
structure Fresh (g : Geometry) (v : Volume δ) : Prop where
  standing : v.Standing g
  raw : v.mounted = false → v.snapshot.Raw
  unaliased : v.mounted = true → v.snapshot.Unaliased g

end Volume

namespace Session

variable {g : Geometry} {v : Volume RamDisk}

/-! ### Sessions without crashes -/

theorem fresh_blank (g : Geometry) (count : ℕ) :
    (Volume.unmounted (RamDisk.blank count) g).Fresh g :=
  ⟨standing_blank g count, fun _ => raw_blank g count, (fun h => by cases h)⟩

theorem fresh_of_fault (hv : v.Fresh g) {disk : RamDisk}
    (hsectors : disk.sectors = v.device.sectors) : { v with device := disk }.Fresh g := by
  have hsnapshot := snapshot_of_fault hsectors
  refine ⟨standing_of_fault hv.standing hsectors, ?_, ?_⟩
  · rw [hsnapshot]
    exact hv.raw
  · rw [hsnapshot]
    exact hv.unaliased

/-- A volume stays fresh until it is dropped, or a call reuses an inode. -/
theorem fresh_apply (hv : v.Fresh g) {event : Event} (hcrash : event ≠ .crash)
    (hreuses : ∀ call, event = .call call → ¬ v.Reuses g call) : (event.apply v).Fresh g := by
  have hstanding := standing_apply hv.standing event
  cases event with
  | mount =>
    show (v.run VolumeM.mount).2.Fresh g
    cases hmounted : v.mounted with
    | true =>
      rw [Volume.mount_mounted hmounted]
      exact hv
    | false =>
      have hmounts := (Volume.mount_ends hv.standing.geometry hmounted).1
      have hraw := hv.raw hmounted
      exact ⟨hstanding, hmounts.raw hraw, fun hopen =>
        Snapshot.unaliased_of_entries (hmounts.entries_eq_nil hraw hmounted hopen)⟩
  | call asked =>
    show (v.run asked.operation).2.Fresh g
    cases hmounted : v.mounted with
    | false =>
      rw [Volume.call_unmounted hmounted]
      exact hv
    | true =>
      obtain ⟨hshaped, hsound⟩ := hv.standing.mounted hmounted
      have hopen := (Volume.call_ends hshaped hsound asked).1.mounted.trans hmounted
      refine ⟨hstanding, fun hclosed => ?_, fun _ => ?_⟩
      · rw [hopen] at hclosed
        cases hclosed
      · exact (Volume.unaliased_call hv.standing hmounted (hv.unaliased hmounted) asked).mpr
          (hreuses asked rfl)
  | failAfter transfers => exact fresh_of_fault hv rfl
  | heal => exact fresh_of_fault hv rfl
  | crash => exact absurd rfl hcrash

theorem fresh_after (g : Geometry) (count : ℕ) {events : List Event} (hcrash : .crash ∉ events)
    (hreuses : ∀ earlier call, earlier ++ [.call call] <+: events →
      ¬ (after g count earlier).Reuses g call) : (after g count events).Fresh g := by
  induction events using List.reverseRecOn with
  | nil => exact fresh_blank g count
  | append_singleton events event ih =>
    rw [List.mem_append, List.mem_singleton, not_or] at hcrash
    rw [after_append]
    have hbefore := ih hcrash.1 fun earlier call hfront =>
      hreuses earlier call (hfront.trans (List.prefix_append _ _))
    refine fresh_apply hbefore (Ne.symm hcrash.2) ?_
    rintro call rfl
    exact hreuses events call (List.prefix_refl _)

/-- No inode has two names exactly as long as no call takes an inode that a record still leads
to. -/
theorem unaliased_iff (g : Geometry) (count : ℕ) {events : List Event} (hcrash : .crash ∉ events) :
    (∀ earlier, earlier <+: events → (after g count earlier).mounted = true →
        (after g count earlier).snapshot.Unaliased g)
      ↔ ∀ earlier call, earlier ++ [.call call] <+: events →
        ¬ (after g count earlier).Reuses g call := by
  constructor
  · intro hall earlier call hfront hreuses
    have hstanding := standing g count earlier
    have hbefore := hall earlier ((List.prefix_append _ _).trans hfront)
    have hafter := hall (earlier ++ [.call call]) hfront
    rw [after_append] at hafter
    change ((after g count earlier).run call.operation).2.mounted = true →
      ((after g count earlier).run call.operation).2.snapshot.Unaliased g at hafter
    generalize after g count earlier = v at *
    cases hmounted : v.mounted with
    | false =>
      obtain ⟨index, hdead, hlive, -⟩ := hreuses
      rw [Volume.call_unmounted hmounted, hdead] at hlive
      cases hlive
    | true =>
      obtain ⟨hshaped, hsound⟩ := hstanding.mounted hmounted
      have hopen := (Volume.call_ends hshaped hsound call).1.mounted.trans hmounted
      exact (Volume.unaliased_call hstanding hmounted (hbefore hmounted) call).mp (hafter hopen)
        hreuses
  · intro hreuses earlier hfront hmounted
    exact (fresh_after g count (fun h => hcrash (hfront.subset h)) fun front call hcall =>
      hreuses front call (hcall.trans hfront)).unaliased hmounted

/-- **When different names are different files.** While a volume is not dropped, no record leads to
its root. No live inode has two names exactly as long as no call takes an inode that a record still
leads to; and while none has, what is written through one record leaves alone what another one leads
to. -/
theorem names_apart_iff (g : Geometry) (count : ℕ) (events : List Event)
    (hcrash : .crash ∉ events) :
    (∀ earlier, earlier <+: events → (after g count earlier).mounted = true →
        (after g count earlier).snapshot.links g 0 = 0)
      ∧ ((∀ earlier, earlier <+: events → (after g count earlier).mounted = true →
          (after g count earlier).snapshot.Unaliased g)
        ↔ ∀ earlier call, earlier ++ [.call call] <+: events →
          ¬ (after g count earlier).Reuses g call)
      ∧ ∀ earlier, earlier <+: events → (after g count earlier).mounted = true →
        (after g count earlier).snapshot.Unaliased g →
        (after g count earlier).NamesApart := by
  refine ⟨fun earlier _ hmounted => ?_, unaliased_iff g count hcrash,
    fun earlier _ hmounted hu => ?_⟩
  · exact Snapshot.links_zero ((standing g count earlier).mounted hmounted).2
  · obtain ⟨hshaped, hsound⟩ := (standing g count earlier).mounted hmounted
    exact hshaped.namesApart hsound hu

/-- A file whose record is appended in memory but not stored, and another one after it. -/
def twoFiles : List Event :=
  [.mount, .failAfter 4, .call (.touch ['/', 'a']), .heal, .call (.touch ['/', 'b'])]

theorem names_apart_iff_twoFiles :
    (∀ earlier, earlier <+: twoFiles → (after .tiny 20 earlier).mounted = true →
        (after .tiny 20 earlier).snapshot.Unaliased .tiny)
      ↔ ∀ earlier call, earlier ++ [.call call] <+: twoFiles →
        ¬ (after .tiny 20 earlier).Reuses .tiny call :=
  (names_apart_iff .tiny 20 twoFiles (by simp [twoFiles])).2.1

/-- **Different names may be one file.** The entry that was given up leads to the file that was made
after it, and what is written to the one is read from the other. -/
theorem aliased_after_fault :
    (after .tiny 20 twoFiles).mounted = true
      ∧ (after .tiny 20 twoFiles).snapshot.live 1 = true
      ∧ (after .tiny 20 twoFiles).snapshot.links .tiny 1 = 2
      ∧ ((after .tiny 20 twoFiles).run (VolumeM.read ['/', 'a'] 0 8)).1 = .ok []
      ∧ ((after .tiny 20 (twoFiles ++ [.call (.write ['/', 'b'] 0 [66] false)])).run
        (VolumeM.read ['/', 'a'] 0 8)).1 = .ok [66] :=
  ⟨by decide +kernel, by decide +kernel, by decide +kernel,
    eq_ok_of_toOption (by decide +kernel), eq_ok_of_toOption (by decide +kernel)⟩

end Session

end PocketKernel
