import PocketKernel.Proofs.Volume.Folding

/-!
# The line of a file and its line in the directory

A file has a line in the listing of its directory, and a listing of the file itself is one line as
well. Both tell the same of the inode, because there is no other record of it. The names come from
different places: the first is the stored one, and the second is taken from the path.

The walk has followed the last segment of the path that counts, and that is the stored name. What is
shown is the last one that is not empty. They differ if the path ends in `.`, and only then.

## Main results

* `Path.basename_eq_or`: the last segment that is not empty, and the last that counts.
* `Snapshot.Orderly.filter_lines`: a file has one line in its directory.
* `Volume.file_listed_iff`: the two lines of a file.
-/

namespace PocketKernel

/-- What is shown as the name of a path is the last segment that a walk follows, or `.`. -/
theorem Path.basename_eq_or {path name : Text} {front : List Text}
    (h : segments path = front ++ [name]) : basename path = name ∨ basename path = ['.'] := by
  rw [segments_eq_filter] at h
  unfold basename
  rcases List.eq_nil_or_concat ((path.splitOn '/').filter (· != [])) with hnil | ⟨init, last, hlast⟩
  · rw [hnil] at h
    exact absurd h.symm (List.append_ne_nil_of_right_ne_nil front (List.cons_ne_nil _ _))
  · rw [List.concat_eq_append] at hlast
    rw [hlast, List.getLast?_concat, Option.getD_some]
    by_cases hdot : last = ['.']
    · exact .inr hdot
    · have hkept : [last].filter (· != ['.']) = [last] :=
        List.filter_cons_of_pos (bne_iff_ne.mpr hdot)
      rw [hlast, List.filter_append, hkept] at h
      exact .inl (List.singleton_inj.mp (List.append_inj_right' h rfl))

namespace Snapshot

variable {g : Geometry} {w : Snapshot} {current next index : ℕ} {path name : Text}

/-- A step down follows a record with the name. -/
theorem Orderly.exists_record_of_step (ho : w.Orderly g) (hlt : current < g.inodeCount)
    (hname : name ≠ ['.', '.']) (h : w.step current name = .ok next) :
    ∃ record ∈ w.entries current, record.target.toNat = next ∧ record.name = Text.utf8 name := by
  have hdirectory := isDirectory_of_step h
  rw [step, if_pos hdirectory, if_neg hname, ho.look_eq hlt hdirectory] at h
  cases hfind : (w.entries current).find? (·.isNamed name) with
  | none =>
    rw [hfind] at h
    cases h
  | some record =>
    rw [hfind] at h
    cases h
    have hnamed : record.isNamed name = true := by simpa using List.find?_some hfind
    exact ⟨record, List.mem_of_find?_eq_some hfind, rfl, of_decide_eq_true hnamed⟩

/-- **A record is the only one of its inode.** -/
theorem Orderly.filter_entries_target (hw : w.Sound g) (ho : w.Orderly g)
    (hlt : current < g.inodeCount) {record : DirectoryRecord}
    (hrecord : record ∈ w.entries current) :
    (w.entries current).filter (fun other => other.target.toNat = record.target.toNat)
      = [record] := by
  have hlinks := ho.links (hw.target_of_mem_entries hrecord).2 (ho.live_of_mem_entries hrecord hlt)
  have hle := Finset.single_le_sum (f := fun d => (w.entries d).countP fun other =>
    other.target.toNat = record.target.toNat) (fun _ _ => Nat.zero_le _) (Finset.mem_range.mpr hlt)
  have hone : (w.entries current).countP (fun other => other.target.toNat = record.target.toNat)
      ≤ 1 := hle.trans hlinks.le
  have hmem : record ∈ (w.entries current).filter
      fun other => other.target.toNat = record.target.toNat :=
    List.mem_filter.mpr ⟨hrecord, decide_eq_true rfl⟩
  rw [List.countP_eq_length_filter] at hone
  obtain ⟨only, honly⟩ := List.length_eq_one_iff.mp
    (Nat.le_antisymm hone (List.length_pos_of_mem hmem))
  rw [honly] at hmem ⊢
  rw [List.mem_singleton.mp hmem]

/-- **A directory has one line for what one of its records leads to.** -/
theorem Orderly.filter_lines (hw : w.Sound g) (ho : w.Orderly g) (hlt : current < g.inodeCount)
    {record : DirectoryRecord} (hrecord : record ∈ w.entries current) :
    (w.lines current).filter (fun line => line.stat.inode = record.target.toNat)
      = [w.lineOf record] := by
  rw [ho.lines_eq hlt, List.filter_map]
  exact congrArg (List.map w.lineOf) (ho.filter_entries_target hw hlt hrecord)

/-- What an inode lies in is a directory. -/
theorem Orderly.isDirectory_parent (hw : w.Sound g) (ho : w.Orderly g) (hknown : w.Known g index) :
    (w.memory.inode (w.parent index)).isDirectory = true := by
  by_cases hroot : index = 0
  · rw [hroot, hw.parent_root]
    exact hw.root_directory .memory
  · obtain ⟨record, hrecord, -⟩ := ho.named hroot (ho.live_of_known hknown)
    by_contra hother
    rw [entries_of_not_isDirectory (Bool.eq_false_iff.mpr hother)] at hrecord
    cases hrecord

/-- A path to a file ends with a step down to it, from the directory that it lies in. -/
theorem Orderly.exists_step_of_resolve (hw : w.Sound g) (ho : w.Orderly g)
    (h : w.resolve path = .ok index) (hfile : (w.memory.inode index).isDirectory = false) :
    ∃ front name, Path.segments path = front ++ [name] ∧ name ≠ ['.', '.']
      ∧ w.walk front = .ok (w.parent index) ∧ w.step (w.parent index) name = .ok index := by
  obtain ⟨-, hwalk⟩ := resolve_eq_ok_iff.mp h
  rcases List.eq_nil_or_concat (Path.segments path) with hnil | ⟨front, name, hsegments⟩
  · rw [hnil] at hwalk
    cases hwalk
    cases hfile.symm.trans (hw.root_directory .memory)
  · rw [List.concat_eq_append] at hsegments
    rw [hsegments] at hwalk
    obtain ⟨current, hfront, hstep⟩ := walk_concat_eq_ok_iff.mp hwalk
    have hknown := hw.known_walk hfront
    -- what lies above a directory is one as well
    have hname : name ≠ ['.', '.'] := by
      rintro rfl
      rw [step_dots (isDirectory_of_step hstep)] at hstep
      cases hstep
      cases hfile.symm.trans (ho.isDirectory_parent hw hknown)
    have hparent := ho.parent_of_step hw hknown.lt hname hstep
    rw [← hparent] at hfront hstep
    exact ⟨front, name, hsegments, hname, hfront, hstep⟩

/-- The line of a file in its directory has the last segment that was followed as its name. -/
theorem Orderly.filter_lines_of_step (hw : w.Sound g) (ho : w.Orderly g)
    (hlt : current < g.inodeCount) (hname : name ≠ ['.', '.'])
    (hlimit : Text.utf8Size name < Path.nameLimit) (h : w.step current name = .ok next) :
    (w.lines current).filter (fun line => line.stat.inode = next)
      = [⟨Text.utf8 name, w.statOf next⟩] := by
  obtain ⟨record, hrecord, rfl, hnamed⟩ := ho.exists_record_of_step hlt hname h
  have hlength : (Text.utf8 name).length ≤ Path.nameLimit := by
    rw [Text.length_utf8]
    exact hlimit.le
  rw [ho.filter_lines hw hlt hrecord, lineOf, hnamed, List.take_of_length_le hlength]

end Snapshot

namespace Volume

variable {δ : Type} [BlockDevice δ] [LawfulDevice δ] {g : Geometry} {v : Volume δ}

/-- **The two lines of a file.** A path to a file is listed as one line, and any path to its
directory as lines of which one is for the file. Both tell the same inode, kind and size, and they
are the same with their names exactly if the last segment of the path that is not empty is not
`.`. -/
theorem file_listed_iff (h : v.Reached g) {path : Text} {told : FileStat}
    (hstat : (v.run (VolumeM.stat path)).1 = .ok told) (hfile : told.isDirectory = false) :
    ∃ line entry : DirectoryEntry,
      (v.run (VolumeM.list path)).1 = .ok [line]
        ∧ (∃ directory, (v.run (VolumeM.resolve directory)).1
          = .ok (v.snapshot.parent told.inode))
        ∧ (∀ directory, (v.run (VolumeM.resolve directory)).1
            = .ok (v.snapshot.parent told.inode) →
          ∃ lines, (v.run (VolumeM.list directory)).1 = .ok lines
            ∧ lines.filter (fun other => other.stat.inode = told.inode) = [entry])
        ∧ line.stat = told ∧ entry.stat = told
        ∧ (line = entry ↔ Path.basename path ≠ ['.']) := by
  have hv := h.intact
  obtain ⟨index, hresolve, rfl⟩ := hv.of_stat_eq_ok hstat
  have hfile : (v.snapshot.memory.inode index).isDirectory = false := hfile
  obtain ⟨front, name, hsegments, hname, hfront, hstep⟩ :=
    hv.orderly.exists_step_of_resolve hv.sound hresolve hfile
  obtain ⟨hcomponents, -⟩ := Snapshot.resolve_eq_ok_iff.mp hresolve
  obtain ⟨-, -, hlimits⟩ := Path.components_eq_ok_iff.mp hcomponents
  have hmem : name ∈ Path.segments path := by
    rw [hsegments]
    exact List.mem_append_right _ List.mem_cons_self
  have hlt := (hv.sound.known_walk hfront).lt
  refine ⟨⟨(Text.utf8 (Path.basename path)).take Path.nameLimit, v.snapshot.statOf index⟩,
    ⟨Text.utf8 name, v.snapshot.statOf index⟩, ?_, ?_, fun directory hdirectory => ?_, rfl, rfl, ?_⟩
  · rw [hv.run_list, Snapshot.list, hresolve, Except.map, hfile]
    rfl
  · obtain ⟨directory, hdirectory⟩ := Path.exists_components_dropLast hcomponents
    rw [hsegments, List.dropLast_concat] at hdirectory
    refine ⟨directory, ?_⟩
    rw [hv.run_resolve, Snapshot.resolve, hdirectory]
    exact congrArg Stop.ofExcept hfront
  · refine ⟨v.snapshot.lines (v.snapshot.parent index), ?_,
      hv.orderly.filter_lines_of_step hv.sound hlt hname (hlimits name hmem) hstep⟩
    rw [hv.run_list, Snapshot.list, hv.resolve_eq_ok hdirectory, Except.map]
    exact congrArg (fun lines => Except.ok lines)
      (if_pos (Snapshot.isDirectory_of_step hstep))
  · have hshort (text : Text) (hsize : Text.utf8Size text < Path.nameLimit) :
        (Text.utf8 text).take Path.nameLimit = Text.utf8 text :=
      List.take_of_length_le (by rw [Text.length_utf8]; exact hsize.le)
    have hdot := (Path.of_mem_segments hmem).2.2
    rcases Path.basename_eq_or hsegments with hlast | hlast
    · rw [hlast, hshort name (hlimits name hmem)]
      exact ⟨fun _ => hdot, fun _ => rfl⟩
    · rw [hlast]
      refine ⟨fun hsame => ?_, fun hother => absurd rfl hother⟩
      have hnames := congrArg DirectoryEntry.name hsame
      rw [hshort ['.'] (by decide)] at hnames
      exact absurd (Text.utf8_injective hnames).symm hdot

/-- A file is listed by a path with empty segments and dots, as it stands in its directory. -/
theorem file_listed_iff_blank :
    let v := ((Volume.unmounted (RamDisk.blank 20) .tiny).run VolumeM.mount).2
    let w := ((v.run (VolumeM.mkdir ['/', 'd'])).2.run (VolumeM.touch ['/', 'd', '/', 'f'])).2
    w.Reached .tiny
      ∧ (w.run (VolumeM.stat "d/./..//./d/f/".toList)).1 = .ok ⟨2, false, 0⟩
      ∧ ∃ line entry : DirectoryEntry,
        (w.run (VolumeM.list "d/./..//./d/f/".toList)).1 = .ok [line] ∧ line = entry := by
  intro v w
  have hv : v.Reached .tiny := .formatted (by decide) rfl (Session.not_loadable_blank .tiny 20)
  have hw : w.Reached .tiny :=
    .called (.touch ['/', 'd', '/', 'f']) (.called (.mkdir ['/', 'd']) hv)
  have hstat : (w.run (VolumeM.stat "d/./..//./d/f/".toList)).1 = .ok ⟨2, false, 0⟩ :=
    eq_ok_of_toOption (by decide +kernel)
  obtain ⟨line, entry, hline, -, -, -, -, hsame⟩ := file_listed_iff hw hstat rfl
  exact ⟨hw, hstat, line, entry, hline, hsame.mpr (by decide +kernel)⟩

/-- A file that is called `f` in the root is listed as `.` by another path. -/
theorem file_listed_as_dot :
    let v := ((Volume.unmounted (RamDisk.blank 20) .tiny).run VolumeM.mount).2
    let w := (v.run (VolumeM.touch ['/', 'f'])).2
    w.Reached .tiny
      ∧ (w.run (VolumeM.stat ['/', 'f', '/', '.'])).1 = .ok ⟨1, false, 0⟩
      ∧ w.snapshot.parent 1 = 0
      ∧ (w.run (VolumeM.resolve ['/'])).1 = .ok 0
      ∧ (w.run (VolumeM.list ['/'])).1 = .ok [⟨[0x66], ⟨1, false, 0⟩⟩]
      ∧ (w.run (VolumeM.list ['/', 'f', '/', '.'])).1 = .ok [⟨[0x2E], ⟨1, false, 0⟩⟩] := by
  intro v w
  have hv : v.Reached .tiny := .formatted (by decide) rfl (Session.not_loadable_blank .tiny 20)
  exact ⟨.called (.touch ['/', 'f']) hv, eq_ok_of_toOption (by decide +kernel), by decide +kernel,
    eq_ok_of_toOption (by decide +kernel), eq_ok_of_toOption (by decide +kernel),
    eq_ok_of_toOption (by decide +kernel)⟩

end Volume

end PocketKernel
