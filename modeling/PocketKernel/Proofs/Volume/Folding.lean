import PocketKernel.Proofs.Volume.Entries
import PocketKernel.Shell.Resolve

/-!
# Folding a path agrees with walking along it

There are two readings of `..`. The shell folds a path before it uses it, and `..` takes back the
segment before it, by the text alone. A walk follows the parent that is stored in the inode where it
stands. The two agree where the walk arrives: a directory has one record only, and that record is in
the directory which is stored as its parent, so that a step down and a step up cancel out.

They do not agree on all paths that lead nowhere: in `x/..` the walk looks for `x`, and folding does
not.

## Main definitions

* `Path.below`, `Path.raw`: a path that starts in a directory, with nothing folded.

## Main results

* `Path.components_absolute_fold`: a folded path is as good as the one that it came from.
* `Snapshot.Orderly.walk_dropLast`, `Snapshot.Orderly.walk_fold`: a step up takes back a step down,
  and where a walk arrives, the folded walk does.
* `Snapshot.Orderly.resolve_dots`: a detour through a directory can be left out.
* `Volume.fold_agrees`: the same of the answers that a volume gives.
-/

namespace PocketKernel

namespace Path

variable {front path directory target name : Text} {parts pieces : List Text}

/-- A path that goes on below another one. -/
def below (front path : Text) : Text := front ++ '/' :: path

/-- What a path means in a working directory, as it stands. -/
def raw (directory path : Text) : Text :=
  if isAbsolute path then path else below directory path

theorem segments_below (front path : Text) :
    segments (below front path) = segments front ++ segments path := by
  rw [segments, below, List.splitOn_append_cons_self, List.filter_append]
  rfl

/-- A piece that is a segment, and not one that leads upwards. -/
structure IsName (name : Text) : Prop where
  slash : '/' ∉ name
  ne_nil : name ≠ []
  ne_dot : name ≠ ['.']
  ne_dots : name ≠ ['.', '.']

theorem segments_of_isName (h : IsName name) : segments name = [name] := by
  have hsplit : name.splitOn '/' = [name] := List.splitOn_eq_singleton h.slash
  rw [segments, hsplit, List.filter_eq_self]
  intro segment hsegment
  rw [List.mem_singleton.mp hsegment, Bool.and_eq_true, bne_iff_ne, bne_iff_ne]
  exact ⟨h.ne_nil, h.ne_dot⟩

/-! ### Folding -/

theorem fold_concat (front : List Text) (last : Text) :
    fold (front ++ [last]) = follow (fold front) last :=
  List.foldl_concat ..

theorem follow_dots (reached : List Text) : follow reached ['.', '.'] = reached.dropLast := rfl

theorem follow_name (reached : List Text) (hnil : name ≠ []) (hdot : name ≠ ['.'])
    (hdots : name ≠ ['.', '.']) : follow reached name = reached ++ [name] := by
  rw [follow, if_neg, if_neg hdots]
  rw [Bool.or_eq_true, decide_eq_true_iff, decide_eq_true_iff, not_or]
  exact ⟨hnil, hdot⟩

/-- What a walk passes over is passed over in folding as well. -/
theorem fold_segments (path : Text) : fold (segments path) = fold (path.splitOn '/') := by
  rw [fold, segments, List.foldl_filter, fold]
  congr 1
  funext reached piece
  split
  · rfl
  · rename_i hpassed
    rw [follow, if_pos]
    simpa [-not_and, not_and_or] using hpassed

theorem fold_sublist (pieces : List Text) : (fold pieces).Sublist pieces := by
  induction pieces using List.reverseRecOn with
  | nil => exact List.Sublist.refl _
  | append_singleton front last ih =>
    rw [fold_concat, follow]
    split
    · exact ih.trans (List.sublist_append_left ..)
    · split
      · exact ((List.dropLast_sublist _).trans ih).trans (List.sublist_append_left ..)
      · exact ih.append (List.Sublist.refl _)

/-- No dots are left. -/
theorem ne_dots_of_mem_fold {piece : Text} (h : piece ∈ fold pieces) : piece ≠ ['.', '.'] := by
  induction pieces using List.reverseRecOn with
  | nil => cases h
  | append_singleton front last ih =>
    rw [fold_concat, follow] at h
    split at h
    · exact ih h
    · split at h
      · exact ih (List.mem_of_mem_dropLast h)
      · rename_i hne
        rcases List.mem_append.mp h with hfront | hlast
        · exact ih hfront
        · rwa [List.mem_singleton.mp hlast]

/-- What is left of the segments of a path are names. -/
theorem isName_of_mem_fold_segments (h : name ∈ fold (segments path)) : IsName name := by
  obtain ⟨hslash, hnil, hdot⟩ := of_mem_segments ((fold_sublist _).mem h)
  exact ⟨hslash, hnil, hdot, ne_dots_of_mem_fold h⟩

theorem intercalate_eq_flatMap (first : Text) (pieces : List Text) :
    ['/'].intercalate (first :: pieces) = first ++ pieces.flatMap ('/' :: ·) := by
  induction pieces generalizing first with
  | nil => rw [List.intercalate_singleton, List.flatMap_nil, List.append_nil]
  | cons piece pieces ih =>
    rw [List.intercalate_cons_cons, ih, List.flatMap_cons, List.append_assoc]
    rfl

theorem segments_absolute (h : ∀ piece ∈ pieces, IsName piece) :
    segments (absolute pieces) = pieces := by
  cases pieces with
  | nil => rfl
  | cons piece rest =>
    show segments ([] ++ (piece :: rest).flatMap ('/' :: ·)) = piece :: rest
    rw [← intercalate_eq_flatMap]
    exact segments_intercalate fun piece hmem =>
      ⟨(h piece hmem).slash, (h piece hmem).ne_nil, (h piece hmem).ne_dot⟩

/-- **A folded path can be followed if the path that it came from can.** -/
theorem components_absolute_fold (h : components path = .ok parts) :
    components (absolute (fold parts)) = .ok (fold parts) := by
  obtain ⟨rfl, hlength, hsize⟩ := components_eq_ok_iff.mp h
  have hsub := fold_sublist (segments path)
  exact components_eq_ok_iff.mpr ⟨segments_absolute fun _ => isName_of_mem_fold_segments,
    hsub.length_le.trans hlength, fun piece hmem => hsize piece (hsub.mem hmem)⟩

/-- What a path is resolved to is folded from the whole of it. -/
theorem resolve?_eq_ite (directory path : Text) : resolve? directory path
    = if Text.utf8Size (absolute (fold (segments (raw directory path)))) < pathLimit
      then some (absolute (fold (segments (raw directory path)))) else none := by
  have hraw : (raw directory path).splitOn '/'
      = (if isAbsolute path then [] else directory.splitOn '/') ++ path.splitOn '/' := by
    rw [raw]
    split
    · rfl
    · rw [below, List.splitOn_append_cons_self]
  rw [fold_segments, hraw]
  rfl

theorem of_resolve?_eq_some (h : resolve? directory path = some target) :
    target = absolute (fold (segments (raw directory path))) := by
  rw [resolve?_eq_ite, Option.ite_none_right_eq_some, Option.some_inj] at h
  exact h.2.symm

end Path

namespace Snapshot

variable {g : Geometry} {w : Snapshot} {current next index : ℕ} {path name : Text}
  {front skipped rest pieces : List Text}

open PocketKernel.Path

/-! ### Walking -/

theorem walkFrom_append (current : ℕ) (front back : List Text) :
    w.walkFrom current (front ++ back)
      = (w.walkFrom current front >>= fun next => w.walkFrom next back) :=
  List.foldlM_append

theorem resolve_eq_ok_iff : w.resolve path = .ok index
    ↔ components path = .ok (segments path) ∧ w.walk (segments path) = .ok index := by
  rw [resolve]
  cases hparts : components path with
  | error cause => exact ⟨(fun h => by cases h), (fun h => by cases h.1)⟩
  | ok parts =>
    obtain ⟨rfl, -⟩ := components_eq_ok_iff.mp hparts
    exact ⟨fun h => ⟨rfl, h⟩, And.right⟩

theorem walk_concat_eq_ok_iff {last : Text} :
    w.walk (front ++ [last]) = .ok index
      ↔ ∃ next, w.walk front = .ok next ∧ w.step next last = .ok index := by
  rw [walk, walkFrom_concat]
  show (w.walk front >>= fun next => w.step next last) = .ok index ↔ _
  cases w.walk front with
  | error cause =>
    refine ⟨(fun h => by cases h), ?_⟩
    rintro ⟨_, ⟨⟩, -⟩
  | ok next =>
    refine ⟨fun h => ⟨next, rfl, h⟩, ?_⟩
    rintro ⟨_, ⟨⟩, h⟩
    exact h

theorem isDirectory_of_step (h : w.step current name = .ok next) :
    (w.memory.inode current).isDirectory = true := by
  rw [step] at h
  split at h
  · assumption
  · cases h

theorem step_dots (hdirectory : (w.memory.inode current).isDirectory = true) :
    w.step current ['.', '.'] = .ok (w.parent current) := by
  rw [step, if_pos hdirectory, if_pos rfl, parent]

theorem Sound.parent_root (hw : w.Sound g) : w.parent 0 = 0 :=
  congrArg UInt32.toNat (hw.root_parent .memory)

/-- A step down leads to an inode that has its starting point as its parent. -/
theorem Orderly.parent_of_step (hw : w.Sound g) (ho : w.Orderly g) (hlt : current < g.inodeCount)
    (hname : name ≠ ['.', '.']) (h : w.step current name = .ok next) : w.parent next = current := by
  have hdirectory := isDirectory_of_step h
  rw [step, if_pos hdirectory, if_neg hname, ho.look_eq hlt hdirectory] at h
  cases hfind : (w.entries current).find? (·.isNamed name) with
  | none =>
    rw [hfind] at h
    cases h
  | some record =>
    rw [hfind] at h
    cases h
    exact ho.parent_of_mem_entries hw (List.mem_of_find?_eq_some hfind) hlt

/-- **To leave out the last step down is to go up.** Nothing is above the root. -/
theorem Orderly.walk_dropLast (hw : w.Sound g) (ho : w.Orderly g)
    (hpieces : ∀ piece ∈ pieces, piece ≠ ['.', '.']) (h : w.walk pieces = .ok index) :
    w.walk pieces.dropLast = .ok (w.parent index) := by
  rcases List.eq_nil_or_concat pieces with rfl | ⟨front, last, rfl⟩
  · cases h
    rw [hw.parent_root]
    rfl
  · rw [List.concat_eq_append] at h hpieces ⊢
    obtain ⟨directory, hfront, hdown⟩ := walk_concat_eq_ok_iff.mp h
    have hlast : last ≠ ['.', '.'] := hpieces last (List.mem_append_right _ List.mem_cons_self)
    rw [List.dropLast_concat, ho.parent_of_step hw (hw.known_walk hfront).lt hlast hdown]
    exact hfront

/-- **Where a walk arrives, the folded walk does.** -/
theorem Orderly.walk_fold (hw : w.Sound g) (ho : w.Orderly g)
    (hpieces : ∀ piece ∈ pieces, piece ≠ [] ∧ piece ≠ ['.']) (h : w.walk pieces = .ok index) :
    w.walk (fold pieces) = .ok index := by
  induction pieces using List.reverseRecOn generalizing index with
  | nil => exact h
  | append_singleton front last ih =>
    rw [List.forall_mem_append, List.forall_mem_singleton] at hpieces
    obtain ⟨next, hfront, hstep⟩ := walk_concat_eq_ok_iff.mp h
    have hfolded := ih hpieces.1 hfront
    rw [fold_concat]
    by_cases hdots : last = ['.', '.']
    · rw [hdots, step_dots (isDirectory_of_step hstep)] at hstep
      cases hstep
      rw [hdots, follow_dots]
      exact ho.walk_dropLast hw (fun piece => ne_dots_of_mem_fold) hfolded
    · rw [follow_name _ hpieces.2.1 hpieces.2.2 hdots]
      exact walk_concat_eq_ok_iff.mpr ⟨next, hfolded, hstep⟩

theorem Orderly.resolve_fold (hw : w.Sound g) (ho : w.Orderly g)
    (h : w.resolve path = .ok index) :
    w.resolve (absolute (fold (segments path))) = .ok index := by
  obtain ⟨hparts, hwalk⟩ := resolve_eq_ok_iff.mp h
  rw [resolve, components_absolute_fold hparts]
  exact ho.walk_fold hw (fun piece hmem => (of_mem_segments hmem).2) hwalk

/-! ### Detours -/

/-- A detour that comes back to where it began can be left out. -/
theorem resolve_detour {long short : Text} (hlong : segments long = front ++ (skipped ++ rest))
    (hshort : segments short = front ++ rest) (hfront : w.walk front = .ok current)
    (hback : w.walkFrom current skipped = .ok current)
    (hdepth : (segments long).length ≤ depthLimit)
    (hsize : ∀ segment ∈ skipped, Text.utf8Size segment < nameLimit) :
    w.resolve long = w.resolve short := by
  have hpast (back : List Text) : w.walk (front ++ back) = w.walkFrom current back := by
    rw [walk, walkFrom_append]
    show (w.walk front >>= fun next => w.walkFrom next back) = w.walkFrom current back
    rw [hfront]
    rfl
  have hwalk : w.walk (segments long) = w.walk (segments short) := by
    rw [hlong, hshort, hpast, hpast, walkFrom_append, hback]
    rfl
  have hdepth' : (segments short).length ≤ depthLimit := by
    rw [hlong] at hdepth
    rw [hshort]
    simp only [List.length_append] at hdepth ⊢
    omega
  have hsizes : (∀ segment ∈ segments long, Text.utf8Size segment < nameLimit)
      ↔ ∀ segment ∈ segments short, Text.utf8Size segment < nameLimit := by
    simp only [hlong, hshort, List.forall_mem_append, iff_true_intro hsize, true_and]
  rw [resolve, resolve, components_eq_ite, components_eq_ite]
  by_cases hshorts : ∀ segment ∈ segments short, Text.utf8Size segment < nameLimit
  · rw [if_pos ⟨hdepth, hsizes.mpr hshorts⟩, if_pos ⟨hdepth', hshorts⟩]
    exact hwalk
  · rw [if_neg fun h => hshorts (hsizes.mp h.2), if_neg fun h => hshorts h.2]

/-- To go down to a directory and up again leads nowhere else. -/
theorem Orderly.resolve_dots (hw : w.Sound g) (ho : w.Orderly g) {front suffix : Text}
    (hname : IsName name) (h : w.resolve (below front name) = .ok index)
    (hdirectory : (w.memory.inode index).isDirectory = true)
    (hdepth : (segments (below front (below name (below ['.', '.'] suffix)))).length ≤ depthLimit) :
    w.resolve (below front (below name (below ['.', '.'] suffix)))
      = w.resolve (below front suffix) := by
  have hsegments : segments (below front name) = segments front ++ [name] := by
    rw [segments_below, segments_of_isName hname]
  obtain ⟨hparts, hwalk⟩ := resolve_eq_ok_iff.mp h
  obtain ⟨-, -, hsize⟩ := components_eq_ok_iff.mp hparts
  rw [hsegments] at hwalk hsize
  obtain ⟨directory, hfront, hdown⟩ := walk_concat_eq_ok_iff.mp hwalk
  have hup : w.walkFrom directory [name, ['.', '.']] = .ok directory := by
    have hparent := ho.parent_of_step hw (hw.known_walk hfront).lt hname.ne_dots hdown
    rw [walkFrom, List.foldlM_cons, hdown]
    show w.walkFrom index [['.', '.']] = .ok directory
    rw [walkFrom, List.foldlM_cons, step_dots hdirectory, hparent]
    rfl
  have hlong : segments (below front (below name (below ['.', '.'] suffix)))
      = segments front ++ ([name, ['.', '.']] ++ segments suffix) := by
    rw [segments_below, segments_below, segments_below, segments_of_isName hname]
    rfl
  refine resolve_detour hlong (segments_below ..) hfront hup hdepth ?_
  rw [List.forall_mem_cons, List.forall_mem_singleton]
  exact ⟨hsize name (List.mem_append_right _ (List.mem_singleton_self _)), by decide⟩

/-- There is nothing above the root. -/
theorem Sound.resolve_dots (hw : w.Sound g) {suffix : Text}
    (hdepth : (segments (below [] (below ['.', '.'] suffix))).length ≤ depthLimit) :
    w.resolve (below [] (below ['.', '.'] suffix)) = w.resolve (below [] suffix) := by
  have hup : w.walkFrom 0 [['.', '.']] = .ok 0 := by
    rw [walkFrom, List.foldlM_cons, step_dots (hw.root_directory .memory), hw.parent_root]
    rfl
  have hlong : segments (below [] (below ['.', '.'] suffix))
      = [] ++ ([['.', '.']] ++ segments suffix) := by
    rw [segments_below, segments_below]
    rfl
  refine resolve_detour hlong (segments_below ..) rfl hup hdepth ?_
  rw [List.forall_mem_singleton]
  decide

end Snapshot

namespace Volume

variable {δ : Type} [BlockDevice δ] [LawfulDevice δ] {g : Geometry} {v : Volume δ}

open PocketKernel.Path

/-- **Folding a path agrees with walking along it.** What is told of a path is told of the folded
one as well; to go down to a directory and up again changes nothing; and neither does going up from
the root. -/
theorem fold_agrees (h : v.Reached g) :
    (∀ directory path target told, resolve? directory path = some target →
      (v.run (VolumeM.stat (raw directory path))).1 = .ok told →
      (v.run (VolumeM.stat target)).1 = .ok told)
    ∧ (∀ front name suffix told, IsName name →
      (v.run (VolumeM.stat (below front name))).1 = .ok told → told.isDirectory = true →
      (segments (below front (below name (below ['.', '.'] suffix)))).length ≤ depthLimit →
      (v.run (VolumeM.resolve (below front (below name (below ['.', '.'] suffix))))).1
        = (v.run (VolumeM.resolve (below front suffix))).1)
    ∧ (∀ suffix, (segments (below [] (below ['.', '.'] suffix))).length ≤ depthLimit →
      (v.run (VolumeM.resolve (below [] (below ['.', '.'] suffix)))).1
        = (v.run (VolumeM.resolve (below [] suffix))).1)
    ∧ (v.run (VolumeM.resolve ['/', '.', '.'])).1 = .ok 0 := by
  have hv := h.intact
  refine ⟨fun directory path target told htarget hrun => ?_,
    fun front name suffix told hname hrun hdirectory hdepth => ?_, fun suffix hdepth => ?_, ?_⟩
  · obtain ⟨index, hresolve, rfl⟩ := hv.of_stat_eq_ok hrun
    rw [of_resolve?_eq_some htarget, hv.run_stat, Snapshot.stat,
      hv.orderly.resolve_fold hv.sound hresolve]
    rfl
  · obtain ⟨index, hresolve, rfl⟩ := hv.of_stat_eq_ok hrun
    rw [hv.run_resolve, hv.run_resolve,
      hv.orderly.resolve_dots hv.sound hname hresolve hdirectory hdepth]
  · rw [hv.run_resolve, hv.run_resolve, hv.sound.resolve_dots hdepth]
  · have hup : v.snapshot.resolve ['/', '.', '.'] = .ok (v.snapshot.parent 0) := by
      show v.snapshot.walkFrom 0 [['.', '.']] = _
      rw [Snapshot.walkFrom, List.foldlM_cons, Snapshot.step_dots (hv.sound.root_directory .memory)]
      rfl
    rw [hv.run_resolve, hup, hv.sound.parent_root]
    rfl

/-- A directory and a file in it. From that directory, the file is found by a way round. -/
theorem fold_agrees_blank :
    let v := ((Volume.unmounted (RamDisk.blank 20) .tiny).run VolumeM.mount).2
    let w := ((v.run (VolumeM.mkdir ['/', 'd'])).2.run (VolumeM.touch ['/', 'd', '/', 'f'])).2
    w.Reached .tiny
      ∧ (w.run (VolumeM.stat (raw ['/', 'd'] "./../d//f".toList))).1 = .ok ⟨2, false, 0⟩
      ∧ (w.run (VolumeM.stat ['/', 'd', '/', 'f'])).1 = .ok ⟨2, false, 0⟩
      ∧ (w.run (VolumeM.resolve (below [] (below ['d'] (below ['.', '.'] "d/g".toList))))).1
        = (w.run (VolumeM.resolve (below [] "d/g".toList))).1
      ∧ (w.run (VolumeM.resolve ['/', '.', '.'])).1 = .ok 0 := by
  intro v w
  have hv : v.Reached .tiny := .formatted (by decide) rfl (Session.not_loadable_blank .tiny 20)
  have hw : w.Reached .tiny :=
    .called (.touch ['/', 'd', '/', 'f']) (.called (.mkdir ['/', 'd']) hv)
  obtain ⟨hfold, hdetour, -, hroot⟩ := fold_agrees hw
  have hround : (w.run (VolumeM.stat (raw ['/', 'd'] "./../d//f".toList))).1 = .ok ⟨2, false, 0⟩ :=
    eq_ok_of_toOption (by decide +kernel)
  have hdirectory : (w.run (VolumeM.stat (below [] ['d']))).1 = .ok ⟨1, true, 36⟩ :=
    eq_ok_of_toOption (by decide +kernel)
  exact ⟨hw, hround, hfold ['/', 'd'] "./../d//f".toList _ _ (by decide +kernel) hround,
    hdetour [] ['d'] "d/g".toList _ ⟨by decide, by decide, by decide, by decide⟩ hdirectory rfl
      (by decide +kernel), hroot⟩

end Volume

end PocketKernel
