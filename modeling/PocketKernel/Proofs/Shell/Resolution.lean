import PocketKernel.Proofs.Volume.Folding

/-!
# Paths that were resolved

The shell puts a path behind its working directory and folds the two into one. What comes out is a
row of names, each with a slash before it, and folding that once more changes nothing. So it makes
no difference in how many steps one goes: to resolve a path where another one leads is to resolve
the two of them at once, one behind the other.

## Main definitions

* `Path.Folded`: the form of a path that was resolved.

## Main results

* `Path.fold_fold_append`: what was folded can be folded once more, with something behind it.
* `Path.resolve?_below`: a path where another one leads.
* `Path.resolve?_normalises`: all that is certain of a path that was resolved.
-/

namespace PocketKernel.Path

variable {directory path further target : Text} {front back names : List Text}

/-- The form of a path that was resolved: the root, or names with a slash before each of them. There
is a limit to its length. -/
structure Folded (path : Text) : Prop where
  form : path = ['/']
    ∨ ∃ names, names ≠ [] ∧ (∀ name ∈ names, IsName name) ∧ path = names.flatMap ('/' :: ·)
  size_lt : Text.utf8Size path < 256

/-! ### Folding twice -/

/-- In names there is nothing to fold. -/
theorem fold_of_isName (h : ∀ name ∈ names, IsName name) : fold names = names := by
  induction names using List.reverseRecOn with
  | nil => rfl
  | append_singleton front last ih =>
    rw [List.forall_mem_append, List.forall_mem_singleton] at h
    rw [fold_concat, ih h.1, follow_name _ h.2.ne_nil h.2.ne_dot h.2.ne_dots]

theorem fold_fold_append (h : ∀ name ∈ fold front, IsName name) :
    fold (fold front ++ back) = fold (front ++ back) := by
  have hfront : (fold front).foldl follow [] = front.foldl follow [] := fold_of_isName h
  rw [fold, List.foldl_append, hfront, ← List.foldl_append, fold]

/-! ### Where the folding begins -/

theorem raw_of_isAbsolute (h : isAbsolute path = true) (directory : Text) :
    raw directory path = path :=
  if_pos h

theorem raw_of_not_isAbsolute (h : isAbsolute path = false) (directory : Text) :
    raw directory path = below directory path :=
  if_neg (Bool.eq_false_iff.mp h)

/-- Only its first character decides whether a path is absolute. -/
theorem isAbsolute_below (hne : path ≠ []) (further : Text) :
    isAbsolute (below path further) = isAbsolute path := by
  obtain ⟨c, rest, rfl⟩ := List.exists_cons_of_ne_nil hne
  rfl

theorem raw_below (hne : path ≠ []) (directory further : Text) :
    raw directory (below path further) = below (raw directory path) further := by
  rw [raw, raw, isAbsolute_below hne]
  split
  · rfl
  · simp [below]

theorem isAbsolute_absolute (names : List Text) : isAbsolute (absolute names) = true := by
  cases names with
  | nil => rfl
  | cons name names => rfl

/-! ### What was resolved -/

theorem size_of_resolve?_eq_some (h : resolve? directory path = some target) :
    Text.utf8Size target < pathLimit := by
  obtain rfl := of_resolve?_eq_some h
  rw [resolve?_eq_ite, Option.ite_none_right_eq_some] at h
  exact h.1

/-- The segments of a path that was resolved are the ones that were left. -/
theorem segments_of_resolve?_eq_some (h : resolve? directory path = some target) :
    segments target = fold (segments (raw directory path)) := by
  rw [of_resolve?_eq_some h]
  exact segments_absolute fun _ => isName_of_mem_fold_segments

theorem isAbsolute_of_resolve?_eq_some (h : resolve? directory path = some target) :
    isAbsolute target = true := by
  rw [of_resolve?_eq_some h]
  exact isAbsolute_absolute _

theorem folded_of_resolve?_eq_some (h : resolve? directory path = some target) :
    Folded target := by
  refine ⟨?_, size_of_resolve?_eq_some h⟩
  rw [of_resolve?_eq_some h]
  cases hnames : fold (segments (raw directory path)) with
  | nil => exact .inl rfl
  | cons name names =>
    refine .inr ⟨name :: names, List.cons_ne_nil _ _, fun piece hpiece => ?_, rfl⟩
    exact isName_of_mem_fold_segments (hnames ▸ hpiece)

/-- Two paths are resolved alike if the same is left of their segments. -/
theorem resolve?_congr {directory' path' : Text}
    (h : fold (segments (raw directory path)) = fold (segments (raw directory' path'))) :
    resolve? directory path = resolve? directory' path' := by
  rw [resolve?_eq_ite, resolve?_eq_ite, h]

/-- A working directory is no matter to an absolute path. -/
theorem resolve?_of_isAbsolute (h : isAbsolute path = true) (directory other : Text) :
    resolve? other path = resolve? directory path :=
  resolve?_congr (by rw [raw_of_isAbsolute h, raw_of_isAbsolute h])

/-- **What was resolved stays as it is**, wherever it is resolved again. -/
theorem resolve?_again (h : resolve? directory path = some target) (other : Text) :
    resolve? other target = some target := by
  rw [← h]
  refine resolve?_congr ?_
  rw [raw_of_isAbsolute (isAbsolute_of_resolve?_eq_some h), segments_of_resolve?_eq_some h]
  exact fold_of_isName fun _ => isName_of_mem_fold_segments

/-- **A path where another one leads** is resolved as the two of them at once. -/
theorem resolve?_below (h : resolve? directory path = some target) (hne : path ≠ [])
    (hfurther : isAbsolute further = false) :
    resolve? target further = resolve? directory (below path further) := by
  refine resolve?_congr ?_
  rw [raw_of_not_isAbsolute hfurther, raw_below hne, segments_below, segments_below,
    segments_of_resolve?_eq_some h]
  exact fold_fold_append fun _ => isName_of_mem_fold_segments

/-- To stay where a path leads. -/
theorem resolve?_dot (h : resolve? directory path = some target) :
    resolve? target ['.'] = some target := by
  rw [← resolve?_again h target]
  refine resolve?_congr ?_
  rw [raw_of_not_isAbsolute rfl, raw_of_isAbsolute (isAbsolute_of_resolve?_eq_some h),
    segments_below]
  exact congrArg fold (List.append_nil _)

/-- **A path that was resolved is normal.** It consists of names, is resolved to itself from
everywhere, and one can go on from there; and an absolute path is resolved alike from everywhere. -/
theorem resolve?_normalises (directory path : Text) :
    (∀ target, resolve? directory path = some target → Folded target
      ∧ (∀ other, resolve? other target = some target)
      ∧ resolve? target ['.'] = some target
      ∧ (path ≠ [] → ∀ further, isAbsolute further = false →
        resolve? target further = resolve? directory (path ++ '/' :: further)))
    ∧ (isAbsolute path = true → ∀ other, resolve? other path = resolve? directory path) := by
  refine ⟨fun target h => ?_, fun h other => resolve?_of_isAbsolute h directory other⟩
  exact ⟨folded_of_resolve?_eq_some h, resolve?_again h, resolve?_dot h,
    fun hne further hfurther => resolve?_below h hne hfurther⟩

/-- A way round, and from where it leads another one that goes above the root. -/
theorem resolve?_normalises_round :
    resolve? "/a/b".toList "./..//c/".toList = some "/a/c".toList
      ∧ (∀ other, resolve? other "/a/c".toList = some "/a/c".toList)
      ∧ resolve? "/a/c".toList "../../../d".toList
        = resolve? "/a/b".toList "./..//c//../../../d".toList := by
  have hround : resolve? "/a/b".toList "./..//c/".toList = some "/a/c".toList := by decide +kernel
  obtain ⟨-, hagain, -, hfurther⟩ := (resolve?_normalises _ _).1 _ hround
  exact ⟨hround, hagain, hfurther (by decide) _ (by decide)⟩

end PocketKernel.Path
