import Mathlib.Data.List.Basic
import Mathlib.Data.List.TakeWhile
import Mathlib.Data.Nat.Notation
import PocketKernel.Proofs.Text.Slices
import PocketKernel.Proofs.Volume.Codec

/-!
# The name of a new entry

A name goes through three hands. A path is split, and its last segment is the name of the entry that
is created; the name is stored in a record of fixed length, up to the first zero byte; and when a
path is followed, the bytes of a segment are compared with those in the record. The first of these
takes any character, and the second stops at the zero character, so what was stored is found again
exactly if there is none.

## Main definitions

* `Text.beforeZero`: a text up to its first zero character.

## Main results

* `Path.of_leafName_eq_ok`: the name is the last segment that a walk follows.
* `Path.exists_components_dropLast`: the directory of a path has a path as well.
* `DirectoryRecord.name_ofBytes_named`, `DirectoryRecord.isNamed_ofBytes_named`: what is stored.
-/

namespace PocketKernel

namespace Text

/-- A text up to its first zero character. -/
def beforeZero (text : Text) : Text := text.takeWhile (· != '\x00')

theorem beforeZero_eq_self_iff {text : Text} : text.beforeZero = text ↔ '\x00' ∉ text := by
  rw [beforeZero, List.takeWhile_eq_self_iff]
  constructor
  · intro h hmem
    simpa using h _ hmem
  · intro h c hc
    rw [bne_iff_ne]
    rintro rfl
    exact h hc

theorem ofUInt8_eq_zero_iff {b : UInt8} : Char.ofUInt8 b = '\x00' ↔ b = 0 := by
  rw [← Char.toNat_inj, ← UInt8.toNat_inj]
  rfl

/-- The bytes up to the first zero byte are those of the characters up to the first zero. -/
theorem takeWhile_ne_zero_utf8 (text : Text) :
    (utf8 text).takeWhile (· != 0) = utf8 text.beforeZero := by
  have htest : Bytewise (· != '\x00') := by
    intro c b hb
    rw [Bool.eq_iff_iff, bne_iff_ne, bne_iff_ne]
    exact not_congr (ofUInt8_eq_iff (by decide) hb)
  rw [beforeZero, ← takeWhile_utf8 htest]
  refine congrArg (fun test => (utf8 text).takeWhile test) (funext fun b => ?_)
  rw [Bool.eq_iff_iff, bne_iff_ne, bne_iff_ne]
  exact not_congr ofUInt8_eq_zero_iff.symm

/-- Cutting a text at its first zero does not make another text the same. -/
theorem utf8_beforeZero_eq_iff {text : Text} :
    utf8 text.beforeZero = utf8 text ↔ '\x00' ∉ text := by
  rw [← beforeZero_eq_self_iff]
  refine ⟨fun h => ?_, congrArg utf8⟩
  obtain ⟨rest, hrest⟩ := List.takeWhile_prefix (l := text) (· != '\x00')
  have hsize : utf8Size rest = 0 := by
    have hlength := congrArg List.length h
    rw [length_utf8, length_utf8] at hlength
    have hsplit := congrArg utf8Size hrest
    rw [utf8Size_append] at hsplit
    rw [beforeZero] at hlength
    omega
  cases rest with
  | nil => rwa [List.append_nil] at hrest
  | cons c rest =>
    have := c.utf8Size_pos
    rw [utf8Size_cons] at hsize
    omega

end Text

namespace Path

theorem segments_eq_filter (path : Text) :
    segments path = ((path.splitOn '/').filter (· != [])).filter (· != ['.']) := by
  rw [segments, List.filter_filter]
  exact List.filter_congr fun segment _ => Bool.and_comm _ _

/-- A name that can be given to a new entry is short, is not `..`, and is the last of the segments
that a walk follows. -/
theorem of_leafName_eq_ok {path leaf : Text} (h : leafName path = .ok leaf) :
    leaf = basename path ∧ leaf ≠ ['.', '.'] ∧ Text.utf8Size leaf < nameLimit
      ∧ segments path = (segments path).dropLast ++ [leaf] := by
  unfold leafName at h
  dsimp only at h
  split at h
  · cases h
  rename_i hreal
  cases h
  simp only [Bool.or_eq_true, decide_eq_true_eq, not_or, ge_iff_le, Nat.not_le] at hreal
  obtain ⟨⟨⟨hroot, hdot⟩, hdots⟩, hsize⟩ := hreal
  refine ⟨rfl, hdots, hsize, ?_⟩
  have hlast : ((path.splitOn '/').filter (· != [])).getLast? = some (basename path) := by
    unfold basename at hroot ⊢
    cases hfound : ((path.splitOn '/').filter (· != [])).getLast? with
    | none =>
      rw [hfound] at hroot
      exact absurd rfl hroot
    | some segment => rfl
  have hkept : [basename path].filter (· != ['.']) = [basename path] := by
    rw [List.filter_eq_self]
    intro segment hsegment
    rw [List.mem_singleton.mp hsegment]
    simpa using hdot
  have hsplit := List.dropLast_append_getLast? _ hlast
  rw [segments_eq_filter, ← hsplit, List.filter_append, hkept, List.dropLast_concat]

/-- No piece of a text that was split contains the separator. -/
theorem not_mem_of_mem_splitOn {c : Char} {text piece : Text} (h : piece ∈ text.splitOn c) :
    c ∉ piece := by
  induction text generalizing piece with
  | nil =>
    rw [List.splitOn_nil, List.mem_singleton] at h
    rw [h]
    exact List.not_mem_nil
  | cons d text ih =>
    rw [List.splitOn_cons_eq_if_modifyHead] at h
    split at h
    · rcases List.mem_cons.mp h with rfl | hrest
      · exact List.not_mem_nil
      · exact ih hrest
    · rename_i hne
      cases hsplit : text.splitOn c with
      | nil =>
        rw [hsplit] at h
        cases h
      | cons first rest =>
        rw [hsplit] at h ih
        rcases List.mem_cons.mp h with rfl | hrest
        · have hd : c ≠ d := fun heq => hne (by rw [heq, beq_self_eq_true])
          rw [List.mem_cons, not_or]
          exact ⟨hd, ih List.mem_cons_self⟩
        · exact ih (List.mem_cons_of_mem _ hrest)

/-- A path can be followed if its segments are within the limits. -/
theorem components_eq_ite (path : Text) :
    components path = if (segments path).length ≤ depthLimit
        ∧ ∀ segment ∈ segments path, Text.utf8Size segment < nameLimit
      then .ok (segments path) else .error .invalidPath := by
  simp only [components, Bool.and_eq_true, decide_eq_true_eq, List.all_eq_true]

theorem components_eq_ok_iff {path : Text} {parts : List Text} :
    components path = .ok parts ↔ segments path = parts ∧ parts.length ≤ depthLimit
      ∧ ∀ segment ∈ parts, Text.utf8Size segment < nameLimit := by
  rw [components_eq_ite]
  constructor
  · intro h
    split at h
    · cases h
      exact ⟨rfl, ‹_›⟩
    · cases h
  · rintro ⟨rfl, h⟩
    rw [if_pos h]

theorem of_mem_segments {path segment : Text} (h : segment ∈ segments path) :
    '/' ∉ segment ∧ segment ≠ [] ∧ segment ≠ ['.'] := by
  obtain ⟨hsplit, hcounts⟩ := List.mem_filter.mp h
  rw [Bool.and_eq_true, bne_iff_ne, bne_iff_ne] at hcounts
  exact ⟨not_mem_of_mem_splitOn hsplit, hcounts⟩

/-- An empty piece in front makes a path of any row of segments. -/
theorem segments_intercalate {pieces : List Text}
    (h : ∀ piece ∈ pieces, '/' ∉ piece ∧ piece ≠ [] ∧ piece ≠ ['.']) :
    segments (['/'].intercalate ([] :: pieces)) = pieces := by
  have hsplit : (['/'].intercalate ([] :: pieces)).splitOn '/' = [] :: pieces := by
    refine List.splitOn_intercalate '/' ?_ (List.cons_ne_nil _ _)
    rintro piece (_ | ⟨_, hmem⟩)
    · exact List.not_mem_nil
    · exact (h piece hmem).1
  rw [segments, hsplit, List.filter_cons_of_neg (by decide), List.filter_eq_self]
  intro piece hmem
  rw [Bool.and_eq_true, bne_iff_ne, bne_iff_ne]
  exact (h piece hmem).2

/-- The segments of a path before the last are those of another path. -/
theorem exists_components_dropLast {path : Text} {segments : List Text}
    (h : components path = .ok segments) : ∃ front, components front = .ok segments.dropLast := by
  obtain ⟨rfl, hlength, hsize⟩ := components_eq_ok_iff.mp h
  have hsub := List.dropLast_sublist (Path.segments path)
  refine ⟨_, components_eq_ok_iff.mpr ⟨segments_intercalate fun segment hmem => ?_,
    hsub.length_le.trans hlength, fun segment hmem => hsize segment (hsub.mem hmem)⟩⟩
  exact of_mem_segments (hsub.mem hmem)

end Path

namespace DirectoryRecord

theorem takeWhile_append_replicate (name : List UInt8) (count : ℕ) :
    (name ++ List.replicate count 0).takeWhile (· != 0) = name.takeWhile (· != 0) := by
  induction name with
  | nil => rw [List.nil_append, List.takeWhile_replicate, if_neg (by decide), List.takeWhile_nil]
  | cons byte name ih =>
    rw [List.cons_append, List.takeWhile_cons, List.takeWhile_cons, ih]

/-- **A record keeps its name up to the first zero.** -/
theorem name_ofBytes_named (target : ℕ) {name : Text} (h : Text.utf8Size name < Path.nameLimit) :
    (ofBytes (named target name).bytes).name = Text.utf8 name.beforeZero := by
  have hlength := Text.length_utf8 name
  have htake : (Text.utf8 name).take (Path.nameLimit - 1) = Text.utf8 name :=
    List.take_of_length_le (by omega)
  have hdrop : (named target name).bytes.drop 4 = Text.utf8 name
      ++ List.replicate (Path.nameLimit - Text.utf8Size name) 0 := by
    rw [bytes, named, htake, hlength, List.append_assoc]
    exact List.drop_left' (Bytes.length_ofUInt32 _)
  rw [ofBytes, hdrop, List.take_of_length_le, takeWhile_append_replicate,
    Text.takeWhile_ne_zero_utf8]
  rw [List.length_append, List.length_replicate, hlength]
  omega

/-- **What was stored is found again exactly if there is no zero in it.** -/
theorem isNamed_ofBytes_named (target : ℕ) {name : Text}
    (h : Text.utf8Size name < Path.nameLimit) :
    (ofBytes (named target name).bytes).isNamed name = true ↔ '\x00' ∉ name := by
  rw [isNamed, decide_eq_true_iff, name_ofBytes_named target h, Text.utf8_beforeZero_eq_iff]

theorem length_name_ofBytes (data : List UInt8) : (ofBytes data).name.length ≤ Path.nameLimit := by
  rw [ofBytes]
  exact Nat.le_trans (List.takeWhile_prefix _).length_le (List.length_take_le _ _)

end DirectoryRecord

end PocketKernel
