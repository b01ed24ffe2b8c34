import Mathlib.Data.Finset.Card
import Mathlib.Data.Finset.Insert
import Mathlib.Data.Finset.Range
import Mathlib.Order.Bounds.Basic
import PocketKernel.Proofs.Volume.Bitmap
import PocketKernel.Volume.Geometry

/-!
# Bitmaps hand out the first number that is free

Whoever uses a bitmap sees a set of numbers below its length. The least number that is missing is
handed out, and it is not handed out again before it was taken back. `FirstFit` says this of a set,
with nothing of bytes and bits, and a bitmap answers any calls as the set of its members does.

The bits at or beyond the length take no part in that. They may be set from the start, they are
never handed out, and they stay as they are, also those that share a byte with members.

## Main definitions

* `BitmapCall`, `BitmapAnswer`, `Bitmap.log`: calls of a bitmap, and what is answered.
* `Bitmap.members`: the set that a bitmap stands for.
* `FirstFit`, `FirstFits`: one call and several calls of a set.

## Main results

* `Bitmap.serve_firstFit`: one call.
* `FirstFits.taken_back`: what is handed out twice was taken back in between.
* `Bitmap.behaves_as_set`: any calls.
-/

namespace PocketKernel

/-- Something that is asked of a bitmap. -/
inductive BitmapCall where
  /-- Hand out a number. -/
  | alloc
  /-- Take a number back. -/
  | release (index : ℕ)
  | set (index : ℕ)
  | clear (index : ℕ)
deriving DecidableEq

/-- What a bitmap answers. -/
inductive BitmapAnswer where
  | handed (index : Option ℕ)
  /-- Whether there was something to take back. -/
  | released (found : Bool)
  | done
deriving DecidableEq

namespace Bitmap

/-- One call of a bitmap. -/
def serve (map : Bitmap) : BitmapCall → BitmapAnswer × Bitmap
  | .alloc => match map.alloc? with
    | some (index, left) => (.handed (some index), left)
    | none => (.handed none, map)
  | .release index => match map.release? index with
    | some left => (.released true, left)
    | none => (.released false, map)
  | .set index => (.done, map.set index)
  | .clear index => (.done, map.clear index)

/-- The bitmap after several calls. -/
def after (map : Bitmap) (calls : List BitmapCall) : Bitmap :=
  calls.foldl (fun left call => (left.serve call).2) map

/-- Several calls, each with what is answered to it. -/
def log (map : Bitmap) : List BitmapCall → List (BitmapCall × BitmapAnswer)
  | [] => []
  | call :: calls => (call, (map.serve call).1) :: (map.serve call).2.log calls

/-- The set that a bitmap stands for: the numbers below its length whose bits are set. -/
def members (map : Bitmap) : Finset ℕ :=
  (Finset.range map.length).filter fun index => bitAt map.sector.bytes index = true

end Bitmap

/-- **First fit**: a call of a set of numbers below a length. -/
inductive FirstFit (length : ℕ) (s : Finset ℕ) : BitmapCall → BitmapAnswer → Finset ℕ → Prop
  /-- The least number that is missing is handed out. -/
  | handed {index : ℕ} : IsLeast {k | k < length ∧ k ∉ s} index →
      FirstFit length s .alloc (.handed (some index)) (insert index s)
  /-- No number is missing. -/
  | full : (∀ k < length, k ∈ s) → FirstFit length s .alloc (.handed none) s
  | released (index : ℕ) :
      FirstFit length s (.release index) (.released (decide (index ∈ s))) (s.erase index)
  /-- Numbers outside are ignored. -/
  | set (index : ℕ) :
      FirstFit length s (.set index) .done (if index < length then insert index s else s)
  | clear (index : ℕ) : FirstFit length s (.clear index) .done (s.erase index)

/-- Several calls of a set, with what is answered to them. -/
inductive FirstFits (length : ℕ) :
    Finset ℕ → List (BitmapCall × BitmapAnswer) → Finset ℕ → Prop
  | nil {s : Finset ℕ} : FirstFits length s [] s
  | cons {s t u : Finset ℕ} {call : BitmapCall} {answer : BitmapAnswer}
      {log : List (BitmapCall × BitmapAnswer)} : FirstFit length s call answer t →
      FirstFits length t log u → FirstFits length s ((call, answer) :: log) u

/-! ### What follows for sets -/

variable {length index : ℕ} {s t u : Finset ℕ} {call : BitmapCall} {answer : BitmapAnswer}
  {log front back : List (BitmapCall × BitmapAnswer)}

theorem FirstFits.of_append (h : FirstFits length s (front ++ back) u) :
    ∃ t, FirstFits length s front t ∧ FirstFits length t back u := by
  induction front generalizing s with
  | nil => exact ⟨s, .nil, h⟩
  | cons entry front ih =>
    cases h with
    | cons hfirst hrest =>
      obtain ⟨t, hfront, hback⟩ := ih hrest
      exact ⟨t, .cons hfirst hfront, hback⟩

/-- Only taking a number back makes it leave the set. -/
theorem FirstFit.mem_or_taken (h : FirstFit length s call answer t) (hmem : index ∈ s) :
    index ∈ t ∨ (call = .release index ∧ answer = .released true) ∨ call = .clear index := by
  cases h with
  | handed _ => exact .inl (Finset.mem_insert_of_mem hmem)
  | full _ => exact .inl hmem
  | released other =>
    by_cases hother : other = index
    · subst hother
      exact .inr (.inl ⟨rfl, by rw [decide_eq_true hmem]⟩)
    · exact .inl (Finset.mem_erase.mpr ⟨Ne.symm hother, hmem⟩)
  | set other =>
    left
    split
    · exact Finset.mem_insert_of_mem hmem
    · exact hmem
  | clear other =>
    by_cases hother : other = index
    · exact .inr (.inr (by rw [hother]))
    · exact .inl (Finset.mem_erase.mpr ⟨Ne.symm hother, hmem⟩)

/-- A number was taken back somewhere in a row of calls. -/
def TakenBack (index : ℕ) (log : List (BitmapCall × BitmapAnswer)) : Prop :=
  ∃ entry ∈ log, entry = (.release index, .released true) ∨ entry.1 = .clear index

theorem FirstFits.mem_or_takenBack (h : FirstFits length s log t) (hmem : index ∈ s) :
    index ∈ t ∨ TakenBack index log := by
  induction h with
  | nil => exact .inl hmem
  | cons hfirst _ ih =>
    rcases hfirst.mem_or_taken hmem with hkept | htaken
    · refine (ih hkept).imp_right ?_
      rintro ⟨entry, hentry, hback⟩
      exact ⟨entry, List.mem_cons_of_mem _ hentry, hback⟩
    · refine .inr ⟨_, List.mem_cons_self, htaken.imp_left ?_⟩
      rintro ⟨rfl, rfl⟩
      rfl

/-- **What is handed out twice was taken back in between.** -/
theorem FirstFits.taken_back {middle : List (BitmapCall × BitmapAnswer)}
    (h : FirstFits length s (front ++ (.alloc, .handed (some index)) ::
      (middle ++ (.alloc, .handed (some index)) :: back)) u) : TakenBack index middle := by
  obtain ⟨_, -, hfirst⟩ := h.of_append
  cases hfirst with
  | cons hhanded hrest =>
    cases hhanded with
    | handed _ =>
      obtain ⟨t, hmiddle, hsecond⟩ := hrest.of_append
      refine (hmiddle.mem_or_takenBack (Finset.mem_insert_self ..)).resolve_left fun hmem => ?_
      cases hsecond with
      | cons hagain _ =>
        cases hagain with
        | handed hleast => exact hleast.1.2 hmem

namespace Bitmap

variable {map : Bitmap} {other : ℕ}

/-! ### The members of a bitmap -/

theorem mem_members : index ∈ map.members ↔ map.isSet index = true := by
  rw [members, Finset.mem_filter, Finset.mem_range, isSet_eq, Bool.and_eq_true, decide_eq_true_iff]

theorem lt_of_mem_members (h : index ∈ map.members) : index < map.length :=
  lt_length_of_isSet (mem_members.mp h)

theorem count_eq_card (map : Bitmap) : map.count = map.members.card := by
  have hmembers : map.members = ((List.range map.length).filter map.isSet).toFinset := by
    ext index
    rw [mem_members, List.mem_toFinset, List.mem_filter, List.mem_range]
    exact ⟨fun h => ⟨lt_length_of_isSet h, h⟩, And.right⟩
  rw [hmembers, List.toFinset_card_of_nodup (List.nodup_range.filter _), count,
    List.countP_eq_length_filter]

theorem members_set (hfit : map.FitsSector) (h : index < map.length) :
    (map.set index).members = insert index map.members := by
  ext k
  rw [Finset.mem_insert, mem_members, mem_members, isSet_set hfit h, Bool.or_eq_true,
    decide_eq_true_iff]

theorem members_clear (hfit : map.FitsSector) (index : ℕ) :
    (map.clear index).members = map.members.erase index := by
  by_cases h : index < map.length
  · ext k
    rw [Finset.mem_erase, mem_members, mem_members, isSet_clear hfit h, Bool.and_eq_true,
      Bool.not_eq_true', decide_eq_false_iff_not]
  · rw [Finset.erase_eq_of_notMem fun hmem => h (lt_of_mem_members hmem), clear, if_neg h]

/-- What a call leaves alone: the length, and the bits at or beyond it. -/
structure Keeps (map left : Bitmap) : Prop where
  length : left.length = map.length
  beyond : ∀ k, map.length ≤ k → bitAt left.sector.bytes k = bitAt map.sector.bytes k

theorem Keeps.refl (map : Bitmap) : map.Keeps map := ⟨rfl, fun _ _ => rfl⟩

theorem Keeps.trans {left last : Bitmap} (h : map.Keeps left) (h' : left.Keeps last) :
    map.Keeps last :=
  ⟨h'.length.trans h.length,
    fun k hk => (h'.beyond k (by rw [h.length]; exact hk)).trans (h.beyond k hk)⟩

theorem Keeps.fitsSector {left : Bitmap} (h : map.Keeps left) (hfit : map.FitsSector) :
    left.FitsSector := by
  unfold FitsSector at *
  rwa [h.length]

theorem keeps_set (hfit : map.FitsSector) (index : ℕ) : map.Keeps (map.set index) := by
  by_cases h : index < map.length
  · refine ⟨length_set map index, fun k hk => ?_⟩
    rw [bitAt_set hfit h, decide_eq_false (by omega), Bool.false_or]
  · rw [set, if_neg h]
    exact .refl map

theorem keeps_clear (hfit : map.FitsSector) (index : ℕ) : map.Keeps (map.clear index) := by
  by_cases h : index < map.length
  · refine ⟨length_clear map index, fun k hk => ?_⟩
    rw [bitAt_clear hfit h, decide_eq_false (by omega), Bool.not_false, Bool.true_and]
  · rw [clear, if_neg h]
    exact .refl map

/-! ### Calls -/

theorem serve_alloc (map : Bitmap) : map.serve .alloc = match map.alloc? with
    | some (index, left) => (.handed (some index), left)
    | none => (.handed none, map) := rfl

theorem serve_release (map : Bitmap) (index : ℕ) : map.serve (.release index)
    = if map.isSet index then (.released true, map.clear index) else (.released false, map) := by
  show (match map.release? index with
    | some left => (BitmapAnswer.released true, left)
    | none => (.released false, map)) = _
  unfold release?
  cases map.isSet index <;> rfl

/-- **One call of a bitmap** is one of the set of its members. -/
theorem serve_firstFit (hfit : map.FitsSector) (call : BitmapCall) :
    FirstFit map.length map.members call (map.serve call).1 (map.serve call).2.members
      ∧ map.Keeps (map.serve call).2 := by
  cases call with
  | alloc =>
    cases halloc : map.alloc? with
    | none =>
      rw [serve_alloc, halloc]
      refine ⟨.full fun k hk => ?_, .refl map⟩
      exact mem_members.mpr (of_alloc?_eq_none hfit halloc k hk)
    | some found =>
      obtain ⟨index, left⟩ := found
      obtain ⟨hlt, hfree, hbelow, rfl⟩ := of_alloc?_eq_some halloc
      rw [← Bool.not_eq_true, ← mem_members] at hfree
      rw [serve_alloc, halloc]
      show FirstFit _ _ _ _ (map.set index).members ∧ _
      rw [members_set hfit hlt]
      refine ⟨.handed ⟨⟨hlt, hfree⟩, fun k hk => ?_⟩, keeps_set hfit index⟩
      exact Nat.not_lt.mp fun hless => hk.2 (mem_members.mpr (hbelow k hless))
  | release index =>
    have hanswer : FirstFit map.length map.members (.release index)
        (.released (decide (index ∈ map.members))) (map.members.erase index) := .released index
    by_cases hset : map.isSet index = true
    · rw [decide_eq_true (mem_members.mpr hset)] at hanswer
      rw [serve_release, if_pos hset, members_clear hfit]
      exact ⟨hanswer, keeps_clear hfit index⟩
    · have hnot : index ∉ map.members := mt mem_members.mp hset
      rw [decide_eq_false hnot, Finset.erase_eq_of_notMem hnot] at hanswer
      rw [serve_release, if_neg hset]
      exact ⟨hanswer, .refl map⟩
  | set index =>
    have hmembers : (map.set index).members
        = if index < map.length then insert index map.members else map.members := by
      split
      · rename_i h
        exact members_set hfit h
      · rename_i h
        rw [set, if_neg h]
    refine ⟨?_, keeps_set hfit index⟩
    show FirstFit map.length map.members (.set index) .done (map.set index).members
    rw [hmembers]
    exact .set index
  | clear index =>
    refine ⟨?_, keeps_clear hfit index⟩
    show FirstFit map.length map.members (.clear index) .done (map.clear index).members
    rw [members_clear hfit]
    exact .clear index

/-- **Any calls**, by induction. -/
theorem log_firstFits (hfit : map.FitsSector) (calls : List BitmapCall) :
    FirstFits map.length map.members (map.log calls) (map.after calls).members
      ∧ map.Keeps (map.after calls) := by
  induction calls generalizing map with
  | nil => exact ⟨.nil, .refl map⟩
  | cons call calls ih =>
    obtain ⟨hcall, hkeeps⟩ := serve_firstFit hfit call
    obtain ⟨hcalls, hkeeps'⟩ := ih (hkeeps.fitsSector hfit)
    rw [hkeeps.length] at hcalls
    exact ⟨.cons hcall hcalls, hkeeps.trans hkeeps'⟩

/-- **A bitmap behaves as a set that hands out the first number that is free.** Whatever a sector
holds, its first bits, no more than it has, answer any calls as the set of those that are set. The
set after the calls is counted, and read back from the sector; the bits beyond are what they were.
A number that is handed out twice was taken back in between. -/
theorem behaves_as_set (sector : Sector) {length : ℕ} (hlength : length ≤ bitsPerSector)
    (calls : List BitmapCall) :
    let map : Bitmap := ⟨sector, length⟩
    let left := map.after calls
    FirstFits length map.members (map.log calls) left.members
      ∧ (∀ index, left.isSet index = true ↔ index ∈ left.members)
      ∧ (∀ index ∈ left.members, index < length)
      ∧ left.count = left.members.card
      ∧ (∀ k, length ≤ k → bitAt left.sector.bytes k = bitAt sector.bytes k)
      ∧ (⟨left.sector, length⟩ : Bitmap) = left
      ∧ ∀ front middle back index, map.log calls = front ++ (.alloc, .handed (some index)) ::
          (middle ++ (.alloc, .handed (some index)) :: back) → TakenBack index middle := by
  intro map left
  have hfit : map.FitsSector := hlength
  obtain ⟨hcalls, hkeeps⟩ := log_firstFits hfit calls
  have hsame : left.length = length := hkeeps.length
  refine ⟨hcalls, fun index => mem_members.symm, fun index hindex => ?_, left.count_eq_card,
    hkeeps.beyond, ?_, fun front middle back index hlog => ?_⟩
  · rw [← hsame]
    exact lt_of_mem_members hindex
  · rw [← hsame]
  · rw [hlog] at hcalls
    exact hcalls.taken_back

/-- Ten numbers, of which 0, 2 and 9 are taken; the six bits beyond are set as well. The 1 is handed
out twice. -/
theorem behaves_as_set_ten :
    let map : Bitmap := ⟨.ofBytes [0x05, 0xFE], 10⟩
    let calls : List BitmapCall :=
      [.alloc, .alloc, .release 12, .release 1, .clear 12, .alloc, .set 8, .clear 9, .alloc]
    let middle : List (BitmapCall × BitmapAnswer) := [(.alloc, .handed (some 3)),
      (.release 12, .released false), (.release 1, .released true), (.clear 12, .done)]
    let back : List (BitmapCall × BitmapAnswer) :=
      [(.set 8, .done), (.clear 9, .done), (.alloc, .handed (some 4))]
    map.log calls = [] ++ (.alloc, .handed (some 1)) ::
        (middle ++ (.alloc, .handed (some 1)) :: back)
      ∧ FirstFits 10 {0, 2, 9} (map.log calls) {0, 1, 2, 3, 4, 8}
      ∧ bitAt (map.after calls).sector.bytes 12 = true
      ∧ TakenBack 1 middle := by
  intro map calls middle back
  have hlog : map.log calls = [] ++ (.alloc, .handed (some 1)) ::
      (middle ++ (.alloc, .handed (some 1)) :: back) := by decide +kernel
  have hfirst : map.members = {0, 2, 9} := by decide +kernel
  have hlast : (map.after calls).members = {0, 1, 2, 3, 4, 8} := by decide +kernel
  have hbit : bitAt map.sector.bytes 12 = true := by decide +kernel
  have hmain := behaves_as_set map.sector (show 10 ≤ bitsPerSector by decide) calls
  have hcalls : FirstFits 10 map.members (map.log calls) (map.after calls).members := hmain.1
  have hbeyond : bitAt (map.after calls).sector.bytes 12 = bitAt map.sector.bytes 12 := by
    clear_value calls
    exact hmain.2.2.2.2.1 12 (by decide)
  have htaken := hmain.2.2.2.2.2.2 [] middle back 1 hlog
  refine ⟨hlog, ?_, hbeyond.trans hbit, htaken⟩
  rw [hfirst, hlast] at hcalls
  exact hcalls

end Bitmap

end PocketKernel
