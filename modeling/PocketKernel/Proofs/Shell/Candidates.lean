import Mathlib.Data.List.DropRight
import PocketKernel.Proofs.Shell.Inputs
import PocketKernel.Proofs.Text.Slices
import PocketKernel.Proofs.Volume.Redirect

/-!
# The names that a word is completed to

The word before the cursor begins behind the last separator. If nothing but blanks stands between it
and the start of the line or a bar, it is the name of a command. Otherwise it is a path, and what it
is completed to are the entries of the directory that its part up to the last slash leads to.

What is wanted then depends on how many names go on with the word: nothing if there is none, the
rest of the name and what ends it if there is one, and otherwise the longest text that all of them
go on with. This is said here without the way in which it is computed.

## Main definitions

* `Text.CutBehind`, `Text.StartsStage`: where a word begins, and that it is a command there.
* `Session.listed`, `Session.Offers`: the entries of a directory, and the names for a word.
* `Session.Typeable`: all names can be typed.
* `Completion.Wanted`: what is to be typed.

## Main results

* `Candidate.prefix_commonStart_iff`: what several names start with.
* `Completion.wanted_typed`: what is wanted is found.
* `Session.Offers.run_candidates`: the names are found, and looking for them changes nothing.
-/

namespace PocketKernel

/-! ### Words -/

namespace Text

variable {isEnd : Char → Bool} {text front back head : Text}

/-- A text in two parts, cut behind the last character of a class, or at its start if there is no
such character. -/
structure CutBehind (isEnd : Char → Bool) (text front back : Text) : Prop where
  append_eq : front ++ back = text
  ends : ∀ c ∈ front.getLast?, isEnd c = true
  free : ∀ c ∈ back, isEnd c = false

/-- What is left when characters of a class are taken from the end, and what was taken. -/
theorem rdropWhile_append (taken : Char → Bool) (hfront : ∀ c ∈ front.getLast?, taken c = false)
    (hback : ∀ c ∈ back, taken c = true) : (front ++ back).rdropWhile taken = front
      ∧ (front ++ back).rtakeWhile taken = back := by
  induction back using List.reverseRecOn with
  | nil =>
    rw [List.append_nil, List.rdropWhile_eq_self_iff, List.rtakeWhile_eq_nil_iff, and_self]
    intro hne
    rw [hfront _ (List.getLast?_eq_some_getLast hne)]
    exact Bool.false_ne_true
  | append_singleton back c ih =>
    obtain ⟨hdrop, htake⟩ := ih fun d hd => hback d (List.mem_append_left _ hd)
    have hc : taken c = true := hback c (List.mem_append_right _ (List.mem_singleton_self c))
    rw [← List.append_assoc, List.rdropWhile_concat_pos _ _ _ hc,
      List.rtakeWhile_concat_pos _ _ _ hc, hdrop, htake]
    exact ⟨rfl, rfl⟩

theorem cutBehind_splitBehind (isEnd : Char → Bool) (text : Text) :
    CutBehind isEnd text (splitBehind isEnd text).1 (splitBehind isEnd text).2 := by
  refine ⟨splitBehind_append isEnd text, fun c hc => ?_, fun c hc => ?_⟩
  · have hne : text.rdropWhile (fun c => !isEnd c) ≠ [] := List.ne_nil_of_mem
      (List.mem_of_getLast? hc)
    have hlast := List.rdropWhile_last_not (fun c => !isEnd c) text hne
    cases (List.getLast?_eq_some_getLast hne).symm.trans hc
    simpa using hlast
  · simpa using List.mem_rtakeWhile_imp hc

/-- There is only one place where it can be cut. -/
theorem CutBehind.splitBehind_eq (h : CutBehind isEnd text front back) :
    splitBehind isEnd text = (front, back) := by
  obtain ⟨rfl, hends, hfree⟩ := h
  obtain ⟨hdrop, htake⟩ := rdropWhile_append (fun c => !isEnd c)
    (fun c hc => by rw [hends c hc]; rfl) (fun c hc => by rw [hfree c hc]; rfl)
  exact Prod.ext hdrop htake

/-- Nothing but blanks stands behind the start of the line, or behind a bar. -/
def StartsStage (head : Text) : Prop :=
  ∃ front count, head = front ++ List.replicate count ' ' ∧ ∀ c ∈ front.getLast?, c = '|'

/-- The only blank that can be typed. -/
theorem eq_blank_of_isPrintable {c : Char} (h : isPrintable c = true) (hblank : isBlank c = true) :
    c = ' ' := by
  obtain ⟨hlow, hhigh⟩ := toNat_of_isPrintable h
  have hnat : c.toNat = ' '.toNat := by
    simp only [isBlank, blankRanges, List.any_cons, List.any_nil, Bool.or_eq_true,
      Bool.and_eq_true, decide_eq_true_eq, Bool.false_eq_true, or_false] at hblank
    show c.toNat = 32
    omega
  exact Char.toNat_inj.mp hnat

theorem startsStage_iff (h : ∀ c ∈ head, isPrintable c = true) :
    StartsStage head ↔ ∀ c ∈ (trimEnd head).getLast?, c = '|' := by
  constructor
  · rintro ⟨front, count, rfl, hfront⟩
    have htrim : trimEnd (front ++ List.replicate count ' ') = front :=
      (rdropWhile_append isBlank (fun c hc => by rw [hfront c hc]; decide)
        (fun c hc => by rw [List.eq_of_mem_replicate hc]; decide)).1
    rw [htrim]
    exact hfront
  · intro hlast
    have hblanks : head.rtakeWhile isBlank
        = List.replicate (head.rtakeWhile isBlank).length ' ' := by
      refine List.eq_replicate_iff.mpr ⟨rfl, fun c hc => ?_⟩
      exact eq_blank_of_isPrintable (h c ((List.rtakeWhile_suffix _ _).subset hc))
        (List.mem_rtakeWhile_imp hc)
    refine ⟨trimEnd head, (head.rtakeWhile isBlank).length, ?_, hlast⟩
    rw [← hblanks]
    exact List.rdropWhile_append_rtakeWhile.symm

/-! ### What several names start with -/

/-- Both texts start with something if what they have in common does. -/
theorem prefix_commonStart_iff {start text text' : Text} :
    start <+: commonStart text text' ↔ start <+: text ∧ start <+: text' := by
  induction text generalizing start text' with
  | nil =>
    rw [commonStart.eq_def, List.prefix_nil]
    exact (and_iff_left_of_imp fun h => h ▸ List.nil_prefix).symm
  | cons c text ih =>
    cases text' with
    | nil =>
      rw [commonStart.eq_def, List.prefix_nil]
      exact (and_iff_right_of_imp fun h => h ▸ List.nil_prefix).symm
    | cons d text' =>
      rw [commonStart]
      cases start with
      | nil => exact iff_of_true List.nil_prefix ⟨List.nil_prefix, List.nil_prefix⟩
      | cons b start =>
        split
        next heq =>
          rw [List.cons_prefix_cons, List.cons_prefix_cons, List.cons_prefix_cons, ih, ← heq]
          exact ⟨fun h => ⟨⟨h.1, h.2.1⟩, h.1, h.2.2⟩, fun h => ⟨h.1.1, h.1.2, h.2.2⟩⟩
        next hne =>
          rw [List.cons_prefix_cons, List.cons_prefix_cons]
          refine iff_of_false (fun h => List.cons_ne_nil _ _ (List.prefix_nil.mp h)) fun h => hne ?_
          exact h.1.1.symm.trans h.2.1

end Text

/-- All names start with something if what they have in common does. -/
theorem Candidate.prefix_commonStart_iff {start : Text} {first : Candidate}
    {others : List Candidate} : start <+: Candidate.commonStart first others
      ↔ ∀ candidate ∈ first :: others, start <+: candidate.name := by
  have hfold (common : Text) : start <+: others.foldl
        (fun common other => Text.commonStart common other.name) common
      ↔ start <+: common ∧ ∀ other ∈ others, start <+: other.name := by
    induction others generalizing common with
    | nil => exact (and_iff_left nofun).symm
    | cons other others ih =>
      rw [List.foldl_cons, ih, Text.prefix_commonStart_iff, List.forall_mem_cons, and_assoc]
  rw [List.forall_mem_cons]
  exact hfold first.name

/-! ### What is wanted -/

namespace Completion

/-- What is to be typed behind what is there, by the names that start with it. -/
inductive Wanted (start : Text) : List Candidate → Text → Prop
  | nothing : Wanted start [] []
  /-- The rest of the only name, and what ends it. -/
  | whole {candidate : Candidate} {rest : Text} : candidate.name = start ++ rest →
      Wanted start [candidate] (rest ++ [if candidate.isDirectory then '/' else ' '])
  /-- The longest text that all names go on with. -/
  | common {candidates : List Candidate} {rest : Text} : 2 ≤ candidates.length →
      (∀ candidate ∈ candidates, start ++ rest <+: candidate.name) →
      (∀ longer, (∀ candidate ∈ candidates, start ++ longer <+: candidate.name) →
        longer <+: rest) →
      Wanted start candidates rest

/-- What the key types. -/
def typed : Completion → Text
  | nothing => []
  | whole rest ending => rest ++ [ending]
  | part rest => rest
  | listing _ => []

variable {start : Text} {candidates : List Candidate}

/-- Several names have what is there in common, and then what is wanted. -/
theorem wanted_common {first : Candidate} {others : List Candidate} (hmany : others ≠ [])
    (h : ∀ candidate ∈ first :: others, start <+: candidate.name) :
    ∃ rest, Candidate.commonStart first others = start ++ rest
      ∧ Wanted start (first :: others) rest := by
  obtain ⟨rest, hrest⟩ := Candidate.prefix_commonStart_iff.mpr h
  refine ⟨rest, hrest.symm, .common ?_ ?_ fun longer hlonger => ?_⟩
  · exact Nat.succ_le_succ (List.length_pos_iff.mpr hmany)
  · rw [hrest]
    exact Candidate.prefix_commonStart_iff.mp List.prefix_rfl
  · rw [← Candidate.prefix_commonStart_iff, ← hrest] at hlonger
    exact (List.prefix_append_right_inj start).mp hlonger

/-- **What is wanted is found.** Names are listed if there are several and nothing is wanted. -/
theorem wanted_typed (h : ∀ candidate ∈ candidates, start <+: candidate.name) :
    Wanted start candidates (ofCandidates start candidates).typed
      ∧ (2 ≤ candidates.length → (ofCandidates start candidates).typed = [] →
        ofCandidates start candidates = .listing candidates) := by
  match candidates with
  | [] => exact ⟨.nothing, nofun⟩
  | [candidate] =>
    obtain ⟨rest, hrest⟩ := h candidate (List.mem_singleton_self candidate)
    have htyped : (ofCandidates start [candidate]).typed
        = rest ++ [if candidate.isDirectory then '/' else ' '] := by
      rw [ofCandidates, typed, ← hrest, List.drop_left]
      rfl
    rw [htyped]
    exact ⟨.whole hrest.symm, fun hmany => absurd hmany (Nat.lt_irrefl 1)⟩
  | first :: second :: others =>
    obtain ⟨rest, hcommon, hwanted⟩ := wanted_common (List.cons_ne_nil second others) h
    rw [ofCandidates.eq_def]
    dsimp only
    rw [hcommon, List.length_append, List.drop_left]
    split
    next hlt => exact ⟨hwanted, fun _ hnil => absurd hlt (by rw [show rest = [] from hnil]; simp)⟩
    next hge =>
      obtain rfl : rest = [] := List.length_eq_zero_iff.mp (by omega)
      exact ⟨hwanted, fun _ _ => rfl⟩

/-- What is wanted can be typed if the names can. -/
theorem Wanted.isPrintable {wanted : Text} (h : Wanted start candidates wanted)
    (hnames : ∀ candidate ∈ candidates, ∀ c ∈ candidate.name, isPrintable c = true) :
    ∀ c ∈ wanted, isPrintable c = true := by
  cases h with
  | nothing => exact nofun
  | @whole candidate rest hname =>
    rw [List.forall_mem_append, List.forall_mem_singleton]
    constructor
    · intro c hc
      refine hnames candidate (List.mem_singleton_self candidate) c ?_
      exact hname ▸ List.mem_append_right start hc
    · split <;> decide
  | common hmany hcommon =>
    intro c hc
    obtain ⟨candidate, hcandidate⟩ := List.exists_mem_of_length_pos (Nat.lt_of_succ_lt hmany)
    refine hnames candidate hcandidate c ((hcommon candidate hcandidate).subset ?_)
    exact List.mem_append_right start hc

end Completion

/-! ### The names for a word -/

section Volumes

variable {δ σ : Type} [BlockDevice δ] [LawfulDevice δ] {g : Geometry}

/-- The entries of the directory at a path, if it leads to one. -/
def Snapshot.linesAt (w : Snapshot) (path : Text) : List DirectoryEntry :=
  match w.resolve path with
  | .ok index => if (w.memory.inode index).isDirectory then w.lines index else []
  | .error _ => []

/-- What is certain of a volume while no transfer is refused: it is intact if it is mounted. -/
structure Volume.Faultless (g : Geometry) (v : Volume δ) : Prop where
  regular : v.Regular g
  intact : v.mounted = true → v.Intact g

omit [LawfulDevice δ] in
/-- A volume that is not mounted refuses every call. -/
theorem Volume.called_unmounted {v : Volume δ} (h : v.mounted = false) (calls : List Call) :
    v.called calls = v := by
  induction calls with
  | nil => rfl
  | cons call calls ih =>
    rw [Volume.called, List.foldl_cons, Volume.call_unmounted h]
    exact ih

/-- **No move ends it.** -/
theorem Session.lasting_faultless :
    Session.Lasting fun session : Session δ σ => session.volume.Faultless g := by
  refine ⟨fun {session later} hmove hkept => ?_, fun _ hkept => hkept⟩
  have hcalled (calls : List Call) : (session.volume.called calls).Faultless g := by
    cases hmounted : session.volume.mounted with
    | false =>
      rw [Volume.called_unmounted hmounted]
      exact hkept
    | true =>
      exact ⟨hkept.regular.called calls, fun _ => (hkept.intact hmounted).called calls⟩
  cases hmove with
  | written bytes => exact hkept
  | told hevents => exact hkept
  | asked system => exact hkept
  | called calls => exact hcalled calls
  | entered hpath hstat => exact hcalled _

/-- The entries of the directory that a path leads to from the working directory; of the working
directory itself if the path is empty. -/
def Session.listed (session : Session δ σ) (directory : Text) : List DirectoryEntry :=
  if session.volume.mounted then
    match Path.resolve? session.directory (if directory = [] then ['.'] else directory) with
    | some path => session.volume.snapshot.linesAt path
    | none => []
  else []

/-- Every name in a directory that a path leads to can be typed. -/
def Session.Typeable (session : Session δ σ) : Prop :=
  ∀ directory, ∀ entry ∈ session.listed directory, ∀ c ∈ entry.text, isPrintable c = true

/-- It is enough to look into all inodes. -/
theorem Session.typeable_of_lines {session : Session δ σ} (hvolume : session.volume.Faultless g)
    (h : ∀ index < g.inodeCount, ∀ entry ∈ session.volume.snapshot.lines index,
      ∀ c ∈ entry.text, isPrintable c = true) : session.Typeable := by
  intro directory entry hentry
  rw [listed] at hentry
  split at hentry
  next hmounted =>
    split at hentry
    next path hpath =>
      rw [Snapshot.linesAt] at hentry
      split at hentry
      next index hresolve =>
        split at hentry
        · have hknown := (hvolume.intact hmounted).sound.known_resolve hresolve
          exact h index hknown.lt entry hentry
        · cases hentry
      next => cases hentry
    next => cases hentry
  next => cases hentry

/-- The names that go on with the last word of a text, and the part of the word that they start
with. -/
inductive Session.Offers (session : Session δ σ) (before : Text) : Text → List Candidate → Prop
  | command {head word : Text} : Text.CutBehind CompletionPoint.isSeparator before head word →
      Text.StartsStage head →
      Offers session before word
        ((Command.all.map fun command => (⟨command.name, false⟩ : Candidate)).filter
          (word.isPrefixOf ·.name))
  | path {head word directory start : Text} :
      Text.CutBehind CompletionPoint.isSeparator before head word → ¬ Text.StartsStage head →
      Text.CutBehind (· = '/') word directory start →
      Offers session before start
        (((session.listed directory).map fun entry =>
          (⟨entry.text, entry.stat.isDirectory⟩ : Candidate)).filter (start.isPrefixOf ·.name))

namespace SessionM

variable {session : Session δ σ}

/-- To look into a directory changes nothing. -/
theorem run_entriesOf (h : session.volume.Intact g) (path : Text) :
    ∃ volume, session.volume.Untouched volume
      ∧ (entriesOf path).run.run session
        = (.ok (session.volume.snapshot.linesAt path), { session with volume := volume }) := by
  have hstat := h.run_stat path
  have huntouched := (Volume.looks_stat path).untouched h.shaped
  rw [Volume.Ends] at huntouched
  rw [entriesOf, run_onVolume_bind, Snapshot.linesAt]
  rw [Snapshot.stat] at hstat
  rcases hrun : session.volume.run (VolumeM.stat path) with ⟨outcome, w⟩
  rw [hrun] at hstat huntouched
  cases hresolve : session.volume.snapshot.resolve path with
  | error cause =>
    rw [hresolve] at hstat
    obtain rfl : outcome = .error (.error cause) := hstat
    exact ⟨w, huntouched, rfl⟩
  | ok index =>
    rw [hresolve] at hstat
    obtain rfl : outcome = .ok (session.volume.snapshot.statOf index) := hstat
    rw [Snapshot.statOf]
    dsimp only
    cases hdirectory : (session.volume.snapshot.memory.inode index).isDirectory with
    | false => exact ⟨w, huntouched, rfl⟩
    | true =>
      obtain ⟨hw, hsnapshot⟩ := h.after_stat hrun
      have hlist := hw.run_list path
      have huntouched' := (Volume.looks_list path).untouched hw.shaped
      rw [Volume.Ends] at huntouched'
      rw [Snapshot.list, hsnapshot, hresolve] at hlist
      dsimp only
      rw [run_onVolume_bind]
      dsimp only
      rcases hrun' : w.run (VolumeM.list path) with ⟨outcome, x⟩
      rw [hrun'] at hlist huntouched'
      obtain rfl : outcome = .ok (session.volume.snapshot.lines index) := by
        refine hlist.trans ?_
        rw [Except.map, if_pos hdirectory]
        rfl
      exact ⟨x, huntouched.trans huntouched', rfl⟩

/-- An entry whose name can be typed is looked at. -/
theorem ofEntries_eq {entries : List DirectoryEntry}
    (h : ∀ entry ∈ entries, ∀ c ∈ entry.text, isPrintable c = true) (start : Text) :
    Candidate.ofEntries start entries = (entries.map fun entry =>
      (⟨entry.text, entry.stat.isDirectory⟩ : Candidate)).filter (start.isPrefixOf ·.name) := by
  have hentry : ∀ entry ∈ entries, Candidate.ofEntry? entry
      = some ⟨entry.text, entry.stat.isDirectory⟩ := by
    intro entry hmem
    refine if_pos (List.all_eq_true.mpr fun c hc => decide_eq_true ?_)
    exact Nat.lt_of_le_of_lt (Text.toNat_of_isPrintable (h entry hmem c hc)).2 (by decide)
  rw [Candidate.ofEntries, List.filterMap_congr hentry, List.filterMap_eq_map']

end SessionM

namespace CompletionPoint

variable {before head word directory start : Text}

theorem ofText_of_startsStage (hbefore : ∀ c ∈ before, isPrintable c = true)
    (hcut : Text.CutBehind isSeparator before head word) (hstage : Text.StartsStage head) :
    ofText before = ⟨true, [], word⟩ := by
  have hlast := (Text.startsStage_iff fun c hc => hbefore c
    (hcut.append_eq ▸ List.mem_append_left _ hc)).mp hstage
  rw [ofText, hcut.splitBehind_eq]
  dsimp only
  cases htrimmed : (Text.trimEnd head).getLast? with
  | none => rfl
  | some c =>
    obtain rfl := hlast c htrimmed
    rfl

theorem ofText_of_not_startsStage (hbefore : ∀ c ∈ before, isPrintable c = true)
    (hcut : Text.CutBehind isSeparator before head word) (hstage : ¬ Text.StartsStage head)
    (hword : Text.CutBehind (· = '/') word directory start) :
    ofText before = ⟨false, directory, start⟩ := by
  have hlast := mt (Text.startsStage_iff fun c hc => hbefore c
    (hcut.append_eq ▸ List.mem_append_left _ hc)).mpr hstage
  rw [ofText, hcut.splitBehind_eq]
  dsimp only
  cases htrimmed : (Text.trimEnd head).getLast? with
  | none =>
    rw [htrimmed] at hlast
    exact absurd nofun hlast
  | some c =>
    rw [htrimmed] at hlast
    split
    next hnone => cases hnone
    next hbar =>
      cases hbar
      exact absurd (fun _ h => (Option.some.inj h).symm) hlast
    next =>
      rw [hword.splitBehind_eq]

end CompletionPoint

namespace Session.Offers

variable {session : Session δ σ} {before start : Text} {candidates : List Candidate}

/-- Every word is offered some names, though there may be none. -/
theorem exists_offers (session : Session δ σ) (before : Text) :
    ∃ start candidates, session.Offers before start candidates := by
  have hcut := Text.cutBehind_splitBehind CompletionPoint.isSeparator before
  by_cases hstage : Text.StartsStage (Text.splitBehind CompletionPoint.isSeparator before).1
  · exact ⟨_, _, .command hcut hstage⟩
  · exact ⟨_, _, .path hcut hstage (Text.cutBehind_splitBehind _ _)⟩

theorem start_prefix (h : session.Offers before start candidates) :
    ∀ candidate ∈ candidates, start <+: candidate.name := by
  intro candidate hcandidate
  cases h with
  | command => exact List.isPrefixOf_iff_prefix.mp (List.mem_filter.mp hcandidate).2
  | path => exact List.isPrefixOf_iff_prefix.mp (List.mem_filter.mp hcandidate).2

/-- Names that are offered can be typed if the entries of directories can. -/
theorem isPrintable_name (h : session.Offers before start candidates)
    (hnames : session.Typeable) :
    ∀ candidate ∈ candidates, ∀ c ∈ candidate.name, isPrintable c = true := by
  intro candidate hcandidate
  cases h with
  | command =>
    obtain ⟨command, -, rfl⟩ := List.mem_map.mp (List.mem_filter.mp hcandidate).1
    exact List.all_eq_true.mp (by cases command <;> rfl)
  | path =>
    obtain ⟨entry, hentry, rfl⟩ := List.mem_map.mp (List.mem_filter.mp hcandidate).1
    exact hnames _ entry hentry

/-- **The names are found**, and looking for them changes nothing. -/
theorem run_candidates (h : session.Offers before start candidates)
    (hbefore : ∀ c ∈ before, isPrintable c = true) (hvolume : session.volume.Faultless g)
    (hnames : session.Typeable) :
    (CompletionPoint.ofText before).start = start
      ∧ ∃ volume, session.volume.Untouched volume
        ∧ (SessionM.candidates (CompletionPoint.ofText before)).run.run session
          = (.ok candidates, { session with volume := volume }) := by
  cases h with
  | command hcut hstage =>
    rw [CompletionPoint.ofText_of_startsStage hbefore hcut hstage]
    exact ⟨rfl, session.volume, .refl _, rfl⟩
  | @path head word directory start hcut hstage hword =>
    rw [CompletionPoint.ofText_of_not_startsStage hbefore hcut hstage hword,
      ← SessionM.ofEntries_eq (hnames directory)]
    refine ⟨rfl, ?_⟩
    rw [SessionM.candidates, if_neg Bool.false_ne_true, SessionM.run_get_bind, listed]
    cases hmounted : session.volume.mounted with
    | false => exact ⟨session.volume, .refl _, rfl⟩
    | true =>
      simp only [Bool.not_true, Bool.false_eq_true, if_false, if_true]
      rw [SessionM.run_resolve?_bind]
      cases Path.resolve? session.directory (if directory = [] then ['.'] else directory) with
      | none => exact ⟨session.volume, .refl _, rfl⟩
      | some path =>
        obtain ⟨volume, huntouched, hrun⟩ :=
          SessionM.run_entriesOf (hvolume.intact hmounted) path
        refine ⟨volume, huntouched, ?_⟩
        dsimp only
        rw [SessionM.run_bind, hrun]
        rfl

end Session.Offers

end Volumes

end PocketKernel
