import PocketKernel.Proofs.Shell.Candidates
import PocketKernel.Proofs.Shell.EditedLine

/-!
# The completion key

The completion key changes the line by typing at the cursor what is wanted there, as far as there is
room for it. If several names go on with the word, and no character is common to all of them, they
are listed, and the line stays as it is. Nothing else changes: not the working directory, not the
history or the position in it, and nothing on the volume, which is only looked at.

## Main definitions

* `Shell.Completes`: what the key does.

## Main results

* `EditM.run_insertAll`: a text is typed at the cursor.
* `Shell.run_complete`: the key in any shell whose line can be edited.
* `Shell.completes_pressed`: the key in a new shell, after any others.
-/

namespace PocketKernel

open Text

/-! ### Typing a text -/

namespace EditM

variable {before behind text : Text} {c : Char}

/-- A character is typed at the cursor if there is room for it. -/
theorem run_insert (h : Typed (before ++ behind)) (hc : isPrintable c = true)
    (recalled : Option ℕ) (shown : List ConsoleEvent) : ∃ said,
      (insert c).run (.between before behind recalled shown)
        = some ((), .between
          (before ++ [c].take (LineEditor.sizeLimit - (before ++ behind).length)) behind recalled
          (shown ++ said)) := by
  by_cases hroom : (before ++ behind).length < LineEditor.sizeLimit
  · have htyped : Typed (before ++ c :: behind) := h.insert hc hroom
    rw [List.take_of_length_le (Nat.sub_pos_of_lt hroom)]
    by_cases hne : behind = []
    · subst hne
      exact ⟨_, run_insert_end htyped⟩
    · exact ⟨_, run_insert_middle htyped hne⟩
  · rw [Nat.sub_eq_zero_of_le (Nat.le_of_not_lt hroom), List.take_zero, List.append_nil]
    refine ⟨[], ?_⟩
    rw [List.append_nil]
    exact run_insert_full h (Nat.le_of_not_lt hroom)

/-- **A text is typed at the cursor**, as far as there is room for it. -/
theorem run_insertAll (htext : ∀ c ∈ text, isPrintable c = true) (h : Typed (before ++ behind))
    (recalled : Option ℕ) (shown : List ConsoleEvent) : ∃ said,
      (insertAll text).run (.between before behind recalled shown)
        = some ((), .between
          (before ++ text.take (LineEditor.sizeLimit - (before ++ behind).length)) behind recalled
          (shown ++ said)) := by
  rw [insertAll, List.filter_eq_self.mpr htext]
  induction text generalizing before shown with
  | nil =>
    refine ⟨[], ?_⟩
    rw [List.take_nil, List.append_nil, List.append_nil]
    rfl
  | cons c text ih =>
    rw [List.forall_mem_cons] at htext
    obtain ⟨said, hinsert⟩ := run_insert h htext.1 recalled shown
    rw [List.forM_eq_forM, List.forM_cons, StateT.run_bind, hinsert, Option.bind_eq_bind,
      Option.bind_some, ← List.forM_eq_forM]
    cases hroom : LineEditor.sizeLimit - (before ++ behind).length with
    | zero =>
      obtain ⟨more, hmore⟩ := ih htext.2 h (shown ++ said)
      rw [hroom, List.take_zero, List.append_nil] at hmore
      rw [List.take_zero, List.take_zero, List.append_nil, hmore]
      exact ⟨said ++ more, by rw [List.append_assoc]⟩
    | succ room =>
      have hlt : (before ++ behind).length < LineEditor.sizeLimit := by omega
      have htyped : Typed (before ++ [c] ++ behind) := by
        rw [List.append_assoc]
        exact h.insert htext.1 hlt
      have hrest : LineEditor.sizeLimit - (before ++ [c] ++ behind).length = room := by
        rw [List.append_assoc, List.length_append, List.length_append, List.length_singleton]
        rw [List.length_append] at hroom
        omega
      obtain ⟨more, hmore⟩ := ih htext.2 htyped (shown ++ said)
      rw [hrest, List.append_assoc before [c]] at hmore
      rw [List.take_succ_cons, List.take_nil, List.take_succ_cons]
      exact ⟨said ++ more, by rw [← List.append_assoc]; exact hmore⟩

/-- What ends a text is typed like the text. -/
theorem insertAll_concat (text : Text) (hc : isPrintable c = true) :
    insertAll (text ++ [c]) = (do insertAll text; insert c) := by
  rw [insertAll, List.filter_append, List.filter_cons_of_pos hc, List.filter_nil, insertAll,
    List.forM_eq_forM, List.forM_append]
  refine bind_congr fun _ => ?_
  rw [List.forM_cons, List.forM_nil, bind_pure_unit]

end EditM

/-! ### The key -/

namespace Shell

variable {δ σ : Type} {shell : Shell δ σ} {before behind wanted : Text}
  {candidates : List Candidate}

/-- What the completion key does: what is wanted is typed at the cursor, as far as there is room for
it. If nothing is wanted though several names go on with the word, these are listed. Apart from the
line, the cursor and the console, everything is as before. -/
def Completes [BlockDevice δ] [LawfulDevice δ] (shell : Shell δ σ) (before behind wanted : Text)
    (candidates : List Candidate) (ended : Except Halt Unit × Shell δ σ) : Prop :=
  let typed := wanted.take (127 - (before ++ behind).length)
  ∃ volume said, shell.session.volume.Untouched volume
    ∧ (2 ≤ candidates.length → wanted = [] → .text (List.flatten [['\n'],
        List.intercalate [' ', ' '] (candidates.map Candidate.shown), ['\n']]) ∈ said)
    ∧ ended = (.ok (), { shell with
      editor := ⟨before ++ typed ++ behind, (before ++ typed).length, shell.editor.recalled⟩
      session := { shell.session with
        volume := volume
        console := shell.session.console ++ said } })

/-- What is wanted is typed. -/
theorem run_edit_insertAll (heditor : shell.editor = ⟨before ++ behind, before.length,
      shell.editor.recalled⟩) (htyped : Typed (before ++ behind))
    (hwanted : ∀ c ∈ wanted, isPrintable c = true) :
    let typed := wanted.take (127 - (before ++ behind).length)
    ∃ said, shell.run (ShellM.edit (EditM.insertAll wanted)) = (.ok (), { shell with
      editor := ⟨before ++ typed ++ behind, (before ++ typed).length, shell.editor.recalled⟩
      session := { shell.session with console := shell.session.console ++ said } }) := by
  obtain ⟨said, hrun⟩ := EditM.run_insertAll hwanted htyped shell.editor.recalled []
  rw [Editing.between, ← heditor] at hrun
  exact ⟨said, ShellM.run_edit hrun⟩

/-- Names are listed, and what was typed is written again behind a new question. -/
theorem run_listing (shell : Shell δ σ) (candidates : List Candidate) :
    ∃ said, .text (List.flatten [['\n'],
        List.intercalate [' ', ' '] (candidates.map Candidate.shown), ['\n']]) ∈ said
      ∧ shell.run (do ShellM.listCandidates candidates; ShellM.showAgain)
        = (.ok (), { shell with session := { shell.session with
          console := shell.session.console ++ said } }) := by
  have happend (first second third fourth : ConsoleEvent) :
      shell.session.console ++ [first, second, third, fourth]
        = shell.session.console ++ [first] ++ [second] ++ [third] ++ [fourth] := by
    simp only [List.append_assoc, List.cons_append, List.nil_append]
  refine ⟨[_, .text (List.flatten ["lux:", shell.session.directory, "> "]),
    .text (List.flatten [shell.editor.line]),
    .left (shell.editor.size - shell.editor.cursor)], List.mem_cons_self, ?_⟩
  rw [happend]
  rfl

section Offered

variable [BlockDevice δ] [LawfulDevice δ] {g : Geometry} {start : Text}

/-- **The names are looked for.** -/
theorem run_completion_offered
    (heditor : shell.editor = ⟨before ++ behind, before.length, shell.editor.recalled⟩)
    (hbefore : ∀ c ∈ before, isPrintable c = true) (hvolume : shell.session.volume.Faultless g)
    (hnames : shell.session.Typeable) (hoffers : shell.session.Offers before start candidates) :
    ∃ volume, shell.session.volume.Untouched volume
      ∧ shell.run ShellM.completion = (.ok (Completion.ofCandidates start candidates),
        { shell with session := { shell.session with volume := volume } }) := by
  obtain ⟨hstart, volume, huntouched, hcandidates⟩ :=
    hoffers.run_candidates hbefore hvolume hnames
  have hcut : splitAtByte? shell.editor.line shell.editor.cursor = some (before, behind) := by
    rw [heditor, ← utf8Size_eq_length hbefore, splitAtByte?_append]
  refine ⟨volume, huntouched, ?_⟩
  rw [ShellM.completion, ShellM.run_get_bind]
  dsimp only
  rw [hcut]
  dsimp only
  rw [ShellM.run_bind, ShellM.run_inSession, hcandidates, ← hstart]
  rfl

/-- **The completion key** in any shell whose line can be edited. -/
theorem run_complete
    (heditor : shell.editor = ⟨before ++ behind, before.length, shell.editor.recalled⟩)
    (htyped : Typed (before ++ behind)) (hvolume : shell.session.volume.Faultless g)
    (hnames : shell.session.Typeable) (hoffers : shell.session.Offers before start candidates) :
    ∃ wanted, Completion.Wanted start candidates wanted
      ∧ shell.Completes before behind wanted candidates (shell.run ShellM.complete) := by
  obtain ⟨volume, huntouched, hcompletion⟩ :=
    run_completion_offered heditor htyped.before hvolume hnames hoffers
  let looked : Shell δ σ := { shell with session := { shell.session with volume := volume } }
  obtain ⟨hwanted, hlisting⟩ := Completion.wanted_typed hoffers.start_prefix
  refine ⟨_, hwanted, ?_⟩
  have hprintable := hwanted.isPrintable (hoffers.isPrintable_name hnames)
  have hlooked : looked.editor = ⟨before ++ behind, before.length, looked.editor.recalled⟩ :=
    heditor
  have htypes := run_edit_insertAll hlooked htyped hprintable
  rw [ShellM.complete, ShellM.run_bind, hcompletion]
  dsimp only
  cases hfound : Completion.ofCandidates start candidates with
  | nothing =>
    refine ⟨volume, [], huntouched, fun hmany hnil => ?_, ?_⟩
    · rw [hfound] at hlisting
      cases hlisting hmany rfl
    · rw [Completion.typed, List.take_nil, List.append_nil, List.append_nil, ← heditor]
      rfl
  | whole rest ending =>
    rw [hfound] at hlisting htypes hprintable
    obtain ⟨said, hrun⟩ := htypes
    refine ⟨volume, said, huntouched, fun hmany hnil => ?_, ?_⟩
    · cases hlisting hmany hnil
    · have hending : isPrintable ending = true :=
        hprintable ending (List.mem_append_right rest (List.mem_singleton_self ending))
      rw [← hrun, Completion.typed, EditM.insertAll_concat rest hending]
  | part rest =>
    rw [hfound] at hlisting htypes
    obtain ⟨said, hrun⟩ := htypes
    refine ⟨volume, said, huntouched, fun hmany hnil => ?_, hrun⟩
    cases hlisting hmany hnil
  | listing listed =>
    rw [hfound] at hlisting
    obtain ⟨said, hsaid, hrun⟩ := run_listing looked listed
    refine ⟨volume, said, huntouched, fun hmany _ => ?_, ?_⟩
    · cases hlisting hmany rfl
      exact hsaid
    · rw [Completion.typed, List.take_nil, List.append_nil, ← heditor]
      exact hrun

end Offered

section Keys

variable [BlockDevice δ] [LawfulDevice δ] [System σ] {g : Geometry} {volume : Volume δ}

omit [LawfulDevice δ] in
/-- Keys are inputs. -/
theorem pressed_eq_fed (shell : Shell δ σ) (events : List KeyEvent) :
    shell.pressed events = shell.fed (events.map .key) := by
  induction events generalizing shell with
  | nil => rfl
  | cons event events ih =>
    rw [pressed_cons, List.map_cons, fed_cons]
    rcases hrun : shell.run (ShellM.handleKey event) with ⟨halt | ⟨⟩, later⟩
    all_goals
      have hstep : shell.run (Input.key event).step = _ := hrun
      rw [hstep]
    exact ih later

omit [LawfulDevice δ] in
/-- After any keys the line can be edited. -/
theorem sound_pressed (hvolume : volume.Regular g) (system : σ) (events : List KeyEvent) :
    ((Shell.start volume system).pressed events).2.editor.Sound := by
  have htidy (kept : Text → Prop) : (Shell.start volume system).Tidy g kept :=
    ⟨hvolume, LineEditor.sound_empty, nofun⟩
  rw [pressed_eq_fed]
  refine (((htidy _).sound_iff _).mpr ((htidy Typed).recallsTyped ?_) _ List.prefix_rfl).2
  intro line hline
  obtain ⟨event, -, hevent⟩ := List.mem_map.mp hline
  cases hevent

/-- While keys are pressed, no transfer is refused. -/
theorem faultless_pressed (hvolume : volume.Faultless g) (system : σ) (events : List KeyEvent) :
    ((Shell.start volume system).pressed events).2.session.volume.Faultless g := by
  rw [pressed_eq_fed]
  exact Session.lasting_faultless.fed hvolume _

/-- **The completion key** in a new shell, after any others. -/
theorem completes_pressed (hvolume : volume.Faultless g) (system : σ) (events : List KeyEvent)
    (hnames : ((Shell.start volume system).pressed events).2.session.Typeable)
    (modifiers : Modifiers) :
    let last := ((Shell.start volume system).pressed events).2
    ∃ before behind, last.editor.line = before ++ behind ∧ last.editor.cursor = before.length
      ∧ (∃ start candidates, last.session.Offers before start candidates)
      ∧ ∀ start candidates, last.session.Offers before start candidates →
        ∃ wanted, Completion.Wanted start candidates wanted
          ∧ { last with awaitsInterruptKey := false }.Completes before behind wanted candidates
            (last.run (ShellM.handleKey ⟨'\t', modifiers, true⟩)) := by
  intro last
  have hsound : last.editor.Sound := sound_pressed hvolume.regular system events
  have hfaultless : last.session.volume.Faultless g := faultless_pressed hvolume system events
  obtain ⟨before, behind, hline, hcursor⟩ := hsound.exists_parts
  have heditor : last.editor = ⟨before ++ behind, before.length, last.editor.recalled⟩ := by
    rw [← hline, ← hcursor]
  refine ⟨before, behind, hline, hcursor, Session.Offers.exists_offers _ _,
    fun start candidates hoffers => ?_⟩
  let waiting : Shell δ σ := { last with awaitsInterruptKey := false }
  have hwaiting : waiting.editor = ⟨before ++ behind, before.length, waiting.editor.recalled⟩ :=
    heditor
  have hrun : last.run (ShellM.handleKey ⟨'\t', modifiers, true⟩)
      = waiting.run ShellM.complete := ShellM.run_handleKey_of_pressed last rfl
  rw [hrun]
  exact run_complete hwaiting (hline ▸ hsound.typed) hfaultless hnames hoffers

end Keys

/-- A directory on a blank disk, to whose name a word is completed. -/
theorem completes_pressed_directory :
    let volume := ((Volume.unmounted (RamDisk.blank 20) .tiny).run VolumeM.mount).2
    let events := "mkdir ab\ncd a".toList.map fun c => (⟨c, .none, true⟩ : KeyEvent)
    let last := ((Shell.start volume ScriptedSystem.idle).pressed events).2
    volume.Faultless .tiny ∧ last.session.Typeable
      ∧ last.session.Offers "cd a".toList ['a'] [⟨['a', 'b'], true⟩]
      ∧ (last.run (ShellM.handleKey ⟨'\t', .none, true⟩)).2.editor.line = "cd ab/".toList := by
  intro volume events last
  have hvolume : volume.Faultless .tiny := by
    refine ⟨((Volume.regular_unmounted _ _).served [.mount]).1, fun _ => ?_⟩
    exact (Volume.Reached.formatted (by decide) rfl (Session.not_loadable_blank .tiny 20)).intact
  have hline : last.editor.line = "cd a".toList := by decide +kernel
  have hcursor : last.editor.cursor = 4 := by decide +kernel
  have hlines : ((List.range Geometry.tiny.inodeCount).all fun index =>
      (last.session.volume.snapshot.lines index).all fun entry =>
        entry.text.all isPrintable) = true := by decide +kernel
  have hcandidates : ((last.session.listed []).map fun entry =>
      (⟨entry.text, entry.stat.isDirectory⟩ : Candidate)) = [⟨['a', 'b'], true⟩] := by
    decide +kernel
  have hlast : ((Shell.start volume ScriptedSystem.idle).pressed events).2 = last := rfl
  -- From here on it does not matter how the keys are evaluated.
  clear_value last
  have hfaultless := faultless_pressed hvolume ScriptedSystem.idle events
  rw [hlast] at hfaultless
  have hnames : last.session.Typeable :=
    Session.typeable_of_lines hfaultless (by simpa [List.all_eq_true] using hlines)
  have hoffers : last.session.Offers "cd a".toList ['a'] [⟨['a', 'b'], true⟩] := by
    have hcut : CutBehind CompletionPoint.isSeparator "cd a".toList "cd ".toList ['a'] :=
      ⟨rfl, fun c hc => Option.some.inj hc ▸ rfl, List.forall_mem_singleton.mpr rfl⟩
    have hstage : ¬ StartsStage "cd ".toList := by
      rw [startsStage_iff (List.all_eq_true.mp rfl)]
      exact fun hbar => absurd (hbar 'd' rfl) (by decide)
    have hword : CutBehind (· = '/') ['a'] [] ['a'] :=
      ⟨rfl, nofun, List.forall_mem_singleton.mpr rfl⟩
    have hpath : last.session.Offers _ _ _ := .path hcut hstage hword
    rwa [hcandidates] at hpath
  have hkey := completes_pressed hvolume ScriptedSystem.idle events (hlast ▸ hnames) .none
  rw [hlast] at hkey
  obtain ⟨before, behind, happend, hlength, -, hcompletes⟩ := hkey
  obtain ⟨rfl, rfl⟩ : "cd a".toList = before ∧ [] = behind :=
    List.append_inj (hline.symm.trans happend) (hcursor.symm.trans hlength)
  obtain ⟨wanted, hwanted, later, said, -, -, hended⟩ := hcompletes _ _ hoffers
  refine ⟨hvolume, hnames, hoffers, ?_⟩
  rw [hended]
  cases hwanted with
  | whole hname =>
    obtain rfl := (List.cons.inj hname).2
    rfl
  | common hmany => exact absurd hmany (by decide)

end Shell

end PocketKernel
