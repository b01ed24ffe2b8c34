import PocketKernel.Proofs.Shell.Directory
import PocketKernel.Proofs.Shell.Grammar
import PocketKernel.Proofs.Shell.Printing

/-!
# Redirections

A line whose output goes into a file does what the same line does without the redirection, up to the
end of its last command. What that command wrote is not shown but held by a pipe, which drops what
is over 4096 bytes and says so, and then it is put into the file. If that succeeds, the file holds
it and prints as it; if it does not, the console is told, and a file that has no room for it is left
alone. When an interrupt is found after any of the stages, nothing of this happens.

## Main definitions

* `Session.Captured`: what a redirection leaves of a session, compared with what is left without it.
* `Shell.Prints`: to print a file shows what it contains.

## Main results

* `SessionM.of_run_runJobs`: how a line without a redirection runs to its end.
* `SessionM.run_runJobs_captured`: what a redirection makes of it.
* `Shell.prints`: files can be printed.
* `Shell.redirection_captures`: a redirection holds what would have been shown.
-/

namespace PocketKernel

variable {δ σ : Type} [BlockDevice δ] [System σ]

/-- The commands of a line have a last one. -/
theorem Job.exists_concat_of_ofText {line : Text} {pipeline : Pipeline} {jobs : List Job}
    (hline : Pipeline.ofText line = .ok (some pipeline))
    (hjobs : pipeline.stages.mapM Job.ofStage = .ok jobs) :
    ∃ front last, jobs = front ++ [last] := by
  have hne := (Pipeline.ofText_eq_ok_some_iff.mp hline).2.stages_ne_nil
  obtain rfl | hconcat := List.eq_nil_or_concat' jobs
  · obtain ⟨stage, stages, hstages⟩ := List.exists_cons_of_ne_nil hne
    rw [hstages, List.mapM_cons] at hjobs
    generalize Job.ofStage stage = first at hjobs
    generalize stages.mapM Job.ofStage = others at hjobs
    rcases first with name | job
    · cases hjobs
    · rcases others with name | rest
      · cases hjobs
      · cases hjobs
  · exact hconcat

/-- The session that a line with a redirection leaves, compared with the one that the same line
without it leaves: what the last command wrote is not shown but put into a file, with what a pipe
cannot hold left out. -/
structure Session.Captured {δ σ : Type} [BlockDevice δ] [LawfulDevice δ] (redirect : Redirect)
    (last : Job) (shown : List ConsoleEvent) (bytes : List UInt8)
    (outcome : Except VolumeError Unit) (ran after : Session δ σ) : Prop where
  session_eq : after = { ran with
    volume := after.volume
    console := shown ++ last.notice bytes ++ redirect.report outcome }
  held : outcome = .ok () → ∃ path index,
    Path.resolve? ran.directory redirect.target = some path
      ∧ ran.volume.snapshot.Redirected redirect.mode path (bytes.take pipeCapacity) index
        after.volume.snapshot
  /-- A file that has no room for it is left alone. -/
  refused : redirect.mode = .append → ∀ path index,
    Path.resolve? ran.directory redirect.target = some path →
    ran.volume.snapshot.resolveFile path = .ok index →
    maxFileSize < (ran.volume.snapshot.contentAt path).length + (bytes.take pipeCapacity).length →
    outcome = .error .fileTooLarge ∧ after.volume.snapshot = ran.volume.snapshot

/-- If the console was not told more, there was no error. -/
theorem Session.Captured.ok_of_silent {δ σ : Type} [BlockDevice δ] [LawfulDevice δ]
    {redirect : Redirect} {last : Job} {shown : List ConsoleEvent} {bytes : List UInt8}
    {outcome : Except VolumeError Unit} {ran after : Session δ σ}
    (h : Session.Captured redirect last shown bytes outcome ran after)
    (hsilent : after.console = shown) : outcome = .ok () := by
  rw [h.session_eq, List.append_assoc] at hsilent
  have hnothing := List.append_right_eq_self.mp hsilent
  rcases outcome with cause | ⟨⟩
  · cases (List.append_eq_nil_iff.mp hnothing).2
  · rfl

/-- To print a file shows what it contains, if the user does not interrupt. -/
def Shell.Prints [LawfulDevice δ] (shell : Shell δ σ) (named : Text) (content : List UInt8) :
    Prop :=
  ∀ line, Pipeline.ofText line = .ok (some ⟨[⟨Command.cat.name.toList, [named]⟩], none⟩) →
    System.QuietFor (1 + (content.length + 511) / 512 + 1)
      (System.clearInterrupt shell.session.system) →
    ∃ volume system, shell.run (ShellM.execute line) = (.ok (), { shell with
        session := { shell.session with
          volume := volume
          system := system
          console := shell.session.console ++ [.write content]
          written := [] } })
      ∧ volume.snapshot = shell.session.volume.snapshot

/-! ### Lines -/

namespace SessionM

variable {front : List Job} {last : Job} {input : Option (List UInt8)} {session ran : Session δ σ}

/-- **A line without a redirection that runs to its end.** Its last command wrote something, which
was shown, and no interrupt was found. -/
theorem of_run_runJobs
    (hran : (runJobs none (front ++ [last]) input).run.run session = (.ok true, ran)) :
    ∃ output before later, (feed front input).run.run session = (.ok (some output), before)
      ∧ (runJob last output).run.run before = (.ok (), later)
      ∧ (System.interrupted later.system).1 = false ∧ ran = later.shown.looked := by
  rw [runJobs_append front rfl, run_bind] at hran
  rcases hfront : (feed front input).run.run session with ⟨halt | _ | output, before⟩ <;>
    rw [hfront] at hran
  · cases hran
  · cases hran
  dsimp only at hran
  rw [run_runJobs_last] at hran
  rcases hlast : (runJob last output).run.run before with ⟨halt | ⟨⟩, later⟩ <;>
    rw [hlast] at hran
  · cases hran
  cases hfound : (System.interrupted later.system).1 with
  | true =>
    dsimp only at hran
    rw [if_pos hfound] at hran
    cases hran
  | false =>
    dsimp only at hran
    rw [hfound] at hran
    cases hran
    exact ⟨output, before, later, rfl, hlast, hfound, rfl⟩

/-- The same line with a redirection goes on when the last command has ended. -/
theorem run_runJobs_redirect {output : Option (List UInt8)} {before later : Session δ σ}
    (hfront : (feed front input).run.run session = (.ok (some output), before))
    (hlast : (runJob last output).run.run before = (.ok (), later))
    (hfound : (System.interrupted later.system).1 = false) (redirect : Redirect) :
    (runJobs (some redirect) (front ++ [last]) input).run.run session
      = (do
        runRedirect redirect (later.written.take pipeCapacity)
        pure true : SessionM δ σ Bool).run.run (later.piped last).looked := by
  rw [runJobs_append front rfl, run_bind, hfront]
  dsimp only
  rw [run_runJobs_last_redirect, hlast]
  dsimp only
  rw [hfound]
  rfl

variable [LawfulDevice δ] {g : Geometry}

omit [System σ] in
/-- No index leaves its table on an intact volume. -/
theorem ne_broken_of_intact {α : Type} {v : Volume δ} (h : v.Intact g)
    {operation : VolumeM δ α} (hcalls : VolumeM.Calls operation) :
    (v.run operation).1 ≠ .error .broken := by
  intro hbroken
  obtain ⟨calls, call, hcall⟩ := (hcalls v).2 hbroken
  have hintact := h.called calls
  have hregular : (v.called calls).Regular g :=
    ⟨hintact.shaped.geometry, fun _ => hintact.shaped.sized⟩
  exact (Volume.call_confined hregular call).2.2.ne_broken hcall

omit [System σ] in
/-- A redirection puts bytes into a file, or says why it does not. -/
theorem run_runRedirect (hvolume : session.volume.Intact g) (redirect : Redirect)
    (data : List UInt8) : ∃ outcome volume, (runRedirect redirect data).run.run session
        = (.ok (), { session.told (redirect.report outcome) with volume := volume })
      ∧ (outcome = .ok () → ∃ path, Path.resolve? session.directory redirect.target = some path)
      ∧ ∀ path, Path.resolve? session.directory redirect.target = some path →
        session.volume.run (.redirectInto redirect.mode path data)
          = (Stop.ofExcept outcome, volume) := by
  rw [runRedirect, run_resolve?_bind]
  cases Path.resolve? session.directory redirect.target with
  | none => exact ⟨.error .invalidPath, session.volume, rfl, nofun, nofun⟩
  | some path =>
    dsimp only
    have hregular := ne_broken_of_intact hvolume (calls_redirectInto redirect.mode path data)
    rw [run_onVolume_bind]
    rcases hrun : session.volume.run (.redirectInto redirect.mode path data) with
      ⟨(cause | _) | ⟨⟩, volume⟩ <;> rw [hrun] at hregular
    · refine ⟨.error cause, volume, rfl, nofun, ?_⟩
      rintro _ ⟨⟩
      exact hrun
    · exact absurd rfl hregular
    · refine ⟨.ok (), volume, ?_, fun _ => ⟨path, rfl⟩, ?_⟩
      · rw [Redirect.report, Session.told_nil]
        rfl
      · rintro _ ⟨⟩
        exact hrun

/-- No move harms an intact volume. -/
theorem intact_runJobs (hvolume : session.volume.Intact g) (redirect : Option Redirect)
    (jobs : List Job) (input : Option (List UInt8)) :
    ((runJobs redirect jobs input).run.run session).2.volume.Intact g := by
  have hreaches := (moves_runJobs redirect jobs input session).1
  have hmove {session later : Session δ σ} (hmove : Session.Move Terminal.Plain session later)
      (hintact : session.volume.Intact g) : later.volume.Intact g := by
    cases hmove with
    | called calls => exact hintact.called calls
    | entered _ _ => exact hintact.called [_]
    | written _ => exact hintact
    | told _ => exact hintact
    | asked _ => exact hintact
  exact hreaches.lasts hmove hvolume

/-- **A redirection holds what would have been shown.** -/
theorem run_runJobs_captured (hvolume : session.volume.Intact g)
    (hran : (runJobs none (front ++ [last]) input).run.run session = (.ok true, ran))
    (redirect : Redirect) : ∃ shown bytes outcome after,
      ran.console = shown ++ [.write bytes]
        ∧ (runJobs (some redirect) (front ++ [last]) input).run.run session = (.ok true, after)
        ∧ Session.Captured redirect last shown bytes outcome ran after := by
  have hintact := intact_runJobs hvolume none (front ++ [last]) input
  rw [hran] at hintact
  obtain ⟨output, before, later, hfront, hlast, hfound, rfl⟩ := of_run_runJobs hran
  have hlater : (later.piped last).looked.volume.Intact g := hintact
  obtain ⟨outcome, volume, hrun, hpath, hinto⟩ :=
    run_runRedirect hlater redirect (later.written.take pipeCapacity)
  refine ⟨later.console, later.written, outcome,
    { (later.piped last).looked.told (redirect.report outcome) with volume := volume }, rfl, ?_,
    rfl, ?_, ?_⟩
  · rw [run_runJobs_redirect hfront hlast hfound, run_bind, hrun]
    rfl
  · rintro rfl
    obtain ⟨path, hpath⟩ := hpath rfl
    obtain ⟨index, hredirected⟩ := hlater.redirectInto_ok (hinto path hpath)
    exact ⟨path, index, hpath, hredirected⟩
  · intro happend path index hpath hresolve hfull
    have hinto := hinto path hpath
    obtain ⟨hrefused, hsame⟩ := hlater.redirectInto_full hresolve hfull
    rw [happend] at hinto
    rw [hinto] at hrefused hsame
    refine ⟨?_, hsame⟩
    rcases outcome with cause | ⟨⟩
    · exact congrArg Except.error (Stop.error.inj (Except.error.inj hrefused))
    · cases hrefused

end SessionM

/-- The file that a name leads to can be printed. -/
theorem Shell.prints [LawfulDevice δ] {g : Geometry} {shell : Shell δ σ} {named path : Text}
    {index : ℕ} (hvolume : shell.session.volume.Intact g)
    (hpath : Path.resolve? shell.session.directory named = some path)
    (hresolve : shell.session.volume.snapshot.resolveFile path = .ok index) :
    shell.Prints named (shell.session.volume.snapshot.contentAt path) := by
  intro line hline hquiet
  have hcleared : shell.session.cleared.volume.Intact g := hvolume
  obtain ⟨volume, system, hrun, -, hsame, hlook, -⟩ :=
    Builtin.run_cat hcleared hpath hresolve hquiet
  refine ⟨volume, (System.interrupted system).2, ?_, hsame⟩
  have hjob : [⟨Command.cat.name.toList, [named]⟩].mapM Job.ofStage
      = .ok [⟨Command.cat, [named]⟩] := rfl
  rw [ShellM.run_execute hline hjob, SessionM.run_runJobs_last, hrun]
  dsimp only
  rw [hlook]
  rfl

/-- **A redirection holds what would have been shown.** A line is executed by a shell with an intact
volume, once with a redirection, and once without it. If no interrupt is found, both end alike, but
for what the last command wrote: it is put into the file, which prints as it then. If an interrupt
is found after some stage, the line with the redirection leaves everything as that stage left it. -/
theorem Shell.redirection_captures [LawfulDevice δ] {g : Geometry} {shell : Shell δ σ}
    (hvolume : shell.session.volume.Intact g) {plain line : Text} {stages : List Stage}
    {jobs : List Job} {redirect : Redirect}
    (hplain : Pipeline.ofText plain = .ok (some ⟨stages, none⟩))
    (hline : Pipeline.ofText line = .ok (some ⟨stages, some redirect⟩))
    (hjobs : stages.mapM Job.ofStage = .ok jobs) :
    (∀ ran, (SessionM.runJobs none jobs none).run.run shell.session.cleared = (.ok true, ran) →
      shell.run (ShellM.execute plain) = (.ok (), { shell with session := ran })
        ∧ ∃ last shown bytes outcome after, jobs.getLast? = some last
          ∧ ran.console = shown ++ [.write bytes]
          ∧ shell.run (ShellM.execute line) = (.ok (), { shell with session := after })
          ∧ Session.Captured redirect last shown bytes outcome ran after
          ∧ (outcome = .ok () → ∀ path,
            Path.resolve? ran.directory redirect.target = some path →
            Shell.Prints { shell with session := after } redirect.target
              (after.volume.snapshot.contentAt path)))
      ∧ ∀ front job back output before bytes later, jobs = front ++ job :: back →
        (SessionM.feed front none).run.run shell.session.cleared = (.ok (some output), before) →
        (SessionM.runPiped job output).run.run before = (.ok bytes, later) →
        (System.interrupted later.system).1 = true →
        shell.run (ShellM.execute line)
          = (.ok (), { shell with session := later.cut, awaitsInterruptKey := true }) := by
  have hcleared : shell.session.cleared.volume.Intact g := hvolume
  refine ⟨fun ran hran => ?_, ?_⟩
  · obtain ⟨front, last, rfl⟩ := Job.exists_concat_of_ofText hline hjobs
    obtain ⟨shown, bytes, outcome, after, hshown, hafter, hcaptured⟩ :=
      SessionM.run_runJobs_captured hcleared hran redirect
    have hintact := SessionM.intact_runJobs hcleared (some redirect) (front ++ [last]) none
    rw [hafter] at hintact
    refine ⟨?_, last, shown, bytes, outcome, after, List.getLast?_concat .., hshown, ?_, hcaptured,
      ?_⟩
    · rw [ShellM.run_execute hplain hjobs, hran]
    · rw [ShellM.run_execute hline hjobs, hafter]
    · intro hok path hpath
      obtain ⟨path', index, hpath', hredirected⟩ := hcaptured.held hok
      obtain rfl : path' = path := Option.some.inj (hpath'.symm.trans hpath)
      have hdirectory : after.directory = ran.directory := by rw [hcaptured.session_eq]
      let left : Shell δ σ := { shell with session := after }
      have hleft : Path.resolve? left.session.directory redirect.target = some path' :=
        hdirectory.symm ▸ hpath
      have hintact' : left.session.volume.Intact g := hintact
      exact Shell.prints hintact' hleft hredirected.leads
  · rintro front job back output before bytes later rfl hfront hjob hfound
    rw [ShellM.run_execute hline hjobs,
      SessionM.run_runJobs_interrupted hfront hjob hfound redirect back]

/-- What is echoed into a new file on a blank disk. -/
theorem Shell.redirection_captures_echo :
    let volume := ((Volume.unmounted (RamDisk.blank 20) .tiny).run VolumeM.mount).2
    let shell := Shell.start volume ScriptedSystem.idle
    let last := (shell.run (ShellM.execute "echo hi > f".toList)).2
    volume.Intact .tiny ∧ last.session.console = shell.session.console
      ∧ last.session.volume.snapshot.contentAt ['/', 'f'] = Text.utf8 ['h', 'i', '\n'] := by
  intro volume shell last
  have hvolume : volume.Intact .tiny :=
    (Volume.Reached.formatted (by decide) rfl (Session.not_loadable_blank .tiny 20)).intact
  have hshell : shell.session.volume.Intact .tiny := hvolume
  let stages : List Stage := [⟨"echo".toList, [['h', 'i']]⟩]
  have hplain : Pipeline.ofText "echo hi".toList = .ok (some ⟨stages, none⟩) := by decide +kernel
  have hline : Pipeline.ofText "echo hi > f".toList
      = .ok (some ⟨stages, some ⟨.truncate, ['f']⟩⟩) := by decide +kernel
  have hjobs : stages.mapM Job.ofStage = .ok [⟨.echo, [['h', 'i']]⟩] := by decide +kernel
  obtain ⟨ran, hran, hconsole, hdirectory⟩ : ∃ ran,
      (SessionM.runJobs none [⟨.echo, [['h', 'i']]⟩] none).run.run shell.session.cleared
        = (.ok true, ran)
      ∧ ran.console = shell.session.console ++ [.write (Text.utf8 ['h', 'i', '\n'])]
      ∧ ran.directory = ['/'] :=
    ⟨_, Prod.ext (by decide +kernel) rfl, by decide +kernel, by decide +kernel⟩
  have hsilent : last.session.console = shell.session.console := by decide +kernel
  obtain ⟨-, _, shown, bytes, outcome, after, -, hshown, hlast, hcaptured, -⟩ :=
    (redirection_captures hshell hplain hline hjobs).1 ran hran
  refine ⟨hvolume, hsilent, ?_⟩
  obtain rfl : last.session = after := congrArg (·.2.session) hlast
  -- the console tells what was written, and that there was no error
  obtain ⟨rfl, hbytes⟩ := List.append_inj' (hconsole.symm.trans hshown) rfl
  obtain rfl : Text.utf8 ['h', 'i', '\n'] = bytes := by cases hbytes; rfl
  obtain rfl : outcome = .ok () := hcaptured.ok_of_silent hsilent
  obtain ⟨path, index, hpath, hredirected⟩ := hcaptured.held rfl
  have hnamed : Path.resolve? ['/'] ['f'] = some ['/', 'f'] := by decide
  obtain rfl : ['/', 'f'] = path := Option.some.inj (hnamed.symm.trans (hdirectory ▸ hpath))
  obtain ⟨hfound, -⟩ := Snapshot.of_resolveFile_eq_ok hredirected.leads
  rw [Snapshot.contentAt_of_resolve hfound, hredirected.content]
  rfl

end PocketKernel
