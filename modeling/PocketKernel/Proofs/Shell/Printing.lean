import PocketKernel.Proofs.Shell.Stages
import PocketKernel.Proofs.Volume.Redirect

/-!
# Printing files

The command that prints files reads them in pieces, and looks for an interrupt before each of them.
If it finds none, what it writes is what the file contains.

## Main definitions

* `System.QuietFor`: the user does not interrupt for a while.

## Main results

* `Builtin.run_catFrom`, `Builtin.run_catFile`: the pieces of a file, and all of it.
-/

namespace PocketKernel

/-- The user does not interrupt while the shell looks so many times. -/
def System.QuietFor {σ : Type} [System σ] : ℕ → σ → Prop
  | 0, _ => True
  | looks + 1, system => (System.interrupted system).1 = false
    ∧ QuietFor looks (System.interrupted system).2

namespace Volume

variable {δ : Type} [BlockDevice δ] [LawfulDevice δ] {g : Geometry} {v : Volume δ} {path : Text}
  {index : ℕ}

/-- To read changes nothing. -/
theorem Intact.read_there (h : v.Intact g) (hresolve : v.snapshot.resolveFile path = .ok index)
    (offset count : ℕ) :
    ∃ w : Volume δ, w.Intact g ∧ w.snapshot = v.snapshot
      ∧ v.run (VolumeM.read path offset count) = (.ok
        (((v.snapshot.content (v.snapshot.memory.inode index)).drop offset).take count), w) := by
  have hread := read_ends h.shaped h.sound h.mounted hresolve offset count
  have hcall : v.run (Call.read path offset count).operation = _ :=
    run_unit (VolumeM.read path offset count) v
  exact ⟨_, h.of_call (.read path offset count) hcall, hread.snapshot,
    Prod.ext (Reads.run_eq h.dependable hread) rfl⟩

/-- To ask for a file that is there changes nothing. -/
theorem Intact.stat_there (h : v.Intact g) (hresolve : v.snapshot.resolve path = .ok index) :
    ∃ w : Volume δ, w.Intact g ∧ w.snapshot = v.snapshot
      ∧ v.run (VolumeM.stat path) = (.ok (v.snapshot.statOf index), w) := by
  have hanswer := h.run_stat path
  rw [Snapshot.stat, hresolve] at hanswer
  have hrun : v.run (VolumeM.stat path) = (.ok (v.snapshot.statOf index), _) :=
    Prod.ext hanswer rfl
  obtain ⟨hintact, hsame⟩ := h.after_stat hrun
  exact ⟨_, hintact, hsame, hrun⟩

end Volume

namespace Builtin

open SessionM

variable {δ σ : Type} [BlockDevice δ] [LawfulDevice δ] [System σ] {g : Geometry}
  {path named : Text} {index : ℕ} {session : Session δ σ}

omit [BlockDevice δ] [LawfulDevice δ] in
/-- The user has not interrupted, and so it goes on. -/
theorem run_unlessInterrupted {body : SessionM δ σ Unit}
    (hquiet : (System.interrupted session.system).1 = false) :
    (do if !(← interrupted) then body : SessionM δ σ Unit).run.run session
      = body.run.run session.looked := by
  show (if !(System.interrupted session.system).1 then body else pure () :
    SessionM δ σ Unit).run.run session.looked = _
  rw [hquiet]
  rfl

omit [BlockDevice δ] [LawfulDevice δ] [System σ] in
/-- The volume is mounted, and so it goes on. -/
theorem run_whenAvailable (command : Text) {body : SessionM δ σ Unit}
    (hmounted : session.volume.mounted = true) :
    (do if ← available command then body : SessionM δ σ Unit).run.run session
      = body.run.run session := by
  rw [available, bind_assoc, run_get_bind, hmounted]
  rfl

/-- **The pieces of a file** from some position on. -/
theorem run_catFrom {content : List UInt8} (hvolume : session.volume.Intact g)
    (hresolve : session.volume.snapshot.resolveFile path = .ok index)
    (hcontent : session.volume.snapshot.content (session.volume.snapshot.memory.inode index)
      = content) {offset more : ℕ} (hoffset : offset ≤ content.length)
    (hquiet : System.QuietFor ((content.length - offset + 511) / 512 + more) session.system) :
    ∃ volume system, (catFrom path named content.length offset).run.run session
        = (.ok (), { session with
          volume := volume
          system := system
          written := session.written ++ content.drop offset })
      ∧ volume.Intact g ∧ volume.snapshot = session.volume.snapshot
      ∧ System.QuietFor more system := by
  induction hleft : content.length - offset using Nat.strongRecOn generalizing offset session with
  | ind left ih =>
  rw [catFrom]
  by_cases hlt : offset < content.length
  · rw [dif_pos hlt]
    obtain ⟨looks, hlooks⟩ : ∃ looks, (content.length - offset + 511) / 512 + more = looks + 1 :=
      ⟨(content.length - offset + 511) / 512 + more - 1, by omega⟩
    rw [hlooks] at hquiet
    rw [run_unlessInterrupted hquiet.1]
    -- a piece is read, and it is not empty
    obtain ⟨volume, hintact, hsame, hread⟩ := hvolume.read_there hresolve offset pieceSize
    rw [hcontent] at hread
    obtain ⟨byte, bytes, hbytes⟩ : ∃ byte bytes,
        (content.drop offset).take pieceSize = byte :: bytes := by
      refine List.exists_cons_of_length_pos ?_
      rw [List.length_take, List.length_drop, pieceSize]
      omega
    have hlength : bytes.length + 1 = min pieceSize (content.length - offset) := by
      rw [← List.length_drop, ← List.length_take, hbytes, List.length_cons]
    rw [hbytes] at hread
    rw [run_onVolume_bind, Session.volume_looked, hread]
    -- and the others follow
    let next : Session δ σ :=
      { session.looked with volume := volume, written := session.written ++ (byte :: bytes) }
    show ∃ volume system, (catFrom path named content.length (offset + (bytes.length + 1))).run.run
      next = _ ∧ _
    have hfewer : content.length - (offset + (bytes.length + 1)) < left := by omega
    have hquiet' : System.QuietFor
        ((content.length - (offset + (bytes.length + 1)) + 511) / 512 + more) next.system := by
      have hsame : (content.length - (offset + (bytes.length + 1)) + 511) / 512 + more = looks := by
        rw [pieceSize] at hlength
        omega
      rw [hsame]
      exact hquiet.2
    have hcontent' : next.volume.snapshot.content (next.volume.snapshot.memory.inode index)
        = content := by
      rw [← hcontent, ← hsame]
    obtain ⟨volume', system, hrun, hintact', hsame', hmore⟩ := ih _ hfewer hintact
      (hsame ▸ hresolve) hcontent' (by omega) hquiet' rfl
    refine ⟨volume', system, ?_, hintact', hsame'.trans hsame, hmore⟩
    rw [hrun]
    have hpieces : byte :: bytes ++ content.drop (offset + (bytes.length + 1))
        = content.drop offset := by
      rw [← hbytes, ← List.drop_drop, List.take_eq_take_min, List.length_drop, ← hlength]
      exact List.take_append_drop ..
    rw [← hpieces, ← List.append_assoc]
    rfl
  · rw [dif_neg hlt]
    have hend : (content.length - offset + 511) / 512 + more = more := by omega
    rw [hend] at hquiet
    refine ⟨session.volume, session.system, ?_, hvolume, rfl, hquiet⟩
    rw [List.drop_eq_nil_of_le (Nat.not_lt.mp hlt), List.append_nil]
    rfl

/-- **All of a file.** -/
theorem run_catFile (hvolume : session.volume.Intact g)
    (hpath : Path.resolve? session.directory named = some path)
    (hresolve : session.volume.snapshot.resolveFile path = .ok index) {more : ℕ}
    (hquiet : System.QuietFor
      (((session.volume.snapshot.contentAt path).length + 511) / 512 + more) session.system) :
    ∃ volume system, (catFile named).run.run session
        = (.ok (), { session with
          volume := volume
          system := system
          written := session.written ++ session.volume.snapshot.contentAt path })
      ∧ volume.Intact g ∧ volume.snapshot = session.volume.snapshot
      ∧ System.QuietFor more system := by
  obtain ⟨hfound, hfile⟩ := Snapshot.of_resolveFile_eq_ok hresolve
  obtain ⟨volume, hintact, hsame, hstat⟩ := hvolume.stat_there hfound
  have hcontent : volume.snapshot.content (volume.snapshot.memory.inode index)
      = session.volume.snapshot.contentAt path := by
    rw [hsame, Snapshot.contentAt_of_resolve hfound]
  let asked : Session δ σ := { session with volume := volume }
  have hrun : (catFile named).run.run session
      = (catFrom path named (session.volume.snapshot.contentAt path).length 0).run.run asked := by
    rw [catFile, run_resolve?_bind, hpath]
    dsimp only
    rw [run_onVolume_bind, hstat]
    dsimp only
    rw [Snapshot.statOf, hfile, ← hcontent, Snapshot.length_content, hsame]
    rfl
  have hasked : asked.volume.Intact g := hintact
  obtain ⟨volume', system, hcat, hintact', hsame', hmore⟩ :=
    run_catFrom hasked (hsame ▸ hresolve) hcontent (Nat.zero_le _) hquiet
  exact ⟨volume', system, hrun.trans hcat, hintact', hsame'.trans hsame, hmore⟩

/-- **The command that prints a file** writes what the file contains. -/
theorem run_cat (hvolume : session.volume.Intact g)
    (hpath : Path.resolve? session.directory named = some path)
    (hresolve : session.volume.snapshot.resolveFile path = .ok index) {more : ℕ}
    (hquiet : System.QuietFor
      (1 + ((session.volume.snapshot.contentAt path).length + 511) / 512 + more) session.system) :
    ∃ volume system, (runJob ⟨.cat, [named]⟩ none).run.run session
        = (.ok (), { session with
          volume := volume
          system := system
          written := session.volume.snapshot.contentAt path })
      ∧ volume.Intact g ∧ volume.snapshot = session.volume.snapshot
      ∧ System.QuietFor more system := by
  rw [Nat.add_assoc, Nat.add_comm 1] at hquiet
  let begun : Session δ σ := { session with written := [] }
  have hrun : (runJob ⟨.cat, [named]⟩ none).run.run session
      = (catFile named).run.run begun.looked := by
    have hmounted : begun.volume.mounted = true := hvolume.mounted
    have hnone : (System.interrupted begun.system).1 = false := hquiet.1
    show (cat [named] none).run.run begun = _
    rw [cat.eq_def, if_neg (List.cons_ne_nil _ _), run_whenAvailable _ hmounted, eachUntilInterrupt,
      run_unlessInterrupted hnone, eachUntilInterrupt]
    exact congrArg (fun step : SessionM δ σ Unit => step.run.run begun.looked) (bind_pure _)
  have hbegun : begun.looked.volume.Intact g := hvolume
  obtain ⟨volume, system, hcat, hintact, hsame, hmore⟩ :=
    run_catFile hbegun hpath hresolve hquiet.2
  exact ⟨volume, system, hrun.trans hcat, hintact, hsame, hmore⟩

end Builtin

end PocketKernel
