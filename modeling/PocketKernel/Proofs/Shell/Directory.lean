import PocketKernel.Proofs.Shell.Inputs
import PocketKernel.Proofs.Shell.Resolution
import PocketKernel.Proofs.Volume.Lasting

/-!
# The working directory

The working directory is always there. A shell enters a directory only when its volume has just said
that it is one, and by a path that was resolved; and whatever is done later, by commands that
succeed, fail or are interrupted, no path to a directory is ever lost.

## Main definitions

* `Session.Housed`: the working directory is a normal path to a directory.

## Main results

* `Session.lasting_housed`: no move ends that.
* `Shell.directory_lasts`: it holds of a new shell after any inputs.
-/

namespace PocketKernel

variable {δ σ : Type} [BlockDevice δ]

/-- The working directory is a normal path, and the volume says that it leads to a directory. -/
structure Session.Housed (session : Session δ σ) : Prop where
  absolute : Path.isAbsolute session.directory = true
  normal : Path.resolve? session.directory ['.'] = some session.directory
  size_lt : Text.utf8Size session.directory < 256
  told : ∃ told, (session.volume.run (VolumeM.stat session.directory)).1 = .ok told
    ∧ told.isDirectory = true

variable [LawfulDevice δ] {g : Geometry}

namespace Volume

variable {v : Volume δ} {path : Text}

theorem Reached.called_all (h : v.Reached g) (calls : List Call) : (v.called calls).Reached g := by
  induction calls generalizing v with
  | nil => exact h
  | cons call calls ih => exact ih (.called call h)

/-- **A directory stays one**, and is found by the same path. -/
theorem Intact.called_told (h : v.Intact g) (calls : List Call)
    (htold : ∃ told, (v.run (VolumeM.stat path)).1 = .ok told ∧ told.isDirectory = true) :
    ∃ told, ((v.called calls).run (VolumeM.stat path)).1 = .ok told ∧ told.isDirectory = true := by
  obtain ⟨_, hrun, hdirectory⟩ := htold
  obtain ⟨index, hresolve, rfl⟩ := h.of_stat_eq_ok hrun
  obtain ⟨hresolve', hkind⟩ := h.called_resolve calls hresolve
  refine ⟨(v.called calls).snapshot.statOf index, ?_, ?_⟩
  · rw [(h.called calls).run_stat, Snapshot.stat, hresolve']
    rfl
  · rw [← hdirectory, Snapshot.statOf, Snapshot.statOf, Inode.isDirectory, Inode.isDirectory, hkind]

/-- The root is a directory. -/
theorem Intact.told_root (h : v.Intact g) :
    ∃ told, (v.run (VolumeM.stat ['/'])).1 = .ok told ∧ told.isDirectory = true := by
  refine ⟨v.snapshot.statOf 0, ?_, h.sound.root_directory .memory⟩
  rw [h.run_stat]
  rfl

end Volume

/-- **No move ends it.** -/
theorem Session.lasting_housed : Session.Lasting
    fun session : Session δ σ => session.volume.Reached g ∧ session.Housed := by
  refine ⟨fun {session later} hmove hkept => ?_, fun _ hkept => ?_⟩
  · obtain ⟨hreached, habsolute, hnormal, hsize, htold⟩ := hkept
    cases hmove with
    | written bytes => exact ⟨hreached, habsolute, hnormal, hsize, htold⟩
    | told hevents => exact ⟨hreached, habsolute, hnormal, hsize, htold⟩
    | asked system => exact ⟨hreached, habsolute, hnormal, hsize, htold⟩
    | called calls =>
      exact ⟨hreached.called_all calls, habsolute, hnormal, hsize,
        hreached.intact.called_told calls htold⟩
    | entered hpath hstat =>
      exact ⟨hreached.called_all _, Path.isAbsolute_of_resolve?_eq_some hpath,
        Path.resolve?_dot hpath, Path.size_of_resolve?_eq_some hpath,
        hreached.intact.called_told _ ⟨_, hstat, rfl⟩⟩
  · obtain ⟨hreached, habsolute, hnormal, hsize, htold⟩ := hkept
    exact ⟨hreached, habsolute, hnormal, hsize, htold⟩

/-- **The working directory is always there.** A new shell on a volume that came about from a
formatted one, on a device that refuses no transfer, is given any inputs. -/
theorem Shell.directory_lasts [System σ] {volume : Volume δ} (h : volume.Reached g) (system : σ)
    (inputs : List Shell.Input) : ((Shell.start volume system).fed inputs).2.session.Housed := by
  have hnormal : Path.resolve? ['/'] ['.'] = some ['/'] := by decide
  have hsize : Text.utf8Size ['/'] < 256 := by decide
  have hstart : (Shell.start volume system).session.Housed :=
    ⟨rfl, hnormal, hsize, h.intact.told_root⟩
  exact (Session.lasting_housed.fed ⟨h, hstart⟩ inputs).2

/-- A directory on a blank disk, which is entered in a pipe, and from which one that is not there
cannot be entered. -/
theorem Shell.directory_lasts_piped :
    let volume := ((Volume.unmounted (RamDisk.blank 20) .tiny).run VolumeM.mount).2
    let last := ((Shell.start volume ScriptedSystem.idle).fed
      [.line "mkdir d".toList, .line "cd d | cat".toList, .line "cd e".toList]).2
    volume.Reached .tiny ∧ last.session.directory = ['/', 'd'] ∧ last.session.Housed := by
  intro volume last
  have hvolume : volume.Reached .tiny :=
    .formatted (by decide) rfl (Session.not_loadable_blank .tiny 20)
  have hdirectory : last.session.directory = ['/', 'd'] := by decide +kernel
  exact ⟨hvolume, hdirectory, directory_lasts hvolume _ _⟩

end PocketKernel
