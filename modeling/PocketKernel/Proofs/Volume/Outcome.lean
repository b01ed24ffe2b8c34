import PocketKernel.Volume.Operations

/-!
# How operations end

An operation on a volume always ends: with an answer or with a stop, and in either case it leaves
a volume behind. `volume.Ends operation post` says that the outcome and the volume that is left
satisfy `post`. Since an operation keeps its changes when it stops, a useful `post` speaks about
both outcomes, and the rule for sequencing has a premise for each.

Every operation gets one lemma of this form; callers use the lemma through `Ends.bind` and
`Ends.attempt_bind` and do not look inside the operation again.

## Main definitions

* `Volume.Ends`: the statement.

## Main results

* `Volume.Ends.mono`, `Volume.Ends.bind`, `Volume.Ends.attempt_bind`: the rules.
-/

namespace PocketKernel

namespace Volume

variable {δ α β : Type} {volume : Volume δ} {post : Except Stop α → Volume δ → Prop}

/-- The outcome of an operation and the volume it leaves satisfy a condition. -/
def Ends (volume : Volume δ) (operation : VolumeM δ α)
    (post : Except Stop α → Volume δ → Prop) : Prop :=
  post (volume.run operation).1 (volume.run operation).2

theorem Ends.mono {operation : VolumeM δ α} {mid : Except Stop α → Volume δ → Prop}
    (h : volume.Ends operation mid) (himp : ∀ outcome left, mid outcome left → post outcome left) :
    volume.Ends operation post :=
  himp _ _ h

theorem Ends.and {operation : VolumeM δ α} {post' : Except Stop α → Volume δ → Prop}
    (h : volume.Ends operation post) (h' : volume.Ends operation post') :
    volume.Ends operation fun outcome left => post outcome left ∧ post' outcome left :=
  ⟨h, h'⟩

/-! ### Single steps -/

theorem ends_pure (answer : α) : volume.Ends (pure answer) post ↔ post (.ok answer) volume :=
  Iff.rfl

theorem ends_get_bind (next : Volume δ → VolumeM δ α) :
    volume.Ends (get >>= next) post ↔ volume.Ends (next volume) post :=
  Iff.rfl

theorem ends_modify_bind (change : Volume δ → Volume δ) (next : Unit → VolumeM δ α) :
    volume.Ends (modify change >>= next) post ↔ (change volume).Ends (next ()) post :=
  Iff.rfl

/-- A transfer happens first, and then its outcome is passed on. -/
theorem run_readSector [BlockDevice δ] (lba : Nat) (volume : Volume δ) :
    volume.run (VolumeM.readSector lba)
      = { volume with device := (BlockDevice.read lba volume.device).2 }.run
        (VolumeM.ofTransfer (BlockDevice.read lba volume.device).1) :=
  rfl

theorem run_writeSector [BlockDevice δ] (lba : Nat) (sector : Sector) (volume : Volume δ) :
    volume.run (VolumeM.writeSector lba sector)
      = { volume with device := (BlockDevice.write lba sector volume.device).2 }.run
        (VolumeM.ofTransfer (BlockDevice.write lba sector volume.device).1) :=
  rfl

/-! ### Sequencing -/

theorem run_bind (first : VolumeM δ β) (next : β → VolumeM δ α) :
    volume.run (first >>= next) = match volume.run first with
      | (.ok answer, left) => left.run (next answer)
      | (.error stop, left) => (.error stop, left) := by
  show StateT.run (ExceptT.run (first >>= next)) volume = _
  rw [ExceptT.run_bind, StateT.run_bind]
  simp only [Volume.run]
  rcases StateT.run (ExceptT.run first) volume with ⟨stop | answer, left⟩
  · rfl
  · rfl

theorem run_attempt (step : VolumeM δ α) :
    volume.run (VolumeM.attempt step) = match volume.run step with
      | (.ok answer, left) => (.ok (.ok answer), left)
      | (.error (.error cause), left) => (.ok (.error cause), left)
      | (.error .broken, left) => (.error .broken, left) := by
  show StateT.run (ExceptT.run (VolumeM.attempt step)) volume = _
  simp only [VolumeM.attempt, ExceptT.run_mk, StateT.run_bind, Volume.run]
  rcases StateT.run (ExceptT.run step) volume with ⟨(cause | _) | answer, left⟩
  · rfl
  · rfl
  · rfl

/-- What becomes of a step is not looked at. -/
theorem discard_bind (step : VolumeM δ β) (next : Unit → VolumeM δ α) :
    (discard step >>= next) = step >>= fun _ => next () := by
  simp only [discard, Functor.discard, map_const, Function.comp_apply, bind_map_left]

/-- **Sequencing.** An operation that stops first stops the whole. -/
theorem Ends.bind {first : VolumeM δ β} {next : β → VolumeM δ α}
    {mid : Except Stop β → Volume δ → Prop} (hfirst : volume.Ends first mid)
    (hok : ∀ answer left, mid (.ok answer) left → left.Ends (next answer) post)
    (hstop : ∀ stop left, mid (.error stop) left → post (.error stop) left) :
    volume.Ends (first >>= next) post := by
  unfold Ends at *
  rw [run_bind]
  rcases h : volume.run first with ⟨stop | answer, left⟩
  · rw [h] at hfirst
    exact hstop stop left hfirst
  · rw [h] at hfirst
    exact hok answer left hfirst

/-- **Looking at an error.** What follows an attempt sees the answer or the error. -/
theorem Ends.attempt_bind {step : VolumeM δ β} {next : Except VolumeError β → VolumeM δ α}
    {mid : Except Stop β → Volume δ → Prop} (hstep : volume.Ends step mid)
    (hok : ∀ answer left, mid (.ok answer) left → left.Ends (next (.ok answer)) post)
    (herror : ∀ cause left, mid (.error (.error cause)) left →
      left.Ends (next (.error cause)) post)
    (hbroken : ∀ left, mid (.error .broken) left → post (.error .broken) left) :
    volume.Ends (VolumeM.attempt step >>= next) post := by
  unfold Ends at *
  rw [run_bind, run_attempt]
  rcases h : volume.run step with ⟨(cause | _) | answer, left⟩
  · rw [h] at hstep
    exact herror cause left hstep
  · rw [h] at hstep
    exact hbroken left hstep
  · rw [h] at hstep
    exact hok answer left hstep

/-- A step whose answer is known is not the last one. -/
theorem Ends.bind_ok {first : VolumeM δ β} {next : β → VolumeM δ α} {answer : β}
    {mid : Volume δ → Prop} (hfirst : volume.Ends first fun outcome left =>
      outcome = .ok answer ∧ mid left)
    (hnext : ∀ left, mid left → left.Ends (next answer) post) :
    volume.Ends (first >>= next) post := by
  refine Ends.bind hfirst ?_ fun stop left h => by cases h.1
  rintro _ left ⟨⟨⟩, hleft⟩
  exact hnext left hleft

theorem Ends.attempt_bind_ok {step : VolumeM δ β} {next : Except VolumeError β → VolumeM δ α}
    {answer : β} {mid : Volume δ → Prop} (hstep : volume.Ends step fun outcome left =>
      outcome = .ok answer ∧ mid left)
    (hnext : ∀ left, mid left → left.Ends (next (.ok answer)) post) :
    volume.Ends (VolumeM.attempt step >>= next) post := by
  refine Ends.attempt_bind hstep ?_ (fun cause left h => by cases h.1) fun left h => by cases h.1
  rintro _ left ⟨⟨⟩, hleft⟩
  exact hnext left hleft

/-- What an ending says about a run. -/
theorem Ends.of_run {operation : VolumeM δ α} {outcome : Except Stop α} {left : Volume δ}
    (h : volume.Ends operation post) (hrun : volume.run operation = (outcome, left)) :
    post outcome left := by
  unfold Ends at h
  rw [hrun] at h
  exact h

end Volume

end PocketKernel
