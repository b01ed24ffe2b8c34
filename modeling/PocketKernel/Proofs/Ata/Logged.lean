import Mathlib.Data.Nat.Notation
import PocketKernel.Ata.Drive

/-!
# Channels with a log

A channel can be given a log, and an access of the channel may enter something into it. The driver
never sees the log and does the same with it as without. So what a step enters is said next to what
the step does, and the log of a longer run is put together from those of its parts.

What a log looks like and what is entered is left open here.

## Main definitions

* `AtaM.Logs`: what a step enters into a log.
* `AtaM.Quiet`: a step that succeeds and enters nothing.

## Main results

* `AtaM.Logs.bind`: one step after the other.
* `AtaDrive.transfer_logs`: what a transfer enters.
-/

namespace PocketKernel

namespace AtaM

variable {α β γ σ ε : Type} {put : β → List ε → σ} {post mid : Except DiskError α → List ε → Prop}
  {step : AtaM σ α} {plain : AtaM β α}

/-! ### What a step enters -/

/-- A step does with a log what another one does without it. Its outcome and what it enters, behind
all that the log had before, satisfy a condition. -/
def Logs (put : β → List ε → σ) (step : AtaM σ α) (plain : AtaM β α)
    (post : Except DiskError α → List ε → Prop) : Prop :=
  ∀ bus log, ∃ entered,
    step.run.run (put bus log)
        = ((plain.run.run bus).1, put (plain.run.run bus).2 (log ++ entered))
      ∧ post (plain.run.run bus).1 entered

theorem Logs.mono (h : Logs put step plain mid)
    (himp : ∀ outcome entered, mid outcome entered → post outcome entered) :
    Logs put step plain post := by
  intro bus log
  obtain ⟨entered, hrun, hmid⟩ := h bus log
  exact ⟨entered, hrun, himp _ entered hmid⟩

/-- An outcome that is fixed is reached without an entry. -/
theorem logs_mk {outcome : Except DiskError α} (h : post outcome []) :
    Logs put (ExceptT.mk (pure outcome)) (ExceptT.mk (pure outcome)) post :=
  fun _ _ => ⟨[], by rw [List.append_nil]; rfl, h⟩

/-- A single access does not fail. What it enters may depend on its answer. -/
theorem logs_lift {step : StateM σ γ} {plain : StateM β γ} (entries : γ → List ε)
    (hstep : ∀ bus log, step (put bus log)
      = ((plain bus).1, put (plain bus).2 (log ++ entries (plain bus).1))) :
    Logs put (ExceptT.lift step) (ExceptT.lift plain)
      fun outcome entered => ∃ c, outcome = .ok c ∧ entered = entries c := by
  intro bus log
  refine ⟨entries (plain bus).1, ?_, (plain bus).1, rfl, rfl⟩
  show (Except.ok (step (put bus log)).1, (step (put bus log)).2) = _
  rw [hstep]
  rfl

section Bind

variable {first : AtaM σ γ} {first' : AtaM β γ} {next : γ → AtaM σ α} {next' : γ → AtaM β α}

/-- **One step after the other.** If the first one fails, its entries are all. -/
theorem Logs.bind {early : Except DiskError γ → List ε → Prop}
    (hfirst : Logs put first first' early)
    (hnext : ∀ c front, early (.ok c) front →
      Logs put (next c) (next' c) fun outcome later => post outcome (front ++ later))
    (hstop : ∀ cause front, early (.error cause) front → post (.error cause) front) :
    Logs put (first >>= next) (first' >>= next') post := by
  intro bus log
  obtain ⟨front, hrun, hfront⟩ := hfirst bus log
  rw [ExceptT.run_bind, StateT.run_bind, ExceptT.run_bind, StateT.run_bind, hrun]
  cases houtcome : first'.run.run bus with
  | mk outcome left =>
    rw [houtcome] at hfront
    cases outcome with
    | error cause => exact ⟨front, rfl, hstop cause front hfront⟩
    | ok c =>
      obtain ⟨later, hrun', hlater⟩ := hnext c front hfront left (log ++ front)
      refine ⟨front ++ later, ?_, hlater⟩
      rw [← List.append_assoc]
      exact hrun'

theorem Logs.lift_bind {first : StateM σ γ} {first' : StateM β γ} (entries : γ → List ε)
    (hfirst : ∀ bus log, first (put bus log)
      = ((first' bus).1, put (first' bus).2 (log ++ entries (first' bus).1)))
    (hnext : ∀ c,
      Logs put (next c) (next' c) fun outcome later => post outcome (entries c ++ later)) :
    Logs put (ExceptT.lift first >>= next) (ExceptT.lift first' >>= next') post := by
  refine (logs_lift entries hfirst).bind ?_ ?_
  · rintro c _ ⟨_, ⟨⟩, rfl⟩
    exact hnext c
  · rintro cause _ ⟨_, ⟨⟩, -⟩

end Bind

/-! ### Quiet steps -/

/-- A step that succeeds and enters nothing. -/
def Quiet (put : β → List ε → σ) (step : AtaM σ α) (plain : AtaM β α) : Prop :=
  Logs put step plain fun outcome entered => outcome.isOk = true ∧ entered = []

theorem Quiet.bind {first : AtaM σ γ} {first' : AtaM β γ} {next : γ → AtaM σ α}
    {next' : γ → AtaM β α} (hfirst : Quiet put first first')
    (hnext : ∀ c, Logs put (next c) (next' c) post) :
    Logs put (first >>= next) (first' >>= next') post := by
  refine Logs.bind hfirst ?_ ?_
  · rintro c _ ⟨-, rfl⟩
    exact hnext c
  · rintro cause _ ⟨⟨⟩, -⟩

theorem quiet_pure (answer : α) : Quiet put (pure answer) (pure answer) := logs_mk ⟨rfl, rfl⟩

theorem quiet_lift {step : StateM σ γ} {plain : StateM β γ}
    (hstep : ∀ bus log, step (put bus log) = ((plain bus).1, put (plain bus).2 log)) :
    Quiet put (ExceptT.lift step) (ExceptT.lift plain) := by
  refine (logs_lift (fun _ => []) fun bus log => ?_).mono ?_
  · rw [hstep, List.append_nil]
  · rintro _ _ ⟨c, rfl, rfl⟩
    exact ⟨rfl, rfl⟩

variable [AtaBus β] [AtaBus σ]

theorem quiet_settle (hlook : ∀ bus log, AtaBus.alternateStatus (put bus log)
    = ((AtaBus.alternateStatus bus).1, put (AtaBus.alternateStatus bus).2 log)) :
    Quiet put settle settle := by
  unfold settle
  generalize List.range 4 = looks
  induction looks with
  | nil => exact quiet_pure ()
  | cons look looks ih =>
    rw [List.forM_eq_forM, List.forM_eq_forM, List.forM_cons, List.forM_cons]
    have hdiscard : Quiet put (discard (ExceptT.lift AtaBus.alternateStatus))
        (discard (ExceptT.lift AtaBus.alternateStatus)) :=
      (quiet_lift hlook).bind fun _ => quiet_pure ()
    exact hdiscard.bind fun _ => ih

theorem quiet_readWords (count : ℕ) (hread : ∀ bus log, AtaBus.readData (put bus log)
    = ((AtaBus.readData bus).1, put (AtaBus.readData bus).2 log)) :
    Quiet put (readWords count) (readWords count) := by
  induction count with
  | zero => exact quiet_pure []
  | succ count ih =>
    rw [readWords, readWords]
    refine (quiet_lift hread).bind fun word => ?_
    exact ih.bind fun words => quiet_pure _

end AtaM

/-! ### Transfers -/

namespace AtaDrive

variable {α β σ ε : Type} {put : β → List ε → σ} {post : Except DiskError α → List ε → Prop}
  {drive : AtaDrive β} {lba : ℕ}

theorem transfer_accepted (step : AtaM β α) (hlba : lba < drive.capacity) :
    transfer lba step drive
      = ((step.run.run drive.bus).1, { drive with bus := (step.run.run drive.bus).2 }) := by
  have hready : drive.isReady = true := decide_eq_true (Nat.ne_of_gt (Nat.zero_lt_of_lt hlba))
  rw [transfer, hready, if_neg (by decide), if_neg (Nat.not_le.mpr hlba)]
  rfl

/-- A sector that the drive does not have is not asked for. -/
theorem transfer_refused (step : AtaM β α) (hlba : drive.capacity ≤ lba) :
    transfer lba step drive
      = (.error (if drive.isReady then .outOfRange else .notReady), drive) := by
  unfold transfer
  cases drive.isReady with
  | false => rfl
  | true => exact if_pos hlba

/-- **What a transfer enters** into an empty log is what its step enters, unless it is refused. -/
theorem transfer_logs {step : AtaM σ α} {plain : AtaM β α} (h : AtaM.Logs put step plain post)
    (drive : AtaDrive β) (lba : ℕ) :
    let logged : AtaDrive σ := ⟨put drive.bus [], drive.capacity⟩
    (transfer lba step logged).1 = (transfer lba plain drive).1
      ∧ (lba < drive.capacity → ∃ entered,
        (transfer lba step logged).2.bus = put (transfer lba plain drive).2.bus entered
          ∧ post (transfer lba plain drive).1 entered) := by
  intro logged
  rcases Nat.lt_or_ge lba drive.capacity with hlt | hge
  · obtain ⟨entered, hrun, hpost⟩ := h drive.bus []
    have hlogged : lba < logged.capacity := hlt
    rw [transfer_accepted plain hlt, transfer_accepted step hlogged, hrun]
    exact ⟨rfl, fun _ => ⟨entered, rfl, hpost⟩⟩
  · have hlogged : logged.capacity ≤ lba := hge
    rw [transfer_refused plain hge, transfer_refused step hlogged]
    exact ⟨rfl, fun hlt => absurd hge (Nat.not_le.mpr hlt)⟩

end AtaDrive

end PocketKernel
