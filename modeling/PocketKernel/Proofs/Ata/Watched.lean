import Mathlib.Data.Nat.Notation
import PocketKernel.Ata.Drive
import PocketKernel.Ata.Script
import PocketKernel.Proofs.Ata.Logged

/-!
# What a drive shows during a transfer

A drive reports an error in its status, and the flags of the status mean something while it is not
busy. A channel can be watched, so that every status that was looked at is remembered; the driver
does the same on it as on the channel itself.

A transfer that succeeds has seen no error up to its data, since the wait for the data fails at the
first one. Reading looks no more after that. Writing looks for the end of the flush, and is content
with any status that is not busy. So a write may report success although its last status shows that
the flush went wrong; that status is the only one to ask for.

## Main definitions

* `Watched`: a channel that is watched.
* `AtaM.Sees`: what a step looks at.
* `AtaDrive.statuses`, `AtaDrive.Faultless`: what a call has looked at.

## Main results

* `AtaM.poll_sees`: what a wait looks at.
* `AtaDrive.success_faultless_iff`: which transfers see no error when they succeed.
-/

namespace PocketKernel

/-- A channel, with every status that was looked at on it, the latest last. -/
structure Watched (β : Type) where
  bus : β
  seen : List UInt8
deriving DecidableEq

/-- The channel does what it does; looks at its status are remembered. -/
instance {β : Type} [AtaBus β] : AtaBus (Watched β) where
  status watched :=
    ((AtaBus.status watched.bus).1,
      ⟨(AtaBus.status watched.bus).2, watched.seen ++ [(AtaBus.status watched.bus).1]⟩)
  alternateStatus watched :=
    ((AtaBus.alternateStatus watched.bus).1,
      { watched with bus := (AtaBus.alternateStatus watched.bus).2 })
  readData watched :=
    ((AtaBus.readData watched.bus).1, { watched with bus := (AtaBus.readData watched.bus).2 })
  writeData word watched := ((), { watched with bus := (AtaBus.writeData word watched.bus).2 })
  writeRegister register value watched :=
    ((), { watched with bus := (AtaBus.writeRegister register value watched.bus).2 })

namespace AtaM

variable {β α γ : Type} {post mid late : List UInt8 → Prop}

/-- A step does on a watched channel what another one does on the channel itself, and if it
succeeds, the statuses that it has looked at satisfy a condition. -/
def Sees (step : AtaM (Watched β) α) (plain : AtaM β α) (post : List UInt8 → Prop) : Prop :=
  ∀ bus seen, ∃ shown,
    step.run.run ⟨bus, seen⟩ = ((plain.run.run bus).1, ⟨(plain.run.run bus).2, seen ++ shown⟩)
      ∧ ∀ answer, (plain.run.run bus).1 = .ok answer → post shown

/-- A step that looks at no status. -/
abbrev Blind (step : AtaM (Watched β) α) (plain : AtaM β α) : Prop := Sees step plain (· = [])

/-- The statuses that were looked at are a log. -/
theorem sees_iff_logs {step : AtaM (Watched β) α} {plain : AtaM β α} : Sees step plain post
    ↔ Logs Watched.mk step plain fun outcome shown => ∀ answer, outcome = .ok answer → post shown :=
  .rfl

theorem Sees.mono {step : AtaM (Watched β) α} {plain : AtaM β α} (h : Sees step plain mid)
    (himp : ∀ shown, mid shown → post shown) : Sees step plain post :=
  (sees_iff_logs.mp h).mono fun _ shown hmid answer hok => himp shown (hmid answer hok)

theorem Sees.bind {first : AtaM (Watched β) γ} {first' : AtaM β γ}
    {next : γ → AtaM (Watched β) α} {next' : γ → AtaM β α} (hfirst : Sees first first' mid)
    (hnext : ∀ c, Sees (next c) (next' c) late)
    (hpost : ∀ shown later, mid shown → late later → post (shown ++ later)) :
    Sees (first >>= next) (first' >>= next') post := by
  refine sees_iff_logs.mpr (Logs.bind (sees_iff_logs.mp hfirst) (fun c shown hshown => ?_) ?_)
  · refine (sees_iff_logs.mp (hnext c)).mono fun _ later hlater answer hok => ?_
    exact hpost shown later (hshown c rfl) (hlater answer hok)
  · exact fun cause shown _ answer hok => nomatch hok

/-- What is looked at before or after a blind step is all that is looked at. -/
theorem Sees.after {first : AtaM (Watched β) γ} {first' : AtaM β γ}
    {next : γ → AtaM (Watched β) α} {next' : γ → AtaM β α} (hfirst : Blind first first')
    (hnext : ∀ c, Sees (next c) (next' c) post) : Sees (first >>= next) (first' >>= next') post :=
  hfirst.bind hnext fun _ _ hnil hlater => by rwa [hnil, List.nil_append]

theorem Sees.before {first : AtaM (Watched β) γ} {first' : AtaM β γ}
    {next : γ → AtaM (Watched β) α} {next' : γ → AtaM β α} (hfirst : Sees first first' post)
    (hnext : ∀ c, Blind (next c) (next' c)) : Sees (first >>= next) (first' >>= next') post :=
  hfirst.bind hnext fun _ _ hshown hnil => by rwa [hnil, List.append_nil]

theorem Quiet.blind {step : AtaM (Watched β) α} {plain : AtaM β α}
    (h : Quiet Watched.mk step plain) : Blind step plain :=
  sees_iff_logs.mpr (Logs.mono h fun _ _ hquiet _ _ => hquiet.2)

theorem blind_pure (answer : α) : Blind (β := β) (pure answer) (pure answer) :=
  Quiet.blind (quiet_pure answer)

/-- An outcome that is fixed is reached without a look. -/
theorem sees_mk (outcome : Except DiskError α)
    (h : ∀ answer, outcome = .ok answer → post []) :
    Sees (β := β) (ExceptT.mk (pure outcome)) (ExceptT.mk (pure outcome)) post :=
  sees_iff_logs.mpr (logs_mk h)

theorem blind_lift {step : StateM (Watched β) α} {plain : StateM β α}
    (h : ∀ bus seen, step ⟨bus, seen⟩ = ((plain bus).1, ⟨(plain bus).2, seen⟩)) :
    Blind (ExceptT.lift step) (ExceptT.lift plain) :=
  Quiet.blind (quiet_lift h)

variable [AtaBus β]

/-! ### The steps of a transfer -/

theorem blind_writeRegister (register : AtaRegister) (value : UInt8) :
    Blind (β := β) (writeRegister register value) (writeRegister register value) :=
  blind_lift fun _ _ => rfl

theorem blind_settle : Blind (β := β) settle settle := Quiet.blind (quiet_settle fun _ _ => rfl)

theorem blind_readWords (count : ℕ) : Blind (β := β) (readWords count) (readWords count) :=
  Quiet.blind (quiet_readWords count fun _ _ => rfl)

theorem blind_writeWords (words : List UInt16) :
    Blind (β := β) (writeWords words) (writeWords words) := by
  unfold writeWords
  induction words with
  | nil => exact blind_pure ()
  | cons word words ih =>
    rw [List.forM_eq_forM, List.forM_eq_forM, List.forM_cons, List.forM_cons]
    exact Sees.after (blind_lift fun _ _ => rfl) fun _ => ih

/-- A look at the status is the first one of a step that begins with it. -/
theorem sees_status_bind {next : UInt8 → AtaM (Watched β) α} {next' : UInt8 → AtaM β α}
    (h : ∀ status, Sees (next status) (next' status) fun later => post (status :: later)) :
    Sees (AtaM.status >>= next) (AtaM.status >>= next') post := by
  refine sees_iff_logs.mpr (Logs.lift_bind (fun status => [status]) (fun _ _ => rfl) ?_)
  exact fun status => sees_iff_logs.mp (h status)

/-- The statuses of a wait that is over: its rule is content with the last one, and was not decided
before. -/
def EndsWait (rule : UInt8 → Option (Except DiskError Unit)) (shown : List UInt8) : Prop :=
  ∃ before last, shown = before ++ [last] ∧ (∀ status ∈ before, rule status = none)
    ∧ rule last = some (.ok ())

/-- **A wait** looks until its rule decides. -/
theorem poll_sees (rule : UInt8 → Option (Except DiskError Unit)) (tries : ℕ) :
    Sees (β := β) (poll rule tries) (poll rule tries) (EndsWait rule) := by
  induction tries with
  | zero => exact sees_mk (.error .timeout) nofun
  | succ tries ih =>
    rw [poll, poll]
    refine sees_status_bind fun status => ?_
    cases hrule : rule status with
    | some verdict =>
      refine sees_mk verdict ?_
      rintro ⟨⟩ rfl
      exact ⟨[], status, rfl, nofun, hrule⟩
    | none =>
      refine ih.mono ?_
      rintro _ ⟨before, last, rfl, hbefore, hlast⟩
      exact ⟨status :: before, last, rfl, List.forall_mem_cons.mpr ⟨hrule, hbefore⟩, hlast⟩

/-- None of these statuses has a flag of an error. -/
def Clean (shown : List UInt8) : Prop := ∀ status ∈ shown, AtaStatus.hasFault status = false

/-- The wait for data ends at the first error. -/
theorem waitData_sees : Sees (β := β) waitData waitData Clean := by
  refine (poll_sees _ _).mono ?_
  rintro _ ⟨before, last, rfl, hbefore, hlast⟩ status hstatus
  refine Bool.eq_false_iff.mpr fun hfault => ?_
  rcases List.mem_append.mp hstatus with hmem | hmem
  · cases (if_pos hfault).symm.trans (hbefore status hmem)
  · rw [List.mem_singleton.mp hmem] at hfault
    cases (if_pos hfault).symm.trans hlast

/-- The statuses of a wait for an idle drive: busy ones, and one that is not. -/
def Idles (shown : List UInt8) : Prop :=
  ∃ before last, shown = before ++ [last] ∧ (∀ status ∈ before, AtaStatus.isBusy status = true)
    ∧ AtaStatus.isBusy last = false

theorem waitIdle_sees : Sees (β := β) waitIdle waitIdle Idles := by
  refine (poll_sees _ _).mono ?_
  rintro _ ⟨before, last, rfl, hbefore, hlast⟩
  refine ⟨before, last, rfl, fun status hmem => ?_, Bool.eq_false_iff.mpr fun hbusy => ?_⟩
  · refine Bool.of_not_eq_false fun hidle => ?_
    cases (if_neg (Bool.eq_false_iff.mp hidle)).symm.trans (hbefore status hmem)
  · cases (if_pos hbusy).symm.trans hlast

/-! ### Transfers -/

theorem begin_sees (lba : ℕ) (command : AtaCommand) :
    Sees (β := β) (begin lba command) (begin lba command) Clean := by
  have hselect : Blind (β := β) (select lba) (select lba) :=
    (blind_writeRegister _ _).after fun _ => blind_settle
  refine hselect.after fun _ => ?_
  refine (blind_writeRegister _ _).after fun _ => ?_
  refine (blind_writeRegister _ _).after fun _ => ?_
  refine (blind_writeRegister _ _).after fun _ => ?_
  refine (blind_writeRegister _ _).after fun _ => ?_
  refine (blind_writeRegister _ _).after fun _ => ?_
  exact (blind_writeRegister _ _).after fun _ => waitData_sees

theorem readSector_sees (lba : ℕ) :
    Sees (β := β) (readSector lba) (readSector lba) Clean := by
  refine (begin_sees lba _).before fun _ => ?_
  refine (blind_readWords _).after fun words => ?_
  exact blind_settle.after fun _ => blind_pure _

theorem writeSector_sees (lba : ℕ) (sector : Sector) :
    Sees (β := β) (writeSector lba sector) (writeSector lba sector)
      fun shown => ∃ data flush, shown = data ++ flush ∧ Clean data ∧ Idles flush := by
  refine (begin_sees lba _).bind (fun _ => ?_) fun data flush hdata (hflush : Idles flush) =>
    ⟨data, flush, rfl, hdata, hflush⟩
  refine (blind_writeWords _).after fun _ => ?_
  refine blind_settle.after fun _ => ?_
  exact (blind_writeRegister _ _).after fun _ => waitIdle_sees

end AtaM

namespace AtaDrive

variable {β α : Type}

/-- A drive on a channel that is watched from now on. -/
def watched (drive : AtaDrive β) : AtaDrive (Watched β) := ⟨⟨drive.bus, []⟩, drive.capacity⟩

/-- The statuses that a call looks at, in order. -/
def statuses (call : StateM (AtaDrive (Watched β)) (Except DiskError α)) (drive : AtaDrive β) :
    List UInt8 :=
  (call drive.watched).2.bus.seen

/-- No status of a drive that is not busy has the flag of an error or of a fault. -/
def Faultless (statuses : List UInt8) : Prop :=
  ∀ status ∈ statuses, AtaStatus.isBusy status = false → AtaStatus.hasFault status = false

theorem transfer_sees {step : AtaM (Watched β) α} {plain : AtaM β α} {post : List UInt8 → Prop}
    (h : AtaM.Sees step plain post) (drive : AtaDrive β) (lba : ℕ) :
    (transfer lba step drive.watched).1 = (transfer lba plain drive).1
      ∧ ∀ answer, (transfer lba plain drive).1 = .ok answer →
        post (statuses (transfer lba step) drive) := by
  obtain ⟨hanswer, hlogs⟩ := transfer_logs (AtaM.sees_iff_logs.mp h) drive lba
  refine ⟨hanswer, fun answer hok => ?_⟩
  rcases Nat.lt_or_ge lba drive.capacity with hlt | hge
  · obtain ⟨shown, hbus, hshown⟩ := hlogs hlt
    have hseen : statuses (transfer lba step) drive = shown := congrArg Watched.seen hbus
    rw [hseen]
    exact hshown answer hok
  · rw [transfer_refused plain hge] at hok
    cases hok

variable [AtaBus β]

/-- The statuses of a write show no error exactly if the last of them shows none. -/
theorem faultless_flushed_iff {data flush : List UInt8} (hdata : AtaM.Clean data)
    (hflush : AtaM.Idles flush) : Faultless (data ++ flush)
      ↔ ∀ last ∈ (data ++ flush).getLast?, AtaStatus.hasFault last = false := by
  obtain ⟨before, last, rfl, hbefore, hlast⟩ := hflush
  rw [← List.append_assoc, List.getLast?_concat]
  constructor
  · rintro h _ ⟨⟩
    exact h last (List.mem_append_right _ (List.mem_singleton_self last)) hlast
  · intro h status hstatus hidle
    rcases List.mem_append.mp hstatus with hmem | hmem
    · rcases List.mem_append.mp hmem with hmem | hmem
      · exact hdata status hmem
      · cases hidle.symm.trans (hbefore status hmem)
    · rw [List.mem_singleton.mp hmem]
      exact h last rfl

/-- **Which transfers see no error when they succeed.** Watching a channel changes nothing for the
driver. A sector that was fetched was fetched with no error in any status. A sector that was stored
was stored with no error in any status exactly if the last one, which ended the wait for the flush,
shows none; the driver does not ask for that. -/
theorem success_faultless_iff (drive : AtaDrive β) (lba : ℕ) (sector : Sector) :
    ((read lba drive.watched).1 = (read lba drive).1
        ∧ (write lba sector drive.watched).1 = (write lba sector drive).1)
      ∧ (∀ fetched, (read lba drive).1 = .ok fetched → Faultless (statuses (read lba) drive))
      ∧ ((write lba sector drive).1 = .ok () → (Faultless (statuses (write lba sector) drive)
        ↔ ∀ last ∈ (statuses (write lba sector) drive).getLast?,
          AtaStatus.hasFault last = false)) := by
  obtain ⟨hread, hseen⟩ := transfer_sees (AtaM.readSector_sees lba) drive lba
  obtain ⟨hwrite, hseen'⟩ := transfer_sees (AtaM.writeSector_sees lba sector) drive lba
  refine ⟨⟨hread, hwrite⟩, fun fetched hok status hstatus _ => ?_, fun hok => ?_⟩
  · exact hseen fetched hok status hstatus
  · obtain ⟨data, flush, hshown, hdata, hflush⟩ := hseen' () hok
    rw [write, hshown]
    exact faultless_flushed_iff hdata hflush

theorem eq_ok_of_isOk {outcome : Except DiskError Unit} (h : outcome.isOk = true) :
    outcome = .ok () := by
  cases outcome with
  | ok => rfl
  | error => cases h

/-- A drive of eight sectors on a channel that plays a script. -/
def scripted (statuses : List UInt8) (lastStatus : UInt8) : AtaDrive ScriptedBus :=
  ⟨⟨⟨statuses, lastStatus, []⟩, .empty⟩, 8⟩

/-- A write to a drive that is busy at first, ready for data, busy with the flush, and idle. -/
theorem success_faultless_iff_scripted :
    (write 5 .zero (scripted [0xD0, 0x58, 0xD0] 0x50)).1 = .ok ()
      ∧ statuses (write 5 .zero) (scripted [0xD0, 0x58, 0xD0] 0x50) = [0xD0, 0x58, 0xD0, 0x50]
      ∧ Faultless (statuses (write 5 .zero) (scripted [0xD0, 0x58, 0xD0] 0x50)) := by
  have hok : (write 5 .zero (scripted [0xD0, 0x58, 0xD0] 0x50)).1 = .ok () :=
    eq_ok_of_isOk (by decide +kernel)
  have hseen : statuses (write 5 .zero) (scripted [0xD0, 0x58, 0xD0] 0x50)
      = [0xD0, 0x58, 0xD0, 0x50] := by decide +kernel
  refine ⟨hok, hseen, ((success_faultless_iff _ 5 .zero).2.2 hok).mpr ?_⟩
  rw [hseen]
  rintro _ ⟨⟩
  decide

/-- The flush goes wrong, the drive says so and is not busy, and the write reports success. -/
theorem success_despite_fault :
    (write 5 .zero (scripted [0x58] 0x51)).1 = .ok ()
      ∧ statuses (write 5 .zero) (scripted [0x58] 0x51) = [0x58, 0x51]
      ∧ AtaStatus.isBusy 0x51 = false ∧ AtaStatus.hasError 0x51 = true
      ∧ ¬ Faultless (statuses (write 5 .zero) (scripted [0x58] 0x51)) := by
  have hseen : statuses (write 5 .zero) (scripted [0x58] 0x51) = [0x58, 0x51] := by decide +kernel
  refine ⟨eq_ok_of_isOk (by decide +kernel), hseen, by decide, by decide, fun h => ?_⟩
  rw [hseen] at h
  exact absurd (h 0x51 (by decide) (by decide)) (by decide)

end AtaDrive

end PocketKernel
