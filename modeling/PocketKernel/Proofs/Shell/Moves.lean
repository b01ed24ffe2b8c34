import Mathlib.Logic.Relation
import PocketKernel.Proofs.Shell.Terminal
import PocketKernel.Proofs.Volume.Consistency
import PocketKernel.Shell.Session

/-!
# What a step of a session can do

There are only a few things that a command can do to a session: write for whoever reads it, tell the
console something, ask something of the machine, call the volume, and enter a directory that the
volume says is one. A step of a session *moves* it if it does nothing else. Whatever these moves
keep, every command keeps, so this is said of every command once, and no proof about sessions needs
to look into them again.

## Main definitions

* `VolumeM.Calls`: an operation on the volume is a row of calls.
* `Session.Move`, `Session.Reaches`: one move, and any number of them.
* `Session.Stops`: a reason for the shell to end.
* `SessionM.Moves`: a step makes moves, and stops only for a reason.

## Main results

* `SessionM.Moves.bind`: the rule for sequencing.
* `SessionM.moves_onVolume`: calls are moves.
* `Session.Reaches.lasts`: what all moves keep is kept.
-/

namespace PocketKernel

/-! ### Operations on the volume -/

section

variable {δ α β : Type} [BlockDevice δ]

theorem Volume.called_append (v : Volume δ) (calls more : List Call) :
    v.called (calls ++ more) = (v.called calls).called more := List.foldl_append

/-- An operation leaves the volume that a row of calls leaves, and if an index left its table, it
did in a call. -/
def VolumeM.Calls (operation : VolumeM δ α) : Prop :=
  ∀ v : Volume δ, (∃ calls, (v.run operation).2 = v.called calls)
    ∧ ((v.run operation).1 = .error .broken →
      ∃ calls, ∃ call : Call, ((v.called calls).run call.operation).1 = .error .broken)

namespace VolumeM

theorem Calls.bind {first : VolumeM δ β} {next : β → VolumeM δ α} (hfirst : Calls first)
    (hnext : ∀ answer, Calls (next answer)) : Calls (first >>= next) := by
  intro v
  obtain ⟨⟨calls, hcalls⟩, hbroken⟩ := hfirst v
  rw [Volume.run_bind]
  rcases hrun : v.run first with ⟨stop | answer, left⟩
  · rw [hrun] at hcalls hbroken
    refine ⟨⟨calls, hcalls⟩, fun h => hbroken ?_⟩
    cases h
    rfl
  · rw [hrun] at hcalls
    obtain rfl : left = v.called calls := hcalls
    obtain ⟨⟨more, hmore⟩, hbroken'⟩ := hnext answer (v.called calls)
    refine ⟨⟨calls ++ more, hmore.trans (v.called_append calls more).symm⟩, fun h => ?_⟩
    obtain ⟨before, call, hcall⟩ := hbroken' h
    exact ⟨calls ++ before, call, by rwa [Volume.called_append]⟩

/-- What an operation answers does not matter. -/
theorem Calls.of_unit {operation : VolumeM δ α} (h : Calls (operation >>= fun _ => pure ())) :
    Calls operation := by
  intro v
  obtain ⟨hcalls, hbroken⟩ := h v
  rw [Volume.run_unit] at hcalls hbroken
  refine ⟨hcalls, fun hrun => hbroken ?_⟩
  rw [hrun]
  rfl

theorem calls_pure (answer : α) : Calls (pure answer : VolumeM δ α) :=
  fun _ => ⟨⟨[], rfl⟩, nofun⟩

theorem Calls.discard {operation : VolumeM δ α} (h : Calls operation) :
    Calls (discard operation) := by
  refine .of_unit ?_
  rw [Volume.discard_bind]
  exact h.bind fun _ => calls_pure _

theorem calls_call (call : Call) : Calls (call.operation : VolumeM δ Unit) :=
  fun _ => ⟨⟨[call], rfl⟩, fun h => ⟨[], call, h⟩⟩

theorem calls_stat (path : Text) : Calls (stat path : VolumeM δ _) :=
  .of_unit (calls_call (.stat path))

theorem calls_list (path : Text) : Calls (list path : VolumeM δ _) :=
  .of_unit (calls_call (.list path))

theorem calls_read (path : Text) (offset count : ℕ) :
    Calls (read path offset count : VolumeM δ _) :=
  .of_unit (calls_call (.read path offset count))

theorem calls_write (path : Text) (offset : ℕ) (data : List UInt8) (truncate : Bool) :
    Calls (write path offset data truncate : VolumeM δ _) :=
  .of_unit (calls_call (.write path offset data truncate))

theorem calls_touch (path : Text) : Calls (touch path : VolumeM δ _) := calls_call (.touch path)

theorem calls_mkdir (path : Text) : Calls (mkdir path : VolumeM δ _) := calls_call (.mkdir path)

end VolumeM

end

/-! ### Moves -/

namespace Session

variable {δ σ : Type} [BlockDevice δ] {allowed : ConsoleEvent → Prop}
  {session later last : Session δ σ}

/-- The session with what a row of calls leaves of the volume. -/
def called (session : Session δ σ) (calls : List Call) : Session δ σ :=
  { session with volume := session.volume.called calls }

/-- What a command can do to a session at once. -/
inductive Move (allowed : ConsoleEvent → Prop) (session : Session δ σ) : Session δ σ → Prop
  /-- Write, or take what was written. -/
  | written (bytes : List UInt8) : Move allowed session { session with written := bytes }
  /-- Tell the console something that is allowed. -/
  | told {events : List ConsoleEvent} : (∀ event ∈ events, allowed event) →
      Move allowed session { session with console := session.console ++ events }
  /-- Ask something of the machine. -/
  | asked (system : σ) : Move allowed session { session with system := system }
  /-- Call the volume. -/
  | called (calls : List Call) : Move allowed session (session.called calls)
  /-- Enter a directory, when the volume has just said that it is one. -/
  | entered {target path : Text} {inode size : ℕ} :
      Path.resolve? session.directory target = some path →
      (session.volume.run (VolumeM.stat path)).1 = .ok ⟨inode, true, size⟩ →
      Move allowed session { session.called [.stat path] with directory := path }

/-- Any number of moves lead from one session to another. -/
abbrev Reaches (allowed : ConsoleEvent → Prop) : Session δ σ → Session δ σ → Prop :=
  Relation.ReflTransGen (Move allowed)

theorem Move.mono {allowed' : ConsoleEvent → Prop} (h : Move allowed session later)
    (himp : ∀ event, allowed event → allowed' event) : Move allowed' session later := by
  cases h with
  | written bytes => exact .written bytes
  | told hevents => exact .told fun event hevent => himp event (hevents event hevent)
  | asked system => exact .asked system
  | called calls => exact .called calls
  | entered hpath hstat => exact .entered hpath hstat

theorem Move.reaches (h : Move allowed session later) : Reaches allowed session later := .single h

theorem Reaches.mono {allowed' : ConsoleEvent → Prop} (h : Reaches allowed session later)
    (himp : ∀ event, allowed event → allowed' event) : Reaches allowed' session later :=
  Relation.ReflTransGen.mono (fun _ _ hmove => hmove.mono himp) _ _ h

/-- **What all moves keep is kept.** -/
theorem Reaches.lasts {kept : Session δ σ → Prop}
    (hmove : ∀ {session later}, Move allowed session later → kept session → kept later)
    (h : Reaches allowed session later) (hsession : kept session) : kept later := by
  induction h with
  | refl => exact hsession
  | tail _ hlast ih => exact hmove hlast ih

variable [System σ]

/-- Why the shell may end: it starts the machine anew, which goes down for it; or in some call, an
index leaves its table. -/
inductive Stops (allowed : ConsoleEvent → Prop) (session : Session δ σ) : Halt → Prop
  | poweredOff {system : σ} : System.reboot system = none → Stops allowed session .poweredOff
  | broken {later : Session δ σ} {call : Call} : Reaches allowed session later →
      (later.volume.run call.operation).1 = .error .broken → Stops allowed session .broken

/-- What stops a later session stops an earlier one. -/
theorem Stops.of_reaches (h : Reaches allowed session later) {halt : Halt}
    (hstops : Stops allowed later halt) : Stops allowed session halt := by
  cases hstops with
  | poweredOff hdown => exact .poweredOff hdown
  | broken hlater hcall => exact .broken (h.trans hlater) hcall

theorem Stops.mono {allowed' : ConsoleEvent → Prop} {halt : Halt}
    (h : Stops allowed session halt) (himp : ∀ event, allowed event → allowed' event) :
    Stops allowed' session halt := by
  cases h with
  | poweredOff hdown => exact .poweredOff hdown
  | broken hlater hcall => exact .broken (hlater.mono himp) hcall

/-- What did not stop needs no reason. -/
theorem stops_of_ok {α : Type} (answer : α) :
    ∀ halt, (.ok answer : Except Halt α) = .error halt → Stops allowed session halt := nofun

end Session

namespace SessionM

variable {δ σ α β : Type} [BlockDevice δ] [System σ] {allowed : ConsoleEvent → Prop}

/-- A step makes moves, and stops only for a reason. -/
def Moves (allowed : ConsoleEvent → Prop) (step : SessionM δ σ α) : Prop :=
  ∀ session, Session.Reaches allowed session (step.run.run session).2
    ∧ ∀ halt, (step.run.run session).1 = .error halt → Session.Stops allowed session halt

/-- A step that may say anything, but does not move the cursor of the console back. -/
abbrev Acts (step : SessionM δ σ α) : Prop := Moves Terminal.Plain step

/-- A step that is made after some moves. -/
theorem Moves.after {step : SessionM δ σ α} (h : Moves allowed step) {session later : Session δ σ}
    (hlater : Session.Reaches allowed session later) :
    Session.Reaches allowed session (step.run.run later).2
      ∧ ∀ halt, (step.run.run later).1 = .error halt → Session.Stops allowed session halt := by
  obtain ⟨hreaches, hhalt⟩ := h later
  exact ⟨hlater.trans hreaches, fun halt hstop => (hhalt halt hstop).of_reaches hlater⟩

theorem Moves.mono {allowed' : ConsoleEvent → Prop} {step : SessionM δ σ α}
    (h : Moves allowed step) (himp : ∀ event, allowed event → allowed' event) :
    Moves allowed' step :=
  fun session => ⟨(h session).1.mono himp, fun halt hstop => ((h session).2 halt hstop).mono himp⟩

/-! ### Rules -/

theorem moves_pure (answer : α) : Moves allowed (pure answer : SessionM δ σ α) :=
  fun _ => ⟨.refl, Session.stops_of_ok _⟩

omit [BlockDevice δ] [System σ] in
theorem run_bind (first : SessionM δ σ β) (next : β → SessionM δ σ α) (session : Session δ σ) :
    (first >>= next).run.run session = match first.run.run session with
      | (.ok answer, later) => (next answer).run.run later
      | (.error halt, later) => (.error halt, later) := by
  rw [ExceptT.run_bind, StateT.run_bind]
  rcases first.run.run session with ⟨halt | answer, later⟩
  · rfl
  · rfl

omit [BlockDevice δ] [System σ] in
theorem run_get_bind (next : Session δ σ → SessionM δ σ α) (session : Session δ σ) :
    (get >>= next).run.run session = (next session).run.run session := rfl

omit [BlockDevice δ] [System σ] in
theorem run_lift (step : SessionM δ σ α) (session : Session δ σ) :
    (ExceptT.lift step.run : SessionM δ σ _).run.run session
      = (.ok (step.run.run session).1, (step.run.run session).2) := rfl

omit [BlockDevice δ] [System σ] in
theorem run_resolve?_bind (path : Text) (next : Option Text → SessionM δ σ α)
    (session : Session δ σ) : (resolve? path >>= next).run.run session
      = (next (Path.resolve? session.directory path)).run.run session := rfl

omit [BlockDevice δ] [System σ] in
/-- The volume answers, and only an index that left its table stops the shell. -/
theorem run_onVolume_bind (operation : VolumeM δ β) (next : Except VolumeError β → SessionM δ σ α)
    (session : Session δ σ) : (onVolume operation >>= next).run.run session
      = match session.volume.run operation with
        | (.ok answer, volume) => (next (.ok answer)).run.run { session with volume := volume }
        | (.error (.error cause), volume) =>
          (next (.error cause)).run.run { session with volume := volume }
        | (.error .broken, volume) => (.error .broken, { session with volume := volume }) := by
  rw [run_bind, onVolume, run_get_bind]
  rcases session.volume.run operation with ⟨(cause | _) | answer, volume⟩
  · rfl
  · rfl
  · rfl

/-- **Sequencing.** -/
theorem Moves.bind {first : SessionM δ σ β} {next : β → SessionM δ σ α}
    (hfirst : Moves allowed first) (hnext : ∀ answer, Moves allowed (next answer)) :
    Moves allowed (first >>= next) := by
  intro session
  obtain ⟨hreaches, hhalt⟩ := hfirst session
  rw [run_bind]
  rcases hrun : first.run.run session with ⟨halt | answer, later⟩
  · rw [hrun] at hreaches hhalt
    refine ⟨hreaches, ?_⟩
    rintro _ ⟨⟩
    exact hhalt halt rfl
  · rw [hrun] at hreaches
    exact (hnext answer).after hreaches

/-- A step whose outcome is looked at, whether it stops or not, is taken up again in the end. -/
theorem Moves.lift_bind {step : SessionM δ σ α} {next : SessionM δ σ Unit}
    (h : Moves allowed step) (hnext : Moves allowed next) :
    Moves allowed (do
      let outcome ← ExceptT.lift step.run
      next
      ExceptT.mk (pure outcome)) := by
  intro session
  obtain ⟨hreaches, hhalt⟩ := h session
  rw [run_bind, run_lift]
  dsimp only
  obtain ⟨hreaches', hhalt'⟩ := hnext.after hreaches
  rw [run_bind]
  rcases hlast : next.run.run (step.run.run session).2 with ⟨halt | ⟨⟩, last⟩ <;>
    rw [hlast] at hreaches' hhalt'
  · refine ⟨hreaches', ?_⟩
    rintro _ ⟨⟩
    exact hhalt' halt rfl
  · exact ⟨hreaches', hhalt⟩

theorem Moves.map {step : SessionM δ σ β} (h : Moves allowed step) (f : β → α) :
    Moves allowed (f <$> step) := by
  rw [← bind_pure_comp]
  exact h.bind fun _ => moves_pure _

theorem moves_get_bind {next : Session δ σ → SessionM δ σ α}
    (h : ∀ session, Moves allowed (next session)) : Moves allowed (get >>= next) :=
  fun session => h session session

theorem moves_modify {change : Session δ σ → Session δ σ}
    (h : ∀ session, Session.Move allowed session (change session)) :
    Moves allowed (modify change : SessionM δ σ Unit) :=
  fun session => ⟨(h session).reaches, Session.stops_of_ok _⟩

theorem moves_forM {step : β → SessionM δ σ Unit} (items : List β)
    (h : ∀ item, Moves allowed (step item)) : Moves allowed (items.forM step) := by
  induction items with
  | nil => exact moves_pure ()
  | cons item items ih => exact (h item).bind fun _ => ih

/-! ### Steps -/

theorem moves_write (bytes : List UInt8) : Moves allowed (write bytes : SessionM δ σ Unit) :=
  moves_modify fun _ => .written _

theorem moves_print (pieces : List Text) : Moves allowed (print pieces : SessionM δ σ Unit) :=
  moves_write _

theorem moves_printLine (pieces : List Text) :
    Moves allowed (printLine pieces : SessionM δ σ Unit) :=
  moves_print _

theorem moves_clearWritten :
    Moves allowed (modify fun session => { session with written := [] } : SessionM δ σ Unit) :=
  moves_modify fun _ => .written _

theorem moves_tell {events : List ConsoleEvent} (h : ∀ event ∈ events, allowed event) :
    Moves allowed (tell events : SessionM δ σ Unit) :=
  moves_modify fun _ => .told h

theorem moves_say (pieces : List Text) : Acts (say pieces : SessionM δ σ Unit) :=
  moves_tell fun _ h => List.mem_singleton.mp h ▸ trivial

/-- **Calls are moves.** -/
theorem moves_onVolume {operation : VolumeM δ α} (h : VolumeM.Calls operation) :
    Moves allowed (onVolume operation : SessionM δ σ _) := by
  intro session
  obtain ⟨⟨calls, hcalls⟩, hbroken⟩ := h session.volume
  rw [onVolume, run_get_bind]
  dsimp only
  generalize session.volume.run operation = ended at hcalls hbroken
  obtain ⟨outcome, volume⟩ := ended
  obtain rfl : volume = session.volume.called calls := hcalls
  have hreaches : Session.Reaches allowed session (session.called calls) :=
    Session.Move.reaches (.called calls)
  rcases outcome with (cause | _) | answer
  · exact ⟨hreaches, Session.stops_of_ok _⟩
  · refine ⟨hreaches, ?_⟩
    rintro _ ⟨⟩
    obtain ⟨before, call, hcall⟩ := hbroken rfl
    exact .broken (Session.Move.reaches (.called before)) hcall
  · exact ⟨hreaches, Session.stops_of_ok _⟩

theorem moves_available (command : Text) :
    Moves allowed (available command : SessionM δ σ _) := by
  refine moves_get_bind fun session => ?_
  split
  · exact moves_pure true
  · exact (moves_printLine _).bind fun _ => moves_pure false

/-- What is done only when the volume is mounted. -/
theorem moves_whenAvailable (command : Text) {body : SessionM δ σ Unit}
    (h : Moves allowed body) :
    Moves allowed (do if ← available command then body) := by
  refine (moves_available command).bind fun mounted => ?_
  split
  · exact h
  · exact moves_pure ()

theorem moves_resolve? (path : Text) : Moves allowed (resolve? path : SessionM δ σ _) :=
  moves_get_bind fun _ => moves_pure _

theorem moves_interrupted : Moves allowed (interrupted : SessionM δ σ Bool) :=
  fun _ => ⟨Session.Move.reaches (.asked _), Session.stops_of_ok _⟩

/-- What is done only when the user has not interrupted. -/
theorem moves_unlessInterrupted {body : SessionM δ σ Unit} (h : Moves allowed body) :
    Moves allowed (do if !(← interrupted) then body) := by
  refine moves_interrupted.bind fun found => ?_
  split
  · exact h
  · exact moves_pure ()

/-- Something is asked of the machine. -/
theorem moves_modifySystem (change : σ → σ) :
    Moves allowed (modify fun session => { session with system := change session.system } :
      SessionM δ σ Unit) :=
  moves_modify fun _ => .asked _

theorem moves_clearInterrupt : Moves allowed (clearInterrupt : SessionM δ σ Unit) :=
  moves_modifySystem _

theorem moves_eachUntilInterrupt {step : β → SessionM δ σ Unit}
    (h : ∀ item, Moves allowed (step item)) (items : List β) :
    Moves allowed (eachUntilInterrupt step items) := by
  induction items with
  | nil => exact moves_pure ()
  | cons item items ih => exact moves_unlessInterrupted ((h item).bind fun _ => ih)

end SessionM

end PocketKernel
