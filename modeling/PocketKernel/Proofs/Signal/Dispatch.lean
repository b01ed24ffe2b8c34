import Mathlib.Data.List.Induction
import PocketKernel.Proofs.Signal.Table

/-!
# Signals whose handlers change the table

A table of subscriptions is shared by everybody: by those who subscribe, unsubscribe and raise the
signal, and by the handlers, which subscribe and unsubscribe themselves while they run. What a
handler does may depend on all that happened before and on every answer that it gets.

Everything that happens is noted down. From the notes alone it can be told who is subscribed at any
moment, and that decides what the table answers and which handlers a signal reaches: those that were
subscribed when it was raised, whatever the first of them did to the others.

## Main definitions

* `SignalTable.Conduct`, `SignalTable.Call`: what handlers and others do with the table.
* `SignalTable.Note`, `SignalTable.live`: what happened, and who is subscribed after it.
* `SignalTable.Dispatches`: what is certain after some calls.

## Main results

* `SignalTable.Keeps.subscribe`, `SignalTable.Keeps.unsubscribe`, `SignalTable.Keeps.raise`: one
  call.
* `SignalTable.dispatches`: any calls.
-/

namespace PocketKernel.SignalTable

variable {η α β : Type}

/-! ### What happens -/

/-- What happens to a table. -/
inductive Event (η : Type) where
  | subscribed (subscription : Subscription η) (answer : Except SignalError ℕ)
  | unsubscribed (id : ℕ) (answer : Bool)
  /-- A handler starts to run. -/
  | called (subscription : Subscription η)

/-- What happened, and the table before and after it. -/
structure Note (η : Type) where
  event : Event η
  before : SignalTable η
  after : SignalTable η

/-- The subscriptions and their numbers after something happened. -/
def Event.change (live : List (ℕ × Subscription η)) : Event η → List (ℕ × Subscription η)
  | .subscribed subscription (.ok id) => live ++ [(id, subscription)]
  | .unsubscribed id true => live.filter (·.1 ≠ id)
  | _ => live

/-- The subscriptions that were entered and not cleared since, with the numbers that were given out
for them. -/
def live (log : List (Note η)) : List (ℕ × Subscription η) :=
  log.foldl (fun live note => note.event.change live) []

/-- The handler that started to run. -/
def Note.called? (note : Note η) : Option (Subscription η) :=
  match note.event with
  | .called subscription => some subscription
  | _ => none

/-! ### What is done with the table -/

/-- The shared table, and what happened to it so far. -/
abbrev Shared (η : Type) := StateT (SignalTable η) (StateM (List (Note η)))

/-- Do something and note what happened. -/
def noted (event : α → Event η) (act : Shared η α) : Shared η α := do
  let before ← getThe (SignalTable η)
  let answer ← act
  let after ← getThe (SignalTable η)
  modifyThe (List (Note η)) (· ++ [⟨event answer, before, after⟩])
  pure answer

/-- Subscribe a handler. -/
def subscribeNoted (handler : η) (context : ℕ) : Shared η (Except SignalError ℕ) :=
  noted (.subscribed ⟨handler, context⟩) (enter handler context)

/-- Unsubscribe a handler. -/
def unsubscribeNoted (id : ℕ) : Shared η Bool :=
  noted (.unsubscribed id) (leave (η := η) id)

/-- What a handler does with the table while it runs. It goes on by the answers it gets. -/
inductive Conduct (η : Type) where
  | done
  | subscribe (handler : η) (context : ℕ) (next : Except SignalError ℕ → Conduct η)
  | unsubscribe (id : ℕ) (next : Bool → Conduct η)

/-- Let a handler do what it does. -/
def Conduct.run : Conduct η → Shared η Unit
  | .done => pure ()
  | .subscribe handler context next => do
    let answer ← subscribeNoted handler context
    (next answer).run
  | .unsubscribe id next => do
    let answer ← unsubscribeNoted id
    (next answer).run

/-- What the handlers do, by what happened before. -/
abbrev Behaviour (η : Type) := List (Note η) → Subscription η → Conduct η

/-- Run a handler. -/
def Behaviour.run (behaviour : Behaviour η) (handler : η) (context : ℕ) : Shared η Unit := do
  noted (fun () => .called ⟨handler, context⟩) (pure ())
  let log ← getThe (List (Note η))
  (behaviour log ⟨handler, context⟩).run

/-- What somebody who is not a handler does with the table. -/
inductive Call (η : Type) where
  | subscribe (handler : η) (context : ℕ)
  | unsubscribe (id : ℕ)
  | raise

/-- Make a call. -/
def Call.run (behaviour : Behaviour η) : Call η → Shared η Unit
  | .subscribe handler context => discard (subscribeNoted handler context)
  | .unsubscribe id => discard (unsubscribeNoted id)
  | .raise => discard (SignalTable.raise false behaviour.run)

/-- A table, and what happened to it. -/
structure Watched (η : Type) where
  table : SignalTable η
  log : List (Note η)

/-- Make a call. -/
def Watched.apply (behaviour : Behaviour η) (watched : Watched η) (call : Call η) : Watched η :=
  let (((), table), log) := ((call.run behaviour).run watched.table).run watched.log
  ⟨table, log⟩

/-- What some calls lead to, from a table in which nobody is subscribed. -/
def after (behaviour : Behaviour η) (calls : List (Call η)) : Watched η :=
  calls.foldl (Watched.apply behaviour) ⟨empty, []⟩

theorem after_append_singleton (behaviour : Behaviour η) (calls : List (Call η)) (call : Call η) :
    after behaviour (calls ++ [call]) = (after behaviour calls).apply behaviour call :=
  List.foldl_append ..

/-! ### One step -/

/-- What happened is what the table had to answer, for what was subscribed before. -/
def Note.Proper (live : List (ℕ × Subscription η)) (note : Note η) : Prop :=
  match note.event with
  | .subscribed _ (.ok id) =>
    id < 16 ∧ id ∉ live.map Prod.fst ∧ (∀ before < id, before ∈ live.map Prod.fst)
      ∧ live.length < 16 ∧ ChangesOnly id note.before note.after
  | .subscribed _ (.error _) => live.length = 16 ∧ note.after = note.before
  | .unsubscribed id true =>
    id ∈ live.map Prod.fst ∧ ChangesOnly id note.before note.after
  | .unsubscribed id false => id ∉ live.map Prod.fst ∧ note.after = note.before
  | .called _ => note.after = note.before

/-- All that happened was proper, and the table holds what is subscribed. -/
structure Sound (table : SignalTable η) (log : List (Note η)) : Prop where
  agrees : Agrees (live log) table
  proper : ∀ earlier note later, log = earlier ++ note :: later →
    note.Proper (live earlier) ∧ Agrees (live earlier) note.before
      ∧ Agrees (live (earlier ++ [note])) note.after

theorem sound_empty : Sound (empty : SignalTable η) [] :=
  ⟨agrees_empty, fun earlier note later h => absurd h (by simp)⟩

theorem live_append_singleton (log : List (Note η)) (note : Note η) :
    live (log ++ [note]) = note.event.change (live log) := List.foldl_append ..

/-- Something proper happens. -/
theorem Sound.note {table next : SignalTable η} {log : List (Note η)} {event : Event η}
    (h : Sound table log) (hproper : Note.Proper (live log) ⟨event, table, next⟩)
    (hagrees : Agrees (event.change (live log)) next) :
    Sound next (log ++ [⟨event, table, next⟩]) := by
  rw [← live_append_singleton log ⟨event, table, next⟩] at hagrees
  refine ⟨hagrees, fun earlier note later hlog => ?_⟩
  rcases List.eq_nil_or_concat later with rfl | ⟨later, last, rfl⟩
  · obtain ⟨rfl, hnote⟩ := List.append_inj' hlog rfl
    cases hnote
    exact ⟨hproper, h.agrees, hagrees⟩
  · rw [List.concat_eq_append, ← List.cons_append, ← List.append_assoc] at hlog
    exact h.proper earlier note later (List.append_inj' hlog rfl).1

/-- A program that is run on a sound table leaves it sound, and meanwhile some handlers start to
run. -/
def Keeps (program : Shared η α) (called : List (Subscription η)) (table : SignalTable η)
    (log : List (Note η)) : Prop :=
  Sound table log → ∃ answer next during, (program.run table).run log
      = ((answer, next), log ++ during)
    ∧ during.filterMap Note.called? = called ∧ Sound next (log ++ during)

theorem run_noted {event : α → Event η} {act : Shared η α} {table next : SignalTable η}
    {log : List (Note η)} {answer : α} (h : (act.run table).run log = ((answer, next), log)) :
    ((noted event act).run table).run log
      = ((answer, next), log ++ [⟨event answer, table, next⟩]) := by
  have hrun : ((noted event act).run table).run log = match (act.run table).run log with
    | ((answer, next), log) => ((answer, next), log ++ [⟨event answer, table, next⟩]) := rfl
  rw [hrun, h]

theorem run_enter {handler : η} {context : ℕ} {table : SignalTable η} (log : List (Note η)) :
    ((enter handler context : Shared η _).run table).run log
      = match table.subscribe handler context with
        | .ok (id, next) => ((.ok id, next), log)
        | .error cause => ((.error cause, table), log) := by
  show ((match table.subscribe handler context with
    | .ok (id, next) => do
      set next
      pure (.ok id)
    | .error cause => pure (.error cause) : Shared η (Except SignalError ℕ)).run table).run log = _
  cases table.subscribe handler context <;> rfl

theorem run_leave (table : SignalTable η) (id : ℕ) (log : List (Note η)) :
    ((leave (η := η) id : Shared η _).run table).run log
      = match table.unsubscribe? id with
        | some next => ((true, next), log)
        | none => ((false, table), log) := by
  show ((match table.unsubscribe? id with
    | some next => do
      set next
      pure true
    | none => pure false : Shared η Bool).run table).run log = _
  cases table.unsubscribe? id <;> rfl

theorem Keeps.pure (answer : α) (table : SignalTable η) (log : List (Note η)) :
    Keeps (pure answer : Shared η α) [] table log :=
  fun h => ⟨answer, table, [], by rw [List.append_nil]; rfl, rfl, by rwa [List.append_nil]⟩

theorem Keeps.bind {program : Shared η α} {next : α → Shared η β}
    {called called' : List (Subscription η)} {table : SignalTable η} {log : List (Note η)}
    (h : Keeps program called table log)
    (hnext : ∀ answer table log, Keeps (next answer) called' table log) :
    Keeps (program >>= next) (called ++ called') table log := by
  intro hsound
  obtain ⟨answer, table', during, hrun, hcalled, hsound'⟩ := h hsound
  obtain ⟨answer', table'', during', hrun', hcalled', hsound''⟩ :=
    hnext answer table' (log ++ during) hsound'
  refine ⟨answer', table'', during ++ during', ?_, ?_, by rwa [← List.append_assoc]⟩
  · rw [StateT.run_bind, StateT.run_bind, hrun, ← List.append_assoc]
    exact hrun'
  · rw [List.filterMap_append, hcalled, hcalled']

theorem Keeps.discard {program : Shared η α} {called : List (Subscription η)}
    {table : SignalTable η} {log : List (Note η)} (h : Keeps program called table log) :
    Keeps (discard program) called table log := by
  intro hsound
  obtain ⟨answer, next, during, hrun, hcalled, hsound'⟩ := h hsound
  refine ⟨⟨⟩, next, during, ?_, hcalled, hsound'⟩
  have hdiscard : ((Functor.discard program).run table).run log
      = match (program.run table).run log with
        | ((_, next), log) => ((⟨⟩, next), log) := rfl
  rw [hdiscard, hrun]

/-- **Somebody subscribes.** -/
theorem Keeps.subscribe (handler : η) (context : ℕ) (table : SignalTable η)
    (log : List (Note η)) : Keeps (subscribeNoted handler context) [] table log := by
  intro hsound
  have hagrees := hsound.agrees
  rcases hagrees.subscribe handler context with
    ⟨id, next, hrun, hid, hnew, hbefore, honly, hnext⟩ | ⟨hrun, hall⟩
  · have hroom : (live log).length < 16 := Nat.lt_of_le_of_ne hagrees.length_le
      fun hlength => hnew (hagrees.length_eq_iff.mp hlength id hid)
    refine ⟨.ok id, next, [_], run_noted ?_, rfl,
      hsound.note ⟨hid, hnew, hbefore, hroom, honly⟩ hnext⟩
    rw [run_enter, hrun]
  · refine ⟨.error .tableFull, table, [_], run_noted ?_, rfl,
      hsound.note ⟨hagrees.length_eq_iff.mpr hall, rfl⟩ hagrees⟩
    rw [run_enter, hrun]

/-- **Somebody unsubscribes.** -/
theorem Keeps.unsubscribe (id : ℕ) (table : SignalTable η) (log : List (Note η)) :
    Keeps (unsubscribeNoted id) [] table log := by
  intro hsound
  rcases hsound.agrees.unsubscribe? id with ⟨next, hrun, hused, honly, hnext⟩ | ⟨hrun, hfree⟩
  · refine ⟨true, next, [_], run_noted ?_, rfl, hsound.note ⟨hused, honly⟩ hnext⟩
    rw [run_leave, hrun]
  · refine ⟨false, table, [_], run_noted ?_, rfl, hsound.note ⟨hfree, rfl⟩ hsound.agrees⟩
    rw [run_leave, hrun]

/-- A handler may do anything with the table. -/
theorem Keeps.conduct (conduct : Conduct η) (table : SignalTable η) (log : List (Note η)) :
    Keeps conduct.run [] table log := by
  induction conduct generalizing table log with
  | done => exact .pure () table log
  | subscribe handler context next ih =>
    exact (Keeps.subscribe handler context table log).bind ih
  | unsubscribe id next ih => exact (Keeps.unsubscribe id table log).bind ih

/-- A handler starts to run, and then it does something with the table. -/
theorem Keeps.handler (behaviour : Behaviour η) (subscription : Subscription η)
    (table : SignalTable η) (log : List (Note η)) :
    Keeps (behaviour.run subscription.handler subscription.context) [subscription] table log := by
  have hcall (table : SignalTable η) (log : List (Note η)) :
      Keeps (noted (fun () => .called subscription) (Pure.pure () : Shared η Unit))
        [subscription] table log :=
    fun hsound => ⟨(), table, [_], run_noted rfl, rfl, hsound.note rfl hsound.agrees⟩
  have hlog (table : SignalTable η) (log : List (Note η)) :
      Keeps (getThe (List (Note η)) : Shared η _) [] table log :=
    fun hsound => ⟨log, table, [], by rw [List.append_nil]; rfl, rfl, by rwa [List.append_nil]⟩
  exact (hcall table log).bind fun _ table log =>
    (hlog table log).bind fun _ table log => .conduct _ table log

/-- Handlers run one after the other. -/
theorem Keeps.mapM (behaviour : Behaviour η) (subscriptions : List (Subscription η))
    (table : SignalTable η) (log : List (Note η)) :
    Keeps (subscriptions.mapM fun subscription =>
      behaviour.run subscription.handler subscription.context) subscriptions table log := by
  induction subscriptions generalizing table log with
  | nil => exact .pure [] table log
  | cons subscription later ih =>
    rw [List.mapM_cons]
    exact (Keeps.handler behaviour subscription table log).bind fun _ table log => by
      simpa using (ih table log).bind fun _ table log => .pure _ table log

/-- **The signal is raised.** The handlers that are subscribed now run, whatever they do. -/
theorem Keeps.raise (behaviour : Behaviour η) (table : SignalTable η) (log : List (Note η)) :
    Keeps (SignalTable.raise false behaviour.run) table.subscriptions table log :=
  .mapM behaviour table.subscriptions table log

/-- **Any call** leaves the table sound. -/
theorem Sound.apply {watched : Watched η} (h : Sound watched.table watched.log)
    (behaviour : Behaviour η) (call : Call η) :
    Sound (watched.apply behaviour call).table (watched.apply behaviour call).log := by
  obtain ⟨called, hkeeps⟩ :
      ∃ called, Keeps (call.run behaviour) called watched.table watched.log := by
    cases call with
    | subscribe handler context => exact ⟨_, .discard (.subscribe handler context _ _)⟩
    | unsubscribe id => exact ⟨_, .discard (.unsubscribe id _ _)⟩
    | raise => exact ⟨_, .discard (.raise behaviour _ _)⟩
  obtain ⟨answer, next, during, hrun, -, hsound⟩ := hkeeps h
  rw [Watched.apply, hrun]
  exact hsound

/-! ### Any calls -/

/-- After any calls the table is sound. -/
theorem sound_after (behaviour : Behaviour η) (calls : List (Call η)) :
    Sound (after behaviour calls).table (after behaviour calls).log := by
  induction calls using List.reverseRecOn with
  | nil => exact sound_empty
  | append_singleton calls call ih =>
    rw [after_append_singleton]
    exact ih.apply behaviour call

/-- What is certain of a table after some calls. -/
structure Dispatches (behaviour : Behaviour η) (calls : List (Call η)) (now : Watched η) :
    Prop where
  /-- At every moment, the numbers that are in use are different and less than sixteen. -/
  numbers : ∀ earlier later, now.log = earlier ++ later →
    ((live earlier).map Prod.fst).Nodup ∧ ∀ id ∈ (live earlier).map Prod.fst, id < 16
  /-- Everything that happened is what had to happen, and the table held what was subscribed before
  it and after it. -/
  proper : ∀ earlier note later, now.log = earlier ++ note :: later →
    note.Proper (live earlier) ∧ Agrees (live earlier) note.before
      ∧ Agrees (live (earlier ++ [note])) note.after
  agrees : Agrees (live now.log) now.table
  /-- If the signal is raised now, those who are subscribed now are called, each once, in the order
  of their numbers. -/
  raise : ∃ (called : List (ℕ × Subscription η)) (during : List (Note η)),
    (after behaviour (calls ++ [.raise])).log = now.log ++ during
    ∧ called.Perm (live now.log) ∧ called.Pairwise (fun first second => first.1 < second.1)
    ∧ during.filterMap Note.called? = called.map Prod.snd

/-- **Signals reach those who were subscribed.** Whatever is called, and whatever the handlers do to
the table while they run: numbers are given out and taken back as they are free and in use, and a
signal that is raised calls those who were subscribed when it was raised. -/
theorem dispatches (behaviour : Behaviour η) (calls : List (Call η)) :
    Dispatches behaviour calls (after behaviour calls) := by
  have hsound := sound_after behaviour calls
  refine ⟨fun earlier later hlog => ?_, hsound.proper, hsound.agrees, ?_⟩
  · obtain ⟨table, hagrees⟩ : ∃ table, Agrees (live earlier) table := by
      cases later with
      | nil => exact ⟨_, (List.append_nil earlier ▸ hlog) ▸ hsound.agrees⟩
      | cons note later => exact ⟨_, (hsound.proper earlier note later hlog).2.1⟩
    exact ⟨hagrees.nodup, fun id hid => hagrees.number_lt hid⟩
  · have hkeeps := Keeps.discard
      (Keeps.raise behaviour (after behaviour calls).table (after behaviour calls).log)
    obtain ⟨answer, next, during, hrun, hcalled, -⟩ := hkeeps hsound
    refine ⟨(after behaviour calls).table.numbered, during, ?_, hsound.agrees.perm_numbered,
      pairwise_numbered _, ?_⟩
    · rw [after_append_singleton, Watched.apply]
      exact congrArg Prod.snd hrun
    · rw [hcalled, map_snd_numbered]

end PocketKernel.SignalTable
