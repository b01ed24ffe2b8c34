import Mathlib.Data.List.Induction
import Mathlib.Logic.Function.Iterate
import PocketKernel.Proofs.Keyboard.Decoding
import PocketKernel.Proofs.Keyboard.Ledger
import PocketKernel.Proofs.Keyboard.Queue

/-!
# What becomes of the events of a keyboard

A keyboard is fed bytes, is polled for events and for characters, and changes its layout, in any
order. Which events are made on the way is told by a decoder that goes through the actions by
itself, with no keyboard around it. A ledger is kept of them by the rules of a plain queue.

The keyboard, with its ring of slots, answers by the ledger: it holds just the events that wait,
which are the most recent ones that were made, and hands over the oldest one first. An event is lost
only when it is the oldest of 64 and another one is made. The hook of the interrupt key is called
once for each event of that key, whatever becomes of it.

## Main definitions

* `Keyboard.ledgerOf`: the ledger of some actions and the events that they make.
* `Keyboard.Watched`, `Keyboard.after`: a keyboard with what the hook works on, after some actions.
* `Keyboard.Delivers`: what is certain after some actions.

## Main results

* `Keyboard.process_eq`: a byte is decoded, what it makes is queued, and the hook is called.
* `Keyboard.Faithful.apply`: one action.
* `Keyboard.delivers`: any actions, with any decoder.
-/

namespace PocketKernel.Keyboard

open KeyDecoder

/-! ### The ledger of some actions -/

/-- Enter an action into the ledger. -/
def record (ledger : Ledger) : Action × Option KeyEvent → Ledger
  | (_, some event) => ledger.enter event
  | (.poll, none) | (.pollChar, none) => ledger.take
  | (.scan _, none) | (.setLayout _, none) => ledger

/-- The ledger of some actions. -/
def ledgerOf (history : History) : Ledger := history.foldl record .start

/-- The events that were made. -/
def madeIn (history : History) : List KeyEvent := history.filterMap Prod.snd

variable {history : History} {entry : Action × Option KeyEvent} {ledger : Ledger} {number : ℕ}

theorem ledgerOf_concat (history : History) (entry : Action × Option KeyEvent) :
    ledgerOf (history ++ [entry]) = record (ledgerOf history) entry :=
  List.foldl_append ..

theorem madeIn_concat (history : History) (entry : Action × Option KeyEvent) :
    madeIn (history ++ [entry]) = madeIn history ++ entry.2.toList := by
  rcases entry with ⟨action, - | event⟩ <;> simp [madeIn]

theorem made_record (ledger : Ledger) (entry : Action × Option KeyEvent) :
    (record ledger entry).made = ledger.made ++ entry.2.toList := by
  rcases entry with ⟨action, - | event⟩
  · cases action <;> simp [record, Ledger.take]
  · rfl

/-- The ledger has all events. -/
theorem made_ledgerOf (history : History) : (ledgerOf history).made = madeIn history := by
  induction history using List.reverseRecOn with
  | nil => rfl
  | append_singleton history entry ih =>
    rw [ledgerOf_concat, madeIn_concat, made_record, ih]

/-- The numbers are always in order. -/
theorem orderly_ledgerOf (history : History) : ∃ first, (ledgerOf history).Orderly first := by
  induction history using List.reverseRecOn with
  | nil => exact ⟨0, Ledger.orderly_start⟩
  | append_singleton history entry ih =>
    obtain ⟨first, horderly⟩ := ih
    rw [ledgerOf_concat]
    rcases entry with ⟨action, - | event⟩
    · cases action with
      | scan | setLayout => exact ⟨first, horderly⟩
      | poll | pollChar => exact horderly.take
    · exact horderly.enter event

theorem lost_record {first : ℕ} (h : ledger.Orderly first) :
    (record ledger entry).Lost number ↔ ledger.Lost number
      ∨ ((∃ event, entry.2 = some event) ∧ ledger.Full ∧ ledger.waiting.head? = some number) := by
  rcases entry with ⟨action, - | event⟩
  · rw [or_iff_left (by simp)]
    cases action with
    | scan | setLayout => rfl
    | poll | pollChar => exact h.lost_take
  · have hmade : ∃ event', (action, some event).2 = some event' := ⟨event, rfl⟩
    rw [record, h.lost_enter, and_iff_right hmade]

/-- **An event is lost** just where it was the oldest of 64 and another one was made. -/
theorem lost_ledgerOf (history : History) (number : ℕ) :
    (ledgerOf history).Lost number ↔ ∃ earlier action event later,
      history = earlier ++ (action, some event) :: later ∧ (ledgerOf earlier).Full
        ∧ (ledgerOf earlier).waiting.head? = some number := by
  induction history using List.reverseRecOn with
  | nil =>
    constructor
    · exact fun h => absurd h.1 (Nat.not_lt_zero _)
    · rintro ⟨earlier, action, event, later, hhistory, -⟩
      exact absurd hhistory (by simp)
  | append_singleton history last ih =>
    obtain ⟨first, horderly⟩ := orderly_ledgerOf history
    rw [ledgerOf_concat, lost_record horderly, ih]
    constructor
    · rintro (⟨earlier, action, event, later, rfl, h⟩ | ⟨⟨event, hevent⟩, h⟩)
      · exact ⟨earlier, action, event, later ++ [last], by simp, h⟩
      · exact ⟨history, last.1, event, [], by rw [← hevent], h⟩
    · rintro ⟨earlier, action, event, later, hhistory, h⟩
      rcases List.eq_nil_or_concat later with rfl | ⟨later, tail, rfl⟩
      · obtain ⟨rfl, hlast⟩ := List.append_inj' hhistory rfl
        cases hlast
        exact .inr ⟨⟨event, rfl⟩, h⟩
      · rw [List.concat_eq_append, ← List.cons_append, ← List.append_assoc] at hhistory
        exact .inl ⟨earlier, action, event, later, (List.append_inj' hhistory rfl).1, h⟩

/-! ### A keyboard -/

/-- What the keyboard answers. -/
inductive Answer where
  | scanned (made : Option KeyEvent)
  | polled (event : Option KeyEvent)
  | polledChar (symbol : Option Char)
  | silent
deriving DecidableEq

/-- The answer by the ledger, to an action that makes an event or none. -/
def reply (ledger : Ledger) : Action × Option KeyEvent → Answer
  | (.scan _, made) => .scanned made
  | (.poll, _) => .polled ledger.oldest?
  | (.pollChar, _) => .polledChar (ledger.oldest?.map KeyEvent.symbol)
  | (.setLayout _, _) => .silent

variable {δ ρ : Type} [KeyDecoder δ] (raise : StateM ρ Unit)

/-- Do something with a keyboard. `raise` is the hook of the interrupt key. -/
def Action.perform (keyboard : KeyboardDriver δ) : Action → StateM ρ (Answer × KeyboardDriver δ)
  | .scan byte => do
    let (made, keyboard) ← keyboard.process raise byte
    pure (.scanned made, keyboard)
  | .poll => pure (.polled keyboard.poll.1, keyboard.poll.2)
  | .pollChar => pure (.polledChar keyboard.pollChar.1, keyboard.pollChar.2)
  | .setLayout layout => pure (.silent, keyboard.setLayout layout)

/-- A keyboard, and what the hook of the interrupt key works on. -/
structure Watched (δ ρ : Type) where
  keyboard : KeyboardDriver δ
  world : ρ

/-- What the keyboard answers to an action. -/
def Watched.answer (watched : Watched δ ρ) (action : Action) : Answer :=
  ((action.perform raise watched.keyboard).run watched.world).1.1

/-- Do something with the keyboard. -/
def Watched.apply (watched : Watched δ ρ) (action : Action) : Watched δ ρ where
  keyboard := ((action.perform raise watched.keyboard).run watched.world).1.2
  world := ((action.perform raise watched.keyboard).run watched.world).2

/-- What some actions lead to, from a new keyboard. -/
def after (layout : Layout) (world : ρ) (actions : List Action) : Watched δ ρ :=
  actions.foldl (Watched.apply raise) ⟨.initial layout, world⟩

theorem after_concat (layout : Layout) (world : ρ) (actions : List Action) (action : Action) :
    (after raise layout world (actions ++ [action]) : Watched δ ρ)
      = (after raise layout world actions).apply raise action :=
  List.foldl_append ..

/-! ### One byte -/

/-- What calling the hook does. -/
def call (world : ρ) : ρ := (raise.run world).2

/-- How often the hook is called for some events: once for each of the interrupt key. -/
def calls (events : List KeyEvent) : ℕ := events.countP (·.symbol = '\x03')

theorem calls_append (events later : List KeyEvent) :
    calls (events ++ later) = calls events + calls later :=
  List.countP_append

/-- The keyboard behind a byte that was decoded. -/
def received (keyboard : KeyboardDriver δ) (made : Option KeyEvent) (next : δ) :
    KeyboardDriver δ where
  layout := keyboard.layout
  decoder := next
  queue := made.elim keyboard.queue keyboard.queue.push

/-- **A byte is decoded**, what it makes is queued, and the hook is called for an event of the
interrupt key and for nothing else. -/
theorem process_eq (raise : StateM ρ Unit) {keyboard : KeyboardDriver δ} {byte : UInt8}
    {made : Option KeyEvent} {next : δ} (h : Makes keyboard.decoder byte made next) (world : ρ) :
    (keyboard.process raise byte).run world = ((made, received keyboard made next),
      (call raise)^[calls made.toList] world) := by
  cases h with
  | wordless hbyte =>
    simp only [KeyboardDriver.process, hbyte]
    rfl
  | silent hbyte hstrike hnothing =>
    simp only [KeyboardDriver.process, hbyte, hstrike, bind_symbolOf?_eq_none_iff.mpr hnothing]
    rfl
  | @event change mid _ produced symbol hbyte hstrike hmeans =>
    have hcalls : calls [⟨symbol, (held mid).modifiers, true⟩]
        = if isInterrupt ⟨symbol, (held mid).modifiers, true⟩ then 1 else 0 :=
      List.countP_singleton ..
    simp only [KeyboardDriver.process, hbyte, hstrike, Option.bind_some,
      symbolOf?_eq_some_iff.mpr hmeans, Option.toList_some, hcalls]
    cases isInterrupt ⟨symbol, (held mid).modifiers, true⟩ <;> rfl

theorem scan_eq (raise : StateM ρ Unit) {watched : Watched δ ρ} {byte : UInt8}
    {made : Option KeyEvent} {next : δ} (h : Makes watched.keyboard.decoder byte made next) :
    watched.answer raise (.scan byte) = .scanned made
      ∧ watched.apply raise (.scan byte) = ⟨received watched.keyboard made next,
        (call raise)^[calls made.toList] watched.world⟩ := by
  rw [Watched.apply, Watched.answer, Action.perform, StateT.run_bind, process_eq raise h]
  exact ⟨rfl, rfl⟩

/-! ### One action -/

/-- The keyboard holds what waits by the ledger of what was done, its decoder is where it gets to by
itself, and the hook was called for each event of the interrupt key. -/
structure Faithful (layout : Layout) (world : ρ) (history : History) (now : Watched δ ρ) :
    Prop where
  decoded : Decodes (start layout) history now.keyboard.decoder
  events_eq : now.keyboard.queue.events = (ledgerOf history).pending
  world_eq : now.world = (call raise)^[calls (madeIn history)] world

variable {raise} {layout : Layout} {world : ρ} {now : Watched δ ρ} {next : δ}

theorem Faithful.size_eq (h : Faithful raise layout world history now) :
    now.keyboard.queue.size = (ledgerOf history).waiting.length := by
  obtain ⟨first, horderly⟩ := orderly_ledgerOf history
  rw [← horderly.length_pending, ← h.events_eq, EventQueue.length_events]

/-- What a byte makes is entered into the queue as it is into the ledger. -/
theorem Faithful.events_scan (h : Faithful raise layout world history now) (byte : UInt8)
    (made : Option KeyEvent) :
    (made.elim now.keyboard.queue now.keyboard.queue.push).events
      = (record (ledgerOf history) (.scan byte, made)).pending := by
  obtain ⟨first, horderly⟩ := orderly_ledgerOf history
  cases made with
  | none => exact h.events_eq
  | some event =>
    have hfull : now.keyboard.queue.size = EventQueue.capacity ↔ (ledgerOf history).Full := by
      rw [h.size_eq]
      rfl
    rw [Option.elim_some, EventQueue.events_push, record, horderly.pending_enter, h.events_eq]
    simp only [hfull]

omit [KeyDecoder δ] in
theorem decoder_poll (keyboard : KeyboardDriver δ) :
    keyboard.poll.2.decoder = keyboard.decoder := by
  rw [KeyboardDriver.poll]
  split <;> rfl

omit [KeyDecoder δ] in
/-- **A poll hands over the oldest event that waits.** -/
theorem poll_events (keyboard : KeyboardDriver δ) :
    keyboard.poll.1 = keyboard.queue.events.head?
      ∧ keyboard.poll.2.queue.events = keyboard.queue.events.tail := by
  rw [KeyboardDriver.poll]
  cases hevents : keyboard.queue.events with
  | nil =>
    rw [EventQueue.pop?_of_nil hevents]
    exact ⟨rfl, hevents⟩
  | cons event later =>
    obtain ⟨left, hpop, hleft⟩ := EventQueue.pop?_of_cons hevents
    rw [hpop]
    exact ⟨rfl, hleft⟩

theorem Faithful.poll_eq (h : Faithful raise layout world history now) :
    now.keyboard.poll.1 = (ledgerOf history).oldest?
      ∧ now.keyboard.poll.2.queue.events = (ledgerOf history).take.pending := by
  obtain ⟨first, horderly⟩ := orderly_ledgerOf history
  obtain ⟨hevent, hevents⟩ := poll_events now.keyboard
  rw [← horderly.head?_pending, horderly.pending_take, ← h.events_eq]
  exact ⟨hevent, hevents⟩

/-- An action is answered by the ledger. -/
theorem Faithful.answer_eq (h : Faithful raise layout world history now)
    (hentry : Advances now.keyboard.decoder entry next) :
    now.answer raise entry.1 = reply (ledgerOf history) entry := by
  cases hentry with
  | scan hmakes => exact (scan_eq raise hmakes).1
  | poll => exact congrArg Answer.polled h.poll_eq.1
  | pollChar => exact congrArg (Answer.polledChar <| ·.map KeyEvent.symbol) h.poll_eq.1
  | setLayout layout => rfl

/-- **One action.** -/
theorem Faithful.apply (h : Faithful raise layout world history now)
    (hentry : Advances now.keyboard.decoder entry next) :
    Faithful raise layout world (history ++ [entry]) (now.apply raise entry.1) := by
  suffices hnow : (now.apply raise entry.1).keyboard.decoder = next
      ∧ (now.apply raise entry.1).keyboard.queue.events
        = (record (ledgerOf history) entry).pending
      ∧ (now.apply raise entry.1).world = (call raise)^[calls entry.2.toList] now.world by
    obtain ⟨hdecoder, hevents, hworld⟩ := hnow
    refine ⟨hdecoder ▸ h.decoded.concat hentry, ledgerOf_concat .. ▸ hevents, ?_⟩
    rw [hworld, h.world_eq, madeIn_concat, calls_append, Nat.add_comm, Function.iterate_add_apply]
  cases hentry with
  | @scan byte made next hmakes =>
    rw [(scan_eq raise hmakes).2]
    exact ⟨rfl, h.events_scan byte made, rfl⟩
  | poll => exact ⟨decoder_poll now.keyboard, h.poll_eq.2, rfl⟩
  | pollChar => exact ⟨decoder_poll now.keyboard, h.poll_eq.2, rfl⟩
  | setLayout layout => exact ⟨rfl, h.events_eq, rfl⟩

/-! ### Any actions -/

/-- After any actions the keyboard agrees with the ledger of what they make. -/
theorem faithful_after (raise : StateM ρ Unit) (layout : Layout) (world : ρ) {last : δ}
    (h : Decodes (start layout) history last) :
    Faithful raise layout world history
      (after raise layout world (history.map Prod.fst) : Watched δ ρ) := by
  induction history using List.reverseRecOn generalizing last with
  | nil => exact ⟨.nil, rfl, rfl⟩
  | append_singleton history entry ih =>
    obtain ⟨mid, next, hhistory, hentry⟩ := h.of_append
    have hbefore := ih hhistory
    rw [List.map_append, List.map_singleton, after_concat]
    rw [← (hhistory.eq_of_map_fst hbefore.decoded rfl).2] at hentry
    exact hbefore.apply hentry

/-- What is certain of a keyboard, after some actions and the events that they make. -/
structure Delivers (raise : StateM ρ Unit) (layout : Layout) (world : ρ) (history : History)
    (now : Watched δ ρ) : Prop where
  /-- The events are those that a decoder by itself makes of the actions. -/
  decoded : Decodes (start layout) history now.keyboard.decoder
  made_eq : (ledgerOf history).made = madeIn history
  /-- The keyboard holds the events that wait by the ledger. -/
  events_eq : now.keyboard.queue.events = (ledgerOf history).pending
  size_eq : now.keyboard.queue.size = (ledgerOf history).waiting.length
  /-- They are the most recent ones that were made, in the order in which they were made. -/
  recent : (ledgerOf history).pending
    = (madeIn history).drop ((madeIn history).length - (ledgerOf history).waiting.length)
  bounded : (ledgerOf history).waiting.length ≤ 64
  /-- Every action was answered by the ledger: what was polled was the oldest event that waited. -/
  answered : ∀ earlier entry later, history = earlier ++ entry :: later →
    (after raise layout world (earlier.map Prod.fst) : Watched δ ρ).answer raise entry.1
      = reply (ledgerOf earlier) entry
  /-- No event was polled twice, nor after a later one. -/
  polled_sorted : (ledgerOf history).polled.Pairwise (· < ·)
  polled_lt : ∀ number ∈ (ledgerOf history).polled, ∀ later ∈ (ledgerOf history).waiting,
    number < later
  /-- An event is lost just where it was the oldest of 64 and another one was made. -/
  lost_iff : ∀ number, (ledgerOf history).Lost number ↔ ∃ earlier action event later,
    history = earlier ++ (action, some event) :: later ∧ (ledgerOf earlier).Full
      ∧ (ledgerOf earlier).waiting.head? = some number
  /-- A change of the layout leaves the events alone. -/
  setLayout_eq : ∀ layout, (now.keyboard.setLayout layout).queue = now.keyboard.queue
  /-- The hook was called once for each event of the interrupt key that was made. -/
  called : now.world = (call raise)^[calls (madeIn history)] world

theorem Faithful.delivers_of (h : Faithful raise layout world history now) :
    Delivers raise layout world history now := by
  obtain ⟨first, horderly⟩ := orderly_ledgerOf history
  have hwaiting := horderly.length_waiting
  have hfirst := horderly.first_le
  refine ⟨h.decoded, made_ledgerOf history, h.events_eq, h.size_eq, ?_, hwaiting ▸ horderly.bounded,
    ?_, horderly.polled_sorted, ?_, lost_ledgerOf history, fun _ => rfl, h.world_eq⟩
  · rw [horderly.pending_eq, hwaiting, ← made_ledgerOf, Nat.sub_sub_self hfirst]
  · rintro earlier entry later rfl
    obtain ⟨mid, next, hearlier, hentry⟩ := h.decoded.of_append
    have hbefore := faithful_after raise layout world hearlier
    rw [← (hearlier.eq_of_map_fst hbefore.decoded rfl).2] at hentry
    exact hbefore.answer_eq hentry
  · intro number hnumber later hlater
    exact Nat.lt_of_lt_of_le (horderly.polled_lt number hnumber) (horderly.mem_waiting.mp hlater).1

/-- **No event goes astray.** A keyboard with any decoder is fed any bytes, is polled and changes
its layout in any order. Its decoder makes one row of events of that. The keyboard holds the most
recent of them, hands them over oldest first and once, loses one only when 64 wait and another is
made, and calls the hook for each event of the interrupt key. -/
theorem delivers (raise : StateM ρ Unit) (layout : Layout) (world : ρ) (actions : List Action) :
    ∃ history : History, history.map Prod.fst = actions
      ∧ (∀ other (last : δ), other.map Prod.fst = actions → Decodes (start layout) other last →
        other = history)
      ∧ Delivers raise layout world history (after raise layout world actions : Watched δ ρ) := by
  obtain ⟨history, last, rfl, hdecodes⟩ := exists_decodes (start layout : δ) actions
  refine ⟨history, rfl, fun other last' hother h => (hdecodes.eq_of_map_fst h hother).1, ?_⟩
  exact (faithful_after raise layout world hdecodes).delivers_of

/-- Control and C, on a keyboard that is decoded by tables, with a hook that counts its calls. -/
theorem delivers_interrupt :
    (after (modify (· + 1)) .us 0 [.scan 0x1D, .scan 0x2E] :
        Watched ScancodeDecoder ℕ).keyboard.queue.events
      = [⟨'\x03', ⟨false, true, false, false⟩, true⟩]
    ∧ (after (modify (· + 1)) .us 0 [.scan 0x1D, .scan 0x2E] :
        Watched ScancodeDecoder ℕ).world = 1 := by
  obtain ⟨history, -, hunique, h⟩ :=
    delivers (δ := ScancodeDecoder) (modify (· + 1)) .us 0 [.scan 0x1D, .scan 0x2E]
  obtain rfl := hunique [(.scan 0x1D, none),
    (.scan 0x2E, some ⟨'\x03', ⟨false, true, false, false⟩, true⟩)] _ rfl
    (.cons (advances_iff.mpr rfl) (.cons (advances_iff.mpr rfl) .nil))
  exact ⟨h.events_eq, h.called⟩

end PocketKernel.Keyboard
