import Mathlib.Data.Nat.Notation
import PocketKernel.Keyboard.Event

/-!
# A ledger of events

The events that a keyboard made are numbered, and the ledger says which numbers wait and which were
polled. What is neither is lost. It is kept by the rules of a plain queue with room for 64: an event
that is made waits behind all others, the oldest one is polled, and when 64 wait and another one is
made, the oldest one gives way.

## Main definitions

* `Ledger`, `Ledger.enter`, `Ledger.take`: the ledger, and how it is kept.
* `Ledger.pending`, `Ledger.oldest?`: the events that wait.
* `Ledger.Lost`, `Ledger.Orderly`: what was lost, and the order of the numbers.

## Main results

* `Ledger.Orderly.enter`, `Ledger.Orderly.take`: the numbers stay in order.
* `Ledger.Orderly.lost_enter`, `Ledger.Orderly.lost_take`: when an event is lost.
-/

namespace PocketKernel

/-- What became of the events that a keyboard made. An event is known by its number, counted from
the first one that was made. -/
structure Ledger where
  made : List KeyEvent
  /-- The numbers of the events that wait, oldest first. -/
  waiting : List ℕ
  /-- The numbers of the events that were polled, in the order of the polls. -/
  polled : List ℕ

namespace Ledger

variable {ledger : Ledger} {event : KeyEvent} {number : ℕ}

/-- No event was made. -/
def start : Ledger := ⟨[], [], []⟩

/-- As many events wait as can. -/
def Full (ledger : Ledger) : Prop := ledger.waiting.length = 64

instance : Decidable ledger.Full := inferInstanceAs (Decidable (_ = _))

/-- An event is made. If as many wait as can, the oldest one does not wait any more. -/
def enter (ledger : Ledger) (event : KeyEvent) : Ledger :=
  { ledger with
    made := ledger.made ++ [event]
    waiting := (if ledger.Full then ledger.waiting.tail else ledger.waiting)
      ++ [ledger.made.length] }

/-- The oldest event that waits is polled, if there is one. -/
def take (ledger : Ledger) : Ledger :=
  { ledger with
    waiting := ledger.waiting.tail
    polled := ledger.polled ++ ledger.waiting.head?.toList }

/-- The events that wait, oldest first. -/
def pending (ledger : Ledger) : List KeyEvent := ledger.waiting.filterMap (ledger.made[·]?)

/-- The oldest event that waits. -/
def oldest? (ledger : Ledger) : Option KeyEvent := ledger.waiting.head?.bind (ledger.made[·]?)

/-- The event was made, and neither waits nor was polled. -/
def Lost (ledger : Ledger) (number : ℕ) : Prop :=
  number < ledger.made.length ∧ number ∉ ledger.waiting ∧ number ∉ ledger.polled

/-- The events that wait are the last ones from a number on, and those that were polled came before
them, one after the other. -/
structure Orderly (ledger : Ledger) (first : ℕ) : Prop where
  first_le : first ≤ ledger.made.length
  waiting_eq : ledger.waiting = List.range' first (ledger.made.length - first)
  bounded : ledger.made.length - first ≤ 64
  polled_sorted : ledger.polled.Pairwise (· < ·)
  polled_lt : ∀ number ∈ ledger.polled, number < first

variable {first : ℕ}

theorem orderly_start : start.Orderly 0 :=
  ⟨Nat.le_refl _, rfl, Nat.zero_le _, .nil, nofun⟩

theorem Orderly.length_waiting (h : ledger.Orderly first) :
    ledger.waiting.length = ledger.made.length - first := by
  rw [h.waiting_eq, List.length_range']

theorem Orderly.mem_waiting (h : ledger.Orderly first) :
    number ∈ ledger.waiting ↔ first ≤ number ∧ number < ledger.made.length := by
  have hfirst := h.first_le
  rw [h.waiting_eq, List.mem_range'_1]
  omega

theorem filterMap_range' {made : List KeyEvent} {count : ℕ} (h : first + count = made.length) :
    (List.range' first count).filterMap (made[·]?) = made.drop first := by
  induction count generalizing first with
  | zero => rw [List.range'_zero, List.filterMap_nil, List.drop_of_length_le (by omega)]
  | succ count ih =>
    have hlt : first < made.length := by omega
    rw [List.range'_succ, List.filterMap_cons, List.getElem?_eq_getElem hlt, ih (by omega),
      List.drop_eq_getElem_cons hlt]

/-- What waits is the end of the row of all events. -/
theorem Orderly.pending_eq (h : ledger.Orderly first) :
    ledger.pending = ledger.made.drop first := by
  have hfirst := h.first_le
  rw [pending, h.waiting_eq, filterMap_range' (by omega)]

theorem Orderly.length_pending (h : ledger.Orderly first) :
    ledger.pending.length = ledger.waiting.length := by
  rw [h.pending_eq, h.length_waiting, List.length_drop]

/-- The first of several events that wait. -/
theorem Orderly.waiting_cons (h : ledger.Orderly first) (hlt : first < ledger.made.length) :
    ledger.waiting = first :: List.range' (first + 1) (ledger.made.length - (first + 1)) := by
  rw [h.waiting_eq, show ledger.made.length - first = ledger.made.length - (first + 1) + 1 by omega,
    List.range'_succ]

theorem Orderly.waiting_nil (h : ledger.Orderly first) (hle : ledger.made.length ≤ first) :
    ledger.waiting = [] := by
  rw [h.waiting_eq, Nat.sub_eq_zero_of_le hle, List.range'_zero]

theorem Orderly.lost_iff (h : ledger.Orderly first) :
    ledger.Lost number ↔ number < first ∧ number ∉ ledger.polled := by
  have hfirst := h.first_le
  rw [Lost, h.mem_waiting]
  constructor
  · rintro ⟨hlt, hwaiting, hpolled⟩
    exact ⟨by omega, hpolled⟩
  · rintro ⟨hlt, hpolled⟩
    exact ⟨by omega, by omega, hpolled⟩

/-! ### An event is made -/

theorem Orderly.enter_of_full (h : ledger.Orderly first) (hfull : ledger.Full) (event : KeyEvent) :
    (ledger.enter event).Orderly (first + 1) := by
  have hcount : ledger.made.length - first = 64 := h.length_waiting ▸ hfull
  have hmade : (ledger.enter event).made.length = ledger.made.length + 1 := List.length_append
  refine ⟨by omega, ?_, by omega, h.polled_sorted, fun n hn => Nat.lt_succ_of_lt (h.polled_lt n hn)⟩
  have htail : ledger.waiting.tail
      = List.range' (first + 1) (ledger.made.length - (first + 1)) := by
    rw [h.waiting_cons (by omega), List.tail_cons]
  have hlast : first + 1 + (ledger.made.length - (first + 1)) = ledger.made.length := by omega
  rw [hmade, show ledger.made.length + 1 - (first + 1) = ledger.made.length - (first + 1) + 1 by
    omega, List.range'_1_concat, hlast, ← htail, enter, if_pos hfull]

theorem Orderly.enter_of_not_full (h : ledger.Orderly first) (hroom : ¬ ledger.Full)
    (event : KeyEvent) : (ledger.enter event).Orderly first := by
  have hcount : ledger.made.length - first ≠ 64 := h.length_waiting ▸ hroom
  have hbounded := h.bounded
  have hfirst := h.first_le
  have hmade : (ledger.enter event).made.length = ledger.made.length + 1 := List.length_append
  refine ⟨by omega, ?_, by omega, h.polled_sorted, h.polled_lt⟩
  have hlast : first + (ledger.made.length - first) = ledger.made.length := by omega
  rw [hmade, Nat.succ_sub hfirst, List.range'_1_concat, hlast, ← h.waiting_eq, enter,
    if_neg hroom]

/-- **An event is made.** The numbers stay in order. -/
theorem Orderly.enter (h : ledger.Orderly first) (event : KeyEvent) :
    ∃ next, (ledger.enter event).Orderly next := by
  by_cases hfull : ledger.Full
  · exact ⟨_, h.enter_of_full hfull event⟩
  · exact ⟨_, h.enter_of_not_full hfull event⟩

theorem Orderly.pending_enter (h : ledger.Orderly first) (event : KeyEvent) :
    (ledger.enter event).pending
      = (if ledger.Full then ledger.pending.tail else ledger.pending) ++ [event] := by
  split
  next hfull =>
    have hlt : first + 1 ≤ ledger.made.length := by
      have hcount : ledger.made.length - first = 64 := h.length_waiting ▸ hfull
      omega
    rw [(h.enter_of_full hfull event).pending_eq, h.pending_eq, List.tail_drop,
      ← List.drop_append_of_le_length hlt]
    rfl
  next hroom =>
    rw [(h.enter_of_not_full hroom event).pending_eq, h.pending_eq,
      ← List.drop_append_of_le_length h.first_le]
    rfl

/-- **What is lost by an event that is made** is the oldest of those that wait, when they are as
many as can wait. -/
theorem Orderly.lost_enter (h : ledger.Orderly first) (event : KeyEvent) :
    (ledger.enter event).Lost number
      ↔ ledger.Lost number ∨ (ledger.Full ∧ ledger.waiting.head? = some number) := by
  by_cases hfull : ledger.Full
  · have hlt : first < ledger.made.length := by
      have hcount : ledger.made.length - first = 64 := h.length_waiting ▸ hfull
      omega
    have hfirst : first ∉ ledger.polled := fun hmem => Nat.lt_irrefl _ (h.polled_lt _ hmem)
    rw [(h.enter_of_full hfull event).lost_iff, h.lost_iff, h.waiting_cons hlt, List.head?_cons,
      Option.some_inj, show (ledger.enter event).polled = ledger.polled from rfl]
    constructor
    · rintro ⟨hle, hpolled⟩
      rcases Nat.lt_succ_iff_lt_or_eq.mp hle with hlt | rfl
      · exact .inl ⟨hlt, hpolled⟩
      · exact .inr ⟨hfull, rfl⟩
    · rintro (⟨hlt, hpolled⟩ | ⟨-, rfl⟩)
      · exact ⟨Nat.lt_succ_of_lt hlt, hpolled⟩
      · exact ⟨Nat.lt_succ_self _, hfirst⟩
  · rw [(h.enter_of_not_full hfull event).lost_iff, h.lost_iff, or_iff_left fun h => hfull h.1]
    rfl

/-! ### An event is polled -/

theorem take_of_nil (h : ledger.waiting = []) : ledger.take = ledger := by
  cases ledger
  simp_all [take]

theorem Orderly.take_of_lt (h : ledger.Orderly first) (hlt : first < ledger.made.length) :
    ledger.take.Orderly (first + 1) := by
  have hcons := h.waiting_cons hlt
  have hpolled : ledger.take.polled = ledger.polled ++ [first] := by
    rw [take, hcons]
    rfl
  have hbounded : ledger.made.length - (first + 1) ≤ 64 :=
    Nat.le_trans (Nat.sub_le_sub_left (Nat.le_succ _) _) h.bounded
  refine ⟨hlt, ?_, hbounded, ?_, ?_⟩
  · rw [take, hcons]
    rfl
  · rw [hpolled, List.pairwise_append]
    refine ⟨h.polled_sorted, List.pairwise_singleton .., fun n hn m hm => ?_⟩
    rw [List.mem_singleton.mp hm]
    exact h.polled_lt n hn
  · intro n hn
    rw [hpolled, List.mem_append, List.mem_singleton] at hn
    rcases hn with hn | rfl
    · exact Nat.lt_succ_of_lt (h.polled_lt n hn)
    · exact Nat.lt_succ_self _

/-- **An event is polled.** The numbers stay in order. -/
theorem Orderly.take (h : ledger.Orderly first) : ∃ next, ledger.take.Orderly next := by
  rcases Nat.lt_or_ge first ledger.made.length with hlt | hle
  · exact ⟨_, h.take_of_lt hlt⟩
  · exact ⟨first, by rwa [take_of_nil (h.waiting_nil hle)]⟩

theorem Orderly.pending_take (h : ledger.Orderly first) :
    ledger.take.pending = ledger.pending.tail := by
  rcases Nat.lt_or_ge first ledger.made.length with hlt | hle
  · rw [(h.take_of_lt hlt).pending_eq, h.pending_eq, List.tail_drop]
    rfl
  · have hnil := h.waiting_nil hle
    rw [take_of_nil hnil, pending, hnil, List.filterMap_nil, List.tail_nil]

/-- Nothing is lost by a poll. -/
theorem Orderly.lost_take (h : ledger.Orderly first) :
    ledger.take.Lost number ↔ ledger.Lost number := by
  rcases Nat.lt_or_ge first ledger.made.length with hlt | hle
  · have hpolled : ledger.take.polled = ledger.polled ++ [first] := by
      rw [Ledger.take, h.waiting_cons hlt]
      rfl
    rw [(h.take_of_lt hlt).lost_iff, h.lost_iff, hpolled, List.mem_append, List.mem_singleton]
    constructor
    · rintro ⟨hle, hnot⟩
      exact ⟨by omega, fun hmem => hnot (.inl hmem)⟩
    · rintro ⟨hlt, hnot⟩
      exact ⟨by omega, fun hmem => hmem.elim hnot (Nat.ne_of_lt hlt)⟩
  · rw [take_of_nil (h.waiting_nil hle)]

/-- The event that is polled next is the oldest one that waits. -/
theorem Orderly.head?_pending (h : ledger.Orderly first) :
    ledger.pending.head? = ledger.oldest? := by
  rcases Nat.lt_or_ge first ledger.made.length with hlt | hle
  · rw [h.pending_eq, oldest?, h.waiting_cons hlt, List.head?_drop]
    rfl
  · have hnil := h.waiting_nil hle
    rw [pending, oldest?, hnil]
    rfl

end Ledger

end PocketKernel
