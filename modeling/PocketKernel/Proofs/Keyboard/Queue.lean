import Mathlib.Data.Nat.Notation
import PocketKernel.Keyboard.Event

/-!
# The ring of events is a queue

Seen through `EventQueue.events`, the ring is a list with a bounded length: an event is entered at
the end and taken out at the start, and in a full ring the first one is given up. Where the ring
wraps around makes no difference.

## Main results

* `EventQueue.events_push`, `EventQueue.pop?_of_cons`: entering and taking out.
-/

namespace PocketKernel.EventQueue

variable {queue : EventQueue} {event : KeyEvent} {later : List KeyEvent}

@[simp] theorem length_events (queue : EventQueue) : queue.events.length = queue.size := by
  rw [events, List.length_map, List.length_range]

/-! ### Around the ring -/

@[simp] theorem slotAt_zero (queue : EventQueue) : queue.slotAt 0 = queue.head :=
  Fin.ext (Nat.mod_eq_of_lt queue.head.isLt)

/-- Going around the ring from the second event. -/
theorem slotAt_dropOldest (queue : EventQueue) (steps : ℕ) :
    queue.dropOldest.slotAt steps = queue.slotAt (steps + 1) := by
  apply Fin.ext
  show ((queue.head.val + 1) % capacity + steps) % capacity
    = (queue.head.val + (steps + 1)) % capacity
  rw [Nat.mod_add_mod, Nat.add_assoc, Nat.add_comm 1 steps]

/-- Different numbers of steps, less than once around, lead to different slots. -/
theorem slotAt_ne {steps steps' : ℕ} (h : steps < steps') (hlt : steps' < capacity) :
    (queue.slotAt steps).val ≠ (queue.slotAt steps').val := by
  have hhead : queue.head.val < 64 := queue.head.isLt
  show (queue.head.val + steps) % 64 ≠ (queue.head.val + steps') % 64
  rw [capacity] at hlt
  omega

/-! ### The first event -/

theorem events_of_pos (h : 0 < queue.size) :
    queue.events = queue.slots.get queue.head :: queue.dropOldest.events := by
  obtain ⟨size, hsize⟩ : ∃ size, queue.size = size + 1 := ⟨queue.size - 1, by omega⟩
  have hdrop : queue.dropOldest.size = size := by
    show queue.size - 1 = size
    rw [hsize, Nat.add_sub_cancel]
  rw [events, events, hsize, hdrop, List.range_succ_eq_map, List.map_cons, slotAt_zero,
    List.map_map]
  congr 1
  refine List.map_congr_left fun steps _ => ?_
  show queue.slots.get (queue.slotAt (steps + 1)) = _
  rw [← slotAt_dropOldest]
  rfl

theorem events_of_size (h : queue.size = 0) : queue.events = [] := by
  rw [← List.length_eq_zero_iff, length_events, h]

theorem events_dropOldest (queue : EventQueue) : queue.dropOldest.events = queue.events.tail := by
  rcases Nat.eq_zero_or_pos queue.size with hnil | hpos
  · have hdrop : queue.dropOldest.size = 0 := by
      show queue.size - 1 = 0
      rw [hnil]
    rw [events_of_size hnil, events_of_size hdrop, List.tail_nil]
  · rw [events_of_pos hpos, List.tail_cons]

theorem pop?_of_nil (h : queue.events = []) : queue.pop? = none := by
  have hsize : queue.size = 0 := by
    rw [← length_events, h, List.length_nil]
  rw [pop?, if_pos hsize]

/-- **The oldest event is taken out.** -/
theorem pop?_of_cons (h : queue.events = event :: later) :
    ∃ left, queue.pop? = some (event, left) ∧ left.events = later := by
  have hsize : 0 < queue.size := by
    rw [← length_events, h]
    exact Nat.succ_pos _
  rw [events_of_pos hsize, List.cons.injEq] at h
  refine ⟨queue.dropOldest, ?_, h.2⟩
  rw [pop?, if_neg (Nat.ne_of_gt hsize), h.1]

/-! ### The last event -/

theorem events_makeRoom (queue : EventQueue) :
    queue.makeRoom.events = if queue.size = capacity then queue.events.tail else queue.events := by
  rw [makeRoom]
  split
  next => exact queue.events_dropOldest
  next => rfl

theorem events_append (hroom : queue.size < capacity) :
    (queue.append hroom event).events = queue.events ++ [event] := by
  rw [events, append, List.range_succ, List.map_append, List.map_singleton]
  congr 1
  · refine List.map_congr_left fun steps hsteps => ?_
    have hne : (queue.slotAt steps).val ≠ (queue.slotAt queue.size).val :=
      slotAt_ne (List.mem_range.mp hsteps) hroom
    exact Vector.getElem_set_ne (Fin.isLt _) (Fin.isLt _) hne.symm
  · exact congrArg (fun e => [e]) (Vector.getElem_set_self (Fin.isLt _))

/-- **An event is entered behind all that wait.** In a full ring the oldest one is given up. -/
theorem events_push (queue : EventQueue) (event : KeyEvent) :
    (queue.push event).events
      = (if queue.size = capacity then queue.events.tail else queue.events) ++ [event] := by
  rw [push, events_append, events_makeRoom]

end PocketKernel.EventQueue
