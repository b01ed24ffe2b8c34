import Mathlib.Data.List.Nodup
import Mathlib.Data.List.Perm.Subperm
import PocketKernel.Signal.Table

/-!
# The subscriptions of a table, by number

Who is subscribed is a list of pairs, the number of a slot and what was subscribed there. A table
agrees with such a list when just the pairs of the list stand in its slots and no number is in the
list twice. Subscribing adds a pair with the first free number, and unsubscribing takes out the pair
with a number; subscribing fails just when all sixteen numbers are in use.

## Main definitions

* `SignalTable.numbered`: the subscriptions with the numbers of their slots.
* `SignalTable.Agrees`: a table and a list of pairs say the same.

## Main results

* `SignalTable.Agrees.perm_numbered`: the list is the table, in some order.
* `SignalTable.Agrees.subscribe`, `SignalTable.Agrees.unsubscribe`: what is added and taken out.
-/

namespace PocketKernel.SignalTable

variable {η : Type} {table : SignalTable η} {live : List (ℕ × Subscription η)} {id : ℕ}
  {subscription : Subscription η}

/-- The subscriptions with the numbers of their slots, in the order of the slots. -/
def numbered (table : SignalTable η) : List (ℕ × Subscription η) :=
  (List.finRange 16).filterMap fun id => (table.slots.get id).map (id.val, ·)

theorem mem_numbered :
    (id, subscription) ∈ table.numbered ↔ table.slots[id]? = some (some subscription) := by
  simp only [numbered, List.mem_filterMap, List.mem_finRange, true_and, Option.map_eq_some_iff,
    Prod.mk.injEq, Vector.getElem?_eq_some_iff]
  constructor
  · rintro ⟨slot, _, hslot, rfl, rfl⟩
    exact ⟨slot.isLt, hslot⟩
  · rintro ⟨hlt, hslot⟩
    exact ⟨⟨id, hlt⟩, subscription, hslot, rfl, rfl⟩

/-- What runs when the signal is raised. -/
theorem map_snd_numbered (table : SignalTable η) :
    table.numbered.map Prod.snd = table.subscriptions := by
  have hslots : table.slots.toList = (List.finRange 16).map table.slots.get := by
    apply List.ext_getElem
    · simp
    · simp [Vector.get]
  rw [subscriptions, hslots, List.filterMap_map, numbered, List.map_filterMap]
  congr 1
  funext slot
  show ((table.slots.get slot).map _).map Prod.snd = table.slots.get slot
  rw [Option.map_map]
  exact Option.map_id'

theorem pairwise_numbered (table : SignalTable η) :
    table.numbered.Pairwise fun earlier later => earlier.1 < later.1 := by
  rw [numbered, List.pairwise_filterMap]
  refine (List.pairwise_lt_finRange 16).imp fun hlt earlier hearlier later hlater => ?_
  obtain ⟨_, -, rfl⟩ := Option.map_eq_some_iff.mp hearlier
  obtain ⟨_, -, rfl⟩ := Option.map_eq_some_iff.mp hlater
  exact hlt

/-- The pairs of the list are what stands in the slots. -/
structure Agrees (live : List (ℕ × Subscription η)) (table : SignalTable η) : Prop where
  nodup : (live.map Prod.fst).Nodup
  mem_iff : ∀ id subscription,
    (id, subscription) ∈ live ↔ table.slots[id]? = some (some subscription)

theorem agrees_empty : Agrees [] (empty : SignalTable η) := by
  refine ⟨.nil, fun id subscription => ?_⟩
  simp [empty, Vector.getElem?_eq_some_iff]

theorem Agrees.mem_numbers (h : Agrees live table) :
    id ∈ live.map Prod.fst ↔ ∃ subscription, table.slots[id]? = some (some subscription) := by
  simp only [List.mem_map, Prod.exists, exists_and_right, exists_eq_right, h.mem_iff]

theorem Agrees.number_lt (h : Agrees live table) (hmem : id ∈ live.map Prod.fst) : id < 16 := by
  obtain ⟨subscription, hslot⟩ := h.mem_numbers.mp hmem
  exact (Vector.getElem?_eq_some_iff.mp hslot).1

/-- The list is what the table holds, in some order. -/
theorem Agrees.perm_numbered (h : Agrees live table) : table.numbered.Perm live := by
  have hnumbered : table.numbered.Nodup :=
    table.pairwise_numbered.imp fun hlt heq => Nat.ne_of_lt hlt (congrArg Prod.fst heq)
  refine (List.perm_ext_iff_of_nodup hnumbered (h.nodup.of_map _)).mpr fun ⟨id, subscription⟩ => ?_
  rw [mem_numbered, h.mem_iff]

theorem Agrees.subperm_range (h : Agrees live table) :
    (live.map Prod.fst).Subperm (List.range 16) :=
  h.nodup.subperm fun _ hid => List.mem_range.mpr (h.number_lt hid)

theorem Agrees.length_le (h : Agrees live table) : live.length ≤ 16 := by
  simpa using h.subperm_range.length_le

/-- Sixteen are subscribed just when all numbers are in use. -/
theorem Agrees.length_eq_iff (h : Agrees live table) :
    live.length = 16 ↔ ∀ id < 16, id ∈ live.map Prod.fst := by
  constructor
  · intro hlength id hid
    have hperm := h.subperm_range.perm_of_length_le (by simp [hlength])
    exact hperm.mem_iff.mpr (List.mem_range.mpr hid)
  · intro hall
    have hsup : (List.range 16).Subperm (live.map Prod.fst) :=
      List.nodup_range.subperm fun id hid => hall id (List.mem_range.mp hid)
    exact Nat.le_antisymm h.length_le (by simpa using hsup.length_le)

/-! ### A slot is filled and cleared -/

theorem Agrees.add (h : Agrees live table) (hlt : id < 16) (hnew : id ∉ live.map Prod.fst)
    (subscription : Subscription η) :
    Agrees (live ++ [(id, subscription)]) ⟨table.slots.set id (some subscription)⟩ := by
  constructor
  · rw [List.map_append, List.map_singleton, List.nodup_append_comm]
    exact List.nodup_cons.mpr ⟨hnew, h.nodup⟩
  · intro other subscription'
    rw [List.mem_append, List.mem_singleton, Prod.mk.injEq, h.mem_iff, Vector.getElem?_set]
    split
    next heq =>
      subst heq
      have hnone : table.slots[id]? ≠ some (some subscription') :=
        fun hslot => hnew (h.mem_numbers.mpr ⟨_, hslot⟩)
      simp [hnone, eq_comm]
    next hne => exact or_iff_left fun heq => hne heq.1.symm

theorem Agrees.remove (h : Agrees live table) (hlt : id < 16) :
    Agrees (live.filter (·.1 ≠ id)) ⟨table.slots.set id none⟩ := by
  constructor
  · exact h.nodup.sublist (List.filter_sublist.map _)
  · intro other subscription
    rw [List.mem_filter, h.mem_iff, Vector.getElem?_set]
    split
    next heq => simp [heq]
    next hne => simp [Ne.symm hne]

/-- A slot is changed, and no other one. -/
def ChangesOnly (id : ℕ) (before after : SignalTable η) : Prop :=
  ∀ other, other ≠ id → after.slots[other]? = before.slots[other]?

theorem changesOnly_set (hlt : id < 16) (slot : Option (Subscription η)) :
    ChangesOnly id table ⟨table.slots.set id slot⟩ :=
  fun _ hne => Vector.getElem?_set_ne hlt (Ne.symm hne)

/-! ### Subscribing and unsubscribing -/

theorem freeSlot?_eq_some {slot : Fin 16} (h : table.freeSlot? = some slot) :
    table.slots[slot.val]? = some none
      ∧ ∀ before < slot, table.slots[before.val]? ≠ some none := by
  obtain ⟨hfree, earlier, later, hall, hearlier⟩ := List.find?_eq_some_iff_append.mp h
  refine ⟨by simpa using hfree, fun before hbefore hnone => ?_⟩
  have hsorted : (earlier ++ slot :: later).Pairwise (· < ·) := hall ▸ List.pairwise_lt_finRange 16
  have hmem : before ∈ earlier ++ slot :: later := hall ▸ List.mem_finRange before
  rcases List.mem_append.mp hmem with hmem | hmem
  · exact absurd (hearlier before hmem) (by simpa using hnone)
  · rcases List.mem_cons.mp hmem with rfl | hmem
    · exact Nat.lt_irrefl _ hbefore
    · have hlater := (List.pairwise_cons.mp (List.pairwise_append.mp hsorted).2.1).1
      exact Nat.lt_asymm hbefore (hlater before hmem)

theorem freeSlot?_eq_none (h : table.freeSlot? = none) (slot : Fin 16) :
    table.slots[slot.val]? ≠ some none := by
  intro hnone
  have hused := List.find?_eq_none.mp h slot (List.mem_finRange slot)
  exact hused (by simpa using hnone)

theorem Agrees.mem_numbers_iff_ne_none (h : Agrees live table) (slot : Fin 16) :
    slot.val ∈ live.map Prod.fst ↔ table.slots[slot.val]? ≠ some none := by
  simp [h.mem_numbers, Option.ne_none_iff_exists']

/-- **Subscribing.** The first number that is not in use is given out, and it fails just when all
are in use. -/
theorem Agrees.subscribe (h : Agrees live table) (handler : η) (context : ℕ) :
    (∃ id next, table.subscribe handler context = .ok (id, next)
        ∧ id < 16 ∧ id ∉ live.map Prod.fst ∧ (∀ before < id, before ∈ live.map Prod.fst)
        ∧ ChangesOnly id table next ∧ Agrees (live ++ [(id, ⟨handler, context⟩)]) next)
      ∨ table.subscribe handler context = .error .tableFull
        ∧ ∀ id < 16, id ∈ live.map Prod.fst := by
  rw [SignalTable.subscribe]
  rcases hfree : table.freeSlot? with - | slot
  · refine .inr ⟨rfl, fun id hid => ?_⟩
    exact (h.mem_numbers_iff_ne_none ⟨id, hid⟩).mpr (freeSlot?_eq_none hfree _)
  · obtain ⟨hnone, hbefore⟩ := freeSlot?_eq_some hfree
    have hnew : slot.val ∉ live.map Prod.fst :=
      fun hmem => (h.mem_numbers_iff_ne_none slot).mp hmem hnone
    refine .inl ⟨slot, _, rfl, slot.isLt, hnew, fun before hlt => ?_,
      changesOnly_set slot.isLt _, h.add slot.isLt hnew _⟩
    have hslot : before < 16 := Nat.lt_trans hlt slot.isLt
    exact (h.mem_numbers_iff_ne_none ⟨before, hslot⟩).mpr (hbefore _ hlt)

/-- **Unsubscribing.** It works just for the numbers that are in use. -/
theorem Agrees.unsubscribe? (h : Agrees live table) (id : ℕ) :
    (∃ next, table.unsubscribe? id = some next ∧ id ∈ live.map Prod.fst
        ∧ ChangesOnly id table next ∧ Agrees (live.filter (·.1 ≠ id)) next)
      ∨ table.unsubscribe? id = none ∧ id ∉ live.map Prod.fst := by
  rw [SignalTable.unsubscribe?]
  split
  next hlt =>
    have hslot : table.slots[id]? ≠ some none ↔ table.slots[id].isSome := by
      simp [hlt, Option.isSome_iff_ne_none]
    split
    next hused =>
      refine .inl ⟨_, rfl, ?_, changesOnly_set hlt _, h.remove hlt⟩
      exact (h.mem_numbers_iff_ne_none ⟨id, hlt⟩).mpr (hslot.mpr hused)
    next hfree =>
      refine .inr ⟨rfl, fun hmem => hfree ?_⟩
      exact hslot.mp ((h.mem_numbers_iff_ne_none ⟨id, hlt⟩).mp hmem)
  next hge => exact .inr ⟨rfl, fun hmem => hge (h.number_lt hmem)⟩

end PocketKernel.SignalTable
