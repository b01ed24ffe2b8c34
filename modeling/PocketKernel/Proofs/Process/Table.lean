import PocketKernel.Process.Scheduler

/-!
# The slots of the process table

How the table reads after it was changed, and what a search finds. Everything that is proved about
the scheduler speaks of the process in a slot, and gets there through these lemmas.

## Main definitions

* `Scheduler.changeCurrent`: change the process that has the processor.

## Main results

* `ProcessTable.process_put`, `ProcessTable.process_map`: reading after writing.
* `ProcessTable.test_of_findSlot?`, `ProcessTable.findSlot?_eq_some`: what a search finds.
* `Scheduler.process_update`, `Scheduler.process_changeCurrent`: reading after one process was
  changed.
-/

namespace PocketKernel

namespace ProcessTable

variable {table : ProcessTable} {slot other : Slot}

theorem process_put (table : ProcessTable) (slot other : Slot) (process : Process) :
    (table.put slot process).process other
      = if other = slot then process else table.process other := by
  show (table.set slot process)[(other : Nat)]
    = if other = slot then process else table[(other : Nat)]
  rw [Vector.getElem_set]
  simp only [Fin.ext_iff, eq_comm]

@[simp] theorem process_map (table : ProcessTable) (change : Process → Process) (slot : Slot) :
    ProcessTable.process (table.map change) slot = change (table.process slot) := by
  show (table.map change)[(slot : Nat)] = change table[(slot : Nat)]
  rw [Vector.getElem_map]

@[simp] theorem process_replicate (process : Process) (slot : Slot) :
    ProcessTable.process (Vector.replicate 16 process) slot = process := by
  show (Vector.replicate 16 process)[(slot : Nat)] = process
  rw [Vector.getElem_replicate]

/-- Tables with the same processes are the same. -/
theorem ext_process {table table' : ProcessTable}
    (h : ∀ slot, table.process slot = table'.process slot) : table = table' :=
  Vector.ext fun k hk => h ⟨k, hk⟩

/-! ### Searching -/

theorem test_of_findSlot? {test : Process → Bool} (h : table.findSlot? test = some slot) :
    test (table.process slot) = true := by
  rw [findSlot?] at h
  exact List.find?_some (p := fun slot => test (table.process slot)) h

theorem test_of_findSlot?_eq_none {test : Process → Bool} (h : table.findSlot? test = none)
    (slot : Slot) : test (table.process slot) = false := by
  rw [findSlot?, List.find?_eq_none] at h
  exact Bool.eq_false_iff.mpr (h slot (List.mem_finRange slot))

/-- A process that passes a test is found, if no other one passes it. -/
theorem findSlot?_eq_some {test : Process → Bool} (hslot : test (table.process slot) = true)
    (honly : ∀ other, test (table.process other) = true → other = slot) :
    table.findSlot? test = some slot := by
  cases hfound : table.findSlot? test with
  | none =>
    rw [test_of_findSlot?_eq_none hfound slot] at hslot
    cases hslot
  | some found => rw [honly found (test_of_findSlot? hfound)]

theorem isFree_of_freeSlot? (h : table.freeSlot? = some slot) :
    (table.process slot).isFree = true :=
  test_of_findSlot? h

end ProcessTable

namespace Scheduler

variable {s : Scheduler}

theorem process_update (s : Scheduler) (slot other : Slot) (change : Process → Process) :
    (s.update slot change).table.process other
      = if other = slot then change (s.table.process slot) else s.table.process other :=
  ProcessTable.process_put ..

theorem process_update_of_ne {slot other : Slot} (h : other ≠ slot) (change : Process → Process) :
    (s.update slot change).table.process other = s.table.process other := by
  rw [process_update, if_neg h]

/-- Change the process that has the processor, if one has it. -/
def changeCurrent (s : Scheduler) (change : Process → Process) : Scheduler :=
  match s.current with
  | some slot => s.update slot change
  | none => s

theorem changeCurrent_of_some {slot : Slot} (h : s.current = some slot)
    (change : Process → Process) : s.changeCurrent change = s.update slot change := by
  rw [changeCurrent, h]

theorem changeCurrent_of_none (h : s.current = none) (change : Process → Process) :
    s.changeCurrent change = s := by
  rw [changeCurrent, h]

theorem process_changeCurrent (s : Scheduler) (slot : Slot) (change : Process → Process) :
    (s.changeCurrent change).table.process slot
      = if s.current = some slot then change (s.table.process slot)
        else s.table.process slot := by
  cases hcurrent : s.current with
  | none =>
    rw [changeCurrent_of_none hcurrent, if_neg (fun h => by cases h)]
  | some before =>
    rw [changeCurrent_of_some hcurrent, process_update]
    by_cases hslot : slot = before
    · rw [if_pos hslot, if_pos (congrArg some hslot.symm), hslot]
    · rw [if_neg hslot, if_neg fun h => hslot (Option.some.inj h).symm]

@[simp] theorem current_changeCurrent (s : Scheduler) (change : Process → Process) :
    (s.changeCurrent change).current = s.current := by
  rw [changeCurrent]
  split <;> rfl

@[simp] theorem last_changeCurrent (s : Scheduler) (change : Process → Process) :
    (s.changeCurrent change).last = s.last := by
  rw [changeCurrent]
  split <;> rfl

@[simp] theorem nextPid_changeCurrent (s : Scheduler) (change : Process → Process) :
    (s.changeCurrent change).nextPid = s.nextPid := by
  rw [changeCurrent]
  split <;> rfl

@[simp] theorem nextStack_changeCurrent (s : Scheduler) (change : Process → Process) :
    (s.changeCurrent change).nextStack = s.nextStack := by
  rw [changeCurrent]
  split <;> rfl

@[simp] theorem parked_changeCurrent (s : Scheduler) (change : Process → Process) :
    (s.changeCurrent change).parked = s.parked := by
  rw [changeCurrent]
  split <;> rfl

@[simp] theorem process_advanceSleep (s : Scheduler) (ticks : Nat) (slot : Slot) :
    (s.advanceSleep ticks).table.process slot = advance ticks (s.table.process slot) :=
  ProcessTable.process_map ..

end Scheduler

end PocketKernel
