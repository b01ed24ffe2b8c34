import Mathlib.Data.Nat.ModEq
import PocketKernel.Proofs.Process.Coherent

/-!
# The numbers of processes

Processes are numbered as they come: 1, 2, 3 and so on up to the largest number of 32 bits, and then
from 1 again. Nobody asks whether a number is still in use. So a process is the only one with its
number as long as it does not live to see that many others come, and a process that does can meet a
newcomer with its own number.

To say so, a run is followed by a census, which counts the processes that came and remembers for each
slot how many had come before the process in it. The number of a process is a function of that rank,
and two processes never have the same rank.

## Main definitions

* `Scheduler.Action.Fills`: a call puts a process into a slot.
* `Scheduler.Census`, `Scheduler.census`: the count of the processes that came, along a run.
* `Scheduler.numberOf`: the number that goes with a rank.
* `Scheduler.DistinctPids`: no two processes have the same number.

## Main results

* `Scheduler.Census.Numbered.apply`: every call keeps the numbers in step with the census.
* `Scheduler.distinctPids_iff`: when all processes have numbers of their own.
* `Scheduler.Coherent.addressed`: then a number leads to its process.
* `Scheduler.number_reused`: a run after which two processes have the same number.
-/

namespace PocketKernel.Scheduler

variable {s t : Scheduler} {slot other : Slot} {action : Action}

/-- The number of the process in a slot. -/
def pid (s : Scheduler) (slot : Slot) : ℕ := (s.table.process slot).pid

/-- There is a process in a slot. -/
def Live (s : Scheduler) (slot : Slot) : Prop := (s.table.process slot).isFree = false

/-- No two processes have the same number. -/
def DistinctPids (s : Scheduler) : Prop :=
  ∀ slot other, s.Live slot → s.Live other → s.pid slot = s.pid other → slot = other

theorem Coherent.live_iff (hs : s.Coherent) : s.Live slot ↔ s.pid slot ≠ 0 := by
  rw [Live, Process.isFree, Bool.and_eq_false_iff, decide_eq_false_iff_not, decide_eq_false_iff_not,
    ← (hs.lawful slot).stopped_iff, or_self]
  rfl

theorem live_of_ne_stopped (h : (s.table.process slot).state ≠ .stopped) : s.Live slot := by
  rw [Live, Process.isFree, decide_eq_false h, Bool.and_false]

/-! ### What a call does to the numbers -/

/-- A call puts a process into a slot that was free. -/
def Action.Fills (s : Scheduler) (action : Action) (slot : Slot) : Prop :=
  s.pid slot = 0 ∧ (action.apply s).pid slot ≠ 0

instance (s : Scheduler) (action : Action) (slot : Slot) : Decidable (action.Fills s slot) :=
  inferInstanceAs (Decidable (_ ∧ _))

/-- What a call does to the numbers of the processes. -/
inductive Renumbers (s t : Scheduler) : Prop where
  /-- Nobody comes. -/
  | fewer (hnext : t.nextPid = s.nextPid) (hpid : ∀ slot, t.pid slot = s.pid slot ∨ t.pid slot = 0)
  /-- A process comes and gets the next number. -/
  | more {slot : Slot} (hfree : s.pid slot = 0) (hnext : t.nextPid = pidAfter s.nextPid)
      (hpid : ∀ other, t.pid other = if other = slot then s.nextPid else s.pid other)

theorem pid_start (process : Process) : (start process).pid = process.pid := by
  rw [start]
  split <;> rfl

theorem pid_preempt (process : Process) : (preempt process).pid = process.pid := by
  rw [preempt]
  split <;> rfl

theorem pid_advance (ticks : ℕ) (process : Process) :
    (advance ticks process).pid = process.pid := by
  rw [advance]
  split <;> rfl

theorem pid_advanceSleep (s : Scheduler) (ticks : ℕ) (slot : Slot) :
    (s.advanceSleep ticks).pid slot = s.pid slot := by
  rw [pid, process_advanceSleep, pid_advance, pid]

theorem pid_changeCurrent {change : Process → Process}
    (hchange : ∀ process, (change process).pid = process.pid) (s : Scheduler) (slot : Slot) :
    (s.changeCurrent change).pid slot = s.pid slot := by
  rw [pid, process_changeCurrent]
  split
  · exact hchange _
  · rfl

theorem pid_seat (s : Scheduler) (slot other : Slot) (process : Process) :
    (s.seat slot process).pid other = if other = slot then process.pid else s.pid other := by
  rw [pid, process_seat, apply_ite Process.pid]
  rfl

/-- Preparing a pass can only take a number away. -/
theorem Action.pid_prepared (s : Scheduler) (action : Action) (slot : Slot) :
    (action.prepared s).pid slot = s.pid slot ∨ (action.prepared s).pid slot = 0 := by
  cases action with
  | create | adoptCurrent | schedule | advanceSleep | takeParkedStack => exact .inl rfl
  | tick ticks => exact .inl (pid_advanceSleep s ticks slot)
  | yieldCurrent => exact .inl (pid_changeCurrent pid_preempt s slot)
  | sleepCurrent ticks =>
    refine .inl (pid_changeCurrent (fun process => ?_) s slot)
    split
    · exact pid_preempt process
    · rfl
  | exitCurrent | kill pid =>
    show s.ended.pid slot = s.pid slot ∨ s.ended.pid slot = 0
    rw [Scheduler.pid, process_ended]
    split
    · exact .inr rfl
    · exact .inl rfl

/-- Handing over the processor leaves the numbers as they are. -/
theorem Passes.pid {outcome : Option SwitchPlan × Scheduler} (h : s.Passes outcome) (slot : Slot) :
    outcome.2.pid slot = s.pid slot := by
  cases h with
  | idle hstopped => rfl
  | @picked next t hselects hhands =>
    show t.pid slot = s.pid slot
    rw [Scheduler.pid, hhands.process]
    split
    · exact pid_start _
    · split
      · exact pid_preempt _
      · rfl

theorem Passes.nextPid {outcome : Option SwitchPlan × Scheduler} (h : s.Passes outcome) :
    outcome.2.nextPid = s.nextPid := by
  cases h with
  | idle hstopped => rfl
  | picked hselects hhands => exact hhands.nextPid

theorem pid_of_freeSlot? (h : s.table.freeSlot? = some slot) : s.pid slot = 0 := by
  have hfree := ProcessTable.isFree_of_freeSlot? h
  rw [Process.isFree, Bool.and_eq_true] at hfree
  exact of_decide_eq_true hfree.1

theorem Action.Plain.renumbers (h : action.Plain s t) : s.Renumbers t := by
  cases h with
  | kept | taken => exact .fewer rfl fun _ => .inl rfl
  | advanced => exact .fewer rfl fun slot => .inl (pid_advanceSleep ..)
  | created hgrants hfree => exact .more (pid_of_freeSlot? hfree) rfl fun other => pid_seat ..
  | adopted hnone hfree => exact .more (pid_of_freeSlot? hfree) rfl fun other => pid_seat ..
  | killed hslot hcurrent =>
    refine .fewer rfl fun other => ?_
    rw [pid, process_update]
    split
    · exact .inr rfl
    · exact .inl rfl

/-- **Every call either lets nobody in, or gives the next number to one newcomer.** -/
theorem Coherent.renumbers (hs : s.Coherent) (action : Action) : s.Renumbers (action.apply s) := by
  cases hdispatches : action.dispatches s with
  | false => exact (Action.plain hdispatches).2.renumbers
  | true =>
    have hpass := Action.passes hdispatches hs.live
    refine .fewer (hpass.nextPid.trans (Action.nextPid_prepared s action)) fun slot => ?_
    rw [Action.apply, hpass.pid]
    exact action.pid_prepared s slot

/-! ### The census -/

/-- How many numbers there are. -/
def pidCount : ℕ := UInt32.size - 1

/-- The number of the process before which so many others came. -/
def numberOf (rank : ℕ) : ℕ := rank % pidCount + 1

theorem numberOf_zero : numberOf 0 = 1 := rfl

theorem numberOf_succ (rank : ℕ) : numberOf (rank + 1) = pidAfter (numberOf rank) := by
  have hlt : rank % pidCount < pidCount := Nat.mod_lt _ (by decide)
  rw [numberOf, numberOf, pidAfter, ← Nat.mod_add_mod]
  by_cases hlast : rank % pidCount + 1 = pidCount
  · rw [hlast, Nat.mod_self, if_neg (by rw [pidCount]; decide)]
  · have hnext : rank % pidCount + 1 < pidCount := Nat.lt_of_le_of_ne hlt hlast
    rw [Nat.mod_eq_of_lt hnext, if_pos (Nat.add_lt_of_lt_sub hnext)]

theorem numberOf_eq_iff {rank rank' : ℕ} :
    numberOf rank = numberOf rank' ↔ rank ≡ rank' [MOD pidCount] :=
  Nat.add_right_cancel_iff

/-- A scheduler, and the count of the processes that came. -/
structure Census where
  scheduler : Scheduler
  /-- How many processes came. -/
  count : ℕ
  /-- How many had come before the process in a slot. -/
  rank : Slot → ℕ

/-- The census after a call: whoever comes is counted. -/
def Census.apply (c : Census) (action : Action) : Census where
  scheduler := action.apply c.scheduler
  count := if ∃ slot, action.Fills c.scheduler slot then c.count + 1 else c.count
  rank slot := if action.Fills c.scheduler slot then c.count else c.rank slot

/-- The census of a run from the beginning. -/
def census (actions : List Action) : Census := actions.foldl Census.apply ⟨initial, 0, fun _ => 0⟩

theorem scheduler_census (actions : List Action) : (census actions).scheduler = after actions := by
  suffices h : ∀ c : Census, (actions.foldl Census.apply c).scheduler = c.scheduler.run actions from
    h _
  induction actions with
  | nil => exact fun c => rfl
  | cons action actions ih => exact fun c => ih (c.apply action)

namespace Census

variable {c : Census}

/-- If nobody comes, the census stays as it is. -/
theorem apply_of_fewer
    (hpid : ∀ slot, (action.apply c.scheduler).pid slot = c.scheduler.pid slot
      ∨ (action.apply c.scheduler).pid slot = 0) :
    c.apply action = { c with scheduler := action.apply c.scheduler } := by
  have hfills (slot : Slot) : ¬ action.Fills c.scheduler slot := by
    rintro ⟨hfree, hlive⟩
    exact hlive (((hpid slot).resolve_right hlive).trans hfree)
  simp only [Census.apply, hfills, exists_false, if_false]

/-- A newcomer is counted, and gets the count as its rank. -/
theorem apply_of_more {new : Slot} (hfree : c.scheduler.pid new = 0) {number : ℕ}
    (hnumber : number ≠ 0)
    (hpid : ∀ slot, (action.apply c.scheduler).pid slot
      = if slot = new then number else c.scheduler.pid slot) :
    c.apply action = ⟨action.apply c.scheduler, c.count + 1,
      fun slot => if slot = new then c.count else c.rank slot⟩ := by
  have hfills (slot : Slot) : action.Fills c.scheduler slot ↔ slot = new := by
    rw [Action.Fills, hpid]
    split
    next hslot => exact ⟨fun _ => hslot, fun _ => ⟨hslot ▸ hfree, hnumber⟩⟩
    next hslot => exact ⟨fun h => absurd h.1 h.2, fun h => absurd h hslot⟩
  simp only [Census.apply, hfills, exists_eq, if_true]

/-- Nobody has the rank of another one, and the numbers go with the ranks. -/
structure Numbered (c : Census) : Prop where
  coherent : c.scheduler.Coherent
  nextPid : c.scheduler.nextPid = numberOf c.count
  pid : ∀ slot, c.scheduler.pid slot ≠ 0 → c.scheduler.pid slot = numberOf (c.rank slot)
  rank_lt : ∀ slot, c.scheduler.pid slot ≠ 0 → c.rank slot < c.count
  rank_injective : ∀ slot other, c.scheduler.pid slot ≠ 0 → c.scheduler.pid other ≠ 0 →
    c.rank slot = c.rank other → slot = other

theorem numbered_initial : Numbered ⟨initial, 0, fun _ => 0⟩ := by
  have hpid (slot : Slot) : initial.pid slot = 0 :=
    congrArg Process.pid (ProcessTable.process_replicate ..)
  exact ⟨coherent_initial, numberOf_zero.symm, fun slot h => absurd (hpid slot) h,
    fun slot h => absurd (hpid slot) h, fun slot _ h => absurd (hpid slot) h⟩

/-- **Every call keeps the numbers in step with the census.** -/
theorem Numbered.apply (hc : c.Numbered) (action : Action) : (c.apply action).Numbered := by
  have hcoherent : (action.apply c.scheduler).Coherent := (hc.coherent.apply action).1
  cases hc.coherent.renumbers action with
  | fewer hnext hpid =>
    have hstays (slot : Slot) (h : (action.apply c.scheduler).pid slot ≠ 0) :
        (action.apply c.scheduler).pid slot = c.scheduler.pid slot :=
      (hpid slot).resolve_right h
    have hlive (slot : Slot) (h : (action.apply c.scheduler).pid slot ≠ 0) :
        c.scheduler.pid slot ≠ 0 :=
      hstays slot h ▸ h
    rw [apply_of_fewer hpid]
    exact ⟨hcoherent, hnext.trans hc.nextPid,
      fun slot h => (hstays slot h).trans (hc.pid slot (hlive slot h)),
      fun slot h => hc.rank_lt slot (hlive slot h),
      fun slot other h h' => hc.rank_injective slot other (hlive slot h) (hlive other h')⟩
  | @more new hfree hnext hpid =>
    rw [hc.nextPid] at hnext hpid
    have hlive {slot : Slot} (hslot : slot ≠ new) (h : (action.apply c.scheduler).pid slot ≠ 0) :
        c.scheduler.pid slot ≠ 0 := by
      rwa [hpid, if_neg hslot] at h
    rw [apply_of_more hfree (Nat.succ_ne_zero _) hpid]
    refine ⟨hcoherent, hnext.trans (numberOf_succ _).symm, fun slot h => ?_, fun slot h => ?_,
      fun slot other h h' heq => ?_⟩
    · dsimp only
      rw [hpid]
      split
      next => rfl
      next hslot => exact hc.pid slot (hlive hslot h)
    · dsimp only
      split
      next => exact Nat.lt_succ_self _
      next hslot => exact Nat.lt_succ_of_lt (hc.rank_lt slot (hlive hslot h))
    -- The newcomer is the only one whose rank is the old count.
    · by_cases hslot : slot = new <;> by_cases hother : other = new
      · rw [hslot, hother]
      · simp only [if_pos hslot, if_neg hother] at heq
        exact absurd heq (Nat.ne_of_gt (hc.rank_lt other (hlive hother h')))
      · simp only [if_neg hslot, if_pos hother] at heq
        exact absurd heq (Nat.ne_of_lt (hc.rank_lt slot (hlive hslot h)))
      · simp only [if_neg hslot, if_neg hother] at heq
        exact hc.rank_injective slot other (hlive hslot h) (hlive hother h') heq

end Census

theorem numbered_census (actions : List Action) : (census actions).Numbered := by
  suffices h : ∀ c : Census, c.Numbered → (actions.foldl Census.apply c).Numbered from
    h _ Census.numbered_initial
  induction actions with
  | nil => exact fun c hc => hc
  | cons action actions ih => exact fun c hc => ih _ (hc.apply action)

/-! ### Finding a process by its number -/

/-- The number of the process in a slot leads to it: it is the one that is shown, and killing it ends
that process and no other one. -/
structure Addressed (s : Scheduler) (slot : Slot) : Prop where
  byPid? : s.byPid? (s.pid slot) = some (s.table.process slot).info
  kill : ∀ outcome, s.kill (s.pid slot) = .ok outcome →
    outcome.2.pid slot = 0 ∧ ∀ other, other ≠ slot → outcome.2.pid other = s.pid other

/-- If all numbers are different, looking for one leads to its slot. -/
theorem Coherent.slotOf?_pid (hs : s.Coherent) (hdistinct : s.DistinctPids) (hslot : s.Live slot) :
    s.table.slotOf? (s.pid slot) = some slot := by
  have hpid : s.pid slot ≠ 0 := hs.live_iff.mp hslot
  rw [ProcessTable.slotOf?, if_neg hpid]
  refine ProcessTable.findSlot?_eq_some (beq_self_eq_true _) fun other hother => ?_
  have heq : s.pid other = s.pid slot := eq_of_beq hother
  exact hdistinct other slot (hs.live_iff.mpr (heq ▸ hpid)) hslot heq

/-- A process that is killed has no number any more, and the other ones keep theirs. -/
theorem pid_of_kill_eq_ok {number : ℕ} {outcome : Option SwitchPlan × Scheduler}
    (hslot : s.table.slotOf? number = some slot) (hkill : s.kill number = .ok outcome)
    (other : Slot) : outcome.2.pid other = if other = slot then 0 else s.pid other := by
  obtain ⟨found, hfound, -, ⟨hcurrent, rfl⟩ | ⟨-, rfl⟩⟩ := of_kill_eq_ok hkill
  · obtain rfl : found = slot := Option.some.inj (hfound.symm.trans hslot)
    rw [(passes_exitCurrent hcurrent).pid, pid, process_ended, hcurrent]
    simp only [Option.some.injEq, eq_comm (a := found), apply_ite Process.pid]
    rfl
  · obtain rfl : found = slot := Option.some.inj (hfound.symm.trans hslot)
    rw [pid, process_update, apply_ite Process.pid]
    rfl

/-- **If all numbers are different, they lead to their processes.** -/
theorem Coherent.addressed (hs : s.Coherent) (hdistinct : s.DistinctPids) (hslot : s.Live slot) :
    s.Addressed slot := by
  have hfound := hs.slotOf?_pid hdistinct hslot
  refine ⟨?_, fun outcome hkill => ?_⟩
  · rw [Scheduler.byPid?, hfound]
    rfl
  · have hpid := pid_of_kill_eq_ok hfound hkill
    exact ⟨(hpid slot).trans (if_pos rfl), fun other hother => (hpid other).trans (if_neg hother)⟩

/-- The number that is returned for a new process is the one that it has. -/
theorem Coherent.pid_of_create_eq_ok (hs : s.Coherent) {entry stackSize number : ℕ}
    {memory : StackMemory}
    (h : s.create entry stackSize memory = .ok (number, t)) :
    ∃ slot, (Action.create entry stackSize memory).Fills s slot ∧ t.pid slot = number := by
  have happly : (Action.create entry stackSize memory).apply s = t := by
    rw [Action.apply, Action.perform, h]
  obtain ⟨-, slot, hfree, heq⟩ := of_create_eq_ok h
  obtain ⟨rfl, ht⟩ := Prod.mk.inj heq
  have hpid : t.pid slot = s.nextPid := by
    rw [ht]
    exact (pid_seat s slot slot _).trans (if_pos rfl)
  refine ⟨slot, ⟨pid_of_freeSlot? hfree, ?_⟩, hpid⟩
  rw [happly, hpid]
  exact Nat.ne_of_gt hs.nextPid_pos

/-- The number that is returned for what is running is the one that it has. -/
theorem pid_of_adoptCurrent_eq_ok {number : ℕ} (h : s.adoptCurrent = .ok (number, t)) :
    ∃ slot, t.current = some slot ∧ t.pid slot = number := by
  obtain ⟨slot, hcurrent, heq⟩ | ⟨slot, -, hfree, heq⟩ := of_adoptCurrent_eq_ok h
  · obtain ⟨rfl, rfl⟩ := Prod.mk.inj heq
    exact ⟨slot, hcurrent, rfl⟩
  · obtain ⟨rfl, rfl⟩ := Prod.mk.inj heq
    exact ⟨slot, rfl, (pid_seat s slot slot _).trans (if_pos rfl)⟩

/-- A process keeps its number until it leaves its slot. -/
theorem Coherent.pid_apply (hs : s.Coherent) (hfills : ¬ action.Fills s slot)
    (hlive : (action.apply s).Live slot) : (action.apply s).pid slot = s.pid slot := by
  have hpid := ((hs.apply action).1.live_iff).mp hlive
  cases hs.renumbers action with
  | fewer hnext hfewer => exact (hfewer slot).resolve_right hpid
  | @more new hfree hnext hmore =>
    have hslot : slot ≠ new := by
      rintro rfl
      exact hfills ⟨hfree, hpid⟩
    rw [hmore, if_neg hslot]

/-- A process that is there before and after a call keeps its number. -/
theorem Coherent.pid_apply_of_live (hs : s.Coherent) (hlive : s.Live slot)
    (hlive' : (action.apply s).Live slot) : (action.apply s).pid slot = s.pid slot :=
  hs.pid_apply (fun hfills => hs.live_iff.mp hlive hfills.1) hlive'

/-- **When all processes have numbers of their own.** After any calls no process has number zero, and
two processes have the same number exactly if the numbers of processes that had come before them
differ by a multiple of `pidCount`. While they are all different, as they are until `pidCount`
processes came, every number leads to its process: to the one for which `create` or `adoptCurrent`
returned it, which keeps it until it leaves its slot. -/
theorem distinctPids_iff (actions : List Action) :
    let s := after actions
    let rank := (census actions).rank
    (∀ slot, s.Live slot → s.pid slot ≠ 0)
      ∧ (s.DistinctPids ↔ ∀ slot other, s.Live slot → s.Live other →
          rank slot ≡ rank other [MOD pidCount] → slot = other)
      ∧ ((census actions).count ≤ pidCount → s.DistinctPids)
      ∧ (s.DistinctPids → ∀ slot, s.Live slot → s.Addressed slot)
      ∧ (∀ entry stackSize memory number t, s.create entry stackSize memory = .ok (number, t) →
          ∃ slot, (Action.create entry stackSize memory).Fills s slot ∧ t.pid slot = number)
      ∧ (∀ number t, s.adoptCurrent = .ok (number, t) →
          ∃ slot, t.current = some slot ∧ t.pid slot = number)
      ∧ ∀ (action : Action) (slot : Slot), ¬ action.Fills s slot → (action.apply s).Live slot →
          (action.apply s).pid slot = s.pid slot := by
  intro s rank
  have hc : (census actions).Numbered := numbered_census actions
  have hscheduler : (census actions).scheduler = s := scheduler_census actions
  have hs : s.Coherent := hscheduler ▸ hc.coherent
  have hlive (slot : Slot) (hslot : s.Live slot) : (census actions).scheduler.pid slot ≠ 0 := by
    rw [hscheduler]
    exact hs.live_iff.mp hslot
  have hpid (slot : Slot) (hslot : s.Live slot) : s.pid slot = numberOf (rank slot) :=
    hscheduler ▸ hc.pid slot (hlive slot hslot)
  have hiff : s.DistinctPids ↔ ∀ slot other, s.Live slot → s.Live other →
      rank slot ≡ rank other [MOD pidCount] → slot = other := by
    refine forall₄_congr fun slot other hslot hother => ?_
    rw [hpid slot hslot, hpid other hother, numberOf_eq_iff]
  refine ⟨fun slot hslot => hs.live_iff.mp hslot, hiff, fun hcount => hiff.mpr ?_,
    fun hdistinct slot => hs.addressed hdistinct, fun entry stackSize memory number t =>
      hs.pid_of_create_eq_ok, fun number t => pid_of_adoptCurrent_eq_ok,
    fun action slot => hs.pid_apply⟩
  intro slot other hslot hother hmod
  have hlt {slot : Slot} (hslot : s.Live slot) : rank slot < pidCount :=
    Nat.lt_of_lt_of_le (hc.rank_lt slot (hlive slot hslot)) hcount
  exact hc.rank_injective slot other (hlive slot hslot) (hlive other hother)
    (hmod.eq_of_lt_of_lt (hlt hslot) (hlt hother))

/-- What was running is adopted, and a process is created: number 2 leads to the new process. -/
theorem distinctPids_iff_two :
    (census [.adoptCurrent, .create 1 0 .ample]).count ≤ pidCount
      ∧ (after [.adoptCurrent, .create 1 0 .ample]).DistinctPids
      ∧ (after [.adoptCurrent, .create 1 0 .ample]).Addressed 1 :=
  have h := distinctPids_iff [.adoptCurrent, .create 1 0 .ample]
  have hdistinct := h.2.2.1 (by decide)
  ⟨by decide, hdistinct, h.2.2.2.1 hdistinct 1 rfl⟩

/-! ### A number that comes again -/

/-- Processes that come and are killed one after the other, the first of them with number 2. -/
def visits : ℕ → List Action
  | 0 => []
  | n + 1 => visits n ++ [.create 1 0 .ample, .kill (n + 2)]

/-- One process that was adopted, after so many others came and went. -/
def resident (n : ℕ) : Scheduler :=
  { Action.apply initial .adoptCurrent with nextPid := numberOf (n + 1), nextStack := n }

/-- The resident and a visitor. -/
def visited (n : ℕ) : Scheduler := Action.apply (resident n) (.create 1 0 .ample)

theorem process_resident (n : ℕ) (slot : Slot) :
    (resident n).table.process slot = if slot = 0 then .adopted 1 else .free := by
  show (initial.table.put 0 (.adopted 1)).process slot = _
  rw [ProcessTable.process_put]
  exact congrArg (ite _ _) (ProcessTable.process_replicate ..)

theorem freeSlot?_resident (n : ℕ) : (resident n).table.freeSlot? = some 1 := by
  show (initial.table.put 0 (.adopted 1)).freeSlot? = some 1
  decide

theorem visited_eq (n : ℕ) :
    visited n = { (resident n).seat 1 (.worker (resident n).nextPid 1 ⟨n, standardStackSize⟩) with
      nextStack := n + 1 } := by
  rw [visited, Action.apply, Action.perform, create, freeSlot?_resident]
  rfl

theorem process_visited (n : ℕ) (slot : Slot) :
    (visited n).table.process slot
      = if slot = 1 then .worker (resident n).nextPid 1 ⟨n, standardStackSize⟩
        else if slot = 0 then .adopted 1 else .free := by
  rw [← process_resident n, visited_eq]
  exact process_seat ..

/-- As long as the numbers go up, a visitor is found by its number. -/
theorem slotOf?_visited {n : ℕ} (hnumber : 1 < (resident n).nextPid) :
    (visited n).table.slotOf? (resident n).nextPid = some 1 := by
  rw [ProcessTable.slotOf?, if_neg (Nat.ne_of_gt (Nat.zero_lt_of_lt hnumber))]
  refine ProcessTable.findSlot?_eq_some ?_ fun slot hslot => ?_
  · rw [process_visited, if_pos rfl]
    exact beq_self_eq_true _
  · by_contra hne
    have hother := eq_of_beq hslot
    rw [process_visited, if_neg hne] at hother
    split at hother
    next => exact Nat.ne_of_lt hnumber hother
    next => exact Nat.ne_of_lt (Nat.zero_lt_of_lt hnumber) hother

theorem kill_visited {n : ℕ} (hnumber : 1 < (resident n).nextPid) :
    (visited n).kill (resident n).nextPid = .ok (none, (visited n).update 1 fun _ => .free) := by
  have hsheltered : ((visited n).table.process 1).sheltered = false := by
    rw [process_visited, if_pos rfl]
    rfl
  have hcurrent : (visited n).current ≠ some 1 := by
    rw [visited_eq]
    show some (0 : Slot) ≠ some 1
    decide
  rw [kill, slotOf?_visited hnumber]
  simp only [hsheltered, Bool.false_eq_true, if_false, if_neg hcurrent]

/-- When a visitor is gone, only the numbers that come next are different. -/
theorem update_visited (n : ℕ) : ((visited n).update 1 fun _ => .free) = resident (n + 1) := by
  have htable : (visited n).table.put 1 .free = (resident (n + 1)).table := by
    refine ProcessTable.ext_process fun slot => ?_
    rw [ProcessTable.process_put, process_visited, process_resident]
    split
    next hslot =>
      subst hslot
      rfl
    next => rfl
  have hnext : (visited n).nextPid = (resident (n + 1)).nextPid := by
    rw [visited_eq]
    exact (numberOf_succ (n + 1)).symm
  calc ((visited n).update 1 fun _ => .free)
      = { resident (n + 1) with
          table := (visited n).table.put 1 .free, nextPid := (visited n).nextPid } := by
        rw [update, visited_eq]
        rfl
    _ = resident (n + 1) := by rw [htable, hnext]

/-- A visit leaves everything as it was, except the numbers that come next. -/
theorem run_visit {n : ℕ} (hn : n + 1 < pidCount) :
    (resident n).run [.create 1 0 .ample, .kill (n + 2)] = resident (n + 1) := by
  have hnumber : (resident n).nextPid = n + 2 := by
    show (n + 1) % pidCount + 1 = n + 2
    rw [Nat.mod_eq_of_lt hn]
  have hkill : (Action.kill (n + 2)).apply (visited n) = resident (n + 1) := by
    rw [Action.apply, Action.perform, ← hnumber, kill_visited (by omega), update_visited]
  rw [run_cons, ← visited, run_cons, hkill]
  rfl

theorem run_visits {n : ℕ} (hn : n < pidCount) : (resident 0).run (visits n) = resident n := by
  induction n with
  | zero => rfl
  | succ n ih => rw [visits, run_append, ih (Nat.lt_of_succ_lt hn), run_visit hn]

theorem apply_adoptCurrent : Action.apply initial .adoptCurrent = resident 0 := rfl

/-- One process stays while all other numbers are used up, and one more comes. -/
def outlived : List Action := .adoptCurrent :: visits (pidCount - 1) ++ [.create 1 0 .ample]

theorem after_outlived : after outlived = visited (pidCount - 1) := by
  have hvisits : after (.adoptCurrent :: visits (pidCount - 1)) = resident (pidCount - 1) := by
    rw [after, run_cons, apply_adoptCurrent, run_visits (by decide)]
  rw [outlived, after_append, hvisits, run_cons, ← visited]
  rfl

/-- **A number is given again while its process lives.** One process lives on while all other numbers
are used up; then the next newcomer gets its number. The number leads to the old process only: the
new one is not shown, and as the old one cannot be killed, neither can the new one. -/
theorem number_reused :
    let s := after outlived
    s.Live 0 ∧ s.Live 1 ∧ s.pid 0 = 1 ∧ s.pid 1 = 1
      ∧ s.byPid? 1 = some (s.table.process 0).info ∧ s.kill 1 = .error .isProtected := by
  intro s
  have hs : s = visited (pidCount - 1) := after_outlived
  have hnumber : (resident (pidCount - 1)).nextPid = 1 := by
    show pidCount % pidCount + 1 = 1
    rw [Nat.mod_self]
  have hzero : s.table.process 0 = .adopted 1 := by
    rw [hs, process_visited, if_neg (by decide), if_pos rfl]
  have hone : s.table.process 1 = .worker 1 1 ⟨pidCount - 1, standardStackSize⟩ := by
    rw [hs, process_visited, if_pos rfl, hnumber]
  have hslot : s.table.slotOf? 1 = some 0 := by
    rw [ProcessTable.slotOf?, if_neg Nat.one_ne_zero]
    exact List.find?_cons_of_pos (show (s.table.process 0).pid == 1 by rw [hzero]; rfl)
  refine ⟨?_, ?_, ?_, ?_, ?_, ?_⟩
  · rw [Live, hzero]
    rfl
  · rw [Live, hone]
    rfl
  · rw [pid, hzero]
    rfl
  · rw [pid, hone]
    rfl
  · rw [byPid?, hslot]
    rfl
  · rw [kill, hslot]
    simp only [hzero, Process.adopted, if_true]

end PocketKernel.Scheduler
