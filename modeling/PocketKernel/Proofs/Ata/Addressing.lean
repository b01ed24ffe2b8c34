import Mathlib.Data.Nat.Notation
import Mathlib.Logic.Function.Basic
import PocketKernel.Ata.Script
import PocketKernel.Proofs.Ata.Logged
import PocketKernel.Proofs.Ata.Refinement

/-!
# The sector that a drive is asked for

What is written to a channel can be recorded, without an effect on the driver. A record says which
commands a drive gets, each with what stands in the registers at that time, and so which sector it
is to transfer.

The four registers of an address hold 28 bits. The driver lets through every sector number below
the capacity that the drive has reported, and a capacity has 32 bits. So the number that the drive
gets is the remainder of the one that was meant. They are the same as long as the capacity is no
more than 28 bits can number; in a drive that reports more, sectors share their addresses.

## Main definitions

* `Recorded`: a channel with the record of what was written to it.
* `AtaOrder`, `AtaOrder.ofWrites`: the commands in a record.
* `AtaM.Says`: what a step writes.
* `DiskRequest.orders`: the commands that a drive gets for a request.

## Main results

* `AtaM.begin_writes`, `AtaM.readSector_writes`, `AtaM.writeSector_writes`: what a transfer writes.
* `AtaDrive.orders_of_lt`, `AtaDrive.orders_of_ge`: the commands for a request.
* `AtaDrive.addresses_requested_iff`: which drives are asked for the sectors that are meant.
-/

namespace PocketKernel

/-- A channel, with everything that was written to it, the latest last. -/
structure Recorded (β : Type) where
  bus : β
  writes : List AtaWrite

/-- The channel does what it does; what is written is entered into the record. -/
instance {β : Type} [AtaBus β] : AtaBus (Recorded β) where
  status recorded :=
    ((AtaBus.status recorded.bus).1, { recorded with bus := (AtaBus.status recorded.bus).2 })
  alternateStatus recorded :=
    ((AtaBus.alternateStatus recorded.bus).1,
      { recorded with bus := (AtaBus.alternateStatus recorded.bus).2 })
  readData recorded :=
    ((AtaBus.readData recorded.bus).1, { recorded with bus := (AtaBus.readData recorded.bus).2 })
  writeData word recorded :=
    ((), ⟨(AtaBus.writeData word recorded.bus).2, recorded.writes ++ [.data word]⟩)
  writeRegister register value recorded :=
    ((), ⟨(AtaBus.writeRegister register value recorded.bus).2,
      recorded.writes ++ [.register register value]⟩)

/-- A command as a drive gets it. -/
structure AtaOrder where
  code : UInt8
  /-- What was last written to the registers. -/
  registers : AtaRegister → UInt8

namespace AtaOrder

variable {registers : AtaRegister → UInt8} {later : List AtaWrite}

/-- The 28 bits of the address. -/
def address (order : AtaOrder) : ℕ :=
  (order.registers .addressLow).toNat + 0x100 * (order.registers .addressMiddle).toNat
    + 0x10000 * (order.registers .addressHigh).toNat
    + 0x1000000 * (order.registers .driveSelect &&& 0x0F).toNat

/-- A command names one sector of the first drive, by its address. -/
structure Names (order : AtaOrder) (sector : ℕ) : Prop where
  mode : order.registers .driveSelect &&& 0xF0 = 0xE0
  count : order.registers .sectorCount = 1
  address : order.address = sector

/-- The commands in a record, from what stood in the registers before it. -/
def ofWrites : (AtaRegister → UInt8) → List AtaWrite → List AtaOrder
  | _, [] => []
  | registers, .data _ :: writes => ofWrites registers writes
  | registers, .register .command code :: writes => ⟨code, registers⟩ :: ofWrites registers writes
  | registers, .register register value :: writes =>
    ofWrites (Function.update registers register value) writes

theorem ofWrites_data (words : List UInt16) :
    ofWrites registers (words.map .data ++ later) = ofWrites registers later := by
  induction words with
  | nil => rfl
  | cons word words ih => exact ih

end AtaOrder

namespace AtaM

variable {β α : Type} {post : List AtaWrite → Prop}

/-! ### What a step writes -/

/-- A step does on a recorded channel what another one does on the channel itself, and what it
writes satisfies a condition, also if it fails. -/
def Says (step : AtaM (Recorded β) α) (plain : AtaM β α) (post : List AtaWrite → Prop) : Prop :=
  Logs Recorded.mk step plain fun _ said => post said

/-- A step that writes nothing. -/
abbrev Mute (step : AtaM (Recorded β) α) (plain : AtaM β α) : Prop := Says step plain (· = [])

theorem Says.mono {step : AtaM (Recorded β) α} {plain : AtaM β α} {mid : List AtaWrite → Prop}
    (h : Says step plain mid) (himp : ∀ said, mid said → post said) : Says step plain post :=
  Logs.mono h fun _ => himp

/-- The first step may fail, and then nothing follows. -/
theorem Says.bind {γ : Type} {front : List AtaWrite} {first : AtaM (Recorded β) γ}
    {first' : AtaM β γ} {next : γ → AtaM (Recorded β) α} {next' : γ → AtaM β α}
    (hfirst : Says first first' (· = front))
    (hnext : ∀ c, Says (next c) (next' c) fun later => post (front ++ later)) (hstop : post front) :
    Says (first >>= next) (first' >>= next') post := by
  refine Logs.bind hfirst ?_ ?_
  · rintro c _ rfl
    exact hnext c
  · rintro cause _ rfl
    exact hstop

/-- A quiet step adds nothing to what is written behind it. -/
theorem says_quiet_bind {γ : Type} {first : AtaM (Recorded β) γ} {first' : AtaM β γ}
    {next : γ → AtaM (Recorded β) α} {next' : γ → AtaM β α}
    (hfirst : Quiet Recorded.mk first first')
    (hnext : ∀ c, Says (next c) (next' c) post) : Says (first >>= next) (first' >>= next') post :=
  Quiet.bind hfirst hnext

theorem mute_mk (outcome : Except DiskError α) :
    Mute (β := β) (ExceptT.mk (pure outcome)) (ExceptT.mk (pure outcome)) :=
  logs_mk rfl

variable [AtaBus β]

section Bind

variable {next : Unit → AtaM (Recorded β) α} {next' : Unit → AtaM β α}

theorem says_writeRegister_bind {register : AtaRegister} {value : UInt8}
    (h : Says (next ()) (next' ()) fun later => post (.register register value :: later)) :
    Says (writeRegister register value >>= next) (writeRegister register value >>= next') post :=
  Logs.lift_bind (fun _ => [.register register value]) (fun _ _ => rfl) fun _ => h

theorem says_writeWords_bind {words : List UInt16}
    (h : Says (next ()) (next' ()) fun later => post (words.map .data ++ later)) :
    Says (writeWords words >>= next) (writeWords words >>= next') post := by
  unfold writeWords
  induction words generalizing post with
  | nil => exact h
  | cons word words ih =>
    rw [List.forM_eq_forM, List.forM_eq_forM, List.forM_cons, List.forM_cons, bind_assoc,
      bind_assoc]
    exact Logs.lift_bind (fun _ => [.data word]) (fun _ _ => rfl) fun _ => ih h

theorem says_settle_bind (h : Says (next ()) (next' ()) post) :
    Says (settle >>= next) (settle >>= next') post :=
  says_quiet_bind (quiet_settle fun _ _ => rfl) fun _ => h

end Bind

theorem mute_poll (rule : UInt8 → Option (Except DiskError Unit)) (tries : ℕ) :
    Mute (β := β) (poll rule tries) (poll rule tries) := by
  induction tries with
  | zero => exact mute_mk (.error .timeout)
  | succ tries ih =>
    rw [poll, poll]
    refine says_quiet_bind (quiet_lift fun _ _ => rfl) fun status => ?_
    cases rule status with
    | some verdict => exact mute_mk verdict
    | none => exact ih

/-! ### Transfers -/

/-- What is written to begin a transfer. -/
def beginWrites (lba : ℕ) (command : AtaCommand) : List AtaWrite :=
  [.register .driveSelect (selector lba), .register .features 0, .register .sectorCount 1,
    .register .addressLow (UInt8.ofNat lba), .register .addressMiddle (UInt8.ofNat (lba / 0x100)),
    .register .addressHigh (UInt8.ofNat (lba / 0x10000)), .register .command command.code]

theorem begin_writes (lba : ℕ) (command : AtaCommand) :
    Says (β := β) (begin lba command) (begin lba command) (· = beginWrites lba command) := by
  unfold begin select
  rw [bind_assoc, bind_assoc]
  refine says_writeRegister_bind ?_
  refine says_settle_bind ?_
  refine says_writeRegister_bind ?_
  refine says_writeRegister_bind ?_
  refine says_writeRegister_bind ?_
  refine says_writeRegister_bind ?_
  refine says_writeRegister_bind ?_
  refine says_writeRegister_bind ?_
  refine (mute_poll _ _).mono ?_
  rintro _ rfl
  rfl

theorem readSector_writes (lba : ℕ) : Says (β := β) (readSector lba) (readSector lba)
    (· = beginWrites lba .readSector) := by
  refine (begin_writes lba _).bind (fun _ => ?_) rfl
  refine says_quiet_bind (quiet_readWords _ fun _ _ => rfl) fun words => ?_
  refine says_settle_bind ?_
  refine (mute_mk (.ok _)).mono ?_
  rintro _ rfl
  exact List.append_nil _

/-- A transfer to a drive that does not take the data ends there. -/
theorem writeSector_writes (lba : ℕ) (sector : Sector) :
    Says (β := β) (writeSector lba sector) (writeSector lba sector) fun said =>
      said = beginWrites lba .writeSector ∨ said = beginWrites lba .writeSector
        ++ (sector.words.map .data ++ [.register .command AtaCommand.flushCache.code]) := by
  refine (begin_writes lba _).bind (fun _ => ?_) (.inl rfl)
  refine says_writeWords_bind ?_
  refine says_settle_bind ?_
  refine says_writeRegister_bind ?_
  refine (mute_poll _ _).mono ?_
  rintro _ rfl
  exact .inr rfl

end AtaM

namespace AtaOrder

variable {registers : AtaRegister → UInt8} {later : List AtaWrite}

/-- What stands in the registers once a transfer is addressed. -/
def aimed (registers : AtaRegister → UInt8) (lba : ℕ) : AtaRegister → UInt8 :=
  Function.update (Function.update (Function.update (Function.update (Function.update
    (Function.update registers .driveSelect (AtaM.selector lba)) .features 0) .sectorCount 1)
    .addressLow (UInt8.ofNat lba)) .addressMiddle (UInt8.ofNat (lba / 0x100)))
    .addressHigh (UInt8.ofNat (lba / 0x10000))

/-- The four registers hold the lower 28 bits of a sector number. -/
theorem names_aimed (code : UInt8) (registers : AtaRegister → UInt8) (lba : ℕ) :
    (⟨code, aimed registers lba⟩ : AtaOrder).Names (lba % 0x10000000) := by
  obtain ⟨hmode, htop⟩ := AtaM.selector_parts lba
  have hselect : aimed registers lba .driveSelect = AtaM.selector lba := by
    simp only [aimed, Function.update_of_ne, Function.update_self, ne_eq, reduceCtorEq,
      not_false_eq_true]
  refine ⟨?_, ?_, ?_⟩
  · show aimed registers lba .driveSelect &&& 0xF0 = 0xE0
    rw [hselect, hmode]
  · simp only [aimed, Function.update_of_ne, Function.update_self, ne_eq, reduceCtorEq,
      not_false_eq_true]
  · show (aimed registers lba .addressLow).toNat + _ + _
      + 0x1000000 * (aimed registers lba .driveSelect &&& 0x0F).toNat = _
    rw [hselect, htop]
    simp only [aimed, Function.update_of_ne, Function.update_self, ne_eq, reduceCtorEq,
      not_false_eq_true, UInt8.toNat_ofNat']
    omega

theorem ofWrites_beginWrites (lba : ℕ) (command : AtaCommand) :
    ofWrites registers (AtaM.beginWrites lba command ++ later)
      = ⟨command.code, aimed registers lba⟩ :: ofWrites (aimed registers lba) later := rfl

end AtaOrder

/-! ### The capacity -/

namespace AtaM

variable {α β γ : Type} [AtaBus β]

omit [AtaBus β] in
theorem of_run_bind_eq_ok {first : AtaM β γ} {next : γ → AtaM β α} {bus left : β} {answer : α}
    (h : (first >>= next).run.run bus = (.ok answer, left)) : ∃ c mid,
      first.run.run bus = (.ok c, mid) ∧ (next c).run.run mid = (.ok answer, left) := by
  rw [ExceptT.run_bind, StateT.run_bind] at h
  cases hfirst : first.run.run bus with
  | mk outcome mid =>
    rw [hfirst] at h
    cases outcome with
    | error cause => cases h
    | ok c => exact ⟨c, mid, rfl, h⟩

/-- A step that succeeds has at last read the words of a sector, and answers the capacity that they
report. -/
def Reports (step : AtaM β ℕ) : Prop :=
  ∀ bus capacity left, step.run.run bus = (.ok capacity, left) → ∃ before words,
    (readWords sectorWords).run.run before = (.ok words, left)
      ∧ capacity = reportedCapacity words

theorem Reports.after {first : AtaM β γ} {next : γ → AtaM β ℕ} (h : ∀ c, Reports (next c)) :
    Reports (first >>= next) := by
  intro bus capacity left hrun
  obtain ⟨c, mid, -, hnext⟩ := of_run_bind_eq_ok hrun
  exact h c mid capacity left hnext

theorem reports_throw (cause : DiskError) : Reports (β := β) (throw cause) := by
  intro bus capacity left hrun
  cases hrun

theorem identify_reports : Reports (β := β) identify := by
  unfold identify
  refine .after fun _ => ?_
  refine .after fun _ => ?_
  refine .after fun _ => ?_
  refine .after fun _ => ?_
  refine .after fun _ => ?_
  refine .after fun _ => ?_
  refine .after fun _ => ?_
  refine .after fun _ => ?_
  refine .after fun status => ?_
  split
  · exact reports_throw _
  refine .after fun _ => ?_
  refine .after fun status => ?_
  split
  · exact reports_throw _
  refine .after fun _ => ?_
  intro bus capacity left hrun
  obtain ⟨words, mid, hwords, hlast⟩ := of_run_bind_eq_ok hrun
  split at hlast
  · cases hlast
  · cases hlast
    exact ⟨bus, words, hwords, rfl⟩

end AtaM

/-! ### Requests -/

namespace DiskRequest

/-- The sector that a request is about. -/
def lba : DiskRequest → ℕ
  | read lba => lba
  | write lba _ => lba

/-- The command that a request comes down to. -/
def command : DiskRequest → AtaCommand
  | read _ => .readSector
  | write _ _ => .writeSector

end DiskRequest

namespace AtaDrive

variable {β α : Type}

/-- A drive on a channel that is recorded from now on. -/
def recorded (drive : AtaDrive β) : AtaDrive (Recorded β) := ⟨⟨drive.bus, []⟩, drive.capacity⟩

theorem transfer_writes {step : AtaM (Recorded β) α} {plain : AtaM β α}
    {post : List AtaWrite → Prop} (h : AtaM.Says step plain post) {drive : AtaDrive β} {lba : ℕ}
    (hlba : lba < drive.capacity) :
    (transfer lba step drive.recorded).1 = (transfer lba plain drive).1
      ∧ post (transfer lba step drive.recorded).2.bus.writes := by
  obtain ⟨hanswer, hlogs⟩ := transfer_logs h drive lba
  obtain ⟨said, hbus, hsaid⟩ := hlogs hlba
  have hwrites : (transfer lba step drive.recorded).2.bus.writes = said :=
    congrArg Recorded.writes hbus
  rw [hwrites]
  exact ⟨hanswer, hsaid⟩

variable [AtaBus β] {drive : AtaDrive β} {request : DiskRequest} {registers : AtaRegister → UInt8}

/-- The capacity is none, or what the drive has reported. -/
theorem capacity_identify (drive : AtaDrive β) : (identify drive).2.capacity = 0
    ∨ ∃ before words,
      (AtaM.readWords AtaM.sectorWords).run.run before = (.ok words, (identify drive).2.bus)
        ∧ (identify drive).2.capacity = AtaM.reportedCapacity words := by
  unfold identify
  cases hrun : AtaM.identify.run.run drive.bus with
  | mk outcome left =>
    cases outcome with
    | error cause => exact .inl rfl
    | ok capacity => exact .inr (AtaM.identify_reports drive.bus capacity left hrun)

omit [AtaBus β] in
theorem capacity_transfer (step : AtaM β α) (drive : AtaDrive β) (lba : ℕ) :
    (transfer lba step drive).2.capacity = drive.capacity := by
  unfold transfer
  split
  · rfl
  · split
    · rfl
    · rfl

theorem serve_read (lba : ℕ) (drive : AtaDrive β) : (DiskRequest.read lba).serve drive
    = ((transfer lba (AtaM.readSector lba) drive).1.map some,
      (transfer lba (AtaM.readSector lba) drive).2) := rfl

theorem serve_write (lba : ℕ) (sector : Sector) (drive : AtaDrive β) :
    (DiskRequest.write lba sector).serve drive
      = ((transfer lba (AtaM.writeSector lba sector) drive).1.map fun _ => none,
        (transfer lba (AtaM.writeSector lba sector) drive).2) := rfl

theorem capacity_serveAll (requests : List DiskRequest) (drive : AtaDrive β) :
    (DiskRequest.serveAll requests drive).2.capacity = drive.capacity := by
  unfold DiskRequest.serveAll
  induction requests generalizing drive with
  | nil => rfl
  | cons request requests ih =>
    rw [List.mapM_cons]
    refine (ih (request.serve drive).2).trans ?_
    cases request with
    | read lba => rw [serve_read, capacity_transfer]
    | write lba sector => rw [serve_write, capacity_transfer]

end AtaDrive

/-- The commands that a drive gets for a request. -/
def DiskRequest.orders {β : Type} [AtaBus β] (request : DiskRequest)
    (registers : AtaRegister → UInt8) (drive : AtaDrive β) : List AtaOrder :=
  AtaOrder.ofWrites registers (request.serve drive.recorded).2.bus.writes

namespace AtaDrive

variable {β : Type} [AtaBus β] {drive : AtaDrive β} {request : DiskRequest}
  {registers : AtaRegister → UInt8}

/-- **What is refused** is refused by the driver alone. -/
theorem orders_of_ge (registers : AtaRegister → UInt8) (h : drive.capacity ≤ request.lba) :
    (request.serve drive.recorded).1 = (request.serve drive).1
      ∧ request.orders registers drive = [] := by
  unfold DiskRequest.orders
  cases request with
  | read lba =>
    have h : drive.capacity ≤ lba := h
    have hrecorded : drive.recorded.capacity ≤ lba := h
    rw [serve_read, serve_read, transfer_refused _ h, transfer_refused _ hrecorded]
    exact ⟨rfl, rfl⟩
  | write lba sector =>
    have h : drive.capacity ≤ lba := h
    have hrecorded : drive.recorded.capacity ≤ lba := h
    rw [serve_write, serve_write, transfer_refused _ h, transfer_refused _ hrecorded]
    exact ⟨rfl, rfl⟩

/-- **What is let through** comes to the drive as one command with the address in its registers; a
sector that was stored is followed by a flush of the cache. -/
theorem orders_of_lt (registers : AtaRegister → UInt8) (h : request.lba < drive.capacity) :
    (request.serve drive.recorded).1 = (request.serve drive).1
      ∧ ∃ flushes, request.orders registers drive
          = ⟨request.command.code, AtaOrder.aimed registers request.lba⟩ :: flushes
        ∧ ∀ flush ∈ flushes,
          flush = ⟨AtaCommand.flushCache.code, AtaOrder.aimed registers request.lba⟩ := by
  unfold DiskRequest.orders
  cases request with
  | read lba =>
    have h : lba < drive.capacity := h
    obtain ⟨hanswer, hwrites⟩ := transfer_writes (AtaM.readSector_writes lba) h
    rw [serve_read, serve_read, hanswer, hwrites]
    exact ⟨rfl, [], rfl, nofun⟩
  | write lba sector =>
    have h : lba < drive.capacity := h
    obtain ⟨hanswer, hwrites⟩ := transfer_writes (AtaM.writeSector_writes lba sector) h
    rw [serve_write, serve_write, hanswer]
    refine ⟨rfl, ?_⟩
    rcases hwrites with hwrites | hwrites
    · rw [hwrites]
      exact ⟨[], rfl, nofun⟩
    · rw [hwrites, AtaOrder.ofWrites_beginWrites, AtaOrder.ofWrites_data]
      exact ⟨_, rfl, fun flush hflush => List.mem_singleton.mp hflush⟩

/-- The address in every command for a request. -/
theorem address_of_mem_orders {order : AtaOrder} (h : order ∈ request.orders registers drive) :
    request.lba < drive.capacity ∧ order.address = request.lba % 0x10000000 := by
  rcases Nat.lt_or_ge request.lba drive.capacity with hlt | hge
  · obtain ⟨-, flushes, horders, hflushes⟩ := orders_of_lt registers hlt
    rw [horders, List.mem_cons] at h
    rcases h with rfl | hflush
    · exact ⟨hlt, (AtaOrder.names_aimed ..).address⟩
    · rw [hflushes order hflush]
      exact ⟨hlt, (AtaOrder.names_aimed ..).address⟩
  · rw [(orders_of_ge registers hge).2] at h
    cases h

theorem exists_mem_orders (registers : AtaRegister → UInt8) (h : request.lba < drive.capacity) :
    ∃ order, order ∈ request.orders registers drive := by
  obtain ⟨-, flushes, horders, -⟩ := orders_of_lt registers h
  rw [horders]
  exact ⟨_, List.mem_cons_self⟩

/-- Each sector that is let through has its own number as its address. -/
theorem forall_address_eq_iff (drive : AtaDrive β) (registers : AtaRegister → UInt8) :
    (∀ request : DiskRequest, ∀ order ∈ request.orders registers drive,
        order.address = request.lba)
      ↔ drive.capacity ≤ 0x10000000 := by
  constructor
  · intro h
    by_contra hmore
    have hlba : (DiskRequest.read 0x10000000).lba < drive.capacity := Nat.not_le.mp hmore
    obtain ⟨order, horder⟩ := exists_mem_orders registers hlba
    have hzero := (address_of_mem_orders horder).2.symm.trans (h _ order horder)
    cases hzero
  · intro hcapacity request order horder
    obtain ⟨hlt, haddress⟩ := address_of_mem_orders horder
    rw [haddress, Nat.mod_eq_of_lt (Nat.lt_of_lt_of_le hlt hcapacity)]

/-- No two sectors that are let through share their address. -/
theorem addresses_apart_iff (drive : AtaDrive β) (registers : AtaRegister → UInt8) :
    (∀ request request' : DiskRequest, ∀ order ∈ request.orders registers drive,
        ∀ order' ∈ request'.orders registers drive, order.address = order'.address →
          request.lba = request'.lba)
      ↔ drive.capacity ≤ 0x10000000 := by
  constructor
  · intro h
    by_contra hmore
    have hlba : (DiskRequest.read 0x10000000).lba < drive.capacity := Nat.not_le.mp hmore
    have hzero : (DiskRequest.read 0).lba < drive.capacity := Nat.zero_lt_of_lt hlba
    obtain ⟨order, horder⟩ := exists_mem_orders registers hlba
    obtain ⟨order', horder'⟩ := exists_mem_orders registers hzero
    have hshared : order.address = order'.address :=
      (address_of_mem_orders horder).2.trans (address_of_mem_orders horder').2.symm
    cases h _ _ order horder order' horder' hshared
  · intro hcapacity request request' order horder order' horder' hshared
    rw [← (forall_address_eq_iff drive registers).mpr hcapacity request order horder, hshared,
      (forall_address_eq_iff drive registers).mpr hcapacity request' order' horder']

/-- **Which drives are asked for the sectors that are meant.** The capacity is what a drive has
reported when it was identified, and stays that during any requests. A request for a sector below
the capacity comes to the drive as a command with the lower 28 bits of the number, and any other
request is kept from the drive. So every sector is asked for by its own number, and no two sectors
share one, exactly if the drive reported no more sectors than 28 bits can number. -/
theorem addresses_requested_iff (drive : AtaDrive β) (requests : List DiskRequest)
    (registers : AtaRegister → UInt8) :
    let served := (DiskRequest.serveAll requests (identify drive).2).2
    (served.capacity = 0 ∨ ∃ before words,
        (AtaM.readWords AtaM.sectorWords).run.run before = (.ok words, (identify drive).2.bus)
          ∧ served.capacity = AtaM.reportedCapacity words)
      ∧ (∀ request : DiskRequest,
        (request.serve served.recorded).1 = (request.serve served).1
          ∧ (request.lba < served.capacity → ∃ order flushes,
            request.orders registers served = order :: flushes
              ∧ order.code = request.command.code
              ∧ (∀ flush ∈ flushes, flush.code = AtaCommand.flushCache.code)
              ∧ ∀ given ∈ order :: flushes, given.Names (request.lba % 0x10000000))
          ∧ (served.capacity ≤ request.lba → request.orders registers served = []))
      ∧ ((∀ request : DiskRequest, ∀ order ∈ request.orders registers served,
          order.address = request.lba) ↔ served.capacity ≤ 0x10000000)
      ∧ ((∀ request request' : DiskRequest, ∀ order ∈ request.orders registers served,
          ∀ order' ∈ request'.orders registers served, order.address = order'.address →
            request.lba = request'.lba) ↔ served.capacity ≤ 0x10000000) := by
  intro served
  have hcapacity : served.capacity = (identify drive).2.capacity := capacity_serveAll ..
  refine ⟨?_, fun request => ⟨?_, fun hlt => ?_, fun hge => (orders_of_ge registers hge).2⟩,
    forall_address_eq_iff served registers, addresses_apart_iff served registers⟩
  · rw [hcapacity]
    exact capacity_identify drive
  · rcases Nat.lt_or_ge request.lba served.capacity with hlt | hge
    · exact (orders_of_lt registers hlt).1
    · exact (orders_of_ge registers hge).1
  · obtain ⟨-, flushes, horders, hflushes⟩ := orders_of_lt registers hlt
    refine ⟨_, flushes, horders, rfl, fun flush hflush => ?_, ?_⟩
    · rw [hflushes flush hflush]
    · refine List.forall_mem_cons.mpr ⟨AtaOrder.names_aimed .., fun flush hflush => ?_⟩
      rw [hflushes flush hflush]
      exact AtaOrder.names_aimed ..

/-- A drive that reports `2 ^ 29` sectors is asked for its first one by two numbers, and the one
that was not meant is fetched. -/
theorem addresses_shared :
    let words := List.replicate 60 0 ++ [0x0000, 0x2000] ++ List.replicate 194 0
    let bus : ScriptedBus := ⟨⟨[], 0x58, words⟩, .empty⟩
    let drive := (identify (unidentified bus)).2
    drive.capacity = 0x20000000
      ∧ ((DiskRequest.read 0x10000000).orders (fun _ => 0) drive).map AtaOrder.address = [0]
      ∧ ((DiskRequest.read 0).orders (fun _ => 0) drive).map AtaOrder.address = [0]
      ∧ (read 0x10000000 drive).1.isOk = true := by
  decide +kernel

end AtaDrive

end PocketKernel
