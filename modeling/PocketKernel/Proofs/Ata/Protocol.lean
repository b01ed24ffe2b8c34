import Mathlib.Data.Nat.Notation
import Mathlib.Logic.Function.Basic
import PocketKernel.Ata.Drive

/-!
# Drives that keep the protocol

`AtaBus` says how a channel is worked, and nothing of what is at its other end. A lawful drive can
be looked at from outside: what its sectors hold, what was written to its registers, what it is
doing, and how many more looks at its status it takes before it is ready. The laws say what it makes
of a command, of the words that pass and of the time that goes by.

They ask for no more than the protocol does. A command and its parameters are heeded by a drive that
rests, and only if the parameters name a sector of this drive in the right mode; what becomes of the
registers during a command is left open, and so are the status of a drive that is not ready yet,
except that it shows no error, and how long the drive takes to store what it was sent. The cache can
be flushed while it still does.

## Main definitions

* `DriveState`: what is seen of a drive.
* `LawfulDrive`: the laws.
* `PlainDrive`: a drive that keeps them.
-/

namespace PocketKernel

/-- What a drive is doing. -/
inductive DriveActivity where
  /-- It has done what it was told; it may be busy with storing. -/
  | idle
  /-- It sends these words. -/
  | sending (words : List UInt16)
  /-- It has received these words of what is to be stored in a sector. -/
  | receiving (lba : ℕ) (words : List UInt16)

/-- What is seen of a drive from outside. -/
structure DriveState where
  /-- How many sectors there are. -/
  capacity : ℕ
  sectors : ℕ → Sector
  /-- What was last written to the registers. -/
  registers : AtaRegister → UInt8
  activity : DriveActivity
  /-- How many more looks at the status will find that the drive is not ready. -/
  delay : ℕ

namespace DriveState

/-- Nothing is under way. -/
structure Rests (s : DriveState) : Prop where
  activity : s.activity = .idle
  delay : s.delay = 0

/-- The 28 bits of an address, as they stand in the registers. -/
def address (s : DriveState) : ℕ :=
  (s.registers .addressLow).toNat + 0x100 * (s.registers .addressMiddle).toNat
    + 0x10000 * (s.registers .addressHigh).toNat
    + 0x1000000 * (s.registers .driveSelect &&& 0x0F).toNat

/-- The registers name one sector of the first drive, by its address. -/
structure Addresses (s : DriveState) (lba : ℕ) : Prop where
  mode : s.registers .driveSelect &&& 0xF0 = 0xE0
  count : s.registers .sectorCount = 1
  address : s.address = lba

/-- A register was written. -/
def told (s : DriveState) (register : AtaRegister) (value : UInt8) : DriveState :=
  { s with registers := Function.update s.registers register value }

/-- What the status may be. An idle drive is busy until it is ready; one that has words to pass
tells when it is ready for that, and of no error before. -/
structure Shows (s : DriveState) (status : UInt8) : Prop where
  busy : s.activity = .idle → (AtaStatus.isBusy status = true ↔ s.delay ≠ 0)
  wants : s.activity ≠ .idle → (AtaStatus.wantsData status = true ↔ s.delay = 0)
  faultless : s.activity ≠ .idle → AtaStatus.hasFault status = false
  present : s.activity ≠ .idle → status ≠ 0

/-- Some looks later, a drive is the same but closer to being ready. -/
structure After (looks : ℕ) (s t : DriveState) : Prop where
  capacity : t.capacity = s.capacity
  sectors : t.sectors = s.sectors
  registers : t.registers = s.registers
  activity : t.activity = s.activity
  delay : t.delay ≤ s.delay - looks

/-- A command was heeded; it will be ready in time. -/
structure Began (activity : DriveActivity) (s t : DriveState) : Prop where
  capacity : t.capacity = s.capacity
  sectors : t.sectors = s.sectors
  activity : t.activity = activity
  delay : t.delay < AtaM.pollLimit

/-- A word was passed, and what comes next is ready. -/
structure Passed (activity : DriveActivity) (s t : DriveState) : Prop where
  capacity : t.capacity = s.capacity
  sectors : t.sectors = s.sectors
  activity : t.activity = activity
  delay : t.delay = 0

/-- All words were received, and are what a sector holds now. -/
structure Received (lba : ℕ) (words : List UInt16) (s t : DriveState) : Prop where
  capacity : t.capacity = s.capacity
  sectors : t.sectors = Function.update s.sectors lba (.ofWords words)
  activity : t.activity = .idle

theorem After.refl (s : DriveState) : s.After 0 s := ⟨rfl, rfl, rfl, rfl, Nat.le_refl _⟩

theorem After.trans {s t u : DriveState} {j k : ℕ} (h : s.After j t) (h' : t.After k u) :
    s.After (j + k) u := by
  have hle := h.delay
  have hle' := h'.delay
  exact ⟨h'.capacity.trans h.capacity, h'.sectors.trans h.sectors, h'.registers.trans h.registers,
    h'.activity.trans h.activity, by omega⟩

/-- A drive that rests goes on resting. -/
theorem Rests.after {s t : DriveState} {looks : ℕ} (hs : s.Rests) (h : s.After looks t) :
    t.Rests := by
  have hle := h.delay
  rw [hs.delay] at hle
  exact ⟨h.activity.trans hs.activity, by omega⟩

end DriveState

/-- **A drive that keeps the protocol.** -/
class LawfulDrive (β : Type) [AtaBus β] where
  /-- What is seen of the drive from outside. -/
  view : β → DriveState
  status (bus : β) : (view bus).Shows (AtaBus.status bus).1
    ∧ (view bus).After 1 (view (AtaBus.status bus).2)
  alternateStatus (bus : β) : (view bus).After 0 (view (AtaBus.alternateStatus bus).2)
  /-- A parameter is kept. The drive is not to be reset. -/
  writeRegister {register : AtaRegister} {value : UInt8} {bus : β} : (view bus).Rests →
    register ≠ .command → (register = .control → value &&& 0x04 = 0) →
    view (AtaBus.writeRegister register value bus).2 = (view bus).told register value
  /-- The drive that is selected tells about itself, and reports how many sectors it has. -/
  identify {bus : β} : (view bus).Rests → (view bus).registers .driveSelect &&& 0x10 = 0 →
    ∃ words, words.length = AtaM.sectorWords ∧ AtaM.reportedCapacity words = (view bus).capacity
      ∧ (view bus).Began (.sending words)
        (view (AtaBus.writeRegister .command AtaCommand.identify.code bus).2)
  readSector {lba : ℕ} {bus : β} : (view bus).Rests → (view bus).Addresses lba →
    lba < (view bus).capacity → (view bus).Began (.sending ((view bus).sectors lba).words)
      (view (AtaBus.writeRegister .command AtaCommand.readSector.code bus).2)
  writeSector {lba : ℕ} {bus : β} : (view bus).Rests → (view bus).Addresses lba →
    lba < (view bus).capacity → (view bus).Began (.receiving lba [])
      (view (AtaBus.writeRegister .command AtaCommand.writeSector.code bus).2)
  flushCache {bus : β} : (view bus).activity = .idle → (view bus).Began .idle
    (view (AtaBus.writeRegister .command AtaCommand.flushCache.code bus).2)
  readData {word : UInt16} {words : List UInt16} {bus : β} :
    (view bus).activity = .sending (word :: words) → (view bus).delay = 0 →
    (AtaBus.readData bus).1 = word
      ∧ (view bus).Passed (if words = [] then .idle else .sending words)
        (view (AtaBus.readData bus).2)
  writeData {word : UInt16} {lba : ℕ} {words : List UInt16} {bus : β} :
    (view bus).activity = .receiving lba words → (view bus).delay = 0 →
    words.length + 1 < AtaM.sectorWords →
    (view bus).Passed (.receiving lba (words ++ [word])) (view (AtaBus.writeData word bus).2)
  writeLast {word : UInt16} {lba : ℕ} {words : List UInt16} {bus : β} :
    (view bus).activity = .receiving lba words → (view bus).delay = 0 →
    words.length + 1 = AtaM.sectorWords →
    (view bus).Received lba (words ++ [word]) (view (AtaBus.writeData word bus).2)

/-! ### A plain drive -/

/-- A drive that is busy for two looks after every command and after every sector it received. -/
structure PlainDrive where
  size : UInt32
  sectors : ℕ → Sector
  registers : AtaRegister → UInt8
  activity : DriveActivity
  delay : ℕ

namespace PlainDrive

/-- What is seen of a plain drive. -/
def view (drive : PlainDrive) : DriveState :=
  ⟨drive.size.toNat, drive.sectors, drive.registers, drive.activity, drive.delay⟩

/-- A plain drive that has just been switched on. -/
def resting (size : UInt32) (sectors : ℕ → Sector) : PlainDrive :=
  ⟨size, sectors, fun _ => 0, .idle, 0⟩

/-- What a plain drive tells about itself. -/
def identification (drive : PlainDrive) : List UInt16 :=
  List.replicate 60 0 ++ [UInt16.ofNat drive.size.toNat, UInt16.ofNat (drive.size.toNat / 0x10000)]
    ++ List.replicate 194 0

/-- The status of a plain drive: busy, or ready, or ready and waiting for data. -/
def flags (drive : PlainDrive) : UInt8 :=
  if drive.delay ≠ 0 then 0xD0
  else match drive.activity with
    | .idle => 0x50
    | _ => 0x58

/-- What a plain drive does when it is told to. -/
def obey (drive : PlainDrive) (code : UInt8) : PlainDrive :=
  { drive with
    delay := 2
    activity :=
      if code = AtaCommand.identify.code then .sending drive.identification
      else if code = AtaCommand.readSector.code then
        .sending (drive.sectors drive.view.address).words
      else if code = AtaCommand.writeSector.code then .receiving drive.view.address []
      else .idle }

/-- The next word that a plain drive sends. -/
def send : StateM PlainDrive UInt16 := fun drive =>
  match drive.activity with
  | .sending (word :: words) =>
    (word, { drive with activity := if words = [] then .idle else .sending words })
  | _ => (0, drive)

/-- A plain drive receives a word. -/
def receive (word : UInt16) : StateM PlainDrive Unit := fun drive =>
  match drive.activity with
  | .receiving lba words =>
    if words.length + 1 < AtaM.sectorWords then
      ((), { drive with activity := .receiving lba (words ++ [word]) })
    else
      ((), { drive with
        sectors := Function.update drive.sectors lba (.ofWords (words ++ [word]))
        activity := .idle
        delay := 2 })
  | _ => ((), drive)

instance : AtaBus PlainDrive where
  status drive := (drive.flags, { drive with delay := drive.delay - 1 })
  alternateStatus drive := (drive.flags, drive)
  readData := send
  writeData := receive
  writeRegister register value drive :=
    if register = .command then ((), drive.obey value)
    else ((), { drive with registers := Function.update drive.registers register value })

theorem shows_flags (drive : PlainDrive) : drive.view.Shows drive.flags := by
  unfold flags
  by_cases hdelay : drive.delay = 0
  · rw [if_neg (not_not_intro hdelay)]
    cases hactivity : drive.activity with
    | idle =>
      have hidle : drive.view.activity = .idle := hactivity
      exact ⟨fun _ => iff_of_false (by decide) (not_not_intro hdelay),
        fun h => absurd hidle h, fun h => absurd hidle h, fun h => absurd hidle h⟩
    | _ =>
      have hactive : drive.view.activity ≠ .idle := by
        show drive.activity ≠ .idle
        rw [hactivity]
        exact nofun
      dsimp only
      exact ⟨fun h => absurd h hactive, fun _ => iff_of_true (by decide) hdelay,
        fun _ => by decide, fun _ => by decide⟩
  · rw [if_pos hdelay]
    exact ⟨fun _ => iff_of_true (by decide) hdelay, fun _ => iff_of_false (by decide) hdelay,
      fun _ => by decide, fun _ => by decide⟩

theorem length_identification (drive : PlainDrive) :
    drive.identification.length = AtaM.sectorWords := by
  rw [identification, List.length_append, List.length_append, List.length_replicate,
    List.length_replicate]
  rfl

theorem reportedCapacity_identification (drive : PlainDrive) :
    AtaM.reportedCapacity drive.identification = drive.size.toNat := by
  have hlow : drive.identification.getD 60 0 = UInt16.ofNat drive.size.toNat := rfl
  have hhigh : drive.identification.getD 61 0 = UInt16.ofNat (drive.size.toNat / 0x10000) := rfl
  have hlt := drive.size.toNat_lt
  rw [AtaM.reportedCapacity, hlow, hhigh, UInt16.toNat_ofNat', UInt16.toNat_ofNat']
  omega

theorem began_obey (drive : PlainDrive) (code : UInt8) :
    drive.view.Began (drive.obey code).activity (drive.obey code).view := by
  refine ⟨rfl, rfl, rfl, ?_⟩
  show 2 < AtaM.pollLimit
  decide

instance : LawfulDrive PlainDrive where
  view := view
  status drive := ⟨drive.shows_flags, rfl, rfl, rfl, rfl, Nat.le_refl _⟩
  alternateStatus drive := .refl _
  writeRegister {register value drive} _ hregister _ := by
    show (ite (register = .command) ((), drive.obey value) _ : Unit × PlainDrive).2.view = _
    rw [if_neg hregister]
    rfl
  identify {drive} _ _ := ⟨drive.identification, drive.length_identification,
    drive.reportedCapacity_identification, drive.began_obey AtaCommand.identify.code⟩
  readSector {lba drive} _ haddress _ := by
    have hbegan := drive.began_obey AtaCommand.readSector.code
    rwa [show (drive.obey AtaCommand.readSector.code).activity
      = .sending (drive.sectors drive.view.address).words from rfl, haddress.address] at hbegan
  writeSector {lba drive} _ haddress _ := by
    have hbegan := drive.began_obey AtaCommand.writeSector.code
    rwa [show (drive.obey AtaCommand.writeSector.code).activity
      = .receiving drive.view.address [] from rfl, haddress.address] at hbegan
  flushCache {drive} _ := drive.began_obey AtaCommand.flushCache.code
  readData {word words drive} hactivity hdelay := by
    have hactivity : drive.activity = .sending (word :: words) := hactivity
    show (send drive).1 = word ∧ drive.view.Passed _ (send drive).2.view
    rw [send, hactivity]
    exact ⟨rfl, rfl, rfl, rfl, hdelay⟩
  writeData {word lba words drive} hactivity hdelay hlength := by
    have hactivity : drive.activity = .receiving lba words := hactivity
    show drive.view.Passed _ (receive word drive).2.view
    simp only [receive, hactivity, if_pos hlength]
    exact ⟨rfl, rfl, rfl, hdelay⟩
  writeLast {word lba words drive} hactivity _ hlength := by
    have hactivity : drive.activity = .receiving lba words := hactivity
    show drive.view.Received lba _ (receive word drive).2.view
    simp only [receive, hactivity, if_neg (Nat.not_lt.mpr (Nat.le_of_eq hlength.symm))]
    exact ⟨rfl, rfl, rfl⟩

end PlainDrive

end PocketKernel
