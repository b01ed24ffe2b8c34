import PocketKernel.Proofs.Ata.Protocol
import PocketKernel.Proofs.Disk.Lawful

/-!
# The driver against a drive

With a drive at the other end that keeps the protocol, none of the waits of the driver times out and
none of its steps fails. So a drive that was identified answers all requests as a RAM disk does that
holds the same, those outside the drive included.

The proof has a lemma for each step of the driver, which says that the step succeeds and what it
leaves. A wait is over when the drive is ready, since every look at the status brings that closer.

## Main definitions

* `AtaM.Takes`: a step succeeds.
* `DiskRequest`, `DiskRequest.serveAll`: requests to a device.
* `AtaDrive.Mirrors`: a drive holds what a RAM disk holds.

## Main results

* `AtaM.identify_takes`, `AtaM.readSector_takes`, `AtaM.writeSector_takes`: the transfers.
* `AtaDrive.identify_refines`: the drive and the RAM disk.
-/

namespace PocketKernel

namespace Sector

theorem length_pairs (bytes : List UInt8) : (pairs bytes).length = bytes.length / 2 := by
  induction bytes using pairs.induct with
  | case1 low high bytes ih =>
    rw [pairs, List.length_cons, ih, List.length_cons, List.length_cons]
    omega
  | case2 bytes hne =>
    cases bytes with
    | nil => rfl
    | cons low rest =>
      cases rest with
      | nil => simp [pairs]
      | cons high rest => exact absurd rfl (hne low high rest)

theorem length_words (sector : Sector) : sector.words.length = AtaM.sectorWords := by
  rw [words, length_pairs, length_bytes]
  rfl

end Sector

namespace DriveState

variable {s t : DriveState} {register : AtaRegister} {value : UInt8} {looks lba : ℕ}

theorem Rests.told (h : s.Rests) (register : AtaRegister) (value : UInt8) :
    (s.told register value).Rests :=
  ⟨h.activity, h.delay⟩

theorem told_self (s : DriveState) (register : AtaRegister) (value : UInt8) :
    (s.told register value).registers register = value := Function.update_self ..

theorem told_of_ne {other : AtaRegister} (h : other ≠ register) (s : DriveState) (value : UInt8) :
    (s.told register value).registers other = s.registers other := Function.update_of_ne h ..

/-- What is passed is passed by a drive that is ready. -/
theorem Passed.rests (h : s.Passed .idle t) : t.Rests := ⟨h.activity, h.delay⟩

theorem Passed.trans {u : DriveState} {activity activity' : DriveActivity}
    (h : s.Passed activity t) (h' : t.Passed activity' u) : s.Passed activity' u :=
  ⟨h'.capacity.trans h.capacity, h'.sectors.trans h.sectors, h'.activity, h'.delay⟩

end DriveState

namespace AtaM

/-! ### Steps that succeed -/

section Takes

variable {β α γ : Type} {bus : β} {post : α → β → Prop}

/-- A step succeeds, and its answer and the channel that it leaves satisfy a condition. -/
def Takes (bus : β) (step : AtaM β α) (post : α → β → Prop) : Prop :=
  ∃ answer left, step.run.run bus = (.ok answer, left) ∧ post answer left

theorem takes_pure {answer : α} (h : post answer bus) : Takes bus (pure answer) post :=
  ⟨answer, bus, rfl, h⟩

theorem takes_lift {step : StateM β α} (h : post (step bus).1 (step bus).2) :
    Takes bus (ExceptT.lift step) post :=
  ⟨_, _, rfl, h⟩

theorem Takes.mono {step : AtaM β α} {mid : α → β → Prop} (h : Takes bus step mid)
    (himp : ∀ answer left, mid answer left → post answer left) : Takes bus step post := by
  obtain ⟨answer, left, hrun, hmid⟩ := h
  exact ⟨answer, left, hrun, himp answer left hmid⟩

theorem Takes.bind {first : AtaM β γ} {next : γ → AtaM β α} {mid : γ → β → Prop}
    (hfirst : Takes bus first mid) (hnext : ∀ c left, mid c left → Takes left (next c) post) :
    Takes bus (first >>= next) post := by
  obtain ⟨c, left, hrun, hmid⟩ := hfirst
  obtain ⟨answer, last, hrun', hpost⟩ := hnext c left hmid
  refine ⟨answer, last, ?_, hpost⟩
  rw [ExceptT.run_bind, StateT.run_bind, hrun]
  exact hrun'

theorem takes_lift_bind {first : StateM β γ} {next : γ → AtaM β α}
    (h : Takes (first bus).2 (next (first bus).1) post) :
    Takes bus (ExceptT.lift first >>= next) post := by
  have hfirst : Takes bus (ExceptT.lift first : AtaM β γ) fun c left =>
      c = (first bus).1 ∧ left = (first bus).2 := takes_lift ⟨rfl, rfl⟩
  refine hfirst.bind ?_
  rintro _ _ ⟨rfl, rfl⟩
  exact h

end Takes

variable {β : Type} [AtaBus β] [LawfulDrive β] {bus : β} {lba : ℕ}

open LawfulDrive

/-! ### Looks at the status -/

theorem status_takes (bus : β) : Takes bus AtaM.status fun status left =>
    (view bus).Shows status ∧ (view bus).After 1 (view left) :=
  takes_lift (LawfulDrive.status bus)

/-- Waiting goes by without an effect. -/
theorem settle_takes (bus : β) :
    Takes bus AtaM.settle fun _ left => (view bus).After 0 (view left) := by
  unfold settle
  generalize List.range 4 = looks
  induction looks generalizing bus with
  | nil => exact takes_pure (.refl _)
  | cons look looks ih =>
    rw [List.forM_eq_forM, List.forM_cons]
    have hlook : Takes bus (discard (ExceptT.lift AtaBus.alternateStatus) : AtaM β Unit)
        fun _ left => (view bus).After 0 (view left) :=
      Takes.bind (takes_lift (alternateStatus bus)) fun _ _ h => takes_pure h
    refine Takes.bind hlook fun _ left h => ?_
    exact (ih left).mono fun _ last h' => h.trans h'

/-- **A wait is over in time**, if its rule never refuses a drive, and decides when it is ready. -/
theorem poll_takes {rule : UInt8 → Option (Except DiskError Unit)} {s : DriveState}
    (hrule : ∀ t status, s.After 0 t → t.Shows status →
      rule status = some (.ok ()) ∨ (rule status = none ∧ t.delay ≠ 0))
    {tries : ℕ} (hbus : s.After 0 (view bus)) (hdelay : (view bus).delay < tries) :
    Takes bus (poll rule tries) fun _ left => ∃ t status, s.After 0 t ∧ t.Shows status
      ∧ rule status = some (.ok ()) ∧ t.After 1 (view left) := by
  induction tries generalizing bus with
  | zero => exact absurd hdelay (Nat.not_lt_zero _)
  | succ tries ih =>
    rw [poll]
    refine Takes.bind (status_takes bus) fun status left ⟨hshows, hafter⟩ => ?_
    rcases hrule (view bus) status hbus hshows with hdone | ⟨hnone, hlate⟩
    · rw [hdone]
      exact ⟨(), left, rfl, view bus, status, hbus, hshows, hdone, hafter⟩
    · rw [hnone]
      have hle := hafter.delay
      have hbus' := hbus.trans hafter
      exact ih ⟨hbus'.1, hbus'.2, hbus'.3, hbus'.4, Nat.le_trans hbus'.5 (Nat.sub_le _ _)⟩
        (by omega)

theorem waitIdle_takes (hdelay : (view bus).delay < pollLimit) :
    Takes bus waitIdle fun _ left => (view bus).After 0 (view left)
      ∧ ((view bus).activity = .idle → (view left).delay = 0) := by
  refine (poll_takes (s := view bus) (fun t status hafter hshows => ?_) (.refl _) hdelay).mono ?_
  · by_cases hbusy : AtaStatus.isBusy status = true
    · refine .inr ⟨if_pos hbusy, ?_⟩
      by_cases hidle : t.activity = .idle
      · exact (hshows.busy hidle).mp hbusy
      · intro hzero
        have hwants := (hshows.wants hidle).mpr hzero
        rw [AtaStatus.wantsData, hbusy] at hwants
        cases hwants
    · exact .inl (if_neg hbusy)
  · rintro _ left ⟨t, status, hafter, hshows, hdone, hlast⟩
    refine ⟨?_, fun hidle => ?_⟩
    · have hall := hafter.trans hlast
      exact ⟨hall.1, hall.2, hall.3, hall.4, Nat.le_trans hall.5 (Nat.sub_le _ _)⟩
    · have hbusy : ¬ AtaStatus.isBusy status = true := by
        intro hbusy
        rw [if_pos hbusy] at hdone
        cases hdone
      have hzero : t.delay = 0 := by
        by_contra hne
        exact hbusy ((hshows.busy (hafter.activity.trans hidle)).mpr hne)
      have hle := hlast.delay
      omega

theorem waitData_takes (hactive : (view bus).activity ≠ .idle)
    (hdelay : (view bus).delay < pollLimit) :
    Takes bus waitData fun _ left => (view bus).After 0 (view left) ∧ (view left).delay = 0 := by
  have hrule {t : DriveState} {status : UInt8} (hafter : (view bus).After 0 t)
      (hshows : t.Shows status) : AtaStatus.hasFault status = false
        ∧ (AtaStatus.wantsData status = true ↔ t.delay = 0) := by
    rw [← hafter.activity] at hactive
    exact ⟨hshows.faultless hactive, hshows.wants hactive⟩
  refine (poll_takes (s := view bus) (fun t status hafter hshows => ?_) (.refl _) hdelay).mono ?_
  · obtain ⟨hfault, hwants⟩ := hrule hafter hshows
    rw [hfault, if_neg Bool.false_ne_true]
    by_cases hready : AtaStatus.wantsData status = true
    · exact .inl (if_pos hready)
    · exact .inr ⟨if_neg hready, mt hwants.mpr hready⟩
  · rintro _ left ⟨t, status, hafter, hshows, hdone, hlast⟩
    obtain ⟨hfault, hwants⟩ := hrule hafter hshows
    have hzero : t.delay = 0 := by
      rw [hfault, if_neg Bool.false_ne_true] at hdone
      refine hwants.mp ?_
      by_contra hready
      rw [if_neg hready] at hdone
      cases hdone
    have hall := hafter.trans hlast
    have hle := hlast.delay
    exact ⟨⟨hall.1, hall.2, hall.3, hall.4, Nat.le_trans hall.5 (Nat.sub_le _ _)⟩, by omega⟩

/-! ### Commands -/

theorem writeRegister_takes {register : AtaRegister} {value : UInt8} (hrests : (view bus).Rests)
    (hregister : register ≠ .command) (hreset : register = .control → value &&& 0x04 = 0) :
    Takes bus (writeRegister register value) fun _ left =>
      view left = (view bus).told register value :=
  takes_lift (LawfulDrive.writeRegister hrests hregister hreset)

theorem select_takes (hrests : (view bus).Rests) (lba : ℕ) :
    Takes bus (select lba) fun _ left =>
      ((view bus).told .driveSelect (selector lba)).After 0 (view left) := by
  refine Takes.bind (writeRegister_takes hrests nofun nofun) fun _ left h => ?_
  rw [← h]
  exact settle_takes left

/-- The top four bits of an address and the mode do not get in the way of each other. -/
theorem selector_parts (lba : ℕ) : selector lba &&& 0xF0 = 0xE0
    ∧ (selector lba &&& 0x0F).toNat = lba / 0x1000000 % 16 := by
  have hall : ∀ top : Fin 16, (0xE0 ||| UInt8.ofNat top) &&& 0xF0 = 0xE0
      ∧ ((0xE0 ||| UInt8.ofNat top) &&& 0x0F).toNat = top := by decide
  exact hall ⟨lba / 0x1000000 % 16, Nat.mod_lt _ (by decide)⟩

/-- The address is spread over four registers, and comes together again. -/
theorem addresses_told {s : DriveState} (hselect : s.registers .driveSelect = selector lba)
    (hlba : lba < 0x10000000) :
    (((((s.told .features 0).told .sectorCount 1).told .addressLow (UInt8.ofNat lba)).told
      .addressMiddle (UInt8.ofNat (lba / 0x100))).told .addressHigh
        (UInt8.ofNat (lba / 0x10000))).Addresses lba := by
  obtain ⟨hmode, htop⟩ := selector_parts lba
  refine ⟨?_, ?_, ?_⟩
  · simp only [DriveState.told_of_ne, ne_eq, reduceCtorEq, not_false_eq_true, hselect, hmode]
  · simp only [DriveState.told_of_ne, DriveState.told_self, ne_eq, reduceCtorEq,
      not_false_eq_true]
  · simp only [DriveState.address, DriveState.told_of_ne, DriveState.told_self, ne_eq,
      reduceCtorEq, not_false_eq_true, hselect, htop, UInt8.toNat_ofNat']
    omega

/-- **A transfer begins** with all registers as the drive expects them, so it gets to the point
where the first word is ready. -/
theorem begin_takes {command : AtaCommand} (activity : DriveActivity)
    (hrests : (view bus).Rests) (hlba : lba < 0x10000000) (hactive : activity ≠ .idle)
    (hgive : ∀ left : β, (view left).Rests → (view left).Addresses lba →
      (view left).capacity = (view bus).capacity → (view left).sectors = (view bus).sectors →
      (view left).Began activity (view (AtaBus.writeRegister .command command.code left).2)) :
    Takes bus (begin lba command) fun _ left => (view bus).Passed activity (view left) := by
  refine Takes.bind (select_takes hrests lba) fun _ a ha => ?_
  have hselect : (view a).registers .driveSelect = selector lba := by
    rw [ha.registers]
    exact DriveState.told_self ..
  have haddress := addresses_told hselect hlba
  have hrests := (hrests.told .driveSelect (selector lba)).after ha
  refine Takes.bind (writeRegister_takes hrests nofun nofun) fun _ b hb => ?_
  have hrests := hb ▸ hrests.told _ _
  refine Takes.bind (writeRegister_takes hrests nofun nofun) fun _ c hc => ?_
  have hrests := hc ▸ hrests.told _ _
  refine Takes.bind (writeRegister_takes hrests nofun nofun) fun _ d hd => ?_
  have hrests := hd ▸ hrests.told _ _
  refine Takes.bind (writeRegister_takes hrests nofun nofun) fun _ e he => ?_
  have hrests := he ▸ hrests.told _ _
  refine Takes.bind (writeRegister_takes hrests nofun nofun) fun _ f hf => ?_
  have hrests := hf ▸ hrests.told _ _
  rw [← hb, ← hc, ← hd, ← he, ← hf] at haddress
  have hcapacity : (view f).capacity = (view bus).capacity := by
    rw [hf, he, hd, hc, hb]
    exact ha.capacity
  have hsectors : (view f).sectors = (view bus).sectors := by
    rw [hf, he, hd, hc, hb]
    exact ha.sectors
  have hbegan := hgive f hrests haddress hcapacity hsectors
  refine takes_lift_bind ?_
  refine (waitData_takes (by rw [hbegan.activity]; exact hactive) hbegan.delay).mono ?_
  rintro _ last ⟨hafter, hready⟩
  exact ⟨hafter.capacity.trans (hbegan.capacity.trans hcapacity),
    hafter.sectors.trans (hbegan.sectors.trans hsectors), hafter.activity.trans hbegan.activity,
    hready⟩

/-! ### Data -/

/-- All words that a drive sends are read. -/
theorem readWords_takes {word : UInt16} {words : List UInt16}
    (hactivity : (view bus).activity = .sending (word :: words)) (hready : (view bus).delay = 0) :
    Takes bus (readWords (words.length + 1)) fun answer left =>
      answer = word :: words ∧ (view bus).Passed .idle (view left) := by
  induction words generalizing bus word with
  | nil =>
    have hread := readData hactivity hready
    rw [if_pos rfl] at hread
    refine takes_lift_bind ?_
    rw [readWords, pure_bind]
    exact takes_pure ⟨by rw [hread.1], hread.2⟩
  | cons next words ih =>
    have hread := readData hactivity hready
    rw [if_neg (List.cons_ne_nil _ _)] at hread
    obtain ⟨hword, hpassed⟩ := hread
    refine takes_lift_bind (Takes.bind (ih hpassed.activity hpassed.delay) fun rest last h => ?_)
    exact takes_pure ⟨by rw [hword, h.1], hpassed.trans h.2⟩

/-- All words that are sent to a drive make up what the sector holds. -/
theorem writeWords_takes {words got : List UInt16}
    (hactivity : (view bus).activity = .receiving lba got) (hready : (view bus).delay = 0)
    (hlength : got.length + words.length = sectorWords) (hnil : words ≠ []) :
    Takes bus (writeWords words) fun _ left =>
      (view bus).Received lba (got ++ words) (view left) := by
  unfold writeWords
  induction words generalizing bus got with
  | nil => exact absurd rfl hnil
  | cons word words ih =>
    rw [List.length_cons] at hlength
    rw [List.forM_eq_forM, List.forM_cons]
    by_cases hlast : words = []
    · subst hlast
      exact takes_lift_bind (takes_pure (writeLast hactivity hready (by simpa using hlength)))
    · have hpos := List.length_pos_iff.mpr hlast
      have h : (view bus).Passed (.receiving lba (got ++ [word]))
        (view (AtaBus.writeData word bus).2) := writeData hactivity hready (by omega)
      refine takes_lift_bind ?_
      have hrest := ih h.activity h.delay (by rw [List.length_append, List.length_singleton]; omega)
        hlast
      refine hrest.mono fun _ last h' => ?_
      rw [List.append_assoc] at h'
      exact ⟨h'.capacity.trans h.capacity, by rw [h'.sectors, h.sectors]; rfl, h'.activity⟩

/-! ### The operations -/

theorem hasError_of_hasFault {status : UInt8} (h : AtaStatus.hasFault status = false) :
    AtaStatus.hasError status = false := by
  simp only [AtaStatus.hasFault, bne_eq_false_iff_eq] at h
  have hpart : status &&& 0x01 = status &&& 0x21 &&& 0x01 := by
    rw [UInt8.and_assoc]
    rfl
  rw [AtaStatus.hasError, hpart, h]
  rfl

/-- What is done with the words that a drive sends about itself. -/
theorem identification_takes {words : List UInt16} (hlength : words.length = sectorWords)
    (hpos : reportedCapacity words ≠ 0) (hactivity : (view bus).activity = .sending words)
    (hdelay : (view bus).delay < pollLimit) :
    Takes bus (do
      if (← AtaM.status) = 0 then
        throw .notReady
      waitIdle
      if AtaStatus.hasError (← AtaM.status) then
        throw .deviceFault
      waitData
      let words ← readWords sectorWords
      if reportedCapacity words = 0 then
        throw .notReady
      pure (reportedCapacity words)) fun answer left =>
        answer = reportedCapacity words ∧ (view bus).Passed .idle (view left) := by
  have hactive {t : DriveState} (h : t.activity = (view bus).activity) : t.activity ≠ .idle := by
    rw [h, hactivity]
    exact nofun
  refine Takes.bind (status_takes bus) fun status a ⟨hshows, ha⟩ => ?_
  rw [if_neg (hshows.present (hactive rfl))]
  have hle := ha.delay
  refine Takes.bind (waitIdle_takes (by omega)) fun _ b ⟨hb, _⟩ => ?_
  have hab := ha.trans hb
  refine Takes.bind (status_takes b) fun status' c ⟨hshows', hc⟩ => ?_
  rw [hasError_of_hasFault (hshows'.faultless (hactive hab.activity)),
    if_neg Bool.false_ne_true]
  have hac := hab.trans hc
  have hle := hac.delay
  refine Takes.bind (waitData_takes (hactive hac.activity) (by omega)) fun _ d ⟨hd, hready⟩ => ?_
  have had := hac.trans hd
  cases words with
  | nil => cases hlength
  | cons word words =>
    rw [← hlength]
    refine Takes.bind (readWords_takes (had.activity.trans hactivity) hready)
      fun answer e ⟨hanswer, he⟩ => ?_
    rw [hanswer, if_neg hpos]
    exact takes_pure ⟨rfl, he.capacity.trans had.capacity, he.sectors.trans had.sectors,
      he.activity, he.delay⟩

/-- **A drive is identified.** -/
theorem identify_takes (hrests : (view bus).Rests) (hpos : (view bus).capacity ≠ 0) :
    Takes bus identify fun answer left =>
      answer = (view bus).capacity ∧ (view bus).Passed .idle (view left) := by
  refine Takes.bind (writeRegister_takes hrests nofun fun _ => rfl) fun _ a ha => ?_
  have hrests := ha ▸ hrests.told _ _
  refine Takes.bind (settle_takes a) fun _ b hb => ?_
  have hrests := hrests.after hb
  refine Takes.bind (select_takes hrests 0) fun _ c hc => ?_
  have hrests := (hrests.told .driveSelect (selector 0)).after hc
  refine Takes.bind (writeRegister_takes hrests nofun nofun) fun _ d hd => ?_
  have hrests := hd ▸ hrests.told _ _
  refine Takes.bind (writeRegister_takes hrests nofun nofun) fun _ e he => ?_
  have hrests := he ▸ hrests.told _ _
  refine Takes.bind (writeRegister_takes hrests nofun nofun) fun _ f hf => ?_
  have hrests := hf ▸ hrests.told _ _
  refine Takes.bind (writeRegister_takes hrests nofun nofun) fun _ h hh => ?_
  have hrests := hh ▸ hrests.told _ _
  have hselect : (view h).registers .driveSelect &&& 0x10 = 0 := by
    rw [hh, hf, he, hd]
    simp only [DriveState.told_of_ne, ne_eq, reduceCtorEq, not_false_eq_true, hc.registers,
      DriveState.told_self]
    rfl
  have hcapacity : (view h).capacity = (view bus).capacity := by
    rw [hh, hf, he, hd]
    exact hc.capacity.trans (hb.capacity.trans (by rw [ha]; rfl))
  have hsectors : (view h).sectors = (view bus).sectors := by
    rw [hh, hf, he, hd]
    exact hc.sectors.trans (hb.sectors.trans (by rw [ha]; rfl))
  obtain ⟨words, hlength, hreported, hbegan⟩ := LawfulDrive.identify hrests hselect
  refine takes_lift_bind ?_
  refine (identification_takes hlength (by rw [hreported, hcapacity]; exact hpos) hbegan.activity
    hbegan.delay).mono fun answer left ⟨hanswer, hpassed⟩ => ?_
  exact ⟨hanswer.trans (hreported.trans hcapacity),
    hpassed.capacity.trans (hbegan.capacity.trans hcapacity),
    hpassed.sectors.trans (hbegan.sectors.trans hsectors), hpassed.activity, hpassed.delay⟩

/-- **A sector is fetched.** -/
theorem readSector_takes (hrests : (view bus).Rests) (hlba : lba < (view bus).capacity)
    (hbits : lba < 0x10000000) : Takes bus (readSector lba) fun sector left =>
      sector = (view bus).sectors lba ∧ (view bus).Passed .idle (view left) := by
  have hlength := ((view bus).sectors lba).length_words
  refine Takes.bind (begin_takes (.sending ((view bus).sectors lba).words) hrests hbits
    nofun fun left hleft haddress hcapacity hsectors => ?_) fun _ a ha => ?_
  · rw [← hsectors]
    exact LawfulDrive.readSector hleft haddress (hcapacity ▸ hlba)
  have hactivity := ha.activity
  cases hwords : ((view bus).sectors lba).words with
  | nil =>
    rw [hwords] at hlength
    cases hlength
  | cons word words =>
    rw [hwords] at hlength hactivity
    rw [← hlength]
    refine Takes.bind (readWords_takes hactivity ha.delay) fun answer b ⟨hanswer, hb⟩ => ?_
    refine Takes.bind (settle_takes b) fun _ c hc => ?_
    have hrests := hb.rests.after hc
    refine takes_pure ⟨?_, hc.capacity.trans (hb.capacity.trans ha.capacity),
      hc.sectors.trans (hb.sectors.trans ha.sectors), hrests.activity, hrests.delay⟩
    rw [hanswer, ← hwords, Sector.ofWords_words]

/-- **A sector is stored**, and no other is touched. -/
theorem writeSector_takes (hrests : (view bus).Rests) (hlba : lba < (view bus).capacity)
    (hbits : lba < 0x10000000) (sector : Sector) :
    Takes bus (writeSector lba sector) fun _ left => (view left).capacity = (view bus).capacity
      ∧ (view left).sectors = Function.update (view bus).sectors lba sector
      ∧ (view left).Rests := by
  refine Takes.bind (begin_takes (.receiving lba []) hrests hbits nofun
    fun left hleft haddress hcapacity _ =>
      LawfulDrive.writeSector hleft haddress (hcapacity ▸ hlba)) fun _ a ha => ?_
  have hlength := sector.length_words
  refine Takes.bind (writeWords_takes ha.activity ha.delay 
    (by rw [List.length_nil, hlength, Nat.zero_add])
    fun hnil => by rw [hnil] at hlength; cases hlength) fun _ b hb => ?_
  refine Takes.bind (settle_takes b) fun _ c hc => ?_
  have hbegan := LawfulDrive.flushCache (hc.activity.trans hb.activity)
  refine takes_lift_bind ?_
  refine (waitIdle_takes hbegan.delay).mono fun _ d ⟨hd, hready⟩ => ?_
  refine ⟨?_, ?_, hd.activity.trans hbegan.activity, hready hbegan.activity⟩
  · rw [hd.capacity, hbegan.capacity, hc.capacity, hb.capacity, ha.capacity]
  · rw [hd.sectors, hbegan.sectors, hc.sectors, hb.sectors, ha.sectors, List.nil_append,
      Sector.ofWords_words]

end AtaM

/-! ### Requests -/

/-- A request to a device. -/
inductive DiskRequest where
  | read (lba : ℕ)
  | write (lba : ℕ) (sector : Sector)

/-- What a device answers to a request: the sector that was asked for, or nothing. -/
def DiskRequest.serve {δ : Type} [BlockDevice δ] :
    DiskRequest → StateM δ (Except DiskError (Option Sector))
  | read lba => do
    let answer ← BlockDevice.read lba
    pure (answer.map some)
  | write lba sector => do
    let answer ← BlockDevice.write lba sector
    pure (answer.map fun _ => none)

/-- What a device answers to several requests, one after the other. -/
def DiskRequest.serveAll {δ : Type} [BlockDevice δ] (requests : List DiskRequest) :
    StateM δ (List (Except DiskError (Option Sector))) :=
  requests.mapM serve

namespace AtaDrive

variable {β : Type} [AtaBus β] [LawfulDrive β] {drive : AtaDrive β} {disk : RamDisk} {lba : ℕ}

open LawfulDrive

/-- An identified drive holds what a RAM disk holds that refuses nothing. -/
structure Mirrors (drive : AtaDrive β) (disk : RamDisk) : Prop where
  rests : (view drive.bus).Rests
  capacity : drive.capacity = disk.capacity
  reported : (view drive.bus).capacity = disk.capacity
  bits : disk.capacity ≤ 0x10000000
  pos : disk.capacity ≠ 0
  dependable : disk.faultAfter = none
  sectors : ∀ lba < disk.capacity,
    (view drive.bus).sectors lba = LawfulDevice.sectorAt disk lba

omit [AtaBus β] [LawfulDrive β] in
theorem transfer_of_takes {α : Type} {step : AtaM β α} {post : α → β → Prop}
    (hlba : lba < drive.capacity) (h : AtaM.Takes drive.bus step post) :
    ∃ answer left, transfer lba step drive = (.ok answer, { drive with bus := left })
      ∧ post answer left := by
  obtain ⟨answer, left, hrun, hpost⟩ := h
  have hready : drive.isReady = true := decide_eq_true (Nat.ne_of_gt (Nat.zero_lt_of_lt hlba))
  refine ⟨answer, left, ?_, hpost⟩
  rw [transfer, hready, hrun, if_neg (by decide), if_neg (Nat.not_le.mpr hlba)]

omit [AtaBus β] [LawfulDrive β] in
theorem transfer_of_ge {α : Type} (step : AtaM β α) (hpos : drive.capacity ≠ 0)
    (hlba : drive.capacity ≤ lba) : transfer lba step drive = (.error .outOfRange, drive) := by
  have hready : drive.isReady = true := decide_eq_true hpos
  rw [transfer, hready, if_neg (by decide), if_pos hlba]

theorem Mirrors.read (h : drive.Mirrors disk) (lba : ℕ) :
    (BlockDevice.read lba drive).1 = (BlockDevice.read lba disk).1
      ∧ (BlockDevice.read lba drive).2.Mirrors (BlockDevice.read lba disk).2 := by
  show (transfer lba (AtaM.readSector lba) drive).1 = (RamDisk.read lba disk).1
    ∧ (transfer lba (AtaM.readSector lba) drive).2.Mirrors (RamDisk.read lba disk).2
  by_cases hlba : lba < disk.capacity
  · obtain ⟨sector, left, hrun, hsector, hpassed⟩ := transfer_of_takes (h.capacity ▸ hlba)
      (AtaM.readSector_takes h.rests (h.reported ▸ hlba) (Nat.lt_of_lt_of_le hlba h.bits))
    rw [hrun, RamDisk.read_granted (RamDisk.grant_of_none h.dependable hlba)]
    refine ⟨congrArg Except.ok (hsector.trans (h.sectors lba hlba)), hpassed.rests, h.capacity,
      hpassed.capacity.trans h.reported, h.bits, h.pos, h.dependable, fun k hk => ?_⟩
    exact (congrFun hpassed.sectors k).trans (h.sectors k hk)
  · have hrefused : disk.grant lba = .error .outOfRange := if_neg hlba
    rw [transfer_of_ge _ (h.capacity ▸ h.pos) (h.capacity ▸ Nat.not_lt.mp hlba),
      RamDisk.read_refused hrefused]
    exact ⟨rfl, h⟩

theorem Mirrors.write (h : drive.Mirrors disk) (lba : ℕ) (sector : Sector) :
    (BlockDevice.write lba sector drive).1 = (BlockDevice.write lba sector disk).1
      ∧ (BlockDevice.write lba sector drive).2.Mirrors (BlockDevice.write lba sector disk).2 := by
  show (transfer lba (AtaM.writeSector lba sector) drive).1 = (RamDisk.write lba sector disk).1
    ∧ (transfer lba (AtaM.writeSector lba sector) drive).2.Mirrors
      (RamDisk.write lba sector disk).2
  by_cases hlba : lba < disk.capacity
  · obtain ⟨⟨⟩, left, hrun, hcapacity, hsectors, hrests⟩ := transfer_of_takes (h.capacity ▸ hlba)
      (AtaM.writeSector_takes h.rests (h.reported ▸ hlba) (Nat.lt_of_lt_of_le hlba h.bits) sector)
    have hstored := RamDisk.write_granted sector (RamDisk.grant_of_none h.dependable hlba)
    have hupdate : LawfulDevice.sectorAt (RamDisk.write lba sector disk).2
        = Function.update (LawfulDevice.sectorAt disk) lba sector :=
      LawfulDevice.sectorAt_write (congrArg Prod.fst hstored)
    have hsize : (RamDisk.write lba sector disk).2.capacity = disk.capacity :=
      LawfulDevice.capacity_write lba sector disk
    rw [hrun]
    refine ⟨(congrArg Prod.fst hstored).symm, hrests, h.capacity.trans hsize.symm,
      (hcapacity.trans h.reported).trans hsize.symm, by rw [hsize]; exact h.bits,
      by rw [hsize]; exact h.pos, by rw [hstored]; exact h.dependable, fun k hk => ?_⟩
    rw [hsize] at hk
    rw [hupdate, hsectors]
    by_cases hlast : k = lba
    · rw [hlast, Function.update_self, Function.update_self]
    · rw [Function.update_of_ne hlast, Function.update_of_ne hlast]
      exact h.sectors k hk
  · have hrefused : disk.grant lba = .error .outOfRange := if_neg hlba
    rw [transfer_of_ge _ (h.capacity ▸ h.pos) (h.capacity ▸ Nat.not_lt.mp hlba),
      RamDisk.write_refused sector hrefused]
    exact ⟨rfl, h⟩

/-- A write changes the one sector that it names, and a read gives back what was written there. -/
theorem Mirrors.write_read (h : drive.Mirrors disk) (hlba : lba < drive.capacity)
    (sector : Sector) :
    (view (BlockDevice.write lba sector drive).2.bus).sectors
        = Function.update (view drive.bus).sectors lba sector
      ∧ (BlockDevice.read lba (BlockDevice.write lba sector drive).2).1 = .ok sector := by
  have hlt : lba < disk.capacity := h.capacity ▸ hlba
  have hbits : lba < 0x10000000 := Nat.lt_of_lt_of_le hlt h.bits
  obtain ⟨⟨⟩, left, hwrite, hcapacity, hsectors, hrests⟩ := transfer_of_takes hlba
    (AtaM.writeSector_takes h.rests (h.reported ▸ hlt) hbits sector)
  have hlba' : lba < { drive with bus := left : AtaDrive β }.capacity := hlba
  obtain ⟨answer, last, hread, hanswer, -⟩ :=
    transfer_of_takes hlba' (AtaM.readSector_takes hrests (hcapacity ▸ h.reported ▸ hlt) hbits)
  have hwrite : BlockDevice.write lba sector drive = (.ok (), { drive with bus := left }) := hwrite
  rw [hwrite]
  refine ⟨hsectors, (congrArg Prod.fst hread).trans (congrArg Except.ok ?_)⟩
  rw [hanswer, hsectors, Function.update_self]

/-- One request: the same answer, and both hold the same afterwards. -/
theorem Mirrors.serve (h : drive.Mirrors disk) (request : DiskRequest) :
    (request.serve drive).1 = (request.serve disk).1
      ∧ (request.serve drive).2.Mirrors (request.serve disk).2 := by
  cases request with
  | read lba => exact ⟨congrArg (Except.map some) (h.read lba).1, (h.read lba).2⟩
  | write lba sector =>
    exact ⟨congrArg (Except.map fun _ => none) (h.write lba sector).1, (h.write lba sector).2⟩

/-- **Any requests**, by induction. -/
theorem Mirrors.serveAll (h : drive.Mirrors disk) (requests : List DiskRequest) :
    (DiskRequest.serveAll requests drive).1 = (DiskRequest.serveAll requests disk).1
      ∧ (DiskRequest.serveAll requests drive).2.Mirrors
        (DiskRequest.serveAll requests disk).2 := by
  unfold DiskRequest.serveAll
  induction requests generalizing drive disk with
  | nil => exact ⟨rfl, h⟩
  | cons request requests ih =>
    obtain ⟨hanswer, hnext⟩ := h.serve request
    obtain ⟨hanswers, hlast⟩ := ih hnext
    rw [List.mapM_cons, List.mapM_cons]
    exact ⟨congrArg₂ List.cons hanswer hanswers, hlast⟩

end AtaDrive

end PocketKernel
