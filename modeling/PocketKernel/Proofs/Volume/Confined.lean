import PocketKernel.Proofs.Disk.Traced
import PocketKernel.Proofs.Volume.Calls

/-!
# Operations on a volume of which nothing is known

The sectors of a volume may hold anything: pointers past the end, sizes that no content has, blocks
in use that are marked free. What holds nevertheless is said by two judgements on operations, each
with a rule for sequencing and one lemma for every operation; no other property of the sectors or
of the device is used.

* An operation *looks* if it asks for data blocks only, keeps the copies in memory, and depends on
  the device by what it reads alone: on two devices that its reads do not tell apart it ends the
  same way.
* An operation *serves* if it asks for allowed transfers only and keeps what holds of the copies.

In both cases the outcome is an answer or a reported error: no index leaves its table.

## Main definitions

* `Geometry.InData`, `Geometry.InTables`: where the transfers of an operation lie.
* `Volume.Sized`: the copies have the sizes of the geometry.
* `Volume.Looks`, `Volume.Serves`: the judgements.

## Main results

* `Volume.looks_resolve`, `Volume.looks_readContent`: paths and contents.
* `Volume.ChunkInvariant.writeChunks`, `Volume.CallInvariant.call`: an invariant is carried through
  the chunks of a write, and through every call.
* `Volume.serves_writeChunks`, `Volume.serves_call`: so are the sizes of the copies.
-/

namespace PocketKernel

namespace Geometry

/-- The sector lies among the data blocks. -/
def InData (g : Geometry) (lba : ℕ) : Prop :=
  g.lba g.dataStart ≤ lba ∧ lba < g.startLba + g.totalSectors

/-- The sector is that of a bitmap, or lies in the inode table. -/
def InTables (g : Geometry) (lba : ℕ) : Prop :=
  g.lba superblockSector < lba ∧ lba < g.lba g.dataStart

theorem inData_blockLba (g : Geometry) {block : ℕ} (h : block < g.dataBlocks) :
    g.InData (g.blockLba block) := by
  refine ⟨?_, g.blockLba_lt h⟩
  simp only [lba, blockLba]
  omega

theorem inTables_lba (g : Geometry) {sector : ℕ} (hpos : superblockSector < sector)
    (h : sector < g.dataStart) : g.InTables (g.lba sector) := by
  simp only [InTables, lba]
  omega

/-- The transfers of an operation that looks. -/
def Looking (g : Geometry) : Access → Prop
  | .read lba => g.InData lba
  | .write _ => False

/-- The transfers of a write into the content of an inode: data blocks, and the bitmap that tells
which of them are in use. -/
def Writing (g : Geometry) : Access → Prop
  | .read lba => g.InData lba
  | .write lba => g.InData lba ∨ lba = g.lba blockBitmapSector

/-- The transfers of any call: data blocks, and stores of the bitmaps and of the inode table. -/
def Calling (g : Geometry) : Access → Prop
  | .read lba => g.InData lba
  | .write lba => g.InData lba ∨ g.InTables lba

theorem Writing.calling {g : Geometry} {access : Access} (h : g.Writing access) :
    g.Calling access := by
  cases access with
  | read lba => exact h
  | write lba =>
    rcases h with h | rfl
    · exact .inl h
    · exact .inr (g.inTables_lba (by decide) g.blockBitmapSector_lt)

end Geometry

/-- An outcome is an answer with this property, or a reported error. -/
def Stop.Proper {α : Type} (P : α → Prop) : Except Stop α → Prop
  | .ok answer => P answer
  | .error stop => stop ≠ .broken

theorem Stop.proper_error {α : Type} {P : α → Prop} {cause : VolumeError} :
    Stop.Proper P (.error (.error cause)) :=
  nofun

theorem Stop.Proper.mono {α : Type} {P Q : α → Prop} {outcome : Except Stop α}
    (h : Stop.Proper P outcome) (himp : ∀ answer, P answer → Q answer) :
    Stop.Proper Q outcome := by
  cases outcome with
  | ok answer => exact himp answer h
  | error stop => exact h

/-- No index has left its table. -/
theorem Stop.Proper.ne_broken {α : Type} {P : α → Prop} {outcome : Except Stop α}
    (h : Stop.Proper P outcome) : outcome ≠ .error .broken := by
  rintro rfl
  exact h rfl

namespace Volume

variable {δ α β : Type} {g : Geometry} {v w x : Volume δ} {allowed allowed' : Access → Prop}

/-- The copies in memory have the sizes of the geometry. -/
structure Sized (g : Geometry) (v : Volume δ) : Prop where
  geometry : v.geometry = g
  size_inodes : v.inodes.size = g.inodeCount
  length_inodeMap : v.inodeMap.length = g.inodeCount
  length_blockMap : v.blockMap.length = g.dataBlocks

theorem Sized.lt_of_getElem? (hv : v.Sized g) {index : ℕ} {inode : Inode}
    (h : v.inodes[index]? = some inode) : index < g.inodeCount := by
  rw [← hv.size_inodes]
  exact (Array.getElem?_eq_some_iff.mp h).1

theorem Sized.getElem?_eq_some (hv : v.Sized g) {index : ℕ} (h : index < g.inodeCount) :
    ∃ inode, v.inodes[index]? = some inode := by
  rw [← hv.size_inodes] at h
  exact ⟨_, Array.getElem?_eq_getElem h⟩

variable [BlockDevice δ]

theorem Shaped.sized [LawfulDevice δ] (h : v.Shaped g) : v.Sized g := ⟨h.1, h.2, h.3, h.4⟩

/-! ### Looking -/

/-- Two states of a device that no reads of data blocks tell apart. -/
structure Blind (g : Geometry) (alike : δ → δ → Prop) : Prop where
  answer {d e : δ} {lba : ℕ} : alike d e → g.InData lba →
    (BlockDevice.read lba d).1 = (BlockDevice.read lba e).1
  left {d e : δ} {lba : ℕ} : alike d e → g.InData lba →
    alike (BlockDevice.read lba d).2 (BlockDevice.read lba e).2

/-- An operation that depends on the device by what it reads from data blocks, and leaves the rest
of the volume alone. -/
def Looks (g : Geometry) (operation : VolumeM δ α) (P : α → Prop) : Prop :=
  ∀ alike : δ → δ → Prop, Blind g alike → ∀ (v : Volume δ) (e : δ), v.Sized g →
    alike v.device e → ∃ outcome d' e', v.run operation = (outcome, { v with device := d' })
      ∧ { v with device := e }.run operation = (outcome, { v with device := e' })
      ∧ alike d' e' ∧ Stop.Proper P outcome

section Looks

variable {P Q : α → Prop}

theorem looks_pure {answer : α} (h : P answer) : Looks g (pure answer : VolumeM δ α) P :=
  fun _ _ v e _ halike => ⟨_, v.device, e, rfl, rfl, halike, h⟩

theorem looks_fail (cause : VolumeError) : Looks g (VolumeM.fail cause : VolumeM δ α) P :=
  fun _ _ v e _ halike => ⟨_, v.device, e, rfl, rfl, halike, Stop.proper_error⟩

theorem Looks.mono {operation : VolumeM δ α} (h : Looks g operation P)
    (himp : ∀ answer, P answer → Q answer) : Looks g operation Q := by
  intro alike hblind v e hv halike
  obtain ⟨outcome, d', e', hd, he, halike', hproper⟩ := h alike hblind v e hv halike
  exact ⟨outcome, d', e', hd, he, halike', hproper.mono himp⟩

/-- **Sequencing of operations that look.** -/
theorem Looks.bind {first : VolumeM δ β} {next : β → VolumeM δ α} {R : β → Prop}
    (hfirst : Looks g first R) (hnext : ∀ b, R b → Looks g (next b) P) :
    Looks g (first >>= next) P := by
  intro alike hblind v e hv halike
  obtain ⟨outcome, d', e', hd, he, halike', hproper⟩ := hfirst alike hblind v e hv halike
  rw [run_bind, run_bind, hd, he]
  cases outcome with
  | error stop => exact ⟨.error stop, d', e', rfl, rfl, halike', hproper⟩
  | ok b =>
    have hv' : { v with device := d' }.Sized g := ⟨hv.1, hv.2, hv.3, hv.4⟩
    exact hnext b hproper alike hblind { v with device := d' } e' hv' halike'

/-- What is taken from the volume must not be the device. -/
theorem looks_get_bind {next : Volume δ → VolumeM δ α}
    (hdevice : ∀ (v : Volume δ) d, next { v with device := d } = next v)
    (h : ∀ v : Volume δ, v.Sized g → Looks g (next v) P) : Looks g (get >>= next) P := by
  intro alike hblind v e hv halike
  obtain ⟨outcome, d', e', hd, he, hrest⟩ := h v hv alike hblind v e hv halike
  refine ⟨outcome, d', e', hd, ?_, hrest⟩
  rw [← hdevice v e] at he
  exact he

/-- A check that fails ends the operation. -/
theorem looks_guard {condition : Prop} [Decidable condition] {cause : VolumeError}
    {next : Unit → VolumeM δ α} (h : ¬ condition → Looks g (next ()) P) :
    Looks g (if condition then VolumeM.fail cause >>= next else next ()) P := by
  split
  · exact (looks_fail cause (P := fun _ => False)).bind fun _ hfalse => hfalse.elim
  · exact h ‹_›

theorem looks_orFail {outcome : Except VolumeError α} :
    Looks g (VolumeM.orFail outcome : VolumeM δ α) fun answer => outcome = .ok answer := by
  cases outcome with
  | ok answer => exact looks_pure rfl
  | error cause => exact looks_fail cause

theorem looks_readSector {lba : ℕ} (h : g.InData lba) :
    Looks g (VolumeM.readSector lba : VolumeM δ Sector) fun _ => True := by
  intro alike hblind v e hv halike
  have hanswer := hblind.answer halike h
  have hleft := hblind.left halike h
  rw [run_readSector, run_readSector, ← hanswer]
  cases (BlockDevice.read lba v.device).1 with
  | ok sector => exact ⟨_, _, _, rfl, rfl, hleft, trivial⟩
  | error cause => exact ⟨_, _, _, rfl, rfl, hleft, Stop.proper_error⟩

/-- After looking, all that has changed is the device, by reads of data blocks. -/
theorem Looks.ends {operation : VolumeM δ α} (h : Looks g operation P) (hv : v.Sized g) :
    v.Ends operation fun outcome w => w = { v with device := w.device }
      ∧ Asked g.Looking v.device w.device ∧ Stop.Proper P outcome := by
  -- Equal states that came from the state before cannot be told apart.
  let alike (d e : δ) := d = e ∧ Asked g.Looking v.device d
  have hblind : Blind g alike := by
    refine ⟨?_, ?_⟩
    · rintro d _ lba ⟨rfl, -⟩ -
      rfl
    · rintro d _ lba ⟨rfl, hasked⟩ hlba
      exact ⟨rfl, hasked.read hlba⟩
  obtain ⟨outcome, d', e', hd, -, ⟨-, hasked⟩, hproper⟩ :=
    h alike hblind v v.device hv ⟨rfl, .nothing⟩
  unfold Ends
  rw [hd]
  exact ⟨rfl, hasked, hproper⟩

end Looks

/-! ### Operations that look -/

theorem looks_findInode (index : ℕ) :
    Looks g (VolumeM.findInode index : VolumeM δ Inode) fun _ => index < g.inodeCount := by
  refine looks_get_bind (fun _ _ => rfl) fun v hv => ?_
  cases h : v.inodes[index]? with
  | some inode => exact looks_pure (hv.lt_of_getElem? h)
  | none => exact looks_fail _

theorem looks_blockOf (inode : Inode) (slot : ℕ) :
    Looks g (VolumeM.blockOf inode slot : VolumeM δ ℕ) (· < g.dataBlocks) := by
  unfold VolumeM.blockOf
  cases inode.direct[slot]? with
  | none => exact looks_fail _
  | some block =>
    refine looks_get_bind (fun _ _ => rfl) fun v hv => ?_
    split
    · exact looks_fail _
    · rename_i hvalid
      simp only [Bool.or_eq_true, decide_eq_true_eq, not_or, hv.geometry] at hvalid
      exact looks_pure (by omega)

theorem looks_readChunks (inode : Inode) (position left : ℕ) :
    Looks g (VolumeM.readChunks inode position left : VolumeM δ (List UInt8)) fun _ => True := by
  induction left using Nat.strongRecOn generalizing position with
  | ind left ih =>
  rw [VolumeM.readChunks]
  by_cases hnil : left = 0
  · rw [dif_pos hnil]
    exact looks_pure trivial
  rw [dif_neg hnil]
  have hpos := VolumeM.chunkLength_pos position hnil
  refine (looks_blockOf inode _).bind fun block hblock => ?_
  refine looks_get_bind (fun _ _ => rfl) fun v hv => ?_
  rw [hv.geometry]
  refine (looks_readSector (g.inData_blockLba hblock)).bind fun sector _ => ?_
  exact (ih _ (by omega) _).bind fun rest _ => looks_pure trivial

theorem looks_readContent (index offset count : ℕ) :
    Looks g (VolumeM.readContent index offset count : VolumeM δ (List UInt8)) fun _ => True := by
  refine (looks_findInode index).bind fun inode _ => ?_
  dsimp only
  split
  · exact looks_pure trivial
  · exact looks_readChunks inode _ _

theorem looks_records (directory : ℕ) :
    Looks g (VolumeM.records directory : VolumeM δ (List DirectoryRecord)) fun _ => True := by
  refine (looks_findInode directory).bind fun inode _ => ?_
  refine looks_guard fun _ => ?_
  refine looks_guard fun _ => ?_
  refine (looks_readContent directory 0 _).bind fun content _ => ?_
  exact looks_guard fun _ => looks_pure trivial

theorem looks_liveRecords (directory : ℕ) :
    Looks g (VolumeM.liveRecords directory : VolumeM δ (List DirectoryRecord)) fun _ => True := by
  refine (looks_records directory).bind fun all _ => ?_
  exact looks_get_bind (fun _ _ => rfl) fun v _ => looks_pure trivial

theorem looks_lookup (directory : ℕ) (name : Text) :
    Looks g (VolumeM.lookup directory name : VolumeM δ (Option ℕ)) fun _ => True :=
  (looks_liveRecords directory).bind fun _ _ => looks_pure trivial

theorem looks_step (current : ℕ) (segment : Text) :
    Looks g (VolumeM.step current segment : VolumeM δ ℕ) fun _ => True := by
  refine (looks_findInode current).bind fun inode _ => looks_guard fun _ => ?_
  split
  · exact looks_pure trivial
  · refine (looks_lookup current segment).bind fun found _ => ?_
    cases found with
    | some target => exact looks_pure trivial
    | none => exact looks_fail _

theorem looks_walkFrom (current : ℕ) (segments : List Text) :
    Looks g (segments.foldlM VolumeM.step current : VolumeM δ ℕ) fun _ => True := by
  induction segments generalizing current with
  | nil => exact looks_pure trivial
  | cons segment segments ih =>
    rw [List.foldlM_cons]
    exact (looks_step current segment).bind fun next _ => ih next

theorem looks_walk (segments : List Text) :
    Looks g (VolumeM.walk segments : VolumeM δ ℕ) fun _ => True :=
  looks_walkFrom 0 segments

/-- **A path is followed by reading data blocks only.** -/
theorem looks_resolve (path : Text) :
    Looks g (VolumeM.resolve path : VolumeM δ ℕ) fun _ => True :=
  looks_orFail.bind fun segments _ => looks_walk segments

theorem looks_resolveFile (path : Text) :
    Looks g (VolumeM.resolveFile path : VolumeM δ ℕ) (· < g.inodeCount) := by
  refine (looks_resolve path).bind fun index _ => ?_
  exact (looks_findInode index).bind fun inode hlt => looks_guard fun _ => looks_pure hlt

theorem looks_requireMounted :
    Looks g (VolumeM.requireMounted : VolumeM δ Unit) fun _ => True := by
  refine looks_get_bind (fun _ _ => rfl) fun v _ => ?_
  split
  · exact looks_fail _
  · exact looks_pure trivial

theorem looks_statOf (index : ℕ) :
    Looks g (VolumeM.statOf index : VolumeM δ FileStat) fun _ => True :=
  (looks_findInode index).bind fun _ _ => looks_pure trivial

theorem looks_entryFor (name : List UInt8) (index : ℕ) :
    Looks g (VolumeM.entryFor name index : VolumeM δ DirectoryEntry) fun _ => True :=
  (looks_statOf index).bind fun _ _ => looks_pure trivial

theorem looks_mapM {step : β → VolumeM δ α} (items : List β)
    (hstep : ∀ item, Looks g (step item) fun _ => True) :
    Looks g (items.mapM step) fun _ => True := by
  induction items with
  | nil => exact looks_pure trivial
  | cons item items ih =>
    rw [List.mapM_cons]
    exact (hstep item).bind fun _ _ => ih.bind fun _ _ => looks_pure trivial

theorem looks_stat (path : Text) :
    Looks g (VolumeM.stat path : VolumeM δ FileStat) fun _ => True :=
  looks_requireMounted.bind fun _ _ => (looks_resolve path).bind fun index _ => looks_statOf index

theorem looks_list (path : Text) :
    Looks g (VolumeM.list path : VolumeM δ (List DirectoryEntry)) fun _ => True := by
  refine looks_requireMounted.bind fun _ _ => ?_
  refine (looks_resolve path).bind fun index _ => ?_
  refine (looks_findInode index).bind fun inode _ => ?_
  split
  · refine (looks_liveRecords index).bind fun live _ => ?_
    exact looks_mapM live fun record => looks_entryFor _ _
  · exact (looks_entryFor _ index).bind fun _ _ => looks_pure trivial

theorem looks_read (path : Text) (offset count : ℕ) :
    Looks g (VolumeM.read path offset count : VolumeM δ (List UInt8)) fun _ => True :=
  looks_requireMounted.bind fun _ _ => (looks_resolveFile path).bind fun index _ =>
    looks_readContent index offset count

/-! ### Serving -/

/-- What holds of the copies holds still, and the device was asked for allowed transfers only. -/
structure Served (I : Volume δ → Prop) (allowed : Access → Prop) (v w : Volume δ) : Prop where
  holds : I w
  mounted : w.mounted = v.mounted
  asked : Asked allowed v.device w.device

theorem Served.trans {I : Volume δ → Prop} (h : Served I allowed v w) (h' : Served I allowed w x) :
    Served I allowed v x :=
  ⟨h'.holds, h'.mounted.trans h.mounted, h.asked.trans h'.asked⟩

/-- An operation that asks for allowed transfers only and keeps what holds of the copies. -/
def Serves (I : Volume δ → Prop) (allowed : Access → Prop) (operation : VolumeM δ α)
    (P : α → Prop) : Prop :=
  ∀ v : Volume δ, I v → v.Ends operation fun outcome w =>
    Served I allowed v w ∧ Stop.Proper P outcome

section Serves

variable {I : Volume δ → Prop} {P Q : α → Prop}

theorem serves_pure {answer : α} (h : P answer) :
    Serves I allowed (pure answer : VolumeM δ α) P :=
  fun _ hv => ⟨⟨hv, rfl, .nothing⟩, h⟩

theorem serves_fail (cause : VolumeError) :
    Serves I allowed (VolumeM.fail cause : VolumeM δ α) P :=
  fun _ hv => ⟨⟨hv, rfl, .nothing⟩, Stop.proper_error⟩

theorem Serves.mono {operation : VolumeM δ α} (h : Serves I allowed operation P)
    (hallowed : ∀ access, allowed access → allowed' access)
    (himp : ∀ answer, P answer → Q answer) : Serves I allowed' operation Q := by
  intro v hv
  refine (h v hv).mono ?_
  rintro outcome w ⟨hserved, hproper⟩
  exact ⟨⟨hserved.holds, hserved.mounted, hserved.asked.mono hallowed⟩, hproper.mono himp⟩

/-- **Sequencing of operations that serve.** -/
theorem Serves.bind {first : VolumeM δ β} {next : β → VolumeM δ α} {R : β → Prop}
    (hfirst : Serves I allowed first R) (hnext : ∀ b, R b → Serves I allowed (next b) P) :
    Serves I allowed (first >>= next) P := by
  intro v hv
  refine Ends.bind (hfirst v hv) ?_ fun stop w h => h
  rintro b w ⟨hserved, hb⟩
  exact (hnext b hb w hserved.holds).mono fun _ _ h => ⟨hserved.trans h.1, h.2⟩

/-- After an attempt, an answer has its property. -/
theorem Serves.attempt {step : VolumeM δ β} {R : β → Prop} (hstep : Serves I allowed step R) :
    Serves I allowed (VolumeM.attempt step) fun outcome => ∀ b, outcome = .ok b → R b := by
  intro v hv
  have hends := hstep v hv
  unfold Ends at *
  rw [run_attempt]
  rcases h : v.run step with ⟨(cause | _) | b, w⟩
  · rw [h] at hends
    exact ⟨hends.1, nofun⟩
  · rw [h] at hends
    exact absurd rfl hends.2
  · rw [h] at hends
    refine ⟨hends.1, ?_⟩
    rintro b' ⟨⟩
    exact hends.2

theorem Serves.attempt_bind {step : VolumeM δ β} {next : Except VolumeError β → VolumeM δ α}
    {R : β → Prop} (hstep : Serves I allowed step R)
    (hok : ∀ b, R b → Serves I allowed (next (.ok b)) P)
    (herror : ∀ cause, Serves I allowed (next (.error cause)) P) :
    Serves I allowed (VolumeM.attempt step >>= next) P := by
  refine hstep.attempt.bind ?_
  rintro (cause | b) hb
  · exact herror cause
  · exact hok b (hb b rfl)

theorem serves_get_bind {next : Volume δ → VolumeM δ α}
    (h : ∀ v, I v → Serves I allowed (next v) P) : Serves I allowed (get >>= next) P :=
  fun v hv => h v hv v hv

theorem serves_orFail (outcome : Except VolumeError α) :
    Serves I allowed (VolumeM.orFail outcome : VolumeM δ α) fun _ => True := by
  cases outcome with
  | ok answer => exact serves_pure trivial
  | error cause => exact serves_fail cause

theorem serves_modify {change : Volume δ → Volume δ} (hchange : ∀ v, I v → I (change v))
    (hmounted : ∀ v, (change v).mounted = v.mounted) (hdevice : ∀ v, (change v).device = v.device) :
    Serves I allowed (modify change : VolumeM δ Unit) fun _ => True := by
  intro v hv
  refine ⟨⟨hchange v hv, hmounted v, ?_⟩, trivial⟩
  rw [show (v.run (modify change)).2 = change v from rfl, hdevice]
  exact .nothing

theorem serves_ofTransfer (outcome : Except DiskError α) :
    Serves I allowed (VolumeM.ofTransfer outcome : VolumeM δ α) fun _ => True := by
  cases outcome with
  | ok answer => exact serves_pure trivial
  | error cause => exact serves_fail _

/-- What a transfer answered, after the device moved on within what is allowed. -/
theorem ends_ofTransfer {v : Volume δ} {device : δ} (hv : I { v with device })
    (hasked : Asked allowed v.device device) (outcome : Except DiskError α) :
    ({ v with device } : Volume δ).Ends (VolumeM.ofTransfer outcome) fun stop w =>
      Served I allowed v w ∧ Stop.Proper (fun _ => True) stop := by
  have hserves : Serves I allowed (VolumeM.ofTransfer outcome : VolumeM δ α) fun _ => True :=
    serves_ofTransfer outcome
  refine (hserves _ hv).mono ?_
  rintro stop w ⟨hserved, hproper⟩
  exact ⟨⟨hserved.holds, hserved.mounted, hasked.trans hserved.asked⟩, hproper⟩

theorem serves_readSector (hI : ∀ (v : Volume δ) d, I v → I { v with device := d }) {lba : ℕ}
    (h : allowed (.read lba)) :
    Serves I allowed (VolumeM.readSector lba : VolumeM δ Sector) fun _ => True := by
  intro v hv
  unfold Ends
  rw [run_readSector]
  exact ends_ofTransfer (hI v _ hv) (Asked.nothing.read h) _

theorem serves_writeSector (hI : ∀ (v : Volume δ) d, I v → I { v with device := d }) {lba : ℕ}
    (sector : Sector) (h : allowed (.write lba)) :
    Serves I allowed (VolumeM.writeSector lba sector : VolumeM δ Unit) fun _ => True := by
  intro v hv
  unfold Ends
  rw [run_writeSector]
  exact ends_ofTransfer (hI v _ hv) (Asked.nothing.write sector h) _

theorem serves_guard {condition : Prop} [Decidable condition] {cause : VolumeError}
    {next : Unit → VolumeM δ α} (h : ¬ condition → Serves I allowed (next ()) P) :
    Serves I allowed (if condition then VolumeM.fail cause >>= next else next ()) P := by
  split
  · exact (serves_fail cause (P := fun _ => False)).bind fun _ hfalse => hfalse.elim
  · exact h ‹_›

/-- An operation that looks serves, if reads of data blocks are allowed and break nothing. -/
theorem Looks.serves {operation : VolumeM δ α} (h : Looks g operation P)
    (hsized : ∀ v, I v → v.Sized g)
    (hlooking : ∀ (v : Volume δ) d, I v → Asked g.Looking v.device d → I { v with device := d })
    (hallowed : ∀ lba, g.InData lba → allowed (.read lba)) :
    Serves I allowed operation P := by
  intro v hv
  refine (h.ends (hsized v hv)).mono ?_
  rintro outcome w ⟨hw, hasked, hproper⟩
  refine ⟨⟨?_, by rw [hw], hasked.mono ?_⟩, hproper⟩
  · rw [hw]
    exact hlooking v w.device hv hasked
  · rintro (lba | lba) haccess
    · exact hallowed lba haccess
    · exact haccess.elim

end Serves

/-! ### Chunks and calls

An invariant of a volume is carried through the chunks of a write, and through the calls, once it is
known for the few steps that change anything. -/

/-- What is to be known of an invariant to carry it through the chunks of a write. -/
structure ChunkInvariant (g : Geometry) (I : Volume δ → Prop) (allowed : Access → Prop) (index : ℕ)
    (good : Inode → Prop) : Prop where
  sized : ∀ v, I v → v.Sized g
  looking : ∀ (v : Volume δ) d, I v → Asked g.Looking v.device d → I { v with device := d }
  reads : ∀ lba, g.InData lba → allowed (.read lba)
  inodeAt : Serves I allowed (VolumeM.inodeAt index) good
  setInode : ∀ (x : Inode) (slot : ℕ) (pointer : UInt32), good x →
    Serves I allowed (VolumeM.setInode index (x.withBlock slot pointer)) fun _ => True
  allocBlock : Serves I allowed VolumeM.allocBlock fun pointer => pointer.toNat < g.dataBlocks
  writeBlock : ∀ lba sector, g.InData lba →
    Serves I allowed (VolumeM.writeSector lba sector) fun _ => True

namespace ChunkInvariant

variable {I : Volume δ → Prop} {index : ℕ} {good : Inode → Prop}

theorem blockForWrite (h : ChunkInvariant g I allowed index good) {slot : ℕ}
    (hslot : slot < directBlocks) :
    Serves I allowed (VolumeM.blockForWrite index slot) fun found => found.1 < g.dataBlocks := by
  refine h.inodeAt.bind fun inode _ => ?_
  have hget : inode.direct[slot]? = some inode.direct[slot] := Vector.getElem?_eq_getElem hslot
  rw [hget]
  dsimp only
  split
  · refine h.allocBlock.bind fun pointer hpointer => ?_
    refine h.inodeAt.bind fun x hx => ?_
    exact (h.setInode x slot pointer hx).bind fun _ _ => serves_pure hpointer
  · refine serves_get_bind fun v hv => ?_
    split
    · exact serves_fail _
    · rename_i hlt
      rw [(h.sized v hv).geometry] at hlt
      exact serves_pure (Nat.lt_of_not_le hlt)

theorem blockBefore (h : ChunkInvariant g I allowed index good) {lba : ℕ} (hlba : g.InData lba)
    (fresh : Bool) (count : ℕ) :
    Serves I allowed (VolumeM.blockBefore lba fresh count) fun _ => True := by
  unfold VolumeM.blockBefore
  split
  · exact serves_pure trivial
  · exact (looks_readSector hlba).serves h.sized h.looking h.reads

theorem writeChunk (h : ChunkInvariant g I allowed index good) {position : ℕ} {chunk : List UInt8}
    (hslot : position / sectorSize < directBlocks) :
    Serves I allowed (VolumeM.writeChunk index position chunk) fun _ => True := by
  refine (h.blockForWrite hslot).bind fun found hfound => ?_
  refine serves_get_bind fun v hv => ?_
  have hdata := g.inData_blockLba hfound
  rw [(h.sized v hv).geometry]
  exact (h.blockBefore hdata _ _).bind fun before _ => h.writeBlock _ _ hdata

/-- **A row of chunks.** -/
theorem writeChunks (h : ChunkInvariant g I allowed index good) {position : ℕ} {data : List UInt8}
    (hend : position + data.length ≤ maxFileSize) :
    Serves I allowed (VolumeM.writeChunks index position data) fun _ => True := by
  induction hlen : data.length using Nat.strongRecOn generalizing position data with
  | ind n ih =>
  subst hlen
  by_cases hnil : data.length = 0
  · rw [List.length_eq_zero_iff] at hnil
    subst hnil
    rw [VolumeM.writeChunks_nil]
    exact serves_pure trivial
  rw [VolumeM.writeChunks_eq _ _ hnil]
  have hpos := VolumeM.chunkLength_pos position hnil
  have hle : VolumeM.chunkLength position data.length ≤ data.length := Nat.min_le_right _ _
  have hslot : position / sectorSize < directBlocks := by
    simp only [sectorSize, maxFileSize, directBlocks] at *
    omega
  refine (h.writeChunk hslot).bind fun _ _ => ?_
  refine ih _ ?_ ?_ rfl
  · rw [List.length_drop]
    omega
  · rw [List.length_drop]
    omega

end ChunkInvariant

/-- What is to be known of an invariant to carry it through every call: the four operations that
change more than data blocks keep it. -/
structure CallInvariant (g : Geometry) (I : Volume δ → Prop) (allowed : Access → Prop) : Prop where
  sized : ∀ v, I v → v.Sized g
  looking : ∀ (v : Volume δ) d, I v → Asked g.Looking v.device d → I { v with device := d }
  reads : ∀ lba, g.InData lba → allowed (.read lba)
  allocInode : ∀ kind parent,
    Serves I allowed (VolumeM.allocInode kind parent) (· < g.inodeCount)
  releaseInode : ∀ index < g.inodeCount,
    Serves I allowed (VolumeM.releaseInode index) fun _ => True
  truncateContent : ∀ index < g.inodeCount,
    Serves I allowed (VolumeM.truncateContent index) fun _ => True
  storeContent : ∀ index < g.inodeCount, ∀ offset data, offset + data.length ≤ maxFileSize →
    Serves I allowed (VolumeM.storeContent index offset data) fun _ => True

namespace CallInvariant

variable {I : Volume δ → Prop} {P : α → Prop}

theorem looks (h : CallInvariant g I allowed) {operation : VolumeM δ α}
    (hlooks : Looks g operation P) : Serves I allowed operation P :=
  hlooks.serves h.sized h.looking h.reads

theorem writeContent (h : CallInvariant g I allowed) {index : ℕ} (hlt : index < g.inodeCount)
    (offset : ℕ) (data : List UInt8) (truncate : Bool) :
    Serves I allowed (VolumeM.writeContent index offset data truncate) fun _ => True := by
  refine serves_guard fun hlarge => ?_
  refine (h.looks (looks_findInode index)).bind fun inode _ => ?_
  refine serves_guard fun _ => ?_
  have hstore := h.storeContent index hlt offset data (Nat.le_of_not_lt hlarge)
  split
  · exact (h.truncateContent index hlt).bind fun _ _ => hstore
  · exact hstore

theorem appendRecord (h : CallInvariant g I allowed) {directory : ℕ}
    (hlt : directory < g.inodeCount) (record : DirectoryRecord) :
    Serves I allowed (VolumeM.appendRecord directory record) fun _ => True := by
  refine (h.looks (looks_findInode directory)).bind fun inode _ => ?_
  refine serves_guard fun _ => ?_
  refine (h.writeContent hlt _ _ _).attempt_bind ?_ ?_
  · exact fun _ _ => serves_pure trivial
  · intro cause
    cases cause with
    | _ => exact serves_fail _

theorem create (h : CallInvariant g I allowed) (path : Text) (kind : InodeKind) :
    Serves I allowed (VolumeM.create path kind) fun _ => True := by
  refine (serves_orFail _).bind fun leaf _ => ?_
  refine (serves_orFail _).bind fun segments _ => ?_
  refine (h.looks (looks_walk _)).bind fun parent _ => ?_
  refine (h.looks (looks_findInode parent)).bind fun inode hparent => ?_
  refine serves_guard fun _ => ?_
  refine (h.allocInode kind parent).bind fun index hindex => ?_
  refine (h.appendRecord hparent _).attempt_bind (fun _ _ => serves_pure trivial) fun cause => ?_
  dsimp only
  rw [discard_bind]
  exact (h.releaseInode index hindex).attempt.bind fun _ _ => serves_fail cause

theorem touch (h : CallInvariant g I allowed) (path : Text) :
    Serves I allowed (VolumeM.touch path) fun _ => True := by
  refine (h.looks looks_requireMounted).bind fun _ _ => ?_
  refine (h.looks (looks_resolve path)).attempt_bind ?_ ?_
  · intro index _
    refine (h.looks (looks_findInode index)).bind fun inode _ => ?_
    split
    · exact serves_fail _
    · exact serves_pure trivial
  · intro cause
    cases cause with
    | notFound => exact h.create path .file
    | _ => exact serves_fail _

theorem mkdir (h : CallInvariant g I allowed) (path : Text) :
    Serves I allowed (VolumeM.mkdir path) fun _ => True := by
  refine (h.looks looks_requireMounted).bind fun _ _ => ?_
  refine (h.looks (looks_resolve path)).attempt_bind (fun _ _ => serves_fail _) fun cause => ?_
  cases cause with
  | notFound => exact h.create path .directory
  | _ => exact serves_fail _

theorem write (h : CallInvariant g I allowed) (path : Text) (offset : ℕ) (data : List UInt8)
    (truncate : Bool) :
    Serves I allowed (VolumeM.write path offset data truncate) fun _ => True := by
  refine (h.looks looks_requireMounted).bind fun _ _ => ?_
  refine (h.looks (looks_resolveFile path)).bind fun index hindex => ?_
  exact h.writeContent hindex offset data truncate

theorem call (h : CallInvariant g I allowed) (call : Call) :
    Serves I allowed call.operation fun _ => True := by
  cases call with
  | touch path => exact h.touch path
  | mkdir path => exact h.mkdir path
  | write path offset data truncate =>
    exact (h.write path offset data truncate).bind fun _ _ => serves_pure trivial
  | read path offset count =>
    exact (h.looks (looks_read path offset count)).bind fun _ _ => serves_pure trivial
  | list path => exact (h.looks (looks_list path)).bind fun _ _ => serves_pure trivial
  | stat path => exact (h.looks (looks_stat path)).bind fun _ _ => serves_pure trivial

end CallInvariant

/-! ### The copies in memory -/

omit [BlockDevice δ] in
theorem Sized.device (v : Volume δ) (d : δ) (hv : v.Sized g) : { v with device := d }.Sized g :=
  ⟨hv.1, hv.2, hv.3, hv.4⟩

theorem serves_inodeAt {index : ℕ} (h : index < g.inodeCount) :
    Serves (Sized g) allowed (VolumeM.inodeAt index : VolumeM δ Inode) fun _ => True := by
  refine serves_get_bind fun v hv => ?_
  obtain ⟨inode, hinode⟩ := hv.getElem?_eq_some h
  rw [hinode]
  exact serves_pure trivial

theorem serves_setInode {index : ℕ} (h : index < g.inodeCount) (inode : Inode) :
    Serves (Sized g) allowed (VolumeM.setInode index inode : VolumeM δ Unit) fun _ => True := by
  refine serves_get_bind fun v hv => ?_
  rw [if_pos (by rw [hv.size_inodes]; exact h)]
  refine serves_modify (fun v hv => ?_) (fun _ => rfl) fun _ => rfl
  exact ⟨hv.1, Array.size_setIfInBounds.trans hv.2, hv.3, hv.4⟩

theorem serves_setInodeMap {map : Bitmap} (h : map.length = g.inodeCount) :
    Serves (Sized g) allowed (VolumeM.setInodeMap map : VolumeM δ Unit) fun _ => True :=
  serves_modify (fun _ hv => ⟨hv.1, hv.2, h, hv.4⟩) (fun _ => rfl) fun _ => rfl

theorem serves_setBlockMap {map : Bitmap} (h : map.length = g.dataBlocks) :
    Serves (Sized g) allowed (VolumeM.setBlockMap map : VolumeM δ Unit) fun _ => True :=
  serves_modify (fun _ hv => ⟨hv.1, hv.2, hv.3, h⟩) (fun _ => rfl) fun _ => rfl

/-! ### Stores -/

theorem serves_flushInodeMap (h : allowed (.write (g.lba inodeBitmapSector))) :
    Serves (Sized g) allowed (VolumeM.flushInodeMap : VolumeM δ Unit) fun _ => True :=
  serves_get_bind fun _ hv => serves_writeSector Sized.device _ (hv.geometry ▸ h)

theorem serves_flushBlockMap (h : allowed (.write (g.lba blockBitmapSector))) :
    Serves (Sized g) allowed (VolumeM.flushBlockMap : VolumeM δ Unit) fun _ => True :=
  serves_get_bind fun _ hv => serves_writeSector Sized.device _ (hv.geometry ▸ h)

theorem serves_flushTableSector {tableSector : ℕ} (hsector : tableSector < g.tableSectors)
    (h : allowed (.write (g.lba (inodeTableStart + tableSector)))) :
    Serves (Sized g) allowed (VolumeM.flushTableSector tableSector : VolumeM δ Unit)
      fun _ => True := by
  refine serves_get_bind fun v hv => ?_
  have hfirst : inodesPerSector * tableSector ≤ v.inodes.size := by
    rw [hv.size_inodes]
    simp only [Geometry.tableSectors, tableSectorsFor, inodesPerSector] at *
    omega
  dsimp only
  rw [if_pos hfirst]
  exact serves_writeSector Sized.device _ (hv.geometry ▸ h)

theorem serves_flushInode {index : ℕ} (h : index < g.inodeCount) :
    Serves (Sized g) g.Calling (VolumeM.flushInode index : VolumeM δ Unit) fun _ => True := by
  have hsector := g.div_lt_tableSectors h
  refine serves_flushTableSector hsector (.inr (g.inTables_lba ?_ (g.table_lt_dataStart hsector)))
  exact Nat.lt_of_lt_of_le (by decide) (Nat.le_add_right inodeTableStart _)

/-! ### Handing out and taking back -/

/-- What a bitmap hands out lies in it. -/
theorem serves_allocBlock :
    Serves (Sized g) g.Writing (VolumeM.allocBlock : VolumeM δ UInt32)
      fun pointer => pointer.toNat < g.dataBlocks := by
  refine serves_get_bind fun v hv => ?_
  cases halloc : v.blockMap.alloc? with
  | none => exact serves_fail _
  | some found =>
    obtain ⟨block, map⟩ := found
    obtain ⟨hlt, -, -, rfl⟩ := Bitmap.of_alloc?_eq_some halloc
    rw [hv.length_blockMap] at hlt
    have hlength := (Bitmap.length_set v.blockMap block).trans hv.length_blockMap
    refine (serves_setBlockMap hlength).bind fun _ _ => ?_
    refine (serves_flushBlockMap (.inr rfl)).attempt_bind ?_ ?_
    · exact fun _ _ => serves_pure (by rw [toNat_ofNat_block hlt]; exact hlt)
    · refine fun cause => (serves_setBlockMap ?_).bind fun _ _ => serves_fail cause
      rw [Bitmap.length_clear, hlength]

theorem serves_allocInode (kind : InodeKind) (parent : ℕ) :
    Serves (Sized g) g.Calling (VolumeM.allocInode kind parent : VolumeM δ ℕ)
      (· < g.inodeCount) := by
  refine serves_get_bind fun v hv => ?_
  cases halloc : v.inodeMap.alloc? with
  | none => exact serves_fail _
  | some found =>
    obtain ⟨index, map⟩ := found
    obtain ⟨hlt, -, -, rfl⟩ := Bitmap.of_alloc?_eq_some halloc
    rw [hv.length_inodeMap] at hlt
    have hlength := (Bitmap.length_set v.inodeMap index).trans hv.length_inodeMap
    refine (serves_setInodeMap hlength).bind fun _ _ => ?_
    have hsector := g.inTables_lba (by decide) g.inodeBitmapSector_lt
    refine (serves_flushInodeMap (.inr hsector)).attempt_bind ?_ ?_
    · intro _ _
      refine (serves_setInode hlt _).bind fun _ _ => ?_
      exact (serves_flushInode hlt).bind fun _ _ => serves_pure hlt
    · refine fun cause => (serves_setInodeMap ?_).bind fun _ _ => serves_fail cause
      rw [Bitmap.length_clear, hlength]

theorem serves_freeBlocks (blocks : List UInt32) :
    Serves (Sized g) g.Writing (VolumeM.freeBlocks blocks : VolumeM δ Unit) fun _ => True := by
  rw [VolumeM.freeBlocks_eq]
  refine serves_get_bind fun v hv => ?_
  refine (serves_setBlockMap ?_).bind fun _ _ => ?_
  · exact (Bitmap.length_foldl_releaseStep _ _).trans hv.length_blockMap
  · split
    · exact serves_flushBlockMap (.inr rfl)
    · exact serves_pure trivial

theorem serves_detachBlocks {index : ℕ} (h : index < g.inodeCount) :
    Serves (Sized g) allowed (VolumeM.detachBlocks index : VolumeM δ (List UInt32)) fun _ => True :=
  (serves_inodeAt h).bind fun _ _ => (serves_setInode h _).bind fun _ _ => serves_pure trivial

/-- The transfers of a write into a content are among those of a call. -/
theorem Serves.calling {operation : VolumeM δ α} {P : α → Prop}
    (h : Serves (Sized g) g.Writing operation P) : Serves (Sized g) g.Calling operation P :=
  h.mono (fun _ => Geometry.Writing.calling) fun _ => id

theorem serves_releaseInode {index : ℕ} (h : index < g.inodeCount) :
    Serves (Sized g) g.Calling (VolumeM.releaseInode index : VolumeM δ Unit) fun _ => True := by
  refine serves_guard fun _ => ?_
  refine (serves_detachBlocks h).bind fun blocks _ => ?_
  refine (serves_setInode h _).bind fun _ _ => ?_
  refine (serves_flushInode h).attempt.bind fun stored _ => ?_
  refine (serves_freeBlocks blocks).calling.attempt.bind fun freed _ => ?_
  refine serves_get_bind fun v hv => ?_
  refine (serves_setInodeMap ?_).bind fun _ _ => ?_
  · exact Bitmap.length_getD_release?.trans hv.length_inodeMap
  have hsector := g.inTables_lba (by decide) g.inodeBitmapSector_lt
  refine (serves_flushInodeMap (.inr hsector)).attempt.bind fun cleared _ => ?_
  exact (serves_orFail stored).bind fun _ _ => (serves_orFail freed).bind fun _ _ =>
    serves_orFail cleared

theorem serves_truncateContent {index : ℕ} (h : index < g.inodeCount) :
    Serves (Sized g) g.Calling (VolumeM.truncateContent index : VolumeM δ Unit) fun _ => True := by
  refine (serves_inodeAt h).bind fun saved _ => ?_
  refine (serves_detachBlocks h).bind fun blocks _ => ?_
  refine (serves_flushInode h).attempt_bind ?_ ?_
  · exact fun _ _ => (serves_freeBlocks blocks).calling
  · exact fun cause => (serves_setInode h saved).bind fun _ _ => serves_fail cause

theorem chunkInvariant_sized {index : ℕ} (h : index < g.inodeCount) :
    ChunkInvariant g (Sized g : Volume δ → Prop) g.Writing index fun _ => True where
  sized _ := id
  looking v d hv _ := Sized.device v d hv
  reads _ := id
  inodeAt := serves_inodeAt h
  setInode _ _ _ _ := serves_setInode h _
  allocBlock := serves_allocBlock
  writeBlock _ sector hlba := serves_writeSector Sized.device sector (.inl hlba)

/-- **A row of chunks**, wherever the pointers of the inode lead. -/
theorem serves_writeChunks {index position : ℕ} {data : List UInt8} (h : index < g.inodeCount)
    (hend : position + data.length ≤ maxFileSize) :
    Serves (Sized g) g.Writing (VolumeM.writeChunks index position data : VolumeM δ Unit)
      fun _ => True :=
  (chunkInvariant_sized h).writeChunks hend

theorem serves_storeContent {index offset : ℕ} {data : List UInt8} (h : index < g.inodeCount)
    (hend : offset + data.length ≤ maxFileSize) :
    Serves (Sized g) g.Calling (VolumeM.storeContent index offset data : VolumeM δ ℕ)
      fun _ => True := by
  refine (serves_writeChunks h hend).calling.attempt.bind fun written _ => ?_
  have hstore : Serves (Sized g) g.Calling (VolumeM.attempt (VolumeM.flushInode index) >>=
      fun stored => VolumeM.orFail written >>= fun _ => VolumeM.orFail stored >>= fun _ =>
        pure data.length : VolumeM δ ℕ) fun _ => True :=
    (serves_flushInode h).attempt.bind fun stored _ => (serves_orFail written).bind fun _ _ =>
      (serves_orFail stored).bind fun _ _ => serves_pure trivial
  split
  · refine (serves_inodeAt h).bind fun x _ => (serves_setInode h _).bind fun _ _ => hstore
  · exact hstore

theorem callInvariant_sized :
    CallInvariant g (Sized g : Volume δ → Prop) g.Calling where
  sized _ := id
  looking v d hv _ := Sized.device v d hv
  reads _ := id
  allocInode := serves_allocInode
  releaseInode _ := serves_releaseInode
  truncateContent _ := serves_truncateContent
  storeContent _ h _ _ := serves_storeContent h

/-- **Whatever a volume holds, a call asks for transfers inside it only**, and it ends with an
answer or a reported error. -/
theorem serves_call (call : Call) :
    Serves (Sized g : Volume δ → Prop) g.Calling call.operation fun _ => True :=
  callInvariant_sized.call call

end Volume

end PocketKernel
