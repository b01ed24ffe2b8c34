import Mathlib.Control.Monad.Basic
import PocketKernel.Proofs.Volume.Confined

/-!
# A volume stays inside its stretch of the device

A volume is mounted from sectors that may hold anything, and then it is asked for anything. All that
its device is asked for lies inside the stretch of the volume, calls never touch the superblock, and
contents are read from and written to data blocks only. No index leaves its table on the way.

The device is traced, and nothing is known of it: it may answer a read with any bytes, and may
refuse any transfer.

## Main definitions

* `Request`: mounting, or a call.
* `Volume.served`: a volume after several requests.
* `Volume.Contained`: what is certain about a traced volume.

## Main results

* `Volume.mount_confined`: mounting asks for metadata only.
* `Volume.contained`: containment, after any requests.
-/

namespace PocketKernel

/-- What can be asked of a volume, mounting included. -/
inductive Request where
  | mount
  | call (call : Call)

/-- The operation of a request, without its answer. -/
def Request.operation {δ : Type} [BlockDevice δ] : Request → VolumeM δ Unit
  | .mount => VolumeM.mount
  | .call asked => asked.operation

namespace Geometry

/-- The sector belongs to the volume. -/
def Within (g : Geometry) (lba : ℕ) : Prop :=
  g.startLba ≤ lba ∧ lba < g.startLba + g.totalSectors

/-- The transfers of mounting: the superblock, the bitmaps and the inode table. -/
def Mounting (g : Geometry) (access : Access) : Prop :=
  g.startLba ≤ access.lba ∧ access.lba < g.lba g.dataStart

/-- The transfers of loading: reads of the same sectors. -/
def Loading (g : Geometry) (access : Access) : Prop := g.Mounting access ∧ access.IsRead

theorem mounting_lba (g : Geometry) {sector : ℕ} (h : sector < g.dataStart) :
    g.Mounting (.write (g.lba sector)) := by
  simp only [Mounting, Access.lba, lba]
  omega

theorem loading_lba (g : Geometry) {sector : ℕ} (h : sector < g.dataStart) :
    g.Loading (.read (g.lba sector)) :=
  ⟨g.mounting_lba h, trivial⟩

theorem Mounting.within {g : Geometry} {access : Access} (h : g.Mounting access) :
    g.Within access.lba := by
  have hend := g.dataStart_lt
  simp only [Mounting, Within, lba] at *
  omega

theorem Calling.within {g : Geometry} {access : Access} (h : g.Calling access) :
    g.Within access.lba := by
  have hend := g.dataStart_lt
  cases access with
  | read lba =>
    simp only [Calling, InData, Within, Access.lba, Geometry.lba] at *
    omega
  | write lba =>
    simp only [Calling, InData, InTables, Within, Access.lba, Geometry.lba] at *
    omega

/-- The number of a sector of the volume is a 32-bit number. -/
theorem Within.lt_size {g : Geometry} {lba : ℕ} (h : g.Within lba) : lba < UInt32.size :=
  Nat.lt_trans h.2 g.end_lt

end Geometry

namespace Volume

variable {δ α β : Type} [BlockDevice δ] {g : Geometry} {v w : Volume δ} {allowed : Access → Prop}

/-! ### Mounting -/

/-- The volume lies where the geometry says. -/
def Situated (g : Geometry) (v : Volume δ) : Prop := v.geometry = g

theorem Serves.bind_ends {I : Volume δ → Prop} {first : VolumeM δ β} {next : β → VolumeM δ α}
    {R : β → Prop} {post : Except Stop α → Volume δ → Prop} (hfirst : Serves I allowed first R)
    (hv : I v) (hnext : ∀ b w, R b → Served I allowed v w → w.Ends (next b) post)
    (hstop : ∀ cause w, Served I allowed v w → post (.error (.error cause)) w) :
    v.Ends (first >>= next) post := by
  refine Ends.bind (hfirst v hv) ?_ ?_
  · exact fun b w h => hnext b w h.2 h.1
  · rintro (cause | _) w ⟨hserved, hproper⟩
    · exact hstop cause w hserved
    · exact absurd rfl hproper

theorem serves_mapM {I : Volume δ → Prop} {step : β → VolumeM δ α} (items : List β)
    (hstep : ∀ item ∈ items, Serves I allowed (step item) fun _ => True) :
    Serves I allowed (items.mapM step) fun answers => answers.length = items.length := by
  induction items with
  | nil => exact serves_pure rfl
  | cons item items ih =>
    rw [List.mapM_cons]
    refine (hstep item (List.mem_cons_self ..)).bind fun answer _ => ?_
    refine (ih fun item hitem => hstep item (List.mem_cons_of_mem _ hitem)).bind
      fun answers hlength => serves_pure ?_
    rw [List.length_cons, List.length_cons, hlength]

theorem serves_forM {I : Volume δ → Prop} {step : β → VolumeM δ Unit} (items : List β)
    (hstep : ∀ item ∈ items, Serves I allowed (step item) fun _ => True) :
    Serves I allowed (items.forM step) fun _ => True := by
  induction items with
  | nil => exact serves_pure trivial
  | cons item items ih =>
    rw [List.forM_eq_forM, List.forM_cons]
    exact (hstep item (List.mem_cons_self ..)).bind fun _ _ =>
      ih fun item hitem => hstep item (List.mem_cons_of_mem _ hitem)

theorem serves_readMetadata {sector : ℕ} (h : sector < g.dataStart) :
    Serves (Situated g) g.Loading (VolumeM.readSector (g.lba sector) : VolumeM δ Sector)
      fun _ => True :=
  serves_readSector (fun _ _ => id) (g.loading_lba h)

/-- The table that is read has the length that the geometry says, whatever is in it. -/
theorem serves_loadTable :
    Serves (Situated g) g.Loading (VolumeM.loadTable : VolumeM δ (List Inode))
      fun inodes => inodes.length = g.inodeCount := by
  refine serves_get_bind fun v hv => ?_
  rw [Situated] at hv
  rw [hv]
  refine (serves_mapM _ fun tableSector h => ?_).bind fun sectors hlength => serves_pure ?_
  · exact serves_readMetadata (g.table_lt_dataStart (List.mem_range.mp h))
  · have hunpack (sector : Sector) : (VolumeM.unpackInodes sector).length = inodesPerSector := by
      rw [VolumeM.unpackInodes, List.length_map, List.length_range]
    have htotal : (sectors.flatMap VolumeM.unpackInodes).length
        = g.tableSectors * inodesPerSector := by
      rw [List.length_flatMap]
      simp [hunpack, List.map_const', hlength]
    rw [List.length_take, htotal]
    simp only [Geometry.tableSectors, tableSectorsFor, inodesPerSector]
    omega

/-- Loading reads metadata only, and what it copies has the sizes of the geometry. -/
theorem load_confined (hv : v.Situated g) :
    v.Ends VolumeM.load fun outcome w => Served (Situated g) g.Loading v w
      ∧ Stop.Proper (fun _ => w.Sized g) outcome := by
  unfold VolumeM.load
  rw [ends_get_bind, show v.geometry = g from hv]
  dsimp only
  refine (serves_readMetadata g.superblockSector_lt).bind_ends hv ?_
    fun cause w h => ⟨h, Stop.proper_error⟩
  intro superblock w₁ _ h₁
  split
  · exact ⟨h₁, Stop.proper_error⟩
  refine (serves_readMetadata g.inodeBitmapSector_lt).bind_ends h₁.holds ?_
    fun cause w h => ⟨h₁.trans h, Stop.proper_error⟩
  intro inodeSector w₂ _ h₂
  refine (serves_readMetadata g.blockBitmapSector_lt).bind_ends h₂.holds ?_
    fun cause w h => ⟨h₁.trans (h₂.trans h), Stop.proper_error⟩
  intro blockSector w₃ _ h₃
  refine serves_loadTable.bind_ends h₃.holds ?_
    fun cause w h => ⟨h₁.trans (h₂.trans (h₃.trans h)), Stop.proper_error⟩
  intro inodes w hlength h₄
  have h := h₁.trans (h₂.trans (h₃.trans h₄))
  split
  · exact ⟨h, Stop.proper_error⟩
  · exact ⟨⟨h.holds, h.mounted, h.asked⟩, h.holds, List.size_toArray.trans hlength, rfl, rfl⟩

omit [BlockDevice δ] in
theorem sized_prepared (hv : v.Situated g) : v.prepared.Sized g := by
  rw [Situated] at hv
  subst hv
  refine ⟨rfl, ?_, ?_, rfl⟩
  · simp [prepared]
  · exact Bitmap.length_set _ _

/-- Formatting writes metadata only. -/
theorem format_confined (hv : v.Situated g) :
    v.Ends VolumeM.format fun outcome w => Served (Sized g) g.Mounting v w
      ∧ Stop.Proper (fun _ => True) outcome := by
  have hwrites : Serves (Sized g) g.Mounting (do
      VolumeM.writeSector (g.lba superblockSector) (Sector.ofBytes g.superblock.bytes)
      VolumeM.flushInodeMap
      VolumeM.flushBlockMap
      (List.range g.tableSectors).forM VolumeM.flushTableSector : VolumeM δ Unit)
        fun _ => True := by
    refine (serves_writeSector Sized.device _ (g.mounting_lba g.superblockSector_lt)).bind
      fun _ _ => ?_
    refine (serves_flushInodeMap (g.mounting_lba g.inodeBitmapSector_lt)).bind fun _ _ => ?_
    refine (serves_flushBlockMap (g.mounting_lba g.blockBitmapSector_lt)).bind fun _ _ => ?_
    refine serves_forM _ fun tableSector h => ?_
    rw [List.mem_range] at h
    exact serves_flushTableSector h (g.mounting_lba (g.table_lt_dataStart h))
  have hsized := sized_prepared hv
  obtain rfl : v.geometry = g := hv
  unfold VolumeM.format
  rw [ends_get_bind]
  dsimp only
  rw [ends_modify_bind]
  change v.prepared.Ends _ _
  refine (hwrites _ hsized).mono ?_
  rintro outcome w ⟨hserved, hproper⟩
  exact ⟨⟨hserved.holds, hserved.mounted, hserved.asked⟩, hproper⟩

/-- What is certain about a volume at any time: a mounted one has copies of the right sizes. -/
structure Regular (g : Geometry) (v : Volume δ) : Prop where
  situated : v.Situated g
  sized : v.mounted = true → v.Sized g

/-- **Mounting asks for metadata only**, whatever it finds there. -/
theorem mount_confined (hv : v.Regular g) :
    v.Ends VolumeM.mount fun outcome w => w.Regular g ∧ Asked g.Mounting v.device w.device
      ∧ Stop.Proper (fun _ => True) outcome := by
  cases hmounted : v.mounted with
  | true =>
    rw [Ends, mount_mounted hmounted]
    exact ⟨hv, .nothing, trivial⟩
  | false =>
  unfold VolumeM.mount
  rw [ends_get_bind, if_neg (by rw [hmounted]; decide)]
  split
  · exact ⟨hv, .nothing, Stop.proper_error⟩
  refine Ends.attempt_bind (load_confined hv.situated) ?_ ?_ fun w h => absurd rfl h.2.ne_broken
  · rintro ⟨⟩ w ⟨hserved, hw⟩
    exact ⟨⟨hserved.holds, fun _ => ⟨hw.1, hw.2, hw.3, hw.4⟩⟩, hserved.asked.mono fun _ h => h.1,
      trivial⟩
  · rintro cause w ⟨hserved, -⟩
    have hasked := hserved.asked.mono fun access (h : g.Loading access) => h.1
    refine Ends.bind (format_confined hserved.holds) ?_ ?_
    · rintro ⟨⟩ x ⟨hformat, -⟩
      have hx := hformat.holds
      exact ⟨⟨hx.geometry, fun _ => ⟨hx.1, hx.2, hx.3, hx.4⟩⟩, hasked.trans hformat.asked, trivial⟩
    · rintro stop x ⟨hformat, hproper⟩
      exact ⟨⟨hformat.holds.geometry, fun _ => hformat.holds⟩, hasked.trans hformat.asked,
        hproper⟩

/-- **A call asks for data blocks, bitmaps and the inode table only.** -/
theorem call_confined (hv : v.Regular g) (call : Call) :
    v.Ends call.operation fun outcome w => w.Regular g ∧ Asked g.Calling v.device w.device
      ∧ Stop.Proper (fun _ => True) outcome := by
  cases hmounted : v.mounted with
  | false =>
    rw [Ends, call_unmounted hmounted]
    exact ⟨hv, .nothing, Stop.proper_error⟩
  | true =>
    refine (serves_call call v (hv.sized hmounted)).mono ?_
    rintro outcome w ⟨hserved, hproper⟩
    exact ⟨⟨hserved.holds.geometry, fun _ => hserved.holds⟩, hserved.asked, hproper⟩

/-! ### Any requests -/

theorem request_confined (hv : v.Regular g) (request : Request) :
    v.Ends request.operation fun outcome w => w.Regular g
      ∧ Asked (fun access => g.Within access.lba) v.device w.device
      ∧ Stop.Proper (fun _ => True) outcome := by
  cases request with
  | mount =>
    refine (mount_confined hv).mono ?_
    rintro outcome w ⟨hw, hasked, hproper⟩
    exact ⟨hw, hasked.mono fun _ => Geometry.Mounting.within, hproper⟩
  | call call =>
    refine (call_confined hv call).mono ?_
    rintro outcome w ⟨hw, hasked, hproper⟩
    exact ⟨hw, hasked.mono fun _ => Geometry.Calling.within, hproper⟩

/-- The volume after several requests. -/
def served (v : Volume δ) (requests : List Request) : Volume δ :=
  requests.foldl (fun left request => (left.run request.operation).2) v

theorem Regular.served (hv : v.Regular g) (requests : List Request) :
    (v.served requests).Regular g
      ∧ Asked (fun access => g.Within access.lba) v.device (v.served requests).device := by
  induction requests generalizing v with
  | nil => exact ⟨hv, .nothing⟩
  | cons request requests ih =>
    obtain ⟨hw, hasked, -⟩ := request_confined hv request
    obtain ⟨hend, hlater⟩ := ih hw
    exact ⟨hend, hasked.trans hlater⟩

omit [BlockDevice δ] in
theorem regular_unmounted (device : δ) (g : Geometry) : (Volume.unmounted device g).Regular g :=
  ⟨rfl, fun h => by cases h⟩

/-- An operation on a traced volume asks for nothing but this. -/
def AsksOnly (allowed : Access → Prop) (v : Volume (Traced δ)) (operation : VolumeM (Traced δ) α) :
    Prop :=
  ∃ asked, (v.run operation).2.device.log = v.device.log ++ asked
    ∧ ∀ access ∈ asked, allowed access

/-- What is certain about a traced volume on a device that was once in some state. -/
structure Contained (glance : δ → ℕ → Sector) (g : Geometry) (start : δ) (v : Volume (Traced δ)) :
    Prop where
  /-- Everything that was asked for lies in the volume, and sector numbers do not overflow. -/
  within : ∀ access ∈ v.device.log, g.Within access.lba ∧ access.lba < UInt32.size
  /-- The sectors outside of the volume are as they were. -/
  outside : ∀ lba, ¬ g.Within lba → glance v.device.device lba = glance start lba
  /-- The next request ends with an answer or a reported error: no index leaves its table. -/
  ends : ∀ request : Request, (v.run request.operation).1 ≠ .error .broken
  /-- Mounting asks for metadata only. -/
  mounting : v.AsksOnly g.Mounting VolumeM.mount
  /-- Calls read data blocks only, and do not write to the superblock. -/
  calling : ∀ call : Call, v.AsksOnly g.Calling call.operation
  /-- Contents are read from data blocks. -/
  reading : ∀ w : Volume (Traced δ), w.Sized g → ∀ index offset count,
    w.AsksOnly g.Looking (VolumeM.readContent index offset count)
  /-- Contents are written to data blocks. -/
  writing : ∀ w : Volume (Traced δ), w.Sized g → ∀ index < g.inodeCount, ∀ position data,
    position + data.length ≤ maxFileSize →
      w.AsksOnly g.Writing (VolumeM.writeChunks index position data)
  /-- Operations on a mounted volume meet copies of the right sizes. -/
  sized : v.mounted = true → v.Sized g
  /-- While a content is read, positions do not overflow. -/
  positions : ∀ (inode : Inode) offset count, offset < inode.size.toNat →
    offset + min count (inode.size.toNat - offset) < UInt32.size
  /-- No chunk leaves its sector. -/
  chunks : ∀ position left,
    position % sectorSize + VolumeM.chunkLength position left ≤ sectorSize

theorem AsksOnly.of_ends {operation : VolumeM (Traced δ) α} {v : Volume (Traced δ)}
    (h : v.Ends operation fun _ w => Asked allowed v.device w.device) :
    v.AsksOnly allowed operation :=
  Asked.log_eq h

/-- **Hostile sectors are contained.** A device holds anything, answers anything and fails at any
time; a volume on it is asked for anything. It stays inside its stretch of the device. -/
theorem contained {glance : δ → ℕ → Sector} (hglance : Glance glance) (g : Geometry) (start : δ)
    (requests : List Request) :
    ((Volume.unmounted (Traced.start start) g).served requests).Contained glance g start := by
  obtain ⟨hv, hasked⟩ := (regular_unmounted (Traced.start start) g).served requests
  generalize (Volume.unmounted (Traced.start start) g).served requests = v at hv hasked
  obtain ⟨asked, hlog, hwithin⟩ := hasked.log_eq
  refine
    { within := ?_
      outside := fun lba hlba => hasked.glance_eq hglance.traced hlba
      ends := fun request => (request_confined hv request).2.2.ne_broken
      mounting := .of_ends ((mount_confined hv).mono fun _ _ h => h.2.1)
      calling := fun call => .of_ends ((call_confined hv call).mono fun _ _ h => h.2.1)
      reading := ?_
      writing := ?_
      sized := hv.sized
      positions := ?_
      chunks := ?_ }
  · intro access hmem
    have hlba : g.Within access.lba := by
      rw [hlog, show (Volume.unmounted (Traced.start start) g).device.log = [] from rfl,
        List.nil_append] at hmem
      exact hwithin access hmem
    exact ⟨hlba, hlba.lt_size⟩
  · intro w hw index offset count
    exact .of_ends (((looks_readContent index offset count).ends hw).mono fun _ _ h => h.2.1)
  · intro w hw index hindex position data hend
    exact .of_ends ((serves_writeChunks hindex hend w hw).mono fun _ _ h => h.1.asked)
  · intro inode offset count hoffset
    have hsize : inode.size.toNat < UInt32.size := inode.size.toNat_lt
    omega
  · intro position left
    have hmod : position % sectorSize < sectorSize := Nat.mod_lt _ (by decide)
    rw [VolumeM.chunkLength]
    omega

/-- A volume whose root has one record, in a block far past the end. -/
def wild : RamDisk :=
  let formatted := ((Volume.unmounted (RamDisk.blank 20) .tiny).run VolumeM.mount).2.device
  (formatted.poke 3 4 [36, 0, 0, 0]).poke 3 12 [0xF0, 0xFF, 0xFF, 0xFF]

theorem contained_wild :
    let v := (Volume.unmounted (Traced.start wild) .tiny).served [.mount, .call (.mkdir ['/', 'a'])]
    Glance (LawfulDevice.sectorAt : RamDisk → ℕ → Sector) ∧ v.mounted = true
      ∧ (v.run (VolumeM.list ['/'])).1 = .error (.error .corrupt)
      ∧ v.Contained LawfulDevice.sectorAt .tiny wild :=
  ⟨glance_sectorAt, by decide +kernel, by decide +kernel,
    contained glance_sectorAt .tiny wild [.mount, .call (.mkdir ['/', 'a'])]⟩

end Volume

end PocketKernel
