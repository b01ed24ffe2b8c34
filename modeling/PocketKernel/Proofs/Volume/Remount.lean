import PocketKernel.Proofs.Volume.Agreement

/-!
# A volume is found again

After any run of a volume on a device that refuses no transfer, the device says what the memory
says, to the last bit. So the volume can be dropped at any time: mounting the device again makes the
same copies, stores nothing, and goes on to give the same answers.

## Main definitions

* `Volume.Alike`: devices that hold the same and refuse nothing.
* `Volume.Revived`: dropping a volume and mounting it again makes no difference.

## Main results

* `Volume.format_agrees`, `Volume.mount_agrees`: mounting brings memory and device in agreement.
* `Volume.revived_after`: so they are after any requests.
-/

namespace PocketKernel

/-- The call only asks. -/
def Call.Asks : Call → Prop
  | touch _ | mkdir _ | write _ _ _ _ => False
  | read _ _ _ | list _ | stat _ => True

namespace Volume

variable {δ α : Type} [BlockDevice δ] [LawfulDevice δ] {g : Geometry} {v w : Volume δ}
  {pending : Set Piece}

/-! ### Mounting -/

theorem Agrees.flushTable_ends (h : v.Agrees g pending) {tableSectors : List ℕ}
    (hlt : ∀ t ∈ tableSectors, t < g.tableSectors) :
    v.Ends (tableSectors.forM VolumeM.flushTableSector) fun outcome w => outcome = .ok ()
      ∧ w.Agrees g
        (pending \ {piece | ∃ t ∈ tableSectors, piece.sector = inodeTableStart + t}) := by
  induction tableSectors generalizing v pending with
  | nil => exact ⟨rfl, h.settle fun piece ⟨t, ht, _⟩ => absurd ht List.not_mem_nil⟩
  | cons t tableSectors ih =>
    rw [List.forM_eq_forM, List.forM_cons]
    refine (h.flushTableSector_ends (hlt t (List.mem_cons_self ..))).bind_ok fun w hw => ?_
    refine (ih hw fun t' ht' => hlt t' (List.mem_cons_of_mem _ ht')).mono ?_
    rintro outcome x ⟨rfl, hx⟩
    refine ⟨rfl, hx.mono ?_⟩
    rintro piece ⟨⟨hpending, hhead⟩, htail⟩
    refine ⟨hpending, ?_⟩
    rintro ⟨t', ht', hsector⟩
    rcases List.mem_cons.mp ht' with rfl | ht'
    · exact hhead hsector
    · exact htail ⟨t', ht', hsector⟩

/-- **Formatting** brings memory and device in agreement. -/
theorem format_agrees (hv : v.Placed g) (hdependable : LawfulDevice.Dependable v.device) :
    v.Ends VolumeM.format fun outcome w => outcome = .ok () ∧ w.Agrees g ∅ := by
  unfold VolumeM.format
  rw [ends_get_bind]
  dsimp only
  rw [ends_modify_bind]
  change v.prepared.Ends _ _
  have hshaped := shaped_prepared hv
  have hmemory := v.memory_prepared
  obtain ⟨rfl⟩ := hv.geometry
  refine (hshaped.writeSector_dependable hdependable _
    (v.geometry.lba_lt v.geometry.superblockSector_lt)).bind_ok ?_
  rintro w₁ ⟨htransferred, hsectors⟩
  -- Of the pieces, nothing is known to be stored yet.
  have h₁ : w₁.Agrees v.geometry Set.univ := by
    refine ⟨(htransferred.continues hshaped).shaped, htransferred.dependable hdependable,
      ?_, ?_, ?_, fun piece hpiece => absurd (Set.mem_univ piece) hpiece⟩
    · rw [hsectors, Function.update_self]
      exact v.geometry.accepts_superblock
    · rw [htransferred.copies]
      exact congrArg (fun image => (image.inode 0).isDirectory) hmemory
    · rw [htransferred.copies]
      exact congrArg (fun image => image.inodeUsed 0) hmemory
  refine h₁.flushInodeMap_ends.bind_ok fun w₂ h₂ => ?_
  refine h₂.flushBlockMap_ends.bind_ok fun w₃ h₃ => ?_
  refine (h₃.flushTable_ends fun t ht => List.mem_range.mp ht).mono ?_
  rintro outcome w ⟨rfl, hw⟩
  refine ⟨rfl, hw.shaped, hw.dependable, hw.accepted, hw.root, hw.used, fun piece _ => ?_⟩
  -- Every piece lies in one of the sectors, but for inodes past the end of the table.
  cases piece with
  | inodeMap => exact hw.stored _ fun hmem => hmem.1.1.2 rfl
  | blockMap => exact hw.stored _ fun hmem => hmem.1.2 rfl
  | inode index =>
    intro hin
    refine hw.stored (.inode index) (fun hmem => hmem.2 ⟨_, ?_, rfl⟩) hin
    rw [hw.shaped.geometry] at hin
    exact List.mem_range.mpr (v.geometry.div_lt_tableSectors hin)

/-- What is copied is what is stored. -/
theorem agrees_copied (hv : v.Placed g) (hdependable : LawfulDevice.Dependable v.device)
    (hload : v.snapshot.Loadable g) : v.copied.Agrees g ∅ := by
  have hinodes := v.getD_copiedInodes
  refine ⟨shaped_copied hv, hdependable, ?_, ?_, hload.used, fun piece _ => ?_⟩
  · obtain ⟨rfl⟩ := hv.geometry
    exact hload.accepted
  · exact (congrArg (fun inode => (inode 0).isDirectory) hinodes).trans hload.directory
  · cases piece with
    | inodeMap => rfl
    | blockMap => rfl
    | inode index =>
      intro hin
      refine Eq.trans ?_ (congrFun hinodes index).symm
      exact (if_pos hin).symm

theorem Agrees.opened (h : v.Agrees g pending) : { v with mounted := true }.Agrees g pending := by
  have hv := h.shaped
  refine ⟨⟨hv.1, hv.2, hv.3, hv.4, hv.5⟩, h.dependable, h.accepted, h.root, h.used, ?_⟩
  intro piece hpiece
  have hstored := h.stored piece hpiece
  cases piece with
  | _ => exact hstored

/-- **Mounting**, by loading or by formatting, brings memory and device in agreement. -/
theorem mount_agrees (hgeometry : v.geometry = g) (hmounted : v.mounted = false)
    (hdependable : LawfulDevice.Dependable v.device) :
    v.Ends VolumeM.mount fun outcome w => outcome = .ok () →
      w.mounted = true ∧ w.Agrees g ∅ := by
  unfold VolumeM.mount
  rw [ends_get_bind, if_neg (by rw [hmounted]; decide)]
  split
  · exact fun h => by cases h
  rename_i hlarge
  have hv : v.Placed g := by
    rw [hgeometry] at hlarge
    exact ⟨hgeometry, Nat.le_of_not_lt hlarge⟩
  have hfault {x : Volume δ} {p : Prop} (h : v.Faulted x) : p := absurd hdependable h.2
  refine Ends.attempt_bind (load_ends hv) ?_ ?_ ?_
  · rintro ⟨⟩ w ⟨x, hx, ⟨-, hload, rfl⟩ | ⟨⟨⟩, -⟩ | ⟨⟨⟩, -⟩⟩
    rw [← hx.snapshot] at hload
    exact fun _ => ⟨rfl, (agrees_copied (hv.fetched hx)
      (hx.transferred.dependable hdependable) hload).opened⟩
  · rintro cause w ⟨x, hx, ⟨⟨⟩, -⟩ | ⟨-, -, rfl⟩ | ⟨-, h, -⟩⟩
    · refine (format_agrees (hv.fetched hx) (hx.transferred.dependable hdependable)).bind_ok ?_
      exact fun w hw _ => ⟨rfl, hw.opened⟩
    · exact hfault h
  · rintro w ⟨x, hx, ⟨⟨⟩, -⟩ | ⟨⟨⟩, -⟩ | ⟨⟨⟩, -⟩⟩

/-! ### Any requests -/

theorem Agrees.request (h : v.Agrees g ∅) (hmounted : v.mounted = true) (request : Request) :
    (v.run request.operation).2.Agrees g ∅
      ∧ (v.run request.operation).2.mounted = true := by
  cases request with
  | mount =>
    rw [Request.operation, mount_mounted hmounted]
    exact ⟨h, hmounted⟩
  | call call =>
    have hserved := (callInvariant_agrees.call call v h).1
    exact ⟨hserved.holds, hserved.mounted.trans hmounted⟩

theorem Agrees.served (h : v.Agrees g ∅) (hmounted : v.mounted = true) (requests : List Request) :
    (v.served requests).Agrees g ∅ ∧ (v.served requests).mounted = true := by
  induction requests generalizing v with
  | nil => exact ⟨h, hmounted⟩
  | cons request requests ih =>
    obtain ⟨hnext, hopen⟩ := h.request hmounted request
    exact ih hnext hopen

/-! ### Mounting once more -/

/-- The copies that a mount would make are those that there are. -/
theorem Agrees.copied_eq (h : v.Agrees g ∅) : v.copied = v := by
  have hstored (piece : Piece) : v.Stored piece := h.stored piece fun hmem => hmem.elim
  have hinodes : v.copiedInodes.toArray = v.inodes := by
    have hsize : v.copiedInodes.length = v.inodes.size := by
      rw [length_copiedInodes, h.shaped.size_inodes, h.shaped.geometry]
    refine Array.ext (by rw [List.size_toArray, hsize]) fun k hk hk' => ?_
    have hin : k < v.geometry.inodeCount := by rwa [h.shaped.geometry, ← h.shaped.size_inodes]
    have hcopied := v.getElem?_copiedInodes hin
    simp only [snapshot, if_pos hin, hstored (.inode k) hin] at hcopied
    rw [List.getElem_toArray]
    refine Option.some.inj ((List.getElem?_eq_getElem _).symm.trans (hcopied.trans ?_))
    simp [hk']
  have hinodeMap : v.storedInodeMap = v.inodeMap := hstored .inodeMap
  have hblockMap : v.storedBlockMap = v.blockMap := hstored .blockMap
  rw [copied, hinodes, hinodeMap, hblockMap]

/-- A device agrees with the memory whatever copies are there, so the volume will be loaded. -/
theorem Agrees.loadable (h : v.Agrees g ∅) :
    (Volume.unmounted v.device g).snapshot.Loadable g := by
  obtain rfl := h.shaped.geometry
  have hstored (piece : Piece) : v.Stored piece := h.stored piece fun hmem => hmem.elim
  refine ⟨h.accepted, ?_, ?_⟩
  · refine Eq.trans ?_ h.root
    rw [← hstored (.inode 0) v.geometry.inodeCount_pos]
    exact congrArg Inode.isDirectory (if_pos v.geometry.inodeCount_pos)
  · exact (congrArg (·.isSet 0) (hstored .inodeMap)).trans h.used

/-- Devices that hold the same and refuse nothing. -/
structure Alike (g : Geometry) (d e : δ) : Prop where
  sectors : LawfulDevice.sectorAt e = LawfulDevice.sectorAt d
  capacity : BlockDevice.capacity e = BlockDevice.capacity d
  fits : g.startLba + g.totalSectors ≤ BlockDevice.capacity d
  first : LawfulDevice.Dependable d
  second : LawfulDevice.Dependable e

/-- Mounting a device that agrees with the memory of a volume brings that volume back. -/
theorem Agrees.remount (h : v.Agrees g ∅) (hmounted : v.mounted = true) :
    (Volume.unmounted v.device g).Ends VolumeM.mount fun outcome w => outcome = .ok ()
      ∧ w = { v with device := w.device } ∧ Asked g.Loading v.device w.device
      ∧ Alike g v.device w.device := by
  have hv : (Volume.unmounted v.device g).Placed g := ⟨rfl, h.shaped.fits⟩
  have hfault {x : Volume δ} {p : Prop} (hx : (Volume.unmounted v.device g).Faulted x) : p :=
    absurd h.dependable hx.2
  have hlarge : ¬ BlockDevice.capacity (Volume.unmounted v.device g).device
      < (Volume.unmounted v.device g).geometry.startLba
        + (Volume.unmounted v.device g).geometry.totalSectors := Nat.not_lt.mpr hv.fits
  unfold VolumeM.mount
  rw [ends_get_bind, if_neg (by exact nofun), if_neg hlarge]
  refine Ends.attempt_bind ((load_ends hv).and (load_confined rfl)) ?_ ?_ ?_
  · rintro ⟨⟩ w ⟨⟨x, hx, ⟨-, -, rfl⟩ | ⟨⟨⟩, -⟩ | ⟨⟨⟩, -⟩⟩, hserved, -⟩
    have hsectors : LawfulDevice.sectorAt x.device = LawfulDevice.sectorAt v.device := hx.sectors
    refine ⟨rfl, ?_, hserved.asked, ⟨hsectors, hx.transferred.capacity, hv.fits, h.dependable,
      hx.transferred.dependable h.dependable⟩⟩
    have hcopied : { x.copied with mounted := true } = { v.copied with device := x.device } := by
      obtain rfl := h.shaped.geometry
      rw [hx.transferred.copies]
      simp only [copied, storedInodeMap, storedBlockMap, copiedInodes, sectorAt, hsectors, hmounted,
        Volume.unmounted]
    show { x.copied with mounted := true } = { v with device := x.device }
    rw [hcopied, h.copied_eq]
  · rintro cause w ⟨⟨x, hx, ⟨⟨⟩, -⟩ | ⟨-, hnot, -⟩ | ⟨-, hx', -⟩⟩, -⟩
    · exact absurd h.loadable hnot
    · exact hfault hx'
  · rintro w ⟨⟨x, hx, ⟨⟨⟩, -⟩ | ⟨⟨⟩, -⟩ | ⟨⟨⟩, -⟩⟩, -⟩

/-! ### The same answers -/

theorem blind_alike : Blind g (Alike g : δ → δ → Prop) := by
  have hread {d : δ} {lba : ℕ} (hdependable : LawfulDevice.Dependable d)
      (hlt : lba < BlockDevice.capacity d) :
      (BlockDevice.read lba d).1 = .ok (LawfulDevice.sectorAt d lba) := by
    obtain ⟨sector, hsector⟩ := (LawfulDevice.read_of_dependable hdependable hlt).1
    rw [hsector, LawfulDevice.eq_sectorAt_of_read hsector]
  refine ⟨fun {d e lba} h hlba => ?_, fun {d e lba} h hlba => ?_⟩
  · have hlt := Nat.lt_of_lt_of_le hlba.2 h.fits
    rw [hread h.first hlt, hread h.second (by rw [h.capacity]; exact hlt), h.sectors]
  · have hlt := Nat.lt_of_lt_of_le hlba.2 h.fits
    have hlt' : lba < BlockDevice.capacity e := by rw [h.capacity]; exact hlt
    refine ⟨?_, ?_, ?_, (LawfulDevice.read_of_dependable h.first hlt).2,
      (LawfulDevice.read_of_dependable h.second hlt').2⟩
    · rw [LawfulDevice.sectorAt_read, LawfulDevice.sectorAt_read, h.sectors]
    · rw [LawfulDevice.capacity_read, LawfulDevice.capacity_read, h.capacity]
    · rw [LawfulDevice.capacity_read]
      exact h.fits

omit [LawfulDevice δ] in
theorem looks_call {call : Call} (h : call.Asks) :
    Looks g (call.operation : VolumeM δ Unit) fun _ => True := by
  cases call with
  | touch path => exact h.elim
  | mkdir path => exact h.elim
  | write path offset data truncate => exact h.elim
  | read path offset count =>
    exact (looks_read path offset count).bind fun _ _ => looks_pure trivial
  | list path => exact (looks_list path).bind fun _ _ => looks_pure trivial
  | stat path => exact (looks_stat path).bind fun _ _ => looks_pure trivial

/-- An operation that looks gives the same answer on devices that are alike. -/
theorem Looks.run_eq {operation : VolumeM δ α} {P : α → Prop} (h : Looks g operation P)
    (hv : v.Sized g) {e : δ} (halike : Alike g v.device e) :
    ({ v with device := e }.run operation).1 = (v.run operation).1 := by
  obtain ⟨outcome, d', e', hd, he, -⟩ := h _ blind_alike v e hv halike
  rw [hd, he]

/-- After calls that only ask, two volumes that were the same but for alike devices are so still. -/
theorem served_alike (hv : v.Sized g) {e : δ} (halike : Alike g v.device e) {calls : List Call}
    (hasks : ∀ call ∈ calls, call.Asks) :
    ∃ d' e', v.served (calls.map .call) = { v with device := d' }
      ∧ { v with device := e }.served (calls.map .call) = { v with device := e' }
      ∧ Alike g d' e' := by
  induction calls generalizing v e with
  | nil => exact ⟨v.device, e, rfl, rfl, halike⟩
  | cons call calls ih =>
    obtain ⟨outcome, d', e', hd, he, halike', -⟩ :=
      looks_call (hasks call (List.mem_cons_self ..)) _ blind_alike v e hv halike
    have hnext := ih (v := { v with device := d' }) (hv.device v d') halike'
      fun call' hcall => hasks call' (List.mem_cons_of_mem _ hcall)
    rw [List.map_cons, served, List.foldl_cons, Request.operation, hd, served, List.foldl_cons,
      Request.operation, he]
    exact hnext

/-- Whoever asks either of two volumes gets the same answer. -/
structure SameAnswers (v w : Volume δ) : Prop where
  usage : w.usage = v.usage
  stat : ∀ path, (w.run (VolumeM.stat path)).1 = (v.run (VolumeM.stat path)).1
  list : ∀ path, (w.run (VolumeM.list path)).1 = (v.run (VolumeM.list path)).1
  read : ∀ path offset count,
    (w.run (VolumeM.read path offset count)).1 = (v.run (VolumeM.read path offset count)).1

theorem sameAnswers_of_alike (hv : v.Sized g) {e : δ} (halike : Alike g v.device e) :
    v.SameAnswers { v with device := e } where
  usage := rfl
  stat path := (looks_stat path).run_eq hv halike
  list path := (looks_list path).run_eq hv halike
  read path offset count := (looks_read path offset count).run_eq hv halike

/-- How mounting the device of a volume ends if it brings that volume back: nothing is stored, the
copies are those of the volume, and however often the two are asked, they give the same answers. -/
structure Revived (g : Geometry) (v : Volume δ) (outcome : Except Stop Unit) (w : Volume δ) :
    Prop where
  outcome : outcome = .ok ()
  asked : Asked g.Loading v.device w.device
  copies : w = { v with device := w.device }
  answers : ∀ calls : List Call, (∀ call ∈ calls, call.Asks) →
    (v.served (calls.map .call)).SameAnswers (w.served (calls.map .call))

theorem Agrees.revived (h : v.Agrees g ∅) (hmounted : v.mounted = true) :
    (Volume.unmounted v.device g).Ends VolumeM.mount (v.Revived g) := by
  refine (h.remount hmounted).mono ?_
  rintro outcome w ⟨houtcome, hcopies, hasked, halike⟩
  refine ⟨houtcome, hasked, hcopies, fun calls hasks => ?_⟩
  obtain ⟨d', e', hd, he, halike'⟩ := served_alike h.sized halike hasks
  rw [hcopies, hd, he]
  exact sameAnswers_of_alike (v := { v with device := d' }) (h.sized.device v d') halike'

/-- **Memory and device agree after every operation** on a device that refuses no transfer, whatever
was on it when it was mounted: what would be copied from it is what there is, and mounting it again
brings the volume back without a store. -/
theorem revived_after {device : δ} (hdependable : LawfulDevice.Dependable device)
    (hmount : ((Volume.unmounted device g).run VolumeM.mount).1 = .ok ())
    (requests : List Request) :
    let v := ((Volume.unmounted device g).run VolumeM.mount).2.served requests
    v.copied = v ∧ (Volume.unmounted v.device g).Ends VolumeM.mount (v.Revived g) := by
  obtain ⟨hmounted, hagrees⟩ := mount_agrees (v := .unmounted device g) rfl rfl hdependable hmount
  obtain ⟨h, hopen⟩ := hagrees.served hmounted requests
  exact ⟨h.copied_eq, h.revived hopen⟩

end Volume

/-- A volume of ten inodes, so that the second sector of its table is not full. -/
def Geometry.ragged : Geometry where
  startLba := 3
  totalSectors := 20
  inodeCount := 10
  inodeCount_pos := by decide
  inodeCount_le := by decide
  table_lt := by decide
  blocks_le := by decide
  end_lt := by decide

theorem Volume.revived_after_ragged :
    let v := ((Volume.unmounted (RamDisk.blank 23) .ragged).run VolumeM.mount).2.served
      [.call (.mkdir ['/', 'd']), .call (.touch ['/', 'd', '/', 'f']),
        .call (.write ['/', 'd', '/', 'f'] 0 [1, 2, 3] true), .call (.touch ['/', 'x', '/', 'y'])]
    let again := (Volume.unmounted v.device .ragged).run VolumeM.mount
    v.usage = ⟨3, 10, 3, 15⟩ ∧ v.copied = v ∧ v.Revived .ragged again.1 again.2
      ∧ again.2.device.writes = v.device.writes := by
  have hmount : ((Volume.unmounted (RamDisk.blank 23) .ragged).run VolumeM.mount).1 = .ok () := by
    decide +kernel
  refine ⟨by decide +kernel, ?_, ?_, by decide +kernel⟩
  · exact (Volume.revived_after (by rfl) hmount _).1
  · exact (Volume.revived_after (by rfl) hmount _).2

end PocketKernel
