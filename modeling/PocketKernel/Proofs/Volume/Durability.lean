import PocketKernel.Proofs.Volume.Session

/-!
# What was written stays written

After a write has been acknowledged, the inode that it worked on is stored as it is in memory. No
operation on another inode changes it any more, whatever transfers are refused and however often
the volume is dropped, so its bytes can be read as long as nobody writes to it again.

That it is a file is another matter. A directory may keep a parent that was given up, `..` leads
there all the same, and a write to what it finds is acknowledged. Such an inode is not live, and
does not come to life later on.

## Main definitions

* `Snapshot.Secure`: an inode is stored with its content.
* `Event.WritesTo`, `Session.Unwritten`: nobody writes to an inode.

## Main results

* `Session.acknowledged_write_survives`: the bytes survive, and the inode is a file if it was live.
* `Session.acknowledged_write_not_file`: it need not be.
-/

namespace PocketKernel

theorem Inode.kind_eq_file_iff {x : Inode} (h : x.isDirectory = false) :
    x.kind = .file ↔ x.isLive = true := by
  simp only [isDirectory, isLive, decide_eq_false_iff_not, decide_eq_true_eq] at *
  cases hkind : x.kind with
  | free => simp
  | directory => exact absurd hkind h
  | file => simp

namespace Snapshot

variable {g : Geometry} {index : ℕ} {x : Inode} {bytes : List UInt8} {w w' : Snapshot}

/-- An inode is in use and stored as it is in memory, and this is its content. -/
structure Secure (g : Geometry) (index : ℕ) (x : Inode) (bytes : List UInt8) (w : Snapshot) :
    Prop where
  known : w.Known g index
  inode : ∀ c, (w.image c).inode index = x
  file : x.isDirectory = false
  content : w.content x = bytes

theorem Secure.spares (hw : w.Sound g) (h : w.Secure g index x bytes)
    (hspares : Spares index w w') : w'.Secure g index x bytes := by
  have hmemory : w'.memory.inode index = x := hspares.memory_inode.trans (h.inode .memory)
  have hdisk : w'.disk.inode index = x :=
    hspares.disk_inode.elim (·.trans (h.inode .disk)) (·.trans (h.inode .memory))
  have hinode (c : Copy) : (w'.image c).inode index = x := by
    cases c with
    | memory => exact hmemory
    | disk => exact hdisk
  refine ⟨⟨h.known.lt, ?_, fun c => ?_⟩, hinode, h.file, ?_⟩
  · rintro (_ | _)
    · exact hspares.memory_used.trans (h.known.used .memory)
    · exact hspares.disk_used.elim (·.trans (h.known.used .disk)) (·.trans (h.known.used .memory))
  · rw [hinode c, ← h.inode c]
    exact h.known.ne_blank c
  · have hcontent := hspares.content_eq hw (h.known.ne_blank .memory)
    have hinode' := h.inode .memory
    rw [image_memory] at hinode'
    rw [hmemory, hinode'] at hcontent
    exact hcontent.trans h.content

theorem Secure.crash (h : w.Secure g index x bytes) : w.crash.Secure g index x bytes := by
  refine ⟨h.known.crash, ?_, h.file, h.content⟩
  rintro (_ | _)
  · exact h.inode .disk
  · exact h.inode .disk

/-- Reading a stretch gives a part of the content. -/
theorem bytesAt_eq_take_drop (w : Snapshot) (x : Inode) (offset count : ℕ) :
    w.bytesAt x offset (min count (x.size.toNat - offset))
      = ((w.content x).drop offset).take count := by
  apply List.ext_getElem?
  intro k
  rw [List.getElem?_take, List.getElem?_drop, bytesAt, content, List.getElem?_map,
    List.getElem?_map]
  by_cases hk : k < min count (x.size.toNat - offset)
  · rw [if_pos (by omega), List.getElem?_range hk, List.getElem?_range (by omega)]
    rfl
  · rw [List.getElem?_eq_none (by rw [List.length_range]; omega)]
    by_cases hcount : k < count
    · rw [if_pos hcount, List.getElem?_eq_none (by rw [List.length_range]; omega)]
      rfl
    · rw [if_neg hcount]
      rfl

end Snapshot

namespace Volume

variable {δ : Type} [BlockDevice δ] [LawfulDevice δ] {g : Geometry} {v w : Volume δ} {index : ℕ}
  {x : Inode} {bytes : List UInt8}

/-- A dependable device gives the content of an inode. -/
theorem run_readContent (hv : v.Shaped g) (hw : v.snapshot.Sound g)
    (hdependable : LawfulDevice.Dependable v.device) (h : v.snapshot.Secure g index x bytes)
    (offset count : ℕ) :
    (v.run (VolumeM.readContent index offset count)).1 = .ok ((bytes.drop offset).take count) := by
  have hends := readContent_ends hv hw h.known offset count
  have hinode := h.inode .memory
  rw [Snapshot.image_memory] at hinode
  rw [hinode, Snapshot.bytesAt_eq_take_drop, h.content] at hends
  rcases hends.outcome with hanswer | ⟨-, hfault⟩
  · exact hanswer
  · exact absurd hdependable hfault.2

/-- An inode and its content are safe, while the volume is mounted and while it is not. -/
structure Preserves (g : Geometry) (index : ℕ) (x : Inode) (bytes : List UInt8) (v : Volume δ) :
    Prop where
  placed : v.Placed g
  sound : v.snapshot.crash.Sound g
  stored : v.snapshot.crash.Secure g index x bytes
  mounted : v.mounted = true → v.Shaped g ∧ v.snapshot.Sound g ∧ v.snapshot.Secure g index x bytes

theorem Preserves.of_secure (hv : v.Shaped g) (hw : v.snapshot.Sound g)
    (h : v.snapshot.Secure g index x bytes) : v.Preserves g index x bytes :=
  ⟨hv.placed, hw.crash, h.crash, fun _ => ⟨hv, hw, h⟩⟩

/-- While a volume is not mounted, it is enough to look at the device. -/
theorem Preserves.of_crash (h : v.Preserves g index x bytes) (hplaced : w.Placed g)
    (hmounted : w.mounted = false) (hsame : w.snapshot.crash = v.snapshot.crash) :
    w.Preserves g index x bytes :=
  ⟨hplaced, by rw [hsame]; exact h.sound, by rw [hsame]; exact h.stored,
    (fun hopen => by rw [hmounted] at hopen; cases hopen)⟩

/-- A call that does not write to an inode spares it. -/
theorem Effect.spares {asked : Call} {outcome : Except Stop Unit}
    (hknown : v.snapshot.Known g index)
    (hfile : (v.snapshot.memory.inode index).isDirectory = false)
    (hother : ∀ path offset data truncate, asked = .write path offset data truncate →
      (v.run (VolumeM.resolve path)).1 ≠ .ok index)
    (h : v.Effect g asked outcome w) : v.snapshot.Spares index w.snapshot := by
  cases h with
  | same hsame =>
    rw [hsame]
    exact .refl _ _
  | touched hcreated => exact hcreated.spares hknown hfile
  | made hcreated => exact hcreated.spares hknown hfile
  | written hrun hresolve hrewrites =>
    refine hrewrites.reworks.spares index ?_
    rintro rfl
    exact hother _ _ _ _ rfl hrun

theorem Preserves.call (h : v.Preserves g index x bytes) (asked : Call)
    (hother : v.mounted = true → ∀ path offset data truncate,
      asked = .write path offset data truncate → (v.run (VolumeM.resolve path)).1 ≠ .ok index) :
    (v.run asked.operation).2.Preserves g index x bytes := by
  cases hmounted : v.mounted with
  | false =>
    rw [call_unmounted hmounted]
    exact h
  | true =>
    obtain ⟨hshaped, hsound, hsecure⟩ := h.mounted hmounted
    obtain ⟨hcontinues, heffect⟩ := call_ends hshaped hsound asked
    have hfile : (v.snapshot.memory.inode index).isDirectory = false := by
      rw [← Snapshot.image_memory, hsecure.inode .memory]
      exact hsecure.file
    have hspares := heffect.spares hsecure.known hfile (hother hmounted)
    exact .of_secure hcontinues.shaped (heffect.sound hsound) (hsecure.spares hsound hspares)

/-- What is stored is what mounting finds: it does not format the volume again. -/
theorem Preserves.mount (h : v.Preserves g index x bytes) :
    (v.run VolumeM.mount).2.Preserves g index x bytes
      ∧ (LawfulDevice.Dependable v.device →
        (v.run VolumeM.mount).2.mounted = true
          ∧ LawfulDevice.Dependable (v.run VolumeM.mount).2.device) := by
  cases hmounted : v.mounted with
  | true =>
    rw [mount_mounted hmounted]
    exact ⟨h, fun hdependable => ⟨hmounted, hdependable⟩⟩
  | false =>
    have hload := loadable_of_sound h.sound
    obtain ⟨hmounts, hdependable⟩ := mount_ends h.placed.geometry hmounted
    generalize v.run VolumeM.mount = result at hmounts hdependable
    obtain ⟨outcome, w⟩ := result
    cases hmounts with
    | tooSmall hsmall => exact absurd h.placed.fits (Nat.not_le.mpr hsmall)
    | loaded hopen hshaped hload hw =>
      refine ⟨.of_secure hshaped ?_ ?_, fun hv => ⟨hopen, hdependable hv⟩⟩
      · rw [hw]; exact h.sound
      · rw [hw]; exact h.stored
    | formatted hopen hshaped hnot hw => exact absurd hload hnot
    | refused hclosed hplaced hfault hsame =>
      exact ⟨h.of_crash hplaced hclosed hsame, fun hv => absurd hv hfault.2⟩
    | interrupted hclosed hplaced hfault hnot hraw => exact absurd hload hnot

/-- **An acknowledged write** leaves an inode of the same kind, and it is safe. -/
theorem preserves_of_write (hv : v.Standing g) {path : Text} {offset count : ℕ} {data : List UInt8}
    {truncate : Bool} (hresolve : (v.run (VolumeM.resolve path)).1 = .ok index)
    (hwrite : v.run (VolumeM.write path offset data truncate) = (.ok count, w)) :
    w.mounted = true ∧ (w.snapshot.memory.inode index).Kin (v.snapshot.memory.inode index)
      ∧ (v.snapshot.memory.inode index).isDirectory = false
      ∧ w.Preserves g index (w.snapshot.memory.inode index)
        (w.snapshot.content (w.snapshot.memory.inode index)) := by
  cases hmounted : v.mounted with
  | false =>
    rw [VolumeM.write, run_requireMounted_bind hmounted] at hwrite
    cases hwrite
  | true =>
  obtain ⟨hshaped, hsound⟩ := hv.mounted hmounted
  obtain ⟨hcontinues, ⟨-, stop, ⟨⟩⟩ | ⟨target, hrun, hfound, hrewrites, hstored⟩⟩ :=
    (write_ends hshaped hsound path offset data truncate).of_run hwrite
  have htarget : target = index := by
    rw [hresolve] at hrun
    cases hrun
    rfl
  subst htarget
  obtain ⟨hresolved, hfile⟩ := Snapshot.of_resolveFile_eq_ok hfound
  have hknown := hsound.known_resolve hresolved
  have hkin := hrewrites.reworks.memory_kin
  obtain ⟨hblank, hsame⟩ := hstored count rfl
  have hinode (c : Copy) : (w.snapshot.image c).inode target = w.snapshot.memory.inode target := by
    cases c with
    | memory => rfl
    | disk => exact hsame
  have hknown' : w.snapshot.Known g target := by
    refine ⟨hknown.lt, fun c => ?_, fun c => ?_⟩
    · rw [hrewrites.reworks.inodeUsed c]
      exact hknown.used c
    · rw [hinode c]
      exact hblank
  exact ⟨hcontinues.mounted.trans hmounted, hkin, hfile, .of_secure hcontinues.shaped
    hrewrites.sound ⟨hknown', hinode, hkin.isDirectory_eq.trans hfile, rfl⟩⟩

end Volume

/-- An event writes to an inode, if it gets that far. -/
def Event.WritesTo (index : ℕ) (v : Volume RamDisk) : Event → Prop
  | .call (.write path _ _ _) => v.mounted = true ∧ (v.run (VolumeM.resolve path)).1 = .ok index
  | _ => False

namespace Session

variable {g : Geometry} {v : Volume RamDisk} {index : ℕ} {x : Inode} {bytes : List UInt8}

/-- None of several events writes to an inode. -/
def Unwritten (index : ℕ) : Volume RamDisk → List Event → Prop
  | _, [] => True
  | v, event :: events => ¬ event.WritesTo index v ∧ Unwritten index (event.apply v) events

/-! ### Steps and runs -/

theorem preserves_of_fault (h : v.Preserves g index x bytes) {disk : RamDisk}
    (hsectors : disk.sectors = v.device.sectors) :
    { v with device := disk }.Preserves g index x bytes := by
  have hsnapshot := snapshot_of_fault hsectors
  refine ⟨placed_of_fault h.placed hsectors, ?_, ?_, fun hmounted => ?_⟩
  · rw [hsnapshot]
    exact h.sound
  · rw [hsnapshot]
    exact h.stored
  · rw [hsnapshot]
    exact ⟨shaped_of_fault (h.mounted hmounted).1 hsectors, (h.mounted hmounted).2⟩

theorem preserves_apply (h : v.Preserves g index x bytes) (event : Event)
    (hother : ¬ event.WritesTo index v) : (event.apply v).Preserves g index x bytes := by
  cases event with
  | mount => exact h.mount.1
  | call asked =>
    refine h.call asked ?_
    rintro hmounted path offset data truncate rfl hrun
    exact hother ⟨hmounted, hrun⟩
  | failAfter transfers => exact preserves_of_fault h rfl
  | heal => exact preserves_of_fault h rfl
  | crash => exact h.of_crash ⟨h.placed.geometry, h.placed.fits⟩ rfl rfl

theorem preserves_resume (h : v.Preserves g index x bytes) {events : List Event}
    (hunwritten : Unwritten index v events) : (resume v events).Preserves g index x bytes := by
  induction events generalizing v with
  | nil => exact h
  | cons event events ih => exact ih (preserves_apply h event hunwritten.1) hunwritten.2

/-- **Acknowledged data survives.** After a write was acknowledged and as long as none goes to the
same inode, once the disk is healed and the volume mounted the inode has the size it had, any
stretch of it can be read, and gives the bytes it gave right after the write. It is a file exactly
if it was live when it was written to. -/
theorem acknowledged_write_survives (g : Geometry) (count : ℕ) (events later : List Event)
    {path : Text} {offset : ℕ} {data : List UInt8} {truncate : Bool} {index n : ℕ}
    (hresolve : ((after g count events).run (VolumeM.resolve path)).1 = .ok index)
    (hwrite : ((after g count events).run (VolumeM.write path offset data truncate)).1
      = .ok n)
    (hlater : Unwritten index (after g count (events ++ [.call (.write path offset data truncate)]))
      later) :
    let v := after g count (events ++ [.call (.write path offset data truncate)])
    let w := resume v (later ++ [.heal, .mount])
    w.mounted = true
      ∧ (w.snapshot.memory.inode index).size = (v.snapshot.memory.inode index).size
      ∧ ((w.snapshot.memory.inode index).kind = .file
        ↔ ((after g count events).snapshot.memory.inode index).isLive = true)
      ∧ ∀ start length, ∃ bytes,
        ((Event.heal.apply v).run (VolumeM.readContent index start length)).1 = .ok bytes
          ∧ (w.run (VolumeM.readContent index start length)).1 = .ok bytes := by
  intro v w
  have hv : v = ((after g count events).run (VolumeM.write path offset data truncate)).2 := by
    show after g count (events ++ _) = _
    rw [after_append]
    show ((after g count events).run (Call.operation _)).2 = _
    rw [Call.operation, Volume.run_unit]
  obtain ⟨hopen, hkin, hfile, hv'⟩ := Volume.preserves_of_write (standing g count events) hresolve
    (Prod.ext hwrite hv.symm : _ = (Except.ok n, v))
  have hw : w = ((Event.heal.apply (resume v later)).run VolumeM.mount).2 := resume_append _ _ _
  have hhealed := preserves_apply (preserves_resume hv' hlater) .heal id
  obtain ⟨hw', hdependable⟩ := hhealed.mount
  rw [← hw] at hw' hdependable
  obtain ⟨hmounted, hdependable⟩ := hdependable rfl
  obtain ⟨hshaped, hsound, hsecure⟩ := hw'.mounted hmounted
  have hinode : w.snapshot.memory.inode index = v.snapshot.memory.inode index :=
    hsecure.inode .memory
  refine ⟨hmounted, by rw [hinode], ?_, fun start length => ⟨_, ?_,
    Volume.run_readContent hshaped hsound hdependable hsecure start length⟩⟩
  · rw [hinode, hkin.1]
    exact Inode.kind_eq_file_iff hfile
  · obtain ⟨hshaped', hsound', hsecure'⟩ :=
      (preserves_apply hv' .heal id).mounted hopen
    exact Volume.run_readContent hshaped' hsound' rfl hsecure' start length

/-- A write is followed by a directory that is cut short after three transfers, and by a crash. -/
theorem acknowledged_write_survives_crash :
    let u := after .tiny 20 [.mount, .call (.touch ['/', 'a'])]
    let v := after .tiny 20 ([.mount, .call (.touch ['/', 'a'])]
      ++ [.call (.write ['/', 'a'] 0 [1, 2] false)])
    let w := resume v ([.failAfter 3, .call (.mkdir ['/', 'b']), .crash] ++ [.heal, .mount])
    w.mounted = true
      ∧ (w.snapshot.memory.inode 1).size = (v.snapshot.memory.inode 1).size
      ∧ ((w.snapshot.memory.inode 1).kind = .file
        ↔ (u.snapshot.memory.inode 1).isLive = true)
      ∧ ∀ start length, ∃ bytes,
        ((Event.heal.apply v).run (VolumeM.readContent 1 start length)).1 = .ok bytes
          ∧ (w.run (VolumeM.readContent 1 start length)).1 = .ok bytes :=
  acknowledged_write_survives .tiny 20 [.mount, .call (.touch ['/', 'a'])]
    [.failAfter 3, .call (.mkdir ['/', 'b']), .crash] (n := 2)
    (eq_ok_of_toOption (by decide +kernel)) (eq_ok_of_toOption (by decide +kernel))
    ⟨id, id, id, trivial⟩

/-! ### A parent that is gone -/

/-- A volume of twenty-four inodes on forty sectors. -/
def forty : Geometry where
  startLba := 0
  totalSectors := 40
  inodeCount := 24
  inodeCount_pos := by decide
  inodeCount_le := by decide
  table_lt := by decide
  blocks_le := by decide
  end_lt := by decide

/-- A session after which `/z` is a directory whose parent is not live. -/
def lostParent : List Event :=
  [.mount] ++ (List.range 14).map (fun k => .call (.touch ['/', Char.ofNat (97 + k)]))
  -- the size of the root is not stored: inode 15 is given up, and `/x` still names it
  ++ [.failAfter 7, .call (.mkdir ['/', 'x']), .heal, .call (.write ['/', 'n'] 0 [1] false)]
  -- inode 15 becomes a directory in memory alone, under the name `/x`
  ++ [.failAfter 3, .call (.mkdir ['/', 'y']), .heal]
  -- in the same way `/z` comes to name inode 16, and this time the record gets stored
  ++ [.failAfter 6, .call (.touch ['/', 'z']), .heal, .call (.write ['/', 'a'] 0 [1] false)]
  -- inode 16 becomes a directory below inode 15, and is stored as one
  ++ [.failAfter 6, .call (.mkdir ['/', 'x', '/', 'u']), .crash, .heal, .mount]

/-- **Acknowledged data need not be in a file.** A write to `/z/..` is acknowledged, and after a
crash the inode it went to is still not in use. -/
theorem acknowledged_write_not_file :
    ((after forty 40 lostParent).run (VolumeM.resolve "/z/..".toList)).1 = .ok 15
      ∧ ((after forty 40 lostParent).run (VolumeM.write "/z/..".toList 0 [1, 2] false)).1 = .ok 2
      ∧ Unwritten 15 (after forty 40 (lostParent ++ [.call (.write "/z/..".toList 0 [1, 2] false)]))
        [.crash]
      ∧ ((resume (after forty 40 (lostParent ++ [.call (.write "/z/..".toList 0 [1, 2] false)]))
        ([.crash] ++ [.heal, .mount])).snapshot.memory.inode 15).kind ≠ .file :=
  ⟨eq_ok_of_toOption (by decide +kernel), eq_ok_of_toOption (by decide +kernel), ⟨id, trivial⟩,
    by decide +kernel⟩

end Session

end PocketKernel
