import Mathlib.Data.List.Nodup
import PocketKernel.Proofs.Volume.Consistency
import PocketKernel.Proofs.Volume.Durability

/-!
# Contents as byte strings

To its clients a file is a row of bytes: a write lays its bytes over it, and a read takes a stretch
out of it. Chunks, blocks and the room in them are not to be seen. This is proved for every volume
that came about from a formatted one while no transfer was refused.

## Main definitions

* `Volume.Reached`: these volumes.
* `Snapshot.Spliced`: what an acknowledged write did.

## Main results

* `Volume.writeContent_spliced`: the parts of a write, put together.
* `Volume.Reached.reads_and_writes`: files refine byte strings.
-/

namespace PocketKernel

namespace Inode

variable {x : Inode} {count : ℕ}

/-- The blocks that an inode points at, in the order of its slots. -/
def blocks (x : Inode) : List ℕ := (List.range directBlocks).filterMap x.blockAt

/-- The number of blocks, if they are those of the first slots. -/
theorem length_blocks (hcount : count ≤ directBlocks)
    (h : ∀ slot, (x.blockAt slot).isSome = true ↔ slot < count) : x.blocks.length = count := by
  have hsplit : directBlocks = count + (directBlocks - count) := by omega
  have hfront : (List.range count).countP (fun slot => (x.blockAt slot).isSome) = count := by
    rw [List.countP_eq_length.mpr fun slot hslot => (h slot).mpr (List.mem_range.mp hslot),
      List.length_range]
  have hback : ((List.range (directBlocks - count)).map (count + ·)).countP
      (fun slot => (x.blockAt slot).isSome) = 0 := by
    rw [List.countP_eq_zero]
    intro slot hslot hsome
    obtain ⟨k, -, rfl⟩ := List.mem_map.mp hslot
    exact absurd ((h _).mp hsome) (by omega)
  rw [blocks, List.length_filterMap_eq_countP, hsplit, List.range_add, List.countP_append, hfront,
    hback, Nat.add_zero]

theorem nodup_blocks (h : ∀ {slot slot' block}, x.blockAt slot = some block →
    x.blockAt slot' = some block → slot = slot') : x.blocks.Nodup :=
  List.Nodup.filterMap (fun _ _ _ => h) List.nodup_range

end Inode

namespace Snapshot

variable {g : Geometry} {index start stop : ℕ} {data : List UInt8} {w w' : Snapshot}

/-- **What an acknowledged write to a file did.** -/
structure Spliced (index offset : ℕ) (data : List UInt8) (truncate : Bool) (w w' : Snapshot) :
    Prop where
  content : w'.content (w'.memory.inode index) = if truncate = true then data
    else Bytes.splice (w.content (w.memory.inode index)) offset data
  size : (w'.memory.inode index).size.toNat = if truncate = true then data.length
    else max (w.memory.inode index).size.toNat (offset + data.length)
  kind : (w'.memory.inode index).kind = (w.memory.inode index).kind
  /-- After truncation, the inode has the blocks that it needs and no other. -/
  blocks : truncate = true → (w'.memory.inode index).blocks.Nodup
    ∧ (w'.memory.inode index).blocks.length = (data.length + 511) / 512
  /-- Nothing is seen of the write elsewhere. -/
  others : ∀ k, k ≠ index → w'.memory.inode k = w.memory.inode k
    ∧ w'.content (w'.memory.inode k) = w.content (w.memory.inode k)
  entries : w'.entries = w.entries

/-- An inode without content holds nothing, whatever stands in its blocks. -/
theorem content_of_size {x : Inode} (h : x.size = 0) : w.content x = [] := by
  rw [content, h]
  rfl

/-- Whoever is spared keeps its content, even an inode that was never written. -/
theorem Spares.content_eq_of_any (hw : w.Sound g) (h : Spares index w w') :
    w'.content (w'.memory.inode index) = w.content (w.memory.inode index) := by
  by_cases hblank : w.memory.inode index = Inode.blank
  · have hsize : (w.memory.inode index).size = 0 := by
      rw [hblank]
      rfl
    rw [h.memory_inode, content_of_size hsize, content_of_size hsize]
  · exact h.content_eq hw hblank

/-- A write to an inode without blocks gives it the blocks that its bytes need. -/
theorem Extended.isSome_blockAt (h : Extended g index 0 data.length w w')
    (hnone : ∀ slot, (w.memory.inode index).blockAt slot = none)
    (hholds : w'.Holds (w'.memory.inode index) 0 data) (slot : ℕ) :
    ((w'.memory.inode index).blockAt slot).isSome = true ↔ slot < (data.length + 511) / 512 := by
  constructor
  · intro hsome
    by_contra hge
    rw [h.beyond (by simp only [sectorSize]; omega), hnone] at hsome
    cases hsome
  · intro hlt
    have hslot := (hholds (slot * sectorSize) (by simp only [sectorSize]; omega)).1
    rwa [Nat.zero_add, Nat.mul_div_cancel _ (by decide)] at hslot

end Snapshot

namespace Volume

variable {δ : Type} [BlockDevice δ] [LawfulDevice δ] {g : Geometry} {v w x : Volume δ}
  {index offset : ℕ} {data : List UInt8} {truncate : Bool}

open Snapshot

/-! ### Writing -/

/-- After truncation the chunks of a write find no bytes and no blocks. -/
theorem memory_base {w base : Snapshot} (h : w.Base index true base) :
    base.memory.inode index = (w.memory.inode index).detached := by
  cases h with
  | emptied => exact Snapshot.memory_emptied
  | nothing => exact Snapshot.memory_emptied

/-- The content that an acknowledged write leaves, and its blocks after truncation. -/
theorem Chunked.spliced {base mid : Snapshot} {n : ℕ}
    (h : v.Chunked g index offset data truncate base mid (.ok n) w) :
    n = data.length
      ∧ w.snapshot.content (w.snapshot.memory.inode index) = (if truncate = true then data
        else Bytes.splice (v.snapshot.content (v.snapshot.memory.inode index)) offset data)
      ∧ (truncate = true → (w.snapshot.memory.inode index).blocks.Nodup
        ∧ (w.snapshot.memory.inode index).blocks.length = (data.length + 511) / 512) := by
  obtain ⟨hstart, hsound, hknown, hfits, hreached, hextended, hwrote⟩ := h
  -- chunks that come behind a truncation start at the beginning
  have hzero (htruncate : truncate = true) : offset = 0 := by
    subst htruncate
    rw [memory_base hstart] at hreached
    exact Nat.le_zero.mp hreached
  cases hwrote with
  | stored hholds hw =>
  have hinode : w.snapshot.memory.inode index
      = (mid.memory.inode index).grownTo (offset + data.length) := by
    rw [hw]
    exact memory_putInode _ _
  have hcontent := hextended.content_grownTo (hsound.filled .memory index) hreached hfits hholds
  refine ⟨rfl, ?_, ?_⟩
  · rw [hinode, hw]
    refine Eq.trans hcontent ?_
    cases truncate with
    | false =>
      cases hstart
      rfl
    | true =>
      rw [hzero rfl, memory_base hstart, content_of_size rfl, if_pos rfl, Bytes.splice,
        List.take_nil, List.drop_nil, List.nil_append, List.append_nil]
  · rintro rfl
    obtain rfl := hzero rfl
    rw [Nat.zero_add] at hextended hfits
    have hnone (slot : ℕ) : (base.memory.inode index).blockAt slot = none := by
      rw [memory_base hstart]
      exact Inode.blockAt_detached
    rw [hinode]
    refine ⟨Inode.nodup_blocks hextended.once, Inode.length_blocks ?_
      (hextended.isSome_blockAt hnone hholds)⟩
    simp only [maxFileSize] at hfits
    simp only [directBlocks]
    omega

/-- **A write lays its bytes over the content**, and nothing else is seen of it. -/
theorem writeContent_spliced (hv : v.Shaped g) (hw : v.snapshot.Sound g)
    (hknown : v.snapshot.Known g index)
    (hfile : (v.snapshot.memory.inode index).isDirectory = false) (offset : ℕ)
    (data : List UInt8) (truncate : Bool) :
    v.Ends (VolumeM.writeContent index offset data truncate) fun outcome w =>
      ∀ n, outcome = .ok n →
        n = data.length ∧ v.snapshot.Spliced index offset data truncate w.snapshot := by
  have hbehind (h : (v.snapshot.memory.inode index).isDirectory = true) :
      (v.snapshot.memory.inode index).size.toNat ≤ offset := by
    rw [hfile] at h
    cases h
  refine ((writeContent_ends hv hw hknown (fun _ => hfile) hbehind).and
    (writeFile_ends hv hw hknown hfile truncate)).mono ?_
  rintro outcome w ⟨⟨-, ⟨cause, rfl, -⟩ | ⟨rfl, -⟩ | ⟨base, mid, hchunked⟩⟩, hrewrites, -⟩ n hn
  · cases hn
  · cases hn
  subst hn
  have hreworks := hrewrites.reworks
  obtain ⟨rfl, hcontent, hblocks⟩ := hchunked.spliced
  refine ⟨rfl, hcontent, ?_, hreworks.memory_kin.1, hblocks, fun k hk => ?_,
    hreworks.entries_of_file hw hfile⟩
  · have hlength := congrArg List.length hcontent
    rw [length_content] at hlength
    rw [hlength]
    cases truncate with
    | true => rfl
    | false =>
      have hreached := hchunked.reached
      cases hchunked.start
      rw [if_neg Bool.false_ne_true, if_neg Bool.false_ne_true, Bytes.length_splice _
        (by rw [length_content]; exact hreached), length_content]
  · exact ⟨(hreworks.spares k hk).memory_inode, (hreworks.spares k hk).content_eq_of_any hw⟩

/-- A write to a path goes to the inode that the path leads to. -/
theorem write_spliced (hv : v.Shaped g) (hw : v.snapshot.Sound g) {path : Text}
    (hresolve : v.snapshot.resolveFile path = .ok index) (offset : ℕ) (data : List UInt8)
    (truncate : Bool) :
    v.Ends (VolumeM.write path offset data truncate) fun outcome w =>
      ∀ n, outcome = .ok n →
        n = data.length ∧ v.snapshot.Spliced index offset data truncate w.snapshot := by
  obtain ⟨hresolved, hfile⟩ := of_resolveFile_eq_ok hresolve
  refine Ends.bind (requireMounted_keeps hv) ?_ fun _ _ _ n h => by cases h
  rintro ⟨⟩ x hvx
  have hx : x.snapshot = v.snapshot := hvx.2
  refine Reads.bind_change (resolveFile_ends hvx.1.shaped (by rwa [hx]) path) ?_
    fun _ _ _ n h => by cases h
  intro found hfound y hxy
  have hy : y.snapshot = v.snapshot := hxy.2.trans hx
  rw [hx, hresolve] at hfound
  cases hfound
  have hknown := hw.known_resolve hresolved
  rw [← hy] at hw hknown hfile ⊢
  exact writeContent_spliced hxy.1.shaped hw hknown hfile offset data truncate

/-! ### Reading -/

/-- A read from a path takes a stretch out of the content of the inode that the path leads to. -/
theorem read_ends (hv : v.Shaped g) (hw : v.snapshot.Sound g) (hmounted : v.mounted = true)
    {path : Text} (hresolve : v.snapshot.resolveFile path = .ok index) (offset count : ℕ) :
    v.Ends (VolumeM.read path offset count) fun outcome w => v.Reads g
      (.ok (((v.snapshot.content (v.snapshot.memory.inode index)).drop offset).take count))
      outcome w := by
  obtain ⟨hresolved, -⟩ := of_resolveFile_eq_ok hresolve
  unfold VolumeM.read
  rw [ends_requireMounted_bind hmounted]
  refine Reads.bind (resolveFile_ends hv hw path) ?_ fun cause h => by rw [hresolve] at h; cases h
  intro found hfound x hvx hx
  rw [hresolve] at hfound
  cases hfound
  rw [← bytesAt_eq_take_drop, ← hx]
  rw [← hx] at hw hresolved
  exact readContent_ends hvx.shaped hw (hw.known_resolve hresolved) offset count

/-- On a dependable device, what is read is the answer. -/
theorem Reads.run_eq {α : Type} {operation : VolumeM δ α} {answer : Except VolumeError α}
    (hdependable : LawfulDevice.Dependable v.device)
    (h : v.Ends operation fun outcome w => v.Reads g answer outcome w) :
    (v.run operation).1 = Stop.ofExcept answer :=
  h.outcome.resolve_right fun hfault => hfault.2.2 hdependable

/-! ### Reachable volumes -/

/-- A volume that came about from a formatted one, on a device that refuses no transfer. -/
inductive Reached (g : Geometry) : Volume δ → Prop
  /-- There was no volume on the device, so that mounting made one. -/
  | formatted {device : δ} : g.startLba + g.totalSectors ≤ BlockDevice.capacity device →
      LawfulDevice.Dependable device → ¬ (Volume.unmounted device g).snapshot.Loadable g →
      Reached g ((Volume.unmounted device g).run VolumeM.mount).2
  | called {v : Volume δ} (call : Call) : Reached g v → Reached g (v.run call.operation).2
  | mounted {v : Volume δ} : Reached g v → Reached g (v.run VolumeM.mount).2
  /-- The volume is dropped, and mounted again. -/
  | remounted {v : Volume δ} : Reached g v →
      Reached g ((Volume.unmounted v.device g).run VolumeM.mount).2

/-- A volume that is dropped while nothing is pending is found again. -/
theorem Intact.remount (h : v.Intact g) :
    ((Volume.unmounted v.device g).run VolumeM.mount).2.Intact g := by
  obtain rfl := h.shaped.geometry
  have hcrash : v.snapshot.crash = v.snapshot :=
    congrArg (fun image => { v.snapshot with memory := image }) h.settled.synced
  have hload : (Volume.unmounted v.device v.geometry).snapshot.Loadable v.geometry :=
    loadable_of_sound (w := (Volume.unmounted v.device v.geometry).snapshot) h.sound.crash
  obtain ⟨hmounts, hdependable⟩ := mount_ends (v := .unmounted v.device v.geometry) rfl rfl
  generalize (Volume.unmounted v.device v.geometry).run VolumeM.mount = result
    at hmounts hdependable
  obtain ⟨outcome, w⟩ := result
  cases hmounts with
  | tooSmall hsmall => exact absurd h.shaped.fits (Nat.not_le.mpr hsmall)
  | loaded hopen hshaped _ hw =>
    have hw : w.snapshot = v.snapshot := hw.trans hcrash
    refine ⟨hopen, hshaped, ?_, ?_, ?_, hdependable h.dependable⟩
    · rw [hw]
      exact h.sound
    · rw [hw]
      exact h.settled
    · rw [hw]
      exact h.orderly
  | formatted _ _ hnot _ => exact absurd hload hnot
  | refused _ _ hfault _ => exact absurd h.dependable hfault.2
  | interrupted _ _ _ hnot _ => exact absurd hload hnot

theorem Reached.intact (h : v.Reached g) : v.Intact g := by
  induction h with
  | formatted hfits hdependable hnone => exact intact_mount rfl rfl hfits hdependable hnone
  | called call _ ih => exact ih.call call
  | mounted _ ih =>
    rw [mount_mounted ih.mounted]
    exact ih
  | remounted _ ih => exact ih.remount

/-- **Files refine byte strings.** On a volume that came about from a formatted one while no
transfer was refused, a write to a file that is acknowledged lays its bytes over the content, and a
read takes the stretch that is asked for out of it. -/
theorem Reached.reads_and_writes (h : v.Reached g) {path : Text} {index : ℕ}
    (hresolve : (v.run (VolumeM.resolve path)).1 = .ok index)
    (hfile : (v.snapshot.memory.inode index).kind = .file) :
    (∀ offset data truncate n, (v.run (VolumeM.write path offset data truncate)).1 = .ok n →
      n = data.length ∧ v.snapshot.Spliced index offset data truncate
        (v.run (VolumeM.write path offset data truncate)).2.snapshot)
    ∧ ∀ offset count, (v.run (VolumeM.read path offset count)).1
      = .ok (((v.snapshot.content (v.snapshot.memory.inode index)).drop offset).take count) := by
  obtain ⟨hmounted, hshaped, hsound, -, -, hdependable⟩ := h.intact
  have hfound : v.snapshot.resolveFile path = .ok index := by
    have hrun := Reads.run_eq hdependable (resolve_ends hshaped hsound path)
    rw [hresolve] at hrun
    have hdirectory : (v.snapshot.memory.inode index).isDirectory = false := by
      rw [Inode.isDirectory, hfile]
      rfl
    unfold resolveFile
    cases hanswer : v.snapshot.resolve path with
    | error cause =>
      rw [hanswer] at hrun
      cases hrun
    | ok found =>
      rw [hanswer] at hrun
      cases hrun
      simp [hdirectory]
  refine ⟨fun offset data truncate n hn => ?_, fun offset count => ?_⟩
  · exact write_spliced hshaped hsound hfound offset data truncate n hn
  · exact Reads.run_eq hdependable (read_ends hshaped hsound hmounted hfound offset count)

/-- A file on a blank disk, into which three bytes are written after two. -/
theorem reads_and_writes_blank :
    let v := (((Volume.unmounted (RamDisk.blank 20) .tiny).run VolumeM.mount).2).called
      [.touch ['/', 'a'], .write ['/', 'a'] 0 [1, 2] true]
    (v.run (VolumeM.write ['/', 'a'] 1 [3, 4, 5] false)).1 = .ok 3
      ∧ v.snapshot.Spliced 1 1 [3, 4, 5] false
        (v.run (VolumeM.write ['/', 'a'] 1 [3, 4, 5] false)).2.snapshot
      ∧ ∀ offset count, (v.run (VolumeM.read ['/', 'a'] offset count)).1
        = .ok (((v.snapshot.content (v.snapshot.memory.inode 1)).drop offset).take count) := by
  intro v
  have hv : v.Reached .tiny := .called _ (.called _ (.formatted (by decide) rfl
    (Session.not_loadable_blank .tiny 20)))
  have hresolve : (v.run (VolumeM.resolve ['/', 'a'])).1 = .ok 1 :=
    eq_ok_of_toOption (by decide +kernel)
  have hfile : (v.snapshot.memory.inode 1).kind = .file := by decide +kernel
  have hwrite : (v.run (VolumeM.write ['/', 'a'] 1 [3, 4, 5] false)).1 = .ok 3 :=
    eq_ok_of_toOption (by decide +kernel)
  obtain ⟨hwrites, hreads⟩ := Reached.reads_and_writes hv hresolve hfile
  exact ⟨hwrite, (hwrites _ _ _ _ hwrite).2, hreads⟩

end Volume

end PocketKernel
