import PocketKernel.Proofs.Volume.Answers
import PocketKernel.Proofs.Volume.Refinement

/-!
# Writes that fail

A write may stop after any transfer, or because there is no block left. What it has done by then is
known all the same. The chunks are written from the front, and one that stops has written nothing, so
that some first part of the bytes is in place and all others are as they were; whatever stands behind
the size of the file is not seen. After truncation there is nothing for this to be laid over.

## Main definitions

* `Snapshot.Begun`: the first bytes of a row are in place.
* `Snapshot.Torn`: what a file holds after a write over it failed.
* `Volume.Damaged`: all that a write that failed has done.
* `Volume.Plain`: a file can be read and written.

## Main results

* `Volume.writeChunks_begun_ends`: a row of chunks that stops.
* `Volume.write_damaged`: a write that fails.
* `Session.failed_write_damaged`: the same in every session, and what can be done afterwards.
-/

namespace PocketKernel

namespace Snapshot

variable {g : Geometry} {index offset position laid : ℕ} {data : List UInt8} {w w' : Snapshot}

/-- The first bytes of a row stand at a position of an inode, and its other bytes are as they
were. -/
structure Begun (index position : ℕ) (data : List UInt8) (laid : ℕ) (w w' : Snapshot) : Prop where
  le : laid ≤ data.length
  holds : w'.Holds (w'.memory.inode index) position (data.take laid)
  bytes : ∀ {p}, ¬ (position ≤ p ∧ p < position + laid) →
    ((w.memory.inode index).blockAt (p / sectorSize)).isSome = true →
    w'.byteAt (w'.memory.inode index) p = w.byteAt (w.memory.inode index) p

/-- A content of which only some bytes were replaced. -/
def Torn (before : List UInt8) (offset : ℕ) (data after : List UInt8) : Prop :=
  (∃ laid ≤ data.length,
      after = (Bytes.splice before offset (data.take laid)).take before.length)
    ∨ after = Bytes.splice before offset data

/-- Nothing at all was replaced. -/
theorem torn_self (before : List UInt8) (offset : ℕ) (data : List UInt8) :
    Torn before offset data before := by
  refine .inl ⟨0, Nat.zero_le _, ?_⟩
  rw [List.take_zero, Bytes.splice, List.append_nil, List.length_nil, Nat.add_zero,
    List.take_append_drop, List.take_length]

/-- Where there was nothing, there is nothing still or all of it. -/
theorem Torn.of_nil {after : List UInt8} (h : Torn [] 0 data after) : after = [] ∨ after = data := by
  rcases h with ⟨laid, -, rfl⟩ | rfl
  · exact .inl List.take_zero
  · right
    rw [Bytes.splice, List.take_nil, List.drop_nil, List.nil_append, List.append_nil]

/-- What is seen of a row of which only the first bytes are in place. -/
theorem Begun.content (h : Begun index position data laid w w')
    (hfilled : (w.memory.inode index).Filled)
    (hsize : (w'.memory.inode index).size = (w.memory.inode index).size)
    (hposition : position ≤ (w.memory.inode index).size.toNat) :
    w'.content (w'.memory.inode index)
      = (Bytes.splice (w.content (w.memory.inode index)) position (data.take laid)).take
        (w.content (w.memory.inode index)).length := by
  have hle := h.le
  have htake : (data.take laid).length = laid := by rw [List.length_take]; omega
  have hlength : position ≤ (w.content (w.memory.inode index)).length := by
    rw [length_content]
    exact hposition
  apply List.ext_getElem?
  intro p
  rw [List.getElem?_take, Bytes.getElem?_splice _ hlength, length_content, htake, Snapshot.content,
    Snapshot.content, List.getElem?_map, List.getElem?_map, hsize]
  rcases Nat.lt_or_ge p (w.memory.inode index).size.toNat with hlt | hge
  · rw [if_pos hlt, List.getElem?_range hlt]
    by_cases hin : position ≤ p ∧ p < position + laid
    · have hbyte := (h.holds (p - position) (by omega)).2
      rw [Nat.add_sub_cancel' hin.1] at hbyte
      rw [if_pos hin, List.getElem?_eq_getElem (by omega)]
      exact congrArg some hbyte
    · rw [if_neg hin]
      exact congrArg some (h.bytes hin (hfilled.block p hlt))
  · rw [if_neg (by omega), List.getElem?_eq_none (by rw [List.length_range]; exact hge)]
    rfl

/-- The first chunk is in place, and then the others are begun. -/
theorem Begun.append {mid : Snapshot} {front back : List UInt8}
    (hfront : mid.Holds (mid.memory.inode index) position front)
    (hfirst : Extended g index position (position + front.length) w mid)
    {stop : ℕ} (hrest : Extended g index (position + front.length) stop mid w')
    (h : Begun index (position + front.length) back laid mid w') :
    Begun index position (front ++ back) (front.length + laid) w w' where
  le := by
    have hle := h.le
    rw [List.length_append]
    omega
  holds := by
    rw [List.take_length_add_append]
    exact (hfront.extended hrest (Nat.le_refl _)).append h.holds
  bytes hout hsome := by
    obtain ⟨block, hblock⟩ := Option.isSome_iff_exists.mp hsome
    rw [h.bytes (by omega) (by rw [hfirst.kept hblock]; rfl), hfirst.bytes (by omega) hsome]

end Snapshot

namespace Volume

variable {δ : Type} [BlockDevice δ] [LawfulDevice δ] {g : Geometry} {v w x : Volume δ}
  {index offset position : ℕ} {data : List UInt8} {truncate : Bool}

open Snapshot

/-! ### Chunks -/

/-- A chunk that stops has written nothing; at most it has gained a block. -/
theorem writeChunk_stop_ends (hv : v.Shaped g) (hw : v.snapshot.Sound g)
    (hknown : v.snapshot.Known g index) {chunk : List UInt8} (hpos : 0 < chunk.length)
    (hslot : position / sectorSize < directBlocks) :
    v.Ends (VolumeM.writeChunk index position chunk) fun outcome w => ∀ stop,
      outcome = .error stop → Extended g index (position + chunk.length)
        (position + chunk.length) v.snapshot w.snapshot := by
  unfold VolumeM.writeChunk
  have hstop : position / sectorSize * sectorSize < position + chunk.length := by
    have := Nat.div_mul_le_self position sectorSize
    omega
  refine Ends.bind (blockForWrite_ends hv hw hknown hslot (position + chunk.length) hstop) ?_ ?_
  · rintro ⟨block, fresh⟩ x ⟨hvx, ⟨_, _, ⟨rfl⟩, hlt, hextended, -⟩ | ⟨⟨⟩, -⟩ | ⟨⟨⟩, -⟩⟩
    rw [ends_get_bind]
    refine Ends.bind (blockBefore_ends hvx.shaped hlt fresh chunk.length) ?_ ?_
    · rintro before y ⟨hxy, hsnapshot, -⟩
      rw [hvx.shaped.geometry.trans hxy.shaped.geometry.symm]
      refine (writeBlock_ends hxy.shaped _ hlt).mono ?_
      rintro outcome z ⟨-, ⟨rfl, -⟩ | ⟨-, -, hz⟩⟩ stop h
      · cases h
      · rw [hz, hsnapshot]
        exact hextended
    · rintro stop y ⟨-, hsnapshot, -⟩ _ -
      rw [hsnapshot]
      exact hextended
  · rintro stop x ⟨-, ⟨_, _, ⟨⟩, -⟩ | ⟨-, -, hsnapshot⟩ | ⟨-, rfl, -⟩⟩ _ -
    · rw [hsnapshot]
      exact .refl hw hknown _ _
    · exact .refl hw hknown _ _

/-- **A row of chunks that stops** leaves a first part of its bytes. -/
theorem writeChunks_begun_ends (hv : v.Shaped g) (hw : v.snapshot.Sound g)
    (hknown : v.snapshot.Known g index) (hend : position + data.length ≤ maxFileSize)
    (hbehind : (v.snapshot.memory.inode index).isDirectory = true →
      (v.snapshot.memory.inode index).size.toNat ≤ position) :
    v.Ends (VolumeM.writeChunks index position data) fun outcome w => ∀ stop,
      outcome = .error stop → ∃ laid, Begun index position data laid v.snapshot w.snapshot := by
  induction hlen : data.length using Nat.strongRecOn generalizing v position data with
  | ind n ih =>
  subst hlen
  by_cases hnil : data.length = 0
  · rw [List.length_eq_zero_iff] at hnil
    subst hnil
    rw [VolumeM.writeChunks_nil]
    exact fun stop h => by cases h
  rw [VolumeM.writeChunks_eq _ _ hnil]
  have hpos := VolumeM.chunkLength_pos position hnil
  generalize hcount : VolumeM.chunkLength position data.length = count at hpos ⊢
  have hle : count ≤ data.length := by
    rw [← hcount, VolumeM.chunkLength]
    omega
  have htake : (data.take count).length = count := by rw [List.length_take]; omega
  have hdrop : (data.drop count).length = data.length - count := List.length_drop
  have hfits : position % sectorSize + count ≤ sectorSize := by
    have : position % sectorSize < sectorSize := Nat.mod_lt _ (by decide)
    rw [← hcount, VolumeM.chunkLength]
    omega
  have hslot : position / sectorSize < directBlocks := by
    simp only [sectorSize, maxFileSize, directBlocks] at *
    omega
  have hchunk := (writeChunk_ends hv hw hknown (by rw [htake]; exact hpos) hslot
    (by rw [htake]; exact hfits)).and
      (writeChunk_stop_ends hv hw hknown (by rw [htake]; exact hpos) hslot)
  rw [htake] at hchunk
  refine Ends.bind hchunk ?_ ?_
  · rintro ⟨⟩ x ⟨⟨hvx, hfirst, ⟨-, hheld⟩ | ⟨⟨⟩, -⟩ | ⟨⟨⟩, -⟩⟩, -⟩
    have hx := hfirst.sound hw hknown hbehind
    have hknown' := hknown.extended hfirst
    have hbehind' (hdirectory : (x.snapshot.memory.inode index).isDirectory = true) :
        (x.snapshot.memory.inode index).size.toNat ≤ position + count := by
      have hbefore := hfirst.isDirectory_eq .memory index
      rw [Snapshot.image_memory, Snapshot.image_memory] at hbefore
      rw [hbefore] at hdirectory
      have := hbehind hdirectory
      rw [hfirst.size_eq]
      omega
    have hend' : position + count + (data.drop count).length ≤ maxFileSize := by omega
    refine ((writeChunks_ends hvx.shaped hx hknown' hend' hbehind').and
      (ih _ (by omega) hvx.shaped hx hknown' hend' hbehind' rfl)).mono ?_
    rintro outcome y ⟨⟨-, hrest, -⟩, hbegun⟩ stop hstop
    obtain ⟨laid, hlaid⟩ := hbegun stop hstop
    rw [← htake] at hfirst hrest hlaid
    have happend := Begun.append hheld hfirst hrest hlaid
    rw [htake, List.take_append_drop] at happend
    exact ⟨_, happend⟩
  · rintro stop x ⟨-, hstopped⟩ _ -
    have hextended := hstopped stop rfl
    exact ⟨0, Nat.zero_le _, holds_nil, fun _ => hextended.bytes (by omega)⟩

/-! ### Writing -/

/-- What a row of bytes leaves that could not be written or stored as a whole. -/
theorem storeContent_torn_ends (hv : v.Shaped g) (hw : v.snapshot.Sound g)
    (hknown : v.snapshot.Known g index) (hend : offset + data.length ≤ maxFileSize)
    (hoffset : offset ≤ (v.snapshot.memory.inode index).size.toNat)
    (hbehind : (v.snapshot.memory.inode index).isDirectory = true →
      (v.snapshot.memory.inode index).size.toNat ≤ offset) :
    v.Ends (VolumeM.storeContent index offset data) fun outcome w => ∀ stop,
      outcome = .error stop → Torn (v.snapshot.content (v.snapshot.memory.inode index)) offset data
        (w.snapshot.content (w.snapshot.memory.inode index)) := by
  have hfilled := hw.filled .memory index
  rw [Snapshot.image_memory] at hfilled
  unfold VolumeM.storeContent
  refine Ends.attempt_bind ((writeChunks_ends hv hw hknown hend hbehind).and
    (writeChunks_begun_ends hv hw hknown hend hbehind)) ?_ ?_ ?_
  · rintro ⟨⟩ x ⟨⟨hvx, hextended, ⟨-, hholds⟩ | ⟨⟨⟩, -⟩ | ⟨⟨⟩, -⟩⟩, -⟩
    show x.Ends (VolumeM.inodeAt index >>= fun inode => _) _
    rw [ends_inodeAt_bind hvx.shaped hknown.lt, ends_setInode_bind hvx.shaped hknown.lt]
    have hput := hvx.shaped.continues_put index
      ((x.snapshot.memory.inode index).grownTo (offset + data.length))
    have hputs := snapshot_put hvx.shaped hknown.lt
      ((x.snapshot.memory.inode index).grownTo (offset + data.length))
    refine Ends.attempt_bind (flushInode_ends hput.shaped hknown.lt) ?_ ?_ ?_
    · rintro ⟨⟩ y - stop h
      cases h
    · rintro cause y ⟨-, ⟨⟨⟩, -⟩ | ⟨-, -, hy⟩⟩ stop -
      rw [hputs] at hy
      have hwhole : y.snapshot.content (y.snapshot.memory.inode index)
          = Bytes.splice (v.snapshot.content (v.snapshot.memory.inode index)) offset data := by
        rw [← hextended.content_grownTo hfilled hoffset hend hholds, hy]
        exact congrArg (x.snapshot.content ·) (Snapshot.memory_putInode _ _)
      exact .inr hwhole
    · rintro y ⟨-, ⟨⟨⟩, -⟩ | ⟨⟨⟩, -⟩⟩
  · rintro cause x ⟨⟨hvx, hextended, -⟩, hbegun⟩
    obtain ⟨laid, hlaid⟩ := hbegun _ rfl
    have htorn : Torn (v.snapshot.content (v.snapshot.memory.inode index)) offset data
        (x.snapshot.content (x.snapshot.memory.inode index)) :=
      .inl ⟨laid, hlaid.le, hlaid.content hfilled hextended.size_eq hoffset⟩
    -- storing the inode changes nothing that is seen of it
    have hleft {y : Volume δ} (hsame : y.snapshot = x.snapshot
        ∨ y.snapshot = x.snapshot.publish (index / inodesPerSector)) :
        Torn (v.snapshot.content (v.snapshot.memory.inode index)) offset data
          (y.snapshot.content (y.snapshot.memory.inode index)) := by
      rcases hsame with hy | hy
      · rw [hy]
        exact htorn
      · rw [hy]
        exact htorn
    show x.Ends (VolumeM.attempt (VolumeM.flushInode index) >>= fun stored => _) _
    refine Ends.attempt_bind (flushInode_ends hvx.shaped hknown.lt) ?_ ?_ ?_
    · rintro ⟨⟩ y ⟨-, ⟨-, -, hy⟩ | ⟨⟨⟩, -⟩⟩ stop -
      exact hleft (.inr hy)
    · rintro cause y ⟨-, ⟨⟨⟩, -⟩ | ⟨-, -, hy⟩⟩ stop -
      exact hleft (.inl hy)
    · rintro y ⟨-, ⟨⟨⟩, -⟩ | ⟨⟨⟩, -⟩⟩
  · rintro x ⟨⟨-, -, ⟨⟨⟩, -⟩ | ⟨⟨⟩, -⟩ | ⟨⟨⟩, -⟩⟩, -⟩

/-- What a file holds after a write to it that failed. -/
structure Spoiled (index offset : ℕ) (data : List UInt8) (truncate : Bool) (v w : Volume δ) :
    Prop where
  overlaid : truncate = false →
    Torn (v.snapshot.content (v.snapshot.memory.inode index)) offset data
      (w.snapshot.content (w.snapshot.memory.inode index))
  anew : truncate = true → w.snapshot.content (w.snapshot.memory.inode index) = []
    ∨ w.snapshot.content (w.snapshot.memory.inode index) = data
    ∨ w.snapshot.content (w.snapshot.memory.inode index)
      = v.snapshot.content (v.snapshot.memory.inode index)

theorem spoiled_of_same (h : w.snapshot = v.snapshot) : Spoiled index offset data truncate v w := by
  refine ⟨fun _ => ?_, fun _ => .inr (.inr ?_)⟩
  · rw [h]
    exact torn_self _ _ _
  · rw [h]

theorem Spoiled.of_keeps (hvx : v.Keeps g x) (h : Spoiled index offset data truncate x w) :
    Spoiled index offset data truncate v w := by
  obtain ⟨hover, hanew⟩ := h
  rw [hvx.2] at hover hanew
  exact ⟨hover, hanew⟩

/-- **The content that a write leaves when it fails.** -/
theorem writeContent_spoiled_ends (hv : v.Shaped g) (hw : v.snapshot.Sound g)
    (hknown : v.snapshot.Known g index)
    (hfile : (v.snapshot.memory.inode index).isDirectory = false) :
    v.Ends (VolumeM.writeContent index offset data truncate) fun outcome w => ∀ stop,
      outcome = .error stop → Spoiled index offset data truncate v w := by
  unfold VolumeM.writeContent
  by_cases hlarge : maxFileSize < offset + data.length
  · rw [if_pos hlarge]
    exact fun _ _ => spoiled_of_same rfl
  have hend : offset + data.length ≤ maxFileSize := Nat.le_of_not_lt hlarge
  rw [if_neg hlarge]
  show v.Ends (VolumeM.findInode index >>= fun inode => _) _
  rw [ends_findInode_bind hv hknown.lt]
  by_cases hoffset : (truncate && decide (offset ≠ 0)
      || !truncate && decide ((v.snapshot.memory.inode index).size.toNat < offset)) = true
  · rw [if_pos hoffset]
    exact fun _ _ => spoiled_of_same rfl
  rw [if_neg hoffset]
  cases truncate with
  | false =>
    have hle : offset ≤ (v.snapshot.memory.inode index).size.toNat := by simpa using hoffset
    have hnot (h : (v.snapshot.memory.inode index).isDirectory = true) :
        (v.snapshot.memory.inode index).size.toNat ≤ offset := by
      rw [hfile] at h
      cases h
    exact (storeContent_torn_ends hv hw hknown hend hle hnot).mono fun _ _ h stop hstop =>
      ⟨fun _ => h stop hstop, nofun⟩
  | true =>
    obtain rfl : offset = 0 := by simpa using hoffset
    have hempty : (v.snapshot.emptied index).memory.inode index
        = (v.snapshot.memory.inode index).detached := Snapshot.memory_emptied
    have hsound := hw.emptied hknown hfile
    have hknown' := Snapshot.Known.emptied hw hknown hfile hknown
    -- the chunks find an inode without content
    have hrest {x : Volume δ} (hvx : v.Continues g x) (hx : x.snapshot.Sound g)
        (hxknown : x.snapshot.Known g index) (hinode : x.snapshot.memory.inode index
          = (v.snapshot.memory.inode index).detached) :
        x.Ends (VolumeM.storeContent index 0 data) fun outcome w => ∀ stop,
          outcome = .error stop → Spoiled index 0 data true v w := by
      refine (storeContent_torn_ends hvx.shaped hx hxknown hend (Nat.zero_le _) fun _ => ?_).mono ?_
      · rw [hinode]
        exact Nat.le_refl _
      · intro outcome w htorn stop hstop
        have hleft := htorn stop hstop
        rw [hinode, content_of_size rfl] at hleft
        exact ⟨nofun, fun _ => hleft.of_nil.imp_right .inl⟩
    show v.Ends (VolumeM.truncateContent index >>= fun _ =>
      VolumeM.storeContent index 0 data) _
    refine Ends.bind (truncateContent_ends hv hknown.lt) ?_ ?_
    · rintro ⟨⟩ x ⟨hvx, ⟨-, hx⟩ | ⟨-, hx, -⟩ | ⟨⟨⟩, -⟩⟩
      · refine hrest hvx (hx ▸ hsound.storeBlockMap) ?_ (hx ▸ hempty)
        rw [hx]
        refine hknown'.of_inode ?_ ?_
        · rintro (_ | _) <;> rfl
        · rintro (_ | _)
          · exact hknown'.used .memory
          · exact hknown'.used .disk
      · exact hrest hvx (hx ▸ hsound) (hx ▸ hknown') (hx ▸ hempty)
    · rintro stop x ⟨-, ⟨⟨⟩, -⟩ | ⟨⟨⟩, -⟩ | ⟨-, -, hx | hx⟩⟩ _ -
      · exact spoiled_of_same hx
      · have hnothing : x.snapshot.content (x.snapshot.memory.inode index) = [] := by
          rw [hx, hempty]
          exact content_of_size rfl
        exact ⟨nofun, fun _ => .inl hnothing⟩

/-- **What a write that failed has done.** A write that was refused has changed nothing in memory and
no sector; one that stopped has changed nothing but the content of its file. -/
structure Damaged (index offset : ℕ) (data : List UInt8) (truncate : Bool) (cause : VolumeError)
    (v w : Volume δ) : Prop where
  why : v.Refused index offset data truncate cause ∨ cause = .noSpace
    ∨ (cause = .io ∧ ¬ LawfulDevice.Dependable v.device)
  refused : cause = .fileTooLarge ∨ cause = .invalidOffset → v.Untouched w
  spoiled : Spoiled index offset data truncate v w
  kin : (w.snapshot.memory.inode index).Kin (v.snapshot.memory.inode index)
  others : ∀ k, k ≠ index → w.snapshot.memory.inode k = v.snapshot.memory.inode k
    ∧ w.snapshot.content (w.snapshot.memory.inode k)
      = v.snapshot.content (v.snapshot.memory.inode k)
  entries : w.snapshot.entries = v.snapshot.entries

theorem damaged_of_keeps (hvw : v.Keeps g w) (hfault : v.Faulted w) :
    Damaged index offset data truncate .io v w := by
  refine ⟨.inr (.inr ⟨rfl, hfault.2⟩), fun h => absurd h (by decide), spoiled_of_same hvw.2, ?_,
    fun k _ => ?_, ?_⟩
  · rw [hvw.2]
    exact ⟨rfl, rfl⟩
  · rw [hvw.2]
    exact ⟨rfl, rfl⟩
  · rw [hvw.2]

/-- The path leads where it did. -/
theorem Damaged.resolveFile_eq {cause : VolumeError}
    (h : Damaged index offset data truncate cause v w) (path : Text) :
    w.snapshot.resolveFile path = v.snapshot.resolveFile path := by
  refine resolveFile_congr (fun k => ?_) h.entries path
  by_cases hk : k = index
  · rw [hk]
    exact h.kin
  · rw [(h.others k hk).1]
    exact ⟨rfl, rfl⟩

/-- The part of a write that comes after the path was followed. -/
theorem writeContent_damaged (hv : v.Shaped g) (hw : v.snapshot.Sound g)
    (hknown : v.snapshot.Known g index)
    (hfile : (v.snapshot.memory.inode index).isDirectory = false) :
    v.Ends (VolumeM.writeContent index offset data truncate) fun outcome w => ∀ stop,
      outcome = .error stop →
        ∃ cause, stop = .error cause ∧ Damaged index offset data truncate cause v w := by
  have hbehind (h : (v.snapshot.memory.inode index).isDirectory = true) :
      (v.snapshot.memory.inode index).size.toNat ≤ offset := by
    rw [hfile] at h
    cases h
  refine ((writeContent_ends hv hw hknown (fun _ => hfile) hbehind).and
    ((writeFile_ends hv hw hknown hfile truncate).and
      (writeContent_spoiled_ends hv hw hknown hfile))).mono ?_
  rintro outcome w ⟨⟨-, hends⟩, ⟨hrewrites, -⟩, hspoiled⟩ stop rfl
  have hreworks := hrewrites.reworks
  have hdamaged {cause : VolumeError} (hcause : cause = .noSpace
      ∨ (cause = .io ∧ ¬ LawfulDevice.Dependable v.device)) :
      Damaged index offset data truncate cause v w := by
    refine ⟨.inr hcause, fun h => absurd h ?_, hspoiled stop rfl, hreworks.memory_kin,
      fun k hk => ?_, hreworks.entries_of_file hw hfile⟩
    · rcases hcause with rfl | ⟨rfl, -⟩ <;> decide
    · exact ⟨(hreworks.spares k hk).memory_inode, (hreworks.spares k hk).content_eq_of_any hw⟩
  rcases hends with ⟨cause, ⟨rfl⟩, hrefused, rfl⟩ | ⟨⟨rfl⟩, hfault, -⟩ | ⟨base, mid, hchunked⟩
  · exact ⟨cause, rfl, .inl hrefused, fun _ => .refl _, spoiled_of_same rfl, ⟨rfl, rfl⟩,
      fun _ _ => ⟨rfl, rfl⟩, rfl⟩
  · exact ⟨.io, rfl, hdamaged (.inr ⟨rfl, hfault.2⟩)⟩
  · cases hchunked.wrote with
    | unstored _ hfault => exact ⟨.io, rfl, hdamaged (.inr ⟨rfl, hfault.2⟩)⟩
    | full => exact ⟨.noSpace, rfl, hdamaged (.inl rfl)⟩
    | fullUnstored => exact ⟨.noSpace, rfl, hdamaged (.inl rfl)⟩
    | cut hfault => exact ⟨.io, rfl, hdamaged (.inr ⟨rfl, hfault.2⟩)⟩

/-- What comes after a path was followed is seen from before. -/
theorem Damaged.of_looked {cause : VolumeError} (hvx : v.Keeps g x) (hlooked : v.Untouched x)
    (h : Damaged index offset data truncate cause x w) :
    Damaged index offset data truncate cause v w := by
  obtain ⟨hcause, hrefused, hspoiled, hkin, hothers, hentries⟩ := h
  rw [hvx.2] at hkin hothers hentries
  refine ⟨?_, fun h => hlooked.trans (hrefused h), hspoiled.of_keeps hvx, hkin, hothers, hentries⟩
  rw [Refused, hvx.2] at hcause
  exact hcause.imp_right (.imp_right (.imp_right fun hnot hdependable =>
    hnot (hvx.1.dependable hdependable)))

/-- **A write that fails**, at whatever point. -/
theorem write_damaged (hv : v.Shaped g) (hw : v.snapshot.Sound g) (hmounted : v.mounted = true)
    {path : Text} (hresolve : v.snapshot.resolveFile path = .ok index) :
    v.Ends (VolumeM.write path offset data truncate) fun outcome w => ∀ stop,
      outcome = .error stop →
        ∃ cause, stop = .error cause ∧ Damaged index offset data truncate cause v w := by
  obtain ⟨hresolved, hfile⟩ := of_resolveFile_eq_ok hresolve
  unfold VolumeM.write
  rw [ends_requireMounted_bind hmounted]
  refine Ends.bind ((resolveFile_ends hv hw path).and ((looks_resolveFile path).untouched hv)) ?_ ?_
  · rintro found x ⟨hread, hlooked⟩
    have hvx := hread.continues
    have hx := hread.snapshot
    obtain rfl : index = found := Except.ok.inj (hresolve.symm.trans hread.answer_eq)
    have hknown := hw.known_resolve hresolved
    rw [← hx] at hw hknown hfile
    refine (writeContent_damaged hvx.shaped hw hknown hfile).mono fun outcome w h stop hstop => ?_
    obtain ⟨cause, hcause, hdamaged⟩ := h stop hstop
    exact ⟨cause, hcause, hdamaged.of_looked ⟨hvx, hx⟩ hlooked⟩
  · rintro stop x ⟨⟨hvx, hx, houtcome | ⟨⟨rfl⟩, hfault⟩⟩, -⟩ _ ⟨⟩
    · rw [hresolve] at houtcome
      cases houtcome
    · exact ⟨.io, rfl, damaged_of_keeps ⟨hvx, hx⟩ hfault⟩

/-! ### Afterwards -/

/-- The file that a path leads to is one like any other: what is read is what it holds, what is
written is laid over it, and nothing is wrong with it. -/
structure Plain (path : Text) (index : ℕ) (v : Volume δ) : Prop where
  reads : ∀ offset count, (v.run (VolumeM.read path offset count)).1
    = .ok (((v.snapshot.content (v.snapshot.memory.inode index)).drop offset).take count)
  writes : ∀ offset data truncate n, (v.run (VolumeM.write path offset data truncate)).1 = .ok n →
    n = data.length ∧ v.snapshot.Spliced index offset data truncate
      (v.run (VolumeM.write path offset data truncate)).2.snapshot
  refuses : ∀ offset data truncate stop,
    (v.run (VolumeM.write path offset data truncate)).1 = .error stop → ∃ cause,
      stop = .error cause ∧ (v.Refused index offset data truncate cause ∨ cause = .noSpace)

theorem plain_of_dependable (hv : v.Shaped g) (hw : v.snapshot.Sound g)
    (hmounted : v.mounted = true) (hdependable : LawfulDevice.Dependable v.device) {path : Text}
    (hresolve : v.snapshot.resolveFile path = .ok index) : v.Plain path index where
  reads offset count := Reads.run_eq hdependable (read_ends hv hw hmounted hresolve offset count)
  writes offset data truncate n hn := write_spliced hv hw hresolve offset data truncate n hn
  refuses offset data truncate stop hstop := by
    obtain ⟨cause, rfl, hdamaged⟩ := write_damaged hv hw hmounted hresolve stop hstop
    refine ⟨cause, rfl, hdamaged.why.imp_right fun h => h.resolve_right fun hio => ?_⟩
    exact hio.2 hdependable

/-- On a dependable device, a path to a file leads where the snapshot says. -/
theorem resolveFile_of_run (hv : v.Shaped g) (hw : v.snapshot.Sound g)
    (hdependable : LawfulDevice.Dependable v.device) {path : Text}
    (h : (v.run (VolumeM.resolveFile path)).1 = .ok index) :
    v.snapshot.resolveFile path = .ok index := by
  rw [Reads.run_eq hdependable (resolveFile_ends hv hw path)] at h
  cases hfound : v.snapshot.resolveFile path with
  | error cause =>
    rw [hfound] at h
    cases h
  | ok found =>
    rw [hfound] at h
    cases h
    rfl

end Volume

namespace Session

variable {g : Geometry} {v w : Volume RamDisk} {index : ℕ}

open Volume

/-- Healing the disk does not undo what a write did. -/
theorem damaged_heal {offset : ℕ} {data : List UInt8} {truncate : Bool} {cause : VolumeError}
    (h : Damaged index offset data truncate cause v w) :
    Damaged index offset data truncate cause v (Event.heal.apply w) := by
  obtain ⟨hwhy, hrefused, ⟨hover, hanew⟩, hkin, hothers, hentries⟩ := h
  have hsnapshot : (Event.heal.apply w).snapshot = w.snapshot := snapshot_of_fault rfl
  rw [← hsnapshot] at hover hanew hkin hothers hentries
  refine ⟨hwhy, fun h => ?_, ⟨hover, hanew⟩, hkin, hothers, hentries⟩
  obtain ⟨hw, hsectors⟩ := hrefused h
  refine ⟨?_, hsectors⟩
  exact congrArg (fun x : Volume RamDisk => { x with device := w.device.heal }) hw

/-- Calls leave a healed disk healed. -/
theorem healed_resume (hv : v.Standing g) (hmounted : v.mounted = true)
    (hhealed : v.device.faultAfter = none) (calls : List Call) :
    (resume v (calls.map .call)).mounted = true
      ∧ (resume v (calls.map .call)).device.faultAfter = none := by
  induction calls generalizing v with
  | nil => exact ⟨hmounted, hhealed⟩
  | cons call calls ih =>
    obtain ⟨hshaped, hsound⟩ := hv.mounted hmounted
    obtain ⟨hcontinues, -⟩ := call_ends hshaped hsound call
    exact ih (hv.call call) (hcontinues.mounted.trans hmounted) (hcontinues.dependable hhealed)

/-- **A write that fails does bounded damage.** In a mounted volume, whatever has happened to it
before, let a write to a file fail for any reason, and then let the disk be healed. If it was refused
for its size or its offset, nothing has changed. Otherwise, at most the content of the file has
changed: a first part of the bytes was laid over what was there before, or all of them were; after
truncation it is the old content, none, or the new one. The path leads to the same file, and that
can be read and written as what it now is, also after more calls. -/
theorem failed_write_damaged (g : Geometry) (count : ℕ) (events : List Event)
    {path : Text} {offset : ℕ} {data : List UInt8} {truncate : Bool} {stop : Stop}
    (hmounted : (after g count events).mounted = true)
    (hresolve : ((after g count (events ++ [.heal])).run (VolumeM.resolveFile path)).1 = .ok index)
    (hfail : ((after g count events).run (VolumeM.write path offset data truncate)).1
      = .error stop) :
    let v := after g count events
    let w := after g count (events ++ [.call (.write path offset data truncate), .heal])
    (∃ cause, stop = .error cause ∧ Damaged index offset data truncate cause v w)
      ∧ (w.run (VolumeM.resolveFile path)).1 = .ok index
      ∧ ∀ later : List Call,
        ((resume w (later.map .call)).run (VolumeM.resolveFile path)).1 = .ok index →
        (resume w (later.map .call)).Plain path index := by
  intro v w
  have hv := standing g count events
  obtain ⟨hshaped, hsound⟩ := hv.mounted hmounted
  have hhealed : after g count (events ++ [.heal]) = Event.heal.apply v := after_append _ _ _ _
  have hsnapshot : (Event.heal.apply v).snapshot = v.snapshot := snapshot_of_fault rfl
  have hshaped' : (Event.heal.apply v).Shaped g := shaped_of_fault hshaped rfl
  have hfound : v.snapshot.resolveFile path = .ok index := by
    rw [hhealed] at hresolve
    rw [← hsnapshot]
    exact resolveFile_of_run hshaped' (hsnapshot ▸ hsound) rfl hresolve
  have hw : w = Event.heal.apply (v.run (VolumeM.write path offset data truncate)).2 := by
    show after g count (events ++ _) = _
    rw [after_append]
    show Event.heal.apply (v.run (Call.operation _)).2 = _
    rw [Call.operation, Volume.run_unit]
  obtain ⟨cause, hcause, hdamaged⟩ := write_damaged hshaped hsound hmounted hfound stop hfail
  have hdamaged := hw ▸ damaged_heal hdamaged
  have hstanding : w.Standing g := standing _ _ _
  have hopen : w.mounted = true := by
    rw [hw]
    exact (write_ends hshaped hsound path offset data truncate).1.mounted.trans hmounted
  have hfaultless : w.device.faultAfter = none := by
    rw [hw]
    rfl
  obtain ⟨hwshaped, hwsound⟩ := hstanding.mounted hopen
  refine ⟨⟨cause, hcause, hdamaged⟩, ?_, fun later hleads => ?_⟩
  · rw [Reads.run_eq hfaultless (resolveFile_ends hwshaped hwsound path),
      hdamaged.resolveFile_eq path, hfound]
    rfl
  · obtain ⟨hlater, hfaultless'⟩ := healed_resume hstanding hopen hfaultless later
    obtain ⟨hxshaped, hxsound⟩ := (standing_resume hstanding _).mounted hlater
    exact plain_of_dependable hxshaped hxsound hlater hfaultless'
      (resolveFile_of_run hxshaped hxsound hfaultless' hleads)

/-- A write over two bytes is cut short after its block was read. -/
theorem failed_write_damaged_cut :
    let before : List Event := [.mount, .call (.touch ['/', 'a']),
      .call (.write ['/', 'a'] 0 [1, 2] false), .failAfter 2]
    let v := after .tiny 20 before
    let w := after .tiny 20 (before ++ [.call (.write ['/', 'a'] 1 [3, 4, 5] false), .heal])
    (∃ cause, (.error .io : Stop) = .error cause ∧ Damaged 1 1 [3, 4, 5] false cause v w)
      ∧ (w.run (VolumeM.resolveFile ['/', 'a'])).1 = .ok 1
      ∧ ∀ later : List Call,
        ((resume w (later.map .call)).run (VolumeM.resolveFile ['/', 'a'])).1 = .ok 1 →
        (resume w (later.map .call)).Plain ['/', 'a'] 1 :=
  failed_write_damaged .tiny 20 [.mount, .call (.touch ['/', 'a']),
      .call (.write ['/', 'a'] 0 [1, 2] false), .failAfter 2] (by decide +kernel)
    (eq_ok_of_toOption (by decide +kernel)) (by decide +kernel)

end Session

end PocketKernel
