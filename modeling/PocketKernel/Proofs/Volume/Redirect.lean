import PocketKernel.Proofs.Volume.Entries
import PocketKernel.Shell.Execute

/-!
# Putting bytes into files

To put bytes into a file is to create it if need be, and to write to it: over all that it contains,
or behind that. When this succeeds, the file holds what it should, and the only other inode that has
changed is the directory of a file that was created, which has one record more. Bytes that a file
has no room for behind its content leave the volume as it is.

## Main definitions

* `Snapshot.contentAt`: the content at a path.
* `RedirectMode.result`: what a file is to contain.
* `Snapshot.Redirected`: bytes were put into a file.

## Main results

* `Volume.Intact.write_ok`: what a write did, if it was acknowledged.
* `Volume.Intact.redirectInto_ok`: what is certain when bytes were put into a file.
* `Volume.Intact.redirectInto_full`: when there is no room for them.
-/

namespace PocketKernel

/-- What a file is to contain when bytes are put into it. -/
def RedirectMode.result (before data : List UInt8) : RedirectMode → List UInt8
  | truncate => data
  | append => before ++ data

namespace Snapshot

variable {g : Geometry} {mode : RedirectMode} {path : Text} {data : List UInt8} {index : ℕ}
  {w w' w'' : Snapshot}

/-- The content at a path; none, if the path leads nowhere. -/
def contentAt (w : Snapshot) (path : Text) : List UInt8 :=
  match w.resolve path with
  | .ok index => w.content (w.memory.inode index)
  | .error _ => []

theorem contentAt_of_resolve (h : w.resolve path = .ok index) :
    w.contentAt path = w.content (w.memory.inode index) := by
  rw [contentAt, h]

/-- Bytes were put into a file that was there. -/
structure Rewritten (mode : RedirectMode) (path : Text) (data : List UInt8) (index : ℕ)
    (w w' : Snapshot) : Prop where
  there : w.resolveFile path = .ok index
  leads : w'.resolveFile path = .ok index
  content : w'.content (w'.memory.inode index)
    = mode.result (w.content (w.memory.inode index)) data
  others : ∀ k, k ≠ index →
    w'.content (w'.memory.inode k) = w.content (w.memory.inode k)

/-- **Bytes were put into a file**, which may have been created for them. -/
structure Redirected (mode : RedirectMode) (path : Text) (data : List UInt8) (index : ℕ)
    (w w' : Snapshot) : Prop where
  leads : w'.resolveFile path = .ok index
  content : w'.content (w'.memory.inode index) = mode.result (w.contentAt path) data
  /-- No other inode has changed, but for the directory of a new file, which has a record more. -/
  others : (w.resolve path = .ok index ∧ ∀ k, k ≠ index →
      w'.content (w'.memory.inode k) = w.content (w.memory.inode k))
    ∨ ∃ parent leaf, (∀ found, w.resolve path ≠ .ok found) ∧ w.Place path parent leaf
      ∧ w'.content (w'.memory.inode parent)
        = w.content (w.memory.inode parent) ++ (DirectoryRecord.named index leaf).bytes
      ∧ ∀ k, k ≠ index → k ≠ parent →
        w'.content (w'.memory.inode k) = w.content (w.memory.inode k)

theorem Rewritten.redirected (h : Rewritten mode path data index w w') :
    Redirected mode path data index w w' := by
  obtain ⟨hresolve, -⟩ := of_resolveFile_eq_ok h.there
  refine ⟨h.leads, ?_, .inl ⟨hresolve, h.others⟩⟩
  rw [h.content, contentAt_of_resolve hresolve]

/-- A new file contains nothing before bytes are put into it. -/
theorem Entered.redirected {parent new : ℕ} {leaf : Text}
    (h : Entered g .file parent new leaf w w') (hplace : w.Place path parent leaf)
    (hnew : ∀ found, w.resolve path ≠ .ok found) (hw' : Rewritten mode path data index w' w'') :
    Redirected mode path data index w w'' := by
  obtain ⟨hresolve, -⟩ := of_resolveFile_eq_ok hw'.there
  have hlook : w.look parent leaf = none := by
    cases hlook : w.look parent leaf with
    | none => rfl
    | some target =>
      rw [hplace.resolve_look h.isDirectory_parent, hlook] at hnew
      exact absurd rfl (hnew target)
  -- the path leads to the new inode, or else there would be no file to write to
  obtain rfl : index = new := by
    rw [h.resolve_new hplace hlook] at hresolve
    split at hresolve
    · cases hresolve
    · exact (Except.ok.inj hresolve).symm
  have hempty : w'.content (w'.memory.inode index) = [] := by
    rw [h.enters.joined.self]
    exact content_of_size rfl
  have hbefore : w.contentAt path = [] := by
    rw [contentAt]
    split
    · rename_i found hfound
      exact absurd hfound (hnew found)
    · rfl
  refine ⟨hw'.leads, ?_, .inr ⟨parent, leaf, hnew, hplace, ?_, fun k hk hk' => ?_⟩⟩
  · rw [hw'.content, hempty, hbefore]
  · rw [hw'.others parent h.ne, h.enters.content]
  · rw [hw'.others k hk, (h.enters.spares k hk hk').content_eq_of_any h.sound]

end Snapshot

namespace Volume

variable {δ : Type} [BlockDevice δ] [LawfulDevice δ] {g : Geometry} {v w : Volume δ}
  {path : Text} {data : List UInt8} {mode : RedirectMode} {index : ℕ}

open Snapshot

/-- What a call leaves is intact. -/
theorem Intact.of_call (h : v.Intact g) (call : Call) {outcome : Except Stop Unit}
    (hrun : v.run call.operation = (outcome, w)) : w.Intact g := by
  have hlast := h.call call
  rwa [hrun] at hlast

/-! ### Writing -/

/-- What a write did, if it was acknowledged. -/
theorem Intact.write_ok (h : v.Intact g) {offset n : ℕ} {truncate : Bool}
    (hrun : v.run (VolumeM.write path offset data truncate) = (.ok n, w)) :
    ∃ index, v.snapshot.resolveFile path = .ok index
      ∧ v.snapshot.Spliced index offset data truncate w.snapshot := by
  have hwrite := (write_ends h.shaped h.sound path offset data truncate).of_run hrun
  obtain ⟨-, ⟨-, _, ⟨⟩⟩ | ⟨index, -, hresolve, -⟩⟩ := hwrite
  have hspliced := (write_spliced h.shaped h.sound hresolve offset data truncate).of_run hrun
  exact ⟨index, hresolve, (hspliced n rfl).2⟩

/-- A file that is written to is where it was. -/
theorem Intact.resolveFile_write (h : v.Intact g) {offset n : ℕ} {truncate : Bool}
    (hrun : v.run (VolumeM.write path offset data truncate) = (.ok n, w))
    (hresolve : v.snapshot.resolveFile path = .ok index) :
    w.snapshot.resolveFile path = .ok index := by
  have hcall : (v.run (Call.write path offset data truncate).operation).2 = w := by
    have hunit := run_unit (VolumeM.write path offset data truncate) v
    rw [hrun] at hunit
    exact congrArg Prod.snd hunit
  obtain ⟨hfound, hfile⟩ := of_resolveFile_eq_ok hresolve
  obtain ⟨hlast, hkind⟩ := h.call_resolve (.write path offset data truncate) hfound
  rw [hcall] at hlast hkind
  rw [resolveFile, hlast]
  have hfile' : (w.snapshot.memory.inode index).isDirectory = false := by
    rw [← hfile, Inode.isDirectory, Inode.isDirectory, hkind]
  simp [hfile']

/-- Bytes that were written over all that a file contains, or behind it. -/
theorem Intact.rewritten (h : v.Intact g) {offset n : ℕ} {truncate : Bool}
    (hrun : v.run (VolumeM.write path offset data truncate) = (.ok n, w))
    (hresult : ∀ before : List UInt8, v.snapshot.contentAt path = before →
      (if truncate = true then data else Bytes.splice before offset data)
        = mode.result before data) :
    ∃ index, v.snapshot.Rewritten mode path data index w.snapshot := by
  obtain ⟨index, hresolve, hspliced⟩ := h.write_ok hrun
  obtain ⟨hfound, -⟩ := of_resolveFile_eq_ok hresolve
  refine ⟨index, hresolve, h.resolveFile_write hrun hresolve, ?_, fun k hk =>
    (hspliced.others k hk).2⟩
  rw [hspliced.content]
  exact hresult _ (contentAt_of_resolve hfound)

/-! ### Creating -/

omit [LawfulDevice δ] [BlockDevice δ] in
theorem of_run_bind_eq_ok {α β : Type} {first : VolumeM δ β} {next : β → VolumeM δ α} {answer : α}
    (hrun : v.run (first >>= next) = (.ok answer, w)) :
    ∃ b x, v.run first = (.ok b, x) ∧ x.run (next b) = (.ok answer, w) := by
  rw [run_bind] at hrun
  rcases hfirst : v.run first with ⟨stop | b, x⟩ <;> rw [hfirst] at hrun
  · cases hrun
  · exact ⟨b, x, rfl, hrun⟩

omit [LawfulDevice δ] [BlockDevice δ] in
theorem run_discard {α : Type} (operation : VolumeM δ α) (v : Volume δ) :
    v.run (discard operation) = ((v.run operation).1.map fun _ => (), (v.run operation).2) := by
  rw [← bind_pure (discard operation), discard_bind]
  exact run_unit operation v

omit [LawfulDevice δ] [BlockDevice δ] in
theorem of_run_discard_eq_ok {α : Type} {operation : VolumeM δ α}
    (hrun : v.run (discard operation) = (.ok (), w)) :
    ∃ answer, v.run operation = (.ok answer, w) := by
  rw [run_discard] at hrun
  rcases hoperation : v.run operation with ⟨stop | answer, x⟩ <;> rw [hoperation] at hrun
  · cases hrun
  · cases hrun
    exact ⟨answer, rfl⟩

/-- To touch what is there changes nothing. -/
theorem touch_there_ends (hv : v.Shaped g) (hw : v.snapshot.Sound g) (hmounted : v.mounted = true)
    (hresolve : v.snapshot.resolve path = .ok index) :
    v.Ends (VolumeM.touch path) fun _ x => x.snapshot = v.snapshot := by
  unfold VolumeM.touch
  rw [ends_requireMounted_bind hmounted]
  have hread := resolve_ends hv hw path
  rw [hresolve] at hread
  refine Ends.attempt_bind hread ?_ ?_ fun _ h => h.snapshot
  · rintro found x ⟨hvx, hx, -⟩
    show x.Ends (VolumeM.findInode found >>= fun inode => _) _
    refine ((findInode_keeps hvx.shaped found).bind (fun inode y hxy => ?_) fun _ y hxy => ?_)
    · split
      · exact hxy.2.trans hx
      · exact hxy.2.trans hx
    · exact hxy.2.trans hx
  · rintro cause x ⟨hvx, hx, hcause | ⟨hcause, -⟩⟩
    · cases hcause
    · cases hcause
      exact hx

/-- A path that was touched leads to what it led to, or to a new file. -/
theorem Intact.touch_ok (h : v.Intact g) (hrun : v.run (VolumeM.touch path) = (.ok (), w)) :
    w.snapshot = v.snapshot ∨ ∃ parent new leaf, v.snapshot.Place path parent leaf
      ∧ (∀ found, v.snapshot.resolve path ≠ .ok found)
      ∧ Entered g .file parent new leaf v.snapshot w.snapshot := by
  by_cases hfound : ∃ index, v.snapshot.resolve path = .ok index
  · obtain ⟨index, hresolve⟩ := hfound
    exact .inl ((touch_there_ends h.shaped h.sound h.mounted hresolve).of_run hrun)
  · have hnew : ∀ found, v.snapshot.resolve path ≠ .ok found := fun found hresolve =>
      hfound ⟨found, hresolve⟩
    have hcall : v.run (Call.create false path).operation = (.ok (), w) := hrun
    have hlast : w.Intact g := h.of_call _ hcall
    have hcreate := (call_enters_ends h.shaped h.sound h.mounted hnew).of_run hcall
    obtain ⟨parent, new, leaf, hplace, henters⟩ := hcreate rfl
    exact .inr ⟨parent, new, leaf, hplace, hnew, henters, h.sound, h.orderly, hlast.sound,
      hlast.orderly⟩

/-! ### Putting bytes into files -/

/-- To ask for a path changes nothing. -/
theorem Intact.after_stat (h : v.Intact g) {told : FileStat}
    (hrun : v.run (VolumeM.stat path) = (.ok told, w)) :
    w.Intact g ∧ w.snapshot = v.snapshot := by
  have hunit := run_unit (VolumeM.stat path) v
  rw [hrun] at hunit
  exact ⟨h.of_call (.stat path) hunit, ((stat_keeps h.shaped h.sound path).of_run hrun).2⟩

theorem Intact.size_of_stat (h : v.Intact g) {told : FileStat}
    (hrun : v.run (VolumeM.stat path) = (.ok told, w)) :
    told.size = (v.snapshot.contentAt path).length := by
  obtain ⟨index, hresolve, rfl⟩ := h.of_stat_eq_ok (congrArg Prod.fst hrun)
  rw [contentAt_of_resolve hresolve, length_content]
  rfl

/-- **Bytes were put into a file.** -/
theorem Intact.redirectInto_ok (h : v.Intact g)
    (hrun : v.run (VolumeM.redirectInto mode path data) = (.ok (), w)) :
    ∃ index, v.snapshot.Redirected mode path data index w.snapshot := by
  obtain ⟨⟨⟩, x, htouch, hrest⟩ := of_run_bind_eq_ok hrun
  have hx : x.Intact g := h.of_call (.touch path) htouch
  obtain ⟨index, hrewritten⟩ : ∃ index, x.snapshot.Rewritten mode path data index w.snapshot := by
    cases mode with
    | truncate =>
      obtain ⟨n, hwrite⟩ := of_run_discard_eq_ok hrest
      exact hx.rewritten hwrite fun _ _ => rfl
    | append =>
      obtain ⟨told, y, hstat, hrest⟩ := of_run_bind_eq_ok hrest
      obtain ⟨n, hwrite⟩ := of_run_discard_eq_ok hrest
      have hy : y.Intact g ∧ y.snapshot = x.snapshot := hx.after_stat hstat
      rw [← hy.2]
      refine hy.1.rewritten hwrite fun before hbefore => ?_
      rw [hx.size_of_stat hstat, ← hy.2, hbefore]
      exact Bytes.splice_length before data
  obtain hsame | ⟨parent, new, leaf, hplace, hnew, hentered⟩ := h.touch_ok htouch
  · rw [hsame] at hrewritten
    exact ⟨index, hrewritten.redirected⟩
  · exact ⟨index, hentered.redirected hplace hnew hrewritten⟩

/-- A write that a file has no room for is refused before anything happens. -/
theorem write_full_ends (hv : v.Shaped g) (hw : v.snapshot.Sound g) (hmounted : v.mounted = true)
    (hresolve : v.snapshot.resolveFile path = .ok index) {offset : ℕ}
    (hfull : maxFileSize < offset + data.length) (truncate : Bool) :
    v.Ends (VolumeM.write path offset data truncate) fun outcome x =>
      v.Reads g (.error .fileTooLarge) outcome x := by
  unfold VolumeM.write
  rw [ends_requireMounted_bind hmounted]
  refine Reads.bind (resolveFile_ends hv hw path) ?_ fun cause h => by rw [hresolve] at h; cases h
  intro found _ x hvx _
  unfold VolumeM.writeContent
  rw [if_pos hfull]
  exact hvx.shaped.reads _

/-- **Bytes that there is no room for** behind the content of a file leave it as it is. -/
theorem Intact.redirectInto_full (h : v.Intact g)
    (hresolve : v.snapshot.resolveFile path = .ok index)
    (hfull : maxFileSize < (v.snapshot.contentAt path).length + data.length) :
    (v.run (VolumeM.redirectInto .append path data)).1 = .error (.error .fileTooLarge)
      ∧ (v.run (VolumeM.redirectInto .append path data)).2.snapshot = v.snapshot := by
  obtain ⟨hfound, hfile⟩ := of_resolveFile_eq_ok hresolve
  -- the file is there, so that it is not created
  rcases htouch : v.run (VolumeM.touch path) with ⟨outcome, x⟩
  have hx : x.snapshot = v.snapshot :=
    (touch_there_ends h.shaped h.sound h.mounted hfound).of_run htouch
  have hxIntact : x.Intact g := h.of_call (.touch path) htouch
  have hagain := call_again_ends h.shaped h.sound h.mounted hfound hfile
  obtain ⟨-, rfl | hfault⟩ := hagain.of_run htouch
  case inr => exact absurd h.dependable hfault.2
  -- its size is asked for
  rcases hstat : x.run (VolumeM.stat path) with ⟨outcome, y⟩
  have htold := congrArg Prod.fst hstat
  rw [hxIntact.run_stat, Snapshot.stat, hx, hfound] at htold
  obtain rfl : .ok (v.snapshot.statOf index) = outcome := htold
  obtain ⟨hyIntact, hy⟩ := hxIntact.after_stat hstat
  have hsize := hxIntact.size_of_stat hstat
  rw [hx] at hy hsize
  -- and then there is no room
  rw [← hsize] at hfull
  have hwrite := write_full_ends hyIntact.shaped hyIntact.sound hyIntact.mounted
    (hy ▸ hresolve) hfull false
  have hrun : v.run (VolumeM.redirectInto .append path data)
      = y.run (discard (VolumeM.write path (v.snapshot.statOf index).size data false)) := by
    rw [VolumeM.redirectInto, run_bind, htouch]
    show x.run (VolumeM.stat path >>= fun told => _) = _
    rw [run_bind, hstat]
  rw [hrun, run_discard]
  dsimp only
  rw [Reads.run_eq hyIntact.dependable hwrite]
  exact ⟨rfl, hwrite.snapshot.trans hy⟩

end Volume

end PocketKernel
