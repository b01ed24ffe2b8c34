import PocketKernel.Proofs.Volume.Lasting
import PocketKernel.Proofs.Volume.Leaf
import PocketKernel.Proofs.Volume.Naming
import PocketKernel.Proofs.Volume.Refinement

/-!
# New entries can be found

While no transfer is refused, a new entry changes little that clients can see: its directory has one
line more and has grown by one record, and all paths that led somewhere lead there still. The path
of the new entry leads to it as well, unless its name has a zero character. Then the record is cut
there and stands for another name, so that what was created cannot be found, and the same path can
be created once more.

## Main definitions

* `Snapshot.Place`: the directory and the name that a path gives to a new entry.
* `Snapshot.Enters`: an entry was created.
* `DirectoryEntry.grown`: the line of a directory that has one record more.
* `Volume.Found`: a new entry can be found, and nothing else has changed.

## Main results

* `Snapshot.Entered.resolve_old`, `Snapshot.Entered.resolve_new`: where paths lead afterwards.
* `Snapshot.Entered.list_parent`, `Snapshot.Entered.list_of_ne`: what is told of directories.
* `Snapshot.Entered.distinct`: names stay distinct.
* `Volume.found_iff`: when new entries can be found.
-/

namespace PocketKernel

/-- A directory has one record more, and that shows in the lines that lead to it. -/
def DirectoryEntry.grown (directory : ℕ) (entry : DirectoryEntry) : DirectoryEntry :=
  if entry.stat.inode = directory then
    { entry with stat := { entry.stat with size := entry.stat.size + recordSize } }
  else entry

theorem DirectoryEntry.name_grown (directory : ℕ) (entry : DirectoryEntry) :
    (entry.grown directory).name = entry.name := by
  unfold grown
  split
  · rfl
  · rfl

/-- Create an empty directory or an empty file. -/
def Call.create (directory : Bool) (path : Text) : Call :=
  if directory then .mkdir path else .touch path

/-- The kind of what is created. -/
def InodeKind.created (directory : Bool) : InodeKind :=
  if directory then .directory else .file

namespace Snapshot

variable {g : Geometry} {kind : InodeKind} {directory parent index : ℕ} {leaf name : Text}
  {w w' : Snapshot}

/-! ### Tidy directories -/

theorem Orderly.lines_eq (ho : w.Orderly g) (hlt : directory < g.inodeCount) :
    w.lines directory = (w.entries directory).map w.lineOf := by
  rw [lines, ho.filter_entries hlt]

/-- The only record of an inode is in its parent. -/
theorem Orderly.parent_of_mem_entries (hw : w.Sound g) (ho : w.Orderly g)
    {record : DirectoryRecord} (hrecord : record ∈ w.entries directory)
    (hlt : directory < g.inodeCount) : w.parent record.target.toNat = directory := by
  have hne := (hw.target_of_mem_entries hrecord).2
  have hlive := ho.live_of_mem_entries hrecord hlt
  obtain ⟨other, hother, htarget⟩ := ho.named hne hlive
  by_contra hparent
  obtain ⟨k, hk⟩ := List.getElem?_of_mem hrecord
  obtain ⟨k', hk'⟩ := List.getElem?_of_mem hother
  have htwo := two_le_links hk hk' hlt (hw.known_parent .memory record.target.toNat).lt
    (fun h => hparent (congrArg Prod.fst h).symm) htarget.symm
  rw [ho.links hne hlive] at htwo
  omega

/-- A directory does not contain itself. -/
theorem Orderly.target_ne_directory (hw : w.Sound g) (ho : w.Orderly g)
    {record : DirectoryRecord} (hrecord : record ∈ w.entries directory)
    (hlt : directory < g.inodeCount) : record.target.toNat ≠ directory := by
  intro hself
  have hne : directory ≠ 0 := hself ▸ (hw.target_of_mem_entries hrecord).2
  have hlive : w.live directory = true := hself ▸ ho.live_of_mem_entries hrecord hlt
  -- it would be its own parent, and not lie below the root
  have hparent : w.parent directory = directory := by
    have hparent := ho.parent_of_mem_entries hw hrecord hlt
    rwa [hself] at hparent
  obtain ⟨steps, hsteps⟩ := (ho.climbs hlive).iterate
  rw [Function.iterate_fixed hparent steps] at hsteps
  exact hne hsteps

/-- The size of a directory counts its records. -/
theorem Sound.size_eq_length (hw : w.Sound g)
    (hdirectory : (w.memory.inode directory).isDirectory = true) :
    (w.memory.inode directory).size.toNat = recordSize * (w.entries directory).length := by
  have hmod := (hw.listing .memory hdirectory).size_mod
  rw [image_memory] at hmod
  rw [entries, if_pos hdirectory, records, DirectoryRecord.readAll, List.length_map,
    List.length_range, length_content]
  exact (Nat.mul_div_cancel' (Nat.dvd_of_mod_eq_zero hmod)).symm

/-! ### The path of a new entry -/

theorem walkFrom_concat (current : ℕ) (front : List Text) (last : Text) :
    w.walkFrom current (front ++ [last])
      = (w.walkFrom current front >>= fun next => w.step next last) := by
  rw [walkFrom, List.foldlM_append]
  simp only [List.foldlM_cons, List.foldlM_nil, bind_pure, walkFrom]

/-- The segments of a path before the last lead to an inode, and the last is the name that a new
entry gets there. -/
structure Place (w : Snapshot) (path : Text) (parent : ℕ) (leaf : Text) : Prop where
  leafName : Path.leafName path = .ok leaf
  leads : ∃ segments, Path.components path = .ok segments
    ∧ w.walk segments.dropLast = .ok parent

theorem Place.resolve_eq {path : Text} (h : w.Place path parent leaf) :
    w.resolve path = w.step parent leaf := by
  obtain ⟨hleaf, segments, hsegments, hwalk⟩ := h
  obtain ⟨-, -, -, hsplit⟩ := Path.of_leafName_eq_ok hleaf
  obtain ⟨rfl, -⟩ := Path.components_eq_ok_iff.mp hsegments
  rw [walk] at hwalk
  rw [resolve, hsegments]
  dsimp only
  rw [hsplit, walk, walkFrom_concat, hwalk]
  rfl

/-- In a directory, the last step looks for the name. -/
theorem Place.resolve_look {path : Text} (h : w.Place path parent leaf)
    (hdirectory : (w.memory.inode parent).isDirectory = true) :
    w.resolve path = match w.look parent leaf with
      | some target => .ok target
      | none => .error .notFound := by
  have hparent := (Path.of_leafName_eq_ok h.leafName).2.1
  cases hlook : w.look parent leaf with
  | some target => rw [h.resolve_eq, step, if_pos hdirectory, if_neg hparent, hlook]
  | none => rw [h.resolve_eq, step, if_pos hdirectory, if_neg hparent, hlook]

/-! ### A new entry -/

/-- An entry was created under a name. -/
structure Enters (g : Geometry) (kind : InodeKind) (parent index : ℕ) (leaf : Text)
    (w w' : Snapshot) : Prop where
  vacancy : w.Vacancy g parent index (.named index leaf)
  joined : Joined index parent kind w w'
  entries : w'.entries = Function.update w.entries parent
    (w.entries parent ++ [DirectoryRecord.ofBytes (DirectoryRecord.named index leaf).bytes])
  content : w'.content (w'.memory.inode parent)
    = w.content (w.memory.inode parent) ++ (DirectoryRecord.named index leaf).bytes
  spares : ∀ k, k ≠ index → k ≠ parent → Spares k w w'

/-- All that is known of the states before and after. -/
structure Entered (g : Geometry) (kind : InodeKind) (parent index : ℕ) (leaf : Text)
    (w w' : Snapshot) : Prop where
  enters : Enters g kind parent index leaf w w'
  sound : w.Sound g
  orderly : w.Orderly g
  sound' : w'.Sound g
  orderly' : w'.Orderly g

theorem Enters.target (h : Enters g kind parent index leaf w w') :
    (DirectoryRecord.ofBytes (DirectoryRecord.named index leaf).bytes).target.toNat = index := by
  rw [DirectoryRecord.target_ofBytes, h.vacancy.target]

namespace Entered

variable (h : Entered g kind parent index leaf w w')
include h

theorem dead : w.live index = false := h.enters.vacancy.not_isLive h.sound

theorem ne_of_known (hknown : w.Known g directory) : directory ≠ index :=
  h.enters.vacancy.lowest.ne_of_known hknown

theorem isDirectory_eq (hne : directory ≠ index) : (w'.memory.inode directory).isDirectory
    = (w.memory.inode directory).isDirectory :=
  (h.enters.joined.kin directory hne).isDirectory_eq

theorem entries_parent : w'.entries parent = w.entries parent
    ++ [DirectoryRecord.ofBytes (DirectoryRecord.named index leaf).bytes] := by
  rw [h.enters.entries, Function.update_self]

theorem entries_of_ne (hne : directory ≠ parent) : w'.entries directory = w.entries directory := by
  rw [h.enters.entries, Function.update_of_ne hne]

/-- Nothing that was there is lost. -/
theorem outgrows : Outgrows g w w' := by
  refine ⟨fun k hknown => h.enters.joined.kin k (h.ne_of_known hknown), fun k => ?_⟩
  by_cases hk : k = parent
  · rw [hk, h.entries_parent]
    exact List.prefix_append ..
  · rw [h.entries_of_ne hk]

/-- A name that was not there leads to the new entry, if that is what it is called. -/
theorem look_new (hnone : w.look parent name = none) : w'.look parent name
    = if (DirectoryRecord.ofBytes (DirectoryRecord.named index leaf).bytes).isNamed name
      then some index else none := by
  obtain ⟨hknown, hdirectory, -, -⟩ := h.enters.vacancy
  have hdirectory' := (h.isDirectory_eq (h.ne_of_known hknown)).trans hdirectory
  rw [h.orderly.look_eq hknown.lt hdirectory, Option.map_eq_none_iff] at hnone
  rw [h.orderly'.look_eq hknown.lt hdirectory', h.entries_parent, List.find?_append, hnone,
    Option.none_or, List.find?_singleton]
  split
  · rw [Option.map_some, h.enters.target]
  · rfl

/-- **Paths lead where they did.** -/
theorem resolve_old {path : Text} {last : ℕ} (hresolve : w.resolve path = .ok last) :
    w'.resolve path = .ok last :=
  h.outgrows.resolve h.sound h.orderly h.orderly' hresolve

theorem place_old {path : Text} (hplace : w.Place path directory name) :
    w'.Place path directory name := by
  obtain ⟨hleaf, segments, hsegments, hwalk⟩ := hplace
  exact ⟨hleaf, segments, hsegments,
    h.outgrows.walkFrom h.sound h.orderly h.orderly' h.sound.known_root hwalk⟩

theorem isDirectory_parent : (w.memory.inode parent).isDirectory = true :=
  h.enters.vacancy.directory

theorem ne : parent ≠ index := h.ne_of_known h.enters.vacancy.known

/-- A path that led nowhere is the path of the new entry, or not if its name was cut. -/
theorem resolve_new {path : Text} (hplace : w.Place path parent leaf)
    (hnew : w.look parent leaf = none) :
    w'.resolve path = if '\x00' ∈ leaf then .error .notFound else .ok index := by
  have hlimit := (Path.of_leafName_eq_ok hplace.leafName).2.2.1
  rw [(h.place_old hplace).resolve_look ((h.isDirectory_eq h.ne).trans h.isDirectory_parent),
    h.look_new hnew]
  simp only [DirectoryRecord.isNamed_ofBytes_named index hlimit, ite_not]
  by_cases hzero : '\x00' ∈ leaf
  · rw [if_pos hzero, if_pos hzero]
  · rw [if_neg hzero, if_neg hzero]

/-! ### Listings -/

theorem size_parent : (w'.memory.inode parent).size.toNat
    = (w.memory.inode parent).size.toNat + recordSize := by
  rw [h.sound.size_eq_length h.isDirectory_parent,
    h.sound'.size_eq_length ((h.isDirectory_eq h.ne).trans h.isDirectory_parent),
    h.entries_parent, List.length_append, List.length_singleton, Nat.mul_succ]

theorem statOf_parent : w'.statOf parent
    = { w.statOf parent with size := (w.statOf parent).size + recordSize } := by
  rw [statOf, statOf, h.isDirectory_eq h.ne, h.size_parent]

theorem statOf_of_ne (hne : directory ≠ index) (hne' : directory ≠ parent) :
    w'.statOf directory = w.statOf directory := by
  rw [statOf, statOf, h.enters.joined.others directory hne hne']

theorem statOf_new : w'.statOf index = ⟨index, decide (kind = .directory), 0⟩ := by
  rw [statOf, h.enters.joined.self]
  cases kind with
  | _ => rfl

/-- What was told of a record is told still, except that the directory has grown. -/
theorem lineOf_old {record : DirectoryRecord} (hrecord : record ∈ w.entries directory)
    (hlt : directory < g.inodeCount) : w'.lineOf record = (w.lineOf record).grown parent := by
  have hne : record.target.toNat ≠ index := by
    intro hsame
    have hlive := h.orderly.live_of_mem_entries hrecord hlt
    rw [hsame, h.dead] at hlive
    cases hlive
  unfold DirectoryEntry.grown lineOf
  by_cases hparent : record.target.toNat = parent
  · rw [hparent, h.statOf_parent]
    exact (if_pos rfl).symm
  · rw [h.statOf_of_ne hne hparent]
    exact (if_neg hparent).symm

/-- **Other directories have the lines that they had.** -/
theorem lines_of_ne (hlt : directory < g.inodeCount) (hne : directory ≠ parent) :
    w'.lines directory = (w.lines directory).map (·.grown parent) := by
  rw [h.orderly'.lines_eq hlt, h.orderly.lines_eq hlt, h.entries_of_ne hne, List.map_map]
  exact List.map_congr_left fun record hrecord => h.lineOf_old hrecord hlt

/-- **The directory has one line more.** -/
theorem lines_parent : w'.lines parent = w.lines parent
    ++ [w'.lineOf (DirectoryRecord.ofBytes (DirectoryRecord.named index leaf).bytes)] := by
  have hlt := h.enters.vacancy.known.lt
  rw [h.orderly'.lines_eq hlt, h.orderly.lines_eq hlt, h.entries_parent, List.map_append]
  refine congrArg (· ++ _) (List.map_congr_left fun record hrecord => ?_)
  -- no line of the directory leads to the directory
  exact (h.lineOf_old hrecord hlt).trans
    (if_neg (h.orderly.target_ne_directory h.sound hrecord hlt))

/-- The new line has the name, unless that was cut. -/
theorem lineOf_new (hlimit : Text.utf8Size leaf < Path.nameLimit) (hzero : '\x00' ∉ leaf) :
    w'.lineOf (DirectoryRecord.ofBytes (DirectoryRecord.named index leaf).bytes)
      = ⟨Text.utf8 leaf, ⟨index, decide (kind = .directory), 0⟩⟩ := by
  rw [lineOf, h.enters.target, h.statOf_new, DirectoryRecord.name_ofBytes_named index hlimit,
    Text.beforeZero_eq_self_iff.mpr hzero, List.take_of_length_le]
  rw [Text.length_utf8]
  omega

theorem list_parent (hlimit : Text.utf8Size leaf < Path.nameLimit) (hzero : '\x00' ∉ leaf)
    {path : Text} (hresolve : w.resolve path = .ok parent) :
    w.list path = .ok (w.lines parent) ∧ w'.list path = .ok (w.lines parent
      ++ [⟨Text.utf8 leaf, ⟨index, decide (kind = .directory), 0⟩⟩]) := by
  have hdirectory := h.isDirectory_parent
  unfold list
  rw [hresolve, h.resolve_old hresolve, Except.map, Except.map, h.isDirectory_eq h.ne,
    if_pos hdirectory, if_pos hdirectory, h.lines_parent, h.lineOf_new hlimit hzero]
  exact ⟨rfl, rfl⟩

theorem list_of_ne {path : Text} {found : ℕ} (hresolve : w.resolve path = .ok found)
    (hne : found ≠ parent) : ∃ before, w.list path = .ok before
      ∧ w'.list path = .ok (before.map (·.grown parent)) := by
  have hknown := h.sound.known_resolve hresolve
  have hne' := h.ne_of_known hknown
  unfold list
  rw [hresolve, h.resolve_old hresolve, Except.map, Except.map, h.isDirectory_eq hne']
  refine ⟨_, rfl, congrArg Except.ok ?_⟩
  by_cases hdirectory : (w.memory.inode found).isDirectory = true
  · rw [if_pos hdirectory, if_pos hdirectory, h.lines_of_ne hknown.lt hne]
  · rw [if_neg hdirectory, if_neg hdirectory, h.statOf_of_ne hne' hne, List.map_singleton]
    exact congrArg (fun line => [line]) (if_neg hne).symm

end Entered

/-- No directory has two lines with one name. -/
def Distinct (g : Geometry) (w : Snapshot) : Prop :=
  ∀ directory < g.inodeCount, ((w.lines directory).map DirectoryEntry.name).Nodup

/-- A name that is not found is not told. -/
theorem not_mem_names (ho : w.Orderly g) (hlt : directory < g.inodeCount)
    (hdirectory : (w.memory.inode directory).isDirectory = true)
    (hnone : w.look directory name = none) :
    Text.utf8 name ∉ (w.lines directory).map DirectoryEntry.name := by
  rw [ho.look_eq hlt hdirectory, Option.map_eq_none_iff, List.find?_eq_none] at hnone
  rw [ho.lines_eq hlt, List.map_map, List.mem_map]
  rintro ⟨record, hrecord, hname⟩
  refine hnone record hrecord ?_
  have hlength : record.name.length ≤ Path.nameLimit := by
    rw [entries, if_pos hdirectory] at hrecord
    obtain ⟨k, -, rfl⟩ := List.mem_map.mp hrecord
    exact DirectoryRecord.length_name_ofBytes _
  rw [DirectoryRecord.isNamed, decide_eq_true_iff, ← hname]
  exact (List.take_of_length_le hlength).symm

/-- **Names stay distinct.** -/
theorem Entered.distinct (h : Entered g kind parent index leaf w w')
    (hnone : w.look parent leaf = none) (hlimit : Text.utf8Size leaf < Path.nameLimit)
    (hzero : '\x00' ∉ leaf) (hd : w.Distinct g) : w'.Distinct g := by
  intro k hlt
  by_cases hk : k = parent
  · subst hk
    rw [h.lines_parent, h.lineOf_new hlimit hzero, List.map_append, List.map_singleton,
      ← List.concat_eq_append]
    exact (hd k hlt).concat (not_mem_names h.orderly hlt h.isDirectory_parent hnone)
  · have hnames : (w'.lines k).map DirectoryEntry.name = (w.lines k).map DirectoryEntry.name := by
      rw [h.lines_of_ne hlt hk, List.map_map]
      exact List.map_congr_left fun line _ => line.name_grown parent
    rw [hnames]
    exact hd k hlt

end Snapshot

namespace Volume

variable {δ : Type} [BlockDevice δ] [LawfulDevice δ] {g : Geometry} {v w : Volume δ}
  {kind : InodeKind} {directory : Bool} {path : Text}

open Snapshot

/-! ### What creating an entry does -/

/-- A record that is appended stands behind the content of the directory. -/
theorem appendRecord_content_ends (hv : v.Shaped g) (hw : v.snapshot.Sound g) {index : ℕ}
    (hknown : v.snapshot.Known g index)
    (hdirectory : (v.snapshot.memory.inode index).isDirectory = true) (record : DirectoryRecord) :
    v.Ends (VolumeM.appendRecord index record) fun outcome w => outcome = .ok () →
      w.snapshot.content (w.snapshot.memory.inode index)
        = v.snapshot.content (v.snapshot.memory.inode index) ++ record.bytes := by
  have hmod := (hw.listing .memory hdirectory).size_mod
  rw [image_memory] at hmod
  unfold VolumeM.appendRecord
  rw [ends_findInode_bind hv hknown.lt]
  simp only [hmod, ne_eq, not_true_eq_false, if_false]
  refine Ends.attempt_bind (writeContent_ends hv hw hknown (fun h => by cases h)
    fun _ => Nat.le_refl _) ?_ ?_ fun _ _ h => by cases h
  · rintro count w ⟨-, ⟨_, ⟨⟩, -⟩ | ⟨⟨⟩, -⟩ | ⟨base, mid, hchunked⟩⟩ -
    have hcontent := hchunked.spliced.2.1
    have hsplice := Bytes.splice_length (v.snapshot.content (v.snapshot.memory.inode index))
      record.bytes
    rw [length_content] at hsplice
    rw [if_neg Bool.false_ne_true, hsplice] at hcontent
    exact hcontent
  · intro cause w _
    split
    · rename_i hcause
      cases hcause
    · exact fun h => by cases h
    · exact fun h => by cases h

/-- An entry that is created is entered into its directory. -/
theorem enter_enters_ends (hv : v.Shaped g) (hw : v.snapshot.Sound g) {parent : ℕ}
    (hknown : v.snapshot.Known g parent)
    (hdirectory : (v.snapshot.memory.inode parent).isDirectory = true) (leaf : Text)
    (kind : InodeKind) :
    v.Ends (VolumeM.enter parent leaf kind) fun outcome w =>
      outcome = .ok () → ∃ index, Enters g kind parent index leaf v.snapshot w.snapshot := by
  unfold VolumeM.enter
  refine Ends.bind (allocInode_ends hv kind parent) ?_ fun _ _ _ h => by cases h
  rintro index x ⟨hvx, hallocated⟩
  cases hallocated with
  | handed index hlow hx =>
  have h := enrolled_of_lowestFree hw hknown hdirectory leaf hlow hvx hx
  have hcontent := appendRecord_content_ends h.continues.shaped h.sound h.known h.directory
    (.named index leaf)
  refine Ends.attempt_bind (h.append_ends.and hcontent) ?_ ?_ fun _ _ h => by cases h
  · rintro ⟨⟩ y ⟨⟨hrewrites, happended⟩, hcontent⟩ -
    have hreworks := hrewrites.reworks
    rw [hx] at hreworks
    refine ⟨index, h.vacancy, hreworks.joined h.vacancy.ne, ?_, ?_, fun k hk hk' => ?_⟩
    · rcases happended.entries_eq hw h.vacancy hx hrewrites with ⟨-, hentries⟩ | ⟨⟨⟩, -⟩
      exact hentries
    · have happended := hcontent rfl
      rw [hx, (spares_enrolled h.vacancy.ne.symm).content_eq_of_any hw] at happended
      exact happended
    · exact (spares_enrolled hk).trans (hreworks.spares k hk')
  · intro cause y _
    show y.Ends (discard (VolumeM.attempt (VolumeM.releaseInode index)) >>=
      fun _ => VolumeM.fail cause) _
    have hany : y.Ends (discard (VolumeM.attempt (VolumeM.releaseInode index)))
        fun _ _ => True := trivial
    exact Ends.bind hany (fun _ _ _ h => by cases h) fun _ _ _ h => by cases h

theorem create_enters_ends (hv : v.Shaped g) (hw : v.snapshot.Sound g) (path : Text)
    (kind : InodeKind) :
    v.Ends (VolumeM.create path kind) fun outcome w => outcome = .ok () →
      ∃ parent index leaf, v.snapshot.Place path parent leaf
        ∧ Enters g kind parent index leaf v.snapshot w.snapshot := by
  unfold VolumeM.create
  cases hleaf : Path.leafName path with
  | error cause => exact fun h => by cases h
  | ok leaf =>
  cases hsegments : Path.components path with
  | error cause => exact fun h => by cases h
  | ok segments =>
  show v.Ends (VolumeM.walk segments.dropLast >>= fun parent => _) _
  refine Reads.bind_change (walk_ends hv hw segments.dropLast) ?_ fun _ _ _ h => by cases h
  intro parent hparent x hvx
  have hplace : v.snapshot.Place path parent leaf := ⟨hleaf, segments, hsegments, hparent⟩
  have hknown := hw.known_walk hparent
  rw [← hvx.2] at hw hknown hplace ⊢
  show x.Ends (VolumeM.findInode parent >>= fun inode => _) _
  rw [ends_findInode_bind hvx.1.shaped hknown.lt]
  by_cases hdirectory : (x.snapshot.memory.inode parent).isDirectory = true
  · rw [hdirectory]
    refine (enter_enters_ends hvx.1.shaped hw hknown hdirectory leaf kind).mono ?_
    intro outcome y h hok
    obtain ⟨index, henters⟩ := h hok
    exact ⟨parent, index, leaf, hplace, henters⟩
  · rw [Bool.eq_false_iff.mpr hdirectory]
    exact fun h => by cases h

/-- A path that led nowhere leads to a new entry. -/
theorem call_enters_ends (hv : v.Shaped g) (hw : v.snapshot.Sound g) (hmounted : v.mounted = true)
    (hnew : ∀ index, v.snapshot.resolve path ≠ .ok index) :
    v.Ends (Call.create directory path).operation fun outcome w => outcome = .ok () →
      ∃ parent index leaf, v.snapshot.Place path parent leaf
        ∧ Enters g (.created directory) parent index leaf v.snapshot w.snapshot := by
  have hcreate {x : Volume δ} (hvx : v.Keeps g x) (kind : InodeKind) :
      x.Ends (VolumeM.create path kind) fun outcome w => outcome = .ok () →
        ∃ parent index leaf, v.snapshot.Place path parent leaf
          ∧ Enters g kind parent index leaf v.snapshot w.snapshot := by
    rw [← hvx.2] at hw ⊢
    exact create_enters_ends hvx.1.shaped hw path kind
  -- the path is followed first, and leads nowhere
  have hno {x : Volume δ} {found : ℕ}
      (h : v.Reads g (v.snapshot.resolve path) (.ok found) x) : False :=
    hnew found h.answer_eq
  cases directory with
  | false =>
    show v.Ends (VolumeM.touch path) _
    unfold VolumeM.touch
    rw [ends_requireMounted_bind hmounted]
    refine Ends.attempt_bind (resolve_ends hv hw path) (fun _ _ h => (hno h).elim) ?_
      fun _ _ h => by cases h
    intro cause x hread
    cases cause with
    | notFound => exact hcreate ⟨hread.continues, hread.snapshot⟩ .file
    | _ => exact fun h => by cases h
  | true =>
    show v.Ends (VolumeM.mkdir path) _
    unfold VolumeM.mkdir
    rw [ends_requireMounted_bind hmounted]
    refine Ends.attempt_bind (resolve_ends hv hw path) (fun _ _ h => (hno h).elim) ?_
      fun _ _ h => by cases h
    intro cause x hread
    cases cause with
    | notFound => exact hcreate ⟨hread.continues, hread.snapshot⟩ .directory
    | _ => exact fun h => by cases h

/-- To create what is there already changes nothing. -/
theorem call_again_ends (hv : v.Shaped g) (hw : v.snapshot.Sound g) (hmounted : v.mounted = true)
    {index : ℕ} (hresolve : v.snapshot.resolve path = .ok index)
    (hkind : (v.snapshot.memory.inode index).isDirectory = directory) :
    v.Ends (Call.create directory path).operation fun outcome w => v.Untouched w
      ∧ (outcome = (if directory then .error (.error .alreadyExists) else .ok ())
        ∨ v.Faulted w) := by
  have hread := resolve_ends hv hw path
  rw [hresolve] at hread
  have hboth := hread.and ((looks_resolve path).untouched hv)
  cases directory with
  | false =>
    show v.Ends (VolumeM.touch path) _
    unfold VolumeM.touch
    rw [ends_requireMounted_bind hmounted]
    refine Ends.attempt_bind hboth ?_ ?_ ?_
    · rintro found x ⟨⟨hvx, hx, ⟨⟨⟩⟩ | ⟨⟨⟩, -⟩⟩, huntouched⟩
      rw [← hx] at hw hresolve hkind
      show x.Ends (VolumeM.findInode index >>= fun inode => _) _
      rw [ends_findInode_bind hvx.shaped (hw.known_resolve hresolve).lt, hkind]
      exact ⟨huntouched, .inl rfl⟩
    · rintro cause x ⟨⟨hvx, hx, ⟨⟨⟩⟩ | ⟨⟨⟩, hfault⟩⟩, huntouched⟩
      exact ⟨huntouched, .inr hfault⟩
    · rintro x ⟨⟨hvx, hx, ⟨⟨⟩⟩ | ⟨⟨⟩, hfault⟩⟩, huntouched⟩
  | true =>
    show v.Ends (VolumeM.mkdir path) _
    unfold VolumeM.mkdir
    rw [ends_requireMounted_bind hmounted]
    refine Ends.attempt_bind hboth ?_ ?_ ?_
    · rintro found x ⟨⟨hvx, hx, ⟨⟨⟩⟩ | ⟨⟨⟩, -⟩⟩, huntouched⟩
      exact ⟨huntouched, .inl rfl⟩
    · rintro cause x ⟨⟨hvx, hx, ⟨⟨⟩⟩ | ⟨⟨⟩, hfault⟩⟩, huntouched⟩
      exact ⟨huntouched, .inr hfault⟩
    · rintro x ⟨⟨hvx, hx, ⟨⟨⟩⟩ | ⟨⟨⟩, hfault⟩⟩, huntouched⟩

/-! ### Finding it -/

/-- **A new entry can be found, and nothing else has changed.** -/
structure Found (g : Geometry) (directory : Bool) (path : Text) (parent index : ℕ)
    (v w : Volume δ) : Prop where
  /-- The inode was not in use. -/
  fresh : v.snapshot.live index = false
  stat : (w.run (VolumeM.stat path)).1 = .ok ⟨index, directory, 0⟩
  /-- It lies where the other segments of the path lead. -/
  place : ∃ segments, Path.components path = .ok segments
    ∧ (v.run (VolumeM.walk segments.dropLast)).1 = .ok parent
  /-- That directory has one line more. -/
  listed : ∀ other, (v.run (VolumeM.resolve other)).1 = .ok parent →
    ∃ before, (v.run (VolumeM.list other)).1 = .ok before
      ∧ (w.run (VolumeM.list other)).1
        = .ok (before ++ [⟨Text.utf8 (Path.basename path), ⟨index, directory, 0⟩⟩])
  /-- All others have the lines they had; the directory is longer, where one of them tells of it. -/
  elsewhere : ∀ other found, (v.run (VolumeM.resolve other)).1 = .ok found → found ≠ parent →
    ∃ before, (v.run (VolumeM.list other)).1 = .ok before
      ∧ (w.run (VolumeM.list other)).1 = .ok (before.map (·.grown parent))
  distinct : v.snapshot.Distinct g → w.snapshot.Distinct g
  /-- To create it once more changes nothing. -/
  again : (w.run (Call.create directory path).operation).1
      = (if directory then .error (.error .alreadyExists) else .ok ())
    ∧ w.Untouched (w.run (Call.create directory path).operation).2

/-! On a device that refuses nothing, the answers are those of the snapshot. -/

/-- A mounted volume on a device that refuses nothing. -/
structure Ready (g : Geometry) (v : Volume δ) : Prop where
  mounted : v.mounted = true
  shaped : v.Shaped g
  sound : v.snapshot.Sound g
  dependable : LawfulDevice.Dependable v.device

theorem Ready.run_resolve (h : v.Ready g) (path : Text) :
    (v.run (VolumeM.resolve path)).1 = Stop.ofExcept (v.snapshot.resolve path) :=
  Reads.run_eq h.dependable (resolve_ends h.shaped h.sound path)

theorem Ready.run_stat (h : v.Ready g) (path : Text) :
    (v.run (VolumeM.stat path)).1 = Stop.ofExcept (v.snapshot.stat path) :=
  Reads.run_eq h.dependable (stat_ends h.shaped h.sound h.mounted path)

theorem Ready.run_list (h : v.Ready g) (path : Text) :
    (v.run (VolumeM.list path)).1 = Stop.ofExcept (v.snapshot.list path) :=
  Reads.run_eq h.dependable (list_ends h.shaped h.sound h.mounted path)

theorem Intact.ready (h : v.Intact g) : v.Ready g :=
  ⟨h.mounted, h.shaped, h.sound, h.dependable⟩

theorem Intact.run_resolve (h : v.Intact g) (path : Text) :
    (v.run (VolumeM.resolve path)).1 = Stop.ofExcept (v.snapshot.resolve path) :=
  h.ready.run_resolve path

theorem Intact.run_stat (h : v.Intact g) (path : Text) :
    (v.run (VolumeM.stat path)).1 = Stop.ofExcept (v.snapshot.stat path) :=
  h.ready.run_stat path

theorem Intact.of_stat_eq_ok (h : v.Intact g) {told : FileStat}
    (hrun : (v.run (VolumeM.stat path)).1 = .ok told) :
    ∃ index, v.snapshot.resolve path = .ok index ∧ v.snapshot.statOf index = told := by
  rw [h.run_stat, Snapshot.stat] at hrun
  cases hresolve : v.snapshot.resolve path with
  | error cause =>
    rw [hresolve] at hrun
    cases hrun
  | ok index =>
    rw [hresolve] at hrun
    cases hrun
    exact ⟨index, rfl, rfl⟩

theorem Intact.run_list (h : v.Intact g) (path : Text) :
    (v.run (VolumeM.list path)).1 = Stop.ofExcept (v.snapshot.list path) :=
  h.ready.run_list path

theorem Intact.resolve_eq_ok (h : v.Intact g) {index : ℕ}
    (hrun : (v.run (VolumeM.resolve path)).1 = .ok index) :
    v.snapshot.resolve path = .ok index := by
  rw [h.run_resolve] at hrun
  cases hresolve : v.snapshot.resolve path with
  | ok found =>
    rw [hresolve] at hrun
    cases hrun
    rfl
  | error cause =>
    rw [hresolve] at hrun
    cases hrun

/-- **A new entry can be found exactly if its name has no zero character.** -/
theorem found_iff (h : v.Reached g) {stop : Stop}
    (hnew : (v.run (VolumeM.resolve path)).1 = .error stop)
    (hok : (v.run (Call.create directory path).operation).1 = .ok ()) :
    (∃ parent index, v.Found g directory path parent index
        (v.run (Call.create directory path).operation).2)
      ↔ '\x00' ∉ Path.basename path := by
  have hv := h.intact
  have hw := (Reached.called (Call.create directory path) h).intact
  have hnone (index : ℕ) : v.snapshot.resolve path ≠ .ok index := by
    intro hresolve
    rw [hv.run_resolve, hresolve] at hnew
    cases hnew
  obtain ⟨parent, index, leaf, hplace, henters⟩ :=
    call_enters_ends hv.shaped hv.sound hv.mounted hnone hok
  generalize (v.run (Call.create directory path).operation).2 = w at hw henters
  have hentered : Entered g (.created directory) parent index leaf v.snapshot w.snapshot :=
    ⟨henters, hv.sound, hv.orderly, hw.sound, hw.orderly⟩
  obtain ⟨hleaf, -, hlimit, -⟩ := Path.of_leafName_eq_ok hplace.leafName
  have hlook : v.snapshot.look parent leaf = none := by
    have hresolve := hplace.resolve_look hentered.isDirectory_parent
    cases hfound : v.snapshot.look parent leaf with
    | none => rfl
    | some target =>
      rw [hfound] at hresolve
      exact absurd hresolve (hnone target)
  have hresolve := hentered.resolve_new hplace hlook
  rw [← hleaf]
  constructor
  · rintro ⟨parent', index', hfound⟩ hzero
    have hstat := hfound.stat
    rw [hw.run_stat, stat, hresolve, if_pos hzero] at hstat
    cases hstat
  intro hzero
  have hkind : decide (InodeKind.created directory = .directory) = directory := by
    cases directory with
    | _ => rfl
  have hstat := hentered.statOf_new
  rw [hkind] at hstat
  rw [if_neg hzero] at hresolve
  have hagain := call_again_ends hw.shaped hw.sound hw.mounted hresolve
    (congrArg FileStat.isDirectory hstat)
  refine ⟨parent, index, hentered.dead, ?_, ?_, fun other hother => ?_,
    fun other found hother hne => ?_, hentered.distinct hlook hlimit hzero,
    hagain.2.resolve_right fun hfault => hfault.2 hw.dependable, hagain.1⟩
  · rw [hw.run_stat, stat, hresolve, Except.map, hstat]
    rfl
  · obtain ⟨-, segments, hsegments, hwalk⟩ := hplace
    refine ⟨segments, hsegments, ?_⟩
    rw [Reads.run_eq hv.dependable (walk_ends hv.shaped hv.sound segments.dropLast), hwalk]
    rfl
  · have hlist := hentered.list_parent hlimit hzero (hv.resolve_eq_ok hother)
    rw [hkind] at hlist
    rw [hv.run_list, hw.run_list, hlist.1, hlist.2, ← hleaf]
    exact ⟨_, rfl, rfl⟩
  · obtain ⟨before, hbefore, hafter⟩ := hentered.list_of_ne (hv.resolve_eq_ok hother) hne
    rw [hv.run_list, hw.run_list, hbefore, hafter]
    exact ⟨before, rfl, rfl⟩

/-- A directory on a blank disk. -/
theorem found_blank :
    let v := ((Volume.unmounted (RamDisk.blank 20) .tiny).run VolumeM.mount).2
    (v.run (Call.create true ['/', 'd']).operation).1 = .ok ()
      ∧ ∃ parent index, v.Found .tiny true ['/', 'd'] parent index
        (v.run (Call.create true ['/', 'd']).operation).2 := by
  intro v
  have hv : v.Reached .tiny := .formatted (by decide) rfl (Session.not_loadable_blank .tiny 20)
  have hok : (v.run (Call.create true ['/', 'd']).operation).1 = .ok () :=
    eq_ok_of_toOption (by decide +kernel)
  refine ⟨hok, ?_⟩
  cases hnew : (v.run (VolumeM.resolve ['/', 'd'])).1 with
  | ok found =>
    have hnone : (v.run (VolumeM.resolve ['/', 'd'])).1.toOption = none := by decide +kernel
    rw [hnew] at hnone
    cases hnone
  | error stop => exact (found_iff hv hnew hok).mpr (by decide)

/-- **What was created may not be found.** The record of a file whose name has a zero character
stands for another name, and there may be two of them. -/
theorem lost_zero :
    let v := ((Volume.unmounted (RamDisk.blank 20) .tiny).run VolumeM.mount).2
    let w := (v.run (VolumeM.touch ['/', 'a', '\x00', 'b'])).2
    v.Reached .tiny ∧ (v.run (VolumeM.resolve ['/', 'a', '\x00', 'b'])).1.toOption = none
      ∧ (v.run (VolumeM.touch ['/', 'a', '\x00', 'b'])).1 = .ok ()
      ∧ (w.run (VolumeM.stat ['/', 'a', '\x00', 'b'])).1.toOption = none
      ∧ (w.run (VolumeM.list ['/'])).1.toOption = some [⟨[97], ⟨1, false, 0⟩⟩]
      ∧ ((w.run (VolumeM.touch ['/', 'a', '\x00', 'b'])).2.run (VolumeM.list ['/'])).1.toOption
        = some [⟨[97], ⟨1, false, 0⟩⟩, ⟨[97], ⟨2, false, 0⟩⟩] :=
  ⟨.formatted (by decide) rfl (Session.not_loadable_blank .tiny 20), by decide +kernel,
    eq_ok_of_toOption (by decide +kernel), by decide +kernel, by decide +kernel,
    by decide +kernel⟩

end Volume

end PocketKernel
