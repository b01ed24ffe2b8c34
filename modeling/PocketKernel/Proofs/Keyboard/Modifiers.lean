import Mathlib.Algebra.Ring.Parity
import PocketKernel.Proofs.Keyboard.Delivery
import PocketKernel.Proofs.Keyboard.Lawful

/-!
# Which modifiers are in effect

The modifiers of a keyboard are spread over the table for the next byte and the keys that are held.
Seen from the codes in the bytes that it was fed they are simple: a key is held as long as the last
of its codes is a make, and the lock is on after an odd number of makes.

No bytes can upset this for long: whatever a keyboard was fed, it reads what comes as a new one
does, at once or behind one byte.

## Main definitions

* `Scancode.isDown`, `Modifiers.ofCodes`: what the codes say.
* `Keyboard.bytesSince`: what a keyboard was fed since its layout was set.
* `Keyboard.Tracked`: what is certain of a keyboard that was fed some bytes.

## Main results

* `Held.Tracks.struck`: what the codes say is what is held.
* `Keyboard.HasRead.makes`: one byte.
* `Keyboard.modifiers_tracked`: any actions on a new keyboard with a lawful decoder.
-/

namespace PocketKernel

open KeyDecoder LawfulDecoder Scancode

/-! ### The last codes of keys -/

/-- The last code of a key is a make. -/
def Scancode.isDown (codes : List Scancode) (table : ScancodeTable) (number : ℕ) : Bool :=
  (codes.filter (isOf table number)).getLast?.any isMake

/-- The modifiers by the codes that came: shift, control and alt by the last codes of their keys,
the lock by the number of its makes. -/
def Modifiers.ofCodes (codes : List Scancode) : Modifiers :=
  let control := isDown codes .plain 0x1D || isDown codes .extended 0x1D
  { shift := isDown codes .plain 0x2A || isDown codes .plain 0x36
    control := control
    altGr := isDown codes .extended 0x38 || (isDown codes .plain 0x38 && control)
    capsLock := decide (Odd (codes.count ⟨.plain, 0x3A⟩)) }

namespace Scancode

/-- Only a code of the key itself tells something new. -/
theorem isDown_concat (codes : List Scancode) (code : Scancode) (table : ScancodeTable)
    (number : ℕ) : isDown (codes ++ [code]) table number
      = if code.isOf table number then code.isMake else isDown codes table number := by
  rw [isDown, List.filter_append]
  split
  next h => rw [List.filter_cons_of_pos h, List.filter_nil, List.getLast?_concat, Option.any_some]
  next h => rw [List.filter_cons_of_neg h, List.filter_nil, List.append_nil, isDown]

/-- Only a make of the lock changes its number of makes. -/
theorem odd_count_concat (codes : List Scancode) (code : Scancode) :
    decide (Odd ((codes ++ [code]).count ⟨.plain, 0x3A⟩))
      = (decide (Odd (codes.count ⟨.plain, 0x3A⟩))
        ^^ (code.isOf .plain 0x3A && code.isMake)) := by
  have hcode : code = ⟨.plain, 0x3A⟩ ↔ (code.isOf .plain 0x3A && code.isMake) = true := by
    obtain ⟨table, byte⟩ := code
    have hbyte : byte.toNat < 256 := byte.toNat_lt
    have hmod : byte.toNat = 58 ↔ byte.toNat % 128 = 58 ∧ byte.toNat < 128 := by omega
    simp only [isOf, isMake, Scancode.mk.injEq, Bool.and_eq_true, decide_eq_true_iff, and_assoc,
      ← UInt8.toNat_inj, UInt8.lt_iff_toNat_lt]
    exact and_congr_right fun _ => hmod
  rw [List.count_append, List.count_singleton]
  by_cases hlock : code = ⟨.plain, 0x3A⟩
  · rw [hcode.mp hlock, Bool.xor_true, if_pos (beq_iff_eq.mpr hlock)]
    simp [Nat.odd_add_one, -Nat.not_odd_iff_even]
  · rw [Bool.eq_false_iff.mpr (mt hcode.mpr hlock), Bool.xor_false,
      if_neg (mt beq_iff_eq.mp hlock), Nat.add_zero]

end Scancode

/-! ### What is held -/

namespace Held

variable {codes : List Scancode} {code : Scancode} {held held' : Held}

/-- What is held is what the codes say. -/
structure Tracks (codes : List Scancode) (held : Held) : Prop where
  holds_eq : ∀ key table number, key.place? = some (table, number) → key ≠ .capsLock →
    held.holds key = isDown codes table number
  capsLock_eq : held.capsLock = decide (Odd (codes.count ⟨.plain, 0x3A⟩))

theorem tracks_initial : initial.Tracks [] := by
  refine ⟨fun key table number hplace _ => ?_, rfl⟩
  cases key <;> cases hplace <;> rfl

/-- A code of no key that modifies others. -/
theorem Tracks.passed (h : held.Tracks codes)
    (hcode : ∀ (key : Key) table number, key.place? = some (table, number) →
      code.isOf table number = false) : held.Tracks (codes ++ [code]) := by
  refine ⟨fun key table number hplace hkey => ?_, ?_⟩
  · rw [isDown_concat, hcode key table number hplace]
    exact h.holds_eq key table number hplace hkey
  · rw [odd_count_concat, hcode .capsLock .plain 0x3A rfl, Bool.false_and, Bool.xor_false]
    exact h.capsLock_eq

/-- **A code of a key.** It goes the way that the code tells, and all others stay as they are. -/
theorem Tracks.struck (h : held.Tracks codes) {moved : Key} {motion : Motion}
    (hcode : ∀ (key : Key) table number, key.place? = some (table, number) →
      (moved = key ↔ code.isOf table number = true))
    (hmotion : motion = .down ↔ code.isMake = true)
    (hholds : ∀ (key : Key) place, key.place? = some place → key ≠ .capsLock → held'.holds key
      = if moved = key then decide (motion = .down) else held.holds key)
    (hlock : held'.capsLock = (held.capsLock ^^ decide (moved = .capsLock ∧ motion = .down))) :
    held'.Tracks (codes ++ [code]) := by
  refine ⟨fun key table number hplace hkey => ?_, ?_⟩
  · rw [hholds key _ hplace hkey, isDown_concat, h.holds_eq key table number hplace hkey]
    simp only [hcode key table number hplace, hmotion, Bool.decide_eq_true]
  · rw [hlock, odd_count_concat, h.capsLock_eq]
    simp only [hcode .capsLock .plain 0x3A rfl, hmotion, Bool.decide_and, Bool.decide_eq_true]

/-- The modifiers are what the codes say. -/
theorem Tracks.modifiers_eq (h : held.Tracks codes) :
    held.modifiers = Modifiers.ofCodes codes := by
  rw [Modifiers.ofCodes, ← h.holds_eq .leftShift _ _ rfl nofun,
    ← h.holds_eq .rightShift _ _ rfl nofun, ← h.holds_eq .leftControl _ _ rfl nofun,
    ← h.holds_eq .rightControl _ _ rfl nofun, ← h.holds_eq .leftAlt _ _ rfl nofun,
    ← h.holds_eq .rightAlt _ _ rfl nofun, ← h.capsLock_eq]
  rfl

/-- The modifiers depend on the keys that modify others. -/
theorem modifiers_congr (hholds : ∀ (key : Key) place, key.place? = some place → key ≠ .capsLock →
      held'.holds key = held.holds key) (hlock : held'.capsLock = held.capsLock) :
    held'.modifiers = held.modifiers := by
  have hleftShift : held'.leftShift = held.leftShift := hholds .leftShift _ rfl nofun
  have hrightShift : held'.rightShift = held.rightShift := hholds .rightShift _ rfl nofun
  have hleftControl : held'.leftControl = held.leftControl := hholds .leftControl _ rfl nofun
  have hrightControl : held'.rightControl = held.rightControl := hholds .rightControl _ rfl nofun
  have hleftAlt : held'.leftAlt = held.leftAlt := hholds .leftAlt _ rfl nofun
  have hrightAlt : held'.rightAlt = held.rightAlt := hholds .rightAlt _ rfl nofun
  simp only [modifiers, shifted, control, altGr, hleftShift, hrightShift, hleftControl,
    hrightControl, hleftAlt, hrightAlt, hlock]

end Held

/-! ### A decoder that is fed bytes -/

namespace Keyboard

variable {δ ρ : Type} [KeyDecoder δ] [LawfulDecoder δ] {decoder mid next : δ}
  {bytes : List UInt8} {byte : UInt8} {key : Key} {motion : Motion} {made : Option KeyEvent}

/-- The decoder has read some bytes. -/
structure HasRead (bytes : List UInt8) (decoder : δ) : Prop where
  table_eq : table decoder = awaited bytes
  tracks : (held decoder).Tracks (codes bytes)

theorem hasRead_start (layout : Layout) : HasRead [] (start layout : δ) :=
  ⟨table_start layout, held_start (δ := δ) layout ▸ Held.tracks_initial⟩

theorem held_of_addByte {change : Option (Key × Motion)}
    (hbyte : addByte decoder byte = (change, next)) : held next = held decoder := by
  rw [← held_addByte decoder byte, hbyte]

/-- A byte that tells of no key. -/
theorem HasRead.wordless (h : HasRead bytes decoder) (hbyte : addByte decoder byte = (none, next)) :
    HasRead (bytes ++ [byte]) next := by
  have hheld := held_of_addByte hbyte
  rcases codes_concat bytes byte with
    ⟨table', hplain, hannounced, hcodes, hawaited⟩ | ⟨hcode, hcodes, hawaited⟩
  · obtain ⟨-, htable⟩ := addByte_announced (h.table_eq.trans hplain) hannounced
    rw [hbyte] at htable
    exact ⟨htable.trans hawaited.symm, hcodes ▸ hheld ▸ h.tracks⟩
  · rw [← h.table_eq] at hcode
    have htable := table_addByte hcode
    rw [hbyte] at htable
    refine ⟨htable.trans hawaited.symm, ?_⟩
    rw [hcodes, hheld, ← h.table_eq]
    refine h.tracks.passed fun key table' number hplace => ?_
    refine Bool.eq_false_iff.mpr fun hof => ?_
    have hkey := (addByte_place hcode hplace).mpr hof
    rw [hbyte] at hkey
    cases hkey

/-- A byte that strikes a key. -/
theorem HasRead.struck (h : HasRead bytes decoder)
    (hbyte : addByte decoder byte = (some (key, motion), mid)) :
    HasRead (bytes ++ [byte]) (strike mid (key, motion)).2 := by
  have hheld := held_of_addByte hbyte
  rcases codes_concat bytes byte with
    ⟨table', hplain, hannounced, -, -⟩ | ⟨hcode, hcodes, hawaited⟩
  · obtain ⟨hnone, -⟩ := addByte_announced (h.table_eq.trans hplain) hannounced
    rw [hbyte] at hnone
    cases hnone
  · rw [← h.table_eq] at hcode
    have htable := table_addByte hcode
    rw [hbyte] at htable
    refine ⟨(table_strike ..).trans (htable.trans hawaited.symm), ?_⟩
    rw [hcodes, ← h.table_eq]
    refine h.tracks.struck (fun key' table' number hplace => ?_)
      (addByte_motion (congrArg Prod.fst hbyte))
      (fun key' place hplace hkey => hheld ▸ holds_strike mid key motion hplace hkey)
      (hheld ▸ capsLock_strike mid key motion)
    have hplaces := addByte_place hcode hplace
    rwa [hbyte, Option.map_some, Option.some_inj] at hplaces

/-- A key that modifies others has no symbol. -/
theorem not_means_place {place : ScancodeTable × ℕ} (hplace : key.place? = some place)
    {mods : Modifiers} {symbol : Char} : ¬ Means mods (.key key) symbol := by
  rw [← symbolOf?_eq_some_iff]
  cases key <;> cases hplace <;> nofun

/-- Any other key leaves the modifiers as they are. -/
theorem modifiers_strike (hplace : key.place? = none) (decoder : δ) (motion : Motion) :
    (held (strike decoder (key, motion)).2).modifiers = (held decoder).modifiers := by
  refine Held.modifiers_congr (fun key' place hplace' hkey => ?_) ?_
  · have hne : key ≠ key' := by
      rintro rfl
      cases hplace.symm.trans hplace'
    rw [holds_strike decoder key motion hplace' hkey, if_neg hne]
  · have hne : ¬ (key = .capsLock ∧ motion = .down) := by
      rintro ⟨rfl, -⟩
      cases hplace
    rw [capsLock_strike, decide_eq_false hne, Bool.xor_false]

/-- **One byte.** An event that it makes carries the modifiers, which its key leaves as they
were. -/
theorem HasRead.makes (h : HasRead bytes decoder) (hmakes : Makes decoder byte made next) :
    HasRead (bytes ++ [byte]) next ∧ ∀ event ∈ made,
      event.modifiers = (held next).modifiers ∧ event.modifiers = (held decoder).modifiers := by
  cases hmakes with
  | wordless hbyte => exact ⟨h.wordless hbyte, nofun⟩
  | @silent change mid _ produced hbyte hstrike hnothing =>
    have hnext : next = (strike mid change).2 := by rw [hstrike]
    exact ⟨hnext ▸ h.struck hbyte, nofun⟩
  | @event change mid _ produced symbol hbyte hstrike hmeans =>
    obtain ⟨key, motion⟩ := change
    have hnext : next = (strike mid (key, motion)).2 := by rw [hstrike]
    have hheld := held_of_addByte hbyte
    refine ⟨hnext ▸ h.struck hbyte, ?_⟩
    rintro _ ⟨⟩
    cases hplace : key.place? with
    | none => exact ⟨hnext ▸ (modifiers_strike hplace mid motion).symm, by rw [hheld]⟩
    | some place =>
      rw [strike_place hplace (congrArg Prod.fst hstrike)] at hmeans
      exact absurd hmeans (not_means_place hplace)

/-! ### A keyboard that is fed bytes -/

/-- The bytes since the layout was set, after one more action. -/
def sinceStep (bytes : List UInt8) : Action → List UInt8
  | .scan byte => bytes ++ [byte]
  | .setLayout _ => []
  | .poll | .pollChar => bytes

/-- The bytes that a keyboard was fed since it was new, or since its layout was set. -/
def bytesSince (actions : List Action) : List UInt8 := actions.foldl sinceStep []

/-- **Any actions.** -/
theorem HasRead.decodes {history : History} {last : δ} (h : HasRead bytes decoder)
    (hdecodes : Decodes decoder history last) :
    HasRead ((history.map Prod.fst).foldl sinceStep bytes) last := by
  induction hdecodes generalizing bytes with
  | nil => exact h
  | cons hfirst _ ih =>
    refine ih ?_
    cases hfirst with
    | scan hmakes => exact (h.makes hmakes).1
    | poll | pollChar => exact h
    | setLayout layout => exact hasRead_start layout

theorem hasRead_after (raise : StateM ρ Unit) (layout : Layout) (world : ρ)
    (actions : List Action) :
    HasRead (bytesSince actions)
      (after raise layout world actions : Watched δ ρ).keyboard.decoder := by
  obtain ⟨history, last, rfl, hdecodes⟩ := exists_decodes (start layout : δ) actions
  exact (hasRead_start layout).decodes (faithful_after raise layout world hdecodes).decoded

/-- What is certain of a keyboard that was fed some bytes since its layout was set. -/
structure Tracked (raise : StateM ρ Unit) (bytes : List UInt8) (watched : Watched δ ρ) :
    Prop where
  /-- The modifiers are what the codes in the bytes say. -/
  modifiers_eq : watched.keyboard.modifiers = .ofCodes (codes bytes)
  /-- An event carries them, as they are with the code of its key and as they were without. -/
  event_modifiers : ∀ byte event, watched.answer raise (.scan byte) = .scanned (some event) →
    event.modifiers = .ofCodes (codes (bytes ++ [byte]))
      ∧ event.modifiers = .ofCodes (codes bytes)
  /-- The keyboard is between two codes, or behind a byte that announces a table; then it is between
  two codes after the next one, whatever that is. -/
  in_step : table watched.keyboard.decoder = .plain
    ∨ ∀ byte, table (watched.apply raise (.scan byte)).keyboard.decoder = .plain
  /-- What comes next is read as by a new keyboard, at once or behind that byte. -/
  codes_eq : (table watched.keyboard.decoder = .plain → ∀ later,
      codes (bytes ++ later) = codes bytes ++ codes later)
    ∧ (table watched.keyboard.decoder ≠ .plain → ∀ byte later, codes (bytes ++ byte :: later)
      = codes bytes ++ ⟨table watched.keyboard.decoder, byte⟩ :: codes later)

/-- **The modifiers can be told from the bytes.** A keyboard with a lawful decoder is fed any bytes,
is polled and changes its layout in any order. The modifiers and those of all events are what the
codes since the last change of the layout say, and no byte leaves the keyboard out of step for more
than the next one. -/
theorem modifiers_tracked (raise : StateM ρ Unit) (layout : Layout) (world : ρ)
    (actions : List Action) :
    Tracked raise (bytesSince actions) (after raise layout world actions : Watched δ ρ) := by
  have hread := hasRead_after (δ := δ) raise layout world actions
  generalize (after raise layout world actions : Watched δ ρ) = watched at hread
  generalize bytesSince actions = bytes at hread
  refine ⟨hread.tracks.modifiers_eq, fun byte event hevent => ?_, ?_, fun hplain later => ?_,
    fun hannounced byte later => ?_⟩
  · have hmakes := makes_decode watched.keyboard.decoder byte
    obtain ⟨hnext, hmade⟩ := hread.makes hmakes
    rw [(scan_eq raise hmakes).1] at hevent
    obtain ⟨hafter, hbefore⟩ := hmade event (Answer.scanned.inj hevent)
    exact ⟨hafter.trans hnext.tracks.modifiers_eq, hbefore.trans hread.tracks.modifiers_eq⟩
  · refine or_iff_not_imp_left.mpr fun hannounced byte => ?_
    have hmakes := makes_decode watched.keyboard.decoder byte
    rw [(scan_eq raise hmakes).2]
    refine (hread.makes hmakes).1.table_eq.trans ?_
    rw [hread.table_eq] at hannounced
    exact (codes_append_cons hannounced byte []).2
  · exact (codes_append (hread.table_eq ▸ hplain) later).1
  · rw [hread.table_eq] at hannounced ⊢
    exact (codes_append_cons hannounced byte later).1

/-- The right alt key and the lock, on a keyboard that is decoded by tables. -/
theorem modifiers_tracked_lock :
    (after (pure ()) .german () [.scan 0xE0, .scan 0x38, .poll, .scan 0x3A] :
      Watched ScancodeDecoder Unit).keyboard.modifiers = ⟨false, false, true, true⟩ :=
  (modifiers_tracked (pure ()) .german ()
    [.scan 0xE0, .scan 0x38, .poll, .scan 0x3A]).modifiers_eq.trans (by decide)

end Keyboard

end PocketKernel
