import Mathlib.Data.Nat.Notation
import PocketKernel.Keyboard.Driver

/-!
# What a decoder makes of bytes

Which events come of some bytes is for the decoder to say, and for the layout that it was started
with. The events that wait have no part in it, nor does anybody who polls them. So it is described
here for a decoder by itself: a row of actions goes with one row of events, whatever keyboard they
are done with.

## Main definitions

* `Keyboard.Means`: the symbol of what a key produces.
* `Keyboard.Makes`: what becomes of a byte.
* `Keyboard.Action`, `Keyboard.Decodes`: what becomes of several actions.

## Main results

* `Keyboard.makes_iff`: one thing becomes of every byte.
* `Keyboard.exists_decodes`, `Keyboard.Decodes.eq_of_map_fst`: one row of events goes with any
  actions.
-/

namespace PocketKernel.Keyboard

open KeyDecoder

/-! ### Symbols -/

/-- The keys that stand for themselves, with their symbols. -/
def namedKeys : List (Key × Char) :=
  [(.arrowUp, '\u0080'), (.arrowDown, '\u0081'), (.arrowLeft, '\u0082'), (.arrowRight, '\u0083'),
    (.delete, '\u0084'), (.home, '\u0085'), (.toEnd, '\u0086')]

/-- A symbol is that of what a key produced, while modifiers are held. -/
inductive Means (mods : Modifiers) : Produced → Char → Prop where
  /-- The character 7F is the delete key. -/
  | delete : Means mods (.char '\x7f') '\u0084'
  /-- With control, a letter is its number in the alphabet. -/
  | letter {c : Char} (hcontrol : mods.control = true) (hletter : c.isAlpha = true) :
      Means mods (.char c) (Char.ofNat (c.toLower.toNat - 96))
  | char {c : Char} (hdelete : c ≠ '\x7f')
      (hplain : mods.control = false ∨ c.isAlpha = false) : Means mods (.char c) c
  | key {key : Key} {symbol : Char} (hnamed : (key, symbol) ∈ namedKeys) :
      Means mods (.key key) symbol

variable {mods : Modifiers} {produced : Produced} {symbol : Char}

theorem ofKey?_eq_some_iff {key : Key} :
    Symbol.ofKey? key = some symbol ↔ (key, symbol) ∈ namedKeys := by
  simp only [namedKeys, List.mem_cons, Prod.mk.injEq, List.not_mem_nil, or_false]
  cases key <;> simp [Symbol.ofKey?, Symbol.arrowUp, Symbol.arrowDown, Symbol.arrowLeft,
    Symbol.arrowRight, Symbol.delete, Symbol.home, Symbol.toEnd, eq_comm]

theorem symbolOf?_eq_some_iff :
    symbolOf? mods produced = some symbol ↔ Means mods produced symbol := by
  constructor
  · intro h
    cases produced with
    | key key => exact .key (ofKey?_eq_some_iff.mp h)
    | char c =>
      cases h
      split
      next hdelete => exact hdelete ▸ .delete
      next hdelete =>
        rw [controlChar]
        split
        next hcontrol =>
          split
          next hletter => exact .letter hcontrol hletter
          next hletter => exact .char hdelete (.inr (Bool.eq_false_iff.mpr hletter))
        next hcontrol => exact .char hdelete (.inl (Bool.eq_false_iff.mpr hcontrol))
  · intro h
    cases h with
    | delete => rfl
    | key hnamed => exact ofKey?_eq_some_iff.mpr hnamed
    | @letter c hcontrol hletter =>
      have hdelete : c ≠ '\x7f' := by
        rintro rfl
        cases hletter
      rw [symbolOf?, if_neg hdelete, if_pos hcontrol, controlChar, if_pos hletter]
    | @char c hdelete hplain =>
      rw [symbolOf?, if_neg hdelete, controlChar]
      rcases hplain with hcontrol | hletter
      · rw [hcontrol]
        rfl
      · rw [hletter]
        simp

theorem bind_symbolOf?_eq_none_iff {produced : Option Produced} :
    produced.bind (symbolOf? mods) = none ↔ ∀ p ∈ produced, ∀ symbol, ¬ Means mods p symbol := by
  simp only [Option.eq_none_iff_forall_ne_some, ne_eq, Option.bind_eq_some_iff,
    symbolOf?_eq_some_iff, not_exists, not_and, Option.mem_def]
  exact ⟨fun h p hp symbol => h symbol p hp, fun h symbol p hp => h p hp symbol⟩

/-! ### Bytes -/

variable {δ : Type} [KeyDecoder δ] {decoder next : δ} {byte : UInt8} {made : Option KeyEvent}

/-- A byte makes an event, or none, and the decoder goes on from there. -/
inductive Makes (decoder : δ) (byte : UInt8) : Option KeyEvent → δ → Prop where
  /-- The byte tells of no key. -/
  | wordless {next : δ} (hbyte : addByte decoder byte = (none, next)) :
      Makes decoder byte none next
  /-- The key produces nothing, or nothing that has a symbol. -/
  | silent {change : Key × Motion} {mid next : δ} {produced : Option Produced}
      (hbyte : addByte decoder byte = (some change, mid))
      (hstrike : strike mid change = (produced, next))
      (hnothing : ∀ p ∈ produced, ∀ symbol, ¬ Means (held mid).modifiers p symbol) :
      Makes decoder byte none next
  /-- The event has the symbol of what the key produces, and the modifiers that were held. -/
  | event {change : Key × Motion} {mid next : δ} {produced : Produced} {symbol : Char}
      (hbyte : addByte decoder byte = (some change, mid))
      (hstrike : strike mid change = (some produced, next))
      (hmeans : Means (held mid).modifiers produced symbol) :
      Makes decoder byte (some ⟨symbol, (held mid).modifiers, true⟩) next

/-- The event that a byte makes, and the decoder after it. -/
def decode (decoder : δ) (byte : UInt8) : Option KeyEvent × δ :=
  match addByte decoder byte with
  | (none, next) => (none, next)
  | (some change, mid) =>
    let mods := (held mid).modifiers
    (((strike mid change).1.bind (symbolOf? mods)).map (⟨·, mods, true⟩), (strike mid change).2)

/-- **One thing becomes of every byte.** -/
theorem makes_iff : Makes decoder byte made next ↔ decode decoder byte = (made, next) := by
  constructor
  · intro h
    cases h with
    | wordless hbyte => rw [decode, hbyte]
    | silent hbyte hstrike hnothing =>
      simp only [decode, hbyte, hstrike, bind_symbolOf?_eq_none_iff.mpr hnothing, Option.map_none]
    | event hbyte hstrike hmeans =>
      simp only [decode, hbyte, hstrike, Option.bind_some, symbolOf?_eq_some_iff.mpr hmeans,
        Option.map_some]
  · intro h
    rw [decode] at h
    split at h
    next left hbyte =>
      cases h
      exact .wordless hbyte
    next change mid hbyte =>
      obtain ⟨hmade, rfl⟩ := Prod.mk.inj h
      cases hproduced : (strike mid change).1.bind (symbolOf? (held mid).modifiers) with
      | none =>
        rw [hproduced] at hmade
        cases hmade
        exact .silent hbyte rfl (bind_symbolOf?_eq_none_iff.mp hproduced)
      | some symbol =>
        rw [hproduced] at hmade
        cases hmade
        obtain ⟨p, hp, hmeans⟩ := Option.bind_eq_some_iff.mp hproduced
        exact .event hbyte (Prod.ext hp rfl) (symbolOf?_eq_some_iff.mp hmeans)

theorem makes_decode (decoder : δ) (byte : UInt8) :
    Makes decoder byte (decode decoder byte).1 (decode decoder byte).2 :=
  makes_iff.mpr rfl

/-! ### Actions -/

/-- What is done with a keyboard. -/
inductive Action where
  | scan (byte : UInt8)
  | poll
  | pollChar
  | setLayout (layout : Layout)

/-- What is done with a keyboard, each time with the event that it makes. -/
abbrev History := List (Action × Option KeyEvent)

/-- An action makes an event, or none, and the decoder goes on from there. Only a byte makes events;
a change of the layout begins with another decoder, and nothing else matters to it. -/
inductive Advances (decoder : δ) : Action × Option KeyEvent → δ → Prop where
  | scan {byte : UInt8} {made : Option KeyEvent} {next : δ}
      (hmakes : Makes decoder byte made next) : Advances decoder (.scan byte, made) next
  | poll : Advances decoder (.poll, none) decoder
  | pollChar : Advances decoder (.pollChar, none) decoder
  | setLayout (layout : Layout) : Advances decoder (.setLayout layout, none) (start layout)

/-- Several actions, each with the event that it makes. -/
inductive Decodes : δ → History → δ → Prop where
  | nil {decoder : δ} : Decodes decoder [] decoder
  | cons {decoder mid last : δ} {entry : Action × Option KeyEvent} {history : History}
      (hfirst : Advances decoder entry mid) (hrest : Decodes mid history last) :
      Decodes decoder (entry :: history) last

/-- The event that an action makes, and the decoder after it. -/
def advance (decoder : δ) : Action → Option KeyEvent × δ
  | .scan byte => decode decoder byte
  | .poll | .pollChar => (none, decoder)
  | .setLayout layout => (none, start layout)

theorem advances_iff {action : Action} :
    Advances decoder (action, made) next ↔ advance decoder action = (made, next) := by
  constructor
  · intro h
    cases h with
    | scan hmakes => exact makes_iff.mp hmakes
    | poll | pollChar | setLayout => rfl
  · intro h
    cases action with
    | scan byte => exact .scan (makes_iff.mpr h)
    | poll =>
      cases h
      exact .poll
    | pollChar =>
      cases h
      exact .pollChar
    | setLayout layout =>
      cases h
      exact .setLayout layout

variable {last last' : δ} {history history' : History}

theorem Decodes.concat {entry : Action × Option KeyEvent} (h : Decodes decoder history last)
    (hlast : Advances last entry next) : Decodes decoder (history ++ [entry]) next := by
  induction h with
  | nil => exact .cons hlast .nil
  | cons hfirst _ ih => exact .cons hfirst (ih hlast)

/-- The first actions of several. -/
theorem Decodes.of_append {entry : Action × Option KeyEvent}
    (h : Decodes decoder (history ++ entry :: history') last) :
    ∃ mid next, Decodes decoder history mid ∧ Advances mid entry next := by
  induction history generalizing decoder with
  | nil =>
    cases h with
    | cons hfirst _ => exact ⟨_, _, .nil, hfirst⟩
  | cons first history ih =>
    cases h with
    | cons hfirst hrest =>
      obtain ⟨mid, next, hhistory, hentry⟩ := ih hrest
      exact ⟨mid, next, .cons hfirst hhistory, hentry⟩

/-- **Some row of events goes with any actions.** -/
theorem exists_decodes (decoder : δ) (actions : List Action) :
    ∃ (history : History) (last : δ),
      history.map Prod.fst = actions ∧ Decodes decoder history last := by
  induction actions generalizing decoder with
  | nil => exact ⟨[], decoder, rfl, .nil⟩
  | cons action actions ih =>
    obtain ⟨history, last, rfl, hrest⟩ := ih (advance decoder action).2
    exact ⟨(action, (advance decoder action).1) :: history, last, rfl,
      .cons (advances_iff.mpr rfl) hrest⟩

/-- **No other one does**, and the decoder gets to the same place. -/
theorem Decodes.eq_of_map_fst (h : Decodes decoder history last)
    (h' : Decodes decoder history' last')
    (hactions : history'.map Prod.fst = history.map Prod.fst) :
    history' = history ∧ last' = last := by
  induction h generalizing history' with
  | nil =>
    obtain rfl := List.map_eq_nil_iff.mp hactions
    cases h'
    exact ⟨rfl, rfl⟩
  | @cons decoder mid last entry history hfirst _ ih =>
    cases h' with
    | nil => cases hactions
    | @cons _ mid' _ entry' history' hfirst' hrest' =>
      obtain ⟨haction, hrest⟩ := List.cons.inj hactions
      have hsame : (entry'.2, mid') = (entry.2, mid) := by
        rw [← advances_iff.mp hfirst, ← advances_iff.mp hfirst', haction]
      obtain ⟨hmade, rfl⟩ := Prod.mk.inj hsame
      obtain ⟨rfl, rfl⟩ := ih hrest' hrest
      exact ⟨by rw [Prod.ext haction hmade], rfl⟩

end PocketKernel.Keyboard
