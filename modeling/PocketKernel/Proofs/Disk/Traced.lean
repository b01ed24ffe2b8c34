import PocketKernel.Proofs.Disk.Lawful

/-!
# What a device is asked for

A volume knows its device by the transfers it asks for. `Asked allowed d e` says that the device
came from state `d` to state `e` by transfers that are all allowed. Whatever a transfer of some kind
leaves alone, a row of such transfers leaves alone.

On a traced device, which remembers what it was asked for, nothing can be asked for unseen.

## Main definitions

* `Access`: one transfer, without the bytes.
* `Asked`: a row of allowed transfers.
* `Glance`: a way to look at the sectors from outside.
* `Traced`: a device that remembers what it was asked for.

## Main results

* `Asked.glance_eq`: a sector that nobody was allowed to write is as it was.
* `Asked.log_eq`: everything that a traced device was asked for was allowed.
-/

namespace PocketKernel

/-- One transfer that a device is asked for. -/
inductive Access where
  | read (lba : Nat)
  | write (lba : Nat)
deriving DecidableEq, Repr

namespace Access

/-- The sector of a transfer. -/
def lba : Access → Nat
  | read lba => lba
  | write lba => lba

/-- The transfer fetches a sector. -/
def IsRead : Access → Prop
  | read _ => True
  | write _ => False

end Access

variable {δ : Type} [BlockDevice δ] {allowed allowed' : Access → Prop}

/-- A device came from one state to another by transfers that are all allowed. -/
inductive Asked (allowed : Access → Prop) (device : δ) : δ → Prop
  | nothing : Asked allowed device device
  | read {later : δ} {lba : Nat} : Asked allowed device later → allowed (.read lba) →
      Asked allowed device (BlockDevice.read lba later).2
  | write {later : δ} {lba : Nat} (sector : Sector) : Asked allowed device later →
      allowed (.write lba) → Asked allowed device (BlockDevice.write lba sector later).2

namespace Asked

variable {d e f : δ}

theorem trans (h : Asked allowed d e) (h' : Asked allowed e f) : Asked allowed d f := by
  induction h' with
  | nothing => exact h
  | read _ hread ih => exact ih.read hread
  | write sector _ hwrite ih => exact ih.write sector hwrite

theorem mono (h : Asked allowed d e) (himp : ∀ access, allowed access → allowed' access) :
    Asked allowed' d e := by
  induction h with
  | nothing => exact .nothing
  | read _ hread ih => exact ih.read (himp _ hread)
  | write sector _ hwrite ih => exact ih.write sector (himp _ hwrite)

end Asked

/-! ### Looking from outside -/

/-- A way to look at the sectors of a device from outside: no read changes what is seen, and a write
changes nothing but its own sector, if that. -/
structure Glance (glance : δ → Nat → Sector) : Prop where
  read (lba : Nat) (device : δ) : glance (BlockDevice.read lba device).2 = glance device
  write {lba other : Nat} (sector : Sector) (device : δ) : other ≠ lba →
    glance (BlockDevice.write lba sector device).2 other = glance device other

/-- On a lawful device, the sectors can be looked at. -/
theorem glance_sectorAt [LawfulDevice δ] :
    Glance (LawfulDevice.sectorAt : δ → Nat → Sector) where
  read := LawfulDevice.sectorAt_read
  write {lba other} sector device hne := by
    cases hwrite : (BlockDevice.write lba sector device).1 with
    | ok answer => rw [LawfulDevice.sectorAt_write hwrite, Function.update_of_ne hne]
    | error cause => rw [LawfulDevice.sectorAt_refused hwrite]

/-- **A sector that nobody was allowed to write is as it was.** -/
theorem Asked.glance_eq {glance : δ → Nat → Sector} (hglance : Glance glance) {d e : δ}
    (h : Asked allowed d e) {lba : Nat} (hlba : ¬ allowed (.write lba)) :
    glance e lba = glance d lba := by
  induction h with
  | nothing => rfl
  | read _ _ ih => rw [hglance.read, ih]
  | write sector _ hwrite ih =>
    have hne : lba ≠ _ := fun heq => hlba (heq ▸ hwrite)
    rw [hglance.write sector _ hne, ih]

/-! ### Remembering -/

/-- A device together with everything that it was asked for, the latest last. -/
structure Traced (δ : Type) where
  device : δ
  log : List Access

/-- The transfers are those of the device; what was asked for is added to the log. -/
instance : BlockDevice (Traced δ) where
  capacity traced := BlockDevice.capacity traced.device
  read lba traced :=
    ((BlockDevice.read lba traced.device).1,
      { device := (BlockDevice.read lba traced.device).2, log := traced.log ++ [.read lba] })
  write lba sector traced :=
    ((BlockDevice.write lba sector traced.device).1,
      { device := (BlockDevice.write lba sector traced.device).2
        log := traced.log ++ [.write lba] })

/-- A device that was not asked for anything yet. -/
def Traced.start (device : δ) : Traced δ := ⟨device, []⟩

/-- **Everything that a traced device was asked for was allowed.** -/
theorem Asked.log_eq {d e : Traced δ} (h : Asked allowed d e) :
    ∃ asked, e.log = d.log ++ asked ∧ ∀ access ∈ asked, allowed access := by
  have hnext {log : List Access} {access : Access} (haccess : allowed access)
      (hlog : ∃ asked, log = d.log ++ asked ∧ ∀ access ∈ asked, allowed access) :
      ∃ asked, log ++ [access] = d.log ++ asked ∧ ∀ access ∈ asked, allowed access := by
    obtain ⟨asked, rfl, hallowed⟩ := hlog
    refine ⟨asked ++ [access], List.append_assoc .., fun other hmem => ?_⟩
    rcases List.mem_append.mp hmem with hmem | hmem
    · exact hallowed other hmem
    · rw [List.mem_singleton.mp hmem]
      exact haccess
  induction h with
  | nothing => exact ⟨[], by simp⟩
  | read _ hread ih => exact hnext hread ih
  | write _ _ hwrite ih => exact hnext hwrite ih

/-- What is seen of a device is seen of it while it is traced. -/
theorem Glance.traced {glance : δ → Nat → Sector} (h : Glance glance) :
    Glance fun traced : Traced δ => glance traced.device where
  read lba traced := h.read lba traced.device
  write sector traced hne := h.write sector traced.device hne

end PocketKernel
