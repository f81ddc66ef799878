import Mathlib.Tactic

/-!
# The redundant environment (`common/env_nand.c`)

`nand_saveenv` and `nand_env_relocate_spec` with `CONFIG_ENV_OFFSET_REDUND`; neither `ENV_IS_EMBEDDED` nor
`CONFIG_NAND_ENV_DST` is set. A copy is what `readenv` gives when the CRC is good, and none when it is bad. Memory for
the two buffers can be allocated.
-/

namespace Uboot.EnvNand

/-- The serial number and the exported environment. -/
structure Copy (α : Type) where
  flags : UInt8
  data : α
deriving DecidableEq

/-- The two copies in flash, `gd->env_valid`, `env_flags` and the environment in memory. -/
structure Store (α : Type) where
  first : Option (Copy α)
  second : Option (Copy α)
  envValid : Nat
  envFlags : UInt8
  env : α

/-- How a save ends: the export fails, the erase fails before anything is changed, the erase or the write fails
midway, or all is done. -/
inductive Outcome where
  | refused
  | untouched
  | spoiled
  | done
deriving DecidableEq, Repr

variable {α : Type}

/-- `nand_saveenv` -/
def saveenv (s : Store α) : Outcome → Store α
  | .refused => s
  | .untouched => { s with envFlags := s.envFlags + 1 }
  | .spoiled =>
      let s := { s with envFlags := s.envFlags + 1 }
      if s.envValid = 1 then { s with second := none } else { s with first := none }
  | .done =>
      let s := { s with envFlags := s.envFlags + 1 }
      let new : Copy α := ⟨s.envFlags, s.env⟩
      let s := if s.envValid = 1 then { s with second := some new } else { s with first := some new }
      { s with envValid := if s.envValid = 2 then 1 else 2 }

/-- Which copy is taken when both are good. -/
def select (flags1 flags2 : UInt8) : Nat :=
  if flags1 = 255 ∧ flags2 = 0 then 2
  else if flags2 = 255 ∧ flags1 = 0 then 1
  else if flags2 < flags1 then 1
  else if flags1 < flags2 then 2
  else 1

/-- `nand_env_relocate_spec` -/
def relocateSpec (default : α) (s : Store α) : Store α :=
  match s.first, s.second with
  | none, none => { s with env := default }
  | some c, none => { s with envValid := 1, envFlags := c.flags, env := c.data }
  | none, some c => { s with envValid := 2, envFlags := c.flags, env := c.data }
  | some c1, some c2 =>
      let valid := select c1.flags c2.flags
      let c := if valid = 1 then c1 else c2
      { s with envValid := valid, envFlags := c.flags, env := c.data }

/-- A reset: `env_flags` is 0 again, `nand_env_init` marks the environment as good, and it is loaded. -/
def reboot (default : α) (s : Store α) : Store α := relocateSpec default { s with envValid := 1, envFlags := 0 }

inductive Act (α : Type) where
  /-- the environment in memory is changed -/
  | setenv (env : α)
  | save (outcome : Outcome)
  | reboot

/-- The store, and the environment of the last save that succeeded. -/
structure World (α : Type) where
  store : Store α
  last : Option α

def World.step (default : α) (w : World α) : Act α → World α
  | .setenv env => { w with store := { w.store with env := env } }
  | .save .done => ⟨saveenv w.store .done, some w.store.env⟩
  | .save outcome => { w with store := saveenv w.store outcome }
  | .reboot => { w with store := EnvNand.reboot default w.store }

def World.run (default : α) (w : World α) (acts : List (Act α)) : World α := acts.foldl (World.step default) w

/-- The copy that is in force. -/
def Store.current (s : Store α) : Option (Copy α) := if s.envValid = 1 then s.first else s.second

/-- The other one, which is written next. -/
def Store.other (s : Store α) : Option (Copy α) := if s.envValid = 1 then s.second else s.first

/-- The new serial number is taken for the newer one. -/
def Newer (old new : UInt8) : Prop := (old = 255 ∧ new = 0) ∨ (old < new ∧ ¬ (old = 0 ∧ new = 255))

instance (old new : UInt8) : Decidable (Newer old new) := inferInstanceAs (Decidable (_ ∨ _))

/-- A save that succeeds gets a serial number that is newer than that of the copy in force. -/
def World.Sound (w : World α) : Act α → Prop
  | .save .done => ∀ c ∈ w.store.current, Newer c.flags (w.store.envFlags + 1)
  | _ => True

def World.SoundRun (default : α) : World α → List (Act α) → Prop
  | _, [] => True
  | w, act :: acts => w.Sound act ∧ World.SoundRun default (w.step default act) acts

/-! ## Serial numbers -/

theorem select_first {f1 f2 : UInt8} (h : Newer f2 f1) : select f1 f2 = 1 := by
  rcases h with ⟨rfl, rfl⟩ | ⟨hlt, hno⟩
  · rfl
  · have h1 : ¬ (f1 = 255 ∧ f2 = 0) := fun hc => hno hc.symm
    have h2 : ¬ (f2 = 255 ∧ f1 = 0) := by
      rintro ⟨rfl, rfl⟩
      exact absurd hlt (by decide)
    rw [select, if_neg h1, if_neg h2, if_pos hlt]

theorem select_second {f1 f2 : UInt8} (h : Newer f1 f2) : select f1 f2 = 2 := by
  rcases h with ⟨rfl, rfl⟩ | ⟨hlt, hno⟩
  · rfl
  · have h1 : ¬ (f2 = 255 ∧ f1 = 0) := fun hc => hno hc.symm
    have h2 : ¬ f2 < f1 := by
      rw [UInt8.not_lt]
      exact UInt8.le_of_lt hlt
    by_cases h0 : f1 = 255 ∧ f2 = 0
    · rw [select, if_pos h0]
    · rw [select, if_neg h0, if_neg h1, if_neg h2, if_pos hlt]

/-! ## The invariant -/

/-- The copy in force holds `data`, and the other one is bad or older. -/
structure InForce (s : Store α) (data : α) : Prop where
  valid : s.envValid = 1 ∨ s.envValid = 2
  current_eq : ∃ flags, s.current = some ⟨flags, data⟩ ∧ ∀ c ∈ s.other, Newer c.flags flags

/-- `gd->env_valid` names a copy, and that copy is the last save. -/
structure Inv (w : World α) : Prop where
  valid : w.store.envValid = 1 ∨ w.store.envValid = 2
  saved : ∀ data ∈ w.last, InForce w.store data

section
variable {default : α} {s : Store α} {w : World α} {data : α}

theorem reboot_valid (default : α) (s : Store α) :
    (reboot default s).envValid = 1 ∨ (reboot default s).envValid = 2 := by
  obtain ⟨first, second, valid, flags, env⟩ := s
  cases first <;> cases second <;> simp only [reboot, relocateSpec]
  case none.none => exact Or.inl trivial
  case none.some => exact Or.inr trivial
  case some.none => exact Or.inl trivial
  case some.some c1 c2 =>
    rw [select]
    repeat' split
    all_goals simp

/-- The copy in force is loaded. -/
theorem InForce.reboot (h : InForce s data) (default : α) :
    InForce (reboot default s) data ∧ (EnvNand.reboot default s).env = data := by
  obtain ⟨first, second, valid, flags, env⟩ := s
  obtain ⟨hvalid, f, hcur, hother⟩ := h
  rcases hvalid with rfl | rfl
  · cases hcur
    cases second with
    | none => exact ⟨⟨Or.inl rfl, f, rfl, fun c hc => by cases hc⟩, rfl⟩
    | some c =>
        have hsel : select f c.flags = 1 := select_first (hother c rfl)
        simp only [EnvNand.reboot, relocateSpec, hsel, if_true]
        exact ⟨⟨Or.inl rfl, f, rfl, hother⟩, trivial⟩
  · cases hcur
    cases first with
    | none => exact ⟨⟨Or.inr rfl, f, rfl, fun c hc => by cases hc⟩, rfl⟩
    | some c =>
        have hsel : select c.flags f = 2 := select_second (hother c rfl)
        simp only [EnvNand.reboot, relocateSpec, hsel]
        exact ⟨⟨Or.inr rfl, f, rfl, hother⟩, rfl⟩

/-- A failed save leaves the copy in force alone. -/
theorem InForce.failed (h : InForce s data) {outcome : Outcome} (hfail : outcome ≠ .done) :
    InForce (saveenv s outcome) data := by
  obtain ⟨first, second, valid, flags, env⟩ := s
  obtain ⟨hvalid, f, hcur, hother⟩ := h
  cases outcome with
  | refused => exact ⟨hvalid, f, hcur, hother⟩
  | untouched => exact ⟨hvalid, f, hcur, hother⟩
  | spoiled =>
      rcases hvalid with rfl | rfl
      · exact ⟨Or.inl rfl, f, hcur, fun c hc => by cases hc⟩
      · exact ⟨Or.inr rfl, f, hcur, fun c hc => by cases hc⟩
  | done => exact absurd rfl hfail

/-- A save that succeeds puts the new copy in force. -/
theorem inForce_saveenv (hvalid : s.envValid = 1 ∨ s.envValid = 2)
    (hnewer : ∀ c ∈ s.current, Newer c.flags (s.envFlags + 1)) : InForce (saveenv s .done) s.env := by
  obtain ⟨first, second, valid, flags, env⟩ := s
  rcases hvalid with rfl | rfl
  · exact ⟨Or.inr rfl, flags + 1, rfl, hnewer⟩
  · exact ⟨Or.inl rfl, flags + 1, rfl, hnewer⟩

theorem saveenv_valid (hvalid : s.envValid = 1 ∨ s.envValid = 2) (outcome : Outcome) :
    (saveenv s outcome).envValid = 1 ∨ (saveenv s outcome).envValid = 2 := by
  obtain ⟨first, second, valid, flags, env⟩ := s
  rcases hvalid with rfl | rfl <;> cases outcome <;> simp [saveenv]

theorem Inv.failed (h : Inv w) (outcome : Outcome) (hfail : outcome ≠ .done) :
    Inv (World.mk (saveenv w.store outcome) w.last) :=
  ⟨saveenv_valid h.valid outcome, fun data hd => (h.saved data hd).failed hfail⟩

theorem Inv.step (h : Inv w) {act : Act α} (hsound : w.Sound act) : Inv (w.step default act) := by
  cases act with
  | setenv env => exact ⟨h.valid, fun data hd => ⟨h.valid, (h.saved data hd).current_eq⟩⟩
  | save outcome =>
      cases outcome with
      | done =>
          refine ⟨saveenv_valid h.valid .done, fun data hd => ?_⟩
          cases hd
          exact inForce_saveenv h.valid hsound
      | refused => exact h.failed .refused (by decide)
      | untouched => exact h.failed .untouched (by decide)
      | spoiled => exact h.failed .spoiled (by decide)
  | reboot => exact ⟨reboot_valid default w.store, fun data hd => ((h.saved data hd).reboot default).1⟩

theorem Inv.run (h : Inv w) {acts : List (Act α)} (hsound : w.SoundRun default acts) : Inv (w.run default acts) := by
  induction acts generalizing w with
  | nil => exact h
  | cons act acts ih => exact ih (h.step hsound.1) hsound.2

end

/-- After any saves, failures and reboots from any contents of the flash, a reboot loads the last save. -/
theorem reboot_loads_last_save (default : α) (s : Store α) (acts : List (Act α))
    (hsound : World.SoundRun default ⟨reboot default s, none⟩ acts) (data : α)
    (hlast : (World.run default ⟨reboot default s, none⟩ acts).last = some data) :
    ((World.run default ⟨reboot default s, none⟩ acts).step default .reboot).store.env = data := by
  have hinit : Inv (World.mk (reboot default s) none) := ⟨reboot_valid default s, fun data hd => by cases hd⟩
  exact (((hinit.run hsound).saved data hlast).reboot default).2

/-- An empty flash. -/
def blankStore : Store Nat := ⟨none, none, 0, 0, 0⟩

/-- Two saves, a failed one, another save, and a change that is not saved. -/
def sampleActs : List (Act Nat) :=
  [.setenv 1, .save .done, .setenv 2, .save .done, .setenv 3, .save .spoiled, .save .done, .setenv 4]

theorem reboot_loads_last_save_sample :
    ((World.run 0 ⟨reboot 0 blankStore, none⟩ sampleActs).step 0 .reboot).store.env = 3 := by
  refine reboot_loads_last_save 0 blankStore sampleActs ?_ 3 rfl
  refine ⟨trivial, ?_, trivial, ?_, trivial, trivial, ?_, trivial, trivial⟩
  · intro c hc
    cases hc
  · intro c hc
    cases hc
    decide
  · intro c hc
    cases hc
    decide

/-- The first copy has the serial number 254. A save fails and the next one succeeds with the serial number 0. -/
theorem reboot_loads_old_after_wrap :
    ∃ acts : List (Act Nat), acts = [.setenv 1, .save .spoiled, .save .done] ∧
      (World.run 0 ⟨reboot 0 ⟨some ⟨254, 7⟩, none, 0, 0, 0⟩, none⟩ acts).last = some 1 ∧
      ((World.run 0 ⟨reboot 0 ⟨some ⟨254, 7⟩, none, 0, 0, 0⟩, none⟩ acts).step 0 .reboot).store.env = 7 :=
  ⟨_, rfl, by decide, by decide⟩

end Uboot.EnvNand
