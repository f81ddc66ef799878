import Mathlib.Tactic.ByContra
import Mathlib.Tactic.Cases

/-!
# Rewriting units inside erase blocks

A store of cells that lie in units, units in blocks. A unit whose cells differ from what they should be is rewritten by
erasing its block and writing the unit. Rewriting the units of a range one after another loses what the later erases take;
`rewriteN_exact_iff` says when nothing is lost.
-/

namespace Uboot.Lib

variable {A V : Type} (unit : A → Nat) (erased : V) (new : A → V) (blockOf : Nat → Nat)

open Classical in
/-- One unit: left alone when it is as it should be, else its block is erased and the unit written. -/
noncomputable def rewrite (mem : A → V) (q : Nat) : A → V :=
  if ∀ a, unit a = q → mem a = new a then mem
  else fun a => if unit a = q then new a else if blockOf (unit a) = blockOf q then erased else mem a

variable (old : A → V) (o : Nat)

/-- The units `o`, `o + 1`, … in order. -/
noncomputable def rewriteN : Nat → A → V
  | 0 => old
  | i + 1 => rewrite unit erased new blockOf (rewriteN i) (o + i)

/-- A unit that differs at first. -/
def Dirty (q : Nat) : Prop := ∃ a, unit a = q ∧ old a ≠ new a

/-- A unit that is to be as after an erase. -/
def Blank (q : Nat) : Prop := ∀ a, unit a = q → new a = erased

/-- No unit of the block below `i` differs at first. -/
def Clean (b i : Nat) : Prop := ∀ k, o ≤ k → k < o + i → blockOf k = b → ¬ Dirty unit new old k

/-- The unit that the last erase of block `b` was for, after `i` units. -/
structure LastErase (b i : Nat) (mem : A → V) (t : Nat) : Prop where
  le : o ≤ t
  lt : t < o + i
  block : blockOf t = b
  cells : ∀ a, blockOf (unit a) = b → mem a = if unit a = t then new a else erased
  dirty : ∃ k, o ≤ k ∧ k ≤ t ∧ blockOf k = b ∧ Dirty unit new old k
  blankAfter : ∀ j, t < j → j < o + i → blockOf j = b → Blank unit erased new j
  cause : ¬ Blank unit erased new t ∨ ∀ k, o ≤ k → k < t → blockOf k = b → ¬ Dirty unit new old k

/-- What is known about a block after `i` units. -/
def BlockInv (b i : Nat) (mem : A → V) : Prop :=
  (Clean unit new blockOf old o b i ∧ ∀ a, blockOf (unit a) = b → mem a = old a) ∨
    ∃ t, LastErase unit erased new blockOf old o b i mem t

variable {unit erased new blockOf old o}

theorem rewrite_of_ne {mem : A → V} {q : Nat} {a : A} (h : blockOf (unit a) ≠ blockOf q) :
    rewrite unit erased new blockOf mem q a = mem a := by
  rw [rewrite]
  split
  · rfl
  · have : unit a ≠ q := fun he => h (by rw [he])
    simp [this, h]

/-- A unit of another block changes nothing. -/
theorem BlockInv.other {b i : Nat} {mem : A → V} (h : BlockInv unit erased new blockOf old o b i mem)
    (hb : blockOf (o + i) ≠ b) : BlockInv unit erased new blockOf old o b (i + 1)
      (rewrite unit erased new blockOf mem (o + i)) := by
  have same : ∀ a, blockOf (unit a) = b →
      rewrite unit erased new blockOf mem (o + i) a = mem a :=
    fun a ha => rewrite_of_ne fun h => hb (h.symm.trans ha)
  have last : ∀ {j}, j < o + (i + 1) → blockOf j = b → j < o + i := by
    intro j hj hjb
    have : j ≠ o + i := fun he => hb (he ▸ hjb)
    omega
  cases h with
  | inl h =>
      left
      exact ⟨fun k hk hlt hkb => h.1 k hk (last hlt hkb) hkb, fun a ha => (same a ha).trans (h.2 a ha)⟩
  | inr h =>
      obtain ⟨t, ht⟩ := h
      right
      exact ⟨t, { ht with
        lt := by have := ht.lt; omega
        cells := fun a ha => (same a ha).trans (ht.cells a ha)
        blankAfter := fun j hj hlt hjb => ht.blankAfter j hj (last hlt hjb) hjb }⟩

/-- An erase for the unit `o + i`. -/
theorem lastErase_of_rewrite {b i : Nat} {mem : A → V} (hb : blockOf (o + i) = b)
    (hne : ¬ ∀ a, unit a = o + i → mem a = new a)
    (hdirty : ∃ k, o ≤ k ∧ k ≤ o + i ∧ blockOf k = b ∧ Dirty unit new old k)
    (hcause : ¬ Blank unit erased new (o + i) ∨ ∀ k, o ≤ k → k < o + i → blockOf k = b → ¬ Dirty unit new old k) :
    LastErase unit erased new blockOf old o b (i + 1)
      (rewrite unit erased new blockOf mem (o + i)) (o + i) where
  le := by omega
  lt := by omega
  block := hb
  cells a ha := by rw [rewrite, if_neg hne]; simp [ha, hb]
  dirty := hdirty
  blankAfter j hj hlt := by omega
  cause := hcause

/-- A unit of the block itself. -/
theorem BlockInv.same {b i : Nat} {mem : A → V} (h : BlockInv unit erased new blockOf old o b i mem)
    (hb : blockOf (o + i) = b) : BlockInv unit erased new blockOf old o b (i + 1)
      (rewrite unit erased new blockOf mem (o + i)) := by
  by_cases heq : ∀ a, unit a = o + i → mem a = new a
  · -- the unit is skipped
    have hskip : rewrite unit erased new blockOf mem (o + i) = mem := by rw [rewrite, if_pos heq]
    rw [hskip]
    cases h with
    | inl h =>
        left
        refine ⟨fun k hk hlt hkb => ?_, h.2⟩
        by_cases hki : k = o + i
        · rintro ⟨a, ha, hne⟩
          exact hne ((h.2 a (by rw [ha, hkb])).symm.trans (heq a (ha.trans hki)))
        · exact h.1 k hk (by omega) hkb
    | inr h =>
        obtain ⟨t, ht⟩ := h
        right
        refine ⟨t, { ht with lt := by have := ht.lt; omega, blankAfter := fun j hj hlt hjb => ?_ }⟩
        by_cases hji : j = o + i
        · intro a ha
          have hcell := ht.cells a (by rw [ha, hjb])
          rw [if_neg (by omega)] at hcell
          exact (heq a (ha.trans hji)).symm.trans hcell
        · exact ht.blankAfter j hj (by omega) hjb
  · right
    refine ⟨o + i, lastErase_of_rewrite hb heq ?_ ?_⟩
    · cases h with
      | inl h =>
          refine ⟨o + i, by omega, Nat.le_refl _, hb, ?_⟩
          obtain ⟨a, ha, hne⟩ : ∃ a, unit a = o + i ∧ mem a ≠ new a := by simpa using heq
          exact ⟨a, ha, fun hold => hne ((h.2 a (by rw [ha, hb])).trans hold)⟩
      | inr h =>
          obtain ⟨t, ht⟩ := h
          obtain ⟨k, hk, hkt, hkb, hd⟩ := ht.dirty
          exact ⟨k, hk, by have := ht.lt; omega, hkb, hd⟩
    · cases h with
      | inl h => exact .inr fun k hk hlt hkb => h.1 k hk hlt hkb
      | inr h =>
          obtain ⟨t, ht⟩ := h
          left
          intro hblank
          apply heq
          intro a ha
          have hcell := ht.cells a (by rw [ha, hb])
          rw [if_neg (by have := ht.lt; omega)] at hcell
          rw [hcell, hblank a ha]

variable (unit erased new blockOf old o) in
theorem blockInv_rewriteN (b i : Nat) :
    BlockInv unit erased new blockOf old o b i (rewriteN unit erased new blockOf old o i) := by
  induction i with
  | zero => exact .inl ⟨fun k hk hlt => by omega, fun a _ => rfl⟩
  | succ i ih =>
      by_cases hb : blockOf (o + i) = b
      · exact ih.same hb
      · exact ih.other hb

/-- Nothing is lost in the blocks that are erased: outside the range they are erased already, and of the units of the range
in such a block only one is not to be blank, and no erase comes after it. -/
def Keeps (unit : A → Nat) (erased : V) (new : A → V) (blockOf : Nat → Nat) (old : A → V) (o n : Nat) : Prop :=
  ∀ q, o ≤ q → q < o + n → Dirty unit new old q →
    (∀ a, blockOf (unit a) = blockOf q → ¬ (o ≤ unit a ∧ unit a < o + n) → old a = erased) ∧
    ∀ j, o ≤ j → j < o + n → blockOf j = blockOf q → ¬ Blank unit erased new j →
      (∀ k, o ≤ k → k < o + n → blockOf k = blockOf q → k ≠ j → Blank unit erased new k) ∧
      ∃ k, o ≤ k ∧ k ≤ j ∧ blockOf k = blockOf q ∧ Dirty unit new old k

/-- The range holds what it should, and all else is as before. -/
def Replaced (unit : A → Nat) (new old mem : A → V) (o n : Nat) : Prop :=
  ∀ a, mem a = if o ≤ unit a ∧ unit a < o + n then new a else old a

theorem LastErase.keeps {b n t : Nat} {mem : A → V} (ht : LastErase unit erased new blockOf old o b n mem t)
    (h : Replaced unit new old mem o n) :
    (∀ a, blockOf (unit a) = b → ¬ (o ≤ unit a ∧ unit a < o + n) → old a = erased) ∧
    ∀ j, o ≤ j → j < o + n → blockOf j = b → ¬ Blank unit erased new j →
      (∀ k, o ≤ k → k < o + n → blockOf k = b → k ≠ j → Blank unit erased new k) ∧
      ∃ k, o ≤ k ∧ k ≤ j ∧ blockOf k = b ∧ Dirty unit new old k := by
  have blank : ∀ k, o ≤ k → k < o + n → blockOf k = b → k ≠ t → Blank unit erased new k := by
    intro k hk hlt hkb hkt a ha
    have hcell := ht.cells a (by rw [ha, hkb])
    rw [h a, if_pos (by omega), if_neg (by omega)] at hcell
    exact hcell
  constructor
  · intro a ha hout
    have hcell := ht.cells a ha
    have := ht.le
    have := ht.lt
    rw [h a, if_neg hout, if_neg (by intro he; omega)] at hcell
    exact hcell
  · intro j hj hlt hjb hnb
    obtain rfl : j = t := by
      by_contra hne
      exact hnb (blank j hj hlt hjb hne)
    exact ⟨blank, ht.dirty⟩

theorem LastErase.replaced {n t q : Nat} {mem : A → V} (ht : LastErase unit erased new blockOf old o (blockOf q) n mem t)
    (hq : o ≤ q) (hqn : q < o + n) (hd : Dirty unit new old q) (h : Keeps unit erased new blockOf old o n) {a : A}
    (ha : blockOf (unit a) = blockOf q) : mem a = if o ≤ unit a ∧ unit a < o + n then new a else old a := by
  obtain ⟨hout, hunits⟩ := h q hq hqn hd
  rw [ht.cells a ha]
  split
  · rename_i hat
    have := ht.le
    have := ht.lt
    rw [if_pos (by omega)]
  · rename_i hat
    split
    · rename_i hin
      -- another unit of the range is blank
      have hblank : Blank unit erased new (unit a) := by
        by_contra hnb
        obtain ⟨hothers, k, hk, hka, hkb, hkd⟩ := hunits (unit a) hin.1 hin.2 ha hnb
        cases ht.cause with
        | inl htb => exact htb (hothers t ht.le ht.lt ht.block fun he => hat he.symm)
        | inr hclean =>
            cases Nat.lt_or_ge (unit a) t with
            | inl hlt => exact hclean k hk (by omega) hkb hkd
            | inr hge => exact hnb (ht.blankAfter _ (by omega) hin.2 ha)
      exact (hblank a rfl).symm
    · rename_i hin
      exact (hout a ha hin).symm

/-- Rewriting a range unit by unit is exact when, and only when, the erases take nothing. -/
theorem rewriteN_exact_iff (n : Nat) :
    Replaced unit new old (rewriteN unit erased new blockOf old o n) o n ↔ Keeps unit erased new blockOf old o n := by
  constructor
  · intro h q hq hqn hd
    cases blockInv_rewriteN unit erased new blockOf old o (blockOf q) n with
    | inl hc => exact absurd hd (hc.1 q hq hqn rfl)
    | inr hl =>
        obtain ⟨t, ht⟩ := hl
        exact ht.keeps h
  · intro h a
    cases blockInv_rewriteN unit erased new blockOf old o (blockOf (unit a)) n with
    | inl hc =>
        rw [hc.2 a rfl]
        split
        · rename_i hin
          by_contra hne
          exact hc.1 (unit a) hin.1 hin.2 rfl ⟨a, rfl, hne⟩
        · rfl
    | inr hl =>
        obtain ⟨t, ht⟩ := hl
        obtain ⟨k, hk, hkt, hkb, hd⟩ := ht.dirty
        rw [← hkb] at ht
        exact ht.replaced hk (by have := ht.lt; omega) hd h hkb.symm

end Uboot.Lib
