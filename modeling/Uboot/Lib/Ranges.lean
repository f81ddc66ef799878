import Mathlib.Order.BourbakiWitt
import Mathlib.Data.Set.BooleanAlgebra
import Mathlib.Order.CompletePartialOrder
import Mathlib.Order.Interval.Set.Basic
import Mathlib.Logic.Function.Basic

/-!
# Tables of address ranges

The first `n` entries of a table of ranges cover a set of addresses. The table is ordered when every range
ends before the next one begins. These are the effects on both of changing, removing and inserting entries.
-/

namespace Uboot.Lib

structure Range where
  base : Nat
  size : Nat
deriving DecidableEq, Repr

namespace Range

def stop (r : Range) : Nat := r.base + r.size

/-- The addresses of a range. -/
def addrs (r : Range) : Set Nat := {a | r.base ≤ a ∧ a < r.stop}

theorem mem_addrs {r : Range} {a : Nat} : a ∈ r.addrs ↔ r.base ≤ a ∧ a < r.base + r.size := Iff.rfl

/-- Two nonempty ranges without a common address lie one after the other. -/
theorem before_or_after {r s : Range} (hr : 0 < r.size) (hs : 0 < s.size) (h : Disjoint r.addrs s.addrs) :
    r.stop ≤ s.base ∨ s.stop ≤ r.base := by
  by_contra hc
  simp only [stop] at hc
  have hr' : max r.base s.base ∈ r.addrs := mem_addrs.mpr (by omega)
  have hs' : max r.base s.base ∈ s.addrs := mem_addrs.mpr (by omega)
  exact Set.disjoint_left.mp h hr' hs'

/-- A nonempty range lies in another one when both its ends do. -/
theorem addrs_subset {r s : Range} (hs : 0 < s.size) : s.addrs ⊆ r.addrs ↔ r.base ≤ s.base ∧ s.stop ≤ r.stop := by
  constructor
  · intro h
    have hlow : s.base ∈ r.addrs := h (mem_addrs.mpr (by omega))
    have hhigh : s.base + s.size - 1 ∈ r.addrs := h (mem_addrs.mpr (by omega))
    simp only [mem_addrs, stop] at *
    omega
  · rintro ⟨hlow, hhigh⟩ a ha
    simp only [mem_addrs, stop] at *
    omega

end Range

/-- The addresses in one of the first `n` ranges. -/
def cover (n : Nat) (f : Nat → Range) : Set Nat := {a | ∃ i < n, a ∈ (f i).addrs}

/-- Each of the first `n` ranges ends before all later ones begin. -/
def Ordered (n : Nat) (f : Nat → Range) : Prop := ∀ i j, i < j → j < n → (f i).stop ≤ (f j).base

theorem cover_congr {n : Nat} {f g : Nat → Range} (h : ∀ i < n, f i = g i) : cover n f = cover n g := by
  ext a
  constructor
  · rintro ⟨i, hi, ha⟩; exact ⟨i, hi, h i hi ▸ ha⟩
  · rintro ⟨i, hi, ha⟩; exact ⟨i, hi, (h i hi).symm ▸ ha⟩

theorem Ordered.congr {n : Nat} {f g : Nat → Range} (h : ∀ i < n, f i = g i) (hf : Ordered n f) :
    Ordered n g := by
  intro i j hij hj
  rw [← h i (by omega), ← h j hj]
  exact hf i j hij hj

theorem subset_cover {n i : Nat} (f : Nat → Range) (hi : i < n) : (f i).addrs ⊆ cover n f :=
  fun _ ha => ⟨i, hi, ha⟩

/-! ## Changing an entry -/

section
variable {n i : Nat} {f : Nat → Range} {x : Range}

theorem mem_cover_update {a : Nat} (hi : i < n) : a ∈ cover n (Function.update f i x) ↔
    a ∈ x.addrs ∨ ∃ j < n, j ≠ i ∧ a ∈ (f j).addrs := by
  constructor
  · rintro ⟨j, hj, ha⟩
    by_cases hji : j = i
    · subst hji; exact Or.inl (by simpa using ha)
    · exact Or.inr ⟨j, hj, hji, by simpa [hji] using ha⟩
  · rintro (ha | ⟨j, hj, hji, ha⟩)
    · exact ⟨i, hi, by simpa using ha⟩
    · exact ⟨j, hj, by simpa [hji] using ha⟩

/-- An entry grows by the addresses of `y`. -/
theorem cover_update_union {y : Range} (hi : i < n) (hx : x.addrs = (f i).addrs ∪ y.addrs) :
    cover n (Function.update f i x) = cover n f ∪ y.addrs := by
  ext a
  rw [mem_cover_update hi, hx]
  constructor
  · rintro ((ha | ha) | ⟨j, hj, _, ha⟩)
    · exact Or.inl ⟨i, hi, ha⟩
    · exact Or.inr ha
    · exact Or.inl ⟨j, hj, ha⟩
  · rintro (⟨j, hj, ha⟩ | ha)
    · by_cases hji : j = i
      · subst hji; exact Or.inl (Or.inl ha)
      · exact Or.inr ⟨j, hj, hji, ha⟩
    · exact Or.inl (Or.inr ha)

theorem Ordered.update (hf : Ordered n f) (hl : ∀ j < i, (f j).stop ≤ x.base)
    (hr : ∀ j, i < j → j < n → x.stop ≤ (f j).base) : Ordered n (Function.update f i x) := by
  intro j k hjk hk
  by_cases hji : j = i
  · subst hji
    have hkj : k ≠ j := by omega
    simpa [hkj] using hr k hjk hk
  · by_cases hki : k = i
    · subst hki; simpa [hji] using hl j hjk
    · simpa [hji, hki] using hf j k hjk hk

/-- The other entries have no address of an entry of an ordered table. -/
theorem Ordered.not_mem_other (hf : Ordered n f) (hi : i < n) {j a : Nat} (hj : j < n) (hji : j ≠ i)
    (ha : a ∈ (f i).addrs) : a ∉ (f j).addrs := by
  intro ha'
  rw [Range.mem_addrs] at ha ha'
  rcases Nat.lt_or_gt_of_ne hji with h | h
  · have := hf j i h hi; simp only [Range.stop] at this; omega
  · have := hf i j h hj; simp only [Range.stop] at this; omega

/-- An entry of an ordered table loses the addresses of `y`, which are among its own. -/
theorem cover_update_diff {y : Range} (hf : Ordered n f) (hi : i < n) (hy : y.addrs ⊆ (f i).addrs)
    (hx : x.addrs = (f i).addrs \ y.addrs) :
    cover n (Function.update f i x) = cover n f \ y.addrs := by
  ext a
  rw [mem_cover_update hi, hx]
  constructor
  · rintro (⟨ha, hay⟩ | ⟨j, hj, hji, ha⟩)
    · exact ⟨⟨i, hi, ha⟩, hay⟩
    · exact ⟨⟨j, hj, ha⟩, fun hay => hf.not_mem_other hi hj hji (hy hay) ha⟩
  · rintro ⟨⟨j, hj, ha⟩, hay⟩
    by_cases hji : j = i
    · subst hji; exact Or.inl ⟨ha, hay⟩
    · exact Or.inr ⟨j, hj, hji, ha⟩

end

/-! ## Removing an entry -/

def removeAt (f : Nat → Range) (r : Nat) : Nat → Range := fun j => if j < r then f j else f (j + 1)

section
variable {n r : Nat} {f : Nat → Range}

theorem mem_cover_removeAt {a : Nat} (hr : r < n) :
    a ∈ cover (n - 1) (removeAt f r) ↔ ∃ j < n, j ≠ r ∧ a ∈ (f j).addrs := by
  constructor
  · rintro ⟨j, hj, ha⟩
    by_cases hjr : j < r
    · exact ⟨j, by omega, by omega, by simpa [removeAt, hjr] using ha⟩
    · exact ⟨j + 1, by omega, by omega, by simpa [removeAt, hjr] using ha⟩
  · rintro ⟨j, hj, hjr, ha⟩
    by_cases hlt : j < r
    · exact ⟨j, by omega, by simpa [removeAt, hlt] using ha⟩
    · obtain ⟨j, rfl⟩ : ∃ k, j = k + 1 := ⟨j - 1, by omega⟩
      exact ⟨j, by omega, by simpa [removeAt, show ¬ j < r by omega] using ha⟩

theorem Ordered.removeAt (hf : Ordered n f) (hr : r < n) : Ordered (n - 1) (removeAt f r) := by
  intro i j hij hj
  simp only [Lib.removeAt]
  by_cases hi : i < r
  · by_cases hj' : j < r
    · simpa [hi, hj'] using hf i j hij (by omega)
    · simpa [hi, hj'] using hf i (j + 1) (by omega) (by omega)
  · simpa [hi, show ¬ j < r by omega] using hf (i + 1) (j + 1) (by omega) (by omega)

theorem cover_removeAt_diff (hf : Ordered n f) (hr : r < n) :
    cover (n - 1) (Lib.removeAt f r) = cover n f \ (f r).addrs := by
  ext a
  rw [mem_cover_removeAt hr]
  constructor
  · rintro ⟨j, hj, hjr, ha⟩
    exact ⟨⟨j, hj, ha⟩, fun har => hf.not_mem_other hr hj hjr har ha⟩
  · rintro ⟨⟨j, hj, ha⟩, har⟩
    exact ⟨j, hj, fun hjr => har (hjr ▸ ha), ha⟩

end

/-! ## Inserting an entry -/

def insertAt (f : Nat → Range) (p : Nat) (x : Range) : Nat → Range :=
  fun j => if j < p then f j else if j = p then x else f (j - 1)

section
variable {n p : Nat} {f : Nat → Range} {x : Range}

theorem cover_insertAt (hp : p ≤ n) : cover (n + 1) (insertAt f p x) = cover n f ∪ x.addrs := by
  ext a
  constructor
  · rintro ⟨j, hj, ha⟩
    by_cases hjp : j < p
    · exact Or.inl ⟨j, by omega, by simpa [insertAt, hjp] using ha⟩
    · by_cases hjp' : j = p
      · subst hjp'; exact Or.inr (by simpa [insertAt] using ha)
      · exact Or.inl ⟨j - 1, by omega, by simpa [insertAt, hjp, hjp'] using ha⟩
  · rintro (⟨j, hj, ha⟩ | ha)
    · by_cases hjp : j < p
      · exact ⟨j, by omega, by simpa [insertAt, hjp] using ha⟩
      · exact ⟨j + 1, by omega, by simpa [insertAt, show ¬ j + 1 < p by omega, show j + 1 ≠ p by omega] using ha⟩
    · exact ⟨p, by omega, by simpa [insertAt] using ha⟩

theorem Ordered.insertAt (hf : Ordered n f) (hp : p ≤ n) (hl : ∀ j < p, (f j).stop ≤ x.base)
    (hr : ∀ j, p ≤ j → j < n → x.stop ≤ (f j).base) : Ordered (n + 1) (insertAt f p x) := by
  intro i j hij hj
  simp only [Lib.insertAt]
  by_cases hip : i < p
  · by_cases hjp : j < p
    · simpa [hip, hjp] using hf i j hij (by omega)
    · by_cases hjp' : j = p
      · subst hjp'; simpa [hip] using hl i hip
      · simpa [hip, hjp, hjp'] using hf i (j - 1) (by omega) (by omega)
  · by_cases hip' : i = p
    · subst hip'
      simpa [show ¬ j < i by omega, show j ≠ i by omega] using hr (j - 1) (by omega) (by omega)
    · simpa [hip, hip', show ¬ j < p by omega, show j ≠ p by omega] using
        hf (i - 1) (j - 1) (by omega) (by omega)

/-- An entry of an ordered table is split around the addresses from `b` to `e`. -/
theorem cover_split {i b e : Nat} (hf : Ordered n f) (hi : i < n) (hb : (f i).base ≤ b) (hbe : b ≤ e)
    (he : e ≤ (f i).stop) :
    cover (n + 1) (insertAt (Function.update f i ⟨(f i).base, b - (f i).base⟩) (i + 1) ⟨e, (f i).stop - e⟩) =
      cover n f \ Range.addrs ⟨b, e - b⟩ := by
  have hcut : cover n (Function.update f i ⟨(f i).base, b - (f i).base⟩) =
      cover n f \ Range.addrs ⟨b, (f i).stop - b⟩ := by
    refine cover_update_diff hf hi ?_ ?_
    · intro a
      simp only [Range.mem_addrs, Range.stop] at *; omega
    · ext a
      simp only [Set.mem_sdiff, Range.mem_addrs, Range.stop] at *; omega
  rw [cover_insertAt (by omega), hcut]
  ext a
  have hsub : a ∈ (f i).addrs → a ∈ cover n f := fun ha => ⟨i, hi, ha⟩
  simp only [Set.mem_union, Set.mem_sdiff, Range.mem_addrs, Range.stop] at *
  constructor
  · rintro (⟨ha, hz⟩ | hy)
    · exact ⟨ha, by omega⟩
    · exact ⟨hsub (by omega), by omega⟩
  · rintro ⟨ha, hx⟩
    by_cases hz : b ≤ a ∧ a < (f i).base + (f i).size
    · exact Or.inr (by omega)
    · exact Or.inl ⟨ha, by omega⟩

end

end Uboot.Lib
