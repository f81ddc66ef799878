import Mathlib.Tactic
import Mathlib.Data.Finset.Card

/-!
# Ranges of slots in a ring

The slots of a ring of `n` are the numbers below `n`. The range from `a` to `b` holds `a` and the slots after it, up to
but not including `b`; from a slot to itself it is empty.
-/

namespace Uboot.Lib

/-- The number of steps from `a` to `b`. -/
def ringDist (n a b : Nat) : Nat := (b + n - a) % n

/-- The slots from `a` up to `b`. -/
def cyclic (n a b : Nat) : Finset Nat := (Finset.range (ringDist n a b)).image fun k => (a + k) % n

section
variable {n a j k : Nat}

theorem ringDist_add (ha : a < n) (hk : k < n) : ringDist n a ((a + k) % n) = k := by
  rw [ringDist]
  by_cases h : a + k < n
  · rw [Nat.mod_eq_of_lt h, show a + k + n - a = k + n by omega, Nat.add_mod_right, Nat.mod_eq_of_lt hk]
  · have hmod : (a + k) % n = a + k - n := by
      rw [Nat.mod_eq_sub_mod (by omega), Nat.mod_eq_of_lt (by omega)]
    rw [hmod, show a + k - n + n - a = k by omega, Nat.mod_eq_of_lt hk]

theorem add_mod_inj (ha : a < n) (hj : j < n) (hk : k < n) (h : (a + j) % n = (a + k) % n) : j = k := by
  rw [← ringDist_add ha hj, h, ringDist_add ha hk]

theorem ringDist_lt (hn : 0 < n) (a b : Nat) : ringDist n a b < n := Nat.mod_lt _ hn

theorem card_cyclic {b : Nat} (ha : a < n) : (cyclic n a b).card = ringDist n a b := by
  rw [cyclic, Finset.card_image_of_injOn, Finset.card_range]
  intro i hi j hj he
  have hlt := ringDist_lt (by omega : 0 < n) a b
  exact add_mod_inj ha (by have := Finset.mem_range.mp hi; omega) (by have := Finset.mem_range.mp hj; omega) he

/-- The slots of a range that is given by its length. -/
theorem mem_cyclic_add (ha : a < n) (hk : k < n) {s : Nat} :
    s ∈ cyclic n a ((a + k) % n) ↔ ∃ i < k, (a + i) % n = s := by
  simp [cyclic, ringDist_add ha hk]

end

end Uboot.Lib
