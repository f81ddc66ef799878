import Mathlib.Data.Nat.ModEq
import Mathlib.Data.Nat.GCD.Basic
import Mathlib.Data.Set.Finite.Basic
import Mathlib.Data.Finset.Card
import Mathlib.Order.Interval.Finset.Nat
import Mathlib.Tactic.Ring

/-!
# Walking through `1..n` with a fixed stride

Open addressing with double hashing visits the places `1..n` by going back `d` places at a time and
starting again from the top. When `d` and `n` are coprime the walk is one cycle through all places.
-/

namespace Uboot.Lib

/-- The place `d` steps before `i` on the circle `1..n`. -/
def stepBack (n d i : Nat) : Nat := if i ≤ d then n + i - d else i - d

/-- The place reached from `h` after `j` steps. -/
def walk (n d h : Nat) : Nat → Nat
  | 0 => h
  | j + 1 => stepBack n d (walk n d h j)

section
variable {n d h : Nat}

theorem stepBack_mem (hd : 0 < d) (hdn : d < n) {i : Nat} (hi : 1 ≤ i ∧ i ≤ n) :
    1 ≤ stepBack n d i ∧ stepBack n d i ≤ n := by
  unfold stepBack
  split <;> omega

theorem walk_mem (hd : 0 < d) (hdn : d < n) (hh : 1 ≤ h ∧ h ≤ n) (j : Nat) :
    1 ≤ walk n d h j ∧ walk n d h j ≤ n := by
  induction j with
  | zero => exact hh
  | succ j ih => exact stepBack_mem hd hdn ih

theorem stepBack_modEq (hdn : d < n) {i : Nat} : stepBack n d i + d ≡ i [MOD n] := by
  unfold stepBack
  split
  · rw [Nat.sub_add_cancel (by omega)]
    exact Nat.add_modEq_left
  · rw [Nat.sub_add_cancel (by omega)]

theorem walk_modEq (hdn : d < n) (j : Nat) : walk n d h j + j * d ≡ h [MOD n] := by
  induction j with
  | zero => simpa [walk] using Nat.ModEq.refl h
  | succ j ih =>
      have hs : stepBack n d (walk n d h j) + d + j * d ≡ walk n d h j + j * d [MOD n] :=
        (stepBack_modEq hdn).add_right _
      have he : walk n d h (j + 1) + (j + 1) * d = stepBack n d (walk n d h j) + d + j * d := by
        rw [walk]; ring
      rw [he]
      exact hs.trans ih

/-- Two places of `1..n` that agree modulo `n` are equal. -/
theorem eq_of_modEq_of_mem {a b : Nat} (ha : 1 ≤ a ∧ a ≤ n) (hb : 1 ≤ b ∧ b ≤ n)
    (h : a ≡ b [MOD n]) : a = b := by
  have h' : a - 1 ≡ b - 1 [MOD n] := by
    apply Nat.ModEq.add_right_cancel' 1
    rwa [Nat.sub_add_cancel ha.1, Nat.sub_add_cancel hb.1]
  have := Nat.ModEq.eq_of_lt_of_lt h' (by omega) (by omega)
  omega

/-- The walk does not come back to a place before `n` steps. -/
theorem walk_inj (hc : Nat.Coprime d n) (hdn : d < n) {i j : Nat} (hi : i < n) (hj : j < n)
    (he : walk n d h i = walk n d h j) : i = j := by
  have hi' := walk_modEq (h := h) hdn i
  have hj' := walk_modEq (h := h) hdn j
  rw [he] at hi'
  have hmul : i * d ≡ j * d [MOD n] := Nat.ModEq.add_left_cancel' _ (hi'.trans hj'.symm)
  exact Nat.ModEq.eq_of_lt_of_lt (Nat.ModEq.cancel_right_of_coprime (Nat.Coprime.symm hc) hmul) hi hj

/-- After `n` steps the walk is back where it started. -/
theorem walk_period (hd : 0 < d) (hdn : d < n) (hh : 1 ≤ h ∧ h ≤ n) : walk n d h n = h := by
  apply eq_of_modEq_of_mem (walk_mem hd hdn hh n) hh
  have hn : walk n d h n + n * d ≡ walk n d h n [MOD n] := by simp [Nat.ModEq]
  exact hn.symm.trans (walk_modEq hdn n)

/-- The walk visits every place. -/
theorem walk_surj (hc : Nat.Coprime d n) (hd : 0 < d) (hdn : d < n) (hh : 1 ≤ h ∧ h ≤ n) {i : Nat}
    (hi : 1 ≤ i ∧ i ≤ n) : ∃ j < n, walk n d h j = i := by
  have himg : (Finset.range n).image (walk n d h) = Finset.Icc 1 n := by
    apply Finset.eq_of_subset_of_card_le
    · intro x hx
      obtain ⟨j, _, rfl⟩ := Finset.mem_image.mp hx
      exact Finset.mem_Icc.mpr (walk_mem hd hdn hh j)
    · rw [Finset.card_image_of_injOn, Finset.card_range, Nat.card_Icc, Nat.add_sub_cancel]
      intro a ha b hb hab
      exact walk_inj hc hdn (by simpa using ha) (by simpa using hb) hab
  have hmem : i ∈ (Finset.range n).image (walk n d h) := by rw [himg]; exact Finset.mem_Icc.mpr hi
  obtain ⟨j, hj, hji⟩ := Finset.mem_image.mp hmem
  exact ⟨j, by simpa using hj, hji⟩

end

end Uboot.Lib
