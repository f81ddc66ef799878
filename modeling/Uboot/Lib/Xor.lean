import Mathlib.Tactic

/-!
# Sums without carry

The words of a checksum that are combined by exclusive or; the effect of another word in one place.
-/

namespace Uboot.Lib

variable {w n j : Nat} {f g : Nat → BitVec w}

/-- `f 0 ^^^ f 1 ^^^ …` of `n` words -/
def xorSum (f : Nat → BitVec w) : Nat → BitVec w
  | 0 => 0
  | n + 1 => xorSum f n ^^^ f n

theorem xorSum_congr (h : ∀ i < n, g i = f i) : xorSum g n = xorSum f n := by
  induction n with
  | zero => rfl
  | succ n ih => rw [xorSum, xorSum, ih fun i hi => h i (by omega), h n (by omega)]

theorem xorSum_zero (h : ∀ i < n, f i = 0) : xorSum f n = 0 := by
  induction n with
  | zero => rfl
  | succ n ih =>
      rw [xorSum, ih fun i hi => h i (by omega), h n (by omega), BitVec.xor_self]
      rfl

theorem xor_cancel_right (a b : BitVec w) : a ^^^ b ^^^ b = a := by
  rw [BitVec.xor_assoc, BitVec.xor_self, BitVec.xor_zero]

theorem xor_cancel_left (a b : BitVec w) : a ^^^ (a ^^^ b) = b := by
  rw [← BitVec.xor_assoc, BitVec.xor_self, BitVec.zero_xor]

theorem xor_right_comm (a b c : BitVec w) : a ^^^ b ^^^ c = a ^^^ c ^^^ b := by
  rw [BitVec.xor_assoc, BitVec.xor_comm b c, BitVec.xor_assoc]

/-- One word is taken out and another one put in. -/
theorem xorSum_replace (hj : j < n) (h : ∀ i < n, i ≠ j → g i = f i) : xorSum g n = xorSum f n ^^^ f j ^^^ g j := by
  induction n with
  | zero => omega
  | succ n ih =>
      rw [xorSum, xorSum]
      rcases Nat.lt_or_ge j n with hlt | hge
      · rw [ih hlt fun i hi => h i (by omega), h n (by omega) (by omega), xor_right_comm _ (g j) (f n),
          xor_right_comm _ (f j) (f n)]
      · obtain rfl : j = n := by omega
        rw [xorSum_congr fun i hi => h i (by omega) (by omega), xor_cancel_right]

end Uboot.Lib
