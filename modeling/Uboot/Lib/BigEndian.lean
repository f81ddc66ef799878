import Mathlib.Tactic

/-!
# Numbers with their most significant byte first
-/

namespace Uboot.Lib.BigEndian

def value (bytes : List UInt8) : Nat := bytes.foldl (fun n b => n * 256 + b.toNat) 0

/-- The bytes of a number, cut off at a width -/
def encode : Nat → Nat → List UInt8
  | 0, _ => []
  | width + 1, n => UInt8.ofNat (n / 256 ^ width) :: encode width n

variable {n width : Nat}

theorem encode_length (width n : Nat) : (encode width n).length = width := by
  induction width with
  | zero => rfl
  | succ width ih => rw [encode, List.length_cons, ih]

theorem foldl_encode (start : Nat) :
    (encode width n).foldl (fun n b => n * 256 + b.toNat) start = start * 256 ^ width + n % 256 ^ width := by
  induction width generalizing start with
  | zero => rw [encode, List.foldl_nil, pow_zero, Nat.mul_one, Nat.mod_one, Nat.add_zero]
  | succ width ih =>
      have hbyte : (UInt8.ofNat (n / 256 ^ width)).toNat = n / 256 ^ width % 256 := by simp
      have hsplit := Nat.mod_mul (x := n) (a := 256 ^ width) (b := 256)
      rw [encode, List.foldl_cons, ih, hbyte, pow_succ, hsplit, Nat.add_mul]
      ring

/-- Only what is cut off is lost. -/
theorem value_encode (width n : Nat) : value (encode width n) = n % 256 ^ width := by
  rw [value, foldl_encode, Nat.zero_mul, Nat.zero_add]

theorem value_encode_of_lt (h : n < 256 ^ width) : value (encode width n) = n := by
  rw [value_encode, Nat.mod_eq_of_lt h]

/-- Only the low digits matter. -/
theorem encode_congr {m : Nat} (h : n % 256 ^ width = m % 256 ^ width) : encode width n = encode width m := by
  induction width with
  | zero => rfl
  | succ width ih =>
      have hdiv : n / 256 ^ width % 256 = m / 256 ^ width % 256 := by
        rw [← Nat.mod_mul_right_div_self, ← Nat.mod_mul_right_div_self, ← pow_succ, h]
      have hmod : n % 256 ^ width = m % 256 ^ width := by
        rw [← Nat.mod_mod_of_dvd n (pow_dvd_pow 256 (Nat.le_succ width)), h, Nat.mod_mod_of_dvd _ (pow_dvd_pow 256 (Nat.le_succ width))]
      rw [encode, encode, ih hmod]
      congr 1
      rw [← UInt8.toNat_inj, UInt8.toNat_ofNat', UInt8.toNat_ofNat']
      exact hdiv

theorem encode_add (v width n : Nat) : encode (v + width) n = encode v (n / 256 ^ width) ++ encode width n := by
  induction v with
  | zero => rw [Nat.zero_add, encode, List.nil_append]
  | succ v ih => rw [Nat.succ_add, encode, ih, encode, Nat.div_div_eq_div_mul, ← pow_add, Nat.add_comm width v, List.cons_append]

end Uboot.Lib.BigEndian
