import Uboot.Vsprintf.Strtoull

/-!
# Decimal digits without a division

`put_dec` of `lib/vsprintf.c`, least significant digit first. Up to 99999 the digits come from the nibbles of the number, and
a multiplication and a shift stand for the division by ten.
-/

namespace Uboot.Vsprintf

/-! ## The code -/

/-- `d1`, `d2` and `d3` at the start. -/
def nibble1 (q : UInt32) : UInt32 := (q >>> 4) &&& 0xf

def nibble2 (q : UInt32) : UInt32 := (q >>> 8) &&& 0xf

def nibble3 (q : UInt32) : UInt32 := q >>> 12

/-- `d0` before its division by ten, and the quotient; both copies compute the same. -/
def sum0 (q : UInt32) : UInt32 := 6 * (nibble3 q + nibble2 q + nibble1 q) + (q &&& 0xf)

def quot0 (q : UInt32) : UInt32 := (sum0 q * 0xcd) >>> 11

/-- The same of `d1` -/
def sum1 (q : UInt32) : UInt32 := quot0 q + 9 * nibble3 q + 5 * nibble2 q + nibble1 q

def quot1 (q : UInt32) : UInt32 := (sum1 q * 0xcd) >>> 11

/-- The same of `d2` -/
def sum2 (q : UInt32) : UInt32 := quot1 q + 2 * nibble2 q

def quot2 (q : UInt32) : UInt32 := (sum2 q * 0xd) >>> 7

/-- The same of `d3` -/
def sum3 (q : UInt32) : UInt32 := quot2 q + 4 * nibble3 q

def quot3 (q : UInt32) : UInt32 := (sum3 q * 0xcd) >>> 11

/-- `d + '0'` -/
def decChar (d : UInt32) : UInt8 := (d + 48).toUInt8

/-- `put_dec_trunc` -/
def putDecTrunc (q : UInt32) : List UInt8 :=
  decChar (sum0 q - 10 * quot0 q) ::
    if sum1 q ≠ 0 then
      decChar (sum1 q - 10 * quot1 q) ::
        if sum2 q ≠ 0 ∨ nibble3 q ≠ 0 then
          decChar (sum2 q - 10 * quot2 q) ::
            if sum3 q ≠ 0 then decChar (sum3 q - 10 * quot3 q) :: if quot3 q ≠ 0 then [decChar (quot3 q)] else []
            else []
        else []
    else []

/-- `put_dec_full` -/
def putDecFull (q : UInt32) : List UInt8 :=
  [decChar (sum0 q - 10 * quot0 q), decChar (sum1 q - 10 * quot1 q), decChar (sum2 q - 10 * quot2 q),
    decChar (sum3 q - 10 * quot3 q), decChar (quot3 q)]

/-- `put_dec` -/
def putDec (num : UInt64) : List UInt8 :=
  if num < 100000 then putDecTrunc num.toUInt32
  else putDecFull (num % 100000).toUInt32 ++ putDec (num / 100000)
termination_by num.toNat
decreasing_by
  rename_i h
  have hge : 100000 ≤ num.toNat := UInt64.le_iff_toNat_le.mp (UInt64.not_lt.mp h)
  rw [UInt64.toNat_div]
  exact Nat.div_lt_self (by omega) (by decide)

/-! ## Division by ten -/

section
variable {d q : UInt32}

theorem mul_cd (h : d.toNat ≤ 1000) : ((d * 0xcd) >>> 11).toNat = d.toNat / 10 := by
  rw [UInt32.toNat_shiftRight, UInt32.toNat_mul, Nat.shiftRight_eq_div_pow]
  change d.toNat * 205 % 2 ^ 32 / 2 ^ 11 = d.toNat / 10
  rw [Nat.mod_eq_of_lt (by omega)]
  omega

theorem mul_d (h : d.toNat ≤ 65) : ((d * 0xd) >>> 7).toNat = d.toNat / 10 := by
  rw [UInt32.toNat_shiftRight, UInt32.toNat_mul, Nat.shiftRight_eq_div_pow]
  change d.toNat * 13 % 2 ^ 32 / 2 ^ 7 = d.toNat / 10
  rw [Nat.mod_eq_of_lt (by omega)]
  omega

/-- The last digit of a number -/
def lastDigit (n : Nat) : UInt8 := UInt8.ofNat (n % 10).digitChar.toNat

theorem lastDigit_congr {m n : Nat} (h : m % 10 = n % 10) : lastDigit m = lastDigit n := by rw [lastDigit, lastDigit, h]

theorem decChar_eq (h : d.toNat < 10) : decChar d = lastDigit d.toNat := by
  have hall : ∀ n < 10, (UInt32.ofNat n + 48).toUInt8 = lastDigit n := by decide
  have hd := hall d.toNat h
  rwa [UInt32.ofNat_toNat] at hd

/-- The digit that is left when the tens are taken off. -/
theorem decChar_sub (hq : q.toNat = d.toNat / 10) : decChar (d - 10 * q) = lastDigit d.toNat := by
  have hd := d.toNat_lt
  have hmul : (10 * q).toNat = 10 * (d.toNat / 10) := by
    rw [UInt32.toNat_mul, hq]
    exact Nat.mod_eq_of_lt (by change 10 * _ < _; omega)
  have hsub : (d - 10 * q).toNat = d.toNat % 10 := by
    rw [UInt32.toNat_sub_of_le _ _ (UInt32.le_iff_toNat_le.mpr (by omega)), hmul]
    omega
  rw [decChar_eq (by omega), hsub]
  exact lastDigit_congr (Nat.mod_mod _ _)

/-! ## The sums -/

theorem nibble1_toNat (q : UInt32) : (nibble1 q).toNat = q.toNat / 16 % 16 := by
  rw [nibble1, UInt32.toNat_and, UInt32.toNat_shiftRight, Nat.shiftRight_eq_div_pow]
  exact Nat.and_two_pow_sub_one_eq_mod _ 4

theorem nibble2_toNat (q : UInt32) : (nibble2 q).toNat = q.toNat / 256 % 16 := by
  rw [nibble2, UInt32.toNat_and, UInt32.toNat_shiftRight, Nat.shiftRight_eq_div_pow]
  exact Nat.and_two_pow_sub_one_eq_mod _ 4

theorem nibble3_toNat (q : UInt32) : (nibble3 q).toNat = q.toNat / 4096 := by
  rw [nibble3, UInt32.toNat_shiftRight, Nat.shiftRight_eq_div_pow]
  rfl

theorem nibble0_toNat (q : UInt32) : (q &&& 0xf).toNat = q.toNat % 16 := by
  rw [UInt32.toNat_and]
  exact Nat.and_two_pow_sub_one_eq_mod _ 4

section
variable (hq : q.toNat < 100000)
include hq

theorem sum0_toNat : (sum0 q).toNat = 6 * (q.toNat / 4096 + q.toNat / 256 % 16 + q.toNat / 16 % 16) + q.toNat % 16 := by
  simp only [sum0, UInt32.toNat_add, UInt32.toNat_mul, nibble0_toNat, nibble1_toNat, nibble2_toNat, nibble3_toNat]
  change (6 * _ % 2 ^ 32 + _) % 2 ^ 32 = _
  omega

theorem quot0_toNat : (quot0 q).toNat = (sum0 q).toNat / 10 := mul_cd (by rw [sum0_toNat hq]; omega)

theorem sum1_toNat : (sum1 q).toNat =
    (sum0 q).toNat / 10 + 9 * (q.toNat / 4096) + 5 * (q.toNat / 256 % 16) + q.toNat / 16 % 16 := by
  have h0 := sum0_toNat hq
  simp only [sum1, UInt32.toNat_add, UInt32.toNat_mul, nibble1_toNat, nibble2_toNat, nibble3_toNat, quot0_toNat hq]
  change (((_ + 9 * _ % 2 ^ 32) % 2 ^ 32 + 5 * _ % 2 ^ 32) % 2 ^ 32 + _) % 2 ^ 32 = _
  omega

theorem quot1_toNat : (quot1 q).toNat = (sum1 q).toNat / 10 :=
  mul_cd (by rw [sum1_toNat hq, sum0_toNat hq]; omega)

theorem sum2_toNat : (sum2 q).toNat = (sum1 q).toNat / 10 + 2 * (q.toNat / 256 % 16) := by
  have h0 := sum0_toNat hq
  have h1 := sum1_toNat hq
  simp only [sum2, UInt32.toNat_add, UInt32.toNat_mul, nibble2_toNat, quot1_toNat hq]
  change (_ + 2 * _ % 2 ^ 32) % 2 ^ 32 = _
  omega

theorem quot2_toNat : (quot2 q).toNat = (sum2 q).toNat / 10 :=
  mul_d (by rw [sum2_toNat hq, sum1_toNat hq, sum0_toNat hq]; omega)

theorem sum3_toNat : (sum3 q).toNat = (sum2 q).toNat / 10 + 4 * (q.toNat / 4096) := by
  have h0 := sum0_toNat hq
  have h1 := sum1_toNat hq
  have h2 := sum2_toNat hq
  simp only [sum3, UInt32.toNat_add, UInt32.toNat_mul, nibble3_toNat, quot2_toNat hq]
  change (_ + 4 * _ % 2 ^ 32) % 2 ^ 32 = _
  omega

theorem quot3_toNat : (quot3 q).toNat = (sum3 q).toNat / 10 :=
  mul_cd (by rw [sum3_toNat hq, sum2_toNat hq, sum1_toNat hq, sum0_toNat hq]; omega)

theorem units_eq : q.toNat =
    10 * (409 * (q.toNat / 4096) + 25 * (q.toNat / 256 % 16) + q.toNat / 16 % 16) + (sum0 q).toNat := by
  rw [sum0_toNat hq]
  omega

theorem tens_eq : q.toNat / 10 = (sum1 q).toNat + 400 * (q.toNat / 4096) + 20 * (q.toNat / 256 % 16) := by
  have hdiv := congrArg (· / 10) (units_eq hq)
  rw [Nat.mul_add_div (by decide)] at hdiv
  rw [hdiv, sum1_toNat hq]
  omega

theorem hundreds_eq : q.toNat / 10 / 10 = (sum2 q).toNat + 40 * (q.toNat / 4096) := by
  have ht := tens_eq hq
  have h2 := sum2_toNat hq
  omega

theorem thousands_eq : q.toNat / 10 / 10 / 10 = (sum3 q).toNat := by
  have hh := hundreds_eq hq
  have h3 := sum3_toNat hq
  omega

/-! ## The digits of one chunk -/

theorem decChar_sum0 : decChar (sum0 q - 10 * quot0 q) = lastDigit q.toNat := by
  have hmod := congrArg (· % 10) (units_eq hq)
  rw [Nat.mul_add_mod] at hmod
  rw [decChar_sub (quot0_toNat hq)]
  exact lastDigit_congr hmod.symm

theorem decChar_sum1 : decChar (sum1 q - 10 * quot1 q) = lastDigit (q.toNat / 10) := by
  have ht := tens_eq hq
  rw [decChar_sub (quot1_toNat hq)]
  exact lastDigit_congr (by omega)

theorem decChar_sum2 : decChar (sum2 q - 10 * quot2 q) = lastDigit (q.toNat / 10 / 10) := by
  have hh := hundreds_eq hq
  rw [decChar_sub (quot2_toNat hq)]
  exact lastDigit_congr (by omega)

theorem decChar_sum3 : decChar (sum3 q - 10 * quot3 q) = lastDigit (q.toNat / 10 / 10 / 10) := by
  rw [decChar_sub (quot3_toNat hq), thousands_eq hq]

theorem decChar_last : decChar (quot3 q) = lastDigit (q.toNat / 10 / 10 / 10 / 10) := by
  have hlast := quot3_toNat hq
  rw [← thousands_eq hq] at hlast
  rw [decChar_eq (by omega), hlast]

/-- The five digits of `put_dec_full` -/
theorem putDecFull_eq : putDecFull q = [lastDigit q.toNat, lastDigit (q.toNat / 10), lastDigit (q.toNat / 10 / 10),
    lastDigit (q.toNat / 10 / 10 / 10), lastDigit (q.toNat / 10 / 10 / 10 / 10)] := by
  rw [← decChar_sum0 hq, ← decChar_sum1 hq, ← decChar_sum2 hq, ← decChar_sum3 hq, ← decChar_last hq]
  rfl

end

theorem ne_zero_iff : d ≠ 0 ↔ d.toNat ≠ 0 := not_congr UInt32.toNat_inj.symm

theorem numeral_reverse (n : Nat) :
    (numeral 10 n).reverse = lastDigit n :: if n / 10 ≠ 0 then (numeral 10 (n / 10)).reverse else [] := by
  rw [numeral_eq (by decide)]
  by_cases hlt : n < 10
  · rw [if_pos hlt, if_neg (by omega), lastDigit, Nat.mod_eq_of_lt hlt]
    rfl
  · rw [if_neg hlt, if_pos (by omega), List.reverse_append]
    rfl

/-- `put_dec_trunc` leaves out the zeros in front. -/
theorem putDecTrunc_eq (hq : q.toNat < 100000) : putDecTrunc q = (numeral 10 q.toNat).reverse := by
  have ht := tens_eq hq
  have h1 := sum1_toNat hq
  have hh := hundreds_eq hq
  have hth := thousands_eq hq
  have hc1 : sum1 q ≠ 0 ↔ q.toNat / 10 ≠ 0 := by
    rw [ne_zero_iff]
    omega
  have hc2 : (sum2 q ≠ 0 ∨ nibble3 q ≠ 0) ↔ q.toNat / 10 / 10 ≠ 0 := by
    rw [ne_zero_iff, ne_zero_iff, nibble3_toNat]
    omega
  have hc3 : sum3 q ≠ 0 ↔ q.toNat / 10 / 10 / 10 ≠ 0 := by rw [ne_zero_iff, hth]
  have hc4 : quot3 q ≠ 0 ↔ q.toNat / 10 / 10 / 10 / 10 ≠ 0 := by
    rw [ne_zero_iff, quot3_toNat hq, hth]
  have hlast : q.toNat / 10 / 10 / 10 / 10 / 10 = 0 := by omega
  rw [numeral_reverse, numeral_reverse (_ / 10), numeral_reverse (_ / 10 / 10), numeral_reverse (_ / 10 / 10 / 10),
    numeral_reverse (_ / 10 / 10 / 10 / 10), hlast, ← decChar_sum0 hq, ← decChar_sum1 hq, ← decChar_sum2 hq,
    ← decChar_sum3 hq, ← decChar_last hq]
  simp only [putDecTrunc, hc1, hc2, hc3, hc4]
  rfl

end

/-! ## The loop over the chunks -/

theorem numeral_chunk {n : Nat} (h : 100000 ≤ n) : (numeral 10 n).reverse =
    [lastDigit n, lastDigit (n / 10), lastDigit (n / 10 / 10), lastDigit (n / 10 / 10 / 10),
      lastDigit (n / 10 / 10 / 10 / 10)] ++ (numeral 10 (n / 100000)).reverse := by
  have hrest : n / 10 / 10 / 10 / 10 / 10 = n / 100000 := by omega
  rw [numeral_reverse, if_pos (by omega), numeral_reverse, if_pos (by omega), numeral_reverse, if_pos (by omega),
    numeral_reverse, if_pos (by omega), numeral_reverse, if_pos (by omega), hrest]
  rfl

theorem toUInt32_toNat {num : UInt64} (h : num.toNat < 100000) : num.toUInt32.toNat = num.toNat := by
  rw [UInt64.toNat_toUInt32]
  omega

theorem putDec_eq (num : UInt64) : putDec num = (numeral 10 num.toNat).reverse := by
  induction num using putDec.induct with
  | case1 num h =>
      have hlt : num.toNat < 100000 := UInt64.lt_iff_toNat_lt.mp h
      have hnum := toUInt32_toNat hlt
      rw [putDec, if_pos h, putDecTrunc_eq (by omega), hnum]
  | case2 num h ih =>
      have hge : 100000 ≤ num.toNat := UInt64.le_iff_toNat_le.mp (UInt64.not_lt.mp h)
      have hmod : (num % 100000).toNat = num.toNat % 100000 := UInt64.toNat_mod ..
      have hrem := @toUInt32_toNat (num % 100000) (by omega)
      have hdiv : (num / 100000).toNat = num.toNat / 100000 := UInt64.toNat_div ..
      rw [putDec, if_neg h, ih, putDecFull_eq (by omega), hrem, hmod, hdiv, numeral_chunk hge]
      refine congrArg (· ++ _) ?_
      simp only [List.cons.injEq, and_true]
      exact ⟨lastDigit_congr (by omega), lastDigit_congr (by omega), lastDigit_congr (by omega), lastDigit_congr (by omega),
        lastDigit_congr (by omega)⟩

/-- The decimal digits of a number, and the number is read back from them. -/
theorem putDec_simpleStrtoull (num : UInt64) (rest : List UInt8) : putDec num = (numeral 10 num.toNat).reverse ∧
    simpleStrtoull ((putDec num).reverse ++ 0 :: rest) 10 = (num.toNat, 0 :: rest) := by
  refine ⟨putDec_eq num, ?_⟩
  have hread : readNumber (numeral 10 num.toNat ++ 0 :: rest) 10 = (num.toNat, 0 :: rest) :=
    readNumber_decimal num.toNat (show some 0 ≠ some 120 by decide)
  rw [putDec_eq, List.reverse_reverse, simpleStrtoull_eq, hread, Nat.mod_eq_of_lt num.toNat_lt]

end Uboot.Vsprintf
