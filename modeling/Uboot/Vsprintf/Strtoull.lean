import Uboot.Vsprintf.Basic

/-!
# 64-bit numbers

`simple_strtoull`, and the number that a text stands for before it is cut to a word.
-/

namespace Uboot.Vsprintf

/-! ## Texts and numbers -/

/-- The digits in front of a text, read behind `result`. -/
def readDigits (base : Nat) : List UInt8 → Nat → Nat × List UInt8
  | [], result => (result, [])
  | c :: cp, result =>
      if isxdigit c ∧ digitValue c < base then readDigits base cp (result * base + digitValue c) else (result, c :: cp)

/-- The number in front of a text. A number with `0x` is in base 16. -/
def readNumber (cp : List UInt8) (base : Nat) : Nat × List UInt8 :=
  match cp with
  | 48 :: cp =>
      if cp.getD 0 0 = 120 ∧ isxdigit (cp.getD 1 0) then readDigits 16 (cp.drop 1) 0
      else readDigits (if base = 0 then 8 else base) cp 0
  | cp => readDigits (if base = 0 then 10 else base) cp 0

/-! ## `simple_strtoull` -/

/-- The loop of `simple_strtoull` -/
def strtoullLoop (base : Nat) : List UInt8 → Nat → Nat × List UInt8
  | [], result => (result, [])
  | c :: cp, result =>
      if isxdigit c ∧ digitValue c < base then strtoullLoop base cp ((result * base + digitValue c) % 2 ^ 64)
      else (result, c :: cp)

/-- `simple_strtoull` -/
def simpleStrtoull (cp : List UInt8) (base : Nat) : Nat × List UInt8 :=
  match cp with
  | 48 :: cp =>
      if cp.getD 0 0 = 120 ∧ isxdigit (cp.getD 1 0) then strtoullLoop 16 (cp.drop 1) 0
      else strtoullLoop (if base = 0 then 8 else base) cp 0
  | cp => strtoullLoop (if base = 0 then 10 else base) cp 0

section
variable {base n d : Nat}

theorem mul_add_mod (m r v : Nat) : (r % m * base + v) % m = (r * base + v) % m := by
  rw [Nat.add_mod, Nat.mod_mul_mod, ← Nat.add_mod]

theorem strtoullLoop_eq (base : Nat) (cp : List UInt8) : ∀ r,
    strtoullLoop base cp (r % 2 ^ 64) = ((readDigits base cp r).1 % 2 ^ 64, (readDigits base cp r).2) := by
  induction cp with
  | nil =>
      intro r
      rfl
  | cons c cp ih =>
      intro r
      rw [strtoullLoop, readDigits]
      split
      · rw [mul_add_mod, ih]
      · rfl

theorem strtoulLoop_eq (base : Nat) (cp : List UInt8) : ∀ r,
    strtoulLoop base cp (r % 2 ^ 32) = ((readDigits base cp r).1 % 2 ^ 32, (readDigits base cp r).2) := by
  induction cp with
  | nil =>
      intro r
      rfl
  | cons c cp ih =>
      intro r
      rw [strtoulLoop, readDigits]
      split
      · rw [mul_add_mod, ih]
      · rfl

/-- The number is right modulo the word, and all of it is read. -/
theorem simpleStrtoull_eq (cp : List UInt8) (base : Nat) :
    simpleStrtoull cp base = ((readNumber cp base).1 % 2 ^ 64, (readNumber cp base).2) := by
  unfold simpleStrtoull
  split
  · rw [readNumber]
    split
    · exact strtoullLoop_eq _ _ 0
    · exact strtoullLoop_eq _ _ 0
  next hne =>
    rw [readNumber]
    · exact strtoullLoop_eq _ _ 0
    · exact hne

theorem simpleStrtoul_eq (cp : List UInt8) (base : Nat) :
    simpleStrtoul cp base = ((readNumber cp base).1 % 2 ^ 32, (readNumber cp base).2) := by
  unfold simpleStrtoul
  split
  · rw [readNumber]
    split
    · exact strtoulLoop_eq _ _ 0
    · exact strtoulLoop_eq _ _ 0
  next hne =>
    rw [readNumber]
    · exact strtoulLoop_eq _ _ 0
    · exact hne

/-! ## Reading what was printed -/

theorem readDigits_digit (hd : d < base) (hbase : base ≤ 16) (cp : List UInt8) (r : Nat) :
    readDigits base (UInt8.ofNat d.digitChar.toNat :: cp) r = readDigits base cp (r * base + d) := by
  have hd16 := hd.trans_le hbase
  rw [readDigits, isxdigit_digit hd16, digitValue_digit hd16, if_pos ⟨rfl, hd⟩]

theorem readDigits_numeral (hbase : 1 < base) (hbase' : base ≤ 16) (n : Nat) (rest : List UInt8) :
    readDigits base (numeral base n ++ rest) 0 = readDigits base rest n := by
  induction n using Nat.strong_induction_on generalizing rest with
  | _ n ih =>
      rw [numeral_eq hbase]
      split
      next hlt => rw [List.singleton_append, readDigits_digit hlt hbase', Nat.zero_mul, Nat.zero_add]
      next hge =>
        have hdiv : n / base < n := Nat.div_lt_self (by omega) hbase
        rw [List.append_assoc, ih _ hdiv, List.singleton_append, readDigits_digit (Nat.mod_lt _ (by omega)) hbase',
          Nat.mul_comm, Nat.div_add_mod]

/-- A number in base 10 is read back from its digits, whether it starts with 0 or not. -/
theorem readNumber_decimal (n : Nat) {rest : List UInt8} (hrest : rest.head? ≠ some 120) :
    readNumber (numeral 10 n ++ rest) 10 = readDigits 10 rest n := by
  rw [← readDigits_numeral (by decide) (by decide)]
  rcases Nat.eq_zero_or_pos n with rfl | hn
  · have hx : ¬ (rest.getD 0 0 = 120 ∧ isxdigit (rest.getD 1 0) = true) := by
      intro h
      cases rest with
      | nil => exact absurd h.1 (by decide)
      | cons c rest => exact hrest (congrArg some h.1)
    exact if_neg hx
  · obtain ⟨d, ds, hpos, hlt, hds⟩ := numeral_head (show 1 < 10 by decide) (by decide) hn
    rw [hds, List.cons_append]
    unfold readNumber
    split
    next heq => exact absurd (List.cons.inj heq).1 (digit_ne_zero hpos (by omega))
    next => rfl

end

end Uboot.Vsprintf
