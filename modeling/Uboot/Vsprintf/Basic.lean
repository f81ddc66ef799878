import Mathlib.Tactic

/-!
# Printing and reading numbers

`simple_strtoul` and the numbers of `sprintf`, after `lib/vsprintf.c`. An `unsigned long` has 32 bits.
-/

namespace Uboot.Vsprintf

/-- `%u` for base 10 and `%x` for base 16 -/
def numeral (base n : Nat) : List UInt8 := (Nat.toDigits base n).map fun c => UInt8.ofNat c.toNat

/-- `%08x` -/
def hex8 (n : Nat) : List UInt8 := List.replicate (8 - (numeral 16 n).length) 48 ++ numeral 16 n

/-- The bytes that `snprintf` writes with `CONFIG_SYS_VSNPRINTF`. A negative size is a large `size_t`, and then nothing is
cut; the result is the length of the whole text. -/
def snprintf (size : Int) (text : List UInt8) : List UInt8 :=
  if size < 0 then text ++ [0]
  else if size = 0 then []
  else text.take (size.toNat - 1) ++ [0]

def isdigit (c : UInt8) : Bool := 48 ≤ c ∧ c ≤ 57

def isxdigit (c : UInt8) : Bool := isdigit c ∨ (65 ≤ c ∧ c ≤ 70) ∨ (97 ≤ c ∧ c ≤ 102)

def digitValue (c : UInt8) : Nat :=
  if isdigit c then c.toNat - 48 else if 97 ≤ c then c.toNat - 97 + 10 else c.toNat - 65 + 10

/-- The loop of `simple_strtoul`. The result has the text at `endp`. -/
def strtoulLoop (base : Nat) : List UInt8 → Nat → Nat × List UInt8
  | [], result => (result, [])
  | c :: cp, result =>
      if isxdigit c ∧ digitValue c < base then strtoulLoop base cp ((result * base + digitValue c) % 2 ^ 32)
      else (result, c :: cp)

/-- `simple_strtoul` -/
def simpleStrtoul (cp : List UInt8) (base : Nat) : Nat × List UInt8 :=
  match cp with
  | 48 :: cp =>
      if cp.getD 0 0 = 120 ∧ isxdigit (cp.getD 1 0) then strtoulLoop 16 (cp.drop 1) 0
      else strtoulLoop (if base = 0 then 8 else base) cp 0
  | cp => strtoulLoop (if base = 0 then 10 else base) cp 0

/-! ## Reading what was printed -/

section
variable {base n d : Nat}

theorem numeral_eq (hbase : 1 < base) : numeral base n =
    if n < base then [UInt8.ofNat n.digitChar.toNat]
    else numeral base (n / base) ++ [UInt8.ofNat (n % base).digitChar.toNat] := by
  rw [numeral, Nat.toDigits_eq_if hbase]
  split
  next => rfl
  next => rw [List.map_append]; rfl

theorem isxdigit_digit (h : d < 16) : isxdigit (UInt8.ofNat d.digitChar.toNat) = true := by
  have hall : ∀ e < 16, isxdigit (UInt8.ofNat e.digitChar.toNat) = true := by decide
  exact hall d h

theorem digitValue_digit (h : d < 16) : digitValue (UInt8.ofNat d.digitChar.toNat) = d := by
  have hall : ∀ e < 16, digitValue (UInt8.ofNat e.digitChar.toNat) = e := by decide
  exact hall d h

theorem strtoulLoop_digit (hd : d < base) (hbase : base ≤ 16) (cp : List UInt8) (r : Nat) :
    strtoulLoop base (UInt8.ofNat d.digitChar.toNat :: cp) r = strtoulLoop base cp ((r * base + d) % 2 ^ 32) := by
  have hd16 := hd.trans_le hbase
  rw [strtoulLoop, isxdigit_digit hd16, digitValue_digit hd16, if_pos ⟨rfl, hd⟩]

theorem strtoulLoop_numeral (hbase : 1 < base) (hbase' : base ≤ 16) (n : Nat) (rest : List UInt8) :
    strtoulLoop base (numeral base n ++ rest) 0 = strtoulLoop base rest (n % 2 ^ 32) := by
  induction n using Nat.strong_induction_on generalizing rest with
  | _ n ih =>
      rw [numeral_eq hbase]
      split
      next hlt => rw [List.singleton_append, strtoulLoop_digit hlt hbase', Nat.zero_mul, Nat.zero_add]
      next hge =>
        have hdiv : n / base < n := Nat.div_lt_self (by omega) hbase
        rw [List.append_assoc, ih _ hdiv, List.singleton_append, strtoulLoop_digit (Nat.mod_lt _ (by omega)) hbase']
        congr 1
        rw [Nat.add_mod, Nat.mod_mul_mod, ← Nat.add_mod, Nat.mul_comm, Nat.div_add_mod]

theorem isxdigit_of_mem_numeral {c : UInt8} (h : c ∈ numeral 16 n) : isxdigit c = true := by
  induction n using Nat.strong_induction_on with
  | _ n ih =>
      rw [numeral_eq (by decide)] at h
      split at h
      next hlt =>
        rw [List.mem_singleton.mp h]
        exact isxdigit_digit hlt
      next hge =>
        rcases List.mem_append.mp h with h | h
        · exact ih _ (Nat.div_lt_self (by omega) (by decide)) h
        · rw [List.mem_singleton.mp h]
          exact isxdigit_digit (Nat.mod_lt _ (by decide))

theorem numeral_ne_nil : numeral base n ≠ [] := by
  rw [numeral, Ne, List.map_eq_nil_iff]
  exact Nat.toDigits_ne_nil

theorem numeral_head (hbase : 1 < base) (hbase' : base ≤ 16) (hn : 0 < n) :
    ∃ d ds, 0 < d ∧ d < base ∧ numeral base n = UInt8.ofNat (Nat.digitChar d).toNat :: ds := by
  induction n using Nat.strong_induction_on with
  | _ n ih =>
      rw [numeral_eq hbase]
      split
      next hlt => exact ⟨n, [], hn, hlt, rfl⟩
      next hge =>
        obtain ⟨d, ds, hpos, hlt, hds⟩ := ih (n / base) (Nat.div_lt_self hn hbase)
          (Nat.div_pos (Nat.le_of_not_lt hge) (by omega))
        exact ⟨d, ds ++ [UInt8.ofNat (n % base).digitChar.toNat], hpos, hlt, by rw [hds]; rfl⟩

theorem digit_ne_zero (hpos : 0 < d) (h : d < 16) : UInt8.ofNat d.digitChar.toNat ≠ 48 := by
  have hall : ∀ e < 16, 0 < e → UInt8.ofNat e.digitChar.toNat ≠ 48 := by decide
  exact hall d h hpos

/-- A number in `%u` is read back. -/
theorem simpleStrtoul_decimal (hn : 0 < n) (rest : List UInt8) :
    simpleStrtoul (numeral 10 n ++ rest) 0 = strtoulLoop 10 rest (n % 2 ^ 32) := by
  obtain ⟨d, ds, hpos, hlt, hds⟩ := numeral_head (show 1 < 10 by decide) (by decide) hn
  rw [← strtoulLoop_numeral (by decide) (by decide), hds, List.cons_append]
  unfold simpleStrtoul
  split
  next heq => exact absurd (List.cons.inj heq).1 (digit_ne_zero hpos (by omega))
  next => rfl

/-- A number in `0x%x` is read back. -/
theorem simpleStrtoul_hex (n : Nat) (rest : List UInt8) :
    simpleStrtoul (48 :: 120 :: numeral 16 n ++ rest) base = strtoulLoop 16 rest (n % 2 ^ 32) := by
  rw [← strtoulLoop_numeral (by decide) (by decide)]
  have hhead : isxdigit ((numeral 16 n ++ rest).getD 0 0) = true := by
    rcases Nat.eq_zero_or_pos n with rfl | hn
    · rfl
    obtain ⟨d, ds, hpos, hlt, hds⟩ := numeral_head (show 1 < 16 by decide) le_rfl hn
    rw [hds]
    exact isxdigit_digit hlt
  exact if_pos ⟨rfl, hhead⟩

end

end Uboot.Vsprintf
