import Uboot.Lib.Bytes
import Mathlib.Data.Nat.ModEq

/-!
# One's complement sums

The Internet checksum. A sum of halfwords is folded twice into 16 bits, which keeps it modulo `65535`; a message verifies
when its sum folds to `0xffff`.
-/

namespace Uboot.Lib

def fold16 (s : Nat) : Nat := s % 65536 + s / 65536

theorem fold16_modEq (s : Nat) : fold16 s ≡ s [MOD 65535] := by
  have hdecomp : s = fold16 s + 65535 * (s / 65536) := by
    rw [fold16]
    omega
  conv_rhs => rw [hdecomp]
  exact (Nat.ModEq.refl _).trans (by simp [Nat.ModEq])

/-- Two folds are enough for sums of 32 bits. -/
theorem fold16_twice_le {s : Nat} (h : s < 2 ^ 32) : fold16 (fold16 s) ≤ 65535 := by
  simp only [fold16]
  omega

theorem fold16_pos {s : Nat} (h : 0 < s) : 0 < fold16 s := by
  rw [fold16]
  omega

theorem fold16_twice_eq_iff {s : Nat} (h : s < 2 ^ 32) : fold16 (fold16 s) = 65535 ↔ 0 < s ∧ 65535 ∣ s := by
  have hmod : fold16 (fold16 s) ≡ s [MOD 65535] := (fold16_modEq _).trans (fold16_modEq s)
  have hle := fold16_twice_le h
  constructor
  · intro heq
    rw [heq] at hmod
    refine ⟨?_, (Nat.modEq_zero_iff_dvd).mp (hmod.symm.trans (by decide))⟩
    by_contra hzero
    obtain rfl : s = 0 := by omega
    cases heq
  · rintro ⟨hpos, hdvd⟩
    have hdvd' : 65535 ∣ fold16 (fold16 s) :=
      (Nat.modEq_zero_iff_dvd).mp (hmod.trans ((Nat.modEq_zero_iff_dvd).mpr hdvd))
    have hpos' := fold16_pos (fold16_pos hpos)
    exact le_antisymm hle (Nat.le_of_dvd hpos' hdvd')

theorem fold16_twice_dvd_iff (s : Nat) : 65535 ∣ fold16 (fold16 s) ↔ 65535 ∣ s := by
  have hmod : fold16 (fold16 s) ≡ s [MOD 65535] := (fold16_modEq _).trans (fold16_modEq s)
  rw [← Nat.modEq_zero_iff_dvd, ← Nat.modEq_zero_iff_dvd]
  exact ⟨hmod.symm.trans, hmod.trans⟩

/-- A test of both zeros at once. -/
theorem succ_and_eq_zero_iff {f : Nat} (h : f ≤ 65535) : (f + 1) &&& 0xfffe = 0 ↔ 65535 ∣ f := by
  have hlow : ((f + 1) &&& 0xfffe) % 2 = 0 := by
    rw [← Nat.and_one_is_mod, Nat.and_assoc]
    exact Nat.and_zero _
  have hhigh : ((f + 1) &&& 0xfffe) / 2 = (f + 1) / 2 % 2 ^ 15 := by
    rw [Nat.and_div_two]
    exact Nat.and_two_pow_sub_one_eq_mod _ 15
  constructor
  · intro hzero
    omega
  · rintro ⟨k, hk⟩
    rcases show k = 0 ∨ k = 1 by omega with rfl | rfl
    · omega
    · omega

/-- The complement of the folded sum completes it. -/
theorem fold16_complement {s : Nat} (h : s < 2 ^ 31) : 0 < s + (65535 - fold16 (fold16 s)) ∧
    65535 ∣ s + (65535 - fold16 (fold16 s)) := by
  have hmod : fold16 (fold16 s) ≡ s [MOD 65535] := (fold16_modEq _).trans (fold16_modEq s)
  have hle : fold16 (fold16 s) ≤ 65535 := fold16_twice_le (by omega)
  constructor
  · by_contra hzero
    obtain rfl : s = 0 := by omega
    simp [fold16] at hzero
  · rw [← Nat.modEq_zero_iff_dvd]
    have hsum : s + (65535 - fold16 (fold16 s)) ≡ fold16 (fold16 s) + (65535 - fold16 (fold16 s)) [MOD 65535] :=
      hmod.symm.add_right _
    rw [Nat.add_sub_cancel' hle] at hsum
    exact hsum.trans (by decide)

/-! ## Messages -/

/-- The sum of the halfwords of a message, the lower byte first; an odd byte at the end is a halfword of its own. -/
def sum16 : List UInt8 → Nat
  | [] => 0
  | [b] => b.toNat
  | lo :: hi :: rest => lo.toNat + 256 * hi.toNat + sum16 rest

def Verifies (msg : List UInt8) : Prop := fold16 (fold16 (sum16 msg)) = 0xffff

instance (msg : List UInt8) : Decidable (Verifies msg) := inferInstanceAs (Decidable (_ = _))

theorem sum16_le (msg : List UInt8) : sum16 msg ≤ 65535 * ((msg.length + 1) / 2) := by
  fun_induction sum16 msg with
  | case1 => simp
  | case2 b =>
    have := b.toNat_lt
    simp only [List.length_singleton]
    omega
  | case3 lo hi rest ih =>
    have := lo.toNat_lt
    have := hi.toNat_lt
    simp only [List.length_cons]
    omega

theorem verifies_iff {msg : List UInt8} (h : msg.length < 2 ^ 16) : Verifies msg ↔ 0 < sum16 msg ∧ 65535 ∣ sum16 msg := by
  have hle := sum16_le msg
  exact fold16_twice_eq_iff (by omega)

/-- The messages are cut at an even place. -/
theorem sum16_append {xs : List UInt8} (h : xs.length % 2 = 0) (ys : List UInt8) :
    sum16 (xs ++ ys) = sum16 xs + sum16 ys := by
  fun_induction sum16 xs with
  | case1 => simp
  | case2 b => simp at h
  | case3 lo hi rest ih =>
    simp only [List.length_cons] at h
    simp only [List.cons_append, sum16, ih (by omega)]
    omega

/-- A halfword of a message in memory is replaced. -/
theorem sum16_replace {m : Mem} {a i n v : Nat} (hv : v < 65536) (hi : i % 2 = 0) (hn : i + 2 ≤ n) :
    sum16 ((m.write (a + i) (Mem.le16 v)).read a n) + m.readLe16 (a + i) = sum16 (m.read a n) + v := by
  obtain ⟨k, rfl⟩ := Nat.exists_eq_add_of_le hn
  have hlen : (Mem.le16 v).length = 2 := rfl
  have hfront : (m.write (a + i) (Mem.le16 v)).read a i = m.read a i :=
    Mem.read_congr fun j hj => Mem.write_of_lt (by omega)
  have hback : (m.write (a + i) (Mem.le16 v)).read (a + (i + 2)) k = m.read (a + (i + 2)) k :=
    Mem.read_congr fun j hj => Mem.write_of_ge (by omega)
  have hfield : (m.write (a + i) (Mem.le16 v)).read (a + i) 2 = Mem.le16 v := Mem.holds_write
  have hold : m.read (a + i) 2 = [m (a + i), m (a + i + 1)] := rfl
  have hvalue := Mem.le16_value v hv
  have heven : (m.read a i).length % 2 = 0 := by rw [Mem.read_length, hi]
  rw [Mem.read_add, Mem.read_add, hfront, hfield, hback, Mem.read_add m a, Mem.read_add m a, hold, List.append_assoc,
    List.append_assoc, sum16_append heven, sum16_append heven]
  simp only [Mem.le16, Mem.readLe16, List.cons_append, List.nil_append, sum16]
  omega

end Uboot.Lib
