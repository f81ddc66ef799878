import Uboot.Env.HashTable
import Mathlib.Data.Nat.Prime.Basic
import Mathlib.Tactic.Linarith

/-!
# `isprime` and the table sizes

For the sizes a table can have in memory, `isprime` of an odd number above three is primality; it is
wrong for one and three. `hcreate_r` therefore makes tables of prime size at least five, or of size one.
-/

namespace Uboot.Env

/-! ## The trial divisions -/

/-- The loop stops at a divisor of `number` exactly when `number` is composite. -/
theorem isprimeLoop_spec {number : Nat} (h5 : 5 ≤ number) (hodd : number % 2 = 1) (hlt : number < 2 ^ 31) :
    ∀ (fuel div : Nat), number ≤ div + fuel → 3 ≤ div → div % 2 = 1 → (div - 2) * (div - 2) < number →
      (∀ d, 2 ≤ d → d < div → ¬ d ∣ number) →
      (number % isprimeLoop fuel number div ≠ 0 ↔ Nat.Prime number) := by
  intro fuel
  induction fuel with
  | zero =>
      intro div hf h3 _ hsq _
      have : (number - 2) * (number - 2) ≤ (div - 2) * (div - 2) := Nat.mul_le_mul (by omega) (by omega)
      have : 3 * (number - 2) ≤ (number - 2) * (number - 2) := Nat.mul_le_mul_right _ (by omega)
      omega
  | succ fuel ih =>
      intro div hf h3 hdo hsq hnd
      -- `div` is at most two above the root of `number`, so the square does not overflow
      have hd2 : div - 2 < 46341 := by
        by_contra hge
        have : 46341 * 46341 ≤ (div - 2) * (div - 2) := Nat.mul_le_mul (by omega) (by omega)
        omega
      have hmul : div * div < wordSize := by
        have : div * div ≤ 46343 * 46343 := Nat.mul_le_mul (by omega) (by omega)
        simp only [wordSize]; omega
      have hdn : div < number := by
        by_contra hge
        have : 3 * (number - 2) ≤ (div - 2) * (div - 2) := Nat.mul_le_mul (by omega) (by omega)
        omega
      have hstep : div + 2 < wordSize := by simp only [wordSize]; omega
      rw [isprimeLoop, Nat.mod_eq_of_lt hmul, Nat.mod_eq_of_lt hstep]
      split
      · next hc =>
          apply ih (div + 2) (by omega) (by omega) (by omega) (by simpa using hc.1)
          intro d hd2 hdlt hdvd
          rcases Nat.lt_or_ge d div with hlt' | hge
          · exact hnd d hd2 hlt' hdvd
          · rcases Nat.eq_or_lt_of_le hge with rfl | hgt
            · exact hc.2 (Nat.mod_eq_zero_of_dvd hdvd)
            · have heven : d % 2 = 0 := by omega
              have := Nat.mod_mod_of_dvd number (Nat.dvd_of_mod_eq_zero heven)
              rw [Nat.mod_eq_zero_of_dvd hdvd] at this
              omega
      · next hc =>
          constructor
          · intro hmod
            by_contra hnp
            have hsqle : number ≤ div * div := by
              by_contra hlt'; exact hc ⟨by omega, hmod⟩
            have hmf := Nat.minFac_sq_le_self (by omega) hnp
            have hmfle : number.minFac ≤ div := by
              by_contra hgt
              have : (div + 1) * (div + 1) ≤ number.minFac * number.minFac :=
                Nat.mul_le_mul (by omega) (by omega)
              rw [sq] at hmf
              have : (div + 1) * (div + 1) = div * div + 2 * div + 1 := by ring
              omega
            have hmf2 := (Nat.minFac_prime (n := number) (by omega)).two_le
            rcases Nat.eq_or_lt_of_le hmfle with he | hl
            · exact hmod (Nat.mod_eq_zero_of_dvd (he ▸ Nat.minFac_dvd number))
            · exact hnd _ hmf2 hl (Nat.minFac_dvd number)
          · intro hp hmod
            rcases (Nat.dvd_prime hp).mp (Nat.dvd_of_mod_eq_zero hmod) with h1 | h1 <;> omega

theorem isprime_iff {number : Nat} (h5 : 5 ≤ number) (hodd : number % 2 = 1) (hlt : number < 2 ^ 31) :
    isprime number = true ↔ Nat.Prime number := by
  have h := isprimeLoop_spec h5 hodd hlt number 3 (by omega) (by omega) (by omega) (by omega)
    (fun d h2 h3 hd => by
      have : d = 2 := by omega
      subst this; omega)
  simpa [isprime] using h

theorem not_isprime_three : isprime 3 = false := by decide

/-! ## The search for the size -/

/-- The search ends at a number that passes the test, at the latest at `1` after a wrap. -/
theorem primeLoop_spec : ∀ (fuel nel : Nat), nel % 2 = 1 → nel < wordSize →
    wordSize + 1 ≤ nel + 2 * fuel → isprime (primeLoop fuel nel) = true ∧ primeLoop fuel nel % 2 = 1 := by
  intro fuel
  induction fuel with
  | zero => intro nel _ hlt hf; simp only [wordSize] at *; omega
  | succ fuel ih =>
      intro nel hodd hlt hf
      rw [primeLoop]
      split
      · next hp => exact ⟨hp, hodd⟩
      · simp only [wordSize] at *
        rcases Nat.lt_or_ge (nel + 2) (2 ^ 32) with hl | hg
        · rw [Nat.mod_eq_of_lt hl]
          exact ih _ (by omega) hl (by omega)
        · have h1 : (nel + 2) % 2 ^ 32 = 1 := by omega
          rw [h1]
          cases fuel with
          | zero => simp only [primeLoop]; decide
          | succ fuel =>
              rw [primeLoop, if_pos (by decide)]
              decide

/-- The search does not go past a number that passes the test. -/
theorem primeLoop_le {p : Nat} (hp : isprime p = true) (hpo : p % 2 = 1) (hpl : p < wordSize) :
    ∀ (fuel nel : Nat), nel % 2 = 1 → nel ≤ p → p ≤ nel + 2 * fuel → primeLoop fuel nel ≤ p := by
  intro fuel
  induction fuel with
  | zero => intro nel _ hle _; exact hle
  | succ fuel ih =>
      intro nel hodd hle hf
      rw [primeLoop]
      split
      · exact hle
      · next hnp =>
          have hne : nel ≠ p := fun he => hnp (he ▸ hp)
          rw [Nat.mod_eq_of_lt (by omega)]
          exact ih _ (by omega) (by omega) (by omega)

private theorem lor_one_mod (nel : Nat) : (nel ||| 1) % wordSize % 2 = 1 := by
  have h : (nel ||| 1) % 2 = 1 := by
    rw [← Nat.and_one_is_mod, Nat.and_or_distrib_right, Nat.and_one_is_mod]
    have : nel % 2 = 0 ∨ nel % 2 = 1 := by omega
    rcases this with h | h <;> rw [h] <;> decide
  simp only [wordSize]; omega

theorem tableSize_isprime (nel : Nat) : isprime (tableSize nel) = true ∧ tableSize nel % 2 = 1 :=
  primeLoop_spec _ _ (lor_one_mod nel) (Nat.mod_lt _ (by decide)) (by
    have := lor_one_mod nel
    have : wordSize = 2 ^ 32 := rfl
    omega)

/-! ## `hcreate_r` -/

/-- The sizes of the tables that `hcreate_r` makes. -/
def GoodSize (n : Nat) : Prop := n = 1 ∨ (Nat.Prime n ∧ 5 ≤ n ∧ n < 2 ^ 31)

theorem GoodSize.pos {n : Nat} (h : GoodSize n) : 1 ≤ n := by
  rcases h with rfl | ⟨_, h, _⟩ <;> omega

theorem tableSize_good {nel : Nat} (h : tableSize nel < 2 ^ 31) : GoodSize (tableSize nel) := by
  obtain ⟨hp, hodd⟩ := tableSize_isprime nel
  by_cases h1 : tableSize nel = 1
  · exact Or.inl h1
  · have h3 : tableSize nel ≠ 3 := by
      intro he; rw [he, not_isprime_three] at hp; cases hp
    have h5 : 5 ≤ tableSize nel := by omega
    exact Or.inr ⟨(isprime_iff h5 hodd h).mp hp, h5, h⟩

/-- A table just created: all slots unused, and a size of the above kind. -/
theorem hcreateR_spec {nel : Nat} {htab : Option HTab} {t : HTab} (h : hcreateR nel htab = some t) :
    t.table = (fun _ => ⟨0, none, none⟩) ∧ t.filled = 0 ∧ t.size = tableSize nel ∧ GoodSize t.size := by
  cases htab with
  | some _ => simp [hcreateR] at h
  | none =>
      simp only [hcreateR, calloc] at h
      split at h
      · next hlt =>
          simp only [Option.map_some, Option.some.injEq] at h
          subst h
          refine ⟨rfl, rfl, rfl, tableSize_good ?_⟩
          simp only [sizeofSlot, wordSize] at hlt
          omega
      · simp at h

theorem hcreateR_of_small {nel : Nat} (h : nel ≤ 520) : ∃ t, hcreateR nel none = some t := by
  have hle : tableSize nel ≤ 521 := by
    apply primeLoop_le (p := 521) (by decide) (by decide) (by decide) _ _ (lor_one_mod nel)
    · have h1 : nel ||| 1 < 2 ^ 10 := Nat.or_lt_two_pow (by omega) (by omega)
      have h2 := lor_one_mod nel
      have h3 : nel ||| 1 ≤ nel + 1 := by
        rcases Nat.even_or_odd' nel with ⟨k, rfl | rfl⟩
        · rw [← Nat.two_pow_add_eq_or_of_lt (i := 1) (by omega : 1 < 2 ^ 1)]
        · have : (2 * k + 1) ||| 1 = 2 * k + 1 := by
            have := Nat.two_pow_add_eq_or_of_lt (i := 1) (by omega : 1 < 2 ^ 1) k
            rw [pow_one] at this
            rw [this, Nat.or_assoc, Nat.or_self]
          omega
      simp only [wordSize] at *
      omega
    · simp only [wordSize]; omega
  refine ⟨_, by
    rw [hcreateR, calloc, if_pos]
    · rfl
    · simp only [sizeofSlot, wordSize]; omega⟩

end Uboot.Env
