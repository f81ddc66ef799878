import Uboot.Lib.Bytes

/-!
# Usable addresses

A region is used byte by byte, without the bytes that are not good. `usable good o n` are the addresses that remain of
the `n` addresses from `o` on. Whether an address is good depends on its block only.
-/

namespace Uboot.Lib

def usable (good : Nat → Bool) (o n : Nat) : List Nat := (List.range' o n).filter good

/-- All addresses of a block are alike. -/
def BlockWise (size : Nat) (good : Nat → Bool) : Prop := ∀ a b, a / size = b / size → good a = good b

section
variable {good good' : Nat → Bool} {o m n a size : Nat}

theorem mem_usable : a ∈ usable good o n ↔ (o ≤ a ∧ a < o + n) ∧ good a = true := by
  rw [usable, List.mem_filter, List.mem_range'_1]

theorem usable_add (good : Nat → Bool) (o m n : Nat) :
    usable good o (m + n) = usable good o m ++ usable good (o + m) n := by
  rw [usable, ← List.range'_append_1, List.filter_append]
  rfl

theorem usable_all (h : ∀ a, o ≤ a → a < o + n → good a = true) : usable good o n = List.range' o n := by
  rw [usable, List.filter_eq_self]
  intro a ha
  obtain ⟨hle, hlt⟩ := List.mem_range'_1.mp ha
  exact h a hle hlt

theorem usable_none (h : ∀ a, o ≤ a → a < o + n → good a = false) : usable good o n = [] := by
  rw [usable, List.filter_eq_nil_iff]
  intro a ha
  obtain ⟨hle, hlt⟩ := List.mem_range'_1.mp ha
  rw [h a hle hlt]
  decide

theorem usable_length_le : (usable good o n).length ≤ n := by
  have hle := List.length_filter_le good (List.range' o n)
  rwa [List.length_range'] at hle

/-! ## Inside a block -/

theorem block_rest_pos (hs : 0 < size) (o : Nat) : 0 < size - o % size := Nat.sub_pos_of_lt (Nat.mod_lt o hs)

theorem div_eq_of_rest (hs : 0 < size) (hle : o ≤ a) (hlt : a < o + (size - o % size)) : a / size = o / size := by
  have hmod := Nat.mod_lt o hs
  have hdiv := Nat.div_add_mod o size
  obtain ⟨d, rfl⟩ := Nat.exists_eq_add_of_le hle
  have heq : o + d = o % size + d + size * (o / size) := by omega
  rw [heq, Nat.add_mul_div_left _ _ hs, Nat.div_eq_of_lt (by omega), Nat.zero_add]

theorem BlockWise.rest (h : BlockWise size good) (hs : 0 < size) (hle : o ≤ a) (hlt : a < o + (size - o % size)) :
    good a = good o := h a o (div_eq_of_rest hs hle hlt)

/-- The next block boundary. -/
theorem rest_mod (hs : 0 < size) (o : Nat) : (o + (size - o % size)) % size = 0 := by
  have hmod := Nat.mod_lt o hs
  have hdiv := Nat.div_add_mod o size
  have heq : o + (size - o % size) = size * (o / size + 1) := by rw [Nat.mul_add, Nat.mul_one]; omega
  rw [heq, Nat.mul_mod_right]

end

/-! ## Whole pages

The first addresses of the good ones of the `n` pages from `o` on. -/

def usablePages (good : Nat → Bool) (step o n : Nat) : List Nat := (List.range' o n step).filter good

section
variable {good good' : Nat → Bool} {step o m n a size : Nat}

theorem usablePages_add (good : Nat → Bool) (step o m n : Nat) :
    usablePages good step o (m + n) = usablePages good step o m ++ usablePages good step (o + m * step) n := by
  rw [usablePages, usablePages, usablePages, ← List.filter_append, Nat.mul_comm m, List.range'_append]

theorem mem_page_iff : a ∈ List.range' o n step ↔ ∃ i < n, a = o + i * step := by
  simp only [List.mem_range', Nat.mul_comm step]

theorem usablePages_congr (h : ∀ i < n, good (o + i * step) = good' (o + i * step)) :
    usablePages good step o n = usablePages good' step o n := by
  apply List.filter_congr
  intro a ha
  obtain ⟨i, hi, rfl⟩ := mem_page_iff.mp ha
  exact h i hi

theorem usablePages_all (h : ∀ i < n, good (o + i * step) = true) : usablePages good step o n = List.range' o n step := by
  rw [usablePages, List.filter_eq_self]
  intro a ha
  obtain ⟨i, hi, rfl⟩ := mem_page_iff.mp ha
  exact h i hi

theorem usablePages_none (h : ∀ i < n, good (o + i * step) = false) : usablePages good step o n = [] := by
  rw [usablePages, List.filter_eq_nil_iff]
  intro a ha
  obtain ⟨i, hi, rfl⟩ := mem_page_iff.mp ha
  simp [h i hi]

theorem usablePages_length_le (good : Nat → Bool) (step o n : Nat) : (usablePages good step o n).length ≤ n := by
  have hle := List.length_filter_le good (List.range' o n step)
  rwa [List.length_range'] at hle

/-- The bytes of the good pages. -/
theorem usable_length_pages (hs : 0 < step) (ho : o % step = 0) (h : BlockWise step good) (n : Nat) :
    (usable good o (n * step)).length = (usablePages good step o n).length * step := by
  induction n with
  | zero => simp [usable, usablePages]
  | succ n ih =>
      have hpage : (o + n * step) % step = 0 := by rw [Nat.add_mul_mod_self_right, ho]
      have hrest : step - (o + n * step) % step = step := by rw [hpage, Nat.sub_zero]
      have halike : ∀ a, o + n * step ≤ a → a < o + n * step + step → good a = good (o + n * step) :=
        fun a hle hlt => h.rest hs hle (by rwa [hrest])
      rw [Nat.succ_mul, usable_add, usablePages_add, List.length_append, List.length_append, ih, Nat.add_mul]
      congr 1
      cases hg : good (o + n * step) with
      | true =>
          rw [usable_all fun a hle hlt => (halike a hle hlt).trans hg, List.length_range']
          simp [usablePages, hg]
      | false =>
          rw [usable_none fun a hle hlt => (halike a hle hlt).trans hg]
          simp [usablePages, hg]

end

/-! ## Memory along addresses -/

namespace Mem

theorem read_eq_map (m : Mem) (a n : Nat) : m.read a n = (List.range' a n).map m := by
  rw [read, List.range'_eq_map_range, List.map_map]
  rfl

theorem map_write (m : Mem) (a : Nat) (bs : List UInt8) : (List.range' a bs.length).map (m.write a bs) = bs := by
  rw [← read_eq_map]
  exact read_eq_iff.mpr fun i hi => write_of_mem hi

theorem write_of_not_mem {m : Mem} {a i : Nat} {bs : List UInt8} (h : ¬ (a ≤ i ∧ i < a + bs.length)) :
    m.write a bs i = m i := if_neg h

end Mem

end Uboot.Lib
