import Mathlib.Tactic

/-!
# Searching in lists and in C strings

`find` is the first position of a pattern in a list. A C string is the list up to its first NUL, and `strstr` searches
in it.
-/

namespace Uboot.Lib

def find {α : Type} [BEq α] (pat : List α) : List α → Option Nat
  | [] => if pat.isPrefixOf [] then some 0 else none
  | x :: xs => if pat.isPrefixOf (x :: xs) then some 0 else (find pat xs).map (· + 1)

section
variable {α : Type} [BEq α] [LawfulBEq α] {pat xs : List α} {i : Nat}

theorem find_cons_of_starts {x : α} (h : pat <+: x :: xs) : find pat (x :: xs) = some 0 := by
  rw [find, if_pos (List.isPrefixOf_iff_prefix.mpr h)]

theorem find_cons_of_not_starts {x : α} (h : ¬ pat <+: x :: xs) : find pat (x :: xs) = (find pat xs).map (· + 1) := by
  rw [find, if_neg (fun hp => h (List.isPrefixOf_iff_prefix.mp hp))]

theorem find_eq_some (hi : pat <+: xs.drop i) (hfirst : ∀ j < i, ¬ pat <+: xs.drop j) : find pat xs = some i := by
  induction xs generalizing i with
  | nil =>
      rw [List.drop_nil] at hi
      have hzero : i = 0 := by
        by_contra hne
        exact hfirst 0 (Nat.pos_of_ne_zero hne) hi
      rw [find, if_pos (List.isPrefixOf_iff_prefix.mpr hi), hzero]
  | cons x xs ih =>
      cases i with
      | zero => exact find_cons_of_starts hi
      | succ i =>
          have hrest : find pat xs = some i := ih hi fun j hj => hfirst (j + 1) (Nat.succ_lt_succ hj)
          rw [find_cons_of_not_starts (hfirst 0 (Nat.succ_pos i)), hrest]
          rfl

theorem find_eq_none (h : ∀ j, ¬ pat <+: xs.drop j) : find pat xs = none := by
  induction xs with
  | nil => exact if_neg (fun hp => h 0 (List.isPrefixOf_iff_prefix.mp hp))
  | cons x xs ih =>
      rw [find_cons_of_not_starts (h 0), ih fun j => h (j + 1)]
      rfl

theorem find_isSome (h : pat <+: xs.drop i) : (find pat xs).isSome := by
  induction xs generalizing i with
  | nil =>
      rw [List.drop_nil] at h
      rw [find, if_pos (List.isPrefixOf_iff_prefix.mpr h)]
      rfl
  | cons x xs ih =>
      by_cases hp : pat <+: x :: xs
      · rw [find_cons_of_starts hp]
        rfl
      · cases i with
        | zero => exact absurd h hp
        | succ i => rw [find_cons_of_not_starts hp, Option.isSome_map]; exact ih h

theorem find_le (h : find pat xs = some i) : i + pat.length ≤ xs.length := by
  induction xs generalizing i with
  | nil =>
      rw [find] at h
      split at h
      next hp =>
        have hlen := (List.isPrefixOf_iff_prefix.mp hp).length_le
        cases h
        simpa using hlen
      next => cases h
  | cons x xs ih =>
      rw [find] at h
      split at h
      next hp =>
        have hlen := (List.isPrefixOf_iff_prefix.mp hp).length_le
        cases h
        simpa using hlen
      next =>
        obtain ⟨j, hj, rfl⟩ := Option.map_eq_some_iff.mp h
        have hle := ih hj
        rw [List.length_cons]
        omega

theorem pat_isPrefix_drop (h : find pat xs = some i) : pat <+: xs.drop i := by
  induction xs generalizing i with
  | nil =>
      rw [find] at h
      split at h
      next hp =>
        cases h
        exact List.isPrefixOf_iff_prefix.mp hp
      next => cases h
  | cons x xs ih =>
      rw [find] at h
      split at h
      next hp =>
        cases h
        exact List.isPrefixOf_iff_prefix.mp hp
      next =>
        obtain ⟨j, hj, rfl⟩ := Option.map_eq_some_iff.mp h
        exact ih hj

theorem find_isSome_iff (pat s : List α) : (find pat s).isSome ↔ pat <:+: s := by
  constructor
  · intro h
    by_contra hinfix
    have hnone : find pat s = none := by
      apply find_eq_none
      intro j hj
      exact hinfix (hj.isInfix.trans (List.drop_suffix j s).isInfix)
    rw [hnone] at h
    cases h
  · rintro ⟨l, r, rfl⟩
    refine find_isSome (i := l.length) ?_
    rw [List.append_assoc, List.drop_left]
    exact List.prefix_append pat r

end

/-- A scan stops at a byte that does not meet its condition. -/
theorem not_of_dropWhile {α : Type} {p : α → Bool} {l s : List α} {c : α} (h : l.dropWhile p = c :: s) : p c = false := by
  have hhead := List.head?_dropWhile_not p l
  rw [h] at hhead
  simpa using hhead

/-! ## C strings -/

def ascii (s : String) : List UInt8 := s.toList.map fun c => UInt8.ofNat c.toNat

/-- A check of the bytes that can be evaluated. -/
theorem forall_ne_of_all {xs : List UInt8} {a : UInt8} (h : xs.all (· != a) = true) : ∀ x ∈ xs, x ≠ a :=
  fun x hx => bne_iff_ne.mp (List.all_eq_true.mp h x hx)

def cstr (xs : List UInt8) : List UInt8 := xs.takeWhile (· ≠ 0)

def strstr (hay pat : List UInt8) : Option Nat := find pat (cstr hay)

section
variable {pat xs ys : List UInt8} {i k m p : Nat}

theorem cstr_append (h : ∀ x ∈ xs, x ≠ 0) (ys : List UInt8) : cstr (xs ++ ys) = xs ++ cstr ys := by
  rw [cstr, List.takeWhile_append_of_pos (by simpa using h), cstr]

theorem cstr_append_nul (xs ys : List UInt8) : cstr (xs ++ 0 :: ys) = cstr xs := by
  induction xs with
  | nil => simp [cstr]
  | cons x xs ih =>
      simp only [cstr, List.cons_append, List.takeWhile_cons] at ih ⊢
      split
      next => rw [ih]
      next => rfl

/-- What is found in the C string is in the list. -/
theorem prefix_of_cstr (h : pat <+: (cstr xs).drop i) : pat <+: xs.drop i :=
  h.trans ((List.takeWhile_prefix _).drop i)

theorem prefix_cstr (h : pat <+: xs.drop i) (hnul : ∀ x ∈ xs.take (i + pat.length), x ≠ 0) :
    pat <+: (cstr xs).drop i := by
  have hcstr : xs.take (i + pat.length) <+: cstr xs := by
    rw [← List.take_append_drop (i + pat.length) xs, cstr_append hnul, List.take_append_drop]
    exact List.prefix_append _ _
  have hpat : (xs.take (i + pat.length)).drop i = pat := by
    rw [List.drop_take, Nat.add_sub_cancel_left]
    exact (List.prefix_iff_eq_take.mp h).symm
  rw [← hpat]
  exact hcstr.drop i

/-! ## A part of a text, closed by a NUL -/

def slice (xs : List UInt8) (k m : Nat) : List UInt8 := (xs.drop k).take m

theorem slice_drop (xs : List UInt8) (k m i : Nat) : (slice xs k m).drop i = slice xs (k + i) (m - i) := by
  rw [slice, slice, List.drop_take, List.drop_drop]

theorem slice_length (h : k + m ≤ xs.length) : (slice xs k m).length = m := by
  rw [slice, List.length_take, List.length_drop]
  omega

theorem slice_append (xs : List UInt8) (k m n : Nat) : slice xs k m ++ slice xs (k + m) n = slice xs k (m + n) := by
  rw [slice, slice, slice, List.take_add, List.drop_drop]

theorem slice_append_drop (ys : List UInt8) (h : k + m ≤ xs.length) (hi : i ≤ m) :
    (slice xs k m ++ ys).drop i = slice xs (k + i) (m - i) ++ ys := by
  rw [List.drop_append_of_le_length (by rw [slice_length h]; exact hi), slice_drop]

theorem prefix_slice_iff : pat <+: (slice xs k m).drop i ↔ pat <+: xs.drop (k + i) ∧ pat.length ≤ m - i := by
  rw [slice_drop, slice, List.prefix_take_iff]

theorem prefix_cstr_slice (hk : k ≤ p) (hend : p + pat.length ≤ k + m) (hocc : pat <+: xs.drop p)
    (hnul : ∀ x ∈ xs.take (p + pat.length), x ≠ 0) : pat <+: (cstr (slice xs k m)).drop (p - k) := by
  apply prefix_cstr
  · rw [prefix_slice_iff, Nat.add_sub_cancel' hk]
    exact ⟨hocc, by omega⟩
  · intro x hx
    apply hnul x
    have hx' : x ∈ (xs.take (p + pat.length)).drop k := by
      rw [slice, List.take_take] at hx
      rw [List.drop_take, show p + pat.length - k = min (p - k + pat.length) m by omega]
      exact hx
    exact List.mem_of_mem_drop hx'

/-- The first occurrence in a part of a text. -/
theorem strstr_slice (ys : List UInt8) (hk : k ≤ p) (hend : p + pat.length ≤ k + m) (hocc : pat <+: xs.drop p)
    (hfirst : ∀ j, k ≤ j → j < p → ¬ pat <+: xs.drop j) (hnul : ∀ x ∈ xs.take (p + pat.length), x ≠ 0) :
    strstr (slice xs k m ++ 0 :: ys) pat = some (p - k) := by
  rw [strstr, cstr_append_nul]
  apply find_eq_some (prefix_cstr_slice hk hend hocc hnul)
  intro j hj hpre
  have h := (prefix_slice_iff.mp (prefix_of_cstr hpre)).1
  exact hfirst (k + j) (Nat.le_add_right k j) (by omega) h

/-- The pattern is in the part, maybe more than once. -/
theorem strstr_slice_isSome (ys : List UInt8) (hk : k ≤ p) (hend : p + pat.length ≤ k + m) (hocc : pat <+: xs.drop p)
    (hnul : ∀ x ∈ xs.take (p + pat.length), x ≠ 0) : (strstr (slice xs k m ++ 0 :: ys) pat).isSome := by
  rw [strstr, cstr_append_nul]
  exact find_isSome (prefix_cstr_slice hk hend hocc hnul)

theorem strstr_slice_none (ys : List UInt8) (hne : pat ≠ [])
    (h : ∀ p, k ≤ p → p + pat.length ≤ k + m → ¬ pat <+: xs.drop p) :
    strstr (slice xs k m ++ 0 :: ys) pat = none := by
  rw [strstr, cstr_append_nul]
  apply find_eq_none
  intro j hpre
  obtain ⟨hocc, hlen⟩ := prefix_slice_iff.mp (prefix_of_cstr hpre)
  have hpos : 0 < pat.length := List.length_pos_iff.mpr hne
  exact h (k + j) (Nat.le_add_right k j) (by omega) hocc

end

end Uboot.Lib
