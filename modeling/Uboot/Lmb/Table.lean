import Uboot.Lmb.Alloc

/-!
# `lmb_add_region` on any table

The regions need not be sorted or disjoint here, and an end may wrap.
-/

namespace Uboot.Lmb

open Uboot.Lib

section
variable {rgn : LmbRegion} {x : LmbProperty}

/-- Region `j` is the range, or touches it as the code computes the ends. -/
def LmbRegion.Touches (rgn : LmbRegion) (x : LmbProperty) (j : Nat) : Prop :=
  rgn.region j = x ∨ (rgn.region j).base = add32 x.base x.size ∨
    x.base = add32 (rgn.region j).base (rgn.region j).size

/-- Region `j`, which touches the range, with the range. -/
def grown (rgn : LmbRegion) (x : LmbProperty) (j : Nat) : LmbProperty :=
  if (rgn.region j).base = add32 x.base x.size then
    ⟨sub32 (rgn.region j).base x.size, add32 (rgn.region j).size x.size⟩
  else ⟨(rgn.region j).base, add32 (rgn.region j).size x.size⟩

/-- The first loop of `lmb_add_region` stops at the first region that touches the range. -/
theorem coalesceLoop_first (rgn : LmbRegion) (x : LmbProperty) (n i : Nat) :
    (∃ k, i ≤ k ∧ k < i + n ∧ rgn.Touches x k ∧ (∀ j, i ≤ j → j < k → ¬ rgn.Touches x j) ∧
      coalesceLoop rgn x.base x.size n i =
        if rgn.region k = x then .present else .stop k 1 (rgn.set k (grown rgn x k))) ∨
    ((∀ j, i ≤ j → j < i + n → ¬ rgn.Touches x j) ∧ coalesceLoop rgn x.base x.size n i = .stop (i + n) 0 rgn) := by
  induction n generalizing i with
  | zero => exact .inr ⟨fun j h1 h2 => by omega, rfl⟩
  | succ n ih =>
    rw [coalesceLoop]
    have hself : ∀ j, i ≤ j → j < i → ¬ rgn.Touches x j := fun j h1 h2 => by omega
    by_cases hp : rgn.region i = x
    · refine .inl ⟨i, le_refl _, by omega, .inl hp, hself, ?_⟩
      simp [hp]
    have hp' : ¬ ((rgn.region i).base = x.base ∧ (rgn.region i).size = x.size) := by
      rintro ⟨hb, hs⟩
      exact hp (by cases hr : rgn.region i; simp_all)
    by_cases hgt : (rgn.region i).base = add32 x.base x.size
    · refine .inl ⟨i, le_refl _, by omega, .inr (.inl hgt), hself, ?_⟩
      simp only [if_neg hp', if_neg hp, lmbAddrsAdjacent, if_pos hgt, grown]
      rfl
    by_cases hlt : x.base = add32 (rgn.region i).base (rgn.region i).size
    · refine .inl ⟨i, le_refl _, by omega, .inr (.inr hlt), hself, ?_⟩
      simp only [if_neg hp', if_neg hp, lmbAddrsAdjacent, if_neg hgt, if_pos hlt, grown]
      rfl
    have hadj : lmbAddrsAdjacent x.base x.size (rgn.region i).base (rgn.region i).size = 0 := by
      rw [lmbAddrsAdjacent, if_neg hgt, if_neg hlt]
    have hnot : ¬ rgn.Touches x i := by
      rintro (h | h | h)
      exacts [hp h, hgt h, hlt h]
    simp only [if_neg hp', hadj, lt_self_iff_false, if_false]
    rw [show i + (n + 1) = i + 1 + n by omega]
    rcases ih (i + 1) with ⟨k, h1, h2, ht, hfirst, heq⟩ | ⟨hall, heq⟩
    · refine .inl ⟨k, by omega, h2, ht, fun j hj hjk => ?_, heq⟩
      by_cases hji : j = i
      · exact hji ▸ hnot
      · exact hfirst j (by omega) hjk
    · refine .inr ⟨fun j hj hjn => ?_, heq⟩
      by_cases hji : j = i
      · exact hji ▸ hnot
      · exact hall j (by omega) hjn

theorem joinNext_ne_zero (rgn : LmbRegion) (i : Nat) : (joinNext rgn i 1).1 ≠ 0 := by
  rw [joinNext]
  split <;> simp

theorem joinNext_cases (rgn : LmbRegion) (i : Nat) : joinNext rgn i 0 = (0, rgn) ∨ (joinNext rgn i 0).1 ≠ 0 := by
  rw [joinNext]
  split
  · exact .inr (by simp)
  · exact .inl rfl

/-- `lmb_add_region` fails on a full table in which no region touches the range. -/
theorem lmbAddRegion_fails_iff (hcnt : rgn.cnt < wordSize) :
    (lmbAddRegion rgn x.base x.size).1 = -1 ↔ maxLmbRegions ≤ rgn.cnt ∧ ∀ j < rgn.cnt, ¬ rgn.Touches x j := by
  by_cases hdummy : rgn.cnt = 1 ∧ (rgn.region 0).size = 0
  · rw [lmbAddRegion, if_pos hdummy]
    simp [hdummy.1, maxLmbRegions]
  rw [lmbAddRegion, if_neg hdummy]
  rcases coalesceLoop_first rgn x rgn.cnt 0 with ⟨k, -, hk, ht, -, heq⟩ | ⟨hall, heq⟩
  · have hne : ¬ ∀ j < rgn.cnt, ¬ rgn.Touches x j := fun h => h k (by omega) ht
    have hj := joinNext_ne_zero (rgn.set k (grown rgn x k)) k
    rw [heq]
    by_cases hp : rgn.region k = x
    · simp [hp, hne]
    · simp only [if_neg hp, if_pos hj, hne, and_false, iff_false]
      omega
  · have hall' : ∀ j < rgn.cnt, ¬ rgn.Touches x j := fun j hj => hall j (by omega) (by omega)
    rw [heq]
    simp only [Nat.zero_add]
    by_cases hfull : maxLmbRegions ≤ rgn.cnt
    · have hsub : sub32 rgn.cnt 1 = rgn.cnt - 1 := sub32_eq (by simp only [maxLmbRegions] at hfull; omega) hcnt
      have hj : joinNext rgn rgn.cnt 0 = (0, rgn) := by
        rw [joinNext, if_neg]
        rintro ⟨hlt, -⟩
        omega
      simp only [hj, ne_eq, not_true_eq_false, if_false, hfull, true_and]
      exact ⟨fun _ => hall', fun _ => rfl⟩
    · simp only [hfull, false_and, iff_false]
      rcases joinNext_cases rgn rgn.cnt with hj | hj
      · simp only [hj, ne_eq, not_true_eq_false, if_false, if_neg hfull]
        decide
      · rw [if_pos hj]
        simp only
        omega

theorem lmbAddRegion_neg_iff (rgn : LmbRegion) (base size : Nat) :
    (lmbAddRegion rgn base size).1 < 0 ↔ (lmbAddRegion rgn base size).1 = -1 := by
  by_cases hdummy : rgn.cnt = 1 ∧ (rgn.region 0).size = 0
  · rw [lmbAddRegion, if_pos hdummy]
    simp
  · rw [lmbAddRegion, if_neg hdummy]
    cases coalesceLoop rgn base size rgn.cnt 0 with
    | present => simp
    | stop i coalesced rgn' =>
      by_cases hj : (joinNext rgn' i coalesced).1 ≠ 0
      · simp only [if_pos hj]
        omega
      · by_cases hfull : maxLmbRegions ≤ (joinNext rgn' i coalesced).2.cnt
        · simp only [if_neg hj, if_pos hfull]
          decide
        · simp only [if_neg hj, if_neg hfull]
          decide

/-- A table that `lmb_add_region` fails on is left as it is. -/
theorem lmbAddRegion_fails_unchanged (h : (lmbAddRegion rgn x.base x.size).1 = -1) :
    (lmbAddRegion rgn x.base x.size).2 = rgn := by
  by_cases hdummy : rgn.cnt = 1 ∧ (rgn.region 0).size = 0
  · rw [lmbAddRegion, if_pos hdummy] at h
    simp at h
  rw [lmbAddRegion, if_neg hdummy] at h ⊢
  rcases coalesceLoop_first rgn x rgn.cnt 0 with ⟨k, -, hk, ht, -, heq⟩ | ⟨hall, heq⟩
  · have hj := joinNext_ne_zero (rgn.set k (grown rgn x k)) k
    rw [heq] at h ⊢
    by_cases hp : rgn.region k = x
    · simp [hp]
    · simp only [if_neg hp, if_pos hj] at h
      omega
  · rw [heq] at h ⊢
    simp only at h ⊢
    -- with something joined the result is positive
    rcases joinNext_cases rgn (0 + rgn.cnt) with hj | hj
    · simp only [hj, ne_eq, not_true_eq_false, if_false] at h ⊢
      split at h
      next hfull => rw [if_pos hfull]
      next => simp at h
    · rw [if_pos hj] at h
      simp only at h
      omega

end

/-! ## The entry that grows -/

section
variable {rgn : LmbRegion} {k : Nat}

theorem LmbRegion.set_cnt (rgn : LmbRegion) (i : Nat) (p : LmbProperty) : (rgn.set i p).cnt = rgn.cnt := rfl

theorem LmbRegion.set_region_self (rgn : LmbRegion) (i : Nat) (p : LmbProperty) : (rgn.set i p).region i = p := by
  simp [LmbRegion.set]

theorem LmbRegion.set_region_of_ne (rgn : LmbRegion) {i j : Nat} (p : LmbProperty) (h : j ≠ i) :
    (rgn.set i p).region j = rgn.region j := by
  simp [LmbRegion.set, h]

theorem lmbAddrsAdjacent_ne_zero {base1 size1 base2 size2 : Nat} :
    lmbAddrsAdjacent base1 size1 base2 size2 ≠ 0 ↔ base2 = add32 base1 size1 ∨ base1 = add32 base2 size2 := by
  rw [lmbAddrsAdjacent]
  split_ifs with h1 h2 <;> simp [*]

/-- `joinNext` changes the entry `k`; the others come from the table. -/
theorem joinNext_entries (hk : k < rgn.cnt) (hcnt : rgn.cnt ≤ maxLmbRegions) :
    (joinNext rgn k 1).2.cnt ≤ rgn.cnt ∧ k < (joinNext rgn k 1).2.cnt ∧
      (∀ j < (joinNext rgn k 1).2.cnt, j ≠ k →
        ∃ i < rgn.cnt, i ≠ k ∧ (joinNext rgn k 1).2.region j = rgn.region i) ∧
      ((joinNext rgn k 1).2.region k).base = (rgn.region k).base ∧
      ((joinNext rgn k 1).2.region k).size =
        if k + 1 < rgn.cnt ∧ ((rgn.region (k + 1)).base = add32 (rgn.region k).base (rgn.region k).size ∨
            (rgn.region k).base = add32 (rgn.region (k + 1)).base (rgn.region (k + 1)).size) then
          add32 (rgn.region k).size (rgn.region (k + 1)).size
        else (rgn.region k).size := by
  have hsub : sub32 rgn.cnt 1 = rgn.cnt - 1 := lmbRemoveRegion_cnt hk hcnt
  have hiff : (k < sub32 rgn.cnt 1 ∧ lmbRegionsAdjacent rgn k (k + 1) ≠ 0) ↔
      (k + 1 < rgn.cnt ∧ ((rgn.region (k + 1)).base = add32 (rgn.region k).base (rgn.region k).size ∨
        (rgn.region k).base = add32 (rgn.region (k + 1)).base (rgn.region (k + 1)).size)) := by
    rw [hsub, lmbRegionsAdjacent, lmbAddrsAdjacent_ne_zero]
    exact and_congr_left fun _ => by omega
  rw [joinNext]
  by_cases hj : k + 1 < rgn.cnt ∧ ((rgn.region (k + 1)).base = add32 (rgn.region k).base (rgn.region k).size ∨
      (rgn.region k).base = add32 (rgn.region (k + 1)).base (rgn.region (k + 1)).size)
  · rw [if_pos (hiff.mpr hj), if_pos hj]
    have hremove := lmbRemoveRegion_cnt hj.1 hcnt
    simp only [lmbCoalesceRegions]
    rw [lmbRemoveRegion_set (show k < k + 1 by omega)]
    simp only [LmbRegion.set, Function.update_self, hremove, and_true]
    refine ⟨by omega, by omega, fun j hjlt hjk => ?_⟩
    rw [Function.update_of_ne hjk, lmbRemoveRegion_region hj.1 hcnt hjlt, removeAt]
    split
    next => exact ⟨j, by omega, hjk, rfl⟩
    next => exact ⟨j + 1, by omega, by omega, rfl⟩
  · rw [if_neg (fun h => hj (hiff.mp h)), if_neg hj]
    exact ⟨le_refl _, hk, fun j hjlt hjk => ⟨j, hjlt, hjk, rfl⟩, rfl, rfl⟩

/-- When no other entry reaches into a range, entry `k` has to hold all of it. -/
theorem addrs_subset_iff {base size : Nat} (hk : k < rgn.cnt)
    (hothers : ∀ j < rgn.cnt, j ≠ k → ¬ (base < (rgn.region j).stop ∧ (rgn.region j).base < base + size)) :
    Range.addrs ⟨base, size⟩ ⊆ rgn.addrs ↔ Range.addrs ⟨base, size⟩ ⊆ (rgn.region k).addrs := by
  constructor
  · intro h a ha
    obtain ⟨j, hj, haj⟩ := h ha
    by_cases hjk : j = k
    · exact hjk ▸ haj
    · have := hothers j hj hjk
      simp only [Range.mem_addrs, Range.stop] at *
      omega
  · intro h
    exact h.trans (subset_cover _ hk)

end

/-! ## Reserving a free place -/

/-- The place at `base` reaches, rounded up, the end of the addresses, and region `k` touches it there: the end is
computed as address 0. The size of what is joined wraps, and what is left does not hold the place. -/
def LmbRegion.Loses (rgn : LmbRegion) (base size k : Nat) : Prop :=
  let r := rgn.region k
  let next := rgn.region (k + 1)
  if r.base = 0 then
    let joined := r.size + if k + 1 < rgn.cnt ∧ (next.base = r.size ∨ next.stop = base) then next.size else 0
    base ≤ joined ∧ joined < base + size
  else k + 1 < rgn.cnt ∧ next.base = 0 ∧ r.base ≤ next.size

/-- `lmb_add_region` of the place at `base`, with its size rounded up to `rounded`, reserves the place. In an emptied
table the stale entry 0 must give way or hold the place. -/
def LmbRegion.Keeps (rgn : LmbRegion) (base size rounded : Nat) : Prop :=
  (rgn.cnt = 0 → lmbRegionsAdjacent rgn 0 1 = 0 ∧
    (base < (rgn.region 0).base ∨ Range.addrs ⟨base, size⟩ ⊆ (rgn.region 0).addrs)) ∧
  (base + rounded = wordSize → ∀ k < rgn.cnt, ((rgn.region k).base = 0 ∨ (rgn.region k).stop = base) →
    (∀ j < k, ¬ ((rgn.region j).base = 0 ∨ (rgn.region j).stop = base)) → ¬ rgn.Loses base size k)

section
variable {rgn : LmbRegion} {base size rounded : Nat}

/-- The size of a region at `rb` that grows down by the place, and of the next one when they touch. -/
theorem joined_down_iff {rb rs nb ns : Nat} {more : Prop} [Decidable more] (hb : 0 < base) (hs : 0 < size)
    (hsr : size ≤ rounded) (hend : base + rounded ≤ wordSize) (hstop : rb + rs < wordSize)
    (hrb : rb = add32 base rounded)
    (hn : more → nb + ns < wordSize ∧ ¬ (base < nb + ns ∧ nb < base + size)) :
    size ≤ (if more ∧ (nb = add32 base (add32 rs rounded) ∨ base = add32 nb ns) then add32 (add32 rs rounded) ns
        else add32 rs rounded) ↔
      ¬ (base + rounded = wordSize ∧ base ≤ rs + (if more ∧ (nb = rs ∨ nb + ns = base) then ns else 0) ∧
        rs + (if more ∧ (nb = rs ∨ nb + ns = base) then ns else 0) < base + size) := by
  by_cases hmore : more
  · obtain ⟨hns, hnf⟩ := hn hmore
    by_cases h1 : nb = add32 base (add32 rs rounded) ∨ base = add32 nb ns
    · rw [if_pos ⟨hmore, h1⟩]
      by_cases h2 : nb = rs ∨ nb + ns = base
      · rw [if_pos ⟨hmore, h2⟩]
        simp only [add32, wordSize] at *
        omega
      · rw [if_neg fun h => h2 h.2]
        simp only [add32, wordSize] at *
        omega
    · rw [if_neg fun h => h1 h.2]
      by_cases h2 : nb = rs ∨ nb + ns = base
      · rw [if_pos ⟨hmore, h2⟩]
        simp only [add32, wordSize] at *
        omega
      · rw [if_neg fun h => h2 h.2]
        simp only [add32, wordSize] at *
        omega
  · rw [if_neg fun h => hmore h.1, if_neg fun h => hmore h.1]
    simp only [add32, wordSize] at *
    omega

/-- The size of a region at `rb` that grows up by the place, and of the next one when they touch. -/
theorem joined_up_iff {rb rs nb ns : Nat} {more : Prop} [Decidable more] (hb : 0 < base) (hs : 0 < size)
    (hsr : size ≤ rounded) (hend : base + rounded ≤ wordSize) (hrb : rb + rs = base) (hne : rb ≠ add32 base rounded)
    (hn : more → nb + ns < wordSize ∧ ¬ (base < nb + ns ∧ nb < base + size)) :
    base + size ≤ rb + (if more ∧ (nb = add32 rb (add32 rs rounded) ∨ rb = add32 nb ns) then add32 (add32 rs rounded) ns
        else add32 rs rounded) ↔
      ¬ (base + rounded = wordSize ∧ more ∧ nb = 0 ∧ rb ≤ ns) := by
  by_cases hmore : more
  · obtain ⟨hns, hnf⟩ := hn hmore
    by_cases h1 : nb = add32 rb (add32 rs rounded) ∨ rb = add32 nb ns
    · rw [if_pos ⟨hmore, h1⟩]
      simp only [add32, wordSize, hmore, true_and] at *
      omega
    · rw [if_neg fun h => h1 h.2]
      simp only [add32, wordSize, hmore, true_and] at *
      omega
  · rw [if_neg fun h => hmore h.1]
    simp only [add32, wordSize, hmore, false_and, and_false, not_false_eq_true, iff_true] at *
    omega

/-- A range that is free, with its rounded size. -/
structure LmbRegion.Room (rgn : LmbRegion) (base size rounded : Nat) : Prop where
  cnt_le : rgn.cnt ≤ maxLmbRegions
  stop_lt : ∀ i < rgn.cnt, (rgn.region i).stop < wordSize
  free : rgn.Free base size
  base_pos : 0 < base
  size_pos : 0 < size
  size_le : size ≤ rounded
  rounded_lt : rounded < wordSize
  end_le : base + rounded ≤ wordSize

theorem grown_holds_iff {k : Nat} {tbl : LmbRegion} (h : rgn.Room base size rounded) (hk : k < rgn.cnt)
    (ht : rgn.Touches ⟨base, rounded⟩ k) (hx : rgn.region k ≠ ⟨base, rounded⟩)
    (htbl : (joinNext (rgn.set k (grown rgn ⟨base, rounded⟩ k)) k 1).2 = tbl) :
    ((tbl.region k).base ≤ base ∧ base + size ≤ (tbl.region k).stop) ↔
      ¬ (base + rounded = wordSize ∧ rgn.Loses base size k) := by
  obtain ⟨-, -, -, hbase, hsize⟩ := @joinNext_entries (rgn.set k (grown rgn ⟨base, rounded⟩ k)) k hk h.cnt_le
  rw [htbl, LmbRegion.set_region_self] at hbase
  rw [htbl] at hsize
  clear htbl
  simp only [LmbRegion.set_region_self, LmbRegion.set_cnt, LmbRegion.set_region_of_ne rgn _ (show k + 1 ≠ k by omega)]
    at hsize
  have hstop := h.stop_lt k hk
  have hnext : k + 1 < rgn.cnt → (rgn.region (k + 1)).base + (rgn.region (k + 1)).size < wordSize ∧
      ¬ (base < (rgn.region (k + 1)).base + (rgn.region (k + 1)).size ∧ (rgn.region (k + 1)).base < base + size) :=
    fun hk1 => ⟨h.stop_lt (k + 1) hk1, h.free (k + 1) hk1⟩
  obtain ⟨-, -, -, hb, hs, hsr, hrl, hend⟩ := h
  rw [Range.stop, hbase, hsize]
  clear hbase hsize
  rw [LmbRegion.Loses]
  by_cases hdown : (rgn.region k).base = add32 base rounded
  · have hsub : sub32 (rgn.region k).base rounded = base := by
      simp only [hdown, add32, sub32, wordSize] at *
      omega
    simp only [grown, if_pos hdown, hsub, le_refl, true_and, Nat.add_le_add_iff_left]
    rw [joined_down_iff hb hs hsr hend hstop hdown hnext]
    refine not_congr (and_congr_right fun hW => ?_)
    have hzero : (rgn.region k).base = 0 := by
      rw [hdown, add32, hW]
      exact Nat.mod_self _
    simp only [if_pos hzero]
    rfl
  · have hup : (rgn.region k).base + (rgn.region k).size = base := by
      rcases ht with ht | ht | ht
      · exact absurd ht hx
      · exact absurd ht hdown
      · exact (add32_eq hstop).symm.trans ht.symm
    simp only [grown, if_neg hdown, show (rgn.region k).base ≤ base by omega, true_and]
    rw [joined_up_iff hb hs hsr hend hup hdown hnext]
    refine not_congr (and_congr_right fun hW => ?_)
    have hpos : (rgn.region k).base ≠ 0 := by
      intro hzero
      rw [hzero, add32, hW] at hdown
      exact hdown (Nat.mod_self _).symm
    simp only [if_neg hpos]

theorem LmbRegion.Room.ne_range (h : rgn.Room base size rounded) {j : Nat} (hj : j < rgn.cnt) :
    rgn.region j ≠ ⟨base, rounded⟩ := by
  intro heq
  have hfree := h.free j hj
  have hpos := h.size_pos
  have hle := h.size_le
  simp only [heq, Range.stop] at hfree
  omega

/-- At the end of the addresses a region touches the place from below, or begins at address 0. -/
theorem LmbRegion.Room.touches_iff (h : rgn.Room base size rounded) (hend : base + rounded = wordSize) {j : Nat}
    (hj : j < rgn.cnt) :
    rgn.Touches ⟨base, rounded⟩ j ↔ (rgn.region j).base = 0 ∨ (rgn.region j).stop = base := by
  have hzero : add32 base rounded = 0 := by
    rw [add32, hend]
    exact Nat.mod_self _
  have hstop : add32 (rgn.region j).base (rgn.region j).size = (rgn.region j).stop := add32_eq (h.stop_lt j hj)
  simp only [LmbRegion.Touches, h.ne_range hj, false_or, hzero, hstop]
  exact or_congr_right eq_comm

/-- The place is reserved in a table that has no entry. -/
theorem reserve_place_emptied (hc : rgn.cnt = 0) (hsize : 0 < size) (hle : size ≤ rounded) :
    ((lmbAddRegion rgn base rounded).2.cnt ≤ maxLmbRegions ∧
      Range.addrs ⟨base, size⟩ ⊆ (lmbAddRegion rgn base rounded).2.addrs) ↔
    lmbRegionsAdjacent rgn 0 1 = 0 ∧
      (base < (rgn.region 0).base ∨ Range.addrs ⟨base, size⟩ ⊆ (rgn.region 0).addrs) := by
  have hl : coalesceLoop rgn base rounded rgn.cnt 0 = .stop 0 0 rgn := by rw [hc]; rfl
  have hsub : sub32 rgn.cnt 1 = wordSize - 1 := by rw [hc, sub32]; rfl
  by_cases hadj : lmbRegionsAdjacent rgn 0 1 = 0
  · have hj : joinNext rgn 0 0 = (0, rgn) := by
      rw [joinNext, if_neg]
      exact fun h => h.2 hadj
    rw [lmbAddRegion_of_stop (by omega) hl hj, if_neg (by simp), if_neg (by simp [hc, maxLmbRegions])]
    have hcnt := insertRegion_cnt (show rgn.cnt < maxLmbRegions by simp [hc, maxLmbRegions]) base rounded
    have hentry : (insertRegion rgn base rounded).region 0 =
        if base < (rgn.region 0).base then ⟨base, rounded⟩ else rgn.region 0 := by
      simp only [insertRegion, hc, insertLoop]
      split <;> simp
    rw [addrs_subset_iff (show 0 < (insertRegion rgn base rounded).cnt by omega) (fun j hj hne => by omega), hentry,
      hcnt, hc]
    simp only [hadj, true_and, show 0 + 1 ≤ maxLmbRegions by simp [maxLmbRegions]]
    split
    next hlt =>
      simp only [hlt, true_or, iff_true]
      exact (Range.addrs_subset hsize).mpr ⟨le_refl _, by simp only [Range.stop]; omega⟩
    next hlt => simp only [hlt, false_or]
  · -- two stale entries are joined and the count wraps
    have hj : joinNext rgn 0 0 = (1, lmbCoalesceRegions rgn 0 1) := by
      rw [joinNext, if_pos]
      exact ⟨by simp [hsub], hadj⟩
    rw [lmbAddRegion_of_stop (by omega) hl hj, if_pos (by simp)]
    have hcnt : (lmbCoalesceRegions rgn 0 1).cnt = wordSize - 1 := by
      simp only [lmbCoalesceRegions, lmbRemoveRegion, LmbRegion.set_cnt, hsub]
    simp only [hcnt, hadj, false_and, iff_false, not_and]
    intro h
    exact absurd h (by decide)

/-- A range that touches no region is put into the table. -/
theorem insertRegion_mem (hc : 0 < rgn.cnt) (x : LmbProperty) :
    ∃ p < rgn.cnt + 1, (insertRegion rgn x.base x.size).region p = x := by
  obtain ⟨p, hp, hge, -, heq⟩ := insertLoop_spec x.base x.size rgn.cnt rgn.region
  by_cases hp0 : p = 0
  · subst hp0
    have h0 : insertLoop x.base x.size rgn.cnt rgn.region 0 = rgn.region 0 := by
      rw [heq 0, if_neg (by omega), if_neg (by omega)]
    have hlt : x.base < (rgn.region 0).base := hge 0 (le_refl _) hc
    refine ⟨0, by omega, ?_⟩
    simp [insertRegion, h0, hlt]
  · refine ⟨p, by omega, ?_⟩
    have hentry : insertLoop x.base x.size rgn.cnt rgn.region p = x := by
      rw [heq p, if_neg (by omega), if_pos ⟨by omega, rfl⟩]
    simp only [insertRegion]
    split
    next => rw [Function.update_of_ne hp0, hentry]
    next => exact hentry

/-- In a table with entries only the region that grows can lose the place. -/
theorem reserve_place_touching {k : Nat} (h : rgn.Room base size rounded) (hk : k < rgn.cnt)
    (ht : rgn.Touches ⟨base, rounded⟩ k)
    (hr : (lmbAddRegion rgn base rounded).2 = (joinNext (rgn.set k (grown rgn ⟨base, rounded⟩ k)) k 1).2) :
    ((lmbAddRegion rgn base rounded).2.cnt ≤ maxLmbRegions ∧
      Range.addrs ⟨base, size⟩ ⊆ (lmbAddRegion rgn base rounded).2.addrs) ↔
    ¬ (base + rounded = wordSize ∧ rgn.Loses base size k) := by
  obtain ⟨hcnt, hk', hothers, -, -⟩ := @joinNext_entries (rgn.set k (grown rgn ⟨base, rounded⟩ k)) k hk h.cnt_le
  rw [← grown_holds_iff h hk ht (h.ne_range hk) rfl, hr]
  rw [LmbRegion.set_cnt] at hcnt hothers
  generalize (joinNext (rgn.set k (grown rgn ⟨base, rounded⟩ k)) k 1).2 = tbl at *
  rw [addrs_subset_iff hk', Range.addrs_subset h.size_pos]
  · exact and_iff_right (hcnt.trans h.cnt_le)
  · intro j hj hjk
    obtain ⟨i, hi, hik, heq⟩ := hothers j hj hjk
    rw [heq, LmbRegion.set_region_of_ne rgn _ hik]
    exact h.free i hi

/-- What `lmb_add_region` does with a free place, unless it fails. -/
theorem reserve_place_iff (h : rgn.Room base size rounded) (hres : (lmbAddRegion rgn base rounded).1 ≠ -1) :
    ((lmbAddRegion rgn base rounded).2.cnt ≤ maxLmbRegions ∧
      Range.addrs ⟨base, size⟩ ⊆ (lmbAddRegion rgn base rounded).2.addrs) ↔ rgn.Keeps base size rounded := by
  have hsub : Range.addrs ⟨base, size⟩ ⊆ Range.addrs ⟨base, rounded⟩ :=
    (Range.addrs_subset h.size_pos).mpr ⟨le_refl _, by have := h.size_le; simp only [Range.stop]; omega⟩
  have htouch : base + rounded = wordSize → ∀ j < rgn.cnt,
      ((rgn.region j).base = 0 ∨ (rgn.region j).stop = base ↔ rgn.Touches ⟨base, rounded⟩ j) :=
    fun hend j hj => (h.touches_iff hend hj).symm
  rcases Nat.eq_zero_or_pos rgn.cnt with hc | hc
  · rw [reserve_place_emptied hc h.size_pos h.size_le, LmbRegion.Keeps]
    constructor
    · exact fun hst => ⟨fun _ => hst, fun _ k hk => by omega⟩
    · exact fun hkeep => hkeep.1 hc
  have hpart : rgn.Keeps base size rounded ↔ (base + rounded = wordSize → ∀ k < rgn.cnt,
      rgn.Touches ⟨base, rounded⟩ k → (∀ j < k, ¬ rgn.Touches ⟨base, rounded⟩ j) → ¬ rgn.Loses base size k) := by
    rw [LmbRegion.Keeps, and_iff_right (fun h0 => by omega)]
    refine forall_congr' fun hend => forall_congr' fun k => forall_congr' fun hk => ?_
    rw [htouch hend k hk]
    refine forall_congr' fun _ => imp_congr_left (forall_congr' fun j => forall_congr' fun hj => ?_)
    rw [htouch hend j (by omega)]
  rw [hpart]
  by_cases hdummy : rgn.cnt = 1 ∧ (rgn.region 0).size = 0
  · have hr : lmbAddRegion rgn base rounded = (0, rgn.set 0 ⟨base, rounded⟩) := by rw [lmbAddRegion, if_pos hdummy]
    rw [hr]
    refine iff_of_true ⟨h.cnt_le, fun a ha => ⟨0, hc, ?_⟩⟩ ?_
    · rw [LmbRegion.set_region_self]
      exact hsub ha
    · intro _ k hk _ _ hlose
      obtain rfl : k = 0 := by omega
      have hpos := h.base_pos
      simp only [LmbRegion.Loses, hdummy, show ¬ 0 + 1 < 1 by omega, false_and, if_false] at hlose
      split at hlose
      next => omega
      next => exact hlose
  rcases coalesceLoop_first rgn ⟨base, rounded⟩ rgn.cnt 0 with ⟨k, -, hk, ht, hfirst, heq⟩ | ⟨hall, heq⟩
  · have hk : k < rgn.cnt := by omega
    rw [if_neg (h.ne_range hk)] at heq
    rw [reserve_place_touching h hk ht (lmbAddRegion_joined hdummy heq).2]
    constructor
    · rintro hkeep hend k' hk' ht' hfirst' hlose
      obtain rfl : k' = k := by
        by_contra hne
        rcases Nat.lt_or_gt_of_ne hne with hlt | hlt
        · exact hfirst k' (by omega) hlt ht'
        · exact hfirst' k hlt ht
      exact hkeep ⟨hend, hlose⟩
    · rintro hkeep ⟨hend, hlose⟩
      exact hkeep hend k hk ht (fun j hj => hfirst j (by omega) hj) hlose
  · have hnot : ∀ k < rgn.cnt, ¬ rgn.Touches ⟨base, rounded⟩ k := fun k hk => hall k (by omega) (by omega)
    have hr := lmbAddRegion_of_fresh hdummy hc h.cnt_le heq
    rw [hr] at hres ⊢
    split at hres
    next => exact absurd rfl hres
    next hfull =>
      rw [if_neg hfull]
      obtain ⟨p, hp, hentry⟩ := insertRegion_mem hc ⟨base, rounded⟩
      have hcnt := insertRegion_cnt (show rgn.cnt < maxLmbRegions by omega) base rounded
      refine iff_of_true ⟨by simp only [hcnt]; omega, fun a ha => ⟨p, by simp only [hcnt]; omega, ?_⟩⟩ ?_
      · rw [hentry]
        exact hsub ha
      · exact fun _ k hk htk => absurd htk (hnot k hk)

end

/-! ## Ranges that overlap -/

section
variable {rgn : LmbRegion} {x : LmbProperty} {k : Nat}

theorem LmbRegion.Rising.set {y : LmbProperty} (h : rgn.Rising) (hpos : 0 < y.size) (hstop : y.stop < wordSize)
    (hl : ∀ j < k, (rgn.region j).base ≤ y.base) (hr : y.base ≤ (rgn.region k).base) : (rgn.set k y).Rising := by
  have hcases : ∀ i < rgn.cnt, i = k ∧ (rgn.set k y).region i = y ∨ i ≠ k ∧ (rgn.set k y).region i = rgn.region i := by
    intro i _
    by_cases hik : i = k
    · exact .inl ⟨hik, hik ▸ rgn.set_region_self k y⟩
    · exact .inr ⟨hik, rgn.set_region_of_ne y hik⟩
  refine ⟨h.cnt_le, fun i hi => ?_, fun i hi => ?_, fun i j hij hj => ?_⟩
  · rcases hcases i hi with ⟨-, he⟩ | ⟨-, he⟩ <;> rw [he]
    exacts [hstop, h.stop_lt i hi]
  · rcases hcases i hi with ⟨-, he⟩ | ⟨-, he⟩ <;> rw [he]
    exacts [hpos, h.size_pos i hi]
  · rcases hcases i (hij.trans hj) with ⟨hik, hi⟩ | ⟨-, hi⟩ <;> rcases hcases j hj with ⟨hjk, hj'⟩ | ⟨-, hj'⟩ <;>
      rw [hi, hj']
    · exact hr.trans (h.bases k j (by omega) hj)
    · exact hl i (by omega)
    · exact h.bases i j hij hj

theorem LmbRegion.Rising.remove {r : Nat} (h : rgn.Rising) (hr : r < rgn.cnt) : (lmbRemoveRegion rgn r).Rising := by
  have hcnt := lmbRemoveRegion_cnt hr h.cnt_le
  have hreg : ∀ j < rgn.cnt - 1, (lmbRemoveRegion rgn r).region j = rgn.region (if j < r then j else j + 1) := by
    intro j hj
    rw [lmbRemoveRegion_region hr h.cnt_le hj, removeAt]
    split <;> rfl
  have hcle := h.cnt_le
  refine ⟨by omega, fun j hj => ?_, fun j hj => ?_, fun i j hij hj => ?_⟩
  · rw [hreg j (by omega)]
    exact h.stop_lt _ (by split <;> omega)
  · rw [hreg j (by omega)]
    exact h.size_pos _ (by split <;> omega)
  · rw [hreg i (by omega), hreg j (by omega)]
    exact h.bases _ _ (by split <;> split <;> omega) (by split <;> omega)

/-- Two regions that touch become one. -/
theorem LmbRegion.Rising.joinNext (h : rgn.Rising) (hk : k < rgn.cnt) (coalesced : Nat) :
    (joinNext rgn k coalesced).2.Rising ∧ ∀ i < (joinNext rgn k coalesced).2.cnt,
      ∃ j < rgn.cnt, ((joinNext rgn k coalesced).2.region i).base = (rgn.region j).base := by
  have hsub : sub32 rgn.cnt 1 = rgn.cnt - 1 := lmbRemoveRegion_cnt hk h.cnt_le
  rw [Lmb.joinNext]
  split
  case isFalse => exact ⟨h, fun i hi => ⟨i, hi, rfl⟩⟩
  case isTrue hjoin =>
    have hi : k + 1 < rgn.cnt := by omega
    have hadj := stop_eq_of_adjacent hi h.stop_lt (h.base_lt_stop hi) hjoin.2
    have hstop := h.stop_lt (k + 1) hi
    have hremove := lmbRemoveRegion_cnt hi h.cnt_le
    have hreg : ∀ j < rgn.cnt - 1, (lmbRemoveRegion rgn (k + 1)).region j = removeAt rgn.region (k + 1) j :=
      fun j hj => lmbRemoveRegion_region hi h.cnt_le hj
    have hself : (lmbRemoveRegion rgn (k + 1)).region k = rgn.region k := by
      rw [hreg k (by omega), removeAt, if_pos (by omega)]
    have hrising := h.remove hi
    simp only [lmbCoalesceRegions_eq hadj hstop]
    constructor
    · refine hrising.set ?_ (joined_stop hadj ▸ hstop) ?_ ?_
      · have := h.size_pos k hk
        simp only [joined]
        omega
      · intro j hj
        exact (hrising.bases j k hj (by omega)).trans_eq (by rw [hself, joined])
      · rw [hself, joined]
    · intro i hlt
      by_cases hik : i = k
      · subst hik
        exact ⟨i, hk, by rw [LmbRegion.set_region_self, joined]⟩
      · have hlt : i < (lmbRemoveRegion rgn (k + 1)).cnt := hlt
        rw [LmbRegion.set_region_of_ne _ _ hik, hreg i (by omega), removeAt]
        split
        next => exact ⟨i, by omega, rfl⟩
        next => exact ⟨i + 1, by omega, rfl⟩

/-- The bases of a table are those of another one. -/
def BasesFrom (rgn' rgn : LmbRegion) (x : LmbProperty) : Prop :=
  ∀ i < rgn'.cnt, (rgn'.region i).base = x.base ∨ ∃ j < rgn.cnt, (rgn'.region i).base = (rgn.region j).base

/-- A region that grows keeps the table in order when its new base is not below one before it. -/
theorem LmbRegion.Rising.grow {y : LmbProperty} (h : rgn.Rising) (hk : k < rgn.cnt) (hpos : 0 < y.size)
    (hstop : y.stop < wordSize) (hl : ∀ j < k, (rgn.region j).base ≤ y.base) (hr : y.base ≤ (rgn.region k).base)
    (hfrom : y.base = x.base ∨ y.base = (rgn.region k).base) :
    (Lmb.joinNext (rgn.set k y) k 1).2.Rising ∧ BasesFrom (Lmb.joinNext (rgn.set k y) k 1).2 rgn x := by
  obtain ⟨hrising, hbases⟩ := (h.set hpos hstop hl hr).joinNext hk 1
  refine ⟨hrising, fun i hi => ?_⟩
  obtain ⟨j, hj, heq⟩ := hbases i hi
  rw [heq]
  by_cases hjk : j = k
  · subst hjk
    rw [LmbRegion.set_region_self]
    exact hfrom.imp_right fun hb => ⟨j, hk, hb⟩
  · rw [LmbRegion.set_region_of_ne _ _ hjk]
    exact .inr ⟨j, hj, rfl⟩

theorem LmbRegion.Rising.insert (h : rgn.Rising) (hc : 0 < rgn.cnt) (hfull : rgn.cnt < maxLmbRegions) (hpos : 0 < x.size)
    (hstop : x.stop < wordSize) :
    (insertRegion rgn x.base x.size).Rising ∧ BasesFrom (insertRegion rgn x.base x.size) rgn x := by
  obtain ⟨p, hp, hlow, hhigh, hreg⟩ := insertRegion_insertAt hc h.bases x
  have hcnt := insertRegion_cnt hfull x.base x.size
  have hcases : ∀ i < rgn.cnt + 1, (insertRegion rgn x.base x.size).region i = x ∨
      ∃ j < rgn.cnt, (insertRegion rgn x.base x.size).region i = rgn.region j := by
    intro i hi
    rw [hreg i hi, insertAt]
    split
    next => exact .inr ⟨i, by omega, rfl⟩
    next =>
      split
      next => exact .inl rfl
      next => exact .inr ⟨i - 1, by omega, rfl⟩
  refine ⟨⟨by omega, fun i hi => ?_, fun i hi => ?_, fun i j hij hj => ?_⟩, fun i hi => ?_⟩
  · rcases hcases i (by omega) with he | ⟨j, hj, he⟩ <;> rw [he]
    exacts [hstop, h.stop_lt j hj]
  · rcases hcases i (by omega) with he | ⟨j, hj, he⟩ <;> rw [he]
    exacts [hpos, h.size_pos j hj]
  · rw [hreg i (by omega), hreg j (by omega), insertAt, insertAt]
    split_ifs with h1 h2 h3 h4 h5 h6
    all_goals first
      | omega
      | exact h.bases _ _ (by omega) (by omega)
      | exact hlow _ (by omega)
      | exact (hhigh _ (by omega) (by omega)).le
  · rcases hcases i (by omega) with he | ⟨j, hj, he⟩ <;> rw [he]
    exacts [.inl rfl, .inr ⟨j, hj, rfl⟩]

/-- A range may be added that overlaps others, as long as none of them begins inside it while another begins at its
end. -/
theorem LmbRegion.Rising.add (h : rgn.Rising) (hc : 0 < rgn.cnt) (hpos : 0 < x.size) (hstop : x.stop < wordSize)
    (hin : ∀ k < rgn.cnt, ∀ j < rgn.cnt, x.stop = (rgn.region k).base →
      ¬ (x.base < (rgn.region j).base ∧ (rgn.region j).base < x.stop)) :
    (lmbAddRegion rgn x.base x.size).2.Rising ∧ BasesFrom (lmbAddRegion rgn x.base x.size).2 rgn x := by
  have hdummy : ¬ (rgn.cnt = 1 ∧ (rgn.region 0).size = 0) := by
    have := h.size_pos 0 hc
    omega
  have hsame : BasesFrom rgn rgn x := fun i hi => .inr ⟨i, hi, rfl⟩
  have hend : add32 x.base x.size = x.stop := add32_eq hstop
  rcases coalesceLoop_first rgn x rgn.cnt 0 with ⟨k, -, hk, ht, hfirst, hl⟩ | ⟨hall, hl⟩
  · have hk : k < rgn.cnt := by omega
    have hkstop := h.stop_lt k hk
    by_cases hp : rgn.region k = x
    · rw [lmbAddRegion, if_neg hdummy, hl, if_pos hp]
      exact ⟨h, hsame⟩
    rw [if_neg hp] at hl
    rw [(lmbAddRegion_joined hdummy hl).2]
    have hkend : add32 (rgn.region k).base (rgn.region k).size = (rgn.region k).stop := add32_eq hkstop
    by_cases hdown : (rgn.region k).base = x.stop
    · have hgrown : grown rgn x k = ⟨x.base, (rgn.region k).size + x.size⟩ := by
        simp only [Range.stop] at hkstop hdown hstop
        rw [grown, if_pos (by rw [hend]; exact hdown), sub32_eq (by omega) (by omega), add32_eq (by omega), hdown]
        simp
      rw [hgrown]
      simp only [Range.stop] at hkstop hdown hstop
      refine h.grow hk (by simp only; omega) (by simp only [Range.stop]; omega) ?_ (by simp only; omega) (.inl rfl)
      intro j hj
      have hle := h.bases j k hj hk
      have hnot := hin k hk j (by omega) hdown.symm
      have htouch := hfirst j (by omega) hj
      rw [LmbRegion.Touches, hend] at htouch
      simp only [Range.stop] at hnot htouch
      simp only
      omega
    · have hup : x.base = (rgn.region k).stop := by
        rcases ht with ht | ht | ht
        · exact absurd ht hp
        · exact absurd (ht.trans hend) hdown
        · exact ht.trans hkend
      have hgrown : grown rgn x k = ⟨(rgn.region k).base, (rgn.region k).size + x.size⟩ := by
        simp only [Range.stop] at hkstop hup hstop
        rw [grown, if_neg (by rw [hend]; exact hdown), add32_eq (by omega)]
      rw [hgrown]
      simp only [Range.stop] at hkstop hup hstop
      exact h.grow hk (by simp only; omega) (by simp only [Range.stop]; omega) (fun j hj => h.bases j k hj hk) le_rfl (.inr rfl)
  · rw [lmbAddRegion_of_fresh hdummy hc h.cnt_le hl]
    split
    next => exact ⟨h, hsame⟩
    next => exact h.insert hc (by omega) hpos hstop

end

end Uboot.Lmb
