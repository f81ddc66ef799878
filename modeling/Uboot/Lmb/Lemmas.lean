import Mathlib.Tactic
import Uboot.Lmb.Basic

/-!
# What the operations on a region table do

A table is `Sorted` when its regions are nonempty, ordered and end before `2 ^ 32`. Then no sum or
difference wraps, and every operation is one of the changes of `Uboot.Lib.Ranges`.
-/

namespace Uboot.Lmb

open Uboot.Lib

structure LmbRegion.Sorted (rgn : LmbRegion) : Prop where
  cnt_le : rgn.cnt ≤ maxLmbRegions
  stop_lt : ∀ i < rgn.cnt, (rgn.region i).stop < wordSize
  size_pos : ∀ i < rgn.cnt, 0 < (rgn.region i).size
  ordered : Ordered rgn.cnt rgn.region

def LmbRegion.addrs (rgn : LmbRegion) : Set Nat := cover rgn.cnt rgn.region

theorem add32_eq {a b : Nat} (h : a + b < wordSize) : add32 a b = a + b := Nat.mod_eq_of_lt h

theorem sub32_eq {a b : Nat} (hb : b ≤ a) (ha : a < wordSize) : sub32 a b = a - b := by
  rw [sub32, show a + wordSize - b = (a - b) + wordSize by omega, Nat.add_mod_right]
  exact Nat.mod_eq_of_lt (by omega)

/-! ## Changing one region -/

theorem sorted_single {rgn : LmbRegion} {x : LmbProperty} (hc : rgn.cnt = 1) (hr : rgn.region 0 = x)
    (hx : 0 < x.size) (hstop : x.stop < wordSize) : rgn.Sorted ∧ rgn.addrs = x.addrs := by
  have h0 : ∀ j < rgn.cnt, j = 0 := by omega
  refine ⟨⟨by simp [hc, maxLmbRegions], ?_, ?_, by intro i j hij hj; omega⟩, ?_⟩
  · intro j hj; rw [h0 j hj, hr]; exact hstop
  · intro j hj; rw [h0 j hj, hr]; exact hx
  · ext a
    constructor
    · rintro ⟨j, hj, ha⟩
      rwa [h0 j hj, hr] at ha
    · intro ha
      exact ⟨0, by omega, by rwa [hr]⟩

theorem LmbRegion.Sorted.set {rgn : LmbRegion} {i : Nat} {x : LmbProperty} (h : rgn.Sorted)
    (hpos : 0 < x.size) (hstop : x.stop < wordSize) (hl : ∀ j < i, (rgn.region j).stop ≤ x.base)
    (hr : ∀ j, i < j → j < rgn.cnt → x.stop ≤ (rgn.region j).base) : (rgn.set i x).Sorted where
  cnt_le := h.cnt_le
  stop_lt := by
    intro j hj
    by_cases hji : j = i
    · subst hji; simpa [LmbRegion.set] using hstop
    · simpa [LmbRegion.set, hji] using h.stop_lt j hj
  size_pos := by
    intro j hj
    by_cases hji : j = i
    · subst hji; simpa [LmbRegion.set] using hpos
    · simpa [LmbRegion.set, hji] using h.size_pos j hj
  ordered := h.ordered.update hl hr

/-- A region may give up addresses at both ends. -/
theorem LmbRegion.Sorted.shrink {rgn : LmbRegion} {i : Nat} {x : LmbProperty} (h : rgn.Sorted)
    (hi : i < rgn.cnt) (hpos : 0 < x.size) (hb : (rgn.region i).base ≤ x.base)
    (hs : x.stop ≤ (rgn.region i).stop) : (rgn.set i x).Sorted := by
  refine h.set hpos (lt_of_le_of_lt hs (h.stop_lt i hi)) ?_ ?_
  · intro j hj
    exact (h.ordered j i hj hi).trans hb
  · intro j hij hj
    exact hs.trans (h.ordered i j hij hj)

/-! ## Removing a region -/

theorem shiftDown_apply (region : Nat → LmbProperty) (i n j : Nat) :
    shiftDown region i n j = if i ≤ j ∧ j < i + n then region (j + 1) else region j := by
  induction n generalizing region i with
  | zero => simp [shiftDown, show ¬ (i ≤ j ∧ j < i) by omega]
  | succ n ih =>
      rw [shiftDown, ih]
      -- the first round writes entry `i` only, which no later round reads
      rcases Nat.lt_trichotomy j i with h | h | h
      · simp [show ¬ (i + 1 ≤ j) by omega, show ¬ i ≤ j by omega, show j ≠ i by omega]
      · subst h; simp
      · simp [show i + 1 ≤ j by omega, show i ≤ j by omega, show j ≠ i by omega, show j + 1 ≠ i by omega,
          show i + 1 + n = i + (n + 1) by omega]

section
variable {rgn : LmbRegion} {r : Nat}

theorem lmbRemoveRegion_cnt (hr : r < rgn.cnt) (hc : rgn.cnt ≤ maxLmbRegions) :
    (lmbRemoveRegion rgn r).cnt = rgn.cnt - 1 :=
  sub32_eq (by omega) (by simp only [maxLmbRegions, wordSize] at *; omega)

theorem lmbRemoveRegion_region (hr : r < rgn.cnt) (hc : rgn.cnt ≤ maxLmbRegions) {j : Nat}
    (hj : j < rgn.cnt - 1) : (lmbRemoveRegion rgn r).region j = removeAt rgn.region r j := by
  have hcnt : sub32 rgn.cnt 1 = rgn.cnt - 1 := lmbRemoveRegion_cnt hr hc
  simp only [lmbRemoveRegion, shiftDown_apply, hcnt, removeAt]
  by_cases hjr : j < r
  · simp [hjr, show ¬ r ≤ j by omega]
  · simp [hjr, show r ≤ j by omega, show j < r + (rgn.cnt - 1 - r) by omega]

theorem lmbRemoveRegion_addrs (hr : r < rgn.cnt) (hc : rgn.cnt ≤ maxLmbRegions) :
    (lmbRemoveRegion rgn r).addrs = cover (rgn.cnt - 1) (removeAt rgn.region r) := by
  rw [LmbRegion.addrs, lmbRemoveRegion_cnt hr hc]
  exact cover_congr fun j hj => lmbRemoveRegion_region hr hc hj

theorem LmbRegion.Sorted.remove (h : rgn.Sorted) (hr : r < rgn.cnt) : (lmbRemoveRegion rgn r).Sorted := by
  have hcnt := lmbRemoveRegion_cnt hr h.cnt_le
  have hreg : ∀ j < rgn.cnt - 1, ∃ k < rgn.cnt, (lmbRemoveRegion rgn r).region j = rgn.region k := by
    intro j hj
    rw [lmbRemoveRegion_region hr h.cnt_le hj, removeAt]
    by_cases hjr : j < r
    · exact ⟨j, by omega, by simp [hjr]⟩
    · exact ⟨j + 1, by omega, by simp [hjr]⟩
  refine ⟨by have := h.cnt_le; omega, ?_, ?_, ?_⟩
  · intro j hj
    obtain ⟨k, hk, he⟩ := hreg j (by omega)
    rw [he]; exact h.stop_lt k hk
  · intro j hj
    obtain ⟨k, hk, he⟩ := hreg j (by omega)
    rw [he]; exact h.size_pos k hk
  · rw [hcnt]
    exact (h.ordered.removeAt hr).congr fun j hj => (lmbRemoveRegion_region hr h.cnt_le hj).symm

theorem lmbRemoveRegion_set {i : Nat} {x : LmbProperty} (hi : i < r) :
    lmbRemoveRegion (rgn.set i x) r = (lmbRemoveRegion rgn r).set i x := by
  simp only [lmbRemoveRegion, LmbRegion.set, LmbRegion.mk.injEq, true_and]
  funext j
  by_cases hji : j = i
  · subst hji; simp [shiftDown_apply, show ¬ r ≤ j by omega]
  · by_cases hrj : r ≤ j
    · simp [shiftDown_apply, hji, show j + 1 ≠ i by omega]
    · simp [shiftDown_apply, hji, hrj]

end

/-! ## Joining two neighbours -/

section
variable {rgn : LmbRegion} {i : Nat}

/-- In a sorted table only the end of a region can touch the next one. -/
theorem LmbRegion.Sorted.adjacent_iff (h : rgn.Sorted) (hi : i + 1 < rgn.cnt) :
    lmbRegionsAdjacent rgn i (i + 1) ≠ 0 ↔ (rgn.region i).stop = (rgn.region (i + 1)).base := by
  have h1 := h.stop_lt i (by omega)
  have h2 := h.stop_lt (i + 1) hi
  have hord := h.ordered i (i + 1) (by omega) hi
  have hpos := h.size_pos (i + 1) hi
  have hpos' := h.size_pos i (by omega)
  simp only [Range.stop] at *
  rw [lmbRegionsAdjacent, lmbAddrsAdjacent, add32_eq h1, add32_eq h2,
    if_neg (show ¬ (rgn.region i).base = (rgn.region (i + 1)).base + (rgn.region (i + 1)).size by omega)]
  by_cases hb : (rgn.region (i + 1)).base = (rgn.region i).base + (rgn.region i).size
  · simp [hb]
  · simp [hb, Ne.symm hb]

/-- A region with the next one, which begins where it ends. -/
def joined (rgn : LmbRegion) (i : Nat) : LmbProperty :=
  ⟨(rgn.region i).base, (rgn.region i).size + (rgn.region (i + 1)).size⟩

theorem lmbCoalesceRegions_eq (hadj : (rgn.region i).stop = (rgn.region (i + 1)).base)
    (hstop : (rgn.region (i + 1)).stop < wordSize) :
    lmbCoalesceRegions rgn i (i + 1) = (lmbRemoveRegion rgn (i + 1)).set i (joined rgn i) := by
  have hsize : add32 (rgn.region i).size (rgn.region (i + 1)).size =
      (rgn.region i).size + (rgn.region (i + 1)).size := add32_eq (by simp only [Range.stop] at *; omega)
  rw [lmbCoalesceRegions, hsize, lmbRemoveRegion_set (by omega), joined]

theorem joined_stop (hadj : (rgn.region i).stop = (rgn.region (i + 1)).base) :
    (joined rgn i).stop = (rgn.region (i + 1)).stop := by
  simp only [joined, Range.stop] at *
  omega

theorem lmbCoalesceRegions_addrs (hcnt : rgn.cnt ≤ maxLmbRegions) (hi : i + 1 < rgn.cnt)
    (hadj : (rgn.region i).stop = (rgn.region (i + 1)).base) (hstop : (rgn.region (i + 1)).stop < wordSize) :
    (lmbCoalesceRegions rgn i (i + 1)).addrs = rgn.addrs := by
  have hmem : ∀ a, a ∈ (joined rgn i).addrs ↔ a ∈ (rgn.region i).addrs ∨ a ∈ (rgn.region (i + 1)).addrs := by
    intro a
    simp only [joined, Range.mem_addrs, Range.stop] at *
    omega
  have hremove := lmbRemoveRegion_cnt hi hcnt
  have hreg : ∀ j < rgn.cnt - 1, (lmbRemoveRegion rgn (i + 1)).region j = removeAt rgn.region (i + 1) j :=
    fun j hj => lmbRemoveRegion_region hi hcnt hj
  rw [lmbCoalesceRegions_eq hadj hstop]
  ext a
  rw [LmbRegion.addrs, LmbRegion.set]
  simp only
  rw [mem_cover_update (by omega), hmem, hremove]
  constructor
  · rintro ((ha | ha) | ⟨j, hj, hji, ha⟩)
    · exact ⟨i, by omega, ha⟩
    · exact ⟨i + 1, hi, ha⟩
    · rw [hreg j hj] at ha
      obtain ⟨k, hk, -, ha⟩ := (mem_cover_removeAt hi).mp ⟨j, hj, ha⟩
      exact ⟨k, hk, ha⟩
  · rintro ⟨j, hj, ha⟩
    by_cases hji : j = i
    · exact .inl (.inl (hji ▸ ha))
    · by_cases hji' : j = i + 1
      · exact .inl (.inr (hji' ▸ ha))
      · obtain ⟨k, hk, hak⟩ := (mem_cover_removeAt hi).mpr ⟨j, hj, hji', ha⟩
        by_cases hki : k = i
        · subst hki
          simp only [removeAt, show k < k + 1 by omega, ↓reduceIte] at hak
          exact .inl (.inl hak)
        · exact .inr ⟨k, hk, hki, by rwa [hreg k hk]⟩

theorem LmbRegion.Sorted.coalesce (h : rgn.Sorted) (hi : i + 1 < rgn.cnt)
    (hadj : (rgn.region i).stop = (rgn.region (i + 1)).base) :
    (lmbCoalesceRegions rgn i (i + 1)).Sorted ∧ (lmbCoalesceRegions rgn i (i + 1)).addrs = rgn.addrs := by
  have h2 := h.stop_lt (i + 1) hi
  refine ⟨?_, lmbCoalesceRegions_addrs h.cnt_le hi hadj h2⟩
  have hcnt := lmbRemoveRegion_cnt hi h.cnt_le
  have hreg : ∀ j < rgn.cnt - 1, _ := fun j hj => lmbRemoveRegion_region hi h.cnt_le hj
  rw [lmbCoalesceRegions_eq hadj h2]
  refine (h.remove hi).set ?_ (joined_stop hadj ▸ h2) ?_ ?_
  · have := h.size_pos i (by omega)
    simp only [joined]
    omega
  · intro j hj
    rw [hreg j (by omega), removeAt, if_pos (by omega)]
    exact h.ordered j i hj (by omega)
  · intro j hij hj
    rw [hreg j (by omega), removeAt, if_neg (by omega), joined_stop hadj]
    exact h.ordered (i + 1) (j + 1) (by omega) (by omega)

end

/-! ## Adding a region -/

/-- The first loop of `lmb_add_region` stops at the first region that is the new one or touches it. -/
theorem coalesceLoop_cases (rgn : LmbRegion) (base size n i : Nat) :
    (∃ k, k < i + n ∧ rgn.region k = ⟨base, size⟩ ∧ coalesceLoop rgn base size n i = .present) ∨
    (∃ k, k < i + n ∧ (rgn.region k).base = add32 base size ∧ coalesceLoop rgn base size n i =
      .stop k 1 (rgn.set k ⟨sub32 (rgn.region k).base size, add32 (rgn.region k).size size⟩)) ∨
    (∃ k, k < i + n ∧ base = add32 (rgn.region k).base (rgn.region k).size ∧
      coalesceLoop rgn base size n i =
        .stop k 1 (rgn.set k ⟨(rgn.region k).base, add32 (rgn.region k).size size⟩)) ∨
    coalesceLoop rgn base size n i = .stop (i + n) 0 rgn := by
  induction n generalizing i with
  | zero => exact Or.inr (Or.inr (Or.inr rfl))
  | succ n ih =>
      rw [coalesceLoop]
      by_cases hp : (rgn.region i).base = base ∧ (rgn.region i).size = size
      · refine Or.inl ⟨i, by omega, ?_, by simp [hp]⟩
        rw [← hp.1, ← hp.2]
      by_cases hgt : (rgn.region i).base = add32 base size
      · exact Or.inr (Or.inl ⟨i, by omega, hgt, by simp only [if_neg hp, lmbAddrsAdjacent, if_pos hgt]; rfl⟩)
      by_cases hlt : base = add32 (rgn.region i).base (rgn.region i).size
      · refine Or.inr (Or.inr (Or.inl ⟨i, by omega, hlt, ?_⟩))
        simp only [if_neg hp, lmbAddrsAdjacent, if_neg hgt, if_pos hlt]
        rfl
      · have hadj : lmbAddrsAdjacent base size (rgn.region i).base (rgn.region i).size = 0 := by
          rw [lmbAddrsAdjacent, if_neg hgt, if_neg hlt]
        simp only [if_neg hp, hadj, lt_self_iff_false, if_false]
        rw [show i + (n + 1) = i + 1 + n by omega]
        exact ih (i + 1)

/-- The second loop of `lmb_add_region` moves the regions from `p` on up by one. The new region is written
only for `0 < p`. -/
theorem insertLoop_spec (base size k : Nat) (region : Nat → LmbProperty) :
    ∃ p ≤ k, (∀ j, p ≤ j → j < k → base < (region j).base) ∧ (0 < p → (region (p - 1)).base ≤ base) ∧
      ∀ j, insertLoop base size k region j =
        if p < j ∧ j ≤ k then region (j - 1) else if 0 < p ∧ j = p then ⟨base, size⟩ else region j := by
  induction k generalizing region with
  | zero =>
      refine ⟨0, by omega, by omega, by omega, ?_⟩
      intro j
      simp [insertLoop, show ¬ (0 < j ∧ j = 0) by omega]
  | succ i ih =>
      rw [insertLoop]
      by_cases hb : base < (region i).base
      · obtain ⟨p, hp, hge, hlt, heq⟩ := ih (Function.update region (i + 1) (region i))
        have hsame : ∀ j, j ≠ i + 1 → Function.update region (i + 1) (region i) j = region j := by
          intro j hj; simp [hj]
        refine ⟨p, by omega, ?_, ?_, ?_⟩
        · intro j hpj hj
          by_cases hji : j = i
          · subst hji; exact hb
          · have := hge j hpj (by omega)
            rwa [hsame j (by omega)] at this
        · intro hp0
          have := hlt hp0
          rwa [hsame (p - 1) (by omega)] at this
        · intro j
          rw [if_pos hb, heq j]
          by_cases hji : j = i + 1
          · subst hji
            simp [show p < i + 1 by omega, show ¬ i + 1 = p by omega]
          · by_cases hpj : p < j ∧ j ≤ i
            · rw [if_pos hpj, if_pos (by omega), hsame (j - 1) (by omega)]
            · rw [if_neg hpj, if_neg (show ¬ (p < j ∧ j ≤ i + 1) by omega), hsame j hji]
      · refine ⟨i + 1, by omega, by omega, fun _ => by simpa using hb, ?_⟩
        intro j
        rw [if_neg hb, if_neg (by omega)]
        by_cases hji : j = i + 1
        · subst hji; simp
        · simp [hji]

section
variable {rgn : LmbRegion} {x : LmbProperty}

/-- Where a new range goes in a sorted table that has none of its addresses. -/
theorem LmbRegion.Sorted.beside (h : rgn.Sorted) (hx : 0 < x.size) (hd : Disjoint x.addrs rgn.addrs)
    {j : Nat} (hj : j < rgn.cnt) : x.stop ≤ (rgn.region j).base ∨ (rgn.region j).stop ≤ x.base :=
  Range.before_or_after hx (h.size_pos j hj) (hd.mono_right (subset_cover _ hj))

/-- The regions before one that begins after `x` are not all before `x`, but those before one that touches
`x` from above are. -/
theorem LmbRegion.Sorted.before_of_touch (h : rgn.Sorted) (hx : 0 < x.size)
    (hd : Disjoint x.addrs rgn.addrs) {j k : Nat} (hjk : j < k) (hk : k < rgn.cnt)
    (ht : (rgn.region k).base = x.stop) : (rgn.region j).stop ≤ x.base := by
  have hord := h.ordered j k hjk hk
  have hpos := h.size_pos j (by omega)
  rcases h.beside hx hd (show j < rgn.cnt by omega) with hb | hb
  · simp only [Range.stop] at *; omega
  · exact hb

theorem LmbRegion.Sorted.of_insertAt {rgn' : LmbRegion} {p : Nat} (h : rgn.Sorted) (hp : p ≤ rgn.cnt)
    (hfull : rgn.cnt < maxLmbRegions) (hcnt : rgn'.cnt = rgn.cnt + 1)
    (hreg : ∀ j < rgn.cnt + 1, rgn'.region j = insertAt rgn.region p x j)
    (hx : 0 < x.size) (hstop : x.stop < wordSize) (hl : ∀ j < p, (rgn.region j).stop ≤ x.base)
    (hr : ∀ j, p ≤ j → j < rgn.cnt → x.stop ≤ (rgn.region j).base) :
    rgn'.Sorted ∧ rgn'.addrs = rgn.addrs ∪ x.addrs := by
  have hold : ∀ j < rgn.cnt + 1, rgn'.region j = x ∨ ∃ k < rgn.cnt, rgn'.region j = rgn.region k := by
    intro j hj
    rw [hreg j hj, insertAt]
    by_cases hjp : j < p
    · exact Or.inr ⟨j, by omega, by simp [hjp]⟩
    by_cases hjp' : j = p
    · exact Or.inl (by simp [hjp'])
    · exact Or.inr ⟨j - 1, by omega, by simp [hjp, hjp']⟩
  refine ⟨⟨by omega, ?_, ?_, ?_⟩, ?_⟩
  · intro j hj
    rcases hold j (by omega) with he | ⟨k, hk, he⟩
    · rw [he]; exact hstop
    · rw [he]; exact h.stop_lt k hk
  · intro j hj
    rcases hold j (by omega) with he | ⟨k, hk, he⟩
    · rw [he]; exact hx
    · rw [he]; exact h.size_pos k hk
  · rw [hcnt]
    exact (h.ordered.insertAt hp hl hr).congr fun j hj => (hreg j hj).symm
  · rw [LmbRegion.addrs, hcnt, cover_congr hreg, cover_insertAt hp]
    rfl

/-- A new range goes after all that do not begin after it. Entry 0 is written by the second loop or, when the range comes
first, after it. -/
theorem insertRegion_insertAt (hc : 0 < rgn.cnt)
    (hbases : ∀ i j, i < j → j < rgn.cnt → (rgn.region i).base ≤ (rgn.region j).base) (x : LmbProperty) :
    ∃ p ≤ rgn.cnt, (∀ j < p, (rgn.region j).base ≤ x.base) ∧
      (∀ j, p ≤ j → j < rgn.cnt → x.base < (rgn.region j).base) ∧
      ∀ j < rgn.cnt + 1, (insertRegion rgn x.base x.size).region j = insertAt rgn.region p x j := by
  obtain ⟨p, hp, hge, hlt, heq⟩ := insertLoop_spec x.base x.size rgn.cnt rgn.region
  have hl : ∀ j < p, (rgn.region j).base ≤ x.base := by
    intro j hj
    have hp1 := hlt (by omega)
    by_cases hjp : j = p - 1
    · exact hjp ▸ hp1
    · exact (hbases j (p - 1) (by omega) (by omega)).trans hp1
  have h0 : x.base < (insertLoop x.base x.size rgn.cnt rgn.region 0).base ↔ p = 0 := by
    rw [heq 0, if_neg (by omega), if_neg (by omega)]
    constructor
    · intro hb
      by_contra hp0
      have := hl 0 (by omega)
      omega
    · intro hp0
      exact hge 0 (by omega) hc
  refine ⟨p, hp, hl, hge, ?_⟩
  intro j hj
  simp only [insertRegion, h0, insertAt]
  by_cases hp0 : p = 0
  · subst hp0
    by_cases hj0 : j = 0
    · simp [hj0]
    · simp [hj0, heq, show 0 < j ∧ j ≤ rgn.cnt by omega]
  · rw [if_neg hp0, heq]
    rcases Nat.lt_trichotomy j p with hjp | hjp | hjp
    · simp [hjp, show ¬ p < j by omega, show j ≠ p by omega]
    · subst hjp; simp [Nat.pos_of_ne_zero hp0]
    · simp [hjp, show j ≤ rgn.cnt by omega, show ¬ j < p by omega, show j ≠ p by omega]

theorem LmbRegion.Sorted.bases (h : rgn.Sorted) {i j : Nat} (hij : i < j) (hj : j < rgn.cnt) :
    (rgn.region i).base ≤ (rgn.region j).base :=
  (Nat.le_add_right _ _).trans (h.ordered i j hij hj)

theorem insertRegion_cnt (hfull : rgn.cnt < maxLmbRegions) (base size : Nat) :
    (insertRegion rgn base size).cnt = rgn.cnt + 1 :=
  add32_eq (by simp only [maxLmbRegions, wordSize] at *; omega)

theorem LmbRegion.Sorted.insert (h : rgn.Sorted) (hc : 0 < rgn.cnt) (hfull : rgn.cnt < maxLmbRegions)
    (hx : 0 < x.size) (hstop : x.stop < wordSize) (hd : Disjoint x.addrs rgn.addrs) :
    (insertRegion rgn x.base x.size).Sorted ∧
      (insertRegion rgn x.base x.size).addrs = rgn.addrs ∪ x.addrs := by
  obtain ⟨p, hp, hlt, hge, hreg⟩ := insertRegion_insertAt hc (fun _ _ => h.bases) x
  have hl : ∀ j < p, (rgn.region j).stop ≤ x.base := by
    intro j hj
    have hbase := hlt j hj
    rcases h.beside hx hd (show j < rgn.cnt by omega) with hb | hb
    · simp only [Range.stop] at hb; omega
    · exact hb
  have hr : ∀ j, p ≤ j → j < rgn.cnt → x.stop ≤ (rgn.region j).base := by
    intro j hpj hj
    have hbase := hge j hpj hj
    rcases h.beside hx hd hj with hb | hb
    · exact hb
    · simp only [Range.stop] at hb; omega
  exact h.of_insertAt hp hfull (insertRegion_cnt hfull _ _) hreg hx hstop hl hr

/-- A region grows down by `x`, which it touches from above. -/
theorem LmbRegion.Sorted.grow_down (h : rgn.Sorted) (hx : 0 < x.size) (hd : Disjoint x.addrs rgn.addrs)
    {k : Nat} (hk : k < rgn.cnt) (ht : (rgn.region k).base = x.stop) :
    (rgn.set k ⟨x.base, (rgn.region k).size + x.size⟩).Sorted ∧
      (rgn.set k ⟨x.base, (rgn.region k).size + x.size⟩).addrs = rgn.addrs ∪ x.addrs := by
  have hk' := h.stop_lt k hk
  have hx' : Range.stop ⟨x.base, (rgn.region k).size + x.size⟩ = (rgn.region k).stop := by
    simp only [Range.stop] at *; omega
  constructor
  · refine h.set (by simp only; omega) (hx' ▸ hk') ?_ ?_
    · intro j hj
      exact h.before_of_touch hx hd hj hk ht
    · intro j hkj hj
      rw [hx']; exact h.ordered k j hkj hj
  · refine cover_update_union hk ?_
    ext a
    simp only [Set.mem_union, Range.mem_addrs, Range.stop] at *
    omega

/-- A region grows up by `x`, which it touches from below. -/
theorem LmbRegion.Sorted.grow_up (h : rgn.Sorted) (hx : 0 < x.size) (hstop : x.stop < wordSize)
    (hd : Disjoint x.addrs rgn.addrs) {k : Nat} (hk : k < rgn.cnt) (ht : x.base = (rgn.region k).stop) :
    (rgn.set k ⟨(rgn.region k).base, (rgn.region k).size + x.size⟩).Sorted ∧
      (rgn.set k ⟨(rgn.region k).base, (rgn.region k).size + x.size⟩).addrs = rgn.addrs ∪ x.addrs := by
  have hx' : Range.stop ⟨(rgn.region k).base, (rgn.region k).size + x.size⟩ = x.stop := by
    simp only [Range.stop] at *; omega
  constructor
  · refine h.set (by simp only; omega) (hx' ▸ hstop) ?_ ?_
    · intro j hj
      exact h.ordered j k hj hk
    · intro j hkj hj
      rw [hx']
      have hord := h.ordered k j hkj hj
      have hpos := h.size_pos j hj
      rcases h.beside hx hd hj with hb | hb
      · exact hb
      · simp only [Range.stop] at *; omega
  · refine cover_update_union hk ?_
    ext a
    simp only [Set.mem_union, Range.mem_addrs, Range.stop] at *
    omega

theorem LmbRegion.Sorted.joinNext (h : rgn.Sorted) (hc : 0 < rgn.cnt) (i coalesced : Nat) :
    ∃ coalesced' rgn', joinNext rgn i coalesced = (coalesced', rgn') ∧ coalesced ≤ coalesced' ∧
      rgn'.Sorted ∧ rgn'.addrs = rgn.addrs := by
  have hcnt : sub32 rgn.cnt 1 = rgn.cnt - 1 := lmbRemoveRegion_cnt hc h.cnt_le
  rw [Lmb.joinNext]
  by_cases hj : i < sub32 rgn.cnt 1 ∧ lmbRegionsAdjacent rgn i (i + 1) ≠ 0
  · have hi : i + 1 < rgn.cnt := by have := hj.1; omega
    rw [if_pos hj]
    exact ⟨_, _, rfl, by omega, h.coalesce hi ((h.adjacent_iff hi).mp hj.2)⟩
  · rw [if_neg hj]
    exact ⟨_, _, rfl, le_refl _, h, rfl⟩

theorem lmbAddRegion_of_stop {base size i coalesced coalesced' : Nat} {rgn' rgn'' : LmbRegion}
    (hdummy : ¬ (rgn.cnt = 1 ∧ (rgn.region 0).size = 0))
    (hl : coalesceLoop rgn base size rgn.cnt 0 = .stop i coalesced rgn')
    (hj : joinNext rgn' i coalesced = (coalesced', rgn'')) :
    lmbAddRegion rgn base size =
      if coalesced' ≠ 0 then ((coalesced' : Int), rgn'')
      else if maxLmbRegions ≤ rgn''.cnt then (-1, rgn'') else (0, insertRegion rgn'' base size) := by
  rw [lmbAddRegion, if_neg hdummy, hl]
  simp only [hj]

theorem lmbAddRegion_of_coalesced {base size k : Nat} {rgn' : LmbRegion}
    (hdummy : ¬ (rgn.cnt = 1 ∧ (rgn.region 0).size = 0))
    (hl : coalesceLoop rgn base size rgn.cnt 0 = .stop k 1 rgn') (h : rgn'.Sorted) (hc : 0 < rgn'.cnt) :
    (lmbAddRegion rgn base size).2.Sorted ∧ (lmbAddRegion rgn base size).2.addrs = rgn'.addrs := by
  obtain ⟨coalesced, rgn'', hj, hpos, hs, ha⟩ := h.joinNext hc k 1
  rw [lmbAddRegion_of_stop hdummy hl hj, if_pos (by omega)]
  exact ⟨hs, ha⟩

theorem lmbAddRegion_joined {base size k : Nat} {rgn' : LmbRegion} (hdummy : ¬ (rgn.cnt = 1 ∧ (rgn.region 0).size = 0))
    (hl : coalesceLoop rgn base size rgn.cnt 0 = .stop k 1 rgn') :
    (lmbAddRegion rgn base size).1 ≠ -1 ∧ (lmbAddRegion rgn base size).2 = (joinNext rgn' k 1).2 := by
  have hpos : (joinNext rgn' k 1).1 ≠ 0 := by
    rw [joinNext]
    split <;> simp
  cases hj : joinNext rgn' k 1 with
  | mk coalesced rgn'' =>
    rw [hj] at hpos
    rw [lmbAddRegion_of_stop hdummy hl hj, if_pos hpos]
    exact ⟨by simp only; omega, rfl⟩

/-- No region is the new one or touches it. -/
theorem lmbAddRegion_of_fresh {base size : Nat} (hdummy : ¬ (rgn.cnt = 1 ∧ (rgn.region 0).size = 0)) (hc : 0 < rgn.cnt)
    (hle : rgn.cnt ≤ maxLmbRegions) (hl : coalesceLoop rgn base size rgn.cnt 0 = .stop (0 + rgn.cnt) 0 rgn) :
    lmbAddRegion rgn base size =
      if maxLmbRegions ≤ rgn.cnt then (-1, rgn) else (0, insertRegion rgn base size) := by
  have hcnt : sub32 rgn.cnt 1 = rgn.cnt - 1 := lmbRemoveRegion_cnt hc hle
  have hj : joinNext rgn (0 + rgn.cnt) 0 = (0, rgn) := by
    rw [joinNext, if_neg]
    rintro ⟨hlt, -⟩
    omega
  rw [lmbAddRegion_of_stop hdummy hl hj, if_neg (by simp)]

/-- `lmb_add_region` on a table with regions adds the range, or leaves a full table as it is. -/
theorem LmbRegion.Sorted.add (h : rgn.Sorted) (hc : 0 < rgn.cnt) (hx : 0 < x.size)
    (hstop : x.stop < wordSize) (hd : Disjoint x.addrs rgn.addrs) :
    (lmbAddRegion rgn x.base x.size).2.Sorted ∧
      ((lmbAddRegion rgn x.base x.size).1 ≠ -1 →
        (lmbAddRegion rgn x.base x.size).2.addrs = rgn.addrs ∪ x.addrs) := by
  have hdummy : ¬ (rgn.cnt = 1 ∧ (rgn.region 0).size = 0) := by
    have := h.size_pos 0 hc; omega
  rcases coalesceLoop_cases rgn x.base x.size rgn.cnt 0 with
    ⟨k, hk, he, hl⟩ | ⟨k, hk, he, hl⟩ | ⟨k, hk, he, hl⟩ | hl
  · -- a region that is the range itself is not disjoint from it
    have hmem : x.base ∈ x.addrs := Range.mem_addrs.mpr (by omega)
    have hmem' : x.base ∈ rgn.addrs := ⟨k, by omega, by rw [he]; exact hmem⟩
    exact absurd hmem' (Set.disjoint_left.mp hd hmem)
  · have hk' := h.stop_lt k (by omega)
    rw [add32_eq hstop] at he
    have hbase : sub32 (rgn.region k).base x.size = x.base := by
      rw [sub32_eq] <;> simp only [Range.stop] at hk' <;> omega
    have hsize : add32 (rgn.region k).size x.size = (rgn.region k).size + x.size :=
      add32_eq (by simp only [Range.stop] at hk'; omega)
    rw [hbase, hsize] at hl
    obtain ⟨hs, ha⟩ := h.grow_down hx hd (by omega) he
    obtain ⟨hs', ha'⟩ := lmbAddRegion_of_coalesced hdummy hl hs hc
    exact ⟨hs', fun _ => ha'.trans ha⟩
  · have hk' := h.stop_lt k (by omega)
    rw [add32_eq hk'] at he
    have hsize : add32 (rgn.region k).size x.size = (rgn.region k).size + x.size :=
      add32_eq (by simp only [Range.stop] at hstop; omega)
    rw [hsize] at hl
    obtain ⟨hs, ha⟩ := h.grow_up hx hstop hd (by omega) he
    obtain ⟨hs', ha'⟩ := lmbAddRegion_of_coalesced hdummy hl hs hc
    exact ⟨hs', fun _ => ha'.trans ha⟩
  · rw [lmbAddRegion_of_fresh hdummy hc h.cnt_le hl]
    by_cases hfull : maxLmbRegions ≤ rgn.cnt
    · rw [if_pos hfull]
      exact ⟨h, fun hne => absurd rfl hne⟩
    · rw [if_neg hfull]
      obtain ⟨hs, ha⟩ := h.insert hc (by omega) hx hstop hd
      exact ⟨hs, fun _ => ha⟩

/-! ## A range that overlaps others

The size that `lmb_alloc_base` reserves is rounded up, and may reach into the next region; the reservations of a device tree
may overlap anything. -/

/-- The regions do not wrap and begin one after the other. They may overlap. -/
structure LmbRegion.Rising (rgn : LmbRegion) : Prop where
  cnt_le : rgn.cnt ≤ maxLmbRegions
  stop_lt : ∀ i < rgn.cnt, (rgn.region i).stop < wordSize
  size_pos : ∀ i < rgn.cnt, 0 < (rgn.region i).size
  bases : ∀ i j, i < j → j < rgn.cnt → (rgn.region i).base ≤ (rgn.region j).base

/-- A region does not touch the next one from above when it does not begin at that one's end. -/
theorem stop_eq_of_adjacent {k : Nat} (hk : k + 1 < rgn.cnt) (hstop : ∀ i < rgn.cnt, (rgn.region i).stop < wordSize)
    (hne : (rgn.region k).base < (rgn.region (k + 1)).stop) (hadj : lmbRegionsAdjacent rgn k (k + 1) ≠ 0) :
    (rgn.region k).stop = (rgn.region (k + 1)).base := by
  have hk1 := hstop k (by omega)
  have hk2 := hstop (k + 1) hk
  simp only [Range.stop] at *
  rw [lmbRegionsAdjacent, lmbAddrsAdjacent, add32_eq hk1, add32_eq hk2] at hadj
  by_contra hcon
  simp [Ne.symm hcon, show ¬ (rgn.region k).base = (rgn.region (k + 1)).base + (rgn.region (k + 1)).size by omega] at hadj

theorem joinNext_addrs {k : Nat} (hcnt : rgn.cnt ≤ maxLmbRegions) (hk : k < rgn.cnt)
    (hstop : ∀ i < rgn.cnt, (rgn.region i).stop < wordSize)
    (hne : k + 1 < rgn.cnt → (rgn.region k).base < (rgn.region (k + 1)).stop) (coalesced : Nat) :
    (joinNext rgn k coalesced).2.addrs = rgn.addrs ∧
      ∀ i < (joinNext rgn k coalesced).2.cnt, ((joinNext rgn k coalesced).2.region i).stop < wordSize := by
  have hsub : sub32 rgn.cnt 1 = rgn.cnt - 1 := lmbRemoveRegion_cnt hk hcnt
  rw [joinNext]
  split
  case isFalse => exact ⟨rfl, hstop⟩
  case isTrue hjoin =>
    have hi : k + 1 < rgn.cnt := by omega
    have hk2 := hstop (k + 1) hi
    have hadj := stop_eq_of_adjacent hi hstop (hne hi) hjoin.2
    refine ⟨lmbCoalesceRegions_addrs hcnt hi hadj hk2, ?_⟩
    simp only [lmbCoalesceRegions_eq hadj hk2]
    intro i hlt
    have hremove := lmbRemoveRegion_cnt hi hcnt
    simp only [LmbRegion.set] at hlt ⊢
    by_cases hik : i = k
    · subst hik
      simpa [joined_stop hadj] using hk2
    · rw [Function.update_of_ne hik, lmbRemoveRegion_region hi hcnt (by omega), removeAt]
      split
      next => exact hstop i (by omega)
      next => exact hstop (i + 1) (by omega)

theorem set_addrs {k : Nat} {y : LmbProperty} (hk : k < rgn.cnt) (hold : (rgn.region k).addrs ⊆ y.addrs)
    (hnew : x.addrs ⊆ y.addrs) : rgn.addrs ⊆ (rgn.set k y).addrs ∧ x.addrs ⊆ (rgn.set k y).addrs := by
  simp only [LmbRegion.addrs, LmbRegion.set]
  constructor
  · rintro a ⟨j, hj, ha⟩
    rw [mem_cover_update hk]
    by_cases hjk : j = k
    · subst hjk
      exact .inl (hold ha)
    · exact .inr ⟨j, hj, hjk, ha⟩
  · intro a ha
    rw [mem_cover_update hk]
    exact .inl (hnew ha)

theorem LmbRegion.Rising.base_lt_stop {k : Nat} (h : rgn.Rising) (hk : k + 1 < rgn.cnt) :
    (rgn.region k).base < (rgn.region (k + 1)).stop := by
  have hbase := h.bases k (k + 1) (by omega) hk
  have hpos := h.size_pos (k + 1) hk
  simp only [Range.stop]
  omega

theorem LmbRegion.Rising.add_grown {k : Nat} {y : LmbProperty} (h : rgn.Rising) (hk : k < rgn.cnt)
    (hl : coalesceLoop rgn x.base x.size rgn.cnt 0 = .stop k 1 (rgn.set k y)) (hstop : y.stop < wordSize)
    (hbase : y.base ≤ (rgn.region k).base) (hold : (rgn.region k).addrs ⊆ y.addrs) (hnew : x.addrs ⊆ y.addrs) :
    (rgn.addrs ⊆ (lmbAddRegion rgn x.base x.size).2.addrs ∧ x.addrs ⊆ (lmbAddRegion rgn x.base x.size).2.addrs) ∧
      ∀ i < (lmbAddRegion rgn x.base x.size).2.cnt, ((lmbAddRegion rgn x.base x.size).2.region i).stop < wordSize := by
  have hdummy : ¬ (rgn.cnt = 1 ∧ (rgn.region 0).size = 0) := by
    have := h.size_pos 0 (by omega); omega
  have hset : ∀ i < (rgn.set k y).cnt, ((rgn.set k y).region i).stop < wordSize := by
    intro i hi
    by_cases hik : i = k
    · subst hik
      simpa [LmbRegion.set] using hstop
    · simpa [LmbRegion.set, hik] using h.stop_lt i hi
  have hne : k + 1 < (rgn.set k y).cnt → ((rgn.set k y).region k).base < ((rgn.set k y).region (k + 1)).stop := by
    intro hk1
    have hord := h.base_lt_stop hk1
    simp only [LmbRegion.set, Function.update_self, Function.update_of_ne (show k + 1 ≠ k by omega), Range.stop] at *
    omega
  obtain ⟨haddrs, hstops⟩ := @joinNext_addrs (rgn.set k y) k h.cnt_le hk hset hne 1
  obtain ⟨hrgn, hx⟩ := set_addrs hk hold hnew
  rw [(lmbAddRegion_joined hdummy hl).2, haddrs]
  exact ⟨⟨hrgn, hx⟩, hstops⟩

theorem LmbRegion.Rising.insert_addrs (h : rgn.Rising) (hc : 0 < rgn.cnt) (hfull : rgn.cnt < maxLmbRegions)
    (x : LmbProperty) : (insertRegion rgn x.base x.size).addrs = rgn.addrs ∪ x.addrs := by
  obtain ⟨p, hp, -, -, hreg⟩ := insertRegion_insertAt hc h.bases x
  rw [LmbRegion.addrs, insertRegion_cnt hfull, cover_congr hreg, cover_insertAt hp]
  rfl

/-- What is reserved stays reserved, and the new range is, too, unless the table is full. -/
theorem LmbRegion.Rising.add_covers (h : rgn.Rising) (hc : 0 < rgn.cnt) (hstop : x.stop < wordSize) :
    rgn.addrs ⊆ (lmbAddRegion rgn x.base x.size).2.addrs ∧
      ((lmbAddRegion rgn x.base x.size).1 ≠ -1 → x.addrs ⊆ (lmbAddRegion rgn x.base x.size).2.addrs) ∧
      ∀ i < (lmbAddRegion rgn x.base x.size).2.cnt, ((lmbAddRegion rgn x.base x.size).2.region i).stop < wordSize := by
  have hdummy : ¬ (rgn.cnt = 1 ∧ (rgn.region 0).size = 0) := by
    have := h.size_pos 0 hc; omega
  rcases coalesceLoop_cases rgn x.base x.size rgn.cnt 0 with
    ⟨k, hk, he, hl⟩ | ⟨k, hk, he, hl⟩ | ⟨k, hk, he, hl⟩ | hl
  · have hadd : lmbAddRegion rgn x.base x.size = (0, rgn) := by rw [lmbAddRegion, if_neg hdummy, hl]
    have hk : k < rgn.cnt := by omega
    rw [hadd]
    exact ⟨subset_rfl, fun _ a ha => ⟨k, hk, by rwa [he]⟩, h.stop_lt⟩
  · have hk' := h.stop_lt k (by omega)
    rw [add32_eq hstop] at he
    simp only [Range.stop] at hk' hstop
    rw [sub32_eq (by omega) (by omega), add32_eq (by omega)] at hl
    obtain ⟨⟨hrgn, hx⟩, hstops⟩ := h.add_grown (by omega) hl (by simp only [Range.stop]; omega) (by simp)
      (fun a => by simp only [Range.mem_addrs]; omega) (fun a => by simp only [Range.mem_addrs]; omega)
    exact ⟨hrgn, fun _ => hx, hstops⟩
  · have hk' := h.stop_lt k (by omega)
    rw [add32_eq hk'] at he
    simp only [Range.stop] at hk' hstop
    rw [add32_eq (by omega)] at hl
    obtain ⟨⟨hrgn, hx⟩, hstops⟩ := h.add_grown (by omega) hl (by simp only [Range.stop]; omega) (le_refl _)
      (fun a => by simp only [Range.mem_addrs]; omega) (fun a => by simp only [Range.mem_addrs]; omega)
    exact ⟨hrgn, fun _ => hx, hstops⟩
  · rw [lmbAddRegion_of_fresh hdummy hc h.cnt_le hl]
    split
    next => exact ⟨subset_rfl, fun hne => absurd rfl hne, h.stop_lt⟩
    next hfull =>
      obtain ⟨p, hp, -, -, hreg⟩ := insertRegion_insertAt hc h.bases x
      have hcnt := insertRegion_cnt (show rgn.cnt < maxLmbRegions by omega) x.base x.size
      rw [h.insert_addrs hc (by omega) x]
      refine ⟨Set.subset_union_left, fun _ => Set.subset_union_right, fun i hi => ?_⟩
      simp only [hcnt] at hi
      rw [hreg i (by omega), insertAt]
      split
      next => exact h.stop_lt i (by omega)
      next =>
        split
        next => exact hstop
        next => exact h.stop_lt (i - 1) (by omega)

end

end Uboot.Lmb
