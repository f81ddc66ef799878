import Uboot.Lmb.Lemmas

/-!
# Allocation

`lmb_alloc_base` looks for a place from the end of a memory region down. What it finds is the highest place that is
free.
-/

namespace Uboot.Lmb

open Uboot.Lib

/-- `lmb_align_down` -/
def lmbAlignDown (addr size : Nat) : Nat := addr &&& (wordSize - 1 - sub32 size 1)

/-- `lmb_align_up` -/
def lmbAlignUp (addr size : Nat) : Nat := add32 addr (sub32 size 1) &&& (wordSize - 1 - sub32 size 1)

/-- `lmb_addrs_overlap` -/
def LmbAddrsOverlap (base1 size1 base2 size2 : Nat) : Prop := base1 < add32 base2 size2 ∧ base2 < add32 base1 size1

instance (base1 size1 base2 size2 : Nat) : Decidable (LmbAddrsOverlap base1 size1 base2 size2) :=
  inferInstanceAs (Decidable (_ ∧ _))

/-- The loop of `lmb_overlaps_region`, from `i` on. -/
def overlapsLoop (rgn : LmbRegion) (base size : Nat) : Nat → Nat → Option Nat
  | 0, _ => none
  | n + 1, i =>
      if LmbAddrsOverlap base size (rgn.region i).base (rgn.region i).size then some i
      else overlapsLoop rgn base size n (i + 1)

/-- `lmb_overlaps_region` -/
def lmbOverlapsRegion (rgn : LmbRegion) (base size : Nat) : Option Nat := overlapsLoop rgn base size rgn.cnt 0

/-- The inner loop of `__lmb_alloc_base`. The place goes down in every round, so there are at most as many rounds as
addresses. -/
def searchLoop (reserved : LmbRegion) (size align lmbbase : Nat) : Nat → Nat → Option Nat
  | 0, _ => none
  | n + 1, base =>
      if base ≠ 0 ∧ lmbbase ≤ base then
        match lmbOverlapsRegion reserved base size with
        | none => some base
        | some j =>
            let resBase := (reserved.region j).base
            if resBase < size then none
            else searchLoop reserved size align lmbbase n (lmbAlignDown (resBase - size) align)
      else none

/-- Where the search in a memory region starts. -/
def searchStart (mem : LmbProperty) (size align maxAddr : Nat) : Option Nat :=
  if mem.size < size then none
  else if maxAddr = 0 then some (lmbAlignDown (sub32 (add32 mem.base mem.size) size) align)
  else if mem.base < maxAddr then some (lmbAlignDown (sub32 (min (add32 mem.base mem.size) maxAddr) size) align)
  else none

/-- The outer loop of `__lmb_alloc_base`, with `i` memory regions left. -/
def allocLoop (lmb : LmbState) (size align maxAddr : Nat) : Nat → Nat × LmbState
  | 0 => (0, lmb)
  | i + 1 =>
      match searchStart (lmb.memory.region i) size align maxAddr with
      | none => allocLoop lmb size align maxAddr i
      | some start =>
          match searchLoop lmb.reserved size align (lmb.memory.region i).base (start + 1) start with
          | none => allocLoop lmb size align maxAddr i
          | some base =>
              let r := lmbAddRegion lmb.reserved base (lmbAlignUp size align)
              (if r.1 < 0 then 0 else base, { lmb with reserved := r.2 })

/-- `__lmb_alloc_base` -/
def lmbAllocBase (lmb : LmbState) (size align maxAddr : Nat) : Nat × LmbState :=
  allocLoop lmb size align maxAddr lmb.memory.cnt

/-- `lmb_alloc`; `LMB_ALLOC_ANYWHERE` is 0 -/
def lmbAlloc (lmb : LmbState) (size align : Nat) : Nat × LmbState := lmbAllocBase lmb size align 0

/-! ## Alignment -/

theorem lmbAlignDown_eq {addr k : Nat} (ha : addr < wordSize) (hk : k < 32) :
    lmbAlignDown addr (2 ^ k) = addr / 2 ^ k * 2 ^ k := by
  have hpow : 2 ^ k < wordSize := Nat.pow_lt_pow_right (by omega) hk
  have hpos : 0 < 2 ^ k := Nat.two_pow_pos k
  have hmask : wordSize - 1 - sub32 (2 ^ k) 1 = 2 ^ k * (2 ^ (32 - k) - 1) := by
    rw [sub32_eq (by omega) hpow, Nat.mul_sub_one, ← Nat.pow_add, show k + (32 - k) = 32 by omega]
    simp only [wordSize] at *
    omega
  rw [lmbAlignDown, hmask]
  apply Nat.eq_of_testBit_eq
  intro i
  rw [Nat.testBit_and, Nat.testBit_two_pow_mul, Nat.testBit_two_pow_sub_one, Nat.mul_comm, Nat.testBit_two_pow_mul,
    Nat.testBit_div_two_pow]
  by_cases hki : k ≤ i
  · rw [show i - k + k = i by omega]
    by_cases hi : i < 32
    · simp [hki, show i - k < 32 - k by omega]
    · have hle : wordSize ≤ 2 ^ i := Nat.pow_le_pow_right (by omega) (by omega)
      have h0 : addr.testBit i = false := Nat.testBit_lt_two_pow (lt_of_lt_of_le ha hle)
      simp [h0]
  · simp [hki]

theorem lmbAlignUp_eq {addr k : Nat} (ha : addr + 2 ^ k ≤ wordSize) (hk : k < 32) :
    lmbAlignUp addr (2 ^ k) = (addr + (2 ^ k - 1)) / 2 ^ k * 2 ^ k := by
  have hpos : 0 < 2 ^ k := Nat.two_pow_pos k
  have hpow : 2 ^ k < wordSize := Nat.pow_lt_pow_right (by omega) hk
  have hadd : add32 addr (sub32 (2 ^ k) 1) = addr + (2 ^ k - 1) := by
    rw [sub32_eq (by omega) hpow]
    exact add32_eq (by omega)
  rw [lmbAlignUp, hadd]
  exact lmbAlignDown_eq (by omega) hk

/-! ## The search -/

section
variable {reserved : LmbRegion} {size lmbbase k : Nat}

/-- No region that is reserved overlaps the place. -/
def LmbRegion.Free (rgn : LmbRegion) (base size : Nat) : Prop :=
  ∀ i < rgn.cnt, ¬ (base < (rgn.region i).stop ∧ (rgn.region i).base < base + size)

theorem lmbAddrsOverlap_iff {base : Nat} {r : LmbProperty} (hr : r.stop < wordSize) (hb : base + size < wordSize) :
    LmbAddrsOverlap base size r.base r.size ↔ base < r.stop ∧ r.base < base + size := by
  rw [LmbAddrsOverlap, add32_eq hr, add32_eq hb, Range.stop]

theorem overlapsLoop_cases (rgn : LmbRegion) (base size n i : Nat) :
    (∃ j, i ≤ j ∧ j < i + n ∧ LmbAddrsOverlap base size (rgn.region j).base (rgn.region j).size ∧
      overlapsLoop rgn base size n i = some j) ∨
    ((∀ j, i ≤ j → j < i + n → ¬ LmbAddrsOverlap base size (rgn.region j).base (rgn.region j).size) ∧
      overlapsLoop rgn base size n i = none) := by
  induction n generalizing i with
  | zero => exact .inr ⟨fun j h1 h2 => by omega, rfl⟩
  | succ n ih =>
    rw [overlapsLoop]
    split
    next ho => exact .inl ⟨i, by omega, by omega, ho, rfl⟩
    next ho =>
      rcases ih (i + 1) with ⟨j, h1, h2, hj, heq⟩ | ⟨hall, heq⟩
      · exact .inl ⟨j, by omega, by omega, hj, heq⟩
      · refine .inr ⟨fun j h1 h2 => ?_, heq⟩
        by_cases hji : j = i
        · exact hji ▸ ho
        · exact hall j (by omega) (by omega)

theorem lmbOverlapsRegion_cases {base : Nat} (hstop : ∀ i < reserved.cnt, (reserved.region i).stop < wordSize)
    (hb : base + size < wordSize) :
    (∃ j < reserved.cnt, base < (reserved.region j).stop ∧ (reserved.region j).base < base + size ∧
      lmbOverlapsRegion reserved base size = some j) ∨
    (reserved.Free base size ∧ lmbOverlapsRegion reserved base size = none) := by
  rcases overlapsLoop_cases reserved base size reserved.cnt 0 with ⟨j, -, hj, ho, heq⟩ | ⟨hall, heq⟩
  · have hj : j < reserved.cnt := by omega
    rw [lmbAddrsOverlap_iff (hstop j hj) hb] at ho
    exact .inl ⟨j, hj, ho.1, ho.2, heq⟩
  · refine .inr ⟨fun i hi => ?_, heq⟩
    rw [← lmbAddrsOverlap_iff (hstop i hi) hb]
    exact hall i (by omega) (by omega)

/-- The aligned places from `lmbbase` up to `base` that are free. -/
def places (reserved : LmbRegion) (size k lmbbase base : Nat) : Set Nat :=
  {b | 0 < b ∧ lmbbase ≤ b ∧ b ≤ base ∧ 2 ^ k ∣ b ∧ reserved.Free b size}

/-- A place that overlaps a region is passed over, and so are those above the region's beginning. -/
theorem places_skip {base j : Nat} (hk : k < 32) (hj : j < reserved.cnt) (h1 : base < (reserved.region j).stop)
    (h2 : (reserved.region j).base < base + size) (hsize : size ≤ (reserved.region j).base)
    (hb : base + size < wordSize) :
    places reserved size k lmbbase base =
      places reserved size k lmbbase (lmbAlignDown ((reserved.region j).base - size) (2 ^ k)) := by
  rw [lmbAlignDown_eq (by omega) hk]
  ext b
  simp only [places, Set.mem_ofPred_eq]
  have hle := Nat.div_mul_le_self ((reserved.region j).base - size) (2 ^ k)
  constructor
  · rintro ⟨hpos, hlow, hhigh, hal, hfree⟩
    have hend : b + size ≤ (reserved.region j).base := by
      have := hfree j hj
      omega
    obtain ⟨c, rfl⟩ := hal
    refine ⟨hpos, hlow, ?_, ⟨c, rfl⟩, hfree⟩
    rw [Nat.mul_comm (2 ^ k) c]
    refine Nat.mul_le_mul_right _ ((Nat.le_div_iff_mul_le (Nat.two_pow_pos k)).mpr ?_)
    rw [Nat.mul_comm]
    omega
  · rintro ⟨hpos, hlow, hhigh, hal, hfree⟩
    exact ⟨hpos, hlow, by omega, hal, hfree⟩

/-- No region overlaps the place, with the ends as `lmb_addrs_overlap` computes them. -/
def LmbRegion.Clear (rgn : LmbRegion) (base size : Nat) : Prop :=
  ∀ i < rgn.cnt, ¬ LmbAddrsOverlap base size (rgn.region i).base (rgn.region i).size

theorem lmbOverlapsRegion_clear (rgn : LmbRegion) (base size : Nat) :
    (∃ j < rgn.cnt, LmbAddrsOverlap base size (rgn.region j).base (rgn.region j).size ∧
      lmbOverlapsRegion rgn base size = some j) ∨
    (rgn.Clear base size ∧ lmbOverlapsRegion rgn base size = none) := by
  rcases overlapsLoop_cases rgn base size rgn.cnt 0 with ⟨j, -, hj, ho, heq⟩ | ⟨hall, heq⟩
  · exact .inl ⟨j, by omega, ho, heq⟩
  · exact .inr ⟨fun i hi => hall i (by omega) (by omega), heq⟩

/-- The aligned places from `lmbbase` up to `base` that are clear. -/
def clearPlaces (reserved : LmbRegion) (size k lmbbase base : Nat) : Set Nat :=
  {b | 0 < b ∧ 2 ^ k ∣ b ∧ lmbbase ≤ b ∧ b ≤ base ∧ reserved.Clear b size}

theorem clearPlaces_skip {base j : Nat} (hk : k < 32) (hj : j < reserved.cnt)
    (ho : LmbAddrsOverlap base size (reserved.region j).base (reserved.region j).size)
    (hsize : size ≤ (reserved.region j).base) (hb : base + size < wordSize) :
    clearPlaces reserved size k lmbbase base =
      clearPlaces reserved size k lmbbase (lmbAlignDown ((reserved.region j).base - size) (2 ^ k)) := by
  obtain ⟨h1, h2⟩ := ho
  rw [add32_eq hb] at h2
  rw [lmbAlignDown_eq (by omega) hk]
  ext b
  simp only [clearPlaces, Set.mem_ofPred_eq]
  have hle := Nat.div_mul_le_self ((reserved.region j).base - size) (2 ^ k)
  constructor
  · rintro ⟨hpos, hal, hlow, hhigh, hclear⟩
    have hend : b + size ≤ (reserved.region j).base := by
      have hj := hclear j hj
      rw [LmbAddrsOverlap, add32_eq (show b + size < wordSize by omega)] at hj
      omega
    obtain ⟨c, rfl⟩ := hal
    refine ⟨hpos, ⟨c, rfl⟩, hlow, ?_, hclear⟩
    rw [Nat.mul_comm (2 ^ k) c]
    refine Nat.mul_le_mul_right _ ((Nat.le_div_iff_mul_le (Nat.two_pow_pos k)).mpr ?_)
    rw [Nat.mul_comm]
    omega
  · rintro ⟨hpos, hal, hlow, hhigh, hclear⟩
    exact ⟨hpos, hal, hlow, by omega, hclear⟩

theorem searchLoop_spec (hk : k < 32) {n base b : Nat} (hb : base + size < wordSize) (hal : 2 ^ k ∣ base)
    (h : searchLoop reserved size (2 ^ k) lmbbase n base = some b) :
    IsGreatest (clearPlaces reserved size k lmbbase base) b := by
  induction n generalizing base with
  | zero => cases h
  | succ n ih =>
    rw [searchLoop] at h
    split at h
    case isFalse => cases h
    case isTrue hcond =>
      rcases lmbOverlapsRegion_clear reserved base size with ⟨j, hj, ho, heq⟩ | ⟨hclear, heq⟩
      · simp only [heq] at h
        split at h
        case isTrue => cases h
        case isFalse hsize =>
          have hbelow : (reserved.region j).base < base + size := by
            have := ho.2
            rwa [add32_eq hb] at this
          rw [clearPlaces_skip hk hj ho (by omega) hb]
          have hdown : lmbAlignDown ((reserved.region j).base - size) (2 ^ k) =
              ((reserved.region j).base - size) / 2 ^ k * 2 ^ k := lmbAlignDown_eq (by omega) hk
          refine ih ?_ ?_ h
          · have := Nat.div_mul_le_self ((reserved.region j).base - size) (2 ^ k)
            omega
          · rw [hdown]
            exact Nat.dvd_mul_left _ _
      · simp only [heq, Option.some.injEq] at h
        subst h
        exact ⟨⟨by omega, hal, hcond.2, le_refl _, hclear⟩, fun b hb => hb.2.2.2.1⟩

/-- A place that wraps is tried once: what overlaps it begins below the size. -/
theorem searchLoop_wrap {n base b : Nat} (hlt : base < wordSize) (hs : size < wordSize) (hb : wordSize ≤ base + size)
    {align : Nat} (h : searchLoop reserved size align lmbbase n base = some b) : b = base ∧ reserved.Clear b size := by
  cases n with
  | zero => cases h
  | succ n =>
    rw [searchLoop] at h
    split at h
    case isFalse => cases h
    case isTrue =>
      rcases lmbOverlapsRegion_clear reserved base size with ⟨j, hj, ho, heq⟩ | ⟨hclear, heq⟩
      · have hend : add32 base size = base + size - wordSize := by
          simp only [add32, wordSize] at *
          omega
        have hbelow := ho.2
        rw [hend] at hbelow
        simp only [heq, if_pos (show (reserved.region j).base < size by omega)] at h
        cases h
      · simp only [heq, Option.some.injEq] at h
        subst h
        exact ⟨rfl, hclear⟩

end

/-! ## The allocation -/

/-- The place that is taken in the memory region, whatever wraps: the highest clear one up to where the search starts, or
only that one where it wraps itself. -/
def Taken (lmb : LmbState) (size k maxAddr b : Nat) : Prop :=
  ∃ start, searchStart (lmb.memory.region 0) size (2 ^ k) maxAddr = some start ∧
    if start + size < wordSize then IsGreatest (clearPlaces lmb.reserved size k (lmb.memory.region 0).base start) b
    else b = start ∧ lmb.reserved.Clear b size

theorem le_lmbAlignDown {limit size k b : Nat} (hk : k < 32) (hl : limit < wordSize) (hs : size ≤ limit)
    (hal : 2 ^ k ∣ b) : b ≤ lmbAlignDown (limit - size) (2 ^ k) ↔ b + size ≤ limit := by
  rw [lmbAlignDown_eq (by omega) hk]
  have hle := Nat.div_mul_le_self (limit - size) (2 ^ k)
  constructor
  · intro h
    omega
  · intro h
    obtain ⟨c, rfl⟩ := hal
    rw [Nat.mul_comm (2 ^ k) c]
    refine Nat.mul_le_mul_right _ ((Nat.le_div_iff_mul_le (Nat.two_pow_pos k)).mpr ?_)
    rw [Nat.mul_comm]
    omega

section
variable {lmb : LmbState} {mem : LmbProperty} {size k maxAddr start : Nat}

theorem searchStart_some (hmem : mem.stop < wordSize) (hfit : maxAddr ≠ 0 → mem.base < maxAddr → size ≤ maxAddr)
    (h : searchStart mem size (2 ^ k) maxAddr = some start) :
    ∃ limit, start = lmbAlignDown (limit - size) (2 ^ k) ∧ size ≤ limit ∧ limit < wordSize ∧
      ∀ n, n ≤ limit ↔ n ≤ mem.stop ∧ (maxAddr ≠ 0 → n ≤ maxAddr) := by
  have hstop : add32 mem.base mem.size = mem.stop := add32_eq hmem
  rw [searchStart, hstop] at h
  split at h
  case isTrue => cases h
  case isFalse hsize =>
    have hle : size ≤ mem.stop := by
      rw [Range.stop]
      omega
    split at h
    case isTrue h0 =>
      rw [sub32_eq hle hmem] at h
      exact ⟨mem.stop, (Option.some.inj h).symm, hle, hmem, by simp [h0]⟩
    case isFalse h0 =>
      split at h
      case isFalse => cases h
      case isTrue hlow =>
        have hle' : size ≤ min mem.stop maxAddr := Nat.le_min.mpr ⟨hle, hfit h0 hlow⟩
        have hlt : min mem.stop maxAddr < wordSize := lt_of_le_of_lt (Nat.min_le_left _ _) hmem
        rw [sub32_eq hle' hlt] at h
        exact ⟨_, (Option.some.inj h).symm, hle', hlt, by simp [h0]⟩

theorem searchStart_aligned (hk : k < 32) (h : searchStart mem size (2 ^ k) maxAddr = some start) :
    2 ^ k ∣ start ∧ start < wordSize := by
  have hdown : ∀ a b, 2 ^ k ∣ lmbAlignDown (sub32 a b) (2 ^ k) ∧ lmbAlignDown (sub32 a b) (2 ^ k) < wordSize := by
    intro a b
    have hlt : sub32 a b < wordSize := Nat.mod_lt _ (by decide)
    rw [lmbAlignDown_eq hlt hk]
    exact ⟨Nat.dvd_mul_left _ _, (Nat.div_mul_le_self _ _).trans_lt hlt⟩
  rw [searchStart] at h
  split at h
  next => cases h
  next =>
    split at h
    next => exact Option.some.inj h ▸ hdown _ _
    next =>
      split at h
      next => exact Option.some.inj h ▸ hdown _ _
      next => cases h

theorem Taken.clear {b : Nat} (h : Taken lmb size k maxAddr b) : lmb.reserved.Clear b size := by
  obtain ⟨start, -, h⟩ := h
  split at h
  next => exact h.1.2.2.2.2
  next => exact h.2

theorem Taken.unique {b b' : Nat} (h : Taken lmb size k maxAddr b) (h' : Taken lmb size k maxAddr b') : b = b' := by
  obtain ⟨start, hstart, h⟩ := h
  obtain ⟨start', hstart', h'⟩ := h'
  obtain rfl := Option.some.inj (hstart.symm.trans hstart')
  split at h
  next hlt =>
    rw [if_pos hlt] at h'
    exact h.unique h'
  next hlt =>
    rw [if_neg hlt] at h'
    exact h.1.trans h'.1.symm

/-- In a memory region that does not wrap, for a size below the bound, neither does the place. -/
theorem Taken.stop_le {b : Nat} (hk : k < 32) (hmem : (lmb.memory.region 0).stop < wordSize)
    (hfit : maxAddr ≠ 0 → (lmb.memory.region 0).base < maxAddr → size ≤ maxAddr) (h : Taken lmb size k maxAddr b) :
    b + size ≤ (lmb.memory.region 0).stop := by
  obtain ⟨start, hstart, h⟩ := h
  obtain ⟨limit, rfl, hsize, hlimit, hle⟩ := searchStart_some hmem hfit hstart
  have hal := (searchStart_aligned hk hstart).1
  have hend := (le_lmbAlignDown hk hlimit hsize hal).mp (le_refl _)
  have hstop := ((hle limit).mp le_rfl).1
  split at h
  next =>
    have := h.1.2.2.2.1
    omega
  next hlt => exact absurd hend (by omega)

/-- What `__lmb_alloc_base` takes in one memory region, if there is room in the table. -/
theorem lmbAllocBase_spec {lmb' : LmbState} {b : Nat} (hk : k < 32) (hcnt : lmb.memory.cnt = 1) (hs : size < wordSize)
    (h : lmbAllocBase lmb size (2 ^ k) maxAddr = (b, lmb')) (hb : b ≠ 0) :
    Taken lmb size k maxAddr b ∧ (lmbAddRegion lmb.reserved b (lmbAlignUp size (2 ^ k))).1 ≠ -1 ∧
      lmb' = (lmbReserve lmb b (lmbAlignUp size (2 ^ k))).2 := by
  rw [lmbAllocBase, hcnt, allocLoop] at h
  cases hstart : searchStart (lmb.memory.region 0) size (2 ^ k) maxAddr with
  | none =>
    simp only [hstart, allocLoop, Prod.mk.injEq] at h
    exact absurd h.1.symm hb
  | some start =>
    obtain ⟨hal, hlt⟩ := searchStart_aligned hk hstart
    simp only [hstart] at h
    cases hsearch : searchLoop lmb.reserved size (2 ^ k) (lmb.memory.region 0).base (start + 1) start with
    | none =>
      simp only [hsearch, allocLoop, Prod.mk.injEq] at h
      exact absurd h.1.symm hb
    | some base =>
      simp only [hsearch, Prod.mk.injEq] at h
      obtain ⟨hbase, hlmb⟩ := h
      have hres : ¬ (lmbAddRegion lmb.reserved base (lmbAlignUp size (2 ^ k))).1 < 0 := by
        intro hneg
        rw [if_pos hneg] at hbase
        exact hb hbase.symm
      rw [if_neg hres] at hbase
      subst hbase
      refine ⟨⟨start, hstart, ?_⟩, by omega, hlmb.symm⟩
      split
      next hw => exact searchLoop_spec hk hw hal hsearch
      next hw => exact searchLoop_wrap hlt hs (by omega) hsearch

end

end Uboot.Lmb
