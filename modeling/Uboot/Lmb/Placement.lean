import Uboot.Lmb.Table

/-!
# What `lmb_alloc_base` returns

The memory regions are searched from the last one down. In the first one that has a usable place the highest is taken.
When `max_addr` is less than the size, the difference of the two wraps and the search begins near the end of the
addresses instead.
-/

namespace Uboot.Lmb

open Uboot.Lib

section
variable {reserved : LmbRegion} {size lmbbase k : Nat}

/-- The search finds the highest place that is free, if there is one. -/
theorem searchLoop_cases (hk : k < 32) (hstop : ∀ i < reserved.cnt, (reserved.region i).stop < wordSize) {n base : Nat}
    (hsize : 0 < size) (hb : base + size < wordSize) (hal : 2 ^ k ∣ base) (hn : base < n) :
    (∃ b, searchLoop reserved size (2 ^ k) lmbbase n base = some b ∧
      IsGreatest (places reserved size k lmbbase base) b) ∨
    (searchLoop reserved size (2 ^ k) lmbbase n base = none ∧ places reserved size k lmbbase base = ∅) := by
  induction n generalizing base with
  | zero => omega
  | succ n ih =>
    rw [searchLoop]
    split
    case isFalse hcond =>
      refine .inr ⟨rfl, Set.eq_empty_of_forall_notMem ?_⟩
      rintro b ⟨hpos, hlow, hhigh, -⟩
      omega
    case isTrue hcond =>
      rcases lmbOverlapsRegion_cases hstop hb with ⟨j, hj, h1, h2, heq⟩ | ⟨hfree, heq⟩
      · simp only [heq]
        split
        case isTrue hres =>
          refine .inr ⟨rfl, Set.eq_empty_of_forall_notMem ?_⟩
          rintro b ⟨hpos, hlow, hhigh, -, hfree⟩
          have := hfree j hj
          omega
        case isFalse hres =>
          rw [places_skip hk hj h1 h2 (by omega) hb]
          have hdown : lmbAlignDown ((reserved.region j).base - size) (2 ^ k) =
              ((reserved.region j).base - size) / 2 ^ k * 2 ^ k := lmbAlignDown_eq (by omega) hk
          have hle := Nat.div_mul_le_self ((reserved.region j).base - size) (2 ^ k)
          refine ih (by omega) ?_ (by omega)
          rw [hdown]
          exact Nat.dvd_mul_left _ _
      · simp only [heq]
        exact .inl ⟨base, rfl, ⟨by omega, hcond.2, le_refl _, hal, hfree⟩, fun b hb => hb.2.2.1⟩

end

/-! ## The place that is taken -/

/-- The search in memory region `i`. -/
def findPlace (lmb : LmbState) (size align maxAddr i : Nat) : Option Nat :=
  (searchStart (lmb.memory.region i) size align maxAddr).bind fun start =>
    searchLoop lmb.reserved size align (lmb.memory.region i).base (start + 1) start

/-- The end of `__lmb_alloc_base`, when a place was found. -/
def take (lmb : LmbState) (size align base : Nat) : Nat × LmbState :=
  (if (lmbAddRegion lmb.reserved base (lmbAlignUp size align)).1 < 0 then 0 else base,
    { lmb with reserved := (lmbAddRegion lmb.reserved base (lmbAlignUp size align)).2 })

theorem take_of_fails {lmb : LmbState} {size align b : Nat}
    (h : (lmbAddRegion lmb.reserved b (lmbAlignUp size align)).1 = -1) : (take lmb size align b).1 = 0 := by
  rw [take, if_pos ((lmbAddRegion_neg_iff _ _ _).mpr h)]

theorem take_of_ok {lmb : LmbState} {size align b : Nat}
    (h : (lmbAddRegion lmb.reserved b (lmbAlignUp size align)).1 ≠ -1) : take lmb size align b =
      (b, { lmb with reserved := (lmbAddRegion lmb.reserved b (lmbAlignUp size align)).2 }) := by
  rw [take, if_neg fun hneg => h ((lmbAddRegion_neg_iff _ _ _).mp hneg)]

theorem allocLoop_cases (lmb : LmbState) (size align maxAddr n : Nat) :
    (∃ i < n, ∃ b, findPlace lmb size align maxAddr i = some b ∧
      (∀ j, i < j → j < n → findPlace lmb size align maxAddr j = none) ∧
      allocLoop lmb size align maxAddr n = take lmb size align b) ∨
    ((∀ j < n, findPlace lmb size align maxAddr j = none) ∧ allocLoop lmb size align maxAddr n = (0, lmb)) := by
  induction n with
  | zero => exact .inr ⟨fun j hj => by omega, rfl⟩
  | succ n ih =>
    have hstep : allocLoop lmb size align maxAddr (n + 1) =
        (findPlace lmb size align maxAddr n).elim (allocLoop lmb size align maxAddr n) (take lmb size align) := by
      rw [allocLoop, findPlace]
      cases searchStart (lmb.memory.region n) size align maxAddr with
      | none => rfl
      | some start =>
        simp only [Option.bind_some]
        cases searchLoop lmb.reserved size align (lmb.memory.region n).base (start + 1) start <;> rfl
    rw [hstep]
    cases hfind : findPlace lmb size align maxAddr n with
    | some b => exact .inl ⟨n, by omega, b, hfind, fun j h1 h2 => by omega, rfl⟩
    | none =>
      have hlast : ∀ j, j < n + 1 → (j < n → findPlace lmb size align maxAddr j = none) →
          findPlace lmb size align maxAddr j = none := by
        intro j hj hlt
        by_cases hjn : j = n
        · exact hjn ▸ hfind
        · exact hlt (by omega)
      rcases ih with ⟨i, hi, b, hb, habove, heq⟩ | ⟨hall, heq⟩
      · exact .inl ⟨i, by omega, b, hb, fun j h1 h2 => hlast j h2 (habove j h1), heq⟩
      · exact .inr ⟨fun j hj => hlast j hj (hall j), heq⟩

/-- The places in memory region `i` that may be returned. -/
def LmbState.usable (lmb : LmbState) (size align maxAddr i : Nat) : Set Nat :=
  {b | 0 < b ∧ align ∣ b ∧ (lmb.memory.region i).base ≤ b ∧ b + size ≤ (lmb.memory.region i).stop ∧
    (maxAddr ≠ 0 → b + size ≤ maxAddr) ∧ lmb.reserved.Free b size}

/-- The highest usable place in the last memory region that has one. -/
def LmbState.Best (lmb : LmbState) (size align maxAddr b : Nat) : Prop :=
  ∃ i < lmb.memory.cnt, IsGreatest (lmb.usable size align maxAddr i) b ∧
    ∀ j, i < j → j < lmb.memory.cnt → lmb.usable size align maxAddr j = ∅

/-- No region ends past the addresses, and the table of reserved regions is one. -/
structure LmbState.NoWrap (lmb : LmbState) : Prop where
  memory_stop : ∀ i < lmb.memory.cnt, (lmb.memory.region i).stop < wordSize
  reserved_stop : ∀ i < lmb.reserved.cnt, (lmb.reserved.region i).stop < wordSize
  cnt_le : lmb.reserved.cnt ≤ maxLmbRegions

section
variable {lmb : LmbState} {size k maxAddr : Nat}

theorem findPlace_cases {i : Nat} (hw : lmb.NoWrap) (hk : k < 32) (hsize : 0 < size) (hi : i < lmb.memory.cnt)
    (hfit : maxAddr = 0 ∨ size ≤ maxAddr) :
    (∃ b, findPlace lmb size (2 ^ k) maxAddr i = some b ∧ IsGreatest (lmb.usable size (2 ^ k) maxAddr i) b) ∨
    (findPlace lmb size (2 ^ k) maxAddr i = none ∧ lmb.usable size (2 ^ k) maxAddr i = ∅) := by
  have hmem := hw.memory_stop i hi
  rw [findPlace]
  cases hstart : searchStart (lmb.memory.region i) size (2 ^ k) maxAddr with
  | none =>
    refine .inr ⟨rfl, Set.eq_empty_of_forall_notMem ?_⟩
    rintro b ⟨hpos, -, hlow, hend, hmax, -⟩
    rw [Range.stop] at hend
    rw [searchStart] at hstart
    split at hstart
    next => omega
    next =>
      split at hstart
      next => cases hstart
      next h0 =>
        split at hstart
        next => cases hstart
        next =>
          have := hmax h0
          omega
  | some start =>
    obtain ⟨limit, rfl, hle, hlimit, hiff⟩ := searchStart_some hmem (fun h0 _ => hfit.resolve_left h0) hstart
    have hal : 2 ^ k ∣ lmbAlignDown (limit - size) (2 ^ k) := by
      rw [lmbAlignDown_eq (by omega) hk]
      exact Nat.dvd_mul_left _ _
    have hbound : lmbAlignDown (limit - size) (2 ^ k) + size < wordSize := by
      have := (le_lmbAlignDown hk hlimit hle hal).mp (le_refl _)
      omega
    have hset : places lmb.reserved size k (lmb.memory.region i).base (lmbAlignDown (limit - size) (2 ^ k)) =
        lmb.usable size (2 ^ k) maxAddr i := by
      ext b
      simp only [places, LmbState.usable, Set.mem_ofPred_eq]
      constructor
      · rintro ⟨hpos, hlow, hhigh, hal, hfree⟩
        have hends := (hiff (b + size)).mp ((le_lmbAlignDown hk hlimit hle hal).mp hhigh)
        exact ⟨hpos, hal, hlow, hends.1, hends.2, hfree⟩
      · rintro ⟨hpos, hal, hlow, hend, hmax, hfree⟩
        exact ⟨hpos, hlow, (le_lmbAlignDown hk hlimit hle hal).mpr ((hiff (b + size)).mpr ⟨hend, hmax⟩), hal, hfree⟩
    rw [← hset]
    exact searchLoop_cases hk hw.reserved_stop hsize hbound hal (Nat.lt_succ_self _)

theorem LmbState.Best.unique {b b' : Nat} (h : lmb.Best size (2 ^ k) maxAddr b)
    (h' : lmb.Best size (2 ^ k) maxAddr b') : b' = b := by
  obtain ⟨i, hi, hgreat, habove⟩ := h
  obtain ⟨i', hi', hgreat', habove'⟩ := h'
  obtain rfl : i' = i := by
    by_contra hne
    rcases Nat.lt_or_gt_of_ne hne with hlt | hlt
    · exact Set.notMem_empty _ (habove' i hlt hi ▸ hgreat.1)
    · exact Set.notMem_empty _ (habove i' hlt hi' ▸ hgreat'.1)
  exact hgreat'.unique hgreat

/-- What is added to a multiple of `a` may be rounded up to one below a multiple of `a`. -/
theorem add_round_le {a c s n : Nat} (ha : 0 < a) (h : a * c + s ≤ a * n) : a * c + (s + (a - 1)) / a * a ≤ a * n := by
  have hle : (s + (a - 1)) / a ≤ n - c := by
    refine Nat.lt_succ_iff.mp ((Nat.div_lt_iff_lt_mul ha).mpr ?_)
    rw [Nat.succ_mul, Nat.mul_comm, Nat.mul_sub]
    omega
  have hcn : c ≤ n := Nat.le_of_mul_le_mul_left (by omega) ha
  calc a * c + (s + (a - 1)) / a * a ≤ a * c + (n - c) * a := Nat.add_le_add_left (Nat.mul_le_mul_right _ hle) _
    _ = a * n := by rw [Nat.mul_comm (n - c), ← Nat.mul_add, Nat.add_sub_cancel' hcn]

/-- A usable place has room also when its size is rounded up. -/
theorem room_of_usable {i b : Nat} (hw : lmb.NoWrap) (hk : k < 32) (hsize : 0 < size) (hi : i < lmb.memory.cnt)
    (h : b ∈ lmb.usable size (2 ^ k) maxAddr i) : lmb.reserved.Room b size (lmbAlignUp size (2 ^ k)) := by
  obtain ⟨hpos, ⟨c, rfl⟩, -, hend, -, hfree⟩ := h
  have hstop := hw.memory_stop i hi
  have hc : 0 < c := Nat.pos_of_mul_pos_left hpos
  have hpow : 0 < 2 ^ k := Nat.two_pow_pos k
  have hle : 2 ^ k ≤ 2 ^ k * c := Nat.le_mul_of_pos_right _ hc
  have hup := lmbAlignUp_eq (show size + 2 ^ k ≤ wordSize by omega) hk
  have hlow := Nat.div_mul_le_self (size + (2 ^ k - 1)) (2 ^ k)
  have hhigh := Nat.lt_div_mul_add (a := size + (2 ^ k - 1)) hpow
  have hword : 2 ^ k * 2 ^ (32 - k) = wordSize := by rw [← Nat.pow_add, show k + (32 - k) = 32 by omega]
  have hround : 2 ^ k * c + lmbAlignUp size (2 ^ k) ≤ wordSize := by
    rw [hup]
    exact (add_round_le hpow (show 2 ^ k * c + size ≤ 2 ^ k * 2 ^ (32 - k) by omega)).trans_eq hword
  exact ⟨hw.cnt_le, hw.reserved_stop, hfree, hpos, hsize, by omega, by omega, hround⟩

/-- A table that is full and has no region beside the place keeps what it has. -/
theorem keeps_of_fails {rgn : LmbRegion} {b rounded : Nat} (h : rgn.Room b size rounded)
    (hres : (lmbAddRegion rgn b rounded).1 = -1) : rgn.Keeps b size rounded := by
  have hcnt := h.cnt_le
  simp only [maxLmbRegions] at hcnt
  obtain ⟨hfull, hnone⟩ := (lmbAddRegion_fails_iff (x := ⟨b, rounded⟩) (by simp only [wordSize]; omega)).mp hres
  simp only [maxLmbRegions] at hfull
  refine ⟨fun h0 => by omega, fun hend j hj ht => ?_⟩
  exact absurd ((h.touches_iff hend hj).mpr ht) (hnone j hj)

end

/-! ## A size above `max_addr` -/

/-- Where the search begins when `maxAddr` is less than `size`. -/
def wrapStart (size align maxAddr : Nat) : Nat := (wordSize + maxAddr - size) / align * align

/-- The place that is taken when `maxAddr` is less than `size`. A place that itself wraps is tried once. -/
def LmbState.WrapTaken (lmb : LmbState) (size align maxAddr b : Nat) : Prop :=
  if wrapStart size align maxAddr + size < wordSize then
    IsGreatest {b | 0 < b ∧ b ≤ wrapStart size align maxAddr ∧ align ∣ b ∧ lmb.reserved.Free b size} b
  else b = wrapStart size align maxAddr ∧ ∀ j < lmb.reserved.cnt,
    ¬ (b < (lmb.reserved.region j).stop ∧ (lmb.reserved.region j).base < b + size - wordSize)

section
variable {lmb : LmbState} {size k maxAddr : Nat}

theorem searchStart_wrap {mem : LmbProperty} (hk : k < 32) (hmem : mem.stop < wordSize) (hmax : maxAddr ≠ 0)
    (hlt : maxAddr < size) (hs : size < wordSize) :
    searchStart mem size (2 ^ k) maxAddr =
      if size ≤ mem.size ∧ mem.base < maxAddr then some (wrapStart size (2 ^ k) maxAddr) else none := by
  have hstop : add32 mem.base mem.size = mem.stop := add32_eq hmem
  rw [searchStart, hstop, if_neg hmax]
  by_cases h1 : mem.size < size
  · rw [if_pos h1, if_neg (by omega)]
  · rw [if_neg h1]
    by_cases h2 : mem.base < maxAddr
    · have hmin : min mem.stop maxAddr = maxAddr := Nat.min_eq_right (by rw [Range.stop]; omega)
      have hsub : sub32 maxAddr size = wordSize + maxAddr - size := by
        rw [sub32, Nat.add_comm]
        exact Nat.mod_eq_of_lt (by omega)
      rw [if_pos h2, if_pos ⟨by omega, h2⟩, hmin, hsub, lmbAlignDown_eq (by omega) hk, wrapStart]
    · rw [if_neg h2, if_neg (fun h => h2 h.2)]

theorem findPlace_wrap_cases {i : Nat} (hw : lmb.NoWrap) (hk : k < 32) (hi : i < lmb.memory.cnt) (hmax : maxAddr ≠ 0)
    (hlt : maxAddr < size) (hs : size < wordSize) :
    (∃ b, findPlace lmb size (2 ^ k) maxAddr i = some b ∧ b ≠ 0 ∧ size ≤ (lmb.memory.region i).size ∧
      (lmb.memory.region i).base < maxAddr ∧ lmb.WrapTaken size (2 ^ k) maxAddr b) ∨
    (findPlace lmb size (2 ^ k) maxAddr i = none ∧ (size ≤ (lmb.memory.region i).size →
      (lmb.memory.region i).base < maxAddr → ∀ b, ¬ lmb.WrapTaken size (2 ^ k) maxAddr b)) := by
  have hmem := hw.memory_stop i hi
  rw [findPlace, searchStart_wrap hk hmem hmax hlt hs]
  by_cases hin : size ≤ (lmb.memory.region i).size ∧ (lmb.memory.region i).base < maxAddr
  case neg => exact .inr ⟨by rw [if_neg hin]; rfl, fun h1 h2 => absurd ⟨h1, h2⟩ hin⟩
  rw [if_pos hin, Option.bind_some]
  simp only [LmbState.WrapTaken]
  have hlow : wrapStart size (2 ^ k) maxAddr ≤ wordSize + maxAddr - size := Nat.div_mul_le_self _ _
  have hhigh : wordSize + maxAddr - size < wrapStart size (2 ^ k) maxAddr + 2 ^ k :=
    Nat.lt_div_mul_add (Nat.two_pow_pos k)
  have hal : 2 ^ k ∣ wrapStart size (2 ^ k) maxAddr := Nat.dvd_mul_left _ _
  generalize wrapStart size (2 ^ k) maxAddr = start at *
  by_cases hW : start + size < wordSize
  · have hset : places lmb.reserved size k (lmb.memory.region i).base start =
        {b | 0 < b ∧ b ≤ start ∧ 2 ^ k ∣ b ∧ lmb.reserved.Free b size} := by
      ext b
      simp only [places, Set.mem_ofPred_eq]
      constructor
      · rintro ⟨hpos, -, hle, hdvd, hfree⟩
        exact ⟨hpos, hle, hdvd, hfree⟩
      · rintro ⟨hpos, hle, hdvd, hfree⟩
        have := Nat.le_of_dvd hpos hdvd
        exact ⟨hpos, by omega, hle, hdvd, hfree⟩
    simp only [if_pos hW, ← hset]
    rcases searchLoop_cases hk hw.reserved_stop (by omega) hW hal (Nat.lt_succ_self start) with
      ⟨b, heq, hgreat⟩ | ⟨heq, hempty⟩
    · exact .inl ⟨b, heq, Nat.pos_iff_ne_zero.mp hgreat.1.1, hin.1, hin.2, hgreat⟩
    · exact .inr ⟨heq, fun _ _ b hb => Set.notMem_empty _ (hempty ▸ hb.1)⟩
  · simp only [if_neg hW]
    rw [Range.stop] at hmem
    have hend : add32 start size = start + size - wordSize := by
      simp only [add32, wordSize] at *
      omega
    have hstop : ∀ j < lmb.reserved.cnt, add32 (lmb.reserved.region j).base (lmb.reserved.region j).size =
        (lmb.reserved.region j).stop := fun j hj => add32_eq (hw.reserved_stop j hj)
    rw [searchLoop, if_pos ⟨by omega, by omega⟩]
    rcases overlapsLoop_cases lmb.reserved start size lmb.reserved.cnt 0 with ⟨j, -, hj, ho, heq⟩ | ⟨hall, heq⟩
    · -- the region begins below the size, which ends the search
      rw [LmbAddrsOverlap, hstop j (by omega), hend] at ho
      simp only [lmbOverlapsRegion, heq, if_pos (show (lmb.reserved.region j).base < size by omega)]
      refine .inr ⟨trivial, ?_⟩
      rintro - - b ⟨rfl, hnone⟩
      exact hnone j (by omega) ho
    · simp only [lmbOverlapsRegion, heq]
      refine .inl ⟨start, rfl, by omega, hin.1, hin.2, rfl, fun j hj => ?_⟩
      have := hall j (by omega) (by omega)
      rwa [LmbAddrsOverlap, hstop j hj, hend] at this

theorem LmbState.WrapTaken.unique {b b' : Nat} (h : lmb.WrapTaken size (2 ^ k) maxAddr b)
    (h' : lmb.WrapTaken size (2 ^ k) maxAddr b') : b' = b := by
  simp only [LmbState.WrapTaken] at h h'
  split at h
  next hW =>
    rw [if_pos hW] at h'
    exact h'.unique h
  next hW =>
    rw [if_neg hW] at h'
    exact h'.1.trans h.1.symm

end

/-! ## When the result is usable -/

/-- A result of `__lmb_alloc_base` other than 0 is aligned, lies in one memory region and below `maxAddr`, was not
reserved and now is. -/
def LmbState.AllocSound (lmb : LmbState) (size align maxAddr : Nat) : Prop :=
  let r := lmbAllocBase lmb size align maxAddr
  r.1 ≠ 0 → align ∣ r.1 ∧ r.1 + size < wordSize ∧
    (∃ i < lmb.memory.cnt, Range.addrs ⟨r.1, size⟩ ⊆ (lmb.memory.region i).addrs) ∧
    (maxAddr ≠ 0 → r.1 + size ≤ maxAddr) ∧ Disjoint (Range.addrs ⟨r.1, size⟩) lmb.reservedSet ∧
    r.2.reserved.cnt ≤ maxLmbRegions ∧ Range.addrs ⟨r.1, size⟩ ⊆ r.2.reservedSet

/-- With `maxAddr` below the size nothing is taken near the end of the addresses, or it cannot be reserved; otherwise
`lmb_add_region` keeps the best place. -/
def LmbState.AllocSafe (lmb : LmbState) (size align maxAddr : Nat) : Prop :=
  if maxAddr ≠ 0 ∧ maxAddr < size then
    ∀ i < lmb.memory.cnt, size ≤ (lmb.memory.region i).size → (lmb.memory.region i).base < maxAddr →
      ∀ b, lmb.WrapTaken size align maxAddr b → maxLmbRegions ≤ lmb.reserved.cnt ∧
        ∀ j < lmb.reserved.cnt, ¬ lmb.reserved.Touches ⟨b, lmbAlignUp size align⟩ j
  else ∀ b, lmb.Best size align maxAddr b → lmb.reserved.Keeps b size (lmbAlignUp size align)

section
variable {lmb : LmbState} {size k maxAddr : Nat}

theorem cnt_lt_wordSize (hw : lmb.NoWrap) : lmb.reserved.cnt < wordSize := by
  have := hw.cnt_le
  simp only [maxLmbRegions, wordSize] at *
  omega

theorem alloc_sound_wrap (hw : lmb.NoWrap) (hk : k < 32) (hmax : maxAddr ≠ 0) (hlt : maxAddr < size)
    (hs : size < wordSize) : lmb.AllocSound size (2 ^ k) maxAddr ↔ lmb.AllocSafe size (2 ^ k) maxAddr := by
  rw [LmbState.AllocSafe, if_pos ⟨hmax, hlt⟩]
  -- no result but 0 ends below `maxAddr`
  have hzero : lmb.AllocSound size (2 ^ k) maxAddr ↔ (lmbAllocBase lmb size (2 ^ k) maxAddr).1 = 0 := by
    constructor
    · intro h
      by_contra hne
      have := (h hne).2.2.2.1 hmax
      omega
    · exact fun h hne => absurd h hne
  rw [hzero, lmbAllocBase]
  rcases allocLoop_cases lmb size (2 ^ k) maxAddr lmb.memory.cnt with ⟨i, hi, b, hfind, -, heq⟩ | ⟨hall, heq⟩
  · rcases findPlace_wrap_cases hw hk hi hmax hlt hs with ⟨b', hfind', hb, h1, h2, htaken⟩ | ⟨hnone, -⟩
    case inr => exact absurd (hfind.symm.trans hnone) (by simp)
    obtain rfl : b = b' := Option.some.inj (hfind.symm.trans hfind')
    have hiff := lmbAddRegion_fails_iff (x := ⟨b, lmbAlignUp size (2 ^ k)⟩) (cnt_lt_wordSize hw)
    rw [heq]
    constructor
    · intro h j hj hj1 hj2 b' hb'
      obtain rfl := htaken.unique hb'
      rw [← hiff]
      by_contra hok
      rw [take_of_ok hok] at h
      exact hb h
    · intro h
      exact take_of_fails (hiff.mpr (h i hi h1 h2 b htaken))
  · rw [heq]
    refine iff_of_true rfl fun i hi h1 h2 b hb => ?_
    rcases findPlace_wrap_cases hw hk hi hmax hlt hs with ⟨b', hfind, -⟩ | ⟨-, hnot⟩
    · exact absurd (hfind.symm.trans (hall i hi)) (by simp)
    · exact absurd hb (hnot h1 h2 b)

theorem alloc_sound_fit (hw : lmb.NoWrap) (hk : k < 32) (hsize : 0 < size) (hfit : maxAddr = 0 ∨ size ≤ maxAddr) :
    lmb.AllocSound size (2 ^ k) maxAddr ↔ lmb.AllocSafe size (2 ^ k) maxAddr := by
  rw [LmbState.AllocSafe, if_neg (by omega)]
  simp only [LmbState.AllocSound, lmbAllocBase]
  rcases allocLoop_cases lmb size (2 ^ k) maxAddr lmb.memory.cnt with ⟨i, hi, b, hfind, habove, heq⟩ | ⟨hall, heq⟩
  · rcases findPlace_cases hw hk hsize hi hfit with ⟨b', hfind', hgreat⟩ | ⟨hnone, -⟩
    case inr => exact absurd (hfind.symm.trans hnone) (by simp)
    obtain rfl : b = b' := Option.some.inj (hfind.symm.trans hfind')
    have hbest : lmb.Best size (2 ^ k) maxAddr b := by
      refine ⟨i, hi, hgreat, fun j h1 h2 => ?_⟩
      rcases findPlace_cases hw hk hsize h2 hfit with ⟨b', hfind', -⟩ | ⟨-, hempty⟩
      · exact absurd (hfind'.symm.trans (habove j h1 h2)) (by simp)
      · exact hempty
    have hall : (∀ b', lmb.Best size (2 ^ k) maxAddr b' → lmb.reserved.Keeps b' size (lmbAlignUp size (2 ^ k))) ↔
        lmb.reserved.Keeps b size (lmbAlignUp size (2 ^ k)) :=
      ⟨fun h => h b hbest, fun h b' hb' => hbest.unique hb' ▸ h⟩
    have hroom := room_of_usable hw hk hsize hi hgreat.1
    rw [hall, heq]
    by_cases hfail : (lmbAddRegion lmb.reserved b (lmbAlignUp size (2 ^ k))).1 = -1
    · exact iff_of_true (fun h => absurd (take_of_fails hfail) h) (keeps_of_fails hroom hfail)
    · obtain ⟨hpos, hal, hlow, hend, hmax, hfree⟩ := hgreat.1
      have hmem := hw.memory_stop i hi
      have hdisj : Disjoint (Range.addrs ⟨b, size⟩) lmb.reservedSet := by
        rw [Set.disjoint_left]
        rintro a ha ⟨j, hj, haj⟩
        have := hfree j hj
        simp only [Range.mem_addrs, Range.stop] at *
        omega
      rw [take_of_ok hfail, ← reserve_place_iff hroom hfail]
      constructor
      · intro h
        exact (h (by omega)).2.2.2.2.2
      · intro h _
        exact ⟨hal, by omega, ⟨i, hi, (Range.addrs_subset hsize).mpr ⟨hlow, hend⟩⟩, hmax, hdisj, h⟩
  · rw [heq]
    refine iff_of_true (fun h => absurd rfl h) ?_
    rintro b ⟨i, hi, hgreat, -⟩
    rcases findPlace_cases hw hk hsize hi hfit with ⟨b', hfind, -⟩ | ⟨-, hempty⟩
    · exact absurd (hfind.symm.trans (hall i hi)) (by simp)
    · exact absurd (hempty ▸ hgreat.1) (Set.notMem_empty b)

/-- In tables whose regions do not wrap, what `__lmb_alloc_base` returns is usable exactly under `AllocSafe`. -/
theorem alloc_sound_iff (hw : lmb.NoWrap) (hk : k < 32) (hsize : 0 < size) (hs : size < wordSize) :
    lmb.AllocSound size (2 ^ k) maxAddr ↔ lmb.AllocSafe size (2 ^ k) maxAddr := by
  by_cases hfit : maxAddr = 0 ∨ size ≤ maxAddr
  · exact alloc_sound_fit hw hk hsize hfit
  · exact alloc_sound_wrap hw hk (by omega) (by omega) hs

end

/-- Memory from `base` to `base + size`, and one reserved region. -/
def oneRegion (base size : Nat) (reserved : LmbProperty) : LmbState := ⟨⟨1, fun _ => ⟨base, size⟩⟩, ⟨1, fun _ => reserved⟩⟩

theorem alloc_sound_example :
    (lmbAllocBase (oneRegion 0x80000000 0x10000000 ⟨0x87ff0000, 0x1000⟩) 0x10000 (2 ^ 12) 0x88000000).1 = 0x87fe0000 ∧
      (oneRegion 0x80000000 0x10000000 ⟨0x87ff0000, 0x1000⟩).AllocSound 0x10000 (2 ^ 12) 0x88000000 := by
  refine ⟨by decide, (alloc_sound_iff ⟨?_, ?_, by decide⟩ (by decide) (by decide) (by decide)).mpr ?_⟩
  · exact fun _ _ => (by decide : Range.stop ⟨0x80000000, 0x10000000⟩ < wordSize)
  · exact fun _ _ => (by decide : Range.stop ⟨0x87ff0000, 0x1000⟩ < wordSize)
  · rw [LmbState.AllocSafe, if_neg (by decide)]
    rintro b ⟨i, -, ⟨⟨-, -, -, hend, -, -⟩, -⟩, -⟩
    have hround : lmbAlignUp 0x10000 (2 ^ 12) = 0x10000 := by decide
    refine ⟨fun h => absurd h (by decide), fun hW => ?_⟩
    rw [hround] at hW
    simp only [oneRegion, Range.stop, wordSize] at hend hW
    omega

/-- With `max_addr` 0x1000 and two pages to allocate, the last page of the addresses is returned. -/
theorem alloc_below_size_wraps :
    (lmbAllocBase (oneRegion 0 0x10000000 ⟨0, 0⟩) 0x2000 (2 ^ 12) 0x1000).1 = 0xfffff000 ∧
      ¬ (oneRegion 0 0x10000000 ⟨0, 0⟩).AllocSound 0x2000 (2 ^ 12) 0x1000 := by
  have hres : (lmbAllocBase (oneRegion 0 0x10000000 ⟨0, 0⟩) 0x2000 (2 ^ 12) 0x1000).1 = 0xfffff000 := by decide
  refine ⟨hres, fun h => ?_⟩
  have hend := (h (by rw [hres]; decide)).2.2.2.1 (by decide)
  rw [hres] at hend
  omega

end Uboot.Lmb
