import Uboot.Lib.Ranges
import Uboot.Defrag.Basic

/-!
# The hole list

The holes are the first `n` ranges of `f`, in order. `Linked` says that their descriptors are in memory, each
with the links to its neighbours. `0` is both block 0 and no link, so the operations that look at `prevHole`
are right only when the previous hole is not in block 0.
-/

namespace Uboot.Defrag

open Uboot.Lib

/-! ## Descriptors in memory -/

section
variable {m : Mem} {i j : Nat} {h : Hole}

theorem Hole.bytes_length : h.bytes.length = 8 := rfl

theorem writeHole_frame {a : Nat} (ha : a / 8 ≠ i) : writeHole m i h a = m a := by
  rcases Nat.lt_or_ge a (8 * i) with hlt | hge
  · exact Mem.write_of_lt hlt
  · exact Mem.write_of_ge (by rw [Hole.bytes_length]; omega)

theorem writeHole_at {k : Nat} (hk : k < 8) : writeHole m i h (8 * i + k) = h.bytes.getD k 0 :=
  Mem.write_of_mem (by rw [Hole.bytes_length]; exact hk)

theorem readHole_congr {m m' : Mem} (h : ∀ k < 8, m (8 * i + k) = m' (8 * i + k)) :
    readHole m i = readHole m' i := by
  simp only [readHole, Hole.mk.injEq]
  exact ⟨Mem.readLe16_congr (h 0 (by omega)) (h 1 (by omega)),
    Mem.readLe16_congr (h 2 (by omega)) (h 3 (by omega)),
    Mem.readLe16_congr (h 4 (by omega)) (h 5 (by omega)),
    Mem.readLe16_congr (h 6 (by omega)) (h 7 (by omega))⟩

theorem readHole_writeHole_ne (hij : j ≠ i) : readHole (writeHole m i h) j = readHole m j :=
  readHole_congr fun k hk => writeHole_frame (by omega)

/-- All fields fit in 16 bits. -/
def Hole.Small (h : Hole) : Prop :=
  h.lastByte < 65536 ∧ h.nextHole < 65536 ∧ h.prevHole < 65536 ∧ h.unused < 65536

theorem readHole_small : (readHole m i).Small := by
  have hb : ∀ x : UInt8, x.toNat < 256 := fun x => x.toNat_lt
  refine ⟨?_, ?_, ?_, ?_⟩ <;> simp only [readHole, Mem.readLe16]
  · have := hb (m (8 * i)); have := hb (m (8 * i + 1)); omega
  · have := hb (m (8 * i + 2)); have := hb (m (8 * i + 2 + 1)); omega
  · have := hb (m (8 * i + 4)); have := hb (m (8 * i + 4 + 1)); omega
  · have := hb (m (8 * i + 6)); have := hb (m (8 * i + 6 + 1)); omega

theorem readHole_writeHole (hs : h.Small) : readHole (writeHole m i h) i = h := by
  obtain ⟨h1, h2, h3, h4⟩ := hs
  have hat := fun k hk => writeHole_at (m := m) (i := i) (h := h) (k := k) hk
  have h0 := hat 0 (by omega)
  rw [Nat.add_zero] at h0
  simp only [readHole, Mem.readLe16, h0, hat 1 (by omega), hat 2 (by omega), Nat.add_assoc,
    hat (2 + 1) (by omega), hat 4 (by omega), hat (4 + 1) (by omega), hat 6 (by omega), hat (6 + 1) (by omega)]
  cases h with
  | mk lastByte nextHole prevHole unused =>
      simp only [Hole.bytes, Mem.le16]
      simp only [Hole.mk.injEq]
      exact ⟨Mem.le16_value _ h1, Mem.le16_value _ h2, Mem.le16_value _ h3, Mem.le16_value _ h4⟩

section
variable {x : Nat}

theorem readHole_setLastByte (hx : x < 65536) :
    readHole (setLastByte m i x) j = if j = i then { readHole m i with lastByte := x } else readHole m j := by
  split
  next hji => subst hji; exact readHole_writeHole ⟨hx, readHole_small.2⟩
  next hji => exact readHole_writeHole_ne hji

theorem readHole_setNextHole (hx : x < 65536) :
    readHole (setNextHole m i x) j = if j = i then { readHole m i with nextHole := x } else readHole m j := by
  split
  next hji => subst hji; exact readHole_writeHole ⟨readHole_small.1, hx, readHole_small.2.2⟩
  next hji => exact readHole_writeHole_ne hji

theorem readHole_setPrevHole (hx : x < 65536) :
    readHole (setPrevHole m i x) j = if j = i then { readHole m i with prevHole := x } else readHole m j := by
  split
  next hji =>
    subst hji
    exact readHole_writeHole ⟨readHole_small.1, readHole_small.2.1, hx, readHole_small.2.2.2⟩
  next hji => exact readHole_writeHole_ne hji

end

/-- Only the descriptors at the indices `s` differ. -/
def FrameOut (s : Set Nat) (m m' : Mem) : Prop := ∀ a, a / 8 ∉ s → m' a = m a

theorem FrameOut.refl (s : Set Nat) (m : Mem) : FrameOut s m m := fun _ _ => rfl

theorem FrameOut.trans {s : Set Nat} {m m' m'' : Mem} (h : FrameOut s m m') (h' : FrameOut s m' m'') :
    FrameOut s m m'' := fun a ha => (h' a ha).trans (h a ha)

theorem FrameOut.mono {s t : Set Nat} {m m' : Mem} (h : FrameOut s m m') (hst : s ⊆ t) : FrameOut t m m' :=
  fun a ha => h a fun hs => ha (hst hs)

theorem frameOut_writeHole {s : Set Nat} (hi : i ∈ s) : FrameOut s m (writeHole m i h) :=
  fun _ ha => writeHole_frame fun he => ha (he ▸ hi)

end

/-! ## The linked list -/

/-- The block in which a hole begins. -/
def idx (r : Range) : Nat := r.base / 8

def nextIdx (n : Nat) (f : Nat → Range) (k : Nat) : Nat := if k + 1 < n then idx (f (k + 1)) else 0

def prevIdx (f : Nat → Range) (k : Nat) : Nat := if k = 0 then 0 else idx (f (k - 1))

def IsDesc (n : Nat) (f : Nat → Range) (k : Nat) (h : Hole) : Prop :=
  h.lastByte = (f k).stop ∧ h.nextHole = nextIdx n f k ∧ h.prevHole = prevIdx f k

structure Linked (m : Mem) (first n : Nat) (f : Nat → Range) : Prop where
  pos : 0 < n
  first_eq : first = idx (f 0)
  sorted : ∀ i j, i < j → j < n → idx (f i) < idx (f j)
  idx_lt : ∀ k < n, idx (f k) < 65536
  stop_lt : ∀ k < n, (f k).stop < 65536
  desc : ∀ k < n, IsDesc n f k (readHole m (idx (f k)))

section
variable {m : Mem} {first n k : Nat} {f : Nat → Range}

theorem Linked.idx_inj (h : Linked m first n f) {i j : Nat} (hi : i < n) (hj : j < n) :
    idx (f i) = idx (f j) ↔ i = j := by
  constructor
  · intro he
    rcases Nat.lt_trichotomy i j with hlt | heq | hgt
    · have := h.sorted i j hlt hj; omega
    · exact heq
    · have := h.sorted j i hgt hi; omega
  · intro he; rw [he]

theorem Linked.le_idx (h : Linked m first n f) (hk : k < n) : k ≤ idx (f k) := by
  induction k with
  | zero => exact Nat.zero_le _
  | succ k ih =>
      have := ih (by omega)
      have := h.sorted k (k + 1) (by omega) hk
      omega

theorem Linked.n_le (h : Linked m first n f) : n ≤ 65536 := by
  have h1 := h.le_idx (k := n - 1) (by have := h.pos; omega)
  have h2 := h.idx_lt (n - 1) (by have := h.pos; omega)
  omega

theorem Linked.nextIdx_lt (h : Linked m first n f) : nextIdx n f k < 65536 := by
  unfold nextIdx
  split
  next hk => exact h.idx_lt _ hk
  next => omega

theorem Linked.prevIdx_lt (h : Linked m first n f) (hk : k < n) : prevIdx f k < 65536 := by
  unfold prevIdx
  split
  next => omega
  next => exact h.idx_lt _ (by omega)

theorem Linked.nextIdx_eq_zero (h : Linked m first n f) (hk : k < n) : nextIdx n f k = 0 ↔ k + 1 = n := by
  unfold nextIdx
  split
  next hlt => have := h.sorted k (k + 1) (by omega) hlt; omega
  next => omega

/-- The search for the first hole that ends at `start` or later. -/
theorem Linked.findHole (h : Linked m first n f) (start : Nat) {fuel : Nat} (hk : k < n) (hf : n ≤ k + fuel) :
    (findHole m start fuel (idx (f k)) = some none ∧ ∀ j, k ≤ j → j < n → (f j).stop < start) ∨
    ∃ j, k ≤ j ∧ j < n ∧ findHole m start fuel (idx (f k)) = some (some (idx (f j))) ∧
      start ≤ (f j).stop ∧ ∀ i, k ≤ i → i < j → (f i).stop < start := by
  induction fuel generalizing k with
  | zero => omega
  | succ fuel ih =>
      obtain ⟨hlast, hnext, -⟩ := h.desc k hk
      rw [Defrag.findHole, hlast, hnext]
      by_cases hs : start ≤ (f k).stop
      · exact Or.inr ⟨k, le_refl k, hk, if_pos hs, hs, fun i hi hik => by omega⟩
      rw [if_neg hs]
      by_cases hn : k + 1 = n
      · refine Or.inl ⟨if_pos ((h.nextIdx_eq_zero hk).mpr hn), ?_⟩
        intro j hkj hj
        obtain rfl : j = k := by omega
        omega
      · have hnext' : nextIdx n f k = idx (f (k + 1)) := if_pos (by omega)
        rw [if_neg (fun h0 => hn ((h.nextIdx_eq_zero hk).mp h0)), hnext']
        -- the rest of the search begins at the next hole
        have hhead : ∀ j, k ≤ j → j ≠ k → k + 1 ≤ j := by omega
        rcases ih (k := k + 1) (by omega) (by omega) with ⟨he, hall⟩ | ⟨j, hkj, hj, he, hsj, hall⟩
        · refine Or.inl ⟨he, fun j hkj hj => ?_⟩
          by_cases hjk : j = k
          · subst hjk; omega
          · exact hall j (hhead j hkj hjk) hj
        · refine Or.inr ⟨j, by omega, hj, he, hsj, fun i hi hij => ?_⟩
          by_cases hik : i = k
          · subst hik; omega
          · exact hall i (hhead i hi hik) hij

/-- One hole without an end. -/
theorem linked_reset (m : Mem) :
    Linked (setPrevHole (setNextHole (setLastByte m 0 0xffff) 0 0) 0 0) 0 1 fun _ => ⟨0, 0xffff⟩ := by
  have hread : readHole (setPrevHole (setNextHole (setLastByte m 0 0xffff) 0 0) 0 0) 0 =
      ⟨0xffff, 0, 0, (readHole m 0).unused⟩ := by
    rw [readHole_setPrevHole (by omega), if_pos rfl, readHole_setNextHole (by omega), if_pos rfl,
      readHole_setLastByte (by omega), if_pos rfl]
  refine ⟨by omega, rfl, by omega, by simp [idx], by simp [Range.stop], fun k hk => ?_⟩
  obtain rfl : k = 0 := by omega
  rw [show idx (⟨0, 0xffff⟩ : Range) = 0 from rfl, hread]
  exact ⟨rfl, rfl, rfl⟩

/-- The descriptors' blocks. -/
def blocks (n : Nat) (f : Nat → Range) : Set Nat := {i | ∃ k < n, i = idx (f k)}

theorem mem_blocks (hk : k < n) : idx (f k) ∈ blocks n f := ⟨k, hk, rfl⟩

/-- Another memory with the same descriptors. -/
theorem Linked.congr {m' : Mem} (h : Linked m first n f)
    (hr : ∀ k < n, readHole m' (idx (f k)) = readHole m (idx (f k))) : Linked m' first n f :=
  ⟨h.pos, h.first_eq, h.sorted, h.idx_lt, h.stop_lt, fun k hk => (hr k hk).symm ▸ h.desc k hk⟩

theorem Linked.write (h : Linked m first n f) {a : Nat} {bs : List UInt8}
    (hd : ∀ k < n, 8 * idx (f k) + 8 ≤ a ∨ a + bs.length ≤ 8 * idx (f k)) :
    Linked (m.write a bs) first n f := by
  refine h.congr fun k hk => readHole_congr fun c hc => ?_
  rcases hd k hk with hle | hge
  · exact Mem.write_of_lt (by omega)
  · exact Mem.write_of_ge (by omega)

theorem idx_update {x : Range} (hx : x.base = (f k).base) (j : Nat) : idx (Function.update f k x j) = idx (f j) := by
  by_cases hjk : j = k
  · subst hjk; simp [idx, hx]
  · simp [hjk]

/-- The end of hole `k` moves. -/
theorem Linked.setLastByte (h : Linked m first n f) (hk : k < n) {x : Range} (hb : x.base = (f k).base)
    (hx : x.stop < 65536) : Linked (setLastByte m (idx (f k)) x.stop) first n (Function.update f k x) := by
  have hidx := idx_update hb
  refine ⟨h.pos, by rw [hidx]; exact h.first_eq, ?_, ?_, ?_, ?_⟩
  · intro i j hij hj; rw [hidx, hidx]; exact h.sorted i j hij hj
  · intro j hj; rw [hidx]; exact h.idx_lt j hj
  · intro j hj
    by_cases hjk : j = k
    · subst hjk; simpa using hx
    · simpa [hjk] using h.stop_lt j hj
  · intro j hj
    obtain ⟨hl, hn, hp⟩ := h.desc j hj
    have hn' : nextIdx n (Function.update f k x) j = nextIdx n f j := by simp only [nextIdx, hidx]
    have hp' : prevIdx (Function.update f k x) j = prevIdx f j := by simp only [prevIdx, hidx]
    rw [IsDesc, hidx, hn', hp', readHole_setLastByte hx]
    by_cases hjk : j = k
    · subst hjk; simp [hn, hp]
    · rw [if_neg (fun he => hjk ((h.idx_inj hj hk).mp he))]
      simp [hjk, hl, hn, hp]

/-- The descriptors' blocks after hole `k` is removed. -/
theorem Linked.remove_sorted (h : Linked m first n f) {i j : Nat} (hij : i < j) (hj : j < n - 1) :
    idx (removeAt f k i) < idx (removeAt f k j) := by
  simp only [removeAt]
  split_ifs with hi hj'
  · exact h.sorted i j hij (by omega)
  · exact h.sorted i (j + 1) (by omega) (by omega)
  · omega
  · exact h.sorted (i + 1) (j + 1) (by omega) (by omega)

theorem Linked.removeHole_last (h : Linked m first n f) (hn : n = 1) :
    removeHole m first (idx (f 0)) = none := by
  obtain ⟨-, hnext, hprev⟩ := h.desc 0 h.pos
  simp [removeHole, hnext, hprev, prevIdx, (h.nextIdx_eq_zero h.pos).mpr hn.symm]

/-- A memory in which the neighbours of hole `k` are linked with each other. -/
theorem Linked.of_remove {m' : Mem} {first' : Nat} (h : Linked m first n f) (hn : 1 < n) (hk : k < n)
    (hfirst : first' = idx (removeAt f k 0))
    (hr : ∀ j < n, j ≠ k → readHole m' (idx (f j)) =
      { readHole m (idx (f j)) with
        nextHole := if j + 1 = k then nextIdx n f k else (readHole m (idx (f j))).nextHole
        prevHole := if j = k + 1 then prevIdx f k else (readHole m (idx (f j))).prevHole }) :
    Linked m' first' (n - 1) (removeAt f k) := by
  have hget : ∀ j < n - 1, ∃ i < n, i ≠ k ∧ removeAt f k j = f i ∧ i = if j < k then j else j + 1 := by
    intro j hj
    by_cases hjk : j < k
    · exact ⟨j, by omega, by omega, by simp [removeAt, hjk], by simp [hjk]⟩
    · exact ⟨j + 1, by omega, by omega, by simp [removeAt, hjk], by simp [hjk]⟩
  refine ⟨by omega, hfirst, fun i j hij hj => h.remove_sorted hij hj, ?_, ?_, ?_⟩
  · intro j hj
    obtain ⟨i, hi, -, he, -⟩ := hget j hj
    rw [he]; exact h.idx_lt i hi
  · intro j hj
    obtain ⟨i, hi, -, he, -⟩ := hget j hj
    rw [he]; exact h.stop_lt i hi
  · intro j hj
    obtain ⟨i, hi, hik, he, hij⟩ := hget j hj
    obtain ⟨hl, hnx, hp⟩ := h.desc i hi
    rw [IsDesc, he, hr i hi hik]
    refine ⟨hl, ?_, ?_⟩
    · simp only [hnx, nextIdx, removeAt]
      by_cases hjk : j < k
      · rw [if_pos hjk] at hij
        subst hij
        by_cases hjk' : i + 1 = k
        · subst hjk'
          by_cases hlt : i + 1 + 1 < n
          · simp [hlt, show i + 1 < n - 1 by omega]
          · simp [hlt, show ¬ i + 1 < n - 1 by omega]
        · simp [hjk', show i + 1 < n by omega, show i + 1 < n - 1 by omega, show i + 1 < k by omega]
      · rw [if_neg hjk] at hij
        subst hij
        by_cases hlt : j + 1 + 1 < n
        · simp [hlt, show j + 1 < n - 1 by omega, show ¬ j + 1 < k by omega, show ¬ j + 1 + 1 = k by omega]
        · simp [hlt, show ¬ j + 1 < n - 1 by omega, show ¬ j + 1 + 1 = k by omega]
    · simp only [hp, prevIdx, removeAt]
      by_cases hjk : j < k
      · rw [if_pos hjk] at hij
        subst hij
        by_cases hj0 : i = 0
        · simp [hj0]
        · simp [hj0, show i ≠ k + 1 by omega, show i - 1 < k by omega]
      · rw [if_neg hjk] at hij
        subst hij
        by_cases hjk' : j = k
        · subst hjk'
          by_cases hj0 : j = 0
          · simp [hj0]
          · simp [hj0, show j - 1 < j by omega]
        · simp [hjk', show ¬ j - 1 < k by omega, show j ≠ 0 by omega, show j - 1 + 1 = j by omega]

/-- Hole `k` is removed from a list with other holes. -/
theorem Linked.removeHole (h : Linked m first n f) (hn : 1 < n) (hk : k < n)
    (h0 : k = 0 ∨ idx (f (k - 1)) ≠ 0) :
    ∃ first' m', removeHole m first (idx (f k)) = some (first', m') ∧
      Linked m' first' (n - 1) (removeAt f k) ∧ FrameOut (blocks n f) m m' := by
  obtain ⟨hlast, hnext, hprev⟩ := h.desc k hk
  have hprev0 : prevIdx f k = 0 ↔ k = 0 := by
    unfold prevIdx
    split <;> rcases h0 with h0 | h0 <;> omega
  have hnext0 := h.nextIdx_eq_zero hk
  have hpl := h.prevIdx_lt hk
  have hnl := h.nextIdx_lt (k := k)
  simp only [Defrag.removeHole, hnext, hprev, hprev0, hnext0]
  by_cases hk0 : k = 0
  · -- the first hole
    subst hk0
    have hnx : nextIdx n f 0 = idx (f 1) := if_pos hn
    rw [if_neg (by omega), if_pos rfl]
    refine ⟨_, _, rfl, h.of_remove hn hk (by simp [hnx, removeAt]) ?_, frameOut_writeHole ?_⟩
    · intro j hj hj0
      rw [hnx, readHole_setPrevHole (by omega)]
      by_cases hj1 : j = 1
      · subst hj1; simp [prevIdx]
      · rw [if_neg (fun he => hj1 ((h.idx_inj hj hn).mp he))]
        simp [hj1]
    · rw [hnx]; exact mem_blocks hn
  · have hpx : prevIdx f k = idx (f (k - 1)) := if_neg hk0
    have hfirst : first = idx (removeAt f k 0) := by
      rw [h.first_eq, removeAt, if_pos (by omega)]
    by_cases hkn : k + 1 = n
    · -- the last hole
      rw [if_neg (by omega), if_neg hk0, if_pos hkn]
      refine ⟨_, _, rfl, h.of_remove hn hk hfirst ?_, frameOut_writeHole ?_⟩
      · intro j hj hjk
        rw [hpx, readHole_setNextHole (by omega)]
        by_cases hj1 : j + 1 = k
        · subst hj1
          simp [hnext0.mpr hkn, show j ≠ j + 1 + 1 by omega]
        · rw [if_neg (fun he => hj1 (by have := (h.idx_inj hj (by omega)).mp he; omega))]
          simp [hj1, show j ≠ k + 1 by omega]
      · rw [hpx]; exact mem_blocks (by omega)
    · -- in the middle of the list
      have hnx : nextIdx n f k = idx (f (k + 1)) := if_pos (by omega)
      have hself : readHole (setPrevHole m (nextIdx n f k) (prevIdx f k)) (idx (f k)) = readHole m (idx (f k)) := by
        rw [readHole_setPrevHole hpl, hnx, if_neg]
        intro he
        have := (h.idx_inj hk (show k + 1 < n by omega)).mp he
        omega
      rw [if_neg (by omega), if_neg hk0, if_neg hkn, hself, hnext, hprev]
      refine ⟨_, _, rfl, h.of_remove hn hk hfirst ?_, (frameOut_writeHole ?_).trans (frameOut_writeHole ?_)⟩
      · intro j hj hjk
        have hjp : idx (f j) = idx (f (k - 1)) ↔ j + 1 = k := by
          rw [h.idx_inj hj (by omega)]; omega
        have hpn : idx (f (k - 1)) ≠ idx (f (k + 1)) := by
          rw [ne_eq, h.idx_inj (by omega) (by omega)]; omega
        have hjn : idx (f j) = idx (f (k + 1)) ↔ j = k + 1 := h.idx_inj hj (by omega)
        rw [readHole_setNextHole hnl, readHole_setPrevHole hpl, readHole_setPrevHole hpl, hnx, hpx, if_neg hpn]
        simp only [hjp, hjn]
        by_cases hj1 : j + 1 = k
        · subst hj1
          simp [show j ≠ j + 1 + 1 by omega]
        · by_cases hj2 : j = k + 1
          · subst hj2; simp [hj1]
          · simp [hj1, hj2]
      · rw [hnx]; exact mem_blocks (by omega)
      · rw [hpx]; exact mem_blocks (by omega)

theorem Linked.idx_ne {y : Range} (h : Linked m first n f) (hk : k < n) (hy : idx (f k) < idx y)
    (hyn : k + 1 < n → idx y < idx (f (k + 1))) {j : Nat} (hj : j < n) : idx (f j) ≠ idx y := by
  rcases Nat.lt_trichotomy j k with hjk | rfl | hjk
  · have := h.sorted j k hjk hk; omega
  · omega
  · by_cases hjk' : j = k + 1
    · subst hjk'; have := hyn hj; omega
    · have := h.sorted (k + 1) j (by omega) hj
      have := hyn (by omega)
      omega

theorem update_idx_lt {x : Range} (h : Linked m first n f) (hk : k < n) (hx : idx (f k) < idx x)
    (hxn : k + 1 < n → idx x < idx (f (k + 1))) {i j : Nat} (hij : i < j) (hj : j < n) :
    idx (Function.update f k x i) < idx (Function.update f k x j) := by
  have hord := h.sorted i j hij hj
  by_cases hik : i = k
  · subst hik
    have hji : j ≠ i := by omega
    have hnext := hxn (by omega)
    rcases Nat.eq_or_lt_of_le (show i + 1 ≤ j by omega) with he | hlt
    · subst he; simpa [hji] using hnext
    · have := h.sorted (i + 1) j hlt hj
      simp only [Function.update_self, Function.update_of_ne hji]
      omega
  · by_cases hjk : j = k
    · subst hjk
      simp only [Function.update_self, Function.update_of_ne hik]
      omega
    · simpa [hik, hjk] using hord

/-- A memory in which the descriptor of hole `k` is at `x` and its neighbours are linked with that. -/
theorem Linked.of_move {m' : Mem} {first' : Nat} {x : Range} (h : Linked m first n f) (hk : k < n)
    (hx : idx (f k) < idx x) (hxn : k + 1 < n → idx x < idx (f (k + 1))) (hx' : idx x < 65536)
    (hs : x.stop = (f k).stop) (hfirst : first' = if k = 0 then idx x else first)
    (hnew : readHole m' (idx x) = readHole m (idx (f k)))
    (hr : ∀ j < n, j ≠ k → readHole m' (idx (f j)) =
      { readHole m (idx (f j)) with
        nextHole := if j + 1 = k then idx x else (readHole m (idx (f j))).nextHole
        prevHole := if j = k + 1 then idx x else (readHole m (idx (f j))).prevHole }) :
    Linked m' first' n (Function.update f k x) := by
  refine ⟨h.pos, ?_, fun i j hij hj => update_idx_lt h hk hx hxn hij hj, ?_, ?_, ?_⟩
  · by_cases hk0 : k = 0
    · subst hk0; simpa using hfirst
    · simpa [hk0, Ne.symm hk0] using hfirst.trans (by rw [if_neg hk0, h.first_eq])
  · intro j hj
    by_cases hjk : j = k
    · subst hjk; simpa using hx'
    · simpa [hjk] using h.idx_lt j hj
  · intro j hj
    by_cases hjk : j = k
    · subst hjk; simpa [hs] using h.stop_lt j hj
    · simpa [hjk] using h.stop_lt j hj
  · intro j hj
    obtain ⟨hl, hnx, hp⟩ := h.desc j hj
    by_cases hjk : j = k
    · subst hjk
      rw [IsDesc, Function.update_self, hnew]
      refine ⟨hl.trans hs.symm, ?_, ?_⟩
      · simpa [nextIdx] using hnx
      · rw [hp]
        by_cases hj0 : j = 0
        · simp [prevIdx, hj0]
        · simp [prevIdx, hj0, show j - 1 ≠ j by omega]
    · rw [IsDesc, Function.update_of_ne hjk, hr j hj hjk]
      refine ⟨hl, ?_, ?_⟩
      · by_cases hj1 : j + 1 = k
        · subst hj1; simp [nextIdx, hk]
        · simpa [nextIdx, hj1] using hnx
      · by_cases hj1 : j = k + 1
        · subst hj1; simp [prevIdx]
        · by_cases hj0 : j = 0
          · subst hj0; simpa [prevIdx, hj1] using hp
          · simpa [prevIdx, hj0, hj1, show j - 1 ≠ k by omega] using hp

/-- The link back to `v` from the hole after `k`, if there is one. -/
theorem Linked.linkBack (h : Linked m first n f) (hk : k < n) {v : Nat} (hv : v < 65536) (m1 : Mem) :
    ∃ m2, (if nextIdx n f k ≠ 0 then setPrevHole m1 (nextIdx n f k) v else m1) = m2 ∧
      (∀ j < n, readHole m2 (idx (f j)) = { readHole m1 (idx (f j)) with
        prevHole := if j = k + 1 then v else (readHole m1 (idx (f j))).prevHole }) ∧
      (∀ i, (∀ j < n, idx (f j) ≠ i) → readHole m2 i = readHole m1 i) ∧ FrameOut (blocks n f) m1 m2 := by
  have hnext0 := h.nextIdx_eq_zero hk
  by_cases hkn : k + 1 = n
  · rw [if_neg (not_not.mpr (hnext0.mpr hkn))]
    refine ⟨m1, rfl, ?_, fun _ _ => rfl, FrameOut.refl _ _⟩
    intro j hj
    rw [if_neg (by omega)]
  · have hnx : nextIdx n f k = idx (f (k + 1)) := if_pos (by omega)
    rw [if_pos (by rw [ne_eq, hnext0]; exact hkn), hnx]
    refine ⟨_, rfl, ?_, ?_, frameOut_writeHole (mem_blocks (by omega))⟩
    · intro j hj
      have hjn : idx (f j) = idx (f (k + 1)) ↔ j = k + 1 := h.idx_inj hj (by omega)
      rw [readHole_setPrevHole hv]
      simp only [hjn]
      by_cases hj1 : j = k + 1
      · subst hj1; simp
      · simp [hj1]
    · intro i hi
      rw [readHole_setPrevHole hv, if_neg (Ne.symm (hi (k + 1) (by omega)))]

/-- Hole `k` moves up to `x`, which has the same end. -/
theorem Linked.moveHole {x : Range} (h : Linked m first n f) (hk : k < n) (hx : idx (f k) < idx x)
    (hxn : k + 1 < n → idx x < idx (f (k + 1))) (hx' : idx x < 65536) (hs : x.stop = (f k).stop)
    (h0 : k = 0 ∨ idx (f (k - 1)) ≠ 0) :
    ∃ first' m', moveHole m first (idx (f k)) (idx x) = (first', m') ∧
      Linked m' first' n (Function.update f k x) ∧ FrameOut (blocks n f ∪ {idx x}) m m' := by
  have hne := fun j hj => h.idx_ne hk hx hxn (j := j) hj
  obtain ⟨hlast, hnext, hprev⟩ := h.desc k hk
  have hprev0 : prevIdx f k = 0 ↔ k = 0 := by
    unfold prevIdx
    split <;> rcases h0 with h0 | h0 <;> omega
  have hw : readHole (writeHole m (idx x) (readHole m (idx (f k)))) (idx x) = readHole m (idx (f k)) :=
    readHole_writeHole readHole_small
  have hw' : ∀ j < n, readHole (writeHole m (idx x) (readHole m (idx (f k)))) (idx (f j)) =
      readHole m (idx (f j)) := fun j hj => readHole_writeHole_ne (hne j hj)
  have hfw : FrameOut (blocks n f ∪ {idx x}) m (writeHole m (idx x) (readHole m (idx (f k)))) :=
    frameOut_writeHole (Or.inr rfl)
  obtain ⟨m2, hm2, hr2, hx2, hf2⟩ := h.linkBack hk hx' (writeHole m (idx x) (readHole m (idx (f k))))
  have hf2' := hfw.trans (hf2.mono Set.subset_union_left)
  have hx2' : readHole m2 (idx x) = readHole m (idx (f k)) := (hx2 _ hne).trans hw
  simp only [Defrag.moveHole, hw, hnext, hm2, hx2', hprev]
  by_cases hk0 : k = 0
  · rw [if_neg (not_not.mpr (hprev0.mpr hk0))]
    refine ⟨_, _, rfl, h.of_move hk hx hxn hx' hs (by rw [if_pos hk0]) hx2' ?_, hf2'⟩
    intro j hj hjk
    rw [hr2 j hj, hw' j hj, if_neg (show ¬ j + 1 = k by omega)]
  · have hpx : prevIdx f k = idx (f (k - 1)) := if_neg hk0
    have hp : k - 1 < n := by omega
    rw [if_pos (by rw [ne_eq, hprev0]; exact hk0), hpx]
    refine ⟨_, _, rfl, h.of_move hk hx hxn hx' hs (by rw [if_neg hk0]) ?_ ?_,
      hf2'.trans (frameOut_writeHole (Or.inl (mem_blocks hp)))⟩
    · rw [readHole_setNextHole hx', if_neg (Ne.symm (hne _ hp)), hx2']
    · intro j hj hjk
      have hjp : idx (f j) = idx (f (k - 1)) ↔ j + 1 = k := by rw [h.idx_inj hj hp]; omega
      rw [readHole_setNextHole hx']
      simp only [hjp, hr2 _ hp, hr2 j hj, hw' _ hp, hw' j hj]
      by_cases hj1 : j + 1 = k
      · subst hj1; simp
      · simp [hj1]

/-! ## Splitting a hole -/

section
variable {x y : Range} {j : Nat}

theorem split_le (hj : j ≤ k) : insertAt (Function.update f k x) (k + 1) y j = Function.update f k x j := by
  simp [insertAt, show j < k + 1 by omega]

theorem split_succ : insertAt (Function.update f k x) (k + 1) y (k + 1) = y := by simp [insertAt]

theorem split_gt (hj : k + 1 < j) : insertAt (Function.update f k x) (k + 1) y j = f (j - 1) := by
  simp [insertAt, show ¬ j < k + 1 by omega, show j ≠ k + 1 by omega, show j - 1 ≠ k by omega]

theorem idx_split_le (hx : x.base = (f k).base) (hj : j ≤ k) :
    idx (insertAt (Function.update f k x) (k + 1) y j) = idx (f j) := by rw [split_le hj, idx_update hx]

theorem nextIdx_split_lt (hx : x.base = (f k).base) (hk : k < n) (hj : j < k) :
    nextIdx (n + 1) (insertAt (Function.update f k x) (k + 1) y) j = nextIdx n f j := by
  rw [nextIdx, nextIdx, if_pos (by omega), if_pos (by omega), idx_split_le hx (by omega)]

theorem nextIdx_split_self (hk : k < n) :
    nextIdx (n + 1) (insertAt (Function.update f k x) (k + 1) y) k = idx y := by
  rw [nextIdx, if_pos (by omega), split_succ]

theorem nextIdx_split_gt (hj : k < j) :
    nextIdx (n + 1) (insertAt (Function.update f k x) (k + 1) y) j = nextIdx n f (j - 1) := by
  have hsub : j - 1 + 1 = j := by omega
  rw [nextIdx, nextIdx, hsub, split_gt (show k + 1 < j + 1 by omega), Nat.add_sub_cancel]
  simp only [Nat.add_lt_add_iff_right]

theorem prevIdx_split_le (hx : x.base = (f k).base) (hj : j ≤ k) :
    prevIdx (insertAt (Function.update f k x) (k + 1) y) j = prevIdx f j := by
  rw [prevIdx, prevIdx, idx_split_le hx (by omega)]

theorem prevIdx_split_succ (hx : x.base = (f k).base) :
    prevIdx (insertAt (Function.update f k x) (k + 1) y) (k + 1) = idx (f k) := by
  rw [prevIdx, if_neg (Nat.succ_ne_zero k), Nat.add_sub_cancel, idx_split_le hx (Nat.le_refl k)]

theorem prevIdx_split_gt (hj : k + 1 < j) :
    prevIdx (insertAt (Function.update f k x) (k + 1) y) j = if j - 1 = k + 1 then idx y else prevIdx f (j - 1) := by
  rw [prevIdx, if_neg (by omega)]
  by_cases hjk : j - 1 = k + 1
  · rw [if_pos hjk, hjk, split_succ]
  · rw [if_neg hjk, prevIdx, if_neg (by omega), split_gt (by omega)]

theorem Linked.split_idx_lt (h : Linked m first n f) (hk : k < n) (hx : x.base = (f k).base) (hy : idx (f k) < idx y)
    (hyn : k + 1 < n → idx y < idx (f (k + 1))) {i : Nat} (hij : i < j) (hj : j < n + 1) :
    idx (insertAt (Function.update f k x) (k + 1) y i) < idx (insertAt (Function.update f k x) (k + 1) y j) := by
  have hmono : ∀ a b, a ≤ b → b < n → idx (f a) ≤ idx (f b) := by
    intro a b hab hb
    rcases Nat.eq_or_lt_of_le hab with rfl | hlt
    · exact Nat.le_refl _
    · exact (h.sorted a b hlt hb).le
  rcases Nat.lt_trichotomy j (k + 1) with hjk | rfl | hjk
  · rw [idx_split_le hx (by omega), idx_split_le hx (by omega)]
    exact h.sorted i j hij (by omega)
  · rw [idx_split_le hx (by omega), split_succ]
    exact (hmono i k (by omega) hk).trans_lt hy
  · rw [split_gt hjk]
    rcases Nat.lt_trichotomy i (k + 1) with hik | rfl | hik
    · rw [idx_split_le hx (by omega)]
      exact h.sorted i (j - 1) (by omega) (by omega)
    · rw [split_succ]
      exact (hyn (by omega)).trans_le (hmono (k + 1) (j - 1) (by omega) (by omega))
    · rw [split_gt hik]
      exact h.sorted (i - 1) (j - 1) (by omega) (by omega)

end

/-- A memory in which hole `k` ends at `x` and the hole `y` follows it. -/
theorem Linked.of_split {m' : Mem} {x y : Range} (h : Linked m first n f) (hk : k < n)
    (hx : x.base = (f k).base) (hxs : x.stop < 65536) (hy : idx (f k) < idx y)
    (hyn : k + 1 < n → idx y < idx (f (k + 1))) (hy' : idx y < 65536) (hys : y.stop = (f k).stop)
    (hnew : readHole m' (idx y) = { readHole m (idx (f k)) with prevHole := idx (f k) })
    (hr : ∀ j < n, readHole m' (idx (f j)) =
      { readHole m (idx (f j)) with
        lastByte := if j = k then x.stop else (readHole m (idx (f j))).lastByte
        nextHole := if j = k then idx y else (readHole m (idx (f j))).nextHole
        prevHole := if j = k + 1 then idx y else (readHole m (idx (f j))).prevHole }) :
    Linked m' first (n + 1) (insertAt (Function.update f k x) (k + 1) y) := by
  refine ⟨by omega, ?_, fun i j hij hj => h.split_idx_lt hk hx hy hyn hij hj, ?_, ?_, ?_⟩
  · rw [idx_split_le hx (Nat.zero_le k)]; exact h.first_eq
  · intro j hj
    rcases Nat.lt_trichotomy j (k + 1) with hjk | rfl | hjk
    · rw [idx_split_le hx (by omega)]; exact h.idx_lt j (by omega)
    · rw [split_succ]; exact hy'
    · rw [split_gt hjk]; exact h.idx_lt (j - 1) (by omega)
  · intro j hj
    rcases Nat.lt_trichotomy j (k + 1) with hjk | rfl | hjk
    · rw [split_le (by omega)]
      by_cases hjk' : j = k
      · subst hjk'; simpa using hxs
      · simpa [hjk'] using h.stop_lt j (by omega)
    · rw [split_succ, hys]; exact h.stop_lt k hk
    · rw [split_gt hjk]; exact h.stop_lt (j - 1) (by omega)
  · intro j hj
    rcases Nat.lt_trichotomy j (k + 1) with hjk | rfl | hjk
    · obtain ⟨hl, hnx, hp⟩ := h.desc j (by omega)
      rw [IsDesc, split_le (by omega), idx_update hx, hr j (by omega), prevIdx_split_le hx (by omega),
        if_neg (show j ≠ k + 1 by omega)]
      by_cases hjk' : j = k
      · subst hjk'
        simp [nextIdx_split_self hk, hp]
      · simp [hjk', nextIdx_split_lt hx hk (show j < k by omega), hl, hnx, hp]
    · obtain ⟨hl, hnx, hp⟩ := h.desc k hk
      rw [IsDesc, nextIdx_split_gt (Nat.lt_succ_self k), prevIdx_split_succ hx, split_succ, hnew]
      exact ⟨hl.trans hys.symm, hnx, rfl⟩
    · obtain ⟨hl, hnx, hp⟩ := h.desc (j - 1) (by omega)
      have hjk' : j - 1 ≠ k := by omega
      rw [IsDesc, nextIdx_split_gt (by omega), prevIdx_split_gt hjk, split_gt hjk, hr (j - 1) (by omega)]
      dsimp only
      rw [if_neg hjk', if_neg hjk', hp]
      exact ⟨hl, hnx, rfl⟩

/-- The end of hole `k` from `y` on becomes a hole of its own. -/
theorem Linked.splitHole {x y : Range} (h : Linked m first n f) (hk : k < n) (hx : x.base = (f k).base)
    (hxs : x.stop < 65536) (hy : idx (f k) < idx y) (hyn : k + 1 < n → idx y < idx (f (k + 1)))
    (hy' : idx y < 65536) (hys : y.stop = (f k).stop) :
    Linked (splitHole m (idx (f k)) (idx y) x.stop) first (n + 1)
        (insertAt (Function.update f k x) (k + 1) y) ∧
      FrameOut (blocks n f ∪ {idx y}) m (splitHole m (idx (f k)) (idx y) x.stop) := by
  have hne := fun j hj => h.idx_ne hk hy hyn (j := j) hj
  have hk' := h.idx_lt k hk
  obtain ⟨hlast, hnext, hprev⟩ := h.desc k hk
  obtain ⟨m4, hm4⟩ : ∃ m4, m4 = setPrevHole (setNextHole (Defrag.setLastByte
      (writeHole m (idx y) (readHole m (idx (f k)))) (idx (f k)) x.stop) (idx (f k)) (idx y)) (idx y)
      (idx (f k)) := ⟨_, rfl⟩
  have hnew : readHole m4 (idx y) = { readHole m (idx (f k)) with prevHole := idx (f k) } := by
    rw [hm4, readHole_setPrevHole hk', if_pos rfl, readHole_setNextHole hy', if_neg (hne k hk).symm,
      readHole_setLastByte hxs, if_neg (hne k hk).symm, readHole_writeHole readHole_small]
  have hr4 : ∀ j < n, readHole m4 (idx (f j)) = { readHole m (idx (f j)) with
        lastByte := if j = k then x.stop else (readHole m (idx (f j))).lastByte
        nextHole := if j = k then idx y else (readHole m (idx (f j))).nextHole } := by
    intro j hj
    rw [hm4, readHole_setPrevHole hk', if_neg (hne j hj), readHole_setNextHole hy', readHole_setLastByte hxs,
      readHole_setLastByte hxs, readHole_writeHole_ne (hne k hk), readHole_writeHole_ne (hne j hj), if_pos rfl]
    simp only [h.idx_inj hj hk]
    by_cases hjk : j = k
    · subst hjk; simp
    · simp [hjk]
  have hf4 : FrameOut (blocks n f ∪ {idx y}) m m4 := by
    rw [hm4]
    exact (((frameOut_writeHole (Or.inr rfl)).trans (frameOut_writeHole (Or.inl (mem_blocks hk)))).trans
      (frameOut_writeHole (Or.inl (mem_blocks hk)))).trans (frameOut_writeHole (Or.inr rfl))
  obtain ⟨m5, hm5, hr5, hx5, hf5⟩ := h.linkBack hk hy' m4
  have hsplit : Defrag.splitHole m (idx (f k)) (idx y) x.stop = m5 := by
    simp only [Defrag.splitHole, ← hm4, hnew, hnext]
    exact hm5
  rw [hsplit]
  refine ⟨h.of_split hk hx hxs hy hyn hy' hys ((hx5 _ hne).trans hnew) ?_,
    hf4.trans (hf5.mono Set.subset_union_left)⟩
  intro j hj
  rw [hr5 j hj, hr4 j hj]

end

end Uboot.Defrag
