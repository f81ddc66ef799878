import Uboot.Defrag.Checked
import Uboot.Lib.Except

/-!
# When reassembly stays inside its buffer

The hole list is safe when its descriptors are in the buffer, in order and linked. A fragment keeps it safe when its data
does not end in the middle of a descriptor's block, its end leaves room for one, and it touches one hole only.
-/

namespace Uboot.Defrag

open Uboot.Lib

/-! ## Accesses inside the buffer -/

section
variable {m : Mem} {i x : Nat} {hole : Hole}

def Inside (i : Nat) : Prop := 8 * i + 8 ≤ ipMaxudp

theorem inBuff_natCast : InBuff (i : Int) ↔ Inside i := by
  simp only [InBuff, Inside]
  omega

theorem getHole_ok (h : Inside i) : getHole m i = .ok (readHole m i) := by
  rw [getHole, if_pos (inBuff_natCast.mpr h), Int.toNat_natCast]

theorem putHole_ok (h : Inside i) : putHole m i hole = .ok (writeHole m i hole) := by
  rw [putHole, if_pos (inBuff_natCast.mpr h), Int.toNat_natCast]

theorem putLastByte_ok (h : Inside i) : putLastByte m i x = .ok (setLastByte m i x) := by
  rw [putLastByte, getHole_ok h, ok_bind, putHole_ok h, setLastByte]

theorem putNextHole_ok (h : Inside i) : putNextHole m i x = .ok (setNextHole m i x) := by
  rw [putNextHole, getHole_ok h, ok_bind, putHole_ok h, setNextHole]

theorem putPrevHole_ok (h : Inside i) : putPrevHole m i x = .ok (setPrevHole m i x) := by
  rw [putPrevHole, getHole_ok h, ok_bind, putHole_ok h, setPrevHole]

end

/-! ## Safe hole lists -/

structure SafeList (m : Mem) (first n : Nat) (f : Nat → Range) : Prop where
  linked : Linked m first n f
  aligned : ∀ k < n, 8 ∣ (f k).base
  inside : ∀ k < n, Inside (idx (f k))
  ordered : Ordered n f

section
variable {m : Mem} {first n k : Nat} {f : Nat → Range} {x y : Range}

theorem SafeList.base_eq (h : SafeList m first n f) (hk : k < n) : (f k).base = 8 * idx (f k) := by
  have := h.aligned k hk
  rw [idx]
  omega

theorem inside_zero : Inside 0 := by
  rw [Inside]
  decide

theorem SafeList.nextIdx_inside (h : SafeList m first n f) : Inside (nextIdx n f k) := by
  unfold nextIdx
  split
  next hlt => exact h.inside _ hlt
  next => exact inside_zero

theorem SafeList.prevIdx_inside (h : SafeList m first n f) (hk : k < n) : Inside (prevIdx f k) := by
  unfold prevIdx
  split
  next => exact inside_zero
  next => exact h.inside _ (by omega)

theorem SafeList.find (h : SafeList m first n f) (start : Nat) {fuel : Nat} (hk : k < n) (hf : n ≤ k + fuel) :
    ∃ r, findHole m start fuel (idx (f k)) = some r ∧ checkedFind m start fuel (idx (f k)) = .ok r := by
  induction fuel generalizing k with
  | zero => omega
  | succ fuel ih =>
      obtain ⟨hlast, hnext, -⟩ := h.linked.desc k hk
      rw [findHole, checkedFind, getHole_ok (h.inside k hk)]
      by_cases hs : start ≤ (readHole m (idx (f k))).lastByte
      · exact ⟨some (idx (f k)), if_pos hs, if_pos hs⟩
      by_cases hz : (readHole m (idx (f k))).nextHole = 0
      · refine ⟨none, by rw [if_neg hs, if_pos hz], ?_⟩
        simp only [bind, Except.bind, if_neg hs, if_pos hz]
        rfl
      · have hlt : k + 1 < n := by
          by_contra hge
          exact hz (hnext.trans ((h.linked.nextIdx_eq_zero hk).mpr (by omega)))
        have hnx : (readHole m (idx (f k))).nextHole = idx (f (k + 1)) := hnext.trans (if_pos hlt)
        obtain ⟨r, hr, hr'⟩ := ih hlt (by omega)
        refine ⟨r, by rw [if_neg hs, if_neg hz, hnx, hr], ?_⟩
        simp only [bind, Except.bind, if_neg hs, if_neg hz]
        rw [hnx]
        exact hr'

/-! ## The operations on a safe list are not faults -/

theorem SafeList.checkedRemove (h : SafeList m first n f) (hk : k < n) :
    checkedRemove m first (idx (f k)) = .ok (removeHole m first (idx (f k))) := by
  obtain ⟨-, hnext, hprev⟩ := h.linked.desc k hk
  have hin := h.inside k hk
  have hnin : Inside (readHole m (idx (f k))).nextHole := hnext ▸ h.nextIdx_inside
  have hpin : Inside (readHole m (idx (f k))).prevHole := hprev ▸ h.prevIdx_inside hk
  have hsmall := readHole_small (m := m) (i := idx (f k))
  rw [Defrag.checkedRemove, getHole_ok hin, ok_bind, removeHole]
  dsimp only
  split
  next => rfl
  split
  next => rw [putPrevHole_ok hnin, ok_bind]; rfl
  split
  next => rw [putNextHole_ok hpin, ok_bind]; rfl
  next =>
    rw [putPrevHole_ok hnin, ok_bind, getHole_ok hin, ok_bind]
    have hpin' : Inside (readHole (setPrevHole m (readHole m (idx (f k))).nextHole (readHole m (idx (f k))).prevHole)
        (idx (f k))).prevHole := by
      rw [readHole_setPrevHole hsmall.2.2.1]
      split <;> exact hpin
    rw [putNextHole_ok hpin', ok_bind]
    rfl

theorem Inside.lt {i : Nat} (h : Inside i) : i < 65536 := by
  rw [Inside, show ipMaxudp = 16464 from rfl] at h
  omega

theorem linkBack_ok {i v : Nat} (h : Inside i) (m : Mem) :
    linkBack m i v = .ok (if i ≠ 0 then setPrevHole m i v else m) := by
  unfold linkBack
  split
  next => exact putPrevHole_ok h
  next => rfl

theorem SafeList.checkedMove (h : SafeList m first n f) (hk : k < n) {newh : Nat} (hx : Inside newh) :
    checkedMove m first (idx (f k)) newh = .ok (moveHole m first (idx (f k)) newh) := by
  obtain ⟨-, hnext, hprev⟩ := h.linked.desc k hk
  have hw : readHole (writeHole m newh (readHole m (idx (f k)))) newh = readHole m (idx (f k)) :=
    readHole_writeHole readHole_small
  have hnin : Inside (readHole m (idx (f k))).nextHole := hnext ▸ h.nextIdx_inside
  have hpin : Inside (readHole m (idx (f k))).prevHole := hprev ▸ h.prevIdx_inside hk
  rw [Defrag.checkedMove, getHole_ok (h.inside k hk), ok_bind, putHole_ok hx, ok_bind, getHole_ok hx, ok_bind, hw,
    moveHole]
  simp only [hw, Int.toNat_natCast]
  rw [linkBack_ok hnin, ok_bind, getHole_ok hx, ok_bind]
  generalize hm : (if (readHole m (idx (f k))).nextHole ≠ 0 then
    setPrevHole (writeHole m newh (readHole m (idx (f k)))) (readHole m (idx (f k))).nextHole newh
    else writeHole m newh (readHole m (idx (f k)))) = m₂
  have hpin₂ : Inside (readHole m₂ newh).prevHole := by
    rw [← hm]
    split
    next =>
      rw [readHole_setPrevHole hx.lt]
      split
      · exact hx
      · rwa [hw]
    next => rwa [hw]
  split
  next => rw [putNextHole_ok hpin₂, ok_bind]; rfl
  next => rfl

theorem SafeList.checkedSplit (h : SafeList m first n f) (hk : k < n) {newh start : Nat} (hx : Inside newh)
    (hne : newh ≠ idx (f k)) (hs : start < 65536) :
    checkedSplit m (idx (f k)) newh start = .ok (splitHole m (idx (f k)) newh start) := by
  obtain ⟨-, hnext, -⟩ := h.linked.desc k hk
  have hin := h.inside k hk
  have hnin : Inside (readHole m (idx (f k))).nextHole := hnext ▸ h.nextIdx_inside
  rw [Defrag.checkedSplit, getHole_ok hin, ok_bind, putHole_ok hx, ok_bind, putLastByte_ok hin, ok_bind,
    putNextHole_ok hin, ok_bind, putPrevHole_ok hx, ok_bind, getHole_ok hx, ok_bind, splitHole, Int.toNat_natCast]
  have hnext' : (readHole (setPrevHole (setNextHole (setLastByte (writeHole m newh (readHole m (idx (f k)))) (idx (f k))
      start) (idx (f k)) newh) newh (idx (f k))) newh).nextHole = (readHole m (idx (f k))).nextHole := by
    rw [readHole_setPrevHole hin.lt, if_pos rfl, readHole_setNextHole hx.lt, if_neg hne, readHole_setLastByte hs,
      if_neg hne, readHole_writeHole readHole_small]
  rw [hnext']
  exact linkBack_ok hnin _

/-- `0` is both block 0 and no link: the holes behind one in block 0 are a list of their own. -/
theorem Linked.tail (h : Linked m first n f) (hn : 1 < n) (h0 : idx (f 0) = 0) :
    Linked m (idx (f 1)) (n - 1) fun j => f (j + 1) := by
  refine ⟨by omega, rfl, fun i j hij hj => h.sorted _ _ (by omega) (by omega), fun k hk => h.idx_lt _ (by omega),
    fun k hk => h.stop_lt _ (by omega), fun k hk => ?_⟩
  obtain ⟨hlast, hnext, hprev⟩ := h.desc (k + 1) (by omega)
  refine ⟨hlast, hnext.trans ?_, hprev.trans ?_⟩
  · simp only [nextIdx, show k + 1 + 1 < n ↔ k + 1 < n - 1 by omega]
  · simp only [prevIdx, Nat.add_one_ne_zero, if_false, Nat.add_sub_cancel]
    by_cases hk0 : k = 0
    · rw [if_pos hk0, hk0, h0]
    · rw [if_neg hk0, show k - 1 + 1 = k by omega]

theorem SafeList.tail (h : SafeList m first n f) (hn : 1 < n) (h0 : idx (f 0) = 0) :
    SafeList m (idx (f 1)) (n - 1) fun j => f (j + 1) :=
  ⟨h.linked.tail hn h0, fun k hk => h.aligned _ (by omega), fun k hk => h.inside _ (by omega),
    fun i j hij hj => h.ordered _ _ (by omega) (by omega)⟩

/-! ## They keep the list safe -/

/-- The entries of `f'` are entries of `f` other than `k`. -/
def Others (n : Nat) (f : Nat → Range) (k n' : Nat) (f' : Nat → Range) : Prop :=
  ∀ j < n', ∃ i < n, i ≠ k ∧ f' j = f i

/-- A hole whose link back is 0 is removed without a look at `first_hole`. -/
theorem removeHole_of_prev {h : Nat} (hp : (readHole m h).prevHole = 0) (first' : Nat) :
    removeHole m first h = removeHole m first' h := by
  simp only [removeHole, hp, true_and, if_true]

theorem moveHole_of_prev {h newh : Nat} (hp : (readHole m h).prevHole = 0) (hne : newh ≠ (readHole m h).nextHole)
    (hlt : newh < 65536) (first' : Nat) : moveHole m first h newh = moveHole m first' h newh := by
  have hw : readHole (writeHole m newh (readHole m h)) newh = readHole m h := readHole_writeHole readHole_small
  have hp₂ : (readHole (if (readHole m h).nextHole ≠ 0 then
      setPrevHole (writeHole m newh (readHole m h)) (readHole m h).nextHole newh
      else writeHole m newh (readHole m h)) newh).prevHole = 0 := by
    split
    next => rw [readHole_setPrevHole hlt, if_neg hne, hw, hp]
    next => rw [hw, hp]
  simp only [moveHole, hw, hp₂, ne_eq, not_true_eq_false, if_false]

/-- Before hole `k` there is none, one that is not in block 0, or only the one in block 0. -/
theorem Linked.block_zero (h : Linked m first n f) (hk : k < n) :
    (k = 0 ∨ idx (f (k - 1)) ≠ 0) ∨ k = 1 ∧ idx (f 0) = 0 := by
  by_cases h0 : idx (f (k - 1)) = 0
  · rcases Nat.lt_or_ge 1 k with hlt | hle
    · have := h.sorted 0 (k - 1) (by omega) (by omega)
      omega
    · rcases Nat.eq_zero_or_pos k with hz | hp
      · exact Or.inl (Or.inl hz)
      · obtain rfl : k = 1 := by omega
        exact Or.inr ⟨rfl, h0⟩
  · exact Or.inl (Or.inr h0)

theorem SafeList.removeAt (h : SafeList m first n f) (hk : k < n) {m' : Mem} {first' : Nat}
    (hl : Linked m' first' (n - 1) (removeAt f k)) : SafeList m' first' (n - 1) (removeAt f k) := by
  refine ⟨hl, fun j hj => ?_, fun j hj => ?_, h.ordered.removeAt hk⟩
  · rw [Lib.removeAt]
    split
    · exact h.aligned _ (by omega)
    · exact h.aligned _ (by omega)
  · rw [Lib.removeAt]
    split
    · exact h.inside _ (by omega)
    · exact h.inside _ (by omega)

theorem others_removeAt (hk : k < n) : Others n f k (n - 1) (removeAt f k) := by
  intro j hj
  rw [Lib.removeAt]
  split
  next hlt => exact ⟨j, by omega, by omega, rfl⟩
  next hge => exact ⟨j + 1, by omega, by omega, rfl⟩

/-- Without a hole in block 0 before it, hole `k` is removed from the list or is the last one. -/
theorem SafeList.remove_linked (h : SafeList m first n f) (hk : k < n) (h0 : k = 0 ∨ idx (f (k - 1)) ≠ 0) :
    removeHole m first (idx (f k)) = none ∨
      ∃ first' m' n' f', removeHole m first (idx (f k)) = some (first', m') ∧ SafeList m' first' n' f' ∧
        Others n f k n' f' := by
  rcases Nat.lt_or_ge 1 n with hn | hn
  · obtain ⟨first', m', heq, hl, -⟩ := h.linked.removeHole hn hk h0
    exact Or.inr ⟨first', m', n - 1, Lib.removeAt f k, heq, h.removeAt hk hl, others_removeAt hk⟩
  · obtain rfl : k = 0 := by omega
    exact Or.inl (h.linked.removeHole_last (by omega))

theorem SafeList.remove (h : SafeList m first n f) (hk : k < n) :
    removeHole m first (idx (f k)) = none ∨
      ∃ first' m' n' f', removeHole m first (idx (f k)) = some (first', m') ∧ SafeList m' first' n' f' ∧
        Others n f k n' f' := by
  rcases h.linked.block_zero hk with h0 | ⟨rfl, h0⟩
  · exact h.remove_linked hk h0
  · obtain ⟨-, -, hprev⟩ := h.linked.desc 1 hk
    have hp : (readHole m (idx (f 1))).prevHole = 0 := by rw [hprev, prevIdx, if_neg (by omega)]; exact h0
    rw [removeHole_of_prev hp (idx (f 1))]
    rcases (h.tail hk h0).remove_linked (k := 0) (by omega) (Or.inl rfl) with hnone | ⟨first', m', n', f', heq, hs, ho⟩
    · exact Or.inl hnone
    · refine Or.inr ⟨first', m', n', f', heq, hs, fun j hj => ?_⟩
      obtain ⟨i, hi, hik, hfi⟩ := ho j hj
      exact ⟨i + 1, by omega, by omega, hfi⟩

/-- Hole `k` moves up to `x`, before the next hole. -/
theorem SafeList.move_linked (h : SafeList m first n f) (hk : k < n) (h0 : k = 0 ∨ idx (f (k - 1)) ≠ 0)
    (hx8 : 8 ∣ x.base) (hin : Inside (idx x)) (hlt : idx (f k) < idx x) (hs : x.stop = (f k).stop)
    (hxs : x.base < x.stop) :
    ∃ first' m' n' f', moveHole m first (idx (f k)) (idx x) = (first', m') ∧ SafeList m' first' n' f' ∧
      ∀ j < n', f' j = x ∨ ∃ i < n, i ≠ k ∧ f' j = f i := by
  have hbase := h.base_eq hk
  have hxb : x.base = 8 * idx x := by rw [idx]; omega
  have hnext : k + 1 < n → idx x < idx (f (k + 1)) := by
    intro hn
    have hord := h.ordered k (k + 1) (by omega) hn
    have := h.base_eq hn
    omega
  obtain ⟨first', m', heq, hl, -⟩ := h.linked.moveHole hk hlt hnext hin.lt hs h0
  have hentry : ∀ j < n, Function.update f k x j = x ∨ ∃ i < n, i ≠ k ∧ Function.update f k x j = f i := by
    intro j hj
    by_cases hjk : j = k
    · exact Or.inl (by rw [hjk, Function.update_self])
    · exact Or.inr ⟨j, hj, hjk, Function.update_of_ne hjk _ _⟩
  refine ⟨first', m', n, _, heq, ⟨hl, fun j hj => ?_, fun j hj => ?_, ?_⟩, hentry⟩
  · rcases hentry j hj with he | ⟨i, hi, -, he⟩
    · rw [he]; exact hx8
    · rw [he]; exact h.aligned i hi
  · rcases hentry j hj with he | ⟨i, hi, -, he⟩
    · rw [he]; exact hin
    · rw [he]; exact h.inside i hi
  · intro i j hij hj
    have hord := h.ordered i j hij hj
    by_cases hik : i = k
    · subst hik
      rw [Function.update_self, Function.update_of_ne (by omega), hs]
      exact hord
    · by_cases hjk : j = k
      · subst hjk
        rw [Function.update_self, Function.update_of_ne hik]
        omega
      · rw [Function.update_of_ne hik, Function.update_of_ne hjk]
        exact hord

theorem SafeList.move (h : SafeList m first n f) (hk : k < n) (hx8 : 8 ∣ x.base) (hin : Inside (idx x))
    (hlt : idx (f k) < idx x) (hs : x.stop = (f k).stop) (hxs : x.base < x.stop) :
    ∃ first' m' n' f', moveHole m first (idx (f k)) (idx x) = (first', m') ∧ SafeList m' first' n' f' ∧
      ∀ j < n', f' j = x ∨ ∃ i < n, i ≠ k ∧ f' j = f i := by
  rcases h.linked.block_zero hk with h0 | ⟨rfl, h0⟩
  · exact h.move_linked hk h0 hx8 hin hlt hs hxs
  · obtain ⟨-, hnext, hprev⟩ := h.linked.desc 1 hk
    have hp : (readHole m (idx (f 1))).prevHole = 0 := by rw [hprev, prevIdx, if_neg (by omega)]; exact h0
    have hne : idx x ≠ (readHole m (idx (f 1))).nextHole := by
      rw [hnext, nextIdx]
      split
      next hn =>
        have hord := h.ordered 1 2 (by omega) hn
        have hb := h.base_eq hn
        have hxb : x.base = 8 * idx x := by rw [idx]; omega
        simp only [Nat.reduceAdd] at hb ⊢
        omega
      next => omega
    rw [moveHole_of_prev hp hne hin.lt (idx (f 1))]
    obtain ⟨first', m', n', f', heq, hsafe, ho⟩ :=
      (h.tail hk h0).move_linked (k := 0) (by omega) (Or.inl rfl) hx8 hin hlt hs hxs
    refine ⟨first', m', n', f', heq, hsafe, fun j hj => ?_⟩
    rcases ho j hj with he | ⟨i, hi, hik, hfi⟩
    · exact Or.inl he
    · exact Or.inr ⟨i + 1, by omega, by omega, hfi⟩

/-- The end of hole `k` moves, up to the next hole at most. -/
theorem SafeList.setLast (h : SafeList m first n f) (hk : k < n) (hb : x.base = (f k).base) (hx : x.stop < 65536)
    (hnext : k + 1 < n → x.stop ≤ (f (k + 1)).base) :
    SafeList (setLastByte m (idx (f k)) x.stop) first n (Function.update f k x) := by
  have hbase : ∀ j, (Function.update f k x j).base = (f j).base := by
    intro j
    by_cases hjk : j = k
    · rw [hjk, Function.update_self, hb]
    · rw [Function.update_of_ne hjk]
  refine ⟨h.linked.setLastByte hk hb hx, fun j hj => hbase j ▸ h.aligned j hj, fun j hj => ?_, fun i j hij hj => ?_⟩
  · rw [idx, hbase]
    exact h.inside j hj
  · rw [hbase]
    by_cases hik : i = k
    · subst hik
      rw [Function.update_self]
      rcases Nat.eq_or_lt_of_le (show i + 1 ≤ j from hij) with rfl | hlt
      · exact hnext hj
      · have hord := h.ordered (i + 1) j hlt hj
        have := hnext (by omega)
        rw [Range.stop] at hord
        omega
    · rw [Function.update_of_ne hik]
      exact h.ordered i j hij hj

/-- Hole `k` ends at `x` and the hole `y` begins before the next one. -/
theorem SafeList.split (h : SafeList m first n f) (hk : k < n) (hx : x.base = (f k).base) (hxs : x.stop < 65536)
    (hxy : x.stop ≤ y.base) (hy8 : 8 ∣ y.base) (hin : Inside (idx y)) (hlt : idx (f k) < idx y)
    (hys : y.stop = (f k).stop) (hyb : y.base < y.stop) :
    SafeList (splitHole m (idx (f k)) (idx y) x.stop) first (n + 1) (insertAt (Function.update f k x) (k + 1) y) := by
  have hyb8 : y.base = 8 * idx y := by rw [idx]; omega
  have hnext : k + 1 < n → idx y < idx (f (k + 1)) := by
    intro hn
    have hord := h.ordered k (k + 1) (by omega) hn
    have := h.base_eq hn
    omega
  have hfk : (f k).base ≤ (f k).stop := by rw [Range.stop]; omega
  have hentry : ∀ j, insertAt (Function.update f k x) (k + 1) y j = x ∧ j = k ∨
      insertAt (Function.update f k x) (k + 1) y j = y ∨
      ∃ i, (j ≤ n → i < n) ∧ insertAt (Function.update f k x) (k + 1) y j = f i := by
    intro j
    rw [insertAt]
    split
    next hj =>
      by_cases hjk : j = k
      · exact Or.inl ⟨by rw [hjk, Function.update_self], hjk⟩
      · exact Or.inr (Or.inr ⟨j, fun _ => by omega, Function.update_of_ne hjk _ _⟩)
    next hj =>
      split
      next => exact Or.inr (Or.inl rfl)
      next hj' => exact Or.inr (Or.inr ⟨j - 1, fun _ => by omega, Function.update_of_ne (by omega) _ _⟩)
  have hxl : x.stop ≤ (f k).stop := by omega
  have hord : Ordered n (Function.update f k x) := by
    intro i j hij hj
    have hij' := h.ordered i j hij hj
    by_cases hik : i = k
    · subst hik
      rw [Function.update_self, Function.update_of_ne (by omega)]
      omega
    · by_cases hjk : j = k
      · subst hjk
        rw [Function.update_self, Function.update_of_ne hik, hx]
        exact hij'
      · rw [Function.update_of_ne hik, Function.update_of_ne hjk]
        exact hij'
  refine ⟨(h.linked.splitHole hk hx hxs hlt hnext hin.lt hys).1, fun j hj => ?_, fun j hj => ?_,
    hord.insertAt (by omega) (fun j hj => ?_) fun j hkj hj => ?_⟩
  · rcases hentry j with ⟨he, -⟩ | he | ⟨i, hi, he⟩
    · rw [he, hx]; exact h.aligned k hk
    · rw [he]; exact hy8
    · rw [he]; exact h.aligned i (hi (by omega))
  · rcases hentry j with ⟨he, -⟩ | he | ⟨i, hi, he⟩
    · rw [he, idx, hx]; exact h.inside k hk
    · rw [he]; exact hin
    · rw [he]; exact h.inside i (hi (by omega))
  · by_cases hjk : j = k
    · rw [hjk, Function.update_self]; exact hxy
    · rw [Function.update_of_ne hjk]
      have := h.ordered j k (by omega) hk
      have := h.base_eq hk
      omega
  · rw [Function.update_of_ne (by omega), hys]
    exact h.ordered k j (by omega) hj

theorem SafeList.write (h : SafeList m first n f) {start : Nat} {data : List UInt8}
    (hd : ∀ k < n, 8 * idx (f k) + 8 ≤ start ∨ start + data.length ≤ 8 * idx (f k)) :
    SafeList (m.write start data) first n f :=
  ⟨h.linked.write hd, h.aligned, h.inside, h.ordered⟩

/-! ## One fragment -/

/-- A fragment with `len` bytes from block `offset8` on, in hole `k`. -/
structure Touches (m : Mem) (first n : Nat) (f : Nat → Range) (k offset8 len : Nat) : Prop where
  safe : SafeList m first n f
  hole : k < n
  before : ∀ i < k, (f i).stop < offset8 * 8
  found : offset8 * 8 ≤ (f k).stop
  overlap : 8 * idx (f k) < offset8 * 8 + len
  next : k + 1 < n → offset8 * 8 + len ≤ (f (k + 1)).base
  rest : offset8 * 8 + len < (f k).stop → 8 ∣ len ∧ offset8 * 8 + len < ipMaxudp

variable {offset8 len : Nat}

/-- The other holes are not in the way of the data. -/
theorem Touches.other (h : Touches m first n f k offset8 len) {i : Nat} (hi : i < n) (hik : i ≠ k) :
    8 * idx (f i) + 8 ≤ offset8 * 8 ∨ offset8 * 8 + len ≤ 8 * idx (f i) := by
  have hb := h.safe.base_eq hi
  rcases Nat.lt_or_gt_of_ne hik with hlt | hgt
  · have := h.before i hlt
    rw [Range.stop] at this
    omega
  · refine Or.inr (le_trans (h.next (by have := h.hole; omega)) ?_)
    rcases Nat.eq_or_lt_of_le (show k + 1 ≤ i from hgt) with rfl | hlt
    · exact hb.le
    · have := h.safe.ordered (k + 1) i hlt hi
      rw [Range.stop] at this
      omega

/-- A list that is safe, and whose descriptors the data does not overwrite. -/
def Clear (m : Mem) (first offset8 len : Nat) : Prop :=
  ∃ n f, SafeList m first n f ∧ ∀ k < n, 8 * idx (f k) + 8 ≤ offset8 * 8 ∨ offset8 * 8 + len ≤ 8 * idx (f k)

/-- The range from `b` to `e`. -/
def between (b e : Nat) : Range := ⟨b, e - b⟩

theorem between_stop {b e : Nat} (h : b ≤ e) : (between b e).stop = e := by
  simp only [between, Range.stop]
  omega

theorem Touches.fix (h : Touches m first n f k offset8 len) :
    checkedFix m first (idx (f k)) offset8 len = .ok (fixHoles m first (idx (f k)) offset8 len) ∧
      (fixHoles m first (idx (f k)) offset8 len = none ∨
        ∃ first' m', fixHoles m first (idx (f k)) offset8 len = some (first', m') ∧ Clear m' first' offset8 len) := by
  have hs := h.safe
  have hk := h.hole
  obtain ⟨hlast, -, -⟩ := hs.linked.desc k hk
  have hbase := hs.base_eq hk
  have hstop := hs.linked.stop_lt k hk
  have hfound := h.found
  have hoverlap := h.overlap
  have hdiv : ((offset8 : Int) + (len : Int).tdiv 8) = ((offset8 + len / 8 : Nat) : Int) := by
    rw [Int.tdiv_eq_ediv_of_nonneg (by omega)]
    omega
  have hle : ((f k).stop : Int) ≤ (offset8 : Int) * 8 + len ↔ (f k).stop ≤ offset8 * 8 + len := by omega
  rw [checkedFix, getHole_ok (hs.inside k hk), ok_bind, fixHoles, hdiv]
  simp only [hlast, hle]
  by_cases hend : (f k).stop ≤ offset8 * 8 + len
  · by_cases hcov : offset8 ≤ idx (f k)
    · -- all of the hole
      simp only [hcov, hend, and_self, if_true]
      refine ⟨hs.checkedRemove hk, ?_⟩
      rcases hs.remove hk with hnone | ⟨first', m', n', f', heq, hsafe, ho⟩
      · exact Or.inl hnone
      · refine Or.inr ⟨first', m', heq, n', f', hsafe, fun j hj => ?_⟩
        obtain ⟨i, hi, hik, he⟩ := ho j hj
        rw [he]
        exact h.other hi hik
    · -- its end
      simp only [hcov, hend, false_and, if_true, if_false]
      rw [putLastByte_ok (hs.inside k hk), ok_bind]
      have hx : (between (f k).base (offset8 * 8)).stop = offset8 * 8 := between_stop (by omega)
      have hsafe := hs.setLast hk (x := between (f k).base (offset8 * 8)) rfl (by omega) fun hn => by
        have := h.next hn
        omega
      rw [hx] at hsafe
      refine ⟨rfl, Or.inr ⟨first, _, rfl, n, _, hsafe, ?_⟩⟩
      intro j hj
      by_cases hjk : j = k
      · rw [hjk, Function.update_self, show idx (between (f k).base (offset8 * 8)) = idx (f k) from rfl]
        omega
      · rw [Function.update_of_ne hjk]
        exact h.other hj hjk
  · obtain ⟨hdvd, hmax⟩ := h.rest (by omega)
    have hnewh : idx (between (offset8 * 8 + len) (f k).stop) = offset8 + len / 8 := by
      simp only [idx, between]
      omega
    have hstop' : (between (offset8 * 8 + len) (f k).stop).stop = (f k).stop := between_stop (by omega)
    have hbase' : (between (offset8 * 8 + len) (f k).stop).base = offset8 * 8 + len := rfl
    have hin : Inside (offset8 + len / 8) := by
      have hdvd' : 8 ∣ ipMaxudp := by decide
      rw [Inside]
      omega
    have hafter : 8 * (offset8 + len / 8) + 8 ≤ offset8 * 8 ∨ offset8 * 8 + len ≤ 8 * (offset8 + len / 8) := by omega
    by_cases hcov : offset8 ≤ idx (f k)
    · -- its beginning
      simp only [hcov, hend, and_false, if_true, if_false]
      rw [hs.checkedMove hk hin, ok_bind]
      obtain ⟨first', m', n', f', heq, hsafe, ho⟩ := hs.move hk (x := between (offset8 * 8 + len) (f k).stop)
        (by omega) (hnewh ▸ hin) (by omega) hstop' (by omega)
      rw [hnewh] at heq
      refine ⟨rfl, Or.inr ⟨first', m', by rw [heq], n', f', hsafe, fun j hj => ?_⟩⟩
      rcases ho j hj with he | ⟨i, hi, hik, he⟩
      · rw [he, hnewh]
        exact hafter
      · rw [he]
        exact h.other hi hik
    · -- its middle
      simp only [hcov, hend, false_and, if_false]
      have hx : (between (f k).base (offset8 * 8)).stop = offset8 * 8 := between_stop (by omega)
      rw [hs.checkedSplit hk hin (by omega) (by omega), ok_bind]
      have hsafe := hs.split hk (x := between (f k).base (offset8 * 8)) (y := between (offset8 * 8 + len) (f k).stop) rfl
        (by omega) (by omega) (by omega) (hnewh ▸ hin) (by omega) hstop' (by omega)
      rw [hnewh, hx] at hsafe
      refine ⟨rfl, Or.inr ⟨first, _, rfl, n + 1, _, hsafe, fun j hj => ?_⟩⟩
      rw [insertAt]
      split
      next hj' =>
        by_cases hjk : j = k
        · rw [hjk, Function.update_self, show idx (between (f k).base (offset8 * 8)) = idx (f k) from rfl]
          omega
        · rw [Function.update_of_ne hjk]
          exact h.other (by omega) hjk
      next hj' =>
        split
        next => rw [hnewh]; exact hafter
        next hj'' =>
          rw [Function.update_of_ne (by omega)]
          exact h.other (by omega) (by omega)

end

section
variable {st : DefragState} {fr : Fragment} {done : Bool}

/-- The fragment as a packet. -/
def Fragment.packet (fr : Fragment) (h : ipHdrSize ≤ fr.hdr.ipLen.toNat) : IpPacket where
  hdr := fr.hdr
  data := fr.data.take (fr.hdr.ipLen.toNat - ipHdrSize)
  ipLen_eq := by
    have := fr.room
    rw [List.length_take]
    omega

/-- A fragment that is harmless after the fragments before it, of which the last one may have completed its datagram. -/
structure Harmless (st : DefragState) (done : Bool) (fr : Fragment) : Prop where
  header : ipHdrSize ≤ fr.hdr.ipLen.toNat
  whole : fr.moreFragments = true → 8 ∣ fr.hdr.ipLen.toNat - ipHdrSize ∧ fr.stop < ipMaxudp
  fresh : done = true → st.localip.ipId ≠ fr.hdr.ipId
  oneHole : st.localip.ipId = fr.hdr.ipId → ∀ h, findHole st.payload fr.start 65536 st.firstHole = some (some h) →
    (readHole st.payload h).nextHole ≠ 0 → fr.stop ≤ 8 * (readHole st.payload h).nextHole

theorem tooFar_iff (h : ipHdrSize ≤ fr.hdr.ipLen.toNat) : fr.TooFar ↔ (ipMaxudp : Int) < fr.stop := by
  refine or_iff_right ?_
  rw [Fragment.stop, Fragment.len]
  omega

theorem copyIn_ok (h : ipHdrSize ≤ fr.hdr.ipLen.toNat) (hmax : ¬ ipMaxudp < fr.stop) (m : Mem) :
    copyIn m fr = .ok (m.write fr.start (fr.packet h).data) := by
  have hlen : fr.len = ((fr.hdr.ipLen.toNat - ipHdrSize : Nat) : Int) := by
    rw [Fragment.len]
    omega
  rw [copyIn, if_neg (by omega), if_neg hmax, hlen, Int.toNat_natCast, Fragment.packet]

variable {n k : Nat} {f : Nat → Range}

/-- The hole that a fragment overlaps, after the last fragment has ended it. -/
theorem SafeList.touches (h : SafeList st.payload st.firstHole n f) (hlen : ipHdrSize ≤ fr.hdr.ipLen.toNat)
    (hmax : ¬ ipMaxudp < fr.stop)
    (hwhole : fr.moreFragments = true → 8 ∣ fr.hdr.ipLen.toNat - ipHdrSize ∧ fr.stop < ipMaxudp) (hk : k < n)
    (hbefore : ∀ i < k, (f i).stop < fr.start) (hfound : fr.start ≤ (f k).stop)
    (hover : idx (f k) < fr.offset8 + ((fr.packet hlen).data.length + 7) / 8)
    (hnext : k + 1 < n → (fr.packet hlen).stop ≤ (f (k + 1)).base) :
    ∃ m' f', truncate st.payload (idx (f k)) fr = .ok m' ∧
      m' = (if fr.moreFragments then st.payload else setLastByte st.payload (idx (f k)) (fr.packet hlen).stop) ∧
      idx (f' k) = idx (f k) ∧ Touches m' st.firstHole n f' k fr.offset8 (fr.packet hlen).data.length := by
  have hdata : (fr.packet hlen).data.length = fr.hdr.ipLen.toNat - ipHdrSize := by
    have := (fr.packet hlen).ipLen_eq
    have heq : (fr.packet hlen).hdr = fr.hdr := rfl
    rw [heq] at this
    omega
  have hstart : fr.start = fr.offset8 * 8 := rfl
  have hstop : (fr.packet hlen).stop = fr.offset8 * 8 + (fr.packet hlen).data.length := rfl
  have hstop' : fr.stop = ((fr.packet hlen).stop : Nat) := by
    rw [Fragment.stop, Fragment.len, hstop, hdata, hstart]
    omega
  have hmax16 : (fr.packet hlen).stop < 65536 := by
    rw [hstop', show ipMaxudp = 16464 from rfl] at hmax
    omega
  have hbase := h.base_eq hk
  rw [hstart] at hbefore hfound
  cases hmore : fr.moreFragments with
  | true =>
      obtain ⟨hdvd, hlt⟩ := hwhole hmore
      refine ⟨st.payload, f, by rw [truncate, if_pos hmore], by rw [if_pos rfl], rfl, h, hk, hbefore, hfound, by omega,
        fun hn => hstop ▸ hnext hn, fun _ => ⟨hdata ▸ hdvd, ?_⟩⟩
      rw [hstop'] at hlt
      omega
  | false =>
      have hx : (between (f k).base (fr.packet hlen).stop).stop = (fr.packet hlen).stop := between_stop (by omega)
      have hsafe := h.setLast hk (x := between (f k).base (fr.packet hlen).stop) rfl (by omega) fun hn => by
        rw [hx]
        exact hnext hn
      rw [hx] at hsafe
      refine ⟨_, _, ?_, by simp, ?_, ⟨hsafe, hk, fun i hi => ?_, ?_, ?_, fun hn => ?_, fun hlt => ?_⟩⟩
      · rw [truncate, hmore, hstop', putLastByte_ok (h.inside k hk)]
        simp only [Bool.false_eq_true, if_false]
        congr 2
        omega
      · rw [Function.update_self]
        rfl
      · rw [Function.update_of_ne (by omega)]
        exact hbefore i hi
      · rw [Function.update_self, hx]
        omega
      · rw [Function.update_self, show idx (between (f k).base (fr.packet hlen).stop) = idx (f k) from rfl]
        omega
      · rw [Function.update_of_ne (by omega)]
        exact hstop ▸ hnext hn
      · rw [Function.update_self, hx] at hlt
        omega

/-- A fragment on a safe list is no fault, does what `addFragment` does and leaves the list safe unless it completes the
datagram. -/
theorem SafeList.add (h : SafeList st.payload st.firstHole n f) (hlen : ipHdrSize ≤ fr.hdr.ipLen.toNat)
    (hmax : ¬ ipMaxudp < fr.stop)
    (hwhole : fr.moreFragments = true → 8 ∣ fr.hdr.ipLen.toNat - ipHdrSize ∧ fr.stop < ipMaxudp)
    (hone : ∀ j < n, findHole st.payload fr.start 65536 st.firstHole = some (some (idx (f j))) → j + 1 < n →
      (fr.packet hlen).stop ≤ (f (j + 1)).base) :
    ∃ r, checkedAdd st fr = .ok r ∧ addFragment st (fr.packet hlen) = some r ∧
      (r.2 = none → ∃ n f, SafeList r.1.payload r.1.firstHole n f) := by
  have hfuel : n ≤ 0 + 65536 := by
    have := h.linked.n_le
    omega
  obtain ⟨r, hfind, hcheck⟩ := h.find fr.start h.linked.pos hfuel
  rw [← h.linked.first_eq] at hfind hcheck
  have hlen' : fr.len = ((fr.packet hlen).data.length : Nat) := by
    have := (fr.packet hlen).ipLen_eq
    rw [Fragment.len]
    change fr.hdr.ipLen.toNat = _ at this
    omega
  have hpacket : (fr.packet hlen).start = fr.start := rfl
  rw [checkedAdd, hcheck, ok_bind, addFragment, hpacket, hfind]
  cases r with
  | none => exact ⟨_, rfl, rfl, fun _ => ⟨n, f, h⟩⟩
  | some hole =>
      rcases h.linked.findHole fr.start h.linked.pos hfuel with
        ⟨heq, -⟩ | ⟨k, -, hk, heq, hfound, hbefore⟩
      · rw [← h.linked.first_eq, hfind] at heq
        cases heq
      rw [← h.linked.first_eq, hfind, Option.some.injEq, Option.some.injEq] at heq
      subst heq
      have hblocks : (fr.offset8 : Int) + (fr.len + 7).tdiv 8 ≤ (idx (f k) : Nat) ↔
          fr.offset8 + ((fr.packet hlen).data.length + 7) / 8 ≤ idx (f k) := by
        rw [hlen', Int.tdiv_eq_ediv_of_nonneg (by omega)]
        omega
      have hoff : (fr.packet hlen).offset8 = fr.offset8 := rfl
      simp only [hblocks, hoff]
      split
      next => exact ⟨_, rfl, rfl, fun _ => ⟨n, f, h⟩⟩
      next hover =>
        obtain ⟨m', f', htrunc, hm', hidx, htouch⟩ := h.touches hlen hmax hwhole hk (fun i hi => hbefore i (by omega) hi)
          hfound (by omega) (hone k hk hfind)
        have hmore : (fr.packet hlen).moreFragments = fr.moreFragments := rfl
        obtain ⟨hfix, hcases⟩ := htouch.fix
        rw [hidx] at hfix hcases
        have htotal : (fr.stop % 65536).toNat = (fr.packet hlen).stop % 65536 := by
          rw [Fragment.stop, hlen', IpPacket.stop, hpacket]
          omega
        simp only [htrunc, ok_bind, hlen', hfix, hmore, ← hm', htotal, copyIn_ok hlen hmax]
        rcases hcases with hnone | ⟨first', m'', hsome, n', f'', hsafe, hclear⟩
        · rw [hnone]
          exact ⟨_, rfl, rfl, fun hr => by cases hr⟩
        · rw [hsome]
          exact ⟨_, rfl, rfl, fun _ => ⟨n', f'', hsafe.write hclear⟩⟩

theorem Fragment.packet_stop (fr : Fragment) (h : ipHdrSize ≤ fr.hdr.ipLen.toNat) :
    ((fr.packet h).stop : Int) = fr.stop := by
  have hlen := (fr.packet h).ipLen_eq
  change fr.hdr.ipLen.toNat = _ at hlen
  have hstart : (fr.packet h).start = fr.start := rfl
  rw [IpPacket.stop, Fragment.stop, Fragment.len, hstart]
  omega

theorem checkedReset_ok (st : DefragState) (h : ipHdrSize ≤ fr.hdr.ipLen.toNat) :
    st.checkedReset fr.hdr = .ok (st.reset (fr.packet h)) := by
  have h0 : ((0 : Nat) : Int) = 0 := rfl
  rw [DefragState.checkedReset, ← h0, putLastByte_ok inside_zero, ok_bind, putNextHole_ok inside_zero, ok_bind,
    putPrevHole_ok inside_zero, ok_bind]
  rfl

theorem safeList_reset (st : DefragState) (ip : IpPacket) :
    SafeList (st.reset ip).payload (st.reset ip).firstHole 1 fun _ => ⟨0, 0xffff⟩ :=
  ⟨linked_reset st.payload, fun _ _ => by decide, fun _ _ => inside_zero, fun i j _ _ => by omega⟩

/-- The hole list is safe, or it will be reset before it is read. -/
def Intact (st : DefragState) (done : Bool) : Prop :=
  done = false → st.totalLen = 0 ∨ ∃ n f, SafeList st.payload st.firstHole n f

/-- Whether the datagram in the buffer is complete after a fragment. -/
def doneAfter (done : Bool) (fr : Fragment) (out : Option Reassembled) : Bool :=
  if fr.TooFar then done else out.isSome

theorem ready_of_add {r : DefragState × Option Reassembled} (hmax : ¬ fr.TooFar)
    (h : r.2 = none → ∃ n f, SafeList r.1.payload r.1.firstHole n f) : Intact r.1 (doneAfter done fr r.2) := by
  intro hdone
  rw [doneAfter, if_neg hmax, Option.isSome_eq_false_iff, Option.isNone_iff_eq_none] at hdone
  exact Or.inr (h hdone)

/-- One fragment. Where it is no fault it does what `netDefragment` does. -/
theorem step_safe (h : Intact st done) (hfr : ¬ fr.TooFar → Harmless st done fr) :
    ∃ r, checkedDefragment st fr = .ok r ∧ Intact r.1 (doneAfter done fr r.2) ∧
      ∀ hlen, netDefragment st (fr.packet hlen) = some r := by
  have hcast : ∀ hlen, ipMaxudp < (fr.packet hlen).stop ↔ fr.TooFar := by
    intro hlen
    rw [tooFar_iff hlen, ← fr.packet_stop hlen]
    omega
  by_cases hmax : fr.TooFar
  · refine ⟨(st, none), by rw [checkedDefragment, if_pos hmax], ?_, fun hlen => ?_⟩
    · rw [doneAfter, if_pos hmax]
      exact h
    · rw [netDefragment, if_pos ((hcast hlen).mpr hmax)]
  · have hh := hfr hmax
    have hmax' : ¬ ipMaxudp < fr.stop := fun hlt => hmax ((tooFar_iff hh.header).mpr hlt)
    have hid : (fr.packet hh.header).hdr.ipId = fr.hdr.ipId := rfl
    by_cases hreset : st.totalLen = 0 ∨ st.localip.ipId ≠ fr.hdr.ipId
    · obtain ⟨r, hadd, hplain, hsafe⟩ := (safeList_reset st (fr.packet hh.header)).add hh.header hmax' hh.whole
        (fun j hj _ hj' => by omega)
      refine ⟨r, ?_, ready_of_add hmax hsafe, fun hlen => ?_⟩
      · rw [checkedDefragment, if_neg hmax, if_pos hreset, checkedReset_ok st hh.header, ok_bind, hadd]
      · rw [netDefragment, if_neg (fun hlt => hmax ((hcast hlen).mp hlt)), hid, if_pos hreset, hplain]
    · rw [not_or, not_not] at hreset
      have hdone : done = false := by
        cases hd : done with
        | false => rfl
        | true => exact absurd hreset.2 (hh.fresh hd)
      obtain ⟨n, f, hlist⟩ := (h hdone).resolve_left hreset.1
      obtain ⟨r, hadd, hplain, hsafe⟩ := hlist.add hh.header hmax' hh.whole fun j hj hfind hj' => by
        obtain ⟨-, hnext, -⟩ := hlist.linked.desc j hj
        have hnx : (readHole st.payload (idx (f j))).nextHole = idx (f (j + 1)) := hnext.trans (if_pos hj')
        have hlt := hlist.linked.sorted j (j + 1) (by omega) hj'
        have hle := hh.oneHole hreset.2 _ hfind (by rw [hnx]; omega)
        have hbase := hlist.base_eq hj'
        rw [hnx, ← fr.packet_stop hh.header] at hle
        omega
      have hkeep : ¬ (st.totalLen = 0 ∨ st.localip.ipId ≠ fr.hdr.ipId) := by
        rw [not_or, not_not]
        exact hreset
      refine ⟨r, ?_, ready_of_add hmax hsafe, fun hlen => ?_⟩
      · rw [checkedDefragment, if_neg hmax, if_neg hkeep, hadd]
      · rw [netDefragment, if_neg (fun hlt => hmax ((hcast hlen).mp hlt)), hid, if_neg hkeep, hplain]

end

/-! ## Runs -/

/-- `__NetDefragment` on fragment after fragment. -/
def DefragState.checkedRun (st : DefragState) : List Fragment → Except Fault DefragState
  | [] => .ok st
  | fr :: frs => do
      let r ← checkedDefragment st fr
      r.1.checkedRun frs

/-- Every fragment that is not too far out is harmless after those before it. -/
def HarmlessRun (st : DefragState) (done : Bool) : List Fragment → Prop
  | [] => True
  | fr :: frs => (¬ fr.TooFar → Harmless st done fr) ∧
      ∀ r, checkedDefragment st fr = .ok r → HarmlessRun r.1 (doneAfter done fr r.2) frs

theorem Intact.checkedRun {st : DefragState} {done : Bool} {frs : List Fragment} (h : Intact st done)
    (hrun : HarmlessRun st done frs) : ∃ st', st.checkedRun frs = .ok st' := by
  induction frs generalizing st done with
  | nil => exact ⟨st, rfl⟩
  | cons fr frs ih =>
      obtain ⟨r, hr, hready, -⟩ := step_safe h hrun.1
      obtain ⟨st', hst'⟩ := ih hready (hrun.2 r hr)
      exact ⟨st', by rw [DefragState.checkedRun, hr, ok_bind, hst']⟩

/-- From an empty buffer on, no run of harmless fragments is a fault. -/
theorem reassembly_safe (st : DefragState) (hst : st.totalLen = 0) (frs : List Fragment)
    (h : HarmlessRun st false frs) : ∃ st', st.checkedRun frs = .ok st' := by
  have hready : Intact st false := fun _ => Or.inl hst
  exact hready.checkedRun h

/-- What a fragment that is no fault leaves. -/
def DefragState.after (st : DefragState) (fr : Fragment) : DefragState × Option Reassembled :=
  match checkedDefragment st fr with
  | .ok r => r
  | .error _ => (st, none)

theorem HarmlessRun.cons {st : DefragState} {done : Bool} {fr : Fragment} {frs : List Fragment}
    (h : ¬ fr.TooFar → Harmless st done fr)
    (hrun : HarmlessRun (st.after fr).1 (doneAfter done fr (st.after fr).2) frs) : HarmlessRun st done (fr :: frs) := by
  refine ⟨h, fun r hr => ?_⟩
  have hafter : st.after fr = r := by rw [DefragState.after, hr]
  rwa [← hafter]

/-- The hole that is found decides. -/
theorem Harmless.of_found {st : DefragState} {fr : Fragment} {h : Nat} (header : ipHdrSize ≤ fr.hdr.ipLen.toNat)
    (whole : fr.moreFragments = true → 8 ∣ fr.hdr.ipLen.toNat - ipHdrSize ∧ fr.stop < ipMaxudp)
    (found : findHole st.payload fr.start 65536 st.firstHole = some (some h))
    (oneHole : (readHole st.payload h).nextHole ≠ 0 → fr.stop ≤ 8 * (readHole st.payload h).nextHole) :
    Harmless st false fr := by
  refine ⟨header, whole, by simp, fun _ h' hfound => ?_⟩
  rw [found, Option.some.injEq, Option.some.injEq] at hfound
  exact hfound ▸ oneHole

/-- Bytes 16 to 24 of a datagram of 29 bytes, then 0 to 16, 16 to 24 again, a fragment that is shorter than its header, and
24 to 29, which complete it. -/
def arrivals : List Fragment := [
  ⟨⟨0x45, 0, 28, 7, 0x2002, 64, 17, 0, 0, 0⟩, List.replicate 8 1, by decide⟩,
  ⟨⟨0x45, 0, 36, 7, 0x2000, 64, 17, 0, 0, 0⟩, List.replicate 16 2, by decide⟩,
  ⟨⟨0x45, 0, 28, 7, 0x2002, 64, 17, 0, 0, 0⟩, List.replicate 8 3, by decide⟩,
  ⟨⟨0x45, 0, 8, 7, 0x2001, 64, 17, 0, 0, 0⟩, [], by decide⟩,
  ⟨⟨0x45, 0, 25, 7, 0x0003, 64, 17, 0, 0, 0⟩, List.replicate 5 4, by decide⟩]

theorem reassembly_safe_example :
    ∃ st', DefragState.checkedRun ⟨⟨0, 0, 0, 0, 0, 0, 0, 0, 0, 0⟩, fun _ => 0, 0, 0⟩ arrivals = .ok st' := by
  refine reassembly_safe _ rfl _ ?_
  refine .cons (fun _ => ⟨by decide, by decide, by simp, fun hid => absurd hid (by decide)⟩) ?_
  refine .cons (fun _ => .of_found (h := 0) (by decide) (by decide) (by decide) (by decide)) ?_
  refine .cons (fun _ => .of_found (h := 3) (by decide) (by decide) (by decide) (by decide)) ?_
  refine .cons (fun hfar => absurd (by decide) hfar) ?_
  exact .cons (fun _ => .of_found (h := 3) (by decide) (by decide) (by decide) (by decide)) trivial

/-- The last eight bytes of the buffer with more fragments to follow: the next hole begins behind it. -/
theorem hole_behind_buffer :
    ¬ ∃ st', DefragState.checkedRun ⟨⟨0, 0, 0, 0, 0, 0, 0, 0, 0, 0⟩, fun _ => 0, 0, 0⟩
      [⟨⟨0x45, 0, 28, 7, 0x2809, 64, 17, 0, 0, 0⟩, List.replicate 8 1, by decide⟩] = .ok st' := by
  rintro ⟨st', h⟩
  have herror : (DefragState.checkedRun ⟨⟨0, 0, 0, 0, 0, 0, 0, 0, 0, 0⟩, fun _ => 0, 0, 0⟩
      [⟨⟨0x45, 0, 28, 7, 0x2809, 64, 17, 0, 0, 0⟩, List.replicate 8 1, by decide⟩]).toOption.isNone = true := by
    decide
  rw [h] at herror
  cases herror

end Uboot.Defrag
