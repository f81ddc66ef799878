import Uboot.Defrag.HoleList

/-!
# A fragment is put into its hole

Holes begin at multiples of 8, end before the next one begins, and only bytes that are not received yet are in
them. Here is what `fixHoles` and the copy of the fragment do to the hole that the fragment lies in.
-/

namespace Uboot.Defrag

open Uboot.Lib

/-- The bytes of the datagram that a packet has. -/
def IpPacket.range (ip : IpPacket) : Range := ⟨ip.start, ip.data.length⟩

/-! ## Holes with data between them -/

def grow (r : Range) : Range := ⟨r.base, r.size + 1⟩

/-- There is at least one byte between two holes. -/
def Gapped (n : Nat) (f : Nat → Range) : Prop := Ordered n fun i => grow (f i)

theorem gapped_iff {n : Nat} {f : Nat → Range} :
    Gapped n f ↔ ∀ i j, i < j → j < n → (f i).stop < (f j).base := by
  simp only [Gapped, Ordered, grow, Range.stop]
  constructor
  · intro h i j hij hj; have := h i j hij hj; omega
  · intro h i j hij hj; have := h i j hij hj; omega

structure Holes (n : Nat) (f : Nat → Range) : Prop where
  aligned : ∀ k < n, 8 ∣ (f k).base
  base_le : ∀ k < n, (f k).base ≤ ipMaxudp
  size_pos : ∀ k < n, 0 < (f k).size
  gapped : Gapped n f

section
variable {n k : Nat} {f : Nat → Range} {x y : Range}

theorem Holes.lt (h : Holes n f) {i j : Nat} (hij : i < j) (hj : j < n) : (f i).stop < (f j).base :=
  gapped_iff.mp h.gapped i j hij hj

theorem Holes.ordered (h : Holes n f) : Ordered n f := fun _ _ hij hj => (h.lt hij hj).le

theorem Holes.base_eq (h : Holes n f) (hk : k < n) : (f k).base = 8 * idx (f k) := by
  have := h.aligned k hk
  rw [idx]; omega

/-- A byte of the list's holes that follows a byte of hole `k` without a gap is in hole `k` too. -/
theorem Holes.le_stop (h : Holes n f) (hk : k < n) {a b : Nat} (ha : a ∈ (f k).addrs)
    (hab : ∀ c, a ≤ c → c < b → c ∈ cover n f) : b ≤ (f k).stop := by
  by_contra hlt
  rw [Range.mem_addrs] at ha
  obtain ⟨j, hj, hc⟩ := hab (f k).stop (by simp only [Range.stop]; omega) (by omega)
  rw [Range.mem_addrs] at hc
  rcases Nat.lt_trichotomy j k with hjk | rfl | hjk
  · have := h.lt hjk hk; simp only [Range.stop] at *; omega
  · simp only [Range.stop] at *; omega
  · have := h.lt hjk hj; simp only [Range.stop] at *; omega

theorem Holes.update (h : Holes n f) (hk : k < n) (hx8 : 8 ∣ x.base) (hxm : x.base ≤ ipMaxudp)
    (hx : 0 < x.size) (hb : (f k).base ≤ x.base) (hs : x.stop ≤ (f k).stop) :
    Holes n (Function.update f k x) := by
  have hcases : ∀ j, Function.update f k x j = if j = k then x else f j := by
    intro j; simp [Function.update_apply]
  refine ⟨?_, ?_, ?_, gapped_iff.mpr ?_⟩
  · intro j hj
    rw [hcases]
    split
    next => exact hx8
    next => exact h.aligned j hj
  · intro j hj
    rw [hcases]
    split
    next => exact hxm
    next => exact h.base_le j hj
  · intro j hj
    rw [hcases]
    split
    next => exact hx
    next => exact h.size_pos j hj
  · refine gapped_iff.mp ?_
    have hup : (fun i => grow (Function.update f k x i)) =
        Function.update (fun i => grow (f i)) k (grow x) := by
      funext j
      by_cases hjk : j = k
      · subst hjk; simp
      · simp [hjk]
    rw [Gapped, hup]
    refine h.gapped.update ?_ ?_
    · intro j hj
      exact (h.gapped j k hj hk).trans hb
    · intro j hkj hj
      have := h.lt hkj hj
      simp only [grow, Range.stop] at *
      omega

theorem Holes.removeAt (h : Holes n f) (hk : k < n) : Holes (n - 1) (removeAt f k) := by
  have hget : ∀ j < n - 1, ∃ i < n, Lib.removeAt f k j = f i := by
    intro j hj
    by_cases hjk : j < k
    · exact ⟨j, by omega, by simp [Lib.removeAt, hjk]⟩
    · exact ⟨j + 1, by omega, by simp [Lib.removeAt, hjk]⟩
  refine ⟨?_, ?_, ?_, ?_⟩
  · intro j hj; obtain ⟨i, hi, he⟩ := hget j hj; rw [he]; exact h.aligned i hi
  · intro j hj; obtain ⟨i, hi, he⟩ := hget j hj; rw [he]; exact h.base_le i hi
  · intro j hj; obtain ⟨i, hi, he⟩ := hget j hj; rw [he]; exact h.size_pos i hi
  · have hrem : (fun i => grow (Lib.removeAt f k i)) = Lib.removeAt (fun i => grow (f i)) k := by
      funext j; simp only [Lib.removeAt]; split <;> rfl
    rw [Gapped, hrem]
    exact h.gapped.removeAt hk

theorem Holes.insertAt (h : Holes n f) (hk : k < n) (hy8 : 8 ∣ y.base) (hym : y.base ≤ ipMaxudp)
    (hy : 0 < y.size) (hb : (f k).stop < y.base) (hs : ∀ j, k < j → j < n → y.stop < (f j).base) :
    Holes (n + 1) (insertAt f (k + 1) y) := by
  have hget : ∀ j < n + 1, Lib.insertAt f (k + 1) y j = y ∨ ∃ i < n, Lib.insertAt f (k + 1) y j = f i := by
    intro j hj
    rcases Nat.lt_trichotomy j (k + 1) with hjk | rfl | hjk
    · exact Or.inr ⟨j, by omega, by simp [Lib.insertAt, hjk]⟩
    · exact Or.inl (by simp [Lib.insertAt])
    · exact Or.inr ⟨j - 1, by omega, by simp [Lib.insertAt, show ¬ j < k + 1 by omega, show j ≠ k + 1 by omega]⟩
  refine ⟨?_, ?_, ?_, ?_⟩
  · intro j hj
    rcases hget j hj with he | ⟨i, hi, he⟩
    · rw [he]; exact hy8
    · rw [he]; exact h.aligned i hi
  · intro j hj
    rcases hget j hj with he | ⟨i, hi, he⟩
    · rw [he]; exact hym
    · rw [he]; exact h.base_le i hi
  · intro j hj
    rcases hget j hj with he | ⟨i, hi, he⟩
    · rw [he]; exact hy
    · rw [he]; exact h.size_pos i hi
  · have hins : (fun i => grow (Lib.insertAt f (k + 1) y i)) =
        Lib.insertAt (fun i => grow (f i)) (k + 1) (grow y) := by
      funext j; simp only [Lib.insertAt]; split_ifs <;> rfl
    rw [Gapped, hins]
    refine h.gapped.insertAt (by omega) ?_ ?_
    · intro j hj
      rcases Nat.eq_or_lt_of_le (show j ≤ k by omega) with rfl | hjk
      · simp only [grow, Range.stop] at *; omega
      · have := h.lt hjk hk
        simp only [grow, Range.stop] at *; omega
    · intro j hkj hj
      have := hs j (by omega) hj
      simp only [grow, Range.stop] at *; omega

end

/-! ## A fragment in its hole -/

/-- A fragment with the bytes up to `ip.stop` of a datagram of `N` bytes lies in hole `k`. -/
structure InHole (N : Nat) (ip : IpPacket) (n : Nat) (f : Nat → Range) (k : Nat) : Prop where
  lt : k < n
  base_le : (f k).base ≤ ip.start
  stop_le : ip.stop ≤ (f k).stop
  pos : 0 < ip.data.length
  stop_le_N : ip.stop ≤ N
  N_le : N ≤ ipMaxudp
  aligned : 8 ∣ ip.stop ∨ ip.stop = N ∧ (f k).stop = ip.stop
  ends : ∀ j < n, 8 ∣ (f j).stop ∨ (f j).stop = 0xffff ∨ (j = k ∧ (f j).stop = ip.stop)

section
variable {N n k first : Nat} {ip : IpPacket} {f : Nat → Range} {m : Mem}

theorem ipMaxudp_eq : ipMaxudp = 16464 := rfl

theorem ip_start_eq (ip : IpPacket) : ip.start = 8 * ip.offset8 := Nat.mul_comm _ _

/-- The descriptor of a hole has no byte of the datagram that is received. -/
theorem InHole.block_mem_cover (hi : InHole N ip n f k) (hh : Holes n f) {j a : Nat} (hj : j < n)
    (ha : a < N) (hb : a / 8 = idx (f j)) : a ∈ cover n f := by
  have hbase := hh.base_eq hj
  have hle := hh.base_le j hj
  have hpos := hh.size_pos j hj
  have h8 := hh.aligned j hj
  refine ⟨j, hj, Range.mem_addrs.mpr ⟨by omega, ?_⟩⟩
  have hNle := hi.N_le
  rw [ipMaxudp_eq] at *
  rcases hi.ends j hj with he | he | ⟨rfl, he⟩
  · simp only [Range.stop] at he; omega
  · simp only [Range.stop] at he; omega
  · rcases hi.aligned with h8' | ⟨h8', -⟩
    · rw [← he] at h8'
      simp only [Range.stop] at h8'; omega
    · simp only [Range.stop] at he h8'; omega

theorem Linked.write_fragment {f' : Nat → Range} {n' first' : Nat} {m' : Mem} {c : Set Nat}
    (hl : Linked m' first' n' f') (hh : Holes n' f') (hc : cover n' f' = c \ ip.range.addrs) :
    Linked (m'.write ip.start ip.data) first' n' f' := by
  refine hl.write fun j hj => ?_
  have hbase := hh.base_eq hj
  have hmem : (f' j).base ∈ cover n' f' := ⟨j, hj, Range.mem_addrs.mpr ⟨le_refl _, by have := hh.size_pos j hj; omega⟩⟩
  rw [hc] at hmem
  have hout : ¬ (ip.start ≤ (f' j).base ∧ (f' j).base < ip.start + ip.data.length) := hmem.2
  have hs := ip_start_eq ip
  omega

/-- What is left of the holes after a fragment in hole `k` is `m'` and `f'`. -/
structure Filled (N : Nat) (ip : IpPacket) (m : Mem) (n : Nat) (f : Nat → Range) (m' : Mem) (first' n' : Nat)
    (f' : Nat → Range) : Prop where
  linked : Linked m' first' n' f'
  holes : Holes n' f'
  ends : ∀ j < n', 8 ∣ (f' j).stop ∨ (f' j).stop = 0xffff
  cover_eq : cover n' f' = cover n f \ ip.range.addrs
  frame : ∀ a < N, a ∉ cover n f → m' a = m a

theorem InHole.frame (hi : InHole N ip n f k) (hh : Holes n f) {m' : Mem} {s : Set Nat}
    (hf : FrameOut (blocks n f ∪ s) m m') (hs : ∀ a, a / 8 ∈ s → a ∈ cover n f) {a : Nat} (ha : a < N)
    (hc : a ∉ cover n f) : m' a = m a := by
  refine hf a ?_
  rintro (⟨j, hj, he⟩ | has)
  · exact hc (hi.block_mem_cover hh hj ha he)
  · exact hc (hs a has)

theorem InHole.other_end (hi : InHole N ip n f k) {j : Nat} (hj : j < n) (hjk : j ≠ k) :
    8 ∣ (f j).stop ∨ (f j).stop = 0xffff := by
  rcases hi.ends j hj with h8 | h8 | ⟨h8, -⟩
  · exact Or.inl h8
  · exact Or.inr h8
  · exact absurd h8 hjk

/-- The fragment is the whole hole. -/
theorem InHole.fill_remove (hi : InHole N ip n f k) (hl : Linked m first n f) (hh : Holes n f) (hn : 1 < n)
    (hb : (f k).base = ip.start) (he : (f k).stop = ip.stop) (h0 : k = 0 ∨ idx (f (k - 1)) ≠ 0) :
    ∃ first' m', removeHole m first (idx (f k)) = some (first', m') ∧
      Filled N ip m n f m' first' (n - 1) (removeAt f k) := by
  obtain ⟨first', m', hr, hl', hf⟩ := hl.removeHole hn hi.lt h0
  refine ⟨first', m', hr, hl', hh.removeAt hi.lt, ?_, ?_, ?_⟩
  · intro j hj
    have hget : ∃ i < n, i ≠ k ∧ removeAt f k j = f i := by
      by_cases hjk : j < k
      · exact ⟨j, by omega, by omega, by simp [removeAt, hjk]⟩
      · exact ⟨j + 1, by omega, by omega, by simp [removeAt, hjk]⟩
    obtain ⟨i, hin, hik, hge⟩ := hget
    rw [hge]
    exact hi.other_end hin hik
  · rw [cover_removeAt_diff hh.ordered hi.lt]
    congr 1
    ext a
    simp only [Range.mem_addrs, IpPacket.range, Range.stop, IpPacket.stop] at *
    omega
  · intro a ha hc
    exact hi.frame hh (s := ∅) (by simpa using hf) (by simp) ha hc

/-- The fragment is the end of the hole. -/
theorem InHole.fill_end (hi : InHole N ip n f k) (hl : Linked m first n f) (hh : Holes n f)
    (hb : (f k).base < ip.start) (he : (f k).stop = ip.stop) :
    Filled N ip m n f (setLastByte m (idx (f k)) ip.start) first n
      (Function.update f k ⟨(f k).base, ip.start - (f k).base⟩) := by
  have hstop := hl.stop_lt k hi.lt
  have hpos := hi.pos
  have hx : Range.stop ⟨(f k).base, ip.start - (f k).base⟩ = ip.start := by simp only [Range.stop]; omega
  have hl' := hl.setLastByte hi.lt (x := ⟨(f k).base, ip.start - (f k).base⟩) rfl (by
    rw [hx]; simp only [IpPacket.stop] at he; omega)
  rw [hx] at hl'
  refine ⟨hl', hh.update hi.lt (hh.aligned k hi.lt) (hh.base_le k hi.lt) (by simp only; omega) (le_refl _) ?_, ?_, ?_, ?_⟩
  · rw [hx]; simp only [IpPacket.stop] at he; omega
  · intro j hj
    by_cases hjk : j = k
    · subst hjk
      rw [Function.update_self, hx, ip_start_eq]
      exact Or.inl (Nat.dvd_mul_right 8 _)
    · rw [Function.update_of_ne hjk]; exact hi.other_end hj hjk
  · refine cover_update_diff hh.ordered hi.lt ?_ ?_
    · intro a
      simp only [Range.mem_addrs, IpPacket.range, Range.stop, IpPacket.stop] at *
      omega
    · ext a
      simp only [Set.mem_sdiff, Range.mem_addrs, IpPacket.range, Range.stop, IpPacket.stop] at *
      omega
  · intro a ha hc
    exact hi.frame hh (s := ∅) ((frameOut_writeHole (mem_blocks hi.lt)).mono Set.subset_union_left)
      (by simp) ha hc

/-- The hole that is left after the fragment begins in block `offset8 + len / 8`. -/
theorem InHole.idx_rest (hi : InHole N ip n f k) (he : ip.stop < (f k).stop) :
    8 ∣ ip.stop ∧ idx ⟨ip.stop, (f k).stop - ip.stop⟩ = ip.offset8 + ip.data.length / 8 := by
  have h8 : 8 ∣ ip.stop := by
    rcases hi.aligned with h8 | ⟨-, h8⟩
    · exact h8
    · omega
  refine ⟨h8, ?_⟩
  simp only [idx, IpPacket.stop, ip_start_eq] at *
  omega

theorem InHole.rest_lt_next (hi : InHole N ip n f k) (hh : Holes n f) (he : ip.stop < (f k).stop)
    (hk : k + 1 < n) : idx ⟨ip.stop, (f k).stop - ip.stop⟩ < idx (f (k + 1)) := by
  have hlt := hh.lt (show k < k + 1 by omega) hk
  have hbase := hh.base_eq hk
  have h8 := (hi.idx_rest he).1
  simp only [idx] at *
  omega

theorem InHole.rest_mem_cover (hi : InHole N ip n f k) (he : ip.stop < (f k).stop) {a : Nat}
    (ha : a / 8 = idx ⟨ip.stop, (f k).stop - ip.stop⟩) : a ∈ cover n f := by
  have h8 := (hi.idx_rest he).1
  have hb := hi.base_le
  have hpos := hi.pos
  have hN := hi.stop_le_N
  have hNle := hi.N_le
  rw [ipMaxudp_eq] at hNle
  refine ⟨k, hi.lt, Range.mem_addrs.mpr ⟨?_, ?_⟩⟩
  · simp only [idx, IpPacket.stop] at *; omega
  · rcases hi.ends k hi.lt with hk8 | hk8 | ⟨-, hk8⟩
    · simp only [idx, Range.stop] at *; omega
    · simp only [idx, Range.stop] at *; omega
    · omega

theorem InHole.rest_end (hi : InHole N ip n f k) (he : ip.stop < (f k).stop) :
    8 ∣ (f k).stop ∨ (f k).stop = 0xffff := by
  rcases hi.ends k hi.lt with hk8 | hk8 | ⟨-, hk8⟩
  · exact Or.inl hk8
  · exact Or.inr hk8
  · omega

/-- The fragment is the beginning of the hole. -/
theorem InHole.fill_front (hi : InHole N ip n f k) (hl : Linked m first n f) (hh : Holes n f)
    (hb : (f k).base = ip.start) (he : ip.stop < (f k).stop) (h0 : k = 0 ∨ idx (f (k - 1)) ≠ 0) :
    ∃ first' m', moveHole m first (idx (f k)) (ip.offset8 + ip.data.length / 8) = (first', m') ∧
      Filled N ip m n f m' first' n (Function.update f k ⟨ip.stop, (f k).stop - ip.stop⟩) := by
  obtain ⟨h8, hidx⟩ := hi.idx_rest he
  have hpos := hi.pos
  have hN := hi.stop_le_N
  have hNle := hi.N_le
  have hbase := hh.base_eq hi.lt
  have hx : Range.stop ⟨ip.stop, (f k).stop - ip.stop⟩ = (f k).stop := Nat.add_sub_of_le he.le
  have hlt : idx (f k) < idx ⟨ip.stop, (f k).stop - ip.stop⟩ := by
    simp only [idx, IpPacket.stop] at *; omega
  have hsmall : idx ⟨ip.stop, (f k).stop - ip.stop⟩ < 65536 := by
    rw [ipMaxudp_eq] at hNle; simp only [idx]; omega
  obtain ⟨first', m', hm, hl', hf⟩ := hl.moveHole hi.lt hlt (hi.rest_lt_next hh he) hsmall hx h0
  rw [hidx] at hm
  refine ⟨first', m', hm, hl', hh.update hi.lt h8 (hN.trans hNle) (Nat.sub_pos_of_lt he) ?_ hx.le, ?_, ?_, ?_⟩
  · simp only [IpPacket.stop]; omega
  · intro j hj
    by_cases hjk : j = k
    · subst hjk; rw [Function.update_self, hx]; exact hi.rest_end he
    · rw [Function.update_of_ne hjk]; exact hi.other_end hj hjk
  · refine cover_update_diff hh.ordered hi.lt ?_ ?_
    · intro a
      simp only [Range.mem_addrs, IpPacket.range, Range.stop, IpPacket.stop] at *
      omega
    · ext a
      simp only [Set.mem_sdiff, Range.mem_addrs, IpPacket.range, Range.stop, IpPacket.stop] at *
      omega
  · intro a ha hc
    exact hi.frame hh hf (fun a has => hi.rest_mem_cover he has) ha hc

/-- The fragment sits in the middle of the hole. -/
theorem InHole.fill_middle (hi : InHole N ip n f k) (hl : Linked m first n f) (hh : Holes n f)
    (hb : (f k).base < ip.start) (he : ip.stop < (f k).stop) :
    Filled N ip m n f (splitHole m (idx (f k)) (ip.offset8 + ip.data.length / 8) ip.start) first (n + 1)
      (insertAt (Function.update f k ⟨(f k).base, ip.start - (f k).base⟩) (k + 1)
        ⟨ip.stop, (f k).stop - ip.stop⟩) := by
  obtain ⟨h8, hidx⟩ := hi.idx_rest he
  have hpos := hi.pos
  have hN := hi.stop_le_N
  have hNle := hi.N_le
  have hbase := hh.base_eq hi.lt
  have hstop := hl.stop_lt k hi.lt
  have hk := hi.lt
  have hx : Range.stop ⟨(f k).base, ip.start - (f k).base⟩ = ip.start := by simp only [Range.stop]; omega
  have hy : Range.stop ⟨ip.stop, (f k).stop - ip.stop⟩ = (f k).stop := Nat.add_sub_of_le he.le
  have hsmall : idx ⟨ip.stop, (f k).stop - ip.stop⟩ < 65536 := by
    rw [ipMaxudp_eq] at hNle; simp only [idx]; omega
  have hlt : idx (f k) < idx ⟨ip.stop, (f k).stop - ip.stop⟩ := by
    simp only [idx, IpPacket.stop] at *; omega
  obtain ⟨hl', hf⟩ := hl.splitHole hi.lt (x := ⟨(f k).base, ip.start - (f k).base⟩) rfl
    (by rw [hx]; simp only [IpPacket.stop] at he; omega) hlt (hi.rest_lt_next hh he) hsmall hy
  rw [hx, hidx] at hl' hf
  have hup : Holes n (Function.update f k ⟨(f k).base, ip.start - (f k).base⟩) :=
    hh.update hi.lt (hh.aligned k hi.lt) (hh.base_le k hi.lt) (by simp only; omega) (le_refl _)
      (by rw [hx]; simp only [IpPacket.stop] at he; omega)
  refine ⟨hl', hup.insertAt hi.lt h8 (hN.trans hNle) (Nat.sub_pos_of_lt he) ?_ ?_, ?_, ?_, ?_⟩
  · rw [Function.update_self, hx]; simp only [IpPacket.stop]; omega
  · intro j hkj hj
    rw [Function.update_of_ne (by omega), hy]
    exact hh.lt hkj hj
  · intro j hj
    rcases Nat.lt_trichotomy j (k + 1) with hjk | rfl | hjk
    · rw [insertAt, if_pos hjk]
      by_cases hjk' : j = k
      · subst hjk'
        rw [Function.update_self, hx, ip_start_eq]
        exact Or.inl (Nat.dvd_mul_right 8 _)
      · rw [Function.update_of_ne hjk']; exact hi.other_end (by omega) hjk'
    · rw [insertAt, if_neg (by omega), if_pos rfl, hy]
      exact hi.rest_end he
    · rw [insertAt, if_neg (by omega), if_neg (by omega), Function.update_of_ne (by omega)]
      exact hi.other_end (by omega) (by omega)
  · have hr : ip.range = ⟨ip.start, ip.stop - ip.start⟩ := by simp [IpPacket.range, IpPacket.stop]
    rw [hr]
    exact cover_split hh.ordered hi.lt hb.le (by simp [IpPacket.stop]) hi.stop_le
  · intro a ha hc
    exact hi.frame hh hf (fun a has => hi.rest_mem_cover he (by rw [hidx]; exact has)) ha hc

/-- The hole list after a fragment in hole `k`. -/
theorem InHole.fixHoles (hi : InHole N ip n f k) (hl : Linked m first n f) (hh : Holes n f)
    (h0 : (f k).base = ip.start → k = 0 ∨ idx (f (k - 1)) ≠ 0) :
    (n = 1 ∧ (f k).base = ip.start ∧ (f k).stop = ip.stop ∧
      fixHoles m first (idx (f k)) ip.offset8 ip.data.length = none) ∨
    ∃ first' m' n' f', fixHoles m first (idx (f k)) ip.offset8 ip.data.length = some (first', m') ∧
      Filled N ip m n f m' first' n' f' := by
  have hbase := hh.base_eq hi.lt
  have hble := hi.base_le
  have hstart := ip_start_eq ip
  have hfront : ip.offset8 ≤ idx (f k) ↔ (f k).base = ip.start := by omega
  have hsle := hi.stop_le
  have hend : (f k).stop ≤ ip.start + ip.data.length ↔ (f k).stop = ip.stop := by
    simp only [IpPacket.stop] at *; omega
  have hs : ip.offset8 * 8 = ip.start := rfl
  simp only [Defrag.fixHoles, (hl.desc k hi.lt).1, hfront, hend, hs]
  by_cases hb : (f k).base = ip.start
  · by_cases he : (f k).stop = ip.stop
    · rw [if_pos ⟨hb, he⟩]
      by_cases hn : n = 1
      · obtain rfl : k = 0 := by have := hi.lt; omega
        exact Or.inl ⟨hn, hb, he, hl.removeHole_last hn⟩
      · obtain ⟨first', m', hr, hf⟩ := hi.fill_remove hl hh (by have := hl.pos; omega) hb he (h0 hb)
        exact Or.inr ⟨first', m', _, _, hr, hf⟩
    · rw [if_neg (fun hc => he hc.2), if_neg he, if_pos hb]
      obtain ⟨first', m', hr, hf⟩ := hi.fill_front hl hh hb (by omega) (h0 hb)
      exact Or.inr ⟨first', m', _, _, by rw [hr], hf⟩
  · by_cases he : (f k).stop = ip.stop
    · rw [if_neg (fun hc => hb hc.1), if_pos he]
      exact Or.inr ⟨_, _, _, _, rfl, hi.fill_end hl hh (by omega) he⟩
    · rw [if_neg (fun hc => hb hc.1), if_neg he, if_neg hb]
      exact Or.inr ⟨_, _, _, _, rfl, hi.fill_middle hl hh (by omega) (by omega)⟩

end

end Uboot.Defrag
