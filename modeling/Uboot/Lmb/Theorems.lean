import Mathlib.Tactic
import Uboot.Lmb.Lemmas

/-!
# Runs of `lmb_reserve` and `lmb_free`

After `lmb_init` the reserved table is sorted, or still holds the empty dummy region. A call changes the
reserved addresses by exactly its range, unless the table was emptied and its stale entries get in the way,
or the range to free wraps.
-/

namespace Uboot.Lmb

open Uboot.Lib

/-! ## Finding the region to free -/

theorem findRegion_some {rgn : LmbRegion} {base stop n i k : Nat} (h : findRegion rgn base stop n i = some k) :
    k < i + n ∧ (rgn.region k).base ≤ base ∧ stop ≤ add32 (rgn.region k).base (rgn.region k).size := by
  induction n generalizing i with
  | zero => cases h
  | succ n ih =>
      rw [findRegion] at h
      split at h
      next hin => cases h; exact ⟨by omega, hin⟩
      next =>
        obtain ⟨hk, hin⟩ := ih h
        exact ⟨by omega, hin⟩

theorem findRegion_none {rgn : LmbRegion} {base stop n i : Nat}
    (h : ∀ j < i + n, ¬ ((rgn.region j).base ≤ base ∧
      stop ≤ add32 (rgn.region j).base (rgn.region j).size)) : findRegion rgn base stop n i = none := by
  induction n generalizing i with
  | zero => rfl
  | succ n ih =>
      rw [findRegion, if_neg (h i (by omega))]
      exact ih fun j hj => h j (by omega)

/-! ## One call -/

/-- The reserved table between calls. -/
def LmbState.Wf (lmb : LmbState) : Prop :=
  lmb.reserved.Sorted ∨ (lmb.reserved.cnt = 1 ∧ lmb.reserved.region 0 = ⟨0, 0⟩)

/-- What a caller of `lmb_reserve` promises. -/
def LmbState.Allowed (lmb : LmbState) : Call → Prop
  | .reserve x => 0 < x.size ∧ x.stop < wordSize ∧ Disjoint x.addrs lmb.reservedSet
  | .free _ => True

/-- The stale entries of an emptied table do not get in the way of a new region; a range to free does not
wrap, unless no region seems to contain it. -/
def LmbState.Sound (lmb : LmbState) : Call → Prop
  | .reserve x => lmb.reserved.cnt = 0 → lmbRegionsAdjacent lmb.reserved 0 1 = 0 ∧
      (x.base < (lmb.reserved.region 0).base ∨ lmb.reserved.region 0 = x)
  | .free x => x.stop < wordSize ∨ ∀ j < lmb.reserved.cnt,
      ¬ ((lmb.reserved.region j).base ≤ x.base ∧
        add32 x.base x.size ≤ add32 (lmb.reserved.region j).base (lmb.reserved.region j).size)

/-- The addresses that are to be reserved after a call. -/
def Call.apply (s : Set Nat) : Call → Set Nat
  | .reserve x => s ∪ x.addrs
  | .free x => s \ x.addrs

section
variable {lmb : LmbState} {x : Range}

theorem reservedSet_of_cnt_zero (hc : lmb.reserved.cnt = 0) : lmb.reservedSet = ∅ := by
  ext a
  simp [LmbState.reservedSet, cover, hc]

theorem reservedSet_of_dummy (hc : lmb.reserved.cnt = 1) (h0 : lmb.reserved.region 0 = ⟨0, 0⟩) :
    lmb.reservedSet = ∅ := by
  ext a
  simp [LmbState.reservedSet, cover, hc, h0, Range.mem_addrs]

/-- `lmb_add_region` on an emptied table. -/
theorem lmbAddRegion_empty {rgn : LmbRegion} (hc : rgn.cnt = 0) (hadj : lmbRegionsAdjacent rgn 0 1 = 0)
    (hx : x.base < (rgn.region 0).base ∨ rgn.region 0 = x) (hpos : 0 < x.size) (hstop : x.stop < wordSize) :
    (lmbAddRegion rgn x.base x.size).2.Sorted ∧ (lmbAddRegion rgn x.base x.size).2.addrs = x.addrs := by
  have hl : coalesceLoop rgn x.base x.size rgn.cnt 0 = .stop 0 0 rgn := by rw [hc]; rfl
  have hj : joinNext rgn 0 0 = (0, rgn) := by rw [joinNext, if_neg]; exact fun h => h.2 hadj
  rw [lmbAddRegion_of_stop (by omega) hl hj, if_neg (by simp), if_neg (by simp [hc, maxLmbRegions])]
  refine sorted_single (by simp [insertRegion, hc, add32]) ?_ hpos hstop
  simp only [insertRegion, hc, insertLoop]
  rcases hx with hx | rfl
  · simp [hx]
  · simp

theorem reserve_step (hw : lmb.Wf) (hp : lmb.Allowed (.reserve x)) (hs : lmb.Sound (.reserve x)) :
    (lmbReserve lmb x.base x.size).2.Wf ∧ ((lmbReserve lmb x.base x.size).1 ≠ -1 →
      (lmbReserve lmb x.base x.size).2.reservedSet = lmb.reservedSet ∪ x.addrs) := by
  obtain ⟨hpos, hstop, hd⟩ := hp
  rcases hw with hw | ⟨hc, h0⟩
  · rcases Nat.eq_zero_or_pos lmb.reserved.cnt with hc | hc
    · obtain ⟨hadj, hx⟩ := hs hc
      obtain ⟨hs', ha⟩ := lmbAddRegion_empty hc hadj hx hpos hstop
      refine ⟨Or.inl hs', fun _ => ?_⟩
      rw [reservedSet_of_cnt_zero hc, Set.empty_union]
      exact ha
    · obtain ⟨hs', ha⟩ := hw.add hc hpos hstop hd
      exact ⟨Or.inl hs', ha⟩
  · have hr : lmbAddRegion lmb.reserved x.base x.size = (0, lmb.reserved.set 0 x) := by
      rw [lmbAddRegion, if_pos ⟨hc, by rw [h0]⟩]
    obtain ⟨hs', ha⟩ := sorted_single (show (lmb.reserved.set 0 x).cnt = 1 from hc)
      (show (lmb.reserved.set 0 x).region 0 = x by simp [LmbRegion.set]) hpos hstop
    simp only [lmbReserve, hr]
    refine ⟨Or.inl hs', fun _ => ?_⟩
    rw [reservedSet_of_dummy hc h0, Set.empty_union]
    exact ha

/-- Region `i` keeps the end `y` that the freed range `x` leaves. -/
theorem free_trim {rgn : LmbRegion} {i : Nat} {y : Range} (h : rgn.Sorted) (hi : i < rgn.cnt)
    (hin : x.addrs ⊆ (rgn.region i).addrs) (hpos : 0 < y.size) (hb : (rgn.region i).base ≤ y.base)
    (hs : y.stop ≤ (rgn.region i).stop)
    (hxy : x.base = (rgn.region i).base ∧ x.stop = y.base ∧ y.stop = (rgn.region i).stop ∨
      y.base = (rgn.region i).base ∧ y.stop = x.base ∧ x.stop = (rgn.region i).stop) :
    (rgn.set i y).Sorted ∧ (rgn.set i y).addrs = rgn.addrs \ x.addrs := by
  refine ⟨h.shrink hi hpos hb hs, cover_update_diff h.ordered hi hin ?_⟩
  ext a
  simp only [Set.mem_sdiff, Range.mem_addrs, Range.stop] at *
  omega

/-- The two ends of region `i` around the freed range `x`, when both are nonempty. -/
theorem free_split {rgn : LmbRegion} {i : Nat} (h : rgn.Sorted) (hi : i < rgn.cnt)
    (hb : (rgn.region i).base < x.base) (hs : x.stop < (rgn.region i).stop) :
    let rgn' := rgn.set i ⟨(rgn.region i).base, x.base - (rgn.region i).base⟩
    let r := lmbAddRegion rgn' x.stop ((rgn.region i).stop - x.stop)
    r.2.Sorted ∧ (r.1 ≠ -1 → r.2.addrs = rgn.addrs \ x.addrs) := by
  intro rgn'
  have hstop := h.stop_lt i hi
  have hsorted : rgn'.Sorted := h.shrink hi (by simp only; omega) (by simp) (by simp only [Range.stop] at *; omega)
  have haddrs : rgn'.addrs = rgn.addrs \ Range.addrs ⟨x.base, (rgn.region i).stop - x.base⟩ := by
    refine cover_update_diff h.ordered hi ?_ ?_
    · intro a
      simp only [Range.mem_addrs, Range.stop] at *; omega
    · ext a
      simp only [Set.mem_sdiff, Range.mem_addrs, Range.stop] at *; omega
  have hd : Disjoint (Range.addrs ⟨x.stop, (rgn.region i).stop - x.stop⟩) rgn'.addrs := by
    rw [haddrs, Set.disjoint_left]
    rintro a ha ⟨-, ha'⟩
    simp only [Range.mem_addrs, Range.stop] at *; omega
  obtain ⟨hs', ha'⟩ := hsorted.add (x := ⟨x.stop, (rgn.region i).stop - x.stop⟩)
    (show 0 < rgn.cnt by omega) (by simp only; omega) (by simp only [Range.stop] at *; omega) hd
  refine ⟨hs', fun hne => ?_⟩
  rw [ha' hne, haddrs]
  ext a
  have hsub : a ∈ (rgn.region i).addrs → a ∈ rgn.addrs := fun ha => ⟨i, hi, ha⟩
  simp only [Set.mem_union, Set.mem_sdiff, Range.mem_addrs, Range.stop] at *
  constructor
  · rintro (⟨ha, hz⟩ | hy)
    · exact ⟨ha, by omega⟩
    · exact ⟨hsub (by omega), by omega⟩
  · rintro ⟨ha, hx⟩
    by_cases hz : x.base ≤ a ∧ a < (rgn.region i).base + (rgn.region i).size
    · exact Or.inr (by omega)
    · exact Or.inl ⟨ha, by omega⟩

theorem free_sorted (h : lmb.reserved.Sorted) (hstop : x.stop < wordSize) :
    (lmbFree lmb x.base x.size).2.Wf ∧ ((lmbFree lmb x.base x.size).1 ≠ -1 →
      (lmbFree lmb x.base x.size).2.reservedSet = lmb.reservedSet \ x.addrs) := by
  have hend : add32 x.base x.size = x.stop := add32_eq hstop
  rcases hf : findRegion lmb.reserved x.base x.stop lmb.reserved.cnt 0 with _ | i
  · simp only [lmbFree, hend, hf]
    exact ⟨Or.inl h, fun hne => absurd rfl hne⟩
  · obtain ⟨hi, hb, hs⟩ := findRegion_some hf
    rw [Nat.zero_add] at hi
    have hi' := h.stop_lt i hi
    have hrend : add32 (lmb.reserved.region i).base (lmb.reserved.region i).size =
        (lmb.reserved.region i).stop := add32_eq hi'
    rw [hrend] at hs
    have hsize : x.size ≤ (lmb.reserved.region i).size := by simp only [Range.stop] at *; omega
    have hsub : sub32 (lmb.reserved.region i).size x.size = (lmb.reserved.region i).size - x.size :=
      sub32_eq hsize (by simp only [Range.stop] at hi'; omega)
    have hin : x.addrs ⊆ (lmb.reserved.region i).addrs := by
      intro a; simp only [Range.mem_addrs, Range.stop] at *; omega
    simp only [lmbFree, hend, hf, hrend, hsub]
    by_cases hbe : (lmb.reserved.region i).base = x.base
    · by_cases hse : (lmb.reserved.region i).stop = x.stop
      · rw [if_pos ⟨hbe, hse⟩]
        refine ⟨Or.inl (h.remove hi), fun _ => ?_⟩
        have hx : (lmb.reserved.region i).addrs = x.addrs := by
          ext a; simp only [Range.mem_addrs, Range.stop] at *; omega
        exact (lmbRemoveRegion_addrs hi h.cnt_le).trans (hx ▸ cover_removeAt_diff h.ordered hi)
      · rw [if_neg (fun hc => hse hc.2), if_pos hbe]
        have hsplit := free_trim h hi hin (y := ⟨x.stop, (lmb.reserved.region i).size - x.size⟩)
          (by simp only [Range.stop] at hs hse ⊢; omega) (by simp only [Range.stop] at hs ⊢; omega)
          (by simp only [Range.stop] at hs ⊢; omega)
          (Or.inl ⟨hbe.symm, rfl, by simp only [Range.stop] at hs ⊢; omega⟩)
        exact ⟨Or.inl hsplit.1, fun _ => hsplit.2⟩
    · by_cases hse : (lmb.reserved.region i).stop = x.stop
      · rw [if_neg (fun hc => hbe hc.1), if_neg hbe, if_pos hse]
        have hsplit := free_trim h hi hin (y := ⟨(lmb.reserved.region i).base, (lmb.reserved.region i).size - x.size⟩)
          (by simp only [Range.stop] at hs hse ⊢; omega) (by simp only [Range.stop] at hs ⊢; omega)
          (by simp only [Range.stop] at hs ⊢; omega)
          (Or.inr ⟨rfl, by simp only [Range.stop] at hse ⊢; omega, hse.symm⟩)
        exact ⟨Or.inl hsplit.1, fun _ => hsplit.2⟩
      · rw [if_neg (fun hc => hbe hc.1), if_neg hbe, if_neg hse]
        have h1 : sub32 x.base (lmb.reserved.region i).base = x.base - (lmb.reserved.region i).base :=
          sub32_eq hb (by simp only [Range.stop] at *; omega)
        have h2 : sub32 (lmb.reserved.region i).stop x.stop = (lmb.reserved.region i).stop - x.stop :=
          sub32_eq hs hi'
        rw [h1, h2]
        obtain ⟨hs', ha⟩ := free_split h hi (lt_of_le_of_ne hb hbe) (lt_of_le_of_ne hs (Ne.symm hse))
        exact ⟨Or.inl hs', ha⟩

theorem free_step (hw : lmb.Wf) (hs : lmb.Sound (.free x)) :
    (lmbFree lmb x.base x.size).2.Wf ∧ ((lmbFree lmb x.base x.size).1 ≠ -1 →
      (lmbFree lmb x.base x.size).2.reservedSet = lmb.reservedSet \ x.addrs) := by
  rcases hs with hstop | hnone
  · rcases hw with hw | ⟨hc, h0⟩
    · exact free_sorted hw hstop
    · -- only the empty range at address 0 is found in the dummy region, which it removes
      have hend : add32 x.base x.size = x.stop := add32_eq hstop
      simp only [lmbFree, hend, hc, findRegion, h0]
      by_cases hx : 0 ≤ x.base ∧ x.stop ≤ add32 0 0
      · have hx0 : x.base = 0 ∧ x.stop = 0 := by simp [add32, Range.stop] at *; omega
        rw [if_pos hx]
        simp only [h0, hx0, show add32 0 0 = 0 from rfl, and_self, if_true]
        have hcnt : (lmbRemoveRegion lmb.reserved 0).cnt = 0 := by
          rw [lmbRemoveRegion_cnt (by omega) (by simp [hc, maxLmbRegions]), hc]
        refine ⟨Or.inl ⟨by simp [hcnt], ?_, ?_, ?_⟩, fun _ => ?_⟩
        · intro i hi; simp only at hi; omega
        · intro i hi; simp only at hi; omega
        · intro i j hij hj; simp only at hj; omega
        · rw [reservedSet_of_dummy hc h0, Set.empty_sdiff]
          exact reservedSet_of_cnt_zero hcnt
      · rw [if_neg hx]
        exact ⟨Or.inr ⟨hc, h0⟩, fun hne => absurd rfl hne⟩
  · have hf : findRegion lmb.reserved x.base (add32 x.base x.size) lmb.reserved.cnt 0 = none :=
      findRegion_none fun j hj => hnone j (by omega)
    simp only [lmbFree, hf]
    exact ⟨hw, fun hne => absurd rfl hne⟩

end

theorem call_step {lmb : LmbState} {c : Call} (hw : lmb.Wf) (ha : lmb.Allowed c) (hs : lmb.Sound c) :
    (lmb.call c).2.Wf ∧ ((lmb.call c).1 ≠ -1 → (lmb.call c).2.reservedSet = c.apply lmb.reservedSet) := by
  cases c with
  | reserve x => exact reserve_step hw ha hs
  | free x => exact free_step hw hs

/-! ## Every run -/

/-- `P` holds of every call of a run and the state before it. -/
def LmbState.Along (P : LmbState → Call → Prop) : LmbState → List Call → Prop
  | _, [] => True
  | lmb, c :: calls => P lmb c ∧ LmbState.Along P (lmb.call c).2 calls

theorem LmbState.Along.append {P : LmbState → Call → Prop} {lmb : LmbState} {calls : List Call} {c : Call}
    (h : LmbState.Along P lmb (calls ++ [c])) : LmbState.Along P lmb calls ∧ P (lmb.run calls) c := by
  induction calls generalizing lmb with
  | nil => exact ⟨trivial, h.1⟩
  | cons d calls ih =>
      obtain ⟨hcs, hc⟩ := ih h.2
      exact ⟨⟨h.1, hcs⟩, hc⟩

theorem lmbInit_wf (lmb : LmbState) : (lmbInit lmb).Wf := Or.inr ⟨rfl, by simp [lmbInit]⟩

theorem run_wf {lmb : LmbState} {calls : List Call} (hw : lmb.Wf) (ha : LmbState.Along LmbState.Allowed lmb calls)
    (hs : LmbState.Along LmbState.Sound lmb calls) : (lmb.run calls).Wf := by
  induction calls generalizing lmb with
  | nil => exact hw
  | cons c calls ih => exact ih (call_step hw ha.1 hs.1).1 ha.2 hs.2

theorem LmbState.Wf.separate {lmb : LmbState} (h : lmb.Wf) {i j : Nat} (hij : i < j) (hj : j < lmb.reserved.cnt) :
    (lmb.reserved.region i).base < (lmb.reserved.region j).base ∧
      Disjoint (lmb.reserved.region i).addrs (lmb.reserved.region j).addrs := by
  rcases h with h | ⟨hc, -⟩
  · have hord := h.ordered i j hij hj
    have hpos := h.size_pos i (by omega)
    refine ⟨by simp only [Range.stop] at hord; omega, Set.disjoint_left.mpr ?_⟩
    intro a ha ha'
    simp only [Range.mem_addrs, Range.stop] at *
    omega
  · omega

/-- In a run of allowed calls that meet `Sound`, every call that does not return `-1` changes the reserved
addresses by exactly its range, and the regions are sorted and disjoint after every call. -/
theorem reserved_set_exact (lmb : LmbState) (calls : List Call) (c : Call)
    (ha : LmbState.Along LmbState.Allowed (lmbInit lmb) (calls ++ [c]))
    (hs : LmbState.Along LmbState.Sound (lmbInit lmb) (calls ++ [c])) :
    let before := (lmbInit lmb).run calls
    let after := (before.call c).2
    ((before.call c).1 ≠ -1 → after.reservedSet = c.apply before.reservedSet) ∧
      ∀ i j, i < j → j < after.reserved.cnt →
        (after.reserved.region i).base < (after.reserved.region j).base ∧
          Disjoint (after.reserved.region i).addrs (after.reserved.region j).addrs := by
  intro before after
  have hw : before.Wf := run_wf (lmbInit_wf lmb) ha.append.1 hs.append.1
  obtain ⟨hw', hset⟩ := call_step hw ha.append.2 hs.append.2
  exact ⟨hset, fun i j hij hj => hw'.separate hij hj⟩

/-- `struct lmb` in zeroed memory. -/
def lmbZero : LmbState := ⟨⟨0, fun _ => ⟨0, 0⟩⟩, ⟨0, fun _ => ⟨0, 0⟩⟩⟩

/-- A region below the stale one may follow an emptied table. -/
theorem reserved_set_exact_emptied :
    let before := (lmbInit lmbZero).run [.reserve ⟨0x3000, 0x1000⟩, .free ⟨0x3000, 0x1000⟩]
    let c := Call.reserve ⟨0x1000, 0x1000⟩
    before.reserved.cnt = 0 ∧ (before.call c).2.reservedSet = c.apply before.reservedSet := by
  have hempty : (lmbInit lmbZero).reservedSet = ∅ := reservedSet_of_dummy rfl rfl
  have hempty' : ((lmbInit lmbZero).run [.reserve ⟨0x3000, 0x1000⟩, .free ⟨0x3000, 0x1000⟩]).reservedSet = ∅ :=
    reservedSet_of_cnt_zero rfl
  refine ⟨rfl, (reserved_set_exact lmbZero [.reserve ⟨0x3000, 0x1000⟩, .free ⟨0x3000, 0x1000⟩]
    (.reserve ⟨0x1000, 0x1000⟩) ?_ ?_).1 (by decide)⟩
  · refine ⟨⟨by decide, by decide, ?_⟩, trivial, ⟨by decide, by decide, ?_⟩, trivial⟩
    · rw [hempty]; exact Set.disjoint_empty _
    · exact (show LmbState.reservedSet _ = ∅ from hempty') ▸ Set.disjoint_empty _
  · exact ⟨fun h => absurd h (by decide), Or.inl (by decide), fun _ => ⟨by decide, Or.inl (by decide)⟩, trivial⟩

/-- A region above the stale one is lost: the stale one comes back in its place. -/
theorem reserve_after_emptied_brings_back_stale :
    let before := (lmbInit lmbZero).run [.reserve ⟨0x1000, 0x1000⟩, .free ⟨0x1000, 0x1000⟩]
    let c := Call.reserve ⟨0x3000, 0x1000⟩
    LmbState.Along LmbState.Allowed (lmbInit lmbZero)
        [.reserve ⟨0x1000, 0x1000⟩, .free ⟨0x1000, 0x1000⟩, c] ∧
      (before.call c).1 = 0 ∧ (before.call c).2.reservedSet = Range.addrs ⟨0x1000, 0x1000⟩ ∧
      (before.call c).2.reservedSet ≠ c.apply before.reservedSet := by
  intro before c
  have hempty : (lmbInit lmbZero).reservedSet = ∅ := reservedSet_of_dummy rfl rfl
  have hempty' : before.reservedSet = ∅ := reservedSet_of_cnt_zero rfl
  have hafter : (before.call c).2.reservedSet = Range.addrs ⟨0x1000, 0x1000⟩ :=
    (sorted_single (show (before.call c).2.reserved.cnt = 1 by decide) (by decide) (by decide) (by decide)).2
  refine ⟨⟨⟨by decide, by decide, ?_⟩, trivial, ⟨by decide, by decide, ?_⟩, trivial⟩, by decide, hafter, ?_⟩
  · rw [hempty]; exact Set.disjoint_empty _
  · exact (show LmbState.reservedSet _ = ∅ from hempty') ▸ Set.disjoint_empty _
  · rw [hafter, hempty']
    intro h
    have hmem : 0x1000 ∈ Range.addrs ⟨0x1000, 0x1000⟩ := ⟨by norm_num, by norm_num [Range.stop]⟩
    rw [h] at hmem
    simp [c, Call.apply, Range.mem_addrs] at hmem

end Uboot.Lmb
