import Uboot.Lmb.Placement
import Uboot.Lmb.Theorems

/-!
# What a failed call leaves behind

`lmb_add_region` fails before it has changed anything. `lmb_free` of the middle of a region cuts the region first and
then asks for an entry for what remains behind the hole; when there is none, the cut stays.
-/

namespace Uboot.Lmb

open Uboot.Lib

/-- A call with a result that may be a failure. -/
inductive Request where
  | add (range : Range)
  | reserve (range : Range)
  | free (range : Range)
  | allocBase (size align maxAddr : Nat)

namespace LmbState

/-- The state after the call. -/
def after (lmb : LmbState) : Request → LmbState
  | .add x => (lmbAdd lmb x.base x.size).2
  | .reserve x => (lmbReserve lmb x.base x.size).2
  | .free x => (lmbFree lmb x.base x.size).2
  | .allocBase size align maxAddr => (lmbAllocBase lmb size align maxAddr).2

/-- The result is -1 or, for an allocation, 0. -/
def Fails (lmb : LmbState) : Request → Prop
  | .add x => (lmbAdd lmb x.base x.size).1 = -1
  | .reserve x => (lmbReserve lmb x.base x.size).1 = -1
  | .free x => (lmbFree lmb x.base x.size).1 = -1
  | .allocBase size align maxAddr => (lmbAllocBase lmb size align maxAddr).1 = 0

/-- A failed call leaves the memory and the reserved addresses as they are. -/
def FailureUnchanged (lmb : LmbState) (q : Request) : Prop :=
  lmb.Fails q → (lmb.after q).memory.addrs = lmb.memory.addrs ∧ (lmb.after q).reservedSet = lmb.reservedSet

end LmbState

/-! ## The region to free from -/

/-- Region `i` seems to `lmb_free` to contain the range. -/
def LmbRegion.Holds (rgn : LmbRegion) (x : Range) (i : Nat) : Prop :=
  (rgn.region i).base ≤ x.base ∧ add32 x.base x.size ≤ add32 (rgn.region i).base (rgn.region i).size

/-- The first region that seems to contain the range. -/
def LmbRegion.FirstHolds (rgn : LmbRegion) (x : Range) (i : Nat) : Prop :=
  i < rgn.cnt ∧ rgn.Holds x i ∧ ∀ j < i, ¬ rgn.Holds x j

section
variable {rgn : LmbRegion} {x : Range} {i : Nat}

theorem findRegion_cases (rgn : LmbRegion) (x : Range) (n i : Nat) :
    (∃ k, i ≤ k ∧ k < i + n ∧ rgn.Holds x k ∧ (∀ j, i ≤ j → j < k → ¬ rgn.Holds x j) ∧
      findRegion rgn x.base (add32 x.base x.size) n i = some k) ∨
    ((∀ j, i ≤ j → j < i + n → ¬ rgn.Holds x j) ∧ findRegion rgn x.base (add32 x.base x.size) n i = none) := by
  induction n generalizing i with
  | zero => exact .inr ⟨fun j h1 h2 => by omega, rfl⟩
  | succ n ih =>
    by_cases hi : rgn.Holds x i
    · exact .inl ⟨i, le_refl _, by omega, hi, fun j h1 h2 => by omega, if_pos hi⟩
    · have hstep : findRegion rgn x.base (add32 x.base x.size) (n + 1) i =
          findRegion rgn x.base (add32 x.base x.size) n (i + 1) := if_neg hi
      rw [hstep]
      have hcons : ∀ j, i ≤ j → (i + 1 ≤ j → ¬ rgn.Holds x j) → ¬ rgn.Holds x j := by
        intro j hj hlt
        by_cases hji : j = i
        · exact hji ▸ hi
        · exact hlt (by omega)
      rcases ih (i + 1) with ⟨k, h1, h2, hk, hfirst, heq⟩ | ⟨hall, heq⟩
      · exact .inl ⟨k, by omega, by omega, hk, fun j hj hjk => hcons j hj fun hlt => hfirst j hlt hjk, heq⟩
      · exact .inr ⟨fun j hj hjn => hcons j hj fun hlt => hall j hlt (by omega), heq⟩

theorem LmbRegion.FirstHolds.unique {k : Nat} (h : rgn.FirstHolds x i) (h' : rgn.FirstHolds x k) : k = i := by
  by_contra hne
  rcases Nat.lt_or_gt_of_ne hne with hlt | hlt
  · exact h.2.2 k hlt h'.2.1
  · exact h'.2.2 i hlt h.2.1

/-- The end of a region is moved: nothing changes when the other regions have every address in between. -/
theorem set_end_addrs_iff {m : Nat} (hi : i < rgn.cnt) (hm : (rgn.region i).base ≤ m) :
    (rgn.set i ⟨(rgn.region i).base, m - (rgn.region i).base⟩).addrs = rgn.addrs ↔
      ∀ a, min m (rgn.region i).stop ≤ a → a < max m (rgn.region i).stop →
        ∃ j < rgn.cnt, j ≠ i ∧ a ∈ (rgn.region j).addrs := by
  have hnew : ∀ a, a ∈ Range.addrs ⟨(rgn.region i).base, m - (rgn.region i).base⟩ ↔
      (rgn.region i).base ≤ a ∧ a < m := by
    intro a
    simp only [Range.mem_addrs]
    omega
  have hold : ∀ a, a ∈ (rgn.region i).addrs ↔ (rgn.region i).base ≤ a ∧ a < (rgn.region i).stop := fun a => Iff.rfl
  have hcover : ∀ a, a ∈ rgn.addrs ↔ a ∈ (rgn.region i).addrs ∨ ∃ j < rgn.cnt, j ≠ i ∧ a ∈ (rgn.region j).addrs := by
    intro a
    have := @mem_cover_update rgn.cnt i rgn.region (rgn.region i) a hi
    rwa [Function.update_eq_self] at this
  rw [Set.ext_iff]
  refine forall_congr' fun a => ?_
  rw [hcover, hold, LmbRegion.addrs, LmbRegion.set, mem_cover_update hi, hnew]
  by_cases hother : ∃ j < rgn.cnt, j ≠ i ∧ a ∈ (rgn.region j).addrs
  · simp only [hother, or_true, implies_true]
  · simp only [hother, or_false, imp_false]
    rw [Range.stop]
    omega

end

/-! ## Each call -/

section
variable {lmb : LmbState}

theorem add_unchanged (x : Range) : lmb.FailureUnchanged (.add x) := by
  intro h
  have hsame : (lmbAddRegion lmb.memory x.base x.size).2 = lmb.memory := lmbAddRegion_fails_unchanged h
  simp only [LmbState.after, lmbAdd, hsame, LmbState.reservedSet, and_self]

theorem reserve_unchanged (x : Range) : lmb.FailureUnchanged (.reserve x) := by
  intro h
  have hsame : (lmbAddRegion lmb.reserved x.base x.size).2 = lmb.reserved := lmbAddRegion_fails_unchanged h
  simp only [LmbState.after, lmbReserve, hsame, LmbState.reservedSet, and_self]

theorem searchLoop_ne_zero {reserved : LmbRegion} {size align lmbbase n base b : Nat}
    (h : searchLoop reserved size align lmbbase n base = some b) : b ≠ 0 := by
  induction n generalizing base with
  | zero => cases h
  | succ n ih =>
    rw [searchLoop] at h
    split at h
    case isFalse => cases h
    case isTrue hcond =>
      cases hover : lmbOverlapsRegion reserved base size with
      | none =>
        simp only [hover, Option.some.injEq] at h
        exact h ▸ hcond.1
      | some j =>
        simp only [hover] at h
        split at h
        case isTrue => cases h
        case isFalse => exact ih h

/-- A place that was found is not 0, so only a failed `lmb_add_region` makes the result 0. -/
theorem allocBase_unchanged (size align maxAddr : Nat) : lmb.FailureUnchanged (.allocBase size align maxAddr) := by
  intro h
  simp only [LmbState.Fails, LmbState.after, lmbAllocBase] at *
  rcases allocLoop_cases lmb size align maxAddr lmb.memory.cnt with ⟨i, -, b, hfind, -, heq⟩ | ⟨-, heq⟩
  · rw [heq] at h ⊢
    have hb : b ≠ 0 := by
      obtain ⟨start, -, hsearch⟩ := Option.bind_eq_some_iff.mp hfind
      exact searchLoop_ne_zero hsearch
    have hfail : (lmbAddRegion lmb.reserved b (lmbAlignUp size align)).1 = -1 := by
      by_contra hok
      rw [take_of_ok hok] at h
      exact hb h
    have hsame : (lmbAddRegion lmb.reserved b (lmbAlignUp size align)).2 = lmb.reserved :=
      @lmbAddRegion_fails_unchanged lmb.reserved ⟨b, lmbAlignUp size align⟩ hfail
    simp only [take, hsame, LmbState.reservedSet, and_self]
  · rw [heq]
    exact ⟨rfl, rfl⟩

end

/-! ## The hole in the middle of a region -/

/-- Region `i` with the part from the range on cut off. -/
def LmbRegion.cut (rgn : LmbRegion) (x : Range) (i : Nat) : LmbRegion :=
  rgn.set i ⟨(rgn.region i).base, x.base - (rgn.region i).base⟩

/-- What remains of region `i` behind the range. -/
def LmbRegion.tail (rgn : LmbRegion) (x : Range) (i : Nat) : Range :=
  ⟨add32 x.base x.size, sub32 (add32 (rgn.region i).base (rgn.region i).size) (add32 x.base x.size)⟩

/-- When the range lies inside its region, the table is full and nothing touches what remains behind the range, then
the other regions have every address between the beginning of the range and the end of the region. -/
def LmbState.FreeHarmless (lmb : LmbState) (x : Range) : Prop :=
  ∀ i, lmb.reserved.FirstHolds x i → (lmb.reserved.region i).base ≠ x.base →
    add32 (lmb.reserved.region i).base (lmb.reserved.region i).size ≠ add32 x.base x.size →
    maxLmbRegions ≤ lmb.reserved.cnt →
    (∀ j < lmb.reserved.cnt, ¬ (lmb.reserved.cut x i).Touches (lmb.reserved.tail x i) j) →
    ∀ a, min x.base (lmb.reserved.region i).stop ≤ a → a < max x.base (lmb.reserved.region i).stop →
      ∃ j < lmb.reserved.cnt, j ≠ i ∧ a ∈ (lmb.reserved.region j).addrs

section
variable {lmb : LmbState} {x : Range}

/-- A range at one end of its region is freed. -/
theorem free_end_ok {i : Nat}
    (hfind : findRegion lmb.reserved x.base (add32 x.base x.size) lmb.reserved.cnt 0 = some i)
    (h : (lmb.reserved.region i).base = x.base ∨
      add32 (lmb.reserved.region i).base (lmb.reserved.region i).size = add32 x.base x.size) :
    (lmbFree lmb x.base x.size).1 = 0 := by
  simp only [lmbFree, hfind]
  split_ifs with h1 h2 h3
  · rfl
  · rfl
  · rfl
  · exact absurd h (not_or.mpr ⟨h2, h3⟩)

/-- A range in the middle of its region: the region is cut, and what remains behind the range is added. -/
theorem free_middle {i : Nat} (hx : x.base < wordSize)
    (hfind : findRegion lmb.reserved x.base (add32 x.base x.size) lmb.reserved.cnt 0 = some i)
    (hholds : lmb.reserved.Holds x i) (hb : (lmb.reserved.region i).base ≠ x.base)
    (he : add32 (lmb.reserved.region i).base (lmb.reserved.region i).size ≠ add32 x.base x.size) :
    lmbFree lmb x.base x.size =
      ((lmbAddRegion (lmb.reserved.cut x i) (lmb.reserved.tail x i).base (lmb.reserved.tail x i).size).1,
        { lmb with reserved :=
          (lmbAddRegion (lmb.reserved.cut x i) (lmb.reserved.tail x i).base (lmb.reserved.tail x i).size).2 }) := by
  have hsub : sub32 x.base (lmb.reserved.region i).base = x.base - (lmb.reserved.region i).base :=
    sub32_eq hholds.1 hx
  simp only [lmbFree, hfind, hb, he, false_and, if_false, hsub, LmbRegion.cut, LmbRegion.tail]

theorem free_unchanged_iff (hcnt : lmb.reserved.cnt < wordSize) (hx : x.base < wordSize) :
    lmb.FailureUnchanged (.free x) ↔ lmb.FreeHarmless x := by
  rcases findRegion_cases lmb.reserved x lmb.reserved.cnt 0 with ⟨i, -, hi, hholds, hfirst, heq⟩ | ⟨hall, heq⟩
  · have hi : i < lmb.reserved.cnt := by omega
    have hfh : lmb.reserved.FirstHolds x i := ⟨hi, hholds, fun j hj => hfirst j (by omega) hj⟩
    by_cases hend : (lmb.reserved.region i).base = x.base ∨
        add32 (lmb.reserved.region i).base (lmb.reserved.region i).size = add32 x.base x.size
    · have hok : (lmbFree lmb x.base x.size).1 = 0 := free_end_ok heq hend
      refine iff_of_true (fun h => ?_) (fun i' hi' hb he => ?_)
      · rw [LmbState.Fails, hok] at h
        cases h
      · obtain rfl := hfh.unique hi'
        exact absurd hend (not_or.mpr ⟨hb, he⟩)
    · obtain ⟨hb, he⟩ := not_or.mp hend
      have hfree := free_middle hx heq hholds hb he
      have hcut : (lmb.reserved.cut x i).cnt < wordSize := hcnt
      have hfails := lmbAddRegion_fails_iff (x := lmb.reserved.tail x i) hcut
      have hset := set_end_addrs_iff hi hholds.1
      simp only [LmbState.FailureUnchanged, LmbState.Fails, LmbState.after, hfree]
      constructor
      · intro h i' hi' _ _ hfull hnone
        obtain rfl := hfh.unique hi'
        have hres := hfails.mpr ⟨hfull, hnone⟩
        have haddrs := (h hres).2
        simp only [LmbState.reservedSet, lmbAddRegion_fails_unchanged hres] at haddrs
        exact hset.mp haddrs
      · intro h hres
        obtain ⟨hfull, hnone⟩ := hfails.mp hres
        refine ⟨trivial, ?_⟩
        simp only [LmbState.reservedSet, lmbAddRegion_fails_unchanged hres]
        exact hset.mpr (h i hfh hb he hfull hnone)
  · refine iff_of_true (fun _ => ?_) (fun i hi => absurd hi.2.1 (hall i (by omega) (by have := hi.1; omega)))
    simp only [LmbState.after, lmbFree, heq]
    exact ⟨trivial, trivial⟩

end

/-- The condition under which a failed call changes nothing. -/
def LmbState.Harmless (lmb : LmbState) : Request → Prop
  | .free x => lmb.FreeHarmless x
  | _ => True

/-- A failed call changes nothing, unless it is `lmb_free` of the middle of a region of a full table. -/
theorem failure_unchanged_iff (lmb : LmbState) (q : Request) (hcnt : lmb.reserved.cnt < wordSize)
    (hq : ∀ x, q = .free x → x.base < wordSize) : lmb.FailureUnchanged q ↔ lmb.Harmless q := by
  cases q with
  | add x => exact iff_of_true (add_unchanged x) trivial
  | reserve x => exact iff_of_true (reserve_unchanged x) trivial
  | free x => exact free_unchanged_iff hcnt (hq x rfl)
  | allocBase size align maxAddr => exact iff_of_true (allocBase_unchanged size align maxAddr) trivial

/-- Eight reserved regions with a gap between each two. -/
def fullTable : LmbState := ⟨⟨1, fun _ => ⟨0x80000000, 0x10000000⟩⟩, ⟨8, fun i => ⟨0x80000000 + i * 0x10000, 0x8000⟩⟩⟩

/-- The full table has no entry for another region. -/
theorem failure_unchanged_example : fullTable.Fails (.reserve ⟨0x80100000, 0x8000⟩) ∧
    fullTable.FailureUnchanged (.reserve ⟨0x80100000, 0x8000⟩) := by
  refine ⟨?_, (failure_unchanged_iff _ _ (by decide) (fun x hx => by cases hx)).mpr trivial⟩
  exact (by decide : (lmbReserve fullTable 0x80100000 0x8000).1 = -1)

/-- The middle of a region cannot be freed from the full table, and then the region has lost its end. -/
theorem failed_free_cuts :
    fullTable.Fails (.free ⟨0x80002000, 0x1000⟩) ∧ ¬ fullTable.FailureUnchanged (.free ⟨0x80002000, 0x1000⟩) := by
  have hres : fullTable.Fails (.free ⟨0x80002000, 0x1000⟩) :=
    (by decide : (lmbFree fullTable 0x80002000 0x1000).1 = -1)
  refine ⟨hres, fun h => ?_⟩
  have hbefore : 0x80004000 ∈ fullTable.reservedSet :=
    ⟨0, by decide, (by decide : 0x80000000 ≤ 0x80004000 ∧ 0x80004000 < 0x80000000 + 0x8000)⟩
  rw [← (h hres).2] at hbefore
  obtain ⟨i, hi, ha⟩ := hbefore
  have hall : ∀ i < (lmbFree fullTable 0x80002000 0x1000).2.reserved.cnt,
      ¬ (((lmbFree fullTable 0x80002000 0x1000).2.reserved.region i).base ≤ 0x80004000 ∧
        0x80004000 < ((lmbFree fullTable 0x80002000 0x1000).2.reserved.region i).base +
          ((lmbFree fullTable 0x80002000 0x1000).2.reserved.region i).size) := by decide
  exact hall i hi ha

end Uboot.Lmb
