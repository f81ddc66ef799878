import Mathlib.Data.List.TakeWhile
import Uboot.Cli.Editor

/-!
# The ring of the history

`hist_list` up to `hist_max` is a ring. The slot of `hist_add_idx` is for the next line, the slots before it hold the
lines that were entered, the last one first.
-/

namespace Uboot.Cli

open Lib

/-- The slot `back` steps before slot `a`, in a ring up to slot `m`. -/
def slot (a m back : Nat) : Nat := if back ≤ a then a - back else a + (m + 1) - back

structure HistRel (cap : Nat) (h : Hist) (r : Recall (List UInt8)) : Prop where
  slots : h.histList.length = histMaxLines
  max_lt : h.histMax < histMaxLines
  add_le : h.histAddIdx ≤ h.histMax
  /-- The ring grows until all slots are in use. -/
  full : h.histAddIdx = h.histMax ∨ h.histMax + 1 = histMaxLines
  length : r.lines.length = h.histMax
  lines : ∀ i < h.histMax, h.histList[slot h.histAddIdx h.histMax (i + 1)]? = r.lines[i]?
  /-- Before the first line is done `hist_cur` is negative. -/
  cur : (h.histCur = -1 ∧ h.histMax = 0) ∨ h.histCur = slot h.histAddIdx h.histMax r.back
  fits : ∀ l ∈ r.lines, l.length ≤ cap ∧ (0 : UInt8) ∉ l

variable {cap : Nat} {h : Hist} {r : Recall (List UInt8)}

theorem histInit_rel (cap : Nat) : HistRel cap histInit .empty where
  slots := List.length_replicate
  max_lt := by decide
  add_le := Nat.le_refl 0
  full := .inl rfl
  length := rfl
  lines i hi := absurd hi (Nat.not_lt_zero i)
  cur := .inl ⟨rfl, rfl⟩
  fits l hl := absurd hl List.not_mem_nil

theorem HistRel.getD_slot (hr : HistRel cap h r) {i : Nat} (hi : i < r.lines.length) :
    h.histList.getD (slot h.histAddIdx h.histMax (i + 1)) [] = r.lines.get ⟨i, hi⟩ := by
  rw [List.getD_eq_getElem?_getD, hr.lines i (hr.length ▸ hi), List.getElem?_eq_getElem hi]
  rfl

/-- Another place in the same ring. -/
theorem HistRel.move (hr : HistRel cap h r) {cur : Int} {back : Nat} (hle : back ≤ r.lines.length)
    (hcur : cur = slot h.histAddIdx h.histMax back) : HistRel cap { h with histCur := cur } ⟨r.lines, back, hle⟩ where
  slots := hr.slots
  max_lt := hr.max_lt
  add_le := hr.add_le
  full := hr.full
  length := hr.length
  lines := hr.lines
  cur := .inr hcur
  fits := hr.fits

theorem rewind_rel (hr : HistRel cap h r) : HistRel cap { h with histCur := h.histAddIdx } r.rewind :=
  hr.move (Nat.zero_le _) (by simp [slot])

/-- `hist_prev` is one line further back, and the line fits the buffer. -/
theorem histPrev_rel (hr : HistRel cap h r) :
    match r.prev with
    | none => histPrev h = (none, h)
    | some (line, r') => (histPrev h).1 = some line ∧ HistRel cap (histPrev h).2 r' ∧ line.length ≤ cap ∧ (0 : UInt8) ∉ line := by
  have hadd := hr.add_le
  have hlen := hr.length
  by_cases hlt : r.back < r.lines.length
  · rw [Recall.prev, dif_pos hlt]
    dsimp only
    have hcur : h.histCur = slot h.histAddIdx h.histMax r.back := hr.cur.resolve_left fun hn => by omega
    have hprev : (if h.histCur - 1 < 0 then (h.histMax : Int) else h.histCur - 1) =
        slot h.histAddIdx h.histMax (r.back + 1) := by
      rw [hcur, slot, slot]
      split_ifs <;> omega
    have hother : (slot h.histAddIdx h.histMax (r.back + 1) : Int) ≠ h.histAddIdx := by
      rw [slot]
      split_ifs <;> omega
    have hres : histPrev h = (some (h.histList.getD (slot h.histAddIdx h.histMax (r.back + 1)) []),
        { h with histCur := slot h.histAddIdx h.histMax (r.back + 1) }) := by
      rw [histPrev, if_neg (by omega)]
      dsimp only
      rw [hprev, if_neg hother, Int.toNat_natCast]
    rw [hres]
    exact ⟨congrArg some (hr.getD_slot hlt), hr.move hlt rfl, hr.fits _ (List.get_mem ..)⟩
  · rw [Recall.prev, dif_neg hlt]
    dsimp only
    rw [histPrev]
    split
    · rfl
    · have hcur : h.histCur = slot h.histAddIdx h.histMax r.back := hr.cur.resolve_left fun hn => by omega
      have hback := r.back_le
      have hend : (if h.histCur - 1 < 0 then (h.histMax : Int) else h.histCur - 1) = h.histAddIdx := by
        rw [hcur, slot]
        split_ifs <;> omega
      dsimp only
      rw [hend, if_pos rfl]

theorem histNext_rel (hr : HistRel cap h r) :
    match r.next [] with
    | none => histNext h = (none, h)
    | some (line, r') => (histNext h).1 = some line ∧ HistRel cap (histNext h).2 r' ∧ line.length ≤ cap ∧ (0 : UInt8) ∉ line := by
  have hadd := hr.add_le
  have hlen := hr.length
  have hcur := hr.cur
  obtain ⟨lines, back, hle⟩ := r
  dsimp only at hlen hcur
  cases back with
  | zero =>
      rw [Recall.next]
      dsimp only
      rw [histNext]
      split
      · rfl
      · rename_i hneg
        rw [if_pos]
        simpa [slot] using hcur.resolve_left fun hn => by omega
  | succ n =>
      replace hcur : h.histCur = slot h.histAddIdx h.histMax (n + 1) := hcur.resolve_left fun hn => by omega
      have hhere : (slot h.histAddIdx h.histMax (n + 1) : Int) ≠ h.histAddIdx := by
        rw [slot]
        split_ifs <;> omega
      have hnext : (if (h.histMax : Int) < h.histCur + 1 then 0 else h.histCur + 1) = slot h.histAddIdx h.histMax n := by
        rw [hcur, slot, slot]
        split_ifs <;> omega
      have hres : histNext h = if (slot h.histAddIdx h.histMax n : Int) = h.histAddIdx then
          (some [], { h with histCur := slot h.histAddIdx h.histMax n })
          else (some (h.histList.getD (slot h.histAddIdx h.histMax n) []),
            { h with histCur := slot h.histAddIdx h.histMax n }) := by
        rw [histNext, if_neg (by omega), if_neg (by rwa [hcur])]
        dsimp only
        rw [hnext, Int.toNat_natCast]
      cases n with
      | zero =>
          rw [Recall.next]
          dsimp only
          rw [hres, if_pos (by simp [slot])]
          exact ⟨rfl, hr.move (Nat.zero_le _) rfl, Nat.zero_le _, List.not_mem_nil⟩
      | succ n =>
          rw [Recall.next]
          dsimp only
          rw [hres, if_neg (by rw [slot]; split_ifs <;> omega)]
          exact ⟨congrArg some (hr.getD_slot _), hr.move _ rfl, hr.fits _ (List.get_mem ..)⟩

/-- A line that is done takes the slot of the oldest one, or a new one. -/
theorem creadAddToHist_rel (hr : HistRel cap h r) {line : List UInt8} (hfits : (cstr line).length ≤ cap) :
    ∃ h', creadAddToHist cap line h = some h' ∧
      HistRel cap { h' with histCur := h'.histAddIdx } (r.remember (histMaxLines - 1) (cstr line)) := by
  have hadd := hr.add_le
  have hlen := hr.length
  have hfull := hr.full
  have hmax := hr.max_lt
  have hslots := hr.slots
  have hlines := hr.lines
  simp only [histMaxLines] at hfull hmax hslots
  rw [creadAddToHist, if_pos ⟨by omega, hfits⟩]
  refine ⟨_, rfl, ?_⟩
  dsimp only
  generalize hidx : (if histMaxLines ≤ h.histAddIdx + 1 then 0 else h.histAddIdx + 1) = idx
  generalize hm : (if h.histMax < idx then idx else h.histMax) = m
  have hcases : (idx = h.histAddIdx + 1 ∧ m = idx ∧ h.histMax = h.histAddIdx ∧ m < 20) ∨
      (m = 19 ∧ h.histMax = 19 ∧ (idx = h.histAddIdx + 1 ∧ idx ≤ 19 ∨ idx = 0 ∧ h.histAddIdx = 19)) := by
    rw [histMaxLines] at hidx
    split_ifs at hidx hm <;> omega
  have hnew : slot idx m 1 = h.histAddIdx := by
    rw [slot]
    split_ifs <;> omega
  have hold : ∀ i, i + 1 < m → slot idx m (i + 1 + 1) = slot h.histAddIdx h.histMax (i + 1) ∧
      h.histAddIdx ≠ slot h.histAddIdx h.histMax (i + 1) ∧ i < h.histMax := by
    intro i hi
    rw [slot, slot]
    split_ifs <;> omega
  refine ⟨by simpa using hr.slots, by simp only [histMaxLines]; omega, by dsimp only; omega, by simp only [histMaxLines]; omega, ?_, ?_,
    .inr (by simp [slot, Recall.remember]), ?_⟩
  · simp only [Recall.remember, histMaxLines, List.length_take, List.length_cons]
    omega
  · intro i hi
    dsimp only at hi ⊢
    rw [Recall.remember, histMaxLines, List.getElem?_take_of_lt (by omega)]
    cases i with
    | zero => rw [hnew, List.getElem?_set_self (by omega), List.getElem?_cons_zero]
    | succ i =>
        obtain ⟨hslot, hne, hlt⟩ := hold i hi
        rw [hslot, List.getElem?_set_ne hne, List.getElem?_cons_succ, hlines i hlt]
  · intro l hl
    cases List.mem_cons.mp (List.mem_of_mem_take hl) with
    | inl heq =>
        refine ⟨heq ▸ hfits, fun h0 => ?_⟩
        rw [heq] at h0
        exact absurd (List.mem_takeWhile_imp h0) (by decide)
    | inr hmem => exact hr.fits l hmem

end Uboot.Cli
