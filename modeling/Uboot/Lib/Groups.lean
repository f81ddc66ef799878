import Mathlib.Tactic

/-!
# Lists sorted by a key

A list that is sorted by a key is determined by its groups of equal keys.
-/

namespace Uboot.Lib

variable {α : Type} {key : α → Nat} {l l' : List α}

theorem eq_nil_of_groups (h : ∀ o, l.filter (key · = o) = []) : l = [] := by
  cases l with
  | nil => rfl
  | cons x l =>
      have hx := h (key x)
      simp at hx

theorem eq_of_groups (key : α → Nat) (hs : l.Pairwise fun x y => key x ≤ key y) (hs' : l'.Pairwise fun x y => key x ≤ key y)
    (h : ∀ o, l.filter (key · = o) = l'.filter (key · = o)) : l = l' := by
  induction l generalizing l' with
  | nil => exact (eq_nil_of_groups fun o => (h o).symm).symm
  | cons x l ih =>
      cases l' with
      | nil => exact eq_nil_of_groups h
      | cons y l' =>
          have hx : x ∈ (y :: l').filter (key · = key x) := by
            rw [← h]
            simp
          have hy : y ∈ (x :: l).filter (key · = key y) := by
            rw [h]
            simp
          -- each head is not behind the other one's group
          have hle : key y ≤ key x := by
            rcases List.mem_cons.mp (List.mem_filter.mp hx).1 with rfl | hmem
            · exact le_rfl
            · exact List.rel_of_pairwise_cons hs' hmem
          have hge : key x ≤ key y := by
            rcases List.mem_cons.mp (List.mem_filter.mp hy).1 with rfl | hmem
            · exact le_rfl
            · exact List.rel_of_pairwise_cons hs hmem
          have hkey : key x = key y := le_antisymm hge hle
          have hheads := h (key x)
          rw [List.filter_cons_of_pos (by simp), List.filter_cons_of_pos (by simp [hkey])] at hheads
          cases (List.cons.inj hheads).1
          congr 1
          apply ih (List.pairwise_cons.mp hs).2 (List.pairwise_cons.mp hs').2
          intro o
          have ho := h o
          rw [List.filter_cons, List.filter_cons] at ho
          split at ho
          next => exact (List.cons.inj ho).2
          next => exact ho

end Uboot.Lib
