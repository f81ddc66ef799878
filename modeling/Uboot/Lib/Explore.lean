import Mathlib.Data.Finite.Prod
import Mathlib.Order.WellFounded
import Mathlib.Tactic

/-!
# Recursion along links

A recursion that goes on to each successor of a state comes back just when no state that is reached is reached again from itself.
-/

namespace Uboot.Lib.Explore

variable {σ : Type*} {links : σ → List σ} {s t : σ}

/-- It comes back with a number of levels. -/
def Ends (links : σ → List σ) : Nat → σ → Prop
  | 0, _ => False
  | levels + 1, s => ∀ t ∈ links s, Ends links levels t

def Next (links : σ → List σ) (s t : σ) : Prop := t ∈ links s

/-- A state that leads to itself is reached. -/
def Cyclic (links : σ → List σ) (s : σ) : Prop := ∃ t, Relation.ReflTransGen (Next links) s t ∧ Relation.TransGen (Next links) t t

theorem Ends.succ {levels : Nat} (h : Ends links levels s) : Ends links (levels + 1) s := by
  induction levels generalizing s with
  | zero => exact h.elim
  | succ levels ih => exact fun t ht => ih (h t ht)

theorem Ends.mono {n m : Nat} (h : Ends links n s) (hnm : n ≤ m) : Ends links m s := by
  induction hnm with
  | refl => exact h
  | step _ ih => exact ih.succ

/-- The levels that are enough for each of them are enough for all. -/
theorem ends_all {ts : List σ} (h : ∀ t ∈ ts, ∃ n, Ends links n t) : ∃ n, ∀ t ∈ ts, Ends links n t := by
  induction ts with
  | nil => exact ⟨0, fun _ ht => absurd ht List.not_mem_nil⟩
  | cons t ts ih =>
      obtain ⟨n, hn⟩ := h t List.mem_cons_self
      obtain ⟨m, hm⟩ := ih fun u hu => h u (List.mem_cons_of_mem _ hu)
      refine ⟨max n m, fun u hu => ?_⟩
      rcases List.mem_cons.mp hu with rfl | hu
      · exact hn.mono (Nat.le_max_left _ _)
      · exact (hm u hu).mono (Nat.le_max_right _ _)

theorem ends_iff_acc : (∃ n, Ends links n s) ↔ Acc (flip (Next links)) s := by
  constructor
  · rintro ⟨n, hn⟩
    induction n generalizing s with
    | zero => exact hn.elim
    | succ n ih => exact ⟨s, fun t ht => ih (hn t ht)⟩
  · intro h
    induction h with
    | intro s _ ih =>
        obtain ⟨n, hn⟩ := ends_all fun t ht => ih t ht
        exact ⟨n + 1, hn⟩

theorem not_acc_self {r : σ → σ → Prop} (h : Acc r s) : ¬ r s s := by
  induction h with
  | intro s _ ih => exact fun hs => ih s hs hs

theorem acc_reached (h : Acc (flip (Next links)) s) (hst : Relation.ReflTransGen (Next links) s t) : Acc (flip (Next links)) t := by
  induction hst with
  | refl => exact h
  | tail _ hstep ih => exact ih.inv hstep

theorem acc_not_cyclic (h : Acc (flip (Next links)) s) : ¬ Cyclic links s := by
  rintro ⟨t, hst, htt⟩
  exact not_acc_self (acc_reached h hst).transGen (Relation.transGen_swap.mpr htt)

/-- Of finitely many states none is reached again for ever. -/
theorem acc_of_not_cyclic [Finite σ] (h : ¬ Cyclic links s) : Acc (flip (Next links)) s := by
  let later (a b : {t // Relation.ReflTransGen (Next links) s t}) : Prop := Relation.TransGen (Next links) b.1 a.1
  have htrans : IsTrans _ later := ⟨fun _ _ _ hab hbc => hbc.trans hab⟩
  have hirrefl : Std.Irrefl later := ⟨fun a ha => h ⟨a.1, a.2, ha⟩⟩
  have hwf : WellFounded later := Finite.wellFounded_of_trans_of_irrefl later
  have hacc : ∀ a : {t // Relation.ReflTransGen (Next links) s t}, Acc (flip (Next links)) a.1 := fun a => by
    induction a using hwf.induction with
    | _ a ih => exact ⟨a.1, fun t ht => ih ⟨t, a.2.tail ht⟩ (.single ht)⟩
  exact hacc ⟨s, .refl⟩

theorem ends_iff [Finite σ] : (∃ n, Ends links n s) ↔ ¬ Cyclic links s :=
  ends_iff_acc.trans ⟨acc_not_cyclic, acc_of_not_cyclic⟩

end Uboot.Lib.Explore
