import Mathlib.Init

/-!
# Computations that may end in a fault
-/

namespace Uboot.Lib

variable {ε α β : Type}

theorem ok_bind (a : α) (g : α → Except ε β) : (Except.ok a >>= g) = g a := by
  simp only [bind, Except.bind]

theorem error_bind (e : ε) (g : α → Except ε β) : (Except.error e >>= g) = .error e := by
  simp only [bind, Except.bind]

theorem bind_eq_ok {x : Except ε α} {f : α → Except ε β} {b : β} (h : (x >>= f) = .ok b) :
    ∃ a, x = .ok a ∧ f a = .ok b := by
  cases x with
  | error e =>
      rw [error_bind] at h
      cases h
  | ok a => exact ⟨a, rfl, by rwa [ok_bind] at h⟩

end Uboot.Lib
