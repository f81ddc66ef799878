import Mathlib.Data.List.InsertIdx

/-!
# Channels that lose and repeat

A channel is the list of the messages in flight, the oldest first. Messages may get lost or be repeated, but
keep their order.
-/

namespace Uboot.Lib

inductive Noise where
  | lose (i : Nat)
  | dup (i : Nat)
deriving DecidableEq, Repr

section
variable {α β : Type}

def dupAt : List α → Nat → List α
  | [], _ => []
  | x :: q, 0 => x :: x :: q
  | x :: q, i + 1 => x :: dupAt q i

def Noise.apply (q : List α) : Noise → List α
  | .lose i => q.eraseIdx i
  | .dup i => dupAt q i

theorem mem_dupAt {q : List α} {i : Nat} {y : α} : y ∈ dupAt q i ↔ y ∈ q := by
  induction q generalizing i with
  | nil => rfl
  | cons x q ih =>
      cases i with
      | zero => simp [dupAt]
      | succ i => simp [dupAt, ih]

theorem Noise.mem_apply {q : List α} {w : Noise} {y : α} (h : y ∈ w.apply q) : y ∈ q := by
  cases w with
  | lose i => exact List.mem_of_mem_eraseIdx h
  | dup i => exact mem_dupAt.mp h

theorem dupAt_pairwise {R : α → α → Prop} (hR : ∀ a, R a a) {q : List α} {i : Nat} (h : q.Pairwise R) :
    (dupAt q i).Pairwise R := by
  induction q generalizing i with
  | nil => exact h
  | cons x q ih =>
      obtain ⟨hx, hq⟩ := List.pairwise_cons.mp h
      cases i with
      | zero =>
          refine List.pairwise_cons.mpr ⟨?_, h⟩
          intro y hy
          rcases List.mem_cons.mp hy with rfl | hy
          · exact hR y
          · exact hx y hy
      | succ i => exact List.pairwise_cons.mpr ⟨fun y hy => hx y (mem_dupAt.mp hy), ih hq⟩

theorem Noise.pairwise {R : α → α → Prop} (hR : ∀ a, R a a) {q : List α} (w : Noise) (h : q.Pairwise R) :
    (w.apply q).Pairwise R := by
  cases w with
  | lose i => exact h.sublist (List.eraseIdx_sublist q i)
  | dup i => exact dupAt_pairwise hR h

theorem dupAt_map (f : α → β) (q : List α) (i : Nat) : dupAt (q.map f) i = (dupAt q i).map f := by
  induction q generalizing i with
  | nil => rfl
  | cons x q ih =>
      cases i with
      | zero => rfl
      | succ i => simp [dupAt, ih]

theorem Noise.apply_map (f : α → β) (q : List α) (w : Noise) : w.apply (q.map f) = (w.apply q).map f := by
  cases w with
  | lose i => exact (List.eraseIdx_map f q i)
  | dup i => exact dupAt_map f q i

end

end Uboot.Lib
