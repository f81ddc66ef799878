import Mathlib.Tactic

/-!
# Programs that can fail

A program changes a state and either returns a value or fails; the state is kept when it fails. A triple has an
invariant that holds in the end in both cases, and a postcondition for the case that a value is returned.
-/

namespace Uboot.Lib

abbrev Prog (σ α : Type) := OptionT (StateM σ) α

namespace Prog

variable {σ α β : Type}

/-- The result and the state. -/
def exec (m : Prog σ α) (s : σ) : Option α × σ := StateT.run (OptionT.run m) s

/-- Changes the state, and fails when the result is none. -/
def act (f : σ → Option α × σ) : Prog σ α := OptionT.mk fun s => f s

/-- A failure is ignored. -/
def ignore (m : Prog σ Unit) : Prog σ Unit := act fun s => (some (), (m.exec s).2)

/-- `n` is run after `m` in any case, and its failure is ignored. -/
def followed (m : Prog σ α) (n : Prog σ Unit) : Prog σ α := act fun s =>
  let (r, s') := m.exec s
  (r, (n.exec s').2)

def Triple (inv pre : σ → Prop) (m : Prog σ α) (post : α → σ → Prop) : Prop :=
  ∀ s, inv s → pre s → inv (m.exec s).2 ∧ ∀ a, (m.exec s).1 = some a → post a (m.exec s).2

variable {inv pre pre' : σ → Prop} {post : α → σ → Prop} {m : Prog σ α}

theorem exec_act (f : σ → Option α × σ) (s : σ) : (act f).exec s = f s := rfl

theorem exec_bind (m : Prog σ α) (f : α → Prog σ β) (s : σ) : (m >>= f).exec s =
    match m.exec s with
    | (some a, s') => (f a).exec s'
    | (none, s') => (none, s') := by
  simp only [exec, OptionT.run_bind, Option.elimM, StateT.run_bind]
  change (match StateT.run (OptionT.run m) s with
    | (x, s') => StateT.run (x.elim (Pure.pure none) fun x => (f x).run) s' : Option β × σ) = _
  rcases StateT.run (OptionT.run m) s with ⟨_ | a, s'⟩ <;> rfl

theorem Triple.pure (a : α) (h : ∀ s, inv s → pre s → post a s) : Triple inv pre (Pure.pure a) post := by
  intro s hi hp
  refine ⟨hi, ?_⟩
  intro b hb
  cases hb
  exact h s hi hp

theorem Triple.bind {f : α → Prog σ β} {q : α → σ → Prop} {post' : β → σ → Prop} (h : Triple inv pre m q)
    (h' : ∀ a, Triple inv (q a) (f a) post') : Triple inv pre (m >>= f) post' := by
  intro s hi hp
  obtain ⟨hi', hpost⟩ := h s hi hp
  rw [exec_bind]
  rcases hrun : m.exec s with ⟨_ | a, s'⟩
  · rw [hrun] at hi'
    exact ⟨hi', fun b hb => by cases hb⟩
  · rw [hrun] at hi' hpost
    exact h' a s' hi' (hpost a rfl)

theorem Triple.seq {n : Prog σ β} {q : σ → Prop} {post' : β → σ → Prop} {m : Prog σ Unit}
    (h : Triple inv pre m fun _ => q) (h' : Triple inv q n post') :
    Triple inv pre (m >>= fun _ => n) post' := h.bind fun _ => h'

theorem Triple.weaken (h : Triple inv pre m post) {post' : α → σ → Prop} (hpre : ∀ s, pre' s → pre s)
    (hpost : ∀ a s, post a s → post' a s) : Triple inv pre' m post' := by
  intro s hi hp
  obtain ⟨hi', hq⟩ := h s hi (hpre s hp)
  exact ⟨hi', fun a ha => hpost a _ (hq a ha)⟩

theorem Triple.fail : Triple inv pre (failure : Prog σ α) post := fun _ hi _ => ⟨hi, fun _ ha => by cases ha⟩

theorem Triple.ignore {m : Prog σ Unit} (h : Triple inv pre m fun _ _ => True) :
    Triple inv pre m.ignore fun _ _ => True := fun s hi hp => ⟨(h s hi hp).1, fun _ _ => trivial⟩

theorem Triple.followed {n : Prog σ Unit} (h : Triple inv pre m fun _ _ => True)
    (h' : Triple inv (fun _ => True) n fun _ _ => True) : Triple inv pre (m.followed n) fun _ _ => True := by
  intro s hi hp
  exact ⟨(h' _ (h s hi hp).1 trivial).1, fun _ _ => trivial⟩

theorem Triple.ite {c : Prop} [Decidable c] {n : Prog σ α} (h : c → Triple inv pre m post)
    (h' : ¬ c → Triple inv pre n post) : Triple inv pre (if c then m else n) post := by
  split
  next hc => exact h hc
  next hc => exact h' hc

/-- Partial correctness, with nothing said of a failure. -/
abbrev Post (pre : σ → Prop) (m : Prog σ α) (post : α → σ → Prop) : Prop := Triple (fun _ => True) pre m post

/-! ## Programs that do not fail -/

/-- The program returns, and keeps the invariant. -/
def Total (inv : σ → Prop) (m : Prog σ α) : Prop := ∀ s, inv s → ∃ a s', m.exec s = (some a, s') ∧ inv s'

theorem Total.pure (a : α) : Total inv (Pure.pure a : Prog σ α) := fun s hs => ⟨a, s, rfl, hs⟩

theorem Total.bind {f : α → Prog σ β} (h : Total inv m) (h' : ∀ a, Total inv (f a)) : Total inv (m >>= f) := by
  intro s hs
  obtain ⟨a, s', hm, hs'⟩ := h s hs
  obtain ⟨b, s'', hf, hs''⟩ := h' a s' hs'
  exact ⟨b, s'', by rw [exec_bind, hm]; exact hf, hs''⟩

theorem Total.act {f : σ → α} {g : σ → σ} (h : ∀ s, inv s → inv (g s)) : Total inv (Prog.act fun s => (some (f s), g s)) :=
  fun s hs => ⟨f s, g s, rfl, h s hs⟩

theorem Total.ite {c : Prop} [Decidable c] {n : Prog σ α} (h : Total inv m) (h' : Total inv n) :
    Total inv (if c then m else n) := by
  split
  · exact h
  · exact h'

theorem Total.ignore {m : Prog σ Unit} (h : Total inv m) : Total inv m.ignore := by
  intro s hs
  obtain ⟨a, s', hm, hs'⟩ := h s hs
  exact ⟨(), s', by rw [Prog.ignore, exec_act, hm], hs'⟩

end Prog

end Uboot.Lib
