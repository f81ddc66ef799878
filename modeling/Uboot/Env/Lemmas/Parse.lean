import Uboot.Env.Export
import Mathlib.Data.List.Perm.Basic
import Mathlib.Tactic.Linarith

/-!
# The parser reads what the exporter wrote

At every round the private copy is a part already parsed, of which nothing is read any more, followed by
the unchanged rest of the text. The unescaped value never overtakes the text it is read from.
-/

namespace Uboot.Env

/-! ## `qsort` permutes -/

section
variable {α : Type} (comp : α → α → Int)

theorem qsortSink_perm (wgap : Nat) : ∀ (fuel : Nat) (l : List α) (j : Nat),
    (qsortSink comp wgap fuel l j).Perm l := by
  intro fuel
  induction fuel with
  | zero => intro l j; exact List.Perm.refl l
  | succ fuel ih =>
      intro l j
      rw [qsortSink]
      split
      · split
        · exact List.Perm.refl l
        · split
          · exact (ih _ _).trans (List.swap_perm _ _ _)
          · exact List.swap_perm _ _ _
      · exact List.Perm.refl l

theorem qsortPass_perm (wgap : Nat) : ∀ (fuel : Nat) (l : List α) (i : Nat),
    (qsortPass comp wgap fuel l i).Perm l := by
  intro fuel
  induction fuel with
  | zero => intro l i; exact List.Perm.refl l
  | succ fuel ih =>
      intro l i
      simp only [qsortPass]
      split
      · exact (ih _ _).trans (qsortSink_perm comp wgap _ l i)
      · exact qsortSink_perm comp wgap _ l i

theorem qsortPasses_perm : ∀ (fuel : Nat) (l : List α) (wgap : Nat), (qsortPasses comp fuel l wgap).Perm l := by
  intro fuel
  induction fuel with
  | zero => intro l wgap; exact List.Perm.refl l
  | succ fuel ih =>
      intro l wgap
      simp only [qsortPasses]
      split
      · exact (ih _ _).trans (qsortPass_perm comp wgap _ l wgap)
      · exact qsortPass_perm comp wgap _ l wgap

theorem qsort_perm (l : List α) : (qsort comp l).Perm l := by
  unfold qsort
  split
  · exact qsortPasses_perm comp _ _ _
  · exact List.Perm.refl l

end

/-! ## Scanning -/

/-- A scan passes the bytes that meet the condition and stops at the first one that does not. -/
theorem skipWhile_spec {cond : UInt8 → Bool} {c : UInt8} (hc : cond c = false) (rest : List UInt8) :
    ∀ (s pre : List UInt8) (fuel : Nat), (∀ b ∈ s, cond b = true) → s.length < fuel →
      skipWhile cond (pre ++ s ++ c :: rest) fuel pre.length = some (pre.length + s.length) := by
  intro s
  induction s with
  | nil =>
      intro pre fuel _ hf
      cases fuel with
      | zero => omega
      | succ fuel => simp [skipWhile, hc]
  | cons b s ih =>
      intro pre fuel hs hf
      cases fuel with
      | zero => omega
      | succ fuel =>
          have hb : cond b = true := hs b (by simp)
          have hih := ih (pre ++ [b]) fuel (fun x hx => hs x (by simp [hx])) (by simpa using hf)
          simp only [List.length_append, List.length_cons, List.length_nil, List.append_assoc,
            List.cons_append, List.nil_append] at hih ⊢
          rw [skipWhile]
          simp only [List.getElem?_append_right (Nat.le_refl _), Nat.sub_self, List.getElem?_cons_zero, hb,
            if_true]
          rw [hih]
          congr 1
          omega

theorem cstrAt_spec {s : CStr} (hs : (0 : UInt8) ∉ s) (pre rest : List UInt8) :
    cstrAt (pre ++ s ++ 0 :: rest) pre.length = some s := by
  have hd : (pre ++ s ++ 0 :: rest).drop pre.length = s ++ 0 :: rest := by
    rw [List.append_assoc, List.drop_left]
  rw [cstrAt, hd, if_pos (by simp)]
  congr 1
  rw [List.takeWhile_append_of_pos]
  · simp
  · intro b hb
    have : b ≠ 0 := fun h => hs (h ▸ hb)
    simpa using this

theorem writeAt_spec (pre rest : List UInt8) (x b : UInt8) :
    writeAt (pre ++ x :: rest) pre.length b = some (pre ++ b :: rest) := by
  simp [writeAt, List.set_append_right]

/-! ## Values -/

/-- The bytes that stand for one byte of a value. -/
def escapeByte (sep c : UInt8) : List UInt8 := if c = sep ∨ c = 92 then [92, c] else [c]

theorem escape_cons (sep c : UInt8) (v : CStr) : escape sep (c :: v) = escapeByte sep c ++ escape sep v := rfl

theorem escapeByte_length (sep c : UInt8) : 1 ≤ (escapeByte sep c).length ∧ (escapeByte sep c).length ≤ 2 := by
  unfold escapeByte; split <;> simp

theorem escape_length (sep : UInt8) (v : CStr) : v.length ≤ (escape sep v).length := by
  induction v with
  | nil => simp [escape]
  | cons c v ih =>
      have := escapeByte_length sep c
      rw [escape_cons, List.length_append, List.length_cons]
      omega

/-- One round of the value loop: the byte is read at `dp` and written at `sp`, which is not behind it. -/
theorem parseValue_step {sep c : UInt8} (hsep : sep ≠ 92) (hc : c ≠ 0) (fuel : Nat)
    (done gap rest : List UInt8) :
    ∃ gap', gap'.length + 1 = gap.length + (escapeByte sep c).length ∧
      parseValue sep (fuel + 1) (done ++ gap ++ (escapeByte sep c ++ rest)) (done.length + gap.length)
        done.length =
      parseValue sep fuel (done ++ [c] ++ gap' ++ rest) (done.length + 1 + gap'.length) (done.length + 1) := by
  -- the first byte after `done` is overwritten, whether it is in the gap or the byte just read
  obtain ⟨g, gap', hg⟩ : ∃ g gap', gap ++ escapeByte sep c = g :: gap' := by
    cases hcase : gap ++ escapeByte sep c with
    | nil =>
        have hl := congrArg List.length hcase
        have := escapeByte_length sep c
        rw [List.length_append, List.length_nil] at hl
        omega
    | cons g gap' => exact ⟨g, gap', rfl⟩
  have hlen : gap'.length + 1 = gap.length + (escapeByte sep c).length := by
    have := congrArg List.length hg
    simp only [List.length_append, List.length_cons] at this
    omega
  refine ⟨gap', hlen, ?_⟩
  have hdata : done ++ gap ++ (escapeByte sep c ++ rest) = done ++ g :: (gap' ++ rest) := by
    rw [← List.append_assoc, List.append_assoc done, hg, List.append_assoc, List.cons_append]
  have hwrite : writeAt (done ++ gap ++ (escapeByte sep c ++ rest)) done.length c =
      some (done ++ [c] ++ gap' ++ rest) := by
    rw [hdata, writeAt_spec]; simp
  have hread : ∀ i, (done ++ gap ++ (escapeByte sep c ++ rest))[done.length + gap.length + i]? =
      (escapeByte sep c ++ rest)[i]? := by
    intro i
    rw [List.getElem?_append_right (by simp)]
    congr 1
    rw [List.length_append, Nat.add_sub_cancel_left]
  have hread0 := hread 0
  have hread1 := hread 1
  rw [Nat.add_zero] at hread0
  rw [parseValue]
  by_cases hesc : c = sep ∨ c = 92
  · have he : escapeByte sep c = [92, c] := if_pos hesc
    simp only [he, List.cons_append, List.nil_append, List.length_cons, List.length_nil,
      List.getElem?_cons_zero, List.getElem?_cons_succ] at *
    have hdp : done.length + gap.length + 1 + 1 = done.length + 1 + gap'.length := by omega
    have h92 : ¬ ((92 : UInt8) = 0 ∨ (92 : UInt8) = sep) := by
      rintro (h | h)
      · exact absurd h (by decide)
      · exact hsep h.symm
    simp only [hread0, hread1, Option.bind_eq_bind, Option.bind_some, h92, if_false, if_true, hc, ne_eq,
      not_false_eq_true, Option.map_some, hwrite, hdp]
  · have he : escapeByte sep c = [c] := if_neg hesc
    have hcs : ¬ (c = 0 ∨ c = sep) := by
      rintro (h | h)
      · exact hc h
      · exact hesc (Or.inl h)
    have h92 : c ≠ 92 := fun h => hesc (Or.inr h)
    simp only [he, List.cons_append, List.nil_append, List.length_cons, List.length_nil,
      List.getElem?_cons_zero] at *
    have hdp : done.length + gap.length + 1 = done.length + 1 + gap'.length := by omega
    simp only [hread0, Option.bind_eq_bind, Option.bind_some, hcs, if_false, h92, hwrite, hdp]

/-- The value loop leaves the unescaped value at the place where the escaped one began. -/
theorem parseValue_spec {sep : UInt8} (hsep : sep ≠ 92) (rest : List UInt8) :
    ∀ (v : CStr) (done gap : List UInt8) (fuel : Nat), (0 : UInt8) ∉ v → v.length < fuel →
      ∃ gap', gap'.length + v.length = gap.length + (escape sep v).length ∧
        parseValue sep fuel (done ++ gap ++ (escape sep v ++ sep :: rest)) (done.length + gap.length)
          done.length =
        some (done ++ v ++ gap' ++ sep :: rest, done.length + v.length + gap'.length,
          done.length + v.length) := by
  intro v
  induction v with
  | nil =>
      intro done gap fuel _ hf
      cases fuel with
      | zero => omega
      | succ fuel =>
          refine ⟨gap, by simp [escape], ?_⟩
          have hread : (done ++ gap ++ sep :: rest)[done.length + gap.length]? = some sep := by
            rw [List.getElem?_append_right (by simp)]; simp
          simp only [escape, List.flatMap_nil, List.nil_append, parseValue, hread, Option.bind_eq_bind,
            Option.bind_some, or_true, if_true, List.append_nil, List.length_nil, Nat.add_zero]
  | cons c v ih =>
      intro done gap fuel h0 hf
      cases fuel with
      | zero => omega
      | succ fuel =>
          have hc : c ≠ 0 := fun h => h0 (by simp [h])
          obtain ⟨gap₁, hlen₁, hstep⟩ :=
            parseValue_step hsep hc fuel done gap (escape sep v ++ sep :: rest)
          obtain ⟨gap₂, hlen₂, hloop⟩ := ih (done ++ [c]) gap₁ fuel (fun h => h0 (by simp [h]))
            (by simpa using hf)
          refine ⟨gap₂, ?_, ?_⟩
          · rw [escape_cons, List.length_append, List.length_cons]; omega
          · simp only [List.length_append, List.length_cons, List.length_nil, Nat.zero_add] at hloop
            rw [escape_cons, List.append_assoc (escapeByte sep c), hstep, hloop]
            simp [Nat.add_comm, Nat.add_left_comm]

end Uboot.Env
