import Uboot.Env.Lemmas.Parse

/-!
# The two passes of `hexport_r`

Pass 1 counts two bytes more for an entry than pass 2 writes. It leaves out the escapes when the separator is NUL, but
pass 2 escapes backslashes then, too.
-/

namespace Uboot.Env

/-- What pass 2 writes fits into the buffer: into `size` bytes, or into those that are allocated for size 0. -/
def ExportFits (t : HTab) (sep : UInt8) (size : Nat) (argv : List CStr) : Prop :=
  ∀ n out, hexportR t sep true size argv = some (n, out) →
    out.length ≤ if size = 0 then exportTotlen sep (exportList t argv) + 1 else size

/-- Four bytes for each entry besides its name and value. -/
def plainLen (list : List (CStr × CStr)) : Nat := (list.map fun e => e.1.length + e.2.length + 4).sum

/-- The backslashes in the values. -/
def backslashes (list : List (CStr × CStr)) : Nat := (list.map fun e => e.2.count 92).sum

/-! ## The lengths -/

section
variable {sep : UInt8}

theorem escape_length_eq_valueLen (hsep : sep ≠ 0) (v : CStr) : (escape sep v).length = valueLen sep v := by
  rw [valueLen, if_neg hsep, escape, List.length_flatMap]
  congr 1
  refine List.map_congr_left fun c _ => ?_
  split <;> rfl

theorem escape_zero_length {v : CStr} (hv : (0 : UInt8) ∉ v) : (escape 0 v).length = v.length + v.count 92 := by
  induction v with
  | nil => rfl
  | cons c v ih =>
    obtain ⟨hc, hv⟩ := not_or.mp (mt List.mem_cons.mpr hv)
    have hlen : (escapeByte 0 c).length = 1 + if c = 92 then 1 else 0 := by
      rw [escapeByte]
      by_cases h92 : c = 92
      · simp [h92]
      · simp [h92, Ne.symm hc]
    rw [escape_cons, List.length_append, ih hv, hlen, List.length_cons, List.count_cons]
    simp only [beq_iff_eq]
    omega

theorem exportEntry_length (sep : UInt8) (e : CStr × CStr) :
    (exportEntry sep e).length = e.1.length + (escape sep e.2).length + 2 := by
  simp only [exportEntry, List.length_append, List.length_cons, List.length_nil]
  omega

/-- With escapes counted, two bytes of each entry are not written. -/
theorem written_of_sep (hsep : sep ≠ 0) (list : List (CStr × CStr)) :
    (list.flatMap (exportEntry sep)).length + 2 * list.length = exportTotlen sep list := by
  induction list with
  | nil => rfl
  | cons e list ih =>
    simp only [exportTotlen, List.flatMap_cons, List.length_append, List.length_cons, List.map_cons, List.sum_cons,
      exportEntry_length, escape_length_eq_valueLen hsep] at ih ⊢
    omega

/-- Without, each backslash takes one of them. -/
theorem written_of_nul {list : List (CStr × CStr)} (hok : ∀ e ∈ list, (0 : UInt8) ∉ e.2) :
    (list.flatMap (exportEntry 0)).length + 2 * list.length = plainLen list + backslashes list := by
  induction list with
  | nil => rfl
  | cons e list ih =>
    have hih := ih fun e he => hok e (List.mem_cons_of_mem _ he)
    simp only [plainLen, backslashes, List.flatMap_cons, List.length_append, List.length_cons, List.map_cons,
      List.sum_cons, exportEntry_length, escape_zero_length (hok e List.mem_cons_self)] at hih ⊢
    omega

theorem exportTotlen_nul (list : List (CStr × CStr)) : exportTotlen 0 list = plainLen list := by
  simp only [exportTotlen, plainLen, valueLen, if_true]
  congr 1
  exact List.map_congr_left fun e _ => by omega

end

/-! ## The buffer -/

/-- Sorting changes no length. -/
theorem exportBytes_length (sep : UInt8) (list : List (CStr × CStr)) :
    (exportBytes sep (qsort cmpkey list)).length = (list.flatMap (exportEntry sep)).length + 1 := by
  have hperm : (qsort cmpkey list).Perm list := qsort_perm _ _
  rw [exportBytes, List.length_append, List.length_singleton, (hperm.flatMap_right (exportEntry sep)).length_eq]

/-- The buffer is large enough for every separator but NUL. With NUL, the backslashes must fit into the two spare bytes of
each entry and into what the buffer has beyond the computed length. -/
theorem export_fits_iff {t : HTab} {argv : List CStr} (hok : ∀ e ∈ exportList t argv, (0 : UInt8) ∉ e.2) (sep : UInt8)
    (size : Nat) :
    ExportFits t sep size argv ↔ sep ≠ 0 ∨ (size ≠ 0 ∧ size < plainLen (exportList t argv) + 1) ∨
      backslashes (exportList t argv) ≤
        2 * (exportList t argv).length + (size - (plainLen (exportList t argv) + 1)) := by
  have hlen := exportBytes_length sep (exportList t argv)
  have hout : ∀ n out, hexportR t sep true size argv = some (n, out) ↔
      ¬ (size ≠ 0 ∧ size < exportTotlen sep (exportList t argv) + 1) ∧
        (if size ≠ 0 then size else exportTotlen sep (exportList t argv) + 1) = n ∧
        exportBytes sep (qsort cmpkey (exportList t argv)) = out := by
    intro n out
    by_cases h : size ≠ 0 ∧ size < exportTotlen sep (exportList t argv) + 1
    · simp only [hexportR, if_pos h]
      exact iff_of_false (by simp) (fun hn => hn.1 h)
    · simp only [hexportR, if_neg h, if_true, Option.some.injEq, Prod.mk.injEq]
      exact (and_iff_right h).symm
  simp only [ExportFits, hout]
  by_cases hsep : sep = 0
  · subst hsep
    have hwrite := written_of_nul hok
    rw [exportTotlen_nul]
    constructor
    · intro h
      by_cases hsmall : size ≠ 0 ∧ size < plainLen (exportList t argv) + 1
      · exact .inr (.inl hsmall)
      · have := h _ _ ⟨hsmall, rfl, rfl⟩
        rw [hlen] at this
        split at this <;> omega
    · rintro h n out ⟨hlarge, -, rfl⟩
      have hfew := h.resolve_left (fun hne => hne rfl)
      rw [hlen]
      split <;> omega
  · have hwrite := written_of_sep hsep (exportList t argv)
    refine iff_of_true ?_ (.inl hsep)
    rintro n out ⟨hlarge, -, rfl⟩
    rw [hlen]
    split <;> omega

/-- A table with one variable `a`. -/
def oneEntry (v : CStr) : HTab := ⟨fun i => if i = 1 then ⟨1, some [97], some v⟩ else ⟨0, none, none⟩, 1, 1⟩

/-- Two backslashes fit. -/
theorem export_fits_example : ExportFits (oneEntry [92, 92]) 0 0 [] := by
  refine (export_fits_iff ?_ 0 0).mpr (.inr (.inr ?_))
  · decide
  · decide

/-- The third backslash is written behind the computed length, whether the buffer is allocated or just large enough. -/
theorem export_overruns : ¬ ExportFits (oneEntry [92, 92, 92]) 0 0 [] ∧ ¬ ExportFits (oneEntry [92, 92, 92]) 0 9 [] := by
  constructor
  · intro h
    exact absurd (h 9 _ rfl) (by decide)
  · intro h
    exact absurd (h 9 _ rfl) (by decide)

end Uboot.Env
