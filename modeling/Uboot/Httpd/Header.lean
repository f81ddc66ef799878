import Uboot.Httpd.FirstChunk

/-!
# The header of an upload

The first segment begins an upload when it has the line with the length and the line with the boundary. Otherwise the
connection is aborted, unless the segment ends right after `Content-Length:`, where the length is read behind its end.
-/

namespace Uboot.Httpd

open Uboot.Lib

/-! ## Lines and numbers -/

section
variable {xs w t : List UInt8} {s m j : Nat}

theorem not_eol_prefix (hcr : 13 ∉ w) (hj : j < w.length) (t : List UInt8) : ¬ eol <+: (w ++ t).drop j := by
  intro hpre
  rw [List.drop_append_of_le_length hj.le, List.drop_eq_getElem_cons hj, List.cons_append] at hpre
  have hhead : (13 : UInt8) = w[j] := (List.cons_prefix_cons.mp hpre).1
  exact hcr (hhead ▸ List.getElem_mem hj)

theorem not_eol_at (hdrop : xs.drop s = w ++ (eol ++ t)) (hcr : 13 ∉ w) (hs : s ≤ j) (hj : j < s + w.length) :
    ¬ eol <+: xs.drop j := by
  have he : xs.drop j = (w ++ (eol ++ t)).drop (j - s) := by rw [← hdrop, List.drop_drop, Nat.add_sub_cancel' hs]
  rw [he]
  exact not_eol_prefix hcr (by omega) _

/-- The end of a line is in the text. -/
theorem strstr_line (ys : List UInt8) (hdrop : xs.drop s = w ++ (eol ++ t)) (hcr : 13 ∉ w)
    (hnul : ∀ x ∈ xs.take (s + w.length + 2), x ≠ 0) (hm : w.length + 2 ≤ m) :
    strstr (slice xs s m ++ 0 :: ys) eol = some w.length := by
  have hocc : eol <+: xs.drop (s + w.length) := by
    rw [← List.drop_drop, hdrop, List.drop_left]
    exact List.prefix_append _ _
  have hend : s + w.length + eol.length ≤ s + m := by
    change s + w.length + 2 ≤ s + m
    omega
  have hfind := strstr_slice ys (Nat.le_add_right s w.length) hend hocc
    (fun j hs hj => not_eol_at hdrop hcr hs hj) hnul
  rwa [Nat.add_sub_cancel_left] at hfind

theorem strstr_line_none (ys : List UInt8) (hdrop : xs.drop s = w ++ (eol ++ t)) (hcr : 13 ∉ w)
    (hm : m < w.length + 2) : strstr (slice xs s m ++ 0 :: ys) eol = none := by
  refine strstr_slice_none ys (by decide) ?_
  intro p hp hle
  have hle' : p + 2 ≤ s + m := hle
  exact not_eol_at hdrop hcr hp (by omega)

theorem le_foldl_decimal (digits : List UInt8) (n : Nat) :
    n ≤ digits.foldl (fun n c => n * 10 + (c.toNat - 48)) n := by
  induction digits generalizing n with
  | nil => exact le_refl n
  | cons c digits ih => exact le_trans (by omega) (ih (n * 10 + (c.toNat - 48)))

theorem foldl_atoi (digits : List UInt8) (n : Nat)
    (h : digits.foldl (fun n c => n * 10 + (c.toNat - 48)) n < wordSize) :
    digits.foldl (fun i c => (i * 10 + (c.toNat - 48)) % wordSize) n =
      digits.foldl (fun n c => n * 10 + (c.toNat - 48)) n := by
  induction digits generalizing n with
  | nil => rfl
  | cons c digits ih =>
      have hle := le_foldl_decimal digits (n * 10 + (c.toNat - 48))
      simp only [List.foldl_cons] at h ⊢
      rw [Nat.mod_eq_of_lt (by omega)]
      exact ih _ h

/-- `atoi` reads a number that ends its line. -/
theorem atoi_line {digits : List UInt8} (hdigit : ∀ c ∈ digits, isDigit c) (hlt : decimalValue digits < wordSize)
    (rest : List UInt8) : atoi (digits ++ 13 :: rest) = decimalValue digits := by
  have htake : (digits ++ 13 :: rest).takeWhile isDigit = digits := by
    rw [List.takeWhile_append_of_pos hdigit, List.takeWhile_cons_of_neg (by decide), List.append_nil]
  rw [atoi, htake]
  exact foldl_atoi digits 0 hlt

end

/-! ## The two lines of the header -/

namespace Request
variable {r : Request} {pre digits : List UInt8}

theorem HasLength.occurs (h : r.HasLength pre digits) : contentLength <+: r.bytes.drop pre.length := by
  have heq := h.header_eq
  rw [List.append_assoc, List.append_assoc] at heq
  exact (List.prefix_append _ _).trans (prefix_bytes heq)

theorem HasLength.digits_at (h : r.HasLength pre digits) :
    ∃ t, r.bytes.drop (pre.length + 16) = digits ++ (eol ++ t) := by
  obtain ⟨t, ht⟩ := prefix_bytes h.header_eq
  refine ⟨t, ?_⟩
  have hlen : (pre ++ contentLength ++ [32]).length = pre.length + 16 := by
    simp only [List.length_append]
    rfl
  rw [← hlen, ← ht, List.append_assoc]

theorem HasLength.length_le (h : r.HasLength pre digits) : pre.length + 16 + digits.length + 2 ≤ r.header.length := by
  have hle := h.header_eq.length_le
  simp only [List.length_append] at hle
  exact hle

theorem HasBoundary.occurs (h : r.HasBoundary pre) : boundaryEq <+: r.bytes.drop pre.length := by
  have heq := h.header_eq
  rw [List.append_assoc] at heq
  exact (List.prefix_append _ _).trans (prefix_bytes heq)

theorem HasBoundary.boundary_at (h : r.HasBoundary pre) :
    ∃ t, r.bytes.drop (pre.length + 9) = r.boundary ++ (eol ++ t) := by
  obtain ⟨t, ht⟩ := prefix_bytes h.header_eq
  refine ⟨t, ?_⟩
  have hlen : (pre ++ boundaryEq).length = pre.length + 9 := by
    simp only [List.length_append]
    rfl
  rw [← hlen, ← ht, List.append_assoc]

theorem HasBoundary.length_le (h : r.HasBoundary pre) : pre.length + 9 + r.boundary.length + 2 ≤ r.header.length := by
  have hle := h.header_eq.length_le
  simp only [List.length_append] at hle
  exact hle

end Request

/-! ## The first segment -/

section
variable {r : Request} {m : Nat} {ev : Event} {hs : HttpdState} {g : Globals}

theorem text_drop (hm : m ≤ r.bytes.length) (hdata : ev.data = slice r.bytes 0 m) {s : Nat} (hs : s ≤ m) :
    ev.text.drop s = slice r.bytes s (m - s) ++ 0 :: ev.stale.drop 1 := by
  rw [Event.text, hdata, slice_append_drop _ (by omega) hs, Nat.zero_add]

/-- The length is found, with its line, or the connection is aborted. -/
theorem beginUpload_length (h : r.WellFormed) (hm : m ≤ r.bytes.length) (hdata : ev.data = slice r.bytes 0 m)
    (hlast : ¬ contentLength <:+ ev.data) :
    beginUpload ev hs g = resetAnd .abort hs g ∨
      ∃ start n, strstr ev.text contentLength = some start ∧
        strstr (ev.text.drop (start + contentLength.length + 1)) eol = some n ∧
        atoi (ev.text.drop (start + contentLength.length + 1)) = r.body.length := by
  obtain ⟨pre, digits, hl⟩ := h.length
  have hle := hl.length_le
  have hfs : r.fileStart = r.header.length + r.delimiter.length + r.part.length := rfl
  have htext : ev.text = slice r.bytes 0 m ++ 0 :: ev.stale.drop 1 := by rw [Event.text, hdata]
  by_cases hfound : pre.length + 15 ≤ m
  · have hstart : strstr ev.text contentLength = some pre.length := by
      rw [htext]
      have hend : pre.length + contentLength.length ≤ 0 + m := by
        change pre.length + 15 ≤ 0 + m
        omega
      have hnul := h.nul (n := pre.length + contentLength.length)
        (by change pre.length + 15 ≤ r.fileStart; omega)
      exact strstr_slice _ (Nat.zero_le _) hend hl.occurs (fun j _ hj => hl.first j hj) hnul
    -- the segment does not end here
    have hmore : pre.length + 16 ≤ m := by
      by_contra hno
      have hm15 : m = pre.length + 15 := by omega
      apply hlast
      rw [hdata, slice, List.drop_zero, hm15]
      have htake : r.bytes.take (pre.length + 15) = r.bytes.take pre.length ++ contentLength := by
        rw [List.take_add]
        exact congrArg _ (List.prefix_iff_eq_take.mp hl.occurs).symm
      rw [htake]
      exact List.suffix_append _ _
    obtain ⟨t, ht⟩ := hl.digits_at
    have hcr : 13 ∉ digits := by
      intro hmem
      have hd := hl.digit 13 hmem
      exact absurd hd (by decide)
    have hdrop : ev.text.drop (pre.length + contentLength.length + 1) =
        slice r.bytes (pre.length + 16) (m - (pre.length + 16)) ++ 0 :: ev.stale.drop 1 := text_drop hm hdata hmore
    by_cases hline : digits.length + 2 ≤ m - (pre.length + 16)
    · right
      refine ⟨pre.length, digits.length, hstart, ?_, ?_⟩
      · rw [hdrop]
        exact strstr_line _ ht hcr (h.nul (by omega)) hline
      · have hval : decimalValue digits < wordSize := by
          rw [hl.value]
          exact h.length_lt.trans (by decide)
        obtain ⟨u, hu⟩ : ∃ u, slice r.bytes (pre.length + 16) (m - (pre.length + 16)) = digits ++ 13 :: u := by
          have hpre : digits ++ [13] <+: slice r.bytes (pre.length + 16) (m - (pre.length + 16)) := by
            rw [slice, List.prefix_take_iff, ht]
            refine ⟨⟨10 :: t, by simp [eol, ascii]⟩, ?_⟩
            rw [List.length_append, List.length_singleton]
            omega
          obtain ⟨u, hu⟩ := hpre
          exact ⟨u, by rw [← hu, List.append_assoc]; rfl⟩
        rw [hdrop, hu, List.append_assoc, List.cons_append, atoi_line hl.digit hval, hl.value]
    · left
      have hnone : strstr (ev.text.drop (pre.length + contentLength.length + 1)) eol = none := by
        rw [hdrop]
        exact strstr_line_none _ ht hcr (by omega)
      simp only [beginUpload, hstart, hnone]
  · left
    have hnone : strstr ev.text contentLength = none := by
      rw [htext]
      refine strstr_slice_none _ (by decide) ?_
      intro p _ hp
      have hp' : p + 15 ≤ 0 + m := hp
      exact hl.first p (by omega)
    simp only [beginUpload, hnone]

/-- The boundary is found, with its line, or the connection is aborted. -/
theorem beginUpload_cases (h : r.WellFormed) (hm : m ≤ r.bytes.length) (hdata : ev.data = slice r.bytes 0 m)
    (hlast : ¬ contentLength <:+ ev.data) :
    beginUpload ev hs g = resetAnd .abort hs g ∨
      (10240 ≤ r.body.length ∧ r.delimiter.length ≤ m ∧
        ∃ hs' g' found, findAndStoreFirstChunk ev { hs with uploadTotal := r.body.length }
          { g with boundaryValue := some r.delimiter, dataPointer := uploadRamAddress } = (hs', g', found) ∧
        beginUpload ev hs g = ⟨hs', { g' with dataStartFound := found }, .none⟩) := by
  rcases beginUpload_length h hm hdata hlast with habort | ⟨start, n, hstart, hn, htotal⟩
  · exact Or.inl habort
  obtain ⟨pre, hb⟩ := h.boundary
  have hle := hb.length_le
  have hfs : r.fileStart = r.header.length + r.delimiter.length + r.part.length := rfl
  have htext : ev.text = slice r.bytes 0 m ++ 0 :: ev.stale.drop 1 := by rw [Event.text, hdata]
  by_cases hsmall : r.body.length < 10240
  · left
    simp only [beginUpload, hstart, hn, htotal, if_pos hsmall]
    rfl
  by_cases hfound : pre.length + 9 ≤ m
  · have hbound : strstr ev.text boundaryEq = some pre.length := by
      rw [htext]
      have hend : pre.length + boundaryEq.length ≤ 0 + m := by
        change pre.length + 9 ≤ 0 + m
        omega
      have hnul := h.nul (n := pre.length + boundaryEq.length) (by change pre.length + 9 ≤ r.fileStart; omega)
      exact strstr_slice _ (Nat.zero_le _) hend hb.occurs (fun j _ hj => hb.first j hj) hnul
    obtain ⟨t, ht⟩ := hb.boundary_at
    have hdrop : ev.text.drop (pre.length + boundaryEq.length) =
        slice r.bytes (pre.length + 9) (m - (pre.length + 9)) ++ 0 :: ev.stale.drop 1 := text_drop hm hdata hfound
    by_cases hline : r.boundary.length + 2 ≤ m - (pre.length + 9)
    · have hend : strstr (ev.text.drop (pre.length + boundaryEq.length)) eol = some r.boundary.length := by
        rw [hdrop]
        exact strstr_line _ ht hb.no_cr (h.nul (by omega)) hline
      have hvalue : (ev.text.drop (pre.length + boundaryEq.length)).take r.boundary.length = r.boundary := by
        rw [hdrop, List.take_append_of_le_length (by rw [slice_length (by omega)]; omega), slice, List.take_take,
          Nat.min_eq_left (by omega), ht, List.take_left]
      by_cases hok : ev.mallocOk = true
      · right
        refine ⟨by omega, ?_, ?_⟩
        · rw [Request.delimiter, List.length_append]
          change 2 + r.boundary.length ≤ m
          omega
        · refine ⟨_, _, _, rfl, ?_⟩
          simp only [beginUpload, hstart, hn, htotal, if_neg hsmall, hbound, hend, hvalue, if_pos hok]
          rfl
      · left
        simp only [beginUpload, hstart, hn, htotal, if_neg hsmall, hbound, hend, if_neg hok]
        rfl
    · left
      have hnone : strstr (ev.text.drop (pre.length + boundaryEq.length)) eol = none := by
        rw [hdrop]
        exact strstr_line_none _ ht hb.no_cr (by omega)
      simp only [beginUpload, hstart, hn, htotal, if_neg hsmall, hbound, hnone]
      rfl
  · left
    have hnone : strstr ev.text boundaryEq = none := by
      rw [htext]
      refine strstr_slice_none _ (by decide) ?_
      intro p _ hp
      have hp' : p + 9 ≤ 0 + m := hp
      exact hb.first p (by omega)
    simp only [beginUpload, hstart, hn, htotal, if_neg hsmall, hnone]
    rfl

end

end Uboot.Httpd
