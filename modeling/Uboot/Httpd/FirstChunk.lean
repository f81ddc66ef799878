import Uboot.Httpd.Request

/-!
# The start of the file

A segment is the part of the request from `k` on of length `m`. The start of the file is found when the delimiter and
the whole header of the part are in one segment.
-/

namespace Uboot.Httpd

open Uboot.Lib

namespace Request
variable {r : Request} {k m : Nat}

theorem WellFormed.eol2_at (h : r.WellFormed) : 4 ≤ r.part.length ∧ eol2 <+: r.bytes.drop (r.fileStart - 4) := by
  obtain ⟨t, ht⟩ := h.part_end
  have hlen : r.part.length = t.length + 4 := by
    rw [← ht, List.length_append]
    rfl
  refine ⟨by omega, ?_⟩
  have hpos : r.fileStart - 4 = r.header.length + r.delimiter.length + t.length := by
    rw [fileStart, hlen]
    omega
  rw [hpos, ← List.drop_drop, drop_part, ← ht, List.append_assoc, List.drop_left]
  exact List.prefix_append _ _

/-- A name in the header of the part is found. -/
theorem WellFormed.name_found (h : r.WellFormed) {name : List UInt8} {j : Nat} (hpos : 0 < name.length)
    (hj : name <+: r.part.drop j) (ys : List UInt8) (hE : r.fileStart ≤ r.header.length + m) :
    (strstr (slice r.bytes r.header.length m ++ 0 :: ys) name).isSome := by
  have hend : j + name.length ≤ r.part.length := by
    have hle := hj.length_le
    rw [List.length_drop] at hle
    omega
  have hocc : name <+: r.bytes.drop (r.header.length + r.delimiter.length + j) := by
    rw [← List.drop_drop, drop_part, List.drop_append_of_le_length (by omega)]
    exact hj.trans (List.prefix_append _ _)
  have hfs : r.fileStart = r.header.length + r.delimiter.length + r.part.length := rfl
  exact strstr_slice_isSome ys (by omega) (by omega) hocc (h.nul (by omega))

/-- The search for the field's name succeeds. -/
theorem WellFormed.fieldType_isSome (h : r.WellFormed) (ys : List UInt8) (hE : r.fileStart ≤ r.header.length + m) :
    ∃ type, fieldType (slice r.bytes r.header.length m ++ 0 :: ys) = some type := by
  obtain ⟨name, hname, j, hj⟩ := h.field
  have hpos : 0 < name.length := by
    have hall : ∀ n ∈ fieldNames, 0 < n.length := by decide
    exact hall name hname
  have hsome := h.name_found hpos hj ys hE
  unfold fieldType
  split
  next => exact ⟨_, rfl⟩
  split
  next => exact ⟨_, rfl⟩
  split
  next => exact ⟨_, rfl⟩
  split
  next => exact ⟨_, rfl⟩
  next h1 h2 h3 h4 =>
    simp only [fieldNames, List.mem_cons, List.not_mem_nil, or_false] at hname
    rcases hname with rfl | rfl | rfl | rfl
    · exact absurd hsome h1
    · exact absurd hsome h2
    · exact absurd hsome h3
    · exact absurd hsome h4

/-- The search finds the type of the upload. -/
theorem HasType.found {cut : Nat → Nat → Prop} {type : UpgradeType} (ht : r.HasType cut type) (h : r.WellFormed)
    (ys : List UInt8) (hcut : cut k m) (hk : k ≤ r.header.length) (hkm : r.fileStart ≤ k + m) :
    fieldType (slice r.bytes r.header.length (k + m - r.header.length) ++ 0 :: ys) = some type := by
  have hfs : r.fileStart = r.header.length + r.delimiter.length + r.part.length := rfl
  obtain ⟨len, hlen⟩ : ∃ len, len = k + m - r.header.length := ⟨_, rfl⟩
  have hE : r.fileStart ≤ r.header.length + len := by omega
  rw [← hlen]
  obtain ⟨name, hname, j, hj⟩ := ht.named
  have hnone : ∀ n ∈ searchedBefore type, n ≠ [] →
      (strstr (slice r.bytes r.header.length len ++ 0 :: ys) n).isSome = false := by
    intro n hn hne
    rw [strstr_slice_none ys hne fun p hp hend => ht.first k m hcut hk hkm n hn p hp (by omega)]
    rfl
  have hsome : 0 < name.length → (strstr (slice r.bytes r.header.length len ++ 0 :: ys) name).isSome = true :=
    fun hpos => h.name_found hpos hj ys hE
  cases type with
  | firmware =>
      cases hname
      rw [fieldType, hsome (by decide)]
      rfl
  | uboot =>
      cases hname
      rw [fieldType, hnone nameFirmware (by decide) (by decide), hsome (by decide)]
      rfl
  | art =>
      cases hname
      rw [fieldType, hnone nameFirmware (by decide) (by decide), hnone nameUboot (by decide) (by decide),
        hsome (by decide)]
      rfl
  | qsdkFirmware => cases hname
  | mibib =>
      cases hname
      rw [fieldType, hnone nameFirmware (by decide) (by decide), hnone nameUboot (by decide) (by decide),
        hnone nameArt (by decide) (by decide), hsome (by decide)]
      rfl

end Request

section
variable {r : Request} {k m : Nat} {ev : Event} {hs : HttpdState} {g : Globals}

/-- The file's size from the length of the body. -/
theorem Request.total_eq (r : Request) (hlt : r.body.length < 2 ^ 31) (hpart : 4 ≤ r.part.length) :
    (r.body.length + 3 * wordSize - (r.fileStart - 4 - r.header.length + 4) - r.delimiter.length - 6) % wordSize =
      r.file.length := by
  have hb := r.body_length
  have hfs : r.fileStart = r.header.length + r.delimiter.length + r.part.length := rfl
  have he : r.body.length + 3 * wordSize - (r.fileStart - 4 - r.header.length + 4) - r.delimiter.length - 6 =
      r.file.length + 3 * wordSize := by omega
  rw [he, Nat.add_mul_mod_self_right, Nat.mod_eq_of_lt]
  simp only [wordSize]
  omega

/-- The text from the delimiter on. -/
theorem text_from_delimiter (hm : k + m ≤ r.bytes.length) (hdata : ev.data = slice r.bytes k m)
    (hk : k ≤ r.header.length) (hd : r.header.length ≤ k + m) : ev.text.drop (r.header.length - k) =
      slice r.bytes r.header.length (k + m - r.header.length) ++ 0 :: ev.stale.drop 1 := by
  rw [Event.text, hdata, slice_append_drop _ hm (by omega), Nat.add_sub_cancel' hk,
    show m - (r.header.length - k) = k + m - r.header.length by omega]

theorem Request.WellFormed.delimiter_found (h : r.WellFormed) (hdata : ev.data = slice r.bytes k m)
    (hk : k ≤ r.header.length) (hd : r.header.length + r.delimiter.length ≤ k + m) :
    strstr ev.text r.delimiter = some (r.header.length - k) := by
  have hfs : r.fileStart = r.header.length + r.delimiter.length + r.part.length := rfl
  rw [Event.text, hdata]
  refine strstr_slice _ hk hd r.delimiter_prefix ?_ (h.nul (by omega))
  intro j hj hlt hocc
  rcases h.delimiter_only j hocc with he | he
  · omega
  · have := r.delimiter_length_pos
    omega

/-- The segment has the delimiter and the header of the part. -/
theorem findAndStore_found (h : r.WellFormed) (hm : k + m ≤ r.bytes.length) (hdata : ev.data = slice r.bytes k m)
    (hb : g.boundaryValue = some r.delimiter) (ht : hs.uploadTotal = r.body.length) (hk : k ≤ r.header.length)
    (hE : r.fileStart ≤ k + m) :
    ∃ type, fieldType (slice r.bytes r.header.length (k + m - r.header.length) ++ 0 :: ev.stale.drop 1) = some type ∧
      findAndStoreFirstChunk ev hs g =
        ({ hs with uploadTotal := r.file.length, upload := k + m - r.fileStart },
          { g with
            upgradeType := type
            uploadFailed := g.uploadFailed || sizeError type r.file.length
            mem := g.mem.write g.dataPointer (slice r.bytes r.fileStart (k + m - r.fileStart))
            dataPointer := g.dataPointer + (k + m - r.fileStart) }, true) := by
  have hfs : r.fileStart = r.header.length + r.delimiter.length + r.part.length := rfl
  obtain ⟨hpart, heol2⟩ := h.eol2_at
  obtain ⟨type, htype⟩ := h.fieldType_isSome (m := k + m - r.header.length) (ev.stale.drop 1) (by omega)
  have htext : ev.text = slice r.bytes k m ++ 0 :: ev.stale.drop 1 := by rw [Event.text, hdata]
  have hdrop := text_from_delimiter hm hdata hk (by omega)
  have hstart := h.delimiter_found hdata hk (by omega)
  have hend : strstr (ev.text.drop (r.header.length - k)) eol2 = some (r.fileStart - 4 - r.header.length) := by
    rw [hdrop]
    refine strstr_slice _ (by omega) ?_ heol2 (fun j hj hlt => h.part_first j hj (by omega)) (h.nul ?_)
    · change r.fileStart - 4 + 4 ≤ _
      omega
    · change r.fileStart - 4 + 4 ≤ _
      omega
  have hlen : ev.data.length = m := by rw [hdata, slice_length hm]
  have htotal := r.total_eq h.length_lt hpart
  have hstore : (ev.text.drop (r.fileStart - k)).take (k + m - r.fileStart) =
      slice r.bytes r.fileStart (k + m - r.fileStart) := by
    rw [htext, slice_append_drop _ hm (by omega), Nat.add_sub_cancel' (by omega),
      show m - (r.fileStart - k) = k + m - r.fileStart by omega]
    exact List.take_left' (slice_length (by omega))
  refine ⟨type, htype, ?_⟩
  rw [← hdrop] at htype
  simp only [findAndStoreFirstChunk, hb, hstart, htype, hend, ht, htotal, hlen]
  rw [if_pos (by omega), show r.header.length - k + (r.fileStart - 4 - r.header.length) + 4 = r.fileStart - k by omega,
    show m - (r.fileStart - k) = k + m - r.fileStart by omega, hstore]

/-- The delimiter and the header of the part are not both in the segment. -/
theorem findAndStore_missed (hs : HttpdState) (g : Globals) (h : r.WellFormed) (hm : k + m ≤ r.bytes.length) (hdata : ev.data = slice r.bytes k m)
    (hb : g.boundaryValue = some r.delimiter) (hmiss : r.header.length < k ∨ k + m < r.fileStart)
    (hshort : k + m < r.fileStart + r.file.length + r.delimiter.length) :
    ∃ type, findAndStoreFirstChunk ev hs g = (hs, { g with upgradeType := type }, false) := by
  have hfs : r.fileStart = r.header.length + r.delimiter.length + r.part.length := rfl
  have hpos := r.delimiter_length_pos
  have htext : ev.text = slice r.bytes k m ++ 0 :: ev.stale.drop 1 := by rw [Event.text, hdata]
  by_cases hin : k ≤ r.header.length ∧ r.header.length + r.delimiter.length ≤ k + m
  · obtain ⟨hk, hdl⟩ := hin
    have hstart := h.delimiter_found hdata hk hdl
    have hend : strstr (ev.text.drop (r.header.length - k)) eol2 = none := by
      rw [htext, slice_append_drop _ hm (by omega), Nat.add_sub_cancel' hk]
      refine strstr_slice_none _ (by decide) ?_
      intro p hp hle
      have hle' : p + 4 ≤ r.header.length + (m - (r.header.length - k)) := hle
      exact h.part_first p hp (by omega)
    cases htype : fieldType (ev.text.drop (r.header.length - k)) with
    | none => exact ⟨g.upgradeType, by simp only [findAndStoreFirstChunk, hb, hstart, htype]; rw [← hb]⟩
    | some type => exact ⟨type, by simp only [findAndStoreFirstChunk, hb, hstart, htype, hend]⟩
  · have hstart : strstr ev.text r.delimiter = none := by
      rw [htext]
      refine strstr_slice_none _ (List.length_pos_iff.mp hpos) ?_
      intro p hp hle hocc
      rcases h.delimiter_only p hocc with he | he <;> omega
    exact ⟨g.upgradeType, by simp only [findAndStoreFirstChunk, hb, hstart]; rw [← hb]⟩

end

end Uboot.Httpd
