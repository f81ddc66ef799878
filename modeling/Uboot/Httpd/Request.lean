import Uboot.Httpd.Basic

/-!
# A form with one file

The request of an upload, as a browser sends it: a header with the length and the boundary, and a body with one part.
-/

namespace Uboot.Httpd

open Uboot.Lib

/-- `UIP_BUFSIZE` -/
def uipBufsize : Nat := 1500

/-- The value of a decimal number. -/
def decimalValue (digits : List UInt8) : Nat := digits.foldl (fun n c => n * 10 + (c.toNat - 48)) 0

structure Request where
  header : List UInt8
  boundary : List UInt8
  /-- the rest of the delimiter's line and the header of the part, with its empty line -/
  part : List UInt8
  file : List UInt8

namespace Request

def delimiter (r : Request) : List UInt8 := ascii "--" ++ r.boundary

def body (r : Request) : List UInt8 :=
  r.delimiter ++ r.part ++ r.file ++ (eol ++ r.delimiter ++ ascii "--" ++ eol)

def bytes (r : Request) : List UInt8 := r.header ++ r.body

/-- Where the file begins. -/
def fileStart (r : Request) : Nat := r.header.length + r.delimiter.length + r.part.length

/-- A number after `Content-Length:`; it is the first one. -/
structure HasLength (r : Request) (pre digits : List UInt8) : Prop where
  header_eq : pre ++ contentLength ++ [32] ++ digits ++ eol <+: r.header
  digit : ∀ c ∈ digits, isDigit c
  value : decimalValue digits = r.body.length
  first : ∀ j < pre.length, ¬ contentLength <+: r.bytes.drop j

/-- The boundary ends its line. -/
structure HasBoundary (r : Request) (pre : List UInt8) : Prop where
  header_eq : pre ++ boundaryEq ++ r.boundary ++ eol <+: r.header
  no_cr : 13 ∉ r.boundary
  first : ∀ j < pre.length, ¬ boundaryEq <+: r.bytes.drop j

/-- A command, not an upload. -/
def IsCommand (s : List UInt8) : Prop :=
  ascii "POST /macrw" <+: s ∨ ascii "POST /setenv" <+: s ∨ ascii "POST /reset" <+: s

/-- The names that `httpd_findandstore_firstchunk` looks for. -/
def fieldNames : List (List UInt8) := [nameFirmware, nameUboot, nameArt, nameMibib]

structure WellFormed (r : Request) : Prop where
  post : ascii "POST " <+: r.header
  upload_url : ¬ IsCommand r.header
  header_nul : ∀ x ∈ r.header, x ≠ 0
  part_nul : ∀ x ∈ r.part, x ≠ 0
  length : ∃ pre digits, r.HasLength pre digits
  length_lt : r.body.length < 2 ^ 31
  boundary : ∃ pre, r.HasBoundary pre
  /-- the delimiter begins and ends the body and is nowhere else -/
  delimiter_only : ∀ j, r.delimiter <+: r.bytes.drop j →
    j = r.header.length ∨ r.fileStart + r.file.length ≤ j
  field : ∃ name ∈ fieldNames, ∃ j, name <+: r.part.drop j
  part_end : eol2 <:+ r.part
  part_first : ∀ j, r.header.length ≤ j → j + 4 < r.fileStart → ¬ eol2 <+: r.bytes.drop j

/-- The name of the field for a type. -/
def fieldName : UpgradeType → Option (List UInt8)
  | .firmware => some nameFirmware
  | .uboot => some nameUboot
  | .art => some nameArt
  | .qsdkFirmware => none
  | .mibib => some nameMibib

/-- The names that are looked for before it. -/
def searchedBefore : UpgradeType → List (List UInt8)
  | .firmware => []
  | .uboot => [nameFirmware]
  | .art => [nameFirmware, nameUboot]
  | .qsdkFirmware => []
  | .mibib => [nameFirmware, nameUboot, nameArt]

/-- The type of the upload, where `cut k m` says that a segment has the bytes from `k` to `k + m`: no name that is looked
for before is in the body as far as the segment with the header of the part goes. -/
structure HasType (r : Request) (cut : Nat → Nat → Prop) (type : UpgradeType) : Prop where
  named : ∃ name, fieldName type = some name ∧ ∃ j, name <+: r.part.drop j
  first : ∀ k m, cut k m → k ≤ r.header.length → r.fileStart ≤ k + m → ∀ name ∈ searchedBefore type,
    ∀ j, r.header.length ≤ j → j + name.length ≤ k + m → ¬ name <+: r.bytes.drop j

/-! ## Positions -/

variable {r : Request}

theorem body_length (r : Request) :
    r.body.length = r.delimiter.length + r.part.length + r.file.length + r.delimiter.length + 6 := by
  simp only [body, List.length_append, eol, ascii]
  simp
  omega

theorem bytes_length (r : Request) : r.bytes.length = r.fileStart + r.file.length + r.delimiter.length + 6 := by
  rw [bytes, List.length_append, body_length, fileStart]
  omega

theorem delimiter_length_pos (r : Request) : 0 < r.delimiter.length := by
  simp [delimiter, ascii]

theorem drop_header (r : Request) : r.bytes.drop r.header.length = r.body := by
  rw [bytes, List.drop_left]

theorem delimiter_prefix (r : Request) : r.delimiter <+: r.bytes.drop r.header.length := by
  rw [drop_header, body, List.append_assoc, List.append_assoc]
  exact List.prefix_append _ _

theorem drop_part (r : Request) : r.bytes.drop (r.header.length + r.delimiter.length) =
    r.part ++ (r.file ++ (eol ++ r.delimiter ++ ascii "--" ++ eol)) := by
  rw [← List.drop_drop, drop_header, body, List.append_assoc, List.append_assoc, List.drop_left]

theorem drop_fileStart (r : Request) :
    r.bytes.drop r.fileStart = r.file ++ (eol ++ r.delimiter ++ ascii "--" ++ eol) := by
  rw [fileStart, ← List.drop_drop, drop_part, List.drop_left]

/-- The file is what is stored first. -/
theorem slice_file (r : Request) : slice r.bytes r.fileStart r.file.length = r.file := by
  rw [slice, drop_fileStart, List.take_left]

theorem take_fileStart (r : Request) : r.bytes.take r.fileStart = r.header ++ r.delimiter ++ r.part := by
  have happ : r.bytes = (r.header ++ r.delimiter ++ r.part) ++
      (r.file ++ (eol ++ r.delimiter ++ ascii "--" ++ eol)) := by
    simp only [bytes, body, List.append_assoc]
  have hlen : r.fileStart = (r.header ++ r.delimiter ++ r.part).length := by
    simp only [fileStart, List.length_append]
  rw [happ, hlen, List.take_left]

/-- There is no NUL before the file. -/
theorem WellFormed.nul (h : r.WellFormed) {n : Nat} (hn : n ≤ r.fileStart) : ∀ x ∈ r.bytes.take n, x ≠ 0 := by
  intro x hx
  have hx' : x ∈ r.bytes.take r.fileStart := (List.take_prefix_take_left hn).subset hx
  rw [take_fileStart] at hx'
  simp only [List.mem_append, delimiter] at hx'
  rcases hx' with (hx' | hx' | hx') | hx'
  · exact h.header_nul x hx'
  · have hdash : ∀ y ∈ ascii "--", y ≠ 0 := forall_ne_of_all (by decide)
    exact hdash x hx'
  · obtain ⟨pre, hb⟩ := h.boundary
    exact h.header_nul x (hb.header_eq.subset (by simp [hx']))
  · exact h.part_nul x hx'

/-- A pattern in the header is a pattern in the request. -/
theorem prefix_bytes {pre pat rest : List UInt8} (h : pre ++ pat ++ rest <+: r.header) :
    pat ++ rest <+: r.bytes.drop pre.length := by
  obtain ⟨t, ht⟩ := h
  rw [bytes, ← ht, List.append_assoc, List.append_assoc, List.append_assoc, List.drop_left, ← List.append_assoc]
  exact List.prefix_append _ _

end Request

/-! ## An example -/

def sampleHeader : List UInt8 :=
  [80, 79, 83, 84, 32, 47, 32, 72, 84, 84, 80, 47, 49, 46, 49, 13, 10, 67, 111, 110, 116, 101, 110, 116, 45, 84,
    121, 112, 101, 58, 32, 109, 117, 108, 116, 105, 112, 97, 114, 116, 47, 102, 111, 114, 109, 45, 100, 97, 116,
    97, 59, 32, 98, 111, 117, 110, 100, 97, 114, 121, 61, 88, 89, 13, 10, 67, 111, 110, 116, 101, 110, 116, 45,
    76, 101, 110, 103, 116, 104, 58, 32, 49, 48, 51, 48, 48, 13, 10, 13, 10]

example : sampleHeader =
    ascii "POST / HTTP/1.1\r\nContent-Type: multipart/form-data; boundary=XY\r\nContent-Length: 10300\r\n\r\n" := by
  decide

def samplePart : List UInt8 :=
  [13, 10, 67, 111, 110, 116, 101, 110, 116, 45, 68, 105, 115, 112, 111, 115, 105, 116, 105, 111, 110, 58, 32,
    102, 111, 114, 109, 45, 100, 97, 116, 97, 59, 32, 110, 97, 109, 101, 61, 34, 102, 105, 114, 109, 119, 97,
    114, 101, 34, 13, 10, 13, 10]

example : samplePart = ascii "\r\nContent-Disposition: form-data; name=\"firmware\"\r\n\r\n" := by
  decide

/-- A firmware of 10233 equal bytes. -/
def sampleForm (fill : UInt8) : Request := ⟨sampleHeader, ascii "XY", samplePart, List.replicate 10233 fill⟩

/-- A form with the header of the example, any part, and a file of equal bytes. -/
def formOf (part : List UInt8) (n : Nat) (fill : UInt8) : Request := ⟨sampleHeader, ascii "XY", part, List.replicate n fill⟩

/-- What comes before the file. -/
def frontOf (part : List UInt8) : List UInt8 := sampleHeader ++ ascii "--XY" ++ part

/-- The parts for which `formOf` is a form: the delimiter and the empty line are where they belong. -/
structure GoodPart (part : List UInt8) : Prop where
  nul : ∀ x ∈ part, x ≠ 0
  field : ∃ name ∈ Request.fieldNames, ∃ j, name <+: part.drop j
  ends : eol2 <:+ part
  delimiter : ∀ i < 91 + part.length, ascii "--XY" <+: (frontOf part).drop i → i = 90
  dash : ∀ i < 94 + part.length, 91 + part.length ≤ i → (frontOf part)[i]? ≠ some 45
  line : ∀ i < 90 + part.length, 90 ≤ i → ¬ eol2 <+: (frontOf part).drop i

section
variable {part : List UInt8} {n : Nat} {fill : UInt8}

theorem frontOf_length (part : List UInt8) : (frontOf part).length = 94 + part.length := by
  have hlen : (sampleHeader ++ ascii "--XY").length = 94 := by decide
  rw [frontOf, List.length_append, hlen]

theorem formOf_bytes (part : List UInt8) (n : Nat) (fill : UInt8) :
    ∃ t, (formOf part n fill).bytes = frontOf part ++ (List.replicate n fill ++ t) :=
  ⟨eol ++ (formOf part n fill).delimiter ++ ascii "--" ++ eol, by
    simp only [Request.bytes, Request.body, List.append_assoc]
    simp only [formOf, frontOf, Request.delimiter, List.append_assoc]
    rfl⟩

theorem prefix_front {pat : List UInt8} {j : Nat} (h : pat <+: (formOf part n fill).bytes.drop j)
    (hj : j + pat.length ≤ 94 + part.length) : pat <+: (frontOf part).drop j := by
  have hlen := frontOf_length part
  obtain ⟨t, ht⟩ := formOf_bytes part n fill
  rw [ht, List.drop_append_of_le_length (by omega)] at h
  exact List.prefix_of_prefix_length_le h (List.prefix_append _ _) (by rw [List.length_drop]; omega)

/-- A pattern in the header. -/
theorem prefix_sampleHeader {pat : List UInt8} {j : Nat} (h : pat <+: (formOf part n fill).bytes.drop j)
    (hj : j + pat.length ≤ 90) : pat <+: sampleHeader.drop j := by
  have hlen : sampleHeader.length = 90 := by decide
  have hfront := prefix_front h (by omega)
  rw [frontOf, List.append_assoc, List.drop_append_of_le_length (by omega)] at hfront
  exact List.prefix_of_prefix_length_le hfront (List.prefix_append _ _) (by rw [List.length_drop]; omega)

theorem formOf_fileStart : (formOf part n fill).fileStart = 94 + part.length := by
  have hlen : sampleHeader.length + (ascii "--XY").length = 94 := by decide
  have hfs : (formOf part n fill).fileStart = sampleHeader.length + (ascii "--XY").length + part.length := rfl
  rw [hfs, hlen]

theorem formOf_body (hn : part.length + n = 10286) : (formOf part n fill).body.length = 10300 := by
  have hfile : (formOf part n fill).file.length = n := List.length_replicate
  have hdel : (formOf part n fill).delimiter.length = 4 := rfl
  have hpart : (formOf part n fill).part = part := rfl
  rw [Request.body_length, hfile, hdel, hpart]
  omega

theorem GoodPart.delimiter_only (hp : GoodPart part) {j : Nat}
    (h : (formOf part n fill).delimiter <+: (formOf part n fill).bytes.drop j) (hfill : fill ≠ 45) :
    j = 90 ∨ 94 + part.length + n ≤ j := by
  by_cases hfront : j + 4 ≤ 94 + part.length
  · exact Or.inl (hp.delimiter j (by omega) (prefix_front h hfront))
  · right
    by_contra hlt
    obtain ⟨t, ht⟩ := formOf_bytes part n fill
    have hdash : (formOf part n fill).bytes[j]? = some 45 := by
      obtain ⟨u, hu⟩ := h
      rw [← Nat.add_zero j, ← List.getElem?_drop, ← hu]
      rfl
    have hlen := frontOf_length part
    rw [ht] at hdash
    by_cases hj : j < 94 + part.length
    · rw [List.getElem?_append_left (by omega)] at hdash
      exact hp.dash j hj (by omega) hdash
    · rw [List.getElem?_append_right (by omega),
        List.getElem?_append_left (by rw [List.length_replicate]; omega),
        List.getElem?_replicate_of_lt (by omega)] at hdash
      exact hfill (Option.some.inj hdash)

theorem GoodPart.wellFormed (hp : GoodPart part) (hn : part.length + n = 10286) (hfill : fill ≠ 45) :
    (formOf part n fill).WellFormed where
  post := by
    change _ <+: sampleHeader
    decide
  upload_url := by
    change ¬ (_ <+: sampleHeader ∨ _ <+: sampleHeader ∨ _ <+: sampleHeader)
    decide
  header_nul := by
    change ∀ x ∈ sampleHeader, x ≠ 0
    exact forall_ne_of_all (by decide)
  part_nul := hp.nul
  length := by
    refine ⟨sampleHeader.take 65, ascii "10300", ?_, ?_, ?_, ?_⟩
    · change _ <+: sampleHeader
      decide
    · exact List.all_eq_true.mp (by decide)
    · rw [formOf_body hn]
      decide
    · intro j hj hpre
      have hall : ∀ i < 65, ¬ contentLength <+: sampleHeader.drop i := by decide
      have hj' : j < 65 := lt_of_lt_of_le hj (List.length_take_le _ _)
      exact hall j hj' (prefix_sampleHeader hpre (by change j + 15 ≤ 90; omega))
  length_lt := by
    rw [formOf_body hn]
    decide
  boundary := by
    refine ⟨sampleHeader.take 52, ?_, ?_, ?_⟩
    · change _ ++ _ ++ ascii "XY" ++ _ <+: sampleHeader
      decide
    · change 13 ∉ ascii "XY"
      decide
    · intro j hj hpre
      have hall : ∀ i < 52, ¬ boundaryEq <+: sampleHeader.drop i := by decide
      have hj' : j < 52 := lt_of_lt_of_le hj (List.length_take_le _ _)
      exact hall j hj' (prefix_sampleHeader hpre (by change j + 9 ≤ 90; omega))
  delimiter_only j h := by
    have hfile : (formOf part n fill).file.length = n := List.length_replicate
    rw [formOf_fileStart, hfile]
    exact hp.delimiter_only h hfill
  field := hp.field
  part_end := hp.ends
  part_first j h1 h2 hpre := by
    rw [formOf_fileStart] at h2
    exact hp.line j (by omega) h1 (prefix_front hpre (by change j + 4 ≤ _; omega))

end

/-! The part of the example is 53 bytes long. -/

section
variable {fill : UInt8}

theorem samplePart_length : samplePart.length = 53 := by decide

theorem samplePart_good : GoodPart samplePart where
  nul := forall_ne_of_all (by decide)
  field := ⟨nameFirmware, List.mem_cons_self, 34, by decide⟩
  ends := by decide
  delimiter := by set_option maxRecDepth 1000 in decide
  dash := by decide
  line := by decide

theorem sampleForm_body : (sampleForm fill).body.length = 10300 :=
  @formOf_body samplePart _ _ (by rw [samplePart_length])

theorem sampleForm_length (fill : UInt8) : (sampleForm fill).bytes.length = 10390 := by
  have hheader : sampleHeader.length = 90 := by decide
  have hbody : (sampleForm fill).body.length = 10300 := sampleForm_body
  rw [Request.bytes, List.length_append, hbody]
  exact congrArg (· + 10300) hheader

theorem sampleForm_wellFormed (hfill : fill ≠ 45) : (sampleForm fill).WellFormed :=
  samplePart_good.wellFormed (by rw [samplePart_length]) hfill

end

end Uboot.Httpd
