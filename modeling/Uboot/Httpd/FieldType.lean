import Uboot.Httpd.FirstChunk

/-!
# Which partition the upload is for

`httpd_findandstore_firstchunk` looks for the four names one after the other, each in the whole text from the delimiter to
the end of the segment or to its first NUL. In this text are also the name of the file and the first bytes of the file.
-/

namespace Uboot.Httpd

open Uboot.Lib

namespace Request
variable {r : Request} {k m : Nat} {type : UpgradeType}

/-- The form's field: the name of the type is the first parameter of the part, before the name of the file. -/
def IsField (r : Request) (type : UpgradeType) : Prop :=
  ∃ name rest, fieldName type = some name ∧
    r.part = ascii "\r\nContent-Disposition: form-data; " ++ name ++ rest

/-- The text from the delimiter to the end of the segment that ends at `k + m`. -/
def searched (r : Request) (k m : Nat) : List UInt8 := slice r.bytes r.header.length (k + m - r.header.length)

/-- None of the names that are looked for before is in the text, up to the first NUL. -/
def Unambiguous (r : Request) (type : UpgradeType) (k m : Nat) : Prop :=
  ∀ name ∈ searchedBefore type, ¬ name <:+: cstr (r.searched k m)

theorem IsField.named (hf : r.IsField type) :
    ∃ name, fieldName type = some name ∧ ∃ j, name <+: r.part.drop j := by
  obtain ⟨name, rest, hname, hpart⟩ := hf
  refine ⟨name, hname, (ascii "\r\nContent-Disposition: form-data; ").length, ?_⟩
  rw [hpart, List.append_assoc, List.drop_left]
  exact List.prefix_append name rest

/-- The name that is looked for first and found decides. -/
theorem fieldType_eq_iff {s name : List UInt8} (hname : fieldName type = some name)
    (hsome : (strstr s name).isSome = true) :
    fieldType s = some type ↔ ∀ n ∈ searchedBefore type, (strstr s n).isSome = false := by
  cases type with
  | firmware =>
      cases hname
      simp [fieldType, hsome, searchedBefore]
  | uboot =>
      cases hname
      cases h1 : strstr s nameFirmware <;> simp [fieldType, hsome, searchedBefore, h1]
  | art =>
      cases hname
      cases h1 : strstr s nameFirmware <;> cases h2 : strstr s nameUboot <;>
        simp [fieldType, hsome, searchedBefore, h1, h2]
  | qsdkFirmware => cases hname
  | mibib =>
      cases hname
      cases h1 : strstr s nameFirmware <;> cases h2 : strstr s nameUboot <;>
        cases h3 : strstr s nameArt <;> simp [fieldType, hsome, searchedBefore, h1, h2, h3]

end Request

section
variable {r : Request} {k m : Nat} {type : UpgradeType} {ev : Event} {g : Globals}

/-- The type is set as soon as the delimiter and a name are found. -/
theorem upgradeType_of_found {boundary : List UInt8} {start : Nat} {found : UpgradeType}
    (hb : g.boundaryValue = some boundary) (hstart : strstr ev.text boundary = some start)
    (htype : fieldType (ev.text.drop start) = some found) (hs : HttpdState) :
    (findAndStoreFirstChunk ev hs g).2.1.upgradeType = found := by
  simp only [findAndStoreFirstChunk, hb, hstart, htype]
  split
  · rfl
  · split <;> rfl

/-- The segment with the delimiter and the header of the part sets the type of the form's field exactly when no name that is
looked for before it is in the text. -/
theorem upgrade_type_iff (h : r.WellFormed) (hf : r.IsField type) (hm : k + m ≤ r.bytes.length)
    (hk : k ≤ r.header.length) (hE : r.fileStart ≤ k + m) (hdata : ev.data = slice r.bytes k m)
    (hb : g.boundaryValue = some r.delimiter) (hs : HttpdState) :
    (findAndStoreFirstChunk ev hs g).2.1.upgradeType = type ↔ r.Unambiguous type k m := by
  have hfs : r.fileStart = r.header.length + r.delimiter.length + r.part.length := rfl
  have hstart := h.delimiter_found hdata hk (by omega)
  have hdrop := text_from_delimiter hm hdata hk (by omega)
  obtain ⟨found, hfound⟩ := h.fieldType_isSome (m := k + m - r.header.length) (ev.stale.drop 1) (by omega)
  obtain ⟨name, hname, j, hj⟩ := hf.named
  have hpos : 0 < name.length := by
    have hall : ∀ t n, Request.fieldName t = some n → 0 < n.length := by
      intro t n ht
      cases t <;> cases ht <;> decide
    exact hall type name hname
  have hsome := h.name_found hpos hj (ev.stale.drop 1) (show r.fileStart ≤ r.header.length + (k + m - r.header.length) by omega)
  have hiff := Request.fieldType_eq_iff hname hsome
  rw [upgradeType_of_found hb hstart (hdrop ▸ hfound) hs]
  have heq : found = type ↔ fieldType (slice r.bytes r.header.length (k + m - r.header.length) ++ 0 :: ev.stale.drop 1) =
      some type := by
    rw [hfound, Option.some.injEq]
  rw [heq, hiff, Request.Unambiguous]
  refine forall_congr' fun n => imp_congr_right fun _ => ?_
  rw [← Bool.not_eq_true, strstr, find_isSome_iff, cstr_append_nul, Request.searched]

end

theorem samplePart_isField : (sampleForm 0).IsField .firmware := by
  refine ⟨nameFirmware, eol2, rfl, ?_⟩
  change samplePart = _
  decide

/-- What the server knows when it has read the header of the example. -/
def readingGlobals : Globals :=
  ⟨false, false, false, some (sampleForm 0).delimiter, uploadRamAddress, .uboot, false, 0, fun _ => 0⟩

theorem upgrade_type_example :
    (findAndStoreFirstChunk { newdata := true, data := slice (sampleForm 0).bytes 0 1400 }
      ⟨.uploadRequest, 0, 0, 10300, false⟩ readingGlobals).2.1.upgradeType = .firmware :=
  (upgrade_type_iff (sampleForm_wellFormed (by decide)) samplePart_isField (by rw [sampleForm_length]; decide) (Nat.zero_le _)
    (by decide) rfl rfl _).mpr fun _ h => nomatch h

/-- The header of a part for the field `uboot`, with a file that is called `firmware`. -/
def ubootPart : List UInt8 :=
  [13, 10, 67, 111, 110, 116, 101, 110, 116, 45, 68, 105, 115, 112, 111, 115, 105, 116, 105, 111, 110, 58, 32,
    102, 111, 114, 109, 45, 100, 97, 116, 97, 59, 32, 110, 97, 109, 101, 61, 34, 117, 98, 111, 111, 116, 34, 59,
    32, 102, 105, 108, 101, 110, 97, 109, 101, 61, 34, 102, 105, 114, 109, 119, 97, 114, 101, 34, 13, 10, 13, 10]

example : ubootPart = ascii "\r\nContent-Disposition: form-data; name=\"uboot\"; filename=\"firmware\"\r\n\r\n" := by
  decide

def ubootForm : Request := formOf ubootPart 10215 0

theorem ubootPart_good : GoodPart ubootPart where
  nul := forall_ne_of_all (by decide)
  field := ⟨nameUboot, by decide, 34, by decide⟩
  ends := by decide
  delimiter := by set_option maxRecDepth 1000 in decide
  dash := by set_option maxRecDepth 1000 in decide
  line := by decide

theorem ubootForm_wellFormed : ubootForm.WellFormed := ubootPart_good.wellFormed (by decide) (by decide)

/-- The parameter `filename="firmware"` has the name `name="firmware"` in it: the boot loader is taken for a firmware. -/
theorem upgrade_type_of_file_name : ubootForm.WellFormed ∧ ubootForm.IsField .uboot ∧ ubootForm.fileStart ≤ 1400 ∧
    ∀ hs g, g.boundaryValue = some ubootForm.delimiter →
      (findAndStoreFirstChunk { newdata := true, data := slice ubootForm.bytes 0 1400 } hs g).2.1.upgradeType =
        .firmware := by
  refine ⟨ubootForm_wellFormed, ⟨nameUboot, ascii "; filename=\"firmware\"" ++ eol2, rfl, ?_⟩, by decide, ?_⟩
  · change ubootPart = _
    decide
  · intro hs g hb
    exact upgradeType_of_found hb (ubootForm_wellFormed.delimiter_found rfl (Nat.zero_le _) (by decide))
      (by decide) hs

end Uboot.Httpd
