import Uboot.Lib.Bytes
import Uboot.WebHandlers.Basic

/-!
# Decoding of form data

`urldecode` (`board/qcom/ipq40xx_cdp/setenv_web.c`) into memory, and the encodings of a string that it takes back.
-/

namespace Uboot.WebHandlers

open Lib Vsprintf

/-! ## Into memory -/

/-- The loop of `urldecode` over a C string -/
def urldecodeLoop : List UInt8 → Nat → Mem → Mem
  | [], dst, m => m.write dst [0]
  | 37 :: a :: b :: src, dst, m =>
      if isxdigit a ∧ isxdigit b then urldecodeLoop src (dst + 1) (m.write dst [16 * hexValue a + hexValue b])
      else urldecodeLoop (a :: b :: src) (dst + 1) (m.write dst [37])
  | 43 :: src, dst, m => urldecodeLoop src (dst + 1) (m.write dst [32])
  | c :: src, dst, m => urldecodeLoop src (dst + 1) (m.write dst [c])

/-- `urldecode`, from the bytes at `src` -/
def urldecodeTo (dst : Nat) (src : List UInt8) (m : Mem) : Mem := urldecodeLoop (cstr src) dst m

theorem urldecodeLoop_eq (src : List UInt8) : ∀ (dst : Nat) (m : Mem),
    urldecodeLoop src dst m = m.write dst (urldecode src ++ [0]) := by
  have hcons : ∀ (c : UInt8) (bs : List UInt8) (dst : Nat) (m : Mem),
      (m.write dst [c]).write (dst + 1) (bs ++ [0]) = m.write dst (c :: bs ++ [0]) := fun c bs dst m =>
    Mem.write_append m dst [c] (bs ++ [0])
  induction src using urldecode.induct with
  | case1 =>
      intro dst m
      rfl
  | case2 a b src hx ih =>
      intro dst m
      rw [urldecodeLoop, urldecode, if_pos hx, if_pos hx, ih, hcons]
  | case3 a b src hx ih =>
      intro dst m
      rw [urldecodeLoop, urldecode, if_neg hx, if_neg hx, ih, hcons]
  | case4 src ih =>
      intro dst m
      rw [urldecodeLoop, urldecode, ih, hcons]
  | case5 c src hpercent hplus ih =>
      intro dst m
      rw [urldecodeLoop, urldecode, ih, hcons]
      · exact hpercent
      · exact hplus
      · exact hpercent
      · exact hplus

/-! ## Encodings -/

/-- `enc` stands for `s`: a blank is a plus or an escape, another byte is itself or an escape. -/
inductive Encodes : List UInt8 → List UInt8 → Prop where
  | nil : Encodes [] []
  | plus {s enc} (h : Encodes s enc) : Encodes (32 :: s) (43 :: enc)
  | literal {s enc} {c : UInt8} (hblank : c ≠ 32) (hpercent : c ≠ 37) (hplus : c ≠ 43) (hamp : c ≠ 38) (h : Encodes s enc) :
      Encodes (c :: s) (c :: enc)
  | escape {s enc} {c hi lo : UInt8} (hhi : isxdigit hi) (hlo : isxdigit lo) (hvalue : digitValue hi * 16 + digitValue lo = c.toNat)
      (h : Encodes s enc) : Encodes (c :: s) (37 :: hi :: lo :: enc)

section
variable {s enc : List UInt8}

theorem Encodes.length_le (h : Encodes s enc) : s.length ≤ enc.length := by
  induction h with
  | nil => exact Nat.le_refl _
  | plus h ih => exact Nat.succ_le_succ ih
  | literal _ _ _ _ h ih => exact Nat.succ_le_succ ih
  | escape _ _ _ h ih =>
      simp only [List.length_cons]
      omega

theorem isxdigit_ne_zero {a : UInt8} (h : isxdigit a = true) : a ≠ 0 := by
  rintro rfl
  exact absurd h (by decide)

theorem Encodes.no_nul (h : Encodes s enc) (hs : 0 ∉ s) : 0 ∉ enc := by
  induction h with
  | nil => exact hs
  | plus h ih =>
      rw [List.mem_cons, not_or] at hs ⊢
      exact ⟨by decide, ih hs.2⟩
  | literal _ _ _ _ h ih =>
      rw [List.mem_cons, not_or] at hs ⊢
      exact ⟨hs.1, ih hs.2⟩
  | escape hhi hlo _ h ih =>
      rw [List.mem_cons, not_or] at hs
      simp only [List.mem_cons, not_or]
      exact ⟨by decide, (isxdigit_ne_zero hhi).symm, (isxdigit_ne_zero hlo).symm, ih hs.2⟩

theorem hexValue_toNat {a : UInt8} (h : isxdigit a = true) : (hexValue a).toNat = digitValue a := by
  have hall : ∀ n < 256, isxdigit (UInt8.ofNat n) = true → (hexValue (UInt8.ofNat n)).toNat = digitValue (UInt8.ofNat n) := by
    set_option maxRecDepth 2000 in decide
  have ha := hall a.toNat a.toNat_lt
  rw [UInt8.ofNat_toNat] at ha
  exact ha h

theorem urldecode_literal {c : UInt8} (hpercent : c ≠ 37) (hplus : c ≠ 43) (src : List UInt8) :
    urldecode (c :: src) = c :: urldecode src := by
  rw [urldecode]
  · exact fun _ _ _ h _ => hpercent h
  · exact hplus

theorem Encodes.decode (h : Encodes s enc) : urldecode enc = s := by
  induction h with
  | nil => rfl
  | plus h ih => rw [urldecode, ih]
  | literal _ hpercent hplus _ h ih => rw [urldecode_literal hpercent hplus, ih]
  | @escape s enc c hi lo hhi hlo hvalue h ih =>
      have hc : 16 * hexValue hi + hexValue lo = c := by
        apply UInt8.toNat_inj.mp
        have hlt := c.toNat_lt
        rw [UInt8.toNat_add, UInt8.toNat_mul, hexValue_toNat hhi, hexValue_toNat hlo]
        change (16 * _ % 256 + _) % 256 = _
        omega
      rw [urldecode, if_pos ⟨hhi, hlo⟩, ih, hc]

/-- The decoder gives back the string with its NUL, and stores nothing behind the end of the encoding. -/
theorem urldecode_encodes (h : Encodes s enc) (hs : 0 ∉ s) (rest : List UInt8) (dst : Nat) (m : Mem) :
    (urldecodeTo dst (enc ++ 0 :: rest) m).read dst (s.length + 1) = s ++ [0] ∧
      ∀ i, i < dst ∨ dst + enc.length < i → urldecodeTo dst (enc ++ 0 :: rest) m i = m i := by
  have hlen := h.length_le
  have hsrc : cstr (enc ++ 0 :: rest) = enc := by
    rw [cstr_append fun c hc hzero => h.no_nul hs (hzero ▸ hc)]
    exact List.append_nil enc
  rw [urldecodeTo, hsrc, urldecodeLoop_eq, h.decode]
  constructor
  · have hread := Mem.read_write (m := m) (a := dst) (Nat.le_refl (s ++ [0]).length)
    rwa [List.take_length, List.length_append] at hread
  · intro i hi
    refine Mem.write_other (hi.imp_right fun hgt => ?_)
    rw [List.length_append, List.length_singleton]
    omega

/-- `a+%62` -/
theorem urldecode_encodes_sample : (urldecodeTo 0 [97, 43, 37, 54, 50, 0] fun _ => 0).read 0 4 = [97, 32, 98, 0] :=
  have h : Encodes [97, 32, 98] [97, 43, 37, 54, 50] :=
    .literal (by decide) (by decide) (by decide) (by decide) (.plus (.escape rfl rfl rfl .nil))
  (urldecode_encodes h (by decide) [] 0 fun _ => 0).1

end

end Uboot.WebHandlers
