import Mathlib.Algebra.Group.Nat.Defs
import Mathlib.Logic.Function.Iterate

/-!
# Checksums (`lib/crc32.c`)

The loop of `crc32_no_comp` takes four bytes at a time from the first aligned address on. The machine is
little-endian.
-/

namespace Uboot.Crc32

/-- `c & 1 ? poly ^ (c >> 1) : c >> 1`, with `poly` made from the terms of the polynomial -/
def polyStep (c : BitVec 32) : BitVec 32 := if c &&& 1 = 1 then 0xedb88320 ^^^ (c >>> 1) else c >>> 1

/-- `crc_table`. The constants in the source are those that `make_crc_table` computes. -/
def crcTable (n : BitVec 32) : BitVec 32 := polyStep^[8] n

/-- `DO_CRC` -/
def doCrc (crc x : BitVec 32) : BitVec 32 := crcTable ((crc ^^^ x) &&& 255) ^^^ (crc >>> 8)

/-- `DO_CRC` of the byte at a pointer. -/
def crcByte (crc : BitVec 32) (b : UInt8) : BitVec 32 := doCrc crc (b.toBitVec.setWidth 32)

/-- A word in memory. -/
def word (b₀ b₁ b₂ b₃ : UInt8) : BitVec 32 :=
  BitVec.ofNat 32 (b₀.toNat + 2 ^ 8 * b₁.toNat + 2 ^ 16 * b₂.toNat + 2 ^ 24 * b₃.toNat)

/-- The words, and the last few bytes. -/
def crcWords : BitVec 32 → List UInt8 → BitVec 32
  | crc, b₀ :: b₁ :: b₂ :: b₃ :: rest =>
      crcWords (doCrc (doCrc (doCrc (doCrc (crc ^^^ word b₀ b₁ b₂ b₃) 0) 0) 0) 0) rest
  | crc, rest => rest.foldl crcByte crc

/-- The number of bytes before the first aligned address. -/
def misaligned (addr : Nat) : Nat := (4 - addr % 4) % 4

/-- `crc32_no_comp` of the bytes at `addr` -/
def crc32NoComp (crc : BitVec 32) (addr : Nat) (buf : List UInt8) : BitVec 32 :=
  crcWords ((buf.take (misaligned addr)).foldl crcByte crc) (buf.drop (misaligned addr))

/-- `crc32` -/
def crc32 (crc : BitVec 32) (addr : Nat) (buf : List UInt8) : BitVec 32 :=
  crc32NoComp (crc ^^^ 0xffffffff) addr buf ^^^ 0xffffffff

/-! ## A word is its bytes -/

/-- One byte of a word that was added to the register before. -/
theorem doCrc_xor {x w : BitVec 32} (crc : BitVec 32) (hx : w &&& 255 = x &&& 255) :
    doCrc (crc ^^^ w) 0 = doCrc crc x ^^^ (w >>> 8) := by
  have hidx : (crc ^^^ w) &&& 255 = (crc ^^^ x) &&& 255 := by
    rw [BitVec.and_comm, BitVec.and_comm (crc ^^^ x)]
    ext i hi
    have := congrArg (·[i]) hx
    simp only [BitVec.getElem_and] at this
    simp only [BitVec.getElem_and, BitVec.getElem_xor]
    revert this
    cases (255 : BitVec 32)[i] <;> simp
  have hzero : crc ^^^ w ^^^ 0 = crc ^^^ w := BitVec.xor_zero
  rw [doCrc, doCrc, hzero, hidx, BitVec.ushiftRight_xor_distrib, BitVec.xor_assoc]

theorem word_toNat (b₀ b₁ b₂ b₃ : UInt8) :
    (word b₀ b₁ b₂ b₃).toNat = b₀.toNat + 2 ^ 8 * b₁.toNat + 2 ^ 16 * b₂.toNat + 2 ^ 24 * b₃.toNat := by
  have h₀ := b₀.toNat_lt
  have h₁ := b₁.toNat_lt
  have h₂ := b₂.toNat_lt
  have h₃ := b₃.toNat_lt
  rw [word, BitVec.toNat_ofNat]
  omega

/-- A byte that stands in the low bits of a register. -/
theorem low_eq {w : BitVec 32} {b : UInt8} (h : w.toNat % 256 = b.toNat) :
    w &&& 255 = b.toBitVec.setWidth 32 &&& 255 := by
  have hb := b.toNat_lt
  apply BitVec.eq_of_toNat_eq
  have hmask : (255 : BitVec 32).toNat = 2 ^ 8 - 1 := rfl
  rw [BitVec.toNat_and, BitVec.toNat_and, hmask, Nat.and_two_pow_sub_one_eq_mod, Nat.and_two_pow_sub_one_eq_mod,
    BitVec.toNat_setWidth, UInt8.toNat_toBitVec]
  omega

theorem crcWords_word (crc : BitVec 32) (b₀ b₁ b₂ b₃ : UInt8) :
    doCrc (doCrc (doCrc (doCrc (crc ^^^ word b₀ b₁ b₂ b₃) 0) 0) 0) 0 =
      [b₀, b₁, b₂, b₃].foldl crcByte crc := by
  have h₀ := b₀.toNat_lt
  have h₁ := b₁.toNat_lt
  have h₂ := b₂.toNat_lt
  have h₃ := b₃.toNat_lt
  have hw := word_toNat b₀ b₁ b₂ b₃
  have hs : ∀ (x : BitVec 32), (x >>> 8).toNat = x.toNat / 256 := fun x => by
    rw [BitVec.toNat_ushiftRight, Nat.shiftRight_eq_div_pow]
  have hzero : word b₀ b₁ b₂ b₃ >>> 8 >>> 8 >>> 8 >>> 8 = 0 := by
    apply BitVec.eq_of_toNat_eq
    rw [hs, hs, hs, hs, hw]
    show _ = 0
    omega
  rw [doCrc_xor crc (low_eq (b := b₀) (by omega)), doCrc_xor _ (low_eq (b := b₁) (by rw [hs]; omega)),
    doCrc_xor _ (low_eq (b := b₂) (by rw [hs, hs]; omega)),
    doCrc_xor _ (low_eq (b := b₃) (by rw [hs, hs, hs]; omega)), hzero]
  exact BitVec.xor_zero

theorem crcWords_eq (crc : BitVec 32) (buf : List UInt8) : crcWords crc buf = buf.foldl crcByte crc := by
  fun_induction crcWords crc buf with
  | case1 crc b₀ b₁ b₂ b₃ rest ih => rw [ih, crcWords_word]; rfl
  | case2 crc rest => rfl

/-- The checksum does not depend on where the bytes are. -/
theorem crc32NoComp_eq (crc : BitVec 32) (addr : Nat) (buf : List UInt8) :
    crc32NoComp crc addr buf = buf.foldl crcByte crc := by
  rw [crc32NoComp, crcWords_eq, ← List.foldl_append, List.take_append_drop]

/-- The checksum of the digits `123456789`. -/
example : crc32 0 1 [49, 50, 51, 52, 53, 54, 55, 56, 57] = 0xcbf43926 := by decide +kernel

/-! ## Damage -/

theorem polyStep_eq (c : BitVec 32) : polyStep c = if c.getLsbD 0 then 0xedb88320 ^^^ (c >>> 1) else c >>> 1 := by
  have hbit : c &&& 1 = (BitVec.ofBool (c.getLsbD 0)).setWidth 32 := BitVec.and_one_eq_setWidth_ofBool_getLsbD
  rw [polyStep, hbit]
  cases c.getLsbD 0 <;> rfl

/-- A step is linear. -/
theorem polyStep_xor (a b : BitVec 32) : polyStep (a ^^^ b) = polyStep a ^^^ polyStep b := by
  have hswap : ∀ p x y : BitVec 32, p ^^^ x ^^^ (p ^^^ y) = x ^^^ y := fun p x y => by
    rw [BitVec.xor_comm p x, BitVec.xor_assoc, ← BitVec.xor_assoc p p y, BitVec.xor_self, BitVec.zero_xor]
  rw [polyStep_eq, polyStep_eq a, polyStep_eq b, BitVec.getLsbD_xor, BitVec.ushiftRight_xor_distrib]
  cases a.getLsbD 0 <;> cases b.getLsbD 0
  · rfl
  · show 0xedb88320 ^^^ (a >>> 1 ^^^ b >>> 1) = a >>> 1 ^^^ (0xedb88320 ^^^ b >>> 1)
    ac_rfl
  · exact (BitVec.xor_assoc _ _ _).symm
  · exact (hswap _ _ _).symm

/-- Only zero becomes zero, for the constant has the highest bit. -/
theorem polyStep_eq_zero {c : BitVec 32} (h : polyStep c = 0) : c = 0 := by
  rw [polyStep_eq] at h
  cases hc : c.getLsbD 0 with
  | true =>
      rw [hc, if_pos rfl] at h
      have htop := congrArg (BitVec.getLsbD · 31) h
      simp at htop
  | false =>
      rw [hc, if_neg Bool.false_ne_true] at h
      refine BitVec.eq_of_getLsbD_eq fun i hi => ?_
      cases i with
      | zero => rw [hc]; rfl
      | succ i =>
          have hbit := congrArg (BitVec.getLsbD · i) h
          rw [BitVec.getLsbD_ushiftRight, Nat.add_comm] at hbit
          rw [hbit]
          simp

theorem xor_eq_zero {a b : BitVec 32} (h : a ^^^ b = 0) : a = b := by
  have hb : a ^^^ b ^^^ b = 0 ^^^ b := by rw [h]
  rw [BitVec.xor_assoc, BitVec.xor_self, BitVec.xor_zero] at hb
  exact hb.trans BitVec.zero_xor

theorem polyStep_injective : Function.Injective polyStep := fun a b h => by
  refine xor_eq_zero (polyStep_eq_zero ?_)
  rw [polyStep_xor, h]
  exact BitVec.xor_self

/-- What is above the lowest bit moves down. -/
theorem polyStep_shiftLeft {y : BitVec 32} (hy : y.getLsbD 31 = false) : polyStep (y <<< 1) = y := by
  have hlow : (y <<< 1).getLsbD 0 = false := by simp
  rw [polyStep_eq, hlow, if_neg Bool.false_ne_true]
  refine BitVec.eq_of_getLsbD_eq fun i hi => ?_
  rw [BitVec.getLsbD_ushiftRight, BitVec.getLsbD_shiftLeft]
  by_cases h31 : i = 31
  · rw [h31, hy]
    rfl
  · simp [show i + 1 < 32 by omega, Nat.add_comm 1 i]

/-- One bit after the other, the lowest first -/
def crcBit (crc : BitVec 32) (b : Bool) : BitVec 32 := polyStep (crc ^^^ (BitVec.ofBool b).setWidth 32)

/-- The number that the bits stand for -/
def number : List Bool → BitVec 32
  | [] => 0
  | b :: bs => (BitVec.ofBool b).setWidth 32 ^^^ number bs <<< 1

theorem number_getLsbD (bs : List Bool) (i : Nat) : (number bs).getLsbD i = (bs.getD i false && decide (i < 32)) := by
  induction bs generalizing i with
  | nil => simp [number]
  | cons b bs ih =>
      rw [number, BitVec.getLsbD_xor, BitVec.getLsbD_shiftLeft, BitVec.getLsbD_setWidth]
      cases i with
      | zero => cases b <;> rfl
      | succ i =>
          rw [Nat.add_sub_cancel, ih]
          by_cases hi : i + 1 < 32
          · simp [hi, show i < 32 by omega]
          · simp [hi]

/-- A few bits can be added to the register before. -/
theorem foldl_crcBit (bs : List Bool) (hbs : bs.length ≤ 32) (crc : BitVec 32) :
    bs.foldl crcBit crc = polyStep^[bs.length] (crc ^^^ number bs) := by
  induction bs generalizing crc with
  | nil => simp [number]
  | cons b bs ih =>
      have htop : (number bs).getLsbD 31 = false := by
        rw [number_getLsbD, List.getD_eq_getElem?_getD, List.getElem?_eq_none (by rw [List.length_cons] at hbs; omega)]
        rfl
      rw [List.foldl_cons, ih (by rw [List.length_cons] at hbs; omega), List.length_cons, Function.iterate_succ_apply, number,
        ← BitVec.xor_assoc, polyStep_xor (crc ^^^ _), polyStep_shiftLeft htop, crcBit]

theorem number_injective {xs ys : List Bool} (hxs : xs.length ≤ 32) (hlen : xs.length = ys.length) (h : number xs = number ys) :
    xs = ys := by
  refine List.ext_getElem hlen fun i hi hi' => ?_
  have hbit := congrArg (BitVec.getLsbD · i) h
  simp only [number_getLsbD, List.getD_eq_getElem?_getD, List.getElem?_eq_getElem hi, List.getElem?_eq_getElem hi',
    show i < 32 by omega, decide_true, Bool.and_true, Option.getD_some] at hbit
  exact hbit

/-- The bits of the bytes, in the order in which the register takes them: the low bit of each byte first -/
def bitsOf (buf : List UInt8) : List Bool := buf.flatMap fun b => (List.range 8).map b.toBitVec.getLsbD

theorem iterate_polyStep_xor (n : Nat) (a b : BitVec 32) : polyStep^[n] (a ^^^ b) = polyStep^[n] a ^^^ polyStep^[n] b := by
  induction n generalizing a b with
  | zero => rfl
  | succ n ih => rw [Function.iterate_succ_apply, polyStep_xor, ih]; rfl

theorem iterate_polyStep_shiftLeft (n : Nat) (y : BitVec 32) (hy : ∀ i, 32 ≤ i + n → y.getLsbD i = false) :
    polyStep^[n] (y <<< n) = y := by
  induction n with
  | zero => exact BitVec.shiftLeft_zero y
  | succ n ih =>
      have htop : (y <<< n).getLsbD 31 = false := by
        rw [BitVec.getLsbD_shiftLeft]
        by_cases hn : 31 < n
        · simp [hn]
        · rw [hy (31 - n) (by omega), Bool.and_false]
      rw [Function.iterate_succ_apply, BitVec.shiftLeft_add, polyStep_shiftLeft htop, ih fun i hi => hy i (by omega)]

/-- `DO_CRC` with the table is eight steps. -/
theorem doCrc_eq {x : BitVec 32} (crc : BitVec 32) (hx : x >>> 8 = 0) : doCrc crc x = polyStep^[8] (crc ^^^ x) := by
  have hsplit : crc ^^^ x = ((crc ^^^ x) &&& (255 : BitVec 32)) ^^^ (crc >>> 8) <<< 8 := by
    have hcrc : crc >>> 8 = (crc ^^^ x) >>> 8 := by
      rw [BitVec.ushiftRight_xor_distrib, hx]
      exact BitVec.xor_zero.symm
    have h255 : ∀ i, (255 : BitVec 32).getLsbD i = decide (i < 8) := fun i => by
      have hmask : (255 : BitVec 32) = BitVec.ofNat 32 (2 ^ 8 - 1) := rfl
      rw [hmask, BitVec.getLsbD_ofNat, Nat.testBit_two_pow_sub_one]
      by_cases hi : i < 8
      · simp [hi, show i < 32 by omega]
      · simp [hi]
    rw [hcrc]
    refine BitVec.eq_of_getLsbD_eq fun i hi => ?_
    rw [BitVec.getLsbD_xor, BitVec.getLsbD_xor, BitVec.getLsbD_and, h255, BitVec.getLsbD_shiftLeft, BitVec.getLsbD_ushiftRight]
    by_cases h8 : i < 8
    · simp [h8]
    · simp [h8, hi, show 8 + (i - 8) = i by omega]
  have hhigh : ∀ i, 32 ≤ i + 8 → (crc >>> 8).getLsbD i = false := fun i hi => by
    rw [BitVec.getLsbD_ushiftRight]
    exact BitVec.getLsbD_of_ge crc _ (by omega)
  rw [hsplit, iterate_polyStep_xor, iterate_polyStep_shiftLeft 8 _ hhigh]
  rfl

theorem crcByte_eq (crc : BitVec 32) (b : UInt8) : crcByte crc b = ((List.range 8).map b.toBitVec.getLsbD).foldl crcBit crc := by
  have hnumber : number ((List.range 8).map b.toBitVec.getLsbD) = b.toBitVec.setWidth 32 := by
    refine BitVec.eq_of_getLsbD_eq fun i hi => ?_
    rw [number_getLsbD, BitVec.getLsbD_setWidth, List.getD_eq_getElem?_getD, List.getElem?_map]
    by_cases h8 : i < 8
    · simp [List.getElem?_range h8, hi]
    · rw [List.getElem?_eq_none (by rw [List.length_range]; omega), BitVec.getLsbD_of_ge b.toBitVec i (by omega)]
      simp
  have hhigh : b.toBitVec.setWidth 32 >>> 8 = 0 := by
    refine BitVec.eq_of_getLsbD_eq fun i hi => ?_
    rw [BitVec.getLsbD_ushiftRight, BitVec.getLsbD_setWidth, BitVec.getLsbD_of_ge b.toBitVec _ (by omega)]
    simp
  rw [foldl_crcBit _ (by simp), hnumber, List.length_map, List.length_range, crcByte, doCrc_eq crc hhigh]

theorem foldl_crcByte (buf : List UInt8) (crc : BitVec 32) : buf.foldl crcByte crc = (bitsOf buf).foldl crcBit crc := by
  induction buf generalizing crc with
  | nil => rfl
  | cons b buf ih => rw [List.foldl_cons, ih, crcByte_eq, ← List.foldl_append]; rfl

theorem foldl_crcBit_injective (bs : List Bool) : Function.Injective fun crc => bs.foldl crcBit crc := by
  induction bs with
  | nil => exact fun _ _ h => h
  | cons b bs ih =>
      intro x y h
      have hstep : crcBit x b = crcBit y b := ih h
      exact (BitVec.xor_left_inj _).mp (polyStep_injective hstep)

theorem bitsOf_length (buf : List UInt8) : (bitsOf buf).length = 8 * buf.length := by
  induction buf with
  | nil => rfl
  | cons b buf ih =>
      rw [bitsOf, List.flatMap_cons, List.length_append, ← bitsOf, ih, List.length_map, List.length_range, List.length_cons]
      omega

theorem bitsOf_injective {buf buf' : List UInt8} (hlen : buf.length = buf'.length) (h : bitsOf buf = bitsOf buf') : buf = buf' := by
  induction buf generalizing buf' with
  | nil => exact (List.eq_nil_of_length_eq_zero hlen.symm).symm
  | cons b buf ih =>
      cases buf' with
      | nil => cases hlen
      | cons b' buf' =>
          obtain ⟨hhead, htail⟩ := List.append_inj h rfl
          rw [ih (Nat.succ.inj hlen) htail]
          congr 1
          rw [← UInt8.toBitVec_inj]
          refine BitVec.eq_of_getLsbD_eq fun i hi => ?_
          have hbit := congrArg (·[i]?) hhead
          simpa [List.getElem?_range hi] using hbit

/-- Two blocks of bytes of the same length, whose bits differ in a window of 32 bits at most, have different checksums. -/
theorem burst_detected (crc : BitVec 32) (addr addr' : Nat) (buf buf' : List UInt8) (i : Nat) (hlen : buf.length = buf'.length)
    (hne : buf ≠ buf') (hout : ∀ j, j < i ∨ i + 32 ≤ j → (bitsOf buf)[j]? = (bitsOf buf')[j]?) :
    crc32 crc addr buf ≠ crc32 crc addr' buf' := by
  intro hcrc
  have hall : (bitsOf buf).foldl crcBit (crc ^^^ 0xffffffff) = (bitsOf buf').foldl crcBit (crc ^^^ 0xffffffff) := by
    rw [← foldl_crcByte, ← foldl_crcByte, ← crc32NoComp_eq _ addr, ← crc32NoComp_eq _ addr']
    have hboth := congrArg (· ^^^ 0xffffffff#32) hcrc
    simpa [crc32, BitVec.xor_assoc] using hboth
  -- the same bits stand before and after the window
  have hbefore : (bitsOf buf).take i = (bitsOf buf').take i := List.ext_getElem? fun j => by
    rw [List.getElem?_take, List.getElem?_take]
    split
    · exact hout j (Or.inl ‹_›)
    · rfl
  have hafter : (bitsOf buf).drop (i + 32) = (bitsOf buf').drop (i + 32) := List.ext_getElem? fun j => by
    rw [List.getElem?_drop, List.getElem?_drop]
    exact hout _ (Or.inr (by omega))
  have hsplit : ∀ bs : List Bool, bs = bs.take i ++ ((bs.drop i).take 32 ++ bs.drop (i + 32)) := fun bs => by
    rw [← List.drop_drop, List.take_append_drop, List.take_append_drop]
  rw [hsplit (bitsOf buf), hsplit (bitsOf buf'), List.foldl_append, List.foldl_append, List.foldl_append, List.foldl_append,
    hbefore, hafter] at hall
  have hwindow := foldl_crcBit_injective _ hall
  have hshort : ∀ bs : List Bool, ((bs.drop i).take 32).length ≤ 32 := fun bs => List.length_take_le _ _
  have hsame : (((bitsOf buf).drop i).take 32).length = (((bitsOf buf').drop i).take 32).length := by
    simp only [List.length_take, List.length_drop, bitsOf_length, hlen]
  rw [foldl_crcBit _ (hshort _), foldl_crcBit _ (hshort _), hsame] at hwindow
  have hnumber := (BitVec.xor_right_inj _).mp (polyStep_injective.iterate _ hwindow)
  have hbits := number_injective (hshort _) hsame hnumber
  refine hne (bitsOf_injective hlen ?_)
  rw [hsplit (bitsOf buf), hsplit (bitsOf buf'), hbefore, hbits, hafter]

theorem bitsOf_getElem? (buf : List UInt8) (j : Nat) :
    (bitsOf buf)[j]? = buf[j / 8]?.map fun b => b.toBitVec.getLsbD (j % 8) := by
  induction buf generalizing j with
  | nil => rfl
  | cons b buf ih =>
      have hcons : bitsOf (b :: buf) = (List.range 8).map b.toBitVec.getLsbD ++ bitsOf buf := rfl
      rw [hcons]
      by_cases hj : j < 8
      · rw [List.getElem?_append_left (by simpa using hj), Nat.div_eq_of_lt hj, Nat.mod_eq_of_lt hj]
        simp [List.getElem?_range hj]
      · have hdiv : j / 8 = (j - 8) / 8 + 1 := by omega
        have hmod : j % 8 = (j - 8) % 8 := by omega
        rw [List.getElem?_append_right (by simpa using hj), List.length_map, List.length_range, ih, hdiv, hmod]
        rfl

/-- A byte is eight bits. -/
theorem bitsOf_set (buf : List UInt8) (k : Nat) (b : UInt8) {j : Nat} (hj : j < 8 * k ∨ 8 * k + 8 ≤ j) :
    (bitsOf (buf.set k b))[j]? = (bitsOf buf)[j]? := by
  rw [bitsOf_getElem?, bitsOf_getElem?, List.getElem?_set_ne (by omega)]

end Uboot.Crc32
