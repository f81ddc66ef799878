import Uboot.Mtdparts.Format
import Uboot.Smem.Basic

/-!
# Reading a printed entry

What the mtdparts parser makes of the text of one entry and of the entries of one device.
-/

namespace Uboot.Smem

open Lib Vsprintf Mtdparts

section
variable {board : Board} {id : MtdIds} {f : Flashes} {p : SmemPtn} {name rest tail : List UInt8} {n d : Nat} {i : Int}

/-! ## Sizes -/

theorem lld_of_nonneg (h : 0 ≤ i) : lld i = numeral 10 i.toNat := by
  rw [lld, if_neg (by omega)]
  congr 1
  omega

theorem memsizeParse_zero (rest : List UInt8) : memsizeParse (numeral 10 0 ++ 64 :: rest) = (0, 64 :: rest) := rfl

theorem memsizeParse_M (hn : 0 < n) : memsizeParse (numeral 10 n ++ 77 :: rest) = (n % 2 ^ 32 * 2 ^ 20 % 2 ^ 32, rest) := by
  rw [memsizeParse, simpleStrtoul_decimal hn]
  rfl

theorem memsizeParse_K (hn : 0 < n) : memsizeParse (numeral 10 n ++ 75 :: rest) = (n % 2 ^ 32 * 2 ^ 10 % 2 ^ 32, rest) := by
  rw [memsizeParse, simpleStrtoul_decimal hn]
  rfl

theorem memsizeParse_hex (h : Ends rest) : memsizeParse (48 :: 120 :: numeral 16 n ++ rest) = (n % 2 ^ 32, rest) := by
  rw [memsizeParse, simpleStrtoul_hex, strtoulLoop_ends h]
  cases rest with
  | nil => rfl
  | cons c rest => rcases h c rfl with rfl | rfl | rfl | rfl | rfl <;> rfl

/-- A size that is not negative is read modulo 4 GiB. -/
theorem memsizeParse_sizeText (h : 0 ≤ i) (rest : List UInt8) :
    memsizeParse (sizeText i ++ rest) = (i.toNat % 2 ^ 32, 64 :: rest) := by
  unfold sizeText
  split
  next hM =>
    rw [lld_of_nonneg (by omega), List.append_assoc, List.cons_append, List.singleton_append,
      memsizeParse_M (by omega)]
    congr 1
    omega
  next =>
    split
    next hK =>
      rw [lld_of_nonneg (by omega), List.append_assoc, List.cons_append, List.singleton_append,
        memsizeParse_K (by omega)]
      congr 1
      omega
    next =>
      rw [lld_of_nonneg h, List.append_assoc, List.singleton_append]
      rcases Nat.eq_zero_or_pos i.toNat with hz | hpos
      · rw [hz]
        exact memsizeParse_zero rest
      · exact memsizeParse_plain hpos (by simp [Ends])

theorem numeral_digit (n : Nat) : ∃ d ds, d < 10 ∧ numeral 10 n = UInt8.ofNat (Nat.digitChar d).toNat :: ds := by
  rcases Nat.eq_zero_or_pos n with rfl | hn
  · exact ⟨0, [], by decide, rfl⟩
  · obtain ⟨d, ds, -, hlt, hds⟩ := numeral_head (show 1 < 10 by decide) (by decide) hn
    exact ⟨d, ds, hlt, hds⟩

theorem sizeText_digit (h : 0 ≤ i) : ∃ d ds, d < 10 ∧ sizeText i = UInt8.ofNat (Nat.digitChar d).toNat :: ds := by
  have happend : ∀ n t, ∃ d ds, d < 10 ∧ numeral 10 n ++ t = UInt8.ofNat (Nat.digitChar d).toNat :: ds := by
    intro n t
    obtain ⟨d, ds, hd, hds⟩ := numeral_digit n
    exact ⟨d, ds ++ t, hd, by rw [hds]; rfl⟩
  unfold sizeText
  split_ifs
  · rw [lld_of_nonneg (by omega)]
    exact happend _ _
  · rw [lld_of_nonneg (by omega)]
    exact happend _ _
  · rw [lld_of_nonneg h]
    exact happend _ _

theorem parseSize_sizeText (h : 0 ≤ i) (rest : List UInt8) : parseSize (sizeText i ++ rest) =
    if i.toNat % 2 ^ 32 < minPartSize then none else some (i.toNat % 2 ^ 32, 64 :: rest) := by
  have hparse := memsizeParse_sizeText h rest
  obtain ⟨d, ds, hd, hds⟩ := sizeText_digit h
  rw [hds] at hparse ⊢
  unfold parseSize
  split
  next heq => exact absurd (List.cons.inj heq).1 (digit_ne hd).1
  next => rw [hparse]

/-! ## One entry -/

/-- The parser reads the entry, and its size and offset modulo 4 GiB. -/
def ReadsBack (f : Flashes) (p : SmemPtn) (name : List UInt8) : Prop :=
  0 ≤ psize f p ∧ minPartSize ≤ (psize f p).toNat % 2 ^ 32 ∧ (psize f p).toNat % 2 ^ 32 ≠ sizeRemaining ∧ name ≠ []

instance (f : Flashes) (p : SmemPtn) (name : List UInt8) : Decidable (ReadsBack f p name) :=
  inferInstanceAs (Decidable (_ ∧ _ ∧ _ ∧ _))

theorem partParse_negative (h : i < 0) (rest : List UInt8) : partParse (sizeText i ++ rest) = none := by
  obtain ⟨d, ds, hd, hds⟩ := numeral_digit i.natAbs
  have htext : sizeText i ++ rest = 45 :: UInt8.ofNat (Nat.digitChar d).toNat :: (ds ++ 64 :: rest) := by
    rw [sizeText, if_neg (by omega), if_neg (by omega), lld, if_pos h, hds]
    simp
  have hall : ∀ e < 10, UInt8.ofNat (Nat.digitChar e).toNat ≠ 64 ∧ UInt8.ofNat (Nat.digitChar e).toNat ≠ 40 ∧
      UInt8.ofNat (Nat.digitChar e).toNat ≠ 114 ∧ UInt8.ofNat (Nat.digitChar e).toNat ≠ 59 ∧
        UInt8.ofNat (Nat.digitChar e).toNat ≠ 44 := by decide
  obtain ⟨h64, h40, h114, h59, h44⟩ := hall d hd
  generalize UInt8.ofNat (Nat.digitChar d).toNat = c at *
  generalize ds ++ 64 :: rest = t at *
  have hoffset : parseOffset (c :: t) = (offsetNotSpecified, c :: t) := by
    unfold parseOffset
    split
    next heq => exact absurd (List.cons.inj heq).1 h64
    next => rfl
  have hname : parseName (c :: t) = some (none, c :: t) := by
    unfold parseName
    split
    next heq => exact absurd (List.cons.inj heq).1 h40
    next => rfl
  have hro : parseRo (c :: t) = (false, c :: t) := by
    unfold parseRo
    split
    next heq => exact absurd (List.cons.inj heq).1 h114
    next => rfl
  have hend : parseEnd sizeRemaining (c :: t) = none := by
    unfold parseEnd
    split
    next heq => cases heq
    next heq => exact absurd (List.cons.inj heq).1 h59
    next heq => exact absurd (List.cons.inj heq).1 h44
    next => rfl
  rw [htext, partParse, parseSize, Option.bind_some]
  dsimp only
  rw [hoffset, hname, Option.bind_some]
  dsimp only
  rw [hro, hend]
  rfl

theorem partParse_partText (hmem : 41 ∉ name) (rest : List UInt8) : partParse (partText f p name ++ rest) =
    if ReadsBack f p name then
      some (⟨name, false, (psize f p).toNat % 2 ^ 32, partOffset f p % 2 ^ 32, false, 0⟩, rest)
    else none := by
  have htext : partText f p name ++ rest = sizeText (psize f p) ++
      (48 :: 120 :: numeral 16 (partOffset f p) ++ (40 :: name ++ 41 :: 44 :: rest)) := by
    simp [partText]
  rw [htext]
  by_cases hneg : psize f p < 0
  · rw [partParse_negative hneg, if_neg]
    intro h
    exact absurd h.1 (by omega)
  rw [partParse, parseSize_sizeText (by omega)]
  by_cases hsmall : (psize f p).toNat % 2 ^ 32 < minPartSize
  · rw [if_pos hsmall, if_neg]
    · rfl
    · intro h
      exact absurd h.2.1 (by omega)
  have hoffset : parseOffset (64 :: (48 :: 120 :: numeral 16 (partOffset f p) ++ (40 :: name ++ 41 :: 44 :: rest))) =
      (partOffset f p % 2 ^ 32, 40 :: name ++ 41 :: 44 :: rest) := memsizeParse_hex (by simp [Ends])
  rw [if_neg hsmall, Option.bind_some]
  dsimp only
  rw [hoffset]
  dsimp only
  rw [parseName_bracket hmem]
  by_cases hname : name = []
  · rw [if_pos hname, if_neg]
    · rfl
    · intro h
      exact h.2.2.2 hname
  rw [if_neg hname, Option.bind_some]
  dsimp only
  have hro : parseRo (44 :: rest) = (false, 44 :: rest) := rfl
  rw [hro]
  by_cases hfill : (psize f p).toNat % 2 ^ 32 = sizeRemaining
  · have hend : parseEnd ((psize f p).toNat % 2 ^ 32) (44 :: rest) = none := if_pos hfill
    rw [hend, if_neg]
    · rfl
    · intro h
      exact h.2.2.1 hfill
  · have hend : parseEnd ((psize f p).toNat % 2 ^ 32) (44 :: rest) = some rest := if_neg hfill
    rw [hend, if_pos ⟨by omega, by omega, hfill, hname⟩]
    rfl

end

end Uboot.Smem
