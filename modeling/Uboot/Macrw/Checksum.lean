import Uboot.Macrw.Write

/-!
# The checksums of the calibration regions

A region verifies when the exclusive or of its words is 0xFFFF. One that does is not changed by `update_wifi_checksum`.
-/

namespace Uboot.Macrw

open Lib

def Verifies (mem : Mem) (base : Nat) : Prop := xorSum (region mem base) (wifiChecksumSize / 2) = 0xFFFF

/-- Regions without a byte in common -/
def Apart (b b' : Nat) : Prop := b + wifiChecksumSize ≤ b' ∨ b' + wifiChecksumSize ≤ b

/-- The bytes of the checksum word -/
def InWord (base i : Nat) : Prop := i = base + 2 ∨ i = base + 3

section
variable {mem mem' : Mem} {a b b' i j base : Nat} {bases : List Nat} {w w' : BitVec 16}

/-! ## Words -/

theorem le16_length (n : Nat) : (Mem.le16 n).length = 2 := rfl

theorem word_congr (h0 : mem a = mem' b) (h1 : mem (a + 1) = mem' (b + 1)) : word mem a = word mem' b := by
  rw [word, word, Mem.readLe16_congr h0 h1]

theorem putWord_of_ne (h : ¬ InWord b i) : putWord mem (b + 2) w i = mem i := by
  rw [InWord] at h
  rw [putWord]
  rcases Nat.lt_or_ge i (b + 2) with hlt | hge
  · exact Mem.write_of_lt hlt
  · exact Mem.write_of_ge (by rw [le16_length]; omega)

theorem word_putWord : word (putWord mem a w) a = w := by
  have h0 : putWord mem a w (a + 0) = UInt8.ofNat w.toNat := Mem.write_of_mem (by rw [le16_length]; decide)
  have h1 : putWord mem a w (a + 1) = UInt8.ofNat (w.toNat / 256) := Mem.write_of_mem (by rw [le16_length]; decide)
  rw [Nat.add_zero] at h0
  rw [word, Mem.readLe16, h0, h1, Mem.le16_value _ w.isLt, BitVec.ofNat_toNat, BitVec.setWidth_eq]

theorem putWord_putWord : putWord (putWord mem a w) a w' = putWord mem a w' := Mem.write_write (le_refl 2)

/-- A word is written back. -/
theorem putWord_word : putWord mem a (word mem a) = mem := by
  have hlo := (mem a).toNat_lt
  have hhi := (mem (a + 1)).toNat_lt
  have hword : (word mem a).toNat = (mem a).toNat + 256 * (mem (a + 1)).toNat := by
    rw [word, Mem.readLe16, BitVec.toNat_ofNat]
    omega
  have hbytes : Mem.le16 (word mem a).toNat = [mem a, mem (a + 1)] := by
    rw [Mem.le16, hword]
    congr 1
    · apply UInt8.toNat_inj.mp
      rw [UInt8.toNat_ofNat']
      omega
    · congr 1
      apply UInt8.toNat_inj.mp
      rw [UInt8.toNat_ofNat']
      omega
  funext i
  rw [putWord, hbytes, Mem.write]
  split
  next hin =>
    rw [List.length_cons, List.length_singleton] at hin
    obtain rfl | rfl : i = a ∨ i = a + 1 := by omega
    · rw [Nat.sub_self]
      rfl
    · rw [Nat.add_sub_cancel_left]
      rfl
  next => rfl

/-! ## One region -/

theorem region_congr (h0 : mem (b + 2 * j) = mem' (b' + 2 * j)) (h1 : mem (b + (2 * j + 1)) = mem' (b' + (2 * j + 1))) :
    region mem b j = region mem' b' j := word_congr h0 h1

/-- The checksum is the word 1. -/
theorem region_putWord (hj : j ≠ 1) : region (putWord mem (base + 2) w) base j = region mem base j := by
  refine region_congr (putWord_of_ne ?_) (putWord_of_ne ?_)
  · rw [InWord]
    omega
  · rw [InWord]
    omega

theorem region_putWord_one : region (putWord mem (base + 2) w) base 1 = w := word_putWord

theorem xorSum_putWord : xorSum (region (putWord mem (base + 2) w) base) (wifiChecksumSize / 2) =
    xorSum (region mem base) (wifiChecksumSize / 2) ^^^ region mem base 1 ^^^ w := by
  rw [xorSum_replace (show 1 < wifiChecksumSize / 2 by decide) fun i _ hi => region_putWord hi, region_putWord_one]

theorem updateRegion_eq : updateRegion mem base =
    putWord mem (base + 2) (xorSum (region mem base) (wifiChecksumSize / 2) ^^^ region mem base 1 ^^^ 0xFFFF) := by
  rw [updateRegion, putWord_putWord, xorSum_putWord]

theorem updateRegion_verifies : Verifies (updateRegion mem base) base := by
  rw [Verifies, updateRegion_eq, xorSum_putWord, xor_cancel_left]

theorem updateRegion_of_ne (h : ¬ InWord base i) : updateRegion mem base i = mem i := by
  rw [updateRegion_eq, putWord_of_ne h]

theorem updateRegion_same (h : Verifies mem base) : updateRegion mem base = mem := by
  rw [updateRegion_eq, h, xor_right_comm, BitVec.xor_self, BitVec.zero_xor]
  exact putWord_word

/-! ## All regions -/

/-- The same bytes, at another place perhaps -/
theorem verifies_congr (h : ∀ i < wifiChecksumSize, mem (b + i) = mem' (b' + i)) : Verifies mem b ↔ Verifies mem' b' := by
  have hwords : xorSum (region mem b) (wifiChecksumSize / 2) = xorSum (region mem' b') (wifiChecksumSize / 2) := by
    refine xorSum_congr fun j hj => region_congr (h _ ?_) (h _ ?_)
    · rw [wifiChecksumSize] at hj ⊢
      omega
    · rw [wifiChecksumSize] at hj ⊢
      omega
  rw [Verifies, Verifies, hwords]

theorem verifies_updateRegion (h : Apart b base) : Verifies (updateRegion mem b) base ↔ Verifies mem base := by
  refine verifies_congr fun i hi => updateRegion_of_ne ?_
  rw [Apart, wifiChecksumSize] at h
  rw [wifiChecksumSize] at hi
  rw [InWord]
  omega

/-- Every region verifies then, and only those that did not are changed. -/
theorem updateRegions_spec (h : bases.Pairwise Apart) :
    (∀ b ∈ bases, Verifies (bases.foldl updateRegion mem) b) ∧
      ∀ i, bases.foldl updateRegion mem i ≠ mem i → ∃ b ∈ bases, ¬ Verifies mem b ∧ InWord b i := by
  induction bases generalizing mem with
  | nil => exact ⟨by simp, fun i hi => absurd rfl hi⟩
  | cons b bases ih =>
      obtain ⟨hapart, hrest⟩ := List.pairwise_cons.mp h
      obtain ⟨hverifies, hchanged⟩ := @ih (updateRegion mem b) hrest
      have hkept : ∀ i < wifiChecksumSize,
          bases.foldl updateRegion (updateRegion mem b) (b + i) = updateRegion mem b (b + i) := by
        intro i hi
        by_contra hne
        obtain ⟨b', hb', -, hword⟩ := hchanged _ hne
        have := hapart b' hb'
        rw [Apart, wifiChecksumSize] at this
        rw [wifiChecksumSize] at hi
        rw [InWord] at hword
        omega
      rw [List.foldl_cons]
      refine ⟨List.forall_mem_cons.mpr ⟨(verifies_congr hkept).mpr updateRegion_verifies, hverifies⟩, ?_⟩
      intro i hne
      by_cases hlater : bases.foldl updateRegion (updateRegion mem b) i = updateRegion mem b i
      · rw [hlater] at hne
        refine ⟨b, List.mem_cons_self, ?_, ?_⟩
        · intro hok
          rw [updateRegion_same hok] at hne
          exact hne rfl
        · by_contra hword
          exact hne (updateRegion_of_ne hword)
      · obtain ⟨b', hb', hbad, hword⟩ := hchanged i hlater
        exact ⟨b', List.mem_cons_of_mem _ hb', mt (verifies_updateRegion (hapart b' hb')).mpr hbad, hword⟩

end

end Uboot.Macrw
