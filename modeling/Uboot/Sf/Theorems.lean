import Uboot.Sf.Commands
import Uboot.Lib.Rewrite

/-!
# When `sf update` is exact

The update goes sector by sector, but `winbond_erase` always sends the command for 64 KiB, also for the parts whose sectors
have 4 KiB.
-/

namespace Uboot.Sf

open Lib

variable {fl : SpiFlash} {fate : Nat → Fate}

/-- The contents that an address of the range should get. -/
def image (offset : Nat) (buf : List UInt8) : Mem := fun a => buf.getD (a - offset) 0

/-- The sector of an address. -/
def SpiFlash.sectorOf (fl : SpiFlash) (a : Nat) : Nat := a / fl.sectorSize

/-- The 64 KiB block of a sector. -/
def SpiFlash.blockOf (fl : SpiFlash) (q : Nat) : Nat := q / (65536 / fl.sectorSize)

theorem blockOf_sectorOf (h : fl.Winbond) (a : Nat) : fl.blockOf (fl.sectorOf a) = a / 65536 := by
  rw [SpiFlash.blockOf, SpiFlash.sectorOf, Nat.div_div_eq_div_mul, Nat.mul_div_cancel' h.dvd]

/-- Updating sector `q` of the range is a rewrite of it. -/
theorem updateBlock_mem (h : fl.Winbond) {offset q : Nat} {buf sector : List UInt8} {b : Bus}
    (hlen : sector.length = fl.sectorSize) (hsize : q * fl.sectorSize + fl.sectorSize ≤ fl.size)
    (himage : ∀ i < fl.sectorSize, sector.getD i 0 = image offset buf (q * fl.sectorSize + i))
    (hok : (spiFlashUpdateBlock fl fate (q * fl.sectorSize) sector b).1 = false) :
    (spiFlashUpdateBlock fl fate (q * fl.sectorSize) sector b).2.mem =
      rewrite fl.sectorOf 0xff (image offset buf) fl.blockOf b.mem q := by
  have hpos := h.sector_pos
  have hsector : ∀ a, fl.sectorOf a = q ↔ ∃ i < fl.sectorSize, a = q * fl.sectorSize + i := by
    intro a
    constructor
    · rintro rfl
      exact ⟨a % fl.sectorSize, Nat.mod_lt _ hpos, (Nat.div_add_mod' a _).symm⟩
    · rintro ⟨i, hi, rfl⟩
      rw [SpiFlash.sectorOf, Nat.add_comm, Nat.add_mul_div_right _ _ hpos, Nat.div_eq_of_lt hi, Nat.zero_add]
  have hequal : b.mem.read (q * fl.sectorSize) sector.length = sector ↔
      ∀ a, fl.sectorOf a = q → b.mem a = image offset buf a := by
    rw [Mem.read_eq_iff, hlen]
    constructor
    · intro hr a ha
      obtain ⟨i, hi, rfl⟩ := (hsector a).mp ha
      rw [hr i hi, himage i hi]
    · intro hr i hi
      rw [himage i hi]
      exact hr _ ((hsector _).mpr ⟨i, hi, rfl⟩)
  rw [spiFlashUpdateBlock] at hok ⊢
  dsimp only at hok ⊢
  rw [readFast_data h (by omega)] at hok ⊢
  split at hok
  · cases hok
  · rename_i hread
    rw [if_neg hread]
    split at hok
    · rename_i heq
      rw [if_pos heq, rewrite, if_pos (hequal.mp heq)]
      rfl
    · rename_i hne
      rw [if_neg hne, rewrite, if_neg (fun hall => hne (hequal.mpr hall))]
      obtain ⟨he, heq⟩ := step_ok hok
      rw [heq] at hok ⊢
      have hmem : (winbondErase fl fate (q * fl.sectorSize) sector.length
          (spiFlashCmdReadFast fl fate (q * fl.sectorSize) sector.length b).2.2).2.mem =
          eraseAt 65536 (q * fl.sectorSize) b.mem := by
        rw [hlen] at he ⊢
        exact winbondErase_mem h hsize he
      have hblock : ∀ a, a / 65536 = q * fl.sectorSize / 65536 ↔ fl.blockOf (fl.sectorOf a) = fl.blockOf q := by
        intro a
        have hq : fl.sectorOf (q * fl.sectorSize) = q := Nat.mul_div_cancel _ hpos
        rw [blockOf_sectorOf h, ← hq, blockOf_sectorOf h, hq]
      rw [writeMulti_mem h (by omega) ?_ hok, hmem]
      · funext a
        simp only [Mem.write, eraseAt, hlen, hblock]
        by_cases ha : fl.sectorOf a = q
        · obtain ⟨i, hi, rfl⟩ := (hsector a).mp ha
          rw [if_pos (by omega), if_pos ha, Nat.add_sub_cancel_left, himage i hi]
        · have hout : ¬ (q * fl.sectorSize ≤ a ∧ a < q * fl.sectorSize + fl.sectorSize) := by
            intro hin
            exact ha ((hsector a).mpr ⟨a - q * fl.sectorSize, by omega, by omega⟩)
          rw [if_neg hout, if_neg ha]
      · intro i hi
        rw [hmem, eraseAt, if_pos]
        rw [hblock, (hsector _).mpr ⟨i, by omega, rfl⟩]

/-- The contents after `i` sectors of the range. -/
noncomputable def updated (fl : SpiFlash) (offset : Nat) (buf : List UInt8) (old : Mem) (i : Nat) : Mem :=
  rewriteN fl.sectorOf 0xff (image offset buf) fl.blockOf old (fl.sectorOf offset) i

section Update

variable (fate) (h : fl.Winbond) {o n : Nat} {buf : List UInt8} (hlen : buf.length = n * fl.sectorSize)
  (hsize : o * fl.sectorSize + n * fl.sectorSize ≤ fl.size)

include h in
theorem sectorOf_mul (o : Nat) : fl.sectorOf (o * fl.sectorSize) = o := Nat.mul_div_cancel _ h.sector_pos

theorem sector_getD (i j : Nat) (hj : j < fl.sectorSize) :
    ((buf.drop (i * fl.sectorSize)).take fl.sectorSize).getD j 0 =
      image (o * fl.sectorSize) buf ((o + i) * fl.sectorSize + j) := by
  have haddr : (o + i) * fl.sectorSize + j - o * fl.sectorSize = i * fl.sectorSize + j := by
    rw [Nat.add_mul]; omega
  rw [image, haddr]
  simp [List.getD_eq_getElem?_getD, hj]

include h hlen hsize in
theorem updateLoop_mem (old : Mem) (k : Nat) : ∀ (i fuel : Nat) (b : Bus), i + k = n → k ≤ fuel →
    b.mem = updated fl (o * fl.sectorSize) buf old i →
    (updateLoop fl fate fuel ((o + i) * fl.sectorSize) (buf.drop (i * fl.sectorSize)) b).1 = false →
    (updateLoop fl fate fuel ((o + i) * fl.sectorSize) (buf.drop (i * fl.sectorSize)) b).2.mem =
      updated fl (o * fl.sectorSize) buf old n := by
  have hpos := h.sector_pos
  have hlt := h.size_lt
  induction k with
  | zero =>
      intro i fuel b hi hf hb hok
      obtain rfl : i = n := by omega
      have hnil : buf.drop (i * fl.sectorSize) = [] := List.drop_eq_nil_of_le (by omega)
      rw [hnil]
      cases fuel <;> simp [updateLoop, hb]
  | succ k ih =>
      intro i fuel b hi hf hb hok
      obtain ⟨fuel, rfl⟩ : ∃ f, fuel = f + 1 := ⟨fuel - 1, by omega⟩
      have hleft : (buf.drop (i * fl.sectorSize)).length = k * fl.sectorSize + fl.sectorSize := by
        rw [List.length_drop, hlen, ← hi, Nat.add_mul, Nat.add_mul, Nat.one_mul]
        omega
      have hne : buf.drop (i * fl.sectorSize) ≠ [] := by
        intro hnil
        rw [hnil] at hleft
        simp at hleft
        omega
      have htodo : min (buf.drop (i * fl.sectorSize)).length fl.sectorSize = fl.sectorSize := by omega
      have hroom : (o + i) * fl.sectorSize + fl.sectorSize ≤ fl.size := by
        have : n * fl.sectorSize = i * fl.sectorSize + (k * fl.sectorSize + fl.sectorSize) := by
          rw [← hi, Nat.add_mul, Nat.add_mul, Nat.one_mul]
        rw [Nat.add_mul]
        omega
      have hnext : u32 ((o + i) * fl.sectorSize + fl.sectorSize) = (o + (i + 1)) * fl.sectorSize := by
        rw [u32, Nat.mod_eq_of_lt (by omega), ← Nat.add_assoc, Nat.add_mul _ 1, Nat.one_mul]
      have hdrop : (buf.drop (i * fl.sectorSize)).drop fl.sectorSize = buf.drop ((i + 1) * fl.sectorSize) := by
        rw [List.drop_drop, Nat.add_mul i 1, Nat.one_mul]
      rw [updateLoop, if_neg hne] at hok ⊢
      dsimp only at hok ⊢
      rw [htodo] at hok ⊢
      obtain ⟨hblock, heq⟩ := step_ok hok
      rw [heq] at hok ⊢
      rw [hnext, hdrop] at hok ⊢
      refine ih (i + 1) fuel _ (by omega) (by omega) ?_ hok
      rw [updateBlock_mem h (by rw [List.length_take]; omega) hroom (fun j hj => sector_getD i j hj) hblock, hb]
      rw [updated, updated, rewriteN, sectorOf_mul h]

include h hlen hsize in
theorem updateLoop_all (old : Mem) (hok : (updateLoop fl fate buf.length (o * fl.sectorSize) buf ⟨old, 0⟩).1 = false) :
    (updateLoop fl fate buf.length (o * fl.sectorSize) buf ⟨old, 0⟩).2.mem =
      updated fl (o * fl.sectorSize) buf old n := by
  have hfuel : n ≤ buf.length := by
    rw [hlen]
    exact Nat.le_mul_of_pos_right n h.sector_pos
  have := updateLoop_mem fate h hlen hsize old n 0 buf.length ⟨old, 0⟩ (by omega) hfuel rfl
  simp only [Nat.add_zero, Nat.zero_mul, List.drop_zero] at this
  exact this hok

include h in
theorem updateLoop_works (hw : ∀ m, (fate m).err = false) (fuel : Nat) : ∀ (offset : Nat) (buf : List UInt8) (b : Bus),
    offset % fl.sectorSize = 0 → buf.length % fl.sectorSize = 0 → (updateLoop fl fate fuel offset buf b).1 = false := by
  have hpos := h.sector_pos
  induction fuel with
  | zero =>
      intro offset buf b _ _
      rfl
  | succ fuel ih =>
      intro offset buf b ho hl
      rw [updateLoop]
      split
      · rfl
      · rename_i hnil
        have hle : fl.sectorSize ≤ buf.length :=
          Nat.le_of_dvd (List.length_pos_iff.mpr hnil) (Nat.dvd_of_mod_eq_zero hl)
        have htodo : min buf.length fl.sectorSize = fl.sectorSize := Nat.min_eq_right hle
        have htake : (buf.take fl.sectorSize).length = fl.sectorSize := by
          rw [List.length_take, Nat.min_eq_left hle]
        dsimp only
        rw [htodo, if_neg (by rw [updateBlock_works hw ho (by rw [htake, Nat.mod_self])]; decide)]
        apply ih
        · have hdvd : fl.sectorSize ∣ 2 ^ 32 := h.dvd.trans (by decide)
          rw [u32, Nat.mod_mod_of_dvd _ hdvd, Nat.add_mod_right, ho]
        · rw [List.length_drop, ← Nat.mod_eq_sub_mod hle, hl]

end Update

/-- What `sf update` should leave: the buffer in the range, everything else as it was. -/
def Updated (offset : Nat) (buf : List UInt8) (old mem : Mem) : Prop :=
  ∀ a, mem a = if offset ≤ a ∧ a < offset + buf.length then buf.getD (a - offset) 0 else old a

/-- The erases take nothing, in the 64 KiB blocks in which a sector of the range differs from the buffer: bytes outside the
range are 0xFF already, and of the sectors of the range one at most is not to be all 0xFF and it is not before all those
that differ. -/
def Spared (fl : SpiFlash) (offset : Nat) (buf : List UInt8) (old : Mem) : Prop :=
  Keeps fl.sectorOf 0xff (image offset buf) fl.blockOf old (offset / fl.sectorSize) (buf.length / fl.sectorSize)

/-- Sectors of 64 KiB are erased alone. -/
theorem spared_of_sector_64K (h : fl.sectorSize = 65536) (offset : Nat) (buf : List UInt8) (old : Mem) :
    Spared fl offset buf old := by
  have hblock : ∀ q, fl.blockOf q = q := by
    intro q
    simp [SpiFlash.blockOf, h]
  intro q hq hqn hd
  simp only [hblock]
  refine ⟨fun a ha hout => absurd ⟨hq, hqn⟩ (ha ▸ hout), fun j hj hjn hjq _ => ?_⟩
  exact ⟨fun k _ _ hkq hkj => absurd (hkq.trans hjq.symm) hkj, q, hq, by omega, rfl, hd⟩

theorem updated_iff_spared (h : fl.Winbond) {offset : Nat} {buf : List UInt8} {old : Mem} (ho : fl.sectorSize ∣ offset)
    (hl : fl.sectorSize ∣ buf.length) :
    Updated offset buf old (updated fl offset buf old (buf.length / fl.sectorSize)) ↔ Spared fl offset buf old := by
  have hpos := h.sector_pos
  rw [Spared, ← rewriteN_exact_iff, Replaced, Updated]
  have hrange : ∀ a, (offset / fl.sectorSize ≤ fl.sectorOf a ∧
      fl.sectorOf a < offset / fl.sectorSize + buf.length / fl.sectorSize) ↔ (offset ≤ a ∧ a < offset + buf.length) := by
    intro a
    obtain ⟨o, rfl⟩ := ho
    obtain ⟨n, hn⟩ := hl
    rw [hn, Nat.mul_div_cancel_left _ hpos, Nat.mul_div_cancel_left _ hpos, SpiFlash.sectorOf, Nat.le_div_iff_mul_le hpos,
      Nat.div_lt_iff_lt_mul hpos, Nat.add_mul, Nat.mul_comm o, Nat.mul_comm n]
  simp only [hrange]
  rfl

/-- What a successful update leaves. -/
theorem spiFlashUpdate_mem (h : fl.Winbond) {offset : Nat} {buf : List UInt8} (ho : fl.sectorSize ∣ offset)
    (hl : fl.sectorSize ∣ buf.length) (hsize : offset + buf.length ≤ fl.size) {malloc : Bool} {old : Mem}
    (hok : (spiFlashUpdate fl malloc fate offset buf old).1 = false) :
    (spiFlashUpdate fl malloc fate offset buf old).2 = updated fl offset buf old (buf.length / fl.sectorSize) := by
  cases malloc with
  | false => cases hok
  | true =>
      obtain ⟨o, rfl⟩ := ho
      obtain ⟨n, hn⟩ := hl
      rw [Nat.mul_comm] at hn hsize
      rw [spiFlashUpdate, if_pos rfl] at hok ⊢
      dsimp only at hok ⊢
      rw [Nat.mul_comm] at hok ⊢
      rw [hn, Nat.mul_div_cancel _ h.sector_pos, ← hn]
      exact updateLoop_all fate h hn (by omega) old hok

/-- Without failures the update succeeds. -/
theorem spiFlashUpdate_works (h : fl.Winbond) (hw : ∀ m, (fate m).err = false) {offset : Nat} {buf : List UInt8}
    (ho : fl.sectorSize ∣ offset) (hl : fl.sectorSize ∣ buf.length) (old : Mem) :
    (spiFlashUpdate fl true fate offset buf old).1 = false :=
  updateLoop_works fate h hw buf.length offset buf ⟨old, 0⟩ (Nat.mod_eq_zero_of_dvd ho) (Nat.mod_eq_zero_of_dvd hl)

theorem spared_of_exact (h : fl.Winbond) {offset : Nat} {buf : List UInt8} (ho : fl.sectorSize ∣ offset)
    (hl : fl.sectorSize ∣ buf.length) (hsize : offset + buf.length ≤ fl.size) {old : Mem}
    (hall : ∀ malloc fate, (spiFlashUpdate fl malloc fate offset buf old).1 = false →
      Updated offset buf old (spiFlashUpdate fl malloc fate offset buf old).2) : Spared fl offset buf old := by
  have hok : (spiFlashUpdate fl true (fun _ => ⟨false, true⟩) offset buf old).1 = false :=
    spiFlashUpdate_works h (fun _ => rfl) ho hl old
  rw [← updated_iff_spared h ho hl, ← spiFlashUpdate_mem h ho hl hsize hok]
  exact hall true _ hok

/-- `sf update` is exact when, and only when, its erases take nothing. -/
theorem update_exact_iff {id : Nat} {en4b : Bool} (hprobe : spiFlashProbeWinbond id en4b = some fl) {offset : Nat}
    {buf : List UInt8} (ho : fl.sectorSize ∣ offset) (hl : fl.sectorSize ∣ buf.length)
    (hsize : offset + buf.length ≤ fl.size) (old : Mem) :
    (∀ malloc fate, (spiFlashUpdate fl malloc fate offset buf old).1 = false →
      Updated offset buf old (spiFlashUpdate fl malloc fate offset buf old).2) ↔ Spared fl offset buf old := by
  have h := winbond_of_probe hprobe
  refine ⟨spared_of_exact h ho hl hsize, fun hspared malloc fate hok => ?_⟩
  rw [spiFlashUpdate_mem h ho hl hsize hok]
  exact (updated_iff_spared h ho hl).mpr hspared

/-- The W25Q128. -/
def w25q128 : SpiFlash := ⟨256, 65536, 16777216, 3⟩

theorem update_exact_iff_example : spiFlashProbeWinbond 0x4018 true = some w25q128 ∧ ∀ malloc fate,
    (spiFlashUpdate w25q128 malloc fate 65536 (List.replicate w25q128.sectorSize 0x5a) (fun _ => 0)).1 = false →
      Updated 65536 (List.replicate w25q128.sectorSize 0x5a) (fun _ => 0)
        (spiFlashUpdate w25q128 malloc fate 65536 (List.replicate w25q128.sectorSize 0x5a) (fun _ => 0)).2 := by
  have hprobe : spiFlashProbeWinbond 0x4018 true = some w25q128 := rfl
  have hlen : (List.replicate w25q128.sectorSize (0x5a : UInt8)).length = w25q128.sectorSize := List.length_replicate
  refine ⟨hprobe, ?_⟩
  refine (update_exact_iff hprobe (by decide) (by rw [hlen]) ?_ _).mpr (spared_of_sector_64K rfl _ _ _)
  rw [hlen]
  decide

/-- The W25X40. -/
def w25x40 : SpiFlash := ⟨256, 4096, 524288, 3⟩

/-- Writing the first 4 KiB of it erases the 60 KiB after them. -/
theorem update_erases_neighbours : spiFlashProbeWinbond 0x3013 true = some w25x40 ∧
    ¬ ∀ malloc fate, (spiFlashUpdate w25x40 malloc fate 0 (List.replicate w25x40.sectorSize 0) (fun _ => 1)).1 = false →
      Updated 0 (List.replicate w25x40.sectorSize 0) (fun _ => 1)
        (spiFlashUpdate w25x40 malloc fate 0 (List.replicate w25x40.sectorSize 0) (fun _ => 1)).2 := by
  have hprobe : spiFlashProbeWinbond 0x3013 true = some w25x40 := rfl
  have hlen : (List.replicate w25x40.sectorSize (0 : UInt8)).length = w25x40.sectorSize := List.length_replicate
  refine ⟨hprobe, fun hall => ?_⟩
  have hspared := spared_of_exact (winbond_of_probe hprobe) (by decide) (by rw [hlen]) (by rw [hlen]; decide) hall
  rw [Spared, hlen] at hspared
  have hdirty : Dirty w25x40.sectorOf (image 0 (List.replicate w25x40.sectorSize 0)) (fun _ => 1) 0 := by
    refine ⟨0, by decide, ?_⟩
    rw [image, List.getD_replicate _ (by decide)]
    decide
  have hlost := (hspared 0 (by decide) (by decide) hdirty).1 4096 (by decide) (by decide)
  exact absurd hlost (by decide)

end Uboot.Sf
