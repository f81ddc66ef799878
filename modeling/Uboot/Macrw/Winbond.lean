import Uboot.Macrw.Write
import Uboot.Sf.Commands

/-!
# The ART partition on a Winbond part

The partition is one of the blocks that an erase takes.
-/

namespace Uboot.Macrw

open Lib Sf

section
variable {fl : SpiFlash} {fate : Nat → Fate} {b : Bus} {block offset fuel : Nat} {mem : Mem}

theorem eraseAt_eraseAt (n a : Nat) (mem : Mem) : eraseAt n a (eraseAt n a mem) = eraseAt n a mem := by
  funext i
  rw [eraseAt, eraseAt]
  split
  next => rfl
  next => rfl

/-- The sectors of one block are erased: each of them is the whole block. -/
theorem eraseLoop_block (h : fl.Winbond) (hsize : (block + 1) * 65536 ≤ fl.size) (hlo : block * 65536 ≤ offset)
    (hhi : offset ≤ (block + 1) * 65536) (hdvd : fl.sectorSize ∣ offset) (hfuel : (block + 1) * 65536 - offset < fuel)
    (hok : (eraseLoop fl fate 0xd8 fl.sectorSize ((block + 1) * 65536) fuel offset b).1 = false) :
    (eraseLoop fl fate 0xd8 fl.sectorSize ((block + 1) * 65536) fuel offset b).2.mem =
      if offset < (block + 1) * 65536 then eraseAt 65536 (block * 65536) b.mem else b.mem := by
  induction fuel generalizing offset b with
  | zero => omega
  | succ fuel ih =>
      have hpos := h.sector_pos
      have hlt := h.size_lt
      rw [eraseLoop] at hok ⊢
      by_cases hend : offset < (block + 1) * 65536
      case neg => rw [if_neg hend, if_neg hend]
      rw [if_pos hend] at hok ⊢
      rw [if_pos hend]
      dsimp only at hok ⊢
      obtain ⟨-, heq⟩ := step_ok hok
      rw [heq] at hok ⊢
      obtain ⟨he, heq⟩ := step_ok hok
      rw [heq] at hok ⊢
      obtain ⟨-, heq⟩ := step_ok hok
      rw [heq] at hok ⊢
      have hnext : offset + fl.sectorSize ≤ (block + 1) * 65536 := by
        obtain ⟨k, hk⟩ := h.dvd
        obtain ⟨o, rfl⟩ := hdvd
        have hall : (block + 1) * 65536 = fl.sectorSize * ((block + 1) * k) := by rw [hk]; ring
        rw [hall] at hend ⊢
        have := Nat.lt_of_mul_lt_mul_left hend
        calc fl.sectorSize * o + fl.sectorSize = fl.sectorSize * (o + 1) := by ring
          _ ≤ fl.sectorSize * ((block + 1) * k) := Nat.mul_le_mul_left _ this
      have hwrap : u32 (offset + fl.sectorSize) = offset + fl.sectorSize := Nat.mod_eq_of_lt (by omega)
      rw [hwrap] at hok ⊢
      have hlo' : block * 65536 ≤ offset + fl.sectorSize := hlo.trans (Nat.le_add_right _ _)
      have hfuel' : (block + 1) * 65536 - (offset + fl.sectorSize) < fuel := by omega
      have hrest := ih hlo' hnext (Nat.dvd_add hdvd (dvd_refl _)) hfuel' hok
      rw [hrest, busOp_mem]
      have haddr := addrOf_spiFlashAddr h (show offset < fl.size by omega) 0xd8 []
      rw [List.append_nil] at haddr
      have herased : (xfer fl fate (0xd8 :: spiFlashAddr fl offset) [] (busOp fate b).2).2.mem =
          eraseAt 65536 (block * 65536) b.mem := by
        have hblock : offset / 65536 = block * 65536 / 65536 := by omega
        simp only [xfer] at he ⊢
        simp only [he, Bool.false_eq_true, false_and, if_false, chipWrite, haddr, List.head?_cons, busOp_mem]
        funext i
        rw [eraseAt, eraseAt, hblock]
      rw [herased]
      split
      next => exact eraseAt_eraseAt _ _ _
      next => rfl

theorem winbondErase_art (h : fl.Winbond) (hsize : artOffset + artSize ≤ fl.size)
    (hok : (winbondErase fl fate artOffset artSize b).1 = false) :
    (winbondErase fl fate artOffset artSize b).2.mem =
      fun a => if artOffset ≤ a ∧ a < artOffset + artSize then 0xff else b.mem a := by
  have hend : u32 (artOffset + artSize) = (23 + 1) * 65536 := rfl
  have hdvd : fl.sectorSize ∣ artOffset := h.dvd.trans ⟨23, rfl⟩
  rw [winbondErase, spiFlashCmdErase] at hok ⊢
  dsimp only at hok ⊢
  split at hok
  next => cases hok
  next hal =>
    rw [if_neg hal]
    obtain ⟨-, heq⟩ := step_ok hok
    rw [heq, hend] at hok ⊢
    rw [eraseLoop_block h (by rw [artOffset, artSize] at hsize; omega) (by rw [artOffset]) (by rw [artOffset]; omega) hdvd
      (by rw [artOffset, artSize]; omega) hok, busOp_mem, if_pos (by rw [artOffset]; omega)]
    funext a
    have hblock : a / 65536 = 23 * 65536 / 65536 ↔ artOffset ≤ a ∧ a < artOffset + artSize := by
      rw [artOffset, artSize]
      omega
    by_cases ha : a / 65536 = 23 * 65536 / 65536
    · rw [eraseAt, if_pos ha, if_pos (hblock.mp ha)]
    · rw [eraseAt, if_neg ha, if_neg (mt hblock.mpr ha)]

end

/-- The driver, on a part that has the partition -/
def winbondArt (fl : SpiFlash) (h : fl.Winbond) (hsize : artOffset + artSize ≤ fl.size) (fate : Nat → Fate) : ArtFlash Bus where
  mem := Bus.mem
  read b :=
    let r := spiFlashCmdReadFast fl fate artOffset artSize b
    (!r.1, r.2.1, r.2.2)
  erase b :=
    let e := winbondErase fl fate artOffset artSize b
    (!e.1, e.2)
  write bs b :=
    let w := spiFlashCmdWriteMulti fl fate artOffset bs b
    (!w.1, w.2)
  read_ok b _ := by
    have hlt : artOffset < fl.size := by
      rw [artOffset, artSize] at hsize
      rw [artOffset]
      omega
    dsimp only
    rw [readFast_data h hlt]
  erase_ok b hok := winbondErase_art h hsize ((Bool.not_eq_true' _).mp hok)
  write_ok bs b hlen hff hok := by
    rw [← hlen] at hsize hff
    exact writeMulti_mem h hsize hff ((Bool.not_eq_true' _).mp hok)

/-- On a bus that works the calls succeed. -/
theorem flashWriteMac_works {fl : SpiFlash} (h : fl.Winbond) (hsize : artOffset + artSize ≤ fl.size) {fate : Nat → Fate}
    (hw : ∀ n, (fate n).err = false) {interface macStr : List UInt8} (hmac : (normalizeMacString macStr).isSome)
    (hiface : (getMacAddressPtr interface).isSome) (s : State Bus) :
    (flashWriteMac (winbondArt fl h hsize fate) interface macStr s).1 = true := by
  obtain ⟨cleanMac, hclean⟩ := Option.isSome_iff_exists.mp hmac
  obtain ⟨⟨mac, isWifi⟩, hptr⟩ := Option.isSome_iff_exists.mp hiface
  have hread : ∀ b, ((winbondArt fl h hsize fate).read b).1 = true := by
    intro b
    simp [winbondArt, spiFlashCmdReadFast, busOp, hw]
  have herase : ∀ b, ((winbondArt fl h hsize fate).erase b).1 = true := by
    intro b
    have hoffset : artOffset % fl.sectorSize = 0 := Nat.mod_eq_zero_of_dvd (h.dvd.trans ⟨23, rfl⟩)
    have hlen : artSize % fl.sectorSize = 0 := Nat.mod_eq_zero_of_dvd (h.dvd.trans ⟨1, rfl⟩)
    simp [winbondArt, winbondErase, spiFlashCmdErase, hoffset, hlen, busOp, hw, eraseLoop_works hw]
  have hwrite : ∀ bs b, ((winbondArt fl h hsize fate).write bs b).1 = true := by
    intro bs b
    simp [winbondArt, spiFlashCmdWriteMulti, busOp, hw, writeLoop_works hw]
  rw [flashWriteMac, hclean, hptr]
  simp [readFlashArt, writeFlashArt, hread, herase, hwrite]

end Uboot.Macrw
