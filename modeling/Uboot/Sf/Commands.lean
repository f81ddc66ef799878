import Uboot.Sf.Basic

/-!
# What the commands do on a Winbond part
-/

namespace Uboot.Sf

open Lib

/-- What the probe makes of every part of the table. -/
structure SpiFlash.Winbond (fl : SpiFlash) : Prop where
  page : fl.pageSize = 256
  sector : fl.sectorSize = 4096 ∨ fl.sectorSize = 65536
  addr : fl.addrWidth = 3 ∧ fl.size ≤ 2 ^ 24 ∨ fl.addrWidth = 4 ∧ fl.size ≤ 2 ^ 25

theorem winbond_of_probe {id : Nat} {en4b : Bool} {fl : SpiFlash} (h : spiFlashProbeWinbond id en4b = some fl) :
    fl.Winbond := by
  obtain ⟨params, hfind, rfl⟩ := Option.map_eq_some_iff.mp h
  have hmem := List.mem_of_find?_eq_some hfind
  simp only [winbondSpiFlashTable, List.mem_cons, List.not_mem_nil, or_false] at hmem
  obtain rfl | rfl | rfl | rfl | rfl | rfl | rfl | rfl | rfl | rfl | rfl | rfl := hmem <;>
    cases en4b <;> exact ⟨by decide, by decide, by decide⟩

variable {fl : SpiFlash} {fate : Nat → Fate} {b : Bus}

theorem SpiFlash.Winbond.size_lt (h : fl.Winbond) : fl.size < 2 ^ 32 := by
  cases h.addr <;> omega

theorem SpiFlash.Winbond.sector_pos (h : fl.Winbond) : 0 < fl.sectorSize := by
  cases h.sector <;> omega

theorem SpiFlash.Winbond.dvd (h : fl.Winbond) : fl.sectorSize ∣ 65536 := by
  cases h.sector with
  | inl h => rw [h]; decide
  | inr h => rw [h]

theorem step_ok {x y : Bool × Bus} (h : (if x.1 = true then x else y).1 = false) :
    x.1 = false ∧ (if x.1 = true then x else y) = y := by
  cases hx : x.1 with
  | false => simp
  | true => simp [hx] at h

@[simp] theorem busOp_mem : (busOp fate b).2.mem = b.mem := rfl

/-! ## Addresses -/

theorem addrOf_spiFlashAddr (h : fl.Winbond) {a : Nat} (ha : a < fl.size) (c : UInt8) (rest : List UInt8) :
    addrOf fl.addrWidth (c :: spiFlashAddr fl a ++ rest) = a := by
  cases h.addr with
  | inl h =>
      simp [addrOf, spiFlashAddr, h.1, List.range_succ, Nat.shiftRight_eq_div_pow]
      omega
  | inr h =>
      simp [addrOf, spiFlashAddr, h.1, List.range_succ, Nat.shiftRight_eq_div_pow]
      omega

theorem addrOf_pageAddr (h : fl.Winbond) {page byte : Nat} (hb : byte < 256) (ha : page * 256 + byte < fl.size) (c : UInt8) :
    addrOf fl.addrWidth (c :: pageAddr fl page byte) = page * 256 + byte := by
  cases h.addr with
  | inl h =>
      simp [addrOf, pageAddr, h.1, Nat.shiftRight_eq_div_pow]
      omega
  | inr h =>
      simp [addrOf, pageAddr, h.1, Nat.shiftRight_eq_div_pow]
      omega

/-! ## Programming erased bytes -/

/-- The `n` bytes at `a` are erased. -/
def Erased (mem : Mem) (a n : Nat) : Prop := ∀ i < n, mem (a + i) = 0xff

theorem program_erased {page : Nat} : ∀ (bs : List UInt8) (i : Nat) (mem : Mem), i + bs.length ≤ 256 →
    Erased mem (page * 256 + i) bs.length → program page bs i mem = mem.write (page * 256 + i) bs := by
  intro bs
  induction bs with
  | nil =>
      intro i mem _ _
      funext a
      simp [program, Mem.write]
  | cons x bs ih =>
      intro i mem hi he
      have hmod : i % 256 = i := Nat.mod_eq_of_lt (by simp at hi; omega)
      have h0 : mem (page * 256 + i) = 0xff := by simpa using he 0 (by simp)
      have hand : (0xff : UInt8) &&& x = x := UInt8.neg_one_and
      rw [program, hmod, h0, hand, ih (i + 1) _ (by simp at hi; omega) ?_]
      · funext a
        simp only [Mem.write, List.length_cons, Function.update_apply]
        by_cases ha : a = page * 256 + i
        · subst ha
          simp
        · by_cases hin : page * 256 + i ≤ a ∧ a < page * 256 + i + (bs.length + 1)
          · obtain ⟨k, rfl⟩ : ∃ k, a = page * 256 + i + (k + 1) := ⟨a - (page * 256 + i) - 1, by omega⟩
            rw [if_pos (by omega), if_pos hin]
            rw [show page * 256 + i + (k + 1) - (page * 256 + (i + 1)) = k by omega,
              show page * 256 + i + (k + 1) - (page * 256 + i) = k + 1 by omega, List.getD_cons_succ]
          · rw [if_neg (by omega), if_neg hin, if_neg ha]
      · intro k hk
        rw [Function.update_of_ne (by omega)]
        have := he (k + 1) (by simpa using hk)
        rwa [show page * 256 + i + (k + 1) = page * 256 + (i + 1) + k by omega] at this

/-- One page. -/
theorem xfer_program (h : fl.Winbond) {page byte : Nat} {bs : List UInt8} (hb : byte < 256)
    (hlen : byte + bs.length ≤ 256) (hsize : page * 256 + byte < fl.size)
    (he : Erased b.mem (page * 256 + byte) bs.length) (hok : (xfer fl fate (0x02 :: pageAddr fl page byte) bs b).1 = false) :
    (xfer fl fate (0x02 :: pageAddr fl page byte) bs b).2.mem = b.mem.write (page * 256 + byte) bs := by
  simp only [xfer] at hok
  have hdiv : (page * 256 + byte) / 256 = page := by omega
  have hmod : (page * 256 + byte) % 256 = byte := by omega
  simp only [xfer, hok, Bool.false_eq_true, false_and, if_false, chipWrite, List.head?_cons,
    addrOf_pageAddr h hb hsize, hdiv, hmod]
  exact program_erased bs byte b.mem hlen he

theorem writeLoop_mem (h : fl.Winbond) : ∀ (fuel page byte : Nat) (buf : List UInt8) (b : Bus), buf.length ≤ fuel →
    byte < 256 → page * 256 + byte + buf.length ≤ fl.size → Erased b.mem (page * 256 + byte) buf.length →
    (writeLoop fl fate fuel page byte buf b).1 = false →
    (writeLoop fl fate fuel page byte buf b).2.mem = b.mem.write (page * 256 + byte) buf := by
  intro fuel
  induction fuel with
  | zero =>
      intro page byte buf b hf _ _ _ _
      obtain rfl : buf = [] := List.length_eq_zero_iff.mp (by omega)
      funext a
      simp [writeLoop, Mem.write]
  | succ fuel ih =>
      intro page byte buf b hf hb hsize he hok
      rw [writeLoop] at hok ⊢
      split at hok
      · rename_i hnil
        subst hnil
        funext a
        simp [Mem.write]
      · rename_i hnil
        have hpos : 0 < buf.length := List.length_pos_iff.mpr hnil
        rw [if_neg hnil]
        dsimp only at hok ⊢
        rw [h.page] at hok ⊢
        generalize hc : min buf.length (256 - byte) = chunk at hok ⊢
        have htake : (buf.take chunk).length = chunk := by simp; omega
        obtain ⟨-, heq⟩ := step_ok hok
        rw [heq] at hok ⊢
        obtain ⟨hw, heq⟩ := step_ok hok
        rw [heq] at hok ⊢
        obtain ⟨-, heq⟩ := step_ok hok
        rw [heq] at hok ⊢
        have hmem : (xfer fl fate (0x02 :: pageAddr fl page byte) (buf.take chunk) (busOp fate b).2).2.mem =
            b.mem.write (page * 256 + byte) (buf.take chunk) :=
          xfer_program h hb (by omega) (by omega) (fun i hi => he i (by omega)) hw
        generalize xfer fl fate (0x02 :: pageAddr fl page byte) (buf.take chunk) (busOp fate b).2 = w at *
        have hdrop : (buf.drop chunk).length = buf.length - chunk := List.length_drop
        have hwrite : (b.mem.write (page * 256 + byte) (buf.take chunk)).write (page * 256 + byte + chunk) (buf.drop chunk) =
            b.mem.write (page * 256 + byte) buf := by
          have := Mem.write_append b.mem (page * 256 + byte) (buf.take chunk) (buf.drop chunk)
          rwa [htake, List.take_append_drop] at this
        rw [← hwrite]
        -- what is left starts the next page, or nothing is left
        cases Nat.lt_or_ge chunk buf.length with
        | inl hmore =>
            have hpage : page * 256 + byte + chunk = (page + 1) * 256 + 0 := by omega
            have herased : Erased (busOp fate w.2).2.mem ((page + 1) * 256 + 0) (buf.drop chunk).length := by
              intro i hi
              rw [busOp_mem, hmem, ← hpage, Mem.write_of_ge (by omega)]
              have := he (chunk + i) (by omega)
              rwa [← Nat.add_assoc] at this
            have hsize' : (page + 1) * 256 + 0 + (buf.drop chunk).length ≤ fl.size := by
              rwa [← hpage, hdrop, Nat.add_assoc _ chunk, Nat.add_sub_of_le (Nat.le_of_lt hmore)]
            have hnext := ih (page + 1) 0 (buf.drop chunk) (busOp fate w.2).2 (by omega) (by decide) hsize' herased hok
            rw [hnext, busOp_mem, hmem, hpage]
        | inr hlast =>
            have hnil' : buf.drop chunk = [] := List.drop_eq_nil_of_le hlast
            have hdone : ∀ b', writeLoop fl fate fuel (page + 1) 0 [] b' = (false, b') := by
              intro b'
              cases fuel <;> simp [writeLoop]
            rw [hnil', hdone, busOp_mem, hmem]
            funext a
            simp only [Mem.write, List.length_nil]
            rw [if_neg (show ¬ (page * 256 + byte + chunk ≤ a ∧ a < page * 256 + byte + chunk + 0) by omega)]

/-- `spi_flash_cmd_write_multi` into erased bytes. -/
theorem writeMulti_mem (h : fl.Winbond) {offset : Nat} {buf : List UInt8} (hsize : offset + buf.length ≤ fl.size)
    (he : Erased b.mem offset buf.length) (hok : (spiFlashCmdWriteMulti fl fate offset buf b).1 = false) :
    (spiFlashCmdWriteMulti fl fate offset buf b).2.mem = b.mem.write offset buf := by
  rw [spiFlashCmdWriteMulti] at hok ⊢
  obtain ⟨-, heq⟩ := step_ok hok
  rw [heq] at hok ⊢
  rw [h.page] at hok ⊢
  have haddr : offset / 256 * 256 + offset % 256 = offset := Nat.div_add_mod' offset 256
  have := writeLoop_mem h buf.length (offset / 256) (offset % 256) buf (busOp fate b).2 (Nat.le_refl _)
    (Nat.mod_lt _ (by decide)) (by omega) (by rwa [haddr]) hok
  rwa [haddr] at this

/-! ## Reading and erasing a sector -/

theorem readFast_data (h : fl.Winbond) {offset len : Nat} (hsize : offset < fl.size) :
    (spiFlashCmdReadFast fl fate offset len b).2.1 = b.mem.read offset len := by
  simp only [spiFlashCmdReadFast, chipRead]
  rw [addrOf_spiFlashAddr h hsize, busOp_mem]

/-- The erase of one sector takes the 64 KiB around it. -/
theorem winbondErase_mem (h : fl.Winbond) {offset : Nat} (hsize : offset + fl.sectorSize ≤ fl.size)
    (hok : (winbondErase fl fate offset fl.sectorSize b).1 = false) :
    (winbondErase fl fate offset fl.sectorSize b).2.mem = eraseAt 65536 offset b.mem := by
  have hpos := h.sector_pos
  have hlt := h.size_lt
  rw [winbondErase, spiFlashCmdErase] at hok ⊢
  dsimp only at hok ⊢
  split at hok
  · cases hok
  · rename_i hal
    rw [if_neg hal]
    obtain ⟨-, heq⟩ := step_ok hok
    rw [heq] at hok ⊢
    have hend : u32 (offset + fl.sectorSize) = offset + fl.sectorSize := Nat.mod_eq_of_lt (by omega)
    rw [hend, eraseLoop, if_pos (by omega)] at hok ⊢
    dsimp only at hok ⊢
    obtain ⟨-, heq⟩ := step_ok hok
    rw [heq] at hok ⊢
    obtain ⟨he, heq⟩ := step_ok hok
    rw [heq] at hok ⊢
    obtain ⟨-, heq⟩ := step_ok hok
    rw [heq]
    have hdone : ∀ b', eraseLoop fl fate 0xd8 fl.sectorSize (offset + fl.sectorSize) fl.sectorSize
        (offset + fl.sectorSize) b' = (false, b') := by
      intro b'
      generalize fl.sectorSize = fuel at *
      cases fuel <;> simp [eraseLoop]
    rw [hend, hdone, busOp_mem]
    have haddr := addrOf_spiFlashAddr h (show offset < fl.size by omega) 0xd8 []
    rw [List.append_nil] at haddr
    simp only [xfer] at he ⊢
    simp [he, chipWrite, haddr]

/-! ## Commands that do not fail -/

section Works

variable (hw : ∀ n, (fate n).err = false)

include hw in
theorem writeLoop_works (fuel : Nat) : ∀ (page byte : Nat) (buf : List UInt8) (b : Bus),
    (writeLoop fl fate fuel page byte buf b).1 = false := by
  induction fuel with
  | zero =>
      intro page byte buf b
      rfl
  | succ fuel ih =>
      intro page byte buf b
      rw [writeLoop]
      split
      · rfl
      · simp [busOp, xfer, hw, ih]

include hw in
theorem eraseLoop_works (eraseCmd : UInt8) (eraseSize end_ fuel : Nat) : ∀ (offset : Nat) (b : Bus),
    (eraseLoop fl fate eraseCmd eraseSize end_ fuel offset b).1 = false := by
  induction fuel with
  | zero =>
      intro offset b
      rfl
  | succ fuel ih =>
      intro offset b
      rw [eraseLoop]
      split
      · simp [busOp, xfer, hw, ih]
      · rfl

include hw in
theorem updateBlock_works {offset : Nat} {buf : List UInt8} (ho : offset % fl.sectorSize = 0)
    (hl : buf.length % fl.sectorSize = 0) (b : Bus) : (spiFlashUpdateBlock fl fate offset buf b).1 = false := by
  have hread : ∀ b, (spiFlashCmdReadFast fl fate offset buf.length b).1 = false := by
    intro b
    simp [spiFlashCmdReadFast, busOp, hw]
  have herase : ∀ b, (winbondErase fl fate offset buf.length b).1 = false := by
    intro b
    simp [winbondErase, spiFlashCmdErase, ho, hl, busOp, hw, eraseLoop_works hw]
  rw [spiFlashUpdateBlock]
  simp only [hread, herase, Bool.false_eq_true, if_false]
  split
  · rfl
  · simp [spiFlashCmdWriteMulti, busOp, hw, writeLoop_works hw]

end Works

end Uboot.Sf
