import Uboot.Nand.Theorems

/-!
# SPI NOR as an MTD device

`ipq_spi_read` and `ipq_spi_write` (`drivers/mtd/ipq_spi_flash.c`) under `nand_read_skip_bad` and `nand_write_skip_bad` with
`flags` 0. The two functions return 0 in every case and say in `*retlen` how much they moved.
-/

namespace Uboot.Nand

open Uboot.Lib

/-! ## Skipping bad blocks over a driver that may fail -/

/-- `-EUCLEAN` -/
def euclean : Int := -117

/-- The functions of `struct mtd_info` on states `σ`: the result and `*retlen`, for a read with the buffer after it. -/
structure Driver (σ : Type) where
  read : Nat → List UInt8 → σ → Int × Nat × List UInt8 × σ
  write : Nat → List UInt8 → σ → Int × Nat × σ

namespace NandInfo

variable {σ : Type} (nand : NandInfo) (d : Driver σ)

/-- The loop of `nand_read_skip_bad`. `buf` has been read, `rest` is left. -/
def readLoopOver : Nat → Nat → List UInt8 → List UInt8 → Nat → σ → Option (Int × Nat × List UInt8 × σ)
  | 0, _, _, _, _, _ => none
  | fuel + 1, offset, buf, rest, length, s =>
      if rest.length = 0 then some (0, length, buf, s)
      else
        let blockOffset := offset % nand.erasesize
        if nand.bad (nand.lowBlockStart offset) then
          readLoopOver fuel (offset + (nand.erasesize - blockOffset)) buf rest length s
        else
          let readLength := min rest.length (nand.erasesize - blockOffset)
          let r := d.read offset (rest.take readLength) s
          let rest' := r.2.2.1 ++ rest.drop readLength
          if r.1 ≠ 0 ∧ r.1 ≠ euclean then some (r.1, length - rest.length, buf ++ rest', r.2.2.2)
          else readLoopOver fuel (offset + r.2.1) (buf ++ rest'.take r.2.1) (rest'.drop r.2.1) length r.2.2.2

/-- `nand_read_skip_bad` into a buffer: the result, `*length` and the buffer, or none while it runs. -/
def nandReadSkipBad (fuel : Nat) (offset : Nat) (buf : List UInt8) (s : σ) : Option (Int × Nat × List UInt8 × σ) :=
  if offset % nand.writesize ≠ 0 then some (einval, 0, buf, s)
  else
    match nand.checkSkipLen offset buf.length with
    | none => some (einval, 0, buf, s)
    | some false =>
        let r := d.read offset buf s
        if r.1 = 0 ∨ r.1 = euclean then some (0, r.2.1, r.2.2.1, r.2.2.2) else some (r.1, 0, r.2.2.1, r.2.2.2)
    | some true => nand.readLoopOver d fuel offset [] buf buf.length s

/-- The loop of `nand_write_skip_bad`. -/
def writeLoopOver : Nat → Nat → List UInt8 → Nat → σ → Option (Int × Nat × σ)
  | 0, _, _, _, _ => none
  | fuel + 1, offset, buf, length, s =>
      if buf.length = 0 then some (0, length, s)
      else
        let blockOffset := offset % nand.erasesize
        if nand.bad (nand.lowBlockStart offset) then
          writeLoopOver fuel (offset + (nand.erasesize - blockOffset)) buf length s
        else
          let writeSize := min buf.length (nand.erasesize - blockOffset)
          let r := d.write offset (buf.take writeSize) s
          if r.1 ≠ 0 then some (r.1, length - buf.length, r.2.2)
          else writeLoopOver fuel (offset + writeSize) (buf.drop writeSize) length r.2.2

/-- `nand_write_skip_bad`: the result and `*length`. -/
def nandWriteSkipBad (fuel : Nat) (offset : Nat) (buf : List UInt8) (s : σ) : Option (Int × Nat × σ) :=
  if offset % nand.writesize ≠ 0 then some (einval, 0, s)
  else
    match nand.checkSkipLen offset buf.length with
    | none => some (einval, 0, s)
    | some false =>
        let r := d.write offset buf s
        if r.1 = 0 then some (0, r.2.1, r.2.2) else some (r.1, 0, r.2.2)
    | some true => nand.writeLoopOver d fuel offset buf buf.length s

end NandInfo

/-! ## SPI NOR -/

/-- `ipq_spi_init`: no block is bad, and the size is that of `struct spi_flash`. -/
structure SpiNor extends NandInfo where
  bad_none : bad = fun _ => false
  size_lt_word : size < 2 ^ 32

/-- Which calls fail: of `spi_flash_read`, with what it makes of the buffer, of `spi_flash_write`, with how many bytes it
has stored, and of `malloc`. `store` is what stored bytes do to the flash. -/
structure SpiWorld where
  readFails : Nat → Option (List UInt8 → List UInt8)
  writeFails : Nat → Option Nat
  mallocFails : Nat → Bool
  store : Mem → Nat → List UInt8 → Mem

/-- The flash, the ranges of the calls so far, and their numbers. -/
structure SpiDev where
  mem : Mem
  log : List (Nat × Nat)
  reads : Nat
  writes : Nat
  mallocs : Nat

def SpiDev.start (mem : Mem) : SpiDev := ⟨mem, [], 0, 0, 0⟩

namespace SpiWorld

variable (w : SpiWorld)

/-- `spi_flash_read` for the bytes of a buffer: whether it fails, and the buffer. -/
def spiFlashRead (offset : Nat) (buf : List UInt8) (d : SpiDev) : Bool × List UInt8 × SpiDev :=
  let d' := { d with log := d.log ++ [(offset, buf.length)], reads := d.reads + 1 }
  match w.readFails d.reads with
  | some junk => (true, junk buf, d')
  | none => (false, d.mem.read offset buf.length, d')

def spiFlashWrite (offset : Nat) (buf : List UInt8) (d : SpiDev) : Bool × SpiDev :=
  let d' := { d with log := d.log ++ [(offset, buf.length)], writes := d.writes + 1 }
  match w.writeFails d.writes with
  | some n => (true, { d' with mem := w.store d.mem offset (buf.take n) })
  | none => (false, { d' with mem := w.store d.mem offset buf })

def malloc (d : SpiDev) : Bool × SpiDev := (w.mallocFails d.mallocs, { d with mallocs := d.mallocs + 1 })

end SpiWorld

namespace SpiNor

variable (nor : SpiNor) (w : SpiWorld)

/-- `unaligned_len`, and what is left of the length. -/
def unalignedLen (len : Nat) : Nat := len &&& (nor.erasesize - 1)

def alignedLen (len : Nat) : Nat := len - nor.unalignedLen len

def ipqSpiRead (offset : Nat) (buf : List UInt8) (d : SpiDev) : Int × Nat × List UInt8 × SpiDev :=
  let unaligned := nor.unalignedLen buf.length
  let len := nor.alignedLen buf.length
  let head := if len ≠ 0 then w.spiFlashRead offset (buf.take len) d else (false, [], d)
  let buf := head.2.1 ++ buf.drop len
  if head.1 then (0, 0, buf, head.2.2)
  else if unaligned ≠ 0 then
    let data := w.malloc head.2.2
    if data.1 then (0, len, buf, data.2)
    else
      let tail := w.spiFlashRead (offset + len) (List.replicate nor.erasesize 0) data.2
      if tail.1 then (0, len, buf, tail.2.2) else (0, len + unaligned, buf.take len ++ tail.2.1.take unaligned, tail.2.2)
  else (0, len, buf, head.2.2)

def ipqSpiWrite (offset : Nat) (buf : List UInt8) (d : SpiDev) : Int × Nat × SpiDev :=
  let r := w.spiFlashWrite offset buf d
  (0, if r.1 then 0 else buf.length, r.2)

def driver : Driver SpiDev where
  read := nor.ipqSpiRead w
  write := ipqSpiWrite w

/-! ## What 0 is taken to mean -/

/-- All calls were inside the device. -/
def Inside (d : SpiDev) : Prop := ∀ a ∈ d.log, a.1 + a.2 ≤ nor.size

/-- A read into `buf` that returns 0 has read all of it, inside the device. -/
def ReadMoves (offset : Nat) (buf : List UInt8) (mem : Mem) : Prop :=
  ∀ r, nor.ipqSpiRead w offset buf (.start mem) = r → r.1 = 0 →
    r.2.1 = buf.length ∧ r.2.2.1 = mem.read offset buf.length ∧ nor.Inside r.2.2.2

/-- A write of `buf` that returns 0 has stored all of it, inside the device. -/
def WriteMoves (offset : Nat) (buf : List UInt8) (mem : Mem) : Prop :=
  ∀ r, ipqSpiWrite w offset buf (.start mem) = r → r.1 = 0 →
    r.2.1 = buf.length ∧ r.2.2.mem = w.store mem offset buf ∧ nor.Inside r.2.2

/-- `nand_read_skip_bad` comes back, and has read all when it returns 0. -/
def ReadReports (offset : Nat) (buf : List UInt8) (mem : Mem) : Prop :=
  ∃ r, Returns (fun fuel => nor.nandReadSkipBad (nor.driver w) fuel offset buf (.start mem)) r ∧
    (r.1 = 0 → r.2.1 = buf.length ∧ r.2.2.1 = mem.read offset buf.length)

/-- `nand_write_skip_bad` comes back, and has stored all when it returns 0. -/
def WriteReports (offset : Nat) (buf : List UInt8) (mem : Mem) : Prop :=
  ∃ r, Returns (fun fuel => nor.nandWriteSkipBad (nor.driver w) fuel offset buf (.start mem)) r ∧
    (r.1 = 0 → r.2.1 = buf.length ∧ r.2.2.mem = w.store mem offset buf)

/-- The calls of a read of `len` bytes do not fail. -/
def ReadWorks (len : Nat) : Prop :=
  (nor.alignedLen len ≠ 0 → w.readFails 0 = none) ∧
    (nor.unalignedLen len ≠ 0 →
      w.mallocFails 0 = false ∧ w.readFails (if nor.alignedLen len ≠ 0 then 1 else 0) = none)

/-- The sector's worth of bytes from the tail on is inside the device. -/
def TailInside (offset len : Nat) : Prop :=
  nor.unalignedLen len ≠ 0 → offset + nor.alignedLen len + nor.erasesize ≤ nor.size

section
variable {nor : SpiNor} {w : SpiWorld} {offset : Nat} {buf : List UInt8} {mem : Mem} {d : SpiDev}

theorem aligned_add (nor : SpiNor) (len : Nat) : nor.alignedLen len + nor.unalignedLen len = len :=
  Nat.sub_add_cancel Nat.and_le_left

theorem unalignedLen_lt (nor : SpiNor) (len : Nat) : nor.unalignedLen len < nor.erasesize := by
  have hle : nor.unalignedLen len ≤ nor.erasesize - 1 := Nat.and_le_right
  have hpos := nor.erasesize_pos
  omega

/-- The first part of a read that works, or is not there. -/
theorem head_works (h : nor.alignedLen buf.length ≠ 0 → w.readFails d.reads = none) :
    (if nor.alignedLen buf.length ≠ 0 then w.spiFlashRead offset (buf.take (nor.alignedLen buf.length)) d else (false, [], d)) =
      (false, d.mem.read offset (nor.alignedLen buf.length),
        { d with
          log := d.log ++ if nor.alignedLen buf.length ≠ 0 then [(offset, nor.alignedLen buf.length)] else []
          reads := d.reads + if nor.alignedLen buf.length ≠ 0 then 1 else 0 }) := by
  have hadd := aligned_add nor buf.length
  split
  next hne =>
    have hlen : (buf.take (nor.alignedLen buf.length)).length = nor.alignedLen buf.length := by simp; omega
    simp [SpiWorld.spiFlashRead, h hne, hlen]
  next heq =>
    simp [not_not.mp heq, Mem.read]

theorem ipqSpiRead_works (h : nor.ReadWorks w buf.length) :
    ∃ d', nor.ipqSpiRead w offset buf (.start mem) = (0, buf.length, mem.read offset buf.length, d') ∧
      d'.log = (if nor.alignedLen buf.length ≠ 0 then [(offset, nor.alignedLen buf.length)] else []) ++
        if nor.unalignedLen buf.length ≠ 0 then [(offset + nor.alignedLen buf.length, nor.erasesize)] else [] := by
  have hadd := aligned_add nor buf.length
  have hlt := unalignedLen_lt nor buf.length
  rw [ipqSpiRead]
  dsimp only
  rw [head_works (d := .start mem) h.1]
  simp only [Bool.false_eq_true, if_false]
  split
  next hne =>
    obtain ⟨hmalloc, hread⟩ := h.2 hne
    have hmem : mem.read offset buf.length =
        mem.read offset (nor.alignedLen buf.length) ++
          mem.read (offset + nor.alignedLen buf.length) (nor.unalignedLen buf.length) := by
      rw [← Mem.read_add, hadd]
    simp only [SpiDev.start, SpiWorld.malloc, hmalloc, Bool.false_eq_true, if_false, SpiWorld.spiFlashRead, Nat.zero_add,
      hread, List.length_replicate]
    rw [hadd, hmem, List.take_left' Mem.read_length, Mem.read_take (Nat.le_of_lt hlt)]
    exact ⟨_, rfl, rfl⟩
  next heq =>
    have hall : nor.alignedLen buf.length = buf.length := by omega
    rw [hall, List.drop_length, List.append_nil, List.append_nil]
    exact ⟨_, rfl, rfl⟩

/-- A read of which a call fails has moved less, and returns 0 as well. -/
theorem ipqSpiRead_fails (h : ¬ nor.ReadWorks w buf.length) :
    (nor.ipqSpiRead w offset buf (.start mem)).1 = 0 ∧ (nor.ipqSpiRead w offset buf (.start mem)).2.1 < buf.length := by
  have hadd := aligned_add nor buf.length
  rw [ipqSpiRead]
  dsimp only
  by_cases hhead : nor.alignedLen buf.length ≠ 0 → w.readFails 0 = none
  · have htail : nor.unalignedLen buf.length ≠ 0 := by
      intro h0
      exact h ⟨hhead, fun hne => absurd h0 hne⟩
    rw [head_works (d := .start mem) hhead]
    simp only [Bool.false_eq_true, if_false, if_pos htail, SpiWorld.malloc, SpiDev.start, Nat.zero_add]
    cases hmalloc : w.mallocFails 0 with
    | true => exact ⟨rfl, by simp only [if_true]; omega⟩
    | false =>
        cases hread : w.readFails (if nor.alignedLen buf.length ≠ 0 then 1 else 0) with
        | none => exact absurd ⟨hhead, fun _ => ⟨hmalloc, hread⟩⟩ h
        | some junk =>
            simp only [Bool.false_eq_true, if_false, SpiWorld.spiFlashRead, hread, if_true]
            exact ⟨trivial, by omega⟩
  · obtain ⟨hne, hfail⟩ := Classical.not_imp.mp hhead
    obtain ⟨junk, hjunk⟩ := Option.ne_none_iff_exists'.mp hfail
    simp only [if_pos hne, SpiWorld.spiFlashRead, SpiDev.start, hjunk, if_true]
    exact ⟨trivial, by omega⟩

theorem readMoves_iff (hin : offset + buf.length ≤ nor.size) :
    nor.ReadMoves w offset buf mem ↔ nor.ReadWorks w buf.length ∧ nor.TailInside offset buf.length := by
  have hadd := aligned_add nor buf.length
  constructor
  · intro hmoves
    by_cases h : nor.ReadWorks w buf.length
    · obtain ⟨d', hread, hlog⟩ := @ipqSpiRead_works nor w offset buf mem h
      refine ⟨h, fun hne => ?_⟩
      obtain ⟨-, -, hinside⟩ := hmoves _ hread rfl
      exact hinside (offset + nor.alignedLen buf.length, nor.erasesize) (by simp [hlog, hne])
    · obtain ⟨hret, hlt⟩ := @ipqSpiRead_fails nor w offset buf mem h
      have := (hmoves _ rfl hret).1
      omega
  · rintro ⟨h, htail⟩ r rfl -
    obtain ⟨d', hread, hlog⟩ := @ipqSpiRead_works nor w offset buf mem h
    rw [hread]
    refine ⟨rfl, rfl, fun a ha => ?_⟩
    dsimp only at ha
    rw [hlog] at ha
    rcases List.mem_append.mp ha with ha | ha
    · split at ha
      · rw [List.mem_singleton.mp ha]
        dsimp only
        omega
      · cases ha
    · split at ha
      next hne =>
        rw [List.mem_singleton.mp ha]
        exact htail hne
      · cases ha

theorem ipqSpiWrite_inside (hin : offset + buf.length ≤ nor.size) : nor.Inside (ipqSpiWrite w offset buf (.start mem)).2.2 := by
  have hlog : (ipqSpiWrite w offset buf (.start mem)).2.2.log = [(offset, buf.length)] := by
    rw [ipqSpiWrite, SpiWorld.spiFlashWrite]
    dsimp only
    split <;> rfl
  intro a ha
  rw [hlog] at ha
  rw [List.mem_singleton.mp ha]
  exact hin

theorem writeMoves_iff (hin : offset + buf.length ≤ nor.size) :
    nor.WriteMoves w offset buf mem ↔ (buf ≠ [] → w.writeFails 0 = none) := by
  cases hfail : w.writeFails 0 with
  | none =>
      simp only [implies_true, iff_true]
      rintro r rfl -
      refine ⟨?_, ?_, ipqSpiWrite_inside hin⟩
      · simp [ipqSpiWrite, SpiWorld.spiFlashWrite, SpiDev.start, hfail]
      · simp [ipqSpiWrite, SpiWorld.spiFlashWrite, SpiDev.start, hfail]
  | some n =>
      simp only [reduceCtorEq, imp_false, not_not]
      constructor
      · intro hmoves
        have hlen := (hmoves _ rfl rfl).1
        simp only [ipqSpiWrite, SpiWorld.spiFlashWrite, SpiDev.start, hfail, if_true] at hlen
        exact List.length_eq_zero_iff.mp hlen.symm
      · rintro rfl r rfl -
        refine ⟨?_, ?_, ipqSpiWrite_inside hin⟩
        · simp [ipqSpiWrite]
        · simp [ipqSpiWrite, SpiWorld.spiFlashWrite, SpiDev.start, hfail]

/-- The check finds no bad block. -/
theorem checkSkipLen_nor {len : Nat} (hin : offset + len ≤ nor.size) : nor.checkSkipLen offset len = some false := by
  have hgood : ∀ a, nor.good a = true := by
    intro a
    rw [NandInfo.good, nor.bad_none]
    rfl
  have hall : nor.goodBytes offset = List.range' offset (nor.size - offset) := usable_all fun a _ _ => hgood a
  have hfit : nor.size + nor.erasesize ≤ 2 ^ 32 := by
    obtain ⟨p, hp⟩ := nor.size_dvd
    obtain ⟨q, hq⟩ := nor.erasesize_dvd
    have hlt : p < q := by
      have := nor.size_lt_word
      rw [hp, hq] at this
      exact Nat.lt_of_mul_lt_mul_left this
    have := Nat.mul_le_mul_left nor.erasesize hlt
    rw [Nat.mul_succ, ← hp, ← hq] at this
    exact this
  obtain ⟨skip, hskip, hiff⟩ := @NandInfo.checkSkipLen_fits nor.toNandInfo offset len
    (by rw [hall, List.length_range']; omega) (by rw [NandInfo.NoWrap]; omega)
  have hfalse : skip = false := hiff.mpr fun a _ hlt => ⟨by omega, hgood a⟩
  rw [hskip, hfalse]

/-- The read is one call, whose result is 0. -/
theorem nandReadSkipBad_nor (ho : offset % nor.writesize = 0) (hin : offset + buf.length ≤ nor.size) (fuel : Nat) :
    nor.nandReadSkipBad (nor.driver w) fuel offset buf (.start mem) = some (nor.ipqSpiRead w offset buf (.start mem)) := by
  have hret : (nor.ipqSpiRead w offset buf (.start mem)).1 = 0 := by
    by_cases h : nor.ReadWorks w buf.length
    · obtain ⟨d', hread, -⟩ := @ipqSpiRead_works nor w offset buf mem h
      rw [hread]
    · exact (ipqSpiRead_fails h).1
  rw [NandInfo.nandReadSkipBad, if_neg (not_not.mpr ho), checkSkipLen_nor hin]
  simp only [driver, hret, true_or, if_true]
  rw [← hret]

theorem nandWriteSkipBad_nor (ho : offset % nor.writesize = 0) (hin : offset + buf.length ≤ nor.size) (fuel : Nat) :
    nor.nandWriteSkipBad (nor.driver w) fuel offset buf (.start mem) = some (ipqSpiWrite w offset buf (.start mem)) := by
  rw [NandInfo.nandWriteSkipBad, if_neg (not_not.mpr ho), checkSkipLen_nor hin]
  rfl

theorem readReports_iff (hin : offset + buf.length ≤ nor.size) :
    nor.ReadReports w offset buf mem ↔ offset % nor.writesize ≠ 0 ∨ nor.ReadWorks w buf.length := by
  by_cases ho : offset % nor.writesize = 0
  · simp only [ho, ne_eq, not_true_eq_false, false_or]
    constructor
    · rintro ⟨r, ⟨bound, hreturns⟩, hmoved⟩
      by_contra h
      have hr := hreturns bound (Nat.le_refl _)
      simp only [nandReadSkipBad_nor ho hin, Option.some.injEq] at hr
      subst hr
      obtain ⟨hret, hlt⟩ := @ipqSpiRead_fails nor w offset buf mem h
      have := (hmoved hret).1
      omega
    · intro h
      obtain ⟨d', hread, -⟩ := @ipqSpiRead_works nor w offset buf mem h
      exact ⟨_, ⟨0, fun fuel _ => nandReadSkipBad_nor ho hin fuel⟩, fun _ => by rw [hread]; exact ⟨rfl, rfl⟩⟩
  · refine iff_of_true ⟨(einval, 0, buf, .start mem), ⟨0, fun fuel _ => ?_⟩, fun h => absurd h (show einval ≠ 0 by decide)⟩ (.inl ho)
    simp only [NandInfo.nandReadSkipBad, if_pos ho]

theorem writeReports_iff (hin : offset + buf.length ≤ nor.size) :
    nor.WriteReports w offset buf mem ↔ offset % nor.writesize ≠ 0 ∨ (buf ≠ [] → w.writeFails 0 = none) := by
  by_cases ho : offset % nor.writesize = 0
  · rw [← @writeMoves_iff nor w offset buf mem hin]
    simp only [ho, ne_eq, not_true_eq_false, false_or]
    constructor
    · rintro ⟨r, ⟨bound, hreturns⟩, hmoved⟩ r' rfl hr'
      have hr := hreturns bound (Nat.le_refl _)
      simp only [nandWriteSkipBad_nor ho hin, Option.some.injEq] at hr
      subst hr
      exact ⟨(hmoved hr').1, (hmoved hr').2, ipqSpiWrite_inside hin⟩
    · intro h
      exact ⟨_, ⟨0, fun fuel _ => nandWriteSkipBad_nor ho hin fuel⟩, fun hret => ⟨(h _ rfl hret).1, (h _ rfl hret).2.1⟩⟩
  · refine iff_of_true ⟨(einval, 0, .start mem), ⟨0, fun fuel _ => ?_⟩, fun h => absurd h (show einval ≠ 0 by decide)⟩ (.inl ho)
    simp only [NandInfo.nandWriteSkipBad, if_pos ho]

/-- A call that returns 0 has moved all its bytes inside the device just when no call that it makes fails and the sector it
reads for a tail is inside the device. -/
theorem spi_mtd_moves_iff (nor : SpiNor) (w : SpiWorld) (mem : Mem) {offset : Nat} {buf : List UInt8}
    (hin : offset + buf.length ≤ nor.size) :
    (nor.ReadMoves w offset buf mem ↔ nor.ReadWorks w buf.length ∧ nor.TailInside offset buf.length) ∧
      (nor.WriteMoves w offset buf mem ↔ (buf ≠ [] → w.writeFails 0 = none)) ∧
      (nor.ReadReports w offset buf mem ↔ offset % nor.writesize ≠ 0 ∨ nor.ReadWorks w buf.length) ∧
      (nor.WriteReports w offset buf mem ↔ offset % nor.writesize ≠ 0 ∨ (buf ≠ [] → w.writeFails 0 = none)) :=
  ⟨readMoves_iff hin, writeMoves_iff hin, readReports_iff hin, writeReports_iff hin⟩

end

theorem sampleSize_lt : 64 < 2 ^ 32 := by decide

/-- Four sectors of four pages. -/
def sample : SpiNor where
  size := 64
  erasesize := 16
  writesize := 4
  bad := fun _ => false
  size_lt := fourBlocks.size_lt
  erasesize_pos := fourBlocks.erasesize_pos
  erasesize_lt := fourBlocks.erasesize_lt
  erasesize_dvd := fourBlocks.erasesize_dvd
  writesize_dvd := fourBlocks.writesize_dvd
  size_dvd := fourBlocks.size_dvd
  bad_none := rfl
  size_lt_word := sampleSize_lt

/-- Every call works, or the first call of `spi_flash_read` and of `spi_flash_write` fails. -/
def sampleWorld (fails : Bool) : SpiWorld where
  readFails n := if fails ∧ n = 0 then some id else none
  writeFails n := if fails ∧ n = 0 then some 0 else none
  mallocFails _ := false
  store := Mem.write

theorem spi_mtd_moves_sample :
    sample.ReadMoves (sampleWorld false) 16 (List.replicate 20 0) (fun _ => 0xff) :=
  (spi_mtd_moves_iff sample (sampleWorld false) _ (by decide)).1.mpr
    ⟨⟨fun _ => rfl, fun _ => ⟨rfl, rfl⟩⟩, fun _ => by decide⟩

/-- The first read fails and `nand_read_skip_bad` returns 0; the tail of a read of the last page goes on behind the end. -/
theorem spi_mtd_loses :
    ¬ sample.ReadMoves (sampleWorld true) 16 (List.replicate 16 0) (fun _ => 0xff) ∧
      ¬ sample.ReadReports (sampleWorld true) 16 (List.replicate 16 0) (fun _ => 0xff) ∧
      ¬ sample.WriteMoves (sampleWorld true) 16 (List.replicate 16 0) (fun _ => 0xff) ∧
      ¬ sample.WriteReports (sampleWorld true) 16 (List.replicate 16 0) (fun _ => 0xff) ∧
      ¬ sample.ReadMoves (sampleWorld false) 60 (List.replicate 4 0) (fun _ => 0xff) := by
  have hread : ¬ sample.ReadWorks (sampleWorld true) (List.replicate 16 (0 : UInt8)).length := by
    rw [List.length_replicate]
    intro h
    exact absurd (h.1 (by decide)) (by decide)
  have hwrite : ¬ (List.replicate 16 (0 : UInt8) ≠ [] → (sampleWorld true).writeFails 0 = none) := by
    intro h
    exact absurd (h (by decide)) (by decide)
  have hin : 16 + (List.replicate 16 (0 : UInt8)).length ≤ sample.size := by
    rw [List.length_replicate]
    decide
  refine ⟨?_, ?_, ?_, ?_, ?_⟩
  · rw [readMoves_iff hin]
    exact fun h => hread h.1
  · rw [readReports_iff hin]
    exact fun h => h.elim (by decide) hread
  · rw [writeMoves_iff hin]
    exact hwrite
  · rw [writeReports_iff hin]
    exact fun h => h.elim (by decide) hwrite
  · rw [readMoves_iff (by decide)]
    exact fun h => absurd (h.2 (by decide)) (by decide)

end SpiNor

end Uboot.Nand
