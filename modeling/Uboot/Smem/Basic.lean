import Uboot.Mtdparts.Basic

/-!
# The partition table in shared memory

`smem_ptable_init` and `qca_smem_part_to_mtdparts`, after `arch/arm/cpu/armv7/qca/smem.c`. The printed name of an entry
is a C string: one of 16 bytes without a NUL goes on with the bytes that follow in memory.
-/

namespace Uboot.Smem

open Lib Vsprintf Mtdparts

/-- `struct smem_ptn` -/
structure SmemPtn where
  name : List UInt8
  start : Nat
  size : Nat
  attr : Nat
  name_length : name.length = 16
  start_lt : start < 2 ^ 32
  size_lt : size < 2 ^ 32
  attr_lt : attr < 2 ^ 32

/-- `struct smem_ptable` -/
structure SmemPtable where
  magic : Nat × Nat
  version : Nat
  len : Nat
  parts : List SmemPtn
  parts_length : parts.length = 32

/-! ## Reading the table -/

/-- `struct smem_alloc_info` of the table, with what is in memory at its offset -/
structure AllocInfo where
  allocated : Nat
  size : Nat
  content : SmemPtable

def emptyPtn : SmemPtn := ⟨List.replicate 16 0, 0, 0, 0, rfl, by decide, by decide, by decide⟩

/-- The attribute of partitions in NAND flash -/
theorem nandAttr_lt : 0x01000000 < 2 ^ 32 := by decide

/-- Only the first half of a table is in memory; the rest of `smem_ptable` is zero. -/
def SmemPtable.half (t : SmemPtable) : SmemPtable :=
  { t with
    parts := t.parts.take 16 ++ List.replicate 16 emptyPtn
    parts_length := by simp [t.parts_length] }

/-- `smem_read_alloc_entry`, first for 32 entries and then for 16 -/
def readAllocEntry (info : AllocInfo) : Option SmemPtable :=
  if info.allocated = 0 then none
  else if info.size = 16 + 28 * 32 then some info.content
  else if info.size = 16 + 28 * 16 then some info.content.half
  else none

/-- `smem_ptable_init` -/
def smemPtableInit (info : AllocInfo) : Option SmemPtable :=
  (readAllocEntry info).filter fun t => t.magic == (0x55ee73aa, 0xe35ebddb)

/-! ## Printing the table -/

/-- What is read of `struct mtd_info`. -/
structure NandInfo where
  size : Nat
  erasesize : Nat
  size_lt : size < 2 ^ 64
  erasesize_lt : erasesize < 2 ^ 32

/-- `qca_smem_flash_info`, `gboard_param`, `nand_env_device` and `nand_info` -/
structure Flashes where
  flashBlockSize : Nat
  spiNandAvailable : Nat
  nandEnvDevice : Nat
  nandInfo : Nat → NandInfo
  flashBlockSize_lt : flashBlockSize < 2 ^ 32

def le32 (n : Nat) : List UInt8 :=
  [UInt8.ofNat n, UInt8.ofNat (n / 2 ^ 8), UInt8.ofNat (n / 2 ^ 16), UInt8.ofNat (n / 2 ^ 24)]

def SmemPtn.bytes (p : SmemPtn) : List UInt8 := p.name ++ le32 p.start ++ le32 p.size ++ le32 p.attr

/-- `part_which_flash` -/
def SmemPtn.whichFlash (p : SmemPtn) : Nat := p.attr / 2 ^ 24

/-- A number as a `loff_t`. -/
def loff (n : Nat) : Int := if n % 2 ^ 64 < 2 ^ 63 then (n % 2 ^ 64 : Nat) else (n % 2 ^ 64 : Nat) - 2 ^ 64

/-- `%lld` -/
def lld (i : Int) : List UInt8 := if i < 0 then 45 :: numeral 10 i.natAbs else numeral 10 i.natAbs

section
variable (f : Flashes) (p : SmemPtn)

/-- `get_part_block_size` -/
def getPartBlockSize : Nat :=
  if p.whichFlash = 1 then (f.nandInfo f.spiNandAvailable).erasesize else f.flashBlockSize

def partOffset : Nat := p.start * getPartBlockSize f p

/-- `psize` before it is scaled; the size of `~0` reaches to the end of `nand_env_device`. -/
def psize : Int :=
  if p.size = 0xFFFFFFFF then loff ((f.nandInfo f.nandEnvDevice).size + 2 ^ 64 - partOffset f p)
  else loff (p.size * getPartBlockSize f p)

/-- A size and its unit, up to the `@`. -/
def sizeText (psize : Int) : List UInt8 :=
  if 2 ^ 20 < psize ∧ psize % 2 ^ 20 = 0 then lld (psize / 2 ^ 20) ++ [77, 64]
  else if 2 ^ 10 < psize ∧ psize % 2 ^ 10 = 0 then lld (psize / 2 ^ 10) ++ [75, 64]
  else lld psize ++ [64]

/-- `"%lld%s0x%llx(%s),"` -/
def partText (name : List UInt8) : List UInt8 :=
  sizeText (psize f p) ++ 48 :: 120 :: numeral 16 (partOffset f p) ++ 40 :: name ++ [41, 44]

/-- `device_id` -/
def deviceId : Nat := if f.spiNandAvailable = 1 then 1 else 0

/-- `"nand%d"` -/
def nandName : List UInt8 := [110, 97, 110, 100] ++ numeral 10 (deviceId f)

/-- `%s` for the first of these entries, with the memory behind the table -/
def printedName (parts : List SmemPtn) (beyond : List UInt8) : List UInt8 :=
  cstr (parts.flatMap SmemPtn.bytes ++ beyond)

/-- The loop of `qca_smem_part_to_mtdparts` over `n` entries. -/
def partsText (beyond : List UInt8) : Bool → Nat → List SmemPtn → List UInt8
  | _, 0, _ => []
  | _, _, [] => []
  | init, n + 1, p :: parts =>
      (if p.whichFlash ≠ 0 ∧ init = false then 59 :: nandName f ++ [58] else []) ++
        partText f p (printedName (p :: parts) beyond) ++
          partsText beyond (init || decide (p.whichFlash ≠ 0)) n parts

end

/-- What `qca_smem_part_to_mtdparts` returns. -/
inductive MtdpartsText where
  | null
  | text (parts : List UInt8)
  /-- The text does not fit, and its NUL is written behind the buffer. -/
  | overflow
  deriving DecidableEq

/-- `qca_smem_part_to_mtdparts` -/
def qcaSmemPartToMtdparts (f : Flashes) (t : SmemPtable) (beyond mtdid : List UInt8) : MtdpartsText :=
  let text := mtdid ++ 58 :: partsText f beyond false t.len t.parts
  if t.len = 0 then .null
  else if 4096 ≤ text.length then .overflow
  else .text text

end Uboot.Smem
