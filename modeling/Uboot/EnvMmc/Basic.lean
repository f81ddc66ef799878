import Uboot.Mmc.Theorems

/-!
# The environment on eMMC

`board_mmc_env_init` (`board/qcom/ipq40xx_cdp/ipq40xx_cdp.c`) takes the place of the environment from the GPT into globals,
`mmc_saveenv` and `mmc_env_relocate_spec` (`common/env_mmc.c`) use them. The device's table is given by the entries of its
primary GPT, if that is a valid one. `ulong` has 32 bits.
-/

namespace Uboot.EnvMmc

open Uboot.Mmc (ulong blLen Dev Fate Host mmcBwrite mmcBread)

/-! ## `find_part_efi` -/

structure GptEntry where
  partitionTypeGuid : Vector UInt8 16
  startingLba : UInt64
  endingLba : UInt64
  partitionName : Vector UInt16 36

/-- `is_pte_valid` -/
def isPteValid (pte : GptEntry) : Bool := pte.partitionTypeGuid ≠ Vector.replicate 16 0

def isprint (c : UInt8) : Bool := (32 ≤ c && c ≤ 126) || 160 ≤ c

/-- `print_efiname`, up to the terminator -/
def printEfiname (pte : GptEntry) : List UInt8 :=
  (pte.partitionName.toList.map fun u =>
    let c := u.toUInt8
    if c ≠ 0 ∧ ¬ isprint c then 46 else c).takeWhile (· ≠ 0)

/-- `disk_partition_t` -/
structure DiskPartition where
  start : Nat
  size : Nat
  blksz : Nat

/-- What `find_part_efi` puts into `info`. -/
def partInfo (pte : GptEntry) : DiskPartition :=
  let start := ulong pte.startingLba.toNat
  { start
    size := ulong (ulong pte.endingLba.toNat + 1 + 2 ^ 32 - start)
    blksz := 512 }

/-- `is_pte_valid(&gpt_pte[i]) && !(strcmp(name, print_efiname(&gpt_pte[i])))` -/
def isNamed (name : List UInt8) (pte : GptEntry) : Bool := isPteValid pte && name == printEfiname pte

/-- The loop of `find_part_efi`, with `pos` and `info`. -/
def findLoop (name : List UInt8) : Nat → List GptEntry → Nat × DiskPartition → Nat × DiskPartition
  | _, [], r => r
  | i, pte :: gptPte, r => findLoop name (i + 1) gptPte (if isNamed name pte then (i + 1, partInfo pte) else r)

/-- `find_part_efi`. The backup table is looked at, but not used. -/
def findPartEfi (gpt : Option (List GptEntry)) (name : List UInt8) (info : DiskPartition) : Int × DiskPartition :=
  match gpt with
  | none => (-1, info)
  | some gptPte =>
    let r := findLoop name 0 gptPte (0, info)
    (r.1, r.2)

/-! ## The globals -/

/-- `board_env_offset`, `board_env_range` and `board_env_size` -/
structure Globals where
  offset : Nat
  range : Nat
  size : Nat

/-- `CONFIG_ENV_SIZE_MAX` -/
def envSizeMax : Nat := 256 <<< 10

/-- What `board_init` leaves for flash type `SMEM_BOOT_MMC_FLASH`. -/
def boardInit : Globals := ⟨0, envSizeMax, 0⟩

/-- `"0:APPSBLENV"` -/
def appsblenv : List UInt8 := [48, 58, 65, 80, 80, 83, 66, 76, 69, 78, 86]

/-- How `board_mmc_env_init` goes: whether each `mmc_init` fails, and whether the table can be read. -/
structure Outcome where
  init : Bool
  again : Bool
  readable : Bool

/-- `board_mmc_env_init`: what it returns and the globals; nothing for `BUG_ON`, which does not return. `disk_info` is not
initialised. -/
def boardMmcEnvInit (gpt : Option (List GptEntry)) (o : Outcome) (info : DiskPartition) (g : Globals) :
    Option (Int × Globals) :=
  if o.init ∧ o.again then some (-1, g)
  else
    let r := findPartEfi (if o.readable then gpt else none) appsblenv info
    if r.1 > 0 then
      let size := ulong (r.2.size * r.2.blksz)
      if size > envSizeMax then none
      else some (r.1, ⟨ulong (r.2.start * r.2.blksz), size, size⟩)
    else some (r.1, g)

/-! ## Saving and loading -/

/-- `ALIGN(x, write_bl_len) / write_bl_len` -/
def alignBlocks (x : Nat) : Nat := ulong (x + (blLen - 1)) / blLen

variable {α : Type}

/-- `write_env`; `true` for -1 -/
def writeEnv (dev : Dev) (fate : Nat → Fate) (size offset : Nat) (buffer : Nat → α) : Bool × Host α :=
  let blkStart := alignBlocks offset
  let blkCnt := alignBlocks size
  let r := mmcBwrite dev fate blkStart blkCnt buffer
  (r.1 ≠ blkCnt, r.2)

/-- `mmc_saveenv`: what it returns, and the transfers. `hexportR` is whether the export works. -/
def mmcSaveenv (g : Globals) (dev : Dev) (mmcInit hexportR : Bool) (fate : Nat → Fate) (envNew : Nat → α) : Nat × Host α :=
  if mmcInit then (1, .init)
  else if ¬ hexportR then (1, .init)
  else
    let r := writeEnv dev fate (ulong g.range) (ulong g.offset) envNew
    (if r.1 then 1 else 0, r.2)

/-- `read_env` -/
def readEnv (dev : Dev) (fate : Nat → Fate) (card : Nat → α) (size offset : Nat) : Bool × Host α :=
  let blkStart := alignBlocks offset
  let blkCnt := alignBlocks size
  let r := mmcBread dev fate card blkStart blkCnt
  (r.1 ≠ blkCnt, r.2)

/-- `mmc_env_relocate_spec`: whether the environment is imported, and the transfers -/
def mmcEnvRelocateSpec (g : Globals) (dev : Dev) (mmcInit : Bool) (fate : Nat → Fate) (card : Nat → α) : Bool × Host α :=
  if mmcInit then (false, .init)
  else
    let r := readEnv dev fate card (ulong g.range) (ulong g.offset)
    (!r.1, r.2)

end Uboot.EnvMmc
