import Uboot.Crc32.Basic
import Uboot.EnvMmc.Basic
import Uboot.Lib.Bytes
import Uboot.Lib.Except
import Uboot.Lib.Strings

/-!
# GUID partition tables

`disk/part_efi.c`: a table is read and checked, and partitions are looked up by name or by number. A byte that was not
read from the disk has no value, whether it lies behind a buffer or in a part of it that was not filled: to use one is a
fault. Sectors have 512 bytes, `ulong` and `lbaint_t` 32 bits.
-/

namespace Uboot.Gpt

open Lib
open Mmc (ulong)
open EnvMmc (GptEntry DiskPartition isPteValid printEfiname partInfo isNamed)

/-- A byte is used that was not read. -/
inductive Fault where
  | unread
  deriving DecidableEq, Repr

/-- `block_dev_desc_t`: the number of sectors, their bytes, and the reads that fail -/
structure BlockDev where
  lba : Nat
  bytes : Mem
  fails : Nat → Nat → Bool
  lba_lt : lba < 2 ^ 32

/-- `GPT_BLOCK_SIZE` -/
def gptBlockSize : Nat := 512

namespace BlockDev

/-- `block_read`, when it returns the number that was asked for. A read of no blocks does. -/
def blockRead (dev : BlockDev) (start blkcnt : Nat) : Option (List UInt8) :=
  if blkcnt ≠ 0 ∧ dev.fails start blkcnt = true then none
  else some (dev.bytes.read (gptBlockSize * start) (gptBlockSize * blkcnt))

/-- `dev_desc->lba - 1` -/
def backupLba (dev : BlockDev) : Nat := ulong (dev.lba + 2 ^ 32 - 1)

end BlockDev

/-! ## The header -/

/-- `le32_to_int` and `le64_to_int` of the `n` bytes at `off` -/
def leToInt (bs : List UInt8) (off n : Nat) : Nat := Nat.ofDigits 256 (((bs.drop off).take n).map UInt8.toNat)

/-- `gpt_header`, a sector -/
structure GptHeader where
  bytes : List UInt8
  length_eq : bytes.length = gptBlockSize

namespace GptHeader

variable (head : GptHeader)

def signature : Nat := leToInt head.bytes 0 8
def headerSize : Nat := leToInt head.bytes 12 4
def headerCrc32 : Nat := leToInt head.bytes 16 4
def myLba : Nat := leToInt head.bytes 24 8
def firstUsableLba : Nat := leToInt head.bytes 40 8
def lastUsableLba : Nat := leToInt head.bytes 48 8
def partitionEntryLba : Nat := leToInt head.bytes 72 8
def numPartitionEntries : Nat := leToInt head.bytes 80 4
def sizeofPartitionEntry : Nat := leToInt head.bytes 84 4
def partitionEntryArrayCrc32 : Nat := leToInt head.bytes 88 4

/-- `header_crc32` is set to 0 for the checksum. -/
def cleared : List UInt8 := head.bytes.take 16 ++ List.replicate 4 0 ++ head.bytes.drop 20

/-- The size of the entries, as the product is computed. -/
def count : Nat := ulong (head.numPartitionEntries * head.sizeofPartitionEntry)

theorem cleared_length : head.cleared.length = gptBlockSize := by
  have h := head.length_eq
  rw [gptBlockSize] at h
  rw [cleared, List.length_append, List.length_append, List.length_take, List.length_drop, List.length_replicate, h]
  rfl

end GptHeader

/-- The header at `lba` -/
def BlockDev.readHeader (dev : BlockDev) (lba : Nat) : Option GptHeader :=
  if dev.fails (ulong lba) 1 = true then none
  else some ⟨dev.bytes.read (gptBlockSize * ulong lba) gptBlockSize, Mem.read_length⟩

/-- `GPT_HEADER_SIGNATURE` -/
def gptHeaderSignature : Nat := 0x5452415020494645

/-- `GPT_PRIMARY_PARTITION_TABLE_LBA` -/
def gptPrimaryPartitionTableLba : Nat := 1

/-- `efi_crc32` of `len` bytes of a buffer that was filled with `buf` -/
def efiCrc32 (buf : List UInt8) (len : Nat) : Except Fault Nat :=
  if len ≤ buf.length then .ok (Crc32.crc32 0 0 (buf.take len)).toNat else .error .unread

/-! ## Reading a table -/

/-- What a valid table gives: `num_partition_entries`, and the array as far as it was read. -/
structure Table where
  num : Nat
  array : List UInt8

section
variable (dev : BlockDev) (memalign : Nat → Bool)

/-- `alloc_read_gpt_entries`; `memalign` tells for which sizes there is memory. The last sector is read if it is whole. -/
def allocReadGptEntries (head : GptHeader) : Option (List UInt8) :=
  if head.count = 0 ∨ memalign head.count = false then none
  else dev.blockRead (ulong head.partitionEntryLba) (head.count / gptBlockSize)

/-- The end of `is_gpt_valid`, behind the checks of the header -/
def readEntries (head : GptHeader) : Except Fault (Option Table) :=
  match allocReadGptEntries dev memalign head with
  | none => .ok none
  | some pte => do
      let calcCrc32 ← efiCrc32 pte head.count
      if calcCrc32 ≠ head.partitionEntryArrayCrc32 then .ok none
      else .ok (some ⟨head.numPartitionEntries, pte⟩)

/-- `is_gpt_valid` -/
def isGptValid (lba : Nat) : Except Fault (Option Table) :=
  match dev.readHeader lba with
  | none => .ok none
  | some head =>
      if head.signature ≠ gptHeaderSignature then .ok none
      else do
        let calcCrc32 ← efiCrc32 head.cleared head.headerSize
        if calcCrc32 ≠ head.headerCrc32 then .ok none
        else if head.myLba ≠ lba then .ok none
        else if dev.lba < head.firstUsableLba then .ok none
        else if dev.lba < head.lastUsableLba then .ok none
        else readEntries dev memalign head

/-- The primary table, or the backup: so `print_part_efi` and `get_partition_info_efi` choose. -/
def loadTable : Except Fault (Option Table) := do
  match ← isGptValid dev memalign gptPrimaryPartitionTableLba with
  | some table => .ok (some table)
  | none => isGptValid dev memalign dev.backupLba

end

/-! ## Entries -/

/-- `gpt_entry`, of 128 bytes -/
def gptEntry (b : List UInt8) : GptEntry where
  partitionTypeGuid := Vector.ofFn fun i => b.getD i 0
  startingLba := UInt64.ofNat (leToInt b 32 8)
  endingLba := UInt64.ofNat (leToInt b 40 8)
  partitionName := Vector.ofFn fun i => UInt16.ofNat (leToInt b (56 + 2 * i) 2)

/-- `gpt_pte[i]`. Whole sectors are read, so an entry was read in full or not at all. -/
def ptePtr (pte : List UInt8) (i : Nat) : Except Fault GptEntry :=
  if 128 * (i + 1) ≤ pte.length then .ok (gptEntry ((pte.drop (128 * i)).take 128)) else .error .unread

/-- `disk_partition_t` with its texts -/
structure PartitionInfo extends DiskPartition where
  name : List UInt8
  type : List UInt8

/-- What is put into `info`; the name is cut to the 32 bytes there. -/
def partitionInfo (pte : GptEntry) : PartitionInfo where
  toDiskPartition := partInfo pte
  name := (printEfiname pte).take 31
  type := ascii "U-Boot"

/-- The loop of `find_part_efi`, from entry `i` on, with `pos` and `info` -/
def findLoop (pte : List UInt8) (name : List UInt8) : Nat → Nat → Nat × PartitionInfo → Except Fault (Nat × PartitionInfo)
  | 0, _, r => .ok r
  | n + 1, i, r => do
      let entry ← ptePtr pte i
      findLoop pte name n (i + 1) (if isNamed name entry then (i + 1, partitionInfo entry) else r)

/-- The loop of `print_part_efi`, with the entries that are printed. It ends at the first unused one. -/
def printLoop (pte : List UInt8) : Nat → Nat → Except Fault (List (Nat × GptEntry))
  | 0, _ => .ok []
  | n + 1, i => do
      let entry ← ptePtr pte i
      if isPteValid entry then do
        let rest ← printLoop pte n (i + 1)
        .ok ((i + 1, entry) :: rest)
      else .ok []

section
variable (dev : BlockDev) (memalign : Nat → Bool)

/-- `find_part_efi`: the result is -1 with a valid backup table too. -/
def findPartEfi (name : List UInt8) (info : PartitionInfo) : Except Fault (Int × PartitionInfo) := do
  match ← isGptValid dev memalign gptPrimaryPartitionTableLba with
  | some table => do
      let r ← findLoop table.array name table.num 0 (0, info)
      .ok (r.1, r.2)
  | none => do
      let _ ← isGptValid dev memalign dev.backupLba
      .ok (-1, info)

/-- `print_part_efi` -/
def printPartEfi : Except Fault (List (Nat × GptEntry)) := do
  match ← loadTable dev memalign with
  | some table => printLoop table.array table.num 0
  | none => .ok []

/-- `get_partition_info_efi` -/
def getPartitionInfoEfi (part : Int) (info : PartitionInfo) : Except Fault (Int × PartitionInfo) :=
  if part < 1 then .ok (-1, info)
  else do
    match ← loadTable dev memalign with
    | some table => do
        let entry ← ptePtr table.array (part.toNat - 1)
        .ok (0, partitionInfo entry)
    | none => .ok (-1, info)

end

/-! ## A table that is accepted -/

/-- The header passes its checks. -/
structure HeaderOk (dev : BlockDev) (lba : Nat) (head : GptHeader) : Prop where
  read : dev.readHeader lba = some head
  signature : head.signature = gptHeaderSignature
  size : head.headerSize ≤ gptBlockSize
  crc : (Crc32.crc32 0 0 (head.cleared.take head.headerSize)).toNat = head.headerCrc32
  myLba : head.myLba = lba
  first : head.firstUsableLba ≤ dev.lba
  last : head.lastUsableLba ≤ dev.lba

/-- So does the array. -/
structure TableOk (dev : BlockDev) (memalign : Nat → Bool) (lba : Nat) (head : GptHeader) (table : Table) : Prop extends
    HeaderOk dev lba head where
  array : allocReadGptEntries dev memalign head = some table.array
  whole : gptBlockSize ∣ head.count
  array_crc : (Crc32.crc32 0 0 table.array).toNat = head.partitionEntryArrayCrc32
  num : table.num = head.numPartitionEntries

section
variable {dev : BlockDev} {memalign : Nat → Bool} {start n : Nat} {head : GptHeader} {bs pte : List UInt8}

theorem BlockDev.blockRead_length (h : dev.blockRead start n = some bs) : bs.length = gptBlockSize * n := by
  rw [BlockDev.blockRead, Option.ite_none_left_eq_some] at h
  rw [← Option.some.inj h.2, Mem.read_length]

/-- The array is as long as `count` tells, but for a part of a sector. -/
theorem array_length (h : allocReadGptEntries dev memalign head = some pte) :
    pte.length = gptBlockSize * (head.count / gptBlockSize) ∧ head.count ≠ 0 := by
  rw [allocReadGptEntries, Option.ite_none_left_eq_some] at h
  obtain ⟨hcount, h⟩ := h
  exact ⟨BlockDev.blockRead_length h, fun hzero => hcount (Or.inl hzero)⟩

theorem whole_iff (h : allocReadGptEntries dev memalign head = some pte) :
    head.count ≤ pte.length ↔ gptBlockSize ∣ head.count := by
  rw [(array_length h).1, gptBlockSize]
  constructor
  · intro hle
    exact ⟨head.count / 512, by omega⟩
  · intro hdvd
    exact (Nat.mul_div_cancel' hdvd).ge

end

end Uboot.Gpt
