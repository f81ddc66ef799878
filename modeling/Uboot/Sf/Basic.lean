import Uboot.Lib.Bytes

/-!
# SPI NOR flash

The Winbond driver (`drivers/mtd/spi/winbond.c`), the commands of `drivers/mtd/spi/spi_flash.c` it uses, and `sf update`
(`common/cmd_sf.c`). The chip gets command bytes; a transaction on the bus fails or not, as `fate` says.
-/

namespace Uboot.Sf

open Lib

def u32 (n : Nat) : Nat := n % 2 ^ 32

/-! ## Probing -/

structure Params where
  id : Nat
  l2PageSize : Nat
  pagesPerSector : Nat
  sectorsPerBlock : Nat
  nrBlocks : Nat

/-- `winbond_spi_flash_table` -/
def winbondSpiFlashTable : List Params :=
  [⟨0x3013, 8, 16, 16, 8⟩,    -- W25X40
   ⟨0x3015, 8, 16, 16, 32⟩,   -- W25X16
   ⟨0x3016, 8, 16, 16, 64⟩,   -- W25X32
   ⟨0x3017, 8, 16, 16, 128⟩,  -- W25X64
   ⟨0x4014, 8, 16, 16, 16⟩,   -- W25Q80BL
   ⟨0x4015, 8, 16, 16, 32⟩,   -- W25Q16
   ⟨0x4016, 8, 16, 16, 64⟩,   -- W25Q32
   ⟨0x4017, 8, 16, 16, 128⟩,  -- W25Q64
   ⟨0x4018, 8, 256, 1, 256⟩,  -- W25Q128
   ⟨0x6016, 8, 256, 1, 64⟩,   -- W25Q32
   ⟨0x6017, 8, 256, 1, 128⟩,  -- W25Q64
   ⟨0x4019, 8, 256, 1, 512⟩]  -- W25Q256

/-- What the commands read of `struct spi_flash`. -/
structure SpiFlash where
  pageSize : Nat
  sectorSize : Nat
  size : Nat
  addrWidth : Nat

/-- `spi_flash_probe_winbond` and the address width that `spi_flash_probe` sets after it; `en4b` is whether the chip takes
the command for 4-byte addresses. -/
def spiFlashProbeWinbond (id : Nat) (en4b : Bool) : Option SpiFlash :=
  (winbondSpiFlashTable.find? (·.id = id)).map fun params =>
    let pageSize := 1 <<< params.l2PageSize
    let size := pageSize * params.pagesPerSector * params.sectorsPerBlock * params.nrBlocks
    let size := if size > 0x1000000 ∧ ¬ en4b then 0x1000000 else size
    { pageSize
      sectorSize := pageSize * params.pagesPerSector
      size
      addrWidth := if size > 0x1000000 then 4 else 3 }

/-! ## The chip -/

/-- The address in a command. The chip takes as many bytes as its mode says. -/
def addrOf (width : Nat) (cmd : List UInt8) : Nat := ((cmd.drop 1).take width).foldl (fun n b => n * 256 + b.toNat) 0

/-- Bits are cleared from byte `i` of a page on, and the page wraps. -/
def program (page : Nat) : List UInt8 → Nat → Mem → Mem
  | [], _, mem => mem
  | b :: bs, i, mem =>
    let a := page * 256 + i % 256
    program page bs (i + 1) (Function.update mem a (mem a &&& b))

/-- The aligned `n` bytes around an address become 0xFF. -/
def eraseAt (n a : Nat) (mem : Mem) : Mem := fun i => if i / n = a / n then 0xff else mem i

/-- Commands that change the flash. -/
def chipWrite (width : Nat) (cmd data : List UInt8) (mem : Mem) : Mem :=
  let a := addrOf width cmd
  match cmd.head? with
  | some 0xd8 => eraseAt 65536 a mem
  | some 0x20 => eraseAt 4096 a mem
  | some 0x02 => program (a / 256) data (a % 256) mem
  | _ => mem

/-- The fast read. -/
def chipRead (width : Nat) (cmd : List UInt8) (len : Nat) (mem : Mem) : List UInt8 := mem.read (addrOf width cmd) len

/-- How a transaction ends; one that fails may have had its effect. -/
structure Fate where
  err : Bool
  took : Bool

structure Bus where
  mem : Mem
  sent : Nat

/-- A transaction with a command that changes the flash. Errors of the bus are negative, so that the tests for a negative
result see them. -/
def xfer (fl : SpiFlash) (fate : Nat → Fate) (cmd data : List UInt8) (b : Bus) : Bool × Bus :=
  let f := fate b.sent
  (f.err, ⟨if f.err ∧ ¬ f.took then b.mem else chipWrite fl.addrWidth cmd data b.mem, b.sent + 1⟩)

/-- A transaction that changes nothing: claiming the bus, enabling writes, waiting for the chip. -/
def busOp (fate : Nat → Fate) (b : Bus) : Bool × Bus := ((fate b.sent).err, { b with sent := b.sent + 1 })

/-! ## Commands -/

/-- `spi_flash_addr` -/
def spiFlashAddr (fl : SpiFlash) (addr : Nat) : List UInt8 :=
  (List.range fl.addrWidth).map fun i => UInt8.ofNat (addr >>> (fl.addrWidth * 8 - 8 * (i + 1)))

/-- The address bytes of `spi_flash_cmd_write_multi`. -/
def pageAddr (fl : SpiFlash) (page byte : Nat) : List UInt8 :=
  if fl.addrWidth = 4 then [.ofNat (page >>> 16), .ofNat (page >>> 8), .ofNat page, .ofNat byte]
  else [.ofNat (page >>> 8), .ofNat page, .ofNat byte]

/-- The loop of `spi_flash_cmd_write_multi`. Each pass takes a byte at least. -/
def writeLoop (fl : SpiFlash) (fate : Nat → Fate) : Nat → Nat → Nat → List UInt8 → Bus → Bool × Bus
  | 0, _, _, _, b => (false, b)
  | fuel + 1, page, byte, buf, b =>
    if buf = [] then (false, b)
    else
      let chunkLen := min buf.length (fl.pageSize - byte)
      let en := busOp fate b
      if en.1 then en
      else
        let w := xfer fl fate (0x02 :: pageAddr fl page byte) (buf.take chunkLen) en.2
        if w.1 then w
        else
          let ready := busOp fate w.2
          if ready.1 then ready else writeLoop fl fate fuel (page + 1) 0 (buf.drop chunkLen) ready.2

def spiFlashCmdWriteMulti (fl : SpiFlash) (fate : Nat → Fate) (offset : Nat) (buf : List UInt8) (b : Bus) : Bool × Bus :=
  let claim := busOp fate b
  if claim.1 then claim
  else writeLoop fl fate buf.length (offset / fl.pageSize) (offset % fl.pageSize) buf claim.2

/-- `spi_flash_cmd_read_fast`. A failed claim of the bus goes unnoticed. -/
def spiFlashCmdReadFast (fl : SpiFlash) (fate : Nat → Fate) (offset len : Nat) (b : Bus) : Bool × List UInt8 × Bus :=
  let claim := busOp fate b
  let r := busOp fate claim.2
  (r.1, chipRead fl.addrWidth (0x0b :: spiFlashAddr fl offset ++ [0]) len claim.2.mem, r.2)

/-- The loop of `spi_flash_cmd_erase_block_or_sector`. A range that does not wrap has fewer steps than bytes. -/
def eraseLoop (fl : SpiFlash) (fate : Nat → Fate) (eraseCmd : UInt8) (eraseSize end_ : Nat) :
    Nat → Nat → Bus → Bool × Bus
  | 0, _, b => (false, b)
  | fuel + 1, offset, b =>
    if offset < end_ then
      let en := busOp fate b
      if en.1 then en
      else
        let e := xfer fl fate (eraseCmd :: spiFlashAddr fl offset) [] en.2
        if e.1 then e
        else
          let ready := busOp fate e.2
          if ready.1 then ready else eraseLoop fl fate eraseCmd eraseSize end_ fuel (u32 (offset + eraseSize)) ready.2
    else (false, b)

def spiFlashCmdErase (fl : SpiFlash) (fate : Nat → Fate) (eraseCmd : UInt8) (offset len : Nat) (b : Bus) : Bool × Bus :=
  let eraseSize := fl.sectorSize
  if offset % eraseSize ≠ 0 ∨ len % eraseSize ≠ 0 then (true, b)
  else
    let claim := busOp fate b
    if claim.1 then claim
    else eraseLoop fl fate eraseCmd eraseSize (u32 (offset + len)) (len + 1) offset claim.2

/-- `winbond_erase`: `CMD_W25_BE` -/
def winbondErase (fl : SpiFlash) (fate : Nat → Fate) (offset len : Nat) (b : Bus) : Bool × Bus :=
  spiFlashCmdErase fl fate 0xd8 offset len b

/-! ## `sf update` -/

def spiFlashUpdateBlock (fl : SpiFlash) (fate : Nat → Fate) (offset : Nat) (buf : List UInt8) (b : Bus) : Bool × Bus :=
  let r := spiFlashCmdReadFast fl fate offset buf.length b
  if r.1 then (true, r.2.2)
  else if r.2.1 = buf then (false, r.2.2)
  else
    let e := winbondErase fl fate offset buf.length r.2.2
    if e.1 then e else spiFlashCmdWriteMulti fl fate offset buf e.2

/-- The loop of `spi_flash_update`. -/
def updateLoop (fl : SpiFlash) (fate : Nat → Fate) : Nat → Nat → List UInt8 → Bus → Bool × Bus
  | 0, _, _, b => (false, b)
  | fuel + 1, offset, buf, b =>
    if buf = [] then (false, b)
    else
      let todo := min buf.length fl.sectorSize
      let r := spiFlashUpdateBlock fl fate offset (buf.take todo) b
      if r.1 then r else updateLoop fl fate fuel (u32 (offset + todo)) (buf.drop todo) r.2

/-- `spi_flash_update`: whether it fails, and the flash after it -/
def spiFlashUpdate (fl : SpiFlash) (malloc : Bool) (fate : Nat → Fate) (offset : Nat) (buf : List UInt8) (mem : Mem) :
    Bool × Mem :=
  if malloc then
    let r := updateLoop fl fate buf.length offset buf ⟨mem, 0⟩
    (r.1, r.2.mem)
  else (true, mem)

end Uboot.Sf
