import Uboot.Lib.Bytes
import Uboot.Lib.Chunks

/-!
# Writing a crashdump

The NAND and the eMMC functions of `arch/arm/cpu/armv7/qca/cmd_dumpqca_data.c`. The two copies differ in the size of the
buffer and in the unit of the offset: bytes on the NAND, blocks on the eMMC, where `block_write` takes an `unsigned long`.
-/

namespace Uboot.Crashdump

open Lib

inductive Backend where
  | nand
  | emmc
  deriving DecidableEq, Repr

/-- `MAX_NAND_PAGE_SIZE` and `MAX_EMMC_BLK_LEN` -/
def Backend.maxSize : Backend → Nat
  | nand => 2048
  | emmc => 1024

/-- How far the offset moves with one page or block. -/
def Backend.perUnit : Backend → Nat → Nat
  | nand, writeSize => writeSize
  | emmc, _ => 1

/-- The offset as the device gets it. -/
def Backend.number : Backend → Nat → Nat
  | nand, offset => offset
  | emmc, offset => offset % 2 ^ 32

/-- `writesize` of the NAND or `write_bl_len` of the eMMC, as the probe of the device sets it. -/
structure Flash where
  writeSize : Nat
  pos : 0 < writeSize

structure Cxt where
  curCrashdumpOffset : Nat
  curDataLen : Nat
  writeSize : Nat
  tempData : Mem

/-- The pages or blocks that were written, with their offsets. -/
abbrev Log := List (Nat × List UInt8)

def numbered (b : Backend) (writeSize offset : Nat) (units : List (List UInt8)) : Log :=
  units.mapIdx fun k unit => (b.number (offset + k * b.perUnit writeSize), unit)

/-- `nand_write` and `block_write`. The device decides whether the write succeeds. -/
def deviceWrite (b : Backend) (fate : Nat → Bool) (writeSize offset : Nat) (bytes : List UInt8) (log : Log) : Option Log :=
  if fate log.length then some (log ++ numbered b writeSize offset (pages writeSize bytes)) else none

/-- `init_crashdump_nand_flash_write` and `init_crashdump_emmc_flash_write`. The NAND is erased first. -/
def init (b : Backend) (flash : Flash) (erased : Bool) (offset : Nat) (tempData : Mem) : Option Cxt :=
  if flash.writeSize > b.maxSize then none
  else if b = .nand ∧ erased = false then none
  else some ⟨offset, 0, flash.writeSize, tempData⟩

/-- `crashdump_nand_flash_write_data` and `crashdump_emmc_flash_write_data` -/
def writeData (b : Backend) (fate : Nat → Bool) (data : List UInt8) (c : Cxt) (log : Log) : Option (Cxt × Log) :=
  let totalBytes := (c.curDataLen + data.length) % 2 ^ 32
  if totalBytes < c.writeSize then
    some ({ c with tempData := c.tempData.write c.curDataLen data, curDataLen := c.curDataLen + data.length }, log)
  else
    let remainingLenCurPage := c.writeSize - c.curDataLen
    let tempData := c.tempData.write c.curDataLen (data.take remainingLenCurPage)
    match deviceWrite b fate c.writeSize c.curCrashdumpOffset (tempData.read 0 c.writeSize) log with
    | none => none
    | some log =>
        let data := data.drop remainingLenCurPage
        let offset := c.curCrashdumpOffset + b.perUnit c.writeSize
        let units := data.length / c.writeSize
        let written :=
          if units * c.writeSize > 0 then
            deviceWrite b fate c.writeSize offset (data.take (units * c.writeSize)) log
          else some log
        match written with
        | none => none
        | some log =>
            let data := data.drop (units * c.writeSize)
            some (⟨offset + units * b.perUnit c.writeSize, data.length, c.writeSize, tempData.write 0 data⟩, log)

/-- `deinit_crashdump_nand_flash_write` and `deinit_crashdump_emmc_flash_write` -/
def deinit (b : Backend) (fate : Nat → Bool) (c : Cxt) (log : Log) : Option Log :=
  if c.curDataLen ≠ 0 then
    let tempData := c.tempData.write c.curDataLen (List.replicate (c.writeSize - c.curDataLen) 0xFF)
    deviceWrite b fate c.writeSize c.curCrashdumpOffset (tempData.read 0 c.writeSize) log
  else some log

def writeAll (b : Backend) (fate : Nat → Bool) : List (List UInt8) → Cxt → Log → Option (Cxt × Log)
  | [], c, log => some (c, log)
  | data :: rest, c, log =>
      match writeData b fate data c log with
      | none => none
      | some (c, log) => writeAll b fate rest c log

/-- `init`, the pieces one after the other, and `deinit`. `none` is an error. -/
def dump (b : Backend) (flash : Flash) (erased : Bool) (fate : Nat → Bool) (offset : Nat) (tempData : Mem)
    (pieces : List (List UInt8)) : Option Log :=
  match init b flash erased offset tempData with
  | none => none
  | some c =>
      match writeAll b fate pieces c [] with
      | none => none
      | some (c, log) => deinit b fate c log

/-- `qcom_wdt_write_crashdump_data` for the NAND and the eMMC -/
def qcomWdtWriteCrashdumpData (b : Backend) (flash : Flash) (erased : Bool) (fate : Nat → Bool) (crashdumpOffset : Nat)
    (tempData : Mem) (cpuContext uname : List UInt8) : Option Log :=
  dump b flash erased fate crashdumpOffset tempData [cpuContext, uname]

end Uboot.Crashdump
