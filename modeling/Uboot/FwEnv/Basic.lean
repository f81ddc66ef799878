import Uboot.Lib.Bytes

/-!
# Reading and writing flash in the Linux tool

`flash_read_buf` and `flash_write_buf`, after `tools/env/fw_env.c`. The calls of the driver succeed: an erase sets
`0xFF`, a write stores its bytes. A loop leaves the range of the environment after as many rounds as it has blocks, and
fails there.
-/

namespace Uboot.FwEnv

open Lib

inductive MtdType where
  | nor
  | nand
  | dataflash
  deriving DecidableEq, Repr

/-- `struct envdev_s`, and what `MEMGETBADBLOCK` tells of the block at an offset. -/
structure EnvDev where
  devoff : Nat
  envSize : Nat
  eraseSize : Nat
  envSectors : Nat
  mtdType : MtdType
  bad : Nat → Bool
  eraseSize_pos : 0 < eraseSize

namespace EnvDev

variable (dev : EnvDev)

/-- `flash_bad_block` -/
def flashBadBlock (blockstart : Nat) : Bool := dev.mtdType = .nand && dev.bad blockstart

/-- `top_of_range`, the end of the last block of the environment -/
def topOfRange : Nat := (dev.devoff / dev.eraseSize + dev.envSectors) * dev.eraseSize

/-! ## Reading -/

/-- The loop of `flash_read_buf`; `buf` has the bytes that are processed. -/
def readLoop (f : Mem) (count blocklen top : Nat) : Nat → Nat → Nat → Nat → List UInt8 → Option (List UInt8)
  | 0, _, _, _, _ => none
  | fuel + 1, blockstart, blockSeek, readlen, buf =>
      if buf.length < count then
        if top < blockstart + blockSeek + readlen then none
        else if dev.flashBadBlock blockstart then
          readLoop f count blocklen top fuel (blockstart + blocklen) blockSeek readlen buf
        else
          let buf := buf ++ f.read (blockstart + blockSeek) readlen
          readLoop f count blocklen top fuel (blockstart + blocklen) 0 (min blocklen (count - buf.length)) buf
      else some buf

/-- `flash_read_buf`: the bytes, or none for `-1` -/
def flashReadBuf (count offset : Nat) (f : Mem) : Option (List UInt8) :=
  let blockstart := offset / dev.eraseSize * dev.eraseSize
  let blockSeek := offset - blockstart
  if dev.mtdType = .nand then
    dev.readLoop f count dev.eraseSize dev.topOfRange ((dev.topOfRange - blockstart) / dev.eraseSize + 2) blockstart
      blockSeek (min count (dev.eraseSize - blockSeek)) []
  else dev.readLoop f count 0 (offset + count) 2 blockstart blockSeek count []

/-! ## Writing -/

/-- `MEMERASE`; dataflash does not need it. -/
def erase (start length : Nat) (f : Mem) : Mem :=
  if dev.mtdType = .dataflash then f else f.write start (List.replicate length 0xFF)

/-- The loop of `flash_write_buf`: the bytes that are processed, or none for `-1`, and the flash. -/
def writeLoop (data : Nat → UInt8) (erasesize writeTotal top : Nat) : Nat → Nat → Nat → Mem → Option Nat × Mem
  | 0, _, _, f => (none, f)
  | fuel + 1, blockstart, processed, f =>
      if processed < writeTotal then
        if top < blockstart + erasesize then (none, f)
        else if dev.flashBadBlock blockstart then
          writeLoop data erasesize writeTotal top fuel (blockstart + dev.eraseSize) processed f
        else
          let f := (dev.erase blockstart erasesize f).write blockstart
            ((List.range erasesize).map fun i => data (processed + i))
          writeLoop data erasesize writeTotal top fuel (blockstart + dev.eraseSize) (processed + dev.eraseSize) f
      else (some processed, f)

/-- `write_total` -/
def writeTotal (blockSeek count : Nat) : Nat :=
  (blockSeek + count + dev.eraseSize - 1) / dev.eraseSize * dev.eraseSize

/-- `data` before the loop: the blocks with the new bytes in them, or `buf` itself. -/
def writeData (buf : List UInt8) (offset : Nat) (f : Mem) : Option (List UInt8) :=
  let eraseOffset := offset / dev.eraseSize * dev.eraseSize
  let blockSeek := offset - eraseOffset
  let writeTotal := dev.writeTotal blockSeek buf.length
  if buf.length < writeTotal then
    (dev.flashReadBuf writeTotal eraseOffset f).map fun data =>
      data.take blockSeek ++ buf ++ data.drop (blockSeek + buf.length)
  else some buf

/-- `flash_write_buf`; `junk` is in memory behind `data`. -/
def flashWriteBuf (junk : Nat → UInt8) (buf : List UInt8) (offset : Nat) (f : Mem) : Option Nat × Mem :=
  let eraseOffset := offset / dev.eraseSize * dev.eraseSize
  let eraseLen := dev.topOfRange - eraseOffset
  match dev.writeData buf offset f with
  | none => (none, f)
  | some data =>
      let erasesize := if dev.mtdType = .nand then dev.eraseSize else eraseLen
      dev.writeLoop (fun i => data.getD i (junk i)) erasesize (dev.writeTotal (offset - eraseOffset) buf.length)
        dev.topOfRange (eraseLen / dev.eraseSize + 2) eraseOffset 0 f

end EnvDev

end Uboot.FwEnv
