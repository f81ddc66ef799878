import Uboot.Lib.Usable

/-!
# Reading and writing NAND without its bad blocks (`drivers/mtd/nand/nand_util.c`)

`nand_write_skip_bad` with `flags` 0 and `nand_read_skip_bad`. `size_t` has 32 bits and `loff_t` 64 bits. The driver
stores and returns bytes; every call of it is recorded. The loops have no bound of their own, so they have a fuel.
-/

namespace Uboot.Nand

open Uboot.Lib

/-- A device: whole erase blocks of whole pages. `bad` is `nand_block_isbad` at the start of a block. -/
structure NandInfo where
  size : Nat
  erasesize : Nat
  writesize : Nat
  bad : Nat → Bool
  size_lt : size < 2 ^ 64
  erasesize_pos : 0 < erasesize
  erasesize_lt : erasesize < 2 ^ 32
  erasesize_dvd : erasesize ∣ 2 ^ 32
  writesize_dvd : writesize ∣ erasesize
  size_dvd : erasesize ∣ size

/-- What the device holds, and the calls of the driver with their offsets and lengths. -/
structure Flash where
  mem : Mem
  log : List (Nat × Nat)

def nandWrite (f : Flash) (offset : Nat) (buf : List UInt8) : Flash :=
  ⟨f.mem.write offset buf, f.log ++ [(offset, buf.length)]⟩

def nandRead (f : Flash) (offset len : Nat) : List UInt8 × Flash :=
  (f.mem.read offset len, ⟨f.mem, f.log ++ [(offset, len)]⟩)

/-- `-EINVAL` -/
def einval : Int := -22

namespace NandInfo

/-- `offset & ~(loff_t)(nand->erasesize - 1)` -/
def blockStart (nand : NandInfo) (offset : Nat) : Nat := offset / nand.erasesize * nand.erasesize

/-- `offset & ~(nand->erasesize - 1)`: the mask has 32 bits, and clears the upper half of the offset. -/
def lowBlockStart (nand : NandInfo) (offset : Nat) : Nat := offset % 2 ^ 32 / nand.erasesize * nand.erasesize

/-- The loop of `check_skip_len`. -/
def checkSkipFrom (nand : NandInfo) (length : Nat) : Nat → Nat → Nat → Bool → Option Bool
  | 0, _, _, _ => none
  | fuel + 1, offset, lenExclBad, ret =>
      if length ≤ lenExclBad then some ret
      else if nand.size ≤ offset then none
      else
        let blockLen := nand.erasesize - offset % nand.erasesize
        if nand.bad (nand.blockStart offset) then checkSkipFrom nand length fuel (offset + blockLen) lenExclBad true
        else checkSkipFrom nand length fuel (offset + blockLen) ((lenExclBad + blockLen) % 2 ^ 32) ret

/-- `check_skip_len`: whether there are bad blocks, or none when the image does not fit. The offset grows with every
round, so the fuel is enough. -/
def checkSkipLen (nand : NandInfo) (offset length : Nat) : Option Bool :=
  nand.checkSkipFrom length (nand.size - offset + 1) offset 0 false

/-- The loop of `nand_write_skip_bad`; `buf` is what is left to write. -/
def writeLoop (nand : NandInfo) : Nat → Nat → List UInt8 → Flash → Option Flash
  | 0, _, _, _ => none
  | fuel + 1, offset, buf, f =>
      if buf.length = 0 then some f
      else
        let blockOffset := offset % nand.erasesize
        if nand.bad (nand.lowBlockStart offset) then
          writeLoop nand fuel (offset + (nand.erasesize - blockOffset)) buf f
        else
          let writeSize := min buf.length (nand.erasesize - blockOffset)
          writeLoop nand fuel (offset + writeSize) (buf.drop writeSize) (nandWrite f offset (buf.take writeSize))

/-- The loop of `nand_read_skip_bad`. -/
def readLoop (nand : NandInfo) : Nat → Nat → Nat → List UInt8 → Flash → Option (List UInt8 × Flash)
  | 0, _, _, _, _ => none
  | fuel + 1, offset, leftToRead, buf, f =>
      if leftToRead = 0 then some (buf, f)
      else
        let blockOffset := offset % nand.erasesize
        if nand.bad (nand.lowBlockStart offset) then
          readLoop nand fuel (offset + (nand.erasesize - blockOffset)) leftToRead buf f
        else
          let readLength := min leftToRead (nand.erasesize - blockOffset)
          let (bytes, f) := nandRead f offset readLength
          readLoop nand fuel (offset + readLength) (leftToRead - readLength) (buf ++ bytes) f

/-- `nand_write_skip_bad` with the image in `buf`: the result, `*length` and the device, or none while it runs. -/
def writeSkipBad (nand : NandInfo) (fuel : Nat) (offset : Nat) (buf : List UInt8) (f : Flash) :
    Option (Int × Nat × Flash) :=
  if offset % nand.writesize ≠ 0 then some (einval, 0, f)
  else
    match nand.checkSkipLen offset buf.length with
    | none => some (einval, 0, f)
    | some false => some (0, buf.length, nandWrite f offset buf)
    | some true => (nand.writeLoop fuel offset buf f).map fun f => (0, buf.length, f)

/-- `nand_read_skip_bad`: the result, `*length`, the bytes and the device. -/
def readSkipBad (nand : NandInfo) (fuel : Nat) (offset length : Nat) (f : Flash) :
    Option (Int × Nat × List UInt8 × Flash) :=
  if offset % nand.writesize ≠ 0 then some (einval, 0, [], f)
  else
    match nand.checkSkipLen offset length with
    | none => some (einval, 0, [], f)
    | some false =>
        let (bytes, f) := nandRead f offset length
        some (0, length, bytes, f)
    | some true => (nand.readLoop fuel offset length [] f).map fun (bytes, f) => (0, length, bytes, f)

end NandInfo

end Uboot.Nand
