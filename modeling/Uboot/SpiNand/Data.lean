import Uboot.Lib.Bytes
import Uboot.SpiNand.Basic

/-!
# The data of the pages

A page is read into the cache of the chip and from there to the buffer; it is loaded into the cache and programmed from
there. The row of a page command is decoded by the die that is active. Lengths are those of an `int`, which may be negative.
-/

namespace Uboot.SpiNand

open Uboot.Lib Uboot.Lib.Prog

/-- What `spi_nand_init` derives from the table: a chip without a die select has one die. -/
structure Geometry extends Params where
  writesize_eq : writesize = 2 ^ pageShift
  writesize_lt : writesize < 2 ^ 31
  single : dieSelect = false → noOfDies = 1

/-- A page was programmed with these bytes at this column. -/
structure Program where
  page : Nat
  column : Nat
  bytes : List UInt8
deriving DecidableEq

/-- `verify_ecc` -/
inductive Ecc where
  | clean
  | corrected
  | failed
deriving DecidableEq

/-- The chip with its cells, by page and column, and its cache. -/
structure Cells where
  chip : Chip
  cell : Nat → Nat → UInt8
  cache : Mem
  /-- the column and the bytes of the last load -/
  loaded : Nat × List UInt8
  programs : List Program
  /-- what the next reads report -/
  eccs : List Ecc

abbrev DataDriver := Prog Cells

def onChip {α : Type} (m : Driver α) : DataDriver α := Prog.act fun s =>
  let (r, c) := m.exec s.chip
  (r, { s with chip := c })

/-- Bits are only cleared. -/
def Cells.program (s : Cells) (page : Nat) : Cells := { s with
  cell := fun q => if q = page then fun k => s.cell page k &&& s.cache k else s.cell q
  programs := s.programs ++ [⟨page, s.loaded.1, s.loaded.2⟩] }

/-- `IPQ40XX_SPINAND_CMD_NORM_READ` -/
def normRead (column n : Nat) : DataDriver (List UInt8) := do
  onChip command
  Prog.act fun s => (some (s.cache.read column n), s)

/-- Nothing is read when no bytes are asked for. -/
def readPart (column n : Nat) : DataDriver (List UInt8) := if n = 0 then pure [] else normRead column n

/-- `IPQ40XX_SPINAND_CMD_PLOAD`: the rest of the cache is set. -/
def programLoad (column : Nat) (bytes : List UInt8) : DataDriver Unit := do
  Prog.act fun s =>
    (some (), { s with cache := Mem.write (fun _ => 0xff) column bytes, loaded := (column, bytes) })
  onChip command

/-- The ECC status after a read: whether bits were corrected. -/
def verifyEcc : DataDriver Bool := Prog.act fun s =>
  match s.eccs with
  | [] => (some false, s)
  | .clean :: rest => (some false, { s with eccs := rest })
  | .corrected :: rest => (some true, { s with eccs := rest })
  | .failed :: rest => (none, { s with eccs := rest })

/-- `mtd_oob_ops` of a write. -/
structure MtdOobOps where
  len : Nat
  datbuf : Mem
  ooblen : Nat
  ooboffs : Nat
  oobbuf : Mem
  len_lt : len < 2 ^ 32

/-- The first `ooblen` bytes of `chip->oob_poi` after `fill_oob_data`. -/
def MtdOobOps.fillOobData (ops : MtdOobOps) : List UInt8 :=
  (List.replicate ops.ooboffs 0xff ++ ops.oobbuf.read 0 ops.ooblen).take ops.ooblen

/-- A `size_t` as an `int`. -/
def toInt (n : Nat) : Int := if n % 2 ^ 32 < 2 ^ 31 then (n % 2 ^ 32 : Nat) else (n % 2 ^ 32 : Nat) - 2 ^ 32

namespace Params

/-- The page that a page command acts on. -/
def reached (p : Params) (c : Chip) (page : Nat) : Nat := c.active * p.pagesPerDie + page % p.pagesPerDie

/-- `IPQ40XX_SPINAND_CMD_READ` -/
def pageRead (p : Params) (page : Nat) : DataDriver Unit := do
  Prog.act fun s => (some (), { s with cache := s.cell (p.reached s.chip page) })
  onChip (issue page)

/-- `IPQ40XX_SPINAND_CMD_PROG` -/
def programExecute (p : Params) (page : Nat) : DataDriver Unit := do
  Prog.act fun s => (some (), s.program (p.reached s.chip page))
  onChip (issue page)

/-- A round of `spi_nand_read_std`: whether bits were corrected, and the data, always from column 0. -/
def readRound (p : Params) (page bytes ooblen : Nat) : DataDriver (Bool × List UInt8) := do
  onChip (p.doDieSelect page)
  p.pageRead page
  onChip command
  let corrected ← verifyEcc
  let data ← readPart 0 bytes
  let _ ← readPart p.writesize ooblen
  pure (corrected, data)

/-- The loop of `spi_nand_read_std` with the data so far; bytes are compared as unsigned numbers. -/
def readDataLoop (p : Params) (ooblen : Nat) :
    Nat → Nat → Int → Bool → List UInt8 → Cells → Option (Option (Bool × List UInt8) × Cells)
  | 0, _, _, _, _, _ => none
  | fuel + 1, realpage, readlen, corrected, buf, s =>
      let bytes := min (readlen % 2 ^ 32).toNat p.writesize
      match (p.readRound (p.page realpage) bytes ooblen).exec s with
      | (none, s') => some (none, s')
      | (some (c, data), s') =>
          if readlen - bytes ≤ 0 then some (some (corrected || c, buf ++ data), s')
          else p.readDataLoop ooblen fuel (realpage + 1) (readlen - bytes) (corrected || c) (buf ++ data) s'

/-- `spi_nand_read_std`: the data, and whether the result is `-EUCLEAN`. `spi_nand_read` is the call with `ooblen = 0`. -/
def spiNandReadStd (p : Params) (ooblen fuel addr len : Nat) (s : Cells) : Option (Option (Bool × List UInt8) × Cells) :=
  match (onChip command).exec s with
  | (none, s') => some (none, s')
  | (some (), s') => p.readDataLoop ooblen fuel (addr / 2 ^ p.pageShift) (toInt len) false [] s'

/-- A page of `spi_nand_write_std`. -/
def writeRound (p : Params) (page : Nat) (wbuf : List UInt8) : DataDriver Unit := do
  onChip (p.doDieSelect page)
  onChip command
  programLoad 0 wbuf
  p.programExecute page
  -- the wait, the status and the write disable
  onChip command
  onChip command
  onChip command

/-- `spi_nand_write_oob_data` with `spinand_write_oob_std`; the status of the program is not looked at. -/
def writeOobPage (p : Params) (dest : Nat) (ops : MtdOobOps) : DataDriver Unit := do
  let page := p.page (dest / 2 ^ p.pageShift)
  onChip (p.doDieSelect page)
  onChip command
  programLoad p.writesize ops.fillOobData
  p.programExecute page
  (onChip command).ignore
  onChip command

/-- The loop of `spi_nand_write_std`, at `off` in the buffer. -/
def writeDataLoop (p : Params) (dest : Nat) (ops : MtdOobOps) :
    Nat → Nat → Nat → Nat → Cells → Option (Option Unit × Cells)
  | 0, _, _, _, _ => none
  | fuel + 1, realpage, writeLen, off, s =>
      match (p.writeRound (p.page realpage) (ops.datbuf.read off p.writesize)).exec s with
      | (none, s') => some (none, s')
      | (some (), s') =>
          let (ret, s'') := (if ops.ooblen = 0 then pure () else p.writeOobPage dest ops : DataDriver Unit).exec s'
          let next := (writeLen + 2 ^ 32 - p.writesize) % 2 ^ 32
          if next = 0 then some (ret, s'')
          else p.writeDataLoop dest ops fuel (realpage + 1) next (off + p.writesize) s''

/-- `spi_nand_write_std` -/
def spiNandWrite (p : Params) (fuel dest : Nat) (ops : MtdOobOps) (s : Cells) : Option (Option Unit × Cells) :=
  if dest % p.writesize ≠ 0 ∨ ops.len % p.writesize ≠ 0 then some (none, s)
  else
    match (onChip command).exec s with
    | (none, s') => some (none, s')
    | (some (), s') => p.writeDataLoop dest ops fuel (dest / 2 ^ p.pageShift) ops.len 0 s'

end Params

end Uboot.SpiNand
