import Uboot.Lib.Hoare

/-!
# SPI NAND with several dies (`drivers/mtd/spi/spi_nand.c`)

Every SPI command, every wait and every status may fail. A die select that fails may have reached the chip. The bus,
the data and the columns are left out: what is kept is which page commands are sent and which die is active then.
-/

namespace Uboot.SpiNand

open Uboot.Lib

/-- `spi_nand_flash_params` and the chip: whole dies, whose pages are a power of two. -/
structure Params where
  noOfDies : Nat
  pagesPerDie : Nat
  pageShift : Nat
  eraseShift : Nat
  writesize : Nat
  /-- `die_select` is not `NULL` -/
  dieSelect : Bool
  pages_pos : 0 < noOfDies * pagesPerDie
  pages_pow : ∃ k, noOfDies * pagesPerDie = 2 ^ k
  writesize_pos : 0 < writesize

/-- How a die select ends: done, failed before the chip has switched, or failed after it has. -/
inductive SelectOutcome where
  | done
  | lost
  | late
deriving DecidableEq, Repr

/-- The driver and the chip. -/
structure Chip where
  /-- `prev_die_id`, none for `INT_MAX` -/
  prevDieId : Option Nat
  active : Nat
  /-- the page commands so far, with the active die -/
  issued : List (Nat × Nat)
  /-- the dies that were selected so far -/
  selected : List Nat
  /-- how the next die selects end -/
  selects : List SelectOutcome
  /-- how the next commands, waits and status checks end -/
  outcomes : List Bool

abbrev Driver := Prog Chip

/-- A command, a wait or the check of a status. -/
def command : Driver Unit := Prog.act fun c =>
  match c.outcomes with
  | [] => (some (), c)
  | ok :: rest => (if ok then some () else none, { c with outcomes := rest })

/-- `IPQ40XX_SPINAND_CMD_DIESELECT` and the wait for it. -/
def selectDie (die : Nat) : Driver Unit := Prog.act fun c =>
  let sent := { c with selected := c.selected ++ [die], selects := c.selects.tail }
  match c.selects.head? with
  | some .lost => (none, sent)
  | some .late => (none, { sent with active := die })
  | _ => (some (), { sent with active := die, prevDieId := some die })

def ifPresent (len : Nat) (m : Driver Unit) : Driver Unit := if len = 0 then pure () else m

/-- A page read, program or erase is sent, and may fail. -/
def issue (page : Nat) : Driver Unit := do
  Prog.act fun c => (some (), { c with issued := c.issued ++ [(page, c.active)] })
  command

namespace Params

/-- `chip->pagemask + 1` -/
def pages (p : Params) : Nat := p.noOfDies * p.pagesPerDie

/-- `realpage & chip->pagemask` -/
def page (p : Params) (realpage : Nat) : Nat := realpage % p.pages

/-- `get_die_id` -/
def getDieId (p : Params) (page : Nat) : Option Nat :=
  let dieId := page / p.pagesPerDie
  if p.noOfDies < dieId then none else some dieId

/-- `spi_nand_die_select` -/
def spiNandDieSelect (dieId : Option Nat) : Driver Unit :=
  match dieId with
  | none => failure
  | some die => do
      let prev ← Prog.act fun c => (some c.prevDieId, c)
      if prev = some die then pure () else selectDie die

/-- `do_die_select` -/
def doDieSelect (p : Params) (page : Nat) : Driver Unit :=
  if p.dieSelect then spiNandDieSelect (p.getDieId page) else pure ()

/-- `spi_nand_erase`; the page is not masked. -/
def erase (p : Params) (addr : Nat) : Driver Unit :=
  let page := addr / 2 ^ p.pageShift % 2 ^ 32
  if addr % 2 ^ p.eraseShift ≠ 0 then failure
  else do
    command
    p.doDieSelect page
    -- write enable, and the wait for it
    command
    command
    issue page
    -- the wait and the status
    command
    command
    -- write disable, whose result is not looked at, and the wait
    command.ignore
    command

/-- `spi_nand_block_isbad`: whether the marker is not 0xFF. -/
def blockIsbad (p : Params) (offs : Nat) : Driver Bool := do
  let page := p.page (offs / 2 ^ p.pageShift)
  command
  p.doDieSelect page
  issue page
  command
  command
  Prog.act fun c => (some (c.outcomes.headD false), { c with outcomes := c.outcomes.tail })

/-- `spinand_write_oob_std` -/
def writeOobStd (p : Params) (page : Nat) : Driver Unit := do
  p.doDieSelect page
  command
  command
  issue page
  command.ignore
  command

/-- `spi_nand_write_oob_data` -/
def writeOobData (p : Params) (dest : Nat) : Driver Unit := p.writeOobStd (p.page (dest / 2 ^ p.pageShift))

/-- `spi_nand_block_markbad` -/
def blockMarkbad (p : Params) (offs : Nat) : Driver Unit := do
  let bad ← p.blockIsbad offs
  if bad then pure ()
  else do
    (p.erase offs).ignore
    command
    p.writeOobData offs

/-- The loop of `spi_nand_read_std`. -/
def readLoop (p : Params) (ooblen : Nat) : Nat → Nat → Nat → Driver Unit
  | 0, _, _ => pure ()
  | fuel + 1, realpage, readlen => do
      let bytes := min readlen p.writesize
      p.doDieSelect (p.page realpage)
      issue (p.page realpage)
      -- the wait, the ECC status, the data and the OOB
      command
      command
      ifPresent bytes command
      ifPresent ooblen command
      if readlen - bytes = 0 then pure () else readLoop p ooblen fuel (realpage + 1) (readlen - bytes)

/-- `spi_nand_read_std`; every round but the last takes a page, so the fuel is enough. -/
def readStd (p : Params) (addr len ooblen : Nat) : Driver Unit := do
  command
  p.readLoop ooblen (len + 1) (addr / 2 ^ p.pageShift) len

/-- The loop of `spi_nand_write_std`; the length has 32 bits. -/
def writeLoop (p : Params) (dest ooblen : Nat) : Nat → Nat → Nat → Driver Unit
  | 0, _, _ => pure ()
  | fuel + 1, realpage, writeLen => do
      let page := p.page realpage
      let next := (writeLen + 2 ^ 32 - p.writesize) % 2 ^ 32
      p.doDieSelect page
      -- write enable and the load of the data
      command
      command
      issue page
      -- the wait, the status and the write disable
      command
      command
      command
      if next = 0 then ifPresent ooblen (p.writeOobData dest)
      else do
        ifPresent ooblen (p.writeOobData dest).ignore
        writeLoop p dest ooblen fuel (realpage + 1) next

/-- `spi_nand_write_std` -/
def writeStd (p : Params) (dest len ooblen : Nat) : Driver Unit :=
  if dest % p.writesize ≠ 0 ∨ len % p.writesize ≠ 0 then failure
  else do
    command
    p.writeLoop dest ooblen (2 ^ 32) (dest / 2 ^ p.pageShift) len

/-- The loop of `spinand_internal_ecc`, over the dies from `i` on. -/
def eccLoop (p : Params) : Nat → Nat → Driver Unit
  | 0, _ => pure ()
  | n + 1, i => do
      (if p.dieSelect then spiNandDieSelect (some i) else pure () : Driver Unit)
      command
      command
      eccLoop p n (i + 1)

/-- `spinand_internal_ecc` -/
def internalEcc (p : Params) : Driver Unit := do
  command
  p.eccLoop p.noOfDies 0

end Params

/-- The calls of the driver. -/
inductive Call where
  | read (addr len : Nat)
  | readOob (addr len ooblen : Nat)
  | write (dest len : Nat)
  | writeOob (dest len ooblen : Nat)
  | erase (addr : Nat)
  | blockIsbad (offs : Nat)
  | blockMarkbad (offs : Nat)

def Call.run (p : Params) : Call → Driver Unit
  | .read addr len => p.readStd addr len 0
  | .readOob addr len ooblen => do
      p.internalEcc.ignore
      (p.readStd addr len ooblen).followed p.internalEcc
  | .write dest len => p.writeStd dest len 0
  | .writeOob dest len ooblen => do
      p.internalEcc.ignore
      (p.writeStd dest len ooblen).followed p.internalEcc
  | .erase addr => p.erase addr
  | .blockIsbad offs => do
      let _ ← p.blockIsbad offs
      pure ()
  | .blockMarkbad offs => p.blockMarkbad offs

/-- The chip after some calls, which may fail. -/
def runCalls (p : Params) (c : Chip) (calls : List Call) : Chip := calls.foldl (fun c call => ((call.run p).exec c).2) c

end Uboot.SpiNand
