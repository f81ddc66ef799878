import Uboot.Sf.Commands
import Uboot.Spi.Flash

/-!
# The chip on the bus

A serial flash takes what is sent while it is selected as one command, and runs it when it is released. A page program
wraps in its page, needs writes enabled before it, and leaves the chip busy until its status has been read some times.
-/

namespace Uboot.Spi

open Lib
open Sf (addrOf program)

structure Chip where
  mem : Mem
  selected : Bool
  /-- What it got since it was selected, and how many bytes it gave after that. -/
  shifted : List UInt8
  given : Nat
  writeEnabled : Bool
  /-- For how many reads of the status it is still at work. -/
  busy : Nat
  /-- The page programs it has run, with their addresses. -/
  programs : List (Nat × List UInt8)
  calls : Nat

/-- What the surroundings do: a claim that fails, a transfer that fails and what it makes of the chip, how long a program
takes and how long a poll may. -/
structure World where
  claimFails : Nat → Bool
  xferFails : Nat → Option (Chip → Chip)
  programTime : Nat → Nat
  patience : Nat → Nat

namespace Chip

variable (width : Nat) (wd : World)

def select (c : Chip) : Chip := if c.selected then c else { c with selected := true, shifted := [], given := 0 }

def take (bytes : List UInt8) (c : Chip) : Chip := { c with shifted := c.shifted ++ bytes }

/-- The next byte the chip gives: of the status, or of the memory for a fast read. -/
def giveByte (c : Chip) : UInt8 × Chip :=
  match c.shifted with
  | [0x05] => (if c.busy = 0 then 0 else 1, { c with busy := c.busy - 1, given := c.given + 1 })
  | op :: rest =>
    if (op = 0x0b ∨ op = 0x0c) ∧ rest.length = width + 1 ∧ c.busy = 0 then
      (c.mem (addrOf width c.shifted + c.given), { c with given := c.given + 1 })
    else (0, { c with given := c.given + 1 })
  | [] => (0, { c with given := c.given + 1 })

def give : Nat → Chip → List UInt8 × Chip
  | 0, c => ([], c)
  | n + 1, c =>
    let b := c.giveByte width
    let r := give n b.2
    (b.1 :: r.1, r.2)

/-- The end of a command. -/
def release (c : Chip) : Chip :=
  let c' := { c with selected := false, shifted := [], given := 0 }
  match c.shifted with
  | [0x06] => if c.busy = 0 then { c' with writeEnabled := true } else c'
  | op :: rest =>
    if (op = 0x02 ∨ op = 0x12) ∧ width ≤ rest.length ∧ c.writeEnabled ∧ c.busy = 0 then
      let a := addrOf width c.shifted
      let data := rest.drop width
      { c' with
        mem := program (a / 256) data (a % 256) c.mem
        writeEnabled := false
        busy := wd.programTime c.calls
        programs := c.programs ++ [(a, data)] }
    else c'
  | [] => c'

/-- Whether a transfer fails. One that moves nothing does not. -/
def fault (dout din : Option (List UInt8)) (c : Chip) : Option (Chip → Chip) :=
  if dout.isNone ∧ din.isNone then none else wd.xferFails c.calls

def xfer (bitlen : Nat) (dout din : Option (List UInt8)) (flags : Flags) (c : Chip) : Int × List UInt8 × Chip :=
  match c.fault wd dout din with
  | some after => (-1, din.getD [], after { c with calls := c.calls + 1 })
  | none =>
    let n := bitlen / 8
    let c := { c with calls := c.calls + 1 }
    let c := if flags.xferBegin then c.select else c
    let c := match dout with
      | some out => c.take (out.take n)
      | none => c
    let r := match din with
      | some buf => let g := c.give width n; (g.1 ++ buf.drop n, g.2)
      | none => ([], c)
    (0, r.1, if flags.xferEnd then r.2.release width wd else r.2)

/-- The chip as the commands see it. -/
def bus : Bus Chip where
  claimBus c := (if wd.claimFails c.calls then -1 else 0, { c with calls := c.calls + 1 })
  releaseBus c := c
  xfer := xfer width wd
  patience c := wd.patience c.calls

@[simp] theorem bus_xfer : (bus width wd).xfer = xfer width wd := rfl

/-- Released, not at work, and with no program run yet. -/
structure Ready (c : Chip) : Prop where
  selected : c.selected = false
  busy : c.busy = 0
  programs : c.programs = []

end Chip

/-! ## What comes back from the chip -/

/-- The bytes that a list of programs has programmed, in order. -/
def programmed (ps : List (Nat × List UInt8)) : List Nat :=
  ps.flatMap fun p => List.range' p.1 p.2.length

/-- After a program of `buf` at `offset` that succeeds, where the bytes were erased: no program leaves its page, each byte is
programmed once, the rest of the memory stays, and a read that succeeds has `buf`. -/
def RoundTrips (fl : Flash) (offset : Nat) (buf : List UInt8) : Prop :=
  ∀ (wd : World) (undef : UInt8) (c c' : Chip) (data : List UInt8), c.Ready → data.length = buf.length →
    Sf.Erased c.mem offset buf.length →
    spiFlashCmdWriteMulti (Chip.bus fl.addrWidth wd) fl offset buf c = (0, c') →
      (∀ p ∈ c'.programs, p.1 % 256 + p.2.length ≤ 256) ∧
      programmed c'.programs = List.range' offset buf.length ∧
      (∀ a, a < offset ∨ offset + buf.length ≤ a → c'.mem a = c.mem a) ∧
      ∀ r, spiFlashCmdReadFast (Chip.bus fl.addrWidth wd) fl undef offset buf.length data c' = r → r.1 = 0 → r.2.1 = buf

end Uboot.Spi
