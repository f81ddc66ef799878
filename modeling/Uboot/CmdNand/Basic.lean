import Uboot.Mtdparts.Basic
import Uboot.Vsprintf.Strtoull

/-!
# The nand command (`common/cmd_nand.c`)

From the arguments to the call of the driver. `loff_t` is signed and has 64 bits, `size_t` and `ulong` have 32. What is printed
is left out.
-/

namespace Uboot.CmdNand

open Lib Vsprintf Mtdparts

/-! ## Numbers -/

/-- Conversion to `loff_t` -/
def toLoff (n : Int) : Int := n.bmod (2 ^ 64)

/-- Conversion to `uint64_t` -/
def toU64 (n : Int) : Nat := (n % 2 ^ 64).toNat

/-- Conversion to `size_t` -/
def toSize (n : Int) : Nat := (n % 2 ^ 32).toNat

/-- `str2off`; none where the text is not a number. -/
def str2off (p : List UInt8) : Option Int :=
  let r := simpleStrtoull p 16
  if p ≠ [] ∧ r.2 = [] then some (toLoff r.1) else none

/-- `str2long` -/
def str2long (p : List UInt8) : Option Nat :=
  let r := simpleStrtoul p 16
  if p ≠ [] ∧ r.2 = [] then some r.1 else none

/-! ## Devices -/

/-- What the command reads of an `nand_info_t`. -/
structure NandInfo where
  name : Option (List UInt8)
  size : UInt64
  writesize : UInt32
  oobsize : UInt32

/-- `nand_info`, with `CONFIG_SYS_MAX_NAND_DEVICE` elements, what `mtdparts_init` makes of the environment, or none if it
fails, the variable `quiet`, two characters that are typed, and the bits that are left in the variable `raw`. -/
structure System where
  nandInfo : List NandInfo
  mtdpartsInit : Option (List MtdDevice)
  quiet : Bool
  getc : UInt8 × UInt8
  raw : Bool

namespace System

variable (sys : System)

/-- An element of `nand_info` that is there. -/
def present (dev : Int) : Bool :=
  0 ≤ dev ∧ dev < sys.nandInfo.length ∧ ((sys.nandInfo[dev.toNat]?).bind (·.name)).isSome

/-- `nand_info[dev]`, for a device that is there. -/
def info (dev : Int) : NandInfo := sys.nandInfo.getD dev.toNat ⟨none, 0, 0, 0⟩

/-! ## Arguments

The results come with `nand_curr_device`. -/

/-- `set_dev` -/
def setDev (dev curr : Int) : Bool × Int := if sys.present dev then (true, dev) else (false, curr)

/-- A device, an offset and a size -/
abbrev Place := Int × Int × Int

/-- `get_part` -/
def getPart (partname : List UInt8) (curr : Int) : Option Place × Int :=
  match sys.mtdpartsInit.bind (findDevAndPart · partname) with
  | none => (none, curr)
  | some (dev, _, part) =>
    if dev.id.type ≠ .nand then (none, curr)
    else
      let r := sys.setDev dev.id.num curr
      (if r.1 then some (dev.id.num, toLoff part.offset, toLoff part.size) else none, r.2)

/-- `arg_off`, with the room behind the offset -/
def argOff (arg : List UInt8) (idx curr : Int) : Option Place × Int :=
  match str2off arg with
  | none => sys.getPart arg curr
  | some off =>
    let size := (sys.info idx).size.toNat
    (if size ≤ toU64 off then none else some (idx, off, toLoff (size - off)), curr)

/-- `arg_off_size` -/
def argOffSize (argv : List (List UInt8)) (idx curr : Int) : Option Place × Int :=
  match argv with
  | [] => (some (idx, 0, toLoff (sys.info idx).size.toNat), curr)
  | arg :: argv =>
    let r := sys.argOff arg idx curr
    match r.1, argv with
    | none, _ => (none, r.2)
    | some place, [] => (some place, r.2)
    | some (idx, off, maxsize), arg :: _ =>
      match str2off arg with
      | none => (none, r.2)
      | some size => (if maxsize < size then none else some (idx, off, size), r.2)

end System

/-! ## Commands -/

/-- `nand_erase_options_t` -/
structure EraseOptions where
  length : Int
  offset : Int
  quiet : Bool
  jffs2 : Bool
  scrub : Bool
  spread : Bool
  deriving DecidableEq

/-- A call of the driver: `nand_erase_opts`, `nand_read_skip_bad` and `nand_write_skip_bad`, `read_oob` and `write_oob`, and
`raw_access`. -/
inductive Op where
  | erase (dev : Int) (opts : EraseOptions)
  | skipBad (read : Bool) (dev off : Int) (length addr flags : Nat)
  | oob (read : Bool) (dev off : Int) (ooblen addr : Nat)
  | raw (read : Bool) (dev : Int) (addr : Nat) (off : Int) (count : Nat)
  deriving DecidableEq

/-- The command is refused with a result, its usage is shown, the driver is called, or it is one of the other commands. -/
inductive Outcome where
  | ret (code : Int)
  | usage
  | call (op : Op)
  | other
  deriving DecidableEq

/-- `strncmp(cmd, name, strlen(name)) == 0` -/
def startsWith (name : String) (cmd : List UInt8) : Bool := (ascii name).isPrefixOf cmd

/-- `strchr(cmd, '.')` -/
def suffix (cmd : List UInt8) : Option (List UInt8) :=
  match cmd.dropWhile (· ≠ 46) with
  | [] => none
  | s => some s

/-- How many arguments the erase command takes, and `spread` -/
def eraseArgs (cmd : List UInt8) : Option (Nat × Bool) :=
  let s := cmd.drop 5
  if s = [] then some (2, false)
  else if s = ascii ".spread" then some (2, true)
  else if s = ascii ".part" then some (1, false)
  else if s = ascii ".chip" then some (0, false)
  else none

/-- The last part of the read and write commands: which function of the driver is called. -/
def dispatch (s : Option (List UInt8)) (read raw : Bool) (nand off : Int) (rwsize addr pagecount : Nat) : Outcome :=
  if s = none ∨ s = some (ascii ".jffs2") ∨ s = some (ascii ".e") ∨ s = some (ascii ".i") then
    .call (.skipBad read nand off rwsize addr 0)
  else if s = some (ascii ".yaffs") then if read then .ret 1 else .call (.skipBad read nand off rwsize addr 1)
  else if s = some (ascii ".oob") then .call (.oob read nand off rwsize addr)
  else if raw then .call (.raw read nand addr off pagecount)
  else .ret 1

namespace System

variable (sys : System)

/-- The erase and scrub commands, from `argv[1]` on. -/
def doErase (cmd : List UInt8) (args : List (List UInt8)) (curr : Int) : Outcome × Int :=
  let clean : Bool := args.head? = some (ascii "clean")
  let scrubYes : Bool := args.head? = some (ascii "-y")
  let scrub := startsWith "scrub" cmd
  let rest := if clean ∨ scrubYes then args.drop 1 else args
  match eraseArgs cmd with
  | none => (.usage, curr)
  | some (n, spread) =>
    if rest.length ≠ n then (.usage, curr)
    else
      let r := sys.argOffSize rest curr curr
      match r.1 with
      | none => (.ret 1, r.2)
      | some (dev, off, size) =>
        if scrub ∧ ¬ scrubYes ∧ ¬ (sys.getc.1 = 121 ∧ sys.getc.2 = 13) then (.ret (-1), r.2)
        else (.call (.erase dev ⟨size, off, sys.quiet, clean, scrub, spread⟩), r.2)

/-- The read and write commands, from `argv[1]` on. `nand` is `nand_info[curr]`, taken before the arguments are read. -/
def doReadWrite (cmd : List UInt8) (args : List (List UInt8)) (curr : Int) : Outcome × Int :=
  match args with
  | arg :: place :: args =>
    let addr := (simpleStrtoul arg 16).1
    let read := startsWith "read" cmd
    let nand := sys.info curr
    let s := suffix cmd
    if s = some (ascii ".raw") then
      let r := sys.argOff place curr curr
      match r.1, args.head?.elim (some 1) str2long with
      | none, _ => (.ret 1, r.2)
      | some _, none => (.ret 1, r.2)
      | some (_, off, size), some pagecount =>
        if size < (pagecount * nand.writesize.toNat % 2 ^ 32 : Nat) then (.ret (-1), r.2)
        else
          let rwsize := pagecount * (nand.writesize.toNat + nand.oobsize.toNat) % 2 ^ 32
          (dispatch s read true curr off rwsize addr pagecount, r.2)
    else
      let r := sys.argOffSize (place :: args) curr curr
      match r.1 with
      | none => (.ret 1, r.2)
      | some (_, off, size) => (dispatch s read sys.raw curr off (toSize size) addr 1, r.2)
  | _ => (.usage, curr)

/-- The device command; `default` also changes the environment. -/
def doDevice (args : List (List UInt8)) (curr : Int) : Outcome × Int :=
  match args with
  | [] => (.ret 0, curr)
  | arg :: _ =>
    let r := sys.setDev (if arg = ascii "default" then 1 else Int.bmod (simpleStrtoul arg 10).1 (2 ^ 32)) curr
    (.ret (if r.1 then 0 else -1), r.2)

/-- `do_nand`, with `nand_curr_device`; `again` is `flag & CMD_FLAG_REPEAT`. -/
def doNand (again : Bool) (argv : List (List UInt8)) (curr : Int) : Outcome × Int :=
  match argv with
  | _ :: cmd :: args =>
    if again ∧ cmd ≠ ascii "dump" then (.ret 0, curr)
    else if cmd = ascii "info" then (.other, curr)
    else if cmd = ascii "device" then sys.doDevice args curr
    else if ¬ sys.present curr then (.ret 1, curr)
    else if cmd = ascii "bad" then (.other, curr)
    else if startsWith "erase" cmd ∨ startsWith "scrub" cmd then sys.doErase cmd args curr
    else if startsWith "dump" cmd then (.other, curr)
    else if startsWith "read" cmd ∨ startsWith "write" cmd then sys.doReadWrite cmd args curr
    else (.other, curr)
  | _ => (.usage, curr)

end System

end Uboot.CmdNand
