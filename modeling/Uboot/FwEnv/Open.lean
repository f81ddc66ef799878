import Uboot.Env.Raw
import Uboot.EnvNand.Redundant
import Uboot.FwEnv.Basic

/-!
# The environment in the Linux tool

`fw_env_open`, `fw_getenv` and what they call, after `tools/env/fw_env.c`. The devices are configured and can be
opened. A call is `none` where it accesses bytes outside of the buffer.
-/

namespace Uboot.FwEnv

open Lib Env Crc32

/-- The machine for which the tool is built: `long` is a word or two. -/
inductive Abi where
  | ilp32
  | lp64
  deriving DecidableEq, Repr

def Abi.sizeofLong : Abi → Nat
  | ilp32 => 4
  | lp64 => 8

/-- A subtraction in `unsigned long`. -/
def Abi.sub (abi : Abi) (a b : Nat) : Nat := (a + 2 ^ (8 * abi.sizeofLong) - b) % 2 ^ (8 * abi.sizeofLong)

/-- `getenvsize` -/
def getenvsize (abi : Abi) (config : Nat) (haveRedundEnv : Bool) : Nat :=
  let rc := abi.sub config abi.sizeofLong
  if haveRedundEnv then abi.sub rc 1 else rc

/-! ## `fw_env_open` -/

inductive FlagScheme where
  | none
  | boolean
  | incremental
  deriving DecidableEq, Repr

/-- The scheme for two devices; there is none for incompatible ones. -/
def flagScheme : MtdType → MtdType → Option FlagScheme
  | .nor, .nor => some .boolean
  | .nand, .nand => some .incremental
  | .dataflash, .dataflash => some .boolean
  | _, _ => Option.none

/-- `dev_current` when both copies are good. -/
def pickCopy : FlagScheme → UInt8 → UInt8 → Option Nat
  | .none, _, _ => Option.none
  | .boolean, flag0, flag1 =>
      if flag0 = 1 ∧ flag1 = 0 then some 0
      else if flag0 = 0 ∧ flag1 = 1 then some 1
      else if flag0 = flag1 then some 0
      else if flag0 = 255 then some 0
      else if flag1 = 255 then some 1
      else some 0
  | .incremental, flag0, flag1 =>
      if flag0 = 255 ∧ flag1 = 0 then some 1
      else if (flag1 = 255 ∧ flag0 = 0) ∨ flag1 ≤ flag0 then some 0
      else some 1

/-- What `fw_env_open` leaves: `environment.data`, `dev_current`, and whether it warned of a bad CRC. -/
structure Environment where
  data : List UInt8
  devCurrent : Nat
  badCrc : Bool
  deriving DecidableEq, Repr

/-- `crc32 (0, data, ENV_SIZE)` -/
def dataCrc (addr envSize : Nat) (data : List UInt8) : Option (BitVec 32) :=
  if envSize ≤ data.length then some (crc32 0 addr (data.take envSize)) else none

/-- `memcpy (environment.data, default_environment, sizeof default_environment)` -/
def useDefault (defaultEnvironment data : List UInt8) : Option (List UInt8) :=
  if defaultEnvironment.length ≤ data.length then
    some (defaultEnvironment ++ data.drop defaultEnvironment.length)
  else none

/-- The flags and the data of a redundant copy. -/
def readFlags : List UInt8 → Option (UInt8 × List UInt8)
  | flags :: data => some (flags, data)
  | [] => none

/-- A device, and the flash it is on. -/
structure Part where
  dev : EnvDev
  flash : Mem

/-- `flash_io (O_RDONLY)` -/
def Part.flashIo (p : Part) : Option (List UInt8) := p.dev.flashReadBuf p.dev.envSize p.dev.devoff p.flash

/-- `fw_env_open`; `addr` are the addresses of the data in the two buffers. -/
def fwEnvOpen (abi : Abi) (defaultEnvironment : List UInt8) (addr : Nat → Nat) (p : Part) (redund : Option Part) :
    Option Environment := do
  let (crc, rest) ← readHeader (← p.flashIo)
  match redund with
  | none =>
      let crc0 ← dataCrc (addr 0) (getenvsize abi p.dev.envSize false) rest
      if crc0 = crc then some ⟨rest, 0, false⟩
      else (useDefault defaultEnvironment rest).map fun data => ⟨data, 0, true⟩
  | some p1 =>
      let (flag0, data) ← readFlags rest
      let crc0 ← dataCrc (addr 0) (getenvsize abi p.dev.envSize true) data
      let (crc', rest') ← readHeader (← p1.flashIo)
      let (flag1, data') ← readFlags rest'
      let scheme ← flagScheme p1.dev.mtdType p.dev.mtdType
      let crc1 ← dataCrc (addr 1) (getenvsize abi p1.dev.envSize true) data'
      if crc0 = crc then
        if crc1 = crc' then
          let devCurrent ← pickCopy scheme flag0 flag1
          some ⟨if devCurrent = 0 then data else data', devCurrent, false⟩
        else some ⟨data, 0, false⟩
      else if crc1 = crc' then some ⟨data', 1, false⟩
      else (useDefault defaultEnvironment data).map fun data => ⟨data, 0, true⟩

/-! ## `fw_getenv` -/

def notTerminated : String := "## Error: environment not terminated\n"

/-- `fw_getenv`: the value or none for `NULL`, and the error that is printed with a `NULL`. Its scan and `envmatch` are
those of `getenv_f`, but for the bound. -/
def fwGetenv (abi : Abi) (defaultEnvironment : List UInt8) (addr : Nat → Nat) (p : Part) (redund : Option Part)
    (name : CStr) : Option (Except String (Option CStr)) := do
  let env ← fwEnvOpen abi defaultEnvironment addr p redund
  let config := if env.devCurrent = 0 then p.dev.envSize else (redund.getD p).dev.envSize
  match ← scanLoop env.data (getenvsize abi config redund.isSome) name (env.data.length + 1) 0 with
  | .found val => (cstrAt env.data val).map fun v => .ok (some v)
  | .missing => some (.ok none)
  | .unterminated => some (.error notTerminated)

/-! ## The copy that is taken -/

/-- With two copies on NAND the tool takes the one that U-Boot takes. -/
theorem pickCopy_incremental (flag0 flag1 : UInt8) :
    pickCopy .incremental flag0 flag1 = some (EnvNand.select flag0 flag1 - 1) := by
  unfold pickCopy EnvNand.select
  simp only [UInt8.lt_iff_toNat_lt, UInt8.le_iff_toNat_le]
  by_cases hwrap : flag1 = 255 ∧ flag0 = 0
  · simp [hwrap]
  · simp only [hwrap, false_or, if_false]
    split_ifs <;> first | rfl | omega

end Uboot.FwEnv
