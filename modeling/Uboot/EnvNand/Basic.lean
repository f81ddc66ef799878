import Uboot.Nand.Basic

/-!
# The environment in NAND (`common/env_nand.c`)

`writeenv` and `readenv` place the environment in the good blocks of its area. `size_t` has 32 bits. The driver's reads
and writes of one block succeed.
-/

namespace Uboot.EnvNand

open Uboot.Lib Uboot.Nand

/-- `CONFIG_ENV_SIZE` and `CONFIG_ENV_RANGE` -/
structure Config where
  envSize : Nat
  envRange : Nat
  envSize_pos : 0 < envSize
  envSize_lt : envSize < 2 ^ 32
  envRange_lt : envRange < 2 ^ 32

/-- The loop of `writeenv`: the amount saved and the device, or none while it runs. -/
def writeLoop (cfg : Config) (nand : NandInfo) (buf : List UInt8) (stop : Nat) :
    Nat → Nat → Nat → Flash → Option (Nat × Flash)
  | 0, _, _, _ => none
  | fuel + 1, offset, amountSaved, f =>
      if amountSaved < cfg.envSize ∧ offset < stop then
        let len := min nand.erasesize cfg.envSize
        if nand.bad offset then
          writeLoop cfg nand buf stop fuel ((offset + nand.erasesize) % 2 ^ 32) amountSaved f
        else
          writeLoop cfg nand buf stop fuel ((offset + nand.erasesize) % 2 ^ 32) (amountSaved + len)
            (nandWrite f offset ((buf.drop amountSaved).take len))
      else some (amountSaved, f)

/-- `writeenv`: whether it returns 0, and the device. -/
def writeenv (cfg : Config) (nand : NandInfo) (fuel offset : Nat) (buf : List UInt8) (f : Flash) :
    Option (Bool × Flash) :=
  (writeLoop cfg nand buf ((offset + cfg.envRange) % 2 ^ 32) fuel offset 0 f).map fun (amountSaved, f) =>
    (amountSaved = cfg.envSize, f)

/-- The loop of `readenv`; `buf` is what is loaded. A failed read ends it. -/
def readLoop (cfg : Config) (nand : NandInfo) (stop : Nat) :
    Nat → Nat → List UInt8 → Flash → Option (Option (List UInt8) × Flash)
  | 0, _, _, _ => none
  | fuel + 1, offset, buf, f =>
      if buf.length < cfg.envSize ∧ offset < stop then
        let len := min nand.erasesize cfg.envSize
        if nand.bad offset then readLoop cfg nand stop fuel ((offset + nand.erasesize) % 2 ^ 32) buf f
        else
          match nand.readSkipBad fuel offset len f with
          | none => none
          | some (ret, _, bytes, f) =>
              if ret ≠ 0 then some (none, f)
              else readLoop cfg nand stop fuel ((offset + nand.erasesize) % 2 ^ 32) (buf ++ bytes) f
      else some (some buf, f)

/-- `readenv`: the environment, when it returns 0. -/
def readenv (cfg : Config) (nand : NandInfo) (fuel offset : Nat) (f : Flash) : Option (Option (List UInt8) × Flash) :=
  (readLoop cfg nand ((offset + cfg.envRange) % 2 ^ 32) fuel offset [] f).map fun (buf, f) =>
    (buf.bind fun buf => if buf.length = cfg.envSize then some buf else none, f)

end Uboot.EnvNand
