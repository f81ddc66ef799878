import Uboot.Lib.Bytes
import Uboot.Lib.Strings

/-!
# MAC addresses from the web server (`board/qcom/ipq40xx_cdp/macrw.c`)

`web_macrw_handle` reads the ART partition to `ART_LOAD_ADDR`, which is also where uploads are stored. What the flash
holds and whether it can be read is up to the caller.
-/

namespace Uboot.Macrw

open Uboot.Lib

/-- `ART_LOAD_ADDR` -/
def artLoadAddr : Nat := 0x88000000

def isHexDigit (c : UInt8) : Bool := (48 ≤ c ∧ c ≤ 57) ∨ (97 ≤ c ∧ c ≤ 102) ∨ (65 ≤ c ∧ c ≤ 70)

/-- The loop of `normalize_mac_string`, with the `j` digits of the output. -/
def normalizeFrom : Nat → List UInt8 → List UInt8 → Option (List UInt8)
  | j, output, [] => if j = 12 then some output else none
  | j, output, c :: input =>
      if j = 12 then some output
      else if c = 58 ∨ c = 45 then normalizeFrom j output input
      else if isHexDigit c then
        normalizeFrom (j + 1) (output ++ [if 65 ≤ c ∧ c ≤ 70 then c + 32 else c]) input
      else none

/-- `normalize_mac_string` -/
def normalizeMacString (input : List UInt8) : Option (List UInt8) := normalizeFrom 0 [] input

/-- The names in `mac_interfaces`. -/
def macInterfaces : List (List UInt8) :=
  [ascii "eth0", ascii "eth1", ascii "wifi0", ascii "wifi1", ascii "wifi2"]

/-- `parse_url_args` with ten arguments; `strtok` skips empty ones. -/
def parseUrlArgs (s : List UInt8) : List (List UInt8) := ((s.splitOn 38).filter (· ≠ [])).take 10

/-- The value of an argument; the last one counts. -/
def argument (key : List UInt8) (argv : List (List UInt8)) : Option (List UInt8) :=
  ((argv.filter (key.isPrefixOf ·)).getLast?).map (·.drop key.length)

/-- `web_macrw_handle` comes to `read_flash_art`, if the flash can be probed. -/
def readsArt (argv : List (List UInt8)) : Bool :=
  match argument (ascii "action=") argv, argument (ascii "iface=") argv with
  | some action, some iface =>
      if action = ascii "write" then
        match argument (ascii "mac=") argv with
        | none => false
        | some mac => (normalizeMacString mac).isSome && macInterfaces.contains iface
      else action = ascii "read"
  | _, _ => false

/-- What `web_macrw_handle` does to memory; `art` is what it leaves at `ART_LOAD_ADDR`, or none when the flash cannot be
probed. -/
def loadArt (argv : List (List UInt8)) (art : Option (List UInt8)) (mem : Mem) : Mem :=
  match art with
  | none => mem
  | some bytes => if readsArt argv then mem.write artLoadAddr bytes else mem

theorem loadArt_of_not_reads {argv : List (List UInt8)} (h : readsArt argv = false) (art : Option (List UInt8))
    (mem : Mem) : loadArt argv art mem = mem := by
  cases art with
  | none => rfl
  | some bytes => rw [loadArt, h]; rfl

example : readsArt (parseUrlArgs (ascii "action=read&iface=eth0")) = true := by decide

end Uboot.Macrw
