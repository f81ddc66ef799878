import Uboot.Lib.Xor
import Uboot.Macrw.Basic

/-!
# Writing a MAC address

`flash_write_mac` reads the ART partition, changes it in memory, and erases and writes it. Each calibration region in it
has a word that makes the exclusive or of its words 0xFFFF. `unsigned short` is little-endian.
-/

namespace Uboot.Macrw

open Lib

/-- `DEFAULT_ART_OFFSET` -/
def artOffset : Nat := 0x170000

/-- `DEFAULT_ART_SIZE` -/
def artSize : Nat := 0x10000

/-! ## The flash -/

/-- What `sf read`, `sf erase` and `sf write` do to the flash at the ART partition, when they succeed. -/
structure ArtFlash (S : Type) where
  mem : S → Mem
  read : S → Bool × List UInt8 × S
  erase : S → Bool × S
  write : List UInt8 → S → Bool × S
  read_ok : ∀ s, (read s).1 = true → (read s).2.1 = (mem s).read artOffset artSize
  erase_ok : ∀ s, (erase s).1 = true →
    mem (erase s).2 = fun a => if artOffset ≤ a ∧ a < artOffset + artSize then 0xff else mem s a
  write_ok : ∀ bs s, bs.length = artSize → (∀ i < artSize, mem s (artOffset + i) = 0xff) → (write bs s).1 = true →
    mem (write bs s).2 = (mem s).write artOffset bs

/-- Memory and the flash -/
structure State (S : Type) where
  mem : Mem
  flash : S

section
variable {S : Type} (drv : ArtFlash S)

/-- `read_flash_art` -/
def readFlashArt (s : State S) : Bool × State S :=
  let r := drv.read s.flash
  (r.1, ⟨s.mem.write artLoadAddr r.2.1, r.2.2⟩)

/-- `write_flash_art`: `sf erase … && sf write …` -/
def writeFlashArt (s : State S) : Bool × State S :=
  let e := drv.erase s.flash
  if e.1 then
    let w := drv.write (s.mem.read artLoadAddr artSize) e.2
    (w.1, { s with flash := w.2 })
  else (false, { s with flash := e.2 })

end

/-! ## The addresses -/

/-- `mac_interfaces`: the name, the place from `ART_LOAD_ADDR` on, and `is_wifi` -/
def macInterfaceTable : List (List UInt8 × Nat × Bool) :=
  [(ascii "eth0", 0x0000, false), (ascii "eth1", 0x0006, false), (ascii "wifi0", 0x1006, true),
    (ascii "wifi1", 0x5006, true), (ascii "wifi2", 0x9006, true)]

example : macInterfaceTable.map Prod.fst = macInterfaces := rfl

/-- `get_mac_address_ptr` -/
def getMacAddressPtr (interface : List UInt8) : Option (Nat × Bool) :=
  (macInterfaceTable.find? fun p => p.1 == interface).map Prod.snd

/-- `a2x` -/
def a2x (c : UInt8) : UInt8 :=
  if 48 ≤ c ∧ c ≤ 57 then c - 48
  else if 97 ≤ c ∧ c ≤ 102 then 0xA + (c - 97)
  else if 65 ≤ c ∧ c ≤ 70 then 0xA + (c - 65)
  else 0xFF

/-- The bytes that `copy_str_to_mac` stores. -/
def macBytes (str : List UInt8) : List UInt8 :=
  (List.range 6).map fun i => (a2x (str.getD (i * 2) 0) <<< 4) + a2x (str.getD (i * 2 + 1) 0)

/-- `copy_str_to_mac` -/
def copyStrToMac (mac : Nat) (str : List UInt8) (mem : Mem) : Mem := mem.write mac (macBytes str)

/-- `%02x` -/
def hex2 (b : UInt8) : List UInt8 :=
  let digit (d : UInt8) : UInt8 := if d < 10 then 48 + d else 87 + d
  [digit (b >>> 4), digit (b &&& 15)]

/-- `%02x:%02x:%02x:%02x:%02x:%02x` -/
def macText (mac : List UInt8) : List UInt8 := List.intercalate [58] (mac.map hex2)

/-- `flash_read_mac`, with `last_read_mac` -/
def flashReadMac (interface : List UInt8) (mem : Mem) : Option (List UInt8) :=
  (getMacAddressPtr interface).map fun (mac, _) => macText (mem.read (artLoadAddr + mac) 6)

/-! ## The checksums -/

/-- A `volatile unsigned short` -/
def word (mem : Mem) (a : Nat) : BitVec 16 := BitVec.ofNat 16 (Mem.readLe16 mem a)

def putWord (mem : Mem) (a : Nat) (w : BitVec 16) : Mem := mem.write a (Mem.le16 w.toNat)

/-- `WIFI_CHECKSUM_SIZE` -/
def wifiChecksumSize : Nat := 12064

/-- `WIFI0_BASE`, `WIFI1_BASE` and `WIFI2_BASE`, from `ART_LOAD_ADDR` on -/
def wifiBases : List Nat := [0x1000, 0x5000, 0x9000]

/-- The words of a region, the checksum among them. -/
def region (mem : Mem) (base : Nat) : Nat → BitVec 16 := fun j => word mem (base + 2 * j)

/-- One round of `update_wifi_checksum` -/
def updateRegion (mem : Mem) (base : Nat) : Mem :=
  let mem := putWord mem (base + 2) 0xFFFF
  putWord mem (base + 2) (xorSum (region mem base) (wifiChecksumSize / 2))

/-- `update_wifi_checksum` -/
def updateWifiChecksum (mem : Mem) : Mem := (wifiBases.map (artLoadAddr + ·)).foldl updateRegion mem

/-- `flash_write_mac` -/
def flashWriteMac {S : Type} (drv : ArtFlash S) (interface macStr : List UInt8) (s : State S) : Bool × State S :=
  match normalizeMacString macStr, getMacAddressPtr interface with
  | none, _ => (false, s)
  | some _, none => (false, s)
  | some cleanMac, some (mac, isWifi) =>
      let r := readFlashArt drv s
      if r.1 then
        let mem := copyStrToMac (artLoadAddr + mac) cleanMac r.2.mem
        writeFlashArt drv ⟨if isWifi then updateWifiChecksum mem else mem, r.2.flash⟩
      else (false, r.2)

end Uboot.Macrw
