import Uboot.Lib.Strings
import Uboot.Vsprintf.Basic

/-!
# The mtdparts command

Devices with their partitions and the texts that describe them, after `common/cmd_mtdparts.c`. Texts are C strings
without their NUL. A walk that the source does with a pointer into a text is a function of the rest of the text.
-/

namespace Uboot.Mtdparts

open Lib Vsprintf

/-- `MTD_DEV_TYPE` -/
inductive DevType where
  | nor
  | nand
  | onenand
  deriving DecidableEq, Repr

/-- `struct mtdids` -/
structure MtdIds where
  type : DevType
  num : Nat
  size : Nat
  mtdId : List UInt8
  size_lt : size < 2 ^ 32
  deriving DecidableEq

/-- `struct mtd_erase_region_info` -/
structure EraseRegion where
  offset : Nat
  erasesize : Nat
  numblocks : Nat

/-- What `struct mtd_info` tells about the blocks. -/
structure MtdInfo where
  erasesize : Nat
  eraseregions : List EraseRegion

/-- `mtdids`, and the devices that `get_mtd_device_nm` knows -/
structure Board where
  mtdids : List MtdIds
  mtdTable : DevType → Nat → Option MtdInfo

/-- `struct part_info`. The serial tells the partitions of a device apart, as their addresses do; it is given when a
partition comes to the devices. -/
structure PartInfo where
  name : List UInt8
  autoName : Bool
  size : Nat
  offset : Nat
  ro : Bool
  serial : Nat := 0
  deriving DecidableEq, Repr

/-- `struct mtd_device` -/
structure MtdDevice where
  id : MtdIds
  parts : List PartInfo
  deriving DecidableEq

namespace MtdDevice

def key (dev : MtdDevice) : DevType × Nat := (dev.id.type, dev.id.num)

/-- `num_parts` has 16 bits. -/
def numParts (dev : MtdDevice) : Nat := dev.parts.length % 2 ^ 16

/-- `mtd_part_info` -/
def mtdPartInfo (dev : MtdDevice) (partNum : Nat) : Option PartInfo :=
  if dev.numParts ≤ partNum then none else dev.parts[partNum]?

end MtdDevice

/-- `SIZE_REMAINING` -/
def sizeRemaining : Nat := 0xFFFFFFFF

/-- `OFFSET_NOT_SPECIFIED` -/
def offsetNotSpecified : Nat := 0xFFFFFFFF

/-- `MIN_PART_SIZE` -/
def minPartSize : Nat := 4096

/-! ## Sizes -/

/-- `memsize_parse` -/
def memsizeParse (p : List UInt8) : Nat × List UInt8 :=
  match simpleStrtoul p 0 with
  | (ret, 71 :: p) | (ret, 103 :: p) => (ret * 2 ^ 30 % 2 ^ 32, p)
  | (ret, 77 :: p) | (ret, 109 :: p) => (ret * 2 ^ 20 % 2 ^ 32, p)
  | (ret, 75 :: p) | (ret, 107 :: p) => (ret * 2 ^ 10 % 2 ^ 32, p)
  | (ret, p) => (ret, p)

/-- `memsize_format` -/
def memsizeFormat (size : Nat) : List UInt8 :=
  if size % 2 ^ 30 = 0 then numeral 10 (size / 2 ^ 30) ++ [103]
  else if size % 2 ^ 20 = 0 then numeral 10 (size / 2 ^ 20) ++ [109]
  else if size % 2 ^ 10 = 0 then numeral 10 (size / 2 ^ 10) ++ [107]
  else numeral 10 size

/-! ## Checks -/

/-- The block `j` of a region. -/
def EraseRegion.start (region : EraseRegion) (j : Nat) : Nat := (region.offset + j * region.erasesize) % 2 ^ 32

def startsBlock (regions : List EraseRegion) (a : Nat) : Bool :=
  regions.any fun region => (List.range region.numblocks).any fun j => region.start j == a

/-- `part_validate_eraseblock` -/
def partValidateEraseblock (board : Board) (id : MtdIds) (offset size : Nat) : Bool :=
  match board.mtdTable id.type id.num with
  | none => false
  | some mtd =>
      if mtd.eraseregions = [] then offset % mtd.erasesize == 0 && size % mtd.erasesize == 0
      else startsBlock mtd.eraseregions offset &&
        (startsBlock mtd.eraseregions (offset + size) ||
          mtd.eraseregions.getLast?.any fun region => region.start region.numblocks == offset + size)

/-- The checks of `part_validate`. -/
def partFits (board : Board) (id : MtdIds) (offset size : Nat) : Bool :=
  offset ≤ id.size && offset < (offset + size) % 2 ^ 32 && (offset + size) % 2 ^ 32 ≤ id.size &&
    partValidateEraseblock board id offset size

/-- `part_validate` -/
def partValidate (board : Board) (id : MtdIds) (part : PartInfo) : Option PartInfo :=
  let size := if part.size = sizeRemaining then (id.size + 2 ^ 32 - part.offset) % 2 ^ 32 else part.size
  if partFits board id part.offset size then some { part with size := size } else none

/-! ## One partition -/

/-- `-` or a number -/
def parseSize : List UInt8 → Option (Nat × List UInt8)
  | 45 :: p => some (sizeRemaining, p)
  | p => if (memsizeParse p).1 < minPartSize then none else some (memsizeParse p)

/-- `@` and a number, or nothing -/
def parseOffset : List UInt8 → Nat × List UInt8
  | 64 :: p => memsizeParse p
  | p => (offsetNotSpecified, p)

/-- A name in brackets, or nothing -/
def parseName : List UInt8 → Option (Option (List UInt8) × List UInt8)
  | 40 :: p =>
      let name := p.takeWhile (· ≠ 41)
      match p.dropWhile (· ≠ 41) with
      | [] => none
      | _ :: p => if name = [] then none else some (some name, p)
  | p => some (none, p)

/-- `ro` or nothing -/
def parseRo : List UInt8 → Bool × List UInt8
  | 114 :: 111 :: p => (true, p)
  | p => (false, p)

/-- The end of a partition. -/
def parseEnd (size : Nat) : List UInt8 → Option (List UInt8)
  | [] => some []
  | 59 :: p => some (59 :: p)
  | 44 :: p => if size = sizeRemaining then none else some p
  | _ => none

/-- `0x%08lx@0x%08lx` -/
def autoName (size offset : Nat) : List UInt8 := 48 :: 120 :: hex8 size ++ 64 :: 48 :: 120 :: hex8 offset

/-- `part_parse` -/
def partParse (partdef : List UInt8) : Option (PartInfo × List UInt8) :=
  (parseSize partdef).bind fun (size, p) =>
    let offset := (parseOffset p).1
    (parseName (parseOffset p).2).bind fun (name, p) =>
      (parseEnd size (parseRo p).2).map fun rest =>
        (⟨name.getD (autoName size offset), name.isNone, size, offset, (parseRo p).1, 0⟩, rest)

/-! ## Devices -/

/-- `id_find_by_mtd_id` -/
def idFindByMtdId (board : Board) (mtdId : List UInt8) : Option MtdIds :=
  board.mtdids.find? fun id => id.mtdId == mtdId

/-- `id_find` -/
def idFind (board : Board) (key : DevType × Nat) : Option MtdIds :=
  board.mtdids.find? fun id => (id.type, id.num) == key

/-- `device_find` -/
def deviceFind (devices : List MtdDevice) (key : DevType × Nat) : Option MtdDevice :=
  devices.find? fun dev => dev.key == key

/-- The loop of `device_parse`, with the partitions it puts into `tmp_list`. -/
def partsParse (board : Board) (id : MtdIds) : Nat → List UInt8 → Nat → Option (List PartInfo × List UInt8)
  | 0, _, _ => none
  | fuel + 1, p, offset =>
      (partParse p).bind fun (part, p) =>
        let offset := if part.offset = offsetNotSpecified then offset else part.offset
        (partValidate board id { part with offset := offset }).bind fun part =>
          match p with
          | [] => some ([part], [])
          | 59 :: p => some ([part], 59 :: p)
          | p => (partsParse board id fuel p ((offset + part.size) % 2 ^ 32)).map fun (parts, p) => (part :: parts, p)

/-- The list after `part_sort_add`; only one partition at offset 0 is allowed. -/
def sortAdd (part : PartInfo) : List PartInfo → Option (List PartInfo)
  | [] => some [part]
  | pi :: parts =>
      if part.offset = pi.offset ∧ pi.offset = 0 then none
      else if part.offset ≤ pi.offset then some (part :: pi :: parts)
      else (sortAdd part parts).map (pi :: ·)

/-- The partitions of `tmp_list` are moved to the device, one after the other. -/
def sortAddAll : List PartInfo → List PartInfo → Option (List PartInfo)
  | [], parts => some parts
  | part :: rest, parts => (sortAdd part parts).bind (sortAddAll rest)

/-- The end of the last partition, or 0 without one. -/
def endOffset (dev : Option MtdDevice) : Nat :=
  match dev.bind (·.parts.getLast?) with
  | some part => (part.offset + part.size) % 2 ^ 32
  | none => 0

/-- `device_parse` -/
def deviceParse (board : Board) (devices : List MtdDevice) (mtdDev : List UInt8) :
    Option (MtdDevice × List UInt8) :=
  match mtdDev.dropWhile (· ≠ 58) with
  | [] => none
  | _ :: p =>
      (idFindByMtdId board (mtdDev.takeWhile (· ≠ 58))).bind fun id =>
        let offset := endOffset (deviceFind devices (id.type, id.num))
        (partsParse board id (p.length + 1) p offset).bind fun (tmpList, p) =>
          (sortAddAll tmpList []).map fun parts => (⟨id, parts⟩, p.drop 1)

/-- The loop of `parse_mtdparts`. -/
def devicesParse (board : Board) : Nat → List UInt8 → List MtdDevice → Option (List MtdDevice)
  | 0, _, _ => none
  | fuel + 1, p, devices =>
      (deviceParse board devices p).bind fun (dev, p) =>
        if (deviceFind devices dev.key).isSome then none
        else match p with
          | [] => some (devices ++ [dev])
          | p => devicesParse board fuel p (devices ++ [dev])

/-- `"mtdparts="` -/
def mtdpartsText : List UInt8 := [109, 116, 100, 112, 97, 114, 116, 115, 61]

example : mtdpartsText = ascii "mtdparts=" := by decide

/-- `parse_mtdparts` -/
def parseMtdparts (board : Board) (mtdparts : List UInt8) : Option (List MtdDevice) :=
  if mtdpartsText.isPrefixOf mtdparts then devicesParse board mtdparts.length (mtdparts.drop 9) [] else none

/-! ## The text of the devices -/

/-- The offset is printed where there is a gap. -/
def hasGap (prev : Option PartInfo) (part : PartInfo) : Bool :=
  match prev with
  | none => part.offset != 0
  | some prev => (prev.offset + prev.size) % 2 ^ 32 != part.offset

/-- One partition of `generate_mtdparts`. -/
def formatPart (prev : Option PartInfo) (part : PartInfo) : List UInt8 :=
  memsizeFormat part.size ++ (if hasGap prev part then 64 :: memsizeFormat part.offset else []) ++
    (if part.autoName then [] else 40 :: part.name ++ [41]) ++ if part.ro then [114, 111] else []

/-- The partitions, with commas between them. -/
def formatParts : Option PartInfo → List PartInfo → List UInt8
  | _, [] => []
  | prev, [part] => formatPart prev part
  | prev, part :: parts => formatPart prev part ++ 44 :: formatParts (some part) parts

def formatDevice (dev : MtdDevice) : List UInt8 := dev.id.mtdId ++ 58 :: formatParts none dev.parts

/-- The devices, with semicolons between them. -/
def formatDevices : List MtdDevice → List UInt8
  | [] => []
  | [dev] => formatDevice dev
  | dev :: devices => formatDevice dev ++ 59 :: formatDevices devices

/-- `generate_mtdparts`; the text before the devices is not counted. -/
def generateMtdparts (devices : List MtdDevice) (buflen : Nat) : Option (List UInt8) :=
  if devices = [] then some []
  else if (formatDevices devices).length ≤ buflen - 1 then some (mtdpartsText ++ formatDevices devices)
  else none

/-! ## Commands -/

/-- The devices and the current partition. -/
structure Mtd where
  devices : List MtdDevice
  currentMtdDev : Option (DevType × Nat)
  currentMtdPartnum : Nat
  nextSerial : Nat
  deriving DecidableEq

def Mtd.init : Mtd := ⟨[], none, 0, 0⟩

/-- The partitions of a new device. -/
def MtdDevice.stamp (n : Nat) (dev : MtdDevice) : MtdDevice :=
  { dev with parts := dev.parts.mapIdx fun i part => { part with serial := n + i } }

@[simp] theorem MtdDevice.stamp_key (n : Nat) (dev : MtdDevice) : (dev.stamp n).key = dev.key := rfl

namespace Mtd

variable (board : Board) (s : Mtd)

def setParts (key : DevType × Nat) (parts : List PartInfo) : List MtdDevice :=
  s.devices.map fun dev => if dev.key = key then { dev with parts := parts } else dev

/-- `curr_pi`, for a device that is changed -/
def currPi (dev : MtdDevice) : Option PartInfo :=
  if s.currentMtdDev = some dev.key then dev.mtdPartInfo s.currentMtdPartnum else none

/-- `device_del` -/
def deviceDel (key : DevType × Nat) : Mtd :=
  let devices := s.devices.filter fun dev => dev.key ≠ key
  if s.currentMtdDev = some key then
    match devices with
    | [] => { s with devices := [], currentMtdDev := none }
    | dev :: rest => { s with devices := dev :: rest, currentMtdDev := some dev.key, currentMtdPartnum := 0 }
  else { s with devices := devices }

/-- `part_del`, for the partition `k` of the device -/
def partDel (dev : MtdDevice) (k : Nat) (part : PartInfo) : Mtd :=
  if dev.numParts = 1 then s.deviceDel dev.key
  else
    { s with
      devices := s.setParts dev.key (dev.parts.eraseIdx k)
      currentMtdPartnum := match s.currPi dev with
        | none => s.currentMtdPartnum
        | some currPi =>
            if s.currentMtdPartnum = k then 0
            else if part.offset ≤ currPi.offset then (s.currentMtdPartnum + 255) % 256
            else s.currentMtdPartnum }

/-- `part_sort_add`: the current partition moves when the new one is put before it. -/
def partSortAdd (dev : MtdDevice) (part : PartInfo) : Option Mtd :=
  (sortAdd part dev.parts).map fun parts =>
    { s with
      devices := s.setParts dev.key parts
      nextSerial := s.nextSerial + 1
      currentMtdPartnum := match s.currPi dev, dev.parts.find? fun pi => part.offset ≤ pi.offset with
        | some currPi, some pi =>
            if pi.offset ≤ currPi.offset then (s.currentMtdPartnum + 1) % 256 else s.currentMtdPartnum
        | _, _ => s.currentMtdPartnum }

/-- `part_add` -/
def partAdd (dev : MtdDevice) (part : PartInfo) : Option Mtd :=
  (partValidate board dev.id part).bind fun part => s.partSortAdd dev { part with serial := s.nextSerial }

/-- `device_add` -/
def deviceAdd (dev : MtdDevice) : Mtd :=
  let s' := { s with devices := s.devices ++ [dev.stamp s.nextSerial], nextSerial := s.nextSerial + dev.parts.length }
  if s.devices = [] then { s' with currentMtdDev := some dev.key, currentMtdPartnum := 0 } else s'

end Mtd

/-- `mtd_id_parse` -/
def mtdIdParse (id : List UInt8) : Option ((DevType × Nat) × List UInt8) :=
  let num (type : DevType) (p : List UInt8) : Option ((DevType × Nat) × List UInt8) :=
    if isdigit (p.getD 0 0) then some ((type, (simpleStrtoul p 0).1 % 256), (simpleStrtoul p 0).2) else none
  match id with
  | 110 :: 97 :: 110 :: 100 :: p => num .nand p
  | 110 :: 111 :: 114 :: p => num .nor p
  | 111 :: 110 :: 101 :: 110 :: 97 :: 110 :: 100 :: p => num .onenand p
  | _ => none

/-- A comma and the 8-bit number of a partition, up to the end -/
def parsePnum : List UInt8 → Option Nat
  | 44 :: c :: p =>
      if (simpleStrtoul (c :: p) 0).2 = [] then some ((simpleStrtoul (c :: p) 0).1 % 256) else none
  | _ => none

/-- The first partition with the name -/
def findByName (devices : List MtdDevice) (name : List UInt8) : Option (MtdDevice × Nat × PartInfo) :=
  devices.findSome? fun dev =>
    (dev.parts.findIdx? (·.name == name)).bind fun k => dev.parts[k]?.map fun part => (dev, k, part)

/-- A device, a comma and a number -/
def findByNumber (devices : List MtdDevice) (id : List UInt8) : Option (MtdDevice × Nat × PartInfo) :=
  (mtdIdParse id).bind fun (key, p) =>
    (parsePnum p).bind fun pnum =>
      (deviceFind devices key).bind fun dev => (dev.mtdPartInfo pnum).map fun part => (dev, pnum, part)

/-- `find_dev_and_part`, with the place of the partition, of which `part_num` holds 8 bits -/
def findDevAndPart (devices : List MtdDevice) (id : List UInt8) : Option (MtdDevice × Nat × PartInfo) :=
  (findByName devices id).or (findByNumber devices id)

/-- `"%s:%s(%s)%s"` -/
def addText (id : MtdIds) (size name ro : List UInt8) : List UInt8 :=
  id.mtdId ++ 58 :: size ++ 40 :: name ++ 41 :: ro

/-- The 8-bit length that `do_mtdparts` compares with `PART_ADD_DESC_MAXLEN`. -/
def addLen (id : MtdIds) (size name ro : List UInt8) : Nat :=
  (id.mtdId.length + 1 + size.length + name.length + 2 + if ro.length = 2 then 2 else 0) % 256

inductive Command where
  /-- `mtdparts_init` with a new `mtdparts` variable -/
  | parse (mtdparts : List UInt8)
  /-- `mtdparts add`; without a fourth argument `ro` is empty. -/
  | add (dev size name ro : List UInt8)
  /-- `mtdparts del` -/
  | del (id : List UInt8)
  /-- `mtdparts delall` -/
  | delall
  /-- `chpart` -/
  | chpart (id : List UInt8)
  deriving DecidableEq, Repr

/-- The device and the partition of `mtdparts add`, as they are parsed. -/
def parseAdd (board : Board) (devices : List MtdDevice) (dev size name ro : List UInt8) : Option MtdDevice :=
  (mtdIdParse dev).bind fun (key, _) =>
    (idFind board key).bind fun id =>
      if 64 ≤ addLen id size name ro then none
      else (deviceParse board devices (addText id size name ro)).map (·.1)

namespace Mtd

variable (board : Board) (s : Mtd)

/-- A command that fails leaves the devices as they were, apart from `mtdparts_init`. -/
def exec : Command → Mtd
  | .parse mtdparts =>
      if 1023 < mtdparts.length then s
      else match parseMtdparts board mtdparts with
        | some (dev :: devices) =>
            { devices := (dev :: devices).map (·.stamp s.nextSerial)
              currentMtdDev := some dev.key
              currentMtdPartnum := 0
              nextSerial := s.nextSerial + mtdparts.length }
        | _ => { s with devices := [], currentMtdDev := none }
  | .add dev size name ro =>
      match parseAdd board s.devices dev size name ro with
      | none => s
      | some dev =>
          match deviceFind s.devices dev.key, dev.parts with
          | none, _ => s.deviceAdd dev
          | some old, part :: _ => (s.partAdd board old part).getD s
          | some _, [] => s
  | .del id =>
      match findDevAndPart s.devices id with
      | none => s
      | some (dev, k, part) => s.partDel dev k part
  | .delall => { s with devices := [], currentMtdDev := none }
  | .chpart id =>
      match findDevAndPart s.devices id with
      | none => s
      | some (dev, k, _) => { s with currentMtdDev := some dev.key, currentMtdPartnum := k % 256 }

def run (commands : List Command) : Mtd := commands.foldl (exec board) s

end Mtd

end Uboot.Mtdparts
