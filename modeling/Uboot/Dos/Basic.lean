import Uboot.Lib.Bytes
import Uboot.Lib.Strings

/-!
# DOS partition tables (`disk/part_dos.c`)

Sector numbers are added up in 32 bits. The recursions have a number of levels that they may go down; they are none where it is not
enough.
-/

namespace Uboot.Dos

open Lib

inductive IfType where
  | ide
  | sata
  | atapi
  | scsi
  | usb
  | doc
  | other
  deriving DecidableEq

/-- What is read of `block_dev_desc_t`; none for a sector that cannot be read -/
structure BlockDev where
  ifType : IfType
  dev : UInt8
  lba : UInt32
  blockRead : UInt32 → Option Mem

/-- `dos_partition_t`, its numbers read with `le32_to_int` -/
structure Entry where
  bootInd : UInt8
  sysInd : UInt8
  start4 : UInt32
  size4 : UInt32
  deriving DecidableEq

structure DiskPartition where
  start : UInt32
  size : UInt32
  blksz : Nat
  name : List UInt8
  type : List UInt8
  deriving DecidableEq

def le32ToInt (buffer : Mem) (a : Nat) : UInt32 :=
  .ofNat ((buffer (a + 3)).toNat <<< 24 + (buffer (a + 2)).toNat <<< 16 + (buffer (a + 1)).toNat <<< 8 + (buffer a).toNat)

def isExtended (partType : UInt8) : Bool := partType = 0x5 || partType = 0xf || partType = 0x85

def readEntry (buffer : Mem) (a : Nat) : Entry := ⟨buffer a, buffer (a + 4), le32ToInt buffer (a + 8), le32ToInt buffer (a + 12)⟩

/-- `DOS_PART_TBL_OFFSET` -/
def table (buffer : Mem) : List Entry := (List.range 4).map fun i => readEntry buffer (0x1be + 16 * i)

inductive BlockType where
  | bad
  | pbr
  | mbr
  deriving DecidableEq

/-- `DOS_PART_MAGIC_OFFSET` -/
def hasMagic (buffer : Mem) : Bool := buffer 0x1fe = 0x55 && buffer 0x1ff = 0xaa

/-- The file system names at `DOS_PBR_FSTYPE_OFFSET` and `DOS_PBR32_FSTYPE_OFFSET` -/
def looksLikeFat (buffer : Mem) : Bool := buffer.read 0x36 3 = ascii "FAT" || buffer.read 0x52 5 = ascii "FAT32"

def testBlockType (buffer : Mem) : BlockType :=
  if hasMagic buffer = false then .bad else if looksLikeFat buffer then .pbr else .mbr

/-- The number after an entry -/
def nextNum (extPartSector : UInt32) (pt : Entry) (partNum : Nat) : Nat :=
  if extPartSector = 0 ∨ pt.sysInd ≠ 0 ∧ isExtended pt.sysInd = false then partNum + 1 else partNum

/-! ## Printing -/

inductive Line where
  | part (partNum : Nat) (lbaStart lbaSize : UInt32) (sysInd : UInt8)
  | pbr (lba : UInt32) (mediaType : UInt8)
  | badSignature (first second : UInt8)
  | unreadable (extPartSector : UInt32)
  deriving DecidableEq

/-- What `print_one_part` keeps for the board -/
structure BootParts where
  bootPartLbaStart : UInt32
  bootPartSize : UInt32
  thirdPartLbaStart : UInt32
  deriving DecidableEq

def Line.keep (b : BootParts) : Line → BootParts
  | .part 1 lbaStart lbaSize _ => { b with bootPartLbaStart := lbaStart, bootPartSize := lbaSize }
  | .part 3 lbaStart _ _ => { b with thirdPartLbaStart := lbaStart }
  | _ => b

def printOnePart (p : Entry) (extPartSector : UInt32) (partNum : Nat) : Line :=
  .part partNum (extPartSector + p.start4) p.size4 p.sysInd

/-- The first loop, and the number after it -/
def printEntries (extPartSector : UInt32) : List Entry → Nat → List Line × Nat
  | [], partNum => ([], partNum)
  | pt :: pts, partNum =>
    let (lines, last) := printEntries extPartSector pts (nextNum extPartSector pt partNum)
    if pt.sysInd ≠ 0 ∧ (extPartSector = 0 ∨ isExtended pt.sysInd = false) then (printOnePart pt extPartSector partNum :: lines, last)
    else (lines, last)

/-- The second loop -/
def printFollow (print : UInt32 → Option (List Line)) (relative : UInt32) : List Entry → Option (List Line)
  | [] => some []
  | pt :: pts =>
    if isExtended pt.sysInd then
      match print (pt.start4 + relative) with
      | none => none
      | some lines => (printFollow print relative pts).map (lines ++ ·)
    else printFollow print relative pts

def printPartitionExtended (d : BlockDev) : Nat → UInt32 → UInt32 → Nat → Option (List Line)
  | 0, _, _, _ => none
  | levels + 1, extPartSector, relative, partNum =>
    match d.blockRead extPartSector with
    | none => some [.unreadable extPartSector]
    | some buffer =>
      match testBlockType buffer with
      | .bad => some [.badSignature (buffer 0x1fe) (buffer 0x1ff)]
      | .pbr => some [.pbr d.lba (buffer 0x15)]
      | .mbr =>
        let (lines, last) := printEntries extPartSector (table buffer) partNum
        (printFollow (fun lbaStart =>
          printPartitionExtended d levels lbaStart (if extPartSector = 0 then lbaStart else relative) last) relative (table buffer)).map (lines ++ ·)

def printPartDos (d : BlockDev) (levels : Nat) : Option (List Line) := printPartitionExtended d levels 0 0 1

/-! ## Looking up -/

def namePrefix : IfType → List UInt8
  | .ide | .sata | .atapi => ascii "hd"
  | .scsi => ascii "sd"
  | .usb => ascii "usbd"
  | .doc => ascii "docd"
  | .other => ascii "xx"

def partInfo (d : BlockDev) (pt : Entry) (extPartSector : UInt32) (partNum : Nat) : DiskPartition where
  start := extPartSector + pt.start4
  size := pt.size4
  blksz := 512
  name := namePrefix d.ifType ++ [97 + d.dev] ++ ascii (toString partNum)
  type := ascii "U-Boot"

/-- The boot indicator is 0x00 or 0x80. -/
def bootOk (pt : Entry) : Bool := pt.bootInd &&& ~~~0x80 = 0

/-- The first loop: the partition, or the number after it -/
def findEntry (d : BlockDev) (whichPart : Int) (extPartSector : UInt32) : List Entry → Nat → Except DiskPartition Nat
  | [], partNum => .ok partNum
  | pt :: pts, partNum =>
    if bootOk pt ∧ pt.sysInd ≠ 0 ∧ partNum = whichPart ∧ isExtended pt.sysInd = false then .error (partInfo d pt extPartSector partNum)
    else findEntry d whichPart extPartSector pts (nextNum extPartSector pt partNum)

/-- What it returns with 0, or none for -1 -/
def getPartitionInfoExtended (d : BlockDev) (whichPart : Int) : Nat → UInt32 → UInt32 → Nat → Option (Option DiskPartition)
  | 0, _, _, _ => none
  | levels + 1, extPartSector, relative, partNum =>
    match d.blockRead extPartSector with
    | none => some none
    | some buffer =>
      if hasMagic buffer = false then some none
      else
        match findEntry d whichPart extPartSector (table buffer) partNum with
        | .error info => some (some info)
        | .ok last =>
          match (table buffer).find? fun pt => isExtended pt.sysInd with
          | none => some none
          | some pt =>
            let lbaStart := pt.start4 + relative
            getPartitionInfoExtended d whichPart levels lbaStart (if extPartSector = 0 then lbaStart else relative) last

def getPartitionInfoDos (d : BlockDev) (levels : Nat) (part : Int) : Option (Option DiskPartition) :=
  getPartitionInfoExtended d part levels 0 0 1

end Uboot.Dos
