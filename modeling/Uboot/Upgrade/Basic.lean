import Uboot.Lib.Strings
import Uboot.Vsprintf.Basic

/-!
# Flashing a firmware image

`upgrade` after `board/qcom/ipq40xx_cdp/ipq40xx_api.c`, `do_http_upgrade` after `net/httpd.c` and, of the shell in
`common/hush.c`, the lines of commands joined by `&&` that the two run. Whether a command succeeds is up to the device.
-/

namespace Uboot.Upgrade

open Lib Vsprintf

/-! ## The shell -/

abbrev Word := List UInt8

abbrev Vars := Word → Option Word

inductive Dev where
  | sf
  | nand
  | mmc
  deriving DecidableEq, Repr

/-- A command with its arguments as the command reads them: bytes of the flash for `sf` and `nand`, blocks for `mmc`. -/
inductive Cmd where
  | erase (dev : Dev) (off len : Nat)
  | write (dev : Dev) (addr off len : Nat)
  | other (argv : List Word)
  deriving DecidableEq, Repr

def words (line : List UInt8) : List Word := (line.splitOn 32).filter (· ≠ [])

def isName (c : UInt8) : Bool := isdigit c ∨ (65 ≤ c ∧ c ≤ 90) ∨ (97 ≤ c ∧ c ≤ 122) ∨ c = 95

/-- The variables of the environment, and those of the shell itself. -/
structure Shell where
  env : Vars
  locals : Vars

/-- `lookup_param`: the environment comes first. -/
def Shell.lookupParam (sh : Shell) (name : Word) : Option Word := (sh.env name).or (sh.locals name)

/-- `set_local_var` refuses a name that the environment has. -/
def Shell.setLocalVar (sh : Shell) (name value : Word) : Shell :=
  if (sh.env name).isSome then sh else { sh with locals := Function.update sh.locals name (some value) }

/-- `insert_var_value`. A word that starts with `$` is a variable and the text behind its name; line ends become blanks. -/
def Shell.insertVarValue (sh : Shell) : Word → Word
  | 36 :: w =>
      ((sh.lookupParam (w.takeWhile isName)).getD [] ++ w.dropWhile isName).map fun c => if c = 10 then 32 else c
  | w => w

def hasVar (argv : List Word) : Bool := argv.any fun w => w.head? = some 36

/-- `make_string` without its line end -/
def Shell.makeString (sh : Shell) (argv : List Word) : List UInt8 := [32].intercalate (argv.map sh.insertVarValue)

/-- `done_word` drops backslashes. -/
def unescape : List UInt8 → Word
  | [] => []
  | 92 :: c :: w => c :: unescape w
  | c :: w => if c = 92 then unescape w else c :: unescape w

/-- `done_word`. A word of no characters counts when it was quoted. -/
def doneWord (nonnull : Bool) (word : List UInt8) : List Word :=
  if word = [] ∧ ¬ nonnull then [] else [unescape word]

/-- `b_addqchr` -/
def addqchr (quote : Bool) (c : UInt8) : List UInt8 := if quote ∧ c ∈ [42, 63, 91, 92] then [92, c] else [c]

inductive Reading where
  | plain
  | single
  | escaped

/-- `parse_stream` when text is read again: `;`, `&`, `|` and `$` are characters like others then. The line end behind the
text ends the command, unless it is quoted; `none` for a single quote that is not closed. -/
def rereadFrom (quote nonnull : Bool) : Reading → List UInt8 → List UInt8 → Option (List Word)
  | .plain, word, [] => some (doneWord nonnull (if quote then word ++ [10] else word))
  | .single, _, [] => none
  | .escaped, word, [] => some (doneWord nonnull (word ++ [10]))
  | .single, word, c :: cs =>
      if c = 39 then rereadFrom quote nonnull .plain word cs else rereadFrom quote nonnull .single (word ++ [c]) cs
  | .escaped, word, c :: cs => rereadFrom quote nonnull .plain (word ++ addqchr quote c) cs
  | .plain, word, c :: cs =>
      if c = 39 then rereadFrom quote true .single word cs
      else if c = 34 then rereadFrom (!quote) true .plain word cs
      else if c = 92 then rereadFrom quote nonnull .escaped (word ++ addqchr quote c) cs
      else if c ∈ [32, 9, 10] ∧ ¬ quote then (rereadFrom false false .plain [] cs).map (doneWord nonnull word ++ ·)
      else if c = 35 ∧ word = [] ∧ ¬ quote then some (doneWord nonnull word)
      else rereadFrom quote nonnull .plain (word ++ addqchr quote c) cs

def reread (text : List UInt8) : Option (List Word) := rereadFrom false false .plain [] text

def devOf (w : Word) : Option Dev :=
  if w = ascii "sf" then some .sf else if w = ascii "nand" then some .nand else if w = ascii "mmc" then some .mmc
  else none

def hexArg (w : Word) : Nat := (simpleStrtoul w 16).1

def parseCmd (argv : List Word) : Cmd :=
  match argv with
  | [d, sub, off, len] =>
      match devOf d with
      | some dev => if sub = ascii "erase" then .erase dev (hexArg off) (hexArg len) else .other argv
      | none => .other argv
  | [d, sub, addr, off, len] =>
      match devOf d with
      | some dev => if sub = ascii "write" then .write dev (hexArg addr) (hexArg off) (hexArg len) else .other argv
      | none => .other argv
  | argv => .other argv

/-- `name=value`, alone on its side of the `&&` -/
def assignment : List Word → Option (Word × Word)
  | [w] => if 61 ∈ w then some (w.takeWhile (· ≠ 61), (w.dropWhile (· ≠ 61)).drop 1) else none
  | _ => none

/-- `cmd_process`: the command that was started, and whether it succeeded. Without words nothing is run. -/
def cmdProcess (exec : Cmd → Bool) : List Word → List Cmd × Bool
  | [] => ([], true)
  | argv => ([parseCmd argv], exec (parseCmd argv))

/-- `run_pipe_real` for a command. One with variables is put together and read again; after a syntax error the result is
that of the command before. -/
def runPipeReal (exec : Cmd → Bool) (sh : Shell) (argv : List Word) : List Cmd × Bool :=
  if hasVar argv then
    match reread (sh.makeString argv) with
    | some argv => cmdProcess exec argv
    | none => ([], true)
  else cmdProcess exec argv

/-- `run_list_real`: the commands that were started, and whether the last one succeeded. -/
def runList (exec : Cmd → Bool) : Shell → List (List Word) → List Cmd × Bool
  | _, [] => ([], true)
  | sh, argv :: rest =>
      match assignment argv with
      | some (name, value) => runList exec (sh.setLocalVar name value) rest
      | none =>
          let r := runPipeReal exec sh argv
          if r.2 then (r.1 ++ (runList exec sh rest).1, (runList exec sh rest).2) else r

/-- `run_command`. The shell refuses an empty line. -/
def runCommand (exec : Cmd → Bool) (sh : Shell) (cmd : List UInt8) : List Cmd × Bool :=
  if cmd = [] then ([], false) else runList exec sh ((words cmd).splitOn (ascii "&&"))

/-! ## The boards -/

def MACH_TYPE_IPQ40XX_AP_DK01_1_C1 : Nat := 0x8010000
def MACH_TYPE_IPQ40XX_AP_DK01_1_C2 : Nat := 0x8010100
def MACH_TYPE_IPQ40XX_AP_DK01_AP4220 : Nat := 0x9000010
def MACH_TYPE_IPQ40XX_AP_DK04_1_C1 : Nat := 0x8010001
def MACH_TYPE_IPQ40XX_AP_DK04_1_C3 : Nat := 0x8010201

/-- The image of the board is in the SPI flash. -/
def SpiBoard (machid : Nat) : Prop :=
  machid = MACH_TYPE_IPQ40XX_AP_DK04_1_C1 ∨ machid = MACH_TYPE_IPQ40XX_AP_DK04_1_C3 ∨
    machid = MACH_TYPE_IPQ40XX_AP_DK01_1_C1

def NandBoard (machid : Nat) : Prop :=
  machid = MACH_TYPE_IPQ40XX_AP_DK01_1_C2 ∨ machid = MACH_TYPE_IPQ40XX_AP_DK01_AP4220

def MmcBoard (machid : Nat) : Prop :=
  machid = MACH_TYPE_IPQ40XX_AP_DK04_1_C1 ∨ machid = MACH_TYPE_IPQ40XX_AP_DK04_1_C3

instance (machid : Nat) : Decidable (SpiBoard machid) := inferInstanceAs (Decidable (_ ∨ _ ∨ _))
instance (machid : Nat) : Decidable (NandBoard machid) := inferInstanceAs (Decidable (_ ∨ _))
instance (machid : Nat) : Decidable (MmcBoard machid) := inferInstanceAs (Decidable (_ ∨ _))

/-- `openwrt_firmware_start` after `board_names_init` -/
def openwrtFirmwareStart (machid : Nat) : Nat :=
  if SpiBoard machid then 0x180000 else 0

/-- `openwrt_firmware_size` after `board_names_init` -/
def openwrtFirmwareSize (machid : Nat) : Nat :=
  if MmcBoard machid then 0xe80000
  else if NandBoard machid then 0x8000000
  else if machid = MACH_TYPE_IPQ40XX_AP_DK01_1_C1 then 0x1e80000
  else 0

/-! ## The two upgrades -/

inductive FwType where
  | qsdk
  | openwrt
  | openwrtEmmc
  deriving DecidableEq, Repr

/-- `do_checkout_firmware` -/
def doCheckoutFirmware (ram : Nat → UInt8) : FwType :=
  if ram 0x8800005c = 0x46 ∧ ram 0x8800005d = 0x6c ∧ ram 0x8800005e = 0x61 ∧ ram 0x8800005f = 0x73 ∧
      ram 0x88000060 = 0x68 then .qsdk
  else if ram 0x880001fe = 0x55 ∧ ram 0x880001ff = 0xAA then .openwrtEmmc
  else .openwrt

/-- `%lX` -/
def numeralX (n : Nat) : List UInt8 := (numeral 16 n).map fun c => if 97 ≤ c then c - 32 else c

def hexDigit (c : UInt8) : UInt8 := if c ≤ 57 then c - 48 else c - 65 + 10

/-- `hex2int` -/
def hex2int (a : List UInt8) : Nat := a.foldl (fun val c => (val <<< 4) % 2 ^ 32 ||| (hexDigit c).toNat) 0

/-- What the line of commands did, if there was one, and the value that is returned. -/
structure Outcome where
  line : Option (List Cmd × Bool)
  ret : Int

/-- The line `SELECT && DEV erase … && DEV write …` of both functions. -/
def flashLine (select dev : String) (start size : Nat) (len : List UInt8) : List UInt8 :=
  ascii select ++ ascii " && " ++ ascii dev ++ ascii " erase 0x" ++ numeral 16 start ++ ascii " 0x" ++ numeral 16 size ++
    ascii " && " ++ ascii dev ++ ascii " write 0x88000000 0x" ++ numeral 16 start ++ 32 :: len

def mmcLine (size : Nat) : List UInt8 :=
  ascii "mmc erase 0x0 0x109800 && mmc write 0x88000000 0x0 0x" ++ numeral 16 (size / 512 + 1)

def scriptLine : List UInt8 := ascii "sf probe && imgaddr=0x88000000 && source $imgaddr:script"

/-- `upgrade` -/
def upgrade (machid : Nat) (ram : Nat → UInt8) (exec : Cmd → Bool) (sh : Shell) : Outcome :=
  let fileSize := match sh.env (ascii "filesize") with
    | some filesize => hex2int filesize
    | none => 0
  let run cmd :=
    let r := runCommand exec sh cmd
    ⟨some r, if r.2 then 0 else 1⟩
  let start := openwrtFirmwareStart machid
  let size := openwrtFirmwareSize machid
  match doCheckoutFirmware ram with
  | .openwrt =>
      if SpiBoard machid then
        if fileSize ≥ size then ⟨none, 0⟩ else run (flashLine "sf probe" "sf" start size (ascii "$filesize"))
      else if NandBoard machid then run (flashLine "nand device 1" "nand" start size (ascii "$filesize"))
      else run []
  | .openwrtEmmc => if 0 < fileSize then run (mmcLine fileSize) else run []
  | .qsdk => run scriptLine

inductive UpgradeType where
  | firmware
  | uboot
  | art
  | qsdkFirmware
  | mibib
  | unknown
  deriving DecidableEq, Repr

/-- `do_http_upgrade` -/
def doHttpUpgrade (machid : Nat) (ram : Nat → UInt8) (exec : Cmd → Bool) (sh : Shell) (size : Nat)
    (upgradeType : UpgradeType) : Outcome :=
  let run cmd := ⟨some (runCommand exec sh cmd), 0⟩
  let len := ascii "0x" ++ numeral 16 size
  match upgradeType with
  | .uboot => if size > 0x80000 then ⟨none, 0⟩ else run (flashLine "sf probe" "sf" 0xf0000 0x80000 len)
  | .firmware | .qsdkFirmware =>
      let start := openwrtFirmwareStart machid
      let limit := openwrtFirmwareSize machid
      match doCheckoutFirmware ram with
      | .openwrt =>
          if SpiBoard machid then
            if size > limit then ⟨none, 0⟩ else run (flashLine "sf probe" "sf" start limit len)
          else if NandBoard machid then run (flashLine "nand device 1" "nand" start limit len)
          else run []
      | .openwrtEmmc => if MmcBoard machid then run (mmcLine size) else run []
      | .qsdk => run scriptLine
  | .art => run (flashLine "sf probe" "sf" 0x170000 0x10000 (ascii "0x10000"))
  | .mibib => run (flashLine "sf probe" "sf" 0x40000 0x20000 (ascii "0x20000"))
  | .unknown => ⟨none, -1⟩

end Uboot.Upgrade
