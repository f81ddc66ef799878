import Mathlib.Tactic

/-!
# Status words of the QPIC NAND driver

How `drivers/mtd/qpic_nand.c` passes the controller's status words up: `qpic_nand_check_status`, reading and writing pages,
erasing blocks. Status words are inputs, for each codeword or block; data and descriptors are left out. Results are words of
32 bits as in the source.
-/

namespace Uboot.QpicNand

abbrev Word := BitVec 32

/-! ## `qpic_nand_check_status` -/

def flashMpuErr : Word := 1 <<< 8
def flashTimeoutErr : Word := 1 <<< 6
def flashOpErr : Word := 1 <<< 4
def flashErr : Word := flashMpuErr ||| flashTimeoutErr ||| flashOpErr
def progEraseOpResult : Word := 1 <<< 7
def pageAllErased : Word := 1 <<< 7
def numErrorsMask : Word := 0x1f

def eperm : Word := -1
def eio : Word := -5
def einval : Word := -22
def enosys : Word := -38
def ebadmsg : Word := -74
def etimedout : Word := -110
def euclean : Word := -117

/-- `qpic_nand_check_status`; `eraseSts` is what `NAND_ERASED_CW_DETECT_STATUS` reads then -/
def checkStatus (status eraseSts : Word) : Word :=
  if status &&& flashErr ≠ 0 then
    let status :=
      if status &&& flashOpErr ≠ 0 ∧ eraseSts &&& pageAllErased ≠ 0 then status &&& ~~~flashOpErr else status
    if status &&& flashErr = 0 then 0
    else if status &&& flashOpErr ≠ 0 then ebadmsg
    else if status &&& flashMpuErr ≠ 0 then eperm
    else if status &&& flashTimeoutErr ≠ 0 then etimedout
    else 1
  else 0

/-! ## The device -/

/-- Geometry. `phys_erase_shift` and `page_shift` are the logarithms of `erasesize` and `writesize`. -/
structure Mtd where
  pageShift : Nat
  physEraseShift : Nat
  size : Nat
  oobsize : Nat
  oobavail : Nat
  widebus : Bool
  shift_le : pageShift ≤ physEraseShift
  /-- `addr1` has 8 bits of the page number. -/
  size_le : size ≤ 2 ^ 24 * 2 ^ pageShift

def Mtd.writesize (mtd : Mtd) : Nat := 2 ^ mtd.pageShift
def Mtd.erasesize (mtd : Mtd) : Nat := 2 ^ mtd.physEraseShift

/-- What the controller has for a codeword: `NAND_FLASH_STATUS`, `NAND_BUFFER_STATUS`, and the erased detection at the first
and at a second check. -/
structure Cw where
  flashSts : Word
  bufferSts : Word
  eraseSts : Word
  eraseSts2 : Word

inductive OobMode where
  | place
  | auto
  | raw
  deriving DecidableEq

/-- `struct mtd_oob_ops`; of the buffers only whether there is one for data -/
structure OobOps where
  mode : OobMode
  len : Nat
  ooblen : Nat
  ooboffs : Nat
  datbuf : Bool

/-! ## Reading -/

/-- The loop that checks the codewords; `true` for the jump to the end. -/
def readCheck : List Cw → Bool
  | [] => false
  | cw :: cws => if checkStatus cw.flashSts cw.eraseSts ≠ 0 then true else readCheck cws

/-- The loop that counts codewords with corrected bits. -/
def countCorrected (cws : List Cw) : Nat := cws.countP fun cw => cw.bufferSts &&& numErrorsMask ≠ 0

/-- `qpic_nand_read_page` and `ecc_stats.corrected` after it. `nand_ret` is never set. -/
def readPage (cws : List Cw) (corrected : Nat) : Word × Nat :=
  let nandRet : Word := 0
  if readCheck cws then (nandRet, corrected) else (nandRet, corrected + countCorrected cws)

/-- `dev->oob_per_page` -/
def oobPerPage (mtd : Mtd) (ops : OobOps) : Nat := if ops.mode = .raw then mtd.oobsize else mtd.oobavail

/-- `qpic_get_read_page_count`; `size_t` has 32 bits -/
def readPageCount (mtd : Mtd) (ops : OobOps) : Nat :=
  if ops.datbuf then (ops.len + mtd.writesize - 1) % 2 ^ 32 / 2 ^ mtd.pageShift
  else if oobPerPage mtd ops = 0 then 0
  else (ops.ooblen + oobPerPage mtd ops - 1) % 2 ^ 32 / oobPerPage mtd ops

/-- The loop over the pages. -/
def readLoop (flash : Nat → List Cw) : Nat → Nat → Nat → Word × Nat
  | 0, _, corrected => (0, corrected)
  | n + 1, page, corrected =>
    let r := readPage (flash page) corrected
    if r.1 ≠ 0 then r else readLoop flash n (page + 1) r.2

/-- The checks of the arguments of `qpic_nand_read_oob`. -/
def readOobArgs (mtd : Mtd) (to_ : Nat) (ops : OobOps) : Word :=
  if ops.mode = .place then enosys
  else if ops.datbuf ∧ to_ + ops.len > mtd.size then einval
  else if to_ % mtd.writesize ≠ 0 then einval
  else if ops.ooboffs ≠ 0 then einval
  else 0

/-- `qpic_nand_read_oob` -/
def readOob (mtd : Mtd) (flash : Nat → List Cw) (corrected to_ : Nat) (ops : OobOps) : Word :=
  if readOobArgs mtd to_ ops ≠ 0 then readOobArgs mtd to_ ops
  else
    let r := readLoop flash (readPageCount mtd ops) (to_ / 2 ^ mtd.pageShift) corrected
    if r.1 ≠ 0 then r.1
    else if r.2 ≠ corrected then euclean
    else 0

/-- `qpic_nand_read` -/
def read (mtd : Mtd) (flash : Nat → List Cw) (corrected offs len : Nat) : Word :=
  readOob mtd flash corrected offs ⟨.auto, len, 0, 0, true⟩

/-! ## Writing -/

/-- What `qpic_nand_add_wr_page_cws_cmd_desc` leaves in `status`: each word replaced by its check. -/
def wrPageCws (cws : List Cw) : List Cw :=
  cws.map fun cw => { cw with flashSts := checkStatus cw.flashSts cw.eraseSts }

/-- The loop of `qpic_nand_write_page`, which checks them again. -/
def writeCheck : List Cw → Word
  | [] => 0
  | cw :: status =>
    let nandRet := checkStatus cw.flashSts cw.eraseSts2
    if nandRet ≠ 0 then nandRet else writeCheck status

/-- `qpic_nand_write_page` -/
def writePage (cws : List Cw) : Word := writeCheck (wrPageCws cws)

def writeLoop (flash : Nat → List Cw) : Nat → Nat → Word
  | 0, _ => 0
  | n + 1, page =>
    let ret := writePage (flash page)
    if ret ≠ 0 then ret else writeLoop flash n (page + 1)

/-- The checks of the arguments of `qpic_nand_write_oob`. -/
def writeOobArgs (mtd : Mtd) (to_ : Nat) (ops : OobOps) : Word :=
  if ops.mode = .place then enosys
  else if to_ + ops.len > mtd.size then einval
  else if to_ % mtd.writesize ≠ 0 then einval
  else if ops.len % mtd.writesize ≠ 0 then einval
  else if ops.ooboffs ≠ 0 then einval
  else if ¬ ops.datbuf then einval
  else 0

/-- `qpic_nand_write_oob` -/
def writeOob (mtd : Mtd) (flash : Nat → List Cw) (to_ : Nat) (ops : OobOps) : Word :=
  if writeOobArgs mtd to_ ops ≠ 0 then writeOobArgs mtd to_ ops
  else writeLoop flash (ops.len / 2 ^ mtd.pageShift) (to_ / 2 ^ mtd.pageShift)

/-! ## Erasing -/

/-- What the controller has for a block: the words of its erase, those of the read of its marker, and the marker. -/
structure Blk where
  flashSts : Word
  eraseSts : Word
  badSts : Word
  badEraseSts : Word
  badBlock : UInt8 × UInt8

/-- `offs = i << chip->phys_erase_shift`, an `int` -/
def blkOffs (mtd : Mtd) (i : Nat) : Int := (BitVec.ofNat 32 (i <<< mtd.physEraseShift)).toInt

/-- `pageno = offs >> chip->page_shift`, a `u_long` -/
def pageno (mtd : Mtd) (i : Nat) : Nat := (blkOffs mtd i / 2 ^ mtd.pageShift % 2 ^ 32).toNat

/-- `qpic_nand_block_isbad`. `mtd->size` is unsigned, so a negative offset is behind it. -/
def blockIsbad (mtd : Mtd) (flash : Nat → Blk) (i : Nat) : Word :=
  let offs := blkOffs mtd i
  if offs < 0 ∨ offs > mtd.size then einval
  else if offs % mtd.erasesize ≠ 0 then einval
  else
    let blk := flash (pageno mtd i)
    if checkStatus blk.badSts blk.badEraseSts ≠ 0 then 1
    else if mtd.widebus then
      if blk.badBlock.1 ≠ 0xff ∧ blk.badBlock.2 ≠ 0xff then 6 else 0
    else if blk.badBlock.1 ≠ 0xff then 6 else 0

/-- `qpic_nand_blk_erase`. The bit is looked for in the result of the check. -/
def blkErase (blk : Blk) : Word :=
  let status := checkStatus blk.flashSts blk.eraseSts
  if status ≠ 0 then status
  else if status &&& progEraseOpResult = 0 then 0
  else status

/-- The loop of `qpic_nand_erase`, with the pages at which blocks were erased. -/
def eraseLoop (mtd : Mtd) (scrub : Bool) (flash : Nat → Blk) : Nat → Nat → Word → Word × List Nat
  | 0, _, ret => (ret, [])
  | n + 1, i, _ =>
    if ¬ scrub ∧ blockIsbad mtd flash i ≠ 0 then (eio, [])
    else
      let ret := blkErase (flash (pageno mtd i))
      let r := eraseLoop mtd scrub flash n (i + 1) ret
      (r.1, pageno mtd i :: r.2)

/-- The checks of the arguments of `qpic_nand_erase`. -/
def eraseArgs (mtd : Mtd) (addr len : Nat) : Word :=
  if addr + len > mtd.size then einval
  else if addr % mtd.erasesize ≠ 0 then einval
  else if len % mtd.erasesize ≠ 0 then einval
  else 0

/-- `qpic_nand_erase` -/
def erase (mtd : Mtd) (flash : Nat → Blk) (addr len : Nat) (scrub : Bool) : Word × List Nat :=
  if eraseArgs mtd addr len ≠ 0 then (eraseArgs mtd addr len, [])
  else eraseLoop mtd scrub flash (len / 2 ^ mtd.physEraseShift) (addr / 2 ^ mtd.physEraseShift) 0

end Uboot.QpicNand
