import Uboot.Lib.Bytes
import Uboot.QpicNand.Layout
import Uboot.QpicNand.Theorems

/-!
# Reads of pages

`qpic_nand_read_oob` with the bytes it moves: the controller sends the bytes of a page as the read locations say, and BAM
fills the descriptors of `qpic_nand_read_page` with them one after the other. Whole pages go to the buffers of the caller, the
rest goes through those of the driver. Callers start with `retlen` and `oobretlen` zero.
-/

namespace Uboot.QpicNand

open Lib

/-! ## The transfer of a page -/

/-- `ops->datbuf`, `ops->oobbuf`, `dev->pad_dat` and `dev->pad_oob` -/
inductive Buf where
  | datbuf
  | oobbuf
  | padDat
  | padOob
deriving DecidableEq

abbrev Bufs := Buf → Mem

/-- The chip: what is in its pages, codeword behind codeword, what the controller makes of them and sends, and its status
words. Without an error these are the bytes of the page. -/
structure FlashChip where
  image : CfgMode → Nat → Mem
  sent : CfgMode → Nat → Mem
  cws : Nat → List Cw
  sent_eq : ∀ mode page, (∀ cw ∈ cws page, ¬ cw.Failed) → sent mode page = image mode page

/-- The page that `addr0` and `addr1` name -/
def addressed (page : Nat) : Nat := (page <<< 16) % 2 ^ 32 / 2 ^ 16 + 2 ^ 16 * ((page >>> 16) &&& 0xff)

/-- What the controller sends for the read locations of a codeword: `addr_loc_0`, and `addr_loc_1` for the last one -/
def cwStream (w : CwBytes) (cwsPerPage : Nat) (page : Mem) (i : Nat) : List UInt8 :=
  if i = cwsPerPage - 1 then page.read (i * w.data) w.udLast ++ page.read (i * w.data + w.udLast) w.oob
  else page.read (i * w.data) w.data

def pageStream (c : Config) (mode : CfgMode) (page : Mem) : List UInt8 :=
  (List.range c.cwsPerPage).flatMap (cwStream (readBytes c mode) c.cwsPerPage page)

/-- BAM fills the descriptors; `dest` tells where their buffers begin. -/
def bamFill (dest : Target → Buf × Nat) : List Desc → List UInt8 → Bufs → Bufs
  | [], _, bufs => bufs
  | d :: descs, bytes, bufs =>
      let buf := (dest d.target).1
      bamFill dest descs (bytes.drop d.size)
        (Function.update bufs buf ((bufs buf).write ((dest d.target).2 + d.offset) (bytes.take d.size)))

/-! ## Reading -/

/-- `struct mtd_oob_ops`, with lengths of 32 bits and whether there is a buffer for spare bytes -/
structure ReadOps extends OobOps where
  oobbuf : Bool
  len_lt : len < 2 ^ 32
  ooblen_lt : ooblen < 2 ^ 32

/-- Buffers, `ops->retlen` and `ops->oobretlen`, `ecc_stats.corrected` -/
structure ReadState where
  bufs : Bufs
  retlen : Nat
  oobretlen : Nat
  corrected : Nat

/-- `a - b` of two `size_t` -/
def sub32 (a b : Nat) : Nat := (a + 2 ^ 32 - b) % 2 ^ 32

/-- `ffs(n) - 1` -/
def shiftOf : Nat → Nat → Nat
  | 0, _ => 0
  | fuel + 1, n => if n % 2 = 1 then 0 else shiftOf fuel (n / 2) + 1

/-- `chip->page_shift` -/
def Config.pageShift (c : Config) : Nat := shiftOf 32 c.writesize

def OobOps.cfgMode (ops : OobOps) : CfgMode := if ops.mode = .raw then .raw else .cfg

section
variable (c : Config) (ops : ReadOps)

/-- `qpic_get_read_page_count` -/
def getReadPageCount : Nat :=
  if ops.datbuf then (ops.len + c.writesize - 1) % 2 ^ 32 / 2 ^ c.pageShift
  else if c.oobPerPage ops.cfgMode = 0 then 0
  else (ops.ooblen + c.oobPerPage ops.cfgMode - 1) % 2 ^ 32 / c.oobPerPage ops.cfgMode

/-- `qpic_nand_read_oobbuf` -/
def readOobbuf (s : ReadState) : Option (Buf × Nat) :=
  if ¬ ops.oobbuf then none
  else if sub32 ops.ooblen s.oobretlen < c.oobPerPage ops.cfgMode then some (.padOob, 0)
  else some (.oobbuf, s.oobretlen)

/-- `qpic_nand_read_datbuf` -/
def readDatbuf (s : ReadState) : Option (Buf × Nat) :=
  if ¬ ops.datbuf then none
  else if sub32 ops.len s.retlen < c.writesize then some (.padDat, 0)
  else some (.datbuf, s.retlen)

/-- `qpic_nand_read_oobcopy` -/
def readOobcopy (s : ReadState) : ReadState :=
  if ¬ ops.oobbuf then s
  else
    let readOoblen := sub32 ops.ooblen s.oobretlen
    let ooblen := min readOoblen (c.oobPerPage ops.cfgMode)
    let bufs :=
      if readOoblen < c.oobPerPage ops.cfgMode then
        Function.update s.bufs .oobbuf ((s.bufs .oobbuf).write s.oobretlen ((s.bufs .padOob).read 0 ooblen))
      else s.bufs
    { s with bufs := bufs, oobretlen := s.oobretlen + ooblen }

/-- `qpic_nand_read_datcopy` -/
def readDatcopy (s : ReadState) : ReadState :=
  if ¬ ops.datbuf then s
  else
    let readDatlen := sub32 ops.len s.retlen
    let datlen := min readDatlen c.writesize
    let bufs :=
      if readDatlen < c.writesize then
        Function.update s.bufs .datbuf ((s.bufs .datbuf).write s.retlen ((s.bufs .padDat).read 0 datlen))
      else s.bufs
    { s with bufs := bufs, retlen := s.retlen + datlen }

/-- Where `qpic_nand_read_page` points the descriptors -/
def pageDest (s : ReadState) : Target → Buf × Nat
  | .data => (readDatbuf c ops s).getD (.padDat, 0)
  | .spare => (readOobbuf c ops s).getD (.padOob, 0)

variable (chip : FlashChip)

/-- `qpic_nand_read_page`: the result and the state -/
def readPageData (page : Nat) (s : ReadState) : Word × ReadState :=
  let r := readPage (chip.cws (addressed page)) s.corrected
  let stream := pageStream c ops.cfgMode (chip.sent ops.cfgMode (addressed page))
  (r.1, { s with bufs := bamFill (pageDest c ops s) (readDescs c ops.cfgMode) stream s.bufs, corrected := r.2 })

/-- The loop of `qpic_nand_read_oob` -/
def readPagesLoop : Nat → Nat → ReadState → Word × ReadState
  | 0, _, s => (0, s)
  | n + 1, page, s =>
      let r := readPageData c ops chip page s
      if r.1 ≠ 0 then r else readPagesLoop n (page + 1) (readOobcopy c ops (readDatcopy c ops r.2))

/-- The checks of the arguments -/
def readArgs (to_ : Nat) : Word :=
  if ops.mode = .place then enosys
  else if ops.datbuf ∧ to_ + ops.len > c.size then einval
  else if to_ &&& (c.writesize - 1) ≠ 0 then einval
  else if ops.ooboffs ≠ 0 then einval
  else 0

/-- `qpic_nand_read_oob` -/
def readOobData (to_ : Nat) (s : ReadState) : Word × ReadState :=
  if readArgs c ops to_ ≠ 0 then (readArgs c ops to_, s)
  else
    let r := readPagesLoop c ops chip (getReadPageCount c ops) (to_ / 2 ^ c.pageShift % 2 ^ 32) s
    if r.1 ≠ 0 then r
    else if r.2.corrected ≠ s.corrected then (euclean, r.2)
    else r

end

/-! ## Filling the buffers -/

section
variable {a b n : Nat} {bufs : Bufs} {dest : Target → Buf × Nat} {descs rest : List Desc} {bytes : List UInt8} {t : Target}
  {page m : Mem}

/-- Descriptors that follow each other take one run of bytes. -/
theorem bamFill_covers (hcovers : Covers a descs b) (htarget : ∀ d ∈ descs, d.target = t) (hlen : b - a ≤ bytes.length) :
    bamFill dest (descs ++ rest) bytes bufs = bamFill dest rest (bytes.drop (b - a))
      (Function.update bufs (dest t).1 ((bufs (dest t).1).write ((dest t).2 + a) (bytes.take (b - a)))) := by
  induction descs generalizing a bytes bufs with
  | nil =>
      have heq : a = b := hcovers
      rw [heq, Nat.sub_self, List.drop_zero, List.take_zero, Mem.write_nil, Function.update_eq_self, List.nil_append]
  | cons d descs ih =>
      obtain ⟨hoffset, hnext⟩ := hcovers
      have hle : a + d.size ≤ b := covers_le hnext
      have htake : (bytes.take d.size).length = d.size := by
        rw [List.length_take]
        omega
      rw [List.cons_append, bamFill, ih hnext (fun d hd => htarget d (List.mem_cons_of_mem _ hd))
        (by rw [List.length_drop]; omega), htarget d List.mem_cons_self, hoffset]
      have hbytes : bytes.take d.size ++ (bytes.drop d.size).take (b - (a + d.size)) = bytes.take (b - a) := by
        rw [show b - a = d.size + (b - (a + d.size)) by omega, List.take_add]
      have hrest : (bytes.drop d.size).drop (b - (a + d.size)) = bytes.drop (b - a) := by
        rw [List.drop_drop]
        congr 1
        omega
      have hwrite := Mem.write_append (bufs (dest t).1) ((dest t).2 + a) (bytes.take d.size)
        ((bytes.drop d.size).take (b - (a + d.size)))
      rw [htake, hbytes, Nat.add_assoc] at hwrite
      rw [Function.update_self, Function.update_idem, hwrite, hrest]

end

/-! ## One page of 2048 bytes -/

/-- The configuration for 2048 bytes with 64 spare ones and 4-bit ECC -/
structure Config.Usual (c : Config) : Prop where
  writesize : c.writesize = 2048
  cwsPerPage : c.cwsPerPage = 4
  oobavail : c.oobavail = 16

/-- Its data descriptors -/
def usualData : List Desc :=
  [⟨.data, 0, 516, 0⟩, ⟨.data, 516, 516, 0⟩, ⟨.data, 1032, 516, 0⟩, ⟨.data, 1548, 500, 0⟩]

section
variable {c : Config} {ops : ReadOps} {chip : FlashChip} {page : Mem} {bufs : Bufs} {dest : Target → Buf × Nat} {s : ReadState}
  {n : Nat}

theorem usual_of_probed {g : Geometry} (hconfig : saveConfig g = some c) (hwrite : g.writesize = 2048) (hoob : g.oobsize = 64) :
    c.Usual := by
  obtain ⟨rfl, hcws, -, -, -, havail⟩ := saveConfig_some hconfig
  have hfour : c.cwsPerPage = 4 := by rw [hcws, hwrite]
  exact ⟨hwrite, hfour, by rw [havail, hoob, hfour]⟩

theorem Config.Usual.readBytes (hu : c.Usual) : QpicNand.readBytes c .cfg = ⟨516, 500, 16⟩ := by
  have hcws := hu.cwsPerPage
  rw [readBytes_cfg (by omega) (by omega), hcws]

theorem Config.Usual.readDescs (hu : c.Usual) :
    QpicNand.readDescs c .cfg = usualData ++ [⟨.spare, 0, 16, intFlag⟩] := by
  have hcws := hu.cwsPerPage
  rw [readDescs_eq (by omega), hu.readBytes, hcws]
  decide

theorem Config.Usual.pageStream (hu : c.Usual) : QpicNand.pageStream c .cfg page = page.read 0 2048 ++ page.read 2048 16 := by
  have hrange : List.range 4 = [0, 1, 2, 3] := rfl
  simp only [QpicNand.pageStream, hu.cwsPerPage, hrange, hu.readBytes, List.flatMap_cons, List.flatMap_nil, cwStream]
  rw [Mem.read_add page 0 516 (516 + (516 + 500)), Mem.read_add page (0 + 516), Mem.read_add page (0 + 516 + 516)]
  simp only [List.append_assoc, List.append_nil]
  rfl

/-- The transfer of a page -/
theorem bamFill_page (hu : c.Usual) : bamFill dest (readDescs c .cfg) (pageStream c .cfg page) bufs =
    let bufs := Function.update bufs (dest .data).1 ((bufs (dest .data).1).write (dest .data).2 (page.read 0 2048))
    Function.update bufs (dest .spare).1 ((bufs (dest .spare).1).write (dest .spare).2 (page.read 2048 16)) := by
  have hdata : Covers 0 usualData 2048 := ⟨rfl, rfl, rfl, rfl, rfl⟩
  have hdataTarget : ∀ d ∈ usualData, d.target = .data := by decide
  have hspareTarget : ∀ d ∈ [Desc.mk .spare 0 16 intFlag], d.target = .spare := by decide
  have hspare : Covers 0 [⟨.spare, 0, 16, intFlag⟩] 16 := ⟨rfl, rfl⟩
  have hlen : 2048 - 0 ≤ (page.read 0 2048 ++ page.read 2048 16).length := by
    rw [List.length_append, Mem.read_length, Mem.read_length]
    decide
  have htake : (page.read 0 2048 ++ page.read 2048 16).take (2048 - 0) = page.read 0 2048 := List.take_left' Mem.read_length
  have hdrop : (page.read 0 2048 ++ page.read 2048 16).drop (2048 - 0) = page.read 2048 16 := List.drop_left' Mem.read_length
  have hrest : (page.read 2048 16).take (16 - 0) = page.read 2048 16 := List.take_of_length_le (by rw [Mem.read_length])
  rw [hu.readDescs, hu.pageStream, bamFill_covers hdata hdataTarget hlen, htake, hdrop, ← List.append_nil [_],
    bamFill_covers hspare hspareTarget (by rw [Mem.read_length]), hrest]
  rfl

/-! ## What a page leaves in the buffers of the caller -/

theorem sub32_of_le {a b : Nat} (hle : b ≤ a) (hlt : a < 2 ^ 32) : sub32 a b = a - b := by
  rw [sub32]
  omega

/-- The bytes of the data that are still missing, at most a page -/
def ReadOps.datlen (ops : ReadOps) (s : ReadState) : Nat := min (ops.len - s.retlen) 2048

/-- The spare bytes that are still missing, at most those of a page -/
def ReadOps.oobNext (ops : ReadOps) (s : ReadState) : Nat := if ops.oobbuf then min (ops.ooblen - s.oobretlen) 16 else 0

/-- The state after a page and the copies -/
def pageStep (c : Config) (ops : ReadOps) (chip : FlashChip) (page : Nat) (s : ReadState) : ReadState :=
  readOobcopy c ops (readDatcopy c ops (readPageData c ops chip page s).2)

/-- The buffers before the copies, and where each part of the page is. -/
theorem readPageData_bufs (hu : c.Usual) (hmode : ops.cfgMode = .cfg) (page : Nat) :
    (readPageData c ops chip page s).2.bufs =
      let bufs := Function.update s.bufs (pageDest c ops s .data).1
        ((s.bufs (pageDest c ops s .data).1).write (pageDest c ops s .data).2 ((chip.sent .cfg (addressed page)).read 0 2048))
      Function.update bufs (pageDest c ops s .spare).1
        ((bufs (pageDest c ops s .spare).1).write (pageDest c ops s .spare).2
          ((chip.sent .cfg (addressed page)).read 2048 16)) := by
  rw [readPageData, hmode]
  exact bamFill_page hu

theorem pageDest_data (hu : c.Usual) (hdat : ops.datbuf = true) (hret : s.retlen ≤ ops.len) :
    pageDest c ops s .data = if ops.len - s.retlen < 2048 then (.padDat, 0) else (.datbuf, s.retlen) := by
  rw [pageDest, readDatbuf, if_neg (by simp [hdat]), sub32_of_le hret ops.len_lt, hu.writesize]
  split <;> rfl

theorem pageDest_spare (hu : c.Usual) (hmode : ops.cfgMode = .cfg) (hret : s.oobretlen ≤ ops.ooblen) :
    pageDest c ops s .spare =
      if ops.oobbuf ∧ 16 ≤ ops.ooblen - s.oobretlen then (.oobbuf, s.oobretlen) else (.padOob, 0) := by
  have hper : c.oobPerPage .cfg = 16 := hu.oobavail
  rw [pageDest, readOobbuf, sub32_of_le hret ops.ooblen_lt, hmode, hper]
  by_cases hoob : ops.oobbuf = true
  · by_cases hlt : ops.ooblen - s.oobretlen < 16
    · simp [hoob, hlt, show ¬ 16 ≤ ops.ooblen - s.oobretlen by omega]
    · simp [hoob, hlt, show 16 ≤ ops.ooblen - s.oobretlen by omega]
  · simp [hoob]

/-- The spare bytes do not go to the data buffers. -/
theorem spare_ne (hu : c.Usual) (hmode : ops.cfgMode = .cfg) (hoobret : s.oobretlen ≤ ops.ooblen) {b : Buf}
    (hb : b = .datbuf ∨ b = .padDat) : b ≠ (pageDest c ops s .spare).1 := by
  rw [pageDest_spare hu hmode hoobret]
  split <;> rcases hb with rfl | rfl <;> simp

/-- The data do not go to the spare buffers. -/
theorem data_ne (hu : c.Usual) (hdat : ops.datbuf = true) (hret : s.retlen ≤ ops.len) {b : Buf}
    (hb : b = .oobbuf ∨ b = .padOob) : b ≠ (pageDest c ops s .data).1 := by
  rw [pageDest_data hu hdat hret]
  split <;> rcases hb with rfl | rfl <;> simp

/-- The data in their buffer before the copies -/
theorem readPageData_data (hu : c.Usual) (hmode : ops.cfgMode = .cfg) (hdat : ops.datbuf = true) (hret : s.retlen ≤ ops.len)
    (hoobret : s.oobretlen ≤ ops.ooblen) (page : Nat) :
    if ops.len - s.retlen < 2048 then
      (readPageData c ops chip page s).2.bufs .datbuf = s.bufs .datbuf ∧
        (readPageData c ops chip page s).2.bufs .padDat =
          (s.bufs .padDat).write 0 ((chip.sent .cfg (addressed page)).read 0 2048)
    else (readPageData c ops chip page s).2.bufs .datbuf =
      (s.bufs .datbuf).write s.retlen ((chip.sent .cfg (addressed page)).read 0 2048) := by
  have hspare : Buf.datbuf ≠ (pageDest c ops s .spare).1 := spare_ne hu hmode hoobret (Or.inl rfl)
  have hspare' : Buf.padDat ≠ (pageDest c ops s .spare).1 := spare_ne hu hmode hoobret (Or.inr rfl)
  rw [readPageData_bufs hu hmode]
  simp only [Function.update_of_ne hspare, Function.update_of_ne hspare', pageDest_data hu hdat hret]
  split
  next => exact ⟨Function.update_of_ne (by decide) _ _, Function.update_self _ _ _⟩
  next => exact Function.update_self _ _ _

/-- The spare bytes in their buffer before the copies -/
theorem readPageData_spare (hu : c.Usual) (hmode : ops.cfgMode = .cfg) (hdat : ops.datbuf = true) (hret : s.retlen ≤ ops.len)
    (hoobret : s.oobretlen ≤ ops.ooblen) (page : Nat) :
    if ops.oobbuf ∧ 16 ≤ ops.ooblen - s.oobretlen then
      (readPageData c ops chip page s).2.bufs .oobbuf =
        (s.bufs .oobbuf).write s.oobretlen ((chip.sent .cfg (addressed page)).read 2048 16)
    else (readPageData c ops chip page s).2.bufs .oobbuf = s.bufs .oobbuf ∧
      (readPageData c ops chip page s).2.bufs .padOob =
        (s.bufs .padOob).write 0 ((chip.sent .cfg (addressed page)).read 2048 16) := by
  have hdata : Buf.oobbuf ≠ (pageDest c ops s .data).1 := data_ne hu hdat hret (Or.inl rfl)
  have hdata' : Buf.padOob ≠ (pageDest c ops s .data).1 := data_ne hu hdat hret (Or.inr rfl)
  rw [readPageData_bufs hu hmode, pageDest_spare hu hmode hoobret]
  split
  next =>
    dsimp only
    rw [Function.update_self, Function.update_of_ne hdata]
  next =>
    dsimp only
    rw [Function.update_self, Function.update_of_ne (by decide), Function.update_of_ne hdata, Function.update_of_ne hdata']
    exact ⟨rfl, rfl⟩

theorem readDatcopy_spec (hu : c.Usual) (hdat : ops.datbuf = true) {r : ReadState} (hret : r.retlen ≤ ops.len) {m : Mem}
    (hdata : if ops.len - r.retlen < 2048 then r.bufs .datbuf = m ∧ ∃ pad : Mem, r.bufs .padDat = pad.write 0 (page.read 0 2048)
      else r.bufs .datbuf = m.write r.retlen (page.read 0 2048)) :
    (readDatcopy c ops r).retlen = r.retlen + ops.datlen r ∧ (readDatcopy c ops r).oobretlen = r.oobretlen ∧
    (readDatcopy c ops r).bufs .datbuf = m.write r.retlen (page.read 0 (ops.datlen r)) ∧
    (readDatcopy c ops r).bufs .oobbuf = r.bufs .oobbuf ∧ (readDatcopy c ops r).bufs .padOob = r.bufs .padOob := by
  have hsub : sub32 ops.len r.retlen = ops.len - r.retlen := sub32_of_le hret ops.len_lt
  have hcopy : readDatcopy c ops r = { r with
      bufs := if ops.len - r.retlen < 2048 then
          Function.update r.bufs .datbuf ((r.bufs .datbuf).write r.retlen ((r.bufs .padDat).read 0 (ops.datlen r)))
        else r.bufs
      retlen := r.retlen + ops.datlen r } := by
    rw [readDatcopy, if_neg (by simp [hdat]), hsub, hu.writesize]
    rfl
  rw [hcopy]
  by_cases hshort : ops.len - r.retlen < 2048
  · rw [if_pos hshort] at hdata
    obtain ⟨hsame, pad, hpad⟩ := hdata
    have hle : ops.datlen r ≤ (page.read 0 2048).length := by
      rw [Mem.read_length]
      exact Nat.min_le_right _ _
    simp only [if_pos hshort]
    refine ⟨trivial, trivial, ?_, Function.update_of_ne (by decide) _ _, Function.update_of_ne (by decide) _ _⟩
    rw [Function.update_self, hsame, hpad, Mem.read_write hle, Mem.read_take (by rwa [Mem.read_length] at hle)]
  · rw [if_neg hshort] at hdata
    have hlen : ops.datlen r = 2048 := Nat.min_eq_right (by omega)
    simp only [if_neg hshort]
    refine ⟨trivial, trivial, ?_, trivial, trivial⟩
    rw [hdata, hlen]

theorem readOobcopy_spec (hu : c.Usual) (hmode : ops.cfgMode = .cfg) {r : ReadState} (hret : r.oobretlen ≤ ops.ooblen) {m : Mem}
    (hspare : if ops.oobbuf ∧ 16 ≤ ops.ooblen - r.oobretlen then r.bufs .oobbuf = m.write r.oobretlen (page.read 2048 16)
      else r.bufs .oobbuf = m ∧ ∃ pad : Mem, r.bufs .padOob = pad.write 0 (page.read 2048 16)) :
    (readOobcopy c ops r).retlen = r.retlen ∧ (readOobcopy c ops r).oobretlen = r.oobretlen + ops.oobNext r ∧
    (readOobcopy c ops r).bufs .datbuf = r.bufs .datbuf ∧
    (readOobcopy c ops r).bufs .oobbuf = m.write r.oobretlen (page.read 2048 (ops.oobNext r)) := by
  have hsub : sub32 ops.ooblen r.oobretlen = ops.ooblen - r.oobretlen := sub32_of_le hret ops.ooblen_lt
  have hper : c.oobPerPage .cfg = 16 := hu.oobavail
  by_cases hoob : ops.oobbuf = true
  · have hnext : ops.oobNext r = min (ops.ooblen - r.oobretlen) 16 := if_pos hoob
    have hcopy : readOobcopy c ops r = { r with
        bufs := if ops.ooblen - r.oobretlen < 16 then
            Function.update r.bufs .oobbuf ((r.bufs .oobbuf).write r.oobretlen ((r.bufs .padOob).read 0 (ops.oobNext r)))
          else r.bufs
        oobretlen := r.oobretlen + ops.oobNext r } := by
      rw [readOobcopy, if_neg (by simp [hoob]), hsub, hmode, hper, hnext]
    rw [hcopy]
    by_cases hshort : ops.ooblen - r.oobretlen < 16
    · rw [if_neg (by omega)] at hspare
      obtain ⟨hsame, pad, hpad⟩ := hspare
      have hle : ops.oobNext r ≤ (page.read 2048 16).length := by
        rw [Mem.read_length, hnext]
        exact Nat.min_le_right _ _
      simp only [if_pos hshort]
      refine ⟨trivial, trivial, Function.update_of_ne (by decide) _ _, ?_⟩
      rw [Function.update_self, hsame, hpad, Mem.read_write hle, Mem.read_take (by rwa [Mem.read_length] at hle)]
    · rw [if_pos ⟨hoob, by omega⟩] at hspare
      have hlen : ops.oobNext r = 16 := by
        rw [hnext]
        exact Nat.min_eq_right (by omega)
      simp only [if_neg hshort]
      refine ⟨trivial, trivial, trivial, ?_⟩
      rw [hspare, hlen]
  · rw [if_neg (fun h => hoob h.1)] at hspare
    have hcopy : readOobcopy c ops r = r := by rw [readOobcopy, if_pos hoob]
    have hnext : ops.oobNext r = 0 := if_neg hoob
    rw [hcopy, hnext]
    refine ⟨rfl, rfl, rfl, ?_⟩
    rw [hspare.1]
    exact (Mem.write_nil m _).symm

/-- A page moves the counts on and adds its bytes behind those that are there. -/
theorem pageStep_spec (hu : c.Usual) (hmode : ops.cfgMode = .cfg) (hdat : ops.datbuf = true) (hret : s.retlen ≤ ops.len)
    (hoobret : s.oobretlen ≤ ops.ooblen) (page : Nat) :
    (pageStep c ops chip page s).retlen = s.retlen + ops.datlen s ∧
    (pageStep c ops chip page s).oobretlen = s.oobretlen + ops.oobNext s ∧
    (pageStep c ops chip page s).bufs .datbuf =
      (s.bufs .datbuf).write s.retlen ((chip.sent .cfg (addressed page)).read 0 (ops.datlen s)) ∧
    (pageStep c ops chip page s).bufs .oobbuf =
      (s.bufs .oobbuf).write s.oobretlen ((chip.sent .cfg (addressed page)).read 2048 (ops.oobNext s)) := by
  have hdata := @readPageData_data c ops chip s hu hmode hdat hret hoobret page
  have hspare := @readPageData_spare c ops chip s hu hmode hdat hret hoobret page
  obtain ⟨hretlen, hoobretlen, hdatbuf, hoobbuf, hpadOob⟩ :=
    @readDatcopy_spec c ops (chip.sent .cfg (addressed page)) hu hdat (readPageData c ops chip page s).2 hret (s.bufs .datbuf) (by
      show if ops.len - s.retlen < 2048 then _ else _
      split at hdata
      next hshort => rw [if_pos hshort]; exact ⟨hdata.1, _, hdata.2⟩
      next hlong => rw [if_neg hlong]; exact hdata)
  obtain ⟨hretlen', hoobretlen', hdatbuf', hoobbuf'⟩ :=
    @readOobcopy_spec c ops (chip.sent .cfg (addressed page)) hu hmode (readDatcopy c ops (readPageData c ops chip page s).2)
      (by rw [hoobretlen]; exact hoobret) (s.bufs .oobbuf) (by
      rw [hoobretlen, hoobbuf, hpadOob]
      show if ops.oobbuf ∧ 16 ≤ ops.ooblen - s.oobretlen then _ else _
      split at hspare
      next hlong => rw [if_pos hlong]; exact hspare
      next hshort => rw [if_neg hshort]; exact ⟨hspare.1, _, hspare.2⟩)
  have hnext : ops.oobNext (readDatcopy c ops (readPageData c ops chip page s).2) = ops.oobNext s := by
    rw [ReadOps.oobNext, hoobretlen]
    rfl
  rw [hnext, hoobretlen] at hoobretlen' hoobbuf'
  exact ⟨hretlen'.trans hretlen, hoobretlen', hdatbuf'.trans hdatbuf, hoobbuf'⟩

end

/-! ## All pages -/

/-- The bytes of the flash from `a` on -/
def flashBytes (chip : FlashChip) (a n : Nat) : List UInt8 :=
  (List.range n).map fun i => chip.image .cfg ((a + i) / 2048) ((a + i) % 2048)

/-- The spare bytes for the user of the pages from `page` on -/
def userOob (chip : FlashChip) (page n : Nat) : List UInt8 :=
  (List.range n).map fun i => chip.image .cfg (page + i / 16) (2048 + i % 16)

/-- What is there after `k` pages -/
structure PagesRead (ops : ReadOps) (chip : FlashChip) (page : Nat) (datbuf oobbuf : Mem) (k : Nat) (s : ReadState) : Prop where
  retlen : s.retlen = min ops.len (2048 * k)
  oobretlen : s.oobretlen = if ops.oobbuf then min ops.ooblen (16 * k) else 0
  data : s.bufs .datbuf = datbuf.write 0 (flashBytes chip (2048 * page) s.retlen)
  spare : s.bufs .oobbuf = oobbuf.write 0 (userOob chip page s.oobretlen)

section
variable {c : Config} {ops : ReadOps} {chip : FlashChip} {datbuf oobbuf : Mem} {s : ReadState} {page k n : Nat}

theorem flashBytes_length (chip : FlashChip) (a n : Nat) : (flashBytes chip a n).length = n := by
  rw [flashBytes, List.length_map, List.length_range]

theorem userOob_length (chip : FlashChip) (page n : Nat) : (userOob chip page n).length = n := by
  rw [userOob, List.length_map, List.length_range]

/-- The bytes of one page follow those of the pages before it. -/
theorem flashBytes_page (chip : FlashChip) (page : Nat) {n : Nat} (hn : n ≤ 2048) (k : Nat) :
    flashBytes chip (2048 * page) (2048 * k + n) =
      flashBytes chip (2048 * page) (2048 * k) ++ (chip.image .cfg (page + k)).read 0 n := by
  rw [flashBytes, List.range_add, List.map_append, List.map_map]
  congr 1
  refine List.map_congr_left fun i hi => ?_
  rw [List.mem_range] at hi
  have hdiv : (2048 * page + (2048 * k + i)) / 2048 = page + k := by omega
  have hmod : (2048 * page + (2048 * k + i)) % 2048 = 0 + i := by omega
  rw [Function.comp_apply, hdiv, hmod]

theorem userOob_page (chip : FlashChip) (page : Nat) {n : Nat} (hn : n ≤ 16) (k : Nat) :
    userOob chip page (16 * k + n) = userOob chip page (16 * k) ++ (chip.image .cfg (page + k)).read 2048 n := by
  rw [userOob, List.range_add, List.map_append, List.map_map]
  congr 1
  refine List.map_congr_left fun i hi => ?_
  rw [List.mem_range] at hi
  have hdiv : (16 * k + i) / 16 = k := by omega
  have hmod : (16 * k + i) % 16 = i := by omega
  rw [Function.comp_apply, hdiv, hmod]

theorem addressed_of_lt (h : page < 2 ^ 24) : addressed page = page := by
  have hand : (page >>> 16) &&& 0xff = page / 2 ^ 16 % 2 ^ 8 := by
    rw [Nat.shiftRight_eq_div_pow]
    exact Nat.and_two_pow_sub_one_eq_mod _ 8
  rw [addressed, hand, Nat.shiftLeft_eq]
  omega

/-- The loop goes on to the next page. -/
theorem PagesRead.step (h : PagesRead ops chip page datbuf oobbuf k s) (hu : c.Usual) (hmode : ops.cfgMode = .cfg)
    (hdat : ops.datbuf = true) (hpage : page + k < 2 ^ 24) (hcws : ∀ cw ∈ chip.cws (page + k), ¬ cw.Failed) :
    PagesRead ops chip page datbuf oobbuf (k + 1) (pageStep c ops chip (page + k) s) := by
  have hret : s.retlen ≤ ops.len := h.retlen ▸ Nat.min_le_left _ _
  have hoobret : s.oobretlen ≤ ops.ooblen := by
    rw [h.oobretlen]
    split
    next => exact Nat.min_le_left _ _
    next => exact Nat.zero_le _
  obtain ⟨hretlen, hoobretlen, hdata, hspare⟩ := @pageStep_spec c ops chip s hu hmode hdat hret hoobret (page + k)
  rw [addressed_of_lt hpage, chip.sent_eq .cfg _ hcws] at hdata hspare
  have hnow := h.retlen
  have hoobNow := h.oobretlen
  refine ⟨?_, ?_, ?_, ?_⟩
  · rw [hretlen, ReadOps.datlen]
    omega
  · rw [hoobretlen, ReadOps.oobNext]
    split at hoobNow
    next hoob => rw [if_pos hoob, if_pos hoob]; omega
    next hoob => rw [if_neg hoob, if_neg hoob, hoobNow]
  · rw [hdata, hretlen, h.data]
    have hwrite := Mem.write_append datbuf 0 (flashBytes chip (2048 * page) s.retlen)
      ((chip.image .cfg (page + k)).read 0 (ops.datlen s))
    rw [flashBytes_length, Nat.zero_add] at hwrite
    rw [hwrite]
    by_cases hdone : ops.len ≤ 2048 * k
    · have hzero : ops.datlen s = 0 := by
        rw [ReadOps.datlen]
        omega
      rw [hzero, Nat.add_zero]
      exact congrArg (datbuf.write 0) (List.append_nil _)
    · have hfull : s.retlen = 2048 * k := by omega
      have hle : ops.datlen s ≤ 2048 := Nat.min_le_right _ _
      rw [hfull, flashBytes_page chip page hle]
  · rw [hspare, hoobretlen, h.spare]
    have hwrite := Mem.write_append oobbuf 0 (userOob chip page s.oobretlen)
      ((chip.image .cfg (page + k)).read 2048 (ops.oobNext s))
    rw [userOob_length, Nat.zero_add] at hwrite
    rw [hwrite]
    by_cases hdone : ops.oobbuf = true ∧ 16 * k < ops.ooblen
    · rw [if_pos hdone.1] at hoobNow
      have hfull : s.oobretlen = 16 * k := by omega
      have hle : ops.oobNext s ≤ 16 := by
        rw [ReadOps.oobNext, if_pos hdone.1]
        exact Nat.min_le_right _ _
      rw [hfull, userOob_page chip page hle]
    · have hzero : ops.oobNext s = 0 := by
        rw [ReadOps.oobNext]
        split at hoobNow
        next hoob =>
          have hle : ¬ 16 * k < ops.ooblen := fun hlt => hdone ⟨hoob, hlt⟩
          rw [if_pos hoob]
          omega
        next hoob => rw [if_neg hoob]
      rw [hzero, Nat.add_zero]
      exact congrArg (oobbuf.write 0) (List.append_nil _)

/-- The loop reads all pages. -/
theorem readPagesLoop_spec (hu : c.Usual) (hmode : ops.cfgMode = .cfg) (hdat : ops.datbuf = true)
    (h : PagesRead ops chip page datbuf oobbuf k s) (hpage : page + (k + n) ≤ 2 ^ 24)
    (hcws : ∀ i < n, ∀ cw ∈ chip.cws (page + (k + i)), ¬ cw.Failed) :
    (readPagesLoop c ops chip n (page + k) s).1 = 0 ∧
      PagesRead ops chip page datbuf oobbuf (k + n) (readPagesLoop c ops chip n (page + k) s).2 := by
  induction n generalizing k s with
  | zero => exact ⟨rfl, h⟩
  | succ n ih =>
      have hnext := h.step hu hmode hdat (by omega) (hcws 0 (Nat.succ_pos n))
      have hzero : (readPageData c ops chip (page + k) s).1 = 0 := (readPage_spec _ _).1
      rw [readPagesLoop, if_neg (not_not_intro hzero)]
      have hrest := @ih _ (k + 1) hnext (by omega) fun i hi => by
        have := hcws (i + 1) (by omega)
        rwa [show page + (k + (i + 1)) = page + (k + 1 + i) by omega] at this
      rw [show k + (n + 1) = k + 1 + n by omega]
      exact hrest

theorem Probed.size_le {g : Geometry} (h : Probed g) : g.size ≤ 2 ^ 33 := by
  cases h with
  | onfi page =>
      have hlt := (page.blksPerLUN * (page.pgsPerBlk * page.dataPerPg)).isLt
      exact hlt.le.trans (by decide)
  | nonOnfi dev cfgId =>
      have hle := dev.chipsize_le
      show dev.chipsize <<< 20 ≤ 2 ^ 33
      rw [Nat.shiftLeft_eq]
      omega

/-- Reading is linear: the data and the spare bytes of the pages follow each other in the buffers, whose other bytes stay. The
buffer of the caller and the four pages of the driver are in one address space. -/
theorem read_is_linear {g : Geometry} (hprobe : Probed g) (hconfig : saveConfig g = some c) (hwrite : g.writesize = 2048)
    (hoob : g.oobsize = 64) (hmode : ops.mode = .auto) (hdat : ops.datbuf = true) (hoffs : ops.ooboffs = 0) {from_ : Nat}
    (halign : from_ % 2048 = 0) (hin : from_ + ops.len ≤ c.size) (hspace : ops.len + 2 * (2048 + 64) ≤ 2 ^ 32)
    (hcws : ∀ page, from_ ≤ 2048 * page → 2048 * page < from_ + ops.len → ∀ cw ∈ chip.cws page, ¬ cw.Failed)
    (bufs : Bufs) (corrected : Nat) :
    ∃ r s, readOobData c ops chip from_ ⟨bufs, 0, 0, corrected⟩ = (r, s) ∧ (r = 0 ∨ r = euclean) ∧ s.retlen = ops.len ∧
      s.bufs .datbuf = (bufs .datbuf).write 0 (flashBytes chip from_ ops.len) ∧
      s.bufs .oobbuf = (bufs .oobbuf).write 0 (userOob chip (from_ / 2048)
        (if ops.oobbuf then min ops.ooblen (16 * ((ops.len + 2047) / 2048)) else 0)) := by
  have hu := usual_of_probed hconfig hwrite hoob
  have hsize : c.size ≤ 2 ^ 33 := (saveConfig_some hconfig).1 ▸ hprobe.size_le
  have hcfg : ops.cfgMode = .cfg := by rw [OobOps.cfgMode, hmode]; rfl
  have hshift : c.pageShift = 11 := by rw [Config.pageShift, hu.writesize]; decide
  have hand : from_ &&& (c.writesize - 1) = 0 := by
    rw [hu.writesize]
    exact (Nat.and_two_pow_sub_one_eq_mod from_ 11).trans halign
  have hargs : readArgs c ops from_ = 0 := by
    rw [readArgs, if_neg (by simp [hmode]), if_neg (by omega), if_neg (not_not_intro hand), if_neg (not_not_intro hoffs)]
  have hcount : getReadPageCount c ops = (ops.len + 2047) / 2048 := by
    rw [getReadPageCount, if_pos hdat, hu.writesize, hshift, Nat.mod_eq_of_lt (by omega)]
    rfl
  have hstart : from_ / 2 ^ c.pageShift % 2 ^ 32 = from_ / 2048 + 0 := by
    rw [hshift]
    omega
  have hbegin : PagesRead ops chip (from_ / 2048) (bufs .datbuf) (bufs .oobbuf) 0 ⟨bufs, 0, 0, corrected⟩ :=
    ⟨by simp, by simp, (Mem.write_nil _ _).symm, (Mem.write_nil _ _).symm⟩
  obtain ⟨hzero, hread⟩ := @readPagesLoop_spec c ops chip (bufs .datbuf) (bufs .oobbuf) ⟨bufs, 0, 0, corrected⟩ (from_ / 2048) 0
    ((ops.len + 2047) / 2048) hu hcfg hdat hbegin (by omega) fun i hi => hcws _ (by omega) (by omega)
  have hretlen : (readPagesLoop c ops chip ((ops.len + 2047) / 2048) (from_ / 2048 + 0) ⟨bufs, 0, 0, corrected⟩).2.retlen =
      ops.len := by
    rw [hread.retlen]
    omega
  have hdata := hread.data
  have hspare := hread.spare
  rw [hretlen, show 2048 * (from_ / 2048) = from_ by omega] at hdata
  rw [hread.oobretlen, Nat.zero_add] at hspare
  rw [readOobData, if_neg (not_not_intro hargs), hcount, hstart]
  dsimp only
  rw [if_neg (not_not_intro hzero)]
  split
  next => exact ⟨_, _, rfl, Or.inr rfl, hretlen, hdata, hspare⟩
  next => exact ⟨_, _, rfl, Or.inl hzero, hretlen, hdata, hspare⟩

end

/-- Pages whose bytes are their numbers, without errors -/
def numberedChip : FlashChip where
  image := fun _ page _ => UInt8.ofNat page
  sent := fun _ page _ => UInt8.ofNat page
  cws := fun _ => []
  sent_eq := fun _ _ _ => rfl

/-- 3000 bytes and 20 spare ones, from the second page on -/
def sampleOps : ReadOps := ⟨⟨.auto, 3000, 20, 0, true⟩, true, by decide, by decide⟩

theorem read_is_linear_sample : ∃ c, saveConfig (getInfo largeDev 0x15) = some c ∧
    ∃ r s, readOobData c sampleOps numberedChip 2048 ⟨fun _ _ => 0, 0, 0, 0⟩ = (r, s) ∧ (r = 0 ∨ r = euclean) ∧
      s.retlen = 3000 ∧ s.bufs .datbuf = Mem.write (fun _ => 0) 0 (flashBytes numberedChip 2048 3000) ∧
      s.bufs .oobbuf = Mem.write (fun _ => 0) 0 (userOob numberedChip 1 20) := by
  have hconfig : saveConfig (getInfo largeDev 0x15) = some ⟨⟨2048, 64, 512 <<< 20, .ecc4, false⟩, 4, 528, 16⟩ := by decide
  exact ⟨_, hconfig, read_is_linear (.nonOnfi largeDev 0x15) hconfig (by decide) (by decide) rfl rfl rfl (by decide)
    (by decide) (by decide) (fun page _ _ cw hcw => absurd hcw List.not_mem_nil) (fun _ _ => 0) 0⟩

end Uboot.QpicNand
