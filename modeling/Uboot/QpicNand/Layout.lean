import Mathlib.Tactic

/-!
# The layout of a page

Geometry as the probes of `drivers/mtd/qpic_nand.c` store it, `qpic_nand_save_config`, and the descriptors that
`qpic_nand_read_page` and `qpic_add_wr_page_cws_data_desc` queue for the data of a page and for its spare bytes
(`bam_add_one_desc`, `drivers/dma/bam.c`). Registers and command descriptors are left out, and buffers are not `NULL`.
-/

namespace Uboot.QpicNand

/-! ## Probing -/

inductive EccWidth where
  | ecc4
  | ecc8
deriving DecidableEq

/-- What the probes store in `struct mtd_info` and `struct qpic_nand_dev`. `writesize` is `page_size`, too. -/
structure Geometry where
  writesize : Nat
  oobsize : Nat
  size : Nat
  eccWidth : EccWidth
  widebus : Bool
deriving DecidableEq

/-- The fields of `struct onfi_param_page` that are used -/
structure OnfiParamPage where
  featureSupported : BitVec 16
  dataPerPg : BitVec 32
  sparePerPg : BitVec 16
  pgsPerBlk : BitVec 32
  blksPerLUN : BitVec 32
  numBitsEccCorrectability : BitVec 8

/-- `qpic_nand_onfi_save_params` -/
def onfiSaveParams (page : OnfiParamPage) : Geometry where
  writesize := page.dataPerPg.toNat
  oobsize := page.sparePerPg.toNat
  size := (page.blksPerLUN * (page.pgsPerBlk * page.dataPerPg)).toNat
  eccWidth := if 8 ≤ page.numBitsEccCorrectability.toNat then .ecc8 else .ecc4
  widebus := page.featureSupported &&& 1 ≠ 0

/-- `struct nand_flash_dev`: the page size is 0, 256 or 512, and the largest chip of `nand_flash_ids` has 8192 MiB. -/
structure FlashDev where
  pagesize : Nat
  chipsize : Nat
  pagesize_le : pagesize ≤ 512
  chipsize_le : chipsize ≤ 8192

/-- `qpic_nand_get_info_cfg`: page size and spare bytes -/
def getInfoCfg (cfgId : BitVec 8) : Nat × Nat :=
  let writesize := 1024 <<< (cfgId &&& 3).toNat
  let oobsize := (8 <<< ((cfgId >>> 2) &&& 3).toNat) * (writesize / 512)
  (writesize, if 64 < oobsize ∧ writesize = 2048 then 64 else oobsize)

/-- `qpic_nand_get_info_flash_dev` -/
def getInfoFlashDev (dev : FlashDev) : Nat × Nat := (dev.pagesize, dev.pagesize >>> 5)

/-- `qpic_nand_get_info`, for a device in the tables; `qpic_nand_fetch_id` leaves `widebus` 0 -/
def getInfo (dev : FlashDev) (cfgId : BitVec 8) : Geometry :=
  let info := if dev.pagesize = 0 then getInfoCfg cfgId else getInfoFlashDev dev
  ⟨info.1, info.2, dev.chipsize <<< 20, .ecc4, false⟩

/-- A probe stores this geometry. -/
inductive Probed : Geometry → Prop where
  | onfi (page : OnfiParamPage) : Probed (onfiSaveParams page)
  | nonOnfi (dev : FlashDev) (cfgId : BitVec 8) : Probed (getInfo dev cfgId)

/-! ## The configuration -/

/-- `NAND_CW_SIZE_4_BIT_ECC` and `NAND_CW_SIZE_8_BIT_ECC` -/
def EccWidth.cwSize : EccWidth → Nat
  | .ecc4 => 528
  | .ecc8 => 532

/-- What `qpic_nand_save_config` derives -/
structure Config extends Geometry where
  cwsPerPage : Nat
  cwSize : Nat
  oobavail : Nat
deriving DecidableEq

/-- `qpic_nand_save_config`. Too many codewords are refused, and without one it divides by zero. -/
def saveConfig (g : Geometry) : Option Config :=
  let cwsPerPage := g.writesize >>> 9
  if ¬ cwsPerPage ≤ 10 then none
  else if cwsPerPage = 0 then none
  else some ⟨g, cwsPerPage, g.eccWidth.cwSize, g.oobsize / cwsPerPage⟩

inductive CfgMode where
  | raw
  | cfg
deriving DecidableEq

/-- `dev->oob_per_page`, as reading and writing set it -/
def Config.oobPerPage (c : Config) (mode : CfgMode) : Nat := if mode = .raw then c.oobsize else c.oobavail

/-! ## Descriptors -/

/-- Which buffer a descriptor points into -/
inductive Target where
  | data
  | spare
deriving DecidableEq

/-- `struct bam_desc`, with the address as an offset from the start of its buffer -/
structure Desc where
  target : Target
  offset : Nat
  size : Nat
  flags : Nat
deriving DecidableEq

/-- `BAM_DESC_INT_FLAG` and `BAM_DESC_EOT_FLAG` -/
def intFlag : Nat := 1 <<< 7
def eotFlag : Nat := 1 <<< 6

/-- `bam_add_one_desc`: an empty descriptor, and one longer than `QPIC_NAND_MAX_DESC_LEN`, is not queued. -/
def addOneDesc (target : Target) (offset len flags : Nat) : List Desc :=
  if len = 0 then []
  else if 0x7fff < len then []
  else [⟨target, offset, len, flags⟩]

/-! ## Reading -/

/-- `data_bytes`, `ud_bytes_in_last_cw` and `oob_bytes`, which have 16 bits -/
structure CwBytes where
  data : Nat
  udLast : Nat
  oob : Nat

def readBytes (c : Config) (mode : CfgMode) : CwBytes :=
  if mode = .raw then
    { data := c.cwSize % 2 ^ 16, udLast := (c.cwSize + 2 ^ 32 - c.oobsize) % 2 ^ 32 % 2 ^ 16, oob := c.oobsize % 2 ^ 16 }
  else
    let udLast := (512 + 2 ^ 32 - (c.cwsPerPage - 1) <<< 2) % 2 ^ 32 % 2 ^ 16
    { data := 516, udLast := udLast, oob := (516 + 2 ^ 32 - udLast) % 2 ^ 32 % 2 ^ 16 }

/-- The loop over the codewords; `buffer` moves on. -/
def readCws (b : CwBytes) (cwsPerPage : Nat) : Nat → Nat → Nat → List Desc
  | 0, _, _ => []
  | fuel + 1, i, buffer =>
      if i = cwsPerPage - 1 then
        addOneDesc .data buffer b.udLast 0 ++ addOneDesc .spare 0 b.oob intFlag ++
          readCws b cwsPerPage fuel (i + 1) (buffer + b.udLast)
      else addOneDesc .data buffer b.data 0 ++ readCws b cwsPerPage fuel (i + 1) (buffer + b.data)

/-- The descriptors of `qpic_nand_read_page` -/
def readDescs (c : Config) (mode : CfgMode) : List Desc := readCws (readBytes c mode) c.cwsPerPage c.cwsPerPage 0 0

/-! ## Writing -/

/-- `qpic_add_wr_page_cws_data_desc` for one codeword; `len` has 32 bits. -/
def writeCw (c : Config) (mode : CfgMode) (i : Nat) : List Desc :=
  let last := i = c.cwsPerPage - 1
  let flags := if last then 0 else eotFlag
  let data :=
    if mode ≠ .raw then
      addOneDesc .data (i * 516) (if last then (512 + 2 ^ 32 - (c.cwsPerPage - 1) <<< 2) % 2 ^ 32 else 516) flags
    else addOneDesc .data (i * c.cwSize) (if last then (c.cwSize + 2 ^ 32 - c.oobsize) % 2 ^ 32 else c.cwSize) flags
  if last then
    data ++ addOneDesc .spare 0 (if mode = .cfg then c.cwsPerPage <<< 2 else c.oobsize) (eotFlag ||| intFlag)
  else data

/-- `qpic_add_wr_page_cws_data_desc` -/
def writeDescs (c : Config) (mode : CfgMode) : List Desc := (List.range c.cwsPerPage).flatMap (writeCw c mode)

/-! ## What they cover -/

/-- Descriptors one behind the other, from `a` up to `b` -/
def Covers : Nat → List Desc → Nat → Prop
  | a, [], b => a = b
  | a, d :: ds, b => d.offset = a ∧ Covers (a + d.size) ds b

/-- The data descriptors cover the page once and in order, and the spare descriptor stays within `oob_per_page`. -/
structure PageFits (c : Config) (mode : CfgMode) (descs : List Desc) : Prop where
  data : Covers 0 (descs.filter (·.target = .data)) c.writesize
  spare : ∀ d ∈ descs, d.target = .spare → d.offset + d.size ≤ c.oobPerPage mode

/-- With ECC, whole codewords of 512 bytes and at least four spare bytes for each in the share of each; without, codewords
that hold all data and all spare bytes. -/
def LayoutOk (c : Config) (mode : CfgMode) : Prop :=
  if mode = .raw then c.cwsPerPage * c.cwSize = c.writesize + c.oobsize
  else 512 ∣ c.writesize ∧ 4 * c.cwsPerPage * c.cwsPerPage ≤ c.oobsize

instance (c : Config) (mode : CfgMode) : Decidable (LayoutOk c mode) :=
  inferInstanceAs (Decidable (if mode = .raw then c.cwsPerPage * c.cwSize = c.writesize + c.oobsize
    else 512 ∣ c.writesize ∧ 4 * c.cwsPerPage * c.cwsPerPage ≤ c.oobsize))

section
variable {a b n stride last oob : Nat} {xs ys : List Desc} {c : Config} {g : Geometry} {mode : CfgMode}

theorem Covers.append_iff (h : Covers a xs n) : Covers a (xs ++ ys) b ↔ Covers n ys b := by
  induction xs generalizing a with
  | nil => rw [show a = n from h, List.nil_append]
  | cons d ds ih =>
      rw [List.cons_append, Covers, ih h.2]
      exact and_iff_right h.1

theorem covers_le (h : Covers a xs b) : a ≤ b := by
  induction xs generalizing a with
  | nil => exact Nat.le_of_eq h
  | cons d ds ih => exact (Nat.le_add_right a d.size).trans (ih h.2)

/-- The length that is queued -/
def queued (len : Nat) : Nat := if len ≤ 0x7fff then len else 0

theorem covers_addOneDesc (len flags : Nat) : Covers a (addOneDesc .data a len flags) (a + queued len) := by
  rw [addOneDesc, queued]
  split
  next hzero => rw [hzero]; rfl
  next =>
    split
    next hlong => rw [if_neg (by omega)]; rfl
    next hshort => rw [if_pos (by omega)]; exact ⟨rfl, rfl⟩

/-- The descriptors of a page: `n - 1` equal ones, the last one and the spare bytes -/
def pageDescs (n stride last oob flags lastFlags oobFlags : Nat) : List Desc :=
  (List.range (n - 1)).flatMap (fun i => addOneDesc .data (i * stride) stride flags) ++
    addOneDesc .data ((n - 1) * stride) last lastFlags ++ addOneDesc .spare 0 oob oobFlags

theorem addOneDesc_target {d : Desc} {target : Target} {offset len flags : Nat} (h : d ∈ addOneDesc target offset len flags) :
    d.target = target := by
  rw [addOneDesc] at h
  split at h
  next => cases h
  next =>
    split at h
    next => cases h
    next => rw [List.mem_singleton.mp h]

theorem filter_addOneDesc (target : Target) (offset len flags : Nat) :
    (addOneDesc target offset len flags).filter (·.target = .data) =
      if target = .data then addOneDesc target offset len flags else [] := by
  split
  next htarget =>
    refine List.filter_eq_self.mpr fun d hd => ?_
    rw [addOneDesc_target hd, htarget]
    rfl
  next htarget =>
    refine List.filter_eq_nil_iff.mpr fun d hd => ?_
    rw [addOneDesc_target hd]
    simpa using htarget

theorem covers_range (hstride : stride ≤ 0x7fff) (n flags : Nat) :
    Covers 0 ((List.range n).flatMap fun i => addOneDesc .data (i * stride) stride flags) (n * stride) := by
  induction n with
  | zero => exact (Nat.zero_mul stride).symm
  | succ n ih =>
      have hlast := covers_addOneDesc (a := n * stride) stride flags
      rw [queued, if_pos hstride] at hlast
      rw [List.range_succ, List.flatMap_append, ih.append_iff, List.flatMap_singleton, Nat.succ_mul]
      exact hlast

/-- What the descriptors of a page cover -/
theorem pageDescs_fits_iff (hstride : stride ≤ 0x7fff) (flags lastFlags oobFlags : Nat) :
    PageFits c mode (pageDescs n stride last oob flags lastFlags oobFlags) ↔
      (n - 1) * stride + queued last = c.writesize ∧ queued oob ≤ c.oobPerPage mode := by
  have hdata : (pageDescs n stride last oob flags lastFlags oobFlags).filter (·.target = .data) =
      (List.range (n - 1)).flatMap (fun i => addOneDesc .data (i * stride) stride flags) ++
        addOneDesc .data ((n - 1) * stride) last lastFlags := by
    rw [pageDescs, List.filter_append, List.filter_append, filter_addOneDesc, filter_addOneDesc, if_pos rfl,
      if_neg Target.noConfusion, List.append_nil, List.filter_flatMap]
    congr 2
    funext i
    rw [filter_addOneDesc, if_pos rfl]
  have hcovers : Covers 0 ((pageDescs n stride last oob flags lastFlags oobFlags).filter (·.target = .data)) c.writesize ↔
      (n - 1) * stride + queued last = c.writesize := by
    rw [hdata, (covers_range hstride (n - 1) flags).append_iff]
    have hlast : Covers ((n - 1) * stride) (addOneDesc .data ((n - 1) * stride) last lastFlags ++ []) c.writesize ↔
        Covers ((n - 1) * stride + queued last) [] c.writesize := (covers_addOneDesc last lastFlags).append_iff
    rwa [List.append_nil] at hlast
  have hspare : (∀ d ∈ pageDescs n stride last oob flags lastFlags oobFlags, d.target = .spare →
      d.offset + d.size ≤ c.oobPerPage mode) ↔ queued oob ≤ c.oobPerPage mode := by
    have htarget : ∀ d ∈ pageDescs n stride last oob flags lastFlags oobFlags, d.target = .spare →
        d ∈ addOneDesc .spare 0 oob oobFlags := by
      intro d hd hspare
      rw [pageDescs, List.mem_append, List.mem_append] at hd
      rcases hd with (hd | hd) | hd
      · obtain ⟨i, -, hd⟩ := List.mem_flatMap.mp hd
        rw [addOneDesc_target hd] at hspare
        cases hspare
      · rw [addOneDesc_target hd] at hspare
        cases hspare
      · exact hd
    constructor
    · intro h
      rw [queued]
      split
      next hshort =>
        by_cases hzero : oob = 0
        · omega
        have hmem : ⟨.spare, 0, oob, oobFlags⟩ ∈ addOneDesc .spare 0 oob oobFlags := by
          rw [addOneDesc, if_neg hzero, if_neg (by omega)]
          exact List.mem_singleton_self _
        have hle := h _ (List.mem_append_right _ hmem) rfl
        simpa using hle
      next => exact Nat.zero_le _
    · intro h d hd hspare
      have hmem := htarget d hd hspare
      rw [addOneDesc] at hmem
      split at hmem
      next => cases hmem
      next =>
        split at hmem
        next => cases hmem
        next hshort =>
          rw [queued, if_pos (by omega)] at h
          rw [List.mem_singleton.mp hmem]
          simpa using h
  exact ⟨fun h => ⟨hcovers.mp h.data, hspare.mp h.spare⟩, fun h => ⟨hcovers.mpr h.1, hspare.mpr h.2⟩⟩

/-! ## Both modes -/

theorem readCws_eq (w : CwBytes) (hn : 0 < n) {k i buffer : Nat} (hk : i + k = n) (hbuffer : buffer = i * w.data) (hi : i < n) :
    readCws w n k i buffer = (List.range' i (k - 1)).flatMap (fun i => addOneDesc .data (i * w.data) w.data 0) ++
      addOneDesc .data ((n - 1) * w.data) w.udLast 0 ++ addOneDesc .spare 0 w.oob intFlag := by
  induction k generalizing i buffer with
  | zero => omega
  | succ k ih =>
      rw [readCws]
      by_cases hlast : i = n - 1
      · have hzero : k = 0 := by omega
        rw [if_pos hlast, hzero, hbuffer, hlast, readCws, List.append_nil]
        rfl
      · have hsucc : k = (k - 1) + 1 := by omega
        rw [if_neg hlast, ih (by omega) (by rw [hbuffer, Nat.succ_mul]) (by omega), Nat.add_sub_cancel]
        conv_rhs => rw [hsucc, List.range'_succ, List.flatMap_cons, ← hbuffer]
        simp only [List.append_assoc]

theorem readDescs_eq (hn : 0 < c.cwsPerPage) (mode : CfgMode) : readDescs c mode =
    pageDescs c.cwsPerPage (readBytes c mode).data (readBytes c mode).udLast (readBytes c mode).oob 0 0 intFlag := by
  rw [readDescs, readCws_eq _ hn (Nat.zero_add _) (Nat.zero_mul _).symm hn, pageDescs, List.range_eq_range']

/-- The length of the data in the last codeword, and of the spare bytes, when writing -/
def writeBytes (c : Config) (mode : CfgMode) : CwBytes :=
  if mode = .raw then { data := c.cwSize, udLast := (c.cwSize + 2 ^ 32 - c.oobsize) % 2 ^ 32, oob := c.oobsize }
  else { data := 516, udLast := (512 + 2 ^ 32 - (c.cwsPerPage - 1) <<< 2) % 2 ^ 32, oob := c.cwsPerPage <<< 2 }

theorem writeDescs_eq (hn : 0 < c.cwsPerPage) (mode : CfgMode) : writeDescs c mode =
    pageDescs c.cwsPerPage (writeBytes c mode).data (writeBytes c mode).udLast (writeBytes c mode).oob eotFlag 0
      (eotFlag ||| intFlag) := by
  obtain ⟨k, hk⟩ : ∃ k, c.cwsPerPage = k + 1 := ⟨c.cwsPerPage - 1, by omega⟩
  have hinit : (List.range k).flatMap (writeCw c mode) = (List.range k).flatMap fun i =>
      addOneDesc .data (i * (writeBytes c mode).data) (writeBytes c mode).data eotFlag := by
    refine List.flatMap_congr fun i hi => ?_
    have hne : ¬ i = c.cwsPerPage - 1 := by
      have := List.mem_range.mp hi
      omega
    cases mode with
    | raw => simp only [writeCw, writeBytes, if_neg hne, ne_eq, not_true_eq_false, if_false, if_true]
    | cfg => simp only [writeCw, writeBytes, if_neg hne, ne_eq, reduceCtorEq, not_false_eq_true, if_true, if_false]
  have hlast : writeCw c mode k = addOneDesc .data (k * (writeBytes c mode).data) (writeBytes c mode).udLast 0 ++
      addOneDesc .spare 0 (writeBytes c mode).oob (eotFlag ||| intFlag) := by
    have heq : k = c.cwsPerPage - 1 := by omega
    cases mode with
    | raw => simp only [writeCw, writeBytes, if_pos heq, ne_eq, not_true_eq_false, if_false, if_true, reduceCtorEq]
    | cfg => simp only [writeCw, writeBytes, if_pos heq, ne_eq, reduceCtorEq, not_false_eq_true, if_true, if_false]
  rw [writeDescs, hk, List.range_succ, List.flatMap_append, List.flatMap_singleton, hinit, hlast, pageDescs,
    Nat.add_sub_cancel, List.append_assoc]

theorem getInfoCfg_lt (cfgId : BitVec 8) : (getInfoCfg cfgId).2 < 2 ^ 16 := by
  have hpage : (cfgId &&& 3).toNat < 4 := by
    rw [BitVec.toNat_and]
    exact Nat.lt_succ_of_le Nat.and_le_right
  have hspare : ((cfgId >>> 2) &&& 3).toNat < 4 := by
    rw [BitVec.toNat_and]
    exact Nat.lt_succ_of_le Nat.and_le_right
  rw [getInfoCfg]
  generalize (cfgId &&& 3).toNat = page at hpage ⊢
  generalize ((cfgId >>> 2) &&& 3).toNat = spare at hspare ⊢
  interval_cases page <;> interval_cases spare <;> decide

theorem Probed.oobsize_lt (h : Probed g) : g.oobsize < 2 ^ 16 := by
  cases h with
  | onfi page => exact page.sparePerPg.isLt
  | nonOnfi dev cfgId =>
      have hle := dev.pagesize_le
      rw [getInfo]
      split
      next =>
        exact getInfoCfg_lt cfgId
      next =>
        show dev.pagesize >>> 5 < 2 ^ 16
        rw [Nat.shiftRight_eq_div_pow]
        omega

theorem saveConfig_some (h : saveConfig g = some c) : c.toGeometry = g ∧ c.cwsPerPage = g.writesize / 512 ∧
    0 < c.cwsPerPage ∧ c.cwsPerPage ≤ 10 ∧ c.cwSize = g.eccWidth.cwSize ∧ c.oobavail = g.oobsize / c.cwsPerPage := by
  rw [saveConfig, Nat.shiftRight_eq_div_pow] at h
  split at h
  next => cases h
  next hle =>
    split at h
    next => cases h
    next hne =>
      cases h
      exact ⟨rfl, rfl, Nat.pos_of_ne_zero hne, by simpa using hle, rfl, rfl⟩

/-- With ECC: the lengths of the last codeword -/
theorem udLast_eq {n : Nat} (hpos : 0 < n) (hle : n ≤ 10) : (512 + 2 ^ 32 - (n - 1) <<< 2) % 2 ^ 32 = 516 - 4 * n := by
  rw [Nat.shiftLeft_eq]
  omega

theorem readBytes_cfg (hpos : 0 < c.cwsPerPage) (hle : c.cwsPerPage ≤ 10) :
    readBytes c .cfg = ⟨516, 516 - 4 * c.cwsPerPage, 4 * c.cwsPerPage⟩ := by
  have hud : (512 + 2 ^ 32 - (c.cwsPerPage - 1) <<< 2) % 2 ^ 32 % 2 ^ 16 = 516 - 4 * c.cwsPerPage := by
    rw [udLast_eq hpos hle]
    omega
  have hspare : (516 + 2 ^ 32 - (516 - 4 * c.cwsPerPage)) % 2 ^ 32 % 2 ^ 16 = 4 * c.cwsPerPage := by omega
  rw [readBytes, if_neg (by decide), hud]
  dsimp only
  rw [hspare]

theorem writeBytes_cfg (hpos : 0 < c.cwsPerPage) (hle : c.cwsPerPage ≤ 10) :
    writeBytes c .cfg = ⟨516, 516 - 4 * c.cwsPerPage, 4 * c.cwsPerPage⟩ := by
  rw [writeBytes, if_neg (by decide), udLast_eq hpos hle, Nat.shiftLeft_eq, Nat.mul_comm c.cwsPerPage]

theorem cwSize_cases (e : EccWidth) : e.cwSize = 528 ∨ e.cwSize = 532 := by cases e <;> simp [EccWidth.cwSize]

/-- With ECC -/
theorem cfg_fits_iff (hcws : c.cwsPerPage = c.writesize / 512) (hpos : 0 < c.cwsPerPage) (hle : c.cwsPerPage ≤ 10)
    (havail : c.oobavail = c.oobsize / c.cwsPerPage) :
    (c.cwsPerPage - 1) * 516 + queued (516 - 4 * c.cwsPerPage) = c.writesize ∧
        queued (4 * c.cwsPerPage) ≤ c.oobPerPage .cfg ↔
      512 ∣ c.writesize ∧ 4 * c.cwsPerPage * c.cwsPerPage ≤ c.oobsize := by
  rw [queued, if_pos (by omega), queued, if_pos (by omega), Config.oobPerPage, if_neg (by decide), havail,
    Nat.le_div_iff_mul_le hpos]
  refine and_congr_left fun _ => ?_
  omega

/-- Without ECC: what is written -/
theorem raw_fits_iff (hcws : c.cwsPerPage = c.writesize / 512) (hpos : 0 < c.cwsPerPage) (hle : c.cwsPerPage ≤ 10)
    (hcw : c.cwSize = 528 ∨ c.cwSize = 532) (hoob : c.oobsize < 2 ^ 16) :
    (c.cwsPerPage - 1) * c.cwSize + queued ((c.cwSize + 2 ^ 32 - c.oobsize) % 2 ^ 32) = c.writesize ↔
      c.cwsPerPage * c.cwSize = c.writesize + c.oobsize := by
  rw [queued]
  by_cases hfits : c.oobsize ≤ c.cwSize
  · have hmod : (c.cwSize + 2 ^ 32 - c.oobsize) % 2 ^ 32 = c.cwSize - c.oobsize := by omega
    rw [hmod, if_pos (by omega)]
    rcases hcw with hcw | hcw <;> rw [hcw] at hfits ⊢ <;> omega
  · -- the difference wraps around, and the codewords before the last one are too few
    have hmod : (c.cwSize + 2 ^ 32 - c.oobsize) % 2 ^ 32 = c.cwSize + 2 ^ 32 - c.oobsize := by omega
    rw [hmod, if_neg (by omega)]
    rcases hcw with hcw | hcw <;> rw [hcw] at hfits ⊢ <;> omega

theorem queued_le (len : Nat) : queued len ≤ len := by
  rw [queued]
  split <;> omega

/-- The descriptors of a page fit the buffers just when its geometry goes with the lengths in the code. -/
theorem page_fits_iff (hprobe : Probed g) (hconfig : saveConfig g = some c) (mode : CfgMode) :
    PageFits c mode (readDescs c mode) ∧ PageFits c mode (writeDescs c mode) ↔ LayoutOk c mode := by
  obtain ⟨rfl, hcws, hpos, hle, hcw, havail⟩ := saveConfig_some hconfig
  have hoob := hprobe.oobsize_lt
  have hcases := cwSize_cases c.eccWidth
  rw [← hcw] at hcases
  rw [readDescs_eq hpos, writeDescs_eq hpos]
  cases mode with
  | raw =>
      have hwritten := raw_fits_iff hcws hpos hle hcases hoob
      have hspare : queued c.oobsize ≤ c.oobPerPage .raw := queued_le c.oobsize
      have hmod : c.cwSize % 2 ^ 16 = c.cwSize := by omega
      have hmod' : c.oobsize % 2 ^ 16 = c.oobsize := by omega
      simp only [readBytes, writeBytes, if_true, LayoutOk, hmod, hmod']
      rw [pageDescs_fits_iff (by omega), pageDescs_fits_iff (by omega), hwritten]
      refine ⟨fun h => h.2.1, fun h => ⟨⟨?_, hspare⟩, h, hspare⟩⟩
      have hread : (c.cwSize + 2 ^ 32 - c.oobsize) % 2 ^ 32 % 2 ^ 16 = (c.cwSize + 2 ^ 32 - c.oobsize) % 2 ^ 32 := by
        rcases hcases with hcw | hcw <;> rw [hcw] at h ⊢ <;> omega
      rw [hread]
      exact hwritten.mpr h
  | cfg =>
      have hstride : 516 ≤ 0x7fff := by decide
      rw [readBytes_cfg hpos hle, writeBytes_cfg hpos hle, pageDescs_fits_iff hstride, pageDescs_fits_iff hstride,
        and_self_iff, cfg_fits_iff hcws hpos hle havail, LayoutOk, if_neg (by decide)]

end

/-- A chip of the tables whose geometry is in the configuration byte -/
def largeDev : FlashDev := ⟨0, 512, by decide, by decide⟩

example : getInfo largeDev 0x15 = ⟨2048, 64, 512 <<< 20, .ecc4, false⟩ := by decide

/-- 2048 bytes with 64 spare ones fit. -/
theorem page_fits_2048 : Probed (getInfo largeDev 0x15) ∧ ∃ c, saveConfig (getInfo largeDev 0x15) = some c ∧
    (PageFits c .raw (readDescs c .raw) ∧ PageFits c .raw (writeDescs c .raw)) ∧
    PageFits c .cfg (readDescs c .cfg) ∧ PageFits c .cfg (writeDescs c .cfg) := by
  have hconfig : saveConfig (getInfo largeDev 0x15) = some ⟨⟨2048, 64, 512 <<< 20, .ecc4, false⟩, 4, 528, 16⟩ := by decide
  refine ⟨.nonOnfi _ _, _, hconfig, ?_, ?_⟩
  · exact (page_fits_iff (.nonOnfi _ _) hconfig .raw).mpr (by decide)
  · exact (page_fits_iff (.nonOnfi _ _) hconfig .cfg).mpr (by decide)

/-- 4096 bytes with 128 spare ones do not: with ECC, 32 bytes go where 16 are set aside. -/
theorem page_overruns_4096 : Probed (getInfo largeDev 0x16) ∧ ∃ c, saveConfig (getInfo largeDev 0x16) = some c ∧
    c.cwsPerPage ≤ 10 ∧ ¬ PageFits c .cfg (readDescs c .cfg) := by
  have hconfig : saveConfig (getInfo largeDev 0x16) = some ⟨⟨4096, 128, 512 <<< 20, .ecc4, false⟩, 8, 528, 16⟩ := by decide
  refine ⟨.nonOnfi _ _, _, hconfig, by decide, fun h => ?_⟩
  have hspare : 0 + 32 ≤ 16 := h.spare ⟨.spare, 0, 32, intFlag⟩ (by decide) rfl
  omega

end Uboot.QpicNand
