import Uboot.Mmc.Status

/-!
# Erasing

`mmc_berase` and `mmc_erase_t` of `drivers/mmc/mmc.c`, with the geometry that `mmc_startup` derives from the registers. Commands
are numbered in the order in which they are sent, and each may fail.
-/

namespace Uboot.Mmc

/-! ## Geometry -/

/-- What `mmc_startup` finds: the version and the addressing from the operating conditions, the CSD, the result of
`mmc_send_ext_csd` with the EXT_CSD, and the last value of `sec_feature_support`. -/
structure Registers where
  version : Nat
  highCapacity : Bool
  csd : Fin 4 → BitVec 32
  extErr : Bool
  ext : Nat → UInt8
  sec : UInt8

structure Geometry where
  isSd : Bool
  highCapacity : Bool
  readBlLen : Nat
  writeBlLen : Nat
  eraseGrpSize : Nat
  secFeatureSupport : UInt8
  /-- `block_dev.lba` -/
  lba : Nat

/-- `MMC_VERSION_UNKNOWN` and `MMC_VERSION_4` -/
def versionUnknown : Nat := 0x10000
def version4 : Nat := 0x10040

def isSd (version : Nat) : Bool := version &&& 0x20000 ≠ 0

/-- The version, read off the CSD where it is not known -/
def Registers.versionOf (r : Registers) : Nat :=
  if r.version = versionUnknown then
    match (r.csd 0 >>> 26 &&& 0xf#32).toNat with
    | 0 => 0x10012
    | 1 => 0x10014
    | 2 => 0x10022
    | 3 => 0x10030
    | 4 => version4
    | _ => 0x10012
  else r.version

/-- The number of `erase_grp_size` units and the capacity are taken from the EXT_CSD only for these. -/
def Registers.hasExt (r : Registers) : Bool := !isSd r.versionOf && r.versionOf ≥ version4

def Registers.readBl (r : Registers) : Nat := 1 <<< (r.csd 1 >>> 16 &&& 0xf#32).toNat

def Registers.writeBl (r : Registers) : Nat :=
  if isSd r.versionOf then r.readBl else 1 <<< (r.csd 3 >>> 22 &&& 0xf#32).toNat

def Registers.csdCapacity (r : Registers) : Nat :=
  let csize := if r.highCapacity then ((r.csd 1 &&& 0x3f#32) <<< 16 ||| (r.csd 2 &&& 0xffff0000#32) >>> 16).toNat
    else ((r.csd 1 &&& 0x3ff#32) <<< 2 ||| (r.csd 2 &&& 0xc0000000#32) >>> 30).toNat
  let cmult := if r.highCapacity then 8 else ((r.csd 2 &&& 0x38000#32) >>> 15).toNat
  ((csize + 1) <<< (cmult + 2)) * r.readBl

/-- The sector count is an `int` before it is one of 64 bits. -/
def Registers.extCapacity (r : Registers) : Nat :=
  let byte (i shift : Nat) : BitVec 32 := (r.ext (212 + i)).toBitVec.zeroExtend 32 <<< shift
  ((byte 0 0 ||| byte 1 8 ||| byte 2 16 ||| byte 3 24).signExtend 64 * 512#64).toNat

def Registers.capacity (r : Registers) : Nat :=
  if r.hasExt && !r.extErr && r.ext 192 ≥ 2 && r.extCapacity >>> 20 > 2 * 1024 then r.extCapacity else r.csdCapacity

def Registers.eraseGrpSize (r : Registers) : Nat :=
  if r.hasExt then
    if r.ext 175 ≠ 0 then (r.ext 224).toNat * 512 * 1024
    else (((r.csd 2 &&& 0x7c00#32) >>> 10).toNat + 1) * (((r.csd 2 &&& 0x3e0#32) >>> 5).toNat + 1)
  else 1

def mmcStartup (r : Registers) : Geometry where
  isSd := isSd r.versionOf
  highCapacity := r.highCapacity
  readBlLen := min r.readBl 512
  writeBlLen := min r.writeBl 512
  eraseGrpSize := r.eraseGrpSize
  secFeatureSupport := if r.hasExt && r.ext 231 ≠ 0 then r.ext 231 else r.sec
  lba := ulong (r.capacity / min r.readBl 512)

/-! ## Commands -/

/-- How a command ends. An erase command that fails has cleared its blocks where `spoiled` says so. -/
structure EraseFate where
  err : Int
  response : BitVec 32
  spoiled : Nat → Bool

/-- An erase command as the card takes it -/
structure Clear where
  arg : Nat
  first : Nat
  last : Nat
  /-- What is cleared of a command that fails -/
  spoiled : Option (Nat → Bool)

/-- The addresses that the next erase command works on, what was erased, and the number of commands -/
structure Card where
  first : Nat
  last : Nat
  clears : List Clear
  sent : Nat

def secureErase : Nat := 0x80000000
def secureTrim1 : Nat := 0x80000001
def secureTrim2 : Nat := 0x80008000

/-- `mmc_send_cmd` of a command without data. 32 and 35 give the start, 33 and 36 the end, 38 erases. -/
def sendErase (fate : Nat → EraseFate) (cmdidx cmdarg : Nat) (c : Card) : Int × Card :=
  let f := fate c.sent
  let c' := { c with sent := c.sent + 1 }
  (f.err,
    if cmdidx = 38 then
      { c' with clears := c.clears ++ [⟨cmdarg, c.first, c.last, if f.err = 0 then none else some f.spoiled⟩] }
    else if f.err ≠ 0 then c'
    else if cmdidx = 32 ∨ cmdidx = 35 then { c' with first := cmdarg }
    else { c' with last := cmdarg })

/-- The address for a block, as `mmc_erase_t` computes it -/
def Geometry.address (m : Geometry) (block : Nat) : Nat := if m.highCapacity then block else ulong (block * m.writeBlLen)

def mmcEraseT (m : Geometry) (fate : Nat → EraseFate) (start blkcnt arg : Nat) (c : Card) : Int × Card :=
  let s := sendErase fate (if m.isSd then 32 else 35) (m.address start) c
  if s.1 ≠ 0 then s
  else
    let e := sendErase fate (if m.isSd then 33 else 36) (m.address (ulong (start + blkcnt + (2 ^ 32 - 1)))) s.2
    if e.1 ≠ 0 then e else sendErase fate 38 arg e.2

/-- `mmc_send_status` -/
def eraseWait (fate : Nat → EraseFate) (timeout : Nat) (c : Card) : Int × Card :=
  let r := pollLoop (fun k => ⟨(fate (c.sent + k)).err, (fate (c.sent + k)).response⟩) timeout 5 0
  (afterLoop r.1, { c with sent := c.sent + r.2 })

/-- The loop of `mmc_berase`; none when the rounds are used up -/
def eraseLoop (m : Geometry) (fate : Nat → EraseFate) (start blkcnt : Nat) : Nat → Nat → Card → Option (Nat × Card)
  | fuel, blk, c =>
    if blk < blkcnt then
      match fuel with
      | 0 => none
      | fuel + 1 =>
        let blkR := if blkcnt - blk > m.eraseGrpSize then m.eraseGrpSize else blkcnt - blk
        let e := mmcEraseT m fate (ulong (start + blk)) blkR secureErase c
        if e.1 ≠ 0 then some (blk, e.2)
        else
          let w := eraseWait fate 2000 e.2
          if w.1 ≠ 0 then some (0, w.2) else eraseLoop m fate start blkcnt fuel (blk + blkR) w.2
    else some (blk, c)

/-- `return -1` of an `unsigned long` -/
def minusOne : Nat := 2 ^ 32 - 1

/-- `EXT_CSD_SEC_ER_EN` and `EXT_CSD_SEC_GB_CL_EN` -/
def Geometry.secErEn (m : Geometry) : Bool := m.secFeatureSupport &&& 1 ≠ 0
def Geometry.secGbClEn (m : Geometry) : Bool := m.secFeatureSupport &&& 16 ≠ 0

/-- The trim commands are taken for a range that is not made of whole groups, if the card has them. -/
def Geometry.trims (m : Geometry) (start blkcnt : Nat) : Bool :=
  (start % m.eraseGrpSize ≠ 0 || blkcnt % m.eraseGrpSize ≠ 0) && m.secGbClEn

/-- `mmc_berase`; none when it does not return: the division by a group size of 0 ends in `hang`. -/
def mmcBerase (m : Geometry) (fate : Nat → EraseFate) (start blkcnt : Nat) (c : Card) : Option (Nat × Card) :=
  if !m.secErEn then some (minusOne, c)
  else if m.eraseGrpSize = 0 then none
  else if m.trims start blkcnt then
    let e := mmcEraseT m fate start blkcnt secureTrim1 c
    if e.1 ≠ 0 then some (minusOne, e.2)
    else
      let w := eraseWait fate 2000 e.2
      if w.1 ≠ 0 then some (minusOne, w.2)
      else
        let e := mmcEraseT m fate start blkcnt secureTrim2 w.2
        if e.1 ≠ 0 then some (minusOne, e.2)
        else
          let w := eraseWait fate 2000 e.2
          if w.1 ≠ 0 then some (0, w.2) else some (blkcnt, w.2)
  else eraseLoop m fate start blkcnt blkcnt 0 c

/-! ## What is erased -/

/-- The block of the block device at an address: a sector of 512 bytes, or a byte -/
def Geometry.blockAt (m : Geometry) (address : Nat) : Nat :=
  if m.highCapacity then address * 512 / m.readBlLen else address / m.readBlLen

/-- The blocks of the erase groups that a range touches -/
def Touched (g start n b : Nat) : Prop := ∃ x, start ≤ x ∧ x < start + n ∧ x / g = b / g

/-- A trim command clears its range, an erase command every group of `g` blocks that it touches. -/
def Clear.Hits (m : Geometry) (g : Nat) (x : Clear) (b : Nat) : Prop :=
  let first := m.blockAt x.first
  let n := m.blockAt x.last + 1 - first
  (if x.arg = secureErase then Touched g first n b else first ≤ b ∧ b < first + n) ∧ ∀ f ∈ x.spoiled, f b = true

def Card.Cleared (m : Geometry) (g : Nat) (c : Card) (b : Nat) : Prop := ∃ x ∈ c.clears, x.Hits m g b

/-- `mmc_berase` comes back, and if it returns `blkcnt`, the blocks of the range and no others of the device are cleared. -/
def EraseExact (m : Geometry) (g : Nat) (fate : Nat → EraseFate) (start blkcnt : Nat) (c : Card) : Prop :=
  ∃ n c', mmcBerase m fate start blkcnt c = some (n, c') ∧
    (n = blkcnt → ∀ b < m.lba, c'.Cleared m g b ↔ start ≤ b ∧ b < start + blkcnt)

/-- The addresses that are sent are those of the blocks. -/
def Geometry.Addresses (m : Geometry) (past : Nat) : Prop :=
  if m.highCapacity then m.readBlLen = 512 else m.writeBlLen = m.readBlLen ∧ past * m.writeBlLen ≤ 2 ^ 32

instance (m : Geometry) (past : Nat) : Decidable (m.Addresses past) :=
  inferInstanceAs (Decidable (if m.highCapacity then m.readBlLen = 512 else m.writeBlLen = m.readBlLen ∧ past * m.writeBlLen ≤ 2 ^ 32))

/-! ## Touched groups -/

theorem touched_add {g start n k b : Nat} : Touched g start (n + k) b ↔ Touched g start n b ∨ Touched g (start + n) k b := by
  constructor
  · rintro ⟨x, hlo, hhi, hx⟩
    rcases Nat.lt_or_ge x (start + n) with hlt | hge
    · exact Or.inl ⟨x, hlo, hlt, hx⟩
    · exact Or.inr ⟨x, hge, by omega, hx⟩
  · rintro (⟨x, hlo, hhi, hx⟩ | ⟨x, hlo, hhi, hx⟩)
    · exact ⟨x, hlo, by omega, hx⟩
    · exact ⟨x, by omega, by omega, hx⟩

theorem not_touched_zero {g start b : Nat} : ¬ Touched g start 0 b := by
  rintro ⟨x, hlo, hhi, -⟩
  omega

theorem touched_self {g start n b : Nat} (hlo : start ≤ b) (hhi : b < start + n) : Touched g start n b := ⟨b, hlo, hhi, rfl⟩

/-- A range of whole groups touches no block outside it; its last group may reach past the end of the device. -/
theorem touched_exact_iff {g start n lba : Nat} (hg : 0 < g) (hn : 0 < n) (hle : start + n ≤ lba) :
    (∀ b < lba, Touched g start n b ↔ start ≤ b ∧ b < start + n) ↔ g ∣ start ∧ (g ∣ start + n ∨ start + n = lba) := by
  constructor
  · intro h
    constructor
    · -- the first block of the group that `start` is in
      have hfirst : g * (start / g) ≤ start := Nat.mul_div_le start g
      have hgroup : start / g = g * (start / g) / g := (Nat.mul_div_cancel_left _ hg).symm
      have hin := (h (g * (start / g)) (by omega)).mp ⟨start, Nat.le_refl _, by omega, hgroup⟩
      exact ⟨start / g, by omega⟩
    · by_contra hnot
      rw [not_or] at hnot
      have hgroup : (start + n - 1) / g = (start + n) / g := by
        have hsucc : (start + n - 1 + 1) / g = _ := Nat.succ_div
        rw [show start + n - 1 + 1 = start + n by omega, if_neg hnot.1, Nat.add_zero] at hsucc
        exact hsucc.symm
      have hin := (h (start + n) (by omega)).mp ⟨start + n - 1, by omega, by omega, hgroup⟩
      omega
  · rintro ⟨⟨i, rfl⟩, hend⟩ b hb
    refine ⟨?_, fun h => touched_self h.1 h.2⟩
    rintro ⟨x, hlo, hhi, hx⟩
    have hi : i ≤ b / g := by
      rw [← hx, Nat.le_div_iff_mul_le hg, Nat.mul_comm]
      exact hlo
    refine ⟨(Nat.mul_le_mul_left g hi).trans (Nat.mul_div_le b g), ?_⟩
    rcases hend with ⟨j, hj⟩ | hend
    · have hxj : x / g < j := by
        rw [Nat.div_lt_iff_lt_mul hg, Nat.mul_comm]
        omega
      rw [hx, Nat.div_lt_iff_lt_mul hg, Nat.mul_comm] at hxj
      omega
    · omega

section
variable {m : Geometry} {g start n blkcnt blk arg past b : Nat} {fate : Nat → EraseFate} {c : Card}

/-! ## One command -/

theorem blockAt_address (hpos : 0 < m.readBlLen) (haddr : m.Addresses past) (hb : b < past) : m.blockAt (m.address b) = b := by
  rw [Geometry.Addresses] at haddr
  rw [Geometry.blockAt, Geometry.address]
  split at haddr
  · rename_i hhc
    rw [if_pos hhc, if_pos hhc, haddr]
    exact Nat.mul_div_cancel _ (by decide)
  · rename_i hhc
    obtain ⟨hlen, hfits⟩ := haddr
    have hlt : b * m.readBlLen < 2 ^ 32 := by
      rw [hlen] at hfits
      exact (Nat.mul_lt_mul_of_pos_right hb hpos).trans_le hfits
    rw [if_neg hhc, if_neg hhc, hlen, ulong, Nat.mod_eq_of_lt hlt]
    exact Nat.mul_div_cancel _ hpos

theorem sendErase_start (sd : Bool) {cmdarg : Nat} (h : (sendErase fate (if sd then 32 else 35) cmdarg c).1 = 0) :
    (sendErase fate (if sd then 32 else 35) cmdarg c).2 = { c with first := cmdarg, sent := c.sent + 1 } := by
  have herr : (fate c.sent).err = 0 := h
  cases sd <;> simp [sendErase, herr]

theorem sendErase_end (sd : Bool) {cmdarg : Nat} (h : (sendErase fate (if sd then 33 else 36) cmdarg c).1 = 0) :
    (sendErase fate (if sd then 33 else 36) cmdarg c).2 = { c with last := cmdarg, sent := c.sent + 1 } := by
  have herr : (fate c.sent).err = 0 := h
  cases sd <;> simp [sendErase, herr]

/-- The three commands without an error -/
theorem mmcEraseT_clears (h : (mmcEraseT m fate start n arg c).1 = 0) : (mmcEraseT m fate start n arg c).2.clears =
    c.clears ++ [⟨arg, m.address start, m.address (ulong (start + n + (2 ^ 32 - 1))), none⟩] := by
  rw [mmcEraseT] at h ⊢
  dsimp only at h ⊢
  by_cases hs : (sendErase fate (if m.isSd then 32 else 35) (m.address start) c).1 = 0
  · rw [if_neg (not_not_intro hs), sendErase_start m.isSd hs] at h ⊢
    by_cases he : (sendErase fate (if m.isSd then 33 else 36) (m.address (ulong (start + n + (2 ^ 32 - 1))))
        { c with first := m.address start, sent := c.sent + 1 }).1 = 0
    · rw [if_neg (not_not_intro he), sendErase_end m.isSd he] at h ⊢
      have herr : (fate (c.sent + 1 + 1)).err = 0 := h
      simp only [sendErase, if_pos herr, if_true]
    · rw [if_pos he] at h
      exact absurd h he
  · rw [if_pos hs] at h
    exact absurd h hs

theorem last_eq (hpos : 0 < start + n) (hlt : start + n < 2 ^ 32) : ulong (start + n + (2 ^ 32 - 1)) = start + n - 1 := by
  rw [ulong, show start + n + (2 ^ 32 - 1) = start + n - 1 + 2 ^ 32 by omega, Nat.add_mod_right]
  exact Nat.mod_eq_of_lt (by omega)

/-- What the blocks of a command without an error are -/
theorem hits_iff (hrd : 0 < m.readBlLen) (haddr : m.Addresses past) (hpos : 0 < start + n) (hlt : start + n < 2 ^ 32)
    (hle : start + n ≤ past) (hstart : start < past) :
    Clear.Hits m g ⟨arg, m.address start, m.address (ulong (start + n + (2 ^ 32 - 1))), none⟩ b ↔
      if arg = secureErase then Touched g start n b else start ≤ b ∧ b < start + n := by
  rw [Clear.Hits]
  dsimp only
  rw [last_eq hpos hlt, blockAt_address hrd haddr hstart, blockAt_address hrd haddr (show start + n - 1 < past by omega),
    show start + n - 1 + 1 - start = n by omega]
  exact and_iff_left fun f hf => absurd hf (Option.not_mem_none f)

theorem cleared_append {c' : Card} {x : Clear} (h : c'.clears = c.clears ++ [x]) : c'.Cleared m g b ↔ c.Cleared m g b ∨ x.Hits m g b := by
  rw [Card.Cleared, Card.Cleared, h]
  simp only [List.mem_append, List.mem_singleton, or_and_right, exists_or, exists_eq_left]

theorem eraseWait_clears {timeout : Nat} : (eraseWait fate timeout c).2.clears = c.clears := rfl

/-! ## The loop -/

/-- The chunks together touch what the range touches. -/
theorem eraseLoop_cleared (hsize : 0 < m.eraseGrpSize) (hrd : 0 < m.readBlLen) (haddr : m.Addresses past)
    (hle : start + blkcnt ≤ past) (hlt : start + blkcnt < 2 ^ 32) {fuel : Nat} (hfuel : blkcnt - blk ≤ fuel) (hblk : blk ≤ blkcnt) :
    ∃ n c', eraseLoop m fate start blkcnt fuel blk c = some (n, c') ∧
      (n = blkcnt → ∀ b, c'.Cleared m g b ↔ c.Cleared m g b ∨ Touched g (start + blk) (blkcnt - blk) b) := by
  induction fuel generalizing blk c with
  | zero =>
      obtain rfl : blk = blkcnt := by omega
      rw [eraseLoop, if_neg (Nat.lt_irrefl _)]
      exact ⟨_, _, rfl, fun _ b => by rw [Nat.sub_self, or_iff_left not_touched_zero]⟩
  | succ fuel ih =>
      rw [eraseLoop]
      split
      · rename_i hmore
        dsimp only
        have hchunk : (if blkcnt - blk > m.eraseGrpSize then m.eraseGrpSize else blkcnt - blk) ≤ blkcnt - blk := by
          split <;> omega
        have hchunk0 : 0 < if blkcnt - blk > m.eraseGrpSize then m.eraseGrpSize else blkcnt - blk := by
          split <;> omega
        generalize (if blkcnt - blk > m.eraseGrpSize then m.eraseGrpSize else blkcnt - blk) = n at hchunk hchunk0
        split
        · exact ⟨_, _, rfl, fun h => absurd h (Nat.ne_of_lt hmore)⟩
        rename_i herase
        rw [ne_eq, not_not] at herase
        split
        · exact ⟨_, _, rfl, fun h => absurd h (by omega)⟩
        obtain ⟨k, c', hrest, hcleared⟩ := @ih (blk + n)
          (eraseWait fate 2000 (mmcEraseT m fate (ulong (start + blk)) n secureErase c).2).2 (by omega) (by omega)
        refine ⟨k, c', hrest, fun hk b => ?_⟩
        have hstart : ulong (start + blk) = start + blk := Nat.mod_eq_of_lt (by omega)
        rw [hcleared hk b, cleared_append (eraseWait_clears.trans (mmcEraseT_clears herase)), hstart,
          hits_iff hrd haddr (by omega) (by omega) (by omega) (by omega), if_pos rfl, or_assoc,
          show blkcnt - blk = n + (blkcnt - (blk + n)) by omega, touched_add, Nat.add_assoc start blk n]
      · obtain rfl : blk = blkcnt := by omega
        exact ⟨_, _, rfl, fun _ b => by rw [Nat.sub_self, or_iff_left not_touched_zero]⟩

/-! ## `mmc_berase` -/

theorem mmcBerase_cleared (hsize : 0 < m.eraseGrpSize) (hrd : 0 < m.readBlLen) (haddr : m.Addresses m.lba) (hlba : m.lba < 2 ^ 32)
    (hstart : start < m.lba) (hle : start + blkcnt ≤ m.lba) (hmax : blkcnt < minusOne) :
    ∃ n c', mmcBerase m fate start blkcnt c = some (n, c') ∧ (n = blkcnt → ∀ b, c'.Cleared m g b ↔ c.Cleared m g b ∨
      if m.trims start blkcnt then start ≤ b ∧ b < start + blkcnt else Touched g start blkcnt b) := by
  have hminus : minusOne = blkcnt → ∀ p : Prop, p := fun h => absurd h (Nat.ne_of_gt hmax)
  rw [mmcBerase]
  split
  · exact ⟨_, _, rfl, fun h => hminus h _⟩
  rw [if_neg (Nat.ne_of_gt hsize)]
  split
  · rename_i htrims
    have hpos : 0 < start + blkcnt := by
      rw [Nat.pos_iff_ne_zero]
      intro hzero
      obtain ⟨rfl, rfl⟩ := Nat.add_eq_zero_iff.mp hzero
      simp [Geometry.trims] at htrims
    have hlt : start + blkcnt < 2 ^ 32 := by omega
    have hhits : ∀ {arg b}, arg ≠ secureErase → (Clear.Hits m g ⟨arg, m.address start, m.address (ulong (start + blkcnt + (2 ^ 32 - 1))), none⟩ b ↔
        start ≤ b ∧ b < start + blkcnt) := fun harg => by
      rw [hits_iff hrd haddr hpos hlt hle hstart, if_neg harg]
    dsimp only
    split
    · exact ⟨_, _, rfl, fun h => hminus h _⟩
    rename_i htrim1
    rw [ne_eq, not_not] at htrim1
    split
    · exact ⟨_, _, rfl, fun h => hminus h _⟩
    split
    · exact ⟨_, _, rfl, fun h => hminus h _⟩
    rename_i htrim2
    rw [ne_eq, not_not] at htrim2
    have hcleared : ∀ b, (mmcEraseT m fate start blkcnt secureTrim2 (eraseWait fate 2000
        (mmcEraseT m fate start blkcnt secureTrim1 c).2).2).2.Cleared m g b ↔ c.Cleared m g b ∨ start ≤ b ∧ b < start + blkcnt := by
      intro b
      rw [cleared_append (mmcEraseT_clears htrim2), hhits (by decide),
        cleared_append (eraseWait_clears.trans (mmcEraseT_clears htrim1)), hhits (by decide), or_assoc, or_self]
    split
    · exact ⟨_, _, rfl, fun _ => hcleared⟩
    · exact ⟨_, _, rfl, fun _ => hcleared⟩
  · have h := @eraseLoop_cleared m g start blkcnt 0 m.lba fate c hsize hrd haddr hle (by omega) blkcnt (Nat.le_refl _) (Nat.zero_le _)
    exact h

theorem not_cleared_of_nil (hc : c.clears = []) : ¬ c.Cleared m g b := by
  rintro ⟨x, hx, -⟩
  rw [hc] at hx
  exact List.not_mem_nil hx

/-- A range that passes the check of the code is made of whole groups, if the groups of the card divide those of the code. -/
theorem dvd_of_aligned (hdvd : g ∣ m.eraseGrpSize) (htrims : m.trims start blkcnt = false)
    (h : m.secGbClEn = true ∨ m.eraseGrpSize ∣ start ∧ m.eraseGrpSize ∣ blkcnt) : g ∣ start ∧ g ∣ start + blkcnt := by
  have haligned : m.eraseGrpSize ∣ start ∧ m.eraseGrpSize ∣ blkcnt := by
    rcases h with h | h
    · rw [Geometry.trims, h, Bool.and_true, Bool.or_eq_false_iff, decide_eq_false_iff_not, decide_eq_false_iff_not, not_not, not_not] at htrims
      exact ⟨Nat.dvd_of_mod_eq_zero htrims.1, Nat.dvd_of_mod_eq_zero htrims.2⟩
    · exact h
  exact ⟨hdvd.trans haligned.1, (Nat.dvd_add_right (hdvd.trans haligned.1)).mpr (hdvd.trans haligned.2)⟩

end

/-! ## For every geometry -/

theorem startup_readBlLen (r : Registers) : 0 < (mmcStartup r).readBlLen := by
  have h : 0 < r.readBl := by
    rw [Registers.readBl, Nat.one_shiftLeft]
    exact Nat.two_pow_pos _
  show 0 < min r.readBl 512
  omega

theorem startup_lba (r : Registers) : (mmcStartup r).lba < 2 ^ 32 := Nat.mod_lt _ (by decide)

/-- With `g` the size of the card's groups: with trim commands the range is cleared, else all groups that it touches. Where the
code prints no caution the two are the same. -/
theorem erase_groups (r : Registers) {g start blkcnt : Nat} (fate : Nat → EraseFate) (c : Card) (hg : 0 < g)
    (hsize : 0 < (mmcStartup r).eraseGrpSize) (haddr : (mmcStartup r).Addresses (mmcStartup r).lba)
    (hstart : start < (mmcStartup r).lba) (hle : start + blkcnt ≤ (mmcStartup r).lba) (hmax : blkcnt < minusOne)
    (hc : c.clears = []) :
    (∃ n c', mmcBerase (mmcStartup r) fate start blkcnt c = some (n, c') ∧ (n = blkcnt →
      (∀ b, c'.Cleared (mmcStartup r) g b ↔
        if (mmcStartup r).trims start blkcnt then start ≤ b ∧ b < start + blkcnt else Touched g start blkcnt b) ∧
      ((∀ b < (mmcStartup r).lba, c'.Cleared (mmcStartup r) g b ↔ start ≤ b ∧ b < start + blkcnt) ↔
        (mmcStartup r).trims start blkcnt = true ∨ blkcnt = 0 ∨
          g ∣ start ∧ (g ∣ start + blkcnt ∨ start + blkcnt = (mmcStartup r).lba)))) ∧
    (g ∣ (mmcStartup r).eraseGrpSize → (mmcStartup r).secGbClEn = true ∨
        (mmcStartup r).eraseGrpSize ∣ start ∧ (mmcStartup r).eraseGrpSize ∣ blkcnt →
      EraseExact (mmcStartup r) g fate start blkcnt c) := by
  have hlba := startup_lba r
  have hrd := startup_readBlLen r
  generalize mmcStartup r = m at *
  obtain ⟨n, c', hrun, hcleared⟩ := @mmcBerase_cleared m g start blkcnt fate c hsize hrd haddr hlba hstart hle hmax
  have hclears : n = blkcnt → ∀ b, c'.Cleared m g b ↔
      if m.trims start blkcnt then start ≤ b ∧ b < start + blkcnt else Touched g start blkcnt b := fun hn b => by
    rw [hcleared hn b, or_iff_right (not_cleared_of_nil hc)]
  have hexact : n = blkcnt → ((∀ b < m.lba, c'.Cleared m g b ↔ start ≤ b ∧ b < start + blkcnt) ↔
      m.trims start blkcnt = true ∨ blkcnt = 0 ∨ g ∣ start ∧ (g ∣ start + blkcnt ∨ start + blkcnt = m.lba)) := by
    intro hn
    simp only [hclears hn]
    cases htrims : m.trims start blkcnt with
    | true => simp
    | false =>
        rcases Nat.eq_zero_or_pos blkcnt with rfl | hpos
        · simp only [Bool.false_eq_true, if_false, true_or, or_true, iff_true]
          exact fun b _ => iff_of_false not_touched_zero (by omega)
        · simp only [Bool.false_eq_true, if_false, false_or, Nat.ne_of_gt hpos]
          exact touched_exact_iff hg hpos hle
  refine ⟨⟨n, c', hrun, fun hn => ⟨hclears hn, hexact hn⟩⟩, fun hdvd hcheck => ⟨n, c', hrun, fun hn => (hexact hn).mpr ?_⟩⟩
  cases htrims : m.trims start blkcnt with
  | true => exact Or.inl rfl
  | false =>
      obtain ⟨hfirst, hlast⟩ := dvd_of_aligned hdvd htrims hcheck
      exact Or.inr (Or.inr ⟨hfirst, Or.inl hlast⟩)

/-! ## Cards -/

/-- No command fails, and the card is ready at once. -/
def smooth (_ : Nat) : EraseFate := ⟨0, 1#32 <<< 8, fun _ => false⟩

def idle : Card := ⟨0, 0, [], 0⟩

/-- A high-capacity card of 262144 blocks, with ERASE_GROUP_DEF, HC_ERASE_GRP_SIZE and SEC_FEATURE_SUPPORT -/
def emmc (groupDef grp sec : UInt8) : Registers where
  version := version4
  highCapacity := true
  csd := fun i => if i = 1 then 0x90000#32 else if i = 2 then 0xff0000#32 else 0x2400000#32
  extErr := false
  ext := fun i => if i = 175 then groupDef else if i = 224 then grp else if i = 231 then sec else 0
  sec := 0

theorem erase_groups_sample : (emmc 1 1 17).extErr = false ∧
    EraseExact (mmcStartup (emmc 1 1 17)) 1024 smooth 100 100 idle :=
  ⟨rfl, (erase_groups (emmc 1 1 17) smooth idle (by decide) (by decide) (by decide) (by decide) (by decide) (by decide) rfl).2
    (by decide) (Or.inl (by decide))⟩

/-- A byte-addressed card of 524288 blocks with write blocks of 256 bytes and groups of one block -/
def small : Registers where
  version := version4
  highCapacity := false
  csd := fun i => if i = 1 then 0x900ff#32 else if i = 2 then 0xc0038000#32 else 0x2000000#32
  extErr := true
  ext := fun i => if i = 231 then 1 else 0
  sec := 0

/-- A card of 2^32 - 1 sectors that cannot erase -/
def large : Registers where
  version := version4
  highCapacity := true
  csd := fun _ => 0x90000#32
  extErr := false
  ext := fun i => if i = 192 then 2 else if 212 ≤ i ∧ i ≤ 215 then 255 else 0
  sec := 0

/-- A byte-addressed card of 2^24 blocks -/
def wide : Registers where
  version := version4
  highCapacity := false
  csd := fun i => if i = 1 then 0x90000#32 else 0x2400000#32
  extErr := false
  ext := fun i => if i = 192 then 2 else if i = 215 ∨ i = 231 then 1 else 0
  sec := 0

theorem run_emmc : ∃ c', mmcBerase (mmcStartup (emmc 1 1 1)) smooth 100 100 idle = some (100, c') ∧
    c'.clears = [⟨secureErase, 100, 199, none⟩] := ⟨_, rfl, rfl⟩

theorem run_large : ∃ c', mmcBerase (mmcStartup large) smooth 0 minusOne idle = some (minusOne, c') ∧ c'.clears = [] := ⟨_, rfl, rfl⟩

theorem run_small : ∃ c', mmcBerase (mmcStartup small) smooth 2 1 idle = some (1, c') ∧
    c'.clears = [⟨secureErase, 512, 512, none⟩] := ⟨_, rfl, rfl⟩

theorem run_wide : ∃ c', mmcBerase (mmcStartup wide) smooth (2 ^ 23) 1 idle = some (1, c') ∧
    c'.clears = [⟨secureErase, 0, 0, none⟩] := ⟨_, rfl, rfl⟩

theorem EraseExact.hits {m : Geometry} {g start blkcnt b : Nat} {fate : Nat → EraseFate} {c : Card} {l : List Clear}
    (h : EraseExact m g fate start blkcnt c) (hrun : ∃ c', mmcBerase m fate start blkcnt c = some (blkcnt, c') ∧ c'.clears = l)
    (hb : b < m.lba) : (∃ x ∈ l, x.Hits m g b) ↔ start ≤ b ∧ b < start + blkcnt := by
  obtain ⟨n, c', hn, hexact⟩ := h
  obtain ⟨c'', hc, rfl⟩ := hrun
  obtain ⟨rfl, rfl⟩ := Prod.mk.inj (Option.some.inj (hn.symm.trans hc))
  exact hexact rfl b hb

/-- Blocks 100 to 199 of a card without trim commands: block 0 goes too. A group size of 0: the code hangs. A card that cannot
erase, and `blkcnt` is -1. Write blocks of another size than read blocks, and byte addresses that do not fit: another block goes. -/
theorem erase_not_exact : ¬ EraseExact (mmcStartup (emmc 1 1 1)) 1024 smooth 100 100 idle ∧
    ¬ EraseExact (mmcStartup (emmc 1 0 1)) 1 smooth 0 1024 idle ∧
    ¬ EraseExact (mmcStartup large) 1 smooth 0 minusOne idle ∧
    ¬ EraseExact (mmcStartup small) 1 smooth 2 1 idle ∧
    ¬ EraseExact (mmcStartup wide) 1 smooth (2 ^ 23) 1 idle := by
  refine ⟨fun h => ?_, ?_, fun h => ?_, fun h => ?_, fun h => ?_⟩
  · have hin := (h.hits run_emmc (show 0 < _ by decide)).mp
      ⟨_, List.mem_singleton_self _, ⟨100, by decide, by decide, by decide⟩, fun f hf => absurd hf (Option.not_mem_none f)⟩
    omega
  · rintro ⟨n, c', hrun, -⟩
    have hnone : mmcBerase (mmcStartup (emmc 1 0 1)) smooth 0 1024 idle = none := rfl
    rw [hnone] at hrun
    exact absurd hrun.symm (Option.some_ne_none _)
  · obtain ⟨x, hx, -⟩ := (h.hits run_large (show 0 < _ by decide)).mpr (by decide)
    exact List.not_mem_nil hx
  · have hin := (h.hits run_small (show 1 < _ by decide)).mp
      ⟨_, List.mem_singleton_self _, ⟨1, by decide, by decide, by decide⟩, fun f hf => absurd hf (Option.not_mem_none f)⟩
    omega
  · have hin := (h.hits run_wide (show 0 < _ by decide)).mp
      ⟨_, List.mem_singleton_self _, ⟨0, by decide, by decide, by decide⟩, fun f hf => absurd hf (Option.not_mem_none f)⟩
    omega

end Uboot.Mmc
