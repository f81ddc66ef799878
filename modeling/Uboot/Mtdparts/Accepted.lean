import Uboot.Mtdparts.Current
import Uboot.Mtdparts.Format

/-!
# Accepted partitions

What `device_parse` accepts lies on the device, in whole erase blocks. A partition without `@` begins where the one before
it in the text ends, and one with `-` goes up to the end of the device.
-/

namespace Uboot.Mtdparts

open Lib Vsprintf

/-- A character of a size or an offset, and not one that ends them. -/
def plain (c : UInt8) : Bool := c ≠ 40 ∧ c ≠ 44 ∧ c ≠ 59

/-- The partition at this text is given with its offset. -/
def hasAt (p : List UInt8) : Prop := 64 ∈ p.takeWhile plain

instance (p : List UInt8) : Decidable (hasAt p) := by unfold hasAt; infer_instance

/-- The texts at which the loop of `device_parse` calls `part_parse`. -/
def partTexts : Nat → List UInt8 → List (List UInt8)
  | 0, _ => []
  | fuel + 1, p =>
      p :: match partParse p with
        | some (_, 59 :: _) => []
        | some (_, c :: p) => partTexts fuel (c :: p)
        | _ => []

/-- The texts of the partitions of a device, behind its name and the colon. -/
def devicePartTexts (mtdDev : List UInt8) : List (List UInt8) :=
  let p := (mtdDev.dropWhile (· ≠ 58)).drop 1
  partTexts (p.length + 1) p

/-- On the device, with whole blocks. -/
structure Accepted (id : MtdIds) (erasesize : Nat) (part : PartInfo) : Prop where
  inside : part.offset + part.size ≤ id.size
  nonempty : 0 < part.size
  offset_dvd : erasesize ∣ part.offset
  size_dvd : erasesize ∣ part.size

/-- What the text says about the place; the partition before ends at `offset`. -/
structure Placed (id : MtdIds) (offset : Nat) (p : List UInt8) (part : PartInfo) : Prop where
  behind : ¬ hasAt p → part.offset = offset
  remaining : p.head? = some 45 → part.offset + part.size = id.size

/-- Each partition is placed behind the one before it. -/
def Chained (id : MtdIds) : Nat → List (List UInt8) → List PartInfo → Prop
  | _, [], [] => True
  | offset, p :: texts, part :: parts => Placed id offset p part ∧ Chained id (part.offset + part.size) texts parts
  | _, _, _ => False

section
variable {board : Board} {id : MtdIds} {mtd : MtdInfo} {p q r rest : List UInt8} {raw part : PartInfo}
  {parts : List PartInfo} {devices : List MtdDevice} {dev : MtdDevice} {fuel offset size : Nat}

/-! ## What a number takes from the text -/

/-- The characters before `q` are plain. -/
def Reads (p q : List UInt8) : Prop := ∃ ds, p = ds ++ q ∧ ∀ c ∈ ds, plain c = true

theorem Reads.refl (p : List UInt8) : Reads p p := ⟨[], rfl, by simp⟩

theorem Reads.cons {c : UInt8} (hc : plain c = true) (h : Reads p q) : Reads (c :: p) q := by
  obtain ⟨ds, rfl, hds⟩ := h
  exact ⟨c :: ds, rfl, List.forall_mem_cons.mpr ⟨hc, hds⟩⟩

theorem Reads.trans (hpq : Reads p q) (hqr : Reads q r) : Reads p r := by
  obtain ⟨ds, rfl, hds⟩ := hpq
  obtain ⟨es, rfl, hes⟩ := hqr
  refine ⟨ds ++ es, (List.append_assoc _ _ _).symm, ?_⟩
  intro c hc
  exact (List.mem_append.mp hc).elim (hds c) (hes c)

theorem Reads.hasAt (h : Reads p (64 :: q)) : hasAt p := by
  obtain ⟨ds, rfl, hds⟩ := h
  rw [Mtdparts.hasAt, List.takeWhile_append_of_pos hds]
  simp [plain]

theorem plain_of_isxdigit {c : UInt8} (h : isxdigit c = true) : plain c = true := by
  simp only [plain, decide_eq_true_eq]
  refine ⟨?_, ?_, ?_⟩ <;> rintro rfl <;> exact absurd h (by decide)

theorem strtoulLoop_reads (base : Nat) (p : List UInt8) (r : Nat) : Reads p (strtoulLoop base p r).2 := by
  induction p generalizing r with
  | nil => exact Reads.refl _
  | cons c p ih =>
      rw [strtoulLoop]
      split
      next hc => exact (ih _).cons (plain_of_isxdigit hc.1)
      next => exact Reads.refl _

theorem simpleStrtoul_reads (p : List UInt8) (base : Nat) : Reads p (simpleStrtoul p base).2 := by
  unfold simpleStrtoul
  split
  next p =>
    have hzero : plain 48 = true := by decide
    split
    next hx =>
      cases p with
      | nil => exact absurd hx.1 (by decide)
      | cons x p =>
          have hplain : plain x = true := by
            have : x = 120 := hx.1
            rw [this]
            decide
          exact ((strtoulLoop_reads _ _ _).cons hplain).cons hzero
    next => exact (strtoulLoop_reads _ _ _).cons hzero
  next => exact strtoulLoop_reads _ _ _

theorem memsizeParse_reads (p : List UInt8) : Reads p (memsizeParse p).2 := by
  have hnum := simpleStrtoul_reads p 0
  have hunit : ∀ c q, Reads p (c :: q) → plain c = true → Reads p q := by
    intro c q hread hc
    exact hread.trans ((Reads.refl q).cons hc)
  unfold memsizeParse
  split <;> rename_i heq <;> rw [heq] at hnum
  any_goals exact hunit _ _ hnum (by decide)
  exact hnum

theorem parseSize_reads (h : parseSize p = some (size, rest)) : Reads p rest := by
  unfold parseSize at h
  split at h
  next => cases h; exact (Reads.refl _).cons (by decide)
  next =>
    obtain ⟨-, h⟩ := Option.ite_none_left_eq_some.mp h
    have hrest : (memsizeParse _).2 = rest := congrArg Prod.snd (Option.some.inj h)
    rw [← hrest]
    exact memsizeParse_reads _

/-! ## One partition -/

theorem partParse_offset (h : partParse p = some (raw, rest)) (hat : ¬ hasAt p) : raw.offset = offsetNotSpecified := by
  obtain ⟨⟨size, p₁⟩, hsize, h⟩ := Option.bind_eq_some_iff.mp h
  obtain ⟨⟨name, p₂⟩, -, h⟩ := Option.bind_eq_some_iff.mp h
  obtain ⟨p₃, -, h⟩ := Option.map_eq_some_iff.mp h
  cases h
  have hreads := parseSize_reads hsize
  change (parseOffset p₁).1 = offsetNotSpecified
  unfold parseOffset
  split
  next => exact absurd hreads.hasAt hat
  next => rfl

theorem partParse_remaining (h : partParse p = some (raw, rest)) (hp : p.head? = some 45) : raw.size = sizeRemaining := by
  obtain ⟨⟨size, p₁⟩, hsize, h⟩ := Option.bind_eq_some_iff.mp h
  obtain ⟨⟨name, p₂⟩, -, h⟩ := Option.bind_eq_some_iff.mp h
  obtain ⟨p₃, -, h⟩ := Option.map_eq_some_iff.mp h
  cases h
  cases p with
  | nil => cases hp
  | cons c p =>
      cases Option.some.inj hp
      exact (congrArg Prod.fst (Option.some.inj hsize)).symm

theorem fits_accepted (hfits : partFits board id part.offset part.size = true) (hlt : part.size < 2 ^ 32)
    (hmtd : board.mtdTable id.type id.num = some mtd) (huniform : mtd.eraseregions = []) :
    Accepted id mtd.erasesize part := by
  obtain ⟨hpos, hinside⟩ := fits_bounds hfits hlt
  have hblocks : partValidateEraseblock board id part.offset part.size = true := by
    simp only [partFits, Bool.and_eq_true] at hfits
    exact hfits.2
  simp only [partValidateEraseblock, hmtd, huniform, if_true, Bool.and_eq_true, beq_iff_eq] at hblocks
  exact ⟨hinside, hpos, Nat.dvd_of_mod_eq_zero hblocks.1, Nat.dvd_of_mod_eq_zero hblocks.2⟩

theorem partValidate_remaining (h : partValidate board id raw = some part) (hsize : raw.size = sizeRemaining) :
    part.offset + part.size = id.size := by
  have hid := id.size_lt
  obtain ⟨hoffset, hfits, -⟩ := partValidate_some h
  simp only [partFits, Bool.and_eq_true, decide_eq_true_eq] at hfits
  rw [partValidate, Option.ite_none_right_eq_some, Option.some.injEq] at h
  obtain ⟨-, rfl⟩ := h
  simp only [hsize, if_true] at hfits ⊢
  omega

theorem part_placed (hparse : partParse p = some (raw, rest))
    (hvalid : partValidate board id
      { raw with offset := if raw.offset = offsetNotSpecified then offset else raw.offset } = some part) :
    Placed id offset p part where
  behind hat := by
    have hoffset := (partValidate_some hvalid).1
    rw [hoffset]
    exact if_pos (partParse_offset hparse hat)
  remaining hp := by
    have hsize := partParse_remaining hparse hp
    exact partValidate_remaining hvalid hsize

/-! ## The loop -/

theorem partsParse_chained (h : partsParse board id fuel p offset = some (parts, rest)) :
    Chained id offset (partTexts fuel p) parts := by
  induction fuel generalizing p offset parts with
  | zero => cases h
  | succ fuel ih =>
      obtain ⟨⟨raw, p'⟩, hparse, h⟩ := Option.bind_eq_some_iff.mp h
      obtain ⟨part, hvalid, h⟩ := Option.bind_eq_some_iff.mp h
      have hplaced := part_placed hparse hvalid
      rw [partTexts, hparse]
      obtain ⟨hoffset, hfits, hlt, -⟩ := partValidate_some hvalid
      have hsize := hlt (partParse_named hparse).1
      -- the sum that the loop goes on with does not wrap
      have hend := (fits_bounds hfits hsize).2.trans_lt id.size_lt
      dsimp only at h ⊢
      split at h
      next => cases h; exact ⟨hplaced, trivial⟩
      next => cases h; exact ⟨hplaced, trivial⟩
      next hnil hsemi =>
        obtain ⟨⟨parts', p''⟩, hrest, h⟩ := Option.map_eq_some_iff.mp h
        cases h
        have hstart : (if raw.offset = offsetNotSpecified then offset else raw.offset) = part.offset := hoffset.symm
        rw [hstart, Nat.mod_eq_of_lt hend] at hrest
        refine ⟨hplaced, ?_⟩
        split
        next heq => cases heq; exact absurd rfl (hsemi _)
        next heq => cases heq; exact ih hrest
        next hno =>
          cases p' with
          | nil => exact absurd rfl hnil
          | cons c p' => exact (hno _ _ _ rfl).elim

/-- The partitions that `device_parse` accepts lie on the device, and where their text puts them. -/
theorem device_parse_accepted (h : deviceParse board devices p = some (dev, rest))
    (hmtd : board.mtdTable dev.id.type dev.id.num = some mtd) (huniform : mtd.eraseregions = []) :
    (∀ part ∈ dev.parts, Accepted dev.id mtd.erasesize part) ∧
      ∃ parts, dev.parts.Perm parts ∧
        Chained dev.id (endOffset (deviceFind devices dev.key)) (devicePartTexts p) parts := by
  obtain ⟨hparsed, -⟩ := deviceParse_parsed h
  refine ⟨?_, ?_⟩
  · intro part hpart
    exact fits_accepted (hparsed.parts part hpart).fits (hparsed.parts part hpart).size_lt hmtd huniform
  · unfold deviceParse at h
    split at h
    next => cases h
    next c q hq =>
      obtain ⟨id, -, h⟩ := Option.bind_eq_some_iff.mp h
      obtain ⟨⟨tmp, p'⟩, htmp, h⟩ := Option.bind_eq_some_iff.mp h
      obtain ⟨parts, hparts, h⟩ := Option.map_eq_some_iff.mp h
      cases h
      obtain ⟨-, -, hperm⟩ := sortAddAll_some List.Pairwise.nil List.Pairwise.nil hparts
      rw [List.append_nil] at hperm
      refine ⟨tmp, hperm, ?_⟩
      rw [devicePartTexts, hq, List.drop_one, List.tail_cons]
      exact partsParse_chained htmp

end

/-- `n:128k@256k(a@b),-` -/
def sampleDevice : MtdDevice where
  id := ⟨.nand, 0, 2 ^ 20, [110], mebibyte_lt⟩
  parts := [⟨ascii "a@b", false, 0x20000, 0x40000, false, 0⟩,
    ⟨ascii "0xffffffff@0xffffffff", true, 0xA0000, 0x60000, false, 0⟩]

theorem device_parse_accepted_sample :
    deviceParse sampleBoard [] (ascii "n:128k@256k(a@b),-") = some (sampleDevice, []) ∧
      ∀ part ∈ sampleDevice.parts, Accepted sampleDevice.id 0x20000 part := by
  have hparse : deviceParse sampleBoard [] (ascii "n:128k@256k(a@b),-") = some (sampleDevice, []) := by
    set_option maxRecDepth 4000 in decide
  exact ⟨hparse, (device_parse_accepted hparse rfl rfl).1⟩

end Uboot.Mtdparts
