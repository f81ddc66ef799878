import Mathlib.Data.UInt
import Uboot.CmdNand.Basic

/-!
# What a nand command acts on

The device and the range that the arguments name, with numbers of any size, and when the driver is called for just these.
-/

namespace Uboot.CmdNand

open Lib Vsprintf Mtdparts

/-! ## What is requested -/

/-- A text that is a number -/
def number (p : List UInt8) : Option Nat := if p ≠ [] ∧ (readNumber p 16).2 = [] then some (readNumber p 16).1 else none

/-- A place in a part of a device, which is from `lo` up to `hi`. -/
structure Area where
  dev : Int
  lo : Nat
  hi : Nat
  start : Nat

/-- How much is erased, read or written. -/
inductive Amount where
  | bytes (n : Int)
  | pages (n : Int)
  deriving DecidableEq

def Amount.size (writesize : UInt32) : Amount → Int
  | .bytes n => n
  | .pages n => n * writesize.toNat

structure Request extends Area where
  amount : Amount

/-- `erase` or `scrub` -/
def erases (cmd : List UInt8) : Bool := startsWith "erase" cmd || startsWith "scrub" cmd

namespace System

variable (sys : System) (curr : Int)

/-- A number is an offset in the current device, a name that of a partition. -/
def area (arg : List UInt8) : Option Area :=
  match number arg with
  | some off => some ⟨curr, 0, (sys.info curr).size.toNat, off⟩
  | none => (sys.mtdpartsInit.bind (findDevAndPart · arg)).map fun (dev, _, part) =>
      ⟨dev.id.num, part.offset, part.offset + part.size, part.offset⟩

/-- A place and a size, which is that of the rest where none is given; without a place it is the whole device. -/
def range : List (List UInt8) → Option Request
  | [] => some ⟨⟨curr, 0, (sys.info curr).size.toNat, 0⟩, .bytes (sys.info curr).size.toNat⟩
  | [place] => (sys.area curr place).map fun a => ⟨a, .bytes (a.hi - a.start)⟩
  | place :: size :: _ => (sys.area curr place).bind fun a => (number size).map fun n : Nat => ⟨a, .bytes n⟩

/-- A place and a number of pages, which is 1 where none is given. -/
def pages : List (List UInt8) → Option Request
  | [] => none
  | [place] => (sys.area curr place).map fun a => ⟨a, .pages 1⟩
  | place :: count :: _ => (sys.area curr place).bind fun a => (number count).map fun n : Nat => ⟨a, .pages n⟩

/-- What the arguments behind the command ask for. -/
def requested (cmd : List UInt8) (args : List (List UInt8)) : Option Request :=
  if erases cmd then
    sys.range curr (if args.head? = some (ascii "clean") ∨ args.head? = some (ascii "-y") then args.drop 1 else args)
  else if suffix cmd = some (ascii ".raw") then sys.pages curr (args.drop 1)
  else sys.range curr (args.drop 1)

end System

def Op.dev : Op → Int
  | .erase dev _ => dev
  | .skipBad _ dev _ _ _ _ => dev
  | .oob _ dev _ _ _ => dev
  | .raw _ dev _ _ _ => dev

def Op.off : Op → Int
  | .erase _ opts => opts.offset
  | .skipBad _ _ off _ _ _ => off
  | .oob _ _ off _ _ => off
  | .raw _ _ _ off _ => off

def Op.amount : Op → Amount
  | .erase _ opts => .bytes opts.length
  | .skipBad _ _ _ length _ _ => .bytes length
  | .oob _ _ _ ooblen _ => .bytes ooblen
  | .raw _ _ _ _ count => .pages count

/-- The range is within the partition or the device. -/
def System.Inside (sys : System) (req : Request) : Prop :=
  req.lo ≤ req.start ∧ req.start + req.amount.size (sys.info req.dev).writesize ≤ req.hi

/-- The call is for the device and the range that were named. -/
def System.OnTarget (sys : System) (req : Request) (op : Op) : Prop :=
  op.dev = req.dev ∧ op.off = req.start ∧ op.amount = req.amount ∧ sys.Inside req

/-- The offset is one of 63 bits. So is the size for an erase; for a read or a write the partition is one of the current device and
the size has 32 bits, with pages their number has, and their size has unless there is as much behind the offset. -/
def System.Sound (sys : System) (curr : Int) (cmd : List UInt8) (req : Request) : Prop :=
  req.start < 2 ^ 63 ∧
    match req.amount with
    | .bytes n => if erases cmd then n < 2 ^ 63 else req.dev = curr ∧ n < 2 ^ 32
    | .pages n => req.dev = curr ∧ n < 2 ^ 32 ∧
        (n * (sys.info curr).writesize.toNat < 2 ^ 32 ∨ req.start + n * (sys.info curr).writesize.toNat ≤ req.hi)

/-! ## Conversions -/

section
variable {n : Int}

theorem toLoff_eq_iff (h : 0 ≤ n) : toLoff n = n ↔ n < 2 ^ 63 := by
  simp only [toLoff, Int.bmod]
  split <;> omega

theorem toLoff_le (h : 0 ≤ n) : toLoff n ≤ n := by
  simp only [toLoff, Int.bmod]
  split <;> omega

theorem toU64_toLoff (n : Int) : toU64 (toLoff n) = (n % 2 ^ 64).toNat := by
  simp only [toU64, toLoff, Int.bmod]
  split <;> omega

theorem toSize_toLoff (n : Int) : toSize (toLoff n) = (n % 2 ^ 32).toNat := by
  simp only [toSize, toLoff, Int.bmod]
  split <;> omega

theorem toLoff_sub (m n : Int) : toLoff (m - toLoff n) = toLoff (m - n) := Int.sub_bmod_bmod ..

theorem str2off_eq (p : List UInt8) : str2off p = (number p).map fun n : Nat => toLoff n := by
  rw [str2off, simpleStrtoull_eq]
  dsimp only
  rw [number]
  split
  · rw [Option.map_some, toLoff, toLoff, Int.natCast_emod]
    exact congrArg some (Int.emod_bmod ..)
  · rfl

theorem str2long_eq (p : List UInt8) : str2long p = (number p).map (· % 2 ^ 32) := by
  rw [str2long, simpleStrtoul_eq]
  dsimp only
  rw [number]
  split <;> rfl

end

/-! ## The arguments -/

section
variable {sys : System} {curr dev off maxsize size : Int} {c' : Int} {arg : List UInt8} {args : List (List UInt8)}

/-- What `arg_off` finds. -/
structure Finds (a : Area) (dev off maxsize : Int) : Prop where
  dev : dev = a.dev
  off : off = toLoff a.start
  maxsize : maxsize = toLoff (a.hi - a.start)
  within : a.start < 2 ^ 63 → a.lo ≤ a.start ∧ a.start ≤ a.hi

theorem getPart_finds (h : sys.getPart arg curr = (some (dev, off, maxsize), c')) (hname : number arg = none) :
    ∃ a, sys.area curr arg = some a ∧ Finds a dev off maxsize := by
  rw [System.area, hname]
  dsimp only
  unfold System.getPart at h
  cases hfind : sys.mtdpartsInit.bind (findDevAndPart · arg) with
  | none =>
      rw [hfind] at h
      cases h
  | some found =>
      obtain ⟨d, k, part⟩ := found
      rw [hfind] at h
      dsimp only at h
      split at h
      · cases h
      · have hplace := congrArg Prod.fst h
        dsimp only at hplace
        split at hplace
        · simp only [Option.some.injEq, Prod.mk.injEq] at hplace
          obtain ⟨rfl, rfl, rfl⟩ := hplace
          exact ⟨_, rfl, rfl, rfl, by congr 1; push_cast; ring, fun _ => ⟨le_rfl, Nat.le_add_right ..⟩⟩
        · cases hplace

theorem argOff_finds (h : sys.argOff arg curr curr = (some (dev, off, maxsize), c')) :
    ∃ a, sys.area curr arg = some a ∧ Finds a dev off maxsize := by
  rw [System.argOff, str2off_eq] at h
  cases hnum : number arg with
  | none =>
      rw [hnum] at h
      exact getPart_finds h hnum
  | some n =>
      rw [hnum] at h
      dsimp only [Option.map_some] at h
      have hplace := congrArg Prod.fst h
      dsimp only at hplace
      split at hplace
      · cases hplace
      · rename_i hlt
        simp only [Option.some.injEq, Prod.mk.injEq] at hplace
        obtain ⟨rfl, rfl, rfl⟩ := hplace
        rw [toU64_toLoff] at hlt
        rw [System.area, hnum]
        refine ⟨_, rfl, rfl, rfl, toLoff_sub _ _, fun hsmall => ⟨Nat.zero_le _, ?_⟩⟩
        dsimp only at hsmall ⊢
        omega

/-- What `arg_off_size` finds. -/
structure Ranges (sys : System) (req : Request) (dev off size : Int) : Prop where
  dev : dev = req.dev
  off : off = toLoff req.start
  amount : ∃ n, req.amount = .bytes n ∧ size = toLoff n ∧ (req.start < 2 ^ 63 → 0 ≤ n)
  inside : req.start < 2 ^ 63 → req.amount = .bytes size → sys.Inside req

theorem argOffSize_ranges (h : sys.argOffSize args curr curr = (some (dev, off, size), c')) :
    ∃ req, sys.range curr args = some req ∧ Ranges sys req dev off size := by
  match args with
  | [] =>
      simp only [System.argOffSize, Prod.mk.injEq, Option.some.injEq] at h
      obtain ⟨⟨rfl, rfl, rfl⟩, -⟩ := h
      have hzero : toLoff 0 = 0 := (toLoff_eq_iff le_rfl).mpr (by decide)
      exact ⟨_, rfl, rfl, hzero.symm, ⟨_, rfl, rfl, fun _ => Int.natCast_nonneg _⟩, fun _ _ => ⟨le_rfl, (Int.zero_add _).le⟩⟩
  | place :: rest =>
      rcases hplace : sys.argOff place curr curr with ⟨found, c⟩
      cases found with
      | none =>
          simp only [System.argOffSize, hplace] at h
          cases h
      | some found =>
          obtain ⟨dev', off', maxsize⟩ := found
          obtain ⟨a, ha, hfinds⟩ := argOff_finds hplace
          cases rest with
          | nil =>
              simp only [System.argOffSize, hplace, Prod.mk.injEq, Option.some.injEq] at h
              obtain ⟨⟨rfl, rfl, rfl⟩, -⟩ := h
              refine ⟨⟨a, .bytes (a.hi - a.start)⟩, by rw [System.range, ha]; rfl, hfinds.dev, hfinds.off, ?_, ?_⟩
              · refine ⟨_, rfl, hfinds.maxsize, fun hsmall => ?_⟩
                have := (hfinds.within hsmall).2
                omega
              · intro hsmall _
                obtain ⟨hlo, hhi⟩ := hfinds.within hsmall
                refine ⟨hlo, ?_⟩
                dsimp only [Amount.size]
                omega
          | cons arg rest =>
              simp only [System.argOffSize, hplace, str2off_eq] at h
              cases hnum : number arg with
              | none =>
                  simp only [hnum, Option.map_none] at h
                  cases h
              | some n =>
                  simp only [hnum, Option.map_some, Prod.mk.injEq] at h
                  obtain ⟨h, -⟩ := h
                  split at h
                  · cases h
                  · rename_i hle
                    simp only [Option.some.injEq, Prod.mk.injEq] at h
                    obtain ⟨rfl, rfl, rfl⟩ := h
                    refine ⟨⟨a, .bytes n⟩, by rw [System.range, ha, hnum]; rfl, hfinds.dev, hfinds.off,
                      ⟨_, rfl, rfl, fun _ => Int.natCast_nonneg n⟩, fun hsmall hamount => ?_⟩
                    obtain ⟨hlo, hhi⟩ := hfinds.within hsmall
                    have hroom : (0 : Int) ≤ a.hi - a.start := by omega
                    have hmax := toLoff_le hroom
                    rw [← hfinds.maxsize] at hmax
                    have hn : (n : Int) = toLoff n := Amount.bytes.inj hamount
                    refine ⟨hlo, ?_⟩
                    dsimp only [Amount.size]
                    omega

/-! ## The calls -/

section
variable {req : Request} {cmd : List UInt8}

theorem Ranges.erase_iff (h : Ranges sys req dev off size) (hcmd : erases cmd = true) (quiet jffs2 scrub spread : Bool) :
    sys.OnTarget req (.erase dev ⟨size, off, quiet, jffs2, scrub, spread⟩) ↔ sys.Sound curr cmd req := by
  obtain ⟨n, hamount, rfl, hpos⟩ := h.amount
  have hoff : off = req.start ↔ req.start < 2 ^ 63 := by
    rw [h.off, toLoff_eq_iff (Int.natCast_nonneg _)]
    omega
  rw [System.OnTarget, System.Sound, hamount, hcmd]
  dsimp only [Op.dev, Op.off, Op.amount]
  rw [hoff, if_pos rfl]
  constructor
  · rintro ⟨-, hsmall, hsize, -⟩
    exact ⟨hsmall, (toLoff_eq_iff (hpos hsmall)).mp (Amount.bytes.inj hsize)⟩
  · rintro ⟨hsmall, hn⟩
    have hsize := (toLoff_eq_iff (hpos hsmall)).mpr hn
    exact ⟨h.dev, hsmall, congrArg _ hsize, h.inside hsmall (by rw [hamount, hsize])⟩

theorem Ranges.skipBad_iff (h : Ranges sys req dev off size) (hcmd : erases cmd = false) (read : Bool) (addr flags : Nat) :
    sys.OnTarget req (.skipBad read curr off (toSize size) addr flags) ↔ sys.Sound curr cmd req := by
  obtain ⟨n, hamount, rfl, hpos⟩ := h.amount
  have hoff : off = req.start ↔ req.start < 2 ^ 63 := by
    rw [h.off, toLoff_eq_iff (Int.natCast_nonneg _)]
    omega
  rw [System.OnTarget, System.Sound, hamount, hcmd, toSize_toLoff]
  dsimp only [Op.dev, Op.off, Op.amount]
  rw [hoff, if_neg Bool.false_ne_true]
  constructor
  · rintro ⟨hdev, hsmall, hsize, -⟩
    have hn : ((n % 2 ^ 32).toNat : Int) = n := Amount.bytes.inj hsize
    exact ⟨hsmall, hdev.symm, by omega⟩
  · rintro ⟨hsmall, hdev, hn⟩
    have hnonneg := hpos hsmall
    have hsize : toLoff n = n := (toLoff_eq_iff hnonneg).mpr (by omega)
    exact ⟨hdev.symm, hsmall, congrArg _ (by omega), h.inside hsmall (by rw [hamount, hsize])⟩

theorem Finds.raw_iff {a : Area} (h : Finds a dev off maxsize) {n : Nat}
    (hroom : ¬ maxsize < (n % 2 ^ 32 * (sys.info curr).writesize.toNat % 2 ^ 32 : Nat)) (read : Bool) (addr : Nat) :
    sys.OnTarget ⟨a, .pages n⟩ (.raw read curr addr off (n % 2 ^ 32)) ↔ sys.Sound curr cmd ⟨a, .pages n⟩ := by
  have hoff : off = a.start ↔ a.start < 2 ^ 63 := by
    rw [h.off, toLoff_eq_iff (Int.natCast_nonneg _)]
    omega
  rw [System.OnTarget, System.Sound]
  dsimp only [Op.dev, Op.off, Op.amount, System.Inside, Amount.size]
  rw [hoff]
  constructor
  · rintro ⟨hdev, hsmall, hcount, -, hin⟩
    have hn : ((n % 2 ^ 32 : Nat) : Int) = n := Amount.pages.inj hcount
    rw [← hdev] at hin
    exact ⟨hsmall, hdev.symm, by omega, .inr hin⟩
  · rintro ⟨hsmall, hdev, hn, hbytes⟩
    obtain ⟨hlo, hhi⟩ := h.within hsmall
    have hcount : n % 2 ^ 32 = n := by omega
    refine ⟨hdev.symm, hsmall, by rw [hcount], hlo, ?_⟩
    rw [hdev]
    refine hbytes.elim (fun hlt => ?_) id
    -- the product is exact, and was compared with the room
    have hmax := toLoff_le (show (0 : Int) ≤ a.hi - a.start by omega)
    rw [← h.maxsize] at hmax
    rw [hcount, Nat.mod_eq_of_lt (by exact_mod_cast hlt), Nat.cast_mul] at hroom
    omega

variable {op : Op}

theorem doErase_iff (h : sys.doErase cmd args curr = (.call op, c')) (hcmd : erases cmd = true) :
    ∃ req, sys.requested curr cmd args = some req ∧ (sys.OnTarget req op ↔ sys.Sound curr cmd req) := by
  rw [System.requested, if_pos hcmd]
  simp only [System.doErase, decide_eq_true_eq] at h
  generalize hrest : (if args.head? = some (ascii "clean") ∨ args.head? = some (ascii "-y") then args.drop 1 else args) = rest at h ⊢
  split at h
  · cases h
  · split at h
    · cases h
    · rcases hplace : sys.argOffSize rest curr curr with ⟨found, c⟩
      cases found with
      | none =>
          simp only [hplace] at h
          cases h
      | some found =>
          obtain ⟨dev, off, size⟩ := found
          obtain ⟨req, hreq, hranges⟩ := argOffSize_ranges hplace
          simp only [hplace] at h
          split at h
          · cases h
          · cases h
            exact ⟨req, hreq, hranges.erase_iff hcmd ..⟩

theorem dispatch_none (read raw : Bool) (off : Int) (rwsize addr pagecount : Nat) :
    dispatch none read raw curr off rwsize addr pagecount = .call (.skipBad read curr off rwsize addr 0) := if_pos (.inl rfl)

theorem dispatch_raw (read : Bool) (off : Int) (rwsize addr pagecount : Nat) :
    dispatch (some (ascii ".raw")) read true curr off rwsize addr pagecount = .call (.raw read curr addr off pagecount) := by
  rw [dispatch, if_neg (by decide), if_neg (by decide), if_neg (by decide), if_pos rfl]

theorem pages_of_count {place : List UInt8} {a : Area} {count : Nat} (ha : sys.area curr place = some a)
    (hcount : args.head?.elim (some 1) str2long = some count) :
    ∃ n : Nat, sys.pages curr (place :: args) = some ⟨a, .pages n⟩ ∧ count = n % 2 ^ 32 := by
  cases args with
  | nil =>
      cases hcount
      exact ⟨1, by rw [System.pages, ha]; rfl, rfl⟩
  | cons arg args =>
      obtain ⟨n, hn, rfl⟩ := Option.map_eq_some_iff.mp ((str2long_eq arg).symm.trans hcount)
      exact ⟨n, by rw [System.pages, ha, hn]; rfl, rfl⟩

theorem doReadWrite_iff (h : sys.doReadWrite cmd args curr = (.call op, c')) (hcmd : erases cmd = false)
    (hplain : suffix cmd = none ∨ suffix cmd = some (ascii ".raw")) :
    ∃ req, sys.requested curr cmd args = some req ∧ (sys.OnTarget req op ↔ sys.Sound curr cmd req) := by
  rw [System.requested, if_neg (by rw [hcmd]; exact Bool.false_ne_true)]
  match args with
  | [] => cases h
  | [_] => cases h
  | addr :: place :: rest =>
      rcases hplain with hnone | hraw
      · rw [hnone, if_neg (by simp)]
        rcases hplace : sys.argOffSize (place :: rest) curr curr with ⟨found, c⟩
        cases found with
        | none =>
            simp only [System.doReadWrite, hnone, hplace] at h
            cases h
        | some found =>
            obtain ⟨dev, off, size⟩ := found
            obtain ⟨req, hreq, hranges⟩ := argOffSize_ranges hplace
            simp only [System.doReadWrite, hnone, hplace, dispatch_none] at h
            cases h
            exact ⟨req, hreq, hranges.skipBad_iff hcmd ..⟩
      · rw [hraw, if_pos rfl]
        rcases hplace : sys.argOff place curr curr with ⟨found, c⟩
        cases found with
        | none =>
            simp only [System.doReadWrite, hraw, hplace, if_true] at h
            cases h
        | some found =>
            obtain ⟨dev, off, maxsize⟩ := found
            obtain ⟨a, ha, hfinds⟩ := argOff_finds hplace
            cases hcount : rest.head?.elim (some 1) str2long with
            | none =>
                simp only [System.doReadWrite, hraw, hplace, hcount, if_true] at h
                cases h
            | some count =>
                obtain ⟨n, hpages, rfl⟩ := pages_of_count ha hcount
                simp only [System.doReadWrite, hraw, hplace, hcount, if_true] at h
                split at h
                · cases h
                · rename_i hroom
                  rw [dispatch_raw] at h
                  cases h
                  exact ⟨_, hpages, hfinds.raw_iff hroom ..⟩

/-- An erase, or a read or a write without a suffix or with `.raw` -/
def Plain (cmd : List UInt8) : Prop := erases cmd = true ∨ suffix cmd = none ∨ suffix cmd = some (ascii ".raw")

instance : DecidablePred Plain := fun _ => inferInstanceAs (Decidable (_ ∨ _))

theorem doDevice_ne_call (args : List (List UInt8)) (curr : Int) (op : Op) : (sys.doDevice args curr).1 ≠ .call op := by
  cases args with
  | nil => exact Outcome.noConfusion
  | cons arg args => exact Outcome.noConfusion

variable {again : Bool} {argv : List (List UInt8)}

/-- Where the driver is called the device and the range are those that were named just if the request is sound. -/
theorem nand_on_target_iff (h : sys.doNand again argv curr = (.call op, c')) (hplain : Plain (argv.getD 1 [])) :
    ∃ req, sys.requested curr (argv.getD 1 []) (argv.drop 2) = some req ∧
      (sys.OnTarget req op ↔ sys.Sound curr (argv.getD 1 []) req) := by
  match argv with
  | [] => cases h
  | [_] => cases h
  | _ :: cmd :: args =>
      change ∃ req, sys.requested curr cmd args = some req ∧ (sys.OnTarget req op ↔ sys.Sound curr cmd req)
      change Plain cmd at hplain
      have herases : (startsWith "erase" cmd = true ∨ startsWith "scrub" cmd = true) ↔ erases cmd = true :=
        (Bool.or_eq_true ..).symm.to_iff
      simp only [System.doNand, herases] at h
      -- a repeated command, `info`, `device`, no device and `bad`
      split at h
      · cases h
      split at h
      · cases h
      split at h
      · exact absurd (congrArg Prod.fst h) (doDevice_ne_call _ _ _)
      split at h
      · cases h
      split at h
      · cases h
      cases hcmd : erases cmd with
      | true =>
          rw [hcmd, if_pos rfl] at h
          exact doErase_iff h hcmd
      | false =>
          have hsuffix := hplain.resolve_left (by rw [hcmd]; exact Bool.false_ne_true)
          rw [hcmd, if_neg Bool.false_ne_true] at h
          split at h
          · cases h
          split at h
          · exact doReadWrite_iff h hcmd hsuffix
          · cases h

end

end

theorem deviceSize_lt : 2 ^ 27 < 2 ^ 32 := by decide

/-- Two devices of 128 MiB, with a partition of 4 MiB on each -/
def sampleSystem : System where
  nandInfo := [⟨some (ascii "nand0"), 2 ^ 27, 2048, 64⟩, ⟨some (ascii "nand1"), 2 ^ 27, 2048, 64⟩]
  mtdpartsInit := some [⟨⟨.nand, 0, 2 ^ 27, ascii "nand0", deviceSize_lt⟩, [⟨ascii "kernel", false, 0x400000, 0x100000, false, 0⟩]⟩,
    ⟨⟨.nand, 1, 2 ^ 27, ascii "nand1", deviceSize_lt⟩, [⟨ascii "rootfs", false, 0x400000, 0x200000, false, 0⟩]⟩]
  quiet := false
  getc := (0, 0)
  raw := false

/-- What the writes to the two partitions call, with `nand0` as the current device -/
theorem sample_calls :
    sampleSystem.doNand false [ascii "nand", ascii "write", ascii "84000000", ascii "kernel", ascii "800"] 0 =
      (.call (.skipBad false 0 0x100000 0x800 0x84000000 0), 0) ∧
    sampleSystem.doNand false [ascii "nand", ascii "write", ascii "84000000", ascii "rootfs", ascii "800"] 0 =
      (.call (.skipBad false 0 0x200000 0x800 0x84000000 0), 1) := by
  refine ⟨?_, ?_⟩
  · decide +kernel
  · decide +kernel

/-- `nand write 84000000 kernel 800` -/
theorem nand_on_target_sample :
    sampleSystem.OnTarget ⟨⟨0, 0x100000, 0x500000, 0x100000⟩, .bytes 0x800⟩ (.skipBad false 0 0x100000 0x800 0x84000000 0) := by
  have hnamed : sampleSystem.requested 0 (ascii "write") [ascii "84000000", ascii "kernel", ascii "800"] =
      some ⟨⟨0, 0x100000, 0x500000, 0x100000⟩, .bytes 0x800⟩ := rfl
  obtain ⟨req, hreq, hiff⟩ := nand_on_target_iff sample_calls.1 (by decide)
  obtain rfl : req = _ := Option.some.inj (hreq.symm.trans hnamed)
  exact hiff.mpr ⟨by decide, by decide⟩

/-- `nand write 84000000 rootfs 800` with `nand0` as the current device: `nand0` is written. -/
theorem nand_write_wrong_device :
    ¬ ∀ (sys : System) (again : Bool) (argv : List (List UInt8)) (curr c' : Int) (op : Op),
      sys.doNand again argv curr = (.call op, c') → Plain (argv.getD 1 []) →
        ∃ req, sys.requested curr (argv.getD 1 []) (argv.drop 2) = some req ∧ sys.OnTarget req op := by
  intro h
  obtain ⟨req, hreq, hdev, -⟩ := h _ _ _ _ _ _ sample_calls.2 (by decide)
  have hnamed : sampleSystem.requested 0 (ascii "write") [ascii "84000000", ascii "rootfs", ascii "800"] =
      some ⟨⟨1, 0x200000, 0x600000, 0x200000⟩, .bytes 0x800⟩ := rfl
  obtain rfl : req = _ := Option.some.inj (hreq.symm.trans hnamed)
  exact absurd hdev (by decide)

end Uboot.CmdNand
