import Mathlib.Data.Nat.Count
import Uboot.Nand.Theorems

/-!
# Erasing a range (`nand_erase_opts`)

`block_isbad` and `erase` are the driver's, and are called at any address. The loop counts blocks, and with `spread` only
the good ones. An erase that fails is printed and counted. `scrub` is not set; what is printed is left out.
-/

namespace Uboot.Nand

open Uboot.Lib

/-- A device with its methods: `block_isbad`, and where `erase` fails. -/
structure EraseInfo where
  size : Nat
  erasesize : Nat
  writesize : Nat
  oobavail : Nat
  blockIsbad : Nat → Int
  eraseFails : Nat → Bool
  erasesize_pos : 0 < erasesize
  size_lt : size < 2 ^ 64

/-- `nand_erase_options_t` without `scrub` and `quiet` -/
structure EraseOptions where
  length : Nat
  offset : Nat
  jffs2 : Bool
  spread : Bool

/-- The calls of `erase` with their success, and of `write_oob`. -/
inductive EraseCall where
  | erase (addr : Nat) (ok : Bool)
  | writeOob (addr : Nat)
deriving DecidableEq

namespace EraseInfo

/-- What is done to a block that is not bad. -/
def eraseBlock (d : EraseInfo) (opts : EraseOptions) (addr : Nat) : List EraseCall :=
  .erase addr (!d.eraseFails addr) ::
    if !d.eraseFails addr ∧ opts.jffs2 ∧ 8 ≤ d.oobavail then [.writeOob addr] else []

/-- The loop: the result and the calls. -/
def eraseLoop (d : EraseInfo) (opts : EraseOptions) (eraseLength : Nat) :
    Nat → Nat → Nat → List EraseCall → Option (Int × List EraseCall)
  | 0, _, _, _ => none
  | fuel + 1, addr, erasedLength, log =>
      if erasedLength < eraseLength then
        let next := (addr + d.erasesize) % 2 ^ 64
        if 0 < d.blockIsbad addr then
          d.eraseLoop opts eraseLength fuel next (if opts.spread then erasedLength else erasedLength + 1) log
        else if d.blockIsbad addr < 0 then some (-1, log)
        else d.eraseLoop opts eraseLength fuel next (erasedLength + 1) (log ++ d.eraseBlock opts addr)
      else some (0, log)

/-- The blocks of the range. -/
def blocks (d : EraseInfo) (opts : EraseOptions) : Nat := (opts.length + d.erasesize - 1) / d.erasesize

/-- `nand_erase_opts`; `erase_length` has 32 bits. -/
def eraseOpts (d : EraseInfo) (opts : EraseOptions) (fuel : Nat) : Option (Int × List EraseCall) :=
  if opts.offset &&& (d.writesize - 1) ≠ 0 then some (-1, [])
  else d.eraseLoop opts (d.blocks opts % 2 ^ 32) fuel (opts.offset % 2 ^ 64) 0 []

/-! ## What a return of 0 should say -/

/-- The `i`th block from the offset on. -/
def block (d : EraseInfo) (opts : EraseOptions) (i : Nat) : Nat := opts.offset + i * d.erasesize

/-- The device calls the block good. -/
def Good (d : EraseInfo) (a : Nat) : Prop := d.blockIsbad a = 0 ∧ a + d.erasesize ≤ d.size

instance (d : EraseInfo) (a : Nat) : Decidable (d.Good a) := inferInstanceAs (Decidable (_ ∧ _))

/-- The good blocks of the device among the first `n` from the offset on. -/
def goodBlocks (d : EraseInfo) (opts : EraseOptions) (n : Nat) : List Nat :=
  ((List.range n).map (d.block opts)).filter d.Good

/-- The blocks that are to be erased: the good ones of the range, or as many good ones as the range has blocks. -/
def Wanted (d : EraseInfo) (opts : EraseOptions) (as : List Nat) : Prop :=
  if opts.spread then ∃ m, as = d.goodBlocks opts m ∧ as.length = d.blocks opts
  else as = d.goodBlocks opts (d.blocks opts)

/-- The call comes back, and a return of 0 means that all the blocks that are to be erased are, and that what was erased is a
good block of the device. -/
def Truthful (d : EraseInfo) (opts : EraseOptions) : Prop :=
  ∃ r, Returns (d.eraseOpts opts) r ∧ (r.1 = 0 →
    (∃ as, d.Wanted opts as ∧ ∀ a ∈ as, .erase a true ∈ r.2) ∧ ∀ a, .erase a true ∈ r.2 → d.Good a)

/-! ## The rounds -/

/-- Where round `i` is. -/
def addr (d : EraseInfo) (opts : EraseOptions) (i : Nat) : Nat := d.block opts i % 2 ^ 64

/-- `erased_length` before round `m` -/
def counter (d : EraseInfo) (opts : EraseOptions) (m : Nat) : Nat :=
  if opts.spread then Nat.count (fun i => d.blockIsbad (d.addr opts i) ≤ 0) m else m

def round (d : EraseInfo) (opts : EraseOptions) (i : Nat) : List EraseCall :=
  if 0 < d.blockIsbad (d.addr opts i) then [] else d.eraseBlock opts (d.addr opts i)

def rounds (d : EraseInfo) (opts : EraseOptions) (m : Nat) : List EraseCall := (List.range m).flatMap (d.round opts)

/-- Round `i` takes place and does not end the loop. -/
def Goes (d : EraseInfo) (opts : EraseOptions) (i : Nat) : Prop :=
  d.counter opts i < d.blocks opts % 2 ^ 32 ∧ 0 ≤ d.blockIsbad (d.addr opts i)

instance (d : EraseInfo) (opts : EraseOptions) (i : Nat) : Decidable (d.Goes opts i) := inferInstanceAs (Decidable (_ ∧ _))

/-- A block that the loop comes to cannot be asked about. -/
def AsksInVain (d : EraseInfo) (opts : EraseOptions) : Prop :=
  ∃ m, d.counter opts m < d.blocks opts % 2 ^ 32 ∧ d.blockIsbad (d.addr opts m) < 0

/-- No erase that is needed fails, and none that the driver should refuse goes through. -/
def ErasesAll (d : EraseInfo) (opts : EraseOptions) : Prop :=
  if opts.spread then
    d.blocks opts < 2 ^ 32 ∧ ∃ m, d.counter opts m = d.blocks opts ∧
      ∀ i < m, d.blockIsbad (d.addr opts i) ≤ 0 → d.Good (d.block opts i) ∧ d.eraseFails (d.block opts i) = false
  else
    (∀ i < d.blocks opts, d.Good (d.block opts i) →
      i < d.blocks opts % 2 ^ 32 ∧ d.eraseFails (d.block opts i) = false) ∧
    ∀ i < d.blocks opts % 2 ^ 32, d.blockIsbad (d.addr opts i) ≤ 0 → ¬d.Good (d.addr opts i) → d.eraseFails (d.addr opts i) = true

section
variable {d : EraseInfo} {opts : EraseOptions} {a i m n fuel : Nat} {log : List EraseCall} {r : Int × List EraseCall}

theorem addr_succ : d.addr opts (i + 1) = (d.addr opts i + d.erasesize) % 2 ^ 64 := by
  rw [addr, addr, block, block, Nat.succ_mul, ← Nat.add_assoc, Nat.mod_add_mod]

theorem rounds_succ : d.rounds opts (m + 1) = d.rounds opts m ++ d.round opts m := by
  rw [rounds, List.range_succ, List.flatMap_append, List.flatMap_singleton, rounds]

theorem counter_zero : d.counter opts 0 = 0 := by
  rw [counter, Nat.count_zero, ite_self]

theorem counter_bad (h : 0 < d.blockIsbad (d.addr opts m)) :
    d.counter opts (m + 1) = if opts.spread then d.counter opts m else d.counter opts m + 1 := by
  unfold counter
  split
  · rw [Nat.count_succ, if_neg (Int.not_le.mpr h), Nat.add_zero]
  · rfl

theorem counter_good (h : d.blockIsbad (d.addr opts m) ≤ 0) : d.counter opts (m + 1) = d.counter opts m + 1 := by
  unfold counter
  split
  · rw [Nat.count_succ, if_pos h]
  · rfl

theorem counter_mono : Monotone (d.counter opts) := by
  refine monotone_nat_of_le_succ fun m => ?_
  rcases lt_or_ge 0 (d.blockIsbad (d.addr opts m)) with h | h
  · rw [counter_bad h]
    split <;> omega
  · rw [counter_good h]
    omega

theorem counter_succ_le : d.counter opts (m + 1) ≤ d.counter opts m + 1 := by
  rcases lt_or_ge 0 (d.blockIsbad (d.addr opts m)) with h | h
  · rw [counter_bad h]
    split <;> omega
  · exact (counter_good h).le

theorem eraseLoop_goes (h : d.Goes opts m) :
    d.eraseLoop opts (d.blocks opts % 2 ^ 32) (fuel + 1) (d.addr opts m) (d.counter opts m) log =
      d.eraseLoop opts (d.blocks opts % 2 ^ 32) fuel (d.addr opts (m + 1)) (d.counter opts (m + 1)) (log ++ d.round opts m) := by
  rw [eraseLoop, if_pos h.1, addr_succ]
  rcases lt_or_ge 0 (d.blockIsbad (d.addr opts m)) with hbad | hgood
  · rw [if_pos hbad, counter_bad hbad, round, if_pos hbad, List.append_nil]
  · rw [if_neg (Int.not_lt.mpr hgood), if_neg (Int.not_lt.mpr h.2), counter_good hgood, round, if_neg (Int.not_lt.mpr hgood)]

/-- The first `m` rounds. -/
theorem eraseLoop_rounds (h : ∀ i < m, d.Goes opts i) :
    d.eraseLoop opts (d.blocks opts % 2 ^ 32) (fuel + m) (d.addr opts 0) (d.counter opts 0) [] =
      d.eraseLoop opts (d.blocks opts % 2 ^ 32) fuel (d.addr opts m) (d.counter opts m) (d.rounds opts m) := by
  induction m generalizing fuel with
  | zero => rfl
  | succ m ih =>
      rw [← Nat.add_assoc, Nat.add_right_comm, ih fun i hi => h i (by omega), eraseLoop_goes (h m (by omega)), rounds_succ]

theorem eraseOpts_rounds (halign : opts.offset &&& (d.writesize - 1) = 0) (h : ∀ i < m, d.Goes opts i) :
    d.eraseOpts opts (fuel + m) =
      d.eraseLoop opts (d.blocks opts % 2 ^ 32) fuel (d.addr opts m) (d.counter opts m) (d.rounds opts m) := by
  have hzero : d.addr opts 0 = opts.offset % 2 ^ 64 := by rw [addr, block, Nat.zero_mul, Nat.add_zero]
  rw [eraseOpts, if_neg (not_not.mpr halign), ← hzero, ← eraseLoop_rounds h, counter_zero]

/-- The loop comes to its end after round `m - 1`. -/
theorem eraseOpts_returns_zero (halign : opts.offset &&& (d.writesize - 1) = 0) (h : ∀ i < m, d.Goes opts i)
    (hend : d.blocks opts % 2 ^ 32 ≤ d.counter opts m) : Returns (d.eraseOpts opts) (0, d.rounds opts m) := by
  refine ⟨m + 1, fun fuel hfuel => ?_⟩
  obtain ⟨f, rfl⟩ := Nat.exists_eq_add_of_le' hfuel
  rw [Nat.add_comm m 1, ← Nat.add_assoc, eraseOpts_rounds halign h, eraseLoop, if_neg (Nat.not_lt.mpr hend)]

theorem eraseOpts_returns_error (halign : opts.offset &&& (d.writesize - 1) = 0) (h : ∀ i < m, d.Goes opts i)
    (hin : d.counter opts m < d.blocks opts % 2 ^ 32) (hbad : d.blockIsbad (d.addr opts m) < 0) :
    Returns (d.eraseOpts opts) (-1, d.rounds opts m) := by
  refine ⟨m + 1, fun fuel hfuel => ?_⟩
  obtain ⟨f, rfl⟩ := Nat.exists_eq_add_of_le' hfuel
  rw [Nat.add_comm m 1, ← Nat.add_assoc, eraseOpts_rounds halign h, eraseLoop, if_pos hin,
    if_neg (Int.lt_asymm hbad), if_pos hbad]

/-- A round that always follows leaves no result. -/
theorem eraseOpts_endless (halign : opts.offset &&& (d.writesize - 1) = 0) (h : ∀ i, d.Goes opts i) :
    d.eraseOpts opts fuel = none := by
  have hrun : d.eraseOpts opts (0 + fuel) = none := eraseOpts_rounds halign fun i _ => h i
  rwa [Nat.zero_add] at hrun

/-! ## What was erased -/

theorem mem_rounds : .erase a true ∈ d.rounds opts m ↔
    ∃ i < m, d.addr opts i = a ∧ d.blockIsbad a ≤ 0 ∧ d.eraseFails a = false := by
  have hround : ∀ i, .erase a true ∈ d.round opts i ↔
      d.addr opts i = a ∧ d.blockIsbad a ≤ 0 ∧ d.eraseFails a = false := by
    intro i
    unfold round
    split
    next hbad =>
      refine ⟨fun h => absurd h List.not_mem_nil, ?_⟩
      rintro ⟨rfl, hgood, -⟩
      exact absurd hbad (Int.not_lt.mpr hgood)
    next hgood =>
      unfold eraseBlock
      constructor
      · intro h
        rcases List.mem_cons.mp h with h | h
        · obtain ⟨rfl, hok⟩ := EraseCall.erase.inj h
          exact ⟨rfl, by omega, Bool.not_eq_true' _ ▸ hok.symm⟩
        · split at h <;> simp at h
      · rintro ⟨rfl, -, hok⟩
        rw [hok]
        exact List.mem_cons_self
  simp only [rounds, List.mem_flatMap, List.mem_range, hround]

/-- The address of a block inside the device does not wrap. -/
theorem Good.addr_eq (h : d.Good (d.block opts i)) : d.addr opts i = d.block opts i :=
  Nat.mod_eq_of_lt (by have := d.size_lt; have := h.2; have := d.erasesize_pos; omega)

/-- A block is not come to before its own round. -/
theorem le_of_addr_eq {j : Nat} (hj : d.addr opts j = d.block opts i) : i ≤ j := by
  by_contra hlt
  have hmul : j * d.erasesize < i * d.erasesize := Nat.mul_lt_mul_of_pos_right (by omega) d.erasesize_pos
  have hle : d.addr opts j ≤ d.block opts j := Nat.mod_le ..
  unfold block at hj hle
  omega

theorem Good.mem_rounds (h : d.Good (d.block opts i)) :
    .erase (d.block opts i) true ∈ d.rounds opts m ↔ i < m ∧ d.eraseFails (d.block opts i) = false := by
  rw [EraseInfo.mem_rounds]
  constructor
  · rintro ⟨j, hj, haddr, -, hok⟩
    exact ⟨(le_of_addr_eq haddr).trans_lt hj, hok⟩
  · rintro ⟨hi, hok⟩
    exact ⟨i, hi, h.addr_eq, h.1.le, hok⟩

theorem mem_goodBlocks : a ∈ d.goodBlocks opts n ↔ d.Good a ∧ ∃ i < n, d.block opts i = a := by
  simp [goodBlocks, and_comm]

/-- What the statement asks of the blocks that `m` rounds erase. -/
def Accounts (d : EraseInfo) (opts : EraseOptions) (m : Nat) : Prop :=
  (∃ as, d.Wanted opts as ∧ ∀ a ∈ as, .erase a true ∈ d.rounds opts m) ∧ ∀ a, .erase a true ∈ d.rounds opts m → d.Good a

/-- Without `spread` there are as many rounds as blocks. -/
theorem accounts_range (hspread : opts.spread = false) (hcount : d.counter opts m = d.blocks opts % 2 ^ 32) :
    d.Accounts opts m ↔ d.ErasesAll opts := by
  have hm : m = d.blocks opts % 2 ^ 32 := by rwa [counter, hspread, if_neg Bool.false_ne_true] at hcount
  simp only [Accounts, ErasesAll, Wanted, hspread, if_neg Bool.false_ne_true, ← hm]
  refine and_congr ⟨?_, ?_⟩ ⟨?_, ?_⟩
  · rintro ⟨as, rfl, hall⟩ i hi hgood
    exact hgood.mem_rounds.mp (hall _ (mem_goodBlocks.mpr ⟨hgood, i, hi, rfl⟩))
  · intro h
    refine ⟨_, rfl, fun a ha => ?_⟩
    obtain ⟨hgood, i, hi, rfl⟩ := mem_goodBlocks.mp ha
    exact hgood.mem_rounds.mpr (h i hi hgood)
  · intro h i hi hask hout
    by_contra hok
    exact hout (h _ (EraseInfo.mem_rounds.mpr ⟨i, hi, rfl, hask, Bool.eq_false_iff.mpr hok⟩))
  · intro h a ha
    obtain ⟨i, hi, rfl, hask, hok⟩ := EraseInfo.mem_rounds.mp ha
    by_contra hout
    exact absurd (h i hi hask hout) (Bool.eq_false_iff.mp hok)

theorem length_goodBlocks : (d.goodBlocks opts n).length = ((Finset.range n).filter fun i => d.Good (d.block opts i)).card := by
  rw [goodBlocks, ← List.countP_eq_length_filter, List.countP_map, ← Nat.count_eq_card_filter_range]
  rfl

/-- With `spread` there are as many rounds with a block that is not bad as the range has blocks. -/
theorem accounts_spread (hspread : opts.spread = true) (hgo : ∀ i < m, d.Goes opts i)
    (hcount : d.counter opts m = d.blocks opts % 2 ^ 32) : d.Accounts opts m ↔ d.ErasesAll opts := by
  have hcard : d.counter opts m = ((Finset.range m).filter fun i => d.blockIsbad (d.addr opts i) ≤ 0).card := by
    rw [counter, hspread, if_pos rfl, Nat.count_eq_card_filter_range]
  simp only [Accounts, ErasesAll, Wanted, hspread, if_true]
  constructor
  · rintro ⟨⟨as, ⟨n, rfl, hlen⟩, hall⟩, -⟩
    rw [length_goodBlocks] at hlen
    have hsub : ((Finset.range n).filter fun i => d.Good (d.block opts i)) ⊆
        (Finset.range m).filter fun i => d.blockIsbad (d.addr opts i) ≤ 0 := by
      intro i hi
      obtain ⟨hin, hgood⟩ := Finset.mem_filter.mp hi
      have hmem := hgood.mem_rounds.mp (hall _ (mem_goodBlocks.mpr ⟨hgood, i, Finset.mem_range.mp hin, rfl⟩))
      exact Finset.mem_filter.mpr ⟨Finset.mem_range.mpr hmem.1, hgood.addr_eq ▸ hgood.1.le⟩
    have hle := Finset.card_le_card hsub
    have heq := Finset.eq_of_subset_of_card_le hsub (by omega)
    refine ⟨by omega, m, by omega, fun i hi hask => ?_⟩
    have hin : i ∈ (Finset.range m).filter fun i => d.blockIsbad (d.addr opts i) ≤ 0 :=
      Finset.mem_filter.mpr ⟨Finset.mem_range.mpr hi, hask⟩
    obtain ⟨hin, hgood⟩ := Finset.mem_filter.mp (heq ▸ hin)
    exact ⟨hgood, (hgood.mem_rounds.mp (hall _ (mem_goodBlocks.mpr ⟨hgood, i, Finset.mem_range.mp hin, rfl⟩))).2⟩
  · rintro ⟨hlt, n, hn, hgood⟩
    rw [Nat.mod_eq_of_lt hlt] at hcount
    have hmn : m ≤ n := by
      by_contra hlt
      have hgo := (hgo n (by omega)).1
      omega
    have hround : ∀ i < m, d.blockIsbad (d.addr opts i) ≤ 0 ↔ d.Good (d.block opts i) := fun i hi =>
      ⟨fun h => (hgood i (by omega) h).1, fun h => h.addr_eq ▸ h.1.le⟩
    have hfilter : ((Finset.range m).filter fun i => d.blockIsbad (d.addr opts i) ≤ 0) =
        (Finset.range m).filter fun i => d.Good (d.block opts i) :=
      Finset.filter_congr fun i hi => hround i (Finset.mem_range.mp hi)
    refine ⟨⟨d.goodBlocks opts m, ⟨m, rfl, ?_⟩, fun a ha => ?_⟩, fun a ha => ?_⟩
    · rw [length_goodBlocks, ← hfilter, ← hcard, hcount]
    · obtain ⟨hg, i, hi, rfl⟩ := mem_goodBlocks.mp ha
      exact hg.mem_rounds.mpr ⟨hi, (hgood i (by omega) ((hround i hi).mpr hg)).2⟩
    · obtain ⟨i, hi, rfl, hask, -⟩ := EraseInfo.mem_rounds.mp ha
      have hg := (hround i hi).mp hask
      rwa [hg.addr_eq]

theorem accounts_iff (hgo : ∀ i < m, d.Goes opts i) (hcount : d.counter opts m = d.blocks opts % 2 ^ 32) :
    d.Accounts opts m ↔ d.ErasesAll opts := by
  cases hspread : opts.spread with
  | false => exact accounts_range hspread hcount
  | true => exact accounts_spread hspread hgo hcount

/-- What is asked in vain ends the loop. -/
theorem Goes.not_asksInVain (hgo : ∀ i < m, d.Goes opts i) (hcount : d.blocks opts % 2 ^ 32 ≤ d.counter opts m) :
    ¬d.AsksInVain opts := by
  rintro ⟨k, hk, hbad⟩
  rcases Nat.lt_or_ge k m with hlt | hge
  · exact absurd hbad (Int.not_lt.mpr (hgo k hlt).2)
  · have hmono : d.counter opts m ≤ d.counter opts k := counter_mono hge
    omega

theorem ErasesAll.ends (h : d.ErasesAll opts) : ∃ m, d.blocks opts % 2 ^ 32 ≤ d.counter opts m := by
  unfold ErasesAll at h
  split at h
  next =>
    obtain ⟨-, m, hm, -⟩ := h
    exact ⟨m, hm ▸ Nat.mod_le ..⟩
  next hspread => exact ⟨d.blocks opts % 2 ^ 32, by rw [counter, if_neg hspread]⟩

/-- The loop ends at the first round that does not go on. -/
theorem first_end (h : ∃ i, ¬d.Goes opts i) : ∃ m, (∀ i < m, d.Goes opts i) ∧
    (d.counter opts m = d.blocks opts % 2 ^ 32 ∨
      d.counter opts m < d.blocks opts % 2 ^ 32 ∧ d.blockIsbad (d.addr opts m) < 0) := by
  classical
  have hgo : ∀ i < Nat.find h, d.Goes opts i := fun i hi => not_not.mp (Nat.find_min h hi)
  refine ⟨Nat.find h, hgo, ?_⟩
  rcases Nat.lt_or_ge (d.counter opts (Nat.find h)) (d.blocks opts % 2 ^ 32) with hlt | hge
  · exact .inr ⟨hlt, Int.not_le.mp fun hask => Nat.find_spec h ⟨hlt, hask⟩⟩
  · refine .inl (le_antisymm ?_ hge)
    cases hm : Nat.find h with
    | zero =>
        rw [counter_zero]
        exact Nat.zero_le _
    | succ k => exact counter_succ_le.trans (hgo k (by omega)).1

/-- A return of 0 is the truth just when the range is not page aligned, a block cannot be asked about, or all goes well. -/
theorem truthful_iff : d.Truthful opts ↔
    opts.offset &&& (d.writesize - 1) ≠ 0 ∨ d.AsksInVain opts ∨ d.ErasesAll opts := by
  by_cases halign : opts.offset &&& (d.writesize - 1) = 0
  · rw [or_iff_right (not_not.mpr halign)]
    by_cases hall : ∀ i, d.Goes opts i
    · refine iff_of_false ?_ ?_
      · rintro ⟨r, ⟨bound, hr⟩, -⟩
        exact absurd (hr bound le_rfl) (by rw [eraseOpts_endless halign hall]; exact Option.some_ne_none r |>.symm)
      · rintro (⟨m, -, hbad⟩ | h)
        · exact absurd hbad (Int.not_lt.mpr (hall m).2)
        · obtain ⟨m, hm⟩ := h.ends
          exact absurd (hall m).1 (Nat.not_lt.mpr hm)
    · obtain ⟨m, hgo, hcount | ⟨hlt, hbad⟩⟩ := first_end (not_forall.mp hall)
      · have hreturn := eraseOpts_returns_zero halign hgo hcount.ge
        rw [or_iff_right (Goes.not_asksInVain hgo hcount.ge), ← accounts_iff hgo hcount]
        constructor
        · rintro ⟨r, hr, htrue⟩
          obtain rfl := hr.unique hreturn
          exact htrue rfl
        · exact fun h => ⟨_, hreturn, fun _ => h⟩
      · exact iff_of_true ⟨_, eraseOpts_returns_error halign hgo hlt hbad, fun h => absurd h (by simp)⟩ (.inl ⟨m, hlt, hbad⟩)
  · exact iff_of_true ⟨_, ⟨0, fun fuel _ => if_pos halign⟩, fun h => absurd h (by decide)⟩ (.inl halign)

end

theorem oneFails_pos : 0 < 4 := by decide

/-- Four blocks of which the second one cannot be erased. -/
def oneFails : EraseInfo := {
  size := 16
  erasesize := 4
  writesize := 2
  oobavail := 0
  blockIsbad := fun _ => 0
  eraseFails := fun a => a = 4
  erasesize_pos := oneFails_pos
  size_lt := by decide }

/-- A failing erase is passed over and 0 returned. -/
theorem erase_failure_returns_zero : ¬oneFails.Truthful ⟨16, 0, false, false⟩ := by
  rintro ⟨r, hr, htrue⟩
  have hgo : ∀ i < 4, oneFails.Goes ⟨16, 0, false, false⟩ i := by decide
  obtain rfl := hr.unique (eraseOpts_returns_zero (by decide) hgo (by decide))
  obtain ⟨as, has, hall⟩ := (htrue rfl).1
  exact absurd (hall 4 (has ▸ by decide)) (by decide)

end EraseInfo

end Uboot.Nand
