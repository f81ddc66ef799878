import Mathlib.Algebra.Order.Group.Nat
import Uboot.Nand.Theorems
import Uboot.SpiNand.Data
import Uboot.SpiNand.Theorems

/-!
# Reads as those of a linear flash

A read returns the bytes from the start of its first page on.
-/

namespace Uboot.SpiNand

open Uboot.Lib Uboot.Lib.Prog Uboot.Nand

/-- The cached die is the active one. -/
def Settled (p : Params) (c : Chip) : Prop :=
  (∀ die, c.prevDieId = some die → c.active = die) ∧ (p.dieSelect = false → c.active = 0)

/-- A read that succeeds, with or without corrected bits and OOB bytes, returns these bytes. -/
def ReadsLinear (p : Params) (ooblen addr len : Nat) : Prop :=
  ∀ s : Cells, Settled p s.chip → ∃ r s', Returns (fun fuel => p.spiNandReadStd ooblen fuel addr len s) (r, s') ∧
    ∀ corrected data, r = some (corrected, data) → data.length = len ∧
      ∀ i < len, (addr + i) / p.writesize < p.pages ∧
        data[i]? = some (s.cell ((addr + i) / p.writesize) ((addr + i) % p.writesize))

/-! ## The chip under the driver -/

/-- The page is on the active die. -/
def OnPage (p : Params) (page : Nat) (c : Chip) : Prop := Settled p c ∧ p.reached c page = page

section
variable {p : Params} {page : Nat} {pre : Chip → Prop}

theorem command_post (hpre : ∀ c rest, pre c → pre { c with outcomes := rest }) : Post pre command fun _ => pre := by
  intro c _ hp
  rw [command, exec_act]
  split
  next => exact ⟨trivial, fun _ _ => hp⟩
  next ok rest hc => exact ⟨trivial, fun _ _ => hpre c rest hp⟩

theorem command_settled : Post (Settled p) command fun _ => Settled p := command_post fun _ _ h => h

theorem command_onPage : Post (OnPage p page) command fun _ => OnPage p page := command_post fun _ _ h => h

theorem issue_onPage : Post (OnPage p page) (issue page) fun _ => OnPage p page := by
  refine Triple.seq (q := OnPage p page) ?_ command_onPage
  exact fun c _ hp => ⟨trivial, fun _ _ => hp⟩

theorem selectDie_post {die : Nat} (hsel : p.dieSelect = true) :
    Post (fun _ => True) (selectDie die) fun _ c => Settled p c ∧ c.active = die := by
  intro c _ _
  refine ⟨trivial, fun _ hok => ?_⟩
  rw [selectDie, exec_act] at hok ⊢
  dsimp only at hok ⊢
  split at hok
  next => cases hok
  next => cases hok
  next hlost hlate =>
    exact ⟨⟨fun d hd => Option.some.inj hd, fun hno => absurd hsel (by rw [hno]; decide)⟩, rfl⟩

theorem reached_eq {c : Chip} (h : c.active = page / p.pagesPerDie) : p.reached c page = page := by
  rw [Params.reached, h, Nat.mul_comm, Nat.div_add_mod]

theorem doDieSelect_onPage {p : Geometry} (hpage : page < p.pages) :
    Post (Settled p.toParams) (p.doDieSelect page) fun _ => OnPage p.toParams page := by
  have hdie : page / p.pagesPerDie < p.noOfDies :=
    (Nat.div_lt_iff_lt_mul (pagesPerDie_pos p.toParams)).mpr hpage
  unfold Params.doDieSelect
  split
  next hsel =>
    rw [Params.getDieId, if_neg (by omega), Params.spiNandDieSelect]
    refine Triple.bind (q := fun prev c => Settled p.toParams c ∧ c.prevDieId = prev) ?_ fun prev => ?_
    · intro c _ hc
      refine ⟨trivial, fun prev hprev => ?_⟩
      cases hprev
      exact ⟨hc, rfl⟩
    · refine Triple.ite (fun hprev => ?_) fun _ => ?_
      · refine Triple.pure () fun c _ hc => ⟨hc.1, reached_eq (hc.1.1 _ (hc.2.trans hprev))⟩
      · exact (selectDie_post hsel).weaken (fun _ _ => trivial) fun _ c hc => ⟨hc.1, reached_eq hc.2⟩
  next hsel =>
    refine Triple.pure () fun c _ hc => ⟨hc, reached_eq ?_⟩
    rw [p.single (Bool.eq_false_iff.mpr hsel)] at hdie
    rw [hc.2 (Bool.eq_false_iff.mpr hsel), Nat.lt_one_iff.mp hdie]

end

/-! ## Reads -/

/-- What is on the driver's side of a read or a write: the chip alone changes. -/
theorem onChip_post {α : Type} {m : Driver α} {pre : Chip → Prop} {post : α → Chip → Prop} {f : Cells → Prop}
    (hf : ∀ s c, f s → f { s with chip := c }) (h : Post pre m post) :
    Post (fun s => pre s.chip ∧ f s) (onChip m) fun a s => post a s.chip ∧ f s := by
  rintro s - ⟨hp, hs⟩
  refine ⟨trivial, fun a ha => ?_⟩
  exact ⟨(h s.chip trivial hp).2 a ha, hf s _ hs⟩
section
variable {p : Geometry} {page bytes ooblen n fuel realpage off : Nat} {cell : Nat → Nat → UInt8} {s s' : Cells}

/-- The page is on the active die and in the cache. -/
def Cached (p : Params) (page : Nat) (cell : Nat → Nat → UInt8) (s : Cells) : Prop :=
  OnPage p page s.chip ∧ s.cell = cell ∧ s.cache = cell page

theorem onChip_command_cached : Post (Cached p.toParams page cell) (onChip command) fun _ => Cached p.toParams page cell :=
  onChip_post (fun _ _ h => h) command_onPage

theorem pageRead_cached : Post (fun s => OnPage p.toParams page s.chip ∧ s.cell = cell) (p.pageRead page)
    fun _ => Cached p.toParams page cell := by
  refine Triple.seq (q := Cached p.toParams page cell) ?_ (onChip_post (fun _ _ h => h) issue_onPage)
  rintro s - ⟨hon, rfl⟩
  exact ⟨trivial, fun _ _ => ⟨hon, rfl, congrArg s.cell hon.2⟩⟩

theorem verifyEcc_post {pre : Cells → Prop} (hpre : ∀ s rest, pre s → pre { s with eccs := rest }) :
    Post pre verifyEcc fun _ => pre := by
  intro s _ hs
  refine ⟨trivial, fun _ _ => ?_⟩
  rw [verifyEcc, exec_act]
  split
  · exact hs
  all_goals exact hpre s _ hs

theorem normRead_cached {column : Nat} : Post (Cached p.toParams page cell) (normRead column n)
    fun data s => Cached p.toParams page cell s ∧ data = (Mem.read (cell page) column n) := by
  refine onChip_command_cached.seq ?_
  rintro s - hs
  refine ⟨trivial, fun data hdata => ⟨hs, ?_⟩⟩
  rw [← hs.2.2]
  exact (Option.some.inj hdata).symm

theorem readPart_cached {column : Nat} : Post (Cached p.toParams page cell) (readPart column n)
    fun data s => Cached p.toParams page cell s ∧ data = Mem.read (cell page) column n := by
  refine Triple.ite (fun hzero => Triple.pure _ fun s _ hs => ⟨hs, ?_⟩) fun _ => normRead_cached
  rw [hzero]
  rfl

/-- A round that succeeds returns the bytes from column 0 on. -/
theorem readRound_post (hpage : page < p.pages) :
    Post (fun s => Settled p.toParams s.chip ∧ s.cell = cell) (p.readRound page bytes ooblen)
      fun r s => (Settled p.toParams s.chip ∧ s.cell = cell) ∧ r.2 = Mem.read (cell page) 0 bytes := by
  refine (onChip_post (fun _ _ h => h) (doDieSelect_onPage hpage)).seq ?_
  refine pageRead_cached.seq (onChip_command_cached.seq ?_)
  refine (verifyEcc_post fun _ _ h => h).bind fun corrected => ?_
  refine readPart_cached.bind fun data => ?_
  refine Triple.bind (q := fun _ s => Cached p.toParams page cell s ∧ data = Mem.read (cell page) 0 bytes) ?_ fun _ => ?_
  · rintro s - ⟨hs, hdata⟩
    exact ⟨trivial, fun d hd => ⟨((readPart_cached s trivial hs).2 d hd).1, hdata⟩⟩
  · refine Triple.pure _ ?_
    rintro s - ⟨⟨⟨hset, -⟩, hcell, -⟩, hdata⟩
    exact ⟨⟨hset, hcell⟩, hdata⟩

/-- The bytes of the pages from `realpage` on. -/
def pagesBytes (p : Params) (cell : Nat → Nat → UInt8) (realpage n : Nat) : List UInt8 :=
  (List.range n).map fun i => cell (p.page (realpage + i / p.writesize)) (i % p.writesize)

theorem pagesBytes_le (h : n ≤ p.writesize) : pagesBytes p.toParams cell realpage n = Mem.read (cell (p.page realpage)) 0 n := by
  refine List.map_congr_left fun i hi => ?_
  have hlt : i < p.writesize := (List.mem_range.mp hi).trans_le h
  rw [Nat.div_eq_of_lt hlt, Nat.mod_eq_of_lt hlt, Nat.add_zero, Nat.zero_add]

theorem pagesBytes_add : pagesBytes p.toParams cell realpage (p.writesize + n) =
    Mem.read (cell (p.page realpage)) 0 p.writesize ++ pagesBytes p.toParams cell (realpage + 1) n := by
  rw [← pagesBytes_le le_rfl, pagesBytes, List.range_add, List.map_append, List.map_map]
  refine congrArg (_ ++ ·) (List.map_congr_left fun i _ => ?_)
  rw [Function.comp_apply, Nat.add_div_left _ p.writesize_pos, Nat.add_mod_left, Nat.add_assoc,
    Nat.add_comm 1]

theorem page_lt : p.page n < p.pages := Nat.mod_lt _ p.pages_pos

theorem readRound_result (hset : Settled p.toParams s.chip) {r : Bool × List UInt8}
    (h : (p.readRound (p.page realpage) bytes ooblen).exec s = (some r, s')) :
    Settled p.toParams s'.chip ∧ s'.cell = s.cell ∧ r.2 = Mem.read (s.cell (p.page realpage)) 0 bytes := by
  have hpost := (readRound_post page_lt s trivial ⟨hset, rfl⟩).2 r (by rw [h])
  rw [h] at hpost
  exact ⟨hpost.1.1, hpost.1.2, hpost.2⟩

/-- A length that is not negative is that of the bytes. -/
theorem readDataLoop_data {corrected c : Bool} {buf data : List UInt8} (hset : Settled p.toParams s.chip) (hn : n < 2 ^ 31)
    (h : p.readDataLoop ooblen fuel realpage n corrected buf s = some (some (c, data), s')) :
    data = buf ++ pagesBytes p.toParams s.cell realpage n := by
  induction fuel generalizing realpage n corrected buf s with
  | zero => cases h
  | succ fuel ih =>
      have hbytes : min ((n : Int) % 2 ^ 32).toNat p.writesize = min n p.writesize := by omega
      rw [Params.readDataLoop, hbytes] at h
      rcases hround : (p.readRound (p.page realpage) (min n p.writesize) ooblen).exec s with ⟨_ | ⟨c', d⟩, s₁⟩
      · rw [hround] at h
        cases h
      · obtain ⟨hset', hcell, hd⟩ := readRound_result hset hround
        rw [hround] at h
        dsimp only at h hd
        split at h
        next hle =>
          obtain ⟨⟨-, rfl⟩, -⟩ := h
          rw [hd, pagesBytes_le (by omega), Nat.min_eq_left (by omega)]
        next hgt =>
          have hlt : p.writesize < n := by omega
          obtain ⟨m, rfl⟩ := Nat.exists_eq_add_of_le hlt.le
          have hrest : ((p.writesize + m : Nat) : Int) - (min (p.writesize + m) p.writesize : Nat) = (m : Nat) := by omega
          rw [hrest] at h
          rw [ih hset' (by omega) h, hd, hcell, Nat.min_eq_right (by omega), pagesBytes_add, List.append_assoc]

/-- Of a negative length one page is read. -/
theorem readDataLoop_negative {corrected c : Bool} {buf data : List UInt8} {readlen : Int} (hset : Settled p.toParams s.chip)
    (hneg : readlen < 0) (hmin : -2 ^ 31 ≤ readlen)
    (h : p.readDataLoop ooblen fuel realpage readlen corrected buf s = some (some (c, data), s')) :
    data = buf ++ Mem.read (s.cell (p.page realpage)) 0 p.writesize := by
  cases fuel with
  | zero => cases h
  | succ fuel =>
      have hsize := p.writesize_lt
      have hbytes : min (readlen % 2 ^ 32).toNat p.writesize = p.writesize := by omega
      rw [Params.readDataLoop, hbytes] at h
      rcases hround : (p.readRound (p.page realpage) p.writesize ooblen).exec s with ⟨_ | ⟨c', d⟩, s₁⟩
      · rw [hround] at h
        cases h
      · obtain ⟨-, -, hd⟩ := readRound_result hset hround
        rw [hround] at h
        dsimp only at h hd
        rw [if_pos (by omega)] at h
        obtain ⟨⟨-, rfl⟩, -⟩ := h
        rw [hd]

/-- Every round but the last one takes a page from the length. -/
theorem readDataLoop_returns (corrected : Bool) (buf : List UInt8) (realpage : Nat) (s : Cells) (hn : n < 2 ^ 31) :
    ∃ x, ∀ fuel, n + 1 ≤ fuel → p.readDataLoop ooblen fuel realpage n corrected buf s = some x := by
  induction n using Nat.strong_induction_on generalizing corrected buf realpage s with
  | _ n ih =>
      have hbytes : min ((n : Int) % 2 ^ 32).toNat p.writesize = min n p.writesize := by omega
      have hpos := p.writesize_pos
      rcases hround : (p.readRound (p.page realpage) (min n p.writesize) ooblen).exec s with ⟨_ | ⟨c', d⟩, s₁⟩
      · refine ⟨(none, s₁), fun fuel hfuel => ?_⟩
        obtain ⟨f, rfl⟩ := Nat.exists_eq_add_of_le' (Nat.le_of_add_left_le hfuel)
        rw [Params.readDataLoop, hbytes, hround]
      · by_cases hle : n ≤ p.writesize
        · refine ⟨(some (corrected || c', buf ++ d), s₁), fun fuel hfuel => ?_⟩
          obtain ⟨f, rfl⟩ := Nat.exists_eq_add_of_le' (Nat.le_of_add_left_le hfuel)
          rw [Params.readDataLoop, hbytes, hround]
          dsimp only
          rw [if_pos (by omega)]
        · obtain ⟨x, hx⟩ := ih (n - p.writesize) (by omega) (corrected || c') (buf ++ d) (realpage + 1) s₁ (by omega)
          refine ⟨x, fun fuel hfuel => ?_⟩
          obtain ⟨f, rfl⟩ := Nat.exists_eq_add_of_le' (Nat.le_of_add_left_le hfuel)
          rw [Params.readDataLoop, hbytes, hround]
          have hrest : (n : Int) - (min n p.writesize : Nat) = (n - p.writesize : Nat) := by omega
          dsimp only
          rw [hrest, if_neg (by omega)]
          exact hx f (by omega)

end

/-! ## A chip that fails nothing -/

/-- No command fails and no bit is wrong. -/
def Quiet (c : Chip) : Prop := c.outcomes = [] ∧ c.selects = []

def Cells.Quiet (s : Cells) : Prop := SpiNand.Quiet s.chip ∧ s.eccs = []

section
variable {p : Geometry} {page n column : Nat} {α : Type}

theorem command_total : Total Quiet command := by
  intro c hc
  refine ⟨(), c, ?_, hc⟩
  rw [command, exec_act, hc.1]

theorem issue_total : Total Quiet (issue page) := by
  refine Total.bind (Total.act ?_) fun _ => command_total
  exact fun _ h => h

theorem doDieSelect_total (hpage : page < p.pages) : Total Quiet (p.doDieSelect page) := by
  have hdie : page / p.pagesPerDie < p.noOfDies :=
    (Nat.div_lt_iff_lt_mul (pagesPerDie_pos p.toParams)).mpr hpage
  refine Total.ite ?_ (Total.pure ())
  rw [Params.getDieId, if_neg (by omega), Params.spiNandDieSelect]
  refine (Total.act fun _ h => h).bind fun prev => Total.ite (Total.pure ()) ?_
  intro c hc
  rw [selectDie, exec_act]
  dsimp only
  rw [hc.2, List.head?_nil]
  exact ⟨(), _, rfl, hc.1, rfl⟩

theorem onChip_total {m : Driver α} (h : Total Quiet m) : Total Cells.Quiet (onChip m) := by
  rintro s ⟨hchip, hecc⟩
  obtain ⟨a, c, hm, hc⟩ := h s.chip hchip
  exact ⟨a, { s with chip := c }, by rw [onChip, exec_act, hm], hc, hecc⟩

theorem normRead_total : Total Cells.Quiet (normRead column n) :=
  (onChip_total command_total).bind fun _ => Total.act fun _ h => h

theorem pageRead_total : Total Cells.Quiet (p.pageRead page) := by
  refine Total.bind (Total.act ?_) fun _ => onChip_total issue_total
  exact fun _ h => h

theorem verifyEcc_total : Total Cells.Quiet verifyEcc := by
  intro s hs
  refine ⟨false, s, ?_, hs⟩
  rw [verifyEcc, exec_act, hs.2]

theorem readRound_total {bytes ooblen : Nat} (hpage : page < p.pages) : Total Cells.Quiet (p.readRound page bytes ooblen) := by
  refine (onChip_total (doDieSelect_total hpage)).bind fun _ => ?_
  refine pageRead_total.bind fun _ => (onChip_total command_total).bind fun _ => verifyEcc_total.bind fun c => ?_
  refine (Total.ite (Total.pure _) normRead_total).bind fun d => ?_
  exact (Total.ite (Total.pure _) normRead_total).bind fun _ => Total.pure _

/-- What comes back is a success. -/
theorem readDataLoop_total {ooblen fuel realpage : Nat} {readlen : Int} {corrected : Bool} {buf : List UInt8} {s s' : Cells}
    {r : Option (Bool × List UInt8)} (hs : s.Quiet)
    (h : p.readDataLoop ooblen fuel realpage readlen corrected buf s = some (r, s')) : ∃ x, r = some x := by
  induction fuel generalizing realpage readlen corrected buf s with
  | zero => cases h
  | succ fuel ih =>
      rw [Params.readDataLoop] at h
      have hpage : p.page realpage < p.pages := page_lt
      obtain ⟨x, s₁, hround, hs₁⟩ := readRound_total hpage s hs
      rw [hround] at h
      dsimp only at h
      split at h
      next => exact ⟨_, (Prod.mk.inj (Option.some.inj h)).1.symm⟩
      next => exact ih hs₁ h

end

/-! ## Which reads are linear -/

section
variable {p : Geometry} {ooblen addr len fuel : Nat} {s s' : Cells} {corrected : Bool} {data : List UInt8}

theorem div_writesize : addr / 2 ^ p.pageShift = addr / p.writesize := by rw [p.writesize_eq]

theorem toInt_of_lt (h : len < 2 ^ 31) : toInt len = len := by
  unfold toInt
  split <;> omega

/-- What a read that succeeds has read. -/
theorem spiNandReadStd_data (hset : Settled p.toParams s.chip) (h : p.spiNandReadStd ooblen fuel addr len s = some (some (corrected, data), s')) :
    (∃ n : Nat, n < 2 ^ 31 ∧ toInt len = n ∧ data = pagesBytes p.toParams s.cell (addr / p.writesize) n) ∨
      data.length = p.writesize ∧ 2 ^ 31 ≤ len := by
  rw [Params.spiNandReadStd, div_writesize] at h
  have hpost := onChip_post (f := fun t => t.cell = s.cell) (fun _ _ h => h)
    command_settled s trivial ⟨hset, rfl⟩
  rcases hclaim : (onChip command).exec s with ⟨_ | ⟨⟩, s₁⟩
  · rw [hclaim] at h
    cases h
  · rw [hclaim] at h hpost
    obtain ⟨hset₁, hcell⟩ := hpost.2 () rfl
    dsimp only at h hset₁ hcell
    rcases lt_or_ge (toInt len) 0 with hneg | hpos
    · right
      have hmin : -2 ^ 31 ≤ toInt len := by
        unfold toInt
        split <;> omega
      rw [readDataLoop_negative hset₁ hneg hmin h, List.nil_append, Mem.read_length]
      refine ⟨rfl, Nat.not_lt.mp fun hlt => ?_⟩
      rw [toInt_of_lt hlt] at hneg
      omega
    · left
      obtain ⟨n, hn⟩ := Int.eq_ofNat_of_zero_le hpos
      have hlt : n < 2 ^ 31 := by
        unfold toInt at hn
        split at hn <;> omega
      rw [hn] at h
      exact ⟨n, hlt, hn, by rw [readDataLoop_data hset₁ hlt h, List.nil_append, hcell]⟩

theorem spiNandReadStd_returns (h : len < 2 ^ 31) (s : Cells) :
    ∃ r s', Returns (fun fuel => p.spiNandReadStd ooblen fuel addr len s) (r, s') := by
  simp only [Params.spiNandReadStd, toInt_of_lt h]
  rcases (onChip command).exec s with ⟨_ | ⟨⟩, s₁⟩
  · exact ⟨none, s₁, 0, fun _ _ => rfl⟩
  · obtain ⟨⟨r, s'⟩, hx⟩ := readDataLoop_returns false [] (addr / 2 ^ p.pageShift) s₁ h
    exact ⟨r, s', len + 1, fun fuel hfuel => hx fuel hfuel⟩

/-- An aligned read inside the device. -/
theorem readsLinear_of_inside (halign : addr % p.writesize = 0) (hin : addr + len ≤ p.pages * p.writesize) (hlen : len < 2 ^ 31) :
    ReadsLinear p.toParams ooblen addr len := by
  intro s hset
  obtain ⟨r, s', hr⟩ := spiNandReadStd_returns hlen s
  refine ⟨r, s', hr, ?_⟩
  rintro corrected data rfl
  obtain ⟨bound, hrun⟩ := hr
  rcases spiNandReadStd_data hset (hrun bound le_rfl) with ⟨n, -, hn, rfl⟩ | ⟨-, hge⟩
  · rw [toInt_of_lt hlen] at hn
    obtain rfl := Int.ofNat_inj.mp hn
    refine ⟨by rw [pagesBytes, List.length_map, List.length_range], fun i hi => ?_⟩
    obtain ⟨q, rfl⟩ := Nat.dvd_of_mod_eq_zero halign
    have hpage : (p.writesize * q + i) / p.writesize < p.pages := (Nat.div_lt_iff_lt_mul p.writesize_pos).mpr (by omega)
    refine ⟨hpage, ?_⟩
    rw [Nat.mul_add_div p.writesize_pos] at hpage
    rw [pagesBytes, List.getElem?_map, List.getElem?_range hi, Option.map_some, Nat.mul_div_cancel_left _ p.writesize_pos,
      Nat.mul_add_div p.writesize_pos, Nat.mul_add_mod, Params.page, Nat.mod_eq_of_lt hpage]
  · omega

/-- The bytes at column 0 differ from the other ones. -/
def striped : Cells := ⟨⟨none, 0, [], [], [], []⟩, fun _ column => if column = 0 then 1 else 0, fun _ => 0, (0, []), [], []⟩

theorem ReadsLinear.inside (h : ReadsLinear p.toParams ooblen addr len) (hpos : 0 < len) :
    addr % p.writesize = 0 ∧ addr + len ≤ p.pages * p.writesize ∧ len < 2 ^ 31 := by
  have hset : Settled p.toParams striped.chip := ⟨fun _ h => (by cases h), fun _ => rfl⟩
  obtain ⟨r, s', ⟨bound, hrun⟩, hdata⟩ := h striped hset
  have hok := hrun bound le_rfl
  obtain ⟨⟨corrected, data⟩, rfl⟩ : ∃ x, r = some x := by
    unfold Params.spiNandReadStd at hok
    obtain ⟨a, s₁, hclaim, hs₁⟩ := onChip_total command_total striped ⟨⟨rfl, rfl⟩, rfl⟩
    rw [hclaim] at hok
    exact readDataLoop_total hs₁ hok
  obtain ⟨hlength, hbytes⟩ := hdata corrected data rfl
  have hin : addr + len ≤ p.pages * p.writesize := by
    have hlast := (Nat.div_lt_iff_lt_mul p.writesize_pos).mp (hbytes (len - 1) (by omega)).1
    omega
  have hsize := p.writesize_lt
  rcases spiNandReadStd_data hset hok with ⟨n, hn, hlen, rfl⟩ | ⟨hone, hge⟩
  · rw [pagesBytes, List.length_map, List.length_range] at hlength
    subst hlength
    refine ⟨?_, hin, hn⟩
    obtain ⟨-, hfirst⟩ := hbytes 0 hpos
    rw [pagesBytes, List.getElem?_map, List.getElem?_range hpos, Option.map_some, Nat.zero_mod, Nat.add_zero] at hfirst
    by_contra hne
    simp [striped, hne] at hfirst
  · omega

/-- A read that succeeds returns the bytes of its range just when it is empty, or starts on a page and ends inside the
device. -/
theorem readsLinear_iff : ReadsLinear p.toParams ooblen addr len ↔
    len = 0 ∨ addr % p.writesize = 0 ∧ addr + len ≤ p.pages * p.writesize ∧ len < 2 ^ 31 := by
  rcases Nat.eq_zero_or_pos len with rfl | hpos
  · refine iff_of_true (fun s hset => ?_) (.inl rfl)
    have hret : ∃ r s', Returns (fun fuel => p.spiNandReadStd ooblen fuel addr 0 s) (r, s') := spiNandReadStd_returns (by decide) s
    obtain ⟨r, s', hr⟩ := hret
    refine ⟨r, s', hr, ?_⟩
    rintro corrected data rfl
    obtain ⟨bound, hrun⟩ := hr
    rcases spiNandReadStd_data hset (hrun bound le_rfl) with ⟨n, -, hn, rfl⟩ | ⟨-, hge⟩
    · rw [toInt_of_lt (by decide)] at hn
      obtain rfl := Int.ofNat_inj.mp hn
      exact ⟨rfl, fun i hi => absurd hi (Nat.not_lt_zero i)⟩
    · omega
  · rw [or_iff_right hpos.ne']
    exact ⟨fun h => h.inside hpos, fun ⟨halign, hin, hlen⟩ => readsLinear_of_inside halign hin hlen⟩

end

end Uboot.SpiNand
