import Uboot.SpiNand.Linear

/-!
# Writes as those of a linear flash

A write without OOB bytes programs its pages. OOB bytes of every page go to the page of the start address.
-/

namespace Uboot.SpiNand

open Uboot.Lib Uboot.Lib.Prog Uboot.Nand

/-- A page's data and OOB bytes. -/
def pagePrograms (p : Params) (dest : Nat) (ops : MtdOobOps) (i : Nat) : List Program :=
  ⟨dest / p.writesize + i, 0, ops.datbuf.read (i * p.writesize) p.writesize⟩ ::
    if ops.ooblen = 0 then []
    else [⟨dest / p.writesize + i, p.writesize + ops.ooboffs, ops.oobbuf.read (i * ops.ooblen) ops.ooblen⟩]

/-- A write that succeeds programs every page of the range once, and no other one. -/
def WritesLinear (p : Params) (dest : Nat) (ops : MtdOobOps) : Prop :=
  ∀ s : Cells, Settled p s.chip → ∃ r s', Returns (fun fuel => p.spiNandWrite fuel dest ops s) (r, s') ∧
    (r = some () →
      s'.programs.Perm (s.programs ++ (List.range (ops.len / p.writesize)).flatMap (pagePrograms p dest ops)))

/-! ## Writes -/

section
variable {p : Geometry} {page column n fuel realpage off dest : Nat} {bytes wbuf : List UInt8} {log : List Program}
  {ops : MtdOobOps} {s s' : Cells} {r : Option Unit}

/-- The page is on the active die, and this was programmed so far. -/
def Logged (p : Params) (page : Nat) (log : List Program) (s : Cells) : Prop := OnPage p page s.chip ∧ s.programs = log

theorem onChip_command_logged : Post (Logged p.toParams page log) (onChip command) fun _ => Logged p.toParams page log :=
  onChip_post (fun _ _ h => h) command_onPage

theorem onChip_issue_logged : Post (Logged p.toParams page log) (onChip (issue page)) fun _ => Logged p.toParams page log :=
  onChip_post (fun _ _ h => h) issue_onPage

theorem onChip_select_logged (hpage : page < p.pages) :
    Post (fun s => Settled p.toParams s.chip ∧ s.programs = log) (onChip (p.doDieSelect page))
      fun _ => Logged p.toParams page log :=
  onChip_post (fun _ _ h => h) (doDieSelect_onPage hpage)

theorem programLoad_logged : Post (Logged p.toParams page log) (programLoad column bytes)
    fun _ s => Logged p.toParams page log s ∧ s.loaded = (column, bytes) := by
  refine Triple.seq (q := fun s => Logged p.toParams page log s ∧ s.loaded = (column, bytes)) ?_ ?_
  · exact fun s _ hs => ⟨trivial, fun _ _ => ⟨hs, rfl⟩⟩
  · rintro s - ⟨hs, hload⟩
    exact ⟨trivial, fun _ hok => ⟨(onChip_command_logged s trivial hs).2 _ hok, hload⟩⟩

theorem programExecute_logged : Post (fun s => Logged p.toParams page log s ∧ s.loaded = (column, bytes))
    (p.programExecute page) fun _ => Logged p.toParams page (log ++ [⟨page, column, bytes⟩]) := by
  refine Triple.seq (q := Logged p.toParams page (log ++ [⟨page, column, bytes⟩])) ?_ onChip_issue_logged
  rintro s - ⟨⟨hon, rfl⟩, hload⟩
  refine ⟨trivial, fun _ _ => ⟨hon, ?_⟩⟩
  change s.programs ++ [⟨p.reached s.chip page, s.loaded.1, s.loaded.2⟩] = _
  rw [hon.2, hload]

/-- The last command fails or not: the page was programmed. -/
theorem onChip_command_ignored : Post (Logged p.toParams page log) (onChip command).ignore
    fun _ => Logged p.toParams page log := by
  intro s _ hs
  have hchip : OnPage p.toParams page (command.exec s.chip).2 := by
    rw [command, exec_act]
    split <;> exact hs.1
  exact ⟨trivial, fun _ _ => ⟨hchip, hs.2⟩⟩

theorem writeRound_post (hpage : page < p.pages) :
    Post (fun s => Settled p.toParams s.chip ∧ s.programs = log) (p.writeRound page wbuf)
      fun _ s => Settled p.toParams s.chip ∧ s.programs = log ++ [⟨page, 0, wbuf⟩] := by
  refine (onChip_select_logged hpage).seq (onChip_command_logged.seq ?_)
  refine programLoad_logged.seq (programExecute_logged.seq ?_)
  refine onChip_command_logged.seq (onChip_command_logged.seq ?_)
  exact onChip_command_logged.weaken (fun _ h => h) fun _ s hs => ⟨hs.1.1, hs.2⟩

theorem writeOobPage_post : Post (fun s => Settled p.toParams s.chip ∧ s.programs = log) (p.writeOobPage dest ops)
    fun _ s => Settled p.toParams s.chip ∧
      s.programs = log ++ [⟨p.page (dest / p.writesize), p.writesize, ops.fillOobData⟩] := by
  rw [Params.writeOobPage, div_writesize]
  refine (onChip_select_logged page_lt).seq (onChip_command_logged.seq ?_)
  refine programLoad_logged.seq (programExecute_logged.seq ?_)
  refine onChip_command_ignored.seq ?_
  exact onChip_command_logged.weaken (fun _ h => h) fun _ s hs => ⟨hs.1.1, hs.2⟩

theorem programLoad_total : Total Cells.Quiet (programLoad column bytes) := by
  refine Total.bind (Total.act ?_) fun _ => onChip_total command_total
  exact fun _ h => h

theorem programExecute_total : Total Cells.Quiet (p.programExecute page) := by
  refine Total.bind (Total.act ?_) fun _ => onChip_total issue_total
  exact fun _ h => h

theorem writeRound_total (hpage : page < p.pages) : Total Cells.Quiet (p.writeRound page wbuf) := by
  refine (onChip_total (doDieSelect_total hpage)).bind fun _ => (onChip_total command_total).bind fun _ => ?_
  refine programLoad_total.bind fun _ => programExecute_total.bind fun _ => ?_
  exact (onChip_total command_total).bind fun _ => (onChip_total command_total).bind fun _ => onChip_total command_total

theorem writeOobPage_total : Total Cells.Quiet (p.writeOobPage dest ops) := by
  refine (onChip_total (doDieSelect_total page_lt)).bind fun _ => (onChip_total command_total).bind fun _ => ?_
  refine programLoad_total.bind fun _ => programExecute_total.bind fun _ => ?_
  exact (onChip_total command_total).ignore.bind fun _ => onChip_total command_total

/-! ## The rounds of a write -/

theorem writeRound_result (hset : Settled p.toParams s.chip)
    (h : (p.writeRound (p.page realpage) wbuf).exec s = (some (), s')) :
    Settled p.toParams s'.chip ∧ s'.programs = s.programs ++ [⟨p.page realpage, 0, wbuf⟩] := by
  have hpost := (writeRound_post page_lt s trivial ⟨hset, rfl⟩).2 () (by rw [h])
  rwa [h] at hpost

/-- The length left, which is at least a page. -/
theorem next_eq (hlt : (n + 1) * p.writesize < 2 ^ 32) :
    ((n + 1) * p.writesize + 2 ^ 32 - p.writesize) % 2 ^ 32 = n * p.writesize := by
  rw [Nat.succ_mul] at hlt ⊢
  omega

theorem writeDataLoop_returns (realpage off : Nat) (s : Cells) (hlt : (n + 1) * p.writesize < 2 ^ 32) :
    ∃ x, ∀ fuel, n + 1 ≤ fuel → p.writeDataLoop dest ops fuel realpage ((n + 1) * p.writesize) off s = some x := by
  have hpos := p.writesize_pos
  induction n generalizing realpage off s with
  | zero =>
      rcases hround : (p.writeRound (p.page realpage) (ops.datbuf.read off p.writesize)).exec s with ⟨_ | ⟨⟩, s₁⟩
      · refine ⟨(none, s₁), fun fuel hfuel => ?_⟩
        obtain ⟨f, rfl⟩ := Nat.exists_eq_add_of_le' hfuel
        rw [Params.writeDataLoop, hround]
      · refine ⟨(if ops.ooblen = 0 then pure () else p.writeOobPage dest ops : DataDriver Unit).exec s₁, fun fuel hfuel => ?_⟩
        obtain ⟨f, rfl⟩ := Nat.exists_eq_add_of_le' hfuel
        rw [Params.writeDataLoop, hround]
        dsimp only
        rw [next_eq hlt, if_pos (Nat.zero_mul _)]
  | succ n ih =>
      have hlt' : (n + 1) * p.writesize < 2 ^ 32 := by
        rw [Nat.succ_mul] at hlt
        omega
      rcases hround : (p.writeRound (p.page realpage) (ops.datbuf.read off p.writesize)).exec s with ⟨_ | ⟨⟩, s₁⟩
      · refine ⟨(none, s₁), fun fuel hfuel => ?_⟩
        obtain ⟨f, rfl⟩ := Nat.exists_eq_add_of_le' (Nat.le_of_add_left_le hfuel)
        rw [Params.writeDataLoop, hround]
      · obtain ⟨x, hx⟩ := ih (realpage + 1) (off + p.writesize)
          ((if ops.ooblen = 0 then pure () else p.writeOobPage dest ops : DataDriver Unit).exec s₁).2 hlt'
        refine ⟨x, fun fuel hfuel => ?_⟩
        obtain ⟨f, rfl⟩ := Nat.exists_eq_add_of_le' (Nat.le_of_add_left_le hfuel)
        rw [Params.writeDataLoop, hround]
        dsimp only
        rw [next_eq hlt, if_neg (Nat.mul_pos n.succ_pos hpos).ne']
        exact hx f (by omega)

/-- Without OOB bytes every round programs a page. -/
theorem writeDataLoop_programs (hoob : ops.ooblen = 0) (hset : Settled p.toParams s.chip) (hlt : (n + 1) * p.writesize < 2 ^ 32)
    (h : p.writeDataLoop dest ops fuel realpage ((n + 1) * p.writesize) off s = some (some (), s')) :
    s'.programs = s.programs ++ (List.range (n + 1)).map fun k =>
      ⟨p.page (realpage + k), 0, ops.datbuf.read (off + k * p.writesize) p.writesize⟩ := by
  have hpos := p.writesize_pos
  induction n generalizing fuel realpage off s with
  | zero =>
      cases fuel with
      | zero => cases h
      | succ fuel =>
          rcases hround : (p.writeRound (p.page realpage) (ops.datbuf.read off p.writesize)).exec s with ⟨_ | ⟨⟩, s₁⟩
          · rw [Params.writeDataLoop, hround] at h
            cases h
          · rw [Params.writeDataLoop, hround] at h
            dsimp only at h
            rw [next_eq hlt, if_pos (Nat.zero_mul _), if_pos hoob] at h
            obtain ⟨-, rfl⟩ := Prod.mk.inj (Option.some.inj h)
            change s₁.programs = _
            rw [(writeRound_result hset hround).2, List.range_one, List.map_singleton, Nat.zero_mul,
              Nat.add_zero, Nat.add_zero]
  | succ n ih =>
      have hlt' : (n + 1) * p.writesize < 2 ^ 32 := by
        rw [Nat.succ_mul] at hlt
        omega
      cases fuel with
      | zero => cases h
      | succ fuel =>
          rcases hround : (p.writeRound (p.page realpage) (ops.datbuf.read off p.writesize)).exec s with ⟨_ | ⟨⟩, s₁⟩
          · rw [Params.writeDataLoop, hround] at h
            cases h
          · rw [Params.writeDataLoop, hround] at h
            dsimp only at h
            rw [next_eq hlt, if_neg (Nat.mul_pos n.succ_pos hpos).ne', if_pos hoob] at h
            obtain ⟨hset', hlog⟩ := writeRound_result hset hround
            rw [ih hset' hlt' h, hlog, List.append_assoc, List.range_succ_eq_map (n := n + 1), List.map_cons,
              List.map_map, List.singleton_append, Nat.zero_mul, Nat.add_zero, Nat.add_zero]
            refine congrArg (fun l => s.programs ++ _ :: l) (List.map_congr_left fun k _ => ?_)
            rw [Function.comp_apply, Nat.succ_mul, Nat.succ_eq_add_one, Nat.add_assoc realpage, Nat.add_comm 1, Nat.add_assoc off,
              Nat.add_comm p.writesize]

/-- One page with OOB bytes. -/
theorem writeDataLoop_page (hoob : ops.ooblen ≠ 0) (hset : Settled p.toParams s.chip) (hlt : (0 + 1) * p.writesize < 2 ^ 32)
    (h : p.writeDataLoop dest ops fuel realpage ((0 + 1) * p.writesize) off s = some (some (), s')) :
    s'.programs = s.programs ++ [⟨p.page realpage, 0, ops.datbuf.read off p.writesize⟩,
      ⟨p.page (dest / p.writesize), p.writesize, ops.fillOobData⟩] := by
  cases fuel with
  | zero => cases h
  | succ fuel =>
      rcases hround : (p.writeRound (p.page realpage) (ops.datbuf.read off p.writesize)).exec s with ⟨_ | ⟨⟩, s₁⟩
      · rw [Params.writeDataLoop, hround] at h
        cases h
      · rw [Params.writeDataLoop, hround] at h
        dsimp only at h
        rw [next_eq hlt, if_pos (Nat.zero_mul _), if_neg hoob] at h
        obtain ⟨hok, rfl⟩ := Prod.mk.inj (Option.some.inj h)
        obtain ⟨hset', hlog⟩ := writeRound_result hset hround
        rw [((writeOobPage_post s₁ trivial ⟨hset', rfl⟩).2 () hok).2, hlog, List.append_assoc, List.cons_append, List.nil_append]

/-- Data goes to column 0, and OOB bytes behind the data of the first page. -/
def Placed (p : Params) (dest : Nat) (e : Program) : Prop :=
  e.page < p.pages ∧ (e.column = 0 ∨ e.column = p.writesize ∧ e.page = p.page (dest / p.writesize))

/-- Whatever the length, something is programmed, and nowhere else. -/
theorem writeDataLoop_placed {writeLen : Nat} (hs : s.Quiet) (hset : Settled p.toParams s.chip)
    (h : p.writeDataLoop dest ops fuel realpage writeLen off s = some (r, s')) :
    r = some () ∧ ∃ new, s'.programs = s.programs ++ new ∧ new ≠ [] ∧ ∀ e ∈ new, Placed p.toParams dest e := by
  induction fuel generalizing realpage writeLen off s with
  | zero => cases h
  | succ fuel ih =>
      have hpage : p.page realpage < p.pages := page_lt
      obtain ⟨⟨⟩, s₁, hround, hs₁⟩ := writeRound_total hpage s hs
      obtain ⟨hset₁, hlog₁⟩ := writeRound_result hset hround
      rw [Params.writeDataLoop, hround] at h
      dsimp only at h
      -- the OOB bytes of this round
      obtain ⟨s₂, hoob, hs₂, hset₂, oob, hlog₂, hplaced⟩ : ∃ s₂,
          (if ops.ooblen = 0 then pure () else p.writeOobPage dest ops : DataDriver Unit).exec s₁ = (some (), s₂) ∧
          s₂.Quiet ∧ Settled p.toParams s₂.chip ∧
          ∃ new, s₂.programs = s₁.programs ++ new ∧ ∀ e ∈ new, Placed p.toParams dest e := by
        split
        next => exact ⟨s₁, rfl, hs₁, hset₁, [], (List.append_nil _).symm, fun e he => absurd he List.not_mem_nil⟩
        next =>
          obtain ⟨⟨⟩, s₂, hoob, hs₂⟩ := writeOobPage_total (p := p) s₁ hs₁
          have hpost := (writeOobPage_post s₁ trivial ⟨hset₁, rfl⟩).2 () (by rw [hoob])
          rw [hoob] at hpost
          refine ⟨s₂, hoob, hs₂, hpost.1, _, hpost.2, fun e he => ?_⟩
          cases List.mem_singleton.mp he
          exact ⟨page_lt, .inr ⟨rfl, rfl⟩⟩
      have hnew : s₂.programs = s.programs ++ (⟨p.page realpage, 0, ops.datbuf.read off p.writesize⟩ :: oob) := by
        rw [hlog₂, hlog₁, List.append_assoc, List.singleton_append]
      have hall : ∀ e ∈ (⟨p.page realpage, 0, ops.datbuf.read off p.writesize⟩ :: oob : List Program), Placed p.toParams dest e :=
        List.forall_mem_cons.mpr ⟨⟨page_lt, .inl rfl⟩, hplaced⟩
      rw [hoob] at h
      dsimp only at h
      split at h
      next =>
        obtain ⟨rfl, rfl⟩ := Prod.mk.inj (Option.some.inj h)
        exact ⟨rfl, _, hnew, List.cons_ne_nil _ _, hall⟩
      next =>
        obtain ⟨hok, rest, hrest, -, hplaced'⟩ := ih hs₂ hset₂ h
        refine ⟨hok, _, by rw [hrest, hnew, List.append_assoc], by simp, fun e he => ?_⟩
        rcases List.mem_append.mp he with he | he
        · exact hall e he
        · exact hplaced' e he

end

/-! ## Which writes are linear -/

section
variable {p : Geometry} {dest fuel : Nat} {ops : MtdOobOps} {s s' : Cells}

theorem spiNandWrite_refused (halign : dest % p.writesize = 0) (hlen : ops.len % p.writesize = 0)
    (h : (onChip command).exec s = (none, s')) : p.spiNandWrite fuel dest ops s = some (none, s') := by
  rw [Params.spiNandWrite, if_neg (by simp [halign, hlen]), h]

theorem spiNandWrite_claimed (halign : dest % p.writesize = 0) (hlen : ops.len % p.writesize = 0)
    (h : (onChip command).exec s = (some (), s')) :
    p.spiNandWrite fuel dest ops s = p.writeDataLoop dest ops fuel (dest / p.writesize) ops.len 0 s' := by
  rw [Params.spiNandWrite, if_neg (by simp [halign, hlen]), h, ← div_writesize]

theorem onChip_command_log (hset : Settled p.toParams s.chip) (h : (onChip command).exec s = (some (), s')) :
    Settled p.toParams s'.chip ∧ s'.programs = s.programs := by
  have hpost := (onChip_post (f := fun t => t.programs = s.programs) (fun _ _ h => h)
    command_settled s trivial ⟨hset, rfl⟩).2 () (by rw [h])
  rwa [h] at hpost

/-- The programs of pages inside the device. -/
theorem pagePrograms_inside {q n : Nat} (hdest : dest = p.writesize * q) (hin : q + n ≤ p.pages) (hoob : ops.ooblen = 0) :
    ((List.range n).map fun k => (⟨p.page (q + k), 0, ops.datbuf.read (0 + k * p.writesize) p.writesize⟩ : Program)) =
      (List.range n).flatMap (pagePrograms p.toParams dest ops) := by
  rw [List.map_eq_flatMap]
  refine List.flatMap_congr fun k hk => ?_
  have hlt : q + k < p.pages := by have := List.mem_range.mp hk; omega
  rw [pagePrograms, if_pos hoob, hdest, Nat.mul_div_cancel_left _ p.writesize_pos, Params.page, Nat.mod_eq_of_lt hlt, Nat.zero_add]

theorem writesLinear_of_inside (halign : dest % p.writesize = 0) (hlen : ops.len % p.writesize = 0) (hpos : 0 < ops.len)
    (hin : dest + ops.len ≤ p.pages * p.writesize) (hoob : ops.ooblen = 0 ∨ ops.len = p.writesize ∧ ops.ooboffs = 0) :
    WritesLinear p.toParams dest ops := by
  intro s hset
  have hwpos := p.writesize_pos
  obtain ⟨q, hq⟩ := Nat.dvd_of_mod_eq_zero halign
  obtain ⟨m, hm⟩ := Nat.dvd_of_mod_eq_zero hlen
  obtain ⟨n, rfl⟩ : ∃ n, m = n + 1 := Nat.exists_eq_succ_of_ne_zero (by rintro rfl; omega)
  have hlen' : ops.len = (n + 1) * p.writesize := by rw [hm, Nat.mul_comm]
  have hlt : (n + 1) * p.writesize < 2 ^ 32 := hlen' ▸ ops.len_lt
  have hpages : q + (n + 1) ≤ p.pages := by
    rw [hq, hm, ← Nat.mul_add, Nat.mul_comm] at hin
    exact Nat.le_of_mul_le_mul_right hin hwpos
  have hquot : dest / p.writesize = q := by rw [hq, Nat.mul_div_cancel_left _ hwpos]
  rcases hclaim : (onChip command).exec s with ⟨_ | ⟨⟩, s₁⟩
  · exact ⟨none, s₁, ⟨0, fun _ _ => spiNandWrite_refused halign hlen hclaim⟩, fun h => by cases h⟩
  · obtain ⟨hset₁, hlog⟩ := onChip_command_log hset hclaim
    have hret : ∃ x, ∀ fuel, n + 1 ≤ fuel → p.writeDataLoop dest ops fuel q ((n + 1) * p.writesize) 0 s₁ = some x :=
      writeDataLoop_returns q 0 s₁ hlt
    obtain ⟨⟨r, s'⟩, hx⟩ := hret
    refine ⟨r, s', ⟨n + 1, fun fuel hfuel => ?_⟩, ?_⟩
    · dsimp only
      rw [spiNandWrite_claimed halign hlen hclaim, hquot, hlen']
      exact hx fuel hfuel
    · rintro rfl
      have hrun := hx (n + 1) le_rfl
      rw [hlen', Nat.mul_div_cancel _ hwpos, ← hlog]
      refine List.Perm.of_eq ?_
      by_cases hzero : ops.ooblen = 0
      · rw [writeDataLoop_programs hzero hset₁ hlt hrun, pagePrograms_inside hq hpages hzero]
      · obtain ⟨hone, hoffs⟩ := hoob.resolve_left hzero
        obtain rfl : n = 0 := by
          rw [hlen'] at hone
          have := Nat.eq_of_mul_eq_mul_right hwpos (hone.trans (Nat.one_mul _).symm)
          omega
        have hlt' : q < p.pages := by omega
        rw [writeDataLoop_page hzero hset₁ hlt hrun, hquot, List.range_one, List.flatMap_singleton, pagePrograms, if_neg hzero,
          hquot, Params.page, Nat.mod_eq_of_lt hlt', MtdOobOps.fillOobData, hoffs, List.replicate_zero, List.nil_append,
          List.take_of_length_le (Mem.read_length).le, Nat.zero_mul, Nat.zero_mul, Nat.add_zero, Nat.add_zero]

theorem WritesLinear.inside (h : WritesLinear p.toParams dest ops) (halign : dest % p.writesize = 0)
    (hlen : ops.len % p.writesize = 0) : 0 < ops.len ∧ dest + ops.len ≤ p.pages * p.writesize ∧
      (ops.ooblen = 0 ∨ ops.len = p.writesize ∧ ops.ooboffs = 0) := by
  have hwpos := p.writesize_pos
  have hset : Settled p.toParams striped.chip := ⟨fun _ h => (by cases h), fun _ => rfl⟩
  obtain ⟨r, s', ⟨bound, hrun⟩, hperm⟩ := h striped hset
  have hok := hrun bound le_rfl
  obtain ⟨⟨⟩, s₁, hclaim, hs₁⟩ := onChip_total command_total striped ⟨⟨rfl, rfl⟩, rfl⟩
  obtain ⟨hset₁, hlog⟩ := onChip_command_log hset hclaim
  dsimp only at hok
  rw [spiNandWrite_claimed halign hlen hclaim] at hok
  obtain ⟨rfl, new, hnew, hne, hplaced⟩ := writeDataLoop_placed hs₁ hset₁ hok
  have hperm := hperm rfl
  rw [hnew, hlog] at hperm
  have hperm : new.Perm ((List.range (ops.len / p.writesize)).flatMap (pagePrograms p.toParams dest ops)) := hperm
  -- every program that is asked for was made
  have hmade : ∀ i < ops.len / p.writesize, ∀ e ∈ pagePrograms p.toParams dest ops i, Placed p.toParams dest e :=
    fun i hi e he => hplaced e (hperm.mem_iff.mpr (List.mem_flatMap.mpr ⟨i, List.mem_range.mpr hi, he⟩))
  have hpage : ∀ i < ops.len / p.writesize, dest / p.writesize + i < p.pages :=
    fun i hi => (hmade i hi _ List.mem_cons_self).1
  obtain ⟨q, hq⟩ := Nat.dvd_of_mod_eq_zero halign
  obtain ⟨n, hn⟩ := Nat.dvd_of_mod_eq_zero hlen
  have hquot : dest / p.writesize = q := by rw [hq, Nat.mul_div_cancel_left _ hwpos]
  have hcount : ops.len / p.writesize = n := by rw [hn, Nat.mul_div_cancel_left _ hwpos]
  rw [hquot, hcount] at hpage
  have hnpos : 0 < n := by
    refine Nat.pos_of_ne_zero fun hzero => hne ?_
    rw [hcount, hzero] at hperm
    exact hperm.eq_nil
  refine ⟨hn ▸ Nat.mul_pos hwpos hnpos, ?_, ?_⟩
  · have hlast := hpage (n - 1) (by omega)
    rw [hq, hn, ← Nat.mul_add, Nat.mul_comm]
    exact Nat.mul_le_mul_right _ (by omega)
  · by_cases hoob : ops.ooblen = 0
    · exact .inl hoob
    · refine .inr ?_
      have hentry : ∀ i < n, q + i = q ∧ ops.ooboffs = 0 := by
        intro i hi
        have hmem : (⟨q + i, p.writesize + ops.ooboffs, ops.oobbuf.read (i * ops.ooblen) ops.ooblen⟩ : Program) ∈
            pagePrograms p.toParams dest ops i := by
          rw [pagePrograms, if_neg hoob, hquot]
          simp
        have hlt : q < p.pages := hpage 0 hnpos
        rcases (hmade i (by omega) _ hmem).2 with hcol | ⟨hcol, hrow⟩
        · dsimp only at hcol
          omega
        · dsimp only at hcol hrow
          rw [hquot, Params.page, Nat.mod_eq_of_lt hlt] at hrow
          exact ⟨hrow, by omega⟩
      have hone : n = 1 := by
        by_contra hmany
        have := (hentry 1 (by omega)).1
        omega
      exact ⟨by rw [hn, hone, Nat.mul_one], (hentry 0 hnpos).2⟩

/-- A write that succeeds programs its pages and their OOB bytes just when it is refused, or is not empty, ends inside the
device, and has OOB bytes for one page at most. -/
theorem writesLinear_iff : WritesLinear p.toParams dest ops ↔
    (dest % p.writesize ≠ 0 ∨ ops.len % p.writesize ≠ 0) ∨
      0 < ops.len ∧ dest + ops.len ≤ p.pages * p.writesize ∧
        (ops.ooblen = 0 ∨ ops.len = p.writesize ∧ ops.ooboffs = 0) := by
  by_cases hbad : dest % p.writesize ≠ 0 ∨ ops.len % p.writesize ≠ 0
  · refine iff_of_true (fun s _ => ⟨none, s, ⟨0, fun _ _ => if_pos hbad⟩, fun h => by cases h⟩) (.inl hbad)
  · rw [or_iff_right hbad]
    rw [not_or, not_not, not_not] at hbad
    exact ⟨fun h => h.inside hbad.1 hbad.2, fun ⟨hpos, hin, hoob⟩ => writesLinear_of_inside hbad.1 hbad.2 hpos hin hoob⟩

end

/-- The data path for all addresses and lengths, with or without OOB bytes. -/
theorem data_path_linear_iff (p : Geometry) :
    (∀ ooblen addr len, ReadsLinear p.toParams ooblen addr len ↔
      len = 0 ∨ addr % p.writesize = 0 ∧ addr + len ≤ p.pages * p.writesize ∧ len < 2 ^ 31) ∧
    ∀ dest ops, WritesLinear p.toParams dest ops ↔
      (dest % p.writesize ≠ 0 ∨ ops.len % p.writesize ≠ 0) ∨
        0 < ops.len ∧ dest + ops.len ≤ p.pages * p.writesize ∧
          (ops.ooblen = 0 ∨ ops.len = p.writesize ∧ ops.ooboffs = 0) :=
  ⟨fun _ _ _ => readsLinear_iff, fun _ _ => writesLinear_iff⟩

/-- The geometry of W25M02GV -/
def w25m02gvGeometry : Geometry where
  toParams := w25m02gv
  writesize_eq := by decide
  writesize_lt := by decide
  single := fun h => absurd h (by decide)

/-- Two pages of zeros with two OOB bytes for each. -/
def twoPages : MtdOobOps where
  len := 4096
  datbuf := fun _ => 0
  ooblen := 2
  ooboffs := 0
  oobbuf := fun _ => 0
  len_lt := by decide

/-- A read in the middle of a page returns the bytes from its start, and the OOB bytes of the second page go to the first one. -/
theorem data_path_not_linear : ¬ReadsLinear w25m02gvGeometry.toParams 0 1 1 ∧ ¬WritesLinear w25m02gvGeometry.toParams 0 twoPages := by
  refine ⟨fun h => ?_, fun h => ?_⟩
  · exact absurd (h.inside (p := w25m02gvGeometry) (by decide)).1 (by decide)
  · exact absurd (h.inside (p := w25m02gvGeometry) (by decide) (by decide)).2.2 (by decide)

end Uboot.SpiNand
