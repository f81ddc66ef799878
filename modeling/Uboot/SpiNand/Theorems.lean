import Uboot.SpiNand.Basic

/-!
# The active die

The cached die is the active one as long as no die select fails after the chip has switched. Then every page command
acts on the die of its page.
-/

namespace Uboot.SpiNand

open Uboot.Lib Uboot.Lib.Prog

/-- The cached die is active, only dies of the chip were selected, and every page command went to its die. -/
structure Coherent (p : Params) (c : Chip) : Prop where
  cached : ∀ die, c.prevDieId = some die → c.active = die
  selected : ∀ die ∈ c.selected, die < p.noOfDies
  issued : ∀ x ∈ c.issued, x.2 = x.1 / p.pagesPerDie ∧ x.1 < p.pages

/-- Coherent, and no die select will fail after the chip has switched. -/
structure Inv (p : Params) (c : Chip) : Prop where
  coherent : Coherent p c
  honest : ∀ o ∈ c.selects, o ≠ .late

/-- The die of the page is active. -/
def OnDie (p : Params) (page : Nat) (c : Chip) : Prop := c.active = page / p.pagesPerDie ∧ page < p.pages

/-- The page is not the first one behind the last die, or one of the pages that follow it. -/
def Params.Valid (p : Params) (page : Nat) : Prop := page / p.pagesPerDie ≠ p.noOfDies

section
variable {p : Params} {pre : Chip → Prop} {page die : Nat}

theorem pagesPerDie_pos (p : Params) : 0 < p.pagesPerDie := Nat.pos_of_mul_pos_left p.pages_pos

theorem page_valid (p : Params) (realpage : Nat) : p.Valid (p.page realpage) := by
  have hlt : p.page realpage < p.noOfDies * p.pagesPerDie := Nat.mod_lt _ p.pages_pos
  have hdiv := (Nat.div_lt_iff_lt_mul (pagesPerDie_pos p)).mpr hlt
  exact Nat.ne_of_lt hdiv

/-- A command keeps whatever does not depend on the outcomes. -/
theorem command_keeps (hpre : ∀ c rest, pre c → pre { c with outcomes := rest }) :
    Triple (Inv p) pre command fun _ => pre := by
  intro c hi hp
  rw [command, exec_act]
  split
  next => exact ⟨hi, fun _ _ => hp⟩
  next ok rest hc =>
    refine ⟨⟨⟨hi.coherent.cached, hi.coherent.selected, hi.coherent.issued⟩, hi.honest⟩, fun _ _ => hpre c rest hp⟩

theorem command_any : Triple (Inv p) (fun _ => True) command fun _ _ => True := command_keeps fun _ _ h => h

theorem command_onDie : Triple (Inv p) (OnDie p page) command fun _ => OnDie p page :=
  command_keeps fun _ _ h => h

theorem issue_onDie : Triple (Inv p) (OnDie p page) (issue page) fun _ => OnDie p page := by
  refine Triple.seq (q := OnDie p page) ?_ command_onDie
  intro c hi hp
  refine ⟨⟨⟨hi.coherent.cached, hi.coherent.selected, ?_⟩, hi.honest⟩, fun _ _ => hp⟩
  intro x hx
  rcases List.mem_append.mp hx with hx | hx
  · exact hi.coherent.issued x hx
  · cases List.mem_singleton.mp hx
    exact hp

/-- A select that is not cached sets the cache to what is active. -/
theorem selectDie_active (hdie : die < p.noOfDies) :
    Triple (Inv p) pre (selectDie die) fun _ c => c.active = die := by
  intro c hi _
  have hsel : ∀ d ∈ c.selected ++ [die], d < p.noOfDies := by
    intro d hd
    rcases List.mem_append.mp hd with hd | hd
    · exact hi.coherent.selected d hd
    · cases List.mem_singleton.mp hd
      exact hdie
  have htail : ∀ o ∈ c.selects.tail, o ≠ .late := fun o ho => hi.honest o (List.mem_of_mem_tail ho)
  rw [selectDie, exec_act]
  dsimp only
  split
  next => exact ⟨⟨⟨hi.coherent.cached, hsel, hi.coherent.issued⟩, htail⟩, fun _ ha => by cases ha⟩
  next hlate => exact absurd rfl (hi.honest .late (List.mem_of_mem_head? hlate))
  next =>
    refine ⟨⟨⟨?_, hsel, hi.coherent.issued⟩, htail⟩, fun _ _ => rfl⟩
    intro d hd
    exact Option.some.inj hd

theorem spiNandDieSelect_active (hdie : die < p.noOfDies) :
    Triple (Inv p) pre (Params.spiNandDieSelect (some die)) fun _ c => c.active = die := by
  refine Triple.bind (q := fun prev c => c.prevDieId = prev ∧ (Inv p) c) ?_ fun prev => ?_
  · intro c hi _
    refine ⟨hi, ?_⟩
    intro prev hprev
    cases hprev
    exact ⟨rfl, hi⟩
  · refine Triple.ite (fun hc => ?_) fun _ => selectDie_active hdie
    refine Triple.pure () ?_
    rintro c hi ⟨hprev, -⟩
    exact hi.coherent.cached die (hprev.trans hc)

theorem doDieSelect_onDie (hsel : p.dieSelect = true) (hvalid : p.Valid page) :
    Triple (Inv p) pre (p.doDieSelect page) fun _ => OnDie p page := by
  rw [Params.doDieSelect, hsel, if_pos rfl]
  unfold Params.getDieId
  dsimp only
  split
  next => exact Triple.fail
  next hle =>
    have hdie : page / p.pagesPerDie < p.noOfDies := Nat.lt_of_le_of_ne (Nat.le_of_not_lt hle) hvalid
    refine (spiNandDieSelect_active hdie).weaken (fun _ h => h) ?_
    intro _ c hc
    exact ⟨hc, (Nat.div_lt_iff_lt_mul (pagesPerDie_pos p)).mp hdie⟩

/-! ## The calls -/

/-- A call keeps the invariant. -/
abbrev Keeps (p : Params) {α : Type} (m : Driver α) : Prop := Triple (Inv p) (fun _ => True) m fun _ _ => True

theorem command_done : Triple (Inv p) (OnDie p page) command fun _ _ => True :=
  command_any.weaken (fun _ _ => trivial) fun _ _ h => h

theorem ifPresent_keeps {len : Nat} {m : Driver Unit} (h : Keeps p m) : Keeps p (ifPresent len m) :=
  Triple.ite (fun _ => Triple.pure () fun _ _ _ => trivial) fun _ => h

theorem erase_keeps (hsel : p.dieSelect = true) {addr : Nat} (hvalid : p.Valid (addr / 2 ^ p.pageShift % 2 ^ 32)) :
    Keeps p (p.erase addr) := by
  refine Triple.ite (fun _ => Triple.fail) fun _ => ?_
  refine command_any.seq ((doDieSelect_onDie hsel hvalid).seq ?_)
  refine command_onDie.seq (command_onDie.seq (issue_onDie.seq (command_onDie.seq (command_done.seq ?_))))
  exact command_any.ignore.seq command_any

theorem blockIsbad_keeps (hsel : p.dieSelect = true) (offs : Nat) : Keeps p (p.blockIsbad offs) := by
  refine command_any.seq ((doDieSelect_onDie hsel (page_valid p _)).seq ?_)
  refine issue_onDie.seq (command_onDie.seq (command_done.seq ?_))
  intro c hi _
  exact ⟨⟨⟨hi.coherent.cached, hi.coherent.selected, hi.coherent.issued⟩, hi.honest⟩, fun _ _ => trivial⟩

theorem writeOobData_keeps (hsel : p.dieSelect = true) (dest : Nat) : Keeps p (p.writeOobData dest) := by
  refine (doDieSelect_onDie hsel (page_valid p _)).seq ?_
  refine command_onDie.seq (command_onDie.seq (issue_onDie.seq ?_))
  exact (command_done.ignore).seq command_any

theorem blockMarkbad_keeps (hsel : p.dieSelect = true) {offs : Nat}
    (hvalid : p.Valid (offs / 2 ^ p.pageShift % 2 ^ 32)) : Keeps p (p.blockMarkbad offs) := by
  refine (blockIsbad_keeps hsel offs).bind fun bad => Triple.ite (fun _ => ?_) fun _ => ?_
  · exact Triple.pure () fun _ _ _ => trivial
  · exact (erase_keeps hsel hvalid).ignore.seq (command_any.seq (writeOobData_keeps hsel offs))

theorem readLoop_keeps (hsel : p.dieSelect = true) (ooblen fuel realpage readlen : Nat) :
    Keeps p (p.readLoop ooblen fuel realpage readlen) := by
  induction fuel generalizing realpage readlen with
  | zero => exact Triple.pure () fun _ _ _ => trivial
  | succ fuel ih =>
      refine (doDieSelect_onDie hsel (page_valid p realpage)).seq (issue_onDie.seq (command_onDie.seq ?_))
      refine command_done.seq ?_
      refine (ifPresent_keeps command_any).seq ((ifPresent_keeps command_any).seq ?_)
      exact Triple.ite (fun _ => Triple.pure () fun _ _ _ => trivial) fun _ => ih _ _

theorem writeLoop_keeps (hsel : p.dieSelect = true) (dest ooblen fuel realpage writeLen : Nat) :
    Keeps p (p.writeLoop dest ooblen fuel realpage writeLen) := by
  induction fuel generalizing realpage writeLen with
  | zero => exact Triple.pure () fun _ _ _ => trivial
  | succ fuel ih =>
      refine (doDieSelect_onDie hsel (page_valid p realpage)).seq (command_onDie.seq (command_onDie.seq ?_))
      refine issue_onDie.seq (command_onDie.seq (command_onDie.seq (command_done.seq ?_)))
      refine Triple.ite (fun _ => ?_) fun _ => ?_
      · exact ifPresent_keeps (writeOobData_keeps hsel dest)
      · exact (ifPresent_keeps (writeOobData_keeps hsel dest).ignore).seq (ih _ _)

theorem readStd_keeps (hsel : p.dieSelect = true) (addr len ooblen : Nat) : Keeps p (p.readStd addr len ooblen) :=
  command_any.seq (readLoop_keeps hsel _ _ _ _)

theorem writeStd_keeps (hsel : p.dieSelect = true) (dest len ooblen : Nat) : Keeps p (p.writeStd dest len ooblen) :=
  Triple.ite (fun _ => Triple.fail) fun _ => command_any.seq (writeLoop_keeps hsel _ _ _ _ _)

theorem eccLoop_keeps (n i : Nat) (h : i + n ≤ p.noOfDies) : Keeps p (p.eccLoop n i) := by
  induction n generalizing i with
  | zero => exact Triple.pure () fun _ _ _ => trivial
  | succ n ih =>
      apply Triple.seq
      · refine Triple.ite (fun _ => ?_) fun _ => Triple.pure () fun _ _ _ => trivial
        exact (spiNandDieSelect_active (by omega)).weaken (fun _ h => h) fun _ _ _ => trivial
      · exact command_any.seq (command_any.seq (ih (i + 1) (by omega)))

theorem internalEcc_keeps : Keeps p p.internalEcc := command_any.seq (eccLoop_keeps _ 0 (by omega))

end

/-- The page of an erase is a page of the chip, or so far behind it that it is refused. -/
def Call.Sound (p : Params) : Call → Prop
  | .erase addr | .blockMarkbad addr => p.Valid (addr / 2 ^ p.pageShift % 2 ^ 32)
  | _ => True

theorem Call.keeps {p : Params} (hsel : p.dieSelect = true) {call : Call} (h : call.Sound p) : Keeps p (call.run p) := by
  cases call with
  | read addr len => exact readStd_keeps hsel _ _ _
  | readOob addr len ooblen =>
      exact internalEcc_keeps.ignore.seq ((readStd_keeps hsel _ _ _).followed internalEcc_keeps)
  | write dest len => exact writeStd_keeps hsel _ _ _
  | writeOob dest len ooblen =>
      exact internalEcc_keeps.ignore.seq ((writeStd_keeps hsel _ _ _).followed internalEcc_keeps)
  | erase addr => exact erase_keeps hsel h
  | blockIsbad offs => exact (blockIsbad_keeps hsel offs).bind fun _ => Triple.pure () fun _ _ _ => trivial
  | blockMarkbad offs => exact blockMarkbad_keeps hsel h

theorem Inv.runCalls {p : Params} (hsel : p.dieSelect = true) {c : Chip} (h : Inv p c) {calls : List Call}
    (hcalls : ∀ call ∈ calls, call.Sound p) : Inv p (runCalls p c calls) := by
  induction calls generalizing c with
  | nil => exact h
  | cons call calls ih =>
      have hcall := Call.keeps hsel (hcalls call List.mem_cons_self)
      exact ih (hcall c h trivial).1 fun x hx => hcalls x (List.mem_cons_of_mem _ hx)

/-- The driver before its first call. -/
def Chip.Fresh (c : Chip) : Prop := c.prevDieId = none ∧ c.issued = [] ∧ c.selected = []

/-- After any calls, with any failures but those of a die select that has switched the chip. -/
theorem die_selection_coherent (p : Params) (hsel : p.dieSelect = true) (c : Chip) (hfresh : c.Fresh)
    (hselects : ∀ o ∈ c.selects, o ≠ .late) (calls : List Call) (hcalls : ∀ call ∈ calls, call.Sound p) :
    Coherent p (runCalls p c calls) := by
  obtain ⟨hprev, hissued, hselected⟩ := hfresh
  have hinit : Inv p c := by
    refine ⟨⟨?_, ?_, ?_⟩, hselects⟩
    · intro die hdie
      rw [hprev] at hdie
      cases hdie
    · rw [hselected]
      intro die hdie
      cases hdie
    · rw [hissued]
      intro x hx
      cases hx
  exact (hinit.runCalls hsel hcalls).coherent

/-- W25M02GV -/
def w25m02gv : Params where
  noOfDies := 2
  pagesPerDie := 0x10000
  pageShift := 11
  eraseShift := 17
  writesize := 2048
  dieSelect := true
  pages_pos := by decide
  pages_pow := ⟨17, by decide⟩
  writesize_pos := by decide

/-- Before the first call, with these outcomes of the die selects. -/
def freshChip (selects : List SelectOutcome) : Chip := ⟨none, 0, [], [], selects, []⟩

theorem die_selection_coherent_sample :
    Coherent w25m02gv (runCalls w25m02gv (freshChip [.done, .lost]) [.erase 0, .blockIsbad 0x8000000, .erase 0]) :=
  die_selection_coherent w25m02gv rfl _ ⟨rfl, rfl, rfl⟩ (by decide) _ (by
    intro call hcall
    simp only [List.mem_cons, List.not_mem_nil, or_false] at hcall
    rcases hcall with rfl | rfl | rfl
    · exact (by decide : 0 / 2 ^ 11 % 2 ^ 32 / 0x10000 ≠ 2)
    · trivial
    · exact (by decide : 0 / 2 ^ 11 % 2 ^ 32 / 0x10000 ≠ 2))

/-- The select of die 1 fails after the chip has switched, and then page 0 is erased on die 1. -/
theorem late_select_erases_wrong_die :
    ∃ c, c = runCalls w25m02gv (freshChip [.done, .late]) [.erase 0, .blockIsbad 0x8000000, .erase 0] ∧
      c.prevDieId = some 0 ∧ c.active = 1 ∧ (0, 1) ∈ c.issued ∧ ¬ Coherent w25m02gv c := by
  refine ⟨_, rfl, by decide, by decide, by decide, fun h => ?_⟩
  have hactive := h.cached 0 (by decide)
  exact absurd hactive (by decide)

end Uboot.SpiNand
