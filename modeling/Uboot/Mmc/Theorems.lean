import Uboot.Mmc.Transfer
import Mathlib.Tactic.Ring

/-!
# When transfers are exact

`mmc_bread` checks the range once, `mmc_write_blocks` once for each command, both with a sum of 32 bits. `mmc_bwrite` has
no check for a count of zero.
-/

namespace Uboot.Mmc

variable {α : Type} {m : Dev}

/-! ## Addresses -/

theorem blockAt_cmdarg {start : Nat} (h : start ≤ m.lba) : m.blockAt (m.cmdarg start) = start := by
  cases hc : m.highCapacity with
  | true => simp [Dev.blockAt, Dev.cmdarg, hc]
  | false =>
      have := m.bytes_lt hc
      simp only [blLen] at this
      simp only [Dev.blockAt, Dev.cmdarg, hc, Bool.false_eq_true, if_false, ulong, blLen]
      omega

/-- Blocks that run past the end of the 32-bit block numbers run past the device, wherever the card finds them. -/
theorem lba_lt_of_wraps {start n : Nat} (h : start < 2 ^ 32) (hw : 2 ^ 32 ≤ start + n) :
    m.lba < m.blockAt (m.cmdarg start) + n := by
  cases hc : m.highCapacity with
  | true =>
      have := m.lba_lt
      simp only [Dev.blockAt, Dev.cmdarg, hc, if_true]
      omega
  | false =>
      have := m.bytes_lt hc
      simp only [blLen] at this
      simp only [Dev.blockAt, Dev.cmdarg, hc, Bool.false_eq_true, if_false, ulong, blLen]
      omega

/-- Blocks of the device are found without wrapping. -/
theorem add_lt_of_inside {start n : Nat} (h : start < 2 ^ 32) (hi : m.blockAt (m.cmdarg start) + n ≤ m.lba) :
    start + n < 2 ^ 32 := by
  by_contra hw
  have := lba_lt_of_wraps (m := m) h (Nat.le_of_not_lt hw)
  omega

theorem inside_of_le {start n : Nat} (hn : 0 < n) (h : start + n ≤ m.lba) (c : Cmd)
    (hc : c.data = some (m.cmdarg start, n)) : c.Inside m := by
  intro arg n' hd
  obtain ⟨rfl, rfl⟩ : m.cmdarg start = arg ∧ n = n' := by simpa using hc.symm.trans hd
  rw [blockAt_cmdarg (by omega)]
  omega

theorem inside_of_none {c : Cmd} (h : c.data = none) : c.Inside m := by
  intro arg n hd
  simp [h] at hd

/-! ## Where the chunks end -/

/-- The end of the first chunk that leaves the device, or of the request. -/
def Dev.past (m : Dev) (start todo : Nat) : Nat := start + min todo (((m.lba - start) / m.bMax + 1) * m.bMax)

theorem past_of_lba_lt {start todo : Nat} (h : m.lba < start + m.cur todo) : m.past start todo = start + m.cur todo := by
  have hb := m.bMax_pos
  simp only [Dev.cur] at h
  split at h
  · rename_i ht
    have : (m.lba - start) / m.bMax = 0 := Nat.div_eq_of_lt (by omega)
    simp [Dev.past, Dev.cur, this, ht]
    omega
  · rename_i ht
    have : m.bMax ≤ ((m.lba - start) / m.bMax + 1) * m.bMax := Nat.le_mul_of_pos_left _ (Nat.succ_pos _)
    simp only [Dev.past, Dev.cur, if_neg ht]
    omega

theorem past_of_le {start todo : Nat} (h : start + m.cur todo ≤ m.lba) (ht : 0 < todo - m.cur todo) :
    m.past (start + m.cur todo) (todo - m.cur todo) = m.past start todo := by
  have hb := m.bMax_pos
  have hcur : m.cur todo = m.bMax := by
    simp only [Dev.cur] at ht ⊢
    split at ht
    · rename_i h'; simp [h']
    · omega
  rw [hcur] at h ht ⊢
  have hdiv : (m.lba - start) / m.bMax = (m.lba - (start + m.bMax)) / m.bMax + 1 := by
    rw [← Nat.add_div_right _ hb]
    congr 1
    omega
  have hmul : ((m.lba - start) / m.bMax + 1) * m.bMax = ((m.lba - (start + m.bMax)) / m.bMax + 1) * m.bMax + m.bMax := by
    rw [hdiv]; ring
  simp only [Dev.past, hmul]
  omega

/-- A 32-bit end of a range at which the check does what it is for. -/
def Dev.NoWrap (m : Dev) (hi : Nat) : Prop := hi < 2 ^ 32 ∨ m.lba + 2 ^ 32 < hi

instance (m : Dev) (hi : Nat) : Decidable (m.NoWrap hi) := inferInstanceAs (Decidable (_ ∨ _))

theorem le_lba_of_noWrap {start n : Nat} (hs : start < 2 ^ 32) (hn : n < 2 ^ 32) (h : m.NoWrap (start + n))
    (hc : ulong (start + n) ≤ m.lba) : start + n ≤ m.lba := by
  simp only [ulong] at hc
  cases h <;> omega

/-! ## Requests that do not wrap -/

/-- The check of each command is enough when the chunk that leaves the device does not wrap. -/
theorem bwriteLoop_inside (fate : Nat → Fate) (todo : Nat) : ∀ (start : Nat) (src : Nat → α) (s : Host α), 0 < todo →
    start < 2 ^ 32 → todo < 2 ^ 32 → m.NoWrap (m.past start todo) →
    Sent (Cmd.Inside m) s (bwriteLoop m fate start todo src s).2 ∧
    ((bwriteLoop m fate start todo src s).1 = true → start + todo ≤ m.lba ∧
      (bwriteLoop m fate start todo src s).2.xfer = s.xfer ++ blocksFrom start todo src) := by
  induction todo using Nat.strong_induction_on with
  | _ todo ih =>
  intro start src s hpos hs ht hw
  have hle := m.cur_le todo
  have hcur := m.cur_pos hpos
  -- a chunk that passes the check is one of the device
  have chunk : ulong (start + m.cur todo) ≤ m.lba → start + m.cur todo ≤ m.lba := by
    intro hc
    by_contra hlt
    rw [past_of_lba_lt (Nat.lt_of_not_le hlt)] at hw
    exact hlt (le_lba_of_noWrap hs (by omega) hw hc)
  have sent : Sent (Cmd.Inside m) s (mmcWriteBlocks m fate start (m.cur todo) src s).2 := by
    apply (mmcWriteBlocks_sent m fate start (m.cur todo) src s).mono
    rintro c (hn | ⟨rfl, hc⟩)
    · exact inside_of_none hn
    · exact inside_of_le hcur (chunk hc) _ rfl
  rw [bwriteLoop]
  split
  · exact ⟨sent, by simp⟩
  · rename_i hr
    obtain ⟨hc, hx⟩ := mmcWriteBlocks_xfer hcur (Decidable.not_not.mp hr)
    have hlba := chunk hc
    rw [blockAt_cmdarg (by omega)] at hx
    split
    · rename_i hmore
      have hul : ulong (start + m.cur todo) = start + m.cur todo :=
        Nat.mod_eq_of_lt (Nat.lt_of_le_of_lt hlba m.lba_lt)
      rw [hul]
      obtain ⟨hsent, hdone⟩ := ih (todo - m.cur todo) (by omega) (start + m.cur todo) (fun k => src (m.cur todo + k))
        (mmcWriteBlocks m fate start (m.cur todo) src s).2 hmore (by have := m.lba_lt; omega) (by omega)
        (by rwa [past_of_le hlba hmore])
      refine ⟨sent.trans hsent, fun h => ?_⟩
      obtain ⟨hend, hxfer⟩ := hdone h
      have hsum : m.cur todo + (todo - m.cur todo) = todo := by omega
      refine ⟨by omega, ?_⟩
      rw [hxfer, hx, List.append_assoc, ← blocksFrom_add, hsum]
    · rename_i hlast
      have : m.cur todo = todo := by omega
      rw [this] at sent hlba hx ⊢
      exact ⟨sent, fun _ => ⟨hlba, hx⟩⟩

/-- The check of `mmc_bread` is enough when the request does not wrap. -/
theorem breadLoop_inside (fate : Nat → Fate) (card : Nat → α) (todo : Nat) : ∀ (start : Nat) (s : Host α), 0 < todo →
    start + todo ≤ m.lba → Sent (Cmd.Inside m) s (breadLoop m fate card start todo s).2 ∧
    ((breadLoop m fate card start todo s).1 = true →
      (breadLoop m fate card start todo s).2.xfer = s.xfer ++ blocksFrom start todo (fun k => card (start + k))) := by
  induction todo using Nat.strong_induction_on with
  | _ todo ih =>
  intro start s hpos hlba
  have hle := m.cur_le todo
  have hcur := m.cur_pos hpos
  have sent : Sent (Cmd.Inside m) s (mmcReadBlocks m fate card start (m.cur todo) s).2 := by
    apply (mmcReadBlocks_sent m fate card start (m.cur todo) s).mono
    rintro c (hn | rfl)
    · exact inside_of_none hn
    · exact inside_of_le hcur (by omega) _ rfl
  rw [breadLoop]
  split
  · exact ⟨sent, by simp⟩
  · rename_i hr
    have hx := mmcReadBlocks_xfer hcur (Decidable.not_not.mp hr)
    rw [blockAt_cmdarg (by omega)] at hx
    split
    · rename_i hmore
      have hul : ulong (start + m.cur todo) = start + m.cur todo :=
        Nat.mod_eq_of_lt (by have := m.lba_lt; omega)
      rw [hul]
      obtain ⟨hsent, hdone⟩ := ih (todo - m.cur todo) (by omega) (start + m.cur todo)
        (mmcReadBlocks m fate card start (m.cur todo) s).2 hmore (by omega)
      refine ⟨sent.trans hsent, fun h => ?_⟩
      have hsum : m.cur todo + (todo - m.cur todo) = todo := by omega
      simp only [Nat.add_assoc] at hdone
      rw [hdone h, hx, List.append_assoc, ← blocksFrom_add start (m.cur todo) _ (fun k => card (start + k)), hsum]
    · rename_i hlast
      have : m.cur todo = todo := by omega
      rw [this] at sent hx ⊢
      exact ⟨sent, fun _ => hx⟩

theorem breadLoop_works {fate : Nat → Fate} (h : ∀ n, (fate n).err = false) (card : Nat → α) (todo : Nat) :
    ∀ (start : Nat) (s : Host α), 0 < todo → (breadLoop m fate card start todo s).1 = true := by
  induction todo using Nat.strong_induction_on with
  | _ todo ih =>
  intro start s hpos
  have hcur := m.cur_pos hpos
  rw [breadLoop]
  rw [if_neg (by simp [mmcReadBlocks_works h])]
  split
  · rename_i hmore
    exact ih _ (by omega) _ _ hmore
  · rfl

theorem bwriteLoop_works {fate : Nat → Fate} (h : Works fate) (todo : Nat) :
    ∀ (start : Nat) (src : Nat → α) (s : Host α), 0 < todo → start + todo ≤ m.lba →
      (bwriteLoop m fate start todo src s).1 = true := by
  induction todo using Nat.strong_induction_on with
  | _ todo ih =>
  intro start src s hpos hlba
  have hlt := m.lba_lt
  have hle := m.cur_le todo
  have hcur := m.cur_pos hpos
  have hul : ulong (start + m.cur todo) = start + m.cur todo := Nat.mod_eq_of_lt (by omega)
  rw [bwriteLoop, if_neg (by simp [mmcWriteBlocks_works h src s (show ulong (start + m.cur todo) ≤ m.lba by omega)]), hul]
  split
  · rename_i hmore
    exact ih _ (by omega) _ _ _ hmore (by omega)
  · rfl

/-! ## Requests that wrap -/

/-- When the chunk that leaves the device wraps onto it, its command is sent. -/
theorem bwriteLoop_outside {fate : Nat → Fate} (h : Works fate) (todo : Nat) : ∀ (start : Nat) (src : Nat → α)
    (s : Host α), 0 < todo → start < 2 ^ 32 → ¬ m.NoWrap (m.past start todo) →
    ∃ c ∈ (bwriteLoop m fate start todo src s).2.log, ¬ c.Inside m := by
  induction todo using Nat.strong_induction_on with
  | _ todo ih =>
  intro start src s hpos hs hw
  have hlt := m.lba_lt
  have hle := m.cur_le todo
  have hcur := m.cur_pos hpos
  rw [bwriteLoop]
  by_cases hlba : start + m.cur todo ≤ m.lba
  · have hul : ulong (start + m.cur todo) = start + m.cur todo := Nat.mod_eq_of_lt (by omega)
    have hmore : 0 < todo - m.cur todo := by
      by_contra hlast
      refine hw (.inl ?_)
      have : m.past start todo ≤ start + todo := Nat.add_le_add_left (Nat.min_le_left _ _) _
      omega
    rw [if_neg (by simp [mmcWriteBlocks_works h src s (hul.trans_le hlba)]), if_pos hmore, hul]
    exact ih _ (by omega) _ _ _ hmore (by omega) (by rwa [past_of_le hlba hmore])
  · have hpast := past_of_lba_lt (Nat.lt_of_not_le hlba)
    simp only [Dev.NoWrap, hpast, not_or, Nat.not_lt] at hw
    have hul : ulong (start + m.cur todo) ≤ m.lba := by
      simp only [ulong]
      omega
    refine ⟨.write (m.cmdarg start) (m.cur todo), ?_, fun hi => ?_⟩
    · have hmem := mmcWriteBlocks_mem fate src s hul
      split
      · exact hmem
      · split
        · exact (bwriteLoop_sent fate _ _ _ _).mem hmem
        · exact hmem
    · have := lba_lt_of_wraps (m := m) hs hw.1
      have := (hi _ _ rfl).2
      omega

/-- Without a check of its own, a command of `mmc_bread` leaves the device. -/
theorem breadLoop_outside {fate : Nat → Fate} (h : Works fate) (card : Nat → α) (todo : Nat) : ∀ (start : Nat)
    (s : Host α), 0 < todo → start < 2 ^ 32 → 2 ^ 32 ≤ start + todo →
    ∃ c ∈ (breadLoop m fate card start todo s).2.log, ¬ c.Inside m := by
  induction todo using Nat.strong_induction_on with
  | _ todo ih =>
  intro start s hpos hs hw
  have hle := m.cur_le todo
  have hcur := m.cur_pos hpos
  have hmem : Cmd.read (m.cmdarg start) (m.cur todo) ∈ (mmcReadBlocks m fate card start (m.cur todo) s).2.log :=
    mmcReadBlocks_mem card s
  rw [breadLoop, if_neg (by simp [mmcReadBlocks_works fun n => (h n).1])]
  by_cases hlba : m.blockAt (m.cmdarg start) + m.cur todo ≤ m.lba
  · have hlt := add_lt_of_inside hs hlba
    have hul : ulong (start + m.cur todo) = start + m.cur todo := Nat.mod_eq_of_lt hlt
    rw [if_pos (by omega), hul]
    exact ih _ (by omega) _ _ (by omega) hlt (by omega)
  · refine ⟨.read (m.cmdarg start) (m.cur todo), ?_, fun hi => hlba (hi _ _ rfl).2⟩
    split
    · exact (breadLoop_sent fate card _ _ _).mem hmem
    · exact hmem

/-! ## Exact transfers -/

theorem putBlocks_append (card : Nat → α) (l l' : List (Nat × α)) :
    putBlocks card (l ++ l') = putBlocks (putBlocks card l) l' := by
  simp [putBlocks]

theorem putBlocks_blocksFrom (card : Nat → α) (b n : Nat) (src : Nat → α) {k : Nat} (hk : k < n) :
    putBlocks card (blocksFrom b n src) (b + k) = src k := by
  induction n with
  | zero => omega
  | succ n ih =>
      rw [blocksFrom_add, putBlocks_append]
      by_cases h : k = n
      · subst h
        simp [putBlocks, blocksFrom]
      · have hne : b + k ≠ b + n := by omega
        simpa [putBlocks, blocksFrom, Function.update_of_ne hne] using ih (by omega)

/-- The transfers of a range are exact, whatever commands fail. -/
structure Exact (m : Dev) (start blkcnt : Nat) (src : Nat → α) : Prop where
  /-- What was written when the count comes back. -/
  written : ∀ fate, 0 < blkcnt → (mmcBwrite m fate start blkcnt src).1 = blkcnt → start + blkcnt ≤ m.lba ∧
    (mmcBwrite m fate start blkcnt src).2.xfer = (List.range blkcnt).map fun k => (start + k, src k)
  /-- A later read delivers it, unless a command fails. -/
  readBack : ∀ fate fate' (card : Nat → α), 0 < blkcnt → (mmcBwrite m fate start blkcnt src).1 = blkcnt →
    let r := mmcBread m fate' (putBlocks card (mmcBwrite m fate start blkcnt src).2.xfer) start blkcnt
    (r.1 = blkcnt → r.2.dst = (List.range blkcnt).map src) ∧ ((∀ n, (fate' n).err = false) → r.1 = blkcnt)
  nothing : blkcnt = 0 → ∀ fate, ∀ c ∈ (mmcBwrite m fate start blkcnt src).2.log, ¬ c.IsWrite
  writeInside : ∀ fate, ∀ c ∈ (mmcBwrite m fate start blkcnt src).2.log, c.Inside m
  readInside : ∀ fate (card : Nat → α), ∀ c ∈ (mmcBread m fate card start blkcnt).2.log, c.Inside m

/-- The request, and the first chunk of it that leaves the device, do not wrap onto the device; nothing is sent for a count
of zero only beyond its end. -/
def Dev.Fits (m : Dev) (start blkcnt : Nat) : Prop :=
  (blkcnt = 0 → m.lba < start) ∧ (0 < blkcnt → m.NoWrap (start + blkcnt) ∧ m.NoWrap (m.past start blkcnt))

theorem bwriteLoop_zero {fate : Nat → Fate} {start : Nat} (src : Nat → α) (s : Host α) (hs : start < 2 ^ 32)
    (h : m.lba < start) : bwriteLoop m fate start 0 src s = (true, s) := by
  have hul : ulong start = start := Nat.mod_eq_of_lt hs
  rw [bwriteLoop]
  simp [Dev.cur, mmcWriteBlocks, hul, h]

theorem setBlocklen_xfer (fate : Nat → Fate) : (mmcSetBlocklen fate blLen (.init : Host α)).2.xfer = [] := by
  simp [mmcSetBlocklen, mmcSendCmd, Host.init]

theorem setBlocklen_log (fate : Nat → Fate) :
    (mmcSetBlocklen fate blLen (.init : Host α)).2.log = [.setBlocklen blLen] := rfl

theorem mmcBwrite_done {fate : Nat → Fate} {start blkcnt : Nat} {src : Nat → α} (hpos : 0 < blkcnt)
    (h : (mmcBwrite m fate start blkcnt src).1 = blkcnt) :
    (bwriteLoop m fate start blkcnt src (mmcSetBlocklen fate blLen .init).2).1 = true ∧
    (mmcBwrite m fate start blkcnt src).2 = (bwriteLoop m fate start blkcnt src (mmcSetBlocklen fate blLen .init).2).2 := by
  rw [mmcBwrite] at h ⊢
  dsimp only at h ⊢
  split at h
  · simp at h; omega
  · rename_i herr
    rw [if_neg herr]
    dsimp only at h ⊢
    split at h
    · rename_i hok
      exact ⟨hok, rfl⟩
    · omega

theorem mmcBread_done {fate : Nat → Fate} {card : Nat → α} {start blkcnt : Nat} (hpos : 0 < blkcnt)
    (h : (mmcBread m fate card start blkcnt).1 = blkcnt) :
    (breadLoop m fate card start blkcnt (mmcSetBlocklen fate blLen .init).2).1 = true ∧
    (mmcBread m fate card start blkcnt).2 = (breadLoop m fate card start blkcnt (mmcSetBlocklen fate blLen .init).2).2 := by
  rw [mmcBread, if_neg (Nat.ne_of_gt hpos)] at h ⊢
  split at h
  · simp at h; omega
  · rename_i hlba
    rw [if_neg hlba]
    dsimp only at h ⊢
    split at h
    · simp at h; omega
    · rename_i herr
      rw [if_neg herr]
      dsimp only at h ⊢
      split at h
      · rename_i hok
        exact ⟨hok, rfl⟩
      · omega

section Fits

variable {start blkcnt : Nat} (hs : start < 2 ^ 32) (hb : blkcnt < 2 ^ 32) (hf : m.Fits start blkcnt) (src : Nat → α)

include hs hb hf in
theorem mmcBwrite_written (fate : Nat → Fate) (hpos : 0 < blkcnt) (h : (mmcBwrite m fate start blkcnt src).1 = blkcnt) :
    start + blkcnt ≤ m.lba ∧ (mmcBwrite m fate start blkcnt src).2.xfer = blocksFrom start blkcnt src := by
  obtain ⟨hok, heq⟩ := mmcBwrite_done hpos h
  obtain ⟨hle, hx⟩ := (bwriteLoop_inside fate blkcnt start src _ hpos hs hb (hf.2 hpos).2).2 hok
  rw [heq, hx, setBlocklen_xfer, List.nil_append]
  exact ⟨hle, rfl⟩

include hs hb hf in
theorem mmcBwrite_inside (fate : Nat → Fate) : ∀ c ∈ (mmcBwrite m fate start blkcnt src).2.log, c.Inside m := by
  have hlen : ∀ c ∈ (mmcSetBlocklen fate blLen (.init : Host α)).2.log, c.Inside m := by
    rw [setBlocklen_log]
    simpa using inside_of_none (m := m) (c := .setBlocklen blLen) rfl
  rw [mmcBwrite]
  dsimp only
  split
  · exact hlen
  · cases Nat.eq_zero_or_pos blkcnt with
    | inl h0 =>
        subst h0
        rw [bwriteLoop_zero src _ hs (hf.1 rfl)]
        exact hlen
    | inr hpos => exact (bwriteLoop_inside fate blkcnt start src _ hpos hs hb (hf.2 hpos).2).1.forall hlen

include hs hf in
theorem mmcBwrite_nothing (fate : Nat → Fate) (h0 : blkcnt = 0) :
    ∀ c ∈ (mmcBwrite m fate start blkcnt src).2.log, ¬ c.IsWrite := by
  subst h0
  rw [mmcBwrite]
  dsimp only
  split
  · simp [setBlocklen_log, Cmd.IsWrite]
  · simp [bwriteLoop_zero src _ hs (hf.1 rfl), setBlocklen_log, Cmd.IsWrite]

include hs hb hf in
theorem mmcBread_inside (fate : Nat → Fate) (card : Nat → α) :
    ∀ c ∈ (mmcBread m fate card start blkcnt).2.log, c.Inside m := by
  have hlen : ∀ c ∈ (mmcSetBlocklen fate blLen (.init : Host α)).2.log, c.Inside m := by
    rw [setBlocklen_log]
    simpa using inside_of_none (m := m) (c := .setBlocklen blLen) rfl
  rw [mmcBread]
  split
  · simp [Host.init]
  · rename_i hpos
    split
    · simp [Host.init]
    · rename_i hlba
      have hle := le_lba_of_noWrap hs hb (hf.2 (by omega)).1 (Nat.le_of_not_lt hlba)
      dsimp only
      split
      · exact hlen
      · exact (breadLoop_inside fate card blkcnt start _ (by omega) hle).1.forall hlen

end Fits

theorem mmcBread_xfer {start blkcnt : Nat} (hpos : 0 < blkcnt) (hle : start + blkcnt ≤ m.lba) (fate : Nat → Fate)
    (card : Nat → α) (h : (mmcBread m fate card start blkcnt).1 = blkcnt) :
    (mmcBread m fate card start blkcnt).2.xfer = blocksFrom start blkcnt fun k => card (start + k) := by
  obtain ⟨hok, heq⟩ := mmcBread_done hpos h
  rw [heq, (breadLoop_inside fate card blkcnt start _ hpos hle).2 hok, setBlocklen_xfer, List.nil_append]

theorem mmcBwrite_works {start blkcnt : Nat} (hpos : 0 < blkcnt) (hle : start + blkcnt ≤ m.lba) {fate : Nat → Fate}
    (h : Works fate) (src : Nat → α) : (mmcBwrite m fate start blkcnt src).1 = blkcnt := by
  simp [mmcBwrite, mmcSetBlocklen, mmcSendCmd, (h _).1, bwriteLoop_works h blkcnt start src _ hpos hle]

/-- A count of zero moves no block. -/
theorem mmcBwrite_zero_xfer (fate : Nat → Fate) (start : Nat) (src : Nat → α) :
    (mmcBwrite m fate start 0 src).2.xfer = [] := by
  have hblocks : ∀ s : Host α, (mmcWriteBlocks m fate start 0 src s).2.xfer = s.xfer := by
    intro s
    have hw : (mmcSendCmd fate (.write (m.cmdarg start) 0) ([] : List (Nat × α)) s).2.xfer = s.xfer := by
      simp [mmcSendCmd]
    simp only [mmcWriteBlocks, List.range_zero, List.map_nil]
    split
    · rfl
    · split
      · exact hw
      · split
        · rw [(silent_stop fate _ _).2, hw]
        · split <;> rw [(silent_status fate 1000 _).2, (silent_stop fate _ _).2, hw]
  rw [mmcBwrite]
  dsimp only
  split
  · exact setBlocklen_xfer fate
  · have hx := (hblocks (mmcSetBlocklen fate blLen .init).2).trans (setBlocklen_xfer fate)
    rw [bwriteLoop]
    simp only [Dev.cur, Nat.not_lt_zero, gt_iff_lt, if_false, Nat.sub_self]
    split <;> exact hx

theorem mmcBread_works {start blkcnt : Nat} (hpos : 0 < blkcnt) (hle : start + blkcnt ≤ m.lba) {fate : Nat → Fate}
    (h : ∀ n, (fate n).err = false) (card : Nat → α) : (mmcBread m fate card start blkcnt).1 = blkcnt := by
  have hul : ulong (start + blkcnt) = start + blkcnt := Nat.mod_eq_of_lt (Nat.lt_of_le_of_lt hle m.lba_lt)
  rw [mmcBread, if_neg (Nat.ne_of_gt hpos), hul, if_neg (Nat.not_lt.mpr hle)]
  simp [mmcSetBlocklen, mmcSendCmd, h, breadLoop_works h card blkcnt start _ hpos]

theorem exact_of_fits {start blkcnt : Nat} (hs : start < 2 ^ 32) (hb : blkcnt < 2 ^ 32) (hf : m.Fits start blkcnt)
    (src : Nat → α) : Exact m start blkcnt src where
  written fate hpos h := mmcBwrite_written hs hb hf src fate hpos h
  readBack fate fate' card hpos h := by
    obtain ⟨hle, hx⟩ := mmcBwrite_written hs hb hf src fate hpos h
    refine ⟨fun hr => ?_, fun hw => mmcBread_works hpos hle hw _⟩
    rw [Host.dst, mmcBread_xfer hpos hle fate' _ hr, hx, blocksFrom, List.map_map]
    apply List.map_congr_left
    intro k hk
    exact putBlocks_blocksFrom card start blkcnt src (List.mem_range.mp hk)
  nothing h0 fate := mmcBwrite_nothing hs hf src fate h0
  writeInside fate := mmcBwrite_inside hs hb hf src fate
  readInside fate card := mmcBread_inside hs hb hf fate card

/-- A card that is ready at once. -/
def ready : Nat → Fate := fun _ => ⟨false, 0, 0x100#32⟩

theorem ready_works : Works ready := fun _ => ⟨rfl, show statusReady 0x100#32 = true by decide⟩

theorem fits_of_exact {start blkcnt : Nat} (hs : start < 2 ^ 32) (src : Nat → α) (h : Exact m start blkcnt src) :
    m.Fits start blkcnt := by
  constructor
  · intro h0
    subst h0
    by_contra hlba
    -- the write command without blocks is sent
    refine h.nothing rfl ready (.write (m.cmdarg start) 0) ?_ trivial
    have hul : ulong (start + 0) ≤ m.lba := by
      rw [ulong, Nat.mod_eq_of_lt (by omega)]
      omega
    have hmem := mmcWriteBlocks_mem ready src (mmcSetBlocklen ready blLen .init).2 hul
    have hr := mmcWriteBlocks_works ready_works src (mmcSetBlocklen ready blLen .init).2 hul
    simp only [mmcBwrite]
    rw [if_neg (by simp [mmcSetBlocklen, mmcSendCmd, ready]), bwriteLoop]
    simpa [Dev.cur, hr] using hmem
  · intro hpos
    constructor
    · by_contra hw
      simp only [Dev.NoWrap, not_or, Nat.not_lt] at hw
      obtain ⟨c, hc, hout⟩ := breadLoop_outside ready_works (fun k => src k) blkcnt start
        (mmcSetBlocklen ready blLen .init).2 hpos hs hw.1
      refine hout (h.readInside ready src c ?_)
      have hul : ulong (start + blkcnt) ≤ m.lba := by
        simp only [ulong]
        omega
      rw [mmcBread, if_neg (Nat.ne_of_gt hpos), if_neg (Nat.not_lt.mpr hul)]
      dsimp only
      rw [if_neg (by simp [mmcSetBlocklen, mmcSendCmd, ready])]
      exact hc
    · by_contra hw
      obtain ⟨c, hc, hout⟩ := bwriteLoop_outside ready_works blkcnt start src
        (mmcSetBlocklen ready blLen .init).2 hpos hs hw
      refine hout (h.writeInside ready c ?_)
      rw [mmcBwrite]
      dsimp only
      rw [if_neg (by simp [mmcSetBlocklen, mmcSendCmd, ready])]
      exact hc

/-- The transfers of a range are exact when, and only when, its 32-bit ends do not wrap onto the device. -/
theorem transfers_exact_iff (m : Dev) {start blkcnt : Nat} (hs : start < 2 ^ 32) (hb : blkcnt < 2 ^ 32) (src : Nat → α) :
    Exact m start blkcnt src ↔ m.Fits start blkcnt :=
  ⟨fits_of_exact hs src, fun hf => exact_of_fits hs hb hf src⟩

/-- A sector-addressed card of 2 GiB. -/
def card2G : Dev where
  highCapacity := true
  lba := 4194304
  bMax := 512
  hostIsSpi := false
  lba_lt := by decide
  bMax_pos := by decide
  bytes_lt := by decide

theorem transfers_exact_iff_example : Exact card2G 1024 600 (fun k => UInt8.ofNat k) :=
  (transfers_exact_iff card2G (by decide) (by decide) _).mpr ⟨by decide, fun _ => by decide⟩

/-- A count of zero sends a write command, and block 2 ^ 32 - 1 passes the check of both directions. -/
theorem write_of_nothing : ¬ Exact card2G 0 0 (fun k => UInt8.ofNat k) ∧
    ¬ Exact card2G 0xFFFFFFFF 1 (fun k => UInt8.ofNat k) := by
  constructor
  · intro h
    exact absurd ((fits_of_exact (by decide) _ h).1 rfl) (by decide)
  · intro h
    exact absurd ((fits_of_exact (by decide) _ h).2 (by decide)).1 (by decide)

end Uboot.Mmc
