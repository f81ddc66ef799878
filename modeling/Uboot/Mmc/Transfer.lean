import Uboot.Mmc.Basic
import Mathlib.Tactic.Cases
import Mathlib.Tactic.NormNum

/-!
# What a transfer does
-/

namespace Uboot.Mmc

variable {α : Type}

/-- The address and the number of blocks of a data command. -/
def Cmd.data : Cmd → Option (Nat × Nat)
  | .write arg n => some (arg, n)
  | .read arg n => some (arg, n)
  | _ => none

/-- A data command addresses blocks of the device only. -/
def Cmd.Inside (m : Dev) (c : Cmd) : Prop :=
  ∀ arg n, c.data = some (arg, n) → m.blockAt arg < m.lba ∧ m.blockAt arg + n ≤ m.lba

def Cmd.IsWrite : Cmd → Prop
  | .write _ _ => True
  | _ => False

/-! ## The commands of a step -/

/-- The commands sent between two states satisfy `P`. -/
def Sent (P : Cmd → Prop) (s s' : Host α) : Prop := ∃ l, s'.log = s.log ++ l ∧ ∀ c ∈ l, P c

theorem Sent.refl (P : Cmd → Prop) (s : Host α) : Sent P s s := ⟨[], by simp⟩

theorem Sent.one {P : Cmd → Prop} {s s' : Host α} {c : Cmd} (h : s'.log = s.log ++ [c]) (hc : P c) : Sent P s s' :=
  ⟨[c], h, by simpa using hc⟩

theorem Sent.trans {P : Cmd → Prop} {s₁ s₂ s₃ : Host α} (h : Sent P s₁ s₂) (h' : Sent P s₂ s₃) : Sent P s₁ s₃ := by
  obtain ⟨l, hl, hp⟩ := h
  obtain ⟨l', hl', hp'⟩ := h'
  refine ⟨l ++ l', by simp [hl, hl'], ?_⟩
  intro c hc
  cases List.mem_append.mp hc with
  | inl h => exact hp c h
  | inr h => exact hp' c h

theorem Sent.mono {P Q : Cmd → Prop} {s s' : Host α} (hpq : ∀ c, P c → Q c) (h : Sent P s s') : Sent Q s s' := by
  obtain ⟨l, hl, hp⟩ := h
  exact ⟨l, hl, fun c hc => hpq c (hp c hc)⟩

theorem Sent.mem {P : Cmd → Prop} {s s' : Host α} {c : Cmd} (h : Sent P s s') (hc : c ∈ s.log) : c ∈ s'.log := by
  obtain ⟨l, hl, _⟩ := h
  simp [hl, hc]

theorem Sent.forall {P : Cmd → Prop} {s s' : Host α} (h : Sent P s s') (hs : ∀ c ∈ s.log, P c) : ∀ c ∈ s'.log, P c := by
  obtain ⟨l, hl, hp⟩ := h
  intro c hc
  rw [hl] at hc
  cases List.mem_append.mp hc with
  | inl h => exact hs c h
  | inr h => exact hp c h

/-- A step that sends no data command. -/
def Silent (s s' : Host α) : Prop := Sent (·.data = none) s s' ∧ s'.xfer = s.xfer

theorem silent_cmd (fate : Nat → Fate) {cmd : Cmd} (h : cmd.data = none) (s : Host α) :
    Silent s (mmcSendCmd fate cmd [] s).2 :=
  ⟨Sent.one rfl h, by simp [mmcSendCmd]⟩

theorem silent_statusLoop (fate : Nat → Fate) (timeout : Nat) : ∀ (retries : Nat) (s : Host α),
    Silent s (statusLoop fate timeout retries s).2 := by
  have one : ∀ s : Host α, Silent s { s with log := s.log ++ [Cmd.sendStatus] } :=
    fun s => ⟨Sent.one rfl rfl, rfl⟩
  have next : ∀ {s s' : Host α}, Silent { s with log := s.log ++ [Cmd.sendStatus] } s' → Silent s s' :=
    fun h => ⟨(one _).1.trans h.1, h.2⟩
  induction timeout with
  | zero =>
      intro retries s
      rw [statusLoop.eq_def]
      dsimp only
      split
      · cases retries <;> exact one s
      · split
        · exact one s
        · split <;> exact one s
  | succ timeout ih =>
      intro retries s
      rw [statusLoop.eq_def]
      dsimp only
      split
      · cases retries with
        | zero => exact one s
        | succ retries => exact next (ih _ _)
      · split
        · exact one s
        · split
          · exact one s
          · exact next (ih _ _)

theorem silent_status (fate : Nat → Fate) (timeout : Nat) (s : Host α) : Silent s (mmcSendStatus fate timeout s).2 :=
  silent_statusLoop fate timeout 5 s

theorem silent_stop (fate : Nat → Fate) (needed : Bool) (s : Host α) : Silent s (stopTransmission fate needed s).2 := by
  cases needed with
  | false => exact ⟨Sent.refl _ s, rfl⟩
  | true => exact silent_cmd fate rfl s

/-! ## One command's worth of blocks -/

/-- The blocks from `b` on with their bytes. -/
def blocksFrom (b n : Nat) (f : Nat → α) : List (Nat × α) := (List.range n).map fun k => (b + k, f k)

theorem blocksFrom_add (b n n' : Nat) (f : Nat → α) :
    blocksFrom b (n + n') f = blocksFrom b n f ++ blocksFrom (b + n) n' (fun k => f (n + k)) := by
  simp [blocksFrom, List.range_add, Nat.add_assoc, Function.comp_def]

/-- The write command of `mmc_write_blocks` and commands without data. -/
theorem mmcWriteBlocks_sent (m : Dev) (fate : Nat → Fate) (start blkcnt : Nat) (src : Nat → α) (s : Host α) :
    Sent (fun c => c.data = none ∨ (c = .write (m.cmdarg start) blkcnt ∧ ulong (start + blkcnt) ≤ m.lba)) s
      (mmcWriteBlocks m fate start blkcnt src s).2 := by
  rw [mmcWriteBlocks]
  split
  · exact Sent.refl _ s
  · rename_i h
    have write : Sent (fun c => c.data = none ∨ (c = .write (m.cmdarg start) blkcnt ∧ ulong (start + blkcnt) ≤ m.lba)) s
        (mmcSendCmd fate (.write (m.cmdarg start) blkcnt)
          ((List.range blkcnt).map fun k => (m.blockAt (m.cmdarg start) + k, src k)) s).2 :=
      Sent.one rfl (.inr ⟨rfl, Nat.le_of_not_lt h⟩)
    dsimp only
    split
    · exact write
    · have stop := write.trans ((silent_stop fate (!m.hostIsSpi && blkcnt > 1) _).1.mono fun _ => .inl)
      split
      · exact stop
      · have status := stop.trans ((silent_status fate 1000 _).1.mono fun _ => .inl)
        split <;> exact status

/-- When the count comes back, all blocks were transferred. -/
theorem mmcWriteBlocks_xfer {m : Dev} {fate : Nat → Fate} {start blkcnt : Nat} {src : Nat → α} {s : Host α}
    (hpos : 0 < blkcnt) (h : (mmcWriteBlocks m fate start blkcnt src s).1 = blkcnt) :
    ulong (start + blkcnt) ≤ m.lba ∧
    (mmcWriteBlocks m fate start blkcnt src s).2.xfer = s.xfer ++ blocksFrom (m.blockAt (m.cmdarg start)) blkcnt src := by
  rw [mmcWriteBlocks] at h ⊢
  split at h
  · simp at h; omega
  · rename_i hlba
    refine ⟨Nat.le_of_not_lt hlba, ?_⟩
    rw [if_neg hlba]
    dsimp only at h ⊢
    split at h
    · simp at h; omega
    · rename_i hw
      rw [if_neg hw]
      split at h
      · simp at h; omega
      · rename_i hstop
        rw [if_neg hstop]
        have hx : (mmcSendStatus fate 1000 (stopTransmission fate (!m.hostIsSpi && blkcnt > 1)
            (mmcSendCmd fate (.write (m.cmdarg start) blkcnt)
              ((List.range blkcnt).map fun k => (m.blockAt (m.cmdarg start) + k, src k)) s).2).2).2.xfer
            = s.xfer ++ blocksFrom (m.blockAt (m.cmdarg start)) blkcnt src := by
          rw [(silent_status fate 1000 _).2, (silent_stop fate _ _).2]
          simp_all [mmcSendCmd, blocksFrom]
        split <;> exact hx

theorem mmcReadBlocks_sent (m : Dev) (fate : Nat → Fate) (card : Nat → α) (start blkcnt : Nat) (s : Host α) :
    Sent (fun c => c.data = none ∨ c = .read (m.cmdarg start) blkcnt) s (mmcReadBlocks m fate card start blkcnt s).2 := by
  have read : Sent (fun c => c.data = none ∨ c = .read (m.cmdarg start) blkcnt) s
      (mmcSendCmd fate (.read (m.cmdarg start) blkcnt)
        ((List.range blkcnt).map fun k => (m.blockAt (m.cmdarg start) + k, card (m.blockAt (m.cmdarg start) + k))) s).2 :=
    Sent.one rfl (.inr rfl)
  have stop := read.trans ((silent_stop fate (blkcnt > 1) _).1.mono fun _ => .inl)
  rw [mmcReadBlocks]
  dsimp only
  split
  · exact read
  · split <;> exact stop

theorem mmcReadBlocks_xfer {m : Dev} {fate : Nat → Fate} {card : Nat → α} {start blkcnt : Nat} {s : Host α}
    (hpos : 0 < blkcnt) (h : (mmcReadBlocks m fate card start blkcnt s).1 = blkcnt) :
    (mmcReadBlocks m fate card start blkcnt s).2.xfer = s.xfer ++
      blocksFrom (m.blockAt (m.cmdarg start)) blkcnt (fun k => card (m.blockAt (m.cmdarg start) + k)) := by
  rw [mmcReadBlocks] at h ⊢
  dsimp only at h ⊢
  split at h
  · simp at h; omega
  · rename_i hr
    rw [if_neg hr]
    have hx : (stopTransmission fate (blkcnt > 1) (mmcSendCmd fate (.read (m.cmdarg start) blkcnt)
        ((List.range blkcnt).map fun k => (m.blockAt (m.cmdarg start) + k, card (m.blockAt (m.cmdarg start) + k)))
          s).2).2.xfer = s.xfer ++
        blocksFrom (m.blockAt (m.cmdarg start)) blkcnt (fun k => card (m.blockAt (m.cmdarg start) + k)) := by
      rw [(silent_stop fate _ _).2]
      simp_all [mmcSendCmd, blocksFrom]
    split <;> exact hx

/-! ## The loops -/

theorem mmcWriteBlocks_mem {m : Dev} (fate : Nat → Fate) {start blkcnt : Nat} (src : Nat → α) (s : Host α)
    (h : ulong (start + blkcnt) ≤ m.lba) :
    Cmd.write (m.cmdarg start) blkcnt ∈ (mmcWriteBlocks m fate start blkcnt src s).2.log := by
  rw [mmcWriteBlocks, if_neg (Nat.not_lt.mpr h)]
  have write : Cmd.write (m.cmdarg start) blkcnt ∈ (mmcSendCmd fate (.write (m.cmdarg start) blkcnt)
      ((List.range blkcnt).map fun k => (m.blockAt (m.cmdarg start) + k, src k)) s).2.log := by
    simp [mmcSendCmd]
  have stop := (silent_stop fate (!m.hostIsSpi && blkcnt > 1) _).1.mem write
  have status := (silent_status fate 1000 _).1.mem stop
  dsimp only
  split
  · exact write
  · split
    · exact stop
    · split <;> exact status

theorem mmcReadBlocks_mem {m : Dev} {fate : Nat → Fate} (card : Nat → α) {start blkcnt : Nat} (s : Host α) :
    Cmd.read (m.cmdarg start) blkcnt ∈ (mmcReadBlocks m fate card start blkcnt s).2.log := by
  have read : Cmd.read (m.cmdarg start) blkcnt ∈ (mmcSendCmd fate (.read (m.cmdarg start) blkcnt)
      ((List.range blkcnt).map fun k => (m.blockAt (m.cmdarg start) + k, card (m.blockAt (m.cmdarg start) + k)))
        s).2.log := by
    simp [mmcSendCmd]
  have stop := (silent_stop fate (blkcnt > 1) _).1.mem read
  rw [mmcReadBlocks]
  dsimp only
  split
  · exact read
  · split <;> exact stop

theorem bwriteLoop_sent {m : Dev} (fate : Nat → Fate) (start todo : Nat) (src : Nat → α) (s : Host α) :
    Sent (fun _ => True) s (bwriteLoop m fate start todo src s).2 := by
  have chunk : Sent (fun _ => True) s (mmcWriteBlocks m fate start (m.cur todo) src s).2 :=
    (mmcWriteBlocks_sent m fate start (m.cur todo) src s).mono fun _ _ => trivial
  rw [bwriteLoop]
  split
  · exact chunk
  · split
    · rename_i hmore
      have := m.cur_pos (show 0 < todo by omega)
      exact chunk.trans (bwriteLoop_sent fate _ _ _ _)
    · exact chunk
termination_by todo

theorem breadLoop_sent {m : Dev} (fate : Nat → Fate) (card : Nat → α) (start todo : Nat) (s : Host α) :
    Sent (fun _ => True) s (breadLoop m fate card start todo s).2 := by
  have chunk : Sent (fun _ => True) s (mmcReadBlocks m fate card start (m.cur todo) s).2 :=
    (mmcReadBlocks_sent m fate card start (m.cur todo) s).mono fun _ _ => trivial
  rw [breadLoop]
  split
  · exact chunk
  · split
    · rename_i hmore
      have := m.cur_pos (show 0 < todo by omega)
      exact chunk.trans (breadLoop_sent fate card _ _ _)
    · exact chunk
termination_by todo

/-! ## Commands that do not fail -/

/-- No command fails, and the card is ready at once. -/
def Works (fate : Nat → Fate) : Prop := ∀ n, (fate n).err = false ∧ statusReady (fate n).response = true

theorem stop_works {fate : Nat → Fate} (h : ∀ n, (fate n).err = false) (needed : Bool) (s : Host α) :
    (stopTransmission fate needed s).1 = false := by
  cases needed <;> simp [stopTransmission, mmcSendCmd, h]

theorem status_works {fate : Nat → Fate} (h : Works fate) {timeout : Nat} (ht : timeout ≠ 0) (s : Host α) :
    (mmcSendStatus fate timeout s).1 = false := by
  rw [mmcSendStatus, statusLoop.eq_def]
  dsimp only
  rw [if_neg (by simp [(h _).1]), if_pos (h _).2]
  simp [ht]

theorem mmcReadBlocks_works {m : Dev} {fate : Nat → Fate} (h : ∀ n, (fate n).err = false) (card : Nat → α)
    (start blkcnt : Nat) (s : Host α) : (mmcReadBlocks m fate card start blkcnt s).1 = blkcnt := by
  simp [mmcReadBlocks, mmcSendCmd, h, stop_works h]

theorem mmcWriteBlocks_works {m : Dev} {fate : Nat → Fate} (h : Works fate) {start blkcnt : Nat} (src : Nat → α)
    (s : Host α) (hlba : ulong (start + blkcnt) ≤ m.lba) : (mmcWriteBlocks m fate start blkcnt src s).1 = blkcnt := by
  simp [mmcWriteBlocks, Nat.not_lt.mpr hlba, mmcSendCmd, (h _).1, stop_works fun n => (h n).1,
    status_works h (show 1000 ≠ 0 by decide)]

end Uboot.Mmc
