import Mathlib.Data.Nat.Count
import Uboot.Mmc.Transfer

/-!
# The wait for a ready card

`mmc_send_status` of `drivers/mmc/mmc.c` with its return values, and what `mmc_write_blocks` and `mmc_switch` make of them. The
answers of the card are given for all polls that the loop could make.
-/

namespace Uboot.Mmc

/-- `TIMEOUT` and `COMM_ERR` -/
def timeoutErr : Int := -19
def commErr : Int := -18

/-- What a status command returns, and `response[0]` -/
structure Poll where
  err : Int
  response : BitVec 32
deriving DecidableEq

/-- The loop of `mmc_send_status` from poll `k` on: `error` for a return, `ok` with the count that is left behind the loop. The
number of the next poll is given too. -/
def pollLoop (poll : Nat → Poll) (timeout retries k : Nat) : Except Int Int × Nat :=
  let p := poll k
  let again (retries : Nat) : Except Int Int × Nat :=
    -- `while (timeout--)`
    match timeout with
    | 0 => (.ok (-1), k + 1)
    | timeout + 1 => pollLoop poll timeout retries (k + 1)
  if p.err = 0 then
    if statusReady p.response then (.ok timeout, k + 1)
    else if p.response &&& statusMask ≠ 0 then (.error commErr, k + 1)
    else again retries
  else
    match retries with
    | 0 => (.error p.err, k + 1)
    | retries + 1 => again retries
termination_by structural timeout

/-- What follows the loop -/
def afterLoop : Except Int Int → Int
  | .error ret => ret
  | .ok timeout => if timeout = 0 then timeoutErr else 0

def sendStatus (poll : Nat → Poll) (timeout : Nat) : Int := afterLoop (pollLoop poll timeout 5 0).1

/-- `mmc_switch`: the command's own error, then the wait -/
def mmcSwitch (err : Int) (poll : Nat → Poll) : Int := if err = 0 then sendStatus poll 1000 else err

/-! ## The decisive poll -/

/-- Errors of the polls before `k` -/
def errors (poll : Nat → Poll) (k : Nat) : Nat := Nat.count (fun i => (poll i).err ≠ 0) k

/-- Ready for data and not in the programming state -/
def ReadyAt (poll : Nat → Poll) (k : Nat) : Prop := (poll k).err = 0 ∧ statusReady (poll k).response = true

/-- An error status, or the sixth command that fails -/
def FailsAt (poll : Nat → Poll) (k : Nat) : Prop :=
  if (poll k).err = 0 then statusReady (poll k).response = false ∧ (poll k).response &&& statusMask ≠ 0
  else 5 ≤ errors poll k

def GoesOn (poll : Nat → Poll) (k : Nat) : Prop := ¬ ReadyAt poll k ∧ ¬ FailsAt poll k

/-- Poll `k` is the first that decides, and `P` holds of it. -/
def First (P : (Nat → Poll) → Nat → Prop) (poll : Nat → Poll) (k : Nat) : Prop := P poll k ∧ ∀ j < k, GoesOn poll j

/-- One of the `timeout + 1` polls sees the card ready before any error return. -/
def SeesReady (poll : Nat → Poll) (timeout : Nat) : Prop := ∃ k ≤ timeout, First ReadyAt poll k

section
variable {poll : Nat → Poll} {timeout retries k : Nat}

theorem not_readyAt_of_failsAt (h : FailsAt poll k) : ¬ ReadyAt poll k := by
  rintro ⟨herr, hready⟩
  rw [FailsAt, if_pos herr, hready] at h
  exact Bool.noConfusion h.1

theorem First.unique {P Q : (Nat → Poll) → Nat → Prop} {j : Nat} (hP : ∀ i, P poll i → ¬ GoesOn poll i)
    (hQ : ∀ i, Q poll i → ¬ GoesOn poll i) (h : First P poll k) (h' : First Q poll j) : k = j := by
  rcases Nat.lt_trichotomy k j with hlt | heq | hgt
  · exact absurd (h'.2 k hlt) (hP k h.1)
  · exact heq
  · exact absurd (h.2 j hgt) (hQ j h'.1)

/-! ## One round -/

theorem errors_succ : errors poll (k + 1) = errors poll k + if (poll k).err = 0 then 0 else 1 := by
  rw [errors, errors, Nat.count_succ]
  by_cases h : (poll k).err = 0
  · rw [if_pos h, if_neg (not_not_intro h)]
  · rw [if_neg h, if_pos h]

theorem pollLoop_ready (h : ReadyAt poll k) : (pollLoop poll timeout retries k).1 = .ok timeout := by
  rw [pollLoop.eq_def]
  simp only [if_pos h.1, if_pos h.2]

theorem pollLoop_fails (hretries : retries + errors poll k = 5) (h : FailsAt poll k) :
    ∃ ret, (pollLoop poll timeout retries k).1 = .error ret ∧ ret ≠ 0 := by
  rw [pollLoop.eq_def]
  by_cases herr : (poll k).err = 0
  · rw [FailsAt, if_pos herr] at h
    have hready : ¬ statusReady (poll k).response = true := by
      rw [h.1]
      exact Bool.false_ne_true
    simp only [if_pos herr, if_neg hready, if_pos h.2]
    exact ⟨commErr, rfl, by decide⟩
  · rw [FailsAt, if_neg herr] at h
    obtain rfl : retries = 0 := by omega
    simp only [if_neg herr]
    exact ⟨_, rfl, herr⟩

/-- The round of a poll that decides nothing. The retries that are left and the errors make five. -/
theorem pollLoop_goesOn (hretries : retries + errors poll k = 5) (h : GoesOn poll k) :
    ∃ retries', retries' + errors poll (k + 1) = 5 ∧ pollLoop poll timeout retries k =
      match timeout with
      | 0 => (.ok (-1), k + 1)
      | timeout + 1 => pollLoop poll timeout retries' (k + 1) := by
  obtain ⟨hready, hfails⟩ := h
  rw [pollLoop.eq_def, errors_succ]
  by_cases herr : (poll k).err = 0
  · have hnot : ¬ statusReady (poll k).response = true := fun h => hready ⟨herr, h⟩
    have hmask : ¬ ((poll k).response &&& statusMask ≠ 0) := by
      intro h
      rw [FailsAt, if_pos herr] at hfails
      exact hfails ⟨Bool.eq_false_of_not_eq_true hnot, h⟩
    refine ⟨retries, by rw [if_pos herr]; exact hretries, ?_⟩
    simp only [if_pos herr, if_neg hnot, if_neg hmask]
  · rw [FailsAt, if_neg herr] at hfails
    obtain ⟨left, rfl⟩ : ∃ n, retries = n + 1 := ⟨retries - 1, by omega⟩
    refine ⟨left, by rw [if_neg herr]; omega, ?_⟩
    simp only [if_neg herr]

/-! ## The loop -/

/-- The polls before the decisive one are all made. -/
theorem pollLoop_skip {n : Nat} (hretries : retries + errors poll k = 5) (hgo : ∀ j < n, GoesOn poll (k + j)) (hn : n ≤ timeout) :
    ∃ retries', retries' + errors poll (k + n) = 5 ∧ pollLoop poll timeout retries k = pollLoop poll (timeout - n) retries' (k + n) := by
  induction n generalizing timeout retries k with
  | zero => exact ⟨retries, hretries, rfl⟩
  | succ n ih =>
      obtain ⟨timeout, rfl⟩ : ∃ t, timeout = t + 1 := ⟨timeout - 1, by omega⟩
      obtain ⟨left, hleft, hround⟩ := @pollLoop_goesOn _ (timeout + 1) _ _ hretries (hgo 0 (Nat.succ_pos n))
      have hgo' : ∀ j < n, GoesOn poll (k + 1 + j) := fun j hj => by
        have hnext := hgo (j + 1) (Nat.succ_lt_succ hj)
        rwa [show k + (j + 1) = k + 1 + j by omega] at hnext
      obtain ⟨last, hlast, hrest⟩ := ih hleft hgo' (Nat.le_of_succ_le_succ hn)
      rw [show k + 1 + n = k + (n + 1) by omega] at hlast hrest
      exact ⟨last, hlast, by rw [hround, Nat.succ_sub_succ]; exact hrest⟩

theorem pollLoop_reach (hgo : ∀ j < k, GoesOn poll j) (hk : k ≤ timeout) :
    ∃ retries, retries + errors poll k = 5 ∧ pollLoop poll timeout 5 0 = pollLoop poll (timeout - k) retries k := by
  have h := @pollLoop_skip poll timeout 5 0 k rfl (fun j hj => by rw [Nat.zero_add]; exact hgo j hj) hk
  rwa [Nat.zero_add] at h

theorem sendStatus_ready (h : First ReadyAt poll k) (hk : k ≤ timeout) :
    sendStatus poll timeout = if k = timeout then timeoutErr else 0 := by
  obtain ⟨retries, -, hreach⟩ := pollLoop_reach h.2 hk
  rw [sendStatus, hreach, pollLoop_ready h.1, afterLoop]
  refine if_congr ?_ rfl rfl
  omega

theorem sendStatus_fails (h : First FailsAt poll k) (hk : k ≤ timeout) : sendStatus poll timeout ≠ 0 := by
  obtain ⟨retries, hretries, hreach⟩ := pollLoop_reach h.2 hk
  obtain ⟨ret, hret, hne⟩ := @pollLoop_fails _ (timeout - k) _ _ hretries h.1
  rw [sendStatus, hreach, hret]
  exact hne

/-- The last poll of a card that never decides leaves the count at -1. -/
theorem sendStatus_goesOn (h : ∀ k ≤ timeout, GoesOn poll k) : sendStatus poll timeout = 0 := by
  obtain ⟨retries, hretries, hreach⟩ := pollLoop_reach (fun j hj => h j (Nat.le_of_lt hj)) (Nat.le_refl timeout)
  obtain ⟨_, -, hround⟩ := @pollLoop_goesOn _ 0 _ _ hretries (h timeout (Nat.le_refl _))
  rw [sendStatus, hreach, Nat.sub_self, hround]
  rfl

/-- Every run of the loop is one of the three. -/
theorem decided (poll : Nat → Poll) (timeout : Nat) : (∃ k ≤ timeout, First ReadyAt poll k) ∨ (∃ k ≤ timeout, First FailsAt poll k) ∨
    ∀ k ≤ timeout, GoesOn poll k := by
  classical
  by_cases h : ∃ k, k ≤ timeout ∧ ¬ GoesOn poll k
  · obtain ⟨hk, hstops⟩ := Nat.find_spec h
    have hbelow : ∀ j < Nat.find h, GoesOn poll j := fun j hj => by
      by_contra hnot
      exact Nat.find_min h hj ⟨(Nat.le_of_lt hj).trans hk, hnot⟩
    by_cases hready : ReadyAt poll (Nat.find h)
    · exact Or.inl ⟨_, hk, hready, hbelow⟩
    · have hfails : FailsAt poll (Nat.find h) := not_not.mp fun hfails => hstops ⟨hready, hfails⟩
      exact Or.inr (Or.inl ⟨_, hk, hfails, hbelow⟩)
  · refine Or.inr (Or.inr fun k hk => ?_)
    by_contra hnot
    exact h ⟨k, hk, hnot⟩

theorem readyAt_stops (i : Nat) (h : ReadyAt poll i) : ¬ GoesOn poll i := fun hgo => hgo.1 h

theorem failsAt_stops (i : Nat) (h : FailsAt poll i) : ¬ GoesOn poll i := fun hgo => hgo.2 h

/-- The wait tells the truth just when a poll before the last sees the card ready, or one up to the last is an error return. -/
theorem send_status_iff (poll : Nat → Poll) (timeout : Nat) : (sendStatus poll timeout = 0 ↔ SeesReady poll timeout) ↔
    (∃ k < timeout, First ReadyAt poll k) ∨ ∃ k ≤ timeout, First FailsAt poll k := by
  rcases decided poll timeout with ⟨k, hk, h⟩ | ⟨k, hk, h⟩ | hgo
  · rw [sendStatus_ready h hk]
    have hsees : SeesReady poll timeout := ⟨k, hk, h⟩
    by_cases hlast : k = timeout
    · -- seen at the last poll, where the count is 0
      rw [if_pos hlast]
      constructor
      · exact fun htrue => absurd (htrue.mpr hsees) (by decide)
      · rintro (⟨j, hj, hready⟩ | ⟨j, -, hfails⟩)
        · have := First.unique readyAt_stops readyAt_stops h hready
          omega
        · obtain rfl := First.unique readyAt_stops failsAt_stops h hfails
          exact absurd h.1 (not_readyAt_of_failsAt hfails.1)
    · rw [if_neg hlast]
      exact ⟨fun _ => Or.inl ⟨k, by omega, h⟩, fun _ => ⟨fun _ => hsees, fun _ => rfl⟩⟩
  · refine ⟨fun _ => Or.inr ⟨k, hk, h⟩, fun _ => ⟨fun hzero => absurd hzero (sendStatus_fails h hk), ?_⟩⟩
    rintro ⟨j, -, hready⟩
    obtain rfl := First.unique readyAt_stops failsAt_stops hready h
    exact absurd hready.1 (not_readyAt_of_failsAt h.1)
  · rw [sendStatus_goesOn hgo]
    constructor
    · intro htrue
      obtain ⟨k, hk, h⟩ := htrue.mp rfl
      exact absurd (hgo k hk) (readyAt_stops k h.1)
    · rintro (⟨k, hk, h⟩ | ⟨k, hk, h⟩)
      · exact absurd (hgo k (Nat.le_of_lt hk)) (readyAt_stops k h.1)
      · exact absurd (hgo k hk) (failsAt_stops k h.1)

end

/-! ## The callers -/

/-- The answer to a status command -/
def Fate.poll (f : Fate) : Poll := ⟨if f.err then timeoutErr else 0, f.response⟩

/-- The answers from command `n` on -/
def pollsFrom (fate : Nat → Fate) (n : Nat) (k : Nat) : Poll := (fate (n + k)).poll

section
variable {α : Type} {fate : Nat → Fate} {s : Host α}

theorem statusLoop_eq {timeout retries n k : Nat} (hk : s.log.length = n + k) : (statusLoop fate timeout retries s).1 =
    decide (afterLoop (pollLoop (pollsFrom fate n) timeout retries k).1 ≠ 0) := by
  induction timeout generalizing retries s k with
  | zero =>
      rw [statusLoop.eq_def, pollLoop.eq_def, pollsFrom, ← hk, Fate.poll]
      cases herr : (fate s.log.length).err
      · by_cases hready : statusReady (fate s.log.length).response = true
        · simp [herr, hready, afterLoop, timeoutErr]
        · by_cases hmask : (fate s.log.length).response &&& statusMask = 0#32
          · simp [herr, hready, hmask, afterLoop]
          · simp [herr, hready, hmask, afterLoop, commErr]
      · cases retries with
        | zero => simp [herr, afterLoop, timeoutErr]
        | succ retries => simp [herr, afterLoop, timeoutErr]
  | succ timeout ih =>
      have hnext : ({ s with log := s.log ++ [.sendStatus] } : Host α).log.length = n + (k + 1) := by
        rw [List.length_append, hk]
        rfl
      rw [statusLoop.eq_def, pollLoop.eq_def, pollsFrom, ← hk, Fate.poll]
      cases herr : (fate s.log.length).err
      · by_cases hready : statusReady (fate s.log.length).response = true
        · have hcount : (timeout : Int) + 1 ≠ 0 := by omega
          simp [herr, hready, hcount, afterLoop]
        · by_cases hmask : (fate s.log.length).response &&& statusMask = 0#32
          · simpa [herr, hready, hmask] using ih hnext
          · simp [herr, hready, hmask, afterLoop, commErr]
      · cases retries with
        | zero => simp [herr, afterLoop, timeoutErr]
        | succ retries => simpa [herr, timeoutErr] using ih hnext

theorem mmcSendStatus_eq {timeout : Nat} : (mmcSendStatus fate timeout s).1 = decide (sendStatus (pollsFrom fate s.log.length) timeout ≠ 0) :=
  statusLoop_eq rfl

/-- A write that is reported has waited with result 0. -/
theorem mmcWriteBlocks_waits {m : Dev} {start blkcnt : Nat} {src : Nat → α} (hpos : 0 < blkcnt)
    (h : (mmcWriteBlocks m fate start blkcnt src s).1 = blkcnt) : ∃ n, sendStatus (pollsFrom fate n) 1000 = 0 := by
  rw [mmcWriteBlocks] at h
  split at h
  · exact absurd h.symm (Nat.ne_of_gt hpos)
  dsimp only at h
  split at h
  · exact absurd h.symm (Nat.ne_of_gt hpos)
  split at h
  · exact absurd h.symm (Nat.ne_of_gt hpos)
  split at h
  · exact absurd h.symm (Nat.ne_of_gt hpos)
  · rename_i hstatus
    rw [mmcSendStatus_eq, decide_eq_true_eq] at hstatus
    exact ⟨_, not_not.mp hstatus⟩

/-- Without errors of commands the wait alone decides. -/
theorem mmcWriteBlocks_goes {m : Dev} {start blkcnt : Nat} {src : Nat → α} (hle : ulong (start + blkcnt) ≤ m.lba)
    (hworks : ∀ n, (fate n).err = false) (h : ∀ n, sendStatus (pollsFrom fate n) 1000 = 0) :
    (mmcWriteBlocks m fate start blkcnt src s).1 = blkcnt := by
  have hstatus : ∀ s : Host α, (mmcSendStatus fate 1000 s).1 = false := fun s => by
    rw [mmcSendStatus_eq, h]
    rfl
  rw [mmcWriteBlocks, if_neg (Nat.not_lt.mpr hle)]
  simp [mmcSendCmd, hworks, stop_works hworks, hstatus]

end

/-- A card that goes on programming -/
def busy : Fate := ⟨false, 0, 7#32 <<< 9⟩

theorem busy_goesOn {poll : Nat → Poll} {k : Nat} (h : poll k = busy.poll) : GoesOn poll k := by
  have herr : busy.poll.err = 0 := rfl
  have hready : statusReady busy.poll.response = false := by decide
  have hmask : busy.poll.response &&& statusMask = 0 := by decide
  rw [GoesOn, ReadyAt, FailsAt, h, if_pos herr, hready, hmask]
  exact ⟨fun h => Bool.noConfusion h.2, fun h => h.2 rfl⟩

/-- Busy up to the last of the 1001 polls -/
def late (k : Nat) : Poll := if k < 1000 then busy.poll else ⟨0, 1#32 <<< 8⟩

/-- A card that never gets ready passes for a ready one, one that gets ready at the last poll for one that does not. -/
theorem send_status_lies : (sendStatus (pollsFrom (fun _ => busy) 0) 1000 = 0 ∧ ¬ SeesReady (pollsFrom (fun _ => busy) 0) 1000) ∧
    mmcSwitch 0 (pollsFrom (fun _ => busy) 0) = 0 ∧
    (mmcWriteBlocks ⟨true, 4194304, 65535, false, by decide, by decide, by decide⟩ (fun _ => busy) 0 1 id .init).1 = 1 ∧
    (sendStatus late 1000 = timeoutErr ∧ SeesReady late 1000) := by
  have hbusy : ∀ n, sendStatus (pollsFrom (fun _ => busy) n) 1000 = 0 := fun n => sendStatus_goesOn fun k _ => busy_goesOn rfl
  have hlast : late 1000 = ⟨0, 1#32 <<< 8⟩ := if_neg (Nat.lt_irrefl _)
  have hlate : First ReadyAt late 1000 := by
    refine ⟨?_, fun j hj => busy_goesOn (if_pos hj)⟩
    rw [ReadyAt, hlast]
    decide
  refine ⟨⟨hbusy 0, ?_⟩, (if_pos rfl).trans (hbusy 0), ?_, ?_, 1000, Nat.le_refl _, hlate⟩
  · rintro ⟨k, -, h⟩
    exact readyAt_stops k h.1 (busy_goesOn rfl)
  · exact mmcWriteBlocks_goes (by decide) (fun _ => rfl) hbusy
  · rw [sendStatus_ready hlate (Nat.le_refl _), if_pos rfl]

end Uboot.Mmc
