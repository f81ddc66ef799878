import Uboot.Net.Basic

/-!
# What the network loop leaves behind

The loop cleans up where it ends by Ctrl-C, success or failure. It does not where a timeout handler has run, and where
the network is not configured any more at a restart.
-/

namespace Uboot.Net

variable {σ H : Type} {code : Code σ H} {p : Proto} {r : Round} {s s' : Stack σ H}

/-- No timeout handler is armed, and the UDP and ARP handlers are the dummy handlers. -/
structure Quiescent (s : Stack σ H) : Prop where
  timeout : s.timeHandler = none
  udp : s.udpPacketHandler = none
  arp : s.arpPacketHandler = none

/-- When `NetLoop` has returned after the protocol was started. -/
def LeavesQuiescent (res : Result σ H) : Prop :=
  ∀ ret s, res = .returned ret s → s.netDevExists = true → Quiescent s

/-- A turn that returns without `net_cleanup_loop` finds nothing to clean up. -/
structure TurnOk (code : Code σ H) (p : Proto) (r : Round) (s : Stack σ H) : Prop where
  /-- The timeout handler that runs leaves no handler, neither its own ones nor those of before. -/
  timeout : ∀ f, r.ctrlc = false → (atTimer code r s).netDevExists = true → (atTimer code r s).expired = some f →
    Quiescent (runTimeHandler code f (atTimer code r s))
  /-- A restart finds the network configured, or no handler is set. -/
  restart : r.ctrlc = false → (atTimer code r s).netDevExists = true → (atTimer code r s).expired = none →
    (atTimer code r s).netState = .restart →
      (netCheckPrereq (netInitLoop (Stack.netSetState { atTimer code r s with netRestarted := true } .cont)) p).2 = 1 →
        Quiescent (atTimer code r s)

/-- Every turn of a run. -/
def RunOk (code : Code σ H) (p : Proto) : List Round → Stack σ H → Prop
  | [], _ => True
  | r :: rounds, s => TurnOk code p r s ∧ ∀ s', netLoopStep code p r s = .running s' → RunOk code p rounds s'

/-! ## What is kept -/

/-- The handlers, and whether the protocol was started. -/
def Stack.handlers (s : Stack σ H) : Option (TimeHandler H) × Option H × Option H × Bool :=
  (s.timeHandler, s.udpPacketHandler, s.arpPacketHandler, s.netDevExists)

theorem quiescent_iff : Quiescent s ↔ s.timeHandler = none ∧ s.udpPacketHandler = none ∧ s.arpPacketHandler = none :=
  ⟨fun h => ⟨h.timeout, h.udp, h.arp⟩, fun h => ⟨h.1, h.2.1, h.2.2⟩⟩

theorem quiescent_congr (h : s'.handlers = s.handlers) : Quiescent s' ↔ Quiescent s := by
  simp only [Stack.handlers, Prod.mk.injEq] at h
  rw [quiescent_iff, quiescent_iff, h.1, h.2.1, h.2.2.1]

theorem netDevExists_congr (h : s'.handlers = s.handlers) : s'.netDevExists = s.netDevExists :=
  congrArg (fun x => x.2.2.2) h

@[simp] theorem ethCurrentChanged_handlers (s : Stack σ H) : s.ethCurrentChanged.handlers = s.handlers := by
  unfold Stack.ethCurrentChanged
  split
  next => split <;> rfl
  next => split <;> rfl

@[simp] theorem ethTryAnother_handlers (s : Stack σ H) (first : Bool) : (s.ethTryAnother first).handlers = s.handlers := by
  unfold Stack.ethTryAnother
  split
  next => rfl
  next =>
    split
    next => rfl
    next =>
      have hwrap : ∀ (c : Prop) [Decidable c] (u : Stack σ H),
          (if c then { u with netRestartWrap := true } else u).handlers = u.handlers := by
        intro c _ u
        split <;> rfl
      exact (hwrap _ _).trans (ethCurrentChanged_handlers _)

@[simp] theorem ethSetCurrent_handlers (s : Stack σ H) : s.ethSetCurrent.handlers = s.handlers := by
  unfold Stack.ethSetCurrent
  split
  next => rfl
  next =>
    split
    next => exact ethCurrentChanged_handlers _
    next =>
      split
      next => rfl
      next => exact ethCurrentChanged_handlers _

theorem ethInitLoop_handlers (old n : Nat) (s : Stack σ H) : (Stack.ethInitLoop old n s).1.handlers = s.handlers := by
  induction n generalizing s with
  | zero => rfl
  | succ n ih =>
      rw [Stack.ethInitLoop]
      dsimp only
      split
      next => rfl
      next =>
        split
        next => exact ethTryAnother_handlers _ _
        next => exact (ih _).trans (ethTryAnother_handlers _ _)

@[simp] theorem ethInit_handlers (s : Stack σ H) : s.ethInit.1.handlers = s.handlers := ethInitLoop_handlers _ _ _

@[simp] theorem netInitLoop_handlers (s : Stack σ H) : (netInitLoop s).handlers = s.handlers := by
  unfold netInitLoop
  dsimp only
  split <;> rfl

@[simp] theorem arpRequest_handlers (s : Stack σ H) : s.arpRequest.handlers = s.handlers := by
  unfold Stack.arpRequest
  split <;> rfl

theorem netSendUdpPacket_handlers (s : Stack σ H) (dest : Nat) : (s.netSendUdpPacket dest).handlers = s.handlers := by
  unfold Stack.netSendUdpPacket
  split
  next => rfl
  next =>
    split
    next => rfl
    next => exact arpRequest_handlers _

/-- `NetStartAgain` leaves the handlers, or its own timeout handler and no UDP handler. -/
theorem netStartAgain_cases (s : Stack σ H) : s.netStartAgain.handlers = s.handlers ∨
    s.netStartAgain.handlers = (some .startAgainTimeout, none, s.arpPacketHandler, s.netDevExists) := by
  unfold Stack.netStartAgain
  split
  next => exact Or.inl rfl
  next =>
    dsimp only
    have hkeep : ((Stack.ethTryAnother { s with netTryCount := s.netTryCount + 1 } !s.netRestarted).ethInit).1.handlers =
        s.handlers := by
      rw [ethInit_handlers, ethTryAnother_handlers]
      rfl
    generalize ((Stack.ethTryAnother { s with netTryCount := s.netTryCount + 1 } !s.netRestarted).ethInit).1 = u at hkeep
    split
    next =>
      split
      next =>
        simp only [Stack.handlers, Prod.mk.injEq] at hkeep
        refine Or.inr ?_
        simp [Stack.handlers, Stack.netSetUdpHandler, Stack.netSetTimeout, hkeep]
      next => exact Or.inl hkeep
    next => exact Or.inl hkeep

theorem netStartAgain_netDevExists (s : Stack σ H) : s.netStartAgain.netDevExists = s.netDevExists := by
  rcases netStartAgain_cases s with h | h
  · exact netDevExists_congr h
  · exact congrArg (fun x => x.2.2.2) h

theorem call_netDevExists (s : Stack σ H) (c : Call H) : (s.call c).netDevExists = s.netDevExists := by
  cases c with
  | startAgain => exact netStartAgain_netDevExists s
  | setTimeout iv f =>
      simp only [Stack.call, Stack.netSetTimeout]
      split <;> rfl
  | sendUdp dest => exact netDevExists_congr (netSendUdpPacket_handlers s dest)
  | sendPing => exact netDevExists_congr (arpRequest_handlers _)
  | _ => rfl

theorem perform_netDevExists (s : Stack σ H) (body : Stack σ H → σ × List (Call H)) :
    (s.perform body).netDevExists = s.netDevExists := by
  have hfold : ∀ (calls : List (Call H)) (u : Stack σ H), (calls.foldl Stack.call u).netDevExists = u.netDevExists := by
    intro calls
    induction calls with
    | nil => exact fun _ => rfl
    | cons c calls ih => exact fun u => (ih _).trans (call_netDevExists u c)
  exact hfold _ _

theorem runTimeHandler_netDevExists (f : TimeHandler H) (s : Stack σ H) :
    (runTimeHandler code f s).netDevExists = s.netDevExists := by
  cases f with
  | startAgainTimeout => rfl
  | proto f => exact perform_netDevExists _ _

/-- The prerequisites are looked at without a change where they are not met. -/
theorem netCheckPrereq_one (h : (netCheckPrereq s p).2 = 1) : (netCheckPrereq s p).1 = s := by
  have hether : ∀ u : Stack σ H, (checkEther u).2 = 1 → (checkEther u).1 = u := by
    intro u hu
    unfold checkEther at hu ⊢
    split at hu
    next h1 =>
      split at hu
      next h2 => rw [if_pos h1, if_pos h2]
      next => cases hu
    next => cases hu
  have hour : ∀ u : Stack σ H, (checkOurIp u).2 = 1 → (checkOurIp u).1 = u := by
    intro u hu
    unfold checkOurIp at hu ⊢
    split at hu
    next h1 => rw [if_pos h1]
    next h1 => rw [if_neg h1]; exact hether u hu
  cases p with
  | arp => cases h
  | netcons => exact hour s h
  | tftpsrv => exact hour s h
  | rarp => exact hether s h
  | bootp => exact hether s h
  | cdp => exact hether s h
  | dhcp => exact hether s h
  | linklocal => exact hether s h
  | _ =>
      simp only [netCheckPrereq] at h ⊢
      split at h
      next h1 => rw [if_pos h1]
      next h1 => rw [if_neg h1]; exact hour s h

/-- `NetLoop` from `restart` on, where the network is not configured. -/
theorem netLoopStart_false (h : netLoopStart code p s = (s', false)) :
    (netCheckPrereq (netInitLoop (s.netSetState .cont)) p).2 = 1 ∧ s'.handlers = s.handlers := by
  unfold netLoopStart at h
  split at h
  next => cases h
  next u heq =>
    cases h
    have hone : (netCheckPrereq (netInitLoop (s.netSetState .cont)) p).2 = 1 := by rw [heq]
    have hsame := netCheckPrereq_one hone
    rw [heq] at hsame
    refine ⟨hone, ?_⟩
    rw [show s' = netInitLoop (s.netSetState .cont) from hsame, netInitLoop_handlers]
    rfl
  next => cases h

theorem netLoopStart_one (code : Code σ H) (h : (netCheckPrereq (netInitLoop (s.netSetState .cont)) p).2 = 1) :
    ∃ s', netLoopStart code p s = (s', false) := by
  unfold netLoopStart
  split
  next heq => rw [heq] at h; cases h
  next u heq => exact ⟨u, rfl⟩
  next u n _ hne heq =>
    rw [heq] at h
    exact absurd h hne

/-! ## One turn and every run -/

/-- The ends that clean up. -/
theorem quiescent_done (s : Stack σ H) : Quiescent (done s.netCleanupLoop) := ⟨rfl, rfl, rfl⟩

theorem leavesQuiescent_returned {ret : Int} :
    LeavesQuiescent (.returned ret s) ↔ (s.netDevExists = true → Quiescent s) := by
  refine ⟨fun h => h ret s rfl, fun h ret s' h' => ?_⟩
  cases h'
  exact h

theorem leavesQuiescent_running : LeavesQuiescent (.running s) := fun _ _ h => nomatch h

theorem netLoopSwitch_cases (s : Stack σ H) : (∃ ret u, netLoopSwitch s = .returned ret u ∧ Quiescent u) ∨
    (s.netState = .restart ∧ netLoopSwitch s = .restart { s with netRestarted := true }) ∨
      (s.netState = .cont ∧ netLoopSwitch s = .continue s) := by
  rw [netLoopSwitch]
  cases hstate : s.netState with
  | restart => exact Or.inr (Or.inl ⟨rfl, rfl⟩)
  | success =>
      refine Or.inl ⟨_, _, rfl, ?_⟩
      split
      next => exact ⟨rfl, rfl, rfl⟩
      next => exact quiescent_done s
  | fail => exact Or.inl ⟨_, _, rfl, quiescent_done s⟩
  | cont => exact Or.inr (Or.inr ⟨rfl, rfl⟩)

theorem netLoopStep_leaves_iff : LeavesQuiescent (netLoopStep code p r s) ↔ TurnOk code p r s := by
  rw [netLoopStep, netLoopTurn]
  cases hctrlc : r.ctrlc with
  | true =>
      rw [if_pos rfl]
      refine ⟨fun _ => ⟨fun _ h => ?_, fun h => ?_⟩, fun _ => leavesQuiescent_returned.mpr fun _ => quiescent_done _⟩
      · rw [hctrlc] at h; cases h
      · rw [hctrlc] at h; cases h
  | false =>
      rw [if_neg (by decide)]
      cases hexp : (atTimer code r s).expired with
      | some f =>
          dsimp only
          rw [leavesQuiescent_returned, runTimeHandler_netDevExists]
          constructor
          · intro h
            refine ⟨fun f' _ hdev hf => ?_, fun _ _ hnone => ?_⟩
            · rw [hexp] at hf
              cases hf
              exact h hdev
            · rw [hexp] at hnone; cases hnone
          · exact fun h hdev => h.timeout f hctrlc hdev hexp
      | none =>
          dsimp only
          have htimeout : ∀ f, r.ctrlc = false → (atTimer code r s).netDevExists = true →
              (atTimer code r s).expired = some f → Quiescent (runTimeHandler code f (atTimer code r s)) := by
            intro f _ _ hf
            rw [hexp] at hf
            cases hf
          rcases netLoopSwitch_cases (atTimer code r s) with ⟨ret, u, hswitch, hquiet⟩ | ⟨hstate, hswitch⟩ | ⟨hstate, hswitch⟩
          · rw [hswitch]
            refine ⟨fun _ => ⟨htimeout, ?_⟩, fun _ => leavesQuiescent_returned.mpr fun _ => hquiet⟩
            intro _ _ _ hstate
            rw [netLoopSwitch, hstate] at hswitch
            cases hswitch
          · rw [hswitch]
            dsimp only
            have hkeep : Stack.handlers { atTimer code r s with netRestarted := true } = (atTimer code r s).handlers := rfl
            split
            next u hstart =>
              refine ⟨fun _ => ⟨htimeout, fun _ _ _ _ hone => ?_⟩, fun _ => leavesQuiescent_running⟩
              obtain ⟨u', hu'⟩ := netLoopStart_one code hone
              rw [hu'] at hstart
              cases hstart
            next u hstart =>
              obtain ⟨hone, hhandlers⟩ := netLoopStart_false hstart
              rw [hkeep] at hhandlers
              rw [leavesQuiescent_returned, netDevExists_congr hhandlers, quiescent_congr hhandlers]
              exact ⟨fun h => ⟨htimeout, fun _ hdev _ _ _ => h hdev⟩,
                fun h hdev => h.restart hctrlc hdev hexp hstate hone⟩
          · rw [hswitch]
            refine ⟨fun _ => ⟨htimeout, ?_⟩, fun _ => leavesQuiescent_running⟩
            intro _ _ _ h
            rw [hstate] at h
            cases h

theorem netLoopRun_leaves_iff (rounds : List Round) (s : Stack σ H) :
    LeavesQuiescent (netLoopRun code p rounds s) ↔ RunOk code p rounds s := by
  induction rounds generalizing s with
  | nil =>
      refine ⟨fun _ => trivial, fun _ ret s' h => ?_⟩
      cases h
  | cons r rounds ih =>
      rw [netLoopRun, RunOk, ← netLoopStep_leaves_iff]
      cases hstep : netLoopStep code p r s with
      | returned ret s' =>
          dsimp only
          refine ⟨fun h => ⟨h, fun _ h' => (nomatch h')⟩, fun h => h.1⟩
      | running s' =>
          dsimp only
          rw [ih]
          constructor
          · intro h
            refine ⟨fun ret u h' => (nomatch h'), fun u h' => ?_⟩
            cases h'
            exact h
          · exact fun h => h.2 s' rfl

theorem netLoopEnter_leaves (code : Code σ H) (p : Proto) (s : Stack σ H) : LeavesQuiescent (netLoopEnter code p s) := by
  rw [netLoopEnter]
  have hinit : ((netInit { s with netRestarted := false, netDevExists := false, netTryCount := 1 }).ethSetCurrent.ethInit).1.netDevExists =
      false := by
    have hkeep := (ethInit_handlers _).trans (ethSetCurrent_handlers
      (netInit { s with netRestarted := false, netDevExists := false, netTryCount := 1 }))
    rw [netDevExists_congr hkeep, netInit, netDevExists_congr (netInitLoop_handlers _)]
    split <;> rfl
  split
  next u h =>
    refine leavesQuiescent_returned.mpr fun hdev => ?_
    rw [h, hdev] at hinit
    cases hinit
  next u h =>
    split
    next => exact leavesQuiescent_running
    next u' hstart =>
      refine leavesQuiescent_returned.mpr fun hdev => ?_
      rw [h, ← netDevExists_congr (netLoopStart_false hstart).2, hdev] at hinit
      cases hinit

/-- When `NetLoop` leaves the network stack quiescent. -/
theorem netLoop_quiescent_iff (code : Code σ H) (p : Proto) (rounds : List Round) (s : Stack σ H) :
    LeavesQuiescent (netLoop code p rounds s) ↔
      ∀ s', netLoopEnter code p s = .running s' → RunOk code p rounds s' := by
  have henter := netLoopEnter_leaves code p s
  rw [netLoop]
  cases hres : netLoopEnter code p s with
  | returned ret u =>
      rw [hres] at henter
      exact ⟨fun _ _ h => (nomatch h), fun _ => henter⟩
  | running u =>
      dsimp only
      rw [netLoopRun_leaves_iff]
      refine ⟨fun h s' h' => ?_, fun h => h u rfl⟩
      cases h'
      exact h

end Uboot.Net
