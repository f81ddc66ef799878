import Uboot.Edma.Transmit

/-!
# A full ring

The driver looks at the consumer index only in a call that found room. Once a call ends with all descriptors posted, no
call finds room any more, whatever the hardware does.
-/

namespace Uboot.Edma

open Lib

/-- The hardware has taken a descriptor of a ring that was full when the call looks at the consumer index. -/
def State.LeavesRoom (s : State) : Event → Prop
  | .complete => s.inCall = true → s.ring.posted.card + 1 < s.ring.count
  | _ => True

def State.RoomRun : State → List Event → Prop
  | _, [] => True
  | s, e :: es => s.LeavesRoom e ∧ ∀ s', s.step e = some s' → s'.RoomRun es

/-- The next call finds room. -/
def State.Open (s : State) : Prop := ∃ d e, s.ring.Span d e ∧ (s.inCall = false → d + e + 1 < s.ring.count)

/-- No call finds room. -/
def State.Shut (s : State) : Prop := ∃ d e, s.ring.Span d e ∧ s.inCall = false ∧ d + e + 1 = s.ring.count

theorem step_open {s : State} (h : s.Open) (hu : s.ring.count < 2 ^ 16) (event : Event) :
    ∃ s', s.step event = some s' ∧ s'.ring.count = s.ring.count ∧
      (s.LeavesRoom event → s'.Open) ∧ (¬ s.LeavesRoom event → s'.Shut) := by
  obtain ⟨d, e, hspan, hroom⟩ := h
  obtain ⟨s', hs', hcount, d', e', hspan', hcases⟩ := step_cases hspan hu event
  refine ⟨s', hs', hcount, ?_⟩
  have hlt := hspan'.room
  rcases hcases with ⟨hcall, hsum, hcomplete⟩ | ⟨-, hcall, hne, -⟩ | ⟨rfl, hcall, hdone, hsum⟩
  · refine ⟨fun _ => ⟨d', e', hspan', fun hidle => ?_⟩, fun hno => absurd ?_ hno⟩
    · have := hroom (hcall ▸ hidle)
      omega
    · cases event with
      | complete => simp [State.LeavesRoom, hcomplete rfl]
      | _ => trivial
  · refine ⟨fun _ => ⟨d', e', hspan', by simp [hcall]⟩, fun hno => absurd ?_ hno⟩
    cases event with
    | complete => exact absurd rfl hne
    | _ => trivial
  · simp only [State.LeavesRoom, hcall, forall_const, hspan.card_posted]
    refine ⟨fun hlt => ⟨d', e', hspan', fun _ => by omega⟩, fun hge => ⟨d', e', hspan', hdone, by omega⟩⟩

theorem step_shut {s : State} (h : s.Shut) (hu : s.ring.count < 2 ^ 16) (event : Event) :
    ∃ s', s.step event = some s' ∧ s'.ring.count = s.ring.count ∧ s'.Shut := by
  obtain ⟨d, e, hspan, hidle, hfull⟩ := h
  obtain ⟨s', hs', hcount, d', e', hspan', hcases⟩ := step_cases hspan hu event
  rcases hcases with ⟨hcall, hsum, -⟩ | ⟨-, -, -, hroom⟩ | ⟨-, hcall, -⟩
  · exact ⟨s', hs', hcount, d', e', hspan', hcall.trans hidle, by omega⟩
  · omega
  · simp [hidle] at hcall

theorem run_shut {s : State} (h : s.Shut) (hu : s.ring.count < 2 ^ 16) (events : List Event) :
    ∃ s', s.run events = some s' ∧ s'.ring.count = s.ring.count ∧ s'.Shut := by
  induction events generalizing s with
  | nil => exact ⟨s, rfl, rfl, h⟩
  | cons event events ih =>
      obtain ⟨s₁, hs₁, hc₁, h₁⟩ := step_shut h hu event
      obtain ⟨s', hs', hc', h'⟩ := ih h₁ (hc₁ ▸ hu)
      exact ⟨s', by rw [State.run, hs₁]; exact hs', hc'.trans hc₁, h'⟩

/-- A run leaves the ring open exactly when all its calls do. -/
theorem run_open {s : State} (h : s.Open) (hu : s.ring.count < 2 ^ 16) (events : List Event) :
    ∃ s', s.run events = some s' ∧ s'.ring.count = s.ring.count ∧ (s.RoomRun events → s'.Open) ∧
      (¬ s.RoomRun events → s'.Shut) := by
  induction events generalizing s with
  | nil => exact ⟨s, rfl, rfl, fun _ => h, fun hno => absurd trivial hno⟩
  | cons event events ih =>
      obtain ⟨s₁, hs₁, hc₁, hopen, hshut⟩ := step_open h hu event
      have hrun : s.run (event :: events) = s₁.run events := by
        rw [State.run, hs₁]
        rfl
      by_cases hroom : s.LeavesRoom event
      · obtain ⟨s', hs', hc', hopen', hshut'⟩ := ih (hopen hroom) (hc₁ ▸ hu)
        have hrest : s.RoomRun (event :: events) ↔ s₁.RoomRun events := by
          simp [State.RoomRun, hroom, hs₁]
        rw [hrun, hrest]
        exact ⟨s', hs', hc'.trans hc₁, hopen', hshut'⟩
      · obtain ⟨s', hs', hc', h'⟩ := run_shut (hshut hroom) (hc₁ ▸ hu) events
        rw [hrun]
        exact ⟨s', hs', hc'.trans hc₁, fun hall => absurd hall.1 hroom, fun _ => h'⟩

/-- The next call returns 0, its descriptor is posted and the rest of the call ends. -/
def State.Accepts (s : State) (packet : Nat) (length : Int) : Prop :=
  ∃ ring, s.ring.snd packet length = some ring ∧ s.ring.swNextToFill ∈ ring.posted ∧
    ring.hwDesc s.ring.swNextToFill = ⟨packet, length.toNat⟩ ∧ ring.txComplete.isSome

theorem snd_none_iff {r : Ring} {d e : Nat} (h : r.Span d e) (hu : r.count < 2 ^ 16) (packet : Nat) (length : Int) :
    r.snd packet length = none ↔ r.count ≤ d + e + 1 := by
  have hroom := h.room
  rw [Ring.snd, h.tpdAvailable_eq hu]
  simp only [ite_eq_left_iff, reduceCtorEq, imp_false, not_not]
  omega

theorem open_accepts {s : State} (h : s.Open) (hu : s.ring.count < 2 ^ 16) (hidle : s.inCall = false) {packet : Nat}
    {length : Int} (hpos : 0 < length) (hlen : length < 2 ^ 16) : s.Accepts packet length := by
  obtain ⟨d, e, hspan, hroom⟩ := h
  have hlt := hroom hidle
  obtain ⟨hu16, hne⟩ := u16_of_mem hpos hlen
  cases hs : s.ring.snd packet length with
  | none =>
      have := (snd_none_iff hspan hu packet length).mp hs
      omega
  | some ring =>
      obtain ⟨hcount, hcons, -, hpost⟩ := hspan.snd hu hs
      obtain ⟨hspan', hdesc⟩ := hpost hne
      obtain ⟨r', hr', -⟩ := hspan'.complete
      refine ⟨ring, hs, ?_, ?_, by rw [hr']; rfl⟩
      · -- the new descriptor is the last of those that are posted
        refine hspan'.mem_posted.mpr ⟨e, by omega, ?_⟩
        rw [hcons, hcount, ← hspan.prod_eq_add, hspan.prod_eq]
      · rw [hdesc, Function.update_self, hu16]

theorem shut_refuses {s : State} (h : s.Shut) (hu : s.ring.count < 2 ^ 16) (packet : Nat) (length : Int) :
    ¬ s.Accepts packet length := by
  obtain ⟨d, e, hspan, -, hfull⟩ := h
  rintro ⟨ring, hs, -⟩
  rw [(snd_none_iff hspan hu packet length).mpr (by omega)] at hs
  cases hs

/-- A length that does not fit is cut off. -/
theorem accepts_length {s : State} {d e : Nat} (hspan : s.ring.Span d e) (hu : s.ring.count < 2 ^ 16) {packet : Nat}
    {length : Int} (h : s.Accepts packet length) : length < 2 ^ 16 := by
  obtain ⟨ring, hs, hmem, hdesc, -⟩ := h
  obtain ⟨hcount, hcons, hsame, hpost⟩ := hspan.snd hu hs
  by_cases hl : u16 length = 0
  · rw [hsame hl] at hmem
    exact absurd (hspan.posted_subset_owned hmem) hspan.fill_not_owned
  · rw [(hpost hl).2, Function.update_self, Tpd.mk.injEq] at hdesc
    have hlt : u16 length < 2 ^ 16 := by
      rw [u16]
      omega
    omega

/-- After every run, when the hardware has taken all descriptors, the next call is accepted if and only if no call of the
run left the ring full, and the length of the packet fits. -/
theorem recovers_iff {count : Nat} (hu : count < 2 ^ 16) (hcount : 2 ≤ count) {idx : Nat} (hidx : idx < count)
    (hwDesc : Nat → Tpd) (mem : Mem) (events : List Event) :
    ∃ s, (State.init count idx hwDesc mem).run events = some s ∧
      (s.inCall = false → s.ring.posted = ∅ → ∀ packet length, 0 < length →
        (s.Accepts packet length ↔ (State.init count idx hwDesc mem).RoomRun events ∧ length < 2 ^ 16)) := by
  have hspan := init_span hidx hwDesc mem
  have hinit : (State.init count idx hwDesc mem).Open := ⟨0, 0, hspan, fun _ => hcount⟩
  obtain ⟨s, hs, hc, hopen, hshut⟩ := run_open hinit hu events
  have hc : s.ring.count = count := hc
  refine ⟨s, hs, fun hidle _ packet length hpos => ?_⟩
  by_cases hroom : (State.init count idx hwDesc mem).RoomRun events
  · obtain ⟨d, e, hspan', -⟩ := hopen hroom
    refine ⟨fun hacc => ⟨hroom, accepts_length hspan' (hc ▸ hu) hacc⟩, fun h => ?_⟩
    exact open_accepts (hopen hroom) (hc ▸ hu) hidle hpos h.2
  · exact ⟨fun hacc => absurd hacc (shut_refuses (hshut hroom) (hc ▸ hu) packet length), fun h => absurd h.1 hroom⟩

/-- A packet and its descriptor taken, in a ring of two slots. -/
theorem recovers_iff_example :
    ∃ s, (State.init 2 0 (fun _ => ⟨0, 0⟩) fun _ => 0).run [.snd 16 60, .fetch, .complete] = some s ∧
      s.Accepts 16 60 := by
  obtain ⟨s, hs, h⟩ := recovers_iff (show 2 < 2 ^ 16 by decide) (le_refl 2) (show 0 < 2 by decide) (fun _ => ⟨0, 0⟩)
    (fun _ => 0) [.snd 16 60, .fetch, .complete]
  cases hs
  refine ⟨_, rfl, (h rfl (by decide) 16 60 (by decide)).mpr ⟨?_, by decide⟩⟩
  refine ⟨trivial, fun s hs => ?_⟩
  cases hs
  refine ⟨trivial, fun s hs => ?_⟩
  cases hs
  exact ⟨fun _ => by decide, fun s hs => trivial⟩

/-- Seven calls while the hardware is busy, which then takes all seven packets. -/
def sevenCalls : List Event :=
  [.snd 16 60, .complete, .snd 16 60, .complete, .snd 16 60, .complete, .snd 16 60, .complete, .snd 16 60, .complete,
    .snd 16 60, .complete, .snd 16 60, .complete, .fetch, .fetch, .fetch, .fetch, .fetch, .fetch, .fetch]

theorem full_ring_stays_full :
    ¬ ∀ s, (State.init 8 0 (fun _ => ⟨0, 0⟩) fun _ => 0).run sevenCalls = some s → s.inCall = false →
      s.ring.posted = ∅ → ∀ packet length, 0 < length → s.Accepts packet length := by
  intro h
  have hrun : ((State.init 8 0 (fun _ => ⟨0, 0⟩) fun _ => 0).run sevenCalls).isSome = true := by decide
  obtain ⟨s, hs⟩ := Option.isSome_iff_exists.mp hrun
  have hend : ((State.init 8 0 (fun _ => ⟨0, 0⟩) fun _ => 0).run sevenCalls).map
      (fun s => (s.inCall, decide (s.ring.posted = ∅), s.ring.snd 16 60 |>.isNone)) = some (false, true, true) := by
    decide
  rw [hs, Option.map_some, Option.some.injEq] at hend
  simp only [Prod.mk.injEq, decide_eq_true_eq] at hend
  obtain ⟨ring, hring, -⟩ := h s hs hend.1 hend.2.1 16 60 (by decide)
  rw [hring] at hend
  simp at hend

end Uboot.Edma
