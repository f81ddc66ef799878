import Uboot.Edma.Accounting

/-!
# What the hardware sends

A call returns after one look at the consumer index. What the hardware emits is what was handed over as long as no buffer
is refilled before its descriptor was fetched, and the lengths fit their field.
-/

namespace Uboot.Edma

open Lib

/-- A refill leaves the buffers of posted descriptors as they are, and a packet that is accepted has a length that fits
16 bits and is not zero. -/
def State.Sound (s : State) : Event → Prop
  | .fill addr bytes => s.inCall = false → ∀ i ∈ s.ring.posted,
      (s.mem.write addr bytes).read (s.ring.hwDesc i).addr (s.ring.hwDesc i).len =
        s.mem.read (s.ring.hwDesc i).addr (s.ring.hwDesc i).len
  | .snd _ length => s.inCall = false → s.ring.tpdAvailable ≠ 0 → 0 < length ∧ length < 2 ^ 16
  | _ => True

def State.SoundRun : State → List Event → Prop
  | _, [] => True
  | s, e :: es => s.Sound e ∧ ∀ s', s.step e = some s' → s'.SoundRun es

/-- What is in the buffers of the `e` posted descriptors. -/
def State.waiting (s : State) (e : Nat) : List (List UInt8) :=
  (List.range e).map fun i =>
    let tpd := s.ring.hwDesc ((s.ring.consIdx + i) % s.ring.count)
    s.mem.read tpd.addr tpd.len

/-- What was handed over was emitted, or waits in order. -/
structure State.InOrder (s : State) (d e : Nat) : Prop where
  span : s.ring.Span d e
  sent_eq : s.sent = s.emitted ++ s.waiting e

theorem u16_of_mem {n : Int} (h0 : 0 < n) (hlt : n < 2 ^ 16) : u16 n = n.toNat ∧ u16 n ≠ 0 := by
  rw [u16, Int.emod_eq_of_lt h0.le hlt]
  omega

theorem waiting_succ (s : State) (e : Nat) :
    s.waiting (e + 1) = s.mem.read (s.ring.hwDesc (s.ring.consIdx % s.ring.count)).addr
      (s.ring.hwDesc (s.ring.consIdx % s.ring.count)).len ::
        (List.range e).map fun i =>
          s.mem.read (s.ring.hwDesc ((s.ring.consIdx + (i + 1)) % s.ring.count)).addr
            (s.ring.hwDesc ((s.ring.consIdx + (i + 1)) % s.ring.count)).len := by
  rw [State.waiting, List.range_succ_eq_map, List.map_cons, List.map_map]
  rfl

theorem step_inOrder {s : State} {d e : Nat} (h : s.InOrder d e) (hu : s.ring.count < 2 ^ 16) {event : Event}
    (hsound : s.Sound event) :
    ∃ s', s.step event = some s' ∧ s'.ring.count = s.ring.count ∧ ∃ d' e', s'.InOrder d' e' := by
  obtain ⟨hspan, hsent⟩ := h
  cases event with
  | fill addr bytes =>
      refine ⟨_, rfl, ?_⟩
      split
      · exact ⟨rfl, d, e, hspan, hsent⟩
      · next hcall =>
          refine ⟨rfl, d, e, hspan, hsent.trans (congrArg (s.emitted ++ ·) (List.map_congr_left fun i hi => ?_))⟩
          have hposted := hspan.mem_posted.mpr ⟨i, List.mem_range.mp hi, rfl⟩
          exact (hsound (by simpa using hcall) _ hposted).symm
  | snd packet length =>
      simp only [State.step]
      split
      · exact ⟨s, rfl, rfl, d, e, hspan, hsent⟩
      · next hcall =>
          split
          · exact ⟨s, rfl, rfl, d, e, hspan, hsent⟩
          · next ring hs =>
              obtain ⟨hcount, hcons, _, hpost⟩ := hspan.snd hu hs
              have havail : s.ring.tpdAvailable ≠ 0 := by
                simp only [Ring.snd, Option.ite_none_left_eq_some] at hs
                omega
              obtain ⟨h0, hlt⟩ := hsound (by simpa using hcall) havail
              obtain ⟨hlen, hne⟩ := u16_of_mem h0 hlt
              obtain ⟨hspan', hdesc⟩ := hpost hne
              refine ⟨_, rfl, hcount, d, e + 1, hspan', ?_⟩
              -- the new descriptor is the last one, and the others are not touched
              have hold : ∀ i < e, (s.ring.consIdx + i) % s.ring.count ≠ s.ring.swNextToFill := by
                intro i hi he
                have hposted := hspan.mem_posted.mpr ⟨i, hi, he⟩
                exact hspan.fill_not_owned (hspan.posted_subset_owned hposted)
              have hnew : (s.ring.consIdx + e) % s.ring.count = s.ring.swNextToFill := by
                rw [← hspan.prod_eq_add, hspan.prod_eq]
              simp only [State.waiting, hcount, hcons, hdesc, List.range_succ, List.map_append, List.map_cons,
                List.map_nil, hnew, Function.update_self, hlen, contents]
              rw [hsent, List.append_assoc]
              congr 2
              refine List.map_congr_left fun i hi => ?_
              rw [Function.update_of_ne (hold i (List.mem_range.mp hi))]
  | complete =>
      simp only [State.step]
      split
      · obtain ⟨r', hr, hspan', hcount, hdesc, hcons⟩ := hspan.complete
        rw [hr]
        refine ⟨_, rfl, hcount, 0, e, hspan', ?_⟩
        simp only [State.waiting, hcount, hdesc, hcons]
        exact hsent
      · exact ⟨s, rfl, rfl, d, e, hspan, hsent⟩
  | fetch =>
      simp only [State.step]
      split
      · exact ⟨s, rfl, rfl, d, e, hspan, hsent⟩
      · next hne =>
          obtain ⟨e', rfl, hspan'⟩ := hspan.fetch hne
          refine ⟨_, rfl, rfl, d + 1, e', hspan', ?_⟩
          rw [hsent, waiting_succ, Nat.mod_eq_of_lt hspan.cons_lt]
          simp only [State.waiting, Nat.mod_add_mod, List.append_assoc, List.singleton_append, Nat.add_assoc,
            Nat.add_comm 1]

theorem run_inOrder {s : State} {d e : Nat} (h : s.InOrder d e) (hu : s.ring.count < 2 ^ 16) {events : List Event}
    (hsound : s.SoundRun events) : ∃ s', s.run events = some s' ∧ ∃ d' e', s'.InOrder d' e' := by
  induction events generalizing s d e with
  | nil => exact ⟨s, rfl, d, e, h⟩
  | cons event events ih =>
      obtain ⟨s₁, hs₁, hc₁, d₁, e₁, h₁⟩ := step_inOrder h hu hsound.1
      obtain ⟨s', hs', hin⟩ := ih h₁ (hc₁ ▸ hu) (hsound.2 s₁ hs₁)
      exact ⟨s', by rw [State.run, hs₁]; exact hs', hin⟩

/-- In every sound run the frames that the hardware emitted are, in order, the contents that were handed over. -/
theorem transmits_in_order {count : Nat} (hu : count < 2 ^ 16) {idx : Nat} (hidx : idx < count) (hwDesc : Nat → Tpd)
    (mem : Mem) {events : List Event} (hsound : (State.init count idx hwDesc mem).SoundRun events) :
    ∃ s, (State.init count idx hwDesc mem).run events = some s ∧ s.emitted <+: s.sent := by
  obtain ⟨s, hs, d, e, h⟩ := run_inOrder ⟨init_span hidx hwDesc mem, rfl⟩ hu hsound
  exact ⟨s, hs, _, h.sent_eq.symm⟩

/-- A packet that is fetched before its buffer is refilled. -/
theorem transmits_in_order_example :
    ∃ s, (State.init 8 0 (fun _ => ⟨0, 0⟩) fun _ => 0).run [.fill 0 [1], .snd 0 1, .fetch, .complete, .fill 0 [2]] = some s ∧
      s.emitted <+: s.sent := by
  refine transmits_in_order (by decide) (by decide) _ _ ?_
  refine ⟨fun _ => by decide, fun s hs => ?_⟩
  cases hs
  refine ⟨fun _ _ => by decide, fun s hs => ?_⟩
  cases hs
  refine ⟨trivial, fun s hs => ?_⟩
  cases hs
  refine ⟨trivial, fun s hs => ?_⟩
  cases hs
  exact ⟨fun _ => by decide, fun s hs => trivial⟩

/-- The caller refills the buffer when the call has returned, and the hardware sends the new contents. -/
theorem refilled_buffer_is_sent :
    ((State.init 8 0 (fun _ => ⟨0, 0⟩) fun _ => 0).run [.fill 0 [1], .snd 0 1, .complete, .fill 0 [2], .fetch]).map
        (fun s => (s.emitted, s.sent)) = some ([[2]], [[1]]) ∧
      ¬ ([[2]] : List (List UInt8)) <+: [[1]] := by
  decide

end Uboot.Edma
