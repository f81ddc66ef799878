import Uboot.Edma.Basic

/-!
# The indices of the ring

Behind `sw_next_to_clean` come the descriptors that the hardware has consumed and the driver has not cleaned yet, then
those that are posted, then `sw_next_to_fill`; one slot stays free.
-/

namespace Uboot.Edma

open Lib

namespace Ring

/-- `d` descriptors are consumed and not cleaned, and `e` are posted. -/
structure Span (r : Ring) (d e : Nat) : Prop where
  clean_lt : r.swNextToClean < r.count
  room : d + e < r.count
  cons_eq : r.consIdx = (r.swNextToClean + d) % r.count
  fill_eq : r.swNextToFill = (r.swNextToClean + (d + e)) % r.count
  prod_eq : r.prodIdx = r.swNextToFill

variable {r : Ring} {d e : Nat}

namespace Span

theorem fill_lt (h : r.Span d e) : r.swNextToFill < r.count := by
  rw [h.fill_eq]
  exact Nat.mod_lt _ (Nat.zero_lt_of_lt h.clean_lt)

theorem cons_lt (h : r.Span d e) : r.consIdx < r.count := by
  rw [h.cons_eq]
  exact Nat.mod_lt _ (Nat.zero_lt_of_lt h.clean_lt)

theorem prod_eq_add (h : r.Span d e) : r.prodIdx = (r.consIdx + e) % r.count := by
  rw [h.prod_eq, h.fill_eq, h.cons_eq, Nat.mod_add_mod, Nat.add_assoc]

theorem mem_posted (h : r.Span d e) {s : Nat} : s ∈ r.posted ↔ ∃ i < e, (r.consIdx + i) % r.count = s := by
  rw [posted, h.prod_eq_add]
  exact mem_cyclic_add h.cons_lt (by have := h.room; omega)

theorem mem_owned (h : r.Span d e) {s : Nat} :
    s ∈ r.owned ↔ ∃ i < d + e, (r.swNextToClean + i) % r.count = s := by
  rw [owned, h.fill_eq]
  exact mem_cyclic_add h.clean_lt h.room

theorem card_owned (h : r.Span d e) : r.owned.card = d + e := by
  rw [owned, card_cyclic h.clean_lt, h.fill_eq, ringDist_add h.clean_lt h.room]

theorem card_posted (h : r.Span d e) : r.posted.card = e := by
  rw [posted, card_cyclic h.cons_lt, h.prod_eq_add, ringDist_add h.cons_lt (by have := h.room; omega)]

theorem posted_subset_owned (h : r.Span d e) : r.posted ⊆ r.owned := by
  intro s hs
  obtain ⟨i, hi, rfl⟩ := h.mem_posted.mp hs
  refine h.mem_owned.mpr ⟨d + i, by omega, ?_⟩
  rw [h.cons_eq, Nat.mod_add_mod, Nat.add_assoc]

/-- The slot that is filled next is free. -/
theorem fill_not_owned (h : r.Span d e) : r.swNextToFill ∉ r.owned := by
  rw [h.mem_owned]
  rintro ⟨i, hi, he⟩
  rw [h.fill_eq] at he
  have := add_mod_inj h.clean_lt (by have := h.room; omega) h.room he
  omega

theorem tpdAvailable_eq (h : r.Span d e) (hu : r.count < 2 ^ 16) : r.tpdAvailable = r.count - 1 - (d + e) := by
  have hdist := ringDist_add h.clean_lt h.room
  rw [← h.fill_eq, ringDist] at hdist
  have hc := h.clean_lt
  have hf := h.fill_lt
  have hr := h.room
  simp only [tpdAvailable, u16]
  by_cases hle : r.swNextToClean ≤ r.swNextToFill
  · rw [if_pos hle]
    rw [show r.swNextToFill + r.count - r.swNextToClean = r.swNextToFill - r.swNextToClean + r.count by omega,
      Nat.add_mod_right, Nat.mod_eq_of_lt (by omega)] at hdist
    omega
  · rw [if_neg hle]
    rw [Nat.mod_eq_of_lt (by omega)] at hdist
    omega

theorem snd (h : r.Span d e) (hu : r.count < 2 ^ 16) {packet : Nat} {length : Int} {r' : Ring}
    (hs : r.snd packet length = some r') :
    r'.count = r.count ∧ r'.consIdx = r.consIdx ∧ (u16 length = 0 → r' = r) ∧
      (u16 length ≠ 0 → r'.Span d (e + 1) ∧
        r'.hwDesc = Function.update r.hwDesc r.swNextToFill ⟨packet, u16 length⟩) := by
  simp only [Ring.snd, Option.ite_none_left_eq_some] at hs
  obtain ⟨havail, rfl⟩ : ¬ r.tpdAvailable < 1 ∧ (r.txMapAndFill packet length).txUpdateHwIdx = r' :=
    ⟨hs.1, Option.some.inj hs.2⟩
  rw [h.tpdAvailable_eq hu] at havail
  by_cases hl : u16 length = 0
  · have hsame : (r.txMapAndFill packet length).txUpdateHwIdx = r := by
      rw [txMapAndFill, if_neg (not_not_intro hl)]
      exact congrArg (fun idx => { r with prodIdx := idx }) h.prod_eq.symm
    rw [hsame]
    exact ⟨rfl, rfl, fun _ => rfl, fun hn => absurd hl hn⟩
  · rw [txMapAndFill, if_pos hl, txUpdateHwIdx]
    refine ⟨rfl, rfl, fun h0 => absurd h0 hl, fun _ => ⟨⟨h.clean_lt, ?_, h.cons_eq, ?_, rfl⟩, rfl⟩⟩
    · show d + (e + 1) < r.count
      omega
    · show (r.swNextToFill + 1) % r.count = (r.swNextToClean + (d + (e + 1))) % r.count
      rw [h.fill_eq, Nat.mod_add_mod, ← Nat.add_assoc, ← Nat.add_assoc, ← Nat.add_assoc]

theorem fetch (h : r.Span d e) (hne : r.consIdx ≠ r.prodIdx) :
    ∃ e', e = e' + 1 ∧ ({ r with consIdx := (r.consIdx + 1) % r.count } : Ring).Span (d + 1) e' := by
  cases e with
  | zero => exact absurd (by rw [h.prod_eq, h.fill_eq, h.cons_eq, Nat.add_zero]) hne
  | succ e =>
      refine ⟨e, rfl, h.clean_lt, ?_, ?_, ?_, h.prod_eq⟩
      · show d + 1 + e < r.count
        have := h.room
        omega
      · show (r.consIdx + 1) % r.count = (r.swNextToClean + (d + 1)) % r.count
        rw [h.cons_eq, Nat.mod_add_mod, Nat.add_assoc]
      · show r.swNextToFill = (r.swNextToClean + (d + 1 + e)) % r.count
        rw [h.fill_eq, show d + (e + 1) = d + 1 + e by omega]

end Span

theorem cleanLoop_spec {count clean d fuel : Nat} (hc : clean < count) (hd : d < count) (hf : d ≤ fuel) :
    cleanLoop count ((clean + d) % count) fuel clean = some ((clean + d) % count) := by
  induction d generalizing clean fuel with
  | zero =>
      rw [Nat.add_zero, Nat.mod_eq_of_lt hc]
      cases fuel <;> simp [cleanLoop]
  | succ d ih =>
      cases fuel with
      | zero => omega
      | succ fuel =>
          -- the walk is not there before it has made all its steps
          have hne : clean ≠ (clean + (d + 1)) % count := by
            intro he
            have := add_mod_inj (j := 0) hc (by omega) hd (by rw [Nat.add_zero, Nat.mod_eq_of_lt hc]; exact he)
            omega
          have hih := ih (Nat.mod_lt (clean + 1) (by omega)) (by omega)
            (show d ≤ fuel by omega)
          rw [Nat.mod_add_mod, Nat.add_assoc, Nat.add_comm 1] at hih
          rw [cleanLoop, if_neg hne, hih]

/-- The loop ends, and everything that was consumed is cleaned. -/
theorem Span.complete (h : r.Span d e) :
    ∃ r', r.txComplete = some r' ∧ r'.Span 0 e ∧ r'.count = r.count ∧ r'.hwDesc = r.hwDesc ∧
      r'.consIdx = r.consIdx := by
  have hd : d < r.count := by have := h.room; omega
  have hloop := cleanLoop_spec h.clean_lt hd hd.le
  rw [← h.cons_eq] at hloop
  refine ⟨{ r with swNextToClean := r.consIdx }, by rw [txComplete, hloop]; rfl, ⟨h.cons_lt, ?_, ?_, ?_, h.prod_eq⟩,
    rfl, rfl, rfl⟩
  · show 0 + e < r.count
    have := h.room
    omega
  · show r.consIdx = (r.consIdx + 0) % r.count
    rw [Nat.add_zero, Nat.mod_eq_of_lt h.cons_lt]
  · show r.swNextToFill = (r.consIdx + (0 + e)) % r.count
    rw [Nat.zero_add, ← h.prod_eq_add, h.prod_eq]

end Ring

/-! ## Every run -/

/-- What a step can do: a call begins, when there is room, or it ends, or the hardware may take a descriptor. -/
theorem step_cases {s : State} {d e : Nat} (h : s.ring.Span d e) (hu : s.ring.count < 2 ^ 16) (event : Event) :
    ∃ s', s.step event = some s' ∧ s'.ring.count = s.ring.count ∧ ∃ d' e', s'.ring.Span d' e' ∧
      ((s'.inCall = s.inCall ∧ d' + e' = d + e ∧ (event = .complete → s.inCall = false)) ∨
       (s.inCall = false ∧ s'.inCall = true ∧ event ≠ .complete ∧ d + e + 1 < s.ring.count) ∨
       (event = .complete ∧ s.inCall = true ∧ s'.inCall = false ∧ d' + e' = e)) := by
  cases event with
  | fill addr bytes =>
      refine ⟨_, rfl, ?_⟩
      split <;> exact ⟨rfl, d, e, h, .inl ⟨rfl, rfl, by simp⟩⟩
  | snd packet length =>
      simp only [State.step]
      split
      · exact ⟨s, rfl, rfl, d, e, h, .inl ⟨rfl, rfl, by simp⟩⟩
      · next hcall =>
          split
          · exact ⟨s, rfl, rfl, d, e, h, .inl ⟨rfl, rfl, by simp⟩⟩
          · next ring hs =>
              have hroom : ¬ s.ring.tpdAvailable < 1 := by
                simp only [Ring.snd, Option.ite_none_left_eq_some] at hs
                exact hs.1
              rw [h.tpdAvailable_eq hu] at hroom
              obtain ⟨hcount, _, hsame, hpost⟩ := h.snd hu hs
              have hidle : s.inCall = false := by simpa using hcall
              have hlt : d + e + 1 < s.ring.count := by omega
              refine ⟨_, rfl, hcount, ?_⟩
              by_cases hl : u16 length = 0
              · exact ⟨d, e, hsame hl ▸ h, .inr (.inl ⟨hidle, rfl, by simp, hlt⟩)⟩
              · exact ⟨d, e + 1, (hpost hl).1, .inr (.inl ⟨hidle, rfl, by simp, hlt⟩)⟩
  | complete =>
      simp only [State.step]
      split
      · next hcall =>
          obtain ⟨r', hr, hspan, hcount, _⟩ := h.complete
          rw [hr]
          exact ⟨_, rfl, hcount, 0, e, hspan, .inr (.inr ⟨by simp, hcall, rfl, by omega⟩)⟩
      · next hcall => exact ⟨s, rfl, rfl, d, e, h, .inl ⟨rfl, rfl, fun _ => by simpa using hcall⟩⟩
  | fetch =>
      simp only [State.step]
      split
      · exact ⟨s, rfl, rfl, d, e, h, .inl ⟨rfl, rfl, by simp⟩⟩
      · next hne =>
          obtain ⟨e', rfl, hspan⟩ := h.fetch hne
          exact ⟨_, rfl, rfl, d + 1, e', hspan, .inl ⟨rfl, by omega, by simp⟩⟩

theorem run_span {s : State} {d e : Nat} (h : s.ring.Span d e) (hu : s.ring.count < 2 ^ 16) (events : List Event) :
    ∃ s', s.run events = some s' ∧ s'.ring.count = s.ring.count ∧ ∃ d' e', s'.ring.Span d' e' := by
  induction events generalizing s d e with
  | nil => exact ⟨s, rfl, rfl, d, e, h⟩
  | cons event events ih =>
      obtain ⟨s₁, hs₁, hc₁, d₁, e₁, h₁, -⟩ := step_cases h hu event
      obtain ⟨s', hs', hc', hspan⟩ := ih h₁ (hc₁ ▸ hu)
      exact ⟨s', by rw [State.run, hs₁]; exact hs', hc'.trans hc₁, hspan⟩

theorem init_span {count idx : Nat} (hidx : idx < count) (hwDesc : Nat → Tpd) (mem : Mem) :
    (State.init count idx hwDesc mem).ring.Span 0 0 :=
  ⟨hidx, Nat.zero_lt_of_lt hidx, (Nat.mod_eq_of_lt hidx).symm, (Nat.mod_eq_of_lt hidx).symm, rfl⟩

/-- The accounting of the ring in every run: the indices are slots, what is posted is owned by the driver's range, a call
overwrites none of it, the loop of a completion ends within as many rounds as there are slots, and the free descriptors
are all but one of the others. -/
theorem ring_accounting {count : Nat} (hu : count < 2 ^ 16) {idx : Nat} (hidx : idx < count)
    (hwDesc : Nat → Tpd) (mem : Mem) (events : List Event) :
    ∃ s, (State.init count idx hwDesc mem).run events = some s ∧
      s.ring.swNextToFill < count ∧ s.ring.swNextToClean < count ∧ s.ring.posted ⊆ s.ring.owned ∧
      (∀ packet length ring, s.ring.snd packet length = some ring →
        ∀ i ∈ s.ring.posted, ring.hwDesc i = s.ring.hwDesc i) ∧
      Ring.cleanLoop count s.ring.consIdx count s.ring.swNextToClean = some s.ring.consIdx ∧
      s.ring.tpdAvailable = count - 1 - s.ring.owned.card := by
  obtain ⟨s, hs, hc, d, e, h⟩ := run_span (init_span hidx hwDesc mem) hu events
  have hc : s.ring.count = count := hc
  refine ⟨s, hs, hc ▸ h.fill_lt, hc ▸ h.clean_lt, h.posted_subset_owned, ?_, ?_, ?_⟩
  · intro packet length ring hsnd i hi
    obtain ⟨_, _, hsame, hpost⟩ := h.snd (hc ▸ hu) hsnd
    by_cases hl : u16 length = 0
    · rw [hsame hl]
    · have hne : i ≠ s.ring.swNextToFill := fun he => h.fill_not_owned (he ▸ h.posted_subset_owned hi)
      rw [(hpost hl).2, Function.update_of_ne hne]
  · have hd : d < s.ring.count := by have := h.room; omega
    have hloop := Ring.cleanLoop_spec h.clean_lt hd hd.le
    rwa [← h.cons_eq, hc] at hloop
  · rw [h.tpdAvailable_eq (hc ▸ hu), h.card_owned, hc]

/-- A ring of two slots, one of them posted. -/
theorem ring_accounting_example :
    ∃ s, (State.init 2 1 (fun _ => ⟨0, 0⟩) fun _ => 0).run [.snd 16 60, .complete] = some s ∧
      s.ring.tpdAvailable = 2 - 1 - s.ring.owned.card := by
  obtain ⟨s, hs, _, _, _, _, _, h⟩ := ring_accounting (show 2 < 2 ^ 16 by decide) (show 1 < 2 by decide)
    (fun _ => ⟨0, 0⟩) (fun _ => 0) [.snd 16 60, .complete]
  exact ⟨s, hs, h⟩

end Uboot.Edma
