import Mathlib.Logic.Relation
import Uboot.Dns.Basic

/-!
# Reads of the handler

The loop through the answers leaves twelve bytes for what it reads. Only the header and the address are read without
such a test.
-/

namespace Uboot.Dns

section
variable {pkt s : List UInt8} {p q n : Nat}

theorem getUnalignedBe16_of_lt (h : p + 1 < pkt.length) :
    getUnalignedBe16 pkt p = some (pkt[p].toNat * 256 + pkt[p + 1].toNat) := by
  rw [getUnalignedBe16, List.getElem?_eq_getElem (by omega), List.getElem?_eq_getElem h]

theorem getUnalignedBe16_isSome : (getUnalignedBe16 pkt p).isSome = true ↔ p + 1 < pkt.length := by
  constructor
  · intro h
    by_contra hout
    rw [getUnalignedBe16, List.getElem?_eq_none (i := p + 1) (by omega)] at h
    split at h
    next heq => cases heq
    next => cases h
  · intro h
    rw [getUnalignedBe16_of_lt h]
    rfl

/-! ## The debug message -/

/-- The counter comes to the end of a payload that leaves it room for one more step. -/
theorem debugLoop_ends {len i : Nat} (hlen : len ≤ 65532) (hi : i < 2 ^ 16) : ∃ fuel, debugLoop len fuel i = some () := by
  obtain ⟨d, hd⟩ : ∃ d, d = len - i := ⟨_, rfl⟩
  induction d using Nat.strongRecOn generalizing i with
  | ind d ih =>
      by_cases hin : i < len
      · have hnext : (i + 4) % 2 ^ 16 = i + 4 := Nat.mod_eq_of_lt (by omega)
        obtain ⟨fuel, hfuel⟩ := ih _ (by omega) (show i + 4 < 2 ^ 16 by omega) rfl
        exact ⟨fuel + 1, by rw [debugLoop, if_pos hin, hnext, hfuel]⟩
      · exact ⟨1, by rw [debugLoop, if_neg hin]⟩

/-- Otherwise it wraps to 0. -/
theorem debugLoop_forever {len i : Nat} (hlen : 65532 < len) (hi : i % 4 = 0) (hi' : i < 2 ^ 16) (fuel : Nat) :
    debugLoop len fuel i = none := by
  induction fuel generalizing i with
  | zero => rfl
  | succ fuel ih =>
      rw [debugLoop, if_pos (by omega)]
      exact ih (by omega) (Nat.mod_lt _ (by decide))

/-! ## The loop through the answers -/

theorem scanName_some (h : 12 < s.length) : ∃ k, scanName s = some k ∧ k + 12 ≤ s.length := by
  induction s with
  | nil => cases h
  | cons b s ih =>
      rw [List.length_cons] at h
      rw [scanName, List.length_cons]
      split
      next hnext =>
        rcases Nat.lt_or_ge 12 s.length with hlt | hge
        · obtain ⟨k, hk, hlen⟩ := ih hlt
          exact ⟨k + 1, by rw [hk, Option.map_some], by omega⟩
        · cases s with
          | nil => exact absurd h (by decide)
          | cons c s =>
              rw [List.length_cons] at h hge
              refine ⟨1, ?_, by rw [List.length_cons]; omega⟩
              rw [scanName, if_neg (by omega)]
              rfl
      next => exact ⟨0, rfl, by omega⟩

/-- What is read of an answer is in the payload. -/
theorem skipName_some (h : p + 12 < pkt.length) : ∃ q, skipName pkt p = some q ∧ q + 12 < pkt.length := by
  rw [skipName, List.getElem?_eq_getElem (by omega)]
  dsimp only
  split
  next =>
    obtain ⟨k, hk, hlen⟩ := scanName_some (s := pkt.drop p) (by rw [List.length_drop]; omega)
    rw [List.length_drop] at hlen
    exact ⟨p + k - 1, by rw [hk, Option.map_some], by omega⟩
  next => exact ⟨p, rfl, h⟩

/-- What the code takes for a CNAME record at `p`, and the next record. -/
def CnameStep (pkt : List UInt8) (p next : Nat) : Prop :=
  p + 12 < pkt.length ∧ ∃ q dlen, skipName pkt p = some q ∧ getUnalignedBe16 pkt (q + 2) = some cnameRecord ∧
    getUnalignedBe16 pkt (q + 10) = some dlen ∧ next = q + 12 + dlen

/-- What the code takes for an A record at `p`; its data is at `q + 12`. -/
def AnswerAt (pkt : List UInt8) (p q : Nat) : Prop :=
  p + 12 < pkt.length ∧ skipName pkt p = some q ∧ getUnalignedBe16 pkt (q + 2) = some aRecord

theorem answersLoop_stop (h : ¬ p + 12 < pkt.length) : answersLoop pkt p = some (false, p) := by
  rw [answersLoop.eq_def, if_neg h]

theorem answersLoop_cname {next : Nat} (h : CnameStep pkt p next) : answersLoop pkt p = answersLoop pkt next := by
  obtain ⟨hp, q, dlen, hq, htype, hdlen, rfl⟩ := h
  rw [answersLoop.eq_def, if_pos hp]
  split
  next hnone => rw [hq] at hnone; cases hnone
  next q' hq' =>
    rw [hq] at hq'
    cases hq'
    simp only [htype, hdlen, if_true]

theorem answersLoop_other {type : Nat} (hp : p + 12 < pkt.length) (hq : skipName pkt p = some q)
    (htype : getUnalignedBe16 pkt (q + 2) = some type) (hne : type ≠ cnameRecord) :
    answersLoop pkt p = some (decide (type = aRecord), q) := by
  rw [answersLoop.eq_def, if_pos hp]
  split
  next hnone => rw [hq] at hnone; cases hnone
  next q' hq' =>
    rw [hq] at hq'
    cases hq'
    simp only [htype, if_neg hne]

/-- The loop ends, and it finds the A records behind CNAME records. -/
theorem answersLoop_spec (pkt : List UInt8) (p : Nat) : ∃ found q, answersLoop pkt p = some (found, q) ∧
    (found = true → ∃ p', Relation.ReflTransGen (CnameStep pkt) p p' ∧ AnswerAt pkt p' q) := by
  obtain ⟨d, hd⟩ : ∃ d, d = pkt.length - p := ⟨_, rfl⟩
  induction d using Nat.strongRecOn generalizing p with
  | ind d ih =>
      by_cases hp : p + 12 < pkt.length
      · obtain ⟨q, hq, hin⟩ := skipName_some hp
        have hge := skipName_ge hq
        obtain ⟨type, htype⟩ := Option.isSome_iff_exists.mp (getUnalignedBe16_isSome.mpr (show q + 2 + 1 < pkt.length by omega))
        by_cases hcname : type = cnameRecord
        · obtain ⟨dlen, hdlen⟩ :=
            Option.isSome_iff_exists.mp (getUnalignedBe16_isSome.mpr (show q + 10 + 1 < pkt.length by omega))
          have hstep : CnameStep pkt p (q + 12 + dlen) := ⟨hp, q, dlen, hq, hcname ▸ htype, hdlen, rfl⟩
          obtain ⟨found, q', hrun, hfound⟩ := ih _ (by omega) (q + 12 + dlen) rfl
          refine ⟨found, q', (answersLoop_cname hstep).trans hrun, fun h => ?_⟩
          obtain ⟨p', hp', hanswer⟩ := hfound h
          exact ⟨p', .head hstep hp', hanswer⟩
        · refine ⟨_, q, answersLoop_other hp hq htype hcname, fun h => ⟨p, .refl, hp, hq, ?_⟩⟩
          rw [htype, of_decide_eq_true h]
      · exact ⟨false, p, answersLoop_stop hp, fun h => absurd h (by decide)⟩

theorem answersLoop_found {p' : Nat} (hsteps : Relation.ReflTransGen (CnameStep pkt) p p') (h : AnswerAt pkt p' q) :
    answersLoop pkt p = some (true, q) := by
  induction hsteps using Relation.ReflTransGen.head_induction_on with
  | refl =>
      obtain ⟨hp, hq, htype⟩ := h
      rw [answersLoop_other hp hq htype (by decide)]
      rfl
  | head hstep _ ih => rw [answersLoop_cname hstep, ih]

/-- Where the answers begin. -/
def firstAnswer (pkt : List UInt8) : Nat := 12 + skipHost (pkt.drop 12) + 5

/-- The header is there, and every A record that the loop can find has four bytes of data. -/
def ReadsInside (pkt : List UInt8) : Prop :=
  6 ≤ pkt.length ∧ (getUnalignedBe16 pkt 4 = some 1 →
    8 ≤ pkt.length ∧ (getUnalignedBe16 pkt 6 ≠ some 0 → getUnalignedBe16 pkt (firstAnswer pkt - 4) = some aRecord →
      ∀ p q, Relation.ReflTransGen (CnameStep pkt) (firstAnswer pkt) p → AnswerAt pkt p q → q + 16 ≤ pkt.length))

theorem report_isSome (h : q + 12 < pkt.length) : (report pkt true q).isSome = true ↔ q + 16 ≤ pkt.length := by
  rw [report, if_pos ⟨rfl, h⟩, getUnalignedBe16_of_lt (by omega)]
  dsimp only
  by_cases hout : pkt.length < q + 12 + 4
  · rw [if_pos hout]
    simp only [Option.isSome_none, Bool.false_eq_true, false_iff]
    omega
  · rw [if_neg hout]
    split
    next => exact ⟨fun _ => by omega, fun _ => rfl⟩
    next => exact ⟨fun _ => by omega, fun _ => rfl⟩

theorem AnswerAt.lt (h : AnswerAt pkt p q) : q + 12 < pkt.length := by
  obtain ⟨hp, hq, -⟩ := h
  obtain ⟨q', hq', hlt⟩ := skipName_some hp
  rw [hq] at hq'
  cases hq'
  exact hlt

theorem handleAnswers_isSome : (handleAnswers pkt p).isSome = true ↔
    (getUnalignedBe16 pkt (p + 1) = some aRecord →
      ∀ p' q, Relation.ReflTransGen (CnameStep pkt) (p + 5) p' → AnswerAt pkt p' q → q + 16 ≤ pkt.length) := by
  unfold handleAnswers
  by_cases hshort : pkt.length < p + 5
  · rw [if_pos hshort]
    refine ⟨fun _ _ p' q hsteps hanswer => ?_, fun _ => rfl⟩
    have hstop := answersLoop_found hsteps hanswer
    rw [answersLoop_stop (by omega)] at hstop
    cases hstop
  rw [if_neg hshort]
  obtain ⟨type, htype⟩ := Option.isSome_iff_exists.mp (getUnalignedBe16_isSome.mpr (show p + 1 + 1 < pkt.length by omega))
  rw [htype]
  dsimp only
  by_cases ha : type = aRecord
  · obtain ⟨found, q, hrun, hfound⟩ := answersLoop_spec pkt (p + 5)
    rw [if_neg (not_not.mpr ha), hrun, Option.bind_some]
    cases found with
    | false =>
        refine ⟨fun _ _ p' q' hsteps hanswer => ?_, fun _ => rfl⟩
        rw [answersLoop_found hsteps hanswer] at hrun
        cases hrun
    | true =>
        obtain ⟨p', hsteps, hanswer⟩ := hfound rfl
        rw [report_isSome hanswer.lt]
        refine ⟨fun hin _ p'' q' hsteps' hanswer' => ?_, fun hall => hall (congrArg some ha) p' q hsteps hanswer⟩
        rw [answersLoop_found hsteps' hanswer'] at hrun
        cases hrun
        exact hin
  · rw [if_pos ha]
    exact ⟨fun _ h => absurd (Option.some.inj h) ha, fun _ => rfl⟩

theorem handle_isSome : (handle pkt).isSome = true ↔ ReadsInside pkt := by
  unfold handle ReadsInside
  by_cases h6 : 4 + 1 < pkt.length
  · obtain ⟨nqueries, hq⟩ := Option.isSome_iff_exists.mp (getUnalignedBe16_isSome.mpr h6)
    rw [hq]
    dsimp only
    by_cases hone : nqueries = 1
    · rw [if_neg (not_not.mpr hone)]
      by_cases h8 : 6 + 1 < pkt.length
      · obtain ⟨nanswers, ha⟩ := Option.isSome_iff_exists.mp (getUnalignedBe16_isSome.mpr h8)
        rw [ha]
        dsimp only
        by_cases hzero : nanswers = 0
        · rw [if_pos hzero]
          exact ⟨fun _ => ⟨h6, fun _ => ⟨h8, fun hne => absurd (congrArg some hzero) hne⟩⟩, fun _ => rfl⟩
        · rw [if_neg hzero, handleAnswers_isSome]
          exact ⟨fun h => ⟨h6, fun _ => ⟨h8, fun _ => h⟩⟩,
            fun h => (h.2 (congrArg some hone)).2 fun heq => hzero (Option.some.inj heq)⟩
      · have hnone : getUnalignedBe16 pkt 6 = none := by
          rw [← Option.not_isSome_iff_eq_none, getUnalignedBe16_isSome]
          exact h8
        rw [hnone]
        simp only [Option.isSome_none, Bool.false_eq_true, false_iff]
        exact fun h => h8 (h.2 (congrArg some hone)).1
    · rw [if_pos hone]
      exact ⟨fun _ => ⟨h6, fun h => absurd (Option.some.inj h) hone⟩, fun _ => rfl⟩
  · have hnone : getUnalignedBe16 pkt 4 = none := by
      rw [← Option.not_isSome_iff_eq_none, getUnalignedBe16_isSome]
      exact h6
    rw [hnone]
    simp only [Option.isSome_none, Bool.false_eq_true, false_iff]
    exact fun h => h6 h.1

theorem dnsHandler_outcome (dnsOurPort : Nat) (pkt : List UInt8) (outcome : Outcome) :
    (∃ fuel, dnsHandler fuel dnsOurPort dnsOurPort pkt = some (some outcome)) ↔
      pkt.length ≤ 65532 ∧ handle pkt = some outcome := by
  have hrun : ∀ fuel, dnsHandler fuel dnsOurPort dnsOurPort pkt =
      (debugLoop pkt.length fuel 0).map fun _ => handle pkt := fun fuel => if_neg (not_not.mpr rfl)
  constructor
  · rintro ⟨fuel, h⟩
    rw [hrun] at h
    obtain ⟨_, hloop, hout⟩ := Option.map_eq_some_iff.mp h
    refine ⟨?_, hout⟩
    by_contra hlong
    rw [debugLoop_forever (by omega) rfl (by decide)] at hloop
    cases hloop
  · rintro ⟨hlen, hout⟩
    obtain ⟨fuel, hloop⟩ := debugLoop_ends hlen (show 0 < 2 ^ 16 by decide)
    exact ⟨fuel, by rw [hrun, hloop, Option.map_some, hout]⟩

/-- When the handler comes back, with all reads in the payload. -/
theorem dnsHandler_returns (dnsOurPort dest : Nat) (pkt : List UInt8) :
    (∃ fuel outcome, dnsHandler fuel dnsOurPort dest pkt = some (some outcome)) ↔
      dest ≠ dnsOurPort ∨ pkt.length ≤ 65532 ∧ ReadsInside pkt := by
  by_cases hport : dest = dnsOurPort
  · subst hport
    rw [← handle_isSome, Option.isSome_iff_exists, exists_comm]
    simp only [dnsHandler_outcome, ne_eq, not_true_eq_false, false_or, exists_and_left]
  · exact ⟨fun _ => .inl hport, fun _ => ⟨0, .ignored, if_pos hport⟩⟩

end

end Uboot.Dns
