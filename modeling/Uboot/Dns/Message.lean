import Uboot.Dns.Theorems

/-!
# The address of a reply

A payload as the message that it holds: names with pointers, and records one after the other behind the query. The handler
goes its own way through the bytes. It takes a name to end at the first zero byte, or after two bytes when it begins with
0xC0, and knows no sections, classes, owners or lengths of addresses.
-/

namespace Uboot.Dns

/-! ## Names

What names and answers are, with the compression of names. Upper and lower case are one.
-/

abbrev Name := List (List UInt8)

def lowerCase (c : UInt8) : UInt8 := if 65 ≤ c ∧ c ≤ 90 then c + 32 else c

inductive NameAt (pkt : List UInt8) : Nat → Name → Prop
  | root {p : Nat} : pkt[p]? = some 0 → NameAt pkt p []
  | label {p : Nat} {n : UInt8} {name : Name} : pkt[p]? = some n → 0 < n → n < 64 →
      NameAt pkt (p + 1 + n.toNat) name → NameAt pkt p (((pkt.drop (p + 1)).take n.toNat).map lowerCase :: name)
  | pointer {p : Nat} {hi lo : UInt8} {name : Name} : pkt[p]? = some hi → 0xc0 ≤ hi → pkt[p + 1]? = some lo →
      NameAt pkt ((hi.toNat - 0xc0) * 256 + lo.toNat) name → NameAt pkt p name

/-- Where the bytes of a name end. A pointer ends it. -/
inductive NameEnds (pkt : List UInt8) : Nat → Nat → Prop
  | root {p : Nat} : pkt[p]? = some 0 → NameEnds pkt p (p + 1)
  | label {p o : Nat} {n : UInt8} : pkt[p]? = some n → 0 < n → n < 64 → NameEnds pkt (p + 1 + n.toNat) o → NameEnds pkt p o
  | pointer {p : Nat} {hi lo : UInt8} : pkt[p]? = some hi → 0xc0 ≤ hi → pkt[p + 1]? = some lo → NameEnds pkt p (p + 2)

/-! ## Records -/

/-- The class IN. -/
def classIn : Nat := 1

/-- The record at `p`, with a name up to `o`; its data are at `o + 10`. -/
structure RecordAt (pkt : List UInt8) (p o type cls dlen : Nat) : Prop where
  name_at : NameEnds pkt p o
  type_at : getUnalignedBe16 pkt o = some type
  cls_at : getUnalignedBe16 pkt (o + 2) = some cls
  dlen_at : getUnalignedBe16 pkt (o + 8) = some dlen
  fits : o + 10 + dlen ≤ pkt.length

/-- Record `n` behind the query begins at `p`. -/
inductive RecordStart (pkt : List UInt8) : Nat → Nat → Prop
  | first {h : Nat} : NameEnds pkt 12 h → RecordStart pkt 0 (h + 4)
  | next {n p o type cls dlen : Nat} : RecordStart pkt n p → RecordAt pkt p o type cls dlen →
      RecordStart pkt (n + 1) (o + 10 + dlen)

/-- A record of the answer section begins at `p`. -/
def InAnswers (pkt : List UInt8) (p : Nat) : Prop :=
  ∃ n nanswers, RecordStart pkt n p ∧ getUnalignedBe16 pkt 6 = some nanswers ∧ n < nanswers

/-- The name of the query, and those that CNAME records of the answer section give for it. -/
inductive Asked (pkt : List UInt8) : Name → Prop
  | query {name : Name} : NameAt pkt 12 name → Asked pkt name
  | cname {name target : Name} {p o cls dlen : Nat} : Asked pkt name → InAnswers pkt p →
      RecordAt pkt p o cnameRecord cls dlen → NameAt pkt p name → NameAt pkt (o + 10) target → Asked pkt target

/-- `ip`, read at `a`, is the data of an A record of the answer section that answers the query. -/
def AddressOf (pkt : List UInt8) (a : Nat) (ip : List UInt8) : Prop :=
  ∃ p o name, InAnswers pkt p ∧ RecordAt pkt p o aRecord classIn 4 ∧ NameAt pkt p name ∧ Asked pkt name ∧
    a = o + 10 ∧ ip = (pkt.drop a).take 4

/-! ## The walk of the handler -/

/-- The walk over what looks like CNAME records comes to what looks like an A record, two bytes behind `q`. -/
def WalksTo (pkt : List UInt8) (q : Nat) : Prop :=
  getUnalignedBe16 pkt 4 = some 1 ∧ getUnalignedBe16 pkt 6 ≠ some 0 ∧
    getUnalignedBe16 pkt (firstAnswer pkt - 4) = some aRecord ∧
      ∃ p, Relation.ReflTransGen (CnameStep pkt) (firstAnswer pkt) p ∧ AnswerAt pkt p q

/-- Either the walk comes to nothing that is reported, or a name of the answer section ends where it takes one to end, the
class and the length behind it are right, and the name was asked for. -/
def Right (pkt : List UInt8) : Prop :=
  pkt.length ≤ 65532 → ∀ q dlen, WalksTo pkt q → q + 16 ≤ pkt.length → getUnalignedBe16 pkt (q + 10) = some dlen →
    q + 12 + dlen ≤ pkt.length → getUnalignedBe16 pkt (q + 4) = some classIn ∧ dlen = 4 ∧
      ∃ p name, InAnswers pkt p ∧ NameEnds pkt p (q + 2) ∧ NameAt pkt p name ∧ Asked pkt name

section
variable {pkt s : List UInt8} {p o q a type cls dlen : Nat} {ip : List UInt8}

theorem NameEnds.unique {o' : Nat} (h : NameEnds pkt p o) (h' : NameEnds pkt p o') : o = o' := by
  have hbig : ∀ {c : UInt8}, 0xc0 ≤ c → c ≠ 0 ∧ ¬ c < 64 := by
    intro c hc
    rw [UInt8.le_iff_toNat_le] at hc
    rw [UInt8.lt_iff_toNat_lt]
    refine ⟨?_, fun hlt => absurd (Nat.lt_of_le_of_lt hc hlt) (by decide)⟩
    rintro rfl
    exact absurd hc (by decide)
  have hzero : ∀ {c : UInt8}, some 0 = some c → ¬ 0 < c := by
    rintro c ⟨⟩
    decide
  induction h with
  | root h0 =>
      cases h' with
      | root => rfl
      | label hn hpos _ _ => exact absurd hpos (hzero (h0.symm.trans hn))
      | pointer hhi hge _ => exact absurd (Option.some.inj (h0.symm.trans hhi)).symm (hbig hge).1
  | label hn hpos hlt _ ih =>
      cases h' with
      | root h0 => exact absurd hpos (hzero (h0.symm.trans hn))
      | label hn' _ _ hrest =>
          obtain rfl := Option.some.inj (hn.symm.trans hn')
          exact ih hrest
      | pointer hhi hge _ => exact absurd (Option.some.inj (hn.symm.trans hhi) ▸ hlt) (hbig hge).2
  | pointer hhi hge _ =>
      cases h' with
      | root h0 => exact absurd (Option.some.inj (h0.symm.trans hhi)).symm (hbig hge).1
      | label hn _ hlt _ => exact absurd (Option.some.inj (hn.symm.trans hhi) ▸ hlt) (hbig hge).2
      | pointer => rfl

/-! ## What is reported -/

theorem report_address : report pkt true q = some (.address a ip) ↔
    q + 16 ≤ pkt.length ∧ (∃ dlen, getUnalignedBe16 pkt (q + 10) = some dlen ∧ q + 12 + dlen ≤ pkt.length) ∧
      a = q + 12 ∧ ip = (pkt.drop a).take 4 := by
  unfold report
  by_cases hq : q + 12 < pkt.length
  · obtain ⟨dlen, hdlen⟩ := Option.isSome_iff_exists.mp (getUnalignedBe16_isSome.mpr (show q + 10 + 1 < pkt.length by omega))
    rw [if_pos ⟨rfl, hq⟩, hdlen]
    dsimp only
    by_cases hfour : pkt.length < q + 12 + 4
    · rw [if_pos hfour]
      exact iff_of_false (by simp) fun h => by omega
    · rw [if_neg hfour]
      by_cases hfit : q + 12 + dlen ≤ pkt.length
      · rw [if_pos hfit]
        constructor
        · intro h
          cases h
          exact ⟨by omega, ⟨dlen, rfl, hfit⟩, rfl, rfl⟩
        · rintro ⟨-, -, rfl, rfl⟩
          rfl
      · rw [if_neg hfit]
        refine iff_of_false (by simp) ?_
        rintro ⟨-, ⟨_, heq, hfit'⟩, -⟩
        cases heq
        exact hfit hfit'
  · rw [if_neg fun h => hq h.2]
    exact iff_of_false (by simp) fun h => by omega

theorem handleAnswers_address : handleAnswers pkt p = some (.address a ip) ↔
    getUnalignedBe16 pkt (p + 1) = some aRecord ∧
      ∃ p' q, Relation.ReflTransGen (CnameStep pkt) (p + 5) p' ∧ AnswerAt pkt p' q ∧
        report pkt true q = some (.address a ip) := by
  unfold handleAnswers
  by_cases hshort : pkt.length < p + 5
  · rw [if_pos hshort]
    refine iff_of_false (by simp) ?_
    rintro ⟨-, p', q, hsteps, hanswer, -⟩
    have hstop := answersLoop_found hsteps hanswer
    rw [answersLoop_stop (by omega)] at hstop
    cases hstop
  rw [if_neg hshort]
  obtain ⟨type, htype⟩ := Option.isSome_iff_exists.mp (getUnalignedBe16_isSome.mpr (show p + 1 + 1 < pkt.length by omega))
  rw [htype]
  dsimp only
  by_cases ha : type = aRecord
  · obtain ⟨found, q, hrun, hfound⟩ := answersLoop_spec pkt (p + 5)
    rw [if_neg (not_not.mpr ha), hrun, Option.bind_some]
    cases found with
    | false =>
        refine iff_of_false (by simp [report]) ?_
        rintro ⟨-, p', q', hsteps, hanswer, -⟩
        rw [answersLoop_found hsteps hanswer] at hrun
        cases hrun
    | true =>
        obtain ⟨p', hsteps, hanswer⟩ := hfound rfl
        refine ⟨fun h => ⟨congrArg some ha, p', q, hsteps, hanswer, h⟩, ?_⟩
        rintro ⟨-, p'', q', hsteps', hanswer', h⟩
        rw [answersLoop_found hsteps' hanswer'] at hrun
        cases hrun
        exact h
  · rw [if_pos ha]
    exact iff_of_false (by simp) fun h => ha (Option.some.inj h.1)

theorem handle_address : handle pkt = some (.address a ip) ↔ ∃ q, WalksTo pkt q ∧ report pkt true q = some (.address a ip) := by
  have hstep : (∃ q, WalksTo pkt q ∧ report pkt true q = some (.address a ip)) ↔
      getUnalignedBe16 pkt 4 = some 1 ∧ getUnalignedBe16 pkt 6 ≠ some 0 ∧
        handleAnswers pkt (12 + skipHost (pkt.drop 12)) = some (.address a ip) := by
    rw [handleAnswers_address]
    constructor
    · rintro ⟨q, ⟨h4, h6, htype, p', hsteps, hanswer⟩, hreport⟩
      exact ⟨h4, h6, htype, p', q, hsteps, hanswer, hreport⟩
    · rintro ⟨h4, h6, htype, p', q, hsteps, hanswer, hreport⟩
      exact ⟨q, ⟨h4, h6, htype, p', hsteps, hanswer⟩, hreport⟩
  rw [hstep, handle]
  cases h4 : getUnalignedBe16 pkt 4 with
  | none => simp
  | some nqueries =>
      dsimp only
      by_cases hone : nqueries = 1
      · rw [if_neg (not_not.mpr hone)]
        cases h6 : getUnalignedBe16 pkt 6 with
        | none =>
            refine iff_of_false (by simp) ?_
            rintro ⟨-, -, h⟩
            obtain ⟨htype, -⟩ := handleAnswers_address.mp h
            have hlen := getUnalignedBe16_isSome.mp (Option.isSome_iff_exists.mpr ⟨_, htype⟩)
            have hsome := getUnalignedBe16_isSome.mpr (show 6 + 1 < pkt.length by omega)
            rw [h6] at hsome
            cases hsome
        | some nanswers =>
            dsimp only
            by_cases hzero : nanswers = 0
            · rw [if_pos hzero]
              exact iff_of_false (by simp) fun h => h.2.1 (congrArg some hzero)
            · rw [if_neg hzero]
              exact ⟨fun h => ⟨congrArg some hone, fun heq => hzero (Option.some.inj heq), h⟩, fun h => h.2.2⟩
      · rw [if_pos hone]
        exact iff_of_false (by simp) fun h => hone (Option.some.inj h.1)

theorem addressOf_iff_right (pkt : List UInt8) : (∀ fuel dnsOurPort dest a ip,
    dnsHandler fuel dnsOurPort dest pkt = some (some (.address a ip)) → AddressOf pkt a ip) ↔ Right pkt := by
  constructor
  · intro h hlen q dlen hwalk hfour hdlen hfit
    have hhandle := handle_address.mpr ⟨q, hwalk, report_address.mpr ⟨hfour, ⟨dlen, hdlen, hfit⟩, rfl, rfl⟩⟩
    obtain ⟨fuel, hrun⟩ := (dnsHandler_outcome 0 pkt _).mpr ⟨hlen, hhandle⟩
    obtain ⟨p, o, name, hin, hrecord, hname, hasked, hplace, -⟩ := h fuel 0 0 _ _ hrun
    obtain rfl : o = q + 2 := by omega
    exact ⟨hrecord.cls_at, Option.some.inj (hdlen.symm.trans hrecord.dlen_at), p, name, hin, hrecord.name_at, hname, hasked⟩
  · intro hright fuel dnsOurPort dest a ip hrun
    by_cases hport : dest = dnsOurPort
    · subst hport
      obtain ⟨hlen, hhandle⟩ := (dnsHandler_outcome dest pkt _).mp ⟨fuel, hrun⟩
      obtain ⟨q, hwalk, hreport⟩ := handle_address.mp hhandle
      obtain ⟨hfour, ⟨dlen, hdlen, hfit⟩, ha, hip⟩ := report_address.mp hreport
      obtain ⟨hcls, rfl, p, name, hin, hends, hname, hasked⟩ := hright hlen q dlen hwalk hfour hdlen hfit
      have htype : getUnalignedBe16 pkt (q + 2) = some aRecord := by
        obtain ⟨-, -, -, _, -, hanswer⟩ := hwalk
        exact hanswer.2.2
      exact ⟨p, q + 2, name, hin, ⟨hends, htype, hcls, hdlen, by omega⟩, hname, hasked, by omega, hip⟩
    · rw [dnsHandler, if_pos hport] at hrun
      cases hrun

/-! ## Names that the handler gets over -/

/-- The name is a pointer that begins with 0xC0, or ends with its only zero byte. -/
def Plain (pkt : List UInt8) (p o : Nat) : Prop :=
  pkt[p]? = some 0xc0 ∧ o = p + 2 ∨
    ∃ u s, pkt.drop p = u ++ 0 :: s ∧ 0 ∉ u ∧ u.head? ≠ some 0xc0 ∧ o = p + u.length + 1

theorem scanName_zero {u : List UInt8} (h : 0 ∉ u) (hs : 11 ≤ s.length) : scanName (u ++ 0 :: s) = some u.length := by
  induction u with
  | nil =>
      rw [List.nil_append, scanName, if_neg (by simp)]
      rfl
  | cons b u ih =>
      obtain ⟨hb, hu⟩ := not_or.mp (fun hor => h (List.mem_cons.mpr hor))
      rw [List.cons_append, scanName, if_pos, ih hu, Option.map_some, List.length_cons]
      rw [List.length_append, List.length_cons]
      exact ⟨Ne.symm hb, by omega⟩

/-- Behind such a name the handler is two bytes before the type. -/
theorem skipName_plain (h : Plain pkt p o) (hroom : o + 11 ≤ pkt.length) : skipName pkt p = some (o - 2) := by
  rcases h with ⟨hc0, rfl⟩ | ⟨u, s, hdrop, hu, hhead, rfl⟩
  · rw [skipName, hc0]
    rfl
  · have hlen := congrArg List.length hdrop
    rw [List.length_drop, List.length_append, List.length_cons] at hlen
    have hget : pkt[p]? = (u ++ 0 :: s).head? := by
      rw [← hdrop, List.head?_drop]
    have hne : (u ++ 0 :: s).head? ≠ some 0xc0 := by
      cases u with
      | nil => exact fun heq => absurd (Option.some.inj heq) (by decide)
      | cons b u => exact hhead
    cases hb : pkt[p]? with
    | none => exact absurd (hget.symm.trans hb) (by simp)
    | some b =>
        rw [skipName, hb]
        dsimp only
        rw [if_pos fun heq => hne (by rw [← hget, hb, heq]), hdrop, scanName_zero hu (by omega), Option.map_some]
        rfl

/-- A CNAME record with such a name is passed over. -/
theorem cnameStep_of_record (h : RecordAt pkt p o cnameRecord cls dlen) (hplain : Plain pkt p o) (hp : 1 ≤ p)
    (hroom : o + 11 < pkt.length) : CnameStep pkt p (o + 10 + dlen) := by
  have ho : p < o := by
    rcases hplain with ⟨-, rfl⟩ | ⟨u, s, -, -, -, rfl⟩ <;> omega
  have hback : o - 2 + 2 = o := by omega
  refine ⟨by omega, o - 2, dlen, skipName_plain hplain (by omega), by rw [hback]; exact h.type_at, ?_, by omega⟩
  rw [show o - 2 + 10 = o + 8 by omega]
  exact h.dlen_at

/-- At an A record with such a name the walk ends. -/
theorem answerAt_of_record (h : RecordAt pkt p o aRecord cls dlen) (hplain : Plain pkt p o) (hp : 1 ≤ p)
    (hroom : o + 11 < pkt.length) : AnswerAt pkt p (o - 2) := by
  have ho : p < o := by
    rcases hplain with ⟨-, rfl⟩ | ⟨u, s, -, -, -, rfl⟩ <;> omega
  refine ⟨by omega, skipName_plain hplain (by omega), ?_⟩
  rw [show o - 2 + 2 = o by omega]
  exact h.type_at

end

/-- Only an alias for `a`, and in the third section the address of another host. -/
def aliasReply : List UInt8 :=
  [0, 1, 0x81, 0x80, 0, 1, 0, 1, 0, 0, 0, 1] ++ [1, 97, 0, 0, 1, 0, 1] ++
    [0xc0, 12, 0, 5, 0, 1, 0, 0, 0, 60, 0, 3, 1, 98, 0] ++
      [1, 99, 0, 0, 1, 0, 1, 0, 0, 0, 60, 0, 4, 10, 0, 0, 1]

end Uboot.Dns
