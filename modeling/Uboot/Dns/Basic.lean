import Uboot.Lib.Bytes

/-!
# Answers of a DNS server

`DnsHandler` on a payload. A read outside the payload has no value.
-/

namespace Uboot.Dns

/-- `DNS_A_RECORD` -/
def aRecord : Nat := 1

/-- `DNS_CNAME_RECORD` -/
def cnameRecord : Nat := 5

/-- What comes of a packet. `address` is printed and stored; `p` is where it was read. -/
inductive Outcome where
  | ignored
  | hostNotFound
  | notA
  | address (p : Nat) (ip : List UInt8)
  | invalid
  | nothing
deriving DecidableEq

def getUnalignedBe16 (pkt : List UInt8) (p : Nat) : Option Nat :=
  match pkt[p]?, pkt[p + 1]? with
  | some hi, some lo => some (hi.toNat * 256 + lo.toNat)
  | _, _ => none

/-- The loop of the debug message. `i` is a `u16`. -/
def debugLoop (len : Nat) : Nat → Nat → Option Unit
  | 0, _ => none
  | fuel + 1, i => if i < len then debugLoop len fuel ((i + 4) % 2 ^ 16) else some ()

/-- `for (p = s; p < e && *p != '\0'; p++)` -/
def skipHost : List UInt8 → Nat
  | [] => 0
  | b :: s => if b ≠ 0 then skipHost s + 1 else 0

/-- `while (*p && &p[12] < e) p++` -/
def scanName : List UInt8 → Option Nat
  | [] => none
  | b :: s => if b ≠ 0 ∧ 12 < s.length + 1 then (scanName s).map (· + 1) else some 0

/-- The name of an answer; `p` ends two bytes before the type. -/
def skipName (pkt : List UInt8) (p : Nat) : Option Nat :=
  match pkt[p]? with
  | none => none
  | some b => if b ≠ 0xc0 then (scanName (pkt.drop p)).map fun k => p + k - 1 else some p

theorem skipName_ge {pkt : List UInt8} {p q : Nat} (h : skipName pkt p = some q) : p ≤ q + 1 := by
  unfold skipName at h
  split at h
  next => cases h
  next =>
    split at h
    next =>
      obtain ⟨k, -, rfl⟩ := Option.map_eq_some_iff.mp h
      omega
    next =>
      cases h
      exact Nat.le_succ _

/-- The loop through the answers: `found` and `p`. -/
def answersLoop (pkt : List UInt8) (p : Nat) : Option (Bool × Nat) :=
  if p + 12 < pkt.length then
    match _h : skipName pkt p with
    | none => none
    | some q =>
        match getUnalignedBe16 pkt (q + 2) with
        | none => none
        | some type =>
            if type = cnameRecord then
              match getUnalignedBe16 pkt (q + 10) with
              | none => none
              | some dlen => answersLoop pkt (q + 12 + dlen)
            else some (type = aRecord, q)
  else some (false, p)
termination_by pkt.length - p
decreasing_by
  have := skipName_ge ‹skipName pkt p = some q›
  omega

/-- The end of the handler, with `found` and `p` of the loop. -/
def report (pkt : List UInt8) (found : Bool) (p : Nat) : Option Outcome :=
  if found ∧ p + 12 < pkt.length then
    match getUnalignedBe16 pkt (p + 10) with
    | none => none
    | some dlen =>
        if pkt.length < p + 12 + 4 then none
        else if p + 12 + dlen ≤ pkt.length then some (.address (p + 12) ((pkt.drop (p + 12)).take 4))
        else some .invalid
  else some .nothing

/-- `DnsHandler` from the query on; `p` is behind the name. -/
def handleAnswers (pkt : List UInt8) (p : Nat) : Option Outcome :=
  if pkt.length < p + 5 then some .notA
  else
    match getUnalignedBe16 pkt (p + 1) with
    | none => none
    | some type =>
        if type ≠ aRecord then some .notA
        else (answersLoop pkt (p + 5)).bind fun r => report pkt r.1 r.2

/-- `DnsHandler` after the debug message. -/
def handle (pkt : List UInt8) : Option Outcome :=
  match getUnalignedBe16 pkt 4 with
  | none => none
  | some nqueries =>
      if nqueries ≠ 1 then some .ignored
      else
        match getUnalignedBe16 pkt 6 with
        | none => none
        | some nanswers =>
            if nanswers = 0 then some .hostNotFound
            else handleAnswers pkt (12 + skipHost (pkt.drop 12))

/-- None while it runs; an outcome only when all reads were in the payload. -/
def dnsHandler (fuel dnsOurPort dest : Nat) (pkt : List UInt8) : Option (Option Outcome) :=
  if dest ≠ dnsOurPort then some (some .ignored) else (debugLoop pkt.length fuel 0).map fun _ => handle pkt

end Uboot.Dns
