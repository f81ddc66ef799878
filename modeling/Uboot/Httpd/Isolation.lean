import Uboot.Httpd.Quiet

/-!
# Two connections

uIP has two connections. One sends an upload; the other one may do anything, but while the upload is received it must
not send data of an upload of its own, and no MAC command that reads the ART partition. The other connection's resets
drop the boundary, and then the upload is aborted at its next segment.
-/

namespace Uboot.Httpd

open Uboot.Lib

/-- The connection with the upload, the other one, and the reply to the upload's last event. -/
structure Pair where
  up : HttpdState
  other : HttpdState
  g : Globals
  reply : Reply

inductive PairAct where
  /-- the upload's connection -/
  | up (a : Arrival)
  /-- the upload's connection is closed, or reset or timed out -/
  | upClosed
  | upAborted
  /-- any event of the other connection -/
  | other (ev : Event)

def Pair.stepUp (site : Site) (p : Pair) (ev : Event) : Pair :=
  if p.reply.ends then p
  else
    let res := appcall site ev p.up p.g
    { p with up := res.hs, g := res.g, reply := res.reply }

def Pair.step (site : Site) (p : Pair) : PairAct → Pair
  | .up a => p.stepUp site a.event
  | .upClosed => p.stepUp site { closed := true }
  | .upAborted => p.stepUp site { aborted := true }
  | .other ev =>
      let res := appcall site ev p.other p.g
      { p with other := res.hs, g := res.g }

def Pair.run (site : Site) (p : Pair) (acts : List PairAct) : Pair := acts.foldl (Pair.step site) p

/-- The upload's connection is opened. -/
def Pair.start (site : Site) (up other : HttpdState) (g : Globals) : Pair :=
  let res := connect site up g
  ⟨res.hs, other, res.g, res.reply⟩

def PairAct.arrival : PairAct → Option Arrival
  | .up a => some a
  | _ => none

/-- The upload's segments and polls. -/
def arrivals (acts : List PairAct) : List Arrival := acts.filterMap PairAct.arrival

/-- No upload has failed when the upload begins, and while it is received the other connection sends no data of an
upload and no command that loads the ART partition. -/
def Pair.Sound (p : Pair) : PairAct → Prop
  | .up (.segment data stale _ _) => p.reply.ends = false → p.up.state = .none →
      p.g.uploadFailed = false ∧ CleanStart data stale
  | .other ev => p.reply.ends = false → p.up.state = .uploadRequest →
      ev.carriesUpload p.other = false ∧ ev.loadsArt p.other = false
  | _ => True

instance (data stale : List UInt8) : Decidable (CleanStart data stale) :=
  inferInstanceAs (Decidable (¬ (ascii "POST /macrw" <+: data ++ stale ∨ ascii "POST /setenv" <+: data ++ stale ∨
    ascii "POST /reset" <+: data ++ stale) ∧ ¬ contentLength <:+ data))

instance (p : Pair) : (act : PairAct) → Decidable (p.Sound act)
  | .up (.segment data stale _ _) => inferInstanceAs (Decidable (p.reply.ends = false → p.up.state = .none →
      p.g.uploadFailed = false ∧ CleanStart data stale))
  | .other ev => inferInstanceAs (Decidable (p.reply.ends = false → p.up.state = .uploadRequest →
      ev.carriesUpload p.other = false ∧ ev.loadsArt p.other = false))
  | .up .poll => instDecidableTrue
  | .upClosed => instDecidableTrue
  | .upAborted => instDecidableTrue

/-- Every step of a run is sound. -/
def Pair.SoundRun (site : Site) : Pair → List PairAct → Prop
  | _, [] => True
  | p, act :: acts => p.Sound act ∧ Pair.SoundRun site (p.step site act) acts

instance instDecidableSoundRun (site : Site) : (p : Pair) → (acts : List PairAct) → Decidable (p.SoundRun site acts)
  | _, [] => instDecidableTrue
  | p, act :: acts =>
      have := instDecidableSoundRun site (p.step site act) acts
      inferInstanceAs (Decidable (p.Sound act ∧ Pair.SoundRun site (p.step site act) acts))

/-- The upload after `k` bytes. -/
inductive PairInv (r : Request) (cut : Nat → Nat → Prop) (k : Nat) (p : Pair) : Prop where
  | gone (ends : p.reply.ends = true)
  | idle (zero : k = 0) (ends : p.reply.ends = false) (state_eq : p.up.state = .none)
  | goes (upload : Goes r cut k ⟨p.up, p.g, p.reply⟩)
  /-- the other connection has dropped the boundary -/
  | lost (ends : p.reply.ends = false) (state_eq : p.up.state = .uploadRequest) (not_found : p.g.dataStartFound = false)
      (no_boundary : p.g.boundaryValue = none)
  | finished (all : k = r.bytes.length) (ends : p.reply.ends = false) (state_eq : p.up.state = .fileRequest)

section
variable {r : Request} {cut : Nat → Nat → Prop} {site : Site} {k : Nat} {p : Pair}

theorem Goes.state_eq {c : Result} (h : Goes r cut k c) : c.hs.state = .uploadRequest := by
  rcases h.phase with hr | hst
  · exact hr.state_eq
  · exact hst.state_eq

theorem Goes.ends {c : Result} (h : Goes r cut k c) : c.reply.ends = false := by
  rw [h.reply_eq]
  rfl

theorem Pair.stepUp_open (h : p.reply.ends = false) (ev : Event) : p.stepUp site ev =
    ⟨(appcall site ev p.up p.g).hs, p.other, (appcall site ev p.up p.g).g, (appcall site ev p.up p.g).reply⟩ := by
  rw [Pair.stepUp, h]
  rfl

theorem Pair.stepUp_ended (h : p.reply.ends = true) (ev : Event) : p.stepUp site ev = p := by
  rw [Pair.stepUp, if_pos h]

/-! ## Steps -/

/-- The upload's connection goes away. -/
theorem PairInv.hangup {ev : Event} (hev : ev.closed = true ∨ ev.aborted = true) (p : Pair) :
    PairInv r cut k (p.stepUp site ev) := by
  cases hends : p.reply.ends with
  | true =>
      rw [Pair.stepUp_ended hends]
      exact .gone hends
  | false =>
      rw [Pair.stepUp_open hends]
      refine .gone ?_
      change (appcall site ev p.up p.g).reply.ends = true
      rw [appcall]
      split
      next => rfl
      next hclosed =>
        have habort : (ev.aborted || ev.timedout) = true := by
          rw [hev.resolve_left hclosed, Bool.true_or]
        rw [if_pos habort]
        rfl

/-- An event of the other connection. -/
theorem PairInv.other (h : PairInv r cut k p) (ev : Event) (hsound : p.Sound (.other ev)) :
    PairInv r cut k (p.step site (.other ev)) := by
  cases h with
  | gone ends => exact .gone ends
  | idle zero ends state_eq => exact .idle zero ends state_eq
  | goes upload =>
      have hends : p.reply.ends = false := upload.ends
      have hquiet := hsound hends upload.state_eq
      have hlost : ∀ g' : Globals, (appcall site ev p.other p.g).g = g'.forget → PairInv r cut k (p.step site (.other ev)) := by
        intro g' hg
        refine .lost hends upload.state_eq ?_ ?_
        · change (appcall site ev p.other p.g).g.dataStartFound = false
          rw [hg]
          rfl
        · change (appcall site ev p.other p.g).g.boundaryValue = none
          rw [hg]
          rfl
      rcases appcall_quiet site p.g hquiet.1 hquiet.2 with hg | hg | hg
      · refine .goes ?_
        change Goes r cut k ⟨p.up, (appcall site ev p.other p.g).g, p.reply⟩
        rw [hg]
        exact upload
      · exact hlost _ hg
      · exact hlost _ hg
  | lost ends state_eq not_found no_boundary =>
      have hquiet := hsound ends state_eq
      have hg : (appcall site ev p.other p.g).g.dataStartFound = false ∧
          (appcall site ev p.other p.g).g.boundaryValue = none := by
        rcases appcall_quiet site p.g hquiet.1 hquiet.2 with hg | hg | hg <;> rw [hg]
        · exact ⟨not_found, no_boundary⟩
        · exact ⟨rfl, rfl⟩
        · exact ⟨rfl, rfl⟩
      exact .lost ends state_eq hg.1 hg.2
  | finished all ends state_eq => exact .finished all ends state_eq

theorem PairInv.poll (h : PairInv r cut k p) : PairInv r cut k (p.step site (.up .poll)) ∧
    (p.up.state = .uploadRequest → (p.step site (.up .poll)).up.state ≠ .fileRequest) := by
  change PairInv r cut k (p.stepUp site Arrival.poll.event) ∧
    (p.up.state = .uploadRequest → (p.stepUp site Arrival.poll.event).up.state ≠ .fileRequest)
  cases hends : p.reply.ends with
  | true =>
      rw [Pair.stepUp_ended hends]
      exact ⟨.gone hends, fun hs => by rw [hs]; decide⟩
  | false =>
      rw [Pair.stepUp_open hends]
      rcases appcall_poll site p.up p.g with ⟨n, hn⟩ | ⟨n, hn⟩ <;> rw [hn]
      swap
      · exact ⟨.gone rfl, fun _ => by change ConnState.none ≠ .fileRequest; decide⟩
      refine ⟨?_, fun hs => by change p.up.state ≠ _; rw [hs]; decide⟩
      cases h with
      | gone ends => rw [ends] at hends; cases hends
      | idle zero ends state_eq => exact .idle zero rfl state_eq
      | goes upload => exact .goes (upload.count n)
      | lost ends state_eq not_found no_boundary => exact .lost rfl state_eq not_found no_boundary
      | finished all ends state_eq => exact .finished all rfl state_eq

/-- A segment of an upload whose boundary was dropped. -/
theorem appcall_lost {hs : HttpdState} {g : Globals} {data stale : List UInt8} {mss : Nat} {ok : Bool}
    (hstate : hs.state = .uploadRequest) (hfound : g.dataStartFound = false) (hb : g.boundaryValue = none) :
    appcall site (Arrival.segment data stale mss ok).event hs g = resetAnd .abort hs g := by
  rw [appcall_continues rfl hstate rfl rfl, continueUpload_lost hfound hb]

/-- The next segment of the upload. -/
theorem PairInv.segment (h : PairInv r cut k p) (hwf : r.WellFormed) {data stale : List UInt8} {mss : Nat} {ok : Bool}
    (hpre : data <+: r.bytes.drop k) (hpos : 0 < data.length) (hbuf : data.length ≤ uipBufsize) (hcut : cut k data.length)
    (hsound : p.Sound (.up (.segment data stale mss ok))) :
    PairInv r cut (k + data.length) (p.stepUp site (Arrival.segment data stale mss ok).event) ∧
      (p.up.state = .uploadRequest → (p.stepUp site (Arrival.segment data stale mss ok).event).up.state = .fileRequest →
        Finished r cut (p.stepUp site (Arrival.segment data stale mss ok).event).g) := by
  have hle : k + data.length ≤ r.bytes.length := by
    have hl := hpre.length_le
    rw [List.length_drop] at hl
    omega
  obtain ⟨m, hm⟩ : ∃ m, m = data.length := ⟨_, rfl⟩
  have hdata : data = slice r.bytes k m := hm ▸ slice_of_prefix hpre
  rw [← hm] at hle hpos hbuf hcut ⊢
  -- a segment without an answer, or an abort, does not finish the upload
  have hgoes : ∀ res, Goes r cut (k + m) res → PairInv r cut (k + m) ⟨res.hs, p.other, res.g, res.reply⟩ ∧
      (p.up.state = .uploadRequest → res.hs.state = .fileRequest → Finished r cut res.g) := by
    intro res hres
    exact ⟨.goes hres, fun _ hst => by rw [hres.state_eq] at hst; cases hst⟩
  have hgone : ∀ res : Result, res.reply = .abort → res.hs.state = .none →
      PairInv r cut (k + m) ⟨res.hs, p.other, res.g, res.reply⟩ ∧
      (p.up.state = .uploadRequest → res.hs.state = .fileRequest → Finished r cut res.g) := by
    intro res hres hnone
    exact ⟨.gone (by change res.reply.ends = true; rw [hres]; rfl), fun _ hst => by rw [hnone] at hst; cases hst⟩
  cases h with
  | gone ends =>
      rw [Pair.stepUp_ended ends]
      exact ⟨.gone ends, fun hup hst => by rw [hup] at hst; cases hst⟩
  | idle zero ends state_eq =>
      subst zero
      obtain ⟨hfail, hcmd, hlast⟩ := hsound ends state_eq
      rw [Pair.stepUp_open ends]
      subst hdata
      rw [Nat.zero_add] at hle hgoes hgone ⊢
      obtain ⟨res, hres, -, hno | hyes⟩ := first_segment hwf hpos hbuf hle hcut state_eq hfail hcmd hlast
      · rw [hres]
        exact hgone res hno.reply_eq hno.state_eq
      · rw [hres]
        exact hgoes res hyes
  | goes upload =>
      rw [Pair.stepUp_open upload.ends]
      subst hdata
      rcases upload.phase with hr | hst
      · obtain ⟨res, hres, -, hno | hyes⟩ := hr.segment hwf hbuf hle hcut
        · rw [hres]
          exact hgone res hno.reply_eq hno.state_eq
        · rw [hres]
          exact hgoes res hyes
      · rcases Nat.lt_or_eq_of_le hle with hlt | heq
        · obtain ⟨res, hres, -, -, hreply, hst'⟩ := hst.segment hwf.length_lt hlt
          rw [hres]
          exact hgoes res ⟨hreply, Or.inr hst'⟩
        · obtain ⟨res, hres, -, -, -, ⟨len, hreply⟩, hstate, hfin⟩ := hst.last_segment hwf.length_lt heq
          rw [hres]
          exact ⟨.finished heq (by change res.reply.ends = false; rw [hreply]; rfl) hstate, fun _ _ => hfin⟩
  | lost ends state_eq not_found no_boundary =>
      rw [Pair.stepUp_open ends, appcall_lost state_eq not_found no_boundary]
      exact hgone _ rfl rfl
  | finished all ends state_eq => omega

/-! ## Runs -/

/-- One step, with the bytes that arrive in it. -/
theorem PairInv.step (h : PairInv r cut k p) (hwf : r.WellFormed) {act : PairAct}
    (hok : ∀ a ∈ act.arrival, a.Ok) (hdata : ∀ a ∈ act.arrival, a.data <+: r.bytes.drop k)
    (hcut : ∀ a ∈ act.arrival, cut k a.data.length) (hsound : p.Sound act) :
    PairInv r cut (k + (received (arrivals [act])).length) (p.step site act) := by
  cases act with
  | upClosed => exact PairInv.hangup (Or.inl rfl) p
  | upAborted => exact PairInv.hangup (Or.inr rfl) p
  | other ev => exact h.other ev hsound
  | up a =>
      cases a with
      | poll => exact h.poll.1
      | segment data stale mss ok =>
          obtain ⟨hpos, hbuf⟩ := hok _ rfl
          have hone : received (arrivals [.up (.segment data stale mss ok)]) = data := List.append_nil data
          rw [hone]
          exact (h.segment hwf (hdata _ rfl) hpos hbuf (hcut _ rfl) hsound).1

theorem arrivals_append (acts acts' : List PairAct) : arrivals (acts ++ acts') = arrivals acts ++ arrivals acts' :=
  List.filterMap_append

theorem received_append (as as' : List Arrival) : received (as ++ as') = received as ++ received as' :=
  List.flatMap_append

/-- One of the arrivals has the bytes from `k` to `k + m`. -/
def Cut (as : List Arrival) (k m : Nat) : Prop :=
  ∃ before a after, as = before ++ a :: after ∧ (received before).length = k ∧ a.data.length = m

theorem Cut.left {as : List Arrival} {m : Nat} (h : Cut as k m) (as' : List Arrival) : Cut (as ++ as') k m := by
  obtain ⟨before, a, after, rfl, hk, hm⟩ := h
  exact ⟨before, a, after ++ as', by rw [List.append_assoc, List.cons_append], hk, hm⟩

theorem Cut.right {as : List Arrival} {m : Nat} (h : Cut as k m) (as' : List Arrival) :
    Cut (as' ++ as) ((received as').length + k) m := by
  obtain ⟨before, a, after, rfl, hk, hm⟩ := h
  exact ⟨as' ++ before, a, after, by rw [List.append_assoc], by rw [received_append, List.length_append, hk], hm⟩

theorem Cut.head (a : Arrival) (as : List Arrival) : Cut (a :: as) 0 a.data.length := ⟨[], a, as, rfl, rfl, rfl⟩

theorem PairInv.run (h : PairInv r cut k p) (hwf : r.WellFormed) {acts : List PairAct}
    (hok : ∀ a ∈ arrivals acts, a.Ok) (hdata : received (arrivals acts) <+: r.bytes.drop k)
    (hcut : ∀ i m, Cut (arrivals acts) i m → cut (k + i) m) (hsound : p.SoundRun site acts) :
    PairInv r cut (k + (received (arrivals acts)).length) (p.run site acts) := by
  induction acts generalizing k p with
  | nil => exact h
  | cons act acts ih =>
      have hsplit : arrivals (act :: acts) = arrivals [act] ++ arrivals acts := arrivals_append [act] acts
      rw [hsplit, received_append] at hdata
      rw [hsplit] at hok hcut
      have hmem : ∀ a ∈ act.arrival, a ∈ arrivals [act] := fun a ha =>
        List.mem_filterMap.mpr ⟨act, List.mem_cons_self, ha⟩
      have hfirst : ∀ a ∈ act.arrival, a.data <+: r.bytes.drop k := by
        intro a ha
        cases act with
        | up b =>
            obtain rfl : b = a := Option.some.inj ha
            have hone : received (arrivals [.up b]) = b.data := List.append_nil b.data
            rw [hone] at hdata
            exact (List.prefix_append _ _).trans hdata
        | upClosed => cases ha
        | upAborted => cases ha
        | other ev => cases ha
      have hseg : ∀ a ∈ act.arrival, cut k a.data.length := by
        intro a ha
        cases act with
        | up b =>
            obtain rfl : b = a := Option.some.inj ha
            exact hcut 0 _ (.head b (arrivals acts))
        | upClosed => cases ha
        | upAborted => cases ha
        | other ev => cases ha
      have hstep : PairInv r cut (k + (received (arrivals [act])).length) (p.step site act) :=
        h.step hwf (fun a ha => hok a (List.mem_append_left _ (hmem a ha))) hfirst hseg hsound.1
      have hnext : received (arrivals acts) <+: r.bytes.drop (k + (received (arrivals [act])).length) := by
        have hd := hdata.drop (received (arrivals [act])).length
        rwa [List.drop_left, List.drop_drop] at hd
      have hlater : ∀ i m, Cut (arrivals acts) i m → cut (k + (received (arrivals [act])).length + i) m := by
        intro i m hi
        rw [Nat.add_assoc]
        exact hcut _ m (hi.right _)
      have hrun := ih hstep (fun a ha => hok a (List.mem_append_right _ ha)) hnext hlater hsound.2
      rw [hsplit, received_append, List.length_append, ← Nat.add_assoc]
      exact hrun

theorem Pair.SoundRun.append {acts acts' : List PairAct} (h : p.SoundRun site (acts ++ acts')) :
    p.SoundRun site acts ∧ (p.run site acts).SoundRun site acts' := by
  induction acts generalizing p with
  | nil => exact ⟨trivial, h⟩
  | cons act acts ih =>
      obtain ⟨hrest, hlast⟩ := ih h.2
      exact ⟨⟨h.1, hrest⟩, hlast⟩

/-- The type that is found is the type of the upload. -/
theorem Request.HasType.eq {type found : UpgradeType} (h : r.HasType cut type) (hwf : r.WellFormed)
    (hfound : r.TypeFound cut found) : found = type := by
  obtain ⟨k, m, ys, hcut, hk, hkm, hf⟩ := hfound
  have ht := h.found hwf ys hcut hk hkm
  rw [hf] at ht
  exact Option.some.inj ht

end

/-- An upload that completes while the other connection does anything else. -/
theorem upload_isolated (site : Site) (r : Request) (hwf : r.WellFormed) (type : UpgradeType)
    (up other : HttpdState) (g : Globals) (acts : List PairAct) (a : Arrival)
    (htype : r.HasType (Cut (arrivals (acts ++ [.up a]))) type)
    (hok : ∀ b ∈ arrivals (acts ++ [.up a]), b.Ok) (hcut : received (arrivals (acts ++ [.up a])) <+: r.bytes)
    (hsound : (Pair.start site up other g).SoundRun site (acts ++ [.up a])) (p p' : Pair)
    (hp : p = (Pair.start site up other g).run site acts) (hp' : p' = p.step site (.up a))
    (hbefore : p.up.state = .uploadRequest) (hafter : p'.up.state = .fileRequest) :
    p'.g.postDone = true ∧ p'.g.netBootFileXferSize = r.file.length ∧ p'.g.upgradeType = type ∧
      p'.g.uploadFailed = sizeError type r.file.length ∧
      (sizeError type r.file.length = false → p'.g.mem.read uploadRamAddress r.file.length = r.file) := by
  have hstart : PairInv r (Cut (arrivals (acts ++ [.up a]))) 0 (Pair.start site up other g) := .idle rfl rfl rfl
  have hsplit : arrivals (acts ++ [.up a]) = arrivals acts ++ [a] := arrivals_append acts [.up a]
  rw [hsplit, received_append] at hcut
  rw [hsplit] at hok
  obtain ⟨hsound1, hsound2⟩ := hsound.append
  have hinv := hstart.run hwf (fun b hb => hok b (List.mem_append_left _ hb))
    ((List.prefix_append _ _).trans hcut) (fun i m hi => by rw [hsplit, Nat.zero_add]; exact hi.left [a]) hsound1
  have hlast : Cut (arrivals (acts ++ [.up a])) ((received (arrivals acts)).length + 0) a.data.length := by
    rw [hsplit]
    exact (Cut.head a []).right (arrivals acts)
  rw [← hp] at hinv hsound2
  have hfin : Finished r (Cut (arrivals (acts ++ [.up a]))) p'.g := by
    subst hp'
    cases a with
    | poll => exact absurd hafter (hinv.poll.2 hbefore)
    | segment data stale mss ok =>
        obtain ⟨hpos, hbuf⟩ := hok (.segment data stale mss ok) (List.mem_append_right _ List.mem_cons_self)
        have hone : received [.segment data stale mss ok] = data := List.append_nil data
        have hnext : data <+: r.bytes.drop (0 + (received (arrivals acts)).length) := by
          have hd := hcut.drop (received (arrivals acts)).length
          rw [List.drop_left, hone] at hd
          rwa [Nat.zero_add]
        rw [Nat.add_comm] at hlast
        exact (hinv.segment hwf hnext hpos hbuf hlast hsound2.1).2 hbefore hafter
  have hfound := htype.eq hwf hfin.type_eq
  have hfail := hfin.failed_eq
  rw [hfound] at hfail
  exact ⟨hfin.done, hfin.size_eq, hfound, hfail, fun hsize => hfin.stored (hfail.trans hsize)⟩

/-! ## Examples -/

theorem sampleForm_hasType (fill : UInt8) (cut : Nat → Nat → Prop) : (sampleForm fill).HasType cut .firmware := by
  refine ⟨⟨nameFirmware, rfl, 34, ?_⟩, ?_⟩
  · change nameFirmware <+: samplePart.drop 34
    decide
  · intro k m _ _ _ name hname
    cases hname

/-- A page is asked for on a connection that was opened before. -/
def getIndex : Event := { newdata := true, data := ascii "GET / HTTP/1.1\r\n" }

/-- All but the last segment of an upload, and a request for a page. -/
def sampleActs : List PairAct :=
  (segmentsOf (sampleForm 0).bytes 0 [90, 1400, 1400]).map .up ++ [.other getIndex] ++
    (segmentsOf (sampleForm 0).bytes 2890 [1400, 1400, 1400, 1400, 1400]).map .up

/-- The first segment of the upload, the first 160 bytes of another one, and the rest of the upload but its last
segment. -/
def mixedActs : List PairAct :=
  (segmentsOf (sampleForm 0).bytes 0 [1400]).map .up ++
    [.other { connected := true }, .other { newdata := true, data := slice (sampleForm 1).bytes 0 160 }] ++
    (segmentsOf (sampleForm 0).bytes 1400 [1400, 1400, 1400, 1400, 1400, 1400]).map .up

/-- How the two runs go -/
theorem sample_pairs :
    ((((Pair.start sampleSite freshState freshState freshGlobals).run sampleSite sampleActs).up.state,
      (((Pair.start sampleSite freshState freshState freshGlobals).run sampleSite sampleActs).step sampleSite
        (.up (.segment (slice (sampleForm 0).bytes 9890 500) [] 1446 true))).up.state) =
      (.uploadRequest, .fileRequest)) ∧
    (Pair.start sampleSite freshState freshState freshGlobals).SoundRun sampleSite
      (sampleActs ++ [.up (.segment (slice (sampleForm 0).bytes 9890 500) [] 1446 true)]) ∧
    ∃ p p', p = (Pair.start sampleSite freshState freshState freshGlobals).run sampleSite mixedActs ∧
      p' = p.step sampleSite (.up (.segment (slice (sampleForm 0).bytes 9800 590) [] 1446 true)) ∧
      (p.up.state, p'.up.state, p'.g.postDone, p'.g.uploadFailed, p'.g.mem uploadRamAddress) =
        (.uploadRequest, .fileRequest, true, false, 1) := by
  refine ⟨?_, ?_, _, _, rfl, rfl, ?_⟩
  · set_option maxRecDepth 16000 in decide
  · set_option maxRecDepth 16000 in decide
  · set_option maxRecDepth 16000 in decide

theorem upload_isolated_sample :
    ∃ p', p' = ((Pair.start sampleSite freshState freshState freshGlobals).run sampleSite sampleActs).step sampleSite
        (.up (.segment (slice (sampleForm 0).bytes 9890 500) [] 1446 true)) ∧
      p'.g.postDone = true ∧ p'.g.mem.read uploadRamAddress 10233 = List.replicate 10233 0 := by
  have hlen := sampleForm_length 0
  have harrivals : arrivals (sampleActs ++ [.up (.segment (slice (sampleForm 0).bytes 9890 500) [] 1446 true)]) =
      segmentsOf (sampleForm 0).bytes 0 [90, 1400, 1400, 1400, 1400, 1400, 1400, 1400, 500] := rfl
  have hrec := received_segmentsOf (sampleForm 0).bytes 0 sampleCut
  have hcut : received (segmentsOf (sampleForm 0).bytes 0 sampleCut) <+: (sampleForm 0).bytes := by
    rw [hrec, slice_all _ (m := sampleCut.sum) hlen]
  have hok : ∀ a ∈ segmentsOf (sampleForm 0).bytes 0 sampleCut, a.Ok :=
    segmentsOf_ok (by decide) (by rw [hlen]; decide)
  obtain ⟨hstates, hsound, -⟩ := sample_pairs
  obtain ⟨hbefore, hafter⟩ := Prod.mk.inj hstates
  have hres := upload_isolated sampleSite (sampleForm 0) (sampleForm_wellFormed (by decide)) .firmware
    freshState freshState freshGlobals sampleActs _ (sampleForm_hasType 0 _) (by rw [harrivals]; exact hok)
    (by rw [harrivals]; exact hcut) hsound _ _ rfl rfl hbefore hafter
  refine ⟨_, rfl, hres.1, ?_⟩
  have hfile : (sampleForm 0).file.length = 10233 := List.length_replicate
  have hmem := hres.2.2.2.2 (by decide)
  rw [hfile] at hmem
  exact hmem

/-- The upload completes with bytes of the other one. -/
theorem upload_mixed_with_other :
    (sampleForm 0).WellFormed ∧ (∀ cut, (sampleForm 0).HasType cut .firmware) ∧
      ∃ acts a p p', arrivals (acts ++ [.up a]) =
          segmentsOf (sampleForm 0).bytes 0 [1400, 1400, 1400, 1400, 1400, 1400, 1400, 590] ∧
        p = (Pair.start sampleSite freshState freshState freshGlobals).run sampleSite acts ∧
        p' = p.step sampleSite (.up a) ∧ p.up.state = .uploadRequest ∧ p'.up.state = .fileRequest ∧
        p'.g.postDone = true ∧ p'.g.uploadFailed = false ∧
        p'.g.mem.read uploadRamAddress (sampleForm 0).file.length ≠ (sampleForm 0).file := by
  obtain ⟨p, p', hp, hp', hend⟩ := sample_pairs.2.2
  simp only [Prod.mk.injEq] at hend
  obtain ⟨hbefore, hafter, hdone, hfail, hbyte⟩ := hend
  refine ⟨sampleForm_wellFormed (by decide), sampleForm_hasType 0, mixedActs, _, p, p', rfl, hp, hp', hbefore, hafter,
    hdone, hfail, ?_⟩
  intro hread
  have hlen : (sampleForm 0).file.length = 10233 := List.length_replicate
  have hfirst := Mem.read_eq_iff.mp hread 0 (by rw [hlen]; decide)
  rw [Nat.add_zero, hbyte] at hfirst
  exact absurd hfirst (by decide)

end Uboot.Httpd
