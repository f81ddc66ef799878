import Uboot.Uip.Steps

/-!
# What the application receives

The segments of the peers arrive in any order, any number of times or never. For each connection the application still gets
the bytes of the peer's stream in order and once, and what is acknowledged is what it got.
-/

namespace Uboot.Uip

variable {α γ : Type}

/-- What a peer sends on one connection: its first sequence number, and its bytes. -/
structure Stream where
  isn : Nat
  bytes : List UInt8
  fits : bytes.length + 1 < 2 ^ 32

/-- A segment of the stream. Data stand right after the 40 bytes of the headers. -/
structure Stream.Has (st : Stream) (h : Hdr) (data : List UInt8) : Prop where
  plain : h.Plain
  syn : h.flags &&& tcpCtl = tcpSyn → h.seqno.toNat = st.isn % 2 ^ 32
  slice : 0 < h.payload → h.tcpLen = 20 ∧ 40 ≤ h.ipLen.toNat ∧ h.payload.toNat ≤ data.length ∧
    ∃ off, h.seqno.toNat = (st.isn + 1 + off) % 2 ^ 32 ∧ data.take h.payload.toNat <+: st.bytes.drop off

/-- A TCP segment that passes the checks of the host belongs to the stream of its connection. Any other packet is arbitrary. -/
def Ev.From (hostaddr : UInt16 × UInt16) (peer : Endpoint → Stream) : Ev → Prop
  | .packet h data _ => h.Passes hostaddr data → (peer h.endpoint).Has h data
  | .timer _ _ _ => True

/-- The bytes the application got on a connection, with one more call. -/
def hand (got : List UInt8) (k : Call α) : List UInt8 :=
  let got := if k.flags.connected then [] else got
  if k.flags.newdata then got ++ k.appdata.take k.len.toNat else got

/-- The bytes the application got on connection `i` since it was opened. -/
def handed (i : Nat) (calls : List (Nat × Call α)) : List UInt8 :=
  calls.foldl (fun got jk => if jk.1 = i then hand got jk.2 else got) []

variable {appcall : App α γ} {s : Stack α γ} {i : Nat} {c c' : Conn α} {h : Hdr} {data got : List UInt8} {st : Stream}
  {call : Option (Call α)} {calls : List (Nat × Call α)} {sent : Option Packet} {o : Outcome α γ} {g : γ}
  {calls' : List (Nat × Call α)} {seg : Option (Hdr × List UInt8)} {peer : Endpoint → Stream} {ev : Ev}

theorem handed_append (i : Nat) (calls : List (Nat × Call α)) (call : Option (Call α)) (j : Nat) :
    handed i (calls ++ (call.map (Prod.mk j)).toList) =
      if j = i then call.elim (handed i calls) (hand (handed i calls)) else handed i calls := by
  cases call with
  | none => simp
  | some k => simp [handed, List.foldl_append]

/-! ## One connection -/

/-- The connection stands where the stream does, after the bytes `got`. -/
structure Stream.At (st : Stream) (c : Conn α) (got : List UInt8) : Prop where
  start : c.state = .synRcvd → c.rcvNxt.toNat = (st.isn + 1) % 2 ^ 32
  got : c.state = .established → got <+: st.bytes ∧ c.rcvNxt.toNat = (st.isn + 1 + got.length) % 2 ^ 32

/-- The segment with the expected number brings the bytes that come next. -/
theorem Stream.Has.next (hs : st.Has h data) (hpos : 0 < h.payload) (hgot : got <+: st.bytes)
    (hseq : h.seqno.toNat = (st.isn + 1 + got.length) % 2 ^ 32) :
    got ++ data.take h.payload.toNat <+: st.bytes ∧ (data.take h.payload.toNat).length = h.payload.toNat := by
  obtain ⟨-, -, hle, off, hoff, hslice⟩ := hs.slice hpos
  have hlen : (data.take h.payload.toNat).length = h.payload.toNat := by
    rw [List.length_take, Nat.min_eq_left hle]
  have hfits := st.fits
  have hgle := hgot.length_le
  have hsle := hslice.length_le
  rw [hlen, List.length_drop] at hsle
  have hpos' : 0 < h.payload.toNat := UInt16.lt_iff_toNat_lt.mp hpos
  have hat : off = got.length := by omega
  refine ⟨?_, hlen⟩
  obtain ⟨rest, hrest⟩ := hgot
  rw [← hrest] at hslice ⊢
  rw [hat, List.drop_left] at hslice
  exact (List.prefix_append_right_inj got).mpr hslice

theorem Stream.At.add (hs : st.Has h data) (hpos : 0 < h.payload) (hgot : got <+: st.bytes)
    (hrcv : c.rcvNxt.toNat = (st.isn + 1 + got.length) % 2 ^ 32) (hseq : h.seqno = c.rcvNxt) :
    got ++ data.take h.payload.toNat <+: st.bytes ∧ (uipAdd32 c.rcvNxt h.payload).toNat =
      (st.isn + 1 + (got ++ data.take h.payload.toNat).length) % 2 ^ 32 := by
  obtain ⟨hpre, hlen⟩ := hs.next hpos hgot (hseq ▸ hrcv)
  refine ⟨hpre, ?_⟩
  rw [uipAdd32_toNat, hrcv, List.length_append, hlen]
  omega

/-- A turn keeps the number that is expected, unless it ends the connection. -/
theorem Turn.rcvNxt {k : Call α} {a : Answer α} (ht : Turn k a c' sent) (hopen : c'.isOpen = true) :
    c'.rcvNxt = k.conn.rcvNxt ∧ c'.state = k.conn.state := by
  cases ht with
  | ended hclosed hend hdata =>
      rw [hclosed] at hopen
      cases hopen
  | offered slen len nrtx hc hlen hsend hdata =>
      rw [hc]
      exact ⟨rfl, rfl⟩

theorem Turn.endpoint {k : Call α} {a : Answer α} (ht : Turn k a c' sent) : c'.endpoint = k.conn.endpoint := by
  cases ht with
  | ended hclosed hend hdata => exact hend
  | offered slen len nrtx hc hlen hsend hdata =>
      rw [hc]
      rfl

theorem Move.endpoint (hm : Move appcall g seg c c' call sent) : c'.endpoint = c.endpoint := by
  cases hm with
  | kept hend => exact hend
  | ended hend => exact hend
  | fin h data hseg hstate hend => exact hend
  | lost h data hseg hstate hfin hacked hend => exact hend
  | turn hk ht => exact ht.endpoint.trans hk.endpoint

/-- A connection that is not open is not opened by a segment or the timer. -/
theorem Conn.not_open (hopen : c.isOpen = false) : c.state ≠ .synRcvd ∧ c.state ≠ .established := by
  constructor
  · intro hstate
    rw [Conn.isOpen_of_state hstate] at hopen
    cases hopen
  · intro hstate
    rw [Conn.isOpen_of_state hstate] at hopen
    cases hopen

theorem Stream.At.closed (hopen : c'.isOpen = false) : st.At c' got where
  start := fun hstate => absurd hstate (c'.not_open hopen).1
  got := fun hstate => absurd hstate (c'.not_open hopen).2

/-- The call of a turn leaves the connection where the stream is. -/
theorem Asked.at {k : Call α} (hk : Asked seg c k) (hat : st.At c got)
    (hs : ∀ h data, seg = some (h, data) → st.Has h data) :
    hand got k <+: st.bytes ∧ k.conn.rcvNxt.toNat = (st.isn + 1 + (hand got k).length) % 2 ^ 32 := by
  -- what the stream has brought so far
  have hbase : ∃ base, hand got k = (if k.flags.newdata then base ++ k.appdata.take k.len.toNat else base) ∧ base <+: st.bytes ∧
      c.rcvNxt.toNat = (st.isn + 1 + base.length) % 2 ^ 32 := by
    by_cases hstart : c.state = .synRcvd
    · refine ⟨[], ?_, List.nil_prefix, hat.start hstart⟩
      rw [hand, if_pos (hk.connected.mpr hstart)]
    · refine ⟨got, ?_, ?_⟩
      · rw [hand, if_neg (fun hc => hstart (hk.connected.mp hc))]
      · refine hat.got ?_
        have hopen := hk.live
        rcases hstate : c.state <;> simp_all [Conn.isOpen, TcpState.isOpen]
  obtain ⟨base, hhand, hpre, hrcv⟩ := hbase
  rw [hhand, hk.rcvNxt fun h data hseg => (hs h data hseg).plain]
  split
  · rename_i hnew
    obtain ⟨h, data, hseg, hpos, hplain⟩ := hk.newdata hnew
    obtain ⟨hseq, hlen, happ⟩ := hplain (hs h data hseg).plain
    rw [hlen] at hpos ⊢
    rw [happ]
    exact Stream.At.add (hs h data hseg) hpos hpre hrcv hseq
  · exact ⟨hpre, hrcv⟩

/-- A connection that changes stays where the stream is, and new data are the stream's. -/
theorem Move.at (hm : Move appcall g seg c c' call sent) (hat : st.At c got)
    (hs : ∀ h data, seg = some (h, data) → st.Has h data) :
    st.At c' (call.elim got (hand got)) ∧ ∀ k ∈ call, k.flags.newdata = true → hand got k <+: st.bytes := by
  have hplain : PlainSeg seg := fun h data hseg => (hs h data hseg).plain
  cases hm with
  | kept hend hstate hrcv =>
      replace hrcv := hrcv hplain
      refine ⟨⟨fun hst => ?_, fun hst => ?_⟩, by simp⟩
      · rw [hrcv]
        exact hat.start (hstate ▸ hst)
      · rw [hrcv]
        exact hat.got (hstate ▸ hst)
  | ended hend hopen hcall =>
      refine ⟨.closed hopen, fun k hk hnew => ?_⟩
      rw [(hcall k hk).2.1] at hnew
      cases hnew
  | fin h data hseg hstate hend hopen hk hconn hlen happ hnew =>
      refine ⟨.closed hopen, fun k' hk' hnew' => ?_⟩
      cases hk'
      obtain ⟨hpos, hseq⟩ := hnew hnew'
      obtain ⟨hpre, hrcv⟩ := hat.got hstate
      rw [hlen] at hpos
      rw [hand, hconn, hnew', hlen, happ]
      exact (Stream.At.add (hs h data hseg) hpos hpre hrcv hseq).1
  | lost h data hseg hstate hfin hacked hend hstate' hrcv =>
      refine ⟨⟨fun hst => ?_, fun hst => ?_⟩, by simp⟩
      · rw [hrcv]
        exact hat.start (hstate' ▸ hst)
      · rw [hrcv]
        exact hat.got (hstate' ▸ hst)
  | turn hk ht =>
      obtain ⟨hpre, hrcv⟩ := hk.at hat hs
      refine ⟨?_, fun k' hk' _ => by cases hk'; exact hpre⟩
      cases hopen : c'.isOpen with
      | false => exact .closed hopen
      | true =>
          obtain ⟨hrcv', hst⟩ := ht.rcvNxt hopen
          refine ⟨fun hstart => ?_, fun _ => ⟨hpre, hrcv'.symm ▸ hrcv⟩⟩
          rw [hst, hk.state] at hstart
          cases hstart

/-! ## All connections -/

/-- Connections that are not closed are different. -/
def Distinct (conns : List (Conn α)) : Prop :=
  ∀ (i j : Nat) (c d : Conn α), conns[i]? = some c → conns[j]? = some d → c.isClosed = false → d.isClosed = false →
    c.endpoint = d.endpoint → i = j

/-- Every call for new data came with the next bytes of the stream. -/
def Fed (peer : Endpoint → Stream) (calls : List (Nat × Call α)) : Prop :=
  ∀ n i k, calls[n]? = some (i, k) → k.flags.newdata = true → handed i (calls.take (n + 1)) <+: (peer k.conn.endpoint).bytes

/-- The invariant: the connections are different, and each one stands where its stream does. -/
structure InStep (peer : Endpoint → Stream) (s : Stack α γ) (calls : List (Nat × Call α)) : Prop where
  distinct : Distinct s.conns
  stands : ∀ i c, s.conns[i]? = some c → (peer c.endpoint).At c (handed i calls)
  fed : Fed peer calls

theorem Conn.isClosed_of_open (hopen : c.isOpen = true) : c.isClosed = false := by
  rcases hstate : c.state <;> simp_all [Conn.isOpen, TcpState.isOpen, Conn.isClosed]

theorem set_getElem? {conns : List (Conn α)} {j : Nat} {d : Conn α} (hd : (conns.set i c')[j]? = some d) :
    (j = i ∧ d = c') ∨ (j ≠ i ∧ conns[j]? = some d) := by
  rw [List.getElem?_set] at hd
  split at hd
  · rename_i hij
    split at hd
    · cases hd
      exact Or.inl ⟨hij.symm, rfl⟩
    · cases hd
  · rename_i hij
    exact Or.inr ⟨fun h => hij h.symm, hd⟩

/-- A closed connection does not move to life: it stays closed, or stays as it was. -/
theorem Distinct.set {conns : List (Conn α)} (hdist : Distinct conns)
    (hnew : c'.isClosed = false → ∀ j d, j ≠ i → conns[j]? = some d → d.isClosed = false → d.endpoint ≠ c'.endpoint) :
    Distinct (conns.set i c') := by
  intro j k d e hd he hdlive helive hend
  rcases set_getElem? hd with ⟨rfl, rfl⟩ | ⟨hj, hd'⟩
  · rcases set_getElem? he with ⟨rfl, rfl⟩ | ⟨hk, he'⟩
    · rfl
    · exact absurd hend.symm (hnew hdlive k e hk he' helive)
  · rcases set_getElem? he with ⟨rfl, rfl⟩ | ⟨hk, he'⟩
    · exact absurd hend (hnew helive j d hj hd' hdlive)
    · exact hdist j k d e hd' he' hdlive helive hend

theorem handed_same (i : Nat) (calls : List (Nat × Call α)) (call : Option (Call α)) :
    handed i (calls ++ (call.map (Prod.mk i)).toList) = call.elim (handed i calls) (hand (handed i calls)) := by
  rw [handed_append, if_pos rfl]

theorem handed_other {i j : Nat} (h : i ≠ j) (calls : List (Nat × Call α)) (call : Option (Call α)) :
    handed i (calls ++ (call.map (Prod.mk j)).toList) = handed i calls := by
  rw [handed_append, if_neg (Ne.symm h)]

/-- Whatever arrives, the connections stay different. -/
theorem StepCase.distinct (hcase : StepCase appcall s ev o) (hdist : Distinct s.conns) : Distinct o.stack.conns := by
  have hmoved : ∀ {j d d' k q}, s.conns[j]? = some d → d.isClosed = false → o.Leaves s.conns s.hostaddr j d' k q →
      d'.endpoint = d.endpoint → Distinct o.stack.conns := by
    intro j d d' k q hd hdlive hl hend
    rw [hl.conns]
    exact hdist.set fun _ i c hi hc hlive hsame => hi (hdist i j c d hc hd hlive hdlive (hsame.trans hend))
  cases hcase with
  | nothing hconns hhost hcall hsent => exact hconns ▸ hdist
  | segment j d h data len hd howns hpass hl hm => exact hmoved hd (Conn.owns_iff.mp howns).1 hl hm.endpoint
  | ticked j d buf rest hd hdlive hl hm => exact hmoved hd hdlive hl hm.endpoint
  | opened j d h data len hd hfree hpass hopen hl hdata =>
      rw [hl.conns]
      refine hdist.set fun _ i c _ hc hlive hend => ?_
      have howns : c.owns h = true := Conn.owns_iff.mpr ⟨hlive, hend.trans hopen.endpoint⟩
      rw [hopen.free c (List.mem_of_getElem? hc)] at howns
      cases howns

theorem StepCase.hostaddr (hcase : StepCase appcall s ev o) : o.stack.hostaddr = s.hostaddr := by
  cases hcase with
  | nothing hconns hhost hcall hsent => exact hhost
  | segment j d h data len hd howns hpass hl hm => exact hl.hostaddr
  | ticked j d buf rest hd hdlive hl hm => exact hl.hostaddr
  | opened j d h data len hd hfree hpass hopen hl hdata => exact hl.hostaddr

theorem hostaddr_run {evs : List Ev} {s' : Stack α γ} (hrun : run appcall s calls evs = some (s', calls')) :
    s'.hostaddr = s.hostaddr := by
  induction evs generalizing s calls with
  | nil =>
      cases hrun
      rfl
  | cons ev evs ih =>
      obtain ⟨o, ho, hrest⟩ := Option.bind_eq_some_iff.mp hrun
      exact (ih hrest).trans (step_case ho).hostaddr

theorem Distinct.init (hclosed : ∀ c ∈ s.conns, c.isClosed = true) : Distinct s.conns := by
  intro i j c d hc hd hlive
  rw [hclosed c (List.mem_of_getElem? hc)] at hlive
  cases hlive

theorem distinct_run {evs : List Ev} {s' : Stack α γ} (hdist : Distinct s.conns)
    (hrun : run appcall s calls evs = some (s', calls')) : Distinct s'.conns := by
  induction evs generalizing s calls with
  | nil =>
      cases hrun
      exact hdist
  | cons ev evs ih =>
      obtain ⟨o, ho, hrest⟩ := Option.bind_eq_some_iff.mp hrun
      exact ih ((step_case ho).distinct hdist) hrest

theorem Fed.append (hfed : Fed peer calls) (hnew : ∀ k ∈ call, k.flags.newdata = true →
    hand (handed i calls) k <+: (peer k.conn.endpoint).bytes) : Fed peer (calls ++ (call.map (Prod.mk i)).toList) := by
  intro n j k hn hflag
  by_cases hlt : n < calls.length
  · rw [List.getElem?_append_left hlt] at hn
    rw [List.take_append_of_le_length hlt]
    exact hfed n j k hn hflag
  · rw [List.getElem?_append_right (not_lt.mp hlt)] at hn
    cases call with
    | none => cases hn
    | some k' =>
        rw [Option.map_some, Option.toList_some, List.getElem?_singleton] at hn
        split at hn
        · rename_i hzero
          cases hn
          have hall : (calls ++ (Option.map (Prod.mk i) (some k)).toList).take (n + 1) =
              calls ++ (Option.map (Prod.mk i) (some k)).toList := List.take_of_length_le (by simp; omega)
          rw [hall, handed_same]
          exact hnew k rfl hflag
        · cases hn

/-- The calls of a connection that moves are for it. -/
theorem Move.call_endpoint (hm : Move appcall g seg c c' call sent) : ∀ k ∈ call, k.conn.endpoint = c.endpoint := by
  intro k hk
  cases hm with
  | kept => cases hk
  | ended hend hopen hcall => exact (hcall k hk).1
  | fin h data hseg hstate hend hopen hend' =>
      cases hk
      exact hend'
  | lost => cases hk
  | turn hasked ht =>
      cases hk
      exact hasked.endpoint

/-- One connection moves, and the others stay. -/
theorem InStep.move (hin : InStep peer s calls) (hdist : Distinct o.stack.conns) (hc : s.conns[i]? = some c)
    (hl : o.Leaves s.conns s.hostaddr i c' call sent) (hm : Move appcall g seg c c' call sent)
    (hs : ∀ h data, seg = some (h, data) → (peer c.endpoint).Has h data) : InStep peer o.stack (calls ++ o.call.toList) := by
  obtain ⟨hat, hnew⟩ := hm.at (hin.stands i c hc) hs
  refine ⟨hdist, ?_, ?_⟩
  · intro j d hd
    rw [hl.conns] at hd
    rw [hl.called]
    rcases set_getElem? hd with ⟨rfl, rfl⟩ | ⟨hj, hd'⟩
    · rw [handed_same, hm.endpoint]
      exact hat
    · rw [handed_other hj]
      exact hin.stands j d hd'
  · rw [hl.called]
    refine hin.fed.append fun k hk hflag => ?_
    rw [hm.call_endpoint k hk]
    exact hnew k hk hflag

theorem InStep.opens (hin : InStep peer s calls) (hdist : Distinct o.stack.conns) (hopen : Opened s h c)
    (hl : o.Leaves s.conns s.hostaddr i c none sent) (hs : (peer h.endpoint).Has h data) :
    InStep peer o.stack (calls ++ o.call.toList) := by
  rw [hl.called, Option.map_none, Option.toList_none, List.append_nil]
  refine ⟨hdist, ?_, hin.fed⟩
  · intro j d hd
    rw [hl.conns] at hd
    rcases set_getElem? hd with ⟨rfl, rfl⟩ | ⟨hj, hd'⟩
    · refine ⟨fun _ => ?_, fun hstate => ?_⟩
      · rw [hopen.rcvNxt, uipAdd32_toNat, hs.syn hopen.syn, hopen.endpoint]
        exact Nat.mod_add_mod _ _ _
      · rw [hopen.state] at hstate
        cases hstate
    · exact hin.stands j d hd'

theorem InStep.step (hin : InStep peer s calls) (hev : ev.From s.hostaddr peer) (ho : step appcall s ev = some o) :
    InStep peer o.stack (calls ++ o.call.toList) := by
  have hdist := (step_case ho).distinct hin.distinct
  cases step_case ho with
  | nothing hconns hhost hcall hsent =>
      rw [hcall, Option.toList_none, List.append_nil]
      exact ⟨hconns ▸ hin.distinct, hconns ▸ hin.stands, hin.fed⟩
  | segment i c h data len hc howns hpass hl hm =>
      refine hin.move hdist hc hl hm ?_
      intro h' data' hseg
      cases hseg
      rw [(Conn.owns_iff.mp howns).2]
      exact hev hpass
  | ticked i c buf rest hc hlive hl hm => exact hin.move hdist hc hl hm (by simp)
  | opened i d h data len hd hfree hpass hopen hl hdata => exact hin.opens hdist hopen hl (hev hpass)

theorem InStep.run {evs : List Ev} {s' : Stack α γ} {calls' : List (Nat × Call α)} (hin : InStep peer s calls)
    (hevs : ∀ ev ∈ evs, ev.From s.hostaddr peer) (hrun : run appcall s calls evs = some (s', calls')) : InStep peer s' calls' := by
  induction evs generalizing s calls with
  | nil =>
      cases hrun
      exact hin
  | cons ev evs ih =>
      obtain ⟨o, ho, hrest⟩ := Option.bind_eq_some_iff.mp hrun
      obtain ⟨hev, hevs⟩ := List.forall_mem_cons.mp hevs
      exact ih (hin.step hev ho) ((step_case ho).hostaddr ▸ hevs) hrest

theorem InStep.init (hclosed : ∀ c ∈ s.conns, c.isClosed = true) : InStep peer s [] where
  distinct := .init hclosed
  stands := by
    intro i c hc
    have hstate : c.state = .closed := (of_decide_eq_true (hclosed c (List.mem_of_getElem? hc))).1
    exact .closed (Conn.isOpen_of_state hstate)
  fed := by
    intro n i k hn
    cases hn

/-! ## What the application gets -/

/-- Segments may be lost, repeated, reordered and damaged: with every call for new data the application has got, on that
connection and since it was opened, exactly the first bytes of the peer's stream. -/
theorem delivered_in_order (peer : Endpoint → Stream) (appcall : App α γ) (s s' : Stack α γ) (evs : List Ev)
    (calls : List (Nat × Call α)) (hclosed : ∀ c ∈ s.conns, c.isClosed = true) (hevs : ∀ ev ∈ evs, ev.From s.hostaddr peer)
    (hrun : run appcall s [] evs = some (s', calls)) : Fed peer calls :=
  ((InStep.init hclosed).run hevs hrun).fed

/-- For a live connection a step either is its own, or leaves it and sends nothing to its peer. -/
theorem StepCase.slot (hcase : StepCase appcall s ev o) (hdist : Distinct s.conns) (hc : s.conns[i]? = some c)
    (hlive : c.isClosed = false) (hwait : c.isTimeWait = false) :
    (o.stack.conns[i]? = some c ∧ (∀ j k, o.call = some (j, k) → j ≠ i) ∧
      ∀ p ∈ o.sent, p.hdr.proto = 6 → p.hdr.dest ≠ c.endpoint) ∨
    ∃ c' call sent seg, o.Leaves s.conns s.hostaddr i c' call sent ∧ Move appcall s.app seg c c' call sent ∧
      (seg = none → ∃ buf rest, ev = .timer i buf rest) ∧
      ∀ h data, seg = some (h, data) → h.Passes s.hostaddr data ∧ h.endpoint = c.endpoint ∧ ∃ len, ev = .packet h data len := by
  have hother : ∀ {j d' k q}, j ≠ i → o.Leaves s.conns s.hostaddr j d' k q → d'.endpoint ≠ c.endpoint →
      (o.stack.conns[i]? = some c ∧ (∀ j k, o.call = some (j, k) → j ≠ i) ∧
        ∀ p ∈ o.sent, p.hdr.proto = 6 → p.hdr.dest ≠ c.endpoint) := by
    intro j d' k q hj hl hend
    refine ⟨?_, ?_, ?_⟩
    · rw [hl.conns, List.getElem?_set_ne hj, hc]
    · intro j' k' hcall
      rw [hl.called, Option.map_eq_some_iff] at hcall
      obtain ⟨_, _, heq⟩ := hcall
      cases heq
      exact hj
    · intro p hp _
      rw [(hl.numbers p (hl.sends ▸ hp)).dest]
      exact hend
  cases hcase with
  | nothing hconns hhost hcall hsent =>
      rw [hconns, hcall]
      exact Or.inl ⟨hc, by simp, fun p hp hproto => ((hsent p hp hproto).2 c (List.mem_of_getElem? hc) hlive).symm⟩
  | segment j d h data len hd howns hpass hl hm =>
      obtain ⟨hdlive, hend⟩ := Conn.owns_iff.mp howns
      by_cases hj : j = i
      · cases hj
        rw [hc] at hd
        cases hd
        refine Or.inr ⟨_, _, _, _, hl, hm, by simp, ?_⟩
        intro h' data' hseg
        cases hseg
        exact ⟨hpass, hend.symm, len, rfl⟩
      · exact Or.inl (hother hj hl fun hsame => hj (hdist j i d c hd hc hdlive hlive (hm.endpoint.symm.trans hsame)))
  | ticked j d buf rest hd hdlive hl hm =>
      by_cases hj : j = i
      · cases hj
        rw [hc] at hd
        cases hd
        exact Or.inr ⟨_, _, _, none, hl, hm, fun _ => ⟨buf, rest, rfl⟩, by simp⟩
      · exact Or.inl (hother hj hl fun hsame => hj (hdist j i d c hd hc hdlive hlive (hm.endpoint.symm.trans hsame)))
  | opened j d h data len hd hfree hpass hopen hl hdata =>
      refine Or.inl (hother ?_ hl ?_)
      · rintro rfl
        rw [hc] at hd
        cases hd
        rw [hlive, hwait] at hfree
        rcases hfree with h | h <;> cases h
      · intro hend
        have howns : c.owns h = true := Conn.owns_iff.mpr ⟨hlive, hend.symm.trans hopen.endpoint⟩
        rw [hopen.free c (List.mem_of_getElem? hc)] at howns
        cases howns

/-- A packet for a live connection carries its numbers. -/
theorem StepCase.numbers (hcase : StepCase appcall s ev o) (hdist : Distinct s.conns) {p : Packet} (hp : p ∈ o.sent)
    (hproto : p.hdr.proto = 6) (hc : o.stack.conns[i]? = some c) (hlive : c.isClosed = false) (hdest : p.hdr.dest = c.endpoint) :
    p.From c := by
  -- the packet of another connection is for another peer
  have hmoved : ∀ {j d d' k q}, s.conns[j]? = some d → d.isClosed = false → o.Leaves s.conns s.hostaddr j d' k q →
      d'.endpoint = d.endpoint → p.From c := by
    intro j d d' k q hd hdlive hl hend
    have hfrom : p.From d' := hl.numbers p (hl.sends ▸ hp)
    rw [hl.conns] at hc
    rcases set_getElem? hc with ⟨-, rfl⟩ | ⟨hj, hc'⟩
    · exact hfrom
    · have hsame : d.endpoint = c.endpoint := hend.symm.trans (hfrom.dest.symm.trans hdest)
      exact absurd (hdist j i d c hd hc' hdlive hlive hsame).symm hj
  cases hcase with
  | nothing hconns hhost hcall hsent =>
      rw [hconns] at hc
      exact absurd hdest.symm ((hsent p hp hproto).2 c (List.mem_of_getElem? hc) hlive)
  | segment j d h data len hd howns hpass hl hm => exact hmoved hd (Conn.owns_iff.mp howns).1 hl hm.endpoint
  | ticked j d buf rest hd hdlive hl hm => exact hmoved hd hdlive hl hm.endpoint
  | @opened _ d' _ j d h data len hd hfree hpass hopen hl hdata =>
      have hfrom : p.From d' := hl.numbers p (hl.sends ▸ hp)
      rw [hl.conns] at hc
      rcases set_getElem? hc with ⟨-, rfl⟩ | ⟨hj, hc'⟩
      · exact hfrom
      · have howns : c.owns h = true :=
          Conn.owns_iff.mpr ⟨hlive, hdest.symm.trans (hfrom.dest.trans hopen.endpoint)⟩
        rw [hopen.free c (List.mem_of_getElem? hc')] at howns
        cases howns

theorem uipInit_closed (s : Stack α γ) : ∀ c ∈ (uipInit s).conns, c.isClosed = true := by
  intro c hc
  obtain ⟨d, -, rfl⟩ := List.mem_map.mp hc
  rfl

/-- The checksums are filled in. -/
def Hdr.sealed (h : Hdr) (data : List UInt8) : Hdr :=
  let h := { h with tcpchksum := 0, ipchksum := 0 }
  { h with tcpchksum := ~~~(uipTcpchksum h data), ipchksum := ~~~(uipIpchksum h) }

/-- A segment of a browser at 192.168.1.2 with `len` bytes of data. -/
def segment (flags : UInt8) (seqno ackno : Quad) (data : List UInt8) : Ev :=
  let len : UInt16 := 40 + UInt16.ofNat data.length
  let h : Hdr :=
    { vhl := 0x45, tos := 0, len := (hiByte len, loByte len), ipid := (0, 1), ipoffset := (0, 0), ttl := 64, proto := 6
      ipchksum := 0, srcipaddr := (0xa8c0, 0x0201), destipaddr := (0xa8c0, 0x0101), srcport := htons 40000
      destport := htons 80, seqno := seqno, ackno := ackno, tcpoffset := 0x50, flags := flags, wnd := (4, 0)
      tcpchksum := 0, urgp := (0, 0) }
  .packet (h.sealed data) data len

/-- A server with two connections after `uip_init`, `uip_listen` and `uip_sethostaddr`; the MSS of earlier ones is still there. -/
def idle (α : Type) [Inhabited α] : Stack α Unit :=
  let s : Stack α Unit := uipInit
    { conns := List.replicate 2
        { ripaddr := (0, 0), lport := 0, rport := 0, rcvNxt := ⟨0, 0, 0, 0⟩, sndNxt := ⟨0, 0, 0, 0⟩, len := 0, mss := 3
          initialmss := 3, sa := 0, sv := 0, rto := 0, state := .closed, stopped := false, timer := 0, nrtx := 0
          appstate := default }
      listenports := [0], hostaddr := (0, 0), iss := ⟨0, 0, 7, 0xff⟩, ipid := 0, app := () }
  { s with listenports := uipListen (htons 80) s.listenports, hostaddr := (0xa8c0, 0x0101) }

/-- An application that only reads. -/
def reader : App Unit Unit := fun k g => (⟨k.conn.appstate, k.conn.stopped, k.flags, 0, []⟩, g)

def getLine : Stream := ⟨0xffffffff, [71, 69, 84, 32, 47, 10], by decide⟩

/-- The last three bytes come first, and everything comes twice. -/
def shuffled : List Ev :=
  [segment tcpSyn ⟨255, 255, 255, 255⟩ ⟨0, 0, 0, 0⟩ [], segment tcpSyn ⟨255, 255, 255, 255⟩ ⟨0, 0, 0, 0⟩ [],
   segment tcpAck ⟨0, 0, 0, 0⟩ ⟨0, 0, 8, 0⟩ [], segment tcpAck ⟨0, 0, 0, 3⟩ ⟨0, 0, 8, 0⟩ [32, 47, 10],
   segment tcpAck ⟨0, 0, 0, 0⟩ ⟨0, 0, 8, 0⟩ [71, 69, 84], segment tcpAck ⟨0, 0, 0, 0⟩ ⟨0, 0, 8, 0⟩ [71, 69, 84],
   segment tcpAck ⟨0, 0, 0, 3⟩ ⟨0, 0, 8, 0⟩ [32, 47, 10], segment tcpAck ⟨0, 0, 0, 3⟩ ⟨0, 0, 8, 0⟩ [32, 47, 10]]

theorem shuffled_from : ∀ ev ∈ shuffled, ev.From (0xa8c0, 0x0101) fun _ => getLine := by
  have hsyn : (segment tcpSyn ⟨255, 255, 255, 255⟩ ⟨0, 0, 0, 0⟩ []).From (0xa8c0, 0x0101) fun _ => getLine := fun _ =>
    ⟨⟨by decide, by decide⟩, by decide, fun h => absurd h (by decide)⟩
  have hack : (segment tcpAck ⟨0, 0, 0, 0⟩ ⟨0, 0, 8, 0⟩ []).From (0xa8c0, 0x0101) fun _ => getLine := fun _ =>
    ⟨⟨by decide, by decide⟩, by decide, fun h => absurd h (by decide)⟩
  have hfirst : (segment tcpAck ⟨0, 0, 0, 0⟩ ⟨0, 0, 8, 0⟩ [71, 69, 84]).From (0xa8c0, 0x0101) fun _ => getLine := fun _ =>
    ⟨⟨by decide, by decide⟩, by decide, fun _ => ⟨by decide, by decide, by decide, 0, by decide, by decide⟩⟩
  have hlast : (segment tcpAck ⟨0, 0, 0, 3⟩ ⟨0, 0, 8, 0⟩ [32, 47, 10]).From (0xa8c0, 0x0101) fun _ => getLine := fun _ =>
    ⟨⟨by decide, by decide⟩, by decide, fun _ => ⟨by decide, by decide, by decide, 3, by decide, by decide⟩⟩
  simp [shuffled, hsyn, hack, hfirst, hlast]

theorem idle_closed (α : Type) [Inhabited α] : ∀ c ∈ (idle α).conns, c.isClosed = true := uipInit_closed _

theorem delivered_in_order_shuffled : ∃ s calls, run reader (idle Unit) [] shuffled = some (s, calls) ∧
    handed 0 calls = getLine.bytes ∧ Fed (fun _ => getLine) calls := by
  have hsome : (run reader (idle Unit) [] shuffled).any (fun r => handed 0 r.2 = getLine.bytes) = true := by
    set_option maxRecDepth 20000 in decide
  obtain ⟨r, hrun, hall⟩ := (Option.any_eq_true _ _).mp hsome
  exact ⟨r.1, r.2, hrun, of_decide_eq_true hall,
    delivered_in_order (fun _ => getLine) reader (idle Unit) r.1 shuffled r.2 (idle_closed Unit) shuffled_from hrun⟩

/-- What is sent on an open connection acknowledges the bytes the application got, no more and no less. -/
theorem acknowledged_is_handed (peer : Endpoint → Stream) (appcall : App α γ) (s s' : Stack α γ) (evs : List Ev) (ev : Ev)
    (calls : List (Nat × Call α)) (o : Outcome α γ) (p : Packet) (i : Nat) (c : Conn α)
    (hclosed : ∀ c ∈ s.conns, c.isClosed = true) (hevs : ∀ ev ∈ evs, ev.From s.hostaddr peer)
    (hrun : run appcall s [] evs = some (s', calls)) (hev : ev.From s.hostaddr peer) (ho : step appcall s' ev = some o)
    (hp : o.sent = some p) (hproto : p.hdr.proto = 6) (hc : o.stack.conns[i]? = some c) (hstate : c.state = .established)
    (hdest : p.hdr.dest = c.endpoint) :
    p.hdr.ackno.toNat = ((peer c.endpoint).isn + 1 + (handed i (calls ++ o.call.toList)).length) % 2 ^ 32 := by
  have hin : InStep peer s' calls := (InStep.init hclosed).run hevs hrun
  have hout := hin.step ((hostaddr_run hrun).symm ▸ hev) ho
  have hlive : c.isClosed = false := Conn.isClosed_of_open (Conn.isOpen_of_state hstate)
  rw [((step_case ho).numbers hin.distinct hp hproto hc hlive hdest).ackno]
  exact ((hout.stands i c hc).got hstate).2

/-- The answer to the data that came too early asks for what is missing. -/
theorem acknowledged_is_handed_early : ∃ s calls o p c, run reader (idle Unit) [] (shuffled.take 3) = some (s, calls) ∧
    step reader s (segment tcpAck ⟨0, 0, 0, 3⟩ ⟨0, 0, 8, 0⟩ [32, 47, 10]) = some o ∧ o.sent = some p ∧
      o.stack.conns[0]? = some c ∧ p.hdr.dest = c.endpoint ∧
      p.hdr.ackno.toNat = (getLine.isn + 1 + (handed 0 (calls ++ o.call.toList)).length) % 2 ^ 32 := by
  have hsome : (run reader (idle Unit) [] (shuffled.take 3)).any (fun r =>
      (step reader r.1 (segment tcpAck ⟨0, 0, 0, 3⟩ ⟨0, 0, 8, 0⟩ [32, 47, 10])).any fun o => o.sent.any fun p =>
        (o.stack.conns[0]?).any fun c => p.hdr.proto = 6 ∧ p.hdr.dest = c.endpoint ∧ c.state = .established) = true := by
    set_option maxRecDepth 20000 in decide
  obtain ⟨r, hrun, hr⟩ := (Option.any_eq_true _ _).mp hsome
  obtain ⟨o, ho, hr⟩ := (Option.any_eq_true _ _).mp hr
  obtain ⟨p, hp, hr⟩ := (Option.any_eq_true _ _).mp hr
  obtain ⟨c, hc, hr⟩ := (Option.any_eq_true _ _).mp hr
  obtain ⟨hproto, hdest, hstate⟩ := of_decide_eq_true hr
  exact ⟨r.1, r.2, o, p, c, hrun, ho, hp, hc, hdest,
    acknowledged_is_handed (fun _ => getLine) reader (idle Unit) r.1 (shuffled.take 3) _ r.2 o p 0 c (idle_closed Unit)
      (fun ev hev => shuffled_from ev (List.mem_of_mem_take hev)) hrun (shuffled_from _ (by simp [shuffled])) ho hp hproto hc
      hstate hdest⟩

/-- Whatever packets arrive, two connections that are not closed never have the same peer, and a connection changes only for
its own segments and its own timer, or when it is in `TIME_WAIT` and its place is used for a new one. -/
theorem connections_apart (appcall : App α γ) (s s' : Stack α γ) (evs : List Ev) (ev : Ev) (calls : List (Nat × Call α))
    (o : Outcome α γ) (hclosed : ∀ c ∈ s.conns, c.isClosed = true) (hrun : run appcall s [] evs = some (s', calls))
    (ho : step appcall s' ev = some o) : Distinct o.stack.conns ∧
      ∀ i c, s'.conns[i]? = some c → c.isClosed = false → c.isTimeWait = false →
        (∀ h data len, ev = .packet h data len → h.endpoint ≠ c.endpoint) → (∀ buf rest, ev ≠ .timer i buf rest) →
        o.stack.conns[i]? = some c ∧ ∀ j k, o.call = some (j, k) → j ≠ i := by
  have hdist : Distinct s'.conns := distinct_run (.init hclosed) hrun
  refine ⟨(step_case ho).distinct hdist, ?_⟩
  intro i c hc hlive hwait hseg htimer
  rcases (step_case ho).slot hdist hc hlive hwait with ⟨hsame, hcall, -⟩ | ⟨c', call, sent, seg, -, -, htick, hpacket⟩
  · exact ⟨hsame, hcall⟩
  · cases seg with
    | none =>
        obtain ⟨buf, rest, hev⟩ := htick rfl
        exact absurd hev (htimer buf rest)
    | some hd =>
        obtain ⟨-, hend, len, hev⟩ := hpacket hd.1 hd.2 rfl
        exact absurd hend (hseg hd.1 hd.2 len hev)

theorem connections_apart_shuffled : ∃ s calls o, run reader (idle Unit) [] (shuffled.take 3) = some (s, calls) ∧
    step reader s (segment tcpSyn ⟨255, 255, 255, 255⟩ ⟨0, 0, 0, 0⟩ []) = some o ∧ Distinct o.stack.conns := by
  have hsome : (run reader (idle Unit) [] (shuffled.take 3)).any (fun r =>
      (step reader r.1 (segment tcpSyn ⟨255, 255, 255, 255⟩ ⟨0, 0, 0, 0⟩ [])).isSome) = true := by
    set_option maxRecDepth 20000 in decide
  obtain ⟨r, hrun, hr⟩ := (Option.any_eq_true _ _).mp hsome
  obtain ⟨o, ho⟩ := Option.isSome_iff_exists.mp hr
  exact ⟨r.1, r.2, o, hrun, ho,
    (connections_apart reader (idle Unit) r.1 (shuffled.take 3) _ r.2 o (idle_closed Unit) hrun ho).1⟩

end Uboot.Uip
