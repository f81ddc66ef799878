import Uboot.Uip.Delivery

/-!
# What the peer receives

The other direction: packets are lost, repeated and reordered, and so are the acknowledgements. The peer puts the data together by
their numbers. It gets the application's output in order and once, provided that the application offers what is outstanding again
when it is asked to.
-/

namespace Uboot.Uip

variable {α γ : Type}

/-- The application's output: `out a` is all it has decided to send on a connection in state `a`, and `pos a` of it is
acknowledged. While the connection goes on, it only adds to the output, and offers it from `pos` on. -/
structure Serves (appcall : App α γ) (out : α → List UInt8) (pos : α → Nat) : Prop where
  fits : ∀ a, (out a).length + 1 < 2 ^ 32
  starts : ∀ k g, k.flags.connected = true → pos (appcall k g).1.appstate = 0
  adds : ∀ k g, k.flags.close = false ∧ k.flags.abort = false ∧ k.flags.timedout = false → k.flags.connected = false →
    out k.conn.appstate <+: out (appcall k g).1.appstate ∧
      pos (appcall k g).1.appstate = pos k.conn.appstate + if k.flags.ackdata then k.conn.len.toNat else 0
  flags : ∀ k g, (appcall k g).1.flags.ackdata = k.flags.ackdata ∨ (appcall k g).1.flags.abort = true ∨
    (appcall k g).1.flags.close = true
  offers : ∀ k g, 0 < (appcall k g).1.slen →
    (out (appcall k g).1.appstate).drop (pos (appcall k g).1.appstate) <+: (appcall k g).1.sappdata ∧
      pos (appcall k g).1.appstate + (appcall k g).1.slen.toNat ≤ (out (appcall k g).1.appstate).length

/-- A connection in slot `i` and its peer: `iss` is the first number, `live` says that the connection is open, `log` is what
was sent to the peer since it was opened, `out` the application's output, and `asm` what the peer has put together. -/
structure Exchange (α γ : Type) where
  stack : Stack α γ
  iss : Nat
  live : Bool
  log : List Packet
  out : List UInt8
  asm : List UInt8

/-- The peer takes what is new in a packet when the next byte it expects is among its data. -/
def assemble (iss : Nat) (asm : List UInt8) (p : Packet) : List UInt8 :=
  let d := (iss + 1 + asm.length + 2 ^ 32 - p.hdr.seqno.toNat) % 2 ^ 32
  if d < p.payload.length then asm ++ p.payload.drop d else asm

/-- An event at the stack, or the peer gets one of the packets that were sent to it. -/
inductive Act where
  | event (ev : Ev)
  | deliver (n : Nat)

/-- The packet goes to this peer. -/
def Packet.isTo (p : Packet) (e : Endpoint) : Bool := p.hdr.proto = 6 ∧ p.hdr.dest = e

def Exchange.act (appcall : App α γ) (out : α → List UInt8) (i : Nat) (e : Endpoint) (x : Exchange α γ) : Act →
    Option (Exchange α γ)
  | .event ev => (step appcall x.stack ev).map fun o =>
      let live := x.live && (o.stack.conns[i]?).any (·.isOpen)
      { x with
        stack := o.stack
        live := live
        log := if x.live then x.log ++ (o.sent.filter (·.isTo e)).toList else x.log
        out := if live then (o.stack.conns[i]?).elim x.out fun c => if c.state = .established then out c.appstate else x.out
               else x.out }
  | .deliver n => some { x with asm := (x.log[n]?).elim x.asm (assemble x.iss x.asm) }

/-- While the connection is open, the peer acknowledges what it has put together or had earlier, and no `FIN` comes with the
acknowledgement of outstanding data (`uip_process` drops such a segment after it has advanced `snd_nxt`). -/
def Exchange.Sound (i : Nat) (e : Endpoint) (x : Exchange α γ) : Act → Prop
  | .event (.packet h data _) => x.live = true → h.Passes x.stack.hostaddr data → h.endpoint = e →
      (h.has tcpAck = true → ∃ a ≤ x.asm.length, h.ackno.toNat = (x.iss + 1 + a) % 2 ^ 32) ∧
        (h.has tcpFin = true → (x.stack.conns[i]?).any (·.isAcked h) = false)
  | .event (.timer _ _ _) => True
  | .deliver _ => True

instance Exchange.decidableSound (i : Nat) (e : Endpoint) (x : Exchange α γ) : (act : Act) → Decidable (x.Sound i e act)
  | .event (.packet h data _) => inferInstanceAs (Decidable (x.live = true → h.Passes x.stack.hostaddr data → h.endpoint = e →
      (h.has tcpAck = true → ∃ a ≤ x.asm.length, h.ackno.toNat = (x.iss + 1 + a) % 2 ^ 32) ∧
        (h.has tcpFin = true → (x.stack.conns[i]?).any (·.isAcked h) = false)))
  | .event (.timer _ _ _) => inferInstanceAs (Decidable True)
  | .deliver _ => inferInstanceAs (Decidable True)

/-- A run of sound acts. -/
def Exchange.run (appcall : App α γ) (out : α → List UInt8) (i : Nat) (e : Endpoint) (x : Exchange α γ) :
    List Act → Option (Exchange α γ)
  | [] => some x
  | act :: acts =>
      if x.Sound i e act then (x.act appcall out i e act).bind fun y => y.run appcall out i e acts else none

/-- The connection was just opened, for a SYN of the peer. -/
structure Exchange.Fresh (i : Nat) (e : Endpoint) (x : Exchange α γ) : Prop where
  distinct : Distinct x.stack.conns
  conn : ∃ c, x.stack.conns[i]? = some c ∧ c.endpoint = e ∧ c.state = .synRcvd ∧ c.sndNxt.toNat = x.iss ∧ c.len = 1
  live : x.live = true
  log : x.log = []
  asm : x.asm = []
  out : x.out = []

variable {appcall : App α γ} {out : α → List UInt8} {pos : α → Nat} {i : Nat} {e : Endpoint} {x y : Exchange α γ}
  {s : Stack α γ} {c c' : Conn α} {h : Hdr} {data asm doc : List UInt8} {iss : Nat} {call : Option (Call α)}
  {sent : Option Packet} {o : Outcome α γ} {g : γ} {seg : Option (Hdr × List UInt8)} {ev : Ev} {p : Packet}

/-! ## The peer -/

/-- The data of a packet stand at their place in the output. -/
def Packet.Slice (p : Packet) (iss : Nat) (doc : List UInt8) : Prop :=
  p.payload ≠ [] → ∃ off, p.hdr.seqno.toNat = (iss + 1 + off) % 2 ^ 32 ∧ off ≤ doc.length ∧ p.payload <+: doc.drop off

theorem Packet.Slice.mono {doc' : List UInt8} (hp : p.Slice iss doc) (hdoc : doc <+: doc') : p.Slice iss doc' := by
  intro hne
  obtain ⟨off, hseq, hoff, hpre⟩ := hp hne
  obtain ⟨rest, rfl⟩ := hdoc
  refine ⟨off, hseq, by simp; omega, ?_⟩
  rw [List.drop_append_of_le_length hoff]
  exact hpre.trans (List.prefix_append _ _)

theorem assemble_prefix (hp : p.Slice iss doc) (hfits : doc.length + 1 < 2 ^ 32) (hasm : asm <+: doc) :
    assemble iss asm p <+: doc ∧ asm <+: assemble iss asm p := by
  rw [assemble]
  split
  · rename_i hlt
    have hne : p.payload ≠ [] := fun hnil => by simp [hnil] at hlt
    obtain ⟨off, hseq, hoff, hpre⟩ := hp hne
    have hple := hpre.length_le
    have hale := hasm.length_le
    rw [List.length_drop] at hple
    -- the peer expects a byte inside the packet, so the packet begins before it
    have hd : (iss + 1 + asm.length + 2 ^ 32 - p.hdr.seqno.toNat) % 2 ^ 32 = asm.length - off ∧ off ≤ asm.length := by
      rw [hseq] at hlt ⊢
      omega
    refine ⟨?_, List.prefix_append _ _⟩
    rw [hd.1]
    obtain ⟨rest, rfl⟩ := hasm
    refine (List.prefix_append_right_inj asm).mpr ?_
    obtain ⟨more, hmore⟩ := hpre
    have hdrop := congrArg (List.drop (asm.length - off)) hmore
    rw [List.drop_drop, show off + (asm.length - off) = asm.length by omega, List.drop_left] at hdrop
    rw [← hdrop]
    rw [hd.1] at hlt
    rw [List.drop_append_of_le_length (by omega)]
    exact List.prefix_append _ _
  · exact ⟨hasm, List.prefix_rfl⟩

/-! ## The connection -/

/-- The connection stands where the output does: what is acknowledged has been put together, and what is outstanding is next. -/
structure Stands (out : α → List UInt8) (pos : α → Nat) (iss : Nat) (doc asm : List UInt8) (c : Conn α) : Prop where
  start : c.state = .synRcvd → c.sndNxt.toNat = iss % 2 ^ 32 ∧ c.len = 1
  sndNxt : c.state = .established → c.sndNxt.toNat = (iss + 1 + pos c.appstate) % 2 ^ 32
  len : c.state = .established → pos c.appstate + c.len.toNat ≤ (out c.appstate).length
  doc : c.state = .established → doc = out c.appstate
  acked : c.state = .established → pos c.appstate ≤ asm.length

/-- Only an acknowledgement of everything outstanding is taken for one. -/
theorem Stands.acked_all (hst : Stands out pos iss doc asm c) (hserves : Serves appcall out pos) (hstate : c.state = .established)
    (hasm : asm <+: doc) (hacked : c.isAcked h = true)
    (hack : h.has tcpAck = true → ∃ a ≤ asm.length, h.ackno.toNat = (iss + 1 + a) % 2 ^ 32) :
    pos c.appstate + c.len.toNat ≤ asm.length := by
  obtain ⟨hflag, -, hno⟩ : h.has tcpAck = true ∧ c.len ≠ 0 ∧ h.ackno = uipAdd32 c.sndNxt c.len := of_decide_eq_true hacked
  obtain ⟨a, ha, hano⟩ := hack hflag
  have hsnd := hst.sndNxt hstate
  have hlen := hst.len hstate
  have hfits := hserves.fits c.appstate
  have hle := hasm.length_le
  rw [hst.doc hstate] at hle
  rw [hno, uipAdd32_toNat, hsnd] at hano
  omega

/-- What the application's answer means for the connection it was called for. -/
structure Answered (out : α → List UInt8) (pos : α → Nat) (iss : Nat) (doc asm : List UInt8) (k : Call α) (a : Answer α) : Prop where
  sndNxt : k.conn.sndNxt.toNat = (iss + 1 + pos a.appstate) % 2 ^ 32
  adds : doc <+: out a.appstate
  acked : pos a.appstate ≤ asm.length
  bound : pos a.appstate ≤ (out a.appstate).length
  rest : k.flags.ackdata = false → pos a.appstate + k.conn.len.toNat ≤ (out a.appstate).length

theorem Asked.answered {k : Call α} (hk : Asked seg c k) (hserves : Serves appcall out pos) (hst : Stands out pos iss doc asm c)
    (hasm : asm <+: doc) (hstart : c.state = .synRcvd → doc = [])
    (hack : ∀ h data, seg = some (h, data) → h.has tcpAck = true → ∃ a ≤ asm.length, h.ackno.toNat = (iss + 1 + a) % 2 ^ 32) :
    Answered out pos iss doc asm k (appcall k g).1 := by
  by_cases hstate : c.state = .synRcvd
  · obtain ⟨hsnd, hlen⟩ := hst.start hstate
    have hpos := hserves.starts k g (hk.connected.mpr hstate)
    have hzero : k.conn.len = 0 := hk.len.trans (if_pos hstate)
    refine ⟨?_, ?_, ?_, ?_, ?_⟩
    · rw [hk.sndNxt, if_pos (Or.inl hstate), uipAdd32_toNat, hsnd, hlen, hpos]
      exact Nat.mod_add_mod _ _ _
    · rw [hstart hstate]
      exact List.nil_prefix
    · omega
    · omega
    · intro _
      rw [hpos, hzero]
      exact Nat.zero_le _
  · have hest : c.state = .established := by
      have hlive := hk.live
      rcases hc : c.state <;> simp_all [Conn.isOpen, TcpState.isOpen]
    obtain ⟨hpre, hpos⟩ := hserves.adds k g hk.goes (Bool.eq_false_iff.mpr fun hc => hstate (hk.connected.mp hc))
    have hlen : k.conn.len = c.len := hk.len.trans (if_neg hstate)
    rw [hk.appstate] at hpre hpos
    rw [hlen] at hpos
    have hle := hst.len hest
    have hple := hpre.length_le
    have hsnd := hst.sndNxt hest
    have hacked := hst.acked hest
    have hpre' : doc <+: out (appcall k g).1.appstate := (hst.doc hest).symm ▸ hpre
    cases hflag : k.flags.ackdata with
    | true =>
        obtain ⟨h, data, hseg, hisacked⟩ := hk.acked (Or.inr hflag)
        have hall := hst.acked_all hserves hest hasm hisacked (hack h data hseg)
        rw [hflag, if_pos rfl] at hpos
        refine ⟨?_, hpre', by omega, by omega, fun hcontra => by rw [hflag] at hcontra; cases hcontra⟩
        rw [hk.sndNxt, if_pos (Or.inr hflag), uipAdd32_toNat, hsnd, hpos]
        omega
    | false =>
        rw [hflag, if_neg Bool.false_ne_true, Nat.add_zero] at hpos
        refine ⟨?_, hpre', by omega, by omega, fun _ => by rw [hpos, hlen]; omega⟩
        rw [hk.sndNxt, if_neg (by simp [hstate, hflag]), hsnd, hpos]

/-- The length that is sent is offered, or it is outstanding. -/
theorem Answered.sendLen {k : Call α} (ha : Answered out pos iss doc asm k (appcall k g).1) (hserves : Serves appcall out pos)
    (habort : (appcall k g).1.flags.abort = false) (hclose : (appcall k g).1.flags.close = false) :
    pos (appcall k g).1.appstate + (sendLen k.conn (appcall k g).1).2.toNat ≤ (out (appcall k g).1.appstate).length ∧
      (0 < (sendLen k.conn (appcall k g).1).1 → 0 < (appcall k g).1.slen) := by
  have hflags : (appcall k g).1.flags.ackdata = k.flags.ackdata := by
    rcases hserves.flags k g with h | h | h
    · exact h
    · rw [habort] at h
      cases h
    · rw [hclose] at h
      cases h
  rw [Uip.sendLen]
  split
  · rename_i hpos
    have hoff := (hserves.offers k g hpos).2
    have hmin : (min (appcall k g).1.slen k.conn.mss).toNat ≤ (appcall k g).1.slen.toNat := by
      rw [UInt16.min_def]
      split
      · exact Nat.le_refl _
      · rename_i hle
        exact UInt16.le_iff_toNat_le.mp (UInt16.le_of_lt (UInt16.not_le.mp hle))
    refine ⟨?_, fun _ => hpos⟩
    rw [hflags]
    cases hack : k.flags.ackdata with
    | true =>
        simp only [if_true]
        omega
    | false =>
        have hrest := ha.rest hack
        simp only [Bool.false_eq_true, if_false]
        split
        · simp only []
          omega
        · exact hrest
  · refine ⟨ha.bound, fun hcontra => ?_⟩
    exact absurd hcontra (by decide)

/-- The data of a turn are the output from the first byte that is not acknowledged. -/
theorem Turn.stands {k : Call α} (ht : Turn k (appcall k g).1 c' sent) (hserves : Serves appcall out pos)
    (hk : k.conn.state = .established) (hrexmit : k.flags.rexmit = true → k.flags.ackdata = false)
    (ha : Answered out pos iss doc asm k (appcall k g).1) (hopen : c'.isOpen = true) :
    Stands out pos iss (out c'.appstate) asm c' ∧ c'.state = .established ∧ doc <+: out c'.appstate ∧
      ∀ p ∈ sent, p.From c' → p.Slice iss (out c'.appstate) := by
  cases ht with
  | ended hclosed hend hdata =>
      rw [hclosed] at hopen
      cases hopen
  | offered slen len nrtx hc hlen hsend hdata =>
      -- what is remembered as outstanding is part of the output, and only what is offered is sent
      have hbound : pos (appcall k g).1.appstate + len.toNat ≤ (out (appcall k g).1.appstate).length ∧
          (0 < slen → 0 < (appcall k g).1.slen) := by
        cases hr : k.flags.rexmit with
        | true =>
            obtain ⟨hslen, hlen⟩ := hlen hr
            rw [hslen, hlen]
            exact ⟨ha.rest (hrexmit hr), id⟩
        | false =>
            obtain ⟨habort, hclose, hpair⟩ := hsend hr
            have hs := ha.sendLen hserves habort hclose
            rw [← hpair] at hs
            exact hs
      subst hc
      refine ⟨⟨fun hst => ?_, fun _ => ha.sndNxt, fun _ => hbound.1, fun _ => rfl, fun _ => ha.acked⟩, hk, ha.adds, ?_⟩
      · rw [hk] at hst
        cases hst
      · intro p hp hfrom hne
        obtain ⟨hslen, hpay⟩ := (hdata p hp).resolve_left hne
        have hoff := (hserves.offers k g (hbound.2 hslen)).1
        refine ⟨pos (appcall k g).1.appstate, ?_, ha.bound, ?_⟩
        · rw [hfrom.seqno]
          exact ha.sndNxt
        · have hle : len.toNat ≤ ((out (appcall k g).1.appstate).drop (pos (appcall k g).1.appstate)).length := by
            rw [List.length_drop]
            omega
          obtain ⟨rest, hrest⟩ := hoff
          rw [hpay, ← hrest, List.take_append_of_le_length hle]
          exact List.take_prefix _ _

/-! ## Runs -/

/-- The invariant of an exchange. -/
structure Exchange.Inv (out : α → List UInt8) (pos : α → Nat) (i : Nat) (e : Endpoint) (x : Exchange α γ) : Prop where
  asm : x.asm <+: x.out
  fits : x.out.length + 1 < 2 ^ 32
  log : ∀ p ∈ x.log, p.Slice x.iss x.out
  live : x.live = true → Distinct x.stack.conns ∧ ∃ c, x.stack.conns[i]? = some c ∧ c.endpoint = e ∧ c.isOpen = true ∧
    (c.state = .synRcvd → x.out = []) ∧ Stands out pos x.iss x.out x.asm c

theorem Packet.slice_of_empty (h : p.payload = []) : p.Slice iss doc := fun hne => absurd h hne

theorem Conn.not_timeWait (hopen : c.isOpen = true) : c.isTimeWait = false := by
  rcases hstate : c.state <;> simp_all [Conn.isOpen, TcpState.isOpen, Conn.isTimeWait]

theorem Stands.longer {asm' : List UInt8} (hst : Stands out pos iss doc asm c) (hasm : asm <+: asm') :
    Stands out pos iss doc asm' c :=
  { hst with acked := fun hstate => (hst.acked hstate).trans hasm.length_le }

theorem Exchange.Inv.deliver (hx : x.Inv out pos i e) (n : Nat) :
    Exchange.Inv out pos i e { x with asm := (x.log[n]?).elim x.asm (assemble x.iss x.asm) } := by
  have hasm : (x.log[n]?).elim x.asm (assemble x.iss x.asm) <+: x.out ∧ x.asm <+: (x.log[n]?).elim x.asm (assemble x.iss x.asm) := by
    cases hp : x.log[n]? with
    | none => exact ⟨hx.asm, List.prefix_rfl⟩
    | some p =>
        rw [Option.elim_some]
        exact assemble_prefix (hx.log p (List.mem_of_getElem? hp)) hx.fits hx.asm
  generalize (x.log[n]?).elim x.asm (assemble x.iss x.asm) = asm' at hasm ⊢
  refine ⟨hasm.1, hx.fits, hx.log, fun hlive => ?_⟩
  obtain ⟨hdist, c, hc, hend, hopen, hstart, hst⟩ := hx.live hlive
  exact ⟨hdist, c, hc, hend, hopen, hstart, hst.longer hasm.2⟩

theorem Stands.kept (hst : Stands out pos iss doc asm c) (hstate : c'.state = c.state) (hsnd : c'.sndNxt = c.sndNxt)
    (hlen : c'.len = c.len) (happ : c'.appstate = c.appstate) : Stands out pos iss doc asm c' := by
  constructor
  all_goals rw [hstate]
  · rw [hsnd, hlen]
    exact hst.start
  · rw [hsnd, happ]
    exact hst.sndNxt
  · rw [hlen, happ]
    exact hst.len
  · rw [happ]
    exact hst.doc
  · rw [happ]
    exact hst.acked

/-- What the connection's own step does: it stays open with the output `doc'`, or it is over. -/
theorem Move.stands (hm : Move appcall g seg c c' call sent) (hserves : Serves appcall out pos) (hopen : c.isOpen = true)
    (hst : Stands out pos iss doc asm c) (hasm : asm <+: doc) (hstart : c.state = .synRcvd → doc = [])
    (hack : ∀ h data, seg = some (h, data) → h.has tcpAck = true → ∃ a ≤ asm.length, h.ackno.toNat = (iss + 1 + a) % 2 ^ 32)
    (hfin : ∀ h data, seg = some (h, data) → h.has tcpFin = true → c.isAcked h = false) :
    (c'.isOpen = false ∧ NoData sent) ∨
      ∃ doc', c'.isOpen = true ∧ doc <+: doc' ∧ Stands out pos iss doc' asm c' ∧ (c'.state = .synRcvd → doc' = []) ∧
        (c'.state = .established → doc' = out c'.appstate) ∧ (c'.state ≠ .established → doc' = doc) ∧
        ∀ p ∈ sent, p.From c' → p.Slice iss doc' := by
  cases hm with
  | kept hend hstate hrcv hsnd hlen happ hdata =>
      refine Or.inr ⟨doc, ?_, List.prefix_rfl, hst.kept hstate hsnd hlen happ, ?_, ?_, fun _ => rfl, ?_⟩
      · rw [Conn.isOpen, hstate]
        exact hopen
      · rw [hstate]
        exact hstart
      · rw [hstate, happ]
        exact hst.doc
      · exact fun p hp _ => Packet.slice_of_empty (hdata p hp)
  | ended hend hclosed hcall hdata => exact Or.inl ⟨hclosed, hdata⟩
  | fin h data hseg hstate hend hclosed hk hconn hlen happ hnew hdata => exact Or.inl ⟨hclosed, hdata⟩
  | lost h data hseg hstate hflag hacked =>
      rw [hfin h data hseg hflag] at hacked
      cases hacked
  | turn hk ht =>
      cases hclosed : c'.isOpen with
      | false =>
          refine Or.inl ⟨rfl, ?_⟩
          cases ht with
          | ended hopen' hend hdata => exact hdata
          | offered slen len nrtx hc =>
              rw [hc, Conn.isOpen, hk.state] at hclosed
              cases hclosed
      | true =>
          obtain ⟨hst', hstate', hpre, hdata⟩ :=
            ht.stands hserves hk.state hk.rexmit (hk.answered hserves hst hasm hstart hack) hclosed
          refine Or.inr ⟨out c'.appstate, rfl, hpre, hst', ?_, fun _ => rfl, fun hne => absurd hstate' hne, hdata⟩
          rw [hstate']
          intro hcontra
          cases hcontra

theorem Exchange.Inv.event (hx : x.Inv out pos i e) (hserves : Serves appcall out pos) (hsound : x.Sound i e (.event ev))
    (hact : x.act appcall out i e (.event ev) = some y) : y.Inv out pos i e := by
  obtain ⟨o, ho, rfl⟩ := Option.map_eq_some_iff.mp hact
  cases hlive : x.live with
  | false =>
      simp only [Bool.false_and, Bool.false_eq_true, if_false]
      exact ⟨hx.asm, hx.fits, hx.log, fun hcontra => by cases hcontra⟩
  | true =>
      obtain ⟨hdist, c, hc, hend, hopen, hstart, hst⟩ := hx.live hlive
      have hcase := step_case ho
      have hdist' := hcase.distinct hdist
      simp only [Bool.true_and, if_true]
      rcases hcase.slot hdist hc (Conn.isClosed_of_open hopen) (Conn.not_timeWait hopen) with
        ⟨hsame, -, hsent⟩ | ⟨c', call, sent, seg, hl, hm, htick, hseg⟩
      · -- the connection is not concerned
        have hnone : o.sent.filter (·.isTo e) = none := by
          refine Option.filter_eq_none_iff.mpr fun p hp hto => ?_
          obtain ⟨hproto, hdest⟩ := of_decide_eq_true hto
          exact hsent p hp hproto (hdest.trans hend.symm)
        have hout : (if c.state = .established then out c.appstate else x.out) = x.out := by
          split
          · rename_i hstate
            exact (hst.doc hstate).symm
          · rfl
        rw [hsame, hnone]
        simp only [Option.any_some, hopen, if_true, Option.elim_some, Option.toList_none, List.append_nil, hout]
        exact ⟨hx.asm, hx.fits, hx.log, fun _ => ⟨hdist', c, hsame, hend, hopen, hstart, hst⟩⟩
      · have hc' : o.stack.conns[i]? = some c' := by
          rw [hl.conns, List.getElem?_set_self (List.getElem?_eq_some_iff.mp hc).1]
        have hack : ∀ h data, seg = some (h, data) → h.has tcpAck = true →
            ∃ a ≤ x.asm.length, h.ackno.toNat = (x.iss + 1 + a) % 2 ^ 32 := by
          intro h data heq hflag
          obtain ⟨hpass, hends, len, rfl⟩ := hseg h data heq
          exact (hsound hlive hpass (hends.trans hend)).1 hflag
        have hfin : ∀ h data, seg = some (h, data) → h.has tcpFin = true → c.isAcked h = false := by
          intro h data heq hflag
          obtain ⟨hpass, hends, len, rfl⟩ := hseg h data heq
          have hany := (hsound hlive hpass (hends.trans hend)).2 hflag
          rwa [hc] at hany
        have hlog : ∀ doc, x.out <+: doc → (∀ p ∈ sent, p.From c' → p.Slice x.iss doc) →
            ∀ p ∈ x.log ++ (o.sent.filter (·.isTo e)).toList, p.Slice x.iss doc := by
          intro doc hdoc hnew p hp
          rcases List.mem_append.mp hp with hold | hp
          · exact (hx.log p hold).mono hdoc
          · have hp' : p ∈ o.sent := (Option.filter_eq_some_iff.mp (Option.mem_toList.mp hp)).1
            rw [hl.sends] at hp'
            exact hnew p hp' (hl.numbers p hp')
        rw [hc', Option.any_some, Option.elim_some]
        rcases hm.stands hserves hopen hst hx.asm hstart hack hfin with
          ⟨hclosed, hdata⟩ | ⟨doc, hopen', hpre, hst', hstart', hest, hnest, hslice⟩
        · simp only [hclosed, Bool.false_eq_true, if_false]
          exact ⟨hx.asm, hx.fits, hlog x.out List.prefix_rfl fun p hp _ => Packet.slice_of_empty (hdata p hp),
            fun hcontra => by cases hcontra⟩
        · have hout : (if c'.state = .established then out c'.appstate else x.out) = doc := by
            split
            · rename_i hstate
              exact (hest hstate).symm
            · rename_i hstate
              exact (hnest hstate).symm
          simp only [hopen', if_true, hout]
          refine ⟨hx.asm.trans hpre, ?_, hlog doc hpre hslice,
            fun _ => ⟨hdist', c', hc', hm.endpoint.trans hend, hopen', hstart', hst'⟩⟩
          by_cases hstate : c'.state = .established
          · rw [hest hstate]
            exact hserves.fits c'.appstate
          · rw [hnest hstate]
            exact hx.fits

theorem Exchange.Inv.act {act : Act} (hx : x.Inv out pos i e) (hserves : Serves appcall out pos) (hsound : x.Sound i e act)
    (hact : x.act appcall out i e act = some y) : y.Inv out pos i e := by
  cases act with
  | event ev => exact hx.event hserves hsound hact
  | deliver n =>
      cases hact
      exact hx.deliver n

theorem Exchange.Fresh.inv (hx : x.Fresh i e) : x.Inv out pos i e := by
  obtain ⟨hdist, ⟨c, hc, hend, hstate, hsnd, hlen⟩, hlive, hlog, hasm, hout⟩ := hx
  refine ⟨by rw [hasm]; exact List.nil_prefix, by rw [hout]; decide, by rw [hlog]; simp, fun _ => ?_⟩
  refine ⟨hdist, c, hc, hend, Conn.isOpen_of_state hstate, fun _ => hout, ?_⟩
  have hne : c.state ≠ .established := by
    rw [hstate]
    decide
  refine ⟨fun _ => ⟨?_, hlen⟩, fun h => absurd h hne, fun h => absurd h hne, fun h => absurd h hne, fun h => absurd h hne⟩
  rw [← hsnd]
  exact (Nat.mod_eq_of_lt c.sndNxt.toNat_lt).symm

theorem Exchange.Inv.run {acts : List Act} (hx : x.Inv out pos i e) (hserves : Serves appcall out pos)
    (hrun : x.run appcall out i e acts = some y) : y.Inv out pos i e := by
  induction acts generalizing x with
  | nil =>
      cases hrun
      exact hx
  | cons act acts ih =>
      rw [Exchange.run] at hrun
      split at hrun
      · rename_i hsound
        obtain ⟨z, hact, hrest⟩ := Option.bind_eq_some_iff.mp hrun
        exact ih (hx.act hserves hsound hact) hrest
      · cases hrun

/-- Whatever happens to the packets and the acknowledgements, what the peer has put together is the first part of the
application's output, and the application is told of an acknowledgement only for bytes the peer has. -/
theorem output_arrives_in_order (appcall : App α γ) (out : α → List UInt8) (pos : α → Nat) (i : Nat) (e : Endpoint)
    (x y : Exchange α γ) (acts : List Act) (hserves : Serves appcall out pos) (hx : x.Fresh i e)
    (hrun : x.run appcall out i e acts = some y) :
    y.asm <+: y.out ∧ (y.live = true → ∃ c, y.stack.conns[i]? = some c ∧
      (c.state = .established → y.out = out c.appstate ∧ pos c.appstate ≤ y.asm.length)) := by
  have hy : y.Inv out pos i e := hx.inv.run hserves hrun
  refine ⟨hy.asm, fun hlive => ?_⟩
  obtain ⟨-, c, hc, -, -, -, hst⟩ := hy.live hlive
  exact ⟨c, hc, fun hstate => ⟨hst.doc hstate, hst.acked hstate⟩⟩

/-- An application that sends `page` and counts what is acknowledged. -/
def printer (page : List UInt8) : App Nat Unit := fun k g =>
  let n := if k.flags.connected then 0 else k.conn.appstate + if k.flags.ackdata then k.conn.len.toNat else 0
  (⟨n, k.conn.stopped, k.flags, UInt16.ofNat (min (page.length - n) 65535), page.drop n⟩, g)

theorem printer_serves {page : List UInt8} (h : page.length + 1 < 2 ^ 32) : Serves (printer page) (fun _ => page) id where
  fits := fun _ => h
  starts := fun k g hk => if_pos hk
  adds := fun k g _ hk => ⟨List.prefix_rfl, if_neg (by rw [hk]; exact Bool.false_ne_true)⟩
  flags := fun k g => Or.inl rfl
  offers := by
    intro k g hpos
    refine ⟨List.prefix_rfl, ?_⟩
    have hlen : ∀ n, n + (UInt16.ofNat (min (page.length - n) 65535)).toNat ≤ max page.length n := by
      intro n
      rw [UInt16.toNat_ofNat']
      omega
    have hne : ∀ n, 0 < UInt16.ofNat (min (page.length - n) 65535) → n < page.length := by
      intro n hn
      rw [UInt16.lt_iff_toNat_lt, UInt16.toNat_ofNat'] at hn
      have hzero : (0 : UInt16).toNat = 0 := rfl
      omega
    have hlt := hne _ hpos
    exact (hlen _).trans_eq (max_eq_left hlt.le)

def hello : Option (Outcome Nat Unit) :=
  step (printer []) (idle Nat) (segment tcpSyn ⟨255, 255, 255, 255⟩ ⟨0, 0, 0, 0⟩ [])

/-- The exchange after the SYN of a browser. -/
def greeted : Exchange Nat Unit := ⟨hello.elim (idle Nat) (·.stack), 0x7ff, true, [], [], []⟩

def browser : Endpoint := ⟨htons 80, htons 40000, (0xa8c0, 0x0201)⟩

def tick : Act :=
  .event (.timer 0 ⟨0, 0, (0, 0), (0, 0), (0, 0), 0, 0, 0, (0, 0), (0, 0), 0, 0, ⟨0, 0, 0, 0⟩, ⟨0, 0, 0, 0⟩, 0, 0, (0, 0), 0, (0, 0)⟩ [])

/-- The first packet with data is lost and sent again, and this one arrives twice. -/
def lossy : List Act :=
  [.event (segment tcpAck ⟨0, 0, 0, 0⟩ ⟨0, 0, 8, 0⟩ []), tick, tick, tick, tick, .deliver 1, .deliver 1,
   .event (segment tcpAck ⟨0, 0, 0, 0⟩ ⟨0, 0, 8, 3⟩ []), .deliver 2]

theorem greeted_fresh : greeted.Fresh 0 browser := by
  have hsome : hello.any (fun o => (o.stack.conns[0]?).any fun c => c.endpoint = browser ∧ c.state = .synRcvd ∧
      c.sndNxt.toNat = 0x7ff ∧ c.len = 1) = true := by
    set_option maxRecDepth 20000 in decide
  obtain ⟨o, ho, hr⟩ := (Option.any_eq_true _ _).mp hsome
  obtain ⟨c, hc, hr⟩ := (Option.any_eq_true _ _).mp hr
  have hstack : greeted.stack = o.stack := congrArg (fun r => r.elim (idle Nat) fun o => o.stack) ho
  refine ⟨?_, ⟨c, ?_, of_decide_eq_true hr⟩, rfl, rfl, rfl, rfl⟩
  · rw [hstack]
    exact (step_case ho).distinct (.init (idle_closed Nat))
  · rw [hstack, hc]

theorem output_arrives_in_order_lossy : ∃ y,
    greeted.run (printer [72, 84, 84, 80]) (fun _ => [72, 84, 84, 80]) 0 browser lossy = some y ∧
      y.asm = [72, 84, 84, 80] ∧ y.asm <+: y.out := by
  have hsome : (greeted.run (printer [72, 84, 84, 80]) (fun _ => [72, 84, 84, 80]) 0 browser lossy).any
      (fun y => y.asm = [72, 84, 84, 80]) = true := by
    set_option maxRecDepth 20000 in decide
  obtain ⟨y, hrun, hasm⟩ := (Option.any_eq_true _ _).mp hsome
  exact ⟨y, hrun, of_decide_eq_true hasm,
    (output_arrives_in_order (printer [72, 84, 84, 80]) (fun _ => [72, 84, 84, 80]) id 0 browser greeted y lossy
      (printer_serves (by decide)) greeted_fresh hrun).1⟩

end Uboot.Uip
