import Uboot.Uip.Basic

/-!
# What `uip_process` does to a connection

A segment, or the timer, changes one connection, and it does so in one of five ways. The other connections stay.
-/

namespace Uboot.Uip

variable {α γ : Type}

/-- The two ends of a connection, seen from here. -/
structure Endpoint where
  lport : UInt16
  rport : UInt16
  ripaddr : UInt16 × UInt16
deriving DecidableEq

def Conn.endpoint (c : Conn α) : Endpoint := ⟨c.lport, c.rport, c.ripaddr⟩

/-- The connection a received segment is for. -/
def Hdr.endpoint (h : Hdr) : Endpoint := ⟨h.destport, h.srcport, h.srcipaddr⟩

/-- The connection a packet that is sent is for. -/
def Hdr.dest (h : Hdr) : Endpoint := ⟨h.srcport, h.destport, h.destipaddr⟩

/-- `SYN_RCVD` and `ESTABLISHED`, in which data may arrive. -/
def TcpState.isOpen : TcpState → Bool
  | .synRcvd | .established => true
  | _ => false

def Conn.isOpen (c : Conn α) : Bool := c.state.isOpen

/-- The length of the data in a segment, without wrapping for a well-formed one. -/
def Hdr.payload (h : Hdr) : UInt16 := h.ipLen - h.tcpLen.toUInt16 - 20

/-- The checks a TCP segment passes before its connection is looked for: the version and header length, the fragment offset,
the address and both checksums. -/
@[mk_iff]
structure Hdr.Passes (h : Hdr) (hostaddr : UInt16 × UInt16) (data : List UInt8) : Prop where
  vhl : h.vhl = 0x45
  offset : ¬(h.ipoffset.1 &&& 0x3f ≠ 0 ∨ h.ipoffset.2 ≠ 0)
  dest : h.destipaddr = hostaddr
  ipchksum : uipIpchksum h = 0xffff
  proto : h.proto = 6
  tcpchksum : uipTcpchksum h data = 0xffff

instance (h : Hdr) (hostaddr : UInt16 × UInt16) (data : List UInt8) : Decidable (h.Passes hostaddr data) :=
  decidable_of_iff' _ (Hdr.passes_iff h hostaddr data)

/-- The segment carries no urgent data. -/
structure Hdr.Plain (h : Hdr) : Prop where
  noUrg : h.has tcpUrg = false
  noPtr : h.urgp = (0, 0)

/-- What is sent carries the numbers of the connection. -/
structure Packet.From (p : Packet) (c : Conn α) : Prop where
  ackno : p.hdr.ackno = c.rcvNxt
  seqno : p.hdr.seqno = c.sndNxt
  dest : p.hdr.dest = c.endpoint

/-- The outcome of a step for connection `i`. -/
structure Outcome.Leaves (o : Outcome α γ) (conns : List (Conn α)) (hostaddr : UInt16 × UInt16) (i : Nat) (c : Conn α)
    (call : Option (Call α)) (sent : Option Packet) : Prop where
  conns : o.stack.conns = conns.set i c
  hostaddr : o.stack.hostaddr = hostaddr
  called : o.call = call.map (Prod.mk i)
  sends : o.sent = sent
  numbers : ∀ p ∈ sent, p.From c

/-- The data of a packet, after the options. -/
def Packet.payload (p : Packet) : List UInt8 := p.data.drop (p.hdr.tcpLen.toNat - 20)

/-- Nothing but headers. -/
def NoData (sent : Option Packet) : Prop := ∀ p ∈ sent, p.payload = []

/-- The application was called with `k` and answered `a`: it ends the connection, or what it offers is sent. -/
inductive Turn (k : Call α) (a : Answer α) : Conn α → Option Packet → Prop where
  | ended {c' sent} (hopen : c'.isOpen = false) (hend : c'.endpoint = k.conn.endpoint) (hdata : NoData sent) : Turn k a c' sent
  | offered {c' sent} (slen len : UInt16) (nrtx : UInt8)
      (hc : c' = { k.conn with appstate := a.appstate, stopped := a.stopped, len := len, nrtx := nrtx })
      (hlen : k.flags.rexmit = true → slen = a.slen ∧ len = k.conn.len)
      (hsend : k.flags.rexmit = false → a.flags.abort = false ∧ a.flags.close = false ∧ (slen, len) = sendLen k.conn a)
      (hdata : ∀ p ∈ sent, p.payload = [] ∨ 0 < slen ∧ p.payload = a.sappdata.take len.toNat) : Turn k a c' sent

/-- There is no segment, or one without urgent data. -/
def PlainSeg (seg : Option (Hdr × List UInt8)) : Prop := ∀ h data, seg = some (h, data) → h.Plain

/-- The call `k` for a connection that is open: `seg` is the segment, `none` for the timer. -/
structure Asked (seg : Option (Hdr × List UInt8)) (c : Conn α) (k : Call α) : Prop where
  live : c.isOpen = true
  goes : k.flags.close = false ∧ k.flags.abort = false ∧ k.flags.timedout = false
  endpoint : k.conn.endpoint = c.endpoint
  state : k.conn.state = .established
  sndNxt : k.conn.sndNxt = if c.state = .synRcvd ∨ k.flags.ackdata then uipAdd32 c.sndNxt c.len else c.sndNxt
  rcvNxt : PlainSeg seg → k.conn.rcvNxt = if k.flags.newdata then uipAdd32 c.rcvNxt k.len else c.rcvNxt
  connected : k.flags.connected = true ↔ c.state = .synRcvd
  len : k.conn.len = if c.state = .synRcvd then 0 else c.len
  newdata : k.flags.newdata = true → ∃ h data, seg = some (h, data) ∧ 0 < k.len ∧
    (h.Plain → h.seqno = c.rcvNxt ∧ k.len = h.payload ∧ k.appdata = data)
  acked : c.state = .synRcvd ∨ k.flags.ackdata = true → ∃ h data, seg = some (h, data) ∧ c.isAcked h = true
  poll : k.flags.poll = true → c.len = 0
  rexmit : k.flags.rexmit = true → k.flags.ackdata = false
  appstate : k.conn.appstate = c.appstate

/-- The ways a connection that is open changes. -/
inductive Move (appcall : App α γ) (g : γ) (seg : Option (Hdr × List UInt8)) (c : Conn α) :
    Conn α → Option (Call α) → Option Packet → Prop where
  /-- Only timers, windows and estimates change. -/
  | kept {c' sent} (hend : c'.endpoint = c.endpoint) (hstate : c'.state = c.state)
      (hrcv : PlainSeg seg → c'.rcvNxt = c.rcvNxt) (hsnd : c'.sndNxt = c.sndNxt) (hlen : c'.len = c.len)
      (happ : c'.appstate = c.appstate) (hdata : NoData sent) :
      Move appcall g seg c c' none sent
  /-- The connection is given up, or closed. -/
  | ended {c' call sent} (hend : c'.endpoint = c.endpoint) (hopen : c'.isOpen = false)
      (hcall : ∀ k ∈ call, k.conn.endpoint = c.endpoint ∧ k.flags.newdata = false ∧ k.flags.connected = false)
      (hdata : NoData sent) : Move appcall g seg c c' call sent
  /-- The peer closes, perhaps with its last data. -/
  | fin {c' sent} {k : Call α} (h : Hdr) (data : List UInt8) (hseg : seg = some (h, data)) (hstate : c.state = .established)
      (hend : c'.endpoint = c.endpoint) (hopen : c'.isOpen = false) (hk : k.conn.endpoint = c.endpoint)
      (hconn : k.flags.connected = false) (hlen : k.len = h.payload) (happ : k.appdata = data)
      (hnew : k.flags.newdata = true → 0 < k.len ∧ h.seqno = c.rcvNxt) (hdata : NoData sent) : Move appcall g seg c c' (some k) sent
  /-- A `FIN` comes with the acknowledgement of what is outstanding, and only half of the latter is noted. -/
  | lost {c' sent} (h : Hdr) (data : List UInt8) (hseg : seg = some (h, data)) (hstate : c.state = .established)
      (hfin : h.has tcpFin = true) (hacked : c.isAcked h = true)
      (hend : c'.endpoint = c.endpoint) (hstate' : c'.state = c.state) (hrcv : c'.rcvNxt = c.rcvNxt) (hdata : NoData sent) :
      Move appcall g seg c c' none sent
  /-- The application has its turn. -/
  | turn {c' sent} {k : Call α} (hk : Asked seg c k) (ht : Turn k (appcall k g).1 c' sent) : Move appcall g seg c c' (some k) sent

variable {appcall : App α γ} {s : Stack α γ} {i : Nat} {c c' : Conn α} {h : Hdr} {data rest : List UInt8}
  {len : UInt16} {call : Option (Call α)} {sent : Option Packet} {o : Outcome α γ}

/-! ## Sending -/

theorem drop_leaves (call : Option (Call α)) : (drop (s.put i c) (call.map (Prod.mk i))).Leaves s.conns s.hostaddr i c call none where
  conns := rfl
  hostaddr := rfl
  called := rfl
  sends := rfl
  numbers := by simp

theorem tcpSend_leaves (call : Option (Call α)) (buf : Hdr) (len : UInt16) (appdata : List UInt8) :
    ∃ p, (tcpSend (s.put i c) (call.map (Prod.mk i)) c buf len appdata).Leaves s.conns s.hostaddr i c call (some p) ∧
      p.data = appdata.take (len.toNat - 40) ∧ p.hdr.tcpoffset = buf.tcpoffset := by
  refine ⟨_, ⟨rfl, rfl, rfl, rfl, ?_⟩, rfl, rfl⟩
  intro p hp
  cases hp
  exact ⟨rfl, rfl, rfl⟩

theorem payload_noOpts {p : Packet} (h : p.hdr.tcpoffset = 0x50) : p.payload = p.data := by
  have hzero : ((0x50 : UInt8) >>> 4 <<< 2).toNat - 20 = 0 := by decide
  rw [Packet.payload, Hdr.tcpLen, h, hzero, List.drop_zero]

theorem payload_mss {p : Packet} (h : p.hdr.tcpoffset = 0x60) : p.payload = p.data.drop 4 := by
  have hfour : ((0x60 : UInt8) >>> 4 <<< 2).toNat - 20 = 4 := by decide
  rw [Packet.payload, Hdr.tcpLen, h, hfour]

theorem tcpSendNoopts_leaves (call : Option (Call α)) (buf : Hdr) (flags : UInt8) (len : UInt16) (appdata : List UInt8) :
    ∃ p, (tcpSendNoopts (s.put i c) (call.map (Prod.mk i)) c buf flags len appdata).Leaves s.conns s.hostaddr i c call (some p) ∧
      p.payload = appdata.take (len.toNat - 40) := by
  obtain ⟨p, hp, hdata, hoff⟩ := tcpSend_leaves (s := s) (i := i) (c := c) call { buf with flags := flags, tcpoffset := 0x50 }
    len appdata
  exact ⟨p, hp, (payload_noOpts hoff).trans hdata⟩

theorem tcpSendNodata_leaves (call : Option (Call α)) (buf : Hdr) (flags : UInt8) (appdata : List UInt8) :
    ∃ sent, (tcpSendNodata (s.put i c) (call.map (Prod.mk i)) c buf flags appdata).Leaves s.conns s.hostaddr i c call sent ∧
      NoData sent := by
  obtain ⟨p, hp, hdata⟩ := tcpSendNoopts_leaves (s := s) (i := i) (c := c) call buf flags 40 appdata
  refine ⟨_, hp, ?_⟩
  intro q hq
  cases hq
  simpa using hdata

theorem tcpSendSynack_leaves (buf : Hdr) : ∃ sent, (tcpSendSynack (s.put i c) c buf).Leaves s.conns s.hostaddr i c none sent ∧
    NoData sent := by
  obtain ⟨p, hp, hdata, hoff⟩ := tcpSend_leaves (s := s) (i := i) (c := c) none
    { buf with flags := tcpSyn ||| tcpAck, tcpoffset := 0x60 } 44 [2, 4, hiByte uipTcpMss, loByte uipTcpMss]
  refine ⟨_, hp, ?_⟩
  intro q hq
  cases hq
  rw [payload_mss hoff, hdata]
  rfl

theorem Stack.put_self (hc : s.conns[i]? = some c) : s.put i c = s := by
  obtain ⟨hi, rfl⟩ := List.getElem?_eq_some_iff.mp hc
  rw [Stack.put, List.set_getElem_self]

/-- `uip_len` may wrap, and then nothing is sent. -/
theorem take_sent (xs : List UInt8) (len : UInt16) : xs.take ((len + 40).toNat - 40) = [] ∨
    xs.take ((len + 40).toNat - 40) = xs.take len.toNat := by
  have hlt := len.toNat_lt
  have hsum : (len + 40).toNat = (len.toNat + 40) % 65536 := UInt16.toNat_add len 40
  by_cases hwrap : len.toNat + 40 < 65536
  · right
    rw [hsum, Nat.mod_eq_of_lt hwrap, Nat.add_sub_cancel]
  · left
    rw [hsum, show (len.toNat + 40) % 65536 - 40 = 0 by omega, List.take_zero]

/-- The packet of a turn that only offers data. -/
theorem apprexmit_leaves {k : Call α} {a : Answer α} (buf : Hdr) (slen : UInt16) :
    ∃ sent, (apprexmit s i k c buf a slen).Leaves s.conns s.hostaddr i c (some k) sent ∧
      ∀ p ∈ sent, p.payload = [] ∨ 0 < slen ∧ p.payload = a.sappdata.take c.len.toNat := by
  rw [apprexmit]
  split
  · rename_i hpos
    obtain ⟨p, hp, hdata⟩ := tcpSendNoopts_leaves (s := s) (i := i) (c := c) (some k) buf (tcpAck ||| tcpPsh) (c.len + 40)
      a.sappdata
    refine ⟨_, hp, ?_⟩
    intro q hq
    cases hq
    rw [hdata]
    exact (take_sent a.sappdata c.len).imp id fun h => ⟨hpos.1, h⟩
  · split
    · obtain ⟨sent, hp, hdata⟩ := tcpSendNodata_leaves (s := s) (i := i) (c := c) (some k) buf tcpAck a.sappdata
      exact ⟨sent, hp, fun p hp => Or.inl (hdata p hp)⟩
    · exact ⟨none, drop_leaves (some k), by simp⟩

/-- The connection after the application answered `a` to `k`. -/
def Call.answered (k : Call α) (a : Answer α) : Conn α := { k.conn with appstate := a.appstate, stopped := a.stopped }

@[simp] theorem Conn.goto_state (state : TcpState) : (c.goto state).state = state := rfl
@[simp] theorem Conn.goto_endpoint (state : TcpState) : (c.goto state).endpoint = c.endpoint := rfl
@[simp] theorem Call.answered_endpoint (k : Call α) (a : Answer α) : (k.answered a).endpoint = k.conn.endpoint := rfl
@[simp] theorem Call.answered_state (k : Call α) (a : Answer α) : (k.answered a).state = k.conn.state := rfl

theorem appsend_turn {k : Call α} {a : Answer α} (hr : k.flags.rexmit = false) (buf : Hdr) :
    ∃ c' sent, (appsend s i k (k.answered a) buf a).Leaves s.conns s.hostaddr i c' (some k) sent ∧ Turn k a c' sent := by
  rw [appsend]
  split
  · obtain ⟨sent, hl, hd⟩ := tcpSendNodata_leaves (s := s) (i := i) (c := (k.answered a).goto .closed) (some k) buf
      (tcpRst ||| tcpAck) k.appdata
    exact ⟨_, sent, hl, .ended rfl rfl hd⟩
  · rename_i habort
    split
    · obtain ⟨sent, hl, hd⟩ := tcpSendNodata_leaves (s := s) (i := i)
        (c := { (k.answered a).goto .finWait1 with len := 1, nrtx := 0 }) (some k) buf (tcpFin ||| tcpAck) k.appdata
      exact ⟨_, sent, hl, .ended rfl rfl hd⟩
    · rename_i hclose
      obtain ⟨sent, hl, hd⟩ := apprexmit_leaves (s := s) (i := i) (k := k) (a := a)
        (c := { k.answered a with len := (sendLen (k.answered a) a).2, nrtx := 0 }) buf (sendLen (k.answered a) a).1
      refine ⟨_, sent, hl, .offered (sendLen (k.answered a) a).1 (sendLen (k.answered a) a).2 0 rfl ?_
        (fun _ => ⟨Bool.eq_false_iff.mpr habort, Bool.eq_false_iff.mpr hclose, rfl⟩) hd⟩
      rw [hr]
      intro hcontra
      cases hcontra

theorem callAndSend_turn (appcall : App α γ) {k : Call α} (hr : k.flags.rexmit = false) (buf : Hdr) :
    ∃ c' sent, (callAndSend appcall s i k buf).Leaves s.conns s.hostaddr i c' (some k) sent ∧ Turn k (appcall k s.app).1 c' sent :=
  appsend_turn (s := { s with app := (appcall k s.app).2 }) (a := (appcall k s.app).1) hr buf

/-! ## The timer -/

theorem drop_kept (c c' : Conn α) (hstate : c'.state = c.state) (hend : c'.endpoint = c.endpoint) (hrcv : c'.rcvNxt = c.rcvNxt)
    (hsnd : c'.sndNxt = c.sndNxt) (hlen : c'.len = c.len) (happ : c'.appstate = c.appstate)
    {g : γ} {seg : Option (Hdr × List UInt8)} :
    ∃ d call sent, (drop (s.put i c') none).Leaves s.conns s.hostaddr i d call sent ∧ Move appcall g seg c d call sent :=
  ⟨c', none, none, drop_leaves none, .kept hend hstate (fun _ => hrcv) hsnd hlen happ (by simp [NoData])⟩

theorem drop_ended (c c' : Conn α) (hopen : c'.isOpen = false) (hend : c'.endpoint = c.endpoint) {g : γ}
    {seg : Option (Hdr × List UInt8)} :
    ∃ d call sent, (drop (s.put i c') none).Leaves s.conns s.hostaddr i d call sent ∧ Move appcall g seg c d call sent :=
  ⟨c', none, none, drop_leaves none, .ended hend hopen (by simp) (by simp [NoData])⟩

theorem send_ended (c c' : Conn α) (hopen : c'.isOpen = false) (hend : c'.endpoint = c.endpoint) {g : γ}
    {seg : Option (Hdr × List UInt8)}
    (call : Option (Call α)) (hcall : ∀ k ∈ call, k.conn.endpoint = c.endpoint ∧ k.flags.newdata = false ∧
      k.flags.connected = false) (buf : Hdr) (flags : UInt8) (appdata : List UInt8) :
    ∃ d call' sent,
      (tcpSendNodata (s.put i c') (call.map (Prod.mk i)) c' buf flags appdata).Leaves s.conns s.hostaddr i d call' sent ∧
        Move appcall g seg c d call' sent := by
  obtain ⟨sent, hl, hd⟩ := tcpSendNodata_leaves (s := s) (i := i) (c := c') call buf flags appdata
  exact ⟨c', call, sent, hl, .ended hend hopen hcall hd⟩

/-- The application is asked to send again what is outstanding. -/
theorem rexmit_turn {k : Call α} {a : Answer α} (hr : k.flags.rexmit = true) (buf : Hdr) :
    ∃ c' sent, (apprexmit s i k (k.answered a) buf a a.slen).Leaves s.conns s.hostaddr i c' (some k) sent ∧ Turn k a c' sent := by
  obtain ⟨sent, hl, hd⟩ := apprexmit_leaves (s := s) (i := i) (k := k) (a := a) (c := k.answered a) buf a.slen
  refine ⟨_, sent, hl, .offered a.slen k.conn.len k.conn.nrtx rfl (fun _ => ⟨rfl, rfl⟩) ?_ hd⟩
  rw [hr]
  intro hcontra
  cases hcontra

theorem Conn.isOpen_of_state {state : TcpState} (h : c.state = state) : c.isOpen = state.isOpen := congrArg TcpState.isOpen h

@[simp] theorem Conn.backoff_state : c.backoff.state = c.state := rfl

theorem retransmit_move (buf : Hdr) : ∃ c' call sent,
    (retransmit appcall s i c.backoff buf rest).Leaves s.conns s.hostaddr i c' call sent ∧ Move appcall s.app none c c' call sent := by
  rw [retransmit, Conn.backoff_state]
  cases hstate : c.state with
  | synRcvd =>
      obtain ⟨sent, hl, hd⟩ := tcpSendSynack_leaves (s := s) (i := i) (c := c.backoff) buf
      exact ⟨c.backoff, none, sent, hl, .kept rfl rfl (fun _ => rfl) rfl rfl rfl hd⟩
  | established =>
      obtain ⟨c', sent, hl, ht⟩ := rexmit_turn (s := { s with app := (appcall _ s.app).2 }) (i := i)
        (k := { conn := c.backoff, flags := { rexmit := true }, len := 0, appdata := rest }) (a := (appcall _ s.app).1) rfl buf
      refine ⟨c', _, sent, hl, .turn ?_ ht⟩
      constructor <;> simp [hstate, Conn.backoff, Conn.endpoint, Conn.isOpen, TcpState.isOpen]
  | finWait1 => exact send_ended c c.backoff (Conn.isOpen_of_state hstate) rfl none (by simp) buf _ rest
  | closing => exact send_ended c c.backoff (Conn.isOpen_of_state hstate) rfl none (by simp) buf _ rest
  | lastAck => exact send_ended c c.backoff (Conn.isOpen_of_state hstate) rfl none (by simp) buf _ rest
  | closed => exact drop_ended c c.backoff (Conn.isOpen_of_state hstate) rfl
  | synSent => exact drop_ended c c.backoff (Conn.isOpen_of_state hstate) rfl
  | finWait2 => exact drop_ended c c.backoff (Conn.isOpen_of_state hstate) rfl
  | timeWait => exact drop_ended c c.backoff (Conn.isOpen_of_state hstate) rfl

theorem giveUp_move (c c' : Conn α) (hend : c'.endpoint = c.endpoint) {g : γ} (buf : Hdr) :
    ∃ d call sent, (giveUp appcall s i c' buf rest).Leaves s.conns s.hostaddr i d call sent ∧ Move appcall g none c d call sent := by
  refine send_ended (s := { s with app := (appcall _ s.app).2 }) c
    (Call.answered { conn := c'.goto .closed, flags := { timedout := true }, len := 0, appdata := rest } (appcall _ s.app).1)
    rfl hend (some _) ?_ buf _ rest
  intro k hk
  cases hk
  exact ⟨hend, rfl, rfl⟩

theorem Conn.isOpen_of_waiting (h : c.isWaiting = true) : c.isOpen = false := by
  rcases (of_decide_eq_true h).1 with hstate | hstate
  · exact Conn.isOpen_of_state hstate
  · exact Conn.isOpen_of_state hstate

/-- The timer of a connection. -/
theorem timer_move (hc : s.conns[i]? = some c) (buf : Hdr) :
    ∃ c' call sent, (timer appcall s i c buf rest).Leaves s.conns s.hostaddr i c' call sent ∧
      Move appcall s.app none c c' call sent := by
  have hsame : ∃ c' call sent, (drop { s with iss := s.iss.incr } none : Outcome α γ).Leaves s.conns s.hostaddr i c' call sent ∧
      Move appcall s.app none c c' call sent := by
    rw [← Stack.put_self (s := { s with iss := s.iss.incr }) hc]
    exact drop_kept (s := { s with iss := s.iss.incr }) c c rfl rfl rfl rfl rfl rfl
  rw [timer]
  split
  · rename_i hwait
    refine drop_ended (s := { s with iss := s.iss.incr }) c _ ?_ ?_
    · split
      · rfl
      · exact c.isOpen_of_waiting hwait
    · split <;> rfl
  · split
    · exact hsame
    · split
      · split
        · split
          · exact giveUp_move (s := { s with iss := s.iss.incr }) c { c with timer := c.timer - 1 } rfl buf
          · exact retransmit_move (s := { s with iss := s.iss.incr }) buf
        · exact drop_kept (s := { s with iss := s.iss.incr }) c { c with timer := c.timer - 1 } rfl rfl rfl rfl rfl rfl
      · split
        · rename_i hlen hstate
          obtain ⟨c', sent, hl, ht⟩ := callAndSend_turn appcall (s := { s with iss := s.iss.incr }) (i := i)
            (k := { conn := c, flags := { poll := true }, len := 0, appdata := rest }) rfl buf
          refine ⟨c', _, sent, hl, .turn ?_ ht⟩
          have hzero : c.len = 0 := not_not.mp hlen
          constructor <;> simp [hstate, hzero, Conn.isOpen, TcpState.isOpen]
        · exact hsame

theorem timer_closed (hclosed : c.isClosed = true) (buf : Hdr) :
    timer appcall s i c buf rest = drop { s with iss := s.iss.incr } none := by
  have hstate : c.state = .closed := (of_decide_eq_true hclosed).1
  rw [timer, if_neg (by simp [Conn.isWaiting, hstate]), if_pos hclosed]

/-! ## Segments -/

/-- The connection after its acknowledgements are looked at. -/
def Conn.heard (c : Conn α) (h : Hdr) : Conn α := if c.isAcked h then c.acked else c

theorem Conn.acked_fields : c.acked.endpoint = c.endpoint ∧ c.acked.state = c.state ∧ c.acked.rcvNxt = c.rcvNxt ∧
    c.acked.sndNxt = uipAdd32 c.sndNxt c.len ∧ c.acked.len = c.len ∧ c.acked.appstate = c.appstate := by
  simp only [Conn.acked]
  split
  all_goals exact ⟨rfl, rfl, rfl, rfl, rfl, rfl⟩

theorem Conn.heard_fields : (c.heard h).endpoint = c.endpoint ∧ (c.heard h).state = c.state ∧ (c.heard h).rcvNxt = c.rcvNxt ∧
    (c.heard h).sndNxt = (if c.isAcked h then uipAdd32 c.sndNxt c.len else c.sndNxt) ∧ (c.heard h).len = c.len ∧
    (c.heard h).appstate = c.appstate := by
  rw [Conn.heard]
  split
  · exact Conn.acked_fields
  · exact ⟨rfl, rfl, rfl, rfl, rfl, rfl⟩

theorem Hdr.Plain.urgLen_eq (hp : h.Plain) (len : UInt16) : urgLen h len = 0 := by
  rw [urgLen, if_neg (by simp [hp.noUrg]), hp.noPtr]
  decide

theorem Conn.addData_fields (newdata : Bool) (len : UInt16) : (c.addData newdata len).endpoint = c.endpoint ∧
    (c.addData newdata len).state = c.state ∧
    (c.addData newdata len).rcvNxt = (if newdata then uipAdd32 c.rcvNxt len else c.rcvNxt) ∧
    (c.addData newdata len).sndNxt = c.sndNxt ∧ (c.addData newdata len).len = c.len ∧
    (c.addData newdata len).appstate = c.appstate := by
  cases newdata
  · exact ⟨rfl, rfl, rfl, rfl, rfl, rfl⟩
  · exact ⟨rfl, rfl, rfl, rfl, rfl, rfl⟩

theorem synRcvd_move (hstate : c.state = .synRcvd) (hpay : len = h.payload) (hseq : 0 < len → h.seqno = c.rcvNxt) :
    ∃ c' call sent, (synRcvd appcall s i (c.heard h) h data len (c.isAcked h)).Leaves s.conns s.hostaddr i c' call sent ∧
      Move appcall s.app (some (h, data)) c c' call sent := by
  obtain ⟨hend, hst, hrcv, hsnd, hlen, happ⟩ := c.heard_fields (h := h)
  rw [synRcvd]
  split
  · rename_i hacked
    obtain ⟨c', sent, hl, ht⟩ := callAndSend_turn appcall (s := s) (i := i)
      (k := { conn := ({ (c.heard h).goto .established with len := 0 } : Conn α).addData (0 < len) len
              flags := { connected := true, newdata := 0 < len }, len := len, appdata := data }) rfl h
    refine ⟨c', _, sent, hl, .turn ?_ ht⟩
    obtain ⟨hend', hst', hrcv', hsnd', hlen', happ'⟩ :=
      Conn.addData_fields (c := { (c.heard h).goto .established with len := 0 }) (decide (0 < len)) len
    exact
      { live := Conn.isOpen_of_state hstate
        goes := ⟨rfl, rfl, rfl⟩
        endpoint := hend'.trans hend
        state := hst'
        sndNxt := by rw [hsnd', if_pos (Or.inl hstate)]; exact hsnd.trans (if_pos hacked)
        rcvNxt := fun _ => by rw [hrcv']; exact congrArg (fun q => if decide (0 < len) then uipAdd32 q len else q) hrcv
        connected := ⟨fun _ => hstate, fun _ => rfl⟩
        len := by rw [hlen', if_pos hstate]
        newdata := fun hnew => ⟨h, data, rfl, of_decide_eq_true hnew, fun _ => ⟨hseq (of_decide_eq_true hnew), hpay, rfl⟩⟩
        acked := fun _ => ⟨h, data, rfl, hacked⟩
        poll := fun hpoll => by cases hpoll
        rexmit := fun hr => by cases hr
        appstate := happ'.trans happ }
  · rename_i hacked
    rw [if_neg hacked] at hsnd
    exact ⟨c.heard h, none, none, drop_leaves none, .kept hend hst (fun _ => hrcv) hsnd hlen happ (by simp [NoData])⟩

/-- The connection when urgent data are counted. -/
theorem Conn.urgent_fields (urg : Bool) (n : UInt16) : (if urg then c.addRcvNxt n else c).endpoint = c.endpoint ∧
    (if urg then c.addRcvNxt n else c).state = c.state ∧ (if urg then c.addRcvNxt n else c).sndNxt = c.sndNxt ∧
    (if urg then c.addRcvNxt n else c).len = c.len ∧ (if urg then c.addRcvNxt n else c).appstate = c.appstate ∧
    (urg = false → (if urg then c.addRcvNxt n else c).rcvNxt = c.rcvNxt) := by
  cases urg with
  | true => exact ⟨rfl, rfl, rfl, rfl, rfl, fun h => by cases h⟩
  | false => exact ⟨rfl, rfl, rfl, rfl, rfl, fun _ => rfl⟩

theorem established_move (hstate : c.state = .established) (hpay : len = h.payload) (hseq : 0 < len → h.seqno = c.rcvNxt) :
    ∃ c' call sent, (established appcall s i (c.heard h) h data len (c.isAcked h)).Leaves s.conns s.hostaddr i c' call sent ∧
      Move appcall s.app (some (h, data)) c c' call sent := by
  obtain ⟨hend, hst, hrcv, hsnd, hlen, happ⟩ := c.heard_fields (h := h)
  have hsame : c.isAcked h = false → (c.heard h).sndNxt = c.sndNxt := fun hacked => by rw [hsnd, hacked]; rfl
  rw [established]
  split
  · rename_i hfin
    split
    · refine ⟨c.heard h, none, none, drop_leaves none, ?_⟩
      cases hacked : c.isAcked h with
      | true => exact .lost h data rfl hstate hfin hacked hend hst hrcv (by simp [NoData])
      | false => exact .kept hend hst (fun _ => hrcv) (hsame hacked) hlen happ (by simp [NoData])
    · obtain ⟨sent, hl, hd⟩ := tcpSendNodata_leaves (s := { s with app := (appcall _ s.app).2 }) (i := i)
        (c := { (Call.answered { conn := (c.heard h).addRcvNxt (1 + len), flags := { close := true, newdata := 0 < len }
                                 len := len, appdata := data } (appcall _ s.app).1).goto .lastAck with len := 1, nrtx := 0 })
        (some _) h (tcpFin ||| tcpAck) data
      exact ⟨_, _, sent, hl, .fin h data rfl hstate hend rfl hend rfl hpay rfl
        (fun hnew => ⟨of_decide_eq_true hnew, hseq (of_decide_eq_true hnew)⟩) hd⟩
  · simp only []
    obtain ⟨huend, hust, husnd, hulen, huapp, hurcv⟩ := Conn.urgent_fields (c := c.heard h) (h.has tcpUrg) (urgLen h len)
    generalize (if h.has tcpUrg then (c.heard h).addRcvNxt (urgLen h len) else c.heard h) = u at *
    generalize hnew : decide (0 < len - urgLen h len ∧ u.stopped = false) = newdata
    have hpos : newdata = true → 0 < len - urgLen h len := fun h => (of_decide_eq_true (hnew.trans h)).1
    obtain ⟨hend', hst', hrcv', hsnd', hlen', happ'⟩ := Conn.addData_fields (c := u) newdata (len - urgLen h len)
    split
    · rename_i hcall
      obtain ⟨c', sent, hl, ht⟩ := callAndSend_turn appcall (s := s) (i := i)
        (k := { conn := (u.addData newdata (len - urgLen h len)).window h, flags := { newdata := newdata, ackdata := c.isAcked h }
                len := len - urgLen h len, appdata := data.drop (urgLen h len).toNat
                urgdata := if h.has tcpUrg then data.take (urgLen h len).toNat else [] }) rfl h
      refine ⟨c', _, sent, hl, .turn ?_ ht⟩
      exact
        { live := Conn.isOpen_of_state hstate
          goes := ⟨rfl, rfl, rfl⟩
          endpoint := hend'.trans (huend.trans hend)
          state := hst'.trans (hust.trans (hst.trans hstate))
          sndNxt := hsnd'.trans (husnd.trans (hsnd.trans (by simp [hstate])))
          rcvNxt := fun hp => hrcv'.trans (congrArg (fun q => if newdata then uipAdd32 q (len - urgLen h len) else q)
            ((hurcv (hp h data rfl).noUrg).trans hrcv))
          connected := by simp [hstate]
          len := hlen'.trans (hulen.trans (hlen.trans (by simp [hstate])))
          newdata := fun hn => ⟨h, data, rfl, hpos hn, fun hp => by
            have hzero := hp.urgLen_eq len
            have hpos' := hpos hn
            rw [hzero, UInt16.sub_zero] at hpos'
            exact ⟨hseq hpos', by rw [hzero, UInt16.sub_zero, hpay], by rw [hzero]; rfl⟩⟩
          acked := fun hack => ⟨h, data, rfl, hack.resolve_left (by simp [hstate])⟩
          poll := fun hpoll => by cases hpoll
          rexmit := fun hr => by cases hr
          appstate := happ'.trans (huapp.trans happ) }
    · rename_i hcall
      have hcall' : newdata = false ∧ c.isAcked h = false := by simpa using hcall
      rw [hcall'.1, if_neg Bool.false_ne_true] at hrcv'
      rw [hcall'.1] at hend' hst' hsnd' hlen' happ' ⊢
      exact ⟨_, none, none, drop_leaves none, .kept (hend'.trans (huend.trans hend)) (hst'.trans (hust.trans hst))
        (fun hp => hrcv'.trans ((hurcv (hp h data rfl).noUrg).trans hrcv))
        (hsnd'.trans (husnd.trans (hsame hcall'.2))) (hlen'.trans (hulen.trans hlen)) (happ'.trans (huapp.trans happ))
        (by simp [NoData])⟩

/-- A connection that is not open stays so. -/
theorem lastAck_move (hend : c'.endpoint = c.endpoint) (hopen : c'.isOpen = false) (ackdata : Bool) {g : γ}
    {seg : Option (Hdr × List UInt8)} : ∃ d call sent,
      (lastAck appcall s i c' data len ackdata).Leaves s.conns s.hostaddr i d call sent ∧ Move appcall g seg c d call sent := by
  rw [lastAck]
  split
  · refine ⟨_, some _, none, drop_leaves (s := { s with app := (appcall _ s.app).2 }) (some _),
      .ended hend rfl ?_ (by simp [NoData])⟩
    intro k hk
    cases hk
    exact ⟨hend, rfl, rfl⟩
  · exact drop_ended c c' hopen hend

theorem closeAndAck_move (c c' : Conn α) (hend : c'.endpoint = c.endpoint) (hopen : c'.isOpen = false) {g : γ}
    {seg : Option (Hdr × List UInt8)} : ∃ d call sent,
      (closeAndAck appcall s i c' h data len).Leaves s.conns s.hostaddr i d call sent ∧ Move appcall g seg c d call sent := by
  refine send_ended (s := { s with app := (appcall _ s.app).2 }) c
    (Call.answered { conn := c', flags := { close := true }, len := len, appdata := data } (appcall _ s.app).1) hopen hend
    (some _) ?_ h tcpAck data
  intro k hk
  cases hk
  exact ⟨hend, rfl, rfl⟩

theorem finWait1_move (hend : c'.endpoint = c.endpoint) (hstate : c'.state = .finWait1) (ackdata : Bool) {g : γ}
    {seg : Option (Hdr × List UInt8)} : ∃ d call sent,
      (finWait1 appcall s i c' h data len ackdata).Leaves s.conns s.hostaddr i d call sent ∧ Move appcall g seg c d call sent := by
  obtain ⟨hend', hst', -, -, -, -⟩ := Conn.addData_fields (c := c') (0 < len) len
  have hopen : (c'.addData (0 < len) len).isOpen = false := Conn.isOpen_of_state (hst'.trans hstate)
  rw [finWait1]
  split
  · split
    · exact closeAndAck_move c
        (Conn.addRcvNxt { (c'.addData (0 < len) len).goto .timeWait with timer := 0, len := 0 } 1) (hend'.trans hend) rfl
    · exact closeAndAck_move c (((c'.addData (0 < len) len).goto .closing).addRcvNxt 1) (hend'.trans hend) rfl
  · split
    · exact drop_ended c { (c'.addData (0 < len) len).goto .finWait2 with len := 0 } rfl (hend'.trans hend)
    · split
      · exact send_ended c _ hopen (hend'.trans hend) none (by simp) h tcpAck data
      · exact drop_ended c _ hopen (hend'.trans hend)

theorem finWait2_move (hend : c'.endpoint = c.endpoint) (hstate : c'.state = .finWait2) {g : γ}
    {seg : Option (Hdr × List UInt8)} : ∃ d call sent, (finWait2 appcall s i c' h data len).Leaves s.conns s.hostaddr i d call sent ∧
      Move appcall g seg c d call sent := by
  obtain ⟨hend', hst', -, -, -, -⟩ := Conn.addData_fields (c := c') (0 < len) len
  have hopen : (c'.addData (0 < len) len).isOpen = false := Conn.isOpen_of_state (hst'.trans hstate)
  rw [finWait2]
  split
  · exact closeAndAck_move c (Conn.addRcvNxt { (c'.addData (0 < len) len).goto .timeWait with timer := 0 } 1)
      (hend'.trans hend) rfl
  · split
    · exact send_ended c _ hopen (hend'.trans hend) none (by simp) h tcpAck data
    · exact drop_ended c _ hopen (hend'.trans hend)

/-- A segment for a connection. -/
theorem found_move (hc : s.conns[i]? = some c) :
    ∃ c' call sent, (found appcall s i c h data h.ipLen).Leaves s.conns s.hostaddr i c' call sent ∧
      Move appcall s.app (some (h, data)) c c' call sent := by
  obtain ⟨hend, hst, hrcv, -, -, -⟩ := c.heard_fields (h := h)
  rw [found]
  split
  · refine ⟨_, some _, none, drop_leaves (s := { s with app := (appcall _ s.app).2 }) (some _), .ended rfl rfl ?_ (by simp [NoData])⟩
    intro k hk
    cases hk
    exact ⟨rfl, rfl, rfl⟩
  · simp only []
    split
    · obtain ⟨sent, hl, hd⟩ := tcpSendNodata_leaves (s := s) (i := i) (c := c) none h tcpAck data
      rw [Stack.put_self hc] at hl
      exact ⟨c, none, sent, hl, .kept rfl rfl (fun _ => rfl) rfl rfl rfl hd⟩
    · rename_i hnot
      have hseq : 0 < h.payload → h.seqno = c.rcvNxt := fun hpos => by
        by_contra hne
        exact hnot ⟨hpos, hne⟩
      rw [show (if c.isAcked h then c.acked else c) = c.heard h from rfl, hst]
      cases hstate : c.state with
      | synRcvd => exact synRcvd_move hstate rfl hseq
      | established => exact established_move hstate rfl hseq
      | lastAck => exact lastAck_move hend (Conn.isOpen_of_state (hst.trans hstate)) _
      | finWait1 => exact finWait1_move hend (hst.trans hstate) _
      | finWait2 => exact finWait2_move hend (hst.trans hstate)
      | timeWait => exact send_ended c _ (Conn.isOpen_of_state (hst.trans hstate)) hend none (by simp) h tcpAck data
      | closing =>
          refine drop_ended c _ ?_ ?_
          · split
            · rfl
            · exact Conn.isOpen_of_state (hst.trans hstate)
          · split
            · exact hend
            · exact hend
      | closed => exact drop_ended c _ (Conn.isOpen_of_state (hst.trans hstate)) hend
      | synSent => exact drop_ended c _ (Conn.isOpen_of_state (hst.trans hstate)) hend

/-! ## Steps -/

/-- What is left of a connection that was opened for the SYN `h`. -/
structure Opened (s : Stack α γ) (h : Hdr) (c : Conn α) : Prop where
  free : ∀ d ∈ s.conns, d.owns h = false
  syn : h.flags &&& tcpCtl = tcpSyn
  port : h.destport ∈ s.listenports
  state : c.state = .synRcvd
  stopped : c.stopped = false
  endpoint : c.endpoint = h.endpoint
  rcvNxt : c.rcvNxt = uipAdd32 h.seqno 1
  sndNxt : c.sndNxt = s.iss
  len : c.len = 1

/-- The three things a step can be: nothing happens to the connections, one of them moves, or one is opened. -/
inductive StepCase (appcall : App α γ) (s : Stack α γ) : Ev → Outcome α γ → Prop where
  | nothing {ev : Ev} {o : Outcome α γ} (hconns : o.stack.conns = s.conns) (hhost : o.stack.hostaddr = s.hostaddr)
      (hcall : o.call = none)
      (hsent : ∀ p ∈ o.sent, p.hdr.proto = 6 →
        p.payload = [] ∧ ∀ c ∈ s.conns, c.isClosed = false → c.endpoint ≠ p.hdr.dest) : StepCase appcall s ev o
  | segment {o : Outcome α γ} {c' : Conn α} {call : Option (Call α)} {sent : Option Packet} (i : Nat) (c : Conn α) (h : Hdr)
      (data : List UInt8) (len : UInt16) (hc : s.conns[i]? = some c)
      (howns : c.owns h = true) (hpass : h.Passes s.hostaddr data) (hl : o.Leaves s.conns s.hostaddr i c' call sent)
      (hm : Move appcall s.app (some (h, data)) c c' call sent) : StepCase appcall s (.packet h data len) o
  | ticked {o : Outcome α γ} {c' : Conn α} {call : Option (Call α)} {sent : Option Packet} (i : Nat) (c : Conn α) (buf : Hdr)
      (rest : List UInt8) (hc : s.conns[i]? = some c)
      (hlive : c.isClosed = false) (hl : o.Leaves s.conns s.hostaddr i c' call sent) (hm : Move appcall s.app none c c' call sent) :
      StepCase appcall s (.timer i buf rest) o
  | opened {o : Outcome α γ} {c : Conn α} {sent : Option Packet} (i : Nat) (d : Conn α) (h : Hdr) (data : List UInt8)
      (len : UInt16) (hd : s.conns[i]? = some d)
      (hfree : d.isClosed = true ∨ d.isTimeWait = true) (hpass : h.Passes s.hostaddr data) (hopen : Opened s h c)
      (hl : o.Leaves s.conns s.hostaddr i c none sent) (hdata : NoData sent) : StepCase appcall s (.packet h data len) o

theorem fixLen_eq (h : Hdr) (len : UInt16) : fixLen h len = h.ipLen := by
  have hfirst : ∃ lo, (if h.len.1 ≠ hiByte len then be16 h.len.1 (loByte len) else len) = be16 h.len.1 lo := by
    split
    · exact ⟨_, rfl⟩
    · rename_i heq
      exact ⟨loByte len, by rw [not_not.mp heq, be16_bytes]⟩
  obtain ⟨lo, hlo⟩ := hfirst
  simp only [fixLen, hlo, hiByte_be16, loByte_be16]
  split
  · rfl
  · rename_i heq
    rw [Hdr.ipLen, not_not.mp heq]

theorem findUnused_spec (conns : List (Conn α)) (i : Nat) (best : Option (Nat × UInt8)) {n : Nat}
    (h : findUnused conns i best = some n) : best.map Prod.fst = some n ∨
      ∃ k c, n = i + k ∧ conns[k]? = some c ∧ (c.isClosed = true ∨ c.isTimeWait = true) := by
  induction conns generalizing i best with
  | nil => exact Or.inl h
  | cons c rest ih =>
      rw [findUnused] at h
      split at h
      · rename_i hclosed
        cases h
        exact Or.inr ⟨0, c, rfl, rfl, Or.inl hclosed⟩
      · have hnext : ∀ best', findUnused rest (i + 1) best' = some n → best'.map Prod.fst = some n ∨
            ∃ k d, n = i + k ∧ (c :: rest)[k]? = some d ∧ (d.isClosed = true ∨ d.isTimeWait = true) := by
          intro best' h
          rcases ih (i + 1) best' h with hbest | ⟨k, d, hn, hk, hd⟩
          · exact Or.inl hbest
          · exact Or.inr ⟨k + 1, d, by omega, hk, hd⟩
        split at h
        · rename_i hwait
          rcases hnext _ h with hbest | hlater
          · cases hbest
            exact Or.inr ⟨0, c, rfl, rfl, Or.inr hwait.1⟩
          · exact Or.inr hlater
        · exact hnext _ h

theorem parseMss_fields (hparse : parseMss h data c = some c') : c'.state = c.state ∧ c'.stopped = c.stopped ∧
    c'.endpoint = c.endpoint ∧ c'.rcvNxt = c.rcvNxt ∧ c'.sndNxt = c.sndNxt ∧ c'.len = c.len := by
  rw [parseMss, Option.map_eq_some_iff] at hparse
  obtain ⟨mss, -, rfl⟩ := hparse
  cases mss with
  | none => exact ⟨rfl, rfl, rfl, rfl, rfl, rfl⟩
  | some m => exact ⟨rfl, rfl, rfl, rfl, rfl, rfl⟩

theorem Conn.owns_iff : c.owns h = true ↔ c.isClosed = false ∧ c.endpoint = h.endpoint := by
  simp only [Conn.owns, Conn.endpoint, Hdr.endpoint, Endpoint.mk.injEq, decide_eq_true_eq, Bool.not_eq_true']
  constructor
  · rintro ⟨hclosed, hl, hr, ha⟩
    exact ⟨hclosed, hl.symm, hr.symm, ha.symm⟩
  · rintro ⟨hclosed, hl, hr, ha⟩
    exact ⟨hclosed, hl.symm, hr.symm, ha.symm⟩

theorem reset_sent (hfree : ∀ d ∈ s.conns, d.owns h = false) (p : Packet) (hp : p ∈ (reset s h data).sent) :
    p.payload = [] ∧ ∀ c ∈ s.conns, c.isClosed = false → c.endpoint ≠ p.hdr.dest := by
  rw [reset] at hp
  split at hp
  · cases hp
  · cases hp
    refine ⟨(payload_noOpts rfl).trans rfl, ?_⟩
    intro c hc hlive hend
    have howns : c.owns h = true := Conn.owns_iff.mpr ⟨hlive, hend⟩
    rw [hfree c hc] at howns
    cases howns

theorem foundListen_case {len : UInt16} (hpass : h.Passes s.hostaddr data) (hfree : ∀ d ∈ s.conns, d.owns h = false)
    (hsyn : h.flags &&& tcpCtl = tcpSyn) (hport : h.destport ∈ s.listenports) (ho : foundListen s h data = some o) :
    StepCase appcall s (.packet h data len) o := by
  rw [foundListen] at ho
  split at ho
  · cases ho
    exact .nothing rfl rfl rfl (by simp [drop])
  · rename_i i hunused
    split at ho
    · cases ho
      exact .nothing rfl rfl rfl (by simp [drop])
    · rename_i d hd
      obtain ⟨c, hparse, rfl⟩ := Option.map_eq_some_iff.mp ho
      obtain ⟨hstate, hstop, hend, hrcv, hsnd, hlen⟩ := parseMss_fields hparse
      obtain ⟨sent, hl, hdata⟩ := tcpSendSynack_leaves (s := s) (i := i) (c := c) h
      refine .opened i d h data len hd ?_ hpass ⟨hfree, hsyn, hport, hstate, hstop, hend, hrcv, hsnd, hlen⟩ hl hdata
      rcases findUnused_spec s.conns 0 none hunused with hbest | ⟨k, d', hk, hd', hunused'⟩
      · cases hbest
      · rw [Nat.zero_add] at hk
        rw [hk, hd'] at hd
        cases hd
        exact hunused'

theorem tcpInput_case {len : UInt16} (hsum : uipTcpchksum h data = 0xffff → h.Passes s.hostaddr data)
    (ho : tcpInput appcall s h data h.ipLen = some o) : StepCase appcall s (.packet h data len) o := by
  rw [tcpInput] at ho
  split at ho
  · cases ho
    exact .nothing rfl rfl rfl (by simp [drop])
  · rename_i htcp
    have hpass : h.Passes s.hostaddr data := hsum (not_not.mp htcp)
    split at ho
    · rename_i i hi
      split at ho
      · rename_i c hc
        cases ho
        obtain ⟨hlt, howns, -⟩ := List.findIdx?_eq_some_iff_getElem.mp hi
        obtain ⟨c', call, sent, hl, hm⟩ := @found_move _ _ appcall s i c h data hc
        refine .segment i c h data len hc ?_ hpass hl hm
        rw [List.getElem?_eq_getElem hlt, Option.some.injEq] at hc
        rwa [hc] at howns
      · cases ho
        exact .nothing rfl rfl rfl (by simp [drop])
    · rename_i hnone
      have hfree : ∀ d ∈ s.conns, d.owns h = false := by simpa using List.findIdx?_eq_none_iff.mp hnone
      split at ho
      · rename_i hsyn
        exact foundListen_case hpass hfree hsyn.1 hsyn.2 ho
      · cases ho
        refine .nothing ?_ ?_ ?_ fun p hp _ => reset_sent hfree p hp
        · rw [reset]
          split <;> rfl
        · rw [reset]
          split <;> rfl
        · rw [reset]
          split <;> rfl

theorem icmpInput_case {len uipLen : UInt16} (hproto : h.proto ≠ 6) :
    StepCase appcall s (.packet h data len) (icmpInput s h data uipLen) := by
  rw [icmpInput]
  split
  · exact .nothing rfl rfl rfl (by simp [drop])
  · refine .nothing rfl rfl rfl ?_
    intro p hp hsix
    cases hp
    exact absurd hsix hproto

theorem step_case {ev : Ev} (ho : step appcall s ev = some o) : StepCase appcall s ev o := by
  have hdrop : StepCase appcall s ev (drop s none) := .nothing rfl rfl rfl (by simp [drop])
  cases ev with
  | timer i buf rest =>
      cases ho
      cases hc : s.conns[i]? with
      | none => exact hdrop
      | some c =>
          cases hclosed : c.isClosed with
          | true =>
              rw [Option.elim_some, timer_closed hclosed]
              exact .nothing rfl rfl rfl (by simp [drop])
          | false =>
              obtain ⟨c', call, sent, hl, hm⟩ := @timer_move _ _ appcall s i c rest hc buf
              exact .ticked i c buf rest hc hclosed hl hm
  | packet h data len =>
      rw [step, uipInput, fixLen_eq] at ho
      split at ho
      · cases ho
        exact hdrop
      split at ho
      · cases ho
        exact hdrop
      split at ho
      · cases ho
        exact hdrop
      split at ho
      · cases ho
        exact hdrop
      rename_i hvhl hoffset hdest hip
      split at ho
      · rename_i hproto
        exact tcpInput_case (fun htcp => ⟨not_not.mp hvhl, hoffset, not_not.mp hdest, not_not.mp hip, hproto, htcp⟩) ho
      split at ho
      · cases ho
        exact hdrop
      · rename_i hproto _
        cases ho
        exact icmpInput_case hproto

end Uboot.Uip
