import Mathlib.Data.UInt
import Mathlib.Data.List.Basic

/-!
# The TCP/IP stack of the recovery mode (`httpd/uip.c`, `httpd/uip_arch.c`)

`uip_process` is called with a packet in `uip_buf`, or for the timer of one connection. It answers with at most one packet
and calls the application at most once. The options are those of `uipopt.h`: no UDP, no reassembly, no active open, urgent
data. The processor is little-endian, and a `u16_t` field of a header is kept as the processor loads it.

The application is `UIP_APPCALL`, here a function on the state of the connection and the rest of the application's state.
-/

namespace Uboot.Uip

/-! ## Numbers of four bytes -/

/-- `u8_t [4]`, the most significant byte first. -/
structure Quad where
  b0 : UInt8
  b1 : UInt8
  b2 : UInt8
  b3 : UInt8
deriving DecidableEq, Repr

def Quad.toNat (q : Quad) : Nat := 2 ^ 24 * q.b0.toNat + 2 ^ 16 * q.b1.toNat + 2 ^ 8 * q.b2.toNat + q.b3.toNat

/-- The increment of byte 1, with its carry. -/
def Quad.carry1 (q : Quad) : Quad :=
  if q.b1 + 1 = 0 then { q with b1 := q.b1 + 1, b0 := q.b0 + 1 } else { q with b1 := q.b1 + 1 }

/-- The increment of byte 2, with its carries. -/
def Quad.carry2 (q : Quad) : Quad :=
  if q.b2 + 1 = 0 then ({ q with b2 := q.b2 + 1 } : Quad).carry1 else { q with b2 := q.b2 + 1 }

/-- `if(++q[3] == 0) …` -/
def Quad.incr (q : Quad) : Quad :=
  if q.b3 + 1 = 0 then ({ q with b3 := q.b3 + 1 } : Quad).carry2 else { q with b3 := q.b3 + 1 }

def loByte (n : UInt16) : UInt8 := n.toUInt8

def hiByte (n : UInt16) : UInt8 := (n >>> 8).toUInt8

/-- `uip_add32` -/
def uipAdd32 (op32 : Quad) (op16 : UInt16) : Quad :=
  let acc := { op32 with b3 := op32.b3 + loByte op16, b2 := op32.b2 + hiByte op16 }
  let acc := if acc.b2 < hiByte op16 then acc.carry1 else acc
  if acc.b3 < loByte op16 then acc.carry2 else acc

/-! ## Checksums -/

/-- `sum += t; if(sum < t) sum++` -/
def addCarry (sum t : UInt16) : UInt16 := if sum + t < t then sum + t + 1 else sum + t

/-- `HTONS` -/
def htons (n : UInt16) : UInt16 := (n <<< 8) ||| (n >>> 8)

/-- The value of two bytes, the more significant one first. -/
def be16 (hi lo : UInt8) : UInt16 := (hi.toUInt16 <<< 8) ||| lo.toUInt16

/-- `chksum` -/
def chksum (sum : UInt16) : List UInt8 → UInt16
  | [] => sum
  | [b] => addCarry sum (be16 b 0)
  | b₀ :: b₁ :: rest => chksum (addCarry sum (be16 b₀ b₁)) rest

/-- `uip_chksum` -/
def uipChksum (data : List UInt8) : UInt16 := htons (chksum 0 data)

/-! ## Headers -/

/-- `uip_tcpip_hdr` without `optdata`, which is the start of the data. -/
structure Hdr where
  vhl : UInt8
  tos : UInt8
  len : UInt8 × UInt8
  ipid : UInt8 × UInt8
  ipoffset : UInt8 × UInt8
  ttl : UInt8
  proto : UInt8
  ipchksum : UInt16
  srcipaddr : UInt16 × UInt16
  destipaddr : UInt16 × UInt16
  srcport : UInt16
  destport : UInt16
  seqno : Quad
  ackno : Quad
  tcpoffset : UInt8
  flags : UInt8
  wnd : UInt8 × UInt8
  tcpchksum : UInt16
  urgp : UInt8 × UInt8
deriving DecidableEq, Repr

/-- A `u16_t` in memory. -/
def mem16 (n : UInt16) : List UInt8 := [loByte n, hiByte n]

/-- The 20 bytes of the IP header. -/
def Hdr.ipBytes (h : Hdr) : List UInt8 :=
  [h.vhl, h.tos, h.len.1, h.len.2, h.ipid.1, h.ipid.2, h.ipoffset.1, h.ipoffset.2, h.ttl, h.proto] ++ mem16 h.ipchksum ++
    mem16 h.srcipaddr.1 ++ mem16 h.srcipaddr.2 ++ mem16 h.destipaddr.1 ++ mem16 h.destipaddr.2

/-- The 20 bytes of the TCP header. -/
def Hdr.tcpBytes (h : Hdr) : List UInt8 :=
  mem16 h.srcport ++ mem16 h.destport ++ [h.seqno.b0, h.seqno.b1, h.seqno.b2, h.seqno.b3, h.ackno.b0, h.ackno.b1, h.ackno.b2,
    h.ackno.b3, h.tcpoffset, h.flags, h.wnd.1, h.wnd.2] ++ mem16 h.tcpchksum ++ [h.urgp.1, h.urgp.2]

/-- The length of the packet in its header. -/
def Hdr.ipLen (h : Hdr) : UInt16 := be16 h.len.1 h.len.2

/-- `uip_ipchksum` -/
def uipIpchksum (h : Hdr) : UInt16 := uipChksum h.ipBytes

/-- `uip_tcpchksum`, with the bytes at `uip_appdata` -/
def uipTcpchksum (h : Hdr) (appdata : List UInt8) : UInt16 :=
  let hsum := uipChksum h.tcpBytes
  let sum := uipChksum (appdata.take (h.ipLen - 40).toNat)
  let sum := addCarry sum hsum
  let sum := addCarry sum h.srcipaddr.1
  let sum := addCarry sum h.srcipaddr.2
  let sum := addCarry sum h.destipaddr.1
  let sum := addCarry sum h.destipaddr.2
  let sum := addCarry sum (htons 6)
  addCarry sum (htons (h.ipLen - 20))

def tcpFin : UInt8 := 0x01
def tcpSyn : UInt8 := 0x02
def tcpRst : UInt8 := 0x04
def tcpPsh : UInt8 := 0x08
def tcpAck : UInt8 := 0x10
def tcpUrg : UInt8 := 0x20
def tcpCtl : UInt8 := 0x3f

/-- A flag is set. -/
def Hdr.has (h : Hdr) (flag : UInt8) : Bool := h.flags &&& flag ≠ 0

/-! ## Connections -/

/-- The states of `tcpstateflags & TS_MASK`. -/
inductive TcpState where
  | closed
  | synRcvd
  | synSent
  | established
  | finWait1
  | finWait2
  | closing
  | timeWait
  | lastAck
deriving DecidableEq, Repr

/-- `struct uip_conn`. `tcpstateflags` is the state and `UIP_STOPPED`. -/
structure Conn (α : Type) where
  ripaddr : UInt16 × UInt16
  lport : UInt16
  rport : UInt16
  rcvNxt : Quad
  sndNxt : Quad
  len : UInt16
  mss : UInt16
  initialmss : UInt16
  sa : UInt8
  sv : UInt8
  rto : UInt8
  state : TcpState
  stopped : Bool
  timer : UInt8
  nrtx : UInt8
  appstate : α
deriving DecidableEq, Repr

/-- `uip_flags` -/
structure Flags where
  ackdata : Bool := false
  newdata : Bool := false
  rexmit : Bool := false
  poll : Bool := false
  close : Bool := false
  abort : Bool := false
  connected : Bool := false
  timedout : Bool := false
deriving DecidableEq, Repr

/-- What the application finds: the connection, `uip_flags`, `uip_len`, the buffer at `uip_appdata` and at `uip_urgdata`. -/
structure Call (α : Type) where
  conn : Conn α
  flags : Flags
  len : UInt16
  appdata : List UInt8
  urgdata : List UInt8 := []
deriving DecidableEq, Repr

/-- What it leaves: the connection's `appstate` and `UIP_STOPPED`, `uip_flags`, `uip_slen` and the memory at `uip_sappdata`. -/
structure Answer (α : Type) where
  appstate : α
  stopped : Bool
  flags : Flags
  slen : UInt16
  sappdata : List UInt8

/-- The globals of `uip.c`, with those of the application. -/
structure Stack (α γ : Type) where
  conns : List (Conn α)
  listenports : List UInt16
  hostaddr : UInt16 × UInt16
  iss : Quad
  ipid : UInt16
  app : γ

/-- `UIP_APPCALL` -/
abbrev App (α γ : Type) := Call α → γ → Answer α × γ

/-- A packet that is sent: the headers, what follows them and `uip_len`. -/
structure Packet where
  hdr : Hdr
  data : List UInt8
  len : UInt16
deriving DecidableEq, Repr

/-- What `uip_process` leaves: the globals, the packet that is sent when `uip_len > 0`, and the call it made. -/
structure Outcome (α γ : Type) where
  stack : Stack α γ
  sent : Option Packet
  call : Option (Nat × Call α)

variable {α γ : Type}

/-- `tcpstateflags == CLOSED` -/
def Conn.isClosed (c : Conn α) : Bool := c.state = .closed ∧ c.stopped = false

/-- `tcpstateflags == TIME_WAIT` -/
def Conn.isTimeWait (c : Conn α) : Bool := c.state = .timeWait ∧ c.stopped = false

/-- `tcpstateflags = state` -/
def Conn.goto (c : Conn α) (state : TcpState) : Conn α := { c with state := state, stopped := false }

/-- `uip_add_rcv_nxt` -/
def Conn.addRcvNxt (c : Conn α) (n : UInt16) : Conn α := { c with rcvNxt := uipAdd32 c.rcvNxt n }

/-- New data is counted. -/
def Conn.addData (c : Conn α) (newdata : Bool) (len : UInt16) : Conn α := if newdata then c.addRcvNxt len else c

/-- The segment is for this connection. -/
def Conn.owns (c : Conn α) (h : Hdr) : Bool :=
  !c.isClosed ∧ h.destport = c.lport ∧ h.srcport = c.rport ∧ h.srcipaddr = c.ripaddr

def uipRto : UInt8 := 3
def uipMaxrtx : UInt8 := 8
def uipMaxsynrtx : UInt8 := 3
def uipTimeWaitTimeout : UInt8 := 120
def uipTcpMss : UInt16 := 1446
def uipReceiveWindow : UInt16 := 3000

/-! ## Sending -/

/-- `goto drop`, with connection `i` left as `c` -/
def drop (s : Stack α γ) (call : Option (Nat × Call α)) : Outcome α γ := ⟨s, none, call⟩

/-- `tcp_send_noconn` with `uip_len = len` -/
def tcpSendNoconn (s : Stack α γ) (call : Option (Nat × Call α)) (buf : Hdr) (len : UInt16) (appdata : List UInt8) : Outcome α γ :=
  let buf := { buf with len := (hiByte len, loByte len), tcpchksum := 0 }
  let buf := { buf with tcpchksum := ~~~(uipTcpchksum buf appdata) }
  let ipid := s.ipid + 1
  let buf := { buf with
    vhl := 0x45, tos := 0, ipoffset := (0, 0), ttl := 255, ipid := (hiByte ipid, loByte ipid), ipchksum := 0 }
  let buf := { buf with ipchksum := ~~~(uipIpchksum buf) }
  ⟨{ s with ipid := ipid }, some ⟨buf, appdata.take (len.toNat - 40), len⟩, call⟩

/-- `tcp_send` for connection `c` -/
def tcpSend (s : Stack α γ) (call : Option (Nat × Call α)) (c : Conn α) (buf : Hdr) (len : UInt16) (appdata : List UInt8) :
    Outcome α γ :=
  let buf := { buf with
    ackno := c.rcvNxt, seqno := c.sndNxt, proto := 6, srcport := c.lport, destport := c.rport
    srcipaddr := s.hostaddr, destipaddr := c.ripaddr
    wnd := if c.stopped then (0, 0) else (hiByte uipReceiveWindow, loByte uipReceiveWindow) }
  tcpSendNoconn s call buf len appdata

/-- `tcp_send_noopts` with `BUF->flags = flags` -/
def tcpSendNoopts (s : Stack α γ) (call : Option (Nat × Call α)) (c : Conn α) (buf : Hdr) (flags : UInt8) (len : UInt16)
    (appdata : List UInt8) : Outcome α γ :=
  tcpSend s call c { buf with flags := flags, tcpoffset := 0x50 } len appdata

/-- `tcp_send_nodata` with `BUF->flags = flags` -/
def tcpSendNodata (s : Stack α γ) (call : Option (Nat × Call α)) (c : Conn α) (buf : Hdr) (flags : UInt8) (appdata : List UInt8) :
    Outcome α γ :=
  tcpSendNoopts s call c buf flags 40 appdata

/-- `tcp_send_synack`; `uip_appdata` is at `optdata` -/
def tcpSendSynack (s : Stack α γ) (c : Conn α) (buf : Hdr) : Outcome α γ :=
  tcpSend s none c { buf with flags := tcpSyn ||| tcpAck, tcpoffset := 0x60 } 44 [2, 4, hiByte uipTcpMss, loByte uipTcpMss]

/-- `reset` -/
def reset (s : Stack α γ) (buf : Hdr) (appdata : List UInt8) : Outcome α γ :=
  if buf.has tcpRst then drop s none
  else
    tcpSendNoconn s none { buf with
      flags := tcpRst ||| tcpAck, tcpoffset := 0x50, seqno := buf.ackno, ackno := buf.seqno.incr
      srcport := buf.destport, destport := buf.srcport, srcipaddr := buf.destipaddr, destipaddr := buf.srcipaddr } 40 appdata

/-! ## The application -/

section

variable (appcall : App α γ)

def Stack.put (s : Stack α γ) (i : Nat) (c : Conn α) : Stack α γ := { s with conns := s.conns.set i c }

/-- `UIP_APPCALL` for connection `i`: the answer, the connection and the globals after it -/
def callApp (s : Stack α γ) (call : Call α) : Answer α × Conn α × Stack α γ :=
  let (a, app) := appcall call s.app
  (a, { call.conn with appstate := a.appstate, stopped := a.stopped }, { s with app := app })

/-- `apprexmit` -/
def apprexmit (s : Stack α γ) (i : Nat) (call : Call α) (c : Conn α) (buf : Hdr) (a : Answer α) (slen : UInt16) : Outcome α γ :=
  let s := s.put i c
  if 0 < slen ∧ 0 < c.len then tcpSendNoopts s (some (i, call)) c buf (tcpAck ||| tcpPsh) (c.len + 40) a.sappdata
  else if a.flags.newdata then tcpSendNoopts s (some (i, call)) c buf tcpAck 40 a.sappdata
  else drop s (some (i, call))

/-- The length that is sent, and the one that is remembered. -/
def sendLen (c : Conn α) (a : Answer α) : UInt16 × UInt16 :=
  if 0 < a.slen then
    let len := if a.flags.ackdata then 0 else c.len
    if len = 0 then (min a.slen c.mss, min a.slen c.mss) else (len, len)
  else (0, 0)

/-- `appsend` -/
def appsend (s : Stack α γ) (i : Nat) (call : Call α) (c : Conn α) (buf : Hdr) (a : Answer α) : Outcome α γ :=
  if a.flags.abort then
    let c := c.goto .closed
    tcpSendNodata (s.put i c) (some (i, call)) c buf (tcpRst ||| tcpAck) call.appdata
  else if a.flags.close then
    let c := { c.goto .finWait1 with len := 1, nrtx := 0 }
    tcpSendNodata (s.put i c) (some (i, call)) c buf (tcpFin ||| tcpAck) call.appdata
  else
    let (slen, len) := sendLen c a
    apprexmit s i call { c with len := len, nrtx := 0 } buf a slen

/-- The application is called for connection `i`, and what it answers is sent. -/
def callAndSend (s : Stack α γ) (i : Nat) (call : Call α) (buf : Hdr) : Outcome α γ :=
  let (a, c, s) := callApp appcall s call
  appsend s i call c buf a

/-! ## The timer -/

/-- The timer and the number of retransmissions for the next one. -/
def Conn.backoff (c : Conn α) : Conn α := { c with timer := uipRto <<< (if 4 < c.nrtx then 4 else c.nrtx), nrtx := c.nrtx + 1 }

/-- It has been retransmitted often enough. -/
def Conn.tooOften (c : Conn α) : Bool :=
  c.nrtx = uipMaxrtx ∨ ((c.state = .synSent ∨ c.state = .synRcvd) ∧ c.stopped = false ∧ c.nrtx = uipMaxsynrtx)

/-- The connection is given up. -/
def giveUp (s : Stack α γ) (i : Nat) (c : Conn α) (buf : Hdr) (rest : List UInt8) : Outcome α γ :=
  let call := { conn := c.goto .closed, flags := { timedout := true }, len := 0, appdata := rest : Call α }
  let (_, c, s) := callApp appcall s call
  tcpSendNodata (s.put i c) (some (i, call)) c buf (tcpRst ||| tcpAck) rest

/-- What was sent last is sent again. -/
def retransmit (s : Stack α γ) (i : Nat) (c : Conn α) (buf : Hdr) (rest : List UInt8) : Outcome α γ :=
  match c.state with
  | .synRcvd => tcpSendSynack (s.put i c) c buf
  | .established =>
      let call := { conn := c, flags := { rexmit := true }, len := 0, appdata := rest : Call α }
      let (a, c, s) := callApp appcall s call
      apprexmit s i call c buf a a.slen
  | .finWait1 | .closing | .lastAck => tcpSendNodata (s.put i c) none c buf (tcpFin ||| tcpAck) rest
  | _ => drop (s.put i c) none

/-- `tcpstateflags` is `TIME_WAIT` or `FIN_WAIT_2`. -/
def Conn.isWaiting (c : Conn α) : Bool := (c.state = .timeWait ∨ c.state = .finWait2) ∧ c.stopped = false

/-- `uip_process(UIP_TIMER)` for connection `i`, which is `c`; `uip_buf` holds anything. -/
def timer (s : Stack α γ) (i : Nat) (c : Conn α) (buf : Hdr) (rest : List UInt8) : Outcome α γ :=
  let s := { s with iss := s.iss.incr }
  if c.isWaiting then
    let c := { c with timer := c.timer + 1 }
    drop (s.put i (if c.timer = uipTimeWaitTimeout then c.goto .closed else c)) none
  else if c.isClosed then drop s none
  else if c.len ≠ 0 then
    if c.timer = 0 then
      if c.tooOften then giveUp appcall s i { c with timer := c.timer - 1 } buf rest
      else retransmit appcall s i c.backoff buf rest
    else drop (s.put i { c with timer := c.timer - 1 }) none
  else if c.state = .established then
    callAndSend appcall s i { conn := c, flags := { poll := true }, len := 0, appdata := rest } buf
  else drop s none

end

/-! ## The options of a SYN -/

/-- The option loop at offset `c`: `none` when it has not ended after `fuel` rounds, else the MSS if one was found. -/
def optionLoop (opts : List UInt8) (limit : Nat) : Nat → UInt8 → Option (Option UInt16)
  | 0, _ => none
  | fuel + 1, c =>
      if c.toNat < limit then
        let opt := opts.getD c.toNat 0
        let optlen := opts.getD (c.toNat + 1) 0
        if opt = 0 then some none
        else if opt = 1 then optionLoop opts limit fuel (c + 1)
        else if opt = 2 ∧ optlen = 4 then some (some (be16 (opts.getD (c.toNat + 2) 0) (opts.getD (c.toNat + 3) 0)))
        else if optlen = 0 then some none
        else optionLoop opts limit fuel (c + optlen)
      else some none

/-- `(tcpoffset >> 4) << 2` -/
def Hdr.tcpLen (h : Hdr) : UInt8 := h.tcpoffset >>> 4 <<< 2

/-- The bytes of the options. -/
def Hdr.optLen (h : Hdr) : Nat := if 0x50 < h.tcpoffset &&& 0xf0 then ((h.tcpoffset >>> 4).toNat - 5) * 4 else 0

/-- The options of a SYN are parsed; `none` when the loop does not end. -/
def parseMss (h : Hdr) (data : List UInt8) (c : Conn α) : Option (Conn α) :=
  (optionLoop data h.optLen 257 0).map fun mss =>
    mss.elim c fun m => { c with initialmss := min m uipTcpMss, mss := min m uipTcpMss }

/-! ## New connections -/

/-- The search for an unused connection; `best` is the oldest one in `TIME_WAIT` so far, with its timer. -/
def findUnused : List (Conn α) → Nat → Option (Nat × UInt8) → Option Nat
  | [], _, best => best.map (·.1)
  | c :: rest, i, best =>
      if c.isClosed then some i
      else if c.isTimeWait ∧ best.all (fun b => b.2 < c.timer) then findUnused rest (i + 1) (some (i, c.timer))
      else findUnused rest (i + 1) best

/-- The fields of a new connection. -/
def newConn (s : Stack α γ) (h : Hdr) (c : Conn α) : Conn α :=
  Conn.addRcvNxt { c.goto .synRcvd with
    rto := uipRto, timer := uipRto, sa := 0, sv := 4, nrtx := 0
    lport := h.destport, rport := h.srcport, ripaddr := h.srcipaddr
    sndNxt := s.iss, len := 1, rcvNxt := h.seqno } 1

/-- `found_listen` -/
def foundListen (s : Stack α γ) (h : Hdr) (data : List UInt8) : Option (Outcome α γ) :=
  match findUnused s.conns 0 none with
  | none => some (drop s none)
  | some i =>
      match s.conns[i]? with
      | none => some (drop s none)
      | some c => (parseMss h data (newConn s h c)).map fun c => tcpSendSynack (s.put i c) c h

/-! ## Segments -/

/-- A value as `signed char`. -/
def schar (n : Int) : Int := (n + 128) % 256 - 128

/-- A value as `u8_t`. -/
def u8 (n : Int) : UInt8 := UInt8.ofNat (n % 256).toNat

/-- The estimate of the round trip time. -/
def Conn.estimate (c : Conn α) : Conn α :=
  let m := schar (c.rto.toNat - c.timer.toNat)
  let m := schar (m - (c.sa >>> 3).toNat)
  let sa := u8 (c.sa.toNat + m)
  let m := if m < 0 then schar (-m) else m
  let m := schar (m - (c.sv >>> 2).toNat)
  let sv := u8 (c.sv.toNat + m)
  { c with sa := sa, sv := sv, rto := (sa >>> 3) + sv }

/-- An acknowledgement of everything outstanding; `snd_nxt` is advanced and `len` stays. -/
def Conn.acked (c : Conn α) : Conn α :=
  let c := { c with sndNxt := uipAdd32 c.sndNxt c.len }
  let c := if c.nrtx = 0 then c.estimate else c
  { c with timer := c.rto }

/-- The segment acknowledges what is outstanding. -/
def Conn.isAcked (c : Conn α) (h : Hdr) : Bool := h.has tcpAck ∧ c.len ≠ 0 ∧ h.ackno = uipAdd32 c.sndNxt c.len

/-- The MSS for the window the peer announces. -/
def Conn.window (c : Conn α) (h : Hdr) : Conn α :=
  let wnd := be16 h.wnd.1 h.wnd.2
  { c with mss := if c.initialmss < wnd ∨ wnd = 0 then c.initialmss else wnd }

section

variable (appcall : App α γ)

/-- `case SYN_RCVD` -/
def synRcvd (s : Stack α γ) (i : Nat) (c : Conn α) (h : Hdr) (data : List UInt8) (len : UInt16) (ackdata : Bool) : Outcome α γ :=
  if ackdata then
    let c := ({ c.goto .established with len := 0 } : Conn α).addData (0 < len) len
    callAndSend appcall s i { conn := c, flags := { connected := true, newdata := 0 < len }, len := len, appdata := data } h
  else drop (s.put i c) none

/-- The part of the data that is skipped as urgent. Without `TCP_URG` the urgent pointer is taken off too. -/
def urgLen (h : Hdr) (len : UInt16) : UInt16 :=
  if h.has tcpUrg then
    let urglen := (loByte (be16 h.urgp.1 h.urgp.2)).toUInt16
    if len < urglen then len else urglen
  else be16 h.urgp.1 h.urgp.2

/-- `case ESTABLISHED` -/
def established (s : Stack α γ) (i : Nat) (c : Conn α) (h : Hdr) (data : List UInt8) (len : UInt16) (ackdata : Bool) :
    Outcome α γ :=
  if h.has tcpFin then
    if c.len ≠ 0 then drop (s.put i c) none
    else
      let call := { conn := c.addRcvNxt (1 + len), flags := { close := true, newdata := 0 < len }, len := len,
                    appdata := data : Call α }
      let (_, c, s) := callApp appcall s call
      let c := { c.goto .lastAck with len := 1, nrtx := 0 }
      tcpSendNodata (s.put i c) (some (i, call)) c h (tcpFin ||| tcpAck) data
  else
    let urglen := urgLen h len
    let c := if h.has tcpUrg then c.addRcvNxt urglen else c
    let len := len - urglen
    let newdata : Bool := 0 < len ∧ c.stopped = false
    let c := c.addData newdata len
    let c := c.window h
    if newdata ∨ ackdata then
      callAndSend appcall s i { conn := c, flags := { newdata := newdata, ackdata := ackdata }, len := len,
                                appdata := data.drop urglen.toNat
                                urgdata := if h.has tcpUrg then data.take urglen.toNat else [] } h
    else drop (s.put i c) none

/-- The end of a connection: the application is told, and an acknowledgement is sent. -/
def closeAndAck (s : Stack α γ) (i : Nat) (c : Conn α) (h : Hdr) (data : List UInt8) (len : UInt16) : Outcome α γ :=
  let call := { conn := c, flags := { close := true }, len := len, appdata := data : Call α }
  let (_, c, s) := callApp appcall s call
  tcpSendNodata (s.put i c) (some (i, call)) c h tcpAck data

/-- `case FIN_WAIT_1` -/
def finWait1 (s : Stack α γ) (i : Nat) (c : Conn α) (h : Hdr) (data : List UInt8) (len : UInt16) (ackdata : Bool) : Outcome α γ :=
  let c := c.addData (0 < len) len
  if h.has tcpFin then
    let c := if ackdata then { c.goto .timeWait with timer := 0, len := 0 } else c.goto .closing
    closeAndAck appcall s i (c.addRcvNxt 1) h data len
  else if ackdata then drop (s.put i { c.goto .finWait2 with len := 0 }) none
  else if 0 < len then tcpSendNodata (s.put i c) none c h tcpAck data
  else drop (s.put i c) none

/-- `case FIN_WAIT_2` -/
def finWait2 (s : Stack α γ) (i : Nat) (c : Conn α) (h : Hdr) (data : List UInt8) (len : UInt16) : Outcome α γ :=
  let c := c.addData (0 < len) len
  if h.has tcpFin then
    closeAndAck appcall s i (({ c.goto .timeWait with timer := 0 } : Conn α).addRcvNxt 1) h data len
  else if 0 < len then tcpSendNodata (s.put i c) none c h tcpAck data
  else drop (s.put i c) none

/-- `case LAST_ACK` -/
def lastAck (s : Stack α γ) (i : Nat) (c : Conn α) (data : List UInt8) (len : UInt16) (ackdata : Bool) : Outcome α γ :=
  if ackdata then
    let call := { conn := c.goto .closed, flags := { close := true }, len := len, appdata := data : Call α }
    let (_, c, s) := callApp appcall s call
    drop (s.put i c) (some (i, call))
  else drop (s.put i c) none

/-- `found`: a segment for connection `i`, which is `c`; `uip_len` is the length of the packet. -/
def found (s : Stack α γ) (i : Nat) (c : Conn α) (h : Hdr) (data : List UInt8) (uipLen : UInt16) : Outcome α γ :=
  if h.has tcpRst then
    let call := { conn := c.goto .closed, flags := { abort := true }, len := uipLen, appdata := data : Call α }
    let (_, c, s) := callApp appcall s call
    drop (s.put i c) (some (i, call))
  else
    let len := uipLen - h.tcpLen.toUInt16 - 20
    if 0 < len ∧ h.seqno ≠ c.rcvNxt then tcpSendNodata s none c h tcpAck data
    else
      let ackdata := c.isAcked h
      let c := if ackdata then c.acked else c
      match c.state with
      | .synRcvd => synRcvd appcall s i c h data len ackdata
      | .established => established appcall s i c h data len ackdata
      | .lastAck => lastAck appcall s i c data len ackdata
      | .finWait1 => finWait1 appcall s i c h data len ackdata
      | .finWait2 => finWait2 appcall s i c h data len
      | .timeWait => tcpSendNodata (s.put i c) none c h tcpAck data
      | .closing => drop (s.put i (if ackdata then { c.goto .timeWait with timer := 0 } else c)) none
      | _ => drop (s.put i c) none

/-- `tcp_input` -/
def tcpInput (s : Stack α γ) (h : Hdr) (data : List UInt8) (uipLen : UInt16) : Option (Outcome α γ) :=
  if uipTcpchksum h data ≠ 0xffff then some (drop s none)
  else
    match s.conns.findIdx? fun c => c.owns h with
    | some i =>
        match s.conns[i]? with
        | some c => some (found appcall s i c h data uipLen)
        | none => some (drop s none)
    | none =>
        if h.flags &&& tcpCtl = tcpSyn ∧ h.destport ∈ s.listenports then foundListen s h data
        else some (reset s h data)

/-- The ICMP header is laid over the TCP header: type and code are `srcport`, the checksum is `destport`. -/
def icmpInput (s : Stack α γ) (h : Hdr) (data : List UInt8) (uipLen : UInt16) : Outcome α γ :=
  if loByte h.srcport ≠ 8 then drop s none
  else
    let chksum := if htons (0xffff - 0x800) ≤ h.destport then h.destport + htons 0x800 + 1 else h.destport + htons 0x800
    let buf := { h with srcport := h.srcport &&& 0xff00, destport := chksum, srcipaddr := h.destipaddr, destipaddr := h.srcipaddr }
    ⟨s, some ⟨buf, data.take (uipLen.toNat - 40), uipLen⟩, none⟩

/-- `uip_len` becomes the length in the header, one byte after the other. -/
def fixLen (h : Hdr) (len : UInt16) : UInt16 :=
  let len := if h.len.1 ≠ hiByte len then be16 h.len.1 (loByte len) else len
  if h.len.2 ≠ loByte len then be16 (hiByte len) h.len.2 else len

/-- `uip_process(UIP_DATA)`: `h` and `data` are in `uip_buf`, `uip_len` is `len`. `none` is a call that does not return. -/
def uipInput (s : Stack α γ) (h : Hdr) (data : List UInt8) (len : UInt16) : Option (Outcome α γ) :=
  if h.vhl ≠ 0x45 then some (drop s none)
  else if h.ipoffset.1 &&& 0x3f ≠ 0 ∨ h.ipoffset.2 ≠ 0 then some (drop s none)
  else if h.destipaddr ≠ s.hostaddr then some (drop s none)
  else if uipIpchksum h ≠ 0xffff then some (drop s none)
  else if h.proto = 6 then tcpInput appcall s h data (fixLen h len)
  else if h.proto ≠ 1 then some (drop s none)
  else some (icmpInput s h data (fixLen h len))

/-! ## Runs -/

/-- `uip_init`; the address is set later. -/
def uipInit (s : Stack α γ) : Stack α γ :=
  { s with conns := s.conns.map fun c => c.goto .closed, listenports := s.listenports.map fun _ => 0, hostaddr := (0, 0) }

/-- `uip_listen` -/
def uipListen (port : UInt16) : List UInt16 → List UInt16
  | [] => []
  | p :: rest => if p = 0 then port :: rest else p :: uipListen port rest

/-- What happens to the stack: a packet arrives, or the timer of a connection, with anything in `uip_buf`. -/
inductive Ev where
  | packet (h : Hdr) (data : List UInt8) (len : UInt16)
  | timer (i : Nat) (buf : Hdr) (rest : List UInt8)

/-- `uip_input` and `uip_periodic` -/
def step (s : Stack α γ) : Ev → Option (Outcome α γ)
  | .packet h data len => uipInput appcall s h data len
  | .timer i buf rest => some ((s.conns[i]?).elim (drop s none) fun c => timer appcall s i c buf rest)

/-- The stack after the events, with the calls of the application; `none` when one of them does not return. -/
def run (s : Stack α γ) (calls : List (Nat × Call α)) : List Ev → Option (Stack α γ × List (Nat × Call α))
  | [] => some (s, calls)
  | ev :: evs => (step appcall s ev).bind fun o => run o.stack (calls ++ o.call.toList) evs

end

/-! ## Numbers -/

theorem Quad.bytes_lt (q : Quad) : q.b0.toNat < 256 ∧ q.b1.toNat < 256 ∧ q.b2.toNat < 256 ∧ q.b3.toNat < 256 :=
  ⟨q.b0.toNat_lt, q.b1.toNat_lt, q.b2.toNat_lt, q.b3.toNat_lt⟩

theorem Quad.toNat_lt (q : Quad) : q.toNat < 2 ^ 32 := by
  have := q.bytes_lt
  simp only [Quad.toNat]
  omega

theorem succ_toNat (b : UInt8) : (b + 1).toNat = (b.toNat + 1) % 256 := by
  rw [UInt8.toNat_add]
  rfl

theorem succ_eq_zero {b : UInt8} : b + 1 = 0 ↔ b.toNat = 255 := by
  have := b.toNat_lt
  rw [← UInt8.toNat_inj, succ_toNat]
  simp only [UInt8.reduceToNat]
  omega

theorem Quad.carry1_toNat (q : Quad) : q.carry1.toNat = (q.toNat + 2 ^ 16) % 2 ^ 32 := by
  have := q.bytes_lt
  simp only [Quad.carry1, succ_eq_zero]
  split
  all_goals
    simp only [Quad.toNat, succ_toNat] at *
    omega

theorem Quad.carry2_toNat (q : Quad) : q.carry2.toNat = (q.toNat + 2 ^ 8) % 2 ^ 32 := by
  have := q.bytes_lt
  simp only [Quad.carry2, succ_eq_zero]
  split
  · rw [Quad.carry1_toNat]
    simp only [Quad.toNat, succ_toNat] at *
    omega
  · simp only [Quad.toNat, succ_toNat] at *
    omega

theorem bytes_toNat (n : UInt16) : n.toNat = 256 * (hiByte n).toNat + (loByte n).toNat := by
  have := n.toNat_lt
  have hshift : (n >>> 8).toNat = n.toNat / 256 := by
    rw [UInt16.toNat_shiftRight]
    exact Nat.shiftRight_eq_div_pow _ 8
  simp only [hiByte, loByte, UInt16.toNat_toUInt8, hshift]
  omega

@[simp] theorem Quad.carry1_b3 (q : Quad) : q.carry1.b3 = q.b3 := by
  rw [Quad.carry1]
  split <;> rfl

/-- The addition of single bytes is the addition of the numbers. -/
theorem uipAdd32_toNat (q : Quad) (n : UInt16) : (uipAdd32 q n).toNat = (q.toNat + n.toNat) % 2 ^ 32 := by
  have := bytes_toNat n
  have := (hiByte n).toNat_lt
  have := (loByte n).toNat_lt
  have := q.bytes_lt
  simp only [uipAdd32, UInt8.lt_iff_toNat_lt]
  -- the carries are those out of byte 2 and out of byte 3
  split
  · split
    all_goals
      simp only [Quad.carry1_b3, Quad.carry2_toNat, Quad.carry1_toNat] at *
      simp only [Quad.toNat, UInt8.toNat_add] at *
      omega
  · split
    · simp only [Quad.carry2_toNat] at *
      simp only [Quad.toNat, UInt8.toNat_add] at *
      omega
    · simp only [Quad.toNat, UInt8.toNat_add] at *
      omega

theorem be16_toNat (hi lo : UInt8) : (be16 hi lo).toNat = 256 * hi.toNat + lo.toNat := by
  have hhi := hi.toNat_lt
  have hlo := lo.toNat_lt
  have hshift : (hi.toUInt16 <<< 8).toNat = hi.toNat * 2 ^ 8 := by
    rw [UInt16.toNat_shiftLeft, UInt8.toNat_toUInt16]
    exact (congrArg (· % 2 ^ 16) (Nat.shiftLeft_eq _ 8)).trans (Nat.mod_eq_of_lt (by omega))
  rw [be16, UInt16.toNat_or, hshift, UInt8.toNat_toUInt16, ← Nat.shiftLeft_eq, ← Nat.shiftLeft_add_eq_or_of_lt hlo,
    Nat.shiftLeft_eq]
  omega

theorem hiByte_be16 (hi lo : UInt8) : hiByte (be16 hi lo) = hi := by
  have := bytes_toNat (be16 hi lo)
  have := be16_toNat hi lo
  have := hi.toNat_lt
  have := lo.toNat_lt
  have := (loByte (be16 hi lo)).toNat_lt
  rw [← UInt8.toNat_inj]
  omega

theorem loByte_be16 (hi lo : UInt8) : loByte (be16 hi lo) = lo := by
  have := bytes_toNat (be16 hi lo)
  have := be16_toNat hi lo
  have := hi.toNat_lt
  have := lo.toNat_lt
  have := (loByte (be16 hi lo)).toNat_lt
  rw [← UInt8.toNat_inj]
  omega

theorem be16_bytes (n : UInt16) : be16 (hiByte n) (loByte n) = n := by
  rw [← UInt16.toNat_inj, be16_toNat, bytes_toNat n]

end Uboot.Uip
