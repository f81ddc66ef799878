import Uboot.Net.Quiescent

/-!
# TFTP and ping in the network loop

The client of `net/tftp.c` and `net/ping.c` as code of the loop. The options, the timeouts and the name of the file are
in the variables of the client. A timeout of TFTP never leaves the network stack quiescent.
-/

namespace Uboot.Net

open Tftp

inductive Handler where
  | tftpHandler
  | tftpTimeout
  | icmpHandler
  | pingTimeout
  deriving DecidableEq, Repr

/-- The client, `save_size`, the server that the name of the file gives and `TftpRRQTimeoutCountMax`. -/
structure Vars where
  client : Client
  saveSize : Nat
  bootFileIp : Option Nat
  tftpRemoteIp : Nat
  tftpRrqTimeoutCountMax : Nat

/-- What `net_set_state` and `NetStartAgain` are called for. -/
def stateCalls : NetState → List (Call Handler)
  | .cont => []
  | .success => [.setState .success]
  | .fail => [.setState .fail]
  | .restart => [.startAgain]

/-- `TftpStart` -/
def tftpStartBody (writing : Bool) (s : Stack Vars Handler) : Vars × List (Call Handler) :=
  let msecs := max 1000 s.vars.client.tftpTimeoutMSecs
  let remoteIp := s.vars.bootFileIp.getD s.netServerIp
  let c := (tftpStart { s.vars.client with
    tftpTimeoutMSecs := msecs
    tftpTimeoutCountMax := s.vars.tftpRrqTimeoutCountMax } writing s.vars.saveSize (1024 + s.now % 3072)).1
  ({ s.vars with client := c, tftpRemoteIp := remoteIp },
    [.setXferSize c.netBootFileXferSize, .setTimeout msecs (some .tftpTimeout), .setUdpHandler (some .tftpHandler),
      .setIcmpHandler (some .icmpHandler), .clearServerEther, .sendUdp remoteIp])

/-- `TftpHandler` takes a block and comes to `NetSetTimeout`. -/
def takesBlock (c : Client) (p : UdpPacket) : Bool :=
  p.dest = c.tftpOurPort ∧ (c.tftpState = .sendRrq ∨ p.src = c.tftpRemotePort ∨ c.tftpState = .recvWrq ∨
    c.tftpState = .sendWrq) ∧ 4 ≤ p.len ∧ ntohs p.pkt = 3 ∧
      if c.tftpState = .sendRrq ∨ c.tftpState = .oack ∨ c.tftpState = .recvWrq then ntohs (p.pkt.drop 2) = 1
      else ntohs (p.pkt.drop 2) ≠ c.tftpLastBlock

/-- `TftpHandler` -/
def tftpHandlerBody (p : UdpPacket) (s : Stack Vars Handler) : Vars × List (Call Handler) :=
  let c := { s.vars.client with netBootFileXferSize := s.netBootFileXferSize, netState := .cont }
  let (c', out) := tftpHandler c p.pkt p.dest p.src p.len
  ({ s.vars with client := c' },
    (if takesBlock c p then [.setTimeout c.tftpTimeoutMSecs (some .tftpTimeout)] else []) ++
      .setXferSize c'.netBootFileXferSize ::
        ((if out.isSome then [.sendUdp s.vars.tftpRemoteIp] else []) ++ stateCalls c'.netState))

/-- `TftpTimeout` -/
def tftpTimeoutBody (s : Stack Vars Handler) : Vars × List (Call Handler) :=
  let c := { s.vars.client with netBootFileXferSize := s.netBootFileXferSize, netState := .cont }
  let (c', out) := tftpTimeout c
  ({ s.vars with client := c' },
    if c'.netState = .restart then [.startAgain]
    else .setTimeout c.tftpTimeoutMSecs (some .tftpTimeout) :: if out.isSome then [.sendUdp s.vars.tftpRemoteIp] else [])

/-- TFTP and ping; no other protocol is configured. -/
def transfers : Code Vars Handler where
  start p s :=
    match p with
    | .tftpget => tftpStartBody false s
    | .tftpput => tftpStartBody true s
    | .ping => (s.vars, [.setTimeout 10000 (some .pingTimeout), .sendPing])
    | _ => (s.vars, [])
  udp f p s :=
    match f with
    | .tftpHandler => tftpHandlerBody p s
    | _ => (s.vars, [])
  arp _ _ s := (s.vars, [])
  icmp f p s :=
    match f with
    | .icmpHandler => (s.vars, if p.type = 3 ∧ p.code = 3 then [.startAgain] else [])
    | _ => (s.vars, [])
  timeout f s :=
    match f with
    | .tftpTimeout => tftpTimeoutBody s
    | .pingTimeout => (s.vars, [.setState .fail])
    | _ => (s.vars, [])

section
variable {s : Stack Vars Handler}

/-- `ping_timeout` leaves the other handlers as they are. -/
theorem pingTimeout_quiescent_iff : Quiescent (runTimeHandler transfers (.proto .pingTimeout) s) ↔
    s.udpPacketHandler = none ∧ s.arpPacketHandler = none := by
  refine ⟨fun h => ⟨h.udp, h.arp⟩, fun h => ⟨rfl, h.1, h.2⟩⟩

theorem setTimeout_udpPacketHandler (s : Stack Vars Handler) (iv : Nat) (f : Option (TimeHandler Handler)) :
    (s.netSetTimeout iv f).udpPacketHandler = s.udpPacketHandler := by
  unfold Stack.netSetTimeout
  split <;> rfl

theorem sendUdp_udpPacketHandler (s : Stack Vars Handler) (dest : Nat) :
    (s.netSendUdpPacket dest).udpPacketHandler = s.udpPacketHandler :=
  congrArg (fun x => x.2.1) (netSendUdpPacket_handlers s dest)

/-- `TftpTimeout` keeps `TftpHandler`, or `NetStartAgain` has armed its own timer. -/
theorem tftpTimeout_not_quiescent (h : s.udpPacketHandler = some .tftpHandler) :
    ¬ Quiescent (runTimeHandler transfers (.proto .tftpTimeout) s) := by
  intro hq
  have hbody : (tftpTimeoutBody { s with timeHandler := none }).2 = [.startAgain] ∨
      ∃ iv f rest, (tftpTimeoutBody { s with timeHandler := none }).2 = .setTimeout iv f :: rest ∧
        (rest = [] ∨ ∃ dest, rest = [.sendUdp dest]) := by
    unfold tftpTimeoutBody
    dsimp only
    split
    next => exact Or.inl rfl
    next =>
      refine Or.inr ⟨_, _, _, rfl, ?_⟩
      split
      next => exact Or.inr ⟨_, rfl⟩
      next => exact Or.inl rfl
  obtain ⟨u, hu, hrun⟩ : ∃ u : Stack Vars Handler, u.udpPacketHandler = some .tftpHandler ∧
      runTimeHandler transfers (.proto .tftpTimeout) s =
        (tftpTimeoutBody { s with timeHandler := none }).2.foldl Stack.call u :=
    ⟨{ s with timeHandler := none, vars := (tftpTimeoutBody { s with timeHandler := none }).1 }, h, rfl⟩
  rw [hrun] at hq
  rcases hbody with hbody | ⟨iv, f, rest, hbody, hrest⟩
  · rw [hbody, List.foldl_cons, List.foldl_nil, Stack.call] at hq
    rcases netStartAgain_cases u with hkeep | harm
    · have hudp := ((quiescent_congr hkeep).mp hq).udp
      rw [hu] at hudp
      cases hudp
    · have htimer := (congrArg Prod.fst harm).symm.trans hq.timeout
      cases htimer
  · have hudp := hq.udp
    rw [hbody] at hudp
    rcases hrest with rfl | ⟨dest, rfl⟩
    · rw [List.foldl_cons, List.foldl_nil, Stack.call, setTimeout_udpPacketHandler, hu] at hudp
      cases hudp
    · rw [List.foldl_cons, List.foldl_cons, List.foldl_nil, Stack.call, Stack.call, sendUdp_udpPacketHandler,
        setTimeout_udpPacketHandler, hu] at hudp
      cases hudp

end

/-- A stack with one device; the server does not answer. -/
def sampleStack : Stack Vars Handler where
  netState := .cont
  timeHandler := none
  timeStart := 0
  timeDelta := 0
  udpPacketHandler := none
  arpPacketHandler := none
  packetIcmpHandler := none
  netRestartWrap := false
  netRestarted := false
  netDevExists := false
  netTryCount := 0
  netOurIp := 0
  netServerIp := 0
  netOurGatewayIp := 0
  netOurSubnetMask := 0
  netOurDnsIp := 0
  netNtpServerIp := 0
  netPingIp := 0
  netOurEther := []
  netBootFileXferSize := 0
  netServerEther := false
  netArpWaitPacketIp := 0
  netArpWaitPacketMac := false
  netArpWaitReplyIp := 0
  netArpWaitTry := 0
  netArpWaitTimerStart := 0
  firstCall := true
  env := ⟨0xC0A80101, 0xC0A80102, 0, 0, 0, none, none, some 0, true⟩
  eth := ⟨[[2, 0, 0, 0, 0, 1]], 0, none, fun _ => true, 0⟩
  now := 0
  vars :=
    { client :=
        { tftpState := .sendRrq
          tftpBlock := 0
          tftpLastBlock := 0
          tftpBlockWrapOffset := 0
          tftpBlkSize := 512
          tftpBlkSizeOption := 1468
          tftpTimeoutCount := 0
          tftpTimeoutCountMax := timeoutCountDefault
          tftpTimeoutMSecs := 5000
          tftpOurPort := 0
          tftpRemotePort := 0
          tftpWriting := false
          tftpFinalBlock := false
          tftpFilename := [97]
          loadAddr := 0x84000000
          saveAddr := 0
          netBootFileXferSize := 0
          netState := .cont
          mem := fun _ => 0 }
      saveSize := 0
      bootFileIp := none
      tftpRemoteIp := 0
      tftpRrqTimeoutCountMax := timeoutCountDefault }

/-- The value that is returned, and the handlers that are left. -/
def Result.left {σ H : Type} : Result σ H → Option (Int × Option (TimeHandler H) × Option H × Option H × Bool)
  | .returned ret s => some (ret, s.handlers)
  | .running _ => none

/-- The first timeout of a download ends the loop; `TftpTimeout` is armed and `TftpHandler` waits for packets. -/
theorem tftp_timeout_leaves_handlers :
    (netLoop transfers .tftpget [⟨[], false, 6000⟩] sampleStack).left =
        some (-1, some (.proto .tftpTimeout), some .tftpHandler, none, true) ∧
      ¬ LeavesQuiescent (netLoop transfers .tftpget [⟨[], false, 6000⟩] sampleStack) := by
  have hleft : (netLoop transfers .tftpget [⟨[], false, 6000⟩] sampleStack).left =
      some (-1, some (.proto .tftpTimeout), some .tftpHandler, none, true) := by
    decide
  refine ⟨hleft, fun h => ?_⟩
  cases hres : netLoop transfers .tftpget [⟨[], false, 6000⟩] sampleStack with
  | running s => rw [hres] at hleft; cases hleft
  | returned ret s =>
      rw [hres] at hleft
      simp only [Result.left, Stack.handlers, Option.some.injEq, Prod.mk.injEq] at hleft
      have hudp := (h ret s hres hleft.2.2.2.2).udp
      rw [hleft.2.2.1] at hudp
      cases hudp

end Uboot.Net
