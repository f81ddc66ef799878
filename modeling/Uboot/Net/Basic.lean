import Uboot.Lib.Strings
import Uboot.Tftp.Basic
import Uboot.Vsprintf.Basic

/-!
# The network loop

`NetLoop` with the handlers, the timer, ARP and the choice of a device, after `net/net.c`, `net/arp.c` and `net/eth.c`.
The code of the protocols is a parameter: it is called at the start, for a packet and when the timer runs out, and does
its own work and a list of calls into `net.c`, which owns the handlers. An `unsigned long` has 32 bits. What is sent and
the state of a device are left out.
-/

namespace Uboot.Net

open Lib Vsprintf

/-- `proto_t` -/
inductive Proto where
  | bootp
  | rarp
  | arp
  | tftpget
  | dhcp
  | ping
  | dns
  | nfs
  | cdp
  | netcons
  | sntp
  | tftpsrv
  | tftpput
  | linklocal
  deriving DecidableEq, Repr

export Tftp (NetState)

/-- A timeout handler: that of `NetStartAgain`, or one of a protocol. -/
inductive TimeHandler (H : Type) where
  | startAgainTimeout
  | proto (f : H)
  deriving DecidableEq, Repr

/-- The devices are a ring. `answers` are those of the drivers when they are initialised, `asked` of them are used up. -/
structure Eth where
  enetaddr : List (List UInt8)
  ethCurrent : Nat
  firstFailed : Option Nat
  answers : Nat → Bool
  asked : Nat

/-- The environment; `ethact` is the number of a device. -/
structure Env where
  ipaddr : Nat
  serverip : Nat
  gatewayip : Nat
  netmask : Nat
  dnsip : Nat
  netretry : Option (List UInt8)
  ethrotate : Option (List UInt8)
  ethact : Option Nat
  changed : Bool

/-- The variables of the network stack. `H` are the functions of the protocols and `σ` their variables; a handler that is
not set is the dummy handler. `netServerEther` tells whether the address of the server is known, and
`netArpWaitPacketMac` whether ARP is asked for it. -/
structure Stack (σ H : Type) where
  netState : NetState
  timeHandler : Option (TimeHandler H)
  timeStart : Nat
  timeDelta : Nat
  udpPacketHandler : Option H
  arpPacketHandler : Option H
  packetIcmpHandler : Option H
  netRestartWrap : Bool
  netRestarted : Bool
  netDevExists : Bool
  netTryCount : Nat
  netOurIp : Nat
  netServerIp : Nat
  netOurGatewayIp : Nat
  netOurSubnetMask : Nat
  netOurDnsIp : Nat
  netNtpServerIp : Nat
  netPingIp : Nat
  netOurEther : List UInt8
  netBootFileXferSize : Nat
  netServerEther : Bool
  netArpWaitPacketIp : Nat
  netArpWaitPacketMac : Bool
  netArpWaitReplyIp : Nat
  netArpWaitTry : Nat
  netArpWaitTimerStart : Nat
  firstCall : Bool
  env : Env
  eth : Eth
  now : Nat
  vars : σ

/-- What the code of a protocol asks of `net.c`. `sendUdp` sends a packet to the server, `sendPing` is `ping_send`. -/
inductive Call (H : Type) where
  | setUdpHandler (f : Option H)
  | setArpHandler (f : Option H)
  | setIcmpHandler (f : Option H)
  | setTimeout (iv : Nat) (f : Option H)
  | setState (state : NetState)
  | startAgain
  | sendUdp (dest : Nat)
  | sendPing
  | clearServerEther
  | setXferSize (size : Nat)
  | setOurIp (ip : Nat)
  | setServerIp (ip : Nat)
  | setGatewayIp (ip : Nat)
  | setSubnetMask (ip : Nat)
  | setDnsIp (ip : Nat)

structure UdpPacket where
  pkt : List UInt8
  dest : Nat
  sip : Nat
  src : Nat
  len : Nat

structure IcmpPacket where
  type : Nat
  code : Nat
  sip : Nat
  pkt : List UInt8

/-- The code of the protocols. -/
structure Code (σ H : Type) where
  start : Proto → Stack σ H → σ × List (Call H)
  udp : H → UdpPacket → Stack σ H → σ × List (Call H)
  arp : H → Nat → Stack σ H → σ × List (Call H)
  icmp : H → IcmpPacket → Stack σ H → σ × List (Call H)
  timeout : H → Stack σ H → σ × List (Call H)

namespace Stack

variable {σ H : Type} (s : Stack σ H)

/-! ## Devices -/

/-- `eth_current_changed` -/
def ethCurrentChanged : Stack σ H :=
  if s.eth.enetaddr = [] then
    if s.env.ethact = none then s else { s with env := { s.env with ethact := none, changed := true } }
  else if s.env.ethact = some s.eth.ethCurrent then s
  else { s with env := { s.env with ethact := some s.eth.ethCurrent, changed := true } }

/-- `eth_try_another` -/
def ethTryAnother (firstRestart : Bool) : Stack σ H :=
  if s.env.ethrotate = some (ascii "no") then s
  else if s.eth.enetaddr = [] then s
  else
    let firstFailed := if firstRestart then some s.eth.ethCurrent else s.eth.firstFailed
    let current := (s.eth.ethCurrent + 1) % s.eth.enetaddr.length
    let s := ethCurrentChanged { s with eth := { s.eth with firstFailed := firstFailed, ethCurrent := current } }
    if firstFailed = some current then { s with netRestartWrap := true } else s

/-- `eth_set_current` -/
def ethSetCurrent : Stack σ H :=
  if s.eth.enetaddr = [] then s
  else
    match s.env.ethact with
    | none => ethCurrentChanged s
    | some act =>
        if act < s.eth.enetaddr.length then { s with eth := { s.eth with ethCurrent := act } } else ethCurrentChanged s

/-- The loop of `eth_init`, with the number of devices that are left. -/
def ethInitLoop (oldCurrent : Nat) : Nat → Stack σ H → Stack σ H × Bool
  | 0, s => (s, false)
  | n + 1, s =>
      let ok := s.eth.answers s.eth.asked
      let s := { s with eth := { s.eth with asked := s.eth.asked + 1 } }
      if ok then (s, true)
      else
        let s := ethTryAnother s false
        if s.eth.ethCurrent = oldCurrent then (s, false) else ethInitLoop oldCurrent n s

/-- `eth_init` -/
def ethInit : Stack σ H × Bool := ethInitLoop s.eth.ethCurrent s.eth.enetaddr.length s

/-! ## Handlers -/

/-- `net_set_udp_handler` -/
def netSetUdpHandler (f : Option H) : Stack σ H := { s with udpPacketHandler := f }

/-- `net_set_arp_handler` -/
def netSetArpHandler (f : Option H) : Stack σ H := { s with arpPacketHandler := f }

/-- `net_set_icmp_handler` -/
def netSetIcmpHandler (f : Option H) : Stack σ H := { s with packetIcmpHandler := f }

/-- `NetSetTimeout` -/
def netSetTimeout (iv : Nat) (f : Option (TimeHandler H)) : Stack σ H :=
  if iv = 0 then { s with timeHandler := none }
  else { s with timeHandler := f, timeStart := s.now, timeDelta := iv }

/-- `net_set_state` -/
def netSetState (state : NetState) : Stack σ H := { s with netState := state }

/-- `net_clear_handlers` -/
def netClearHandlers : Stack σ H := netSetTimeout (netSetArpHandler (netSetUdpHandler s none) none) 0 none

/-- `net_cleanup_loop` -/
def netCleanupLoop : Stack σ H := netClearHandlers s

/-- The number of tries that `netretry` allows; without a number they do not end. -/
def retryCount : Option Nat :=
  match s.env.netretry with
  | none => none
  | some nretry =>
      if nretry = ascii "yes" then none
      else if nretry = ascii "no" then some 0
      else if nretry = ascii "once" then some 1
      else some (simpleStrtoul nretry 0).1

/-- `NetStartAgain` -/
def netStartAgain : Stack σ H :=
  if s.retryCount.any (· ≤ s.netTryCount) then netSetState s .fail
  else
    let s := { s with netTryCount := s.netTryCount + 1 }
    let s := (ethInit (ethTryAnother s !s.netRestarted)).1
    if s.netRestartWrap then
      let s := { s with netRestartWrap := false }
      if s.netDevExists then netSetUdpHandler (netSetTimeout s 10000 (some .startAgainTimeout)) none
      else netSetState s .fail
    else netSetState s .restart

/-! ## ARP -/

/-- `ArpRequest` -/
def arpRequest : Stack σ H :=
  if s.netArpWaitPacketIp &&& s.netOurSubnetMask ≠ s.netOurIp &&& s.netOurSubnetMask ∧ s.netOurGatewayIp ≠ 0 then
    { s with netArpWaitReplyIp := s.netOurGatewayIp }
  else { s with netArpWaitReplyIp := s.netArpWaitPacketIp }

/-- `NetSendUDPPacket`, to `NetServerEther` -/
def netSendUdpPacket (dest : Nat) : Stack σ H :=
  if dest = 0 ∨ dest = 0xFFFFFFFF then s
  else if s.netServerEther then s
  else
    arpRequest { s with
      netArpWaitPacketIp := dest
      netArpWaitPacketMac := true
      netArpWaitTry := 1
      netArpWaitTimerStart := s.now }

/-- `ping_send` -/
def pingSend : Stack σ H :=
  arpRequest { s with netArpWaitPacketIp := s.netPingIp, netArpWaitTry := 1, netArpWaitTimerStart := s.now }

/-- The time that has gone by. -/
def elapsed (start : Nat) : Nat := (s.now + 2 ^ 32 - start) % 2 ^ 32

/-- `ArpTimeoutCheck`, with `ARP_TIMEOUT` and `ARP_TIMEOUT_COUNT` -/
def arpTimeoutCheck : Stack σ H :=
  if s.netArpWaitPacketIp = 0 then s
  else if s.elapsed s.netArpWaitTimerStart ≤ 5000 then s
  else if 5 ≤ s.netArpWaitTry + 1 then netStartAgain { s with netArpWaitTry := 0 }
  else arpRequest { s with netArpWaitTry := s.netArpWaitTry + 1, netArpWaitTimerStart := s.now }

/-! ## The code of the protocols -/

def call : Call H → Stack σ H
  | .setUdpHandler f => netSetUdpHandler s f
  | .setArpHandler f => netSetArpHandler s f
  | .setIcmpHandler f => netSetIcmpHandler s f
  | .setTimeout iv f => netSetTimeout s iv (f.map .proto)
  | .setState state => netSetState s state
  | .startAgain => netStartAgain s
  | .sendUdp dest => netSendUdpPacket s dest
  | .sendPing => pingSend s
  | .clearServerEther => { s with netServerEther := false }
  | .setXferSize size => { s with netBootFileXferSize := size }
  | .setOurIp ip => { s with netOurIp := ip }
  | .setServerIp ip => { s with netServerIp := ip }
  | .setGatewayIp ip => { s with netOurGatewayIp := ip }
  | .setSubnetMask ip => { s with netOurSubnetMask := ip }
  | .setDnsIp ip => { s with netOurDnsIp := ip }

def perform (body : Stack σ H → σ × List (Call H)) : Stack σ H :=
  (body s).2.foldl call { s with vars := (body s).1 }

end Stack

/-! ## Packets -/

/-- A packet that `NetReceive` hands on; `arpReply` has the address that answers. -/
inductive Packet where
  | udp (p : UdpPacket)
  | arpReply (ip : Nat)
  | icmp (p : IcmpPacket)

section
variable {σ H : Type} (code : Code σ H)

/-- The ARP reply of `ArpReceive`. -/
def arpReceive (ip : Nat) (s : Stack σ H) : Stack σ H :=
  if s.netOurIp = 0 ∨ s.netArpWaitPacketIp = 0 ∨ ip ≠ s.netArpWaitReplyIp then s
  else
    let s := { s with netServerEther := s.netServerEther || s.netArpWaitPacketMac }
    let s := match s.arpPacketHandler with
      | none => s
      | some f => s.perform (code.arp f ip)
    { s with netArpWaitPacketIp := 0, netArpWaitPacketMac := false }

/-- `receive_icmp`, with `ping_receive` -/
def receiveIcmp (p : IcmpPacket) (s : Stack σ H) : Stack σ H :=
  if p.type = 5 then s
  else
    let s := if p.type = 0 ∧ p.sip = s.netPingIp then s.netSetState .success else s
    match s.packetIcmpHandler with
    | none => s
    | some f => s.perform (code.icmp f p)

/-- `NetReceive` -/
def netReceive (s : Stack σ H) : Packet → Stack σ H
  | .udp p =>
      match s.udpPacketHandler with
      | none => s
      | some f => s.perform (code.udp f p)
  | .arpReply ip => arpReceive code ip s
  | .icmp p => receiveIcmp code p s

/-! ## The loop -/

/-- What happens in one turn of the loop: the packets that come, each with its time, Ctrl-C, and the time then. -/
structure Round where
  rx : List (Nat × Packet)
  ctrlc : Bool
  now : Nat

/-- `net_check_prereq`, for a protocol that needs an Ethernet address -/
def checkEther (s : Stack σ H) : Stack σ H × Nat :=
  if s.netOurEther = List.replicate 6 0 then
    if s.eth.enetaddr = [] then (s, 1) else (s.netStartAgain, 2)
  else (s, 0)

/-- `net_check_prereq`, for a protocol that needs our IP address -/
def checkOurIp (s : Stack σ H) : Stack σ H × Nat := if s.netOurIp = 0 then (s, 1) else checkEther s

/-- `net_check_prereq` -/
def netCheckPrereq (s : Stack σ H) : Proto → Stack σ H × Nat
  | .ping => if s.netPingIp = 0 then (s, 1) else checkOurIp s
  | .sntp => if s.netNtpServerIp = 0 then (s, 1) else checkOurIp s
  | .dns => if s.netOurDnsIp = 0 then (s, 1) else checkOurIp s
  | .nfs | .tftpget | .tftpput => if s.netServerIp = 0 then (s, 1) else checkOurIp s
  | .netcons | .tftpsrv => checkOurIp s
  | .rarp | .bootp | .cdp | .dhcp | .linklocal => checkEther s
  | .arp => (s, 0)

/-- `NetInitLoop` -/
def netInitLoop (s : Stack σ H) : Stack σ H :=
  let s := if s.env.changed then
      { s with
        netOurIp := s.env.ipaddr
        netOurGatewayIp := s.env.gatewayip
        netOurSubnetMask := s.env.netmask
        netServerIp := s.env.serverip
        netOurDnsIp := s.env.dnsip
        env := { s.env with changed := false } }
    else s
  { s with netOurEther := s.eth.enetaddr.getD s.eth.ethCurrent [] }

/-- `net_init` -/
def netInit (s : Stack σ H) : Stack σ H :=
  netInitLoop <| if s.firstCall then
      Stack.netClearHandlers { s with
        netArpWaitPacketIp := 0
        netArpWaitPacketMac := false
        netArpWaitReplyIp := 0
        firstCall := false }
    else s

/-- `NetLoop` from `restart` to its loop. It returns when the network is not configured. -/
def netLoopStart (p : Proto) (s : Stack σ H) : Stack σ H × Bool :=
  match netCheckPrereq (netInitLoop (s.netSetState .cont)) p with
  | (s, 0) =>
      let s := { s with netDevExists := true, netBootFileXferSize := 0 }
      let s := if p = .dhcp ∨ p = .bootp ∨ p = .rarp then { s with netOurIp := 0 } else s
      (s.perform (code.start p), true)
  | (s, 1) => (s, false)
  | (s, _) => (s, true)

/-- Up to `ctrlc` -/
def ethRx (r : Round) (s : Stack σ H) : Stack σ H :=
  let s := r.rx.foldl (fun s x => netReceive code { s with now := x.1 } x.2) s
  { s with now := r.now }

/-- The timeout handler that has to run. -/
def Stack.expired (s : Stack σ H) : Option (TimeHandler H) :=
  if s.timeDelta < s.elapsed s.timeStart then s.timeHandler else none

/-- A timeout handler runs. -/
def runTimeHandler (f : TimeHandler H) (s : Stack σ H) : Stack σ H :=
  match f with
  | .startAgainTimeout => Stack.netSetState { s with timeHandler := none } .restart
  | .proto f => Stack.perform { s with timeHandler := none } (code.timeout f)

/-- `done` -/
def done (s : Stack σ H) : Stack σ H := (s.netSetUdpHandler none).netSetIcmpHandler none

/-- `NetBootFileXferSize` as an `int` -/
def xferSizeInt (n : Nat) : Int := if n % 2 ^ 32 < 2 ^ 31 then (n % 2 ^ 32 : Nat) else (n % 2 ^ 32 : Nat) - 2 ^ 32

inductive Turn (σ H : Type) where
  | returned (ret : Int) (s : Stack σ H)
  | restart (s : Stack σ H)
  | continue (s : Stack σ H)

/-- `switch (net_state)` -/
def netLoopSwitch (s : Stack σ H) : Turn σ H :=
  match s.netState with
  | .restart => .restart { s with netRestarted := true }
  | .success =>
      let s := s.netCleanupLoop
      let s := if 0 < s.netBootFileXferSize then { s with env := { s.env with changed := true } } else s
      .returned (xferSizeInt s.netBootFileXferSize) (done s)
  | .fail => .returned (-1) (done s.netCleanupLoop)
  | .cont => .continue s

/-- A turn when its timer is looked at. -/
def atTimer (r : Round) (s : Stack σ H) : Stack σ H := (ethRx code r s).arpTimeoutCheck

/-- One turn of the loop of `NetLoop`. -/
def netLoopTurn (r : Round) (s : Stack σ H) : Turn σ H :=
  if r.ctrlc then .returned (-1) (done (Stack.netCleanupLoop { ethRx code r s with netArpWaitPacketIp := 0 }))
  else
    match (atTimer code r s).expired with
    | some f => .returned (-1) (runTimeHandler code f (atTimer code r s))
    | none => netLoopSwitch (atTimer code r s)

inductive Result (σ H : Type) where
  | returned (ret : Int) (s : Stack σ H)
  | running (s : Stack σ H)

/-- One turn, with what follows it at `restart`. -/
def netLoopStep (p : Proto) (r : Round) (s : Stack σ H) : Result σ H :=
  match netLoopTurn code r s with
  | .returned ret s => .returned ret s
  | .continue s => .running s
  | .restart s =>
      match netLoopStart code p s with
      | (s, true) => .running s
      | (s, false) => .returned (-1) s

/-- The loop of `NetLoop`. -/
def netLoopRun (p : Proto) : List Round → Stack σ H → Result σ H
  | [], s => .running s
  | r :: rounds, s =>
      match netLoopStep code p r s with
      | .returned ret s => .returned ret s
      | .running s => netLoopRun p rounds s

/-- `NetLoop` before its loop. -/
def netLoopEnter (p : Proto) (s : Stack σ H) : Result σ H :=
  let s := { s with netRestarted := false, netDevExists := false, netTryCount := 1 }
  match (netInit s).ethSetCurrent.ethInit with
  | (s, false) => .returned (-1) s
  | (s, true) =>
      match netLoopStart code p s with
      | (s, true) => .running s
      | (s, false) => .returned (-1) s

/-- `NetLoop` -/
def netLoop (p : Proto) (rounds : List Round) (s : Stack σ H) : Result σ H :=
  match netLoopEnter code p s with
  | .returned ret s => .returned ret s
  | .running s => netLoopRun code p rounds s

end

end Uboot.Net
