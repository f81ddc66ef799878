import Uboot.Defrag.Checked

/-!
# Receiving a packet

`NetReceive` after `net/net.c`, as the board configures it: without CDP, RARP, the API, netconsole and UDP checksums, with
or without `CONFIG_IP_DEFRAG`. A read beyond the received bytes is a fault. The handlers that it calls are its results.
-/

namespace Uboot.Receive

open Uboot.Defrag

inductive Fault where
  | overread
  | reassembly (fault : Defrag.Fault)
  deriving DecidableEq, Repr

structure Config where
  ipDefrag : Bool
  netOurIP : UInt32
  /-- `NetOurVLAN` and `NetOurNativeVLAN`, in host byte order -/
  netOurVLAN : UInt16
  netOurNativeVLAN : UInt16

/-! ## Reading the frame -/

def byteAt (pkt : List UInt8) (i : Nat) : Except Fault Nat :=
  match pkt[i]? with
  | some b => .ok b.toNat
  | none => .error .overread

/-- `ntohs` of the halfword at `i` -/
def halfAt (pkt : List UInt8) (i : Nat) : Except Fault Nat := do
  let hi ← byteAt pkt i
  let lo ← byteAt pkt (i + 1)
  return hi * 256 + lo

def wordAt (pkt : List UInt8) (i : Nat) : Except Fault Nat := do
  let hi ← halfAt pkt i
  let lo ← halfAt pkt (i + 2)
  return hi * 65536 + lo

/-- The IP header at `off` -/
def ipHdrAt (pkt : List UInt8) (off : Nat) : Except Fault IpHdr := do
  let ipHlV ← byteAt pkt off
  let ipTos ← byteAt pkt (off + 1)
  let ipLen ← halfAt pkt (off + 2)
  let ipId ← halfAt pkt (off + 4)
  let ipOff ← halfAt pkt (off + 6)
  let ipTtl ← byteAt pkt (off + 8)
  let ipP ← byteAt pkt (off + 9)
  let ipSum ← halfAt pkt (off + 10)
  let ipSrc ← wordAt pkt (off + 12)
  let ipDst ← wordAt pkt (off + 16)
  return ⟨.ofNat ipHlV, .ofNat ipTos, .ofNat ipLen, .ofNat ipId, .ofNat ipOff, .ofNat ipTtl, .ofNat ipP, .ofNat ipSum,
    .ofNat ipSrc, .ofNat ipDst⟩

/-- The sum of `n` halfwords from `i` on, as the little-endian machine loads them. -/
def halfSum (pkt : List UInt8) (i : Nat) : Nat → Except Fault Nat
  | 0 => .ok 0
  | n + 1 => do
      let lo ← byteAt pkt i
      let hi ← byteAt pkt (i + 1)
      let rest ← halfSum pkt (i + 2) n
      return lo + 256 * hi + rest

def fold (xsum : Nat) : Nat := xsum % 65536 + xsum / 65536

/-- `NetCksumOk` on the IP header -/
def netCksumOk (pkt : List UInt8) (off : Nat) : Except Fault Bool := do
  let xsum ← halfSum pkt off 10
  return (fold (fold xsum) % 65536 + 1) &&& 0xfffe = 0

/-! ## `NetReceive` -/

def VLAN_NONE : Nat := 4095

/-- The protocol and the rest of the frame. -/
structure Link where
  ethProto : Nat
  ip : Nat
  len : Int

def vlanOf (v : UInt16) : Nat := if v.toNat = 0xffff then VLAN_NONE else v.toNat

/-- A frame of another VLAN is dropped. -/
def vlanFilter (cfg : Config) (vlanid : Nat) (link : Link) : Option Link :=
  let myvlanid := vlanOf cfg.netOurVLAN &&& 0xfff
  let vlanid := if vlanid = VLAN_NONE then vlanOf cfg.netOurNativeVLAN &&& 0xfff else vlanid
  if myvlanid ≠ VLAN_NONE ∧ vlanid ≠ myvlanid then none else some link

/-- The Ethernet header. The sizes of the headers are 14, with 802.2 22, and with a VLAN tag 18. -/
def linkInput (cfg : Config) (pkt : List UInt8) : Except Fault (Option Link) :=
  let len : Int := pkt.length
  if len < 14 then .ok none
  else do
    let ethProto ← halfAt pkt 12
    if ethProto < 1514 then
      let ethProto ← halfAt pkt 20
      return vlanFilter cfg VLAN_NONE ⟨ethProto, 22, len - 22⟩
    else if ethProto ≠ 0x8100 then return vlanFilter cfg VLAN_NONE ⟨ethProto, 14, len - 14⟩
    else if len < 18 then return none
    else if cfg.netOurVLAN.toNat &&& 0xfff = VLAN_NONE then return none
    else
      let cti ← halfAt pkt 14
      let ethProto ← halfAt pkt 16
      return vlanFilter cfg (cti &&& 0xfff) ⟨ethProto, 18, len - 18⟩

/-- The checks of the IP header. `IP_UDP_HDR_SIZE` is unsigned, and so is the comparison with it. -/
def ipInput (cfg : Config) (pkt : List UInt8) (link : Link) : Except Fault (Option IpHdr) :=
  if link.len % 2 ^ 32 < 28 then .ok none
  else do
    let hdr ← ipHdrAt pkt link.ip
    let cksumOk ← netCksumOk pkt link.ip
    return if link.len < hdr.ipLen.toNat then none
      else if hdr.ipHlV &&& 0xf0 ≠ 0x40 then none
      else if hdr.ipHlV &&& 0x0f > 0x05 then none
      else if cksumOk = false then none
      else if cfg.netOurIP ≠ 0 ∧ hdr.ipDst ≠ cfg.netOurIP ∧ hdr.ipDst ≠ 0xFFFFFFFF then none
      else some hdr

/-- An IP packet after reassembly: its length, and the header of what is in it. -/
structure IpUdp where
  len : Nat
  ipP : UInt8
  udpSrc : Nat
  udpDst : Nat
  udpLen : Nat

/-- The fields behind the IP header of the frame itself. -/
def frameUdp (pkt : List UInt8) (off : Nat) (hdr : IpHdr) : Except Fault IpUdp := do
  let udpSrc ← halfAt pkt (off + 20)
  let udpDst ← halfAt pkt (off + 22)
  let udpLen ← halfAt pkt (off + 24)
  return ⟨hdr.ipLen.toNat, hdr.ipP, udpSrc, udpDst, udpLen⟩

/-- The fields behind the IP header in `pkt_buff`. -/
def reassembledUdp (r : Reassembled) : IpUdp :=
  let half i := (r.payload i).toNat * 256 + (r.payload (i + 1)).toNat
  ⟨r.len, r.localip.ipP, half 0, half 2, half 4⟩

/-- `NetDefragment` -/
def netDefragment (cfg : Config) (st : DefragState) (pkt : List UInt8) (off : Nat) (hdr : IpHdr) :
    Except Fault (DefragState × Option IpUdp) :=
  if hdr.ipOff &&& (ipOffs ||| ipFlagsMfrag) = 0 then do return (st, some (← frameUdp pkt off hdr))
  else if cfg.ipDefrag = false then .ok (st, none)
  else
    let data := pkt.drop (off + 20)
    -- the length was checked against the frame
    if room : hdr.ipLen.toNat ≤ ipHdrSize + data.length then
      match checkedDefragment st ⟨hdr, data, room⟩ with
      | .error fault => .error (.reassembly fault)
      | .ok (st, r) => .ok (st, r.map reassembledUdp)
    else .ok (st, none)

/-- A call of the UDP handler: the payload begins 28 bytes into a packet of `ipLen` bytes. -/
structure Delivery where
  ipLen : Nat
  udpDst : Nat
  srcIp : UInt32
  udpSrc : Nat
  len : Int

inductive Action where
  | drop
  | arp (ip : Nat) (len : Int)
  | icmp (ipLen : Nat)
  | udp (d : Delivery)

/-- What becomes of a packet. -/
def dispatch (srcIp : UInt32) (ip : IpUdp) : Action :=
  if ip.ipP = 1 then .icmp ip.len
  else if ip.ipP ≠ 17 then .drop
  else .udp ⟨ip.len, ip.udpDst, srcIp, ip.udpSrc, ip.udpLen - 8⟩

/-- The packet that is handed on, if any. -/
def ipReceive (cfg : Config) (st : DefragState) (pkt : List UInt8) (link : Link) :
    Except Fault (DefragState × Option (UInt32 × IpUdp)) := do
  match ← ipInput cfg pkt link with
  | none => return (st, none)
  | some hdr =>
      let r ← netDefragment cfg st pkt link.ip hdr
      return (r.1, r.2.map fun ip => (hdr.ipSrc, ip))

/-- `NetReceive` -/
def netReceive (cfg : Config) (st : DefragState) (pkt : List UInt8) : Except Fault (DefragState × Action) := do
  match ← linkInput cfg pkt with
  | none => return (st, .drop)
  | some link =>
      if link.ethProto = 0x0806 then return (st, .arp link.ip link.len)
      else if link.ethProto = 0x0800 then
        let r ← ipReceive cfg st pkt link
        return (r.1, match r.2 with
          | none => .drop
          | some (srcIp, ip) => dispatch srcIp ip)
      else return (st, .drop)

end Uboot.Receive
