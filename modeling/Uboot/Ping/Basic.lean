import Uboot.Receive.Basic
import Uboot.Lib.OnesComplement

/-!
# Answering an echo request (`net/ping.c`)

`ping_receive` makes the reply from the request, in place: in the frame itself, or in `pkt_buff` when the packet was put
together from fragments. What it sends is in both cases the frame. Addresses count from the frame's first byte.
-/

namespace Uboot.Ping

open Uboot.Lib Uboot.Defrag Uboot.Receive

structure Config extends Receive.Config where
  netPingIP : UInt32
  netOurEther : List UInt8
  ether_length : netOurEther.length = 6

/-! ## The request -/

/-- Where the IP packet is. -/
inductive Location where
  | frame (off : Nat)
  | pktBuff (r : Reassembled)

/-- The ICMP packet that `NetReceive` hands to `receive_icmp`, with its length. -/
def icmpPacket (cfg : Config) (st : DefragState) (pkt : List UInt8) : Except Receive.Fault (Option (Location × Nat)) := do
  match ← linkInput cfg.toConfig pkt with
  | none => return none
  | some link =>
      if link.ethProto ≠ 0x0800 then return none
      else
        match ← ipInput cfg.toConfig pkt link with
        | none => return none
        | some hdr =>
            if hdr.ipOff &&& (ipOffs ||| ipFlagsMfrag) = 0 then
              return if hdr.ipP = 1 then some (.frame link.ip, hdr.ipLen.toNat) else none
            else if cfg.ipDefrag = false then return none
            else
              let data := pkt.drop (link.ip + 20)
              if room : hdr.ipLen.toNat ≤ ipHdrSize + data.length then
                match checkedDefragment st ⟨hdr, data, room⟩ with
                | .error fault => .error (.reassembly fault)
                | .ok (_, none) => return none
                | .ok (_, some r) => return if r.localip.ipP = 1 then some (.pktBuff r, r.len) else none
              else return none

/-- The byte at `i` of the ICMP message. -/
def Location.icmp (p : Location) (frame : Mem) (i : Nat) : UInt8 :=
  match p with
  | .frame off => frame (off + 20 + i)
  | .pktBuff r => r.payload i

/-- The sender's address. -/
def Location.ipSrc (p : Location) (frame : Mem) : UInt32 :=
  match p with
  | .frame off =>
      .ofNat ((frame (off + 12)).toNat * 2 ^ 24 + (frame (off + 13)).toNat * 2 ^ 16 + (frame (off + 14)).toNat * 2 ^ 8 +
        (frame (off + 15)).toNat)
  | .pktBuff r => r.localip.ipSrc

/-- The ICMP message of a packet with `len` bytes. -/
def Location.message (p : Location) (frame : Mem) (len : Nat) : List UInt8 :=
  (List.range (len - 20)).map (p.icmp frame)

/-! ## The reply -/

/-- `NetCksum`: `while (len-- > 0) xsum += *p++;` -/
def halfwords (m : Mem) : Nat → Nat → Nat
  | _, 0 => 0
  | p, len + 1 => m.readLe16 p + halfwords m (p + 2) len

def netCksum (m : Mem) (p len : Nat) : Nat := fold (fold (halfwords m p len % 2 ^ 32)) % 65536

/-- `net_update_ether` with the sender as the receiver, and the size of the Ethernet header. -/
def netUpdateEther (cfg : Config) (m : Mem) : Mem × Nat :=
  let m := m.write 0 (m.read 6 6)
  let m := m.write 6 cfg.netOurEther
  let protlen := (m 12).toNat * 256 + (m 13).toNat
  if protlen = 0x8100 then (m.write 16 [8, 0], 18)
  else if 1514 < protlen then (m.write 12 [8, 0], 14)
  else (m.write 20 [8, 0], 22)

/-- The bytes of an address. -/
def ipBytes (ip : UInt32) : List UInt8 :=
  [.ofNat (ip.toNat / 2 ^ 24), .ofNat (ip.toNat / 2 ^ 16), .ofNat (ip.toNat / 2 ^ 8), .ofNat ip.toNat]

/-- The reply's IP header, made from that at `ip`. -/
def replyIp (cfg : Config) (m : Mem) (ip : Nat) : Mem :=
  let m := m.write (ip + 10) [0, 0]
  let m := m.write (ip + 6) [0, 0]
  let m := m.write (ip + 16) (m.read (ip + 12) 4)
  let m := m.write (ip + 12) (ipBytes cfg.netOurIP)
  m.write (ip + 10) (Mem.le16 (65535 - netCksum m ip 10))

/-- The reply's ICMP header, made from that at `icmph`, for a message of `len` bytes. -/
def replyIcmp (m : Mem) (icmph len : Nat) : Mem :=
  let m := m.write icmph [0]
  let m := m.write (icmph + 2) [0, 0]
  m.write (icmph + 2) (Mem.le16 (65535 - netCksum m icmph (len / 2)))

/-- What `ping_receive` does: the packet is ignored, it is the answer to our own request, or a frame is sent. -/
inductive Outcome where
  | ignored
  | success
  | sent (frame : List UInt8)

/-- The reply to an echo request. `len - IP_HDR_SIZE` is unsigned; with a shorter packet the checksum runs over almost 4 GiB. -/
def echo (cfg : Config) (frame : Mem) (p : Location) (len : Nat) : Except Receive.Fault Outcome :=
  let (m, ethHdrSize) := netUpdateEther cfg frame
  if len < 20 then .error .overread
  else
    match p with
    | .frame off => .ok (.sent ((replyIcmp (replyIp cfg m off) (off + 20) (len - 20)).read 0 (ethHdrSize + len)))
    -- the reply is made in `pkt_buff`, and the frame is sent
    | .pktBuff _ => .ok (.sent (m.read 0 (ethHdrSize + len)))

/-- `ping_receive` -/
def pingReceive (cfg : Config) (frame : Mem) (p : Location) (len : Nat) : Except Receive.Fault Outcome :=
  if p.icmp frame 0 = 0 then .ok (if p.ipSrc frame = cfg.netPingIP then .success else .ignored)
  else if p.icmp frame 0 = 8 then echo cfg frame p len
  else .ok .ignored

/-! ## What a reply is -/

/-- The size of the Ethernet header of a frame. -/
def ethHdrSize (frame : List UInt8) : Nat :=
  let protlen := (frame.getD 12 0).toNat * 256 + (frame.getD 13 0).toNat
  if protlen = 0x8100 then 18 else if 1514 < protlen then 14 else 22

/-- The IP packet in a frame. -/
def ipPart (frame : List UInt8) : List UInt8 := frame.drop (ethHdrSize frame)

/-- The reply to a request with the ICMP message `request`. -/
structure ValidReply (request reply : List UInt8) : Prop where
  length : (ipPart reply).length = 20 + request.length
  ipLen : ((ipPart reply).getD 2 0).toNat * 256 + ((ipPart reply).getD 3 0).toNat = 20 + request.length
  whole : ((ipPart reply).getD 6 0).toNat * 256 + ((ipPart reply).getD 7 0).toNat &&& 0x3fff = 0
  ipCksum : Verifies ((ipPart reply).take 20)
  echoReply : ((ipPart reply).drop 20).head? = some 0
  payload : ((ipPart reply).drop 20).drop 8 = request.drop 8
  icmpCksum : Verifies ((ipPart reply).drop 20) ∧ 4 ≤ request.length

/-- An echo request is answered. -/
def Answered (cfg : Config) (frame : Mem) (p : Location) (len : Nat) : Prop :=
  ∃ reply, pingReceive cfg frame p len = .ok (.sent reply) ∧ ValidReply (p.message frame len) reply

end Uboot.Ping
