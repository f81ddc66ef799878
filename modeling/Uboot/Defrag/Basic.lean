import Uboot.Lib.Bytes

/-!
# IP reassembly (`net/net.c`)

`__NetDefragment` keeps the holes of a datagram as a doubly linked list of descriptors, stored in the holes
themselves. A descriptor takes the first 8 bytes of its hole; links count 8-byte blocks and `0` is no link.
-/

namespace Uboot.Defrag

open Uboot.Lib

/-- `struct ip_hdr`, in host byte order. -/
structure IpHdr where
  ipHlV : UInt8
  ipTos : UInt8
  ipLen : UInt16
  ipId : UInt16
  ipOff : UInt16
  ipTtl : UInt8
  ipP : UInt8
  ipSum : UInt16
  ipSrc : UInt32
  ipDst : UInt32
deriving DecidableEq, Repr

/-- `IP_HDR_SIZE` -/
def ipHdrSize : Nat := 20

/-- `IP_OFFS` -/
def ipOffs : UInt16 := 0x1fff

/-- `IP_FLAGS_MFRAG` -/
def ipFlagsMfrag : UInt16 := 0x2000

/-- `CONFIG_NET_MAXDEFRAG` -/
def configNetMaxdefrag : Nat := 16384

/-- `IP_PKTSIZE`; the reply of `struct rpc_t` has 25 words. -/
def ipPktsize : Nat := configNetMaxdefrag + 25 * 4

/-- `IP_MAXUDP` -/
def ipMaxudp : Nat := ipPktsize - ipHdrSize

/-- A received packet: the header and the bytes that `ip_len` counts after it. -/
structure IpPacket where
  hdr : IpHdr
  data : List UInt8
  ipLen_eq : hdr.ipLen.toNat = ipHdrSize + data.length

def IpPacket.offset8 (ip : IpPacket) : Nat := (ip.hdr.ipOff &&& ipOffs).toNat

def IpPacket.start (ip : IpPacket) : Nat := ip.offset8 * 8

def IpPacket.stop (ip : IpPacket) : Nat := ip.start + ip.data.length

def IpPacket.moreFragments (ip : IpPacket) : Bool := ip.hdr.ipOff &&& ipFlagsMfrag ≠ 0

/-! ## Hole descriptors -/

/-- `struct hole` -/
structure Hole where
  lastByte : Nat
  nextHole : Nat
  prevHole : Nat
  unused : Nat
deriving DecidableEq, Repr

/-- `payload[i]` -/
def readHole (payload : Mem) (i : Nat) : Hole :=
  ⟨payload.readLe16 (8 * i), payload.readLe16 (8 * i + 2), payload.readLe16 (8 * i + 4),
    payload.readLe16 (8 * i + 6)⟩

def Hole.bytes (h : Hole) : List UInt8 :=
  Mem.le16 h.lastByte ++ Mem.le16 h.nextHole ++ Mem.le16 h.prevHole ++ Mem.le16 h.unused

def writeHole (payload : Mem) (i : Nat) (h : Hole) : Mem := payload.write (8 * i) h.bytes

def setLastByte (payload : Mem) (i lastByte : Nat) : Mem :=
  writeHole payload i { readHole payload i with lastByte }

def setNextHole (payload : Mem) (i nextHole : Nat) : Mem :=
  writeHole payload i { readHole payload i with nextHole }

def setPrevHole (payload : Mem) (i prevHole : Nat) : Mem :=
  writeHole payload i { readHole payload i with prevHole }

/-! ## `__NetDefragment` -/

/-- The static variables: `pkt_buff` is the header `localip` and, after it, `payload`. -/
structure DefragState where
  localip : IpHdr
  payload : Mem
  firstHole : Nat
  totalLen : Nat

/-- The structures are reset for a new or different packet. -/
def DefragState.reset (st : DefragState) (ip : IpPacket) : DefragState :=
  let payload := setLastByte st.payload 0 0xffff
  let payload := setNextHole payload 0 0
  let payload := setPrevHole payload 0 0
  ⟨ip.hdr, payload, 0, 0xffff⟩

/-- The loop that looks for the first hole that ends at `start` or later: `some none` when the list ends
before. A list that has a cycle runs out of fuel. -/
def findHole (payload : Mem) (start : Nat) : Nat → Nat → Option (Option Nat)
  | 0, _ => none
  | fuel + 1, h =>
      if start ≤ (readHole payload h).lastByte then some (some h)
      else if (readHole payload h).nextHole = 0 then some none
      else findHole payload start fuel (readHole payload h).nextHole

/-- A fragment covers the hole `h`. `none` when it is the last one. -/
def removeHole (payload : Mem) (firstHole h : Nat) : Option (Nat × Mem) :=
  let hole := readHole payload h
  if hole.prevHole = 0 ∧ hole.nextHole = 0 then none
  else if hole.prevHole = 0 then some (hole.nextHole, setPrevHole payload hole.nextHole 0)
  else if hole.nextHole = 0 then some (firstHole, setNextHole payload hole.prevHole 0)
  else
    let payload := setPrevHole payload hole.nextHole hole.prevHole
    let hole := readHole payload h
    some (firstHole, setNextHole payload hole.prevHole hole.nextHole)

/-- A fragment covers the beginning of the hole `h`, which moves to `newh`. -/
def moveHole (payload : Mem) (firstHole h newh : Nat) : Nat × Mem :=
  let payload := writeHole payload newh (readHole payload h)
  let hole := readHole payload newh
  let payload := if hole.nextHole ≠ 0 then setPrevHole payload hole.nextHole newh else payload
  let hole := readHole payload newh
  if hole.prevHole ≠ 0 then (firstHole, setNextHole payload hole.prevHole newh) else (newh, payload)

/-- A fragment from `start` on sits in the middle of the hole `h`, whose end becomes the hole `newh`. -/
def splitHole (payload : Mem) (h newh start : Nat) : Mem :=
  let payload := writeHole payload newh (readHole payload h)
  let payload := setLastByte payload h start
  let payload := setNextHole payload h newh
  let payload := setPrevHole payload newh h
  let hole := readHole payload newh
  if hole.nextHole ≠ 0 then setPrevHole payload hole.nextHole newh else payload

/-- The hole list without the fragment that begins in block `offset8` and has `len` bytes; `none` when there
is no hole left. -/
def fixHoles (payload : Mem) (firstHole h offset8 len : Nat) : Option (Nat × Mem) :=
  let lastByte := (readHole payload h).lastByte
  if offset8 ≤ h ∧ lastByte ≤ offset8 * 8 + len then removeHole payload firstHole h
  else if lastByte ≤ offset8 * 8 + len then some (firstHole, setLastByte payload h (offset8 * 8))
  else if offset8 ≤ h then some (moveHole payload firstHole h (offset8 + len / 8))
  else some (firstHole, splitHole payload h (offset8 + len / 8) (offset8 * 8))

/-- A packet that is returned, with `*lenp`. -/
structure Reassembled where
  localip : IpHdr
  payload : Mem
  len : Nat

/-- `__NetDefragment` after the structures are reset. -/
def addFragment (st : DefragState) (ip : IpPacket) : Option (DefragState × Option Reassembled) :=
  match findHole st.payload ip.start 65536 st.firstHole with
  | none => none
  | some none => some (st, none)
  | some (some h) =>
      if ip.offset8 + (ip.data.length + 7) / 8 ≤ h then some (st, none)
      else
        let totalLen := if ip.moreFragments then st.totalLen else ip.stop % 65536
        let payload := if ip.moreFragments then st.payload else setLastByte st.payload h ip.stop
        match fixHoles payload st.firstHole h ip.offset8 ip.data.length with
        | some (firstHole, payload) =>
            some (⟨st.localip, payload.write ip.start ip.data, firstHole, totalLen⟩, none)
        | none =>
            let payload := payload.write ip.start ip.data
            let localip := { st.localip with ipLen := UInt16.ofNat totalLen }
            some (⟨localip, payload, st.firstHole, totalLen⟩,
              some ⟨localip, payload, totalLen + ipHdrSize⟩)

/-- `__NetDefragment`. `none` when the search of the hole list does not end; the second component is the
packet that is returned, if any. -/
def netDefragment (st : DefragState) (ip : IpPacket) : Option (DefragState × Option Reassembled) :=
  if ipMaxudp < ip.stop then some (st, none)
  else addFragment (if st.totalLen = 0 ∨ st.localip.ipId ≠ ip.hdr.ipId then st.reset ip else st) ip

end Uboot.Defrag
