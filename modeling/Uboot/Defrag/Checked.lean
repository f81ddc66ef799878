import Uboot.Defrag.HoleList

/-!
# Reassembly with the accesses checked

`__NetDefragment` on any fragment that `NetReceive` passes on, also one whose length is shorter than its header. A
descriptor outside `pkt_buff`, a search that does not end and a copy of a negative length are faults.
-/

namespace Uboot.Defrag

open Uboot.Lib

inductive Fault where
  | bounds
  | loops
  | negative
  deriving DecidableEq, Repr

/-- A received fragment. The bytes behind the header are at least those that `ip_len` counts. -/
structure Fragment where
  hdr : IpHdr
  data : List UInt8
  room : hdr.ipLen.toNat ≤ ipHdrSize + data.length

def Fragment.offset8 (fr : Fragment) : Nat := (fr.hdr.ipOff &&& ipOffs).toNat

def Fragment.start (fr : Fragment) : Nat := fr.offset8 * 8

def Fragment.len (fr : Fragment) : Int := fr.hdr.ipLen.toNat - ipHdrSize

def Fragment.stop (fr : Fragment) : Int := fr.start + fr.len

/-- `start + len > IP_MAXUDP`. The bound is a `size_t`, so a negative sum is behind it too. -/
def Fragment.TooFar (fr : Fragment) : Prop := fr.stop < 0 ∨ ipMaxudp < fr.stop

instance (fr : Fragment) : Decidable fr.TooFar := inferInstanceAs (Decidable (_ ∨ _))

def Fragment.moreFragments (fr : Fragment) : Bool := fr.hdr.ipOff &&& ipFlagsMfrag ≠ 0

/-- The descriptor at index `i` is in `pkt_buff`. -/
def InBuff (i : Int) : Prop := 0 ≤ i ∧ 8 * i + 8 ≤ ipMaxudp

instance (i : Int) : Decidable (InBuff i) := inferInstanceAs (Decidable (_ ∧ _))

def getHole (payload : Mem) (i : Int) : Except Fault Hole :=
  if InBuff i then .ok (readHole payload i.toNat) else .error .bounds

def putHole (payload : Mem) (i : Int) (h : Hole) : Except Fault Mem :=
  if InBuff i then .ok (writeHole payload i.toNat h) else .error .bounds

def putLastByte (payload : Mem) (i : Int) (lastByte : Nat) : Except Fault Mem := do
  let hole ← getHole payload i
  putHole payload i { hole with lastByte }

def putNextHole (payload : Mem) (i : Int) (nextHole : Nat) : Except Fault Mem := do
  let hole ← getHole payload i
  putHole payload i { hole with nextHole }

def putPrevHole (payload : Mem) (i : Int) (prevHole : Nat) : Except Fault Mem := do
  let hole ← getHole payload i
  putHole payload i { hole with prevHole }

/-- The hole after a new one, if there is one, gets a link back to it. -/
def linkBack (payload : Mem) (nextHole newh : Nat) : Except Fault Mem :=
  if nextHole ≠ 0 then putPrevHole payload nextHole newh else .ok payload

/-- The last fragment ends the hole. -/
def truncate (payload : Mem) (h : Nat) (fr : Fragment) : Except Fault Mem :=
  if fr.moreFragments then .ok payload else putLastByte payload h (fr.stop % 65536).toNat

def DefragState.checkedReset (st : DefragState) (hdr : IpHdr) : Except Fault DefragState := do
  let payload ← putLastByte st.payload 0 0xffff
  let payload ← putNextHole payload 0 0
  let payload ← putPrevHole payload 0 0
  return ⟨hdr, payload, 0, 0xffff⟩

/-- The descriptors that are followed do not change in the search: without an end after 65536 of them there is none. -/
def checkedFind (payload : Mem) (start : Nat) : Nat → Nat → Except Fault (Option Nat)
  | 0, _ => .error .loops
  | fuel + 1, h => do
      let hole ← getHole payload h
      if start ≤ hole.lastByte then return some h
      else if hole.nextHole = 0 then return none
      else checkedFind payload start fuel hole.nextHole

def checkedRemove (payload : Mem) (firstHole h : Nat) : Except Fault (Option (Nat × Mem)) := do
  let hole ← getHole payload h
  if hole.prevHole = 0 ∧ hole.nextHole = 0 then return none
  else if hole.prevHole = 0 then return some (hole.nextHole, ← putPrevHole payload hole.nextHole 0)
  else if hole.nextHole = 0 then return some (firstHole, ← putNextHole payload hole.prevHole 0)
  else
    let payload ← putPrevHole payload hole.nextHole hole.prevHole
    let hole ← getHole payload h
    return some (firstHole, ← putNextHole payload hole.prevHole hole.nextHole)

def checkedMove (payload : Mem) (firstHole h : Nat) (newh : Int) : Except Fault (Nat × Mem) := do
  let payload ← putHole payload newh (← getHole payload h)
  let hole ← getHole payload newh
  let payload ← linkBack payload hole.nextHole newh.toNat
  let hole ← getHole payload newh
  if hole.prevHole ≠ 0 then return (firstHole, ← putNextHole payload hole.prevHole newh.toNat)
  else return (newh.toNat, payload)

def checkedSplit (payload : Mem) (h : Nat) (newh : Int) (start : Nat) : Except Fault Mem := do
  let payload ← putHole payload newh (← getHole payload h)
  let payload ← putLastByte payload h start
  let payload ← putNextHole payload h newh.toNat
  let payload ← putPrevHole payload newh h
  let hole ← getHole payload newh
  linkBack payload hole.nextHole newh.toNat

/-- `len / 8` rounds towards zero. -/
def checkedFix (payload : Mem) (firstHole h offset8 : Nat) (len : Int) : Except Fault (Option (Nat × Mem)) := do
  let hole ← getHole payload h
  if offset8 ≤ h ∧ hole.lastByte ≤ offset8 * 8 + len then checkedRemove payload firstHole h
  else if hole.lastByte ≤ offset8 * 8 + len then return some (firstHole, ← putLastByte payload h (offset8 * 8))
  else if offset8 ≤ h then return some (← checkedMove payload firstHole h (offset8 + len.tdiv 8))
  else return some (firstHole, ← checkedSplit payload h (offset8 + len.tdiv 8) (offset8 * 8))

/-- `memcpy` of the fragment -/
def copyIn (payload : Mem) (fr : Fragment) : Except Fault Mem :=
  if fr.len < 0 then .error .negative
  else if ipMaxudp < fr.stop then .error .bounds
  else .ok (payload.write fr.start (fr.data.take fr.len.toNat))

def checkedAdd (st : DefragState) (fr : Fragment) : Except Fault (DefragState × Option Reassembled) := do
  match ← checkedFind st.payload fr.start 65536 st.firstHole with
  | none => return (st, none)
  | some h =>
      if fr.offset8 + (fr.len + 7).tdiv 8 ≤ h then return (st, none)
      else
        let totalLen := if fr.moreFragments then st.totalLen else (fr.stop % 65536).toNat
        let payload ← truncate st.payload h fr
        match ← checkedFix payload st.firstHole h fr.offset8 fr.len with
        | some (firstHole, payload) =>
            return (⟨st.localip, ← copyIn payload fr, firstHole, totalLen⟩, none)
        | none =>
            let payload ← copyIn payload fr
            let localip := { st.localip with ipLen := UInt16.ofNat totalLen }
            return (⟨localip, payload, st.firstHole, totalLen⟩, some ⟨localip, payload, totalLen + ipHdrSize⟩)

/-- `__NetDefragment` -/
def checkedDefragment (st : DefragState) (fr : Fragment) : Except Fault (DefragState × Option Reassembled) :=
  if fr.TooFar then .ok (st, none)
  else if st.totalLen = 0 ∨ st.localip.ipId ≠ fr.hdr.ipId then do checkedAdd (← st.checkedReset fr.hdr) fr
  else checkedAdd st fr

end Uboot.Defrag
