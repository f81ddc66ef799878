import Uboot.Lib.Bytes
import Uboot.Lib.Ring

/-!
# The transmit ring of the EDMA (`drivers/net/ipq40xx/ipq40xx_edma_eth.c`)

The driver and the hardware, one queue. The hardware takes a descriptor at any time after it was posted, reads the buffer
then and advances its consumer index. The driver reads that index once in a call, so that a call is two steps with those
of the hardware between them: `ipq40xx_eth_snd` up to the write of the producer index, and `ipq40xx_edma_tx_complete`.
-/

namespace Uboot.Edma

open Lib

/-- A value in `u16`. -/
def u16 (n : Int) : Nat := (n % 2 ^ 16).toNat

/-- `struct edma_tx_desc`; the other words are constant. -/
structure Tpd where
  addr : Nat
  len : Nat
deriving DecidableEq, Repr

/-- `struct ipq40xx_edma_desc_ring`, and the index register of the queue. -/
structure Ring where
  count : Nat
  hwDesc : Nat → Tpd
  swNextToFill : Nat
  swNextToClean : Nat
  prodIdx : Nat
  consIdx : Nat

namespace Ring

variable (r : Ring)

/-- `ipq40xx_edma_tpd_available` -/
def tpdAvailable : Nat :=
  let count := if r.swNextToClean ≤ r.swNextToFill then r.count else 0
  u16 (count + r.swNextToClean - r.swNextToFill - 1)

/-- `ipq40xx_edma_tx_map_and_fill`, with `ipq40xx_edma_get_next_tpd` -/
def txMapAndFill (skb : Nat) (length : Int) : Ring :=
  if u16 length ≠ 0 then
    { r with
      hwDesc := Function.update r.hwDesc r.swNextToFill ⟨skb, u16 length⟩
      swNextToFill := (r.swNextToFill + 1) % r.count }
  else r

/-- `ipq40xx_edma_tx_update_hw_idx`. The index has the width of the field, and the consumer index is read-only. -/
def txUpdateHwIdx : Ring := { r with prodIdx := r.swNextToFill }

/-- `ipq40xx_eth_snd` before `ipq40xx_edma_tx_complete`; none for `NETDEV_TX_BUSY` -/
def snd (packet : Nat) (length : Int) : Option Ring :=
  let numTpdsNeeded := 1
  if r.tpdAvailable < numTpdsNeeded then none else some (r.txMapAndFill packet length).txUpdateHwIdx

/-- `while (sw_next_to_clean != hw_next_to_clean)` -/
def cleanLoop (count hwNextToClean : Nat) : Nat → Nat → Option Nat
  | 0, clean => if clean = hwNextToClean then some clean else none
  | fuel + 1, clean =>
      if clean = hwNextToClean then some clean else cleanLoop count hwNextToClean fuel ((clean + 1) % count)

/-- `ipq40xx_edma_tx_complete`, with at most as many rounds of its loop as the ring has slots -/
def txComplete : Option Ring :=
  (cleanLoop r.count r.consIdx r.count r.swNextToClean).map fun clean => { r with swNextToClean := clean }

/-- The slots whose descriptors are posted and not consumed. -/
def posted : Finset Nat := cyclic r.count r.consIdx r.prodIdx

/-- The slots from `sw_next_to_clean` up to `sw_next_to_fill`. -/
def owned : Finset Nat := cyclic r.count r.swNextToClean r.swNextToFill

end Ring

/-! ## Runs -/

/-- The ring and the memory, whether a call is under way, the contents that were handed over in calls that return 0, and
the frames that the hardware emitted. -/
structure State where
  ring : Ring
  mem : Mem
  inCall : Bool
  sent : List (List UInt8)
  emitted : List (List UInt8)

inductive Event where
  /-- the caller puts bytes into memory between two calls -/
  | fill (addr : Nat) (bytes : List UInt8)
  /-- a call, up to the write of the producer index -/
  | snd (packet : Nat) (length : Int)
  /-- the rest of the call -/
  | complete
  /-- the hardware takes the next descriptor -/
  | fetch

/-- The contents of a packet. -/
def contents (mem : Mem) (packet : Nat) (length : Int) : List UInt8 := mem.read packet length.toNat

/-- One step. Steps that cannot be taken leave the state; a loop that does not end has no next state. -/
def State.step (s : State) : Event → Option State
  | .fill addr bytes => some (if s.inCall then s else { s with mem := s.mem.write addr bytes })
  | .snd packet length =>
      if s.inCall then some s
      else
        match s.ring.snd packet length with
        | none => some s
        | some ring =>
            some { s with ring := ring, inCall := true, sent := s.sent ++ [contents s.mem packet length] }
  | .complete => if s.inCall then s.ring.txComplete.map fun ring => { s with ring := ring, inCall := false } else some s
  | .fetch =>
      if s.ring.consIdx = s.ring.prodIdx then some s
      else
        let tpd := s.ring.hwDesc s.ring.consIdx
        some { s with
          ring := { s.ring with consIdx := (s.ring.consIdx + 1) % s.ring.count }
          emitted := s.emitted ++ [s.mem.read tpd.addr tpd.len] }

def State.run (s : State) : List Event → Option State
  | [] => some s
  | e :: es => (s.step e).bind fun s => s.run es

/-- The state after the ring was set up: the indices are the consumer index that the hardware has. -/
def State.init (count hwConsIdx : Nat) (hwDesc : Nat → Tpd) (mem : Mem) : State :=
  ⟨⟨count, hwDesc, hwConsIdx, hwConsIdx, hwConsIdx, hwConsIdx⟩, mem, false, [], []⟩

end Uboot.Edma
