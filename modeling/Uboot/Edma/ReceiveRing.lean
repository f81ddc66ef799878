import Uboot.Lib.Bytes
import Uboot.Lib.Ring

/-!
# The receive ring of the EDMA (`drivers/net/ipq40xx/ipq40xx_edma_eth.c`)

`ipq40xx_edma_rx_complete` and `ipq40xx_edma_alloc_rx_buf` with one queue. The hardware fills the buffers of the descriptors
in their order, puts a receive descriptor (RRD) of 16 bytes in front of each frame and moves its consumer index on; it stops
at the producer index. `NetReceive` leaves the other buffers alone.
-/

namespace Uboot.Edma

open Lib

/-- `IPQ40XX_EDMA_RX_RING_SIZE` -/
def rxRingSize : Nat := 16

/-- `CONFIG_SYS_RX_ETH_BUFFER` -/
def rxEthBuffer : Nat := 16

/-- `struct edma_sw_desc` -/
structure SwDesc where
  dma : Nat
  data : Nat
  length : Nat
deriving DecidableEq

/-- `struct ipq40xx_edma_desc_ring` of a receive queue, with the addresses in the free descriptors, the producer index and
`EDMA_REG_RX_SW_CONS_IDX_Q` -/
structure RxRing where
  count : Nat
  swDesc : Nat → SwDesc
  hwDesc : Nat → Nat
  swNextToFill : Nat
  swNextToClean : Nat
  prodIdx : Nat
  swConsIdx : Nat

section
variable (netRxPackets : Nat → Nat) (rxBufferLen : Nat)

/-- `while (cleaned_count--)`, with the index after it -/
def allocLoop : Nat → Nat → RxRing → RxRing
  | 0, i, r => { r with swNextToFill := i }
  | n + 1, i, r =>
      let r := { r with
        swDesc := Function.update r.swDesc i ⟨netRxPackets i, netRxPackets i, rxBufferLen⟩
        hwDesc := Function.update r.hwDesc i (netRxPackets i) }
      allocLoop n (if i + 1 = r.count then 0 else i + 1) r

/-- `ipq40xx_edma_alloc_rx_buf`; its caller ignores the result. -/
def allocRxBuf (cleanedCount : Nat) (r : RxRing) : RxRing :=
  if r.count < cleanedCount then r
  else
    let r := allocLoop netRxPackets rxBufferLen cleanedCount r.swNextToFill r
    { r with prodIdx := if r.swNextToFill = 0 then r.count - 1 else r.swNextToFill - 1 }

/-- `rrd[15] & 0x80` -/
def rrdValid (mem : Mem) (skb : Nat) : Bool := mem (skb + 15) &&& 0x80 ≠ 0

/-- `((rrd[13] & 0x3f) << 8) + rrd[12]` -/
def rrdLength (mem : Mem) (skb : Nat) : Nat := (mem (skb + 13) &&& 0x3f).toNat * 2 ^ 8 + (mem (skb + 12)).toNat

/-- What the loop of `ipq40xx_edma_rx_complete` hands up, address and length, with `sw_next_to_clean` and `cleaned_count` -/
structure Cleaned where
  passed : List (Nat × Nat)
  swNextToClean : Nat
  cleanedCount : Nat

/-- `while (rx)`; `consIdx k` is what the register gives in round `k`. -/
def rxLoop (mem : Mem) (r : RxRing) (consIdx : Nat → Nat) : Nat → Nat → Nat → Nat → Cleaned
  | 0, _, swNextToClean, _ => ⟨[], swNextToClean, 0⟩
  | rx + 1, k, swNextToClean, length =>
      if consIdx k = swNextToClean then ⟨[], swNextToClean, 0⟩
      else
        let skb := (r.swDesc swNextToClean).data
        let length := if rrdValid mem skb then rrdLength mem skb else length
        let rest := rxLoop mem r consIdx rx (k + 1) ((swNextToClean + 1) % r.count) length
        ⟨(skb + 16, length) :: rest.passed, rest.swNextToClean, rest.cleanedCount + 1⟩

/-- `ipq40xx_edma_rx_complete`: the calls of `NetReceive` and the ring -/
def rxComplete (mem : Mem) (consIdx : Nat → Nat) (r : RxRing) : List (Nat × Nat) × RxRing :=
  let c := rxLoop mem r consIdx rxEthBuffer 0 r.swNextToClean 0
  let r := { r with swNextToClean := c.swNextToClean }
  (c.passed,
    if c.cleanedCount ≠ 0 then
      let r := allocRxBuf netRxPackets rxBufferLen c.cleanedCount r
      { r with swConsIdx := r.swNextToClean }
    else r)

end

/-! ## The hardware -/

/-- The consumer index of the hardware in each round: it has filled `filled k` buffers from `start` on, which never get less,
and one slot of the ring stays free. -/
structure Hardware (start count : Nat) where
  filled : Nat → Nat
  mono : Monotone filled
  filled_lt : ∀ k, filled k < count

def Hardware.consIdx {start count : Nat} (hw : Hardware start count) (k : Nat) : Nat := (start + hw.filled k) % count

/-- The ring between two calls -/
structure RxRing.Idle (r : RxRing) : Prop where
  count : r.count = rxRingSize
  clean_lt : r.swNextToClean < r.count
  fill : r.swNextToFill = r.swNextToClean

/-- `n` slots from `i` on, in ring order -/
def slotsFrom (count i n : Nat) : List Nat := (List.range n).map fun k => (i + k) % count

/-- A frame with the length of its descriptor -/
def frame (mem : Mem) (r : RxRing) (slot : Nat) : Nat × Nat :=
  ((r.swDesc slot).data + 16, rrdLength mem (r.swDesc slot).data)

/-- The valid frames in `slots` are handed up, each once, and no others. -/
def HandsUp (mem : Mem) (r : RxRing) (slots : List Nat) (passed : List (Nat × Nat)) : Prop :=
  passed = (slots.filter fun slot => rrdValid mem (r.swDesc slot).data).map (frame mem r)

/-- Exactly `slots` have been given back, and the ring is idle again. -/
structure GivesBack (netRxPackets : Nat → Nat) (rxBufferLen : Nat) (r : RxRing) (slots : List Nat) (r' : RxRing) : Prop where
  idle : r'.Idle
  clean : r'.swNextToClean = (r.swNextToClean + slots.length) % r.count
  hwDesc : ∀ i, r'.hwDesc i = if i ∈ slots then netRxPackets i else r.hwDesc i
  swDesc : ∀ i, r'.swDesc i = if i ∈ slots then ⟨netRxPackets i, netRxPackets i, rxBufferLen⟩ else r.swDesc i
  /-- The hardware may fill up to the slot before the next one to clean. -/
  prodIdx : slots ≠ [] → (r'.prodIdx + 1) % r'.count = r'.swNextToClean ∧ r'.swConsIdx = r'.swNextToClean

/-! ## The loop -/

/-- What is handed up for `slots`: without a valid descriptor, the length is that of a frame before. -/
def handed (mem : Mem) (r : RxRing) : Nat → List Nat → List (Nat × Nat)
  | _, [] => []
  | length, slot :: slots =>
      let skb := (r.swDesc slot).data
      let length := if rrdValid mem skb then rrdLength mem skb else length
      (skb + 16, length) :: handed mem r length slots

section
variable {netRxPackets : Nat → Nat} {rxBufferLen : Nat} {mem : Mem} {r : RxRing} {slots : List Nat} {i k n length rx : Nat}

theorem handed_length (length : Nat) (slots : List Nat) : (handed mem r length slots).length = slots.length := by
  induction slots generalizing length with
  | nil => rfl
  | cons slot slots ih => rw [handed, List.length_cons, List.length_cons, ih]

theorem handed_of_valid (h : ∀ slot ∈ slots, rrdValid mem (r.swDesc slot).data = true) (length : Nat) :
    handed mem r length slots = slots.map (frame mem r) := by
  induction slots generalizing length with
  | nil => rfl
  | cons slot slots ih =>
      have hslot := h slot List.mem_cons_self
      simp only [handed, if_pos hslot, List.map_cons, frame]
      exact congrArg _ (ih (fun s hs => h s (List.mem_cons_of_mem _ hs)) _)

/-- What is handed up is right just when all descriptors are valid. -/
theorem handed_iff (slots : List Nat) (length : Nat) :
    HandsUp mem r slots (handed mem r length slots) ↔ ∀ slot ∈ slots, rrdValid mem (r.swDesc slot).data = true := by
  constructor
  · intro h
    have hlen := congrArg List.length h
    rw [handed_length, List.length_map] at hlen
    exact List.length_filter_eq_length_iff.mp hlen.symm
  · intro h
    rw [HandsUp, handed_of_valid h, List.filter_eq_self.mpr h]

theorem slotsFrom_succ {count : Nat} (hi : i < count) (n : Nat) :
    slotsFrom count i (n + 1) = i :: slotsFrom count ((i + 1) % count) n := by
  have hrest : ∀ k, ((i + 1) % count + k) % count = (i + (k + 1)) % count := fun k => by
    rw [Nat.mod_add_mod, Nat.add_assoc, Nat.add_comm 1]
  simp only [slotsFrom, hrest, List.range_succ_eq_map, List.map_cons, List.map_map, Nat.add_zero, Nat.mod_eq_of_lt hi,
    Function.comp_def]

/-- The rounds from `k` on end where the hardware has filled no more. -/
theorem rxLoop_spec (hlt : r.swNextToClean < r.count) (hw : Hardware r.swNextToClean r.count) (hk : k ≤ hw.filled k)
    (hrx : rx + k = r.count) (length : Nat) :
    ∃ n, hw.filled (k + n) = k + n ∧ (∀ j < n, hw.filled (k + j) ≠ k + j) ∧
      rxLoop mem r hw.consIdx rx k ((r.swNextToClean + k) % r.count) length =
        ⟨handed mem r length (slotsFrom r.count ((r.swNextToClean + k) % r.count) n),
          (r.swNextToClean + (k + n)) % r.count, n⟩ := by
  induction rx generalizing k length with
  | zero =>
      have := hw.filled_lt k
      omega
  | succ rx ih =>
      have hfilled := hw.filled_lt k
      by_cases hend : hw.filled k = k
      · refine ⟨0, hend, fun j hj => absurd hj (Nat.not_lt_zero j), ?_⟩
        rw [rxLoop, Hardware.consIdx, hend, if_pos rfl]
        rfl
      · have hne : hw.consIdx k ≠ (r.swNextToClean + k) % r.count :=
          fun heq => hend (add_mod_inj hlt hfilled (by omega) heq)
        have hnext : k + 1 ≤ hw.filled (k + 1) := by
          have := hw.mono (Nat.le_add_right k 1)
          omega
        have hclean : ((r.swNextToClean + k) % r.count + 1) % r.count = (r.swNextToClean + (k + 1)) % r.count := by
          rw [Nat.mod_add_mod, Nat.add_assoc]
        obtain ⟨n, hfix, hbefore, hloop⟩ := ih hnext (by omega)
          (if rrdValid mem (r.swDesc ((r.swNextToClean + k) % r.count)).data
            then rrdLength mem (r.swDesc ((r.swNextToClean + k) % r.count)).data else length)
        refine ⟨n + 1, by rw [show k + (n + 1) = k + 1 + n by omega]; exact hfix, ?_, ?_⟩
        · intro j hj
          cases j with
          | zero => exact hend
          | succ j =>
              have := hbefore j (by omega)
              rwa [show k + (j + 1) = k + 1 + j by omega]
        · rw [rxLoop, if_neg hne]
          dsimp only
          rw [hclean, hloop, slotsFrom_succ (Nat.mod_lt _ (by omega)), hclean, handed, show k + 1 + n = k + (n + 1) by omega]

/-! ## Giving back -/

/-- Descriptors from `i` on are refilled. -/
theorem allocLoop_spec (hi : i < r.count) (n : Nat) :
    (allocLoop netRxPackets rxBufferLen n i r).count = r.count ∧
    (allocLoop netRxPackets rxBufferLen n i r).swNextToFill = (i + n) % r.count ∧
    (allocLoop netRxPackets rxBufferLen n i r).swNextToClean = r.swNextToClean ∧
    (∀ j, (allocLoop netRxPackets rxBufferLen n i r).hwDesc j =
      if j ∈ slotsFrom r.count i n then netRxPackets j else r.hwDesc j) ∧
    ∀ j, (allocLoop netRxPackets rxBufferLen n i r).swDesc j =
      if j ∈ slotsFrom r.count i n then ⟨netRxPackets j, netRxPackets j, rxBufferLen⟩ else r.swDesc j := by
  induction n generalizing i r with
  | zero => exact ⟨rfl, (Nat.mod_eq_of_lt hi).symm, rfl, fun _ => rfl, fun _ => rfl⟩
  | succ n ih =>
      have hnext : (if i + 1 = r.count then 0 else i + 1) = (i + 1) % r.count := by
        split
        next heq => rw [heq, Nat.mod_self]
        next hne => rw [Nat.mod_eq_of_lt (by omega)]
      have hlt : (i + 1) % r.count < r.count := Nat.mod_lt _ (by omega)
      obtain ⟨hcount, hfill, hclean, hhw, hsw⟩ := @ih { r with
        swDesc := Function.update r.swDesc i ⟨netRxPackets i, netRxPackets i, rxBufferLen⟩
        hwDesc := Function.update r.hwDesc i (netRxPackets i) } ((i + 1) % r.count) hlt
      rw [allocLoop, hnext, slotsFrom_succ hi]
      refine ⟨hcount, ?_, hclean, fun j => ?_, fun j => ?_⟩
      · rw [hfill, Nat.mod_add_mod, Nat.add_assoc, Nat.add_comm 1]
      · rw [hhw]
        by_cases hj : j = i
        · simp [hj]
        · simp [hj]
      · rw [hsw]
        by_cases hj : j = i
        · simp [hj]
        · simp [hj]

theorem slotsFrom_length (count i n : Nat) : (slotsFrom count i n).length = n := by
  rw [slotsFrom, List.length_map, List.length_range]

/-- After the loop, the slots that were cleaned are given back. -/
theorem rxComplete_gives (hidle : r.Idle) (hn : n ≤ r.count) {mem : Mem} {consIdx : Nat → Nat} {passed : List (Nat × Nat)}
    (hloop : rxLoop mem r consIdx rxEthBuffer 0 r.swNextToClean 0 = ⟨passed, (r.swNextToClean + n) % r.count, n⟩) :
    (rxComplete netRxPackets rxBufferLen mem consIdx r).1 = passed ∧
      GivesBack netRxPackets rxBufferLen r (slotsFrom r.count r.swNextToClean n)
        (rxComplete netRxPackets rxBufferLen mem consIdx r).2 := by
  have hclean := hidle.clean_lt
  rw [rxComplete, hloop]
  refine ⟨rfl, ?_⟩
  dsimp only
  by_cases hzero : n = 0
  · rw [if_neg (not_not_intro hzero), hzero, Nat.add_zero, Nat.mod_eq_of_lt hclean]
    exact ⟨⟨hidle.count, hclean, hidle.fill⟩, (Nat.mod_eq_of_lt hclean).symm, fun _ => rfl, fun _ => rfl,
      fun h => absurd rfl h⟩
  · have hlt : (r.swNextToClean + n) % r.count < r.count := Nat.mod_lt _ (by omega)
    obtain ⟨r₁, hr₁⟩ : ∃ r₁ : RxRing, r₁ = { r with swNextToClean := (r.swNextToClean + n) % r.count } := ⟨_, rfl⟩
    have hcount₁ : r₁.count = r.count := by rw [hr₁]
    have hfill₁ : r₁.swNextToFill = r.swNextToClean := by rw [hr₁]; exact hidle.fill
    have hclean₁ : r₁.swNextToClean = (r.swNextToClean + n) % r.count := by rw [hr₁]
    obtain ⟨hcount, hfill, hclean', hhw, hsw⟩ :=
      @allocLoop_spec netRxPackets rxBufferLen r₁ r.swNextToClean (hcount₁ ▸ hclean) n
    rw [if_pos hzero, ← hr₁, allocRxBuf, if_neg (by omega), hfill₁]
    generalize allocLoop netRxPackets rxBufferLen n r.swNextToClean r₁ = a at *
    rw [hcount₁] at hcount hfill hhw hsw
    rw [hclean₁] at hclean'
    refine ⟨⟨hcount.trans hidle.count, ?_, hfill.trans hclean'.symm⟩, ?_, fun j => ?_, fun j => ?_, fun _ => ⟨?_, rfl⟩⟩
    · dsimp only
      rwa [hcount, hclean']
    · dsimp only
      rw [hclean', slotsFrom_length]
    · rw [hr₁] at hhw
      exact hhw j
    · rw [hr₁] at hsw
      exact hsw j
    · dsimp only
      rw [hcount, hclean', hfill]
      split
      next hz => rw [hz, Nat.sub_add_cancel (by omega), Nat.mod_self]
      next hnz => rw [Nat.sub_add_cancel (by omega), Nat.mod_eq_of_lt hlt]

/-- One call hands up what the hardware has filled, gives exactly that back and leaves the ring idle; the frames are the valid
ones, each with its own length, just when all descriptors are valid. -/
theorem rx_complete_iff (hidle : r.Idle) (hw : Hardware r.swNextToClean r.count) (mem : Mem) (netRxPackets : Nat → Nat)
    (rxBufferLen : Nat) :
    ∃ n, hw.filled n = n ∧ (∀ k < n, hw.filled k ≠ k) ∧
      GivesBack netRxPackets rxBufferLen r (slotsFrom r.count r.swNextToClean n)
        (rxComplete netRxPackets rxBufferLen mem hw.consIdx r).2 ∧
      (HandsUp mem r (slotsFrom r.count r.swNextToClean n) (rxComplete netRxPackets rxBufferLen mem hw.consIdx r).1 ↔
        ∀ slot ∈ slotsFrom r.count r.swNextToClean n, rrdValid mem (r.swDesc slot).data = true) := by
  obtain ⟨n, hfix, hbefore, hloop⟩ := @rxLoop_spec mem r 0 rxEthBuffer hidle.clean_lt hw (Nat.zero_le _)
    (by rw [hidle.count]; rfl) 0
  simp only [Nat.zero_add] at hfix hbefore
  rw [Nat.add_zero, Nat.zero_add, Nat.mod_eq_of_lt hidle.clean_lt] at hloop
  have hn : n ≤ r.count := by
    have := hw.filled_lt n
    omega
  obtain ⟨hpassed, hgives⟩ := @rxComplete_gives netRxPackets rxBufferLen r n hidle hn mem hw.consIdx _ hloop
  refine ⟨n, hfix, hbefore, hgives, ?_⟩
  rw [hpassed]
  exact handed_iff _ 0

end

/-- A ring whose buffers are 2048 bytes apart -/
def sampleRing : RxRing := ⟨16, fun i => ⟨2048 * i, 2048 * i, 1540⟩, fun i => 2048 * i, 3, 3, 2, 3⟩

theorem sampleRing_idle : sampleRing.Idle := ⟨rfl, by decide, rfl⟩

/-- The hardware has filled `n` buffers. -/
def filledHardware (n : Nat) (h : n < 16) : Hardware sampleRing.swNextToClean sampleRing.count :=
  ⟨fun _ => n, fun _ _ _ => Nat.le_refl n, fun _ => h⟩

/-- All descriptors are valid, with a length of 60. -/
def validMem : Mem := fun a => if a % 2048 = 15 then 0x80 else if a % 2048 = 12 then 60 else 0

theorem rx_complete_sample : ∃ n, (filledHardware 2 (by decide)).filled n = n ∧
    HandsUp validMem sampleRing (slotsFrom 16 3 n) (rxComplete (2048 * ·) 1540 validMem
      (filledHardware 2 (by decide)).consIdx sampleRing).1 := by
  obtain ⟨n, hfix, -, -, hiff⟩ := rx_complete_iff sampleRing_idle (filledHardware 2 (by decide)) validMem (2048 * ·) 1540
  refine ⟨n, hfix, hiff.mpr ?_⟩
  have htwo : 2 = n := hfix
  subst htwo
  decide

/-- The descriptor of slot 3 is not valid, that of slot 4 is. -/
def mixedMem : Mem := fun a => if a = 2048 * 3 + 15 then 0 else validMem a

/-- Both frames are handed up, the first one with the length 0. -/
theorem rx_complete_passes_invalid : sampleRing.Idle ∧ rrdValid mixedMem (sampleRing.swDesc 3).data = false ∧
    (rxComplete (2048 * ·) 1540 mixedMem (filledHardware 2 (by decide)).consIdx sampleRing).1 =
      [(2048 * 3 + 16, 0), (2048 * 4 + 16, 60)] ∧
    ¬ HandsUp mixedMem sampleRing (slotsFrom 16 3 2)
      (rxComplete (2048 * ·) 1540 mixedMem (filledHardware 2 (by decide)).consIdx sampleRing).1 := by
  refine ⟨sampleRing_idle, by decide, by decide, ?_⟩
  rw [HandsUp]
  decide

end Uboot.Edma
