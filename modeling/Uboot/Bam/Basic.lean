import Mathlib.Data.List.Nodup
import Mathlib.Tactic

/-!
# Descriptors of the bus access manager (`drivers/dma/bam.c`)

A pipe has a FIFO of descriptors in memory and a register with the offset up to which the hardware may go. Addresses and
the register have 32 bits, the flags of a descriptor have 8.
-/

namespace Uboot.Bam

/-- `struct bam_desc` -/
structure Desc where
  addr : Nat
  size : Nat
  flags : Nat
  deriving DecidableEq, Repr

/-- `bam_result_t` -/
inductive BamResult where
  | success
  | failure
  | timeout
  deriving DecidableEq, Repr

/-- A pipe, with `max_desc_len` of its instance. `current` is the index of the next descriptor, `evnt` the register
`BAM_P_EVNT_REG`. `writes` are the slots that have been written, and `notified` the descriptors the register was told of. -/
structure Pipe where
  size : Nat
  current : Nat
  maxDescLen : Nat
  initialized : Bool
  evnt : Nat
  writes : List (Nat × Desc)
  notified : Nat
  size_pow : ∃ k, size = 2 ^ k
  size_le : size ≤ 0x7fff
  current_lt : current < size
  maxDescLen_lt : maxDescLen < 2 ^ 16

def bamDescSize : Nat := 8
def bamDescEotFlag : Nat := 1 <<< 6
def bamDescCmdFlag : Nat := 1 <<< 3
def bamDescLockFlag : Nat := 1 <<< 2
def bamDescUnlockFlag : Nat := 1 <<< 1

/-- `fifo_getnext` on indices -/
def fifoGetnext (size desc : Nat) : Nat := if desc = size - 1 then 0 else desc + 1

theorem fifoGetnext_eq {size desc : Nat} (h : desc < size) : fifoGetnext size desc = (desc + 1) % size := by
  rw [fifoGetnext]
  split
  · rw [show desc + 1 = size by omega, Nat.mod_self]
  · rw [Nat.mod_eq_of_lt (by omega)]

/-- What `bam_add_one_desc` checks before it writes. -/
def Accepts (p : Pipe) (ptr len flags : Nat) : Prop :=
  ¬ (ptr = 0 ∨ len = 0) ∧ p.initialized ∧
    ¬ (flags &&& bamDescLockFlag ≠ 0 ∧ flags &&& bamDescUnlockFlag ≠ 0) ∧
    ¬ (flags &&& bamDescEotFlag ≠ 0 ∧ flags &&& bamDescCmdFlag ≠ 0) ∧ len ≤ p.maxDescLen

instance (p : Pipe) (ptr len flags : Nat) : Decidable (Accepts p ptr len flags) := inferInstanceAs (Decidable (_ ∧ _))

/-- The descriptor goes to the current slot. -/
def Pipe.push (p : Pipe) (d : Desc) : Pipe :=
  { p with
    current := fifoGetnext p.size p.current
    writes := p.writes ++ [(p.current, d)]
    current_lt := by
      rw [fifoGetnext_eq p.current_lt]
      exact Nat.mod_lt _ (Nat.zero_lt_of_lt p.current_lt) }

/-- `bam_add_one_desc`; its `flags` are a byte. -/
def bamAddOneDesc (p : Pipe) (ptr len flags : Nat) : BamResult × Pipe :=
  let flags := flags % 2 ^ 8
  if Accepts p ptr len flags then (.success, p.push ⟨ptr, len % 2 ^ 16, flags⟩) else (.failure, p)

/-- `bam_sys_gen_event` -/
def bamSysGenEvent (p : Pipe) (numDesc : Nat) : Pipe :=
  if p.size ≤ numDesc then p
  else
    { p with
      evnt := (p.evnt + numDesc * bamDescSize) % 2 ^ 32 &&& (p.size * bamDescSize - 1)
      notified := p.notified + numDesc }

/-- The loop of `bam_add_desc`. Each pass takes a byte at least. -/
def addLoop (flags : Nat) : Nat → Nat → Nat → Nat → Pipe → Nat × Pipe
  | 0, _, _, n, p => (n, p)
  | fuel + 1, ptr, len, n, p =>
    if len = 0 then (n, p)
    else
      let descLen := if p.maxDescLen < len then p.maxDescLen else len
      let descFlags := if p.maxDescLen < len then 0 else flags
      let len := if p.maxDescLen < len then len - p.maxDescLen else 0
      let p' := (bamAddOneDesc p ptr descLen descFlags).2
      addLoop flags fuel ((ptr + p.maxDescLen) % 2 ^ 32) len (n + 1) p'

/-- `bam_add_desc` -/
def bamAddDesc (p : Pipe) (ptr len flags : Nat) : BamResult × Pipe :=
  if ptr = 0 ∨ len = 0 then (.failure, p)
  else if p.size * p.maxDescLen < len then (.failure, p)
  else
    let r := addLoop flags len ptr len 0 p
    (.success, bamSysGenEvent r.2 r.1)

/-- The register is where the next descriptor goes. -/
def Pipe.InStep (p : Pipe) : Prop := p.evnt % (p.size * bamDescSize) = p.current * bamDescSize

/-- The slots from the current one on. -/
def Pipe.slots (p : Pipe) (n : Nat) : List Nat := (List.range n).map fun i => (p.current + i) % p.size

/-- The bytes of descriptors, in order. -/
def bytesOf (ds : List Desc) : List Nat := ds.flatMap fun d => List.range' d.addr d.size

/-- When `bam_add_desc` returns success, the descriptors that it wrote are in consecutive slots, no slot twice, they are
the given bytes in order and have the given flags on the last one, and the register has been advanced by their number. -/
def Exact (p : Pipe) (ptr len flags : Nat) : Prop :=
  ∀ p', bamAddDesc p ptr len flags = (.success, p') → ∃ ds : List Desc,
    p'.writes = p.writes ++ (p.slots ds.length).zip ds ∧ (p.slots ds.length).Nodup ∧
      bytesOf ds = List.range' ptr len ∧ ds.map Desc.flags = List.replicate (ds.length - 1) 0 ++ [flags] ∧
      p'.notified = p.notified + ds.length ∧ p'.InStep

/-- How many descriptors a length takes. -/
def numDesc (max len : Nat) : Nat := (len + max - 1) / max

/-- Where `bam_add_desc` does what it returns: the pipe is set up, the flags fit in a byte and go together, fewer
descriptors than the FIFO has slots, and the addresses do not wrap. -/
structure Sound (p : Pipe) (ptr len flags : Nat) : Prop where
  initialized : p.initialized
  byte : flags < 2 ^ 8
  lock : ¬ (flags &&& bamDescLockFlag ≠ 0 ∧ flags &&& bamDescUnlockFlag ≠ 0)
  eot : ¬ (flags &&& bamDescEotFlag ≠ 0 ∧ flags &&& bamDescCmdFlag ≠ 0)
  room : numDesc p.maxDescLen len < p.size
  wrap : ptr + (numDesc p.maxDescLen len - 1) * p.maxDescLen < 2 ^ 32

end Uboot.Bam
