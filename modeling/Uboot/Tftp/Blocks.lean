import Uboot.Tftp.Basic

/-!
# Block numbers

Block `i` of a transfer carries the number `i` modulo `2 ^ 16`, and `TftpBlockWrapOffset` makes up for the wraps.
-/

namespace Uboot.Tftp

/-- The wrap offset that block `i` needs. -/
def wrapOffset (blkSize i : Nat) : Nat := i / 65536 * 65536 * blkSize % wordSize

theorem wrapOffset_succ (blkSize i : Nat) : wrapOffset blkSize (i + 1) =
    if (i + 1) % 65536 = 0 then (wrapOffset blkSize i + blkSize * 65536) % wordSize
    else wrapOffset blkSize i := by
  split
  next h0 =>
    have hdiv : (i + 1) / 65536 = i / 65536 + 1 := by omega
    rw [wrapOffset, wrapOffset, hdiv, Nat.mod_add_mod]
    congr 1
    ring
  next h0 =>
    have hdiv : (i + 1) / 65536 = i / 65536 := by omega
    rw [wrapOffset, wrapOffset, hdiv]

/-- The offset from the block number, also when it has wrapped to 0. -/
theorem block_offset (blkSize i : Nat) (hi : i * blkSize < wordSize) :
    (((i + 1) % 65536 + wordSize - 1) * blkSize + wrapOffset blkSize (i + 1)) % wordSize = i * blkSize := by
  have hsum : ((i + 1) % 65536 + wordSize - 1) * blkSize + (i + 1) / 65536 * 65536 * blkSize =
      i * blkSize + wordSize * blkSize := by
    rw [← Nat.add_mul, ← Nat.add_mul]
    congr 1
    simp only [wordSize]
    omega
  rw [wrapOffset, Nat.add_mod_mod, hsum, Nat.add_mul_mod_self_left, Nat.mod_eq_of_lt hi]

/-- `update_block_number` moves the wrap offset at every number 0. -/
theorem updateBlockNumber_eq (c : Client) : ∃ t, updateBlockNumber c = { c with
    tftpBlockWrapOffset := if c.tftpBlock = 0 then (c.tftpBlockWrapOffset + c.tftpBlkSize * 65536) % wordSize
      else c.tftpBlockWrapOffset
    tftpTimeoutCount := t } := by
  by_cases h0 : c.tftpBlock = 0
  · exact ⟨0, by rw [updateBlockNumber, if_pos h0, if_pos h0]; rfl⟩
  · exact ⟨c.tftpTimeoutCount, by rw [updateBlockNumber, if_neg h0, if_neg h0]⟩

/-- What the client sends: requests, and packets about a block. -/
inductive Msg where
  | request (m : List UInt8)
  | block (i : Nat)

def Msg.bytes (packet : Nat → List UInt8) : Msg → List UInt8
  | .request m => m
  | .block i => packet i

/-- Blocks are in order. -/
def Msg.Le : Msg → Msg → Prop
  | .block i, .block j => i ≤ j
  | _, _ => True

theorem Msg.le_refl (m : Msg) : Msg.Le m m := by
  cases m with
  | request m => trivial
  | block i => exact Nat.le_refl i

end Uboot.Tftp
