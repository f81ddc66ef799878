import Mathlib.Algebra.Group.Nat.Defs
import Mathlib.Logic.Function.Basic

/-!
# MMC block transfers

`mmc_bwrite` and `mmc_bread` of `drivers/mmc/mmc.c`. `ulong` and `lbaint_t` have 32 bits, blocks have 512 bytes and are
values of a type `α`. A source is given by its blocks; a destination is what the read commands delivered, in order.
-/

namespace Uboot.Mmc

def ulong (n : Nat) : Nat := n % 2 ^ 32

/-- `write_bl_len` and `read_bl_len` -/
def blLen : Nat := 512

/-- What the transfers read of `struct mmc`. -/
structure Dev where
  highCapacity : Bool
  /-- `block_dev.lba` -/
  lba : Nat
  bMax : Nat
  hostIsSpi : Bool
  lba_lt : lba < 2 ^ 32
  bMax_pos : 0 < bMax
  /-- The CSD of a byte-addressed card gives a size that byte addresses reach. -/
  bytes_lt : highCapacity = false → lba * blLen < 2 ^ 32

inductive Cmd where
  | setBlocklen (len : Nat)
  | write (cmdarg blocks : Nat)
  | read (cmdarg blocks : Nat)
  | stopTransmission
  | sendStatus
  deriving DecidableEq, Repr

/-- How a command ends: an error after some of its blocks, or `response[0]`. -/
structure Fate where
  err : Bool
  moved : Nat
  response : BitVec 32

/-- The commands sent, and the blocks of the card that were transferred with their bytes. -/
structure Host (α : Type) where
  log : List Cmd
  xfer : List (Nat × α)

def Host.init {α : Type} : Host α := ⟨[], []⟩

/-- The block that a card finds at an address. -/
def Dev.blockAt (m : Dev) (cmdarg : Nat) : Nat := if m.highCapacity then cmdarg else cmdarg / blLen

/-- The address for a block, as the code computes it. -/
def Dev.cmdarg (m : Dev) (start : Nat) : Nat := if m.highCapacity then start else ulong (start * blLen)

variable {α : Type}

/-- `mmc_send_cmd` with blocks to transfer. The fate of a command depends on its place in the sequence. -/
def mmcSendCmd (fate : Nat → Fate) (cmd : Cmd) (blocks : List (Nat × α)) (s : Host α) : Bool × Host α :=
  let f := fate s.log.length
  (f.err, ⟨s.log ++ [cmd], s.xfer ++ if f.err then blocks.take f.moved else blocks⟩)

/-! ## `mmc_send_status` and `mmc_set_blocklen` -/

def statusReady (r : BitVec 32) : Bool :=
  r &&& (1#32 <<< 8) != 0 && r &&& (0xf#32 <<< 9) != 7#32 <<< 9

/-- `MMC_STATUS_MASK` -/
def statusMask : BitVec 32 := ~~~0x0206BF7F#32

/-- The loop of `mmc_send_status`. The count runs on to -1, which is not taken for a timeout. -/
def statusLoop (fate : Nat → Fate) : Nat → Nat → Host α → Bool × Host α
  | timeout, retries, s =>
    let f := fate s.log.length
    let s' : Host α := { s with log := s.log ++ [.sendStatus] }
    if f.err then
      match retries, timeout with
      | 0, _ => (true, s')
      | _ + 1, 0 => (false, s')
      | retries + 1, timeout + 1 => statusLoop fate timeout retries s'
    else if statusReady f.response then (timeout = 0, s')
    else if f.response &&& statusMask ≠ 0 then (true, s')
    else
      match timeout with
      | 0 => (false, s')
      | timeout + 1 => statusLoop fate timeout retries s'

def mmcSendStatus (fate : Nat → Fate) (timeout : Nat) (s : Host α) : Bool × Host α := statusLoop fate timeout 5 s

def mmcSetBlocklen (fate : Nat → Fate) (len : Nat) (s : Host α) : Bool × Host α :=
  mmcSendCmd fate (.setBlocklen len) [] s

/-- `mmc_send_cmd` of `MMC_CMD_STOP_TRANSMISSION`, where it is needed. -/
def stopTransmission (fate : Nat → Fate) (needed : Bool) (s : Host α) : Bool × Host α :=
  if needed then mmcSendCmd fate .stopTransmission [] s else (false, s)

/-! ## Writing -/

/-- `mmc_write_blocks`; `src` are the blocks from the source pointer on -/
def mmcWriteBlocks (m : Dev) (fate : Nat → Fate) (start blkcnt : Nat) (src : Nat → α) (s : Host α) : Nat × Host α :=
  if ulong (start + blkcnt) > m.lba then (0, s)
  else
    let arg := m.cmdarg start
    let w := mmcSendCmd fate (.write arg blkcnt)
      ((List.range blkcnt).map fun k => (m.blockAt arg + k, src k)) s
    if w.1 then (0, w.2)
    else
      let stop := stopTransmission fate (!m.hostIsSpi && blkcnt > 1) w.2
      if stop.1 then (0, stop.2)
      else
        let status := mmcSendStatus fate 1000 stop.2
        if status.1 then (0, status.2) else (blkcnt, status.2)

/-- `(blocks_todo > mmc->b_max) ? mmc->b_max : blocks_todo` -/
def Dev.cur (m : Dev) (todo : Nat) : Nat := if todo > m.bMax then m.bMax else todo

theorem Dev.cur_le (m : Dev) (todo : Nat) : m.cur todo ≤ todo := by
  simp only [cur]
  split <;> omega

theorem Dev.cur_pos (m : Dev) {todo : Nat} (h : 0 < todo) : 0 < m.cur todo := by
  have := m.bMax_pos
  simp only [cur]
  split <;> omega

/-- The loop of `mmc_bwrite`; `true` when it ends without an early return. -/
def bwriteLoop (m : Dev) (fate : Nat → Fate) (start todo : Nat) (src : Nat → α) (s : Host α) : Bool × Host α :=
  let cur := m.cur todo
  let r := mmcWriteBlocks m fate start cur src s
  if r.1 ≠ cur then (false, r.2)
  else if 0 < todo - cur then bwriteLoop m fate (ulong (start + cur)) (todo - cur) (fun k => src (cur + k)) r.2
  else (true, r.2)
termination_by todo
decreasing_by
  have h := m.cur_pos (show 0 < todo by omega)
  simp only [cur] at *
  omega

def mmcBwrite (m : Dev) (fate : Nat → Fate) (start blkcnt : Nat) (src : Nat → α) : Nat × Host α :=
  let len := mmcSetBlocklen fate blLen .init
  if len.1 then (0, len.2)
  else
    let r := bwriteLoop m fate start blkcnt src len.2
    (if r.1 then blkcnt else 0, r.2)

/-! ## Reading -/

/-- `mmc_read_blocks` -/
def mmcReadBlocks (m : Dev) (fate : Nat → Fate) (card : Nat → α) (start blkcnt : Nat) (s : Host α) : Nat × Host α :=
  let arg := m.cmdarg start
  let r := mmcSendCmd fate (.read arg blkcnt)
    ((List.range blkcnt).map fun k => (m.blockAt arg + k, card (m.blockAt arg + k))) s
  if r.1 then (0, r.2)
  else
    let stop := stopTransmission fate (blkcnt > 1) r.2
    if stop.1 then (0, stop.2) else (blkcnt, stop.2)

/-- The loop of `mmc_bread`. -/
def breadLoop (m : Dev) (fate : Nat → Fate) (card : Nat → α) (start todo : Nat) (s : Host α) : Bool × Host α :=
  let cur := m.cur todo
  let r := mmcReadBlocks m fate card start cur s
  if r.1 ≠ cur then (false, r.2)
  else if 0 < todo - cur then breadLoop m fate card (ulong (start + cur)) (todo - cur) r.2
  else (true, r.2)
termination_by todo
decreasing_by
  have h := m.cur_pos (show 0 < todo by omega)
  simp only [cur] at *
  omega

def mmcBread (m : Dev) (fate : Nat → Fate) (card : Nat → α) (start blkcnt : Nat) : Nat × Host α :=
  if blkcnt = 0 then (0, .init)
  else if ulong (start + blkcnt) > m.lba then (0, .init)
  else
    let len := mmcSetBlocklen fate blLen .init
    if len.1 then (0, len.2)
    else
      let r := breadLoop m fate card start blkcnt len.2
      (if r.1 then blkcnt else 0, r.2)

/-- The destination. -/
def Host.dst (s : Host α) : List α := s.xfer.map Prod.snd

/-- The card after the writes. -/
def putBlocks (card : Nat → α) (xfer : List (Nat × α)) : Nat → α :=
  xfer.foldl (fun card w => Function.update card w.1 w.2) card

end Uboot.Mmc
