import Uboot.Tftp.Blocks
import Uboot.Tftp.Upload

/-!
# An upload is exact

`i` is the block that the client is sending. The server has accepted it or the block before, every block in flight is
the last accepted one or the next, and every ACK in flight is for block `i - 1` or `i`.
-/

namespace Uboot.Tftp

open Uboot.Lib

/-! ## The client -/

/-- The client's variables while it sends block `i` of `bytes`; 0 is the request. -/
def PutMode (snk : Sink) (bytes : List UInt8) (i : Nat) (c : Client) : Prop :=
  match c.tftpState with
  | .sendWrq => i = 0 ∧ c.tftpFinalBlock = false ∧ c.tftpBlockWrapOffset = 0 ∧ c.tftpBlkSize = tftpBlockSize ∧
      (c.tftpBlock = 0 ∨ c.tftpBlock = 1 ∧ snk.offer.opts = none)
  | .data => 0 < i ∧ i ≤ chunkCount bytes snk.blkSize ∧ c.tftpBlock = i % 65536 ∧
      c.tftpBlockWrapOffset = wrapOffset snk.blkSize i ∧ c.tftpBlkSize = snk.blkSize ∧
      c.tftpRemotePort = snk.port ∧ c.tftpFinalBlock = decide (i = chunkCount bytes snk.blkSize) ∧
      snk.offer.opts.isSome
  | _ => False

/-- What the client sends from. -/
structure Source (bytes : List UInt8) (c : Client) : Prop where
  writing : c.tftpWriting = true
  fits : c.saveAddr + bytes.length ≤ wordSize
  length_lt : bytes.length < wordSize
  size_eq : c.netBootFileXferSize = bytes.length
  read_eq : c.mem.read c.saveAddr bytes.length = bytes

def putPacket (snk : Sink) (bytes : List UInt8) (i : Nat) : List UInt8 :=
  dataPacket i (chunk bytes snk.blkSize (i - 1))

section
variable {snk : Sink} {bytes : List UInt8} {i : Nat} {c : Client}

/-- `load_block` loads the block that the block number stands for. -/
theorem Source.loadBlock (h : Source bytes c) (hi : i < chunkCount bytes snk.blkSize)
    (hwrap : c.tftpBlockWrapOffset = wrapOffset snk.blkSize (i + 1)) :
    loadBlock c ((i + 1) % 65536) snk.blkSize = chunk bytes snk.blkSize i := by
  have hle := chunk_mul_le hi
  have hlen := h.length_lt
  have hfits := h.fits
  have hoff := block_offset snk.blkSize i (by omega)
  have hsize : (bytes.length + wordSize - i * snk.blkSize) % wordSize = bytes.length - i * snk.blkSize := by
    rw [show bytes.length + wordSize - i * snk.blkSize = bytes.length - i * snk.blkSize + wordSize by omega,
      Nat.add_mod_right, Nat.mod_eq_of_lt (by omega)]
  simp only [Tftp.loadBlock, hwrap, hoff, h.size_eq, hsize]
  rw [chunk, ← h.read_eq, Mem.read_slice, h.read_eq, Nat.min_comm]
  by_cases hend : c.saveAddr + i * snk.blkSize < wordSize
  · rw [Nat.mod_eq_of_lt hend]
  · -- nothing is left to send
    have hzero : bytes.length - i * snk.blkSize = 0 := by omega
    rw [hzero, Nat.min_zero]
    rfl

/-- The client sends block `i`. -/
theorem Source.send (h : Source bytes c) (hi : i < chunkCount bytes snk.blkSize) (hstate : c.tftpState = .data)
    (hblock : c.tftpBlock = (i + 1) % 65536) (hblk : c.tftpBlkSize = snk.blkSize)
    (hwrap : c.tftpBlockWrapOffset = wrapOffset snk.blkSize (i + 1)) :
    tftpSend c = ({ c with tftpFinalBlock := decide (i + 1 = chunkCount bytes snk.blkSize) },
      putPacket snk bytes (i + 1)) := by
  have hload := h.loadBlock hi hwrap
  have hshort := chunk_short_iff snk.blkSize_pos hi
  have hpkt : dataPacket ((i + 1) % 65536) (chunk bytes snk.blkSize i) = putPacket snk bytes (i + 1) := by
    rw [dataPacket, be16_mod]
    rfl
  simp only [tftpSend, hstate, h.writing, if_true, hblock, hblk, hload, hpkt]
  congr 2
  exact decide_eq_decide.mpr hshort

structure PutClient (snk : Sink) (bytes : List UInt8) (i : Nat) (c : Client) : Prop where
  source : Source bytes c
  mode : PutMode snk bytes i c

theorem PutMode.cases (h : PutMode snk bytes i c) : c.tftpState = .sendWrq ∨ c.tftpState = .data := by
  unfold PutMode at h
  split at h
  next hs => exact Or.inl hs
  next hs => exact Or.inr hs
  next => exact h.elim

theorem PutMode.port (h : PutMode snk bytes i c) :
    c.tftpState = .sendRrq ∨ c.tftpState = .sendWrq ∨ c.tftpRemotePort = snk.port := by
  rcases h.cases with hs | hs
  · exact Or.inr (Or.inl hs)
  · simp only [PutMode, hs] at h
    exact Or.inr (Or.inr h.2.2.2.2.2.1)

/-- What `TftpSend` sends. -/
theorem PutClient.send (h : PutClient snk bytes i c) : ∃ msg, tftpSend c = (c, Msg.bytes (putPacket snk bytes) msg) ∧
    ((∃ m, msg = .request m ∧ ntohs m = 2) ∨ (0 < i ∧ msg = .block i)) := by
  have hmode := h.mode
  rcases h.mode.cases with hs | hs
  · exact ⟨.request (requestPacket 2 c), by simp [tftpSend, hs, Msg.bytes], Or.inl ⟨_, rfl, ntohs_requestPacket 2 c⟩⟩
  · simp only [PutMode, hs] at hmode
    obtain ⟨hpos, hle, hblock, hwrap, hblk, -, hfinal, -⟩ := hmode
    obtain ⟨j, rfl⟩ : ∃ j, i = j + 1 := ⟨i - 1, by omega⟩
    refine ⟨.block (j + 1), ?_, Or.inr ⟨hpos, rfl⟩⟩
    rw [h.source.send hle hs hblock hblk hwrap, ← hfinal]
    rfl

/-- An ACK arrives. -/
theorem tftpHandler_ack (hport : c.tftpState = .sendRrq ∨ c.tftpState = .sendWrq ∨ c.tftpRemotePort = snk.port)
    {q : Nat} (hq : snk.isOack q = false) (stale : List UInt8) :
    tftpHandler c (snk.packet q ++ stale) c.tftpOurPort snk.port (snk.packet q).length =
      handleAck c (be16 q ++ stale) := by
  have hpkt : snk.packet q = be16 4 ++ be16 q := by rw [Sink.packet, hq]; rfl
  have hlen : (snk.packet q).length = 4 := by rw [hpkt]; rfl
  rw [tftpHandler_eq hport (by omega), hpkt, List.append_assoc, ntohs_be16, drop_be16]
  rfl

/-- The OACK arrives for the first time. -/
theorem PutClient.handle_oack (h : PutClient snk bytes i c) {q : Nat} (hq : snk.isOack q = true)
    (hstate : c.tftpState = .sendWrq) (stale : List UInt8) :
    ∃ c', tftpHandler c (snk.packet q ++ stale) c.tftpOurPort snk.port (snk.packet q).length =
        (c', some (putPacket snk bytes 1)) ∧ PutClient snk bytes 1 c' ∧ c'.netState = c.netState := by
  obtain ⟨o, ho⟩ : ∃ o, snk.offer.opts = some o := by
    simp only [Sink.isOack, decide_eq_true_eq] at hq
    exact Option.isSome_iff_exists.mp hq.2
  have hpkt : snk.packet q = be16 6 ++ optsBytes o := by rw [Sink.packet, if_pos hq, ho]; rfl
  have hlen : (snk.packet q).length = (optsBytes o).length + 2 := by rw [hpkt]; rfl
  have hmode := h.mode
  simp only [PutMode, hstate] at hmode
  obtain ⟨rfl, hfinal, hwrap, hblk, hblock⟩ := hmode
  have hblock : c.tftpBlock = 0 := by
    rcases hblock with hb | ⟨-, hb⟩
    · exact hb
    · rw [ho] at hb; cases hb
  have hsize : optsBlkSize o c.tftpBlkSize = snk.blkSize := by
    rw [hblk, Sink.blkSize, Offer.blkSize, ho]
    rfl
  obtain ⟨c1, hc1⟩ : ∃ c1 : Client, c1 = { c with
    tftpState := .data, tftpRemotePort := snk.port, tftpBlkSize := snk.blkSize, tftpWriting := true,
    tftpBlock := 1 } := ⟨_, rfl⟩
  have hsource : Source bytes c1 := by
    rw [hc1]
    exact ⟨rfl, h.source.fits, h.source.length_lt, h.source.size_eq, h.source.read_eq⟩
  have hcount : 0 < chunkCount bytes snk.blkSize := Nat.succ_pos _
  have hw0 : wrapOffset snk.blkSize 1 = 0 := by simp [wrapOffset]
  have hsend := hsource.send (i := 0) hcount (by rw [hc1]) (by rw [hc1]) (by rw [hc1]) (by rw [hc1]; exact hwrap.trans hw0.symm)
  refine ⟨{ c1 with tftpFinalBlock := decide (1 = chunkCount bytes snk.blkSize) }, ?_, ⟨?_, ?_⟩, by rw [hc1]⟩
  · rw [tftpHandler_eq h.mode.port (by omega), hpkt, List.append_assoc, ntohs_be16, drop_be16, ← hpkt, hlen,
      Nat.add_sub_cancel]
    have hwriting := h.source.writing
    simp only [handleOack, oackLoop_opts (snk.offer.optsOk o ho), hsize, hwriting, if_true, hblock]
    simp only [show (0 + 1) % wordSize = 1 from rfl, ← hc1, hsend]
    rfl
  · exact ⟨hsource.writing, hsource.fits, hsource.length_lt, hsource.size_eq, hsource.read_eq⟩
  · rw [hc1]
    exact ⟨by omega, hcount, rfl, hwrap.trans hw0.symm, rfl, rfl, rfl, by rw [ho]; rfl⟩

theorem handleAck_eq (h : Source bytes c) (q : Nat) (stale : List UInt8) (hfinal : c.tftpFinalBlock = false) :
    handleAck c (be16 q ++ stale) =
      let c1 := updateBlockNumber { c with tftpBlock := (q + 1) % 65536 }
      if c.tftpBlock = q % 65536 then ((tftpSend c1).1, some (tftpSend c1).2) else (c1, none) := by
  have hnum : (q % 65536 + 1) % 65536 = (q + 1) % 65536 := Nat.mod_add_mod q 65536 1
  simp only [handleAck, h.writing, hfinal, if_true, Bool.false_eq_true, if_false, ntohs_be16, hnum]

/-- The ACK of block 0 answers the request, and the request is sent again. -/
theorem PutClient.handle_ack_request (h : PutClient snk bytes i c) (hq : snk.isOack 0 = false)
    (hstate : c.tftpState = .sendWrq) (stale : List UInt8) :
    ∃ c' out, tftpHandler c (snk.packet 0 ++ stale) c.tftpOurPort snk.port (snk.packet 0).length = (c', out) ∧
      PutClient snk bytes 0 c' ∧ c'.netState = c.netState ∧ (∀ m ∈ out, ntohs m = 2) := by
  have hopts : snk.offer.opts = none := by
    simp only [Sink.isOack, true_and, decide_eq_false_iff_not] at hq
    exact Option.not_isSome_iff_eq_none.mp hq
  have hmode := h.mode
  simp only [PutMode, hstate] at hmode
  obtain ⟨rfl, hfinal, hwrap, hblk, hblock⟩ := hmode
  obtain ⟨c1, hc1⟩ : ∃ c1 : Client, c1 = { c with tftpBlock := 1 } := ⟨_, rfl⟩
  have hinv : PutClient snk bytes 0 c1 := by
    rw [hc1]
    refine ⟨⟨h.source.writing, h.source.fits, h.source.length_lt, h.source.size_eq, h.source.read_eq⟩, ?_⟩
    simp only [PutMode, hstate]
    exact ⟨trivial, hfinal, hwrap, hblk, Or.inr ⟨trivial, hopts⟩⟩
  have hupd : updateBlockNumber { c with tftpBlock := (0 + 1) % 65536 } = c1 := by rw [hc1]; rfl
  have hnet : c1.netState = c.netState := by rw [hc1]
  have hs1 : c1.tftpState = .sendWrq := by rw [hc1]; exact hstate
  rw [tftpHandler_ack h.mode.port hq, handleAck_eq h.source 0 stale hfinal, hupd]
  dsimp only
  split
  next =>
    have hsend : tftpSend c1 = (c1, requestPacket 2 c1) := by simp [tftpSend, hs1]
    refine ⟨c1, some (requestPacket 2 c1), by rw [hsend], hinv, hnet, ?_⟩
    intro m hm
    cases hm
    exact ntohs_requestPacket 2 c1
  next => exact ⟨c1, none, rfl, hinv, hnet, fun m hm => by cases hm⟩

/-- The ACK of the block arrives, and the next one is sent. -/
theorem PutClient.handle_ack (h : PutClient snk bytes i c) (hstate : c.tftpState = .data)
    (hfinal : c.tftpFinalBlock = false) (hq : snk.isOack i = false) (stale : List UInt8) :
    ∃ c', tftpHandler c (snk.packet i ++ stale) c.tftpOurPort snk.port (snk.packet i).length =
        (c', some (putPacket snk bytes (i + 1))) ∧ PutClient snk bytes (i + 1) c' ∧ c'.netState = c.netState := by
  have hmode := h.mode
  simp only [PutMode, hstate] at hmode
  obtain ⟨hpos, hle, hblock, hwrap, hblk, hport, hlast, hopts⟩ := hmode
  have hlt : i < chunkCount bytes snk.blkSize := by
    rw [hfinal] at hlast
    have hne := of_decide_eq_false hlast.symm
    omega
  obtain ⟨t, hu⟩ := updateBlockNumber_eq { c with tftpBlock := (i + 1) % 65536 }
  obtain ⟨c1, hc1⟩ : ∃ c1, c1 = updateBlockNumber { c with tftpBlock := (i + 1) % 65536 } := ⟨_, rfl⟩
  have hsource : Source bytes c1 := by
    rw [hc1, hu]
    exact ⟨h.source.writing, h.source.fits, h.source.length_lt, h.source.size_eq, h.source.read_eq⟩
  have hs1 : c1.tftpState = .data := by rw [hc1, hu]; exact hstate
  have hb1 : c1.tftpBlock = (i + 1) % 65536 := by rw [hc1, hu]
  have hk1 : c1.tftpBlkSize = snk.blkSize := by rw [hc1, hu]; exact hblk
  have hw1 : c1.tftpBlockWrapOffset = wrapOffset snk.blkSize (i + 1) := by
    rw [hc1, hu, wrapOffset_succ]
    simp only [hwrap, hblk]
  have hp1 : c1.tftpRemotePort = snk.port := by rw [hc1, hu]; exact hport
  have hn1 : c1.netState = c.netState := by rw [hc1, hu]
  have hsend := hsource.send hlt hs1 hb1 hk1 hw1
  refine ⟨{ c1 with tftpFinalBlock := decide (i + 1 = chunkCount bytes snk.blkSize) }, ?_, ⟨?_, ?_⟩, hn1⟩
  · rw [tftpHandler_ack h.mode.port hq, handleAck_eq h.source i stale hfinal, ← hc1]
    dsimp only
    rw [if_pos hblock, hsend]
  · exact ⟨hsource.writing, hsource.fits, hsource.length_lt, hsource.size_eq, hsource.read_eq⟩
  · simp only [PutMode, hs1]
    exact ⟨Nat.succ_pos i, hlt, hb1, hw1, hk1, hp1, trivial, hopts⟩

/-- The ACK of the block before arrives again. -/
theorem PutClient.handle_ack_dup {q : Nat} (h : PutClient snk bytes (q + 1) c) (hstate : c.tftpState = .data)
    (hfinal : c.tftpFinalBlock = false) (hq : snk.isOack q = false) (hsound : (q + 1) % 65536 ≠ 0)
    (stale : List UInt8) :
    tftpHandler c (snk.packet q ++ stale) c.tftpOurPort snk.port (snk.packet q).length = (c, none) := by
  have hmode := h.mode
  simp only [PutMode, hstate] at hmode
  have hblock := hmode.2.2.1
  have hsame : updateBlockNumber { c with tftpBlock := (q + 1) % 65536 } = c := by
    rw [updateBlockNumber, if_neg hsound, ← hblock]
  rw [tftpHandler_ack h.mode.port hq, handleAck_eq h.source q stale hfinal, hsame]
  dsimp only
  rw [if_neg (by rw [hblock]; omega)]

/-- An ACK arrives after the final block is sent. -/
theorem PutClient.handle_ack_final {q : Nat} (h : PutClient snk bytes i c) (hfinal : c.tftpFinalBlock = true)
    (hq : snk.isOack q = false) (stale : List UInt8) :
    tftpHandler c (snk.packet q ++ stale) c.tftpOurPort snk.port (snk.packet q).length = (tftpComplete c, none) := by
  rw [tftpHandler_ack h.mode.port hq, handleAck, if_pos h.source.writing, if_pos hfinal]

end

end Uboot.Tftp
