import Uboot.Tftp.Blocks
import Uboot.Tftp.Download

/-!
# A download is exact

`last` counts the blocks that the client has stored. The server sends block `last` or the next one, and every
packet in flight is one of these two. The number 0 of every 65536th block moves `TftpBlockWrapOffset`; it moves it
again when such a block arrives twice, which `Net.Sound` excludes.
-/

namespace Uboot.Tftp

open Uboot.Lib

/-! ## The client -/

/-- The client's variables after it has stored `last` blocks. -/
def Mode (srv : Server) (last : Nat) (c : Client) : Prop :=
  match c.tftpState with
  | .sendRrq => last = 0 ∧ c.tftpBlock = 0 ∧ c.tftpBlkSize = tftpBlockSize
  | .oack => last = 0 ∧ c.tftpBlock = 0 ∧ c.tftpBlkSize = srv.blkSize ∧ c.tftpRemotePort = srv.port
  | .data => 0 < last ∧ c.tftpBlock = last % 65536 ∧ c.tftpLastBlock = last % 65536 ∧
      c.tftpBlockWrapOffset = wrapOffset srv.blkSize last ∧ c.tftpBlkSize = srv.blkSize ∧
      c.tftpRemotePort = srv.port
  | _ => False

/-- The first `last` blocks of the file are in memory. -/
structure Stored (srv : Server) (addr last : Nat) (c : Client) : Prop where
  addr_eq : c.loadAddr = addr
  reading : c.tftpWriting = false
  fits : c.loadAddr + srv.file.length ≤ wordSize
  length_lt : srv.file.length < wordSize
  byte_eq : ∀ x < min (last * srv.blkSize) srv.file.length, c.mem (c.loadAddr + x) = srv.file.getD x 0
  size_eq : c.netBootFileXferSize = min (last * srv.blkSize) srv.file.length

structure ClientInv (srv : Server) (addr last : Nat) (c : Client) : Prop where
  stored : Stored srv addr last c
  mode : Mode srv last c
  le : last ≤ srv.count
  cont : c.netState = .cont → last < srv.count
  success : c.netState = .success → last = srv.count

section
variable {srv : Server} {addr last : Nat} {c : Client}

/-- `store_block` puts the next block where it belongs. -/
theorem Stored.storeBlock (h : Stored srv addr last c) (hlast : last < srv.count) (hblk : c.tftpBlkSize = srv.blkSize)
    (hwrap : c.tftpBlockWrapOffset = wrapOffset srv.blkSize (last + 1)) :
    Stored srv addr (last + 1) (storeBlock c (((last + 1) % 65536 + wordSize - 1) % wordSize) (srv.block (last + 1))) := by
  have hle := chunk_mul_le hlast
  have hlen := h.length_lt
  have hfits := h.fits
  have hsucc : last * srv.blkSize + (srv.block (last + 1)).length = _ := chunk_end hlast
  have hoff : (((last + 1) % 65536 + wordSize - 1) % wordSize * srv.blkSize + wrapOffset srv.blkSize (last + 1)) %
      wordSize = last * srv.blkSize := by
    rw [← block_offset srv.blkSize last (by omega)]
    exact ((Nat.mod_modEq _ _).mul_right _).add_right _
  have hnew : (last * srv.blkSize + (srv.block (last + 1)).length) % wordSize =
      min ((last + 1) * srv.blkSize) srv.file.length := by
    rw [hsucc, Nat.mod_eq_of_lt (by omega)]
  simp only [Tftp.storeBlock, hblk, hwrap, hoff, hnew]
  refine ⟨h.addr_eq, h.reading, h.fits, h.length_lt, ?_, ?_⟩
  · intro x hx
    change Mem.write c.mem _ _ (c.loadAddr + x) = _
    by_cases hempty : (srv.block (last + 1)).length = 0
    · rw [Mem.write, if_neg (by omega)]
      exact h.byte_eq x (by omega)
    · rw [Nat.mod_eq_of_lt (by omega)]
      by_cases hold : x < last * srv.blkSize
      · rw [Mem.write_of_lt (by omega)]
        exact h.byte_eq x (by omega)
      · obtain ⟨y, rfl⟩ : ∃ y, x = last * srv.blkSize + y := ⟨x - last * srv.blkSize, by omega⟩
        rw [← Nat.add_assoc, Mem.write_of_mem (by omega), List.getD_eq_getElem?_getD, List.getD_eq_getElem?_getD]
        exact congrArg (Option.getD · 0) (chunk_getElem? (by change y < (srv.block (last + 1)).length; omega))
  · change (if c.netBootFileXferSize < _ then _ else _) = _
    rw [h.size_eq]
    split <;> omega

/-- A block that has not arrived yet is stored and acknowledged. -/
theorem Stored.acceptData (h : Stored srv addr last c) (hlast : last < srv.count) (hstate : c.tftpState = .data)
    (hblock : c.tftpBlock = (last + 1) % 65536) (hprev : c.tftpLastBlock = last % 65536)
    (hblk : c.tftpBlkSize = srv.blkSize) (hwrap : c.tftpBlockWrapOffset = wrapOffset srv.blkSize (last + 1))
    (hport : c.tftpRemotePort = srv.port) (hnet : c.netState = .cont) :
    ∃ c', acceptData c (srv.block (last + 1)) = (c', some (ackPacket (last + 1))) ∧
      ClientInv srv addr (last + 1) c' ∧ c'.netState = if last + 1 = srv.count then .success else .cont := by
  have hnew : c.tftpBlock ≠ c.tftpLastBlock := by rw [hblock, hprev]; omega
  obtain ⟨c1, hc1⟩ : ∃ c1, c1 = { c with
    tftpLastBlock := c.tftpBlock, tftpTimeoutCountMax := timeoutCountDefault } := ⟨_, rfl⟩
  obtain ⟨c2, hc2⟩ : ∃ c2, c2 = Tftp.storeBlock c1 ((c.tftpBlock + wordSize - 1) % wordSize)
    (srv.block (last + 1)) := ⟨_, rfl⟩
  have hstored : Stored srv addr (last + 1) c2 := by
    rw [hc2, hc1, hblock]
    exact Stored.storeBlock ⟨h.addr_eq, h.reading, h.fits, h.length_lt, h.byte_eq, h.size_eq⟩ hlast hblk hwrap
  have hsend : tftpSend c2 = (c2, ackPacket (last + 1)) := by
    have hs : c2.tftpState = .data := by rw [hc2, hc1]; exact hstate
    have hb : c2.tftpBlock = (last + 1) % 65536 := by rw [hc2, hc1]; exact hblock
    simp only [tftpSend, hs, hstored.reading, hb, ackPacket_mod]
    rfl
  have hacc : Tftp.acceptData c (srv.block (last + 1)) =
      (if (srv.block (last + 1)).length < srv.blkSize then tftpComplete c2 else c2,
        some (ackPacket (last + 1))) := by
    have hb2 : c2.tftpBlkSize = srv.blkSize := by rw [hc2, hc1]; exact hblk
    rw [Tftp.acceptData, if_neg hnew]
    simp only [← hc1]
    rw [← hc2, hsend, hb2]
  have hmode : Mode srv (last + 1) c2 := by
    rw [hc2, hc1]
    simp only [Mode, Tftp.storeBlock, hstate]
    exact ⟨by omega, hblock, hblock, hwrap, hblk, hport⟩
  have hshort : (srv.block (last + 1)).length < srv.blkSize ↔ _ := chunk_short_iff srv.blkSize_pos hlast
  refine ⟨_, hacc, ?_⟩
  by_cases hdone : last + 1 = srv.count
  · rw [if_pos (hshort.mpr hdone), if_pos hdone]
    exact ⟨⟨⟨hstored.addr_eq, hstored.reading, hstored.fits, hstored.length_lt, hstored.byte_eq, hstored.size_eq⟩,
      hmode, by omega, fun hn => (by cases hn), fun _ => hdone⟩, rfl⟩
  · rw [if_neg (fun hs => hdone (hshort.mp hs)), if_neg hdone]
    have hn2 : c2.netState = .cont := by rw [hc2, hc1]; exact hnet
    exact ⟨⟨hstored, hmode, by omega, fun _ => by omega, fun hn => by rw [hn2] at hn; cases hn⟩, hn2⟩

theorem Mode.data_of_pos (h : Mode srv last c) (hpos : 0 < last) : c.tftpState = .data := by
  unfold Mode at h
  split at h
  next => omega
  next => omega
  next hs => exact hs
  next => exact h.elim

theorem Mode.zero_of_ne_data (h : Mode srv last c) (hs : c.tftpState ≠ .data) : last = 0 := by
  by_contra hne
  exact hs (h.data_of_pos (Nat.pos_of_ne_zero hne))

theorem Mode.port (h : Mode srv last c) :
    c.tftpState = .sendRrq ∨ c.tftpState = .sendWrq ∨ c.tftpRemotePort = srv.port := by
  unfold Mode at h
  split at h
  next hs => exact Or.inl hs
  next => exact Or.inr (Or.inr h.2.2.2)
  next => exact Or.inr (Or.inr h.2.2.2.2.2)
  next => exact h.elim

/-- The OACK arrives. -/
theorem ClientInv.handle_oack (h : ClientInv srv addr last c) (hlast : last = 0) {o : List Opt}
    (ho : srv.offer.opts = some o) (hnet : c.netState = .cont) (hstate : c.tftpState ≠ .data) (stale : List UInt8) :
    ∃ c', tftpHandler c (srv.packet 0 ++ stale) c.tftpOurPort srv.port (srv.packet 0).length =
        (c', some (ackPacket 0)) ∧ ClientInv srv addr 0 c' ∧ c'.tftpState = .oack ∧ c'.netState = .cont := by
  have hpkt : srv.packet 0 = be16 6 ++ optsBytes o := by rw [Server.packet, if_pos rfl, ho]; rfl
  have hlen : (srv.packet 0).length = (optsBytes o).length + 2 := by rw [hpkt]; rfl
  have hblk : srv.blkSize = optsBlkSize o tftpBlockSize := by rw [Server.blkSize, Offer.blkSize, ho]; rfl
  have hmode := h.mode
  obtain ⟨hb, hsize⟩ : c.tftpBlock = 0 ∧ optsBlkSize o c.tftpBlkSize = srv.blkSize := by
    unfold Mode at hmode
    split at hmode
    next => rw [hmode.2.2, hblk]; exact ⟨hmode.2.1, rfl⟩
    next =>
      -- a repeated OACK sets the same block size
      rw [hmode.2.2.1, hblk]
      refine ⟨hmode.2.1, ?_⟩
      rcases optsBlkSize_cases o with hid | ⟨n, hn⟩
      · rw [hid]
      · rw [hn, hn]
    next hs => exact absurd hs hstate
    next => exact hmode.elim
  have hreading := h.stored.reading
  obtain ⟨c', hc'⟩ : ∃ c' : Client, c' =
      { c with tftpState := .oack, tftpRemotePort := srv.port, tftpBlkSize := srv.blkSize } := ⟨_, rfl⟩
  refine ⟨c', ?_, ⟨?_, ?_, by omega, fun _ => Nat.succ_pos _, ?_⟩, by rw [hc'], by rw [hc']; exact hnet⟩
  · rw [tftpHandler_eq h.mode.port (by omega), hpkt, List.append_assoc, ntohs_be16, drop_be16, ← hpkt, hlen, Nat.add_sub_cancel]
    simp only [handleOack, oackLoop_opts (srv.offer.optsOk o ho), hsize, hreading]
    rw [hc']
    simp [tftpSend, hreading, hb]
  · subst hlast
    rw [hc']
    exact ⟨h.stored.addr_eq, h.stored.reading, h.stored.fits, h.stored.length_lt, h.stored.byte_eq, h.stored.size_eq⟩
  · rw [hc']
    exact ⟨rfl, hb, rfl, rfl⟩
  · intro hn
    rw [hc'] at hn
    simp only [hnet] at hn
    cases hn

/-- Block `q` arrives. -/
theorem tftpHandler_packet (hport : c.tftpState = .sendRrq ∨ c.tftpState = .sendWrq ∨ c.tftpRemotePort = srv.port)
    {q : Nat} (hq : q ≠ 0) (stale : List UInt8) :
    tftpHandler c (srv.packet q ++ stale) c.tftpOurPort srv.port (srv.packet q).length =
      handleData c (be16 q ++ (srv.block q ++ stale)) srv.port ((srv.block q).length + 2) := by
  have hpkt : srv.packet q = be16 3 ++ (be16 q ++ srv.block q) := by
    rw [Server.packet, if_neg hq, dataPacket, List.append_assoc]
  have hlen : (srv.packet q).length = (srv.block q).length + 2 + 2 := by rw [hpkt]; rfl
  rw [tftpHandler_eq hport (by omega), hlen, hpkt, List.append_assoc, List.append_assoc, ntohs_be16, drop_be16,
    Nat.add_sub_cancel]
  rfl

theorem handleData_eq (c : Client) (q : Nat) (payload stale : List UInt8) (src : Nat) :
    handleData c (be16 q ++ (payload ++ stale)) src (payload.length + 2) =
      let c := updateBlockNumber { c with tftpBlock := q % 65536 }
      if c.tftpState = .sendRrq ∨ c.tftpState = .oack ∨ c.tftpState = .recvWrq then
        let c := newTransfer { c with tftpState := .data, tftpRemotePort := src }
        if c.tftpBlock ≠ 1 then (restart c, none) else acceptData c payload
      else acceptData c payload := by
  have hp : ((be16 q ++ (payload ++ stale)).drop 2).take (payload.length + 2 - 2) = payload := by
    rw [drop_be16, Nat.add_sub_cancel, List.take_left]
  rw [handleData, if_neg (by omega)]
  simp only [hp, ntohs_be16]

/-- A block that has been stored arrives again. -/
theorem ClientInv.handle_dup (h : ClientInv srv addr last c) (hstate : c.tftpState = .data)
    (hsound : last % 65536 ≠ 0) (stale : List UInt8) :
    tftpHandler c (srv.packet last ++ stale) c.tftpOurPort srv.port (srv.packet last).length = (c, none) := by
  have hmode := h.mode
  simp only [Mode, hstate] at hmode
  obtain ⟨hpos, hblock, hprev, -⟩ := hmode
  have hsame : updateBlockNumber { c with tftpBlock := last % 65536 } = c := by
    rw [updateBlockNumber, if_neg hsound, ← hblock]
  rw [tftpHandler_packet h.mode.port (by omega), handleData_eq, hsame]
  simp only [hstate, reduceCtorEq, or_self, if_false]
  rw [acceptData, if_pos (by rw [hblock, hprev])]

/-- The first block arrives. -/
theorem ClientInv.handle_first (h : ClientInv srv addr 0 c) (hstate : c.tftpState ≠ .data) (hnet : c.netState = .cont)
    (hblk : c.tftpState = .sendRrq → srv.blkSize = tftpBlockSize) (stale : List UInt8) :
    ∃ c', tftpHandler c (srv.packet 1 ++ stale) c.tftpOurPort srv.port (srv.packet 1).length =
        (c', some (ackPacket 1)) ∧ ClientInv srv addr 1 c' ∧
      c'.netState = if 1 = srv.count then .success else .cont := by
  have hmode := h.mode
  obtain ⟨hfirst, hsize⟩ : (c.tftpState = .sendRrq ∨ c.tftpState = .oack) ∧ c.tftpBlkSize = srv.blkSize := by
    unfold Mode at hmode
    split at hmode
    next hs => exact ⟨Or.inl hs, hmode.2.2.trans (hblk hs).symm⟩
    next hs => exact ⟨Or.inr hs, hmode.2.2.1⟩
    next hs => exact absurd hs hstate
    next => exact hmode.elim
  have hfirst' : c.tftpState = .sendRrq ∨ c.tftpState = .oack ∨ c.tftpState = .recvWrq := by
    rcases hfirst with hs | hs
    · exact Or.inl hs
    · exact Or.inr (Or.inl hs)
  have hstored : Stored srv addr 0 (newTransfer { c with
      tftpBlock := 1, tftpState := .data, tftpRemotePort := srv.port }) :=
    ⟨h.stored.addr_eq, h.stored.reading, h.stored.fits, h.stored.length_lt, h.stored.byte_eq, h.stored.size_eq⟩
  obtain ⟨c', hacc, hinv⟩ :=
    hstored.acceptData (h.cont hnet) rfl rfl rfl hsize (by simp [newTransfer, wrapOffset]) rfl hnet
  rw [tftpHandler_packet h.mode.port (by omega), handleData_eq]
  simp only [updateBlockNumber, show 1 % 65536 = 1 from rfl, one_ne_zero, if_false, if_pos hfirst']
  refine ⟨c', ?_, hinv⟩
  rw [if_neg (by simp [newTransfer])]
  exact hacc

/-- The next block arrives. -/
theorem ClientInv.handle_next (h : ClientInv srv addr last c) (hstate : c.tftpState = .data) (hnet : c.netState = .cont)
    (stale : List UInt8) :
    ∃ c', tftpHandler c (srv.packet (last + 1) ++ stale) c.tftpOurPort srv.port (srv.packet (last + 1)).length =
        (c', some (ackPacket (last + 1))) ∧ ClientInv srv addr (last + 1) c' ∧
      c'.netState = if last + 1 = srv.count then .success else .cont := by
  have hmode := h.mode
  simp only [Mode, hstate] at hmode
  obtain ⟨hpos, hblock, hprev, hwrap, hblk, hport⟩ := hmode
  obtain ⟨t, hu⟩ := updateBlockNumber_eq { c with tftpBlock := (last + 1) % 65536 }
  have hstored : Stored srv addr last (updateBlockNumber { c with tftpBlock := (last + 1) % 65536 }) := by
    rw [hu]
    exact ⟨h.stored.addr_eq, h.stored.reading, h.stored.fits, h.stored.length_lt, h.stored.byte_eq, h.stored.size_eq⟩
  obtain ⟨c', hacc, hinv⟩ := hstored.acceptData (h.cont hnet) (by rw [hu]; exact hstate) (by rw [hu])
    (by rw [hu]; exact hprev) (by rw [hu]; exact hblk) (by rw [hu, wrapOffset_succ]; simp only [hwrap, hblk])
    (by rw [hu]; exact hport) (by rw [hu]; exact hnet)
  have hs1 : (updateBlockNumber { c with tftpBlock := (last + 1) % 65536 }).tftpState = .data := by
    rw [hu]; exact hstate
  rw [tftpHandler_packet h.mode.port (by omega), handleData_eq]
  simp only [hs1, reduceCtorEq, or_self, if_false]
  exact ⟨c', hacc, hinv⟩

/-- A block that has not been stored yet arrives. -/
theorem ClientInv.handle_block (h : ClientInv srv addr last c) (hnet : c.netState = .cont)
    (hblk : c.tftpState = .sendRrq → srv.blkSize = tftpBlockSize) (stale : List UInt8) :
    ∃ c', tftpHandler c (srv.packet (last + 1) ++ stale) c.tftpOurPort srv.port (srv.packet (last + 1)).length =
        (c', some (ackPacket (last + 1))) ∧ ClientInv srv addr (last + 1) c' ∧
      c'.netState = if last + 1 = srv.count then .success else .cont := by
  by_cases hdata : c.tftpState = .data
  · exact h.handle_next hdata hnet stale
  · have hzero : last = 0 := h.mode.zero_of_ne_data hdata
    subst hzero
    exact h.handle_first hdata hnet hblk stale

end

/-! ## The packets in flight -/

structure NetInv (srv : Server) (addr : Nat) (net : Net) (last : Nat) (msgs : List Msg) : Prop where
  client : ClientInv srv addr last net.client
  current_le : net.current ≤ last + 1
  le_current : last ≤ net.current
  first_le : srv.first ≤ net.current
  waiting : net.client.tftpState = .sendRrq → net.current = srv.first
  sorted : net.toClient.Pairwise (· ≤ ·)
  packet : ∀ q ∈ net.toClient, srv.first ≤ q ∧ last ≤ q ∧ q ≤ net.current ∧ q ≤ srv.count
  toServer_eq : net.toServer = msgs.map (Msg.bytes ackPacket)
  msgs_sorted : msgs.Pairwise Msg.Le
  request : ∀ m, Msg.request m ∈ msgs → ntohs m = 1
  ack : ∀ a, Msg.block a ∈ msgs → net.client.tftpState ≠ .sendRrq ∧ net.current ≤ a + 1 ∧ a ≤ last

section
variable {srv : Server} {addr last : Nat} {c : Client} {net : Net} {msgs : List Msg}

/-- What `TftpSend` sends. -/
theorem ClientInv.send (h : ClientInv srv addr last c) : ∃ msg, tftpSend c = (c, Msg.bytes ackPacket msg) ∧
    ((c.tftpState = .sendRrq ∧ ∃ m, msg = .request m ∧ ntohs m = 1) ∨
      (c.tftpState ≠ .sendRrq ∧ msg = .block last)) := by
  have hmode := h.mode
  have hreading := h.stored.reading
  unfold Mode at hmode
  split at hmode
  next hs =>
    refine ⟨.request (requestPacket 1 c), by simp [tftpSend, hs, Msg.bytes], Or.inl ⟨hs, _, rfl, ?_⟩⟩
    exact ntohs_requestPacket 1 c
  next hs =>
    refine ⟨.block last, ?_, Or.inr ⟨by rw [hs]; decide, rfl⟩⟩
    simp [tftpSend, hs, hreading, hmode.2.1, hmode.1, Msg.bytes]
  next hs =>
    refine ⟨.block last, ?_, Or.inr ⟨by rw [hs]; decide, rfl⟩⟩
    simp only [tftpSend, hs, hreading, hmode.2.1, ackPacket_mod, Msg.bytes]
    rfl
  next => exact hmode.elim

/-- The client has changed, and has `last'` blocks. -/
theorem NetInv.advance {c' : Client} {rest : List Nat} {last' : Nat} (h : NetInv srv addr net last msgs)
    (hc' : ClientInv srv addr last' c') (hstate : c'.tftpState = .sendRrq → net.client.tftpState = .sendRrq)
    (hle : last ≤ last') (hcur : last' ≤ net.current) (hsorted : rest.Pairwise (· ≤ ·))
    (hrest : ∀ q ∈ rest, srv.first ≤ q ∧ last' ≤ q ∧ q ≤ net.current ∧ q ≤ srv.count) :
    NetInv srv addr { net with client := c', toClient := rest } last' msgs where
  client := hc'
  current_le := h.current_le.trans (Nat.succ_le_succ hle)
  le_current := hcur
  first_le := h.first_le
  waiting hs := h.waiting (hstate hs)
  sorted := hsorted
  packet := hrest
  toServer_eq := h.toServer_eq
  msgs_sorted := h.msgs_sorted
  request := h.request
  ack a ha := by
    obtain ⟨h1, h2, h3⟩ := h.ack a ha
    exact ⟨fun hs => h1 (hstate hs), h2, h3.trans hle⟩

/-- The client sends a request or an acknowledgement. -/
theorem NetInv.push (h : NetInv srv addr net last msgs) {msg : Msg}
    (hmsg : (net.client.tftpState = .sendRrq ∧ ∃ m, msg = .request m ∧ ntohs m = 1) ∨
      (net.client.tftpState ≠ .sendRrq ∧ msg = .block last)) :
    NetInv srv addr { net with toServer := net.toServer ++ [msg.bytes ackPacket] } last (msgs ++ [msg]) where
  client := h.client
  current_le := h.current_le
  le_current := h.le_current
  first_le := h.first_le
  waiting := h.waiting
  sorted := h.sorted
  packet := h.packet
  toServer_eq := by simp [h.toServer_eq]
  msgs_sorted := by
    refine List.pairwise_append.mpr ⟨h.msgs_sorted, List.pairwise_singleton _ _, ?_⟩
    intro x hx y hy
    rw [List.mem_singleton.mp hy]
    rcases hmsg with ⟨-, m, rfl, -⟩ | ⟨-, rfl⟩
    · cases x <;> trivial
    · cases x with
      | request m => trivial
      | block b => exact (h.ack b hx).2.2
  request m hm := by
    rcases List.mem_append.mp hm with hm | hm
    · exact h.request m hm
    · rcases hmsg with ⟨-, m', rfl, hm'⟩ | ⟨-, rfl⟩
      · cases List.mem_singleton.mp hm
        exact hm'
      · cases List.mem_singleton.mp hm
  ack a ha := by
    rcases List.mem_append.mp ha with ha | ha
    · exact h.ack a ha
    · rcases hmsg with ⟨-, m', rfl, hm'⟩ | ⟨hs, rfl⟩
      · cases List.mem_singleton.mp ha
      · cases List.mem_singleton.mp ha
        exact ⟨hs, h.current_le, le_refl _⟩

/-- The client has handled a packet and acknowledges `last'` blocks. -/
theorem NetInv.handled {c' : Client} {rest : List Nat} {last' : Nat} (h : NetInv srv addr net last msgs)
    (hc' : ClientInv srv addr last' c') (hstate : c'.tftpState ≠ .sendRrq) (hle : last ≤ last')
    (hcur : last' ≤ net.current) (hsorted : rest.Pairwise (· ≤ ·))
    (hrest : ∀ q ∈ rest, srv.first ≤ q ∧ last' ≤ q ∧ q ≤ net.current ∧ q ≤ srv.count) :
    NetInv srv addr { net with client := c', toClient := rest, toServer := net.toServer ++ [ackPacket last'] } last'
      (msgs ++ [Msg.block last']) :=
  (h.advance hc' (fun hs => absurd hs hstate) hle hcur hsorted hrest).push (Or.inr ⟨hstate, rfl⟩)

/-! ## Steps -/

theorem ClientInv.timeout_count (h : ClientInv srv addr last c) (n : Nat) :
    ClientInv srv addr last { c with tftpTimeoutCount := n } :=
  ⟨⟨h.stored.addr_eq, h.stored.reading, h.stored.fits, h.stored.length_lt, h.stored.byte_eq, h.stored.size_eq⟩,
    h.mode, h.le, h.cont, h.success⟩

theorem ClientInv.restart (h : ClientInv srv addr last c) : ClientInv srv addr last (restart c) :=
  ⟨⟨h.stored.addr_eq, h.stored.reading, h.stored.fits, h.stored.length_lt, h.stored.byte_eq, h.stored.size_eq⟩,
    h.mode, h.le, fun hn => (by cases hn), fun hn => (by cases hn)⟩

/-- The timer runs out: the client gives up, or sends again. -/
theorem NetInv.timeout (h : NetInv srv addr net last msgs) : ∃ msgs', NetInv srv addr
    { net with client := (tftpTimeout net.client).1, toServer := net.toServer ++ (tftpTimeout net.client).2.toList }
    last msgs' := by
  obtain ⟨c1, hc1⟩ : ∃ c1, c1 = { net.client with tftpTimeoutCount := net.client.tftpTimeoutCount + 1 } := ⟨_, rfl⟩
  have hinv : ClientInv srv addr last c1 := by rw [hc1]; exact h.client.timeout_count _
  have hstate : c1.tftpState = net.client.tftpState := by rw [hc1]
  obtain ⟨msg, hsend, hmsg⟩ := hinv.send
  have hrecv : c1.tftpState ≠ .recvWrq := by
    intro hs
    have hmode := hinv.mode
    simp only [Mode, hs] at hmode
  rw [tftpTimeout]
  simp only [← hc1]
  split
  next =>
    refine ⟨msgs, ?_⟩
    have hinv' := h.advance hinv.restart (fun hs => hstate.symm.trans hs) (le_refl _) h.le_current h.sorted h.packet
    simpa using hinv'
  next =>
    rw [if_pos (hstate ▸ hrecv), hsend]
    exact ⟨_, (h.advance hinv (fun hs => hstate.symm.trans hs) (le_refl _) h.le_current h.sorted h.packet).push hmsg⟩

/-- The server sends its packet, for the first time or again. -/
theorem NetInv.send (h : NetInv srv addr net last msgs) (hcount : net.current ≤ srv.count) :
    NetInv srv addr { net with toClient := net.toClient ++ [net.current] } last msgs where
  client := h.client
  current_le := h.current_le
  le_current := h.le_current
  first_le := h.first_le
  waiting := h.waiting
  sorted := by
    refine List.pairwise_append.mpr ⟨h.sorted, List.pairwise_singleton _ _, ?_⟩
    intro x hx y hy
    rw [List.mem_singleton.mp hy]
    exact (h.packet x hx).2.2.1
  packet q hq := by
    rcases List.mem_append.mp hq with hq | hq
    · exact h.packet q hq
    · rw [List.mem_singleton.mp hq]
      exact ⟨h.first_le, h.le_current, le_refl _, hcount⟩
  toServer_eq := h.toServer_eq
  msgs_sorted := h.msgs_sorted
  request := h.request
  ack := h.ack

/-- The oldest packet arrives at the client, and it is not a block with the number 0 for the second time. -/
theorem NetInv.recv_client {q : Nat} {rest : List Nat} (h : NetInv srv addr net last msgs) (hq : net.toClient = q :: rest)
    (hnet : net.client.netState = .cont) (hsound : q = last → net.client.tftpState = .data → last % 65536 ≠ 0)
    (stale : List UInt8) : ∃ last' msgs', NetInv srv addr
      { net with
        client := (tftpHandler net.client (srv.packet q ++ stale) net.client.tftpOurPort srv.port
          (srv.packet q).length).1
        toClient := rest
        toServer := net.toServer ++ (tftpHandler net.client (srv.packet q ++ stale) net.client.tftpOurPort srv.port
          (srv.packet q).length).2.toList } last' msgs' := by
  have hsort := h.sorted
  rw [hq] at hsort
  obtain ⟨hmin, hsorted⟩ := List.pairwise_cons.mp hsort
  obtain ⟨hfirst, hlast, hcur, hcount⟩ := h.packet q (by rw [hq]; exact List.mem_cons_self)
  have hrest : ∀ x ∈ rest, srv.first ≤ x ∧ q ≤ x ∧ x ≤ net.current ∧ x ≤ srv.count := by
    intro x hx
    obtain ⟨h1, -, h3, h4⟩ := h.packet x (by rw [hq]; exact List.mem_cons_of_mem _ hx)
    exact ⟨h1, hmin x hx, h3, h4⟩
  rcases Nat.eq_or_lt_of_le hlast with heq | hlt
  · subst heq
    by_cases hdata : net.client.tftpState = .data
    · -- the block that was stored last
      rw [h.client.handle_dup hdata (hsound rfl hdata)]
      refine ⟨last, msgs, ?_⟩
      simpa using h.advance h.client id (le_refl _) h.le_current hsorted hrest
    · -- the OACK
      have hzero : last = 0 := h.client.mode.zero_of_ne_data hdata
      subst hzero
      obtain ⟨o, ho⟩ : ∃ o, srv.offer.opts = some o := by
        cases ho : srv.offer.opts with
        | none => rw [Server.first, ho] at hfirst; simp at hfirst
        | some o => exact ⟨o, rfl⟩
      obtain ⟨c', hrun, hinv, hs, -⟩ := h.client.handle_oack rfl ho hnet hdata stale
      rw [hrun]
      exact ⟨0, _, h.handled hinv (by rw [hs]; decide) (le_refl _) (Nat.zero_le _) hsorted hrest⟩
  · have hnext : q = last + 1 := by have := h.current_le; omega
    subst hnext
    -- without an OACK the block size is the default
    have hblk : net.client.tftpState = .sendRrq → srv.blkSize = tftpBlockSize := by
      intro hs
      have hw := h.waiting hs
      cases ho : srv.offer.opts with
      | none => rw [Server.blkSize, Offer.blkSize, ho]; rfl
      | some o =>
          have hzero : srv.first = 0 := by rw [Server.first, ho]; rfl
          omega
    obtain ⟨c', hrun, hinv, -⟩ := h.client.handle_block hnet hblk stale
    rw [hrun]
    have hs : c'.tftpState ≠ .sendRrq := by rw [hinv.mode.data_of_pos (by omega)]; decide
    exact ⟨last + 1, _, h.handled hinv hs (by omega) hcur hsorted hrest⟩

end

end Uboot.Tftp
