import Uboot.Tftp.DownloadExact

/-!
# Runs of a download
-/

namespace Uboot.Tftp

open Uboot.Lib

section
variable {srv : Server} {addr last : Nat} {net : Net} {msgs : List Msg}

/-- The oldest message arrives at the server. -/
theorem NetInv.recv_server {msg : List UInt8} {rest : List (List UInt8)} (h : NetInv srv addr net last msgs)
    (hmsg : net.toServer = msg :: rest) :
    ∃ msgs', NetInv srv addr (srv.recv { net with toServer := rest } msg) last msgs' := by
  have heq := h.toServer_eq
  rw [hmsg] at heq
  cases msgs with
  | nil => simp at heq
  | cons m ms =>
      simp only [List.map_cons, List.cons.injEq] at heq
      obtain ⟨rfl, rfl⟩ := heq
      obtain ⟨hmin, hsorted⟩ := List.pairwise_cons.mp h.msgs_sorted
      have hskip : NetInv srv addr { net with toServer := ms.map (Msg.bytes ackPacket) } last ms :=
        ⟨h.client, h.current_le, h.le_current, h.first_le, h.waiting, h.sorted, h.packet, rfl, hsorted,
          fun m hm => h.request m (List.mem_cons_of_mem _ hm), fun a ha => h.ack a (List.mem_cons_of_mem _ ha)⟩
      refine ⟨ms, ?_⟩
      cases m with
      | request m =>
          rw [Server.recv, Msg.bytes, if_pos (h.request m List.mem_cons_self)]
          exact ⟨hskip.client, hskip.current_le, hskip.le_current, hskip.first_le, hskip.waiting, hskip.sorted,
            hskip.packet, rfl, hskip.msgs_sorted, hskip.request, hskip.ack⟩
      | block a =>
          obtain ⟨hstate, hcur, hle⟩ := h.ack a List.mem_cons_self
          have hlast := h.le_current
          rw [Server.recv, Msg.bytes, ntohs_ackPacket.1, ntohs_ackPacket.2, if_neg (by decide)]
          split
          next hacc =>
            -- the number of the message is that of the current packet, not of the one before
            have ha : a = net.current := by
              have hnum := hacc.2.2.1
              simp only [tftpSequenceSize] at hnum
              omega
            refine ⟨h.client, Nat.succ_le_succ (ha ▸ hle), by simp only; omega, h.first_le.trans (Nat.le_succ _),
              fun hs => absurd hs hstate, h.sorted, ?_, rfl, hsorted, hskip.request, ?_⟩
            · intro q hq
              obtain ⟨h1, h2, h3, h4⟩ := h.packet q hq
              exact ⟨h1, h2, h3.trans (Nat.le_succ _), h4⟩
            · intro b hb
              have hab : a ≤ b := hmin _ hb
              exact ⟨hstate, by simp only; omega, (hskip.ack b hb).2.2⟩
          next => exact hskip

theorem NetInv.noise_client (h : NetInv srv addr net last msgs) (w : Noise) :
    NetInv srv addr { net with toClient := w.apply net.toClient } last msgs :=
  ⟨h.client, h.current_le, h.le_current, h.first_le, h.waiting, w.pairwise (fun _ => le_refl _) h.sorted,
    fun q hq => h.packet q (Noise.mem_apply hq), h.toServer_eq, h.msgs_sorted, h.request, h.ack⟩

theorem NetInv.noise_server (h : NetInv srv addr net last msgs) (w : Noise) :
    NetInv srv addr { net with toServer := w.apply net.toServer } last (w.apply msgs) :=
  ⟨h.client, h.current_le, h.le_current, h.first_le, h.waiting, h.sorted, h.packet,
    by rw [h.toServer_eq, Noise.apply_map], w.pairwise Msg.le_refl h.msgs_sorted,
    fun m hm => h.request m (Noise.mem_apply hm), fun a ha => h.ack a (Noise.mem_apply ha)⟩

/-- A sound step keeps the invariant. -/
theorem NetInv.step (h : NetInv srv addr net last msgs) {act : Act} (hsound : net.Sound act) :
    ∃ last' msgs', NetInv srv addr (net.step srv act) last' msgs' := by
  cases act with
  | timeout =>
      rw [Net.step]
      split
      next => exact ⟨last, h.timeout⟩
      next => exact ⟨last, msgs, h⟩
  | send =>
      rw [Net.step]
      split
      next hsend => exact ⟨last, msgs, h.send hsend.2⟩
      next => exact ⟨last, msgs, h⟩
  | recvClient stale =>
      cases hq : net.toClient with
      | nil => rw [Net.step, hq]; exact ⟨last, msgs, h⟩
      | cons q rest =>
          have hs : q = last → net.client.tftpState = .data → last % 65536 ≠ 0 := by
            rintro rfl hdata h0
            have hmode := h.client.mode
            simp only [Mode, hdata] at hmode
            exact hsound q (by rw [hq]; rfl) ⟨by omega, h0, hdata, hmode.2.2.1.trans h0⟩
          rw [Net.step, hq]
          dsimp only
          split
          next hnet => exact h.recv_client hq hnet hs stale
          next =>
            have hsort := h.sorted
            rw [hq] at hsort
            have hrest : ∀ x ∈ rest, srv.first ≤ x ∧ last ≤ x ∧ x ≤ net.current ∧ x ≤ srv.count :=
              fun x hx => h.packet x (by rw [hq]; exact List.mem_cons_of_mem _ hx)
            exact ⟨last, msgs, h.advance h.client id (le_refl _) h.le_current hsort.of_cons hrest⟩
  | recvServer =>
      cases hm : net.toServer with
      | nil => rw [Net.step, hm]; exact ⟨last, msgs, h⟩
      | cons msg rest =>
          rw [Net.step, hm]
          exact ⟨last, h.recv_server hm⟩
  | noiseClient w => exact ⟨last, msgs, h.noise_client w⟩
  | noiseServer w => exact ⟨last, _, h.noise_server w⟩

theorem NetInv.run (h : NetInv srv addr net last msgs) {acts : List Act} (hsound : Net.SoundRun srv net acts) :
    ∃ last' msgs', NetInv srv addr (net.run srv acts) last' msgs' := by
  induction acts generalizing net last msgs with
  | nil => exact ⟨last, msgs, h⟩
  | cons act acts ih =>
      obtain ⟨hact, hacts⟩ := hsound
      obtain ⟨last', msgs', h'⟩ := h.step hact
      exact ih h' hacts

end

theorem NetInv.start (srv : Server) (c : Client) (ourPort : Nat) (hfits : c.loadAddr + srv.file.length ≤ wordSize)
    (hlen : srv.file.length < wordSize) :
    ∃ msgs, NetInv srv c.loadAddr (Net.start srv c ourPort) 0 msgs := by
  obtain ⟨c1, hc1⟩ : ∃ c1 : Client, c1 = { c with
    tftpWriting := false, netState := .cont, netBootFileXferSize := 0, tftpState := .sendRrq,
    tftpRemotePort := wellKnownPort, tftpTimeoutCount := 0, tftpOurPort := ourPort, tftpBlock := 0,
    tftpBlkSize := tftpBlockSize } := ⟨_, rfl⟩
  have hstart : Net.start srv c ourPort = ⟨c1, false, srv.first, [], [requestPacket 1 c1]⟩ := by rw [hc1]; rfl
  have hinv : ClientInv srv c.loadAddr 0 c1 := by
    rw [hc1]
    refine ⟨⟨rfl, rfl, hfits, hlen, ?_, ?_⟩, ⟨rfl, rfl, rfl⟩, Nat.zero_le _, fun _ => Nat.succ_pos _, fun hn => (by cases hn)⟩
    · intro x hx
      rw [Nat.zero_mul, Nat.zero_min] at hx
      exact absurd hx (Nat.not_lt_zero x)
    · rw [Nat.zero_mul, Nat.zero_min]
  have hfirst : srv.first ≤ 1 := by unfold Server.first; split <;> omega
  rw [hstart]
  refine ⟨[.request (requestPacket 1 c1)], hinv, hfirst, Nat.zero_le _, le_refl _, fun _ => rfl, List.Pairwise.nil,
    fun q hq => absurd hq List.not_mem_nil, rfl, List.pairwise_singleton _ _, ?_, ?_⟩
  · intro m hm
    cases List.mem_singleton.mp hm
    exact ntohs_requestPacket 1 c1
  · intro a ha
    cases List.mem_singleton.mp ha

/-- All blocks are stored. -/
theorem Stored.exact {srv : Server} {addr : Nat} {c : Client} (h : Stored srv addr srv.count c) :
    c.mem.read addr srv.file.length = srv.file ∧ c.netBootFileXferSize = srv.file.length := by
  have hmin : min (srv.count * srv.blkSize) srv.file.length = srv.file.length :=
    Nat.min_eq_right (length_lt_chunkCount_mul srv.file srv.blkSize_pos).le
  refine ⟨?_, h.size_eq.trans hmin⟩
  apply Mem.read_eq_iff.mpr
  intro x hx
  have hb := h.byte_eq x (by rw [hmin]; exact hx)
  rwa [h.addr_eq] at hb

/-- After a sound run that succeeds the file is in memory. -/
theorem download_exact (srv : Server) (c : Client) (ourPort : Nat) (acts : List Act)
    (hfits : c.loadAddr + srv.file.length ≤ wordSize) (hlen : srv.file.length < wordSize)
    (hsound : Net.SoundRun srv (Net.start srv c ourPort) acts)
    (hsucc : ((Net.start srv c ourPort).run srv acts).client.netState = .success) :
    ((Net.start srv c ourPort).run srv acts).client.mem.read c.loadAddr srv.file.length = srv.file ∧
      ((Net.start srv c ourPort).run srv acts).client.netBootFileXferSize = srv.file.length := by
  obtain ⟨msgs, hstart⟩ := NetInv.start srv c ourPort hfits hlen
  obtain ⟨last, msgs', hrun⟩ := hstart.run hsound
  have hlast := hrun.client.success hsucc
  subst hlast
  exact hrun.client.stored.exact

/-- A server with a file of three bytes and blocks of two. -/
def pairServer : Server where
  offer := ⟨some [.blksize 2], by intro o ho n hn; cases ho; cases List.mem_singleton.mp hn; decide⟩
  blkSize_pos := by decide
  file := [1, 2, 3]
  port := 1069

/-- The OACK is lost once, and block 1 arrives twice. -/
def lossyActs : List Act :=
  [.recvServer, .send, .noiseClient (.lose 0), .timeout, .send, .recvClient [], .recvServer, .recvServer, .send,
    .noiseClient (.dup 0), .recvClient [], .recvClient [], .recvServer, .send, .recvClient [9, 9]]

theorem download_exact_lossy :
    ((Net.start pairServer idleClient 2000).run pairServer lossyActs).client.netState = .success ∧
    ((Net.start pairServer idleClient 2000).run pairServer lossyActs).client.mem.read 0x88000000 3 = [1, 2, 3] ∧
    ((Net.start pairServer idleClient 2000).run pairServer lossyActs).client.netBootFileXferSize = 3 :=
  ⟨by decide, download_exact pairServer idleClient 2000 lossyActs (by decide) (by decide)
    (by simp only [lossyActs, Net.SoundRun, Net.Sound]; decide) (by decide)⟩

/-! ## A block with the number 0 that arrives twice -/

/-- Nothing is in flight; the client has `k` blocks and the server is about to send the next one. -/
def Net.quiet (c : Client) (k : Nat) : Net := ⟨c, true, k + 1, [], []⟩

/-- A block is sent, stored and acknowledged. -/
def blockActs : List Act := [.send, .recvClient [], .recvServer]

section
variable {srv : Server} {addr k : Nat} {c c' : Client} {tc : List Nat} {ts : List (List UInt8)}

theorem Net.step_send (hk : k ≤ srv.count) :
    (⟨c, true, k, tc, ts⟩ : Net).step srv .send = ⟨c, true, k, tc ++ [k], ts⟩ := by
  rw [Net.step, if_pos ⟨rfl, hk⟩]

theorem Net.step_recvClient {q : Nat} {out : Option (List UInt8)} (hnet : c.netState = .cont)
    (hrun : tftpHandler c (srv.packet q ++ []) c.tftpOurPort srv.port (srv.packet q).length = (c', out)) :
    (⟨c, true, k, q :: tc, ts⟩ : Net).step srv (.recvClient []) = ⟨c', true, k, tc, ts ++ out.toList⟩ := by
  rw [Net.step]
  dsimp only
  rw [if_pos hnet, hrun]

/-- The server takes the acknowledgement of its packet. -/
theorem Net.step_ack (hk : k ≤ srv.count) :
    (⟨c, true, k, tc, ackPacket k :: ts⟩ : Net).step srv .recvServer = ⟨c, true, k + 1, tc, ts⟩ := by
  rw [Net.step]
  dsimp only
  rw [Server.recv, ntohs_ackPacket.1, ntohs_ackPacket.2, if_neg (by decide), if_pos ⟨rfl, rfl, rfl, hk⟩]

theorem Net.run_append (srv : Server) (net : Net) (a b : List Act) :
    net.run srv (a ++ b) = (net.run srv a).run srv b := List.foldl_append

/-- The client waits for a block. -/
structure Waiting (srv : Server) (addr k : Nat) (c : Client) : Prop where
  client : ClientInv srv addr k c
  cont : c.netState = .cont
  answered : c.tftpState ≠ .sendRrq

theorem Waiting.handle (h : Waiting srv addr k c) (hk : k + 1 < srv.count) :
    ∃ c', tftpHandler c (srv.packet (k + 1) ++ []) c.tftpOurPort srv.port (srv.packet (k + 1)).length =
      (c', some (ackPacket (k + 1))) ∧ Waiting srv addr (k + 1) c' := by
  obtain ⟨c', hrun, hinv, hnet⟩ := h.client.handle_block h.cont (fun hs => absurd hs h.answered) []
  rw [if_neg (by omega)] at hnet
  refine ⟨c', hrun, hinv, hnet, ?_⟩
  rw [hinv.mode.data_of_pos (Nat.succ_pos k)]
  decide

theorem Waiting.block (h : Waiting srv addr k c) (hk : k + 1 < srv.count) :
    ∃ c', (Net.quiet c k).run srv blockActs = Net.quiet c' (k + 1) ∧ Waiting srv addr (k + 1) c' := by
  obtain ⟨c', hrun, hw⟩ := h.handle hk
  refine ⟨c', ?_, hw⟩
  simp only [Net.run, blockActs, List.foldl_cons, List.foldl_nil, Net.quiet]
  rw [Net.step_send (by omega), List.nil_append, Net.step_recvClient h.cont hrun]
  exact Net.step_ack (by omega)

theorem Waiting.blocks (h : Waiting srv addr 0 c) (n : Nat) (hn : n < srv.count) :
    ∃ c', (Net.quiet c 0).run srv (List.replicate n blockActs).flatten = Net.quiet c' n ∧ Waiting srv addr n c' := by
  induction n with
  | zero => exact ⟨c, rfl, h⟩
  | succ n ih =>
      obtain ⟨c1, hrun, hw⟩ := ih (by omega)
      rw [List.replicate_succ', List.flatten_append, Net.run_append, hrun, List.flatten_singleton]
      exact hw.block hn

/-- The second arrival of a block with the number 0 moves the wrap offset again. -/
theorem ClientInv.handle_dup_zero (h : ClientInv srv addr k c) (hpos : 0 < k) (h0 : k % 65536 = 0)
    (stale : List UInt8) :
    tftpHandler c (srv.packet k ++ stale) c.tftpOurPort srv.port (srv.packet k).length =
      ({ c with
        tftpBlockWrapOffset := (wrapOffset srv.blkSize k + srv.blkSize * 65536) % wordSize
        tftpTimeoutCount := 0 }, none) := by
  have hstate := h.mode.data_of_pos hpos
  have hmode := h.mode
  simp only [Mode, hstate] at hmode
  obtain ⟨-, hblock, hprev, hwrap, hblk, hport⟩ := hmode
  have hu : updateBlockNumber { c with tftpBlock := k % 65536 } = { c with
      tftpBlockWrapOffset := (wrapOffset srv.blkSize k + srv.blkSize * 65536) % wordSize
      tftpTimeoutCount := 0 } := by
    rw [updateBlockNumber, if_pos h0, ← hwrap, ← hblk, ← hblock]
    rfl
  rw [tftpHandler_packet h.mode.port (by omega), handleData_eq, hu]
  simp only [hstate, reduceCtorEq, or_self, if_false]
  rw [acceptData, if_pos (by rw [hblock, hprev])]

/-- The block after it is stored too far. -/
theorem handle_after_dup_zero (hstate : c.tftpState = .data) (hreading : c.tftpWriting = false)
    (hprev : c.tftpLastBlock = 0) (hwrap : c.tftpBlockWrapOffset = 131072) (hsize : c.tftpBlkSize = 1)
    (hport : c.tftpRemotePort = srv.port) (hxfer : c.netBootFileXferSize < 131072) (hempty : srv.block 65537 = []) :
    ∃ c' out, tftpHandler c (srv.packet 65537 ++ []) c.tftpOurPort srv.port (srv.packet 65537).length = (c', out) ∧
      c'.netState = .success ∧ c'.netBootFileXferSize = 131072 := by
  rw [tftpHandler_packet (Or.inr (Or.inr hport)) (by omega), handleData_eq, hempty]
  simp only [updateBlockNumber, show 65537 % 65536 = 1 from rfl, one_ne_zero, if_false, hstate, reduceCtorEq, or_self]
  rw [acceptData, if_neg (by simp [hprev])]
  simp only [storeBlock, hsize, hwrap, tftpSend, hreading, Bool.false_eq_true, if_false]
  refine ⟨_, _, rfl, ?_⟩
  rw [if_pos (by simp)]
  exact ⟨rfl, by simp [tftpComplete, wordSize, hxfer]⟩

/-- Block 65536 arrives twice, then the last block. -/
def dupZeroActs : List Act :=
  [.send, .noiseClient (.dup 0), .recvClient [], .recvClient [], .recvServer, .send, .recvClient []]

theorem Waiting.dup_zero (h : Waiting srv addr 65535 c) (hcount : srv.count = 65537) (hblk : srv.blkSize = 1) :
    ((Net.quiet c 65535).run srv dupZeroActs).client.netState = .success ∧
      ((Net.quiet c 65535).run srv dupZeroActs).client.netBootFileXferSize = 131072 := by
  obtain ⟨c1, hrun1, hw⟩ := h.handle (by omega)
  have hrun2 := hw.client.handle_dup_zero (by omega) rfl []
  obtain ⟨c2, hc2⟩ : ∃ c2 : Client, c2 = { c1 with
    tftpBlockWrapOffset := (wrapOffset srv.blkSize 65536 + srv.blkSize * 65536) % wordSize
    tftpTimeoutCount := 0 } := ⟨_, rfl⟩
  rw [← hc2] at hrun2
  have hmode := hw.client.mode
  have hstate := hw.client.mode.data_of_pos (by omega)
  simp only [Mode, hstate] at hmode
  obtain ⟨-, -, hprev, -, hsize, hport⟩ := hmode
  have hempty : srv.block 65537 = [] := by
    have hshort : (srv.block 65537).length < srv.blkSize :=
      (chunk_short_iff srv.blkSize_pos (show 65536 < srv.count by omega)).mpr hcount.symm
    rw [hblk] at hshort
    exact List.length_eq_zero_iff.mp (Nat.lt_one_iff.mp hshort)
  have hxfer : c1.netBootFileXferSize < 131072 := by
    rw [hw.client.stored.size_eq, hblk]
    omega
  obtain ⟨c3, out, hrun3, hdone⟩ : ∃ c3 out, tftpHandler c2 (srv.packet 65537 ++ []) c2.tftpOurPort srv.port
      (srv.packet 65537).length = (c3, out) ∧ c3.netState = .success ∧ c3.netBootFileXferSize = 131072 := by
    refine handle_after_dup_zero ?_ ?_ ?_ ?_ ?_ ?_ ?_ hempty <;> rw [hc2]
    · exact hstate
    · exact hw.client.stored.reading
    · exact hprev
    · simp [wrapOffset, wordSize, hblk]
    · exact hsize.trans hblk
    · exact hport
    · exact hxfer
  have hn2 : c2.netState = .cont := by rw [hc2]; exact hw.cont
  have hfinal : ((Net.quiet c 65535).run srv dupZeroActs).client = c3 := by
    simp only [Net.run, dupZeroActs, List.foldl_cons, List.foldl_nil, Net.quiet]
    rw [Net.step_send (by omega)]
    change (Net.step srv (Net.step srv (Net.step srv (Net.step srv (Net.step srv
      ⟨c, true, 65536, [65536, 65536], []⟩ (.recvClient [])) (.recvClient [])) .recvServer) .send)
      (.recvClient [])).client = c3
    rw [Net.step_recvClient h.cont hrun1, Net.step_recvClient hw.cont hrun2]
    change (Net.step srv (Net.step srv (Net.step srv ⟨c2, true, 65536, [], [ackPacket 65536]⟩ .recvServer) .send)
      (.recvClient [])).client = c3
    rw [Net.step_ack (by omega), Net.step_send (by omega), List.nil_append, Net.step_recvClient hn2 hrun3]
  rw [hfinal]
  exact hdone

/-- The request, the OACK and its acknowledgement. -/
def oackActs : List Act := [.recvServer, .send, .recvClient [], .recvServer]

theorem Waiting.oack {o : List Opt} (ho : srv.offer.opts = some o) (c : Client) (ourPort : Nat)
    (hfits : c.loadAddr + srv.file.length ≤ wordSize) (hlen : srv.file.length < wordSize) :
    ∃ c', (Net.start srv c ourPort).run srv oackActs = Net.quiet c' 0 ∧ Waiting srv c.loadAddr 0 c' := by
  obtain ⟨msgs, hstart⟩ := NetInv.start srv c ourPort hfits hlen
  obtain ⟨c1, m, hm, hnet⟩ : ∃ c1 m, Net.start srv c ourPort = ⟨c1, false, 0, [], [requestPacket 1 m]⟩ ∧
      c1.netState = .cont ∧ c1.tftpState ≠ .data := by
    refine ⟨(tftpStart c false 0 ourPort).1, (tftpStart c false 0 ourPort).1, ?_, rfl, ?_⟩
    swap
    · change TftpState.sendRrq ≠ .data
      decide
    rw [Net.start, Server.first, ho]
    rfl
  rw [hm] at hstart
  obtain ⟨c', hrun, hinv, hs, hcont⟩ := hstart.client.handle_oack rfl ho hnet.1 hnet.2 []
  refine ⟨c', ?_, hinv, hcont, by rw [hs]; decide⟩
  simp only [Net.run, oackActs, List.foldl_cons, List.foldl_nil, hm]
  have hreq : (⟨c1, false, 0, [], [requestPacket 1 m]⟩ : Net).step srv .recvServer = ⟨c1, true, 0, [], []⟩ := by
    rw [Net.step]
    dsimp only
    rw [Server.recv, if_pos (ntohs_requestPacket 1 m)]
  rw [hreq, Net.step_send (Nat.zero_le _), List.nil_append, Net.step_recvClient hnet.1 hrun]
  exact Net.step_ack (Nat.zero_le _)

end

/-- A file of 65536 bytes in blocks of one byte. -/
def byteServer : Server where
  offer := ⟨some [.blksize 1], by intro o ho n hn; cases ho; cases List.mem_singleton.mp hn; decide⟩
  blkSize_pos := by decide
  file := List.replicate 65536 7
  port := 1069

/-- A download that succeeds with the wrong size: only block 65536 arrives twice. -/
theorem download_dup_zero_wrong_size :
    idleClient.loadAddr + byteServer.file.length ≤ wordSize ∧ byteServer.file.length = 65536 ∧
      ∃ net, net = (Net.start byteServer idleClient 2000).run byteServer
          (oackActs ++ (List.replicate 65535 blockActs).flatten ++ dupZeroActs) ∧
        net.client.netState = .success ∧ net.client.netBootFileXferSize = 131072 := by
  have hlen : byteServer.file.length = 65536 := List.length_replicate
  have hcount : byteServer.count = 65537 := by
    rw [Server.count, chunkCount, hlen]
    rfl
  have hfits : idleClient.loadAddr + byteServer.file.length ≤ wordSize := by
    rw [hlen]
    decide
  refine ⟨hfits, hlen, _, rfl, ?_⟩
  obtain ⟨c1, hrun1, hw1⟩ := Waiting.oack rfl idleClient 2000 hfits (by rw [hlen]; decide)
  obtain ⟨c2, hrun2, hw2⟩ := hw1.blocks 65535 (by omega)
  rw [Net.run_append, Net.run_append, hrun1, hrun2]
  exact hw2.dup_zero hcount rfl

end Uboot.Tftp
