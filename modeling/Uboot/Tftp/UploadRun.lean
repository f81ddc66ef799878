import Uboot.Tftp.UploadExact

/-!
# Runs of an upload
-/

namespace Uboot.Tftp

open Uboot.Lib

structure PutInv (snk : Sink) (bytes : List UInt8) (net : PutNet) (i : Nat) (msgs : List Msg) : Prop where
  client : PutClient snk bytes i net.client
  le_succ : i ≤ net.accepted + 1
  accepted_le : net.accepted ≤ i
  acked_le : net.acked ≤ net.accepted
  count_le : net.accepted ≤ chunkCount bytes snk.blkSize
  received_eq : net.received = bytes.take (net.accepted * snk.blkSize)
  finished_eq : net.finished = decide (net.accepted = chunkCount bytes snk.blkSize)
  sorted : net.toClient.Pairwise (· ≤ ·)
  packet : ∀ q ∈ net.toClient, i ≤ q + 1 ∧ q ≤ net.acked
  toServer_eq : net.toServer = msgs.map (Msg.bytes (putPacket snk bytes))
  msgs_sorted : msgs.Pairwise Msg.Le
  request : ∀ m, Msg.request m ∈ msgs → ntohs m = 2
  block : ∀ j, Msg.block j ∈ msgs → net.accepted ≤ j ∧ j ≤ i ∧ 0 < j
  success : net.client.netState = .success → net.acked = chunkCount bytes snk.blkSize

section
variable {snk : Sink} {bytes : List UInt8} {net : PutNet} {i : Nat} {msgs : List Msg}

/-- The client has changed, and sends block `i'`. -/
theorem PutInv.advance {c' : Client} {rest : List Nat} {i' : Nat} (h : PutInv snk bytes net i msgs)
    (hc' : PutClient snk bytes i' c') (hle : i ≤ i') (hacc : i' ≤ net.accepted + 1)
    (hsorted : rest.Pairwise (· ≤ ·)) (hrest : ∀ q ∈ rest, i' ≤ q + 1 ∧ q ≤ net.acked)
    (hsucc : c'.netState = .success → net.acked = chunkCount bytes snk.blkSize) :
    PutInv snk bytes { net with client := c', toClient := rest } i' msgs where
  client := hc'
  le_succ := hacc
  accepted_le := h.accepted_le.trans hle
  acked_le := h.acked_le
  count_le := h.count_le
  received_eq := h.received_eq
  finished_eq := h.finished_eq
  sorted := hsorted
  packet := hrest
  toServer_eq := h.toServer_eq
  msgs_sorted := h.msgs_sorted
  request := h.request
  block j hj := by
    obtain ⟨h1, h2, h3⟩ := h.block j hj
    exact ⟨h1, h2.trans hle, h3⟩
  success := hsucc

/-- The client sends the request or its block. -/
theorem PutInv.push (h : PutInv snk bytes net i msgs) {msg : Msg}
    (hmsg : (∃ m, msg = .request m ∧ ntohs m = 2) ∨ (0 < i ∧ msg = .block i)) :
    PutInv snk bytes { net with toServer := net.toServer ++ [msg.bytes (putPacket snk bytes)] } i (msgs ++ [msg]) where
  client := h.client
  le_succ := h.le_succ
  accepted_le := h.accepted_le
  acked_le := h.acked_le
  count_le := h.count_le
  received_eq := h.received_eq
  finished_eq := h.finished_eq
  sorted := h.sorted
  packet := h.packet
  toServer_eq := by simp [h.toServer_eq]
  msgs_sorted := by
    refine List.pairwise_append.mpr ⟨h.msgs_sorted, List.pairwise_singleton _ _, ?_⟩
    intro x hx y hy
    rw [List.mem_singleton.mp hy]
    rcases hmsg with ⟨m, rfl, -⟩ | ⟨-, rfl⟩
    · cases x <;> trivial
    · cases x with
      | request m => trivial
      | block b => exact (h.block b hx).2.1
  request m hm := by
    rcases List.mem_append.mp hm with hm | hm
    · exact h.request m hm
    · rcases hmsg with ⟨m', rfl, hm'⟩ | ⟨-, rfl⟩
      · cases List.mem_singleton.mp hm
        exact hm'
      · cases List.mem_singleton.mp hm
  block j hj := by
    rcases List.mem_append.mp hj with hj | hj
    · exact h.block j hj
    · rcases hmsg with ⟨m', rfl, hm'⟩ | ⟨hpos, rfl⟩
      · cases List.mem_singleton.mp hj
      · cases List.mem_singleton.mp hj
        exact ⟨h.accepted_le, le_refl _, hpos⟩
  success := h.success

/-! ## Steps -/

theorem PutClient.timeout_count {c : Client} (h : PutClient snk bytes i c) (n : Nat) :
    PutClient snk bytes i { c with tftpTimeoutCount := n } :=
  ⟨⟨h.source.writing, h.source.fits, h.source.length_lt, h.source.size_eq, h.source.read_eq⟩, h.mode⟩

theorem PutClient.net_state {c : Client} (h : PutClient snk bytes i c) (s : NetState) :
    PutClient snk bytes i { c with netState := s } :=
  ⟨⟨h.source.writing, h.source.fits, h.source.length_lt, h.source.size_eq, h.source.read_eq⟩, h.mode⟩

/-- The timer runs out: the client gives up, or sends again. -/
theorem PutInv.timeout (h : PutInv snk bytes net i msgs) (hnet : net.client.netState = .cont) :
    ∃ msgs', PutInv snk bytes
      { net with client := (tftpTimeout net.client).1, toServer := net.toServer ++ (tftpTimeout net.client).2.toList }
      i msgs' := by
  obtain ⟨c1, hc1⟩ : ∃ c1, c1 = { net.client with tftpTimeoutCount := net.client.tftpTimeoutCount + 1 } := ⟨_, rfl⟩
  have hinv : PutClient snk bytes i c1 := by rw [hc1]; exact h.client.timeout_count _
  have hstate : c1.tftpState = net.client.tftpState := by rw [hc1]
  have hn1 : c1.netState = .cont := by rw [hc1]; exact hnet
  obtain ⟨msg, hsend, hmsg⟩ := hinv.send
  have hrecv : c1.tftpState ≠ .recvWrq := by
    rcases hinv.mode.cases with hs | hs <;> rw [hs] <;> decide
  rw [tftpTimeout]
  simp only [← hc1]
  split
  next =>
    refine ⟨msgs, ?_⟩
    have hinv' := h.advance (hinv.net_state .restart) (le_refl _) h.le_succ h.sorted h.packet (fun hn => by cases hn)
    simpa [restart] using hinv'
  next =>
    rw [if_pos (hstate ▸ hrecv), hsend]
    exact ⟨_, (h.advance hinv (le_refl _) h.le_succ h.sorted h.packet
      (fun hn => by rw [hn1] at hn; cases hn)).push hmsg⟩

/-- The server acknowledges what it has accepted, for the first time or again. -/
theorem PutInv.send (h : PutInv snk bytes net i msgs) :
    PutInv snk bytes { net with acked := net.accepted, toClient := net.toClient ++ [net.accepted] } i msgs where
  client := h.client
  le_succ := h.le_succ
  accepted_le := h.accepted_le
  acked_le := le_refl _
  count_le := h.count_le
  received_eq := h.received_eq
  finished_eq := h.finished_eq
  sorted := by
    refine List.pairwise_append.mpr ⟨h.sorted, List.pairwise_singleton _ _, ?_⟩
    intro x hx y hy
    rw [List.mem_singleton.mp hy]
    exact (h.packet x hx).2.trans h.acked_le
  packet q hq := by
    rcases List.mem_append.mp hq with hq | hq
    · exact ⟨(h.packet q hq).1, (h.packet q hq).2.trans h.acked_le⟩
    · rw [List.mem_singleton.mp hq]
      exact ⟨h.le_succ, le_refl _⟩
  toServer_eq := h.toServer_eq
  msgs_sorted := h.msgs_sorted
  request := h.request
  block := h.block
  success hn := Nat.le_antisymm h.count_le (h.success hn ▸ h.acked_le)

/-- The oldest packet arrives at the client. -/
theorem PutInv.recv_client {q : Nat} {rest : List Nat} (h : PutInv snk bytes net i msgs) (hq : net.toClient = q :: rest)
    (hnet : net.client.netState = .cont) (stale : List UInt8) (hsound : net.Sound snk (.recvClient stale)) :
    ∃ i' msgs', PutInv snk bytes
      { net with
        client := (tftpHandler net.client (snk.packet q ++ stale) net.client.tftpOurPort snk.port
          (snk.packet q).length).1
        toClient := rest
        toServer := net.toServer ++ (tftpHandler net.client (snk.packet q ++ stale) net.client.tftpOurPort snk.port
          (snk.packet q).length).2.toList } i' msgs' := by
  have hsort := h.sorted
  rw [hq] at hsort
  obtain ⟨hmin, hsorted⟩ := List.pairwise_cons.mp hsort
  obtain ⟨hlow, hhigh⟩ := h.packet q (by rw [hq]; exact List.mem_cons_self)
  have hacked := h.acked_le
  have hrest : ∀ x ∈ rest, q ≤ x ∧ x ≤ net.acked :=
    fun x hx => ⟨hmin x hx, (h.packet x (by rw [hq]; exact List.mem_cons_of_mem _ hx)).2⟩
  have hsame : ∀ x ∈ rest, i ≤ x + 1 ∧ x ≤ net.acked :=
    fun x hx => ⟨hlow.trans (Nat.succ_le_succ (hrest x hx).1), (hrest x hx).2⟩
  have hs := hsound q (by rw [hq]; rfl)
  have hmode := h.client.mode
  cases hoack : snk.isOack q with
  | true =>
      -- the first block is sent
      rw [if_pos hoack] at hs
      obtain ⟨c', hrun, hinv, hn⟩ := h.client.handle_oack hoack hs stale
      simp only [PutMode, hs] at hmode
      rw [hrun]
      refine ⟨1, _, (h.advance hinv (by omega) (by omega) hsorted (fun x hx => ⟨by omega, (hrest x hx).2⟩) ?_).push
        (Or.inr ⟨Nat.one_pos, rfl⟩)⟩
      intro hsucc
      rw [hn, hnet] at hsucc
      cases hsucc
  | false =>
      rw [hoack] at hs
      rcases h.client.mode.cases with hstate | hstate
      · -- the request is not answered by an OACK
        simp only [PutMode, hstate] at hmode
        obtain ⟨rfl, -⟩ := hmode
        have hzero : q = 0 := by have := h.accepted_le; omega
        subst hzero
        obtain ⟨c', out, hrun, hinv, hn, hout⟩ := h.client.handle_ack_request hoack hstate stale
        have hadv := h.advance hinv (le_refl _) h.le_succ hsorted hsame
          (fun hsucc => by rw [hn, hnet] at hsucc; cases hsucc)
        rw [hrun]
        cases out with
        | none => exact ⟨0, msgs, by simpa using hadv⟩
        | some m => exact ⟨0, msgs ++ [Msg.request m], hadv.push (Or.inl ⟨m, rfl, hout m rfl⟩)⟩
      · simp only [PutMode, hstate] at hmode
        obtain ⟨hpos, hcount, hblock, -, -, -, hfin, -⟩ := hmode
        have hqi : q = i ∨ q + 1 = i := by have := h.accepted_le; omega
        cases hfinal : net.client.tftpFinalBlock with
        | true =>
            -- the ACK of the final block
            rw [hfinal] at hs hfin
            have hlast : i = chunkCount bytes snk.blkSize := of_decide_eq_true hfin.symm
            have hnum : q % 65536 = i % 65536 := by
              rw [hblock] at hs
              exact hs
            have hqe : q = i := by omega
            have hdone : net.acked = chunkCount bytes snk.blkSize := by have := h.count_le; omega
            rw [h.client.handle_ack_final hfinal hoack]
            refine ⟨i, msgs, ?_⟩
            have hadv := h.advance (h.client.net_state .success) (le_refl _) h.le_succ hsorted hsame (fun _ => hdone)
            simpa [tftpComplete] using hadv
        | false =>
            rw [hfinal] at hs
            rcases hqi with rfl | rfl
            · -- the next block is sent
              obtain ⟨c', hrun, hinv, hn⟩ := h.client.handle_ack hstate hfinal hoack stale
              rw [hrun]
              refine ⟨q + 1, _, (h.advance hinv (Nat.le_succ q) (by omega) hsorted
                (fun x hx => ⟨Nat.succ_le_succ (hrest x hx).1, (hrest x hx).2⟩) ?_).push
                (Or.inr ⟨Nat.succ_pos q, rfl⟩)⟩
              intro hsucc
              rw [hn, hnet] at hsucc
              cases hsucc
            · -- an ACK that came before
              have hne : (q + 1) % 65536 ≠ 0 := by
                intro h0
                have hq0 : q % tftpSequenceSize = 65535 := by simp only [tftpSequenceSize]; omega
                exact hs ⟨hq0, hblock.trans h0⟩
              rw [h.client.handle_ack_dup hstate hfinal hoack hne]
              refine ⟨q + 1, msgs, ?_⟩
              have hadv := h.advance h.client (le_refl _) h.le_succ hsorted hsame h.success
              simpa using hadv

theorem ntohs_dataPacket (j : Nat) (payload : List UInt8) : ntohs (dataPacket j payload) = 3 ∧
    ntohs ((dataPacket j payload).drop 2) = j % 65536 ∧ (dataPacket j payload).drop 4 = payload := by
  refine ⟨?_, ?_, rfl⟩
  · rw [dataPacket, List.append_assoc]
    exact ntohs_be16 _
  · rw [dataPacket, List.append_assoc, drop_be16]
    exact ntohs_be16 _

/-- The oldest message arrives at the server. -/
theorem PutInv.recv_server {msg : List UInt8} {rest : List (List UInt8)} (h : PutInv snk bytes net i msgs)
    (hmsg : net.toServer = msg :: rest) :
    ∃ msgs', PutInv snk bytes (snk.recv { net with toServer := rest } msg) i msgs' := by
  have heq := h.toServer_eq
  rw [hmsg] at heq
  cases msgs with
  | nil => simp at heq
  | cons m ms =>
      simp only [List.map_cons, List.cons.injEq] at heq
      obtain ⟨rfl, rfl⟩ := heq
      obtain ⟨hmin, hsorted⟩ := List.pairwise_cons.mp h.msgs_sorted
      have hskip : PutInv snk bytes { net with toServer := ms.map (Msg.bytes (putPacket snk bytes)) } i ms :=
        ⟨h.client, h.le_succ, h.accepted_le, h.acked_le, h.count_le, h.received_eq, h.finished_eq, h.sorted, h.packet,
          rfl, hsorted, fun m hm => h.request m (List.mem_cons_of_mem _ hm),
          fun j hj => h.block j (List.mem_cons_of_mem _ hj), h.success⟩
      refine ⟨ms, ?_⟩
      cases m with
      | request m =>
          rw [Sink.recv, Msg.bytes, if_pos (h.request m List.mem_cons_self)]
          exact ⟨hskip.client, hskip.le_succ, hskip.accepted_le, hskip.acked_le, hskip.count_le, hskip.received_eq,
            hskip.finished_eq, hskip.sorted, hskip.packet, rfl, hskip.msgs_sorted, hskip.request, hskip.block,
            hskip.success⟩
      | block j =>
          obtain ⟨hlow, hhigh, hpos⟩ := h.block j List.mem_cons_self
          obtain ⟨h1, h2, h3⟩ := ntohs_dataPacket j (chunk bytes snk.blkSize (j - 1))
          rw [Sink.recv, Msg.bytes, putPacket, h1, h2, h3, if_neg (by decide)]
          split
          next hacc =>
            -- the number of the block is that of the next one, not of the last one
            have hj : j = net.accepted + 1 := by
              have hnum := hacc.2.2.1
              have hle := h.le_succ
              simp only [tftpSequenceSize] at hnum
              omega
            have hcount : net.accepted < chunkCount bytes snk.blkSize := by
              have hfin := hacc.2.2.2
              simp only [h.finished_eq, decide_eq_false_iff_not] at hfin
              have hle := h.count_le
              omega
            have hchunk : j - 1 = net.accepted := by omega
            rw [hchunk]
            exact {
              client := h.client
              le_succ := h.le_succ.trans (Nat.le_succ _)
              accepted_le := hj ▸ hhigh
              acked_le := h.acked_le.trans (Nat.le_succ _)
              count_le := hcount
              received_eq := by rw [h.received_eq, take_append_chunk]
              finished_eq := decide_eq_decide.mpr (chunk_short_iff snk.blkSize_pos hcount)
              sorted := h.sorted
              packet := h.packet
              toServer_eq := rfl
              msgs_sorted := hsorted
              request := hskip.request
              block := fun b hb => ⟨hj ▸ hmin _ hb, (hskip.block b hb).2⟩
              success := h.success }
          next => exact hskip

theorem PutInv.noise_client (h : PutInv snk bytes net i msgs) (w : Noise) :
    PutInv snk bytes { net with toClient := w.apply net.toClient } i msgs :=
  ⟨h.client, h.le_succ, h.accepted_le, h.acked_le, h.count_le, h.received_eq, h.finished_eq,
    w.pairwise (fun _ => le_refl _) h.sorted, fun q hq => h.packet q (Noise.mem_apply hq), h.toServer_eq,
    h.msgs_sorted, h.request, h.block, h.success⟩

theorem PutInv.noise_server (h : PutInv snk bytes net i msgs) (w : Noise) :
    PutInv snk bytes { net with toServer := w.apply net.toServer } i (w.apply msgs) :=
  ⟨h.client, h.le_succ, h.accepted_le, h.acked_le, h.count_le, h.received_eq, h.finished_eq, h.sorted, h.packet,
    by rw [h.toServer_eq, Noise.apply_map], w.pairwise Msg.le_refl h.msgs_sorted,
    fun m hm => h.request m (Noise.mem_apply hm), fun j hj => h.block j (Noise.mem_apply hj), h.success⟩

/-- A sound step keeps the invariant. -/
theorem PutInv.step (h : PutInv snk bytes net i msgs) {act : Act} (hsound : net.Sound snk act) :
    ∃ i' msgs', PutInv snk bytes (net.step snk act) i' msgs' := by
  cases act with
  | timeout =>
      rw [PutNet.step]
      split
      next hnet => exact ⟨i, h.timeout hnet⟩
      next => exact ⟨i, msgs, h⟩
  | send =>
      rw [PutNet.step]
      split
      next => exact ⟨i, msgs, h.send⟩
      next => exact ⟨i, msgs, h⟩
  | recvClient stale =>
      cases hq : net.toClient with
      | nil => rw [PutNet.step, hq]; exact ⟨i, msgs, h⟩
      | cons q rest =>
          rw [PutNet.step, hq]
          dsimp only
          split
          next hnet => exact h.recv_client hq hnet stale hsound
          next =>
            have hsort := h.sorted
            rw [hq] at hsort
            have hrest : ∀ x ∈ rest, i ≤ x + 1 ∧ x ≤ net.acked :=
              fun x hx => h.packet x (by rw [hq]; exact List.mem_cons_of_mem _ hx)
            exact ⟨i, msgs, h.advance h.client (le_refl _) h.le_succ hsort.of_cons hrest h.success⟩
  | recvServer =>
      cases hm : net.toServer with
      | nil => rw [PutNet.step, hm]; exact ⟨i, msgs, h⟩
      | cons msg rest =>
          rw [PutNet.step, hm]
          exact ⟨i, h.recv_server hm⟩
  | noiseClient w => exact ⟨i, msgs, h.noise_client w⟩
  | noiseServer w => exact ⟨i, _, h.noise_server w⟩

theorem PutInv.run (h : PutInv snk bytes net i msgs) {acts : List Act} (hsound : PutNet.SoundRun snk net acts) :
    ∃ i' msgs', PutInv snk bytes (net.run snk acts) i' msgs' := by
  induction acts generalizing net i msgs with
  | nil => exact ⟨i, msgs, h⟩
  | cons act acts ih =>
      obtain ⟨hact, hacts⟩ := hsound
      obtain ⟨i', msgs', h'⟩ := h.step hact
      exact ih h' hacts

end

theorem PutInv.start (snk : Sink) (c : Client) (size ourPort : Nat) (hfits : c.saveAddr + size ≤ wordSize)
    (hsize : size < wordSize) :
    ∃ msgs, PutInv snk (c.mem.read c.saveAddr size) (PutNet.start c size ourPort) 0 msgs := by
  obtain ⟨c1, hc1⟩ : ∃ c1 : Client, c1 = { c with
    tftpWriting := true, netState := .cont, netBootFileXferSize := size, tftpState := .sendWrq, tftpLastBlock := 0,
    tftpBlockWrapOffset := 0, tftpFinalBlock := false, tftpRemotePort := wellKnownPort, tftpTimeoutCount := 0,
    tftpOurPort := ourPort, tftpBlock := 0, tftpBlkSize := tftpBlockSize } := ⟨_, rfl⟩
  have hstart : PutNet.start c size ourPort = ⟨c1, false, 0, [], false, 0, [], [requestPacket 2 c1]⟩ := by
    rw [hc1]
    rfl
  have hlen : (c.mem.read c.saveAddr size).length = size := Mem.read_length
  have hinv : PutClient snk (c.mem.read c.saveAddr size) 0 c1 := by
    rw [hc1]
    refine ⟨⟨rfl, ?_, ?_, hlen.symm, ?_⟩, ⟨rfl, rfl, rfl, rfl, Or.inl rfl⟩⟩
    · rw [hlen]; exact hfits
    · rw [hlen]; exact hsize
    · rw [hlen]
  have hcount : 0 ≠ chunkCount (c.mem.read c.saveAddr size) snk.blkSize := Nat.succ_ne_zero _ ∘ Eq.symm
  rw [hstart]
  refine ⟨[.request (requestPacket 2 c1)], hinv, Nat.zero_le _, le_refl _, le_refl _, Nat.zero_le _, by simp, ?_,
    List.Pairwise.nil, fun q hq => absurd hq List.not_mem_nil, rfl, List.pairwise_singleton _ _, ?_, ?_, ?_⟩
  · exact (decide_eq_false hcount).symm
  · intro m hm
    cases List.mem_singleton.mp hm
    exact ntohs_requestPacket 2 c1
  · intro j hj
    cases List.mem_singleton.mp hj
  · intro hn
    rw [hc1] at hn
    cases hn

/-- In a sound run the server gets the bytes in sequence, all of them when it has accepted a short block, and the
client succeeds only after the server has acknowledged that block. -/
theorem upload_exact (snk : Sink) (c : Client) (size ourPort : Nat) (acts : List Act)
    (hfits : c.saveAddr + size ≤ wordSize) (hsize : size < wordSize)
    (hsound : PutNet.SoundRun snk (PutNet.start c size ourPort) acts) :
    ∃ net, net = (PutNet.start c size ourPort).run snk acts ∧
      net.received = (c.mem.read c.saveAddr size).take (net.accepted * snk.blkSize) ∧
      (net.finished = true → net.received = c.mem.read c.saveAddr size) ∧
      (net.client.netState = .success → net.finished = true ∧ net.acked = net.accepted) := by
  obtain ⟨msgs, hstart⟩ := PutInv.start snk c size ourPort hfits hsize
  obtain ⟨i, msgs', h⟩ := hstart.run hsound
  refine ⟨_, rfl, h.received_eq, ?_, ?_⟩
  · intro hfin
    rw [h.finished_eq] at hfin
    rw [h.received_eq, of_decide_eq_true hfin]
    exact List.take_of_length_le (length_lt_chunkCount_mul _ snk.blkSize_pos).le
  · intro hsucc
    have hacked := h.success hsucc
    have hacc := Nat.le_antisymm h.count_le (hacked ▸ h.acked_le)
    rw [h.finished_eq]
    exact ⟨decide_eq_true hacc, hacked.trans hacc.symm⟩

theorem pairSink_optsOk (o : List Opt) (ho : some [.blksize 2] = some o) : OptsOk o := by
  intro n hn
  cases ho
  cases List.mem_singleton.mp hn
  decide

theorem pairSink_blkSize_pos : 0 < Offer.blkSize ⟨some [.blksize 2], pairSink_optsOk⟩ := by decide

/-- A server that takes blocks of two bytes. -/
def pairSink : Sink where
  offer := ⟨some [.blksize 2], pairSink_optsOk⟩
  blkSize_pos := pairSink_blkSize_pos
  port := 1069

/-- A client with three bytes to send. -/
def putClient : Client := { idleClient with mem := Mem.write (fun _ => 0) 0x88000000 [1, 2, 3] }

/-- Block 1 is lost once and sent again. -/
def putActs : List Act :=
  [.recvServer, .send, .recvClient [], .noiseServer (.lose 0), .timeout, .recvServer, .send, .recvClient [],
    .recvServer, .send, .recvClient [9, 9]]

theorem upload_exact_lossy : ∃ net, net = (PutNet.start putClient 3 2000).run pairSink putActs ∧
    net.client.netState = .success ∧ net.received = [1, 2, 3] ∧ net.acked = 2 := by
  obtain ⟨net, hnet, -, hall, hsucc⟩ := upload_exact pairSink putClient 3 2000 putActs (by decide) (by decide)
    (by simp only [putActs, PutNet.SoundRun, PutNet.Sound]; decide)
  have hstate : net.client.netState = .success := by rw [hnet]; decide
  refine ⟨net, hnet, hstate, ?_, ?_⟩
  · rw [hall (hsucc hstate).1]
    decide
  · rw [(hsucc hstate).2, hnet]
    decide

/-- The ACK of block 1 arrives twice. The client succeeds, but the server has not got block 2. -/
theorem upload_dup_ack_premature : ∃ net, net = (PutNet.start putClient 3 2000).run pairSink
      [.recvServer, .send, .recvClient [], .recvServer, .send, .noiseClient (.dup 0), .recvClient [], .recvClient []] ∧
    net.client.netState = .success ∧ net.finished = false ∧ net.received = [1, 2] ∧
    putClient.mem.read putClient.saveAddr 3 = [1, 2, 3] := by
  refine ⟨_, rfl, ?_, ?_, ?_, ?_⟩ <;> decide

end Uboot.Tftp
