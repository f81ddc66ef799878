import Uboot.Httpd.Combined

/-!
# Answers

One segment of an answer is in flight at a time. `dataptr` points to it, `upload` counts it and the rest. The mss goes
with the window of every segment of the peer; at an acknowledgement the rest is compared with the new one. Pages are
part of the image; the answers of the handlers are on the stack of a call that has returned when they are sent.
-/

namespace Uboot.Httpd

open Uboot.Lib

/-- `uip_connr->mss` after a segment with this window. -/
def mssOf (initialmss wnd : Nat) : Nat := if initialmss < wnd ∨ wnd = 0 then initialmss else wnd

/-- What `dataptr` points into. -/
inductive Source where
  | page (bytes : List UInt8)
  | stack

/-- The bytes that are sent; those of a stack frame that is gone are whatever was written there since. -/
def Source.read (frame : List UInt8) (ptr len : Nat) : Source → List UInt8
  | .page bytes => slice bytes ptr len
  | .stack => slice frame ptr len

/-- The data of a request is answered by a handler. -/
def fromHandler (p : Payload) (hs : HttpdState) : Bool :=
  hs.state = .none ∧ (if isGet (p.data ++ p.stale) then (ascii "/macrw").isPrefixOf ((p.data ++ p.stale).drop 4)
    else isPost (p.data ++ p.stale))

/-- The answer with these bytes to the data of a request. -/
def answerSource (p : Payload) (hs : HttpdState) (bytes : List UInt8) : Source :=
  if fromHandler p hs then .stack else .page bytes

/-- A connection that answers: the transmissions of the segment in flight, and what the peer has acknowledged. -/
structure Sending where
  link : Link
  mss : Nat
  initialmss : Nat
  dataptr : Nat
  flight : List (List UInt8)
  acked : List UInt8

/-- What the peer and the timer do. A loss shows in what does not happen. -/
inductive PeerAct where
  /-- the segment in flight is acknowledged; `i` is the transmission of it that arrived -/
  | ack (wnd : Nat) (i : Nat) (frame : List UInt8)
  /-- a segment that acknowledges nothing new -/
  | window (wnd : Nat)
  | rexmit (frame : List UInt8)
  | timeout
  | poll

/-- The request is answered. -/
def Sending.start (site : Site) (l : Link) (p : Payload) (initialmss : Nat) (source : Source) (frame : List UInt8) :
    Sending :=
  let link := l.step site (.data p)
  ⟨link, p.mss, initialmss, 0, [source.read frame 0 link.len], []⟩

def Sending.step (site : Site) (source : Source) (s : Sending) : PeerAct → Sending
  | .ack wnd i frame =>
      let mss := mssOf s.initialmss wnd
      let link := s.link.step site (.acked { mss := mss })
      let acked := s.acked ++ s.flight.getD i []
      match link.reply with
      | .send _ =>
          let dataptr := s.dataptr + s.link.len
          -- nothing to send: no packet
          let flight := if link.len = 0 then [] else [source.read frame dataptr link.len]
          { s with link := link, mss := mss, dataptr := dataptr, flight := flight, acked := acked }
      | _ => { s with link := link, mss := mss, flight := [], acked := acked }
  | .window wnd => { s with mss := mssOf s.initialmss wnd }
  | .rexmit frame =>
      let link := s.link.step site (.rexmit s.mss)
      match link.reply with
      | .send n =>
          let flight := if n = 0 then s.flight else s.flight ++ [source.read frame s.dataptr s.link.len]
          { s with link := link, flight := flight }
      | _ => { s with link := link }
  | .timeout => { s with link := s.link.step site .timedout }
  | .poll => { s with link := s.link.step site .poll }

/-- When it can happen. -/
def Sending.Enabled (s : Sending) : PeerAct → Prop
  | .ack _ i _ => s.link.reply.ends = false ∧ 0 < s.link.len ∧ i < s.flight.length
  | .window _ => s.link.reply.ends = false
  | .rexmit _ => s.link.reply.ends = false ∧ 0 < s.link.len
  | .timeout => s.link.reply.ends = false ∧ 0 < s.link.len
  | .poll => s.link.reply.ends = false ∧ s.link.len = 0

/-- An acknowledgement of a part of the rest does not open the window for all of the rest. -/
def Sending.Steady (s : Sending) : PeerAct → Prop
  | .ack wnd _ _ => s.link.hs.upload ≤ mssOf s.initialmss wnd → s.link.hs.upload ≤ s.link.len
  | _ => True

def Sending.run (site : Site) (source : Source) (s : Sending) (acts : List PeerAct) : Sending :=
  acts.foldl (Sending.step site source) s

/-- `P` holds of every step of the run. -/
def Sending.Along (site : Site) (source : Source) (P : Sending → PeerAct → Prop) : Sending → List PeerAct → Prop
  | _, [] => True
  | s, act :: acts => P s act ∧ Sending.Along site source P (s.step site source act) acts

/-- The peer has acknowledged the answer from its start on, and all of it when the connection is closed; while some of
it is missing, its next bytes are in flight. -/
structure Sending.Whole (bytes : List UInt8) (s : Sending) : Prop where
  in_order : s.acked <+: bytes
  closed : s.link.reply = .close → s.acked = bytes
  pending : s.link.reply.ends = false → s.acked ≠ bytes →
    s.flight ≠ [] ∧ ∀ seg ∈ s.flight, seg ≠ [] ∧ s.acked ++ seg <+: bytes

/-! ## The start -/

section
variable {site : Site} {ev : Event} {hs : HttpdState} {g : Globals} {p : Payload} {len n : Nat}

theorem fileRequest_send (hst : hs.state = .fileRequest) (h : (fileRequest site ev hs g).reply = .send n) :
    (fileRequest site ev hs g).hs.state = .fileRequest ∧ n = min (fileRequest site ev hs g).hs.upload ev.mss := by
  rw [fileRequest] at h ⊢
  dsimp only at h ⊢
  split at h
  next => cases h
  next =>
    cases h
    exact ⟨hst, rfl⟩

theorem continueUpload_send (h : (continueUpload site ev hs g).reply = .send n) :
    (continueUpload site ev hs g).hs.state = .fileRequest ∧ n = min (continueUpload site ev hs g).hs.upload ev.mss := by
  rw [continueUpload] at h ⊢
  split at h
  next hfound =>
    rw [if_pos hfound]
    generalize (if g.uploadFailed then g else _) = stored at h ⊢
    dsimp only at h ⊢
    split at h
    next hdone =>
      rw [if_pos hdone]
      cases h
      exact ⟨rfl, rfl⟩
    next => cases h
  next =>
    dsimp only at h
    split at h
    next => cases h
    next => cases h

/-- A page is sent by a connection in `STATE_FILE_REQUEST`. -/
theorem appcall_page (hne : p.data ≠ []) (hpage : fromHandler p hs = false)
    (h : (appcall site (Call.event len (.data p)) hs g).reply = .send n) :
    (appcall site (Call.event len (.data p)) hs g).hs.state = .fileRequest ∧
      n = min (appcall site (Call.event len (.data p)) hs g).hs.upload p.mss := by
  cases hst : hs.state with
  | fileRequest =>
      rw [appcall_data_file hst] at h
      cases h
  | uploadRequest =>
      rw [appcall_data_upload hne hst] at h ⊢
      exact continueUpload_send h
  | none =>
      rw [appcall_data_none hne hst] at h ⊢
      rw [newRequest] at h ⊢
      split at h
      next hget =>
        have hbuf : isGet (p.data ++ p.stale) = true := hget
        rw [if_pos hget]
        dsimp only at h ⊢
        split at h
        next hmacrw => 
          have hm : (ascii "/macrw").isPrefixOf ((p.data ++ p.stale).drop 4) = true := hmacrw
          simp [fromHandler, hst, hbuf, hm] at hpage
        next hmacrw =>
          rw [if_neg hmacrw]
          exact fileRequest_send rfl h
      next hget =>
        split at h
        next hpost =>
          have hbuf : ¬ isGet (p.data ++ p.stale) = true := hget
          have hp : isPost (p.data ++ p.stale) = true := hpost
          simp [fromHandler, hst, hbuf, hp] at hpage
        next => cases h

end

/-! ## The invariant -/

/-- A page is being sent: what is before `dataptr` is acknowledged, the segment at `dataptr` is in flight. -/
structure Sending.Goes (bytes : List UInt8) (s : Sending) : Prop where
  ends : s.link.reply.ends = false
  state : s.link.hs.state = .fileRequest
  initial_pos : 0 < s.initialmss
  mss_pos : 0 < s.mss
  ptr_le : s.dataptr ≤ bytes.length
  acked : s.acked = bytes.take s.dataptr
  upload : s.link.hs.upload = bytes.length - s.dataptr
  len_le : s.link.len ≤ s.link.hs.upload
  len_pos : 0 < s.link.hs.upload → 0 < s.link.len
  flight : ∀ seg ∈ s.flight, seg = slice bytes s.dataptr s.link.len
  in_flight : 0 < s.link.len → s.flight ≠ []

inductive Sending.Inv (bytes : List UInt8) (s : Sending) : Prop where
  | goes (h : s.Goes bytes)
  | closed (reply : s.link.reply = .close) (all : s.acked = bytes)
  | aborted (reply : s.link.reply = .abort) (in_order : s.acked <+: bytes)

section
variable {site : Site} {bytes : List UInt8} {s : Sending} {p : Payload} {n : Nat}

theorem mssOf_pos {initialmss : Nat} (h : 0 < initialmss) (wnd : Nat) : 0 < mssOf initialmss wnd := by
  rw [mssOf]
  split
  next => exact h
  next hwnd => omega

theorem Sending.Goes.whole (h : s.Goes bytes) : s.Whole bytes where
  in_order := by
    rw [h.acked]
    exact List.take_prefix ..
  closed hclose := by
    have hends := h.ends
    rw [hclose] at hends
    cases hends
  pending _ hne := by
    have hlt : s.dataptr < bytes.length := by
      by_contra hge
      exact hne (by rw [h.acked, List.take_of_length_le (by omega)])
    have hlen := h.len_pos (by rw [h.upload]; omega)
    refine ⟨h.in_flight hlen, fun seg hseg => ?_⟩
    rw [h.flight seg hseg, h.acked]
    constructor
    · intro hnil
      have hle := h.len_le
      rw [h.upload] at hle
      have hlength : (slice bytes s.dataptr s.link.len).length = s.link.len := slice_length (by omega)
      rw [hnil] at hlength
      exact absurd hlength (by simp; omega)
    · rw [slice, ← List.take_add]
      exact List.take_prefix ..

theorem Sending.Inv.whole (h : s.Inv bytes) : s.Whole bytes := by
  cases h with
  | goes h => exact h.whole
  | closed hreply hall =>
      refine ⟨by rw [hall], fun _ => hall, fun hends => ?_⟩
      rw [hreply] at hends
      cases hends
  | aborted hreply hpre =>
      refine ⟨hpre, fun hclose => ?_, fun hends => ?_⟩
      · rw [hreply] at hclose
        cases hclose
      · rw [hreply] at hends
        cases hends

/-- The segment that is acknowledged, whichever of its transmissions arrived. -/
theorem Sending.Goes.acked_next (h : s.Goes bytes) {i : Nat} (hi : i < s.flight.length) :
    s.acked ++ s.flight.getD i [] = bytes.take (s.dataptr + s.link.len) := by
  have hseg : s.flight.getD i [] = slice bytes s.dataptr s.link.len := by
    rw [List.getD_eq_getElem _ _ hi]
    exact h.flight _ (List.getElem_mem hi)
  rw [hseg, h.acked, slice, List.take_add]

theorem Link.acked_page {l : Link} (hst : l.hs.state = .fileRequest) (site : Site) (p : Payload) :
    (l.hs.upload ≤ p.mss ∧ (l.step site (.acked p)).reply = .close) ∨
    (p.mss < l.hs.upload ∧ ∃ rest, rest = (l.hs.upload + wordSize - l.len) % wordSize ∧
      l.step site (.acked p) = ⟨true, min (min rest p.mss) p.mss, { l.hs with upload := rest }, l.g, .send (min rest p.mss)⟩) := by
  have hbusy : l.hs.state ≠ .none := by simp [hst]
  rw [Link.acked_step hbusy]
  rcases handleAcked_cases (Call.event l.len (.acked p)) l.hs l.g with ⟨-, hnot, -⟩ | ⟨-, hmss, hclose⟩ | ⟨hmss, hsend⟩
  · exact absurd hst hnot
  · exact .inl ⟨hmss, hclose⟩
  · refine .inr ⟨hmss, _, rfl, ?_⟩
    rw [hsend]
    rfl

theorem Sending.Goes.ack (h : s.Goes bytes) (hbytes : bytes.length < wordSize) {wnd i : Nat} {frame : List UInt8}
    (hen : s.Enabled (.ack wnd i frame)) (hsteady : s.Steady (.ack wnd i frame)) :
    (s.step site (.page bytes) (.ack wnd i frame)).Inv bytes := by
  obtain ⟨-, hlen, hi⟩ := hen
  have hacked := h.acked_next hi
  have hupload := h.upload
  have hlen_le := h.len_le
  have hptr := h.ptr_le
  have hmss := mssOf_pos h.initial_pos wnd
  rcases Link.acked_page h.state site { mss := mssOf s.initialmss wnd } with ⟨hle, hclose⟩ | ⟨hlt, rest, hrest, hsend⟩
  · -- the rest was the segment in flight
    have hall := hsteady hle
    refine .closed ?_ ?_
    · simp only [Sending.step, hclose]
    · simp only [Sending.step, hclose]
      rw [hacked, List.take_of_length_le (by omega)]
  · have hrest' : rest = bytes.length - (s.dataptr + s.link.len) := by
      unfold wordSize at hrest hbytes
      omega
    have hmin : min (min rest (mssOf s.initialmss wnd)) (mssOf s.initialmss wnd) = min rest (mssOf s.initialmss wnd) := by
      omega
    refine .goes ?_
    simp only [Sending.step, hsend, hacked, hmin, Source.read]
    refine ⟨rfl, h.state, h.initial_pos, hmss, by dsimp only; omega, rfl, hrest', ?_, ?_, ?_, ?_⟩
    · dsimp only; omega
    · dsimp only; omega
    · intro seg hseg
      dsimp only at hseg ⊢
      split at hseg
      next => cases hseg
      next => exact List.mem_singleton.mp hseg
    · intro hpos
      dsimp only at hpos ⊢
      rw [if_neg (by omega)]
      simp

theorem Link.rexmit_page {l : Link} (hst : l.hs.state = .fileRequest) (site : Site) (mss : Nat) :
    l.step site (.rexmit mss) = ⟨true, l.len, l.hs, l.g, .send (min l.hs.upload mss)⟩ := by
  simp [Link.step, appcall, Call.event, hst, sendPage, Call.outstanding]

/-- The same bytes are sent again. -/
theorem Sending.Goes.rexmit (h : s.Goes bytes) (frame : List UInt8) (hlen : 0 < s.link.len) :
    (s.step site (.page bytes) (.rexmit frame)).Goes bytes := by
  have hpos : min s.link.hs.upload s.mss ≠ 0 := by
    have hle := h.len_le
    have hmss := h.mss_pos
    omega
  simp only [Sending.step, Link.rexmit_page h.state, hpos, if_false, Source.read]
  refine ⟨rfl, h.state, h.initial_pos, h.mss_pos, h.ptr_le, h.acked, h.upload, h.len_le, h.len_pos, ?_, ?_⟩
  · intro seg hseg
    rcases List.mem_append.mp hseg with hold | hnew
    · exact h.flight seg hold
    · exact List.mem_singleton.mp hnew
  · simp

theorem Sending.Goes.window (h : s.Goes bytes) (wnd : Nat) : (s.step site (.page bytes) (.window wnd)).Goes bytes :=
  { h with mss_pos := mssOf_pos h.initial_pos wnd }

theorem Link.poll_cases (l : Link) (site : Site) : (l.step site .poll).reply = .abort ∨
    l.step site .poll = ⟨true, 0, { l.hs with count := (l.hs.count + 1) % 65536 }, l.g, .none⟩ := by
  by_cases h : 3000 ≤ l.hs.count
  · left
    simp [Link.step, appcall, Call.event, h, resetAnd]
  · right
    simp [Link.step, appcall, Call.event, h, Call.outstanding]

theorem Sending.Goes.poll (h : s.Goes bytes) (hlen : s.link.len = 0) : (s.step site (.page bytes) .poll).Inv bytes := by
  rcases Link.poll_cases s.link site with habort | hpoll
  · refine .aborted ?_ ?_
    · simp only [Sending.step, habort]
    · simp only [Sending.step]
      exact h.whole.in_order
  · refine .goes ?_
    simp only [Sending.step, hpoll]
    exact { h with
      ends := rfl
      len_le := Nat.zero_le _
      len_pos := fun hpos => absurd (h.len_pos hpos) (by omega)
      flight := fun seg hseg => by rw [h.flight seg hseg, hlen]
      in_flight := fun hpos => absurd hpos (Nat.lt_irrefl 0) }

theorem Sending.Goes.timeout (h : s.Goes bytes) : (s.step site (.page bytes) .timeout).Inv bytes := by
  refine .aborted ?_ h.whole.in_order
  simp [Sending.step, Link.step, appcall, Call.event, resetAnd]

/-- One step of the answer to a request. -/
theorem Sending.Inv.step (h : s.Inv bytes) (hbytes : bytes.length < wordSize) {act : PeerAct} (hen : s.Enabled act)
    (hsteady : s.Steady act) : (s.step site (.page bytes) act).Inv bytes := by
  have hends : s.link.reply.ends = false := by
    cases act with
    | window wnd => exact hen
    | _ => exact hen.1
  cases h with
  | closed hreply hall =>
      rw [hreply] at hends
      cases hends
  | aborted hreply hpre =>
      rw [hreply] at hends
      cases hends
  | goes h =>
      cases act with
      | ack wnd i frame => exact h.ack hbytes hen hsteady
      | window wnd => exact .goes (h.window wnd)
      | rexmit frame => exact .goes (h.rexmit frame hen.2)
      | timeout => exact h.timeout
      | poll => exact h.poll hen.2

theorem Sending.start_goes {l : Link} {p : Payload} {initialmss wnd n : Nat} (frame : List UInt8) (hne : p.data ≠ [])
    (hlen : l.len = 0) (hpage : fromHandler p l.hs = false) (hpos : 0 < initialmss) (hmss : p.mss = mssOf initialmss wnd)
    (hreply : (l.step site (.data p)).reply = .send n) (hbytes : bytes.length = (l.step site (.data p)).hs.upload) :
    (Sending.start site l p initialmss (.page bytes) frame).Goes bytes := by
  obtain ⟨hst, hn⟩ := appcall_page hne hpage hreply
  have hmss_pos : 0 < p.mss := by
    rw [hmss]
    exact mssOf_pos hpos wnd
  have hlink : (l.step site (.data p)).len = n := by
    change Call.outstanding l.len (l.step site (.data p)).reply (.data p) = n
    rw [hreply, hlen, Call.outstanding, if_pos (.inr rfl)]
    change min n p.mss = n
    omega
  have hn' : n = min (l.step site (.data p)).hs.upload p.mss := hn
  refine ⟨?_, hst, hpos, hmss_pos, Nat.zero_le _, by simp [Sending.start], hbytes.symm, ?_, ?_, ?_, ?_⟩
  · change (l.step site (.data p)).reply.ends = false
    rw [hreply]
    rfl
  · change (l.step site (.data p)).len ≤ (l.step site (.data p)).hs.upload
    omega
  · intro hupload
    change 0 < (l.step site (.data p)).len
    change 0 < (l.step site (.data p)).hs.upload at hupload
    omega
  · intro seg hseg
    exact List.mem_singleton.mp hseg
  · intro _
    exact List.cons_ne_nil _ _

theorem Sending.Inv.run (h : s.Inv bytes) (hbytes : bytes.length < wordSize) {acts : List PeerAct}
    (hallowed : Sending.Along site (.page bytes) Sending.Enabled s acts)
    (hsteady : Sending.Along site (.page bytes) Sending.Steady s acts) : (s.run site (.page bytes) acts).Inv bytes := by
  induction acts generalizing s with
  | nil => exact h
  | cons act acts ih => exact ih (h.step hbytes hallowed.1 hsteady.1) hallowed.2 hsteady.2

end

/-- The answer to a request arrives whole in every run in which it is a page, an mss is left, nothing else is
outstanding, and no acknowledgement opens the window for the rest while only a part of it is in flight. -/
theorem answer_whole (site : Site) (l : Link) (p : Payload) (initialmss wnd n : Nat) (bytes frame : List UInt8)
    (acts : List PeerAct) (hen : l.Enabled (.data p)) (hmss : p.mss = mssOf initialmss wnd)
    (hreply : (l.step site (.data p)).reply = .send n) (hbytes : bytes.length = (l.step site (.data p)).hs.upload)
    (hword : bytes.length < wordSize)
    (hallowed : Sending.Along site (answerSource p l.hs bytes) Sending.Enabled
      (Sending.start site l p initialmss (answerSource p l.hs bytes) frame) acts)
    (hpage : fromHandler p l.hs = false) (hlen : l.len = 0) (hpos : 0 < initialmss)
    (hsteady : Sending.Along site (answerSource p l.hs bytes) Sending.Steady
      (Sending.start site l p initialmss (answerSource p l.hs bytes) frame) acts) :
    ((Sending.start site l p initialmss (answerSource p l.hs bytes) frame).run site (answerSource p l.hs bytes)
      acts).Whole bytes := by
  have hsource : answerSource p l.hs bytes = .page bytes := by simp [answerSource, hpage]
  rw [hsource] at hallowed hsteady ⊢
  have hstart := Sending.start_goes frame hen.2.1 hlen hpage hpos hmss hreply hbytes
  exact (Sending.Inv.run (.goes hstart) hword hallowed hsteady).whole

instance (s : Sending) : (act : PeerAct) → Decidable (s.Enabled act)
  | .ack _ i _ => inferInstanceAs (Decidable (s.link.reply.ends = false ∧ 0 < s.link.len ∧ i < s.flight.length))
  | .window _ => inferInstanceAs (Decidable (s.link.reply.ends = false))
  | .rexmit _ => inferInstanceAs (Decidable (s.link.reply.ends = false ∧ 0 < s.link.len))
  | .timeout => inferInstanceAs (Decidable (s.link.reply.ends = false ∧ 0 < s.link.len))
  | .poll => inferInstanceAs (Decidable (s.link.reply.ends = false ∧ s.link.len = 0))

instance (s : Sending) : (act : PeerAct) → Decidable (s.Steady act)
  | .ack wnd _ _ => inferInstanceAs (Decidable (s.link.hs.upload ≤ mssOf s.initialmss wnd → s.link.hs.upload ≤ s.link.len))
  | .window _ => instDecidableTrue
  | .rexmit _ => instDecidableTrue
  | .timeout => instDecidableTrue
  | .poll => instDecidableTrue

instance instDecidableSendingAlong (site : Site) (source : Source) (P : Sending → PeerAct → Prop)
    [∀ s act, Decidable (P s act)] : (s : Sending) → (acts : List PeerAct) → Decidable (Sending.Along site source P s acts)
  | _, [] => instDecidableTrue
  | s, act :: acts =>
      have := instDecidableSendingAlong site source P (s.step site source act) acts
      inferInstanceAs (Decidable (P s act ∧ Sending.Along site source P (s.step site source act) acts))

/-- A connection without a request yet. -/
def idleLink : Link := ⟨true, 0, freshState, freshGlobals, .none⟩

/-- A request from a peer with a window of 120 bytes. -/
def slowRequest : Payload := { data := ascii "GET / HTTP/1.1\r\n", mss := 120 }

def indexBytes : List UInt8 := List.replicate 200 65

/-- The first segment is lost once. -/
def slowRun : List PeerAct := [.rexmit [], .ack 120 1 [], .ack 120 0 []]

theorem answer_whole_index : ((Sending.start sampleSite idleLink slowRequest 1446 (answerSource slowRequest freshState indexBytes)
    []).run sampleSite (answerSource slowRequest freshState indexBytes) slowRun).Whole indexBytes := by
  set_option maxRecDepth 1000 in
  exact answer_whole sampleSite idleLink slowRequest 1446 120 120 indexBytes [] slowRun (by decide) (by decide)
    (by decide) (by decide) (by decide) (by decide) (by decide) rfl (by decide) (by decide)

/-- The first 120 bytes are acknowledged with an open window, and the connection is closed. -/
theorem answer_cut_by_window :
    ¬ ∀ (site : Site) (l : Link) (p : Payload) (initialmss wnd n : Nat) (bytes frame : List UInt8) (acts : List PeerAct),
      l.Enabled (.data p) → p.mss = mssOf initialmss wnd → (l.step site (.data p)).reply = .send n →
      bytes.length = (l.step site (.data p)).hs.upload → bytes.length < wordSize → 0 < bytes.length →
      Sending.Along site (answerSource p l.hs bytes) Sending.Enabled
        (Sending.start site l p initialmss (answerSource p l.hs bytes) frame) acts →
      ((Sending.start site l p initialmss (answerSource p l.hs bytes) frame).run site (answerSource p l.hs bytes)
        acts).Whole bytes := by
  intro h
  set_option maxRecDepth 1000 in
  have hwhole := h sampleSite idleLink slowRequest 1446 120 120 indexBytes [] [.ack 1446 0 []] (by decide) (by decide)
    (by decide) (by decide) (by decide) (by decide) (by decide)
  exact absurd (hwhole.closed (by decide)) (by decide)

end Uboot.Httpd
