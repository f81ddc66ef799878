import Uboot.Httpd.Segmentation

/-!
# Calls with several flags

A segment that opens the connection, acknowledges data or closes the connection can bring data too. uIP acknowledges
the data and makes one call for both; `httpd_appcall` takes the first branch that fits and returns.
-/

namespace Uboot.Httpd

open Uboot.Lib

/-- What a call reads besides its flags. -/
structure Payload where
  data : List UInt8 := []
  stale : List UInt8 := []
  mss : Nat := 1446
  mallocOk : Bool := true
  art : Option (List UInt8) := none

/-- The calls of `uip_process`: for segments, with the data they bring, and for the timer. -/
inductive Call where
  | connected (p : Payload)
  | acked (p : Payload)
  | data (p : Payload)
  | closed (p : Payload)
  | rexmit (mss : Nat)
  | poll
  | aborted
  | timedout

/-- The data is all there is. -/
def Payload.event (p : Payload) (len : Nat) : Event where
  newdata := p.data ≠ []
  data := p.data
  stale := p.stale
  mss := p.mss
  len := len
  mallocOk := p.mallocOk
  art := p.art

/-- The call, when `len` bytes are outstanding. -/
def Call.event (len : Nat) : Call → Event
  | .connected p => { p.event 0 with connected := true }
  | .acked p => { p.event len with acked := true }
  | .data p => p.event len
  | .closed p => { p.event len with closed := true }
  | .rexmit mss => { rexmit := true, mss := mss, len := len }
  | .poll => { poll := true, len := len }
  | .aborted => { aborted := true, len := len }
  | .timedout => { timedout := true, len := len }

/-- `uip_slen`, cut to the mss. -/
def Reply.sent (mss : Nat) : Reply → Nat
  | .send n => min n mss
  | _ => 0

/-- `uip_conn->len` after the call. -/
def Call.outstanding (len : Nat) (reply : Reply) : Call → Nat
  | .connected p => reply.sent p.mss
  | .acked p => reply.sent p.mss
  | .data p => if reply.sent p.mss = 0 ∨ len = 0 then reply.sent p.mss else len
  | .rexmit _ => len
  | _ => 0

/-- A connection to port 80: whether it is established, `uip_conn->len`, and the reply to the last call. -/
structure Link where
  established : Bool
  len : Nat
  hs : HttpdState
  g : Globals
  reply : Reply

def Link.step (site : Site) (l : Link) (call : Call) : Link :=
  let r := appcall site (call.event l.len) l.hs l.g
  ⟨true, call.outstanding l.len r.reply, r.hs, r.g, r.reply⟩

/-- When `uip_process` makes the call. -/
def Link.Enabled (l : Link) : Call → Prop
  | .connected p => l.established = false ∧ p.data.length < 65536
  | .acked p => l.established = true ∧ 0 < l.len ∧ p.data.length < 65536
  | .data p => l.established = true ∧ p.data ≠ [] ∧ p.data.length < 65536
  | .closed p => l.established = true ∧ l.len = 0 ∧ p.data.length < 65536
  | .rexmit _ => l.established = true ∧ 0 < l.len
  | .poll => l.established = true ∧ l.len = 0
  | .aborted => True
  | .timedout => 0 < l.len ∨ l.established = false

/-- The calls for the same segment, one after the other. -/
def Call.parts : Call → List Call
  | .connected p => if p.data = [] then [.connected p] else [.connected { p with data := [] }, .data p]
  | .acked p => if p.data = [] then [.acked p] else [.acked { p with data := [] }, .data p]
  | .closed p => if p.data = [] then [.closed p] else [.data p, .closed { p with data := [] }]
  | call => [call]

/-- Calls until the connection is closed or aborted. -/
def Link.deliver (site : Site) (l : Link) (calls : List Call) : Link :=
  calls.foldl (fun l call => if l.reply.ends then l else l.step site call) l

/-- How the call ended the connection, if it did. -/
def Reply.ending (reply : Reply) : Option Reply := if reply.ends then some reply else Option.none

/-- The same counters, globals and memory, and the connection ended in the same way or not at all. -/
structure Link.Same (l l' : Link) : Prop where
  hs_eq : l.hs = l'.hs
  g_eq : l.g = l'.g
  ending_eq : l.reply.ending = l'.reply.ending

/-- The call does what its parts do. -/
def Link.SameEffect (site : Site) (l : Link) (call : Call) : Prop :=
  (l.step site call).Same (l.deliver site call.parts)

/-- The data of the call comes alone, or with an acknowledgement while no upload waits for it: no upload is received,
or the acknowledgement closes the connection. -/
def Link.Delivers (l : Link) : Call → Prop
  | .connected p => p.data = []
  | .closed p => p.data = []
  | .acked p => p.data = [] ∨ l.hs.state ≠ .uploadRequest ∨ (l.hs.isMacrwResp = true ∧ l.hs.upload ≤ p.mss)
  | _ => True

/-! ## Runs -/

/-- A call for the connection, or what the other connection leaves in the globals. -/
inductive LinkAct where
  | call (call : Call)
  | other (g : Globals)

/-- `P` holds of every call of the run. -/
def Link.Along (site : Site) (P : Link → Call → Prop) : Link → List LinkAct → Prop
  | _, [] => True
  | l, .call call :: acts => P l call ∧ Link.Along site P (l.step site call) acts
  | l, .other g :: acts => Link.Along site P { l with g := g } acts

/-- The connection before it is established; the state is left over from an earlier one. -/
def Link.fresh (hs : HttpdState) (g : Globals) : Link := ⟨false, 0, hs, g, .none⟩

/-- The run is one of uIP: every call is made when it can be, and none after the end of the connection. -/
def Link.Allowed (site : Site) : Link → List LinkAct → Prop :=
  Link.Along site fun l call => l.reply.ends = false ∧ l.Enabled call

/-! ## Single calls -/

section
variable {site : Site} {ev : Event} {hs : HttpdState} {g : Globals} {p : Payload} {len : Nat} {l : Link}

theorem appcall_connected : appcall site (Call.event len (.connected p)) hs g = resetAnd .none hs g := by
  simp [appcall, Call.event, Payload.event]

theorem appcall_acked (h : p.data = [] ∨ hs.state ≠ .none) :
    appcall site (Call.event len (.acked p)) hs g = handleAcked (Call.event len (.acked p)) hs g := by
  rw [appcall]
  rcases h with h | h <;> simp [Call.event, Payload.event, h]

theorem appcall_data_none (h : p.data ≠ []) (hst : hs.state = .none) :
    appcall site (Call.event len (.data p)) hs g = newRequest site (p.event len) hs g := by
  simp [appcall, Call.event, Payload.event, h, hst]

theorem appcall_data_file (hst : hs.state = .fileRequest) : appcall site (Call.event len (.data p)) hs g = ⟨hs, g, .none⟩ := by
  simp [appcall, Call.event, Payload.event, hst]

theorem appcall_data_upload (h : p.data ≠ []) (hst : hs.state = .uploadRequest) :
    appcall site (Call.event len (.data p)) hs g = continueUpload site (p.event len) hs g := by
  simp [appcall, Call.event, Payload.event, h, hst]

theorem findAndStore_state : (findAndStoreFirstChunk ev hs g).1.state = hs.state := by
  rw [findAndStoreFirstChunk]
  repeat' split
  all_goals rfl

theorem beginUpload_busy (hst : hs.state = .uploadRequest) :
    (beginUpload ev hs g).reply.ends = true ∨ (beginUpload ev hs g).hs.state ≠ .none := by
  rw [beginUpload]
  split
  next => exact .inl rfl
  dsimp only
  split
  next => exact .inl rfl
  split
  next => exact .inl rfl
  split
  next => exact .inl rfl
  split
  next => exact .inl rfl
  split
  next => exact .inr (by simp [findAndStore_state, hst])
  next => exact .inl rfl

theorem fileRequest_busy (hst : hs.state = .fileRequest) :
    (fileRequest site ev hs g).reply.ends = true ∨ (fileRequest site ev hs g).hs.state ≠ .none := by
  rw [fileRequest]
  dsimp only
  split
  next => exact .inl rfl
  next => exact .inr (by simp [sendPage, hst])

theorem postCommand_busy {handle : List UInt8 → Globals → Nat × Globals} {n : Nat} (hst : hs.state = .uploadRequest) :
    (postCommand ev handle n hs g).reply.ends = true ∨ (postCommand ev handle n hs g).hs.state ≠ .none := by
  rw [postCommand]
  split
  next => exact .inl rfl
  next => exact .inr (by simp [macrwResponse, sendPage, hst])

/-- A request is answered, received or refused; it never leaves the connection idle. -/
theorem newRequest_busy : (newRequest site ev hs g).reply.ends = true ∨ (newRequest site ev hs g).hs.state ≠ .none := by
  rw [newRequest]
  split
  next =>
    dsimp only
    split
    next => exact .inr (by simp [getMacrw, macrwResponse, sendPage])
    next => exact fileRequest_busy rfl
  next =>
    split
    next =>
      dsimp only
      repeat' split
      all_goals first
        | exact postCommand_busy rfl
        | exact beginUpload_busy rfl
        | exact .inl rfl
    next => exact .inl rfl

/-- Data of an upload is never without effect. -/
theorem continueUpload_effect (hst : hs.state = .uploadRequest) (hpos : 0 < ev.data.length) (hlt : ev.data.length < 65536)
    (hends : (continueUpload site ev hs g).reply.ends = false) (hhs : (continueUpload site ev hs g).hs = hs) :
    (continueUpload site ev hs g).g ≠ g := by
  intro hg
  rw [continueUpload] at hends hhs hg
  cases hfound : g.dataStartFound with
  | true =>
      rw [if_pos hfound] at hhs
      generalize (if g.uploadFailed then g else _) = stored at hhs
      dsimp only at hhs
      split at hhs
      next =>
        have hstate := congrArg HttpdState.state hhs
        rw [hst] at hstate
        cases hstate
      next =>
        have hupload : (hs.upload + ev.data.length) % wordSize = hs.upload := congrArg HttpdState.upload hhs
        unfold wordSize at hupload
        omega
  | false =>
      rw [if_neg (by simp [hfound])] at hends hg
      dsimp only at hends hg
      split at hends
      next hf =>
        rw [if_pos hf] at hg
        have hd := congrArg Globals.dataStartFound hg
        rw [hfound] at hd
        cases hd
      next => cases hends

/-! ## The invariant -/

theorem continueUpload_busy (hst : hs.state = .uploadRequest) :
    (continueUpload site ev hs g).reply.ends = true ∨ (continueUpload site ev hs g).hs.state ≠ .none := by
  rw [continueUpload]
  split
  next =>
    generalize (if g.uploadFailed then g else _) = stored
    dsimp only
    split
    next => exact .inr (by simp [sendPage])
    next => exact .inr (by simp [hst])
  next =>
    dsimp only
    split
    next => exact .inr (by simp [findAndStore_state, hst])
    next => exact .inl rfl

/-- The answer is over, the next part is sent, or nothing was being answered. -/
theorem handleAcked_cases (ev : Event) (hs : HttpdState) (g : Globals) :
    (hs.isMacrwResp = false ∧ hs.state ≠ .fileRequest ∧ handleAcked ev hs g = ⟨hs, g, .none⟩) ∨
    ((hs.isMacrwResp = true ∨ hs.state = .fileRequest) ∧ hs.upload ≤ ev.mss ∧ (handleAcked ev hs g).reply = .close) ∨
    (ev.mss < hs.upload ∧
      handleAcked ev hs g = sendPage ev { hs with upload := (hs.upload + wordSize - ev.len) % wordSize } g) := by
  cases hm : hs.isMacrwResp with
  | true =>
      by_cases hu : hs.upload ≤ ev.mss
      · refine .inr (.inl ⟨.inl rfl, hu, ?_⟩)
        simp only [handleAcked, hm, hu, if_true]
        rfl
      · refine .inr (.inr ⟨by omega, ?_⟩)
        simp only [handleAcked, hm, hu, if_true, if_false]
  | false =>
      by_cases hst : hs.state = .fileRequest
      · by_cases hu : hs.upload ≤ ev.mss
        · refine .inr (.inl ⟨.inr hst, hu, ?_⟩)
          simp only [handleAcked, hm, hst, hu, if_true, Bool.false_eq_true, if_false]
          rfl
        · refine .inr (.inr ⟨by omega, ?_⟩)
          simp only [handleAcked, hm, hst, hu, if_true, Bool.false_eq_true, if_false]
      · refine .inl ⟨rfl, hst, ?_⟩
        simp only [handleAcked, hm, hst, Bool.false_eq_true, if_false]

theorem sendPage_state (n : Nat) : (sendPage ev { hs with upload := n } g).hs.state = hs.state := rfl

/-- The acknowledgement closes the connection, or leaves it in its state. -/
theorem handleAcked_state (ev : Event) (hs : HttpdState) (g : Globals) :
    ((hs.isMacrwResp = true ∨ hs.state = .fileRequest) ∧ hs.upload ≤ ev.mss ∧ (handleAcked ev hs g).reply.ends = true) ∨
    ((hs.isMacrwResp = true → ev.mss < hs.upload) ∧ (handleAcked ev hs g).hs.state = hs.state ∧
      (handleAcked ev hs g).reply.ends = false) := by
  rcases handleAcked_cases ev hs g with ⟨hm, -, he⟩ | ⟨hresp, hmss, he⟩ | ⟨hmss, he⟩
  · right
    rw [he]
    exact ⟨fun h => absurd (h.symm.trans hm) (by simp), rfl, rfl⟩
  · left
    rw [he]
    exact ⟨hresp, hmss, rfl⟩
  · right
    rw [he, sendPage_state]
    exact ⟨fun _ => hmss, rfl, rfl⟩

theorem handleAcked_busy (hst : hs.state ≠ .none) :
    (handleAcked ev hs g).reply.ends = true ∨ (handleAcked ev hs g).hs.state ≠ .none := by
  rcases handleAcked_state ev hs g with ⟨-, -, hends⟩ | ⟨-, hstate, -⟩
  · exact .inl hends
  · right
    rw [hstate]
    exact hst

theorem Reply.sent_of_ends {reply : Reply} (h : reply.ends = true) (mss : Nat) : reply.sent mss = 0 := by
  cases reply with
  | send n => cases h
  | _ => rfl

/-- Data is outstanding only while a request is answered. -/
def Link.Busy (l : Link) : Prop := 0 < l.len → l.hs.state ≠ .none

/-- After data the connection is over, busy, or has nothing outstanding. -/
theorem appcall_data_busy (hne : p.data ≠ []) :
    (appcall site (Call.event len (.data p)) hs g).reply.ends = true ∨
      (appcall site (Call.event len (.data p)) hs g).hs.state ≠ .none := by
  cases hst : hs.state with
  | none =>
      rw [appcall_data_none hne hst]
      exact newRequest_busy
  | fileRequest =>
      rw [appcall_data_file hst]
      exact .inr (by simp [hst])
  | uploadRequest =>
      rw [appcall_data_upload hne hst]
      exact continueUpload_busy hst

theorem Call.outstanding_of_ends {call : Call} {reply : Reply} (h : reply.ends = true) (hcall : ∀ mss, call ≠ .rexmit mss) :
    call.outstanding len reply = 0 := by
  cases call with
  | rexmit mss => exact absurd rfl (hcall mss)
  | _ => simp [Call.outstanding, Reply.sent_of_ends h]

theorem appcall_rexmit_hs (mss : Nat) : (appcall site (Call.event len (.rexmit mss)) hs g).hs = hs := by
  simp only [appcall, Call.event]
  cases hs.state with
  | fileRequest => simp [sendPage]
  | _ => simp

theorem Link.Busy.step {call : Call} (h : l.Busy) (hen : l.Enabled call) : (l.step site call).Busy := by
  intro hlen
  change 0 < call.outstanding l.len (appcall site (call.event l.len) l.hs l.g).reply at hlen
  change (appcall site (call.event l.len) l.hs l.g).hs.state ≠ .none
  cases call with
  | connected p =>
      rw [appcall_connected] at hlen
      exact absurd hlen (Nat.lt_irrefl 0)
  | acked p =>
      have hst := h hen.2.1
      rw [appcall_acked (.inr hst)] at hlen ⊢
      rcases handleAcked_busy hst with hends | hbusy
      · rw [Call.outstanding_of_ends hends (by simp)] at hlen
        exact absurd hlen (Nat.lt_irrefl 0)
      · exact hbusy
  | data p =>
      rcases appcall_data_busy hen.2.1 with hends | hbusy
      · rw [Call.outstanding_of_ends hends (by simp)] at hlen
        exact absurd hlen (Nat.lt_irrefl 0)
      · exact hbusy
  | rexmit mss =>
      rw [appcall_rexmit_hs]
      exact h hen.2
  | _ => exact absurd hlen (Nat.lt_irrefl 0)

/-! ## One call -/

theorem Link.Same.refl (l : Link) : l.Same l := ⟨rfl, rfl, rfl⟩

theorem Link.sameEffect_single {call : Call} (hopen : l.reply.ends = false) (h : call.parts = [call]) :
    l.SameEffect site call := by
  have hdeliver : l.deliver site [call] = l.step site call := by simp [Link.deliver, hopen]
  rw [Link.SameEffect, h, hdeliver]
  exact Link.Same.refl _

theorem Link.deliver_pair (hopen : l.reply.ends = false) (a b : Call) : l.deliver site [a, b] =
    if (l.step site a).reply.ends then l.step site a else (l.step site a).step site b := by
  simp [Link.deliver, hopen]

theorem ending_eq_none {reply : Reply} : reply.ending = Option.none ↔ reply.ends = false := by
  cases reply <;> simp [Reply.ending, Reply.ends]

/-- The first request is lost. -/
theorem Link.connected_differs (hopen : l.reply.ends = false) (hne : p.data ≠ []) : ¬ l.SameEffect site (.connected p) := by
  intro h
  have hstep : ∀ q : Payload, l.step site (.connected q) =
      ⟨true, 0, (resetAnd .none l.hs l.g).hs, (resetAnd .none l.hs l.g).g, .none⟩ := by
    intro q
    simp only [Link.step, appcall_connected]
    rfl
  rw [Link.SameEffect, Call.parts, if_neg hne, Link.deliver_pair hopen, hstep, hstep, if_neg (by simp [Reply.ends])] at h
  have hidle : (resetAnd .none l.hs l.g).hs.state = .none := rfl
  have hhs := h.hs_eq
  have hends := ending_eq_none.mp h.ending_eq.symm
  simp only [Link.step, appcall_data_none hne hidle] at hhs hends
  rcases newRequest_busy with hbusy | hbusy
  · rw [hends] at hbusy
    cases hbusy
  · exact hbusy (hhs ▸ hidle)

theorem handleAcked_payload (len : Nat) (p : Payload) (hs : HttpdState) (g : Globals) :
    handleAcked (Call.event len (.acked { p with data := [] })) hs g = handleAcked (Call.event len (.acked p)) hs g := by
  simp only [handleAcked, sendPage, Call.event, Payload.event]
  rfl

/-- The two calls for an acknowledgement with data, while something is answered. -/
theorem Link.acked_parts (hopen : l.reply.ends = false) (hne : p.data ≠ []) (hst : l.hs.state ≠ .none) :
    l.SameEffect site (.acked p) ↔ (l.step site (.acked p)).Same
      (if (l.step site (.acked p)).reply.ends then l.step site (.acked p)
        else (l.step site (.acked p)).step site (.data p)) := by
  have hstep : l.step site (.acked { p with data := [] }) = l.step site (.acked p) := by
    simp only [Link.step, appcall_acked (.inr hst), handleAcked_payload]
    rfl
  rw [Link.SameEffect, Call.parts, if_neg hne, Link.deliver_pair hopen, hstep]

theorem Link.acked_step (hst : l.hs.state ≠ .none) : l.step site (.acked p) =
    let r := handleAcked (Call.event l.len (.acked p)) l.hs l.g
    ⟨true, r.reply.sent p.mss, r.hs, r.g, r.reply⟩ := by
  simp only [Link.step, appcall_acked (.inr hst)]
  rfl

theorem Link.data_file (hopen : l.reply.ends = false) (hst : l.hs.state = .fileRequest) :
    l.Same (l.step site (.data p)) := by
  refine ⟨?_, ?_, ?_⟩
  · simp only [Link.step, appcall_data_file hst]
  · simp only [Link.step, appcall_data_file hst]
  · simp only [Link.step, appcall_data_file hst, Reply.ending, hopen]
    rfl

theorem Link.data_upload (hopen : l.reply.ends = false) (hst : l.hs.state = .uploadRequest) (hne : p.data ≠ [])
    (hlt : p.data.length < 65536) : ¬ l.Same (l.step site (.data p)) := by
  intro h
  have hends := ending_eq_none.mp (h.ending_eq ▸ ending_eq_none.mpr hopen)
  have hhs := h.hs_eq
  have hg := h.g_eq
  simp only [Link.step, appcall_data_upload hne hst] at hends hhs hg
  exact continueUpload_effect hst (List.length_pos_iff.mpr hne) hlt hends hhs.symm hg.symm

/-- The data is used twice, or not at all. -/
theorem Link.acked_iff (hopen : l.reply.ends = false) (hst : l.hs.state ≠ .none) (hne : p.data ≠ [])
    (hlt : p.data.length < 65536) : l.SameEffect site (.acked p) ↔
      l.hs.state ≠ .uploadRequest ∨ (l.hs.isMacrwResp = true ∧ l.hs.upload ≤ p.mss) := by
  rw [Link.acked_parts hopen hne hst]
  rcases handleAcked_state (Call.event l.len (.acked p)) l.hs l.g with ⟨hresp, hmss, hends⟩ | ⟨hmss, hstate, hends⟩
  · rw [if_pos (by rw [Link.acked_step hst]; exact hends)]
    refine ⟨fun _ => ?_, fun _ => Link.Same.refl _⟩
    rcases hresp with hm | hfile
    · exact .inr ⟨hm, hmss⟩
    · exact .inl (by simp [hfile])
  · have hends' : (l.step site (.acked p)).reply.ends = false := by
      rw [Link.acked_step hst]
      exact hends
    have hstate' : (l.step site (.acked p)).hs.state = l.hs.state := by
      rw [Link.acked_step hst]
      exact hstate
    rw [if_neg (by simp [hends'])]
    constructor
    · intro hsame
      left
      intro hup
      exact Link.data_upload hends' (hstate'.trans hup) hne hlt hsame
    · rintro (hnot | ⟨hm, hle⟩)
      · have hfile : l.hs.state = .fileRequest := by
          cases h : l.hs.state <;> simp_all
        exact Link.data_file hends' (hstate'.trans hfile)
      · exact absurd (hmss hm) (Nat.not_lt.mpr hle)

theorem Link.Delivers.sameEffect {call : Call} (h : l.Delivers call) (hbusy : l.Busy) (hopen : l.reply.ends = false)
    (hen : l.Enabled call) : l.SameEffect site call := by
  cases call with
  | connected p => exact Link.sameEffect_single hopen (if_pos h)
  | closed p => exact Link.sameEffect_single hopen (if_pos h)
  | acked p =>
      by_cases hne : p.data = []
      · exact Link.sameEffect_single hopen (if_pos hne)
      · exact (Link.acked_iff hopen (hbusy hen.2.1) hne hen.2.2).mpr (h.resolve_left hne)
  | _ => exact Link.sameEffect_single hopen rfl

theorem Link.SameEffect.delivers {call : Call} (h : l.SameEffect site call) (hbusy : l.Busy) (hopen : l.reply.ends = false)
    (hen : l.Enabled call) (hclosed : ∀ p, call = .closed p → p.data = []) : l.Delivers call := by
  cases call with
  | connected p => exact by_contra fun hne => Link.connected_differs hopen hne h
  | closed p => exact hclosed p rfl
  | acked p =>
      by_cases hne : p.data = []
      · exact .inl hne
      · exact .inr ((Link.acked_iff hopen (hbusy hen.2.1) hne hen.2.2).mp h)
  | _ => trivial

/-! ## Whole runs -/

/-- What follows from `P` and the invariant at every call of a run. -/
theorem Link.Along.mono {P Q : Link → Call → Prop} {acts : List LinkAct} (hbusy : l.Busy) (hallowed : l.Allowed site acts)
    (h : Link.Along site P l acts)
    (hstep : ∀ (l : Link) (call : Call), .call call ∈ acts → l.Busy → l.reply.ends = false → l.Enabled call → P l call →
      Q l call) : Link.Along site Q l acts := by
  induction acts generalizing l with
  | nil => trivial
  | cons act acts ih =>
      have hstep' : ∀ (l : Link) (call : Call), .call call ∈ acts → l.Busy → l.reply.ends = false → l.Enabled call →
          P l call → Q l call := fun l call hmem => hstep l call (List.mem_cons_of_mem _ hmem)
      cases act with
      | call call =>
          obtain ⟨⟨hopen, hen⟩, hallowed'⟩ := hallowed
          exact ⟨hstep l call (List.mem_cons_self ..) hbusy hopen hen h.1,
            ih (hbusy.step hen) hallowed' h.2 hstep'⟩
      | other g => exact ih (l := { l with g := g }) hbusy hallowed h hstep'

end

/-- Every call of a run does what its flags one after the other would do when all data comes alone, or with an
acknowledgement that no upload overlooks. Without data in a `FIN` segment this is also needed. -/
theorem combined_calls_iff (site : Site) (hs : HttpdState) (g : Globals) (acts : List LinkAct)
    (hallowed : (Link.fresh hs g).Allowed site acts) :
    (Link.Along site Link.Delivers (Link.fresh hs g) acts →
      Link.Along site (Link.SameEffect site) (Link.fresh hs g) acts) ∧
    ((∀ p : Payload, .call (.closed p) ∈ acts → p.data = []) →
      Link.Along site (Link.SameEffect site) (Link.fresh hs g) acts →
      Link.Along site Link.Delivers (Link.fresh hs g) acts) := by
  have hbusy : (Link.fresh hs g).Busy := fun h => absurd h (Nat.lt_irrefl 0)
  constructor
  · intro h
    exact Link.Along.mono hbusy hallowed h fun l call _ hb hopen hen hd => Link.Delivers.sameEffect hd hb hopen hen
  · intro hclosed h
    refine Link.Along.mono hbusy hallowed h fun l call hmem hb hopen hen hd => ?_
    exact Link.SameEffect.delivers hd hb hopen hen fun p hp => hclosed p (hp ▸ hmem)

instance (l : Link) : (call : Call) → Decidable (l.Enabled call)
  | .connected p => inferInstanceAs (Decidable (l.established = false ∧ p.data.length < 65536))
  | .acked p => inferInstanceAs (Decidable (l.established = true ∧ 0 < l.len ∧ p.data.length < 65536))
  | .data p => inferInstanceAs (Decidable (l.established = true ∧ p.data ≠ [] ∧ p.data.length < 65536))
  | .closed p => inferInstanceAs (Decidable (l.established = true ∧ l.len = 0 ∧ p.data.length < 65536))
  | .rexmit _ => inferInstanceAs (Decidable (l.established = true ∧ 0 < l.len))
  | .poll => inferInstanceAs (Decidable (l.established = true ∧ l.len = 0))
  | .aborted => instDecidableTrue
  | .timedout => inferInstanceAs (Decidable (0 < l.len ∨ l.established = false))

instance (l : Link) : (call : Call) → Decidable (l.Delivers call)
  | .connected p => inferInstanceAs (Decidable (p.data = []))
  | .closed p => inferInstanceAs (Decidable (p.data = []))
  | .acked p => inferInstanceAs (Decidable (p.data = [] ∨ l.hs.state ≠ .uploadRequest ∨
      (l.hs.isMacrwResp = true ∧ l.hs.upload ≤ p.mss)))
  | .data _ => instDecidableTrue
  | .rexmit _ => instDecidableTrue
  | .poll => instDecidableTrue
  | .aborted => instDecidableTrue
  | .timedout => instDecidableTrue

instance instDecidableAlong (site : Site) (P : Link → Call → Prop) [∀ l call, Decidable (P l call)] :
    (l : Link) → (acts : List LinkAct) → Decidable (Link.Along site P l acts)
  | _, [] => instDecidableTrue
  | l, .call call :: acts =>
      have := instDecidableAlong site P (l.step site call) acts
      inferInstanceAs (Decidable (P l call ∧ Link.Along site P (l.step site call) acts))
  | l, .other g :: acts => instDecidableAlong site P { l with g := g } acts

instance (site : Site) (l : Link) (acts : List LinkAct) : Decidable (l.Allowed site acts) :=
  inferInstanceAs (Decidable (Link.Along site _ l acts))

/-- A page in two segments; more of the request comes with the first acknowledgement. -/
def pageRun : List LinkAct :=
  [.call (.connected {}), .call (.data { data := ascii "GET / HTTP/1.1\r\n", mss := 120 }),
    .call (.acked { data := ascii "Accept: */*\r\n", mss := 120 }), .call (.acked { mss := 120 })]

theorem combined_calls_page : (Link.fresh freshState freshGlobals).Allowed sampleSite pageRun ∧
    Link.Along sampleSite (Link.SameEffect sampleSite) (Link.fresh freshState freshGlobals) pageRun :=
  have hallowed : (Link.fresh freshState freshGlobals).Allowed sampleSite pageRun := by decide
  ⟨hallowed, (combined_calls_iff sampleSite freshState freshGlobals pageRun hallowed).1 (by decide)⟩

/-- The acknowledgement of the handshake is lost, and the first segment of an upload opens the connection. -/
def openingData : Payload := { data := ascii "POST / HTTP/1.1\r\nContent-Length: 20000\r\n" }

/-- The first segment is acknowledged and dropped. -/
theorem opening_data_dropped :
    ¬ ∀ (site : Site) (hs : HttpdState) (g : Globals) (acts : List LinkAct), (Link.fresh hs g).Allowed site acts →
      Link.Along site (Link.SameEffect site) (Link.fresh hs g) acts := by
  intro h
  have hrun := h sampleSite freshState freshGlobals [.call (.connected openingData)] (by decide)
  exact Link.connected_differs rfl (by decide) hrun.1

end Uboot.Httpd
