import Uboot.Httpd.Segmentation

/-!
# Events that are not part of an upload

All they do to the globals is what `httpd_state_reset` does, and what the last acknowledgement of a page does, unless
a MAC command reads the ART partition to where uploads are stored.
-/

namespace Uboot.Httpd

open Uboot.Lib

/-- The line with the length, the line with the boundary, and memory for the boundary. -/
def Event.opensUpload (ev : Event) : Bool :=
  match strstr ev.text contentLength, strstr ev.text boundaryEq with
  | some start, some start' =>
      (strstr (ev.text.drop (start + contentLength.length + 1)) eol).isSome &&
        10240 ≤ atoi (ev.text.drop (start + contentLength.length + 1)) &&
        (strstr (ev.text.drop (start' + boundaryEq.length)) eol).isSome && ev.mallocOk
  | _, _ => false

/-- The first segment of a request begins an upload. -/
def Event.beginsUpload (ev : Event) : Bool :=
  !isGet ev.buf && isPost ev.buf && ev.opensUpload &&
    if (ascii "POST /macrw").isPrefixOf ev.buf || (ascii "POST /setenv").isPrefixOf ev.buf then
      (strstr ev.buf eol2).isNone
    else !(ascii "POST /reset").isPrefixOf ev.buf

/-- The first segment is a MAC command that reads the ART partition. -/
def Event.readsArt (ev : Event) : Bool :=
  if isGet ev.buf then
    (ascii "/macrw").isPrefixOf (ev.buf.drop 4) && Macrw.readsArt (Macrw.parseUrlArgs ev.query)
  else
    isPost ev.buf && (ascii "POST /macrw").isPrefixOf ev.buf &&
      match strstr ev.buf eol2 with
      | some n => Macrw.readsArt (Macrw.parseUrlArgs (ev.body n))
      | none => false

/-- The event brings data, and is not about something else. -/
def Event.brings (ev : Event) : Bool :=
  !(ev.closed || ev.aborted || ev.timedout || ev.poll || ev.connected) && ev.newdata

/-- The event brings data of an upload. -/
def Event.carriesUpload (ev : Event) (hs : HttpdState) : Bool :=
  ev.brings &&
    match hs.state with
    | .none => ev.beginsUpload
    | .uploadRequest => !ev.acked && !ev.rexmit
    | .fileRequest => false

/-- The event loads the ART partition. -/
def Event.loadsArt (ev : Event) (hs : HttpdState) : Bool := ev.brings && hs.state = .none && ev.readsArt

/-- What `httpd_state_reset` does to the globals. -/
def Globals.forget (g : Globals) : Globals := { g with dataStartFound := false, boundaryValue := none }

/-- What the last acknowledgement of a page does to them. -/
def Globals.pageAcked (g : Globals) : Globals :=
  if g.postDone then { g with
    readyForUpgrade := g.readyForUpgrade || !g.uploadFailed
    postDone := false
    uploadFailed := false }
  else g

section
variable {site : Site} {ev : Event} {hs : HttpdState} {g : Globals}

/-- A request that does not begin an upload is aborted. -/
theorem beginUpload_quiet (h : ev.opensUpload = false) : (beginUpload ev hs g).g = g.forget := by
  rw [beginUpload]
  rw [Event.opensUpload] at h
  split
  next => rfl
  next start hstart =>
  rw [hstart] at h
  dsimp only
  split
  next => rfl
  next n hn =>
  split
  next => rfl
  next htotal =>
  split
  next => rfl
  next start' hstart' =>
  simp only [hstart', hn, Option.isSome_some, Bool.true_and] at h
  split
  next => rfl
  next n' hn' =>
  simp only [hn', Option.isSome_some, Bool.and_true] at h
  split
  next hok =>
    rw [hok, Bool.and_true] at h
    have hlt := of_decide_eq_false h
    exact absurd (Nat.lt_of_not_le hlt) htotal
  next => rfl

/-- What a request that begins no upload does: it may load the ART partition, or be aborted. -/
def Event.Aside (ev : Event) (g g' : Globals) : Prop :=
  ∃ mem, (ev.readsArt = false → mem = g.mem) ∧ (g' = { g with mem := mem } ∨ g' = { g with mem := mem }.forget)

theorem Event.Aside.refl (ev : Event) (g : Globals) : ev.Aside g g := ⟨g.mem, fun _ => rfl, .inl rfl⟩

theorem Event.Aside.forget (ev : Event) (g : Globals) : ev.Aside g g.forget := ⟨g.mem, fun _ => rfl, .inr rfl⟩

theorem Event.Aside.macrw {query : List UInt8} (h : ev.readsArt = Macrw.readsArt (Macrw.parseUrlArgs query))
    (site : Site) (g : Globals) : ev.Aside g (macrwHandle site ev query g).2 := by
  refine ⟨Macrw.loadArt (Macrw.parseUrlArgs query) ev.art g.mem, fun hno => ?_, .inl rfl⟩
  exact Macrw.loadArt_of_not_reads (h ▸ hno) _ _

theorem postCommand_aside {handle : List UInt8 → Globals → Nat × Globals} {n : Nat}
    (h : ev.Aside g (handle (ev.body n) g).2) : ev.Aside g (postCommand ev handle n hs g).g := by
  rw [postCommand]
  split
  next => exact .refl ev g
  next => exact h

theorem fileRequest_aside : ev.Aside g (fileRequest site ev hs g).g := by
  rw [fileRequest]
  dsimp only
  split
  next => exact .forget ev g
  next => exact .refl ev g

theorem newRequest_aside (h : ev.beginsUpload = false) : ev.Aside g (newRequest site ev hs g).g := by
  have hopen : ∀ hs, ev.opensUpload = false → ev.Aside g (beginUpload ev hs g).g := by
    intro hs hno
    rw [beginUpload_quiet hno]
    exact .forget ev g
  rw [newRequest]
  rw [Event.beginsUpload] at h
  cases hget : isGet ev.buf with
  | true =>
      rw [if_pos rfl]
      dsimp only
      split
      next hm => exact .macrw (by rw [Event.readsArt, hget, if_pos rfl, hm, Bool.true_and]) site g
      next => exact fileRequest_aside
  | false =>
  rw [if_neg Bool.false_ne_true]
  cases hpost : isPost ev.buf with
  | false => exact .forget ev g
  | true =>
  rw [if_pos rfl]
  rw [hget, hpost, Bool.not_false, Bool.and_self, Bool.true_and] at h
  dsimp only
  split
  next hm =>
    rw [hm, Bool.true_or, if_pos rfl] at h
    split
    next n hn =>
      refine postCommand_aside (.macrw ?_ site g)
      rw [Event.readsArt, hget, hpost, hm, hn, if_neg Bool.false_ne_true, Bool.and_self, Bool.true_and]
    next hn =>
      rw [hn, Option.isNone_none, Bool.and_true] at h
      exact hopen _ h
  next hm =>
  rw [Bool.eq_false_of_not_eq_true hm, Bool.false_or] at h
  split
  next hse =>
    rw [hse, if_pos rfl] at h
    split
    next n hn => exact postCommand_aside (.refl ev g)
    next hn =>
      rw [hn, Option.isNone_none, Bool.and_true] at h
      exact hopen _ h
  next hse =>
  rw [if_neg hse] at h
  split
  next => exact .refl ev g
  next hre =>
    rw [Bool.eq_false_of_not_eq_true hre, Bool.not_false, Bool.and_true] at h
    exact hopen _ h

/-- A first segment that does not begin an upload and does not load the ART partition. -/
theorem newRequest_quiet (h : ev.beginsUpload = false) (hart : ev.readsArt = false) :
    (newRequest site ev hs g).g = g ∨ (newRequest site ev hs g).g = g.forget := by
  obtain ⟨mem, hmem, heq⟩ := @newRequest_aside site ev hs g h
  rw [hmem hart] at heq
  exact heq

theorem handleAcked_quiet : (handleAcked ev hs g).g = g ∨ (handleAcked ev hs g).g = g.forget ∨
    (handleAcked ev hs g).g = g.pageAcked.forget := by
  rw [handleAcked]
  dsimp only
  split
  next =>
    split
    next => exact Or.inr (Or.inl rfl)
    next => exact Or.inl rfl
  next =>
    split
    next =>
      split
      next => exact Or.inr (Or.inr rfl)
      next => exact Or.inl rfl
    next => exact Or.inl rfl

/-- What a call can do. -/
theorem appcall_cases (site : Site) (ev : Event) (hs : HttpdState) (g : Globals) :
    (∃ reply count, appcall site ev hs g = resetAnd reply { hs with count := count } g) ∨
    (∃ count, appcall site ev hs g = ⟨{ hs with count := count }, g, .none⟩) ∨
    (hs.state = .none ∧ ev.brings = true ∧ appcall site ev hs g = newRequest site ev hs g) ∨
    appcall site ev hs g = handleAcked ev hs g ∨
    (hs.state = .fileRequest ∧ appcall site ev hs g = sendPage ev hs g) ∨
    (hs.state = .uploadRequest ∧ ev.brings = true ∧ ev.acked = false ∧ ev.rexmit = false ∧
      appcall site ev hs g = continueUpload site ev hs g) := by
  obtain ⟨r, hr⟩ : ∃ r, appcall site ev hs g = r := ⟨_, rfl⟩
  rw [hr]
  rw [appcall] at hr
  split at hr
  next => exact .inl ⟨_, hs.count, hr.symm⟩
  next hclosed =>
  split at hr
  next => exact .inl ⟨_, hs.count, hr.symm⟩
  next haborted =>
  split at hr
  next =>
    dsimp only at hr
    split at hr
    next => exact .inl ⟨_, _, hr.symm⟩
    next => exact .inr (.inl ⟨_, hr.symm⟩)
  next hpoll =>
  split at hr
  next => exact .inl ⟨_, hs.count, hr.symm⟩
  next hconn =>
  have hbrings : ev.newdata = true → ev.brings = true := by
    intro hnew
    simp only [Bool.or_eq_true, not_or, Bool.not_eq_true] at hclosed haborted hpoll hconn
    simp [Event.brings, hclosed, haborted, hpoll, hconn, hnew]
  split at hr
  next hnew => exact .inr (.inr (.inl ⟨hnew.2, hbrings hnew.1, hr.symm⟩))
  next =>
  split at hr
  next => exact .inr (.inr (.inr (.inl hr.symm)))
  next hacked =>
  split at hr
  next =>
    split at hr
    next hfile => exact .inr (.inr (.inr (.inr (.inl ⟨hfile, hr.symm⟩))))
    next => exact .inr (.inl ⟨hs.count, hr.symm⟩)
  next hrexmit =>
  split at hr
  next hup =>
    rw [Bool.not_eq_true] at hacked hrexmit
    exact .inr (.inr (.inr (.inr (.inr ⟨hup.2, hbrings hup.1, hacked, hrexmit, hr.symm⟩))))
  next => exact .inr (.inl ⟨hs.count, hr.symm⟩)

/-- Data that is not about something else. -/
theorem appcall_newdata (hb : ev.brings = true) : appcall site ev hs g =
    if hs.state = .none then newRequest site ev hs g
    else if ev.acked then handleAcked ev hs g
    else if ev.rexmit then if hs.state = .fileRequest then sendPage ev hs g else ⟨hs, g, .none⟩
    else if hs.state = .uploadRequest then continueUpload site ev hs g
    else ⟨hs, g, .none⟩ := by
  simp only [Event.brings, Bool.and_eq_true, Bool.not_eq_true', Bool.or_eq_false_iff] at hb
  obtain ⟨⟨⟨⟨⟨hclosed, haborted⟩, htimedout⟩, hpoll⟩, hconn⟩, hnew⟩ := hb
  rw [appcall, hclosed, haborted, htimedout, hpoll, hconn, hnew]
  simp only [Bool.or_self, Bool.false_eq_true, if_false, true_and]

theorem appcall_brings (hb : ev.brings = true) (hst : hs.state = .none) :
    appcall site ev hs g = newRequest site ev hs g := by
  rw [appcall_newdata hb, if_pos hst]

theorem appcall_continues (hb : ev.brings = true) (hst : hs.state = .uploadRequest) (hacked : ev.acked = false)
    (hrexmit : ev.rexmit = false) : appcall site ev hs g = continueUpload site ev hs g := by
  have hbusy : hs.state ≠ .none := by
    rw [hst]
    decide
  rw [appcall_newdata hb, if_neg hbusy, hacked, hrexmit, if_pos hst]
  rfl

/-- Without a boundary the connection is aborted. -/
theorem continueUpload_lost (hfound : g.dataStartFound = false) (hb : g.boundaryValue = none) :
    continueUpload site ev hs g = resetAnd .abort hs g := by
  simp [continueUpload, hfound, findAndStoreFirstChunk, hb]

/-- An event that brings no data of an upload and does not load the ART partition. -/
theorem appcall_quiet (site : Site) (g : Globals) (h : ev.carriesUpload hs = false) (hart : ev.loadsArt hs = false) :
    (appcall site ev hs g).g = g ∨ (appcall site ev hs g).g = g.forget ∨
      (appcall site ev hs g).g = g.pageAcked.forget := by
  rcases appcall_cases site ev hs g with ⟨reply, count, hrun⟩ | ⟨count, hrun⟩ | ⟨hst, hbrings, hrun⟩ | hrun |
    ⟨hst, hrun⟩ | ⟨hst, hbrings, hacked, hrexmit, hrun⟩ <;> rw [hrun]
  · exact .inr (.inl rfl)
  · exact .inl rfl
  · simp only [Event.carriesUpload, Event.loadsArt, hbrings, hst, decide_true, Bool.true_and] at h hart
    exact (newRequest_quiet h hart).imp_right .inl
  · exact handleAcked_quiet
  · exact .inl rfl
  · simp [Event.carriesUpload, hbrings, hst, hacked, hrexmit] at h

end

end Uboot.Httpd
