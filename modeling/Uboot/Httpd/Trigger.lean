import Uboot.Httpd.Isolation
import Uboot.Httpd.Watch

/-!
# The upgrade is triggered by a whole upload

An upload that begins with the flags of the earlier ones cleared is alone on the server, since the connections follow
one another. `webfailsafe_post_done` then tells that the last upload was received in full, until the acknowledgement
of a page uses it up.
-/

namespace Uboot.Httpd

open Uboot.Lib

/-! ## One call -/

section
variable {site : Site} {ev : Event} {hs : HttpdState} {g : Globals} {u : Upload}

theorem newRequest_begins (h : ev.beginsUpload = true) :
    newRequest site ev hs g = beginUpload ev { hs with state := .uploadRequest } g ∧ ev.opensUpload = true := by
  simp only [Event.beginsUpload, Bool.and_eq_true, Bool.not_eq_true'] at h
  obtain ⟨⟨⟨hget, hpost⟩, hopens⟩, hcommand⟩ := h
  refine ⟨?_, hopens⟩
  simp only [newRequest, hget, hpost, Bool.false_eq_true, if_false, if_true]
  split
  next hm =>
    rw [hm, Bool.true_or, if_pos rfl, Option.isNone_iff_eq_none] at hcommand
    rw [hcommand]
  next hm =>
    split
    next hse =>
      rw [hse, Bool.or_true, if_pos rfl, Option.isNone_iff_eq_none] at hcommand
      rw [hcommand]
    next hse =>
      simp only [hm, hse, Bool.or_false, Bool.false_eq_true, if_false, Bool.not_eq_true'] at hcommand
      rw [hcommand]
      rfl

/-- An upload begins. -/
theorem appcall_begins (hb : ev.brings = true) (hst : hs.state = .none) (hbegins : ev.beginsUpload = true)
    (hlen : ev.data.length ≤ uipBufsize) (hdone : g.postDone = false) (hfail : g.uploadFailed = false)
    (hmacrw : hs.isMacrwResp = false) (hend : ¬ contentLength <:+ ev.data) (hfound : g.dataStartFound = false) :
    ∃ hs' g', appcall site ev hs g = ⟨hs', g', .none⟩ ∧ g'.readyForUpgrade = g.readyForUpgrade ∧
      (Awaits ((Upload.header ev).look ev) hs' g' ∨ ∃ type size, Fills ((Upload.header ev).look ev) type size hs' g') := by
  obtain ⟨hrun, hopens⟩ := @newRequest_begins site ev hs g hbegins
  obtain ⟨hlarge, hsmall, hboundary, hall⟩ := beginUpload_opens hopens hend
  obtain ⟨r, hr, hbegin⟩ := hall { hs with state := .uploadRequest } g
  have hawaits : Awaits (Upload.header ev)
      { hs with state := .uploadRequest, uploadTotal := (Upload.header ev).announced }
      { g with boundaryValue := some (Upload.header ev).boundary, dataPointer := uploadRamAddress } :=
    ⟨rfl, hmacrw, hdone, rfl, hfound, hfail, rfl, rfl, rfl, hlarge, hsmall, hboundary.trans hlen⟩
  obtain ⟨hs', g', found, hlook, hready, hcases⟩ := hawaits.look hlen
  rw [hlook] at hr
  subst hr
  rw [appcall_brings hb hst, hrun, hbegin]
  refine ⟨_, _, rfl, hready, ?_⟩
  rcases hcases with ⟨rfl, hfills⟩ | ⟨rfl, rfl, hsame, type, rfl⟩
  · exact .inr hfills
  · left
    rw [hsame]
    exact ⟨rfl, hmacrw, hdone, rfl, rfl, hfail, rfl, rfl, rfl, hlarge, hsmall, hboundary.trans hlen⟩

/-- The upload goes on, with the segment in which the file begins, or the connection is aborted. -/
theorem Awaits.continue (h : Awaits u hs g) (site : Site) (hlen : ev.data.length ≤ uipBufsize) :
    (continueUpload site ev hs g).g.readyForUpgrade = g.readyForUpgrade ∧
      ((∃ type size, Fills (u.more ev) type size (continueUpload site ev hs g).hs (continueUpload site ev hs g).g) ∨
        ∃ type, continueUpload site ev hs g = resetAnd .abort hs { g with upgradeType := type }) := by
  have hmore : u.more ev = u.look ev := by
    rw [Upload.more, h.file_eq]
    rfl
  obtain ⟨hs', g', found, hlook, hready, hcases⟩ := h.look hlen
  rw [continueUpload, h.not_found, hlook, hmore]
  rcases hcases with ⟨rfl, hfills⟩ | ⟨rfl, rfl, hsame, type, rfl⟩
  · exact ⟨hready, .inl hfills⟩
  · exact ⟨rfl, .inr ⟨type, rfl⟩⟩

/-- Other events while an upload is received. -/
theorem appcall_waiting (hst : hs.state = .uploadRequest) (hmacrw : hs.isMacrwResp = false)
    (hno : (ev.brings && !ev.acked && !ev.rexmit) = false) :
    ((appcall site ev hs g).hs.state = .none ∧ (appcall site ev hs g).g = g.forget) ∨
      ∃ count, (appcall site ev hs g).hs = { hs with count := count } ∧ (appcall site ev hs g).g = g := by
  rcases appcall_cases site ev hs g with ⟨reply, count, h⟩ | ⟨count, h⟩ | ⟨hnone, -⟩ | h | ⟨hfile, -⟩ |
    ⟨-, hbrings, hacked, hrexmit, -⟩
  · rw [h]
    exact .inl ⟨rfl, rfl⟩
  · rw [h]
    exact .inr ⟨count, rfl, rfl⟩
  · rw [hst] at hnone
    cases hnone
  · have hacked : handleAcked ev hs g = ⟨hs, g, .none⟩ := by simp [handleAcked, hmacrw, hst]
    rw [h, hacked]
    exact .inr ⟨hs.count, rfl, rfl⟩
  · rw [hst] at hfile
    cases hfile
  · rw [hbrings, hacked, hrexmit] at hno
    cases hno

/-- Events while a page is sent. -/
theorem appcall_answering (hst : hs.state = .fileRequest) (hmacrw : hs.isMacrwResp = false) :
    ((appcall site ev hs g).hs.state = .none ∧
      ((appcall site ev hs g).g = g.forget ∨ (appcall site ev hs g).g = g.pageAcked.forget)) ∨
    ((appcall site ev hs g).hs.state = .fileRequest ∧ (appcall site ev hs g).hs.isMacrwResp = false ∧
      (appcall site ev hs g).g = g) := by
  rcases appcall_cases site ev hs g with ⟨reply, count, h⟩ | ⟨count, h⟩ | ⟨hnone, -⟩ | h | ⟨-, h⟩ | ⟨hup, -⟩
  · rw [h]
    exact .inl ⟨rfl, .inl rfl⟩
  · rw [h]
    exact .inr ⟨hst, hmacrw, rfl⟩
  · rw [hst] at hnone
    cases hnone
  · obtain ⟨n, hacked⟩ : ∃ n, handleAcked ev hs g = if hs.upload ≤ ev.mss then resetAnd .close hs g.pageAcked
        else sendPage ev { hs with upload := n } g := by
      refine ⟨(hs.upload + wordSize - ev.len) % wordSize, ?_⟩
      rw [handleAcked, if_neg (by rw [hmacrw]; decide), if_pos hst, Globals.pageAcked]
    rw [h, hacked]
    split
    next => exact .inl ⟨rfl, .inr rfl⟩
    next => exact .inr ⟨hst, hmacrw, rfl⟩
  · rw [h]
    exact .inr ⟨hst, hmacrw, rfl⟩
  · rw [hst] at hup
    cases hup

end

section
variable {site : Site} {ev : Event} {hs : HttpdState} {g : Globals}

/-- A call on a connection without an upload. -/
theorem appcall_aside (site : Site) (hfound : g.dataStartFound = false) (hb : g.boundaryValue = none)
    (hno : (ev.brings && hs.state = .none && ev.beginsUpload) = false) :
    ∃ mem, (ev.loadsArt hs = false → mem = g.mem) ∧
      ((appcall site ev hs g).g = { g with mem := mem } ∨ (appcall site ev hs g).g = { g with mem := mem }.forget ∨
        (appcall site ev hs g).g = g.pageAcked.forget) := by
  rcases appcall_cases site ev hs g with ⟨reply, count, h⟩ | ⟨count, h⟩ | ⟨hst, hbrings, h⟩ | h | ⟨-, h⟩ |
    ⟨-, -, -, -, h⟩
  · exact ⟨g.mem, fun _ => rfl, .inr (.inl (by rw [h]; rfl))⟩
  · exact ⟨g.mem, fun _ => rfl, .inl (by rw [h])⟩
  · simp only [hbrings, hst, decide_true, Bool.true_and] at hno
    obtain ⟨mem, hmem, heq⟩ := @newRequest_aside site ev hs g hno
    rw [h]
    refine ⟨mem, fun hart => hmem ?_, heq.imp_right .inl⟩
    simpa [Event.loadsArt, hbrings, hst] using hart
  · refine ⟨g.mem, fun _ => rfl, ?_⟩
    rw [h]
    exact handleAcked_quiet
  · exact ⟨g.mem, fun _ => rfl, .inl (by rw [h]; rfl)⟩
  · refine ⟨g.mem, fun _ => rfl, .inr (.inl ?_)⟩
    rw [h, continueUpload_lost hfound hb]
    rfl

end

/-! ## The invariant -/

/-- The invariant of a run. -/
structure Watched.Inv (w : Watched) : Prop where
  idle : w.own = false → w.server.g.dataStartFound = false ∧ w.server.g.boundaryValue = none
  busy : w.own = true → ∃ u ∈ w.last, Awaits u w.server.hs w.server.g ∨
    (∃ type size, Fills u type size w.server.hs w.server.g) ∨
    (w.server.hs.state = .fileRequest ∧ w.server.hs.isMacrwResp = false ∧ w.server.g.postDone = true)
  done : w.server.g.postDone = true → ∃ u ∈ w.last, ∃ type size, Completed u type size w.server.g

section
variable {site : Site} {w : Watched} {ev : Event}

theorem Watched.Inv.open (h : w.Inv) (slot : Nat) : (w.step site (.open slot)).Inv where
  idle _ := ⟨rfl, rfl⟩
  busy hown := by cases hown
  done hdone := by
    obtain ⟨u, hu, type, size, hc⟩ := h.done hdone
    exact ⟨u, hu, type, size, hc.full, hc.type_eq, hc.size_eq, hc.failed_eq, hc.stored⟩

theorem Watched.step_ended (h : w.server.reply.ends = true) : w.step site (.event ev) =
    ⟨w.server, w.last, w.own && w.server.hs.state ≠ .none⟩ := by
  simp [Watched.step, Server.step, Watched.begins, Watched.continues, h]

theorem Watched.step_server (h : w.server.reply.ends = false) : (w.step site (.event ev)).server =
    ⟨Function.update w.server.slots w.server.slot (appcall site ev w.server.hs w.server.g).hs, w.server.slot,
      (appcall site ev w.server.hs w.server.g).g, (appcall site ev w.server.hs w.server.g).reply⟩ := by
  simp [Watched.step, Server.step, h]

theorem Watched.step_hs (h : w.server.reply.ends = false) :
    (w.step site (.event ev)).server.hs = (appcall site ev w.server.hs w.server.g).hs := by
  rw [Server.hs, Watched.step_server h]
  exact Function.update_self ..

theorem Watched.step_g (h : w.server.reply.ends = false) :
    (w.step site (.event ev)).server.g = (appcall site ev w.server.hs w.server.g).g := by
  rw [Watched.step_server h]

end

section
variable {site : Site} {w : Watched} {ev : Event} {u : Upload} {type : UpgradeType} {size : Nat} {g : Globals}

theorem Completed.congr (h : Completed u type size g) {g' : Globals} (htype : g'.upgradeType = g.upgradeType)
    (hsize : g'.netBootFileXferSize = g.netBootFileXferSize) (hfail : g'.uploadFailed = g.uploadFailed)
    (hmem : g'.mem = g.mem) : Completed u type size g' := by
  refine ⟨h.full, htype.trans h.type_eq, hsize.trans h.size_eq, hfail.trans h.failed_eq, fun hno => ?_⟩
  rw [hmem]
  exact h.stored (hfail.symm.trans hno)

theorem Globals.pageAcked_cases (g : Globals) :
    (g.postDone = false ∧ g.pageAcked = g) ∨
      (g.postDone = true ∧ g.pageAcked = { g with
        readyForUpgrade := g.readyForUpgrade || !g.uploadFailed
        postDone := false
        uploadFailed := false }) := by
  cases hdone : g.postDone with
  | false => exact .inl ⟨rfl, if_neg (by rw [hdone]; decide)⟩
  | true => exact .inr ⟨rfl, if_pos hdone⟩

/-- The file is in memory when the upgrade is triggered. -/
theorem Completed.triggers (h : Completed u type size g) (hfail : g.uploadFailed = false) :
    u.Stored g.pageAcked.forget := by
  have hread : g.mem.read uploadRamAddress size = u.bytes.take size := by
    have hle : size ≤ u.bytes.length := by
      have hfull := h.full.2
      omega
    have hslice := Mem.read_slice g.mem uploadRamAddress u.bytes.length 0 size
    rw [h.stored hfail, List.drop_zero, Nat.add_zero, Nat.sub_zero, Nat.min_eq_left hle] at hslice
    exact hslice.symm
  refine ⟨type, size, h.full, h.failed_eq.symm.trans hfail, ?_⟩
  rcases g.pageAcked_cases with ⟨-, he⟩ | ⟨-, he⟩ <;> rw [he] <;> exact ⟨h.type_eq, h.size_eq, hread⟩

/-- A step whose connection is over, or which leaves the globals as they were. -/
theorem Watched.right_of_ready {act : ServerAct} {w' : Watched}
    (hready : w'.server.g.readyForUpgrade = w.server.g.readyForUpgrade)
    (hown : w.own = true → w.server.hs.state ≠ .fileRequest) : w.Right act w' where
  only hno hyes := by
    rw [hready, hno] at hyes
    cases hyes
  always how _ hack := by
    cases act with
    | «open» slot => cases hack
    | event ev =>
        simp only [Server.acksPage, Bool.and_eq_true, decide_eq_true_eq] at hack
        exact absurd hack.1.1.1.2 (hown how)

/-- The first segment of an upload. -/
theorem Watched.Inv.begin (h : w.Inv) (hbegins : w.begins ev = true) (hlen : ev.data.length ≤ uipBufsize)
    (hsound : w.Sound (.event ev)) :
    (w.step site (.event ev)).Inv ∧ w.Right (.event ev) (w.step site (.event ev)) := by
  obtain ⟨hdone, hfail, hmacrw, hend⟩ := hsound.1 hbegins
  have hb := hbegins
  simp only [Watched.begins, Bool.and_eq_true, Bool.not_eq_true', decide_eq_true_eq] at hb
  obtain ⟨⟨⟨hopen, hbrings⟩, hst⟩, hupload⟩ := hb
  have hnot : w.own = false := by
    cases hown : w.own with
    | false => rfl
    | true =>
        obtain ⟨u, -, ha | ⟨type, size, hf⟩ | ⟨hfile, -⟩⟩ := h.busy hown
        · exact absurd (ha.state_eq.symm.trans hst) (by decide)
        · exact absurd (hf.state_eq.symm.trans hst) (by decide)
        · exact absurd (hfile.symm.trans hst) (by decide)
  obtain ⟨hs', g', hrun, hready, hcases⟩ := @appcall_begins site ev _ _ hbrings hst hupload hlen hdone hfail hmacrw
    hend (h.idle hnot).1
  have hhs : (w.step site (.event ev)).server.hs = hs' := by rw [Watched.step_hs hopen, hrun]
  have hg : (w.step site (.event ev)).server.g = g' := by rw [Watched.step_g hopen, hrun]
  have hlast : (w.step site (.event ev)).last = some ((Upload.header ev).look ev) := if_pos hbegins
  obtain ⟨hup, hnotdone⟩ : hs'.state = .uploadRequest ∧ g'.postDone = false := by
    rcases hcases with ha | ⟨type, size, hf⟩
    · exact ⟨ha.state_eq, ha.not_done⟩
    · exact ⟨hf.state_eq, hf.not_done⟩
  have hown : (w.step site (.event ev)).own = true := by
    change ((w.begins ev || w.own) && decide ((w.step site (.event ev)).server.hs.state ≠ .none)) = true
    rw [hbegins, hhs, hup]
    rfl
  refine ⟨⟨fun hno => ?_, fun _ => ?_, fun hyes => ?_⟩, Watched.right_of_ready ?_ fun hyes => ?_⟩
  · rw [hown] at hno
    cases hno
  · rw [hhs, hg]
    exact ⟨_, hlast, hcases.imp_right .inl⟩
  · rw [hg, hnotdone] at hyes
    cases hyes
  · rw [hg, hready]
  · rw [hnot] at hyes
    cases hyes

end

section
variable {site : Site} {w : Watched} {ev : Event}

theorem Watched.step_own (hopen : w.server.reply.ends = false) (hbegins : w.begins ev = false) :
    (w.step site (.event ev)).own = (w.own && (appcall site ev w.server.hs w.server.g).hs.state ≠ .none) := by
  change ((w.begins ev || w.own) && decide ((w.step site (.event ev)).server.hs.state ≠ .none)) = _
  rw [hbegins, Watched.step_hs hopen, Bool.false_or]

theorem Watched.step_last (hbegins : w.begins ev = false) :
    (w.step site (.event ev)).last = if w.continues ev then w.last.map (·.more ev) else w.last := by
  change (if w.begins ev then _ else _) = _
  rw [hbegins]
  rfl

theorem Watched.step_last_same (hbegins : w.begins ev = false) (hcont : w.continues ev = false) :
    (w.step site (.event ev)).last = w.last := by
  rw [Watched.step_last hbegins, hcont]
  rfl

/-- The acknowledgement of a page uses up the flags. -/
theorem Watched.Inv.acked (h : w.Inv) : w.server.g.pageAcked.forget.postDone = false ∧
    (w.server.g.readyForUpgrade = false → w.server.g.pageAcked.forget.readyForUpgrade = true →
      ∃ u ∈ w.last, u.Stored w.server.g.pageAcked.forget) := by
  rcases w.server.g.pageAcked_cases with ⟨hdone, hsame⟩ | ⟨hdone, hset⟩
  · rw [hsame]
    refine ⟨hdone, fun hnot hyes => ?_⟩
    exact absurd (hnot.symm.trans hyes) (by decide)
  · refine ⟨by rw [hset]; rfl, fun hnot hyes => ?_⟩
    obtain ⟨u, hu, type, size, hc⟩ := h.done hdone
    have hfail : w.server.g.uploadFailed = false := by
      rw [hset] at hyes
      change (w.server.g.readyForUpgrade || !w.server.g.uploadFailed) = true at hyes
      rwa [hnot, Bool.false_or, Bool.not_eq_true'] at hyes
    exact ⟨u, hu, hc.triggers hfail⟩

/-- A call on a connection without an upload. -/
theorem Watched.Inv.aside (h : w.Inv) (hopen : w.server.reply.ends = false) (hbegins : w.begins ev = false)
    (hown : w.own = false) (hsound : w.Sound (.event ev)) :
    (w.step site (.event ev)).Inv ∧ w.Right (.event ev) (w.step site (.event ev)) := by
  obtain ⟨hfound, hboundary⟩ := h.idle hown
  have hlast : (w.step site (.event ev)).last = w.last := by
    refine Watched.step_last_same hbegins ?_
    rw [Watched.continues, hown, Bool.and_false, Bool.false_and, Bool.false_and, Bool.false_and, Bool.false_and]
  have hown' : (w.step site (.event ev)).own = false := by
    rw [Watched.step_own hopen hbegins, hown, Bool.false_and]
  have hno : (ev.brings && w.server.hs.state = .none && ev.beginsUpload) = false := by
    rw [Watched.begins, hopen] at hbegins
    exact hbegins
  obtain ⟨mem, hmem, hcases⟩ := appcall_aside site hfound hboundary hno
  rw [← @Watched.step_g site w ev hopen] at hcases
  have hart : w.server.g.postDone = true → mem = w.server.g.mem := fun hdone => hmem (hsound.2 hopen hdone)
  have hidle : w.own = true → w.server.hs.state ≠ .fileRequest := fun hyes => by rw [hown] at hyes; cases hyes
  obtain ⟨g', hg'⟩ : ∃ g', g' = (w.step site (.event ev)).server.g := ⟨_, rfl⟩
  rw [← hg'] at hcases
  rcases hcases with rfl | rfl | rfl
  · refine ⟨⟨fun _ => ?_, fun hyes => ?_, fun hdone => ?_⟩, Watched.right_of_ready ?_ hidle⟩
    · rw [← hg']; exact ⟨hfound, hboundary⟩
    · rw [hown'] at hyes; cases hyes
    · rw [← hg'] at hdone ⊢
      rw [hlast]
      obtain ⟨u, hu, type, size, hc⟩ := h.done hdone
      exact ⟨u, hu, type, size, hc.congr rfl rfl rfl (hart hdone)⟩
    · rw [← hg']
  · refine ⟨⟨fun _ => ?_, fun hyes => ?_, fun hdone => ?_⟩, Watched.right_of_ready ?_ hidle⟩
    · rw [← hg']; exact ⟨rfl, rfl⟩
    · rw [hown'] at hyes; cases hyes
    · rw [← hg'] at hdone ⊢
      rw [hlast]
      obtain ⟨u, hu, type, size, hc⟩ := h.done hdone
      exact ⟨u, hu, type, size, hc.congr rfl rfl rfl (hart hdone)⟩
    · rw [← hg']; rfl
  · obtain ⟨hdone, honly⟩ := h.acked
    refine ⟨⟨fun _ => ?_, fun hyes => ?_, fun hyes => ?_⟩, ⟨?_, fun hyes => ?_⟩⟩
    · rw [← hg']; exact ⟨rfl, rfl⟩
    · rw [hown'] at hyes; cases hyes
    · rw [← hg', hdone] at hyes; cases hyes
    · rw [← hg']; exact honly
    · rw [hown] at hyes; cases hyes

theorem Awaits.count {u : Upload} {hs : HttpdState} {g : Globals} (h : Awaits u hs g) (count : Nat) :
    Awaits u { hs with count := count } g :=
  ⟨h.state_eq, h.not_macrw, h.not_done, h.boundary_eq, h.not_found, h.not_failed, h.pointer_eq, h.total_eq, h.file_eq,
    h.large, h.small, h.boundary_le⟩

theorem Fills.count {u : Upload} {type : UpgradeType} {size : Nat} {hs : HttpdState} {g : Globals}
    (h : Fills u type size hs g) (count : Nat) : Fills u type size { hs with count := count } g :=
  ⟨h.state_eq, h.not_macrw, h.not_done, h.boundary_eq, h.found, h.file_eq, h.type_eq, h.failed_eq, h.total_eq,
    h.upload_le, h.small, h.stored⟩

/-- What a call leaves behind while an upload is received: nothing of it, or one that goes on or is answered. -/
def Upload.Leaves (u : Upload) (hs : HttpdState) (g : Globals) : Prop :=
  (hs.state = .none ∧ g.dataStartFound = false ∧ g.boundaryValue = none ∧ g.postDone = false) ∨
    Awaits u hs g ∨ (∃ type size, Fills u type size hs g) ∨
    (hs.state = .fileRequest ∧ hs.isMacrwResp = false ∧ g.postDone = true ∧ ∃ type size, Completed u type size g)

theorem Watched.Inv.leaves {u : Upload} (hopen : w.server.reply.ends = false) (hbegins : w.begins ev = false)
    (hown : w.own = true) (hlast : u ∈ (w.step site (.event ev)).last)
    (h : u.Leaves (appcall site ev w.server.hs w.server.g).hs (appcall site ev w.server.hs w.server.g).g) :
    (w.step site (.event ev)).Inv := by
  have hown' := @Watched.step_own site w ev hopen hbegins
  rw [hown, Bool.true_and] at hown'
  rw [← @Watched.step_g site w ev hopen, ← @Watched.step_hs site w ev hopen] at h
  rw [← @Watched.step_hs site w ev hopen] at hown'
  have hbusy : (w.step site (.event ev)).server.hs.state ≠ .none → (w.step site (.event ev)).own = true := by
    intro hst
    rw [hown']
    exact decide_eq_true hst
  rcases h with ⟨hst, hfound, hboundary, hdone⟩ | ha | ⟨type, size, hf⟩ | ⟨hst, hmacrw, hdone, type, size, hc⟩
  · refine ⟨fun _ => ⟨hfound, hboundary⟩, fun hyes => ?_, fun hyes => ?_⟩
    · rw [hown', hst] at hyes
      cases hyes
    · rw [hdone] at hyes
      cases hyes
  · refine ⟨fun hno => ?_, fun _ => ⟨u, hlast, .inl ha⟩, fun hyes => ?_⟩
    · rw [hbusy (by rw [ha.state_eq]; decide)] at hno
      cases hno
    · rw [ha.not_done] at hyes
      cases hyes
  · refine ⟨fun hno => ?_, fun _ => ⟨u, hlast, .inr (.inl ⟨type, size, hf⟩)⟩, fun hyes => ?_⟩
    · rw [hbusy (by rw [hf.state_eq]; decide)] at hno
      cases hno
    · rw [hf.not_done] at hyes
      cases hyes
  · refine ⟨fun hno => ?_, fun _ => ⟨u, hlast, .inr (.inr ⟨hst, hmacrw, hdone⟩)⟩, fun _ => ⟨u, hlast, type, size, hc⟩⟩
    rw [hbusy (by rw [hst]; decide)] at hno
    cases hno

/-- A call while an upload is received. -/
theorem Watched.Inv.receives {u : Upload} (hopen : w.server.reply.ends = false) (hbegins : w.begins ev = false)
    (hown : w.own = true) (hu : u ∈ w.last) (hlen : ev.data.length ≤ uipBufsize)
    (h : Awaits u w.server.hs w.server.g ∨ ∃ type size, Fills u type size w.server.hs w.server.g) :
    (w.step site (.event ev)).Inv ∧ w.Right (.event ev) (w.step site (.event ev)) := by
  obtain ⟨hst, hmacrw, hdone⟩ : w.server.hs.state = .uploadRequest ∧ w.server.hs.isMacrwResp = false ∧
      w.server.g.postDone = false := by
    rcases h with ha | ⟨type, size, hf⟩
    · exact ⟨ha.state_eq, ha.not_macrw, ha.not_done⟩
    · exact ⟨hf.state_eq, hf.not_macrw, hf.not_done⟩
  have hright : (appcall site ev w.server.hs w.server.g).g.readyForUpgrade = w.server.g.readyForUpgrade →
      w.Right (.event ev) (w.step site (.event ev)) := by
    intro hready
    refine Watched.right_of_ready (by rw [Watched.step_g hopen, hready]) fun _ => ?_
    rw [hst]
    decide
  have hcont_eq : w.continues ev = (ev.brings && !ev.acked && !ev.rexmit) := by
    simp [Watched.continues, hopen, hown, hst]
  cases hcont : w.continues ev with
  | false =>
      have hlast : u ∈ (w.step site (.event ev)).last := by
        rw [Watched.step_last_same hbegins hcont]
        exact hu
      rcases @appcall_waiting site ev _ w.server.g hst hmacrw (hcont_eq.symm.trans hcont) with
        ⟨hnone, hg⟩ | ⟨count, hhs, hg⟩
      · refine ⟨Watched.Inv.leaves hopen hbegins hown hlast (.inl ?_), hright (by rw [hg]; rfl)⟩
        rw [hg]
        exact ⟨hnone, rfl, rfl, hdone⟩
      · refine ⟨Watched.Inv.leaves hopen hbegins hown hlast ?_, hright (by rw [hg])⟩
        rw [hg, hhs]
        rcases h with ha | ⟨type, size, hf⟩
        · exact .inr (.inl (ha.count count))
        · exact .inr (.inr (.inl ⟨type, size, hf.count count⟩))
  | true =>
      have hlast : u.more ev ∈ (w.step site (.event ev)).last := by
        rw [Watched.step_last hbegins, hcont, if_pos rfl]
        exact Option.mem_map_of_mem _ hu
      simp only [hcont_eq, Bool.and_eq_true, Bool.not_eq_true'] at hcont
      obtain ⟨⟨hbrings, hacked⟩, hrexmit⟩ := hcont
      have hrun := @appcall_continues site ev _ w.server.g hbrings hst hacked hrexmit
      rcases h with ha | ⟨type, size, hf⟩
      · obtain ⟨hready, hfills | ⟨type, habort⟩⟩ := ha.continue site hlen
        · refine ⟨Watched.Inv.leaves hopen hbegins hown hlast ?_, hright (by rw [hrun, hready])⟩
          rw [hrun]
          exact .inr (.inr (.inl hfills))
        · refine ⟨Watched.Inv.leaves hopen hbegins hown hlast ?_, hright (by rw [hrun, hready])⟩
          rw [hrun, habort]
          exact .inl ⟨rfl, rfl, rfl, hdone⟩
      · obtain ⟨hready, hmacrw', hfills | ⟨hfile, hdone', hc⟩⟩ := @Fills.continue ev _ _ _ _ _ hf site
        · refine ⟨Watched.Inv.leaves hopen hbegins hown hlast ?_, hright (by rw [hrun, hready])⟩
          rw [hrun]
          exact .inr (.inr (.inl ⟨type, size, hfills⟩))
        · refine ⟨Watched.Inv.leaves hopen hbegins hown hlast ?_, hright (by rw [hrun, hready])⟩
          rw [hrun]
          exact .inr (.inr (.inr ⟨hfile, hmacrw', hdone', type, size, hc⟩))

/-- The last part of a page is acknowledged. -/
theorem Server.acksPage_g {s : Server} (site : Site) (hack : s.acksPage (.event ev) = true)
    (hmacrw : s.hs.isMacrwResp = false) : (appcall site ev s.hs s.g).g = s.g.pageAcked.forget := by
  simp only [Server.acksPage, Bool.and_eq_true, decide_eq_true_eq, Bool.not_eq_true', Bool.or_eq_false_iff] at hack
  obtain ⟨⟨⟨⟨-, hst⟩, hmss⟩, hacked⟩, ⟨⟨⟨hclosed, haborted⟩, htimedout⟩, hpoll⟩, hconn⟩ := hack
  have hrun : appcall site ev s.hs s.g = handleAcked ev s.hs s.g := by
    simp [appcall, hclosed, haborted, htimedout, hpoll, hconn, hst, hacked]
  rw [hrun, handleAcked, if_neg (by rw [hmacrw]; decide), if_pos hst]
  dsimp only
  rw [if_pos hmss]
  rfl

/-- A call while the page that answers the upload is sent. -/
theorem Watched.Inv.answers (h : w.Inv) (hopen : w.server.reply.ends = false) (hbegins : w.begins ev = false)
    (hst : w.server.hs.state = .fileRequest) (hmacrw : w.server.hs.isMacrwResp = false)
    (hdone : w.server.g.postDone = true) : (w.step site (.event ev)).Inv := by
  obtain ⟨u, hu, type, size, hc⟩ := h.done hdone
  have hlast : (w.step site (.event ev)).last = w.last := by
    refine Watched.step_last_same hbegins ?_
    simp [Watched.continues, hst]
  have hown := @Watched.step_own site w ev hopen hbegins
  have hcases := @appcall_answering site ev _ w.server.g hst hmacrw
  rw [← @Watched.step_hs site w ev hopen, ← @Watched.step_g site w ev hopen] at hcases
  rw [← @Watched.step_hs site w ev hopen] at hown
  rcases hcases with ⟨hnone, hforget⟩ | ⟨hfile, hmacrw', hsame⟩
  · rw [hnone] at hown
    refine ⟨fun _ => ?_, fun hyes => ?_, fun hyes => ?_⟩
    · rcases hforget with he | he <;> rw [he] <;> exact ⟨rfl, rfl⟩
    · rw [hown, Bool.and_eq_true] at hyes
      exact absurd hyes.2 (by decide)
    · rw [hlast]
      rcases hforget with he | he
      · rw [he]
        exact ⟨u, hu, type, size, hc.congr rfl rfl rfl rfl⟩
      · rw [he, h.acked.1] at hyes
        cases hyes
  · refine ⟨fun hno => ?_, fun _ => ?_, fun _ => ?_⟩
    · rw [hsame]
      rw [hown, hfile, Bool.and_eq_false_iff] at hno
      exact h.idle (hno.resolve_right (by decide))
    · rw [hsame, hlast]
      exact ⟨u, hu, .inr (.inr ⟨hfile, hmacrw', hdone⟩)⟩
    · rw [hsame, hlast]
      exact ⟨u, hu, type, size, hc⟩

/-- The upgrade is triggered by the last acknowledgement of that page. -/
theorem Watched.Inv.answers_right (h : w.Inv) (hopen : w.server.reply.ends = false)
    (hst : w.server.hs.state = .fileRequest) (hmacrw : w.server.hs.isMacrwResp = false)
    (hdone : w.server.g.postDone = true) : w.Right (.event ev) (w.step site (.event ev)) := by
  obtain ⟨u, hu, type, size, hc⟩ := h.done hdone
  have hg := @Watched.step_g site w ev hopen
  constructor
  · intro hnot hyes
    have hstays : (w.step site (.event ev)).server.g.readyForUpgrade = w.server.g.readyForUpgrade →
        ∃ u ∈ w.last, u.Stored (w.step site (.event ev)).server.g := by
      intro he
      rw [he, hnot] at hyes
      cases hyes
    have hcases := @appcall_answering site ev _ w.server.g hst hmacrw
    rw [← hg] at hcases
    rcases hcases with ⟨-, he | he⟩ | ⟨-, -, he⟩
    · exact hstays (by rw [he]; rfl)
    · rw [he] at hyes ⊢
      exact h.acked.2 hnot hyes
    · exact hstays (by rw [he])
  · rintro - ⟨v, hv, type', size', hfull, hsize⟩ hack
    obtain rfl : u = v := Option.mem_unique hu hv
    have hfile := hc.full.1.symm.trans hfull.1
    simp only [Option.some.injEq, Prod.mk.injEq] at hfile
    have hfail : w.server.g.uploadFailed = false := by
      rw [hc.failed_eq, hfile.1, hfile.2]
      exact hsize
    rw [hg, Server.acksPage_g site hack hmacrw]
    rcases w.server.g.pageAcked_cases with ⟨hno, -⟩ | ⟨-, he⟩
    · rw [hdone] at hno
      cases hno
    · rw [he]
      change (w.server.g.readyForUpgrade || !w.server.g.uploadFailed) = true
      rw [hfail]
      exact Bool.or_true _

/-! ## Whole runs -/

/-- One step keeps the invariant and does what it should. -/
theorem Watched.Inv.step (h : w.Inv) {act : ServerAct} (hok : act.Ok) (hsound : w.Sound act) :
    (w.step site act).Inv ∧ w.Right act (w.step site act) := by
  cases act with
  | «open» slot =>
      refine ⟨h.open slot, ⟨fun hno hyes => ?_, fun _ _ hack => ?_⟩⟩
      · exact absurd (hno.symm.trans hyes) (by decide)
      · cases hack
  | event ev =>
      cases hends : w.server.reply.ends with
      | true =>
          have hsame : w.step site (.event ev) = w := by
            rw [Watched.step_ended hends]
            have hown : (w.own && w.server.hs.state ≠ .none) = w.own := by
              cases hown : w.own with
              | false => rfl
              | true =>
                  obtain ⟨u, -, ha | ⟨type, size, hf⟩ | ⟨hst, -⟩⟩ := h.busy hown
                  · rw [ha.state_eq]; rfl
                  · rw [hf.state_eq]; rfl
                  · rw [hst]; rfl
            rw [hown]
          rw [hsame]
          refine ⟨h, ⟨fun hno hyes => absurd (hno.symm.trans hyes) (by decide), fun _ _ hack => ?_⟩⟩
          simp [Server.acksPage, hends] at hack
      | false =>
          cases hbegins : w.begins ev with
          | true => exact h.begin hbegins hok hsound
          | false =>
              cases hown : w.own with
              | false => exact h.aside hends hbegins hown hsound
              | true =>
                  obtain ⟨u, hu, ha | hf | ⟨hst, hmacrw, hdone⟩⟩ := h.busy hown
                  · exact Watched.Inv.receives hends hbegins hown hu hok (.inl ha)
                  · exact Watched.Inv.receives hends hbegins hown hu hok (.inr hf)
                  · exact ⟨h.answers hends hbegins hst hmacrw hdone, h.answers_right hends hst hmacrw hdone⟩

theorem Watched.Inv.run (h : w.Inv) {acts : List ServerAct} (hok : ∀ act ∈ acts, act.Ok)
    (hsound : w.SoundRun site acts) : (w.run site acts).Inv := by
  induction acts generalizing w with
  | nil => exact h
  | cons act acts ih =>
      exact ih (h.step (hok act List.mem_cons_self) hsound.1).1
        (fun a ha => hok a (List.mem_cons_of_mem _ ha)) hsound.2

end

/-- The server before its first connection. -/
def Watched.boot (mem : Mem) : Watched := ⟨⟨fun _ => freshState, 0, { freshGlobals with mem := mem }, .close⟩, none, false⟩

theorem Watched.SoundRun.append {site : Site} {w : Watched} {acts acts' : List ServerAct}
    (h : w.SoundRun site (acts ++ acts')) : w.SoundRun site acts ∧ (w.run site acts).SoundRun site acts' := by
  induction acts generalizing w with
  | nil => exact ⟨trivial, h⟩
  | cons act acts ih =>
      obtain ⟨hrest, hlast⟩ := ih h.2
      exact ⟨⟨h.1, hrest⟩, hlast⟩

/-- In a sound run every step triggers the upgrade when it should, and with the upload it should. -/
theorem trigger_right (site : Site) (mem : Mem) (acts : List ServerAct) (act : ServerAct)
    (hok : ∀ a ∈ acts ++ [act], a.Ok) (hsound : (Watched.boot mem).SoundRun site (acts ++ [act])) :
    ((Watched.boot mem).run site acts).Right act (((Watched.boot mem).run site acts).step site act) := by
  have hboot : (Watched.boot mem).Inv := ⟨fun _ => ⟨rfl, rfl⟩, (fun h => by cases h), (fun h => by cases h)⟩
  obtain ⟨hbefore, hlast⟩ := hsound.append
  have hinv := hboot.run (fun a ha => hok a (List.mem_append_left _ ha)) hbefore
  exact (hinv.step (hok act (List.mem_append_right _ List.mem_cons_self)) hlast.1).2

instance (w : Watched) : (act : ServerAct) → Decidable (w.Sound act)
  | .open _ => instDecidableTrue
  | .event ev => inferInstanceAs (Decidable ((w.begins ev = true → w.server.g.postDone = false ∧
      w.server.g.uploadFailed = false ∧ w.server.hs.isMacrwResp = false ∧ ¬ contentLength <:+ ev.data) ∧
      (w.server.reply.ends = false → w.server.g.postDone = true → ev.loadsArt w.server.hs = false)))

instance instDecidableWatchedSoundRun (site : Site) :
    (w : Watched) → (acts : List ServerAct) → Decidable (w.SoundRun site acts)
  | _, [] => instDecidableTrue
  | w, act :: acts =>
      have := instDecidableWatchedSoundRun site (w.step site act) acts
      inferInstanceAs (Decidable (w.Sound act ∧ Watched.SoundRun site (w.step site act) acts))

/-- A page of one segment is acknowledged. -/
def ackEvent : Event := { acked := true, len := 150 }

/-- An upload on a connection of its own. -/
def uploadActs (bytes : List UInt8) (ms : List Nat) : List ServerAct :=
  .open 0 :: (segmentsOf bytes 0 ms).map fun a => .event a.event

theorem uploadActs_ok {bytes : List UInt8} {ms : List Nat} (hms : ∀ m ∈ ms, 0 < m ∧ m ≤ uipBufsize)
    (h : ms.sum ≤ bytes.length) : ∀ act ∈ uploadActs bytes ms, act.Ok := by
  intro act hact
  rcases List.mem_cons.mp hact with rfl | hact
  · trivial
  · obtain ⟨a, ha, rfl⟩ := List.mem_map.mp hact
    have hok := segmentsOf_ok hms (by rwa [Nat.zero_add]) a ha
    cases a with
    | poll => exact Nat.zero_le _
    | segment data stale mss ok => exact hok.2

/-- An upload whose page is not acknowledged, one that is aborted after its first segment, and a request for a page. -/
def staleActs : List ServerAct :=
  uploadActs (sampleForm 0).bytes sampleCut ++ [.event { aborted := true }] ++
    uploadActs (sampleForm 1).bytes [1400] ++ [.event { aborted := true }, .open 0, .event getIndex]

/-- How the two runs go -/
theorem sample_boots :
    (Watched.boot fun _ => 0).SoundRun sampleSite (uploadActs (sampleForm 0).bytes sampleCut ++ [.event ackEvent]) ∧
    (((Watched.boot fun _ => 0).run sampleSite (uploadActs (sampleForm 0).bytes sampleCut)).server.g.readyForUpgrade,
      (((Watched.boot fun _ => 0).run sampleSite (uploadActs (sampleForm 0).bytes sampleCut)).step sampleSite
        (.event ackEvent)).server.g.readyForUpgrade) = (false, true) ∧
    (((Watched.boot fun _ => 0).run sampleSite staleActs).server.g.readyForUpgrade,
      (((Watched.boot fun _ => 0).run sampleSite staleActs).step sampleSite (.event ackEvent)).server.g.readyForUpgrade,
      ((Watched.boot fun _ => 0).run sampleSite staleActs).last.map fun u =>
        (u.file.map (·.2), u.bytes.length)) = (false, true, some (some 10233, 1253)) := by
  refine ⟨?_, ?_, ?_⟩
  · decide +kernel
  · decide +kernel
  · decide +kernel

theorem trigger_right_sample :
    ∃ w w', w = (Watched.boot fun _ => 0).run sampleSite (uploadActs (sampleForm 0).bytes sampleCut) ∧
      w' = w.step sampleSite (.event ackEvent) ∧ w'.server.g.readyForUpgrade = true ∧
      ∃ u ∈ w.last, u.Stored w'.server.g := by
  have hok : ∀ a ∈ uploadActs (sampleForm 0).bytes sampleCut ++ [.event ackEvent], a.Ok := by
    intro a ha
    rcases List.mem_append.mp ha with ha | ha
    · exact uploadActs_ok (by decide) (by rw [sampleForm_length]; decide) a ha
    · cases List.mem_singleton.mp ha
      exact Nat.zero_le _
  obtain ⟨hsound, hready, -⟩ := sample_boots
  have hright := trigger_right sampleSite (fun _ => 0) _ _ hok hsound
  obtain ⟨w, hw⟩ : ∃ w, w = (Watched.boot fun _ => 0).run sampleSite (uploadActs (sampleForm 0).bytes sampleCut) :=
    ⟨_, rfl⟩
  rw [← hw] at hright hready
  obtain ⟨hno, hyes⟩ := Prod.mk.inj hready
  exact ⟨w, _, hw, rfl, hyes, hright.only hno hyes⟩

/-- The upgrade is triggered with the beginning of the second upload over the first. -/
theorem trigger_with_aborted :
    ¬ ∀ (site : Site) (mem : Mem) (acts : List ServerAct) (act : ServerAct), (∀ a ∈ acts ++ [act], a.Ok) →
      ((Watched.boot mem).run site acts).Right act (((Watched.boot mem).run site acts).step site act) := by
  intro h
  have hok : ∀ a ∈ staleActs ++ [.event ackEvent], a.Ok := by
    intro a ha
    simp only [staleActs, List.mem_append, List.mem_cons, List.not_mem_nil, or_false] at ha
    rcases ha with (((ha | rfl) | ha) | rfl | rfl | rfl) | rfl
    · exact uploadActs_ok (by decide) (by rw [sampleForm_length]; decide) a ha
    · exact Nat.zero_le _
    · exact uploadActs_ok (by decide) (by rw [sampleForm_length]; decide) a ha
    · exact Nat.zero_le _
    · trivial
    · change getIndex.data.length ≤ uipBufsize
      decide
    · exact Nat.zero_le _
  have hright := h sampleSite (fun _ => 0) staleActs (.event ackEvent) hok
  have hrun := sample_boots.2.2
  simp only [Prod.mk.injEq] at hrun
  obtain ⟨hno, hyes, hlast⟩ := hrun
  obtain ⟨u, hu, type, size, ⟨hfile, hfull⟩, -⟩ := hright.only hno hyes
  rw [hu, Option.map_some, hfile] at hlast
  simp only [Option.map_some, Option.some.injEq, Prod.mk.injEq] at hlast
  omega

end Uboot.Httpd
