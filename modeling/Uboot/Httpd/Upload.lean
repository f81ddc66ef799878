import Uboot.Httpd.Header

/-!
# An upload, segment by segment

`k` counts the bytes of the request that have arrived. The first segment, or the first two, find the start of the
file; from then on every segment is stored behind the one before.
-/

namespace Uboot.Httpd

open Uboot.Lib

/-- What arrives while a request is received. -/
inductive Arrival where
  | segment (data stale : List UInt8) (mss : Nat) (mallocOk : Bool)
  | poll

def Arrival.event : Arrival → Event
  | .segment data stale mss mallocOk =>
      { newdata := true, data := data, stale := stale, mss := mss, mallocOk := mallocOk }
  | .poll => { poll := true }

def Arrival.data : Arrival → List UInt8
  | .segment data _ _ _ => data
  | .poll => []

/-- What the search for the field's name can find in the segment with the header of the part, which is one of `cut`. -/
def Request.TypeFound (r : Request) (cut : Nat → Nat → Prop) (type : UpgradeType) : Prop :=
  ∃ k m ys, cut k m ∧ k ≤ r.header.length ∧ r.fileStart ≤ k + m ∧
    fieldType (slice r.bytes r.header.length (k + m - r.header.length) ++ 0 :: ys) = some type

/-- The header has arrived, but not the start of the file. -/
structure Reading (r : Request) (k : Nat) (hs : HttpdState) (g : Globals) : Prop where
  state_eq : hs.state = .uploadRequest
  total_eq : hs.uploadTotal = r.body.length
  not_found : g.dataStartFound = false
  boundary_eq : g.boundaryValue = some r.delimiter
  pointer_eq : g.dataPointer = uploadRamAddress
  not_failed : g.uploadFailed = false
  pos : 0 < k
  le_bufsize : k ≤ uipBufsize
  large : 10240 ≤ r.body.length
  delimiter_le : r.delimiter.length ≤ uipBufsize

/-- What has arrived of the file, and of what follows it, is in memory. -/
def Stored (r : Request) (k : Nat) (g : Globals) : Prop :=
  g.dataPointer = uploadRamAddress + (k - r.fileStart) ∧
    ∀ i < k - r.fileStart, g.mem (uploadRamAddress + i) = r.bytes.getD (r.fileStart + i) 0

/-- The start of the file has arrived. -/
structure Storing (r : Request) (cut : Nat → Nat → Prop) (k : Nat) (hs : HttpdState) (g : Globals) : Prop where
  state_eq : hs.state = .uploadRequest
  total_eq : hs.uploadTotal = r.file.length
  upload_eq : hs.upload = k - r.fileStart
  found : g.dataStartFound = true
  boundary_eq : g.boundaryValue = some r.delimiter
  type_eq : r.TypeFound cut g.upgradeType
  failed_eq : g.uploadFailed = sizeError g.upgradeType r.file.length
  le : r.fileStart ≤ k
  lt : k < r.bytes.length
  stored : g.uploadFailed = false → Stored r k g

/-- The whole request has arrived. -/
structure Finished (r : Request) (cut : Nat → Nat → Prop) (g : Globals) : Prop where
  done : g.postDone = true
  size_eq : g.netBootFileXferSize = r.file.length
  type_eq : r.TypeFound cut g.upgradeType
  failed_eq : g.uploadFailed = sizeError g.upgradeType r.file.length
  stored : g.uploadFailed = false → g.mem.read uploadRamAddress r.file.length = r.file

/-- Nothing but the upload itself has changed. -/
structure Kept (hs : HttpdState) (g : Globals) (res : Result) : Prop where
  macrw : res.hs.isMacrwResp = hs.isMacrwResp
  done : res.g.postDone = g.postDone
  ready : res.g.readyForUpgrade = g.readyForUpgrade

/-- The connection is aborted, and the upload is forgotten. -/
structure GivenUp (res : Result) : Prop where
  reply_eq : res.reply = .abort
  state_eq : res.hs.state = .none
  not_failed : res.g.uploadFailed = false

/-- The upload goes on after `k` bytes. -/
structure Goes (r : Request) (cut : Nat → Nat → Prop) (k : Nat) (res : Result) : Prop where
  reply_eq : res.reply = .none
  phase : Reading r k res.hs res.g ∨ Storing r cut k res.hs res.g

section
variable {r : Request} {cut : Nat → Nat → Prop} {k m mss : Nat} {site : Site} {hs : HttpdState} {g : Globals} {stale : List UInt8} {ok : Bool}

theorem slice_getD {xs : List UInt8} {i : Nat} (hi : i < m) : (slice xs k m).getD i 0 = xs.getD (k + i) 0 := by
  rw [slice, List.getD_eq_getElem?_getD, List.getD_eq_getElem?_getD, List.getElem?_take_of_lt hi, List.getElem?_drop]

/-! ## Where the closing delimiter is -/

/-- Two segments do not reach the end of the request. -/
theorem Request.short (r : Request) (hlarge : 10240 ≤ r.body.length) (hk : k ≤ uipBufsize) (hm : m ≤ uipBufsize) :
    k + m < r.fileStart + r.file.length + r.delimiter.length ∧ k + m < r.bytes.length := by
  have hb := r.body_length
  have hl := r.bytes_length
  have hfs : r.fileStart = r.header.length + r.delimiter.length + r.part.length := rfl
  simp only [uipBufsize] at hk hm
  omega

/-! ## The start of the file -/

/-- The segment with the start of the file. -/
theorem findAndStore_storing (hs : HttpdState) (g : Globals) (h : r.WellFormed) (hm : k + m ≤ r.bytes.length) {ev : Event}
    (hdata : ev.data = slice r.bytes k m) (hb : g.boundaryValue = some r.delimiter)
    (ht : hs.uploadTotal = r.body.length) (hp : g.dataPointer = uploadRamAddress)
    (hstate : hs.state = .uploadRequest) (hfail : g.uploadFailed = false) (hk : k ≤ r.header.length)
    (hE : r.fileStart ≤ k + m) (hlt : k + m < r.bytes.length) (hcut : cut k m) :
    ∃ hs' g', findAndStoreFirstChunk ev hs g = (hs', g', true) ∧
      Storing r cut (k + m) hs' { g' with dataStartFound := true } ∧
      Kept hs g ⟨hs', { g' with dataStartFound := true }, .none⟩ := by
  obtain ⟨type, htype, hrun⟩ := findAndStore_found h hm hdata hb ht hk hE
  obtain ⟨g', hg'⟩ : ∃ g', g' = { g with
    upgradeType := type
    uploadFailed := g.uploadFailed || sizeError type r.file.length
    mem := g.mem.write g.dataPointer (slice r.bytes r.fileStart (k + m - r.fileStart))
    dataPointer := g.dataPointer + (k + m - r.fileStart) } := ⟨_, rfl⟩
  have hstored : Stored r (k + m) { g' with dataStartFound := true } := by
    rw [hg']
    refine ⟨by simp only [hp], ?_⟩
    intro i hi
    change g.mem.write _ _ _ = _
    have hlen : (slice r.bytes r.fileStart (k + m - r.fileStart)).length = k + m - r.fileStart :=
      slice_length (by omega)
    rw [hp, Mem.write_of_mem (by omega), slice_getD hi]
  rw [← hg'] at hrun
  refine ⟨_, g', hrun, ⟨hstate, rfl, rfl, rfl, ?_, ?_, ?_, hE, hlt, fun _ => hstored⟩, ?_⟩
  · rw [hg']; exact hb
  · rw [hg']; exact ⟨k, m, _, hcut, hk, hE, htype⟩
  · rw [hg', hfail]; rfl
  · rw [hg']; exact ⟨rfl, rfl, rfl⟩

/-- The request is not taken for another one. -/
theorem newRequest_upload (site : Site) (hs : HttpdState) (g : Globals) (h : r.WellFormed) (hpos : 0 < m) (hm : m ≤ r.bytes.length) {ev : Event}
    (hdata : ev.data = slice r.bytes 0 m) (hcmd : ¬ Request.IsCommand ev.buf) :
    newRequest site ev hs g = beginUpload ev { hs with state := .uploadRequest } g ∨
      newRequest site ev hs g = resetAnd .abort hs g := by
  have hfirst : ev.buf.take 1 = [80] := by
    obtain ⟨t, ht⟩ := h.post
    have hbytes : r.bytes.take 1 = [80] := by
      rw [Request.bytes, ← ht]
      rfl
    rw [Event.buf, hdata, slice, List.drop_zero, List.take_append_of_le_length (by rw [List.length_take]; omega),
      List.take_take, Nat.min_eq_left (by omega), hbytes]
  have hget : isGet ev.buf = false := by
    have hne : ev.buf.take 3 ≠ ascii "GET" := by
      intro he
      have hone : (ev.buf.take 3).take 1 = [80] := by rw [List.take_take]; exact hfirst
      rw [he] at hone
      exact absurd hone (by decide)
    simp [isGet, hne]
  obtain ⟨h1, h2, h3⟩ : ¬ ascii "POST /macrw" <+: ev.buf ∧ ¬ ascii "POST /setenv" <+: ev.buf ∧
      ¬ ascii "POST /reset" <+: ev.buf := by
    refine ⟨fun hp => hcmd (Or.inl hp), fun hp => hcmd (Or.inr (Or.inl hp)), fun hp => hcmd (Or.inr (Or.inr hp))⟩
  simp only [← List.isPrefixOf_iff_prefix] at h1 h2 h3
  cases hpost : isPost ev.buf with
  | false =>
      right
      simp only [newRequest, hget, hpost, Bool.false_eq_true, if_false]
  | true =>
      left
      simp only [newRequest, hget, hpost, Bool.false_eq_true, if_false, if_true]
      rw [if_neg h1, if_neg h2, if_neg h3]

/-- The first segment. -/
theorem first_segment (h : r.WellFormed) (hpos : 0 < m) (hbuf : m ≤ uipBufsize) (hm : m ≤ r.bytes.length)
    (hcut : cut 0 m) (hstate : hs.state = .none) (hfail : g.uploadFailed = false)
    (hcmd : ¬ Request.IsCommand (slice r.bytes 0 m ++ stale)) (hlast : ¬ contentLength <:+ slice r.bytes 0 m) :
    ∃ res, appcall site (Arrival.segment (slice r.bytes 0 m) stale mss ok).event hs g = res ∧ Kept hs g res ∧
      (GivenUp res ∨ Goes r cut m res) := by
  obtain ⟨ev, hev⟩ : ∃ ev, ev = (Arrival.segment (slice r.bytes 0 m) stale mss ok).event := ⟨_, rfl⟩
  have hdata : ev.data = slice r.bytes 0 m := by rw [hev]; rfl
  have hcall : appcall site ev hs g = newRequest site ev hs g := by
    rw [hev]
    simp [appcall, Arrival.event, hstate]
  have hcmd' : ¬ Request.IsCommand ev.buf := by rw [hev]; exact hcmd
  rw [← hev, hcall]
  refine ⟨_, rfl, ?_⟩
  have hgone : ∀ hs', hs'.isMacrwResp = hs.isMacrwResp → Kept hs g (resetAnd .abort hs' g) ∧
      (GivenUp (resetAnd .abort hs' g) ∨ Goes r cut m (resetAnd .abort hs' g)) :=
    fun hs' he => ⟨⟨he, rfl, rfl⟩, Or.inl ⟨rfl, rfl, hfail⟩⟩
  rcases newRequest_upload site hs g h hpos hm hdata hcmd' with hrun | hrun
  swap
  · rw [hrun]
    exact hgone hs rfl
  rw [hrun]
  have hlast' : ¬ contentLength <:+ ev.data := by rw [hdata]; exact hlast
  rcases beginUpload_cases h hm hdata hlast' with habort | ⟨hlarge, hdl, hs1, g1, found, hfind, hrun'⟩
  · rw [habort]
    exact hgone _ rfl
  rw [hrun']
  obtain ⟨hshort, hlt⟩ := r.short (k := 0) hlarge (Nat.zero_le _) hbuf
  by_cases hE : r.fileStart ≤ 0 + m
  · obtain ⟨hs2, g2, hfound, hstoring, hkept⟩ := findAndStore_storing
      { hs with state := .uploadRequest, uploadTotal := r.body.length }
      { g with boundaryValue := some r.delimiter, dataPointer := uploadRamAddress } (k := 0) h
      (by omega) hdata rfl rfl rfl rfl hfail (Nat.zero_le _) hE hlt hcut
    cases hfind.symm.trans hfound
    rw [Nat.zero_add] at hstoring
    exact ⟨⟨hkept.macrw, hkept.done, hkept.ready⟩, Or.inr ⟨rfl, Or.inr hstoring⟩⟩
  · obtain ⟨type, hmissed⟩ := findAndStore_missed
      { hs with state := .uploadRequest, uploadTotal := r.body.length }
      { g with boundaryValue := some r.delimiter, dataPointer := uploadRamAddress } (k := 0) h
      (by omega) hdata rfl (Or.inr (by omega)) hshort
    cases hfind.symm.trans hmissed
    refine ⟨⟨rfl, rfl, rfl⟩, Or.inr ⟨rfl, Or.inl ?_⟩⟩
    exact ⟨rfl, rfl, rfl, rfl, rfl, hfail, hpos, hbuf, hlarge, hdl.trans hbuf⟩

/-- The second segment, when the first one did not have the start of the file. -/
theorem Reading.segment (hr : Reading r k hs g) (h : r.WellFormed) (hbuf : m ≤ uipBufsize)
    (hm : k + m ≤ r.bytes.length) (hcut : cut k m) :
    ∃ res, appcall site (Arrival.segment (slice r.bytes k m) stale mss ok).event hs g = res ∧ Kept hs g res ∧
      (GivenUp res ∨ Goes r cut (k + m) res) := by
  obtain ⟨ev, hev⟩ : ∃ ev, ev = (Arrival.segment (slice r.bytes k m) stale mss ok).event := ⟨_, rfl⟩
  have hdata : ev.data = slice r.bytes k m := by rw [hev]; rfl
  have hstate := hr.state_eq
  have hnot := hr.not_found
  have hcall : appcall site ev hs g = continueUpload site ev hs g := by
    rw [hev]
    simp [appcall, Arrival.event, hstate]
  rw [← hev, hcall]
  refine ⟨_, rfl, ?_⟩
  obtain ⟨hshort, hlt⟩ := r.short hr.large hr.le_bufsize hbuf
  by_cases hin : k ≤ r.header.length ∧ r.fileStart ≤ k + m
  · obtain ⟨hs2, g2, hfound, hstoring, hkept⟩ := findAndStore_storing hs g h hm hdata hr.boundary_eq hr.total_eq
      hr.pointer_eq hstate hr.not_failed hin.1 hin.2 hlt hcut
    have hrun : continueUpload site ev hs g = ⟨hs2, { g2 with dataStartFound := true }, .none⟩ := by
      simp [continueUpload, hnot, hfound]
    rw [hrun]
    exact ⟨hkept, Or.inr ⟨rfl, Or.inr hstoring⟩⟩
  · obtain ⟨type, hmissed⟩ := findAndStore_missed hs g h hm hdata hr.boundary_eq (by omega) hshort
    have hrun : continueUpload site ev hs g = resetAnd .abort hs { g with upgradeType := type } := by
      simp [continueUpload, hnot, hmissed]
    rw [hrun]
    exact ⟨⟨rfl, rfl, rfl⟩, Or.inl ⟨rfl, rfl, hr.not_failed⟩⟩

/-- A segment is stored behind the one before. -/
theorem Storing.store (hst : Storing r cut k hs g) (hm : k + m ≤ r.bytes.length) {g1 : Globals}
    (hg1 : g1 = if g.uploadFailed then g else { g with
      mem := g.mem.write g.dataPointer (slice r.bytes k m)
      dataPointer := g.dataPointer + m }) :
    (∃ mem dataPointer, g1 = { g with mem := mem, dataPointer := dataPointer }) ∧
      (g1.uploadFailed = false → Stored r (k + m) g1) := by
  by_cases hfail : g.uploadFailed = true
  · rw [if_pos hfail] at hg1
    subst hg1
    exact ⟨⟨_, _, rfl⟩, fun hno => by rw [hfail] at hno; cases hno⟩
  · rw [if_neg hfail] at hg1
    subst hg1
    refine ⟨⟨_, _, rfl⟩, fun hno => ?_⟩
    obtain ⟨hptr, hmem⟩ := hst.stored hno
    have hle := hst.le
    have hlen : (slice r.bytes k m).length = m := slice_length hm
    simp only [Stored, hptr]
    refine ⟨by omega, ?_⟩
    intro i hi
    by_cases hold : i < k - r.fileStart
    · rw [Mem.write_of_lt (by omega)]
      exact hmem i hold
    · obtain ⟨j, rfl⟩ : ∃ j, i = k - r.fileStart + j := ⟨i - (k - r.fileStart), by omega⟩
      rw [← Nat.add_assoc, Mem.write_of_mem (by omega), slice_getD (by omega),
        show r.fileStart + (k - r.fileStart + j) = k + j by omega]

/-- The request is complete when as many bytes have arrived as the size and the delimiter tell. -/
theorem Storing.complete_iff (hst : Storing r cut k hs g) (hlen : r.body.length < 2 ^ 31) (hm : k + m ≤ r.bytes.length) :
    (r.file.length + r.delimiter.length + 6) % wordSize ≤ (k - r.fileStart + m) % wordSize ↔
      k + m = r.bytes.length := by
  have hb := r.body_length
  have hl := r.bytes_length
  have hle := hst.le
  have hw : wordSize = 2 ^ 32 := rfl
  rw [Nat.mod_eq_of_lt (by omega), Nat.mod_eq_of_lt (by omega)]
  omega

theorem appcall_storing (hst : Storing r cut k hs g) :
    appcall site (Arrival.segment (slice r.bytes k m) stale mss ok).event hs g =
      continueUpload site (Arrival.segment (slice r.bytes k m) stale mss ok).event hs g := by
  have hstate := hst.state_eq
  simp [appcall, Arrival.event, hstate]

/-- A later segment that does not end the request. -/
theorem Storing.segment (hst : Storing r cut k hs g) (hlen : r.body.length < 2 ^ 31) (hm : k + m < r.bytes.length) :
    ∃ res, appcall site (Arrival.segment (slice r.bytes k m) stale mss ok).event hs g = res ∧ Kept hs g res ∧
      res.g.uploadFailed = g.uploadFailed ∧ res.reply = .none ∧ Storing r cut (k + m) res.hs res.g := by
  obtain ⟨g1, hg1⟩ : ∃ g1, g1 = if g.uploadFailed then g else { g with
    mem := g.mem.write g.dataPointer (slice r.bytes k m)
    dataPointer := g.dataPointer + m } := ⟨_, rfl⟩
  obtain ⟨⟨mem, ptr, hsame⟩, hstored⟩ := hst.store hm.le hg1
  have hdl : (slice r.bytes k m).length = m := slice_length hm.le
  have hmore : ¬ (r.file.length + r.delimiter.length + 6) % wordSize ≤ (k - r.fileStart + m) % wordSize :=
    fun hc => Nat.ne_of_lt hm ((hst.complete_iff hlen hm.le).mp hc)
  have hup : (k - r.fileStart + m) % wordSize = k + m - r.fileStart := by
    have hb := r.body_length
    have hl := r.bytes_length
    have hle := hst.le
    have hw : wordSize = 2 ^ 32 := rfl
    rw [Nat.mod_eq_of_lt (by omega)]
    omega
  have hfound := hst.found
  have hb1 : g1.boundaryValue = some r.delimiter := by rw [hsame]; exact hst.boundary_eq
  have hrun : continueUpload site (Arrival.segment (slice r.bytes k m) stale mss ok).event hs g =
      ⟨{ hs with upload := k + m - r.fileStart }, g1, .none⟩ := by
    rw [continueUpload, if_pos hfound]
    simp only [Arrival.event, hdl, hst.upload_eq, hst.total_eq]
    rw [← hg1]
    simp only [hb1, Option.getD_some]
    rw [if_neg hmore, hup]
  rw [appcall_storing hst, hrun]
  refine ⟨_, rfl, ?_, by rw [hsame], rfl, ?_⟩
  · rw [hsame]
    exact ⟨rfl, rfl, rfl⟩
  · refine ⟨hst.state_eq, hst.total_eq, rfl, ?_, hb1, ?_, ?_, hst.le.trans (Nat.le_add_right k m), hm, hstored⟩
    · rw [hsame]; exact hfound
    · rw [hsame]; exact hst.type_eq
    · rw [hsame]; exact hst.failed_eq

/-- The last segment. -/
theorem Storing.last_segment (hst : Storing r cut k hs g) (hlen : r.body.length < 2 ^ 31) (hm : k + m = r.bytes.length) :
    ∃ res, appcall site (Arrival.segment (slice r.bytes k m) stale mss ok).event hs g = res ∧
      res.hs.isMacrwResp = hs.isMacrwResp ∧ res.g.readyForUpgrade = g.readyForUpgrade ∧
      res.g.uploadFailed = g.uploadFailed ∧ (∃ len, res.reply = .send len) ∧ res.hs.state = .fileRequest ∧ Finished r cut res.g := by
  obtain ⟨g1, hg1⟩ : ∃ g1, g1 = if g.uploadFailed then g else { g with
    mem := g.mem.write g.dataPointer (slice r.bytes k m)
    dataPointer := g.dataPointer + m } := ⟨_, rfl⟩
  obtain ⟨⟨mem, ptr, hsame⟩, hstored⟩ := hst.store hm.le hg1
  have hdl : (slice r.bytes k m).length = m := slice_length hm.le
  have hdone := (hst.complete_iff hlen hm.le).mpr hm
  have hfound := hst.found
  have hb1 : g1.boundaryValue = some r.delimiter := by rw [hsame]; exact hst.boundary_eq
  obtain ⟨res, hres⟩ : ∃ res, res = continueUpload site (Arrival.segment (slice r.bytes k m) stale mss ok).event hs g :=
    ⟨_, rfl⟩
  have hrun : ∃ len page, res = ⟨{ hs with state := .fileRequest, count := 0, upload := page, uploadTotal := 0 },
      { g1 with
        postDone := true, netBootFileXferSize := r.file.length, dataStartFound := false, boundaryValue := none },
      .send len⟩ := by
    rw [hres, continueUpload, if_pos hfound]
    simp only [Arrival.event, hdl, hst.upload_eq, hst.total_eq]
    rw [← hg1]
    simp only [hb1, Option.getD_some]
    rw [if_pos hdone]
    exact ⟨_, _, rfl⟩
  obtain ⟨len, page, hrun⟩ := hrun
  rw [appcall_storing hst, ← hres, hrun]
  refine ⟨_, rfl, rfl, by rw [hsame], by rw [hsame], ⟨len, rfl⟩, rfl, rfl, rfl, by rw [hsame]; exact hst.type_eq,
    by rw [hsame]; exact hst.failed_eq, ?_⟩
  intro hfail
  obtain ⟨-, hmem⟩ := hstored hfail
  apply Mem.read_eq_iff.mpr
  intro i hi
  have hbl := r.bytes_length
  rw [hmem i (by omega)]
  have hfile : slice r.bytes r.fileStart r.file.length = r.file := r.slice_file
  rw [← hfile, slice_getD hi]

end

end Uboot.Httpd
