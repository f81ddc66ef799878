import Uboot.Httpd.Quiet

/-!
# What triggers an upgrade

One connection follows another, each in one of uIP's slots. Beside the server stands an observer who notes of the last
upload that was begun what its header tells and what was received of its file. When `webfailsafe_ready_for_upgrade` is
set, the image, its size and its type should be those of this upload.
-/

namespace Uboot.Httpd

open Uboot.Lib

/-- The slots of the connections, the one that is used, and the reply to its last event. -/
structure Server where
  slots : Nat → HttpdState
  slot : Nat
  g : Globals
  reply : Reply

/-- A connection is opened in a slot, when no other one is open any more, or an event of it arrives. -/
inductive ServerAct where
  | open (slot : Nat)
  | event (ev : Event)

/-- The state of the connection. -/
def Server.hs (s : Server) : HttpdState := s.slots s.slot

def Server.step (site : Site) (s : Server) : ServerAct → Server
  | .open slot =>
      let r := connect site (s.slots slot) s.g
      ⟨Function.update s.slots slot r.hs, slot, r.g, r.reply⟩
  | .event ev =>
      if s.reply.ends then s
      else
        let r := appcall site ev s.hs s.g
        { s with slots := Function.update s.slots s.slot r.hs, g := r.g, reply := r.reply }

/-! ## The observer -/

/-- Where the file of an upload begins: its type, the length of what stands from the boundary up to the file, and the
position of the file in the segment. -/
def fileStart (boundary : List UInt8) (ev : Event) : Option (UpgradeType × Nat × Nat) :=
  match strstr ev.text boundary with
  | none => none
  | some start =>
      match fieldType (ev.text.drop start), strstr (ev.text.drop start) eol2 with
      | some type, some n => if start + n < ev.data.length then some (type, n + 4, start + n + 4) else none
      | _, _ => none

/-- An upload: its boundary and length as its header tells them, the type and the size of the file, and what was
received from the start of the file on. -/
structure Upload where
  boundary : List UInt8
  announced : Nat
  file : Option (UpgradeType × Nat)
  bytes : List UInt8

/-- The start of the file is looked for. -/
def Upload.look (u : Upload) (ev : Event) : Upload :=
  match fileStart u.boundary ev with
  | none => u
  | some (type, head, pos) =>
      { u with file := some (type, u.announced - head - u.boundary.length - 6), bytes := ev.data.drop pos }

/-- What the header of the first segment tells. The length is taken from the segment only, not from what is left behind
it in the buffer. -/
def Upload.header (ev : Event) : Upload :=
  let length := (strstr ev.text contentLength).getD 0 + contentLength.length + 1
  let boundary := ev.text.drop ((strstr ev.text boundaryEq).getD 0 + boundaryEq.length)
  ⟨ascii "--" ++ boundary.take ((strstr boundary eol).getD 0), atoi (ev.data.drop length), none, []⟩

/-- A later segment. -/
def Upload.more (u : Upload) (ev : Event) : Upload :=
  if u.file.isSome then { u with bytes := u.bytes ++ ev.data } else u.look ev

/-- The whole file was received, and what follows it. -/
def Upload.Full (u : Upload) (type : UpgradeType) (size : Nat) : Prop :=
  u.file = some (type, size) ∧ size + u.boundary.length + 6 ≤ u.bytes.length

/-- The whole file was received, and its size is right for its type. -/
def Upload.Good (u : Upload) : Prop := ∃ type size, u.Full type size ∧ sizeError type size = false

/-- The file is in memory, with its size and its type. -/
def Upload.Stored (u : Upload) (g : Globals) : Prop :=
  ∃ type size, u.Full type size ∧ sizeError type size = false ∧ g.upgradeType = type ∧
    g.netBootFileXferSize = size ∧ g.mem.read uploadRamAddress size = u.bytes.take size

/-- The server, the last upload that was begun, and whether the connection is the one that began it. -/
structure Watched where
  server : Server
  last : Option Upload
  own : Bool

/-- The first segment of an upload. -/
def Watched.begins (w : Watched) (ev : Event) : Bool :=
  !w.server.reply.ends && ev.brings && w.server.hs.state = .none && ev.beginsUpload

/-- A later segment of the last upload. -/
def Watched.continues (w : Watched) (ev : Event) : Bool :=
  !w.server.reply.ends && w.own && ev.brings && w.server.hs.state = .uploadRequest && !ev.acked && !ev.rexmit

def Watched.step (site : Site) (w : Watched) (act : ServerAct) : Watched :=
  let server := w.server.step site act
  match act with
  | .open _ => ⟨server, w.last, false⟩
  | .event ev =>
      ⟨server,
        if w.begins ev then some ((Upload.header ev).look ev)
        else if w.continues ev then w.last.map (·.more ev) else w.last,
        (w.begins ev || w.own) && server.hs.state ≠ .none⟩

def Watched.run (site : Site) (w : Watched) (acts : List ServerAct) : Watched := acts.foldl (Watched.step site) w

/-- The last part of a page is acknowledged. -/
def Server.acksPage (s : Server) : ServerAct → Bool
  | .open _ => false
  | .event ev => !s.reply.ends && s.hs.state = .fileRequest && s.hs.upload ≤ ev.mss && ev.acked &&
      !(ev.closed || ev.aborted || ev.timedout || ev.poll || ev.connected)

/-- The upgrade is triggered only with the last upload, whole and accepted, and by the acknowledgement of the page that
answers it. -/
structure Watched.Right (w : Watched) (act : ServerAct) (w' : Watched) : Prop where
  only : w.server.g.readyForUpgrade = false → w'.server.g.readyForUpgrade = true →
    ∃ u ∈ w.last, u.Stored w'.server.g
  always : w.own = true → (∃ u ∈ w.last, u.Good) → w.server.acksPage act = true →
    w'.server.g.readyForUpgrade = true

/-- An upload begins with the flags of the earlier ones cleared, its first segment does not end before the length, and
no command loads the ART partition while `webfailsafe_post_done` is set. -/
def Watched.Sound (w : Watched) : ServerAct → Prop
  | .open _ => True
  | .event ev =>
      (w.begins ev = true → w.server.g.postDone = false ∧ w.server.g.uploadFailed = false ∧
        w.server.hs.isMacrwResp = false ∧ ¬ contentLength <:+ ev.data) ∧
      (w.server.reply.ends = false → w.server.g.postDone = true → ev.loadsArt w.server.hs = false)

/-- Every step of a run is sound. -/
def Watched.SoundRun (site : Site) : Watched → List ServerAct → Prop
  | _, [] => True
  | w, act :: acts => w.Sound act ∧ Watched.SoundRun site (w.step site act) acts

/-- A segment fits in the buffer. -/
def ServerAct.Ok : ServerAct → Prop
  | .open _ => True
  | .event ev => ev.data.length ≤ uipBufsize

/-! ## What is found in a segment -/

section
variable {ev : Event} {pat : List UInt8} {i k : Nat}

theorem atoi_lt (s : List UInt8) : atoi s < wordSize := by
  have hfold : ∀ (cs : List UInt8) (i : Nat), i < wordSize →
      cs.foldl (fun i c => (i * 10 + (c.toNat - 48)) % wordSize) i < wordSize := by
    intro cs
    induction cs with
    | nil => intro i hi; exact hi
    | cons c cs ih =>
        intro i hi
        exact ih _ (Nat.mod_lt _ (by decide))
  exact hfold _ 0 (by decide)

/-- What is found lies in the segment. -/
theorem Event.strstr_le (hk : k ≤ ev.data.length) (h : strstr (ev.text.drop k) pat = some i) :
    k + i + pat.length ≤ ev.data.length := by
  have hle := find_le h
  rw [Event.text, List.drop_append_of_le_length hk, cstr_append_nul] at hle
  have hcstr : (cstr (ev.data.drop k)).length ≤ (ev.data.drop k).length := (List.takeWhile_prefix _).length_le
  rw [List.length_drop] at hcstr
  omega

theorem atoi_closed (xs ys : List UInt8) : atoi (xs ++ 0 :: ys) = atoi xs := by
  have htake : (xs ++ 0 :: ys).takeWhile isDigit = xs.takeWhile isDigit := by
    induction xs with
    | nil => rfl
    | cons x xs ih => rw [List.cons_append, List.takeWhile_cons, List.takeWhile_cons, ih]
  rw [atoi, atoi, htake]

/-- The length is behind `Content-Length:` and one more byte, which is in the segment. -/
theorem Event.length_eq (hend : ¬ contentLength <:+ ev.data) (h : strstr ev.text contentLength = some i) :
    atoi (ev.text.drop (i + contentLength.length + 1)) = atoi (ev.data.drop (i + contentLength.length + 1)) := by
  have hle : 0 + i + contentLength.length ≤ ev.data.length := Event.strstr_le (Nat.zero_le _) h
  have hpre : contentLength <+: ev.text.drop i := prefix_of_cstr (pat_isPrefix_drop h)
  have hlt : i + contentLength.length < ev.data.length := by
    refine Nat.lt_of_le_of_ne (by omega) fun heq => hend ?_
    rw [Event.text, List.drop_append_of_le_length (by omega)] at hpre
    have hdata : contentLength <+: ev.data.drop i := by
      refine List.prefix_of_prefix_length_le hpre (List.prefix_append _ _) ?_
      rw [List.length_drop]
      omega
    have hsame : contentLength = ev.data.drop i := hdata.eq_of_length (by rw [List.length_drop]; omega)
    rw [hsame]
    exact List.drop_suffix i ev.data
  rw [Event.text, List.drop_append_of_le_length hlt]
  exact atoi_closed _ _

/-- The first segment of an upload. -/
theorem beginUpload_opens (h : ev.opensUpload = true) (hend : ¬ contentLength <:+ ev.data) :
    10240 ≤ (Upload.header ev).announced ∧ (Upload.header ev).announced < wordSize ∧
      (Upload.header ev).boundary.length ≤ ev.data.length ∧
      ∀ hs g, ∃ r, r = findAndStoreFirstChunk ev { hs with uploadTotal := (Upload.header ev).announced }
          { g with boundaryValue := some (Upload.header ev).boundary, dataPointer := uploadRamAddress } ∧
        beginUpload ev hs g = ⟨r.1, { r.2.1 with dataStartFound := r.2.2 }, .none⟩ := by
  rw [Event.opensUpload] at h
  split at h
  next start start' hstart hstart' =>
    simp only [Bool.and_eq_true, decide_eq_true_eq, Option.isSome_iff_exists] at h
    obtain ⟨⟨⟨⟨e, heol⟩, htotal⟩, ⟨n, hn⟩⟩, hok⟩ := h
    have hheader : Upload.header ev = ⟨ascii "--" ++ (ev.text.drop (start' + boundaryEq.length)).take n,
        atoi (ev.text.drop (start + contentLength.length + 1)), none, []⟩ := by
      simp only [Upload.header, hstart, hstart', Option.getD_some, hn, Event.length_eq hend hstart]
    have hs' : 0 + start' + boundaryEq.length ≤ ev.data.length := Event.strstr_le (Nat.zero_le _) hstart'
    rw [Nat.zero_add] at hs'
    have hn' := Event.strstr_le hs' hn
    rw [hheader]
    refine ⟨htotal, ?_, ?_, ?_⟩
    · exact atoi_lt _
    · have hb : boundaryEq.length = 9 := rfl
      have ha : (ascii "--").length = 2 := rfl
      have htake := List.length_take_le n (ev.text.drop (start' + boundaryEq.length))
      rw [List.length_append, ha]
      omega
    · intro hs g
      refine ⟨_, rfl, ?_⟩
      rw [beginUpload, hstart]
      dsimp only
      rw [heol]
      dsimp only
      rw [if_neg (Nat.not_lt.mpr htotal), hstart']
      dsimp only
      rw [hn, hok]
      rfl
  next => cases h

end

section
variable {site : Site} {ev : Event} {hs : HttpdState} {g : Globals} {u : Upload}

theorem fileStart_le {boundary : List UInt8} {type : UpgradeType} {head pos : Nat}
    (h : fileStart boundary ev = some (type, head, pos)) : head ≤ pos ∧ pos ≤ ev.data.length := by
  rw [fileStart] at h
  split at h
  next => cases h
  next start hstart =>
    split at h
    next type' n htype hn =>
      split at h
      next hlt =>
        cases h
        have hle : 0 + start + boundary.length ≤ ev.data.length := Event.strstr_le (Nat.zero_le _) hstart
        have hn' := Event.strstr_le (k := start) (by omega) hn
        have he : eol2.length = 4 := rfl
        omega
      next => cases h
    next => cases h

/-- The start of the file is found where the observer finds it. -/
theorem findAndStore_some {boundary : List UInt8} {type : UpgradeType} {head pos : Nat}
    (hb : g.boundaryValue = some boundary) (h : fileStart boundary ev = some (type, head, pos)) :
    findAndStoreFirstChunk ev hs g =
      ({ hs with
          uploadTotal := (hs.uploadTotal + 3 * wordSize - head - boundary.length - 6) % wordSize
          upload := (ev.data.drop pos).length },
        { g with
          upgradeType := type
          uploadFailed := g.uploadFailed ||
            sizeError type ((hs.uploadTotal + 3 * wordSize - head - boundary.length - 6) % wordSize)
          mem := g.mem.write g.dataPointer (ev.data.drop pos)
          dataPointer := g.dataPointer + (ev.data.drop pos).length }, true) := by
  have hpos := (fileStart_le h).2
  rw [fileStart] at h
  split at h
  next => cases h
  next start hstart =>
    split at h
    next type' n htype hn =>
      split at h
      next hlt =>
        cases h
        have htake : (ev.text.drop (start + n + 4)).take (ev.data.length - (start + n + 4)) =
            ev.data.drop (start + n + 4) := by
          rw [Event.text, List.drop_append_of_le_length hpos]
          exact List.take_left' (List.length_drop ..)
        simp only [findAndStoreFirstChunk, hb, hstart, htype, hn, hlt, if_true, htake, List.length_drop]
      next => cases h
    next => cases h

/-- It is not found where the observer does not find it. -/
theorem findAndStore_none {boundary : List UInt8} (hb : g.boundaryValue = some boundary)
    (h : fileStart boundary ev = none) :
    ∃ type, findAndStoreFirstChunk ev hs g = (hs, { g with upgradeType := type }, false) := by
  rw [fileStart] at h
  split at h
  next hstart => exact ⟨g.upgradeType, by simp only [findAndStoreFirstChunk, hb, hstart]; rw [← hb]⟩
  next start hstart =>
    split at h
    next type n htype hn =>
      split at h
      next => cases h
      next hlt => exact ⟨type, by simp only [findAndStoreFirstChunk, hb, hstart, htype, hn, if_neg hlt]⟩
    next hnone =>
      cases htype : fieldType (ev.text.drop start) with
      | none => exact ⟨g.upgradeType, by simp only [findAndStoreFirstChunk, hb, hstart, htype]; rw [← hb]⟩
      | some type =>
          cases hn : strstr (ev.text.drop start) eol2 with
          | none => exact ⟨type, by simp only [findAndStoreFirstChunk, hb, hstart, htype, hn]⟩
          | some n => exact absurd hn (hnone type n htype)

/-! ## While an upload is received -/

/-- The start of the file has not arrived. -/
structure Awaits (u : Upload) (hs : HttpdState) (g : Globals) : Prop where
  state_eq : hs.state = .uploadRequest
  not_macrw : hs.isMacrwResp = false
  not_done : g.postDone = false
  boundary_eq : g.boundaryValue = some u.boundary
  not_found : g.dataStartFound = false
  not_failed : g.uploadFailed = false
  pointer_eq : g.dataPointer = uploadRamAddress
  total_eq : hs.uploadTotal = u.announced
  file_eq : u.file = none
  large : 10240 ≤ u.announced
  small : u.announced < wordSize
  boundary_le : u.boundary.length ≤ uipBufsize

/-- The file arrives. -/
structure Fills (u : Upload) (type : UpgradeType) (size : Nat) (hs : HttpdState) (g : Globals) : Prop where
  state_eq : hs.state = .uploadRequest
  not_macrw : hs.isMacrwResp = false
  not_done : g.postDone = false
  boundary_eq : g.boundaryValue = some u.boundary
  found : g.dataStartFound = true
  file_eq : u.file = some (type, size)
  type_eq : g.upgradeType = type
  failed_eq : g.uploadFailed = sizeError type size
  total_eq : hs.uploadTotal = size
  upload_le : hs.upload ≤ u.bytes.length
  small : size + u.boundary.length + 6 < wordSize
  stored : g.uploadFailed = false → g.dataPointer = uploadRamAddress + u.bytes.length ∧
    g.mem.Holds uploadRamAddress u.bytes

/-- The whole file has arrived, and the globals tell of it. -/
structure Completed (u : Upload) (type : UpgradeType) (size : Nat) (g : Globals) : Prop where
  full : u.Full type size
  type_eq : g.upgradeType = type
  size_eq : g.netBootFileXferSize = size
  failed_eq : g.uploadFailed = sizeError type size
  stored : g.uploadFailed = false → g.mem.Holds uploadRamAddress u.bytes

/-- The start of the file is looked for in a segment. -/
theorem Awaits.look (h : Awaits u hs g) (hlen : ev.data.length ≤ uipBufsize) :
    ∃ hs' g' found, findAndStoreFirstChunk ev hs g = (hs', g', found) ∧ g'.readyForUpgrade = g.readyForUpgrade ∧
      (found = true ∧ (∃ type size, Fills (u.look ev) type size hs' { g' with dataStartFound := true }) ∨
        found = false ∧ hs' = hs ∧ u.look ev = u ∧ ∃ type, g' = { g with upgradeType := type }) := by
  cases hstart : fileStart u.boundary ev with
  | none =>
      obtain ⟨type, hrun⟩ := @findAndStore_none ev hs g _ h.boundary_eq hstart
      refine ⟨_, _, _, hrun, rfl, .inr ⟨rfl, rfl, ?_, type, rfl⟩⟩
      rw [Upload.look, hstart]
  | some found =>
      obtain ⟨type, head, pos⟩ := found
      obtain ⟨hhead, hpos⟩ := fileStart_le hstart
      have hsize : (hs.uploadTotal + 3 * wordSize - head - u.boundary.length - 6) % wordSize =
          u.announced - head - u.boundary.length - 6 := by
        have hlarge := h.large
        have hsmall := h.small
        have hb := h.boundary_le
        simp only [uipBufsize] at hb hlen
        simp only [h.total_eq, wordSize] at hsmall ⊢
        omega
      have hlook : u.look ev =
          { u with file := some (type, u.announced - head - u.boundary.length - 6), bytes := ev.data.drop pos } := by
        rw [Upload.look, hstart]
      refine ⟨_, _, _, findAndStore_some h.boundary_eq hstart, rfl, .inl ⟨rfl, type, u.announced - head - u.boundary.length - 6, ?_⟩⟩
      rw [hlook, hsize]
      refine ⟨h.state_eq, h.not_macrw, h.not_done, h.boundary_eq, rfl, rfl, rfl, ?_, rfl, le_refl _, ?_, ?_⟩
      · change (g.uploadFailed || _) = _
        rw [h.not_failed, Bool.false_or]
      · have hsmall := h.small
        have hlarge := h.large
        have hb := h.boundary_le
        simp only [uipBufsize] at hb hlen
        change u.announced - head - u.boundary.length - 6 + u.boundary.length + 6 < wordSize
        omega
      · intro _
        rw [h.pointer_eq]
        exact ⟨rfl, Mem.holds_write⟩

/-- A segment of the file. -/
theorem Fills.continue {type : UpgradeType} {size : Nat} (h : Fills u type size hs g) (site : Site) :
    (continueUpload site ev hs g).g.readyForUpgrade = g.readyForUpgrade ∧
      (continueUpload site ev hs g).hs.isMacrwResp = false ∧
      (Fills (u.more ev) type size (continueUpload site ev hs g).hs (continueUpload site ev hs g).g ∨
        (continueUpload site ev hs g).hs.state = .fileRequest ∧ (continueUpload site ev hs g).g.postDone = true ∧
          Completed (u.more ev) type size (continueUpload site ev hs g).g) := by
  have hmore : u.more ev = { u with bytes := u.bytes ++ ev.data } := by
    rw [Upload.more, h.file_eq]
    rfl
  obtain ⟨g1, hg1⟩ : ∃ g1, g1 = if g.uploadFailed then g else { g with
      mem := g.mem.write g.dataPointer ev.data
      dataPointer := g.dataPointer + ev.data.length } := ⟨_, rfl⟩
  have hsame : ∃ mem pointer, g1 = { g with mem := mem, dataPointer := pointer } := by
    rw [hg1]
    split
    next => exact ⟨_, _, rfl⟩
    next => exact ⟨_, _, rfl⟩
  have hstored : g1.uploadFailed = false → g1.dataPointer = uploadRamAddress + (u.bytes ++ ev.data).length ∧
      g1.mem.Holds uploadRamAddress (u.bytes ++ ev.data) := by
    intro hno
    have hfail : g.uploadFailed = false := by
      obtain ⟨mem, pointer, he⟩ := hsame
      rw [he] at hno
      exact hno
    obtain ⟨hptr, hmem⟩ := h.stored hfail
    rw [hg1, hfail]
    refine ⟨?_, ?_⟩
    · change g.dataPointer + ev.data.length = _
      rw [hptr, List.length_append, Nat.add_assoc]
    · change (g.mem.write g.dataPointer ev.data).Holds _ _
      rw [hptr, Mem.holds_append]
      exact ⟨hmem.write (.inr (le_refl _)), Mem.holds_write⟩
  have hlen : (hs.upload + ev.data.length) % wordSize ≤ (u.bytes ++ ev.data).length := by
    have hle := h.upload_le
    rw [List.length_append]
    exact (Nat.mod_le _ _).trans (by omega)
  obtain ⟨mem, pointer, rfl⟩ := hsame
  have hboundary : (g.boundaryValue.getD []).length = u.boundary.length := by rw [h.boundary_eq]; rfl
  have htotal : (hs.uploadTotal + (g.boundaryValue.getD []).length + 6) % wordSize = size + u.boundary.length + 6 := by
    rw [h.total_eq, hboundary]
    exact Nat.mod_eq_of_lt h.small
  rw [continueUpload, if_pos h.found, hmore]
  dsimp only
  rw [← hg1]
  dsimp only
  rw [htotal]
  by_cases hall : size + u.boundary.length + 6 ≤ (hs.upload + ev.data.length) % wordSize
  · rw [if_pos hall]
    refine ⟨rfl, h.not_macrw, .inr ⟨rfl, rfl, ?_⟩⟩
    exact ⟨⟨h.file_eq, hall.trans hlen⟩, h.type_eq, h.total_eq, h.failed_eq, fun hno => (hstored hno).2⟩
  · rw [if_neg hall]
    refine ⟨rfl, h.not_macrw, .inl ?_⟩
    exact ⟨h.state_eq, h.not_macrw, h.not_done, h.boundary_eq, h.found, h.file_eq, h.type_eq, h.failed_eq, h.total_eq,
      hlen, h.small, hstored⟩

end

end Uboot.Httpd
