import Uboot.Httpd.Upload

/-!
# An upload on one connection

However the request is cut, the connection is aborted, or the upload is marked as failed, or the file is in memory
when the request is complete. Two cuts of the header are excluded: a first segment that becomes a command together
with what is left in the buffer, and one that ends with `Content-Length:`.
-/

namespace Uboot.Httpd

open Uboot.Lib

/-- The connection is over after this reply. -/
def Reply.ends : Reply → Bool
  | .close | .abort | .reset | .crash => true
  | .none | .send _ => false

/-- The next event of a connection. -/
def Result.step (site : Site) (c : Result) (ev : Event) : Result :=
  if c.reply.ends then c else appcall site ev c.hs c.g

/-- A connection is opened. -/
def connect (site : Site) (hs : HttpdState) (g : Globals) : Result := appcall site { connected := true } hs g

def Result.run (site : Site) (c : Result) (as : List Arrival) : Result :=
  as.foldl (fun c a => c.step site a.event) c

/-- The bytes that arrive. -/
def received (as : List Arrival) : List UInt8 := as.flatMap Arrival.data

/-- A segment has data and fits in the buffer. -/
def Arrival.Ok : Arrival → Prop
  | .segment data _ _ _ => 0 < data.length ∧ data.length ≤ uipBufsize
  | .poll => True

/-- The first segment that arrives, and what follows it in the buffer. -/
def firstSegment : List Arrival → Option (List UInt8 × List UInt8)
  | [] => none
  | .segment data stale _ _ :: _ => some (data, stale)
  | .poll :: as => firstSegment as

/-- The segment does not become a command together with what follows it, and does not end before the length. -/
def CleanStart (data stale : List UInt8) : Prop :=
  ¬ Request.IsCommand (data ++ stale) ∧ ¬ contentLength <:+ data

/-- The request may be cut anywhere. -/
def AnyCut : Nat → Nat → Prop := fun _ _ => True

theorem AnyCut.all (k m : Nat) : AnyCut k m := trivial

/-- The connection after `k` bytes of the request; `done` is the old `webfailsafe_post_done`. -/
inductive ConnInv (r : Request) (done : Bool) (k : Nat) (c : Result) : Prop where
  | gone (reply_eq : c.reply = .abort) (done_eq : k < r.bytes.length → c.g.postDone = done)
  | idle (zero : k = 0) (reply_eq : c.reply = .none) (state_eq : c.hs.state = .none)
      (not_failed : c.g.uploadFailed = false) (done_eq : c.g.postDone = done)
  | goes (upload : Goes r AnyCut k c) (done_eq : c.g.postDone = done)
  | finished (all : k = r.bytes.length) (open_ : c.reply.ends = false) (state_eq : c.hs.state = .fileRequest)
      (fin : Finished r AnyCut c.g)

section
variable {r : Request} {cut : Nat → Nat → Prop} {site : Site} {done : Bool} {k : Nat} {c : Result}

theorem slice_of_prefix {xs data : List UInt8} (h : data <+: xs.drop k) : data = slice xs k data.length :=
  List.prefix_iff_eq_take.mp h

theorem Result.step_open (h : c.reply.ends = false) (ev : Event) : c.step site ev = appcall site ev c.hs c.g := by
  rw [Result.step, h]
  rfl

/-- A poll changes the counter, or aborts the connection. -/
theorem appcall_poll (site : Site) (hs : HttpdState) (g : Globals) :
    (∃ count, appcall site Arrival.poll.event hs g = ⟨{ hs with count := count }, g, .none⟩) ∨
      ∃ count, appcall site Arrival.poll.event hs g = resetAnd .abort { hs with count := count } g := by
  by_cases hcount : 3000 ≤ hs.count
  · exact Or.inr ⟨(hs.count + 1) % 65536, by simp [appcall, Arrival.event, hcount]⟩
  · exact Or.inl ⟨(hs.count + 1) % 65536, by simp [appcall, Arrival.event, hcount]⟩

theorem Goes.count (h : Goes r cut k c) (count : Nat) : Goes r cut k ⟨{ c.hs with count := count }, c.g, .none⟩ := by
  refine ⟨rfl, ?_⟩
  rcases h.phase with hr | hst
  · exact Or.inl ⟨hr.state_eq, hr.total_eq, hr.not_found, hr.boundary_eq, hr.pointer_eq, hr.not_failed, hr.pos,
      hr.le_bufsize, hr.large, hr.delimiter_le⟩
  · exact Or.inr ⟨hst.state_eq, hst.total_eq, hst.upload_eq, hst.found, hst.boundary_eq, hst.type_eq,
      hst.failed_eq, hst.le, hst.lt, hst.stored⟩

theorem ConnInv.poll (h : ConnInv r done k c) : ConnInv r done k (c.step site Arrival.poll.event) := by
  cases h with
  | gone reply_eq done_eq =>
      rw [Result.step, reply_eq]
      exact .gone reply_eq done_eq
  | idle zero reply_eq state_eq not_failed done_eq =>
      rw [Result.step_open (by rw [reply_eq]; rfl)]
      rcases appcall_poll site c.hs c.g with ⟨n, hn⟩ | ⟨n, hn⟩ <;> rw [hn]
      · exact .idle zero rfl state_eq not_failed done_eq
      · exact .gone rfl fun _ => done_eq
  | goes upload done_eq =>
      rw [Result.step_open (by rw [upload.reply_eq]; rfl)]
      rcases appcall_poll site c.hs c.g with ⟨n, hn⟩ | ⟨n, hn⟩ <;> rw [hn]
      · exact .goes (upload.count n) done_eq
      · exact .gone rfl fun _ => done_eq
  | finished all open_ state_eq fin =>
      rw [Result.step_open open_]
      rcases appcall_poll site c.hs c.g with ⟨n, hn⟩ | ⟨n, hn⟩ <;> rw [hn]
      · exact .finished all rfl state_eq fin
      · exact .gone rfl fun hlt => absurd all (Nat.ne_of_lt hlt)

/-- The next segment of the request. -/
theorem ConnInv.segment (h : ConnInv r done k c) (hwf : r.WellFormed) {data stale : List UInt8} {mss : Nat} {ok : Bool}
    (hpre : data <+: r.bytes.drop k) (hpos : 0 < data.length) (hbuf : data.length ≤ uipBufsize)
    (hclean : k = 0 → CleanStart data stale) :
    ConnInv r done (k + data.length) (c.step site (Arrival.segment data stale mss ok).event) := by
  have hle : k + data.length ≤ r.bytes.length := by
    have hl := hpre.length_le
    rw [List.length_drop] at hl
    omega
  obtain ⟨m, hm⟩ : ∃ m, m = data.length := ⟨_, rfl⟩
  have hdata : data = slice r.bytes k m := hm ▸ slice_of_prefix hpre
  rw [← hm] at hle hpos hbuf ⊢
  cases h with
  | gone reply_eq done_eq =>
      rw [Result.step, reply_eq]
      exact .gone reply_eq fun hlt => done_eq (by omega)
  | idle zero reply_eq state_eq not_failed done_eq =>
      subst zero
      have hopen : c.reply.ends = false := by rw [reply_eq]; rfl
      obtain ⟨hcmd, hlast⟩ := hclean rfl
      rw [Result.step_open hopen, Nat.zero_add]
      subst hdata
      obtain ⟨res, hres, hkept, hgone | hgoes⟩ := first_segment hwf hpos hbuf (by omega) (AnyCut.all 0 m) state_eq not_failed
        hcmd hlast
      · rw [hres]
        exact .gone hgone.reply_eq fun _ => hkept.done.trans done_eq
      · rw [hres]
        exact .goes hgoes (hkept.done.trans done_eq)
  | goes upload done_eq =>
      rw [Result.step_open (by rw [upload.reply_eq]; rfl)]
      subst hdata
      rcases upload.phase with hr | hst
      · obtain ⟨res, hres, hkept, hgone | hgoes⟩ := hr.segment hwf hbuf hle (AnyCut.all k m)
        · rw [hres]
          exact .gone hgone.reply_eq fun _ => hkept.done.trans done_eq
        · rw [hres]
          exact .goes hgoes (hkept.done.trans done_eq)
      · rcases Nat.lt_or_eq_of_le hle with hlt | heq
        · obtain ⟨res, hres, hkept, -, hreply, hst'⟩ := hst.segment hwf.length_lt hlt
          rw [hres]
          exact .goes ⟨hreply, Or.inr hst'⟩ (hkept.done.trans done_eq)
        · obtain ⟨res, hres, -, -, -, ⟨len, hreply⟩, hstate, hfin⟩ := hst.last_segment hwf.length_lt heq
          rw [hres]
          exact .finished heq (by rw [hreply]; rfl) hstate hfin
  | finished all open_ state_eq fin => omega

theorem ConnInv.run (h : ConnInv r done k c) (site : Site) (hwf : r.WellFormed) {as : List Arrival} (hok : ∀ a ∈ as, a.Ok)
    (hcut : received as <+: r.bytes.drop k) (hclean : k = 0 → ∀ p ∈ firstSegment as, CleanStart p.1 p.2) :
    ConnInv r done (k + (received as).length) (c.run site as) := by
  induction as generalizing k c with
  | nil => exact h
  | cons a as ih =>
      have hoks : ∀ a ∈ as, a.Ok := fun x hx => hok x (List.mem_cons_of_mem _ hx)
      have hlen : (received (a :: as)).length = a.data.length + (received as).length := by
        simp [received, List.flatMap_cons]
      cases a with
      | poll => exact ih h.poll hoks hcut hclean
      | segment data stale mss ok =>
          obtain ⟨hpos, hbuf⟩ := hok _ List.mem_cons_self
          have hcut' : data ++ received as <+: r.bytes.drop k := hcut
          have hstep : ConnInv r done (k + data.length) (c.step site (Arrival.segment data stale mss ok).event) :=
            h.segment hwf ((List.prefix_append _ _).trans hcut') hpos hbuf fun hk => hclean hk (data, stale) rfl
          have hnext : received as <+: r.bytes.drop (k + data.length) := by
            have hd := hcut'.drop data.length
            rwa [List.drop_left, List.drop_drop] at hd
          have hrun := ih hstep hoks hnext fun hk => absurd hk (by omega)
          rw [hlen, ← Nat.add_assoc]
          exact hrun

end

/-- The upload of a well-formed request, cut into segments in any way. -/
theorem upload_exact_segmented (site : Site) (r : Request) (hwf : r.WellFormed) (hs : HttpdState) (g : Globals)
    (hfail : g.uploadFailed = false) (as : List Arrival) (hok : ∀ a ∈ as, a.Ok) (hcut : received as <+: r.bytes)
    (hclean : ∀ p ∈ firstSegment as, CleanStart p.1 p.2) :
    ∃ c, c = (connect site hs g).run site as ∧
      (received as ≠ r.bytes → c.g.postDone = g.postDone) ∧
      (received as = r.bytes → c.reply = .abort ∨ c.g.uploadFailed = true ∨
        (c.g.postDone = true ∧ c.g.mem.read uploadRamAddress r.file.length = r.file ∧
          c.g.netBootFileXferSize = r.file.length)) := by
  have hstart : ConnInv r g.postDone 0 (connect site hs g) := .idle rfl rfl rfl hfail rfl
  have hinv := hstart.run site hwf hok hcut fun _ => hclean
  rw [Nat.zero_add] at hinv
  have hpos : 0 < r.bytes.length := by rw [r.bytes_length]; omega
  refine ⟨_, rfl, ?_, ?_⟩
  · intro hne
    have hlt : (received as).length < r.bytes.length := by
      refine Nat.lt_of_le_of_ne hcut.length_le fun he => hne ?_
      exact hcut.eq_of_length he
    cases hinv with
    | gone reply_eq done_eq => exact done_eq hlt
    | idle zero reply_eq state_eq not_failed done_eq => exact done_eq
    | goes upload done_eq => exact done_eq
    | finished all open_ state_eq fin => omega
  · intro heq
    rw [heq] at hinv
    cases hinv with
    | gone reply_eq done_eq => exact Or.inl reply_eq
    | idle zero reply_eq state_eq not_failed done_eq => omega
    | goes upload done_eq =>
        -- the whole request is never received without a result
        rcases upload.phase with hr | hst
        · have hl := (r.short (k := 0) hr.large (Nat.zero_le _) hr.le_bufsize).2
          omega
        · exact absurd hst.lt (Nat.lt_irrefl _)
    | finished all open_ state_eq fin =>
        right
        cases hf : ((connect site hs g).run site as).g.uploadFailed with
        | true => exact Or.inl rfl
        | false => exact Or.inr ⟨fin.done, fin.stored hf, fin.size_eq⟩

/-! ## An example -/

/-- The bytes from `k` on, in segments of the given lengths. -/
def segmentsOf (bytes : List UInt8) : Nat → List Nat → List Arrival
  | _, [] => []
  | k, m :: ms => .segment (slice bytes k m) [] 1446 true :: segmentsOf bytes (k + m) ms

section
variable {bytes : List UInt8} {k : Nat}

theorem received_cons (a : Arrival) (as : List Arrival) : received (a :: as) = a.data ++ received as :=
  List.flatMap_cons

theorem received_segmentsOf (bytes : List UInt8) (k : Nat) (ms : List Nat) : received (segmentsOf bytes k ms) = slice bytes k ms.sum := by
  induction ms generalizing k with
  | nil => simp [segmentsOf, received, slice]
  | cons m ms ih =>
      rw [List.sum_cons, ← slice_append, ← ih]
      rfl

theorem segmentsOf_ok {ms : List Nat} (hms : ∀ m ∈ ms, 0 < m ∧ m ≤ uipBufsize) (h : k + ms.sum ≤ bytes.length) :
    ∀ a ∈ segmentsOf bytes k ms, a.Ok := by
  induction ms generalizing k with
  | nil => intro a ha; cases ha
  | cons m ms ih =>
      rw [List.sum_cons] at h
      intro a ha
      rcases List.mem_cons.mp ha with rfl | ha
      · have hm := hms m List.mem_cons_self
        rw [Arrival.Ok, slice_length (by omega)]
        exact hm
      · exact ih (fun x hx => hms x (List.mem_cons_of_mem _ hx)) (by omega) a ha

end

/-- A server with short pages. -/
def sampleSite : Site := ⟨[(ascii "/index.html", 200)], 200, 100, 150, 120, fun _ _ => 80, fun _ => 90⟩

def freshState : HttpdState := ⟨.none, 0, 0, 0, false⟩

def freshGlobals : Globals := ⟨false, false, false, none, 0, .firmware, false, 0, fun _ => 0⟩

/-- The header comes alone. -/
def sampleCut : List Nat := [90, 1400, 1400, 1400, 1400, 1400, 1400, 1400, 500]

theorem slice_all (xs : List UInt8) {m : Nat} (h : xs.length = m) : slice xs 0 m = xs := by
  rw [slice, List.drop_zero, List.take_of_length_le h.le]

/-- The first segment ends with `Content-Length:`, and an older request with the length 10240 is left behind it. -/
def staleCut : List Arrival :=
  .segment (slice (sampleForm 0).bytes 0 80) (ascii " 10240\r\n") 1446 true ::
    segmentsOf (sampleForm 0).bytes 80 [1400, 1400, 1400, 1400, 1400, 1400, 1400, 510]

/-- How the two runs end -/
theorem sample_runs :
    (((connect sampleSite freshState freshGlobals).run sampleSite (segmentsOf (sampleForm 0).bytes 0 sampleCut)).reply,
      ((connect sampleSite freshState freshGlobals).run sampleSite
        (segmentsOf (sampleForm 0).bytes 0 sampleCut)).g.uploadFailed) = (.send 150, false) ∧
    ∃ c, c = (connect sampleSite freshState freshGlobals).run sampleSite staleCut ∧
      c.reply = .send 150 ∧ c.g.uploadFailed = false ∧ c.g.postDone = true ∧ c.g.netBootFileXferSize = 10173 := by
  refine ⟨?_, _, rfl, ?_⟩
  · set_option maxRecDepth 16000 in decide
  · set_option maxRecDepth 16000 in decide

theorem upload_exact_segmented_sample :
    ∃ c, c = (connect sampleSite freshState freshGlobals).run sampleSite
        (segmentsOf (sampleForm 0).bytes 0 sampleCut) ∧
      c.g.postDone = true ∧ c.g.mem.read uploadRamAddress 10233 = List.replicate 10233 0 ∧
      c.g.netBootFileXferSize = 10233 := by
  have hrec : received (segmentsOf (sampleForm 0).bytes 0 sampleCut) = (sampleForm 0).bytes := by
    rw [received_segmentsOf]
    exact slice_all _ (sampleForm_length 0)
  have hok : ∀ a ∈ segmentsOf (sampleForm 0).bytes 0 sampleCut, a.Ok :=
    segmentsOf_ok (by decide) (by rw [sampleForm_length]; decide)
  have hclean : ∀ p ∈ firstSegment (segmentsOf (sampleForm 0).bytes 0 sampleCut), CleanStart p.1 p.2 := by
    intro p hp
    cases hp
    unfold CleanStart Request.IsCommand
    decide
  obtain ⟨c, hc, -, hall⟩ := upload_exact_segmented sampleSite (sampleForm 0) (sampleForm_wellFormed (by decide))
    freshState freshGlobals rfl _ hok (by rw [hrec]) hclean
  have hend := sample_runs.1
  rw [← hc] at hend
  obtain ⟨hreply, hfail⟩ := Prod.mk.inj hend
  refine ⟨c, hc, ?_⟩
  rcases hall hrec with habort | hfailed | hdone
  · rw [hreply] at habort; cases habort
  · rw [hfail] at hfailed; cases hfailed
  · have hlen : (sampleForm 0).file.length = 10233 := List.length_replicate
    rw [hlen] at hdone
    exact hdone

/-- The upload succeeds with the wrong size. -/
theorem upload_stale_length_wrong_size :
    (sampleForm 0).WellFormed ∧ (sampleForm 0).file.length = 10233 ∧
      received staleCut = (sampleForm 0).bytes ∧ (∀ a ∈ staleCut, a.Ok) ∧ freshGlobals.uploadFailed = false ∧
      ∃ c, c = (connect sampleSite freshState freshGlobals).run sampleSite staleCut ∧
        c.reply = .send 150 ∧ c.g.uploadFailed = false ∧ c.g.postDone = true ∧ c.g.netBootFileXferSize = 10173 := by
  have hlen := sampleForm_length 0
  refine ⟨sampleForm_wellFormed (by decide), List.length_replicate, ?_, ?_, rfl, sample_runs.2⟩
  · have hrest := received_segmentsOf (sampleForm 0).bytes 80
      [1400, 1400, 1400, 1400, 1400, 1400, 1400, 510]
    rw [staleCut, received_cons, hrest]
    exact (slice_append _ 0 80 10310).trans (slice_all _ hlen)
  · intro a ha
    rcases List.mem_cons.mp ha with rfl | ha
    · rw [Arrival.Ok, slice_length (by rw [hlen]; decide)]
      decide
    · exact segmentsOf_ok (by decide) (by rw [hlen]; decide) a ha

end Uboot.Httpd
