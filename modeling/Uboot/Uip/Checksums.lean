import Uboot.Uip.Sending
import Mathlib.Data.Nat.ModEq

/-!
# The packets that are sent

`addCarry` adds modulo `65535`, with two zeros. A field that completes a sum makes the packet verify, so each packet passes
the tests with which `uip_process` begins. It also fits into a frame.
-/

namespace Uboot.Uip

variable {α γ : Type} {appcall : App α γ} {s : Stack α γ} {i : Nat} {c : Conn α} {h : Hdr} {data : List UInt8}
  {r t : UInt16} {n m : Nat}

/-! ## Sums with a carry that goes around -/

/-- `r` is the sum `n` with its carries; it is zero only for zero. -/
structure Sums (r : UInt16) (n : Nat) : Prop where
  modEq : r.toNat ≡ n [MOD 65535]
  zero : r.toNat = 0 ↔ n = 0

theorem Sums.self (r : UInt16) : Sums r r.toNat := ⟨Nat.ModEq.refl _, Iff.rfl⟩

theorem addCarry_toNat (r t : UInt16) : (addCarry r t).toNat =
    if r.toNat + t.toNat < 65536 then r.toNat + t.toNat else r.toNat + t.toNat - 65535 := by
  have hr := r.toNat_lt
  have ht := t.toNat_lt
  have hsum : (r + t).toNat = (r.toNat + t.toNat) % 65536 := UInt16.toNat_add r t
  have hsucc : (r + t + 1).toNat = ((r.toNat + t.toNat) % 65536 + 1) % 65536 := by
    rw [UInt16.toNat_add, hsum]
    rfl
  simp only [addCarry, UInt16.lt_iff_toNat_lt, hsum]
  split
  · rw [hsucc]
    split <;> omega
  · rw [hsum]
    split <;> omega

theorem Sums.add (hr : Sums r n) (ht : Sums t m) : Sums (addCarry r t) (n + m) := by
  have hmod : r.toNat + t.toNat ≡ n + m [MOD 65535] := hr.modEq.add ht.modEq
  have hr0 := hr.zero
  have ht0 := ht.zero
  constructor
  · refine Nat.ModEq.trans ?_ hmod
    rw [addCarry_toNat]
    split
    · rfl
    · exact (Nat.modEq_iff_dvd' (by omega)).mpr ⟨1, by omega⟩
  · rw [addCarry_toNat]
    split <;> omega

theorem htons_toNat (r : UInt16) : (htons r).toNat = 256 * (loByte r).toNat + (hiByte r).toNat := by
  have hr := r.toNat_lt
  have hbytes := bytes_toNat r
  have hhi := (hiByte r).toNat_lt
  have hlo := (loByte r).toNat_lt
  have hleft : (r <<< 8).toNat = (loByte r).toNat <<< 8 := by
    rw [UInt16.toNat_shiftLeft, Nat.shiftLeft_eq (loByte r).toNat]
    refine (congrArg (· % 2 ^ 16) (Nat.shiftLeft_eq r.toNat 8)).trans ?_
    omega
  have hright : (r >>> 8).toNat = (hiByte r).toNat := by
    rw [UInt16.toNat_shiftRight]
    refine (Nat.shiftRight_eq_div_pow r.toNat 8).trans ?_
    omega
  rw [htons, UInt16.toNat_or, hleft, hright, ← Nat.shiftLeft_add_eq_or_of_lt hhi, Nat.shiftLeft_eq]
  omega

theorem Sums.htons (hr : Sums r n) : Sums (htons r) (256 * n) := by
  have hbytes := bytes_toNat r
  have hr0 := hr.zero
  constructor
  · refine Nat.ModEq.trans ?_ (hr.modEq.mul_left 256)
    rw [htons_toNat, hbytes]
    exact ((Nat.modEq_iff_dvd' (by omega)).mpr ⟨(hiByte r).toNat, by omega⟩)
  · rw [htons_toNat]
    omega

/-- The sum of the pairs of bytes. -/
def beSum : List UInt8 → Nat
  | [] => 0
  | [b] => 256 * b.toNat
  | b₀ :: b₁ :: rest => 256 * b₀.toNat + b₁.toNat + beSum rest

theorem Sums.chksum (hr : Sums r n) (bs : List UInt8) : Sums (chksum r bs) (n + beSum bs) := by
  induction bs using beSum.induct generalizing r n with
  | case1 => exact hr
  | case2 b =>
      have h := hr.add (Sums.self (be16 b 0))
      rw [be16_toNat] at h
      exact h
  | case3 b₀ b₁ rest ih =>
      have h := hr.add (Sums.self (be16 b₀ b₁))
      rw [be16_toNat] at h
      rw [beSum, ← Nat.add_assoc]
      exact ih h

theorem Sums.uipChksum (bs : List UInt8) : Sums (uipChksum bs) (256 * beSum bs) := by
  have h := (Sums.chksum (Sums.self 0) bs).htons
  rwa [show (0 : UInt16).toNat + beSum bs = beSum bs from Nat.zero_add _] at h

/-- A sum that is a multiple of `65535` and not zero verifies. -/
theorem Sums.verifies_iff (hr : Sums r n) : r = 0xffff ↔ 0 < n ∧ 65535 ∣ n := by
  have hlt := r.toNat_lt
  have hmod : r.toNat % 65535 = n % 65535 := hr.modEq
  have hr0 := hr.zero
  rw [← UInt16.toNat_inj]
  have hffff : (0xffff : UInt16).toNat = 65535 := rfl
  rw [hffff]
  omega

theorem complement_toNat (r : UInt16) : (~~~r).toNat = 65535 - r.toNat := by
  rw [UInt16.toNat_not]
  rfl

/-- A sum that is completed by the complement of the rest, with `m` for the order of its bytes. -/
theorem Sums.complete (ht : Sums t n) (hr : Sums r (n + 65535 * m + (~~~t).toNat)) : r = 0xffff := by
  have hlt := t.toNat_lt
  have hmod : t.toNat % 65535 = n % 65535 := ht.modEq
  have ht0 := ht.zero
  rw [hr.verifies_iff, complement_toNat]
  omega

/-! ## Headers -/

theorem beSum_append {xs : List UInt8} (h : xs.length % 2 = 0) (ys : List UInt8) : beSum (xs ++ ys) = beSum xs + beSum ys := by
  induction xs using beSum.induct with
  | case1 => exact (Nat.zero_add _).symm
  | case2 b => cases h
  | case3 b₀ b₁ rest ih =>
      simp only [List.length_cons] at h
      rw [List.cons_append, List.cons_append, beSum, beSum, ih (by omega)]
      omega

/-- What a field adds: its two bytes are exchanged in the sum, and once more by `htons`. -/
theorem beSum_mem16 (x : UInt16) : 256 * beSum (mem16 x) = 65535 * (loByte x).toNat + x.toNat := by
  rw [bytes_toNat x]
  simp only [mem16, beSum]
  omega

/-- `uip_ipchksum` with another checksum. -/
theorem ip_sum (h : Hdr) (x : UInt16) : 256 * beSum ({ h with ipchksum := x } : Hdr).ipBytes =
    256 * beSum ({ h with ipchksum := 0 } : Hdr).ipBytes + 65535 * (loByte x).toNat + x.toNat := by
  rw [Nat.add_assoc, ← beSum_mem16]
  simp only [Hdr.ipBytes, mem16, beSum, List.cons_append, List.nil_append]
  have hlo : (loByte 0).toNat = 0 := rfl
  have hhi : (hiByte 0).toNat = 0 := rfl
  omega

theorem tcp_sum (h : Hdr) (x : UInt16) : 256 * beSum ({ h with tcpchksum := x } : Hdr).tcpBytes =
    256 * beSum ({ h with tcpchksum := 0 } : Hdr).tcpBytes + 65535 * (loByte x).toNat + x.toNat := by
  rw [Nat.add_assoc, ← beSum_mem16]
  simp only [Hdr.tcpBytes, mem16, beSum, List.cons_append, List.nil_append]
  have hlo : (loByte 0).toNat = 0 := rfl
  have hhi : (hiByte 0).toNat = 0 := rfl
  omega

theorem ipchksum_verifies {h : Hdr} {t : UInt16} (ht : t = uipIpchksum { h with ipchksum := 0 }) :
    uipIpchksum { h with ipchksum := ~~~t } = 0xffff := by
  have hr := Sums.uipChksum ({ h with ipchksum := ~~~t } : Hdr).ipBytes
  rw [ip_sum] at hr
  exact (ht ▸ Sums.uipChksum _ : Sums t _).complete hr

/-- The sum of a segment without its header. -/
def pseudo (h : Hdr) (appdata : List UInt8) : Nat :=
  256 * beSum (appdata.take (h.ipLen - 40).toNat) + h.srcipaddr.1.toNat + h.srcipaddr.2.toNat + h.destipaddr.1.toNat +
    h.destipaddr.2.toNat + (htons 6).toNat + (htons (h.ipLen - 20)).toNat

theorem Sums.uipTcpchksum (h : Hdr) (appdata : List UInt8) :
    Sums (uipTcpchksum h appdata) (pseudo h appdata + 256 * beSum h.tcpBytes) := by
  have hdata := Sums.uipChksum (appdata.take (h.ipLen - 40).toNat)
  have hall := ((((((hdata.add (Sums.uipChksum h.tcpBytes)).add (.self h.srcipaddr.1)).add (.self h.srcipaddr.2)).add
    (.self h.destipaddr.1)).add (.self h.destipaddr.2)).add (.self (Uip.htons 6))).add (.self (Uip.htons (h.ipLen - 20)))
  rw [pseudo, show 256 * beSum (appdata.take (h.ipLen - 40).toNat) + h.srcipaddr.1.toNat + h.srcipaddr.2.toNat +
    h.destipaddr.1.toNat + h.destipaddr.2.toNat + (Uip.htons 6).toNat + (Uip.htons (h.ipLen - 20)).toNat + 256 * beSum h.tcpBytes =
    256 * beSum (appdata.take (h.ipLen - 40).toNat) + 256 * beSum h.tcpBytes + h.srcipaddr.1.toNat + h.srcipaddr.2.toNat +
    h.destipaddr.1.toNat + h.destipaddr.2.toNat + (Uip.htons 6).toNat + (Uip.htons (h.ipLen - 20)).toNat by omega]
  exact hall

theorem tcpchksum_verifies {h : Hdr} {t : UInt16} (ht : t = uipTcpchksum { h with tcpchksum := 0 } data) :
    uipTcpchksum { h with tcpchksum := ~~~t } data = 0xffff := by
  have hr := Sums.uipTcpchksum { h with tcpchksum := ~~~t } data
  rw [tcp_sum, ← Nat.add_assoc, ← Nat.add_assoc] at hr
  exact (ht ▸ Sums.uipTcpchksum { h with tcpchksum := 0 } data : Sums t _).complete hr

/-! ## TCP -/

/-- A packet that passes the tests at the start of `uip_process`, and fits into a frame. -/
structure Packet.Good (p : Packet) : Prop where
  vhl : p.hdr.vhl = 0x45
  ipoffset : p.hdr.ipoffset = (0, 0)
  ip : uipIpchksum p.hdr = 0xffff
  tcp : uipTcpchksum p.hdr p.data = 0xffff
  len : p.hdr.ipLen = p.len
  fits : 40 ≤ p.len.toNat ∧ p.len.toNat ≤ 40 + uipTcpMss.toNat

/-- What is sent, and what may be sent later, is at most the MSS of this host. -/
structure Conn.Small (c : Conn α) : Prop where
  len : c.len ≤ uipTcpMss
  mss : c.mss ≤ uipTcpMss
  initialmss : c.initialmss ≤ uipTcpMss

/-- All connections are small, and so is the packet that is sent. -/
structure Outcome.Good (o : Outcome α γ) : Prop where
  conns : ∀ c ∈ o.stack.conns, c.Small
  sent : ∀ p ∈ o.sent, p.hdr.proto = 6 → p.Good

theorem sub_toNat {len : UInt16} (h : 40 ≤ len.toNat) : (len - 40).toNat = len.toNat - 40 :=
  UInt16.toNat_sub_of_le len 40 (UInt16.le_iff_toNat_le.mpr h)

theorem uipTcpchksum_take {h : Hdr} (hlen : 40 ≤ h.ipLen.toNat) (appdata : List UInt8) :
    uipTcpchksum h (appdata.take (h.ipLen.toNat - 40)) = uipTcpchksum h appdata := by
  simp only [uipTcpchksum, sub_toNat hlen, List.take_take, Nat.min_self]

theorem tcpSendNoconn_good {call : Option (Nat × Call α)} {len : UInt16} (hs : ∀ c ∈ s.conns, c.Small)
    (hlen : 40 ≤ len.toNat ∧ len.toNat ≤ 40 + uipTcpMss.toNat) : (tcpSendNoconn s call h len data).Good := by
  refine ⟨hs, ?_⟩
  intro p hp _
  cases hp
  have hip : ∀ x : Hdr, x.len = (hiByte len, loByte len) → x.ipLen = len := by
    intro x hx
    rw [Hdr.ipLen, hx, be16_bytes]
  refine ⟨rfl, rfl, ipchksum_verifies rfl, ?_, hip _ rfl, hlen⟩
  have htake := uipTcpchksum_take (h := { h with
    len := (hiByte len, loByte len)
    tcpchksum := ~~~(uipTcpchksum { h with len := (hiByte len, loByte len), tcpchksum := 0 } data) })
    (by rw [hip _ rfl]; exact hlen.1) data
  rw [hip _ rfl] at htake
  exact htake.trans (tcpchksum_verifies (h := { h with len := (hiByte len, loByte len) }) rfl)

theorem Conn.Small.put (hs : ∀ c ∈ s.conns, c.Small) (hc : c.Small) : ∀ d ∈ (s.put i c).conns, d.Small := by
  intro d hd
  rcases List.mem_or_eq_of_mem_set hd with hd | rfl
  · exact hs d hd
  · exact hc

theorem ite_good {p : Prop} [Decidable p] {o o' : Outcome α γ} (ho : p → o.Good) (ho' : ¬p → o'.Good) :
    (if p then o else o').Good := by
  split
  · exact ho ‹_›
  · exact ho' ‹_›

theorem drop_good {call : Option (Nat × Call α)} (hs : ∀ c ∈ s.conns, c.Small) : (drop s call).Good := ⟨hs, by simp [drop]⟩

theorem Conn.Small.of_eq {d : Conn α} (hc : c.Small) (hlen : d.len = c.len ∨ d.len = 0 ∨ d.len = 1) (hmss : d.mss = c.mss)
    (hinit : d.initialmss = c.initialmss) : d.Small := by
  refine ⟨?_, hmss ▸ hc.mss, hinit ▸ hc.initialmss⟩
  rcases hlen with hlen | hlen | hlen
  · exact hlen ▸ hc.len
  · rw [hlen]
    exact UInt16.zero_le
  · rw [hlen]
    decide

theorem tcpSendNodata_good {call : Option (Nat × Call α)} {flags : UInt8} (hs : ∀ c ∈ s.conns, c.Small) :
    (tcpSendNodata s call c h flags data).Good :=
  tcpSendNoconn_good hs ⟨by decide, by decide⟩

theorem tcpSendSynack_good (hs : ∀ c ∈ s.conns, c.Small) : (tcpSendSynack s c h).Good :=
  tcpSendNoconn_good hs ⟨by decide, by decide⟩

theorem apprexmit_good {k : Call α} {a : Answer α} {slen : UInt16} (hs : ∀ c ∈ s.conns, c.Small) (hc : c.Small) :
    (apprexmit s i k c h a slen).Good := by
  have hput := hc.put (i := i) hs
  rw [apprexmit]
  split
  · refine tcpSendNoconn_good hput ?_
    have hlen : c.len.toNat ≤ uipTcpMss.toNat := UInt16.le_iff_toNat_le.mp hc.len
    have hmss : uipTcpMss.toNat = 1446 := rfl
    have hsum : (c.len + 40).toNat = (c.len.toNat + 40) % 65536 := UInt16.toNat_add c.len 40
    omega
  · split
    · exact tcpSendNodata_good hput
    · exact drop_good hput

theorem min_le_mss (hc : c.Small) (slen : UInt16) : min slen c.mss ≤ uipTcpMss := by
  rw [UInt16.min_def]
  split
  · exact UInt16.le_trans ‹_› hc.mss
  · exact hc.mss

theorem sendLen_le {a : Answer α} (hc : c.Small) : (sendLen c a).2 ≤ uipTcpMss := by
  have hmin := min_le_mss hc a.slen
  rw [sendLen]
  split
  · cases a.flags.ackdata with
    | true => exact hmin
    | false =>
        simp only [Bool.false_eq_true, if_false]
        split
        · exact hmin
        · exact hc.len
  · exact UInt16.zero_le

theorem appsend_good {k : Call α} {a : Answer α} (hs : ∀ c ∈ s.conns, c.Small) (hc : c.Small) :
    (appsend s i k c h a).Good := by
  rw [appsend]
  split
  · exact tcpSendNodata_good (Conn.Small.put hs (hc.of_eq (Or.inl rfl) rfl rfl))
  split
  · exact tcpSendNodata_good (Conn.Small.put hs (hc.of_eq (Or.inr (Or.inr rfl)) rfl rfl))
  · exact apprexmit_good hs ⟨sendLen_le hc, hc.mss, hc.initialmss⟩

theorem callAndSend_good {k : Call α} (hs : ∀ c ∈ s.conns, c.Small) (hc : k.conn.Small) : (callAndSend appcall s i k h).Good :=
  appsend_good (s := { s with app := (appcall k s.app).2 })
    (c := { k.conn with appstate := (appcall k s.app).1.appstate, stopped := (appcall k s.app).1.stopped })
    hs ⟨hc.len, hc.mss, hc.initialmss⟩

/-! ## The timer -/

theorem timer_good (hs : ∀ c ∈ s.conns, c.Small) (hc : c.Small) : (timer appcall s i c h data).Good := by
  have hs' : ∀ c ∈ ({ s with iss := s.iss.incr } : Stack α γ).conns, c.Small := hs
  rw [timer]
  split
  · refine drop_good (Conn.Small.put hs' ?_)
    split
    · exact hc.of_eq (Or.inl rfl) rfl rfl
    · exact hc.of_eq (Or.inl rfl) rfl rfl
  split
  · exact drop_good hs'
  split
  · split
    · split
      · exact tcpSendNodata_good (Conn.Small.put (s := { s with iss := s.iss.incr, app := _ }) hs' (hc.of_eq (Or.inl rfl) rfl rfl))
      · rw [retransmit]
        split
        · exact tcpSendSynack_good (Conn.Small.put hs' (hc.of_eq (Or.inl rfl) rfl rfl))
        · exact apprexmit_good (s := { s with iss := s.iss.incr, app := _ }) hs' (hc.of_eq (Or.inl rfl) rfl rfl)
        · exact tcpSendNodata_good (Conn.Small.put hs' (hc.of_eq (Or.inl rfl) rfl rfl))
        · exact tcpSendNodata_good (Conn.Small.put hs' (hc.of_eq (Or.inl rfl) rfl rfl))
        · exact tcpSendNodata_good (Conn.Small.put hs' (hc.of_eq (Or.inl rfl) rfl rfl))
        · exact drop_good (Conn.Small.put hs' (hc.of_eq (Or.inl rfl) rfl rfl))
    · exact drop_good (Conn.Small.put hs' (hc.of_eq (Or.inl rfl) rfl rfl))
  split
  · exact callAndSend_good hs' hc
  · exact drop_good hs'

theorem Conn.Small.addData (hc : c.Small) (newdata : Bool) (len : UInt16) : (c.addData newdata len).Small := by
  cases newdata
  · exact hc
  · exact ⟨hc.len, hc.mss, hc.initialmss⟩

theorem Conn.Small.window (hc : c.Small) : (c.window h).Small := by
  refine ⟨hc.len, ?_, hc.initialmss⟩
  rw [Conn.window]
  simp only []
  split
  · exact hc.initialmss
  · rename_i hle
    exact UInt16.le_trans (UInt16.not_lt.mp fun h => hle (Or.inl h)) hc.initialmss

/-! ## Segments -/

theorem Conn.Small.acked (hc : c.Small) : c.acked.Small := by
  cases hn : decide (c.nrtx = 0) <;> simp only [decide_eq_true_eq, decide_eq_false_iff_not] at hn
  all_goals
    refine hc.of_eq (Or.inl ?_) ?_ ?_ <;> simp [Conn.acked, hn, Conn.estimate]

theorem Conn.Small.heard (hc : c.Small) (b : Bool) : (if b then c.acked else c).Small := by
  cases b
  · exact hc
  · exact hc.acked

theorem established_good {len : UInt16} {ackdata : Bool} (hs : ∀ c ∈ s.conns, c.Small) (hc : c.Small) :
    (established appcall s i c h data len ackdata).Good := by
  rw [established]
  split
  · split
    · exact drop_good (hc.put hs)
    · exact tcpSendNodata_good (Conn.Small.put (s := { s with app := _ }) hs (hc.of_eq (Or.inr (Or.inr rfl)) rfl rfl))
  · have hurg : (if h.has tcpUrg then c.addRcvNxt (urgLen h len) else c).Small := by
      split
      · exact hc.of_eq (Or.inl rfl) rfl rfl
      · exact hc
    have hconn := (hurg.addData (0 < len - urgLen h len ∧ (if h.has tcpUrg then c.addRcvNxt (urgLen h len) else c).stopped = false)
      (len - urgLen h len)).window (h := h)
    exact ite_good (fun _ => callAndSend_good hs hconn) fun _ => drop_good (hconn.put hs)

theorem closeAndAck_good {len : UInt16} (hs : ∀ c ∈ s.conns, c.Small) (hc : c.Small) :
    (closeAndAck appcall s i c h data len).Good :=
  tcpSendNodata_good (Conn.Small.put (s := { s with app := _ }) hs (hc.of_eq (Or.inl rfl) rfl rfl))

theorem finWait1_good {len : UInt16} {ackdata : Bool} (hs : ∀ c ∈ s.conns, c.Small) (hc : c.Small) :
    (finWait1 appcall s i c h data len ackdata).Good := by
  have hadd := hc.addData (0 < len) len
  rw [finWait1]
  split
  · refine closeAndAck_good hs ?_
    split
    · exact hadd.of_eq (Or.inr (Or.inl rfl)) rfl rfl
    · exact hadd.of_eq (Or.inl rfl) rfl rfl
  split
  · exact drop_good (Conn.Small.put hs (hadd.of_eq (Or.inr (Or.inl rfl)) rfl rfl))
  split
  · exact tcpSendNodata_good (hadd.put hs)
  · exact drop_good (hadd.put hs)

theorem finWait2_good {len : UInt16} (hs : ∀ c ∈ s.conns, c.Small) (hc : c.Small) :
    (finWait2 appcall s i c h data len).Good := by
  have hadd := hc.addData (0 < len) len
  rw [finWait2]
  split
  · exact closeAndAck_good hs (hadd.of_eq (Or.inl rfl) rfl rfl)
  split
  · exact tcpSendNodata_good (hadd.put hs)
  · exact drop_good (hadd.put hs)

theorem synRcvd_good {len : UInt16} {ackdata : Bool} (hs : ∀ c ∈ s.conns, c.Small) (hc : c.Small) :
    (synRcvd appcall s i c h data len ackdata).Good := by
  rw [synRcvd]
  split
  · have hopen : ({ c.goto .established with len := 0 } : Conn α).Small := hc.of_eq (Or.inr (Or.inl rfl)) rfl rfl
    exact callAndSend_good hs (hopen.addData (0 < len) len)
  · exact drop_good (hc.put hs)

theorem lastAck_good {len : UInt16} {ackdata : Bool} (hs : ∀ c ∈ s.conns, c.Small) (hc : c.Small) :
    (lastAck appcall s i c data len ackdata).Good := by
  rw [lastAck]
  split
  · exact drop_good (Conn.Small.put (s := { s with app := _ }) hs (hc.of_eq (Or.inl rfl) rfl rfl))
  · exact drop_good (hc.put hs)

theorem found_good {len : UInt16} (hs : ∀ c ∈ s.conns, c.Small) (hc : c.Small) : (found appcall s i c h data len).Good := by
  have hheard := hc.heard (c.isAcked h)
  rw [found]
  split
  · exact drop_good (Conn.Small.put (s := { s with app := _ }) hs (hc.of_eq (Or.inl rfl) rfl rfl))
  simp only []
  split
  · exact tcpSendNodata_good hs
  split
  · exact synRcvd_good hs hheard
  · exact established_good hs hheard
  · exact lastAck_good hs hheard
  · exact finWait1_good hs hheard
  · exact finWait2_good hs hheard
  · exact tcpSendNodata_good (hheard.put hs)
  · refine drop_good (Conn.Small.put hs ?_)
    split
    · exact hc.acked.of_eq (Or.inl rfl) rfl rfl
    · exact hc
  · exact drop_good (hheard.put hs)

/-! ## Input -/

theorem parseMss_small {c' : Conn α} (hc : c.Small) (hparse : parseMss h data c = some c') : c'.Small := by
  obtain ⟨mss, -, rfl⟩ := Option.map_eq_some_iff.mp hparse
  cases mss with
  | none => exact hc
  | some m =>
      have hmin : min m uipTcpMss ≤ uipTcpMss := by
        rw [UInt16.min_def]
        split
        · assumption
        · exact UInt16.le_refl _
      exact ⟨hc.len, hmin, hmin⟩

theorem foundListen_good {o : Outcome α γ} (hs : ∀ c ∈ s.conns, c.Small) (ho : foundListen s h data = some o) : o.Good := by
  rw [foundListen] at ho
  split at ho
  · cases ho
    exact drop_good hs
  split at ho
  · cases ho
    exact drop_good hs
  · rename_i hget
    obtain ⟨c', hparse, rfl⟩ := Option.map_eq_some_iff.mp ho
    have hnew := (hs _ (List.mem_of_getElem? hget)).of_eq (d := newConn s h _) (Or.inr (Or.inr rfl)) rfl rfl
    exact tcpSendSynack_good ((parseMss_small hnew hparse).put hs)

theorem reset_good (hs : ∀ c ∈ s.conns, c.Small) : (reset s h data).Good := by
  rw [reset]
  split
  · exact drop_good hs
  · exact tcpSendNoconn_good hs ⟨by decide, by decide⟩

theorem tcpInput_good {len : UInt16} {o : Outcome α γ} (hs : ∀ c ∈ s.conns, c.Small) (ho : tcpInput appcall s h data len = some o) :
    o.Good := by
  rw [tcpInput] at ho
  split at ho
  · cases ho
    exact drop_good hs
  split at ho
  · split at ho
    · rename_i hget
      cases ho
      exact found_good hs (hs _ (List.mem_of_getElem? hget))
    · cases ho
      exact drop_good hs
  split at ho
  · exact foundListen_good hs ho
  · cases ho
    exact reset_good hs

theorem icmpInput_good {len : UInt16} (hs : ∀ c ∈ s.conns, c.Small) (hproto : h.proto ≠ 6) : (icmpInput s h data len).Good := by
  rw [icmpInput]
  split
  · exact drop_good hs
  · refine ⟨hs, fun p hp h6 => ?_⟩
    cases hp
    exact absurd h6 hproto

theorem step_good {ev : Ev} {o : Outcome α γ} (hs : ∀ c ∈ s.conns, c.Small) (ho : step appcall s ev = some o) : o.Good := by
  cases ev with
  | timer i buf rest =>
      cases ho
      cases hget : s.conns[i]? with
      | none => exact drop_good hs
      | some c => exact timer_good hs (hs c (List.mem_of_getElem? hget))
  | packet h data len =>
      have hdrop : ∀ {o : Outcome α γ}, some (drop s none) = some o → o.Good := fun h => by
        cases h
        exact drop_good hs
      rw [step, uipInput] at ho
      split at ho
      · exact hdrop ho
      split at ho
      · exact hdrop ho
      split at ho
      · exact hdrop ho
      split at ho
      · exact hdrop ho
      split at ho
      · exact tcpInput_good hs ho
      split at ho
      · exact hdrop ho
      · rename_i hproto _
        cases ho
        exact icmpInput_good hs hproto

theorem run_small {evs : List Ev} {calls calls' : List (Nat × Call α)} {s' : Stack α γ} (hs : ∀ c ∈ s.conns, c.Small)
    (hrun : run appcall s calls evs = some (s', calls')) : ∀ c ∈ s'.conns, c.Small := by
  induction evs generalizing s calls with
  | nil =>
      cases hrun
      exact hs
  | cons ev evs ih =>
      obtain ⟨o, ho, hrest⟩ := Option.bind_eq_some_iff.mp hrun
      exact ih (step_good hs ho).conns hrest

/-- After any packets and timers a TCP packet that is sent passes the tests of the receiver, and fits into a frame. -/
theorem sent_packets_verify (appcall : App α γ) (s : Stack α γ) (hs : ∀ c ∈ s.conns, c.Small) (evs : List Ev)
    {calls : List (Nat × Call α)} {s' : Stack α γ} (hrun : run appcall s [] evs = some (s', calls)) {ev : Ev} {o : Outcome α γ}
    (ho : step appcall s' ev = some o) {p : Packet} (hp : p ∈ o.sent) (hproto : p.hdr.proto = 6) : p.Good :=
  (step_good (run_small hs hrun) ho).sent p hp hproto

/-- The page that is sent after the handshake. -/
theorem sent_packets_verify_page : ∃ s calls o p, run (printer [72, 84, 84, 80]) (idle Nat) []
      [segment tcpSyn ⟨255, 255, 255, 255⟩ ⟨0, 0, 0, 0⟩ []] = some (s, calls) ∧
    step (printer [72, 84, 84, 80]) s (segment tcpAck ⟨0, 0, 0, 0⟩ ⟨0, 0, 8, 0⟩ []) = some o ∧ o.sent = some p ∧
    p.data = [72, 84, 84] ∧ p.Good := by
  have hsome : (run (printer [72, 84, 84, 80]) (idle Nat) [] [segment tcpSyn ⟨255, 255, 255, 255⟩ ⟨0, 0, 0, 0⟩ []]).any (fun r =>
      (step (printer [72, 84, 84, 80]) r.1 (segment tcpAck ⟨0, 0, 0, 0⟩ ⟨0, 0, 8, 0⟩ [])).any fun o =>
        o.sent.any fun p => p.hdr.proto = 6 ∧ p.data = [72, 84, 84]) = true := by
    set_option maxRecDepth 20000 in decide
  obtain ⟨r, hrun, hr⟩ := (Option.any_eq_true _ _).mp hsome
  obtain ⟨o, ho, hr⟩ := (Option.any_eq_true _ _).mp hr
  obtain ⟨p, hp, hr⟩ := (Option.any_eq_true _ _).mp hr
  obtain ⟨hproto, hdata⟩ := of_decide_eq_true hr
  have hsmall : ∀ c ∈ (idle Nat).conns, c.Small := fun c hc => by
    obtain ⟨d, hd, rfl⟩ := List.mem_map.mp hc
    rw [List.eq_of_mem_replicate hd]
    exact ⟨UInt16.zero_le, by decide, by decide⟩
  exact ⟨r.1, r.2, o, p, hrun, ho, hp, hdata, sent_packets_verify (printer [72, 84, 84, 80]) (idle Nat) hsmall _ hrun ho hp hproto⟩

/-! ## ICMP -/

/-- The ICMP message of a packet of `len` bytes. -/
def icmpMsg (h : Hdr) (data : List UInt8) (len : UInt16) : List UInt8 := (h.tcpBytes ++ data).take (len.toNat - 20)

theorem Sums.unique {r' : UInt16} (hr : Sums r n) (hr' : Sums r' n) : r = r' := by
  have hmod : r.toNat % 65535 = r'.toNat % 65535 := hr.modEq.trans hr'.modEq.symm
  have hr0 := hr.zero
  have hr0' := hr'.zero
  have hlt := r.toNat_lt
  have hlt' := r'.toNat_lt
  rw [← UInt16.toNat_inj]
  omega

/-- The addresses may be exchanged. -/
theorem uipIpchksum_swap (h : Hdr) :
    uipIpchksum { h with srcipaddr := h.destipaddr, destipaddr := h.srcipaddr } = uipIpchksum h := by
  have hsum : beSum ({ h with srcipaddr := h.destipaddr, destipaddr := h.srcipaddr } : Hdr).ipBytes = beSum h.ipBytes := by
    simp only [Hdr.ipBytes, mem16, beSum, List.cons_append, List.nil_append]
    omega
  have hr := Sums.uipChksum ({ h with srcipaddr := h.destipaddr, destipaddr := h.srcipaddr } : Hdr).ipBytes
  rw [hsum] at hr
  exact hr.unique (Sums.uipChksum h.ipBytes)

theorem beSum_eq_zero {bs : List UInt8} : beSum bs = 0 ↔ ∀ b ∈ bs, b = 0 := by
  induction bs using beSum.induct with
  | case1 => simp [beSum]
  | case2 b =>
      rw [beSum, List.forall_mem_singleton, ← UInt8.toNat_inj, UInt8.toNat_zero]
      omega
  | case3 b₀ b₁ rest ih =>
      rw [beSum, List.forall_mem_cons, List.forall_mem_cons, ← ih, ← UInt8.toNat_inj, ← UInt8.toNat_inj, UInt8.toNat_zero]
      omega

/-- The code without the type. -/
theorem loByte_and (x : UInt16) : loByte (x &&& 0xff00) = 0 := by
  have hbits : ∀ i < 8, (UInt16.toBitVec 0xff00).getLsbD i = false := by decide
  rw [← UInt8.toBitVec_inj]
  refine BitVec.eq_of_getLsbD_eq fun i hi => ?_
  simp only [loByte, UInt16.toBitVec_toUInt8, UInt16.toBitVec_and, BitVec.getLsbD_setWidth, BitVec.getLsbD_and, hbits i hi,
    Bool.and_false]
  exact BitVec.getLsbD_zero.symm

theorem hiByte_and (x : UInt16) : hiByte (x &&& 0xff00) = hiByte x := by
  have hbits : ∀ i < 8, (65280#16).getLsbD (8 + i) = true := by decide
  have hshift : UInt16.toBitVec 8 % 16 = 8#16 := by decide
  rw [← UInt8.toBitVec_inj]
  refine BitVec.eq_of_getLsbD_eq fun i hi => ?_
  simp only [hiByte, UInt16.toBitVec_toUInt8, UInt16.toBitVec_and, UInt16.toBitVec_shiftRight, hshift]
  simp [hbits i hi]

/-- The checksum of the reply. -/
def echoChksum (chksum : UInt16) : UInt16 :=
  if htons (0xffff - 0x800) ≤ chksum then chksum + htons 0x800 + 1 else chksum + htons 0x800

theorem echoChksum_toNat (x : UInt16) :
    (echoChksum x).toNat = if 65527 ≤ x.toNat then x.toNat + 9 - 65536 else x.toNat + 8 := by
  have hx := x.toNat_lt
  have hecho : htons 0x800 = 8 := by decide
  have hlim : htons (0xffff - 0x800) = 65527 := by decide
  have hadd : (x + 8).toNat = (x.toNat + 8) % 65536 := UInt16.toNat_add x 8
  have hsucc : (x + 8 + 1).toNat = ((x.toNat + 8) % 65536 + 1) % 65536 := by
    rw [UInt16.toNat_add, hadd]
    rfl
  have h65527 : (65527 : UInt16).toNat = 65527 := rfl
  rw [echoChksum, hecho, hlim]
  simp only [UInt16.le_iff_toNat_le, h65527]
  split
  · rw [hsucc]
    omega
  · rw [hadd]
    omega

/-- The first bytes of a message, and the rest. -/
theorem icmpMsg_eq (h : Hdr) (data : List UInt8) {len : UInt16} (hlen : 24 ≤ len.toNat) :
    icmpMsg h data len = mem16 h.srcport ++ mem16 h.destport ++ (icmpMsg h data len).drop 4 := by
  have htake : (icmpMsg h data len).take 4 = mem16 h.srcport ++ mem16 h.destport := by
    rw [icmpMsg, List.take_take, Nat.min_eq_left (by omega)]
    simp [Hdr.tcpBytes, mem16]
  rw [← htake, List.take_append_drop]

theorem icmpMsg_sum (h : Hdr) (data : List UInt8) {len : UInt16} (hlen : 24 ≤ len.toNat) :
    256 * beSum (icmpMsg h data len) = 65536 * (loByte h.srcport).toNat + 256 * (hiByte h.srcport).toNat +
      65535 * (loByte h.destport).toNat + h.destport.toNat + 256 * beSum ((icmpMsg h data len).drop 4) := by
  have hdest := beSum_mem16 h.destport
  have htwo : ∀ x : UInt16, (mem16 x).length % 2 = 0 := fun _ => by simp [mem16]
  have hsum : beSum (icmpMsg h data len) = beSum (mem16 h.srcport) + beSum (mem16 h.destport) +
      beSum ((icmpMsg h data len).drop 4) := by
    rw [← beSum_append (htwo _), ← beSum_append (by simp [mem16]), ← icmpMsg_eq h data hlen]
  rw [hsum]
  simp only [mem16, beSum] at *
  omega

theorem icmpMsg_drop (h h' : Hdr) (data : List UInt8) (len : UInt16) (hsame : h'.tcpBytes.drop 4 = h.tcpBytes.drop 4) :
    (icmpMsg h' (data.take (len.toNat - 40)) len).drop 4 = (icmpMsg h data len).drop 4 := by
  have hdrop : ∀ (g : Hdr) (bs : List UInt8), (icmpMsg g bs len).drop 4 = (g.tcpBytes.drop 4 ++ bs).take (len.toNat - 20 - 4) := by
    intro g bs
    rw [icmpMsg, List.drop_take, List.drop_append_of_le_length (by simp [Hdr.tcpBytes, mem16])]
  rw [hdrop, hdrop, hsame, List.take_append, List.take_append, List.take_take]
  have hlen : (h.tcpBytes.drop 4).length = 16 := rfl
  rw [hlen, Nat.min_eq_left (by omega)]

theorem echo_verifies_iff {h' : Hdr} {len : UInt16} (hsrc : h'.srcport = h.srcport &&& 0xff00)
    (hdest : h'.destport = echoChksum h.destport) (hsame : h'.tcpBytes.drop 4 = h.tcpBytes.drop 4)
    (htype : loByte h.srcport = 8) (hlen : 24 ≤ len.toNat) (hmsg : uipChksum (icmpMsg h data len) = 0xffff) :
    uipChksum (icmpMsg h' (data.take (len.toNat - 40)) len) = 0xffff ↔
      ∃ b ∈ hiByte h.srcport :: (icmpMsg h data len).drop 4, b ≠ 0 := by
  have hold := (Sums.uipChksum (icmpMsg h data len)).verifies_iff.mp hmsg
  have hsum := icmpMsg_sum h data hlen
  have hsum' := icmpMsg_sum h' (data.take (len.toNat - 40)) hlen
  have hchk := echoChksum_toNat h.destport
  have hlt := h.destport.toNat_lt
  have hbytes := bytes_toNat (echoChksum h.destport)
  have hany : (∃ b ∈ hiByte h.srcport :: (icmpMsg h data len).drop 4, b ≠ 0) ↔
      ¬((hiByte h.srcport).toNat = 0 ∧ beSum ((icmpMsg h data len).drop 4) = 0) := by
    have hcode : (hiByte h.srcport).toNat = 0 ↔ hiByte h.srcport = 0 := UInt8.toNat_inj (b := 0)
    rw [hcode, beSum_eq_zero, ← List.forall_mem_cons (p := fun b => b = 0)]
    simp only [not_forall, exists_prop, ne_eq]
  rw [icmpMsg_drop h h' data len hsame, hsrc, hdest, loByte_and, hiByte_and, UInt8.toNat_zero] at hsum'
  rw [htype] at hsum
  have h8 : (8 : UInt8).toNat = 8 := rfl
  rw [(Sums.uipChksum _).verifies_iff, hsum', hany]
  split at hchk <;> omega

/-- The answer to an echo request that passes the tests: its data come back, and its checksum is right unless the code,
the identifier, the number and the data are zero everywhere. The IP header keeps its checksum. -/
theorem echo_reply_verifies_iff (appcall : App α γ) (s : Stack α γ) (h : Hdr) (data : List UInt8) (len : UInt16)
    (hvhl : h.vhl = 0x45) (hoffset : h.ipoffset.1 &&& 0x3f = 0 ∧ h.ipoffset.2 = 0) (hdest : h.destipaddr = s.hostaddr)
    (hip : uipIpchksum h = 0xffff) (hproto : h.proto = 1) (htype : loByte h.srcport = 8) (hlen : 24 ≤ h.ipLen.toNat)
    (hmsg : uipChksum (icmpMsg h data h.ipLen) = 0xffff) :
    ∃ p, step appcall s (.packet h data len) = some ⟨s, some p, none⟩ ∧ p.len = h.ipLen ∧ uipIpchksum p.hdr = 0xffff ∧
      p.hdr.srcipaddr = s.hostaddr ∧ p.hdr.destipaddr = h.srcipaddr ∧ loByte p.hdr.srcport = 0 ∧
      (icmpMsg p.hdr p.data p.len).drop 4 = (icmpMsg h data h.ipLen).drop 4 ∧
      (uipChksum (icmpMsg p.hdr p.data p.len) = 0xffff ↔ ∃ b ∈ hiByte h.srcport :: (icmpMsg h data h.ipLen).drop 4, b ≠ 0) := by
  have hstep : step appcall s (.packet h data len) = some (icmpInput s h data h.ipLen) := by
    simp [step, uipInput, hvhl, hoffset, hdest, hip, hproto, fixLen_eq]
  refine ⟨⟨{ h with
    srcport := h.srcport &&& 0xff00, destport := echoChksum h.destport, srcipaddr := h.destipaddr, destipaddr := h.srcipaddr },
    data.take (h.ipLen.toNat - 40), h.ipLen⟩, ?_, rfl, ?_, hdest, rfl, loByte_and _, ?_, ?_⟩
  · rw [hstep, icmpInput]
    simp [htype, echoChksum]
  · exact (uipIpchksum_swap h).trans hip
  · exact icmpMsg_drop h _ data h.ipLen rfl
  · exact echo_verifies_iff rfl rfl rfl htype hlen hmsg

/-- An echo request of `ping`: the identifier 1, the number 2 and the data 7. -/
def ping : Hdr where
  vhl := 0x45
  tos := 0
  len := (0, 32)
  ipid := (0, 1)
  ipoffset := (0, 0)
  ttl := 64
  proto := 1
  ipchksum := 0x88f7
  srcipaddr := (0xa8c0, 0x0201)
  destipaddr := (0xa8c0, 0x0101)
  srcport := 8
  destport := 0xf5f0
  seqno := ⟨0, 1, 0, 2⟩
  ackno := ⟨7, 7, 0, 0⟩
  tcpoffset := 0
  flags := 0
  wnd := (0, 0)
  tcpchksum := 0
  urgp := (0, 0)

theorem echo_reply_verifies_iff_ping : ∃ p, step reader (idle Unit) (.packet ping [] 60) = some ⟨idle Unit, some p, none⟩ ∧
    uipChksum (icmpMsg p.hdr p.data p.len) = 0xffff := by
  obtain ⟨p, hstep, -, -, -, -, -, -, hchk⟩ := echo_reply_verifies_iff reader (idle Unit) ping [] 60 (by decide) (by decide)
    (by decide) (by decide) (by decide) (by decide) (by decide) (by decide)
  exact ⟨p, hstep, hchk.mpr ⟨1, by decide, by decide⟩⟩

end Uboot.Uip
