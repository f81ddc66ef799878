import Uboot.Lib.Except
import Uboot.Receive.Basic

/-!
# What reaches the UDP handler
-/

namespace Uboot.Receive

open Uboot.Lib Uboot.Defrag

/-- The packet is not read beyond its end, and a UDP handler gets a part of the IP packet. -/
structure Sound (cfg : Config) (st : DefragState) (pkt : List UInt8) : Prop where
  reads : netReceive cfg st pkt ≠ .error .overread
  inside : ∀ st' d, netReceive cfg st pkt = .ok (st', .udp d) → 0 ≤ d.len ∧ 28 + d.len ≤ d.ipLen

/-- `et_protlen` -/
def etProtlen (pkt : List UInt8) : Nat := (pkt.getD 12 0).toNat * 256 + (pkt.getD 13 0).toNat

/-- An 802.2 frame has all of its header. -/
def LinkHeader (pkt : List UInt8) : Prop := 14 ≤ pkt.length → etProtlen pkt < 1514 → 22 ≤ pkt.length

/-- The UDP length of every UDP packet that is handed on counts its header and lies inside the IP packet. -/
def UdpLength (cfg : Config) (st : DefragState) (pkt : List UInt8) : Prop :=
  ∀ link, linkInput cfg pkt = .ok (some link) → link.ethProto = 0x0800 →
    ∀ st' srcIp ip, ipReceive cfg st pkt link = .ok (st', some (srcIp, ip)) → ip.ipP = 17 →
      8 ≤ ip.udpLen ∧ 20 + ip.udpLen ≤ ip.len

/-! ## Reads -/

section
variable {cfg : Config} {st : DefragState} {pkt : List UInt8} {i : Nat}

theorem byteAt_ok (h : i < pkt.length) : byteAt pkt i = .ok (pkt.getD i 0).toNat := by
  rw [byteAt, List.getElem?_eq_getElem h, List.getD_eq_getElem _ _ h]

theorem byteAt_error (h : pkt.length ≤ i) : byteAt pkt i = .error .overread := by
  rw [byteAt, List.getElem?_eq_none h]

theorem halfAt_ok (h : i + 1 < pkt.length) :
    halfAt pkt i = .ok ((pkt.getD i 0).toNat * 256 + (pkt.getD (i + 1) 0).toNat) := by
  rw [halfAt, byteAt_ok (by omega), ok_bind, byteAt_ok h, ok_bind]
  rfl

theorem halfAt_error (h : pkt.length ≤ i + 1) : halfAt pkt i = .error .overread := by
  rw [halfAt]
  rcases Nat.lt_or_ge i pkt.length with hlt | hge
  · rw [byteAt_ok hlt, ok_bind, byteAt_error h, error_bind]
  · rw [byteAt_error hge, error_bind]

theorem wordAt_ok (h : i + 3 < pkt.length) : ∃ n, wordAt pkt i = .ok n := by
  rw [wordAt, halfAt_ok (by omega), ok_bind, halfAt_ok (by omega), ok_bind]
  exact ⟨_, rfl⟩

theorem ipHdrAt_ok (h : i + 20 ≤ pkt.length) : ∃ hdr, ipHdrAt pkt i = .ok hdr := by
  obtain ⟨src, hsrc⟩ := wordAt_ok (show i + 12 + 3 < pkt.length by omega)
  obtain ⟨dst, hdst⟩ := wordAt_ok (show i + 16 + 3 < pkt.length by omega)
  rw [ipHdrAt, byteAt_ok (by omega), ok_bind, byteAt_ok (by omega), ok_bind, halfAt_ok (by omega), ok_bind,
    halfAt_ok (by omega), ok_bind, halfAt_ok (by omega), ok_bind, byteAt_ok (by omega), ok_bind, byteAt_ok (by omega),
    ok_bind, halfAt_ok (by omega), ok_bind, hsrc, ok_bind, hdst, ok_bind]
  exact ⟨_, rfl⟩

theorem halfSum_ok {n : Nat} (h : i + 2 * n ≤ pkt.length) : ∃ s, halfSum pkt i n = .ok s := by
  induction n generalizing i with
  | zero => exact ⟨0, rfl⟩
  | succ n ih =>
      obtain ⟨s, hs⟩ := ih (show i + 2 + 2 * n ≤ pkt.length by omega)
      rw [halfSum, byteAt_ok (by omega), ok_bind, byteAt_ok (by omega), ok_bind, hs, ok_bind]
      exact ⟨_, rfl⟩

/-! ## The stages -/

/-- The rest of the frame begins behind the Ethernet header. -/
def Link.Of (link : Link) (pkt : List UInt8) : Prop := link.len = (pkt.length : Int) - link.ip ∧ 0 ≤ link.len

theorem vlanFilter_some {link link' : Link} {vlanid : Nat} (h : vlanFilter cfg vlanid link = some link') :
    link' = link := by
  simp only [vlanFilter, Option.ite_none_left_eq_some, Option.some.injEq] at h
  exact h.2.symm

theorem linkInput_ok (h : LinkHeader pkt) :
    ∃ r, linkInput cfg pkt = .ok r ∧ ∀ link, r = some link → link.Of pkt := by
  rw [linkInput]
  split
  · exact ⟨none, rfl, by simp⟩
  rename_i hlen
  rw [halfAt_ok (by omega), ok_bind]
  have hproto : (pkt.getD 12 0).toNat * 256 + (pkt.getD (12 + 1) 0).toNat = etProtlen pkt := rfl
  rw [hproto]
  split
  · rename_i hsmall
    have hlong := h (by omega) hsmall
    rw [halfAt_ok (by omega), ok_bind]
    refine ⟨_, rfl, fun link hlink => ?_⟩
    rw [vlanFilter_some hlink]
    exact ⟨rfl, by dsimp only; omega⟩
  split
  · refine ⟨_, rfl, fun link hlink => ?_⟩
    rw [vlanFilter_some hlink]
    exact ⟨rfl, by dsimp only; omega⟩
  split
  · exact ⟨none, rfl, by simp⟩
  rename_i hvlan
  split
  · exact ⟨none, rfl, by simp⟩
  rw [halfAt_ok (by omega), ok_bind, halfAt_ok (by omega), ok_bind]
  refine ⟨_, rfl, fun link hlink => ?_⟩
  rw [vlanFilter_some hlink]
  exact ⟨rfl, by dsimp only; omega⟩

theorem linkInput_error (h : ¬ LinkHeader pkt) : linkInput cfg pkt = .error .overread := by
  simp only [LinkHeader, Classical.not_imp, not_le] at h
  obtain ⟨hlen, hsmall, hshort⟩ := h
  have hproto : (pkt.getD 12 0).toNat * 256 + (pkt.getD (12 + 1) 0).toNat = etProtlen pkt := rfl
  rw [linkInput]
  rw [if_neg (by omega), halfAt_ok (by omega), ok_bind, hproto, if_pos hsmall, halfAt_error (by omega), error_bind]

theorem ipInput_ok {link : Link} (h : link.Of pkt) : ∃ r, ipInput cfg pkt link = .ok r ∧
    (r.isSome → link.ip + 28 ≤ pkt.length) := by
  obtain ⟨hlen, hpos⟩ := h
  rw [ipInput]
  split
  · exact ⟨none, rfl, by simp⟩
  rename_i hbig
  have hroom : link.ip + 28 ≤ pkt.length := by
    omega
  obtain ⟨hdr, hhdr⟩ := ipHdrAt_ok (show link.ip + 20 ≤ pkt.length by omega)
  obtain ⟨s, hs⟩ := halfSum_ok (show link.ip + 2 * 10 ≤ pkt.length by omega)
  rw [hhdr, ok_bind, netCksumOk, hs, ok_bind]
  exact ⟨_, rfl, fun _ => hroom⟩

theorem netDefragment_reads {off : Nat} (h : off + 28 ≤ pkt.length) (hdr : IpHdr) :
    netDefragment cfg st pkt off hdr ≠ .error .overread := by
  rw [netDefragment]
  split
  · rw [frameUdp, halfAt_ok (by omega), ok_bind, halfAt_ok (by omega), ok_bind, halfAt_ok (by omega), ok_bind]
    intro he
    cases he
  split
  · simp
  dsimp only
  split
  · split <;> simp
  · simp

theorem ipReceive_reads {link : Link} (h : link.Of pkt) : ipReceive cfg st pkt link ≠ .error .overread := by
  obtain ⟨r, hr, hroom⟩ : ∃ r, ipInput cfg pkt link = .ok r ∧ _ := ipInput_ok h
  rw [ipReceive, hr, ok_bind]
  cases r with
  | none =>
      intro he
      cases he
  | some hdr =>
      have hreads : netDefragment cfg st pkt link.ip hdr ≠ .error .overread := netDefragment_reads (hroom rfl) hdr
      dsimp only
      cases hd : netDefragment cfg st pkt link.ip hdr with
      | error e =>
          rw [error_bind]
          intro he
          exact hreads (hd.trans (congrArg _ (Except.error.inj he)))
      | ok r =>
          rw [ok_bind]
          intro he
          cases he

/-! ## The whole function -/

theorem netReceive_of_none (h : linkInput cfg pkt = .ok none) : netReceive cfg st pkt = .ok (st, .drop) := by
  rw [netReceive, h, ok_bind]
  rfl

theorem netReceive_of_some {link : Link} (h : linkInput cfg pkt = .ok (some link)) : netReceive cfg st pkt =
    if link.ethProto = 0x0806 then .ok (st, .arp link.ip link.len)
    else if link.ethProto = 0x0800 then
      ipReceive cfg st pkt link >>= fun r => .ok (r.1, match r.2 with
        | none => .drop
        | some (srcIp, ip) => dispatch srcIp ip)
    else .ok (st, .drop) := by
  rw [netReceive, h, ok_bind]
  rfl

theorem dispatch_udp {srcIp : UInt32} {ip : IpUdp} {d : Delivery} (h : dispatch srcIp ip = .udp d) :
    ip.ipP = 17 ∧ d.ipLen = ip.len ∧ d.len = ip.udpLen - 8 := by
  unfold dispatch at h
  split at h
  · cases h
  split at h
  · cases h
  rename_i hudp
  cases h
  exact ⟨not_not.mp hudp, rfl, rfl⟩

/-- A call of the UDP handler comes from a UDP packet that was handed on. -/
theorem netReceive_udp {st' : DefragState} {d : Delivery} (h : netReceive cfg st pkt = .ok (st', .udp d)) :
    ∃ link srcIp ip, linkInput cfg pkt = .ok (some link) ∧ link.ethProto = 0x0800 ∧
      ipReceive cfg st pkt link = .ok (st', some (srcIp, ip)) ∧ dispatch srcIp ip = .udp d := by
  cases hl : linkInput cfg pkt with
  | error e =>
      rw [netReceive, hl, error_bind] at h
      cases h
  | ok r =>
      cases r with
      | none =>
          rw [netReceive_of_none hl] at h
          cases h
      | some link =>
          rw [netReceive_of_some hl] at h
          split at h
          · cases h
          split at h
          · rename_i hproto
            cases hr : ipReceive cfg st pkt link with
            | error e =>
                rw [hr, error_bind] at h
                cases h
            | ok r =>
                obtain ⟨st₁, out⟩ := r
                rw [hr, ok_bind] at h
                cases out with
                | none => cases h
                | some q =>
                    obtain ⟨srcIp, ip⟩ := q
                    have heq := Prod.ext_iff.mp (Except.ok.inj h)
                    obtain rfl : st₁ = st' := heq.1
                    exact ⟨link, srcIp, ip, rfl, hproto, hr, heq.2⟩
          · cases h

theorem netReceive_reads (h : LinkHeader pkt) : netReceive cfg st pkt ≠ .error .overread := by
  obtain ⟨r, hr, hof⟩ : ∃ r, linkInput cfg pkt = .ok r ∧ _ := linkInput_ok h
  cases r with
  | none =>
      rw [netReceive_of_none hr]
      simp
  | some link =>
      rw [netReceive_of_some hr]
      split
      · simp
      split
      · have hreads : ipReceive cfg st pkt link ≠ .error .overread := ipReceive_reads (hof link rfl)
        cases hi : ipReceive cfg st pkt link with
        | error e =>
            rw [error_bind]
            intro he
            exact hreads (hi.trans (congrArg _ (Except.error.inj he)))
        | ok r =>
            rw [ok_bind]
            intro he
            cases he
      · simp

/-- Every frame is handled inside its bounds if and only if an 802.2 frame has all of its header, and a UDP packet that is
handed on has a UDP length that counts its header and lies inside the IP packet. -/
theorem sound_iff : Sound cfg st pkt ↔ LinkHeader pkt ∧ UdpLength cfg st pkt := by
  constructor
  · rintro ⟨hreads, hinside⟩
    constructor
    · by_contra hno
      refine hreads ?_
      rw [netReceive, linkInput_error hno, error_bind]
    · intro link hl hproto st' srcIp ip hr hudp
      have hcall : netReceive cfg st pkt =
          .ok (st', .udp ⟨ip.len, ip.udpDst, srcIp, ip.udpSrc, ip.udpLen - 8⟩) := by
        rw [netReceive_of_some hl]
        simp only [hproto, hr, ok_bind, dispatch, hudp]
        rfl
      have hd := hinside _ _ hcall
      dsimp only at hd
      omega
  · rintro ⟨hlink, hudp⟩
    refine ⟨netReceive_reads hlink, fun st' d hcall => ?_⟩
    obtain ⟨link, srcIp, ip, hl, hproto, hr, hdispatch⟩ := netReceive_udp hcall
    obtain ⟨h17, hlen, hd⟩ := dispatch_udp hdispatch
    have hbound := hudp link hl hproto st' srcIp ip hr h17
    rw [hlen, hd]
    omega

end

/-- A frame with an IP packet of 28 bytes whose UDP length is 0xffff. -/
def longUdpFrame : List UInt8 :=
  [0xff, 0xff, 0xff, 0xff, 0xff, 0xff, 2, 0, 0, 0, 0, 1, 0x08, 0x00] ++
    [0x45, 0, 0, 28, 0, 0, 0, 0, 0x40, 17, 0x7a, 0xd2, 0, 0, 0, 0, 0, 0, 0, 0] ++ [0, 69, 0, 69, 0xff, 0xff, 0, 0]

/-- The call of the UDP handler, if there is one: the length of the IP packet and that of the payload. -/
def delivered (r : Except Fault (DefragState × Action)) : Option (Nat × Int) :=
  match r with
  | .ok (_, .udp d) => some (d.ipLen, d.len)
  | _ => none

theorem delivered_some {r : Except Fault (DefragState × Action)} {n : Nat} {l : Int} (h : delivered r = some (n, l)) :
    ∃ st d, r = .ok (st, .udp d) ∧ d.ipLen = n ∧ d.len = l := by
  unfold delivered at h
  split at h
  next st d =>
    have heq := Prod.ext_iff.mp (Option.some.inj h)
    exact ⟨st, d, rfl, heq.1, heq.2⟩
  next => cases h

theorem udp_length_unchecked :
    ¬ Sound ⟨false, 0, 0xffff, 0xffff⟩ ⟨⟨0, 0, 0, 0, 0, 0, 0, 0, 0, 0⟩, fun _ => 0, 0, 0⟩ longUdpFrame := by
  intro h
  have hcall : delivered (netReceive ⟨false, 0, 0xffff, 0xffff⟩ ⟨⟨0, 0, 0, 0, 0, 0, 0, 0, 0, 0⟩, fun _ => 0, 0, 0⟩
      longUdpFrame) = some (28, 65527) := by decide
  obtain ⟨st, d, hr, hn, hl⟩ := delivered_some hcall
  have hin := (h.inside st d hr).2
  rw [hn, hl] at hin
  exact absurd hin (by decide)

end Uboot.Receive
