import Uboot.Ping.Basic
import Uboot.Receive.Theorems

/-!
# Which echo requests are answered
-/

namespace Uboot.Ping

open Uboot.Lib Uboot.Defrag Uboot.Receive

/-! ## What `NetReceive` has checked -/

section
variable {pkt : List UInt8} {link : Link} {hdr : IpHdr} {i : Nat}

/-- The size of the Ethernet header that the IP packet follows. -/
theorem linkInput_some {cfg : Receive.Config} (h : linkInput cfg pkt = .ok (some link)) (hip : link.ethProto = 0x0800) :
    link.Of pkt ∧ link.ip = ethHdrSize pkt := by
  have hlh : LinkHeader pkt := by
    by_contra hn
    rw [linkInput_error hn] at h
    cases h
  have hproto : (pkt.getD 12 0).toNat * 256 + (pkt.getD (12 + 1) 0).toNat = etProtlen pkt := rfl
  refine ⟨?_, ?_⟩
  · obtain ⟨r, hr, hof⟩ : ∃ r, linkInput cfg pkt = .ok r ∧ _ := linkInput_ok hlh
    rw [hr] at h
    cases h
    exact hof link rfl
  · have hsize : ethHdrSize pkt = if etProtlen pkt = 0x8100 then 18 else if 1514 < etProtlen pkt then 14 else 22 := rfl
    rw [linkInput] at h
    split at h
    · cases h
    rename_i hlen
    rw [halfAt_ok (by omega), ok_bind, hproto] at h
    split at h
    · obtain ⟨_, _, h⟩ := bind_eq_ok h
      rw [vlanFilter_some (Except.ok.inj h), hsize, if_neg (by omega), if_neg (by omega)]
    split at h
    · have hlink := vlanFilter_some (Except.ok.inj h)
      rw [hlink] at hip
      dsimp only at hip
      rw [hlink, hsize, if_neg ‹_›, if_pos (by omega)]
    split at h
    · cases h
    split at h
    · cases h
    rename_i hvlan _ _
    obtain ⟨_, _, h⟩ := bind_eq_ok h
    obtain ⟨_, _, h⟩ := bind_eq_ok h
    rw [vlanFilter_some (Except.ok.inj h), hsize, if_pos (not_not.mp hvlan)]

theorem ipInput_some {cfg : Receive.Config} (hof : link.Of pkt) (h : ipInput cfg pkt link = .ok (some hdr)) :
    ipHdrAt pkt link.ip = .ok hdr ∧ link.ip + 28 ≤ pkt.length ∧ link.ip + hdr.ipLen.toNat ≤ pkt.length := by
  have hroom : link.ip + 28 ≤ pkt.length := by
    obtain ⟨r, hr, hroom⟩ : ∃ r, ipInput cfg pkt link = .ok r ∧ _ := ipInput_ok hof
    rw [hr] at h
    cases h
    exact hroom rfl
  rw [ipInput] at h
  split at h
  · cases h
  obtain ⟨hdr', hhdr, h⟩ := bind_eq_ok h
  obtain ⟨_, _, h⟩ := bind_eq_ok h
  have h := Except.ok.inj h
  simp only [Option.ite_none_left_eq_some, Option.some.injEq] at h
  obtain ⟨hlen, -, -, -, -, rfl⟩ := h
  refine ⟨hhdr, hroom, ?_⟩
  have := hof.1
  omega

theorem ipHdrAt_fields (hi : i + 20 ≤ pkt.length) (h : ipHdrAt pkt i = .ok hdr) :
    hdr.ipLen.toNat = (pkt.getD (i + 2) 0).toNat * 256 + (pkt.getD (i + 3) 0).toNat ∧
      hdr.ipOff.toNat = (pkt.getD (i + 6) 0).toNat * 256 + (pkt.getD (i + 7) 0).toNat := by
  have half : ∀ a b : UInt8, (UInt16.ofNat (a.toNat * 256 + b.toNat)).toNat = a.toNat * 256 + b.toNat := by
    intro a b
    have := a.toNat_lt
    have := b.toNat_lt
    rw [UInt16.toNat_ofNat', Nat.mod_eq_of_lt]
    omega
  rw [ipHdrAt, byteAt_ok (by omega), ok_bind, byteAt_ok (by omega), ok_bind, halfAt_ok (by omega), ok_bind,
    halfAt_ok (by omega), ok_bind, halfAt_ok (by omega), ok_bind] at h
  obtain ⟨_, _, h⟩ := bind_eq_ok h
  obtain ⟨_, _, h⟩ := bind_eq_ok h
  obtain ⟨_, _, h⟩ := bind_eq_ok h
  obtain ⟨_, _, h⟩ := bind_eq_ok h
  obtain ⟨_, _, h⟩ := bind_eq_ok h
  cases h
  exact ⟨half _ _, half _ _⟩

end

/-- The frame of an ICMP packet. -/
structure Accepted (frame : Mem) (n off : Nat) (p : Location) (len : Nat) : Prop where
  off_eq : off = ethHdrSize (frame.read 0 n)
  room : off + 28 ≤ n
  frag : ((frame (off + 6)).toNat * 256 + (frame (off + 7)).toNat &&& 0x3fff = 0 ∧ p = .frame off ∧
      len = (frame (off + 2)).toNat * 256 + (frame (off + 3)).toNat ∧ off + len ≤ n) ∨
    ((frame (off + 6)).toNat * 256 + (frame (off + 7)).toNat &&& 0x3fff ≠ 0 ∧ ∃ r, p = .pktBuff r)

theorem read_getD {m : Mem} {n i : Nat} (h : i < n) : (m.read 0 n).getD i 0 = m i := by
  simp [Mem.read, h]

theorem icmpPacket_some {cfg : Config} {st : DefragState} {frame : Mem} {n len : Nat} {p : Location}
    (h : icmpPacket cfg st (frame.read 0 n) = .ok (some (p, len))) : ∃ off, Accepted frame n off p len := by
  obtain ⟨link?, hlink, h⟩ := bind_eq_ok h
  cases link? with
  | none => cases h
  | some link =>
    dsimp only at h
    split at h
    · cases h
    rename_i hproto
    obtain ⟨hof, hip⟩ := linkInput_some hlink (not_not.mp hproto)
    obtain ⟨hdr?, hhdr, h⟩ := bind_eq_ok h
    cases hdr? with
    | none => cases h
    | some hdr =>
      obtain ⟨hhdrAt, hroom, hlen⟩ := ipInput_some hof hhdr
      obtain ⟨hipLen, hipOff⟩ := ipHdrAt_fields (by omega) hhdrAt
      rw [Mem.read_length] at hroom hlen
      rw [read_getD (by omega), read_getD (by omega)] at hipLen hipOff
      have hmask : hdr.ipOff &&& (ipOffs ||| ipFlagsMfrag) = 0 ↔
          (frame (link.ip + 6)).toNat * 256 + (frame (link.ip + 7)).toNat &&& 0x3fff = 0 := by
        rw [← hipOff, ← UInt16.toNat_inj, UInt16.toNat_and]
        rfl
      refine ⟨link.ip, hip, hroom, ?_⟩
      dsimp only at h
      split at h
      · rename_i hwhole
        left
        have h := Except.ok.inj h
        simp only [Option.ite_none_right_eq_some, Option.some.injEq, Prod.mk.injEq] at h
        obtain ⟨-, rfl, rfl⟩ := h
        exact ⟨hmask.mp hwhole, rfl, hipLen, hlen⟩
      · rename_i hfrag
        right
        refine ⟨fun h0 => hfrag (hmask.mpr h0), ?_⟩
        split at h
        · cases h
        split at h
        · split at h
          · cases h
          · cases h
          · rename_i r _
            have h := Except.ok.inj h
            simp only [Option.ite_none_right_eq_some, Option.some.injEq, Prod.mk.injEq] at h
            exact ⟨r, h.2.1.symm⟩
        · cases h

/-- These are the ICMP packets of `NetReceive`. -/
theorem icmpPacket_of_netReceive {cfg : Config} {st st' : DefragState} {pkt : List UInt8} {len : Nat}
    (h : netReceive cfg.toConfig st pkt = .ok (st', .icmp len)) :
    ∃ p, icmpPacket cfg st pkt = .ok (some (p, len)) := by
  obtain ⟨link?, hlink, h⟩ := bind_eq_ok h
  cases link? with
  | none => cases h
  | some link =>
    dsimp only at h
    split at h
    · cases h
    split at h
    · rename_i hproto
      obtain ⟨⟨st₁, r?⟩, hreceive, h⟩ := bind_eq_ok h
      cases r? with
      | none => cases h
      | some r =>
        obtain ⟨srcIp, ip⟩ := r
        have hicmp : ip.ipP = 1 ∧ ip.len = len := by
          have h := (Prod.mk.inj (Except.ok.inj h)).2
          simp only [dispatch] at h
          split at h
          · exact ⟨‹_›, Action.icmp.inj h⟩
          · split at h <;> cases h
        obtain ⟨hdr?, hhdr, hreceive⟩ := bind_eq_ok hreceive
        cases hdr? with
        | none => cases hreceive
        | some hdr =>
          obtain ⟨⟨st₂, ip?⟩, hdefrag, hreceive⟩ := bind_eq_ok hreceive
          have hip : ip? = some ip := by
            obtain ⟨ip', hip', he⟩ := Option.map_eq_some_iff.mp (Prod.mk.inj (Except.ok.inj hreceive)).2
            cases he
            exact hip'
          subst hip
          simp only [icmpPacket, hlink, ok_bind, hproto, ne_eq, not_true_eq_false, if_false, hhdr]
          rw [Receive.netDefragment] at hdefrag
          split at hdefrag
          · rename_i hwhole
            obtain ⟨ip', hudp, he⟩ := bind_eq_ok hdefrag
            cases he
            obtain ⟨_, _, hudp⟩ := bind_eq_ok hudp
            obtain ⟨_, _, hudp⟩ := bind_eq_ok hudp
            obtain ⟨_, _, hudp⟩ := bind_eq_ok hudp
            cases hudp
            obtain ⟨hp, rfl⟩ := hicmp
            rw [if_pos hwhole, if_pos hp]
            exact ⟨.frame link.ip, rfl⟩
          · rename_i hfrag
            split at hdefrag
            · cases hdefrag
            rename_i hon
            dsimp only at hdefrag
            split at hdefrag
            · rename_i room
              rw [if_neg hfrag, if_neg hon, dif_pos room]
              cases hchecked : checkedDefragment st ⟨hdr, pkt.drop (link.ip + 20), room⟩ with
              | error fault =>
                rw [hchecked] at hdefrag
                cases hdefrag
              | ok r =>
                obtain ⟨st₃, r?⟩ := r
                rw [hchecked] at hdefrag
                obtain ⟨r, rfl, hr⟩ := Option.map_eq_some_iff.mp (Prod.mk.inj (Except.ok.inj hdefrag)).2
                obtain ⟨hp, hlen⟩ := hicmp
                rw [← hr] at hp hlen
                have hp' : r.localip.ipP = 1 := hp
                have hlen' : r.len = len := hlen
                dsimp only
                rw [if_pos hp', hlen']
                exact ⟨.pktBuff r, rfl⟩
            · cases hdefrag
    · cases h

/-! ## Memory -/

section
variable {m : Mem} {a i n k : Nat}

theorem halfwords_eq (m : Mem) (p len : Nat) : halfwords m p len = sum16 (m.read p (2 * len)) := by
  induction len generalizing p with
  | zero => rfl
  | succ len ih =>
    have htwo : m.read p 2 = [m p, m (p + 1)] := rfl
    rw [halfwords, ih, show 2 * (len + 1) = 2 + 2 * len by omega, Mem.read_add, htwo, sum16_append (by simp)]
    simp [sum16, Mem.readLe16]

theorem netCksum_eq (h : 2 * n < 2 ^ 16) : netCksum m a n = fold16 (fold16 (sum16 (m.read a (2 * n)))) := by
  have hle := sum16_le (m.read a (2 * n))
  rw [Mem.read_length] at hle
  rw [netCksum, halfwords_eq, Nat.mod_eq_of_lt (show sum16 (m.read a (2 * n)) < 2 ^ 32 by omega)]
  exact Nat.mod_eq_of_lt (Nat.lt_succ_of_le (fold16_twice_le (by omega)))

/-- A halfword is written over zeros. -/
theorem sum16_write {v : Nat} (hv : v < 65536) (hi : i % 2 = 0) (hn : i + 2 ≤ n) (h0 : m (a + i) = 0)
    (h1 : m (a + i + 1) = 0) : sum16 ((m.write (a + i) (Mem.le16 v)).read a n) = sum16 (m.read a n) + v := by
  have hreplace := @sum16_replace m a i n v hv hi hn
  rwa [Mem.readLe16, h0, h1] at hreplace

/-- The checksum field of a message of `n` bytes, of which the checksum covers `2 * k`. -/
theorem sum16_checksum (hk : 2 * k ≤ n) (hi : i % 2 = 0) (hin : i + 2 ≤ 2 * k) (hn : n < 2 ^ 16) (h0 : m (a + i) = 0)
    (h1 : m (a + i + 1) = 0) :
    0 < sum16 ((m.write (a + i) (Mem.le16 (65535 - netCksum m a k))).read a (2 * k)) ∧
      65535 ∣ sum16 ((m.write (a + i) (Mem.le16 (65535 - netCksum m a k))).read a (2 * k)) := by
  have hle := sum16_le (m.read a (2 * k))
  rw [Mem.read_length] at hle
  rw [sum16_write (by omega) hi hin h0 h1, netCksum_eq (by omega)]
  exact fold16_complement (by omega)

end

/-! ## The Ethernet header -/

section
variable {cfg : Config} {frame : Mem} {n : Nat}

/-- The size of the Ethernet header from the two bytes at 12. -/
def ethSize (hi lo : UInt8) : Nat :=
  if hi.toNat * 256 + lo.toNat = 0x8100 then 18 else if 1514 < hi.toNat * 256 + lo.toNat then 14 else 22

theorem ethSize_le (hi lo : UInt8) : 14 ≤ ethSize hi lo ∧ ethSize hi lo ≤ 22 := by
  rw [ethSize]
  split
  · omega
  · split <;> omega

theorem ethHdrSize_read (h : 14 ≤ n) : ethHdrSize (frame.read 0 n) = ethSize (frame 12) (frame 13) := by
  rw [ethHdrSize, read_getD (by omega), read_getD (by omega)]
  rfl

/-- The header of the reply has the form of that of the request, and nothing behind it changes. -/
theorem netUpdateEther_spec (cfg : Config) (frame : Mem) :
    (netUpdateEther cfg frame).2 = ethSize (frame 12) (frame 13) ∧
      (∀ i, ethSize (frame 12) (frame 13) ≤ i → (netUpdateEther cfg frame).1 i = frame i) ∧
      ethSize ((netUpdateEther cfg frame).1 12) ((netUpdateEther cfg frame).1 13) = ethSize (frame 12) (frame 13) := by
  have hether := cfg.ether_length
  have hkeep : ∀ i, 12 ≤ i → ((frame.write 0 (frame.read 6 6)).write 6 cfg.netOurEther) i = frame i := by
    intro i hi
    rw [Mem.write_of_ge (by omega), Mem.write_of_ge (by rw [Mem.read_length]; omega)]
  have hbyte : ∀ (m : Mem) (a b : Nat), b ≠ a → b ≠ a + 1 → m.write a [8, 0] b = m b := fun m a b h1 h2 =>
    Mem.write_other (by simp only [List.length_cons, List.length_nil]; omega)
  simp only [netUpdateEther, hkeep 12 (le_refl _), hkeep 13 (by omega)]
  by_cases hvlan : (frame 12).toNat * 256 + (frame 13).toNat = 0x8100
  · have hsize : ethSize (frame 12) (frame 13) = 18 := if_pos hvlan
    rw [if_pos hvlan, hsize]
    refine ⟨rfl, fun i hi => ?_, ?_⟩
    · dsimp only
      rw [hbyte _ _ _ (by omega) (by omega), hkeep i (by omega)]
    · dsimp only
      rw [hbyte _ _ _ (by omega) (by omega), hbyte _ _ _ (by omega) (by omega), hkeep 12 (by omega), hkeep 13 (by omega)]
      exact hsize
  · rw [if_neg hvlan]
    by_cases hproto : 1514 < (frame 12).toNat * 256 + (frame 13).toNat
    · have hsize : ethSize (frame 12) (frame 13) = 14 := by rw [ethSize, if_neg hvlan, if_pos hproto]
      rw [if_pos hproto, hsize]
      refine ⟨rfl, fun i hi => ?_, ?_⟩
      · dsimp only
        rw [hbyte _ _ _ (by omega) (by omega), hkeep i (by omega)]
      · dsimp only
        simp [Mem.write, ethSize]
    · have hsize : ethSize (frame 12) (frame 13) = 22 := by rw [ethSize, if_neg hvlan, if_neg hproto]
      rw [if_neg hproto, hsize]
      refine ⟨rfl, fun i hi => ?_, ?_⟩
      · dsimp only
        rw [hbyte _ _ _ (by omega) (by omega), hkeep i (by omega)]
      · dsimp only
        rw [hbyte _ _ _ (by omega) (by omega), hbyte _ _ _ (by omega) (by omega), hkeep 12 (by omega),
          hkeep 13 (by omega)]
        exact hsize

end

/-! ## The two headers of the reply -/

section
variable {cfg : Config} {m : Mem} {ip i len : Nat}

theorem replyIp_other (cfg : Config) (h : i < ip + 6 ∨ ip + 20 ≤ i) : replyIp cfg m ip i = m i := by
  have hle : ∀ v, (Mem.le16 v).length = 2 := fun _ => rfl
  have hip : (ipBytes cfg.netOurIP).length = 4 := rfl
  have htwo : ([0, 0] : List UInt8).length = 2 := rfl
  rw [replyIp, Mem.write_other (by rw [hle]; omega), Mem.write_other (by rw [hip]; omega),
    Mem.write_other (by rw [Mem.read_length]; omega), Mem.write_other (by rw [htwo]; omega), Mem.write_other (by rw [htwo]; omega)]

theorem replyIp_off (cfg : Config) (m : Mem) (ip : Nat) :
    replyIp cfg m ip (ip + 6) = 0 ∧ replyIp cfg m ip (ip + 7) = 0 := by
  have hle : ∀ v, (Mem.le16 v).length = 2 := fun _ => rfl
  have hip : (ipBytes cfg.netOurIP).length = 4 := rfl
  constructor
  · rw [replyIp, Mem.write_other (by rw [hle]; omega), Mem.write_other (by rw [hip]; omega),
      Mem.write_other (by rw [Mem.read_length]; omega)]
    exact Mem.write_of_mem (i := 0) (by simp)
  · rw [replyIp, Mem.write_other (by rw [hle]; omega), Mem.write_other (by rw [hip]; omega),
      Mem.write_other (by rw [Mem.read_length]; omega)]
    exact Mem.write_of_mem (a := ip + 6) (i := 1) (by simp)

theorem replyIp_verifies (cfg : Config) (m : Mem) (ip : Nat) : Verifies ((replyIp cfg m ip).read ip 20) := by
  have hip : (ipBytes cfg.netOurIP).length = 4 := rfl
  have htwo : ([0, 0] : List UInt8).length = 2 := rfl
  rw [verifies_iff (by rw [Mem.read_length]; decide), replyIp]
  refine sum16_checksum (k := 10) (n := 20) (by omega) rfl (by omega) (by decide) ?_ ?_
  · rw [Mem.write_other (by rw [hip]; omega), Mem.write_other (by rw [Mem.read_length]; omega), Mem.write_other (by rw [htwo]; omega)]
    exact Mem.write_of_mem (i := 0) (by simp)
  · rw [Mem.write_other (by rw [hip]; omega), Mem.write_other (by rw [Mem.read_length]; omega), Mem.write_other (by rw [htwo]; omega)]
    exact Mem.write_of_mem (a := ip + 10) (i := 1) (by simp)

theorem replyIcmp_other (h : i < ip ∨ ip + 4 ≤ i) : replyIcmp m ip len i = m i := by
  have hle : ∀ v, (Mem.le16 v).length = 2 := fun _ => rfl
  have htwo : ([0, 0] : List UInt8).length = 2 := rfl
  have hone : ([0] : List UInt8).length = 1 := rfl
  rw [replyIcmp, Mem.write_other (by rw [hle]; omega), Mem.write_other (by rw [htwo]; omega), Mem.write_other (by rw [hone]; omega)]

theorem replyIcmp_type (m : Mem) (ip len : Nat) : replyIcmp m ip len ip = 0 := by
  have hle : ∀ v, (Mem.le16 v).length = 2 := fun _ => rfl
  have htwo : ([0, 0] : List UInt8).length = 2 := rfl
  rw [replyIcmp, Mem.write_other (by rw [hle]; omega), Mem.write_other (by rw [htwo]; omega)]
  exact Mem.write_of_mem (a := ip) (i := 0) (by simp)

/-- The checksum leaves an odd byte out. -/
theorem replyIcmp_verifies_iff (h4 : 4 ≤ len) (hlen : len < 2 ^ 16) :
    Verifies ((replyIcmp m ip len).read ip len) ↔ len % 2 = 0 ∨ m (ip + (len - 1)) = 0 := by
  have htwo : ([0, 0] : List UInt8).length = 2 := rfl
  obtain ⟨hpos, hdvd⟩ := sum16_checksum (m := (m.write ip [0]).write (ip + 2) [0, 0]) (a := ip) (i := 2) (n := len)
    (k := len / 2) (by omega) rfl (by omega) hlen (Mem.write_of_mem (a := ip + 2) (i := 0) (by simp))
    (Mem.write_of_mem (a := ip + 2) (i := 1) (by simp))
  have hdef : replyIcmp m ip len = ((m.write ip [0]).write (ip + 2) [0, 0]).write (ip + 2)
      (Mem.le16 (65535 - netCksum ((m.write ip [0]).write (ip + 2) [0, 0]) ip (len / 2))) := rfl
  rw [← hdef] at hpos hdvd
  rw [verifies_iff (by rw [Mem.read_length]; omega)]
  generalize hk : len / 2 = k at hpos hdvd
  rcases Nat.mod_two_eq_zero_or_one len with heven | hodd
  · have hlen' : (replyIcmp m ip len).read ip len = (replyIcmp m ip len).read ip (2 * k) := by
      congr 1
      omega
    rw [hlen']
    exact iff_of_true ⟨hpos, hdvd⟩ (.inl heven)
  · have hlast : replyIcmp m ip len (ip + 2 * k) = m (ip + (len - 1)) := by
      rw [replyIcmp_other (by omega)]
      congr 1
      omega
    have hsplit : (replyIcmp m ip len).read ip len = (replyIcmp m ip len).read ip (2 * k) ++ [m (ip + (len - 1))] := by
      rw [← hlast]
      have hone : (replyIcmp m ip len).read (ip + 2 * k) 1 = [replyIcmp m ip len (ip + 2 * k)] := rfl
      rw [← hone, ← Mem.read_add]
      congr 1
      omega
    have hbyte := (m (ip + (len - 1))).toNat_lt
    rw [hsplit, sum16_append (by rw [Mem.read_length]; omega), sum16]
    constructor
    · rintro ⟨-, hsum⟩
      right
      have hdvd' : 65535 ∣ (m (ip + (len - 1))).toNat := (Nat.dvd_add_right hdvd).mp hsum
      rw [← UInt8.toNat_inj]
      exact Nat.eq_zero_of_dvd_of_lt hdvd' (by omega)
    · intro h
      have hzero : m (ip + (len - 1)) = 0 := h.resolve_left (by omega)
      rw [hzero]
      exact ⟨Nat.lt_of_lt_of_le hpos (Nat.le_add_right _ _), hdvd⟩

end

/-! ## Answers -/

section
variable {cfg : Config} {frame : Mem} {n off len : Nat} {p : Location}

/-- The frame that is sent for a request in the frame. -/
def replyFrame (cfg : Config) (frame : Mem) (off len : Nat) : Mem :=
  replyIcmp (replyIp cfg (netUpdateEther cfg frame).1 off) (off + 20) (len - 20)

theorem message_length (p : Location) (frame : Mem) (len : Nat) : (p.message frame len).length = len - 20 := by
  simp [Location.message]

/-- The IP packet of a frame with an Ethernet header of size `off`. -/
theorem ipPart_read {m : Mem} (hoff : ethSize (m 12) (m 13) = off) (len : Nat) :
    ipPart (m.read 0 (off + len)) = m.read off len := by
  have hle := ethSize_le (m 12) (m 13)
  rw [ipPart, ethHdrSize_read (by omega), hoff, Mem.read_drop, Nat.zero_add]

/-- The frame of a request that was put together is still a fragment. -/
theorem not_answered_of_fragment (h : Accepted frame n off p len) {r : Reassembled} (hp : p = .pktBuff r)
    (hreq : p.icmp frame 0 = 8) : ¬ Answered cfg frame p len := by
  rintro ⟨reply, hreply, hvalid⟩
  have hoff : off = ethSize (frame 12) (frame 13) := h.off_eq.trans (ethHdrSize_read (by have := h.room; omega))
  obtain ⟨hsize, hkeep, hform⟩ := netUpdateEther_spec cfg frame
  have hfrag : (frame (off + 6)).toNat * 256 + (frame (off + 7)).toNat &&& 0x3fff ≠ 0 := by
    rcases h.frag with ⟨-, hframe, -⟩ | ⟨hfrag, -⟩
    · rw [hp] at hframe
      cases hframe
    · exact hfrag
  have hfour := hvalid.icmpCksum.2
  rw [message_length] at hfour
  rw [pingReceive, hreq, if_neg (by decide), if_pos rfl, echo] at hreply
  dsimp only at hreply
  rw [if_neg (by omega), hp] at hreply
  obtain rfl := Outcome.sent.inj (Except.ok.inj hreply)
  have hwhole := hvalid.whole
  rw [hsize, ← hoff, ipPart_read (hform.trans hoff.symm), Mem.getD_read (by omega), Mem.getD_read (by omega),
    hkeep _ (by omega), hkeep _ (by omega)] at hwhole
  exact hfrag hwhole

/-- What the bytes of the reply are. -/
theorem replyFrame_spec (cfg : Config) (len : Nat) (hoff : off = ethSize (frame 12) (frame 13)) :
    ethSize (replyFrame cfg frame off len 12) (replyFrame cfg frame off len 13) = off ∧
      (∀ i, off ≤ i → i < off + 6 → replyFrame cfg frame off len i = frame i) ∧
      (replyFrame cfg frame off len (off + 6) = 0 ∧ replyFrame cfg frame off len (off + 7) = 0) ∧
      Verifies ((replyFrame cfg frame off len).read off 20) ∧
      replyFrame cfg frame off len (off + 20) = 0 ∧
      ∀ i, off + 24 ≤ i → replyFrame cfg frame off len i = frame i := by
  obtain ⟨-, hkeep, hform⟩ := netUpdateEther_spec cfg frame
  have hle := ethSize_le (frame 12) (frame 13)
  have hbelow : ∀ i < off + 6, replyFrame cfg frame off len i = (netUpdateEther cfg frame).1 i := by
    intro i hi
    rw [replyFrame, replyIcmp_other (by omega), replyIp_other cfg (by omega)]
  refine ⟨?_, ?_, ?_, ?_, replyIcmp_type _ _ _, ?_⟩
  · rw [hbelow 12 (by omega), hbelow 13 (by omega), hform, hoff]
  · intro i hi hi'
    rw [hbelow i hi', hkeep i (by omega)]
  · obtain ⟨h6, h7⟩ := replyIp_off cfg (netUpdateEther cfg frame).1 off
    exact ⟨(replyIcmp_other (by omega)).trans h6, (replyIcmp_other (by omega)).trans h7⟩
  · have hread : (replyFrame cfg frame off len).read off 20 = (replyIp cfg (netUpdateEther cfg frame).1 off).read off 20 :=
      Mem.read_congr fun j hj => replyIcmp_other (by omega)
    rw [hread]
    exact replyIp_verifies cfg _ off
  · intro i hi
    rw [replyFrame, replyIcmp_other (by omega), replyIp_other cfg (by omega), hkeep i (by omega)]

theorem replyFrame_verifies_iff (cfg : Config) (hoff : off = ethSize (frame 12) (frame 13)) (h24 : 24 ≤ len)
    (hlen : len < 2 ^ 16) :
    Verifies ((replyFrame cfg frame off len).read (off + 20) (len - 20)) ↔
      len % 2 = 0 ∨ frame (off + 20 + (len - 21)) = 0 := by
  obtain ⟨-, hkeep, -⟩ := netUpdateEther_spec cfg frame
  rw [replyFrame, replyIcmp_verifies_iff (by omega) (by omega), replyIp_other cfg (by omega), hkeep _ (by omega),
    show len - 20 - 1 = len - 21 by omega, show (len - 20) % 2 = len % 2 by omega]

/-- A request in the frame. -/
theorem answered_frame_iff (hoff : off = ethSize (frame 12) (frame 13))
    (hlenEq : len = (frame (off + 2)).toNat * 256 + (frame (off + 3)).toNat)
    (hreq : (Location.frame off).icmp frame 0 = 8) :
    Answered cfg frame (.frame off) len ↔ 24 ≤ len ∧ (len % 2 = 0 ∨ frame (off + 20 + (len - 21)) = 0) := by
  have hlt : len < 2 ^ 16 := by
    have := (frame (off + 2)).toNat_lt
    have := (frame (off + 3)).toNat_lt
    omega
  have hsize := (netUpdateEther_spec cfg frame).1
  have hsent : 20 ≤ len → pingReceive cfg frame (.frame off) len =
      .ok (.sent ((replyFrame cfg frame off len).read 0 (off + len))) := by
    intro h20
    rw [pingReceive, hreq, if_neg (by decide), if_pos rfl, echo]
    dsimp only
    rw [if_neg (by omega), hsize, ← hoff]
    rfl
  constructor
  · rintro ⟨reply, hreply, hvalid⟩
    have hfour := hvalid.icmpCksum.2
    rw [message_length] at hfour
    rw [hsent (by omega)] at hreply
    obtain rfl := Outcome.sent.inj (Except.ok.inj hreply)
    obtain ⟨hform, -⟩ := replyFrame_spec cfg len hoff
    have hcksum := hvalid.icmpCksum.1
    rw [ipPart_read hform, show len = 20 + (len - 20) by omega, Mem.read_drop] at hcksum
    rw [show 20 + (len - 20) = len by omega] at hcksum
    exact ⟨by omega, (replyFrame_verifies_iff cfg hoff (by omega) hlt).mp hcksum⟩
  · rintro ⟨h24, hlast⟩
    obtain ⟨hform, hfront, ⟨h6, h7⟩, hip, htype, hback⟩ := replyFrame_spec cfg len hoff
    have hmsg : (ipPart ((replyFrame cfg frame off len).read 0 (off + len))).drop 20 =
        (replyFrame cfg frame off len).read (off + 20) (len - 20) := by
      rw [ipPart_read hform, ← Mem.read_drop, show 20 + (len - 20) = len by omega]
    refine ⟨_, hsent (by omega), ?_, ?_, ?_, ?_, ?_, ?_, ?_⟩
    · rw [ipPart_read hform, Mem.read_length, message_length]
      omega
    · rw [ipPart_read hform, Mem.getD_read (by omega), Mem.getD_read (by omega), hfront _ (by omega) (by omega),
        hfront _ (by omega) (by omega), message_length]
      omega
    · rw [ipPart_read hform, Mem.getD_read (by omega), Mem.getD_read (by omega), h6, h7]
      decide
    · rw [ipPart_read hform, Mem.read_take (by omega)]
      exact hip
    · rw [hmsg, Mem.read, List.head?_map, show len - 20 = len - 21 + 1 by omega, List.range_succ_eq_map]
      simp [htype]
    · have hrequest : (Location.frame off).message frame len = frame.read (off + 20) (len - 20) := rfl
      rw [hmsg, hrequest]
      rcases Nat.lt_or_ge (len - 20) 8 with hshort | hlong
      · rw [List.drop_eq_nil_of_le (by rw [Mem.read_length]; omega),
          List.drop_eq_nil_of_le (by rw [Mem.read_length]; omega)]
      · obtain ⟨k, hk⟩ := Nat.exists_eq_add_of_le hlong
        rw [hk, Mem.read_drop, Mem.read_drop]
        exact Mem.read_congr fun j hj => hback _ (by omega)
    · rw [hmsg, message_length]
      exact ⟨(replyFrame_verifies_iff cfg hoff h24 hlt).mpr hlast, by omega⟩

end

/-- An echo request that `NetReceive` accepts is answered exactly when it came in one piece, has the checksum field, and has
no odd byte other than zero at its end. -/
theorem echo_answered_iff {cfg : Config} {st : DefragState} {frame : Mem} {n len : Nat} {p : Location}
    (h : icmpPacket cfg st (frame.read 0 n) = .ok (some (p, len))) (hreq : p.icmp frame 0 = 8) :
    Answered cfg frame p len ↔
      (∃ off, p = .frame off) ∧ 24 ≤ len ∧ (len % 2 = 0 ∨ p.icmp frame (len - 21) = 0) := by
  obtain ⟨off, hacc⟩ := icmpPacket_some h
  have hoff : off = ethSize (frame 12) (frame 13) := hacc.off_eq.trans (ethHdrSize_read (by have := hacc.room; omega))
  rcases hacc.frag with ⟨-, rfl, hlen, -⟩ | ⟨-, r, hp⟩
  · rw [answered_frame_iff hoff hlen hreq]
    exact (and_iff_right ⟨off, rfl⟩).symm
  · refine iff_of_false (not_answered_of_fragment hacc hp hreq) ?_
    rintro ⟨⟨off', hoff'⟩, -⟩
    rw [hp] at hoff'
    cases hoff'

/-- The address `10.0.0.2`, and no VLAN. -/
def sampleConfig : Config where
  ipDefrag := false
  netOurIP := 0x0a000002
  netOurVLAN := 0xffff
  netOurNativeVLAN := 0xffff
  netPingIP := 0
  netOurEther := [2, 0, 0, 0, 0, 2]
  ether_length := rfl

/-- An echo request from `10.0.0.1` without a payload. -/
def sampleRequest : List UInt8 :=
  [2, 0, 0, 0, 0, 2, 2, 0, 0, 0, 0, 1, 8, 0, 69, 0, 0, 28, 0, 1, 0, 0, 64, 1, 102, 222, 10, 0, 0, 1, 10, 0, 0, 2, 8, 0, 247, 253, 0, 1, 0, 1]

/-- An echo request with a payload of one byte. -/
def oddRequest : List UInt8 :=
  [2, 0, 0, 0, 0, 2, 2, 0, 0, 0, 0, 1, 8, 0, 69, 0, 0, 29, 0, 1, 0, 0, 64, 1, 102, 221, 10, 0, 0, 1, 10, 0, 0, 2, 8, 0, 150, 253, 0, 1, 0, 1, 97]

/-- A frame in the receive buffer. -/
def received (pkt : List UInt8) : Mem := fun i => pkt.getD i 0

/-- Where a packet is in the frame, and its length. -/
def inFrame (r : Except Receive.Fault (Option (Location × Nat))) : Option (Nat × Nat) :=
  match r with
  | .ok (some (.frame off, len)) => some (off, len)
  | _ => none

theorem eq_of_inFrame {r : Except Receive.Fault (Option (Location × Nat))} {off len : Nat} (h : inFrame r = some (off, len)) :
    r = .ok (some (.frame off, len)) := by
  rcases r with e | _ | ⟨off' | r, len'⟩
  · cases h
  · cases h
  · cases h
    rfl
  · cases h

def noFragments : DefragState := ⟨⟨0, 0, 0, 0, 0, 0, 0, 0, 0, 0⟩, fun _ => 0, 0, 0⟩

theorem echo_answered_example : Answered sampleConfig (received sampleRequest) (.frame 14) 28 := by
  have hpkt : inFrame (icmpPacket sampleConfig noFragments ((received sampleRequest).read 0 42)) = some (14, 28) := by
    decide
  exact (echo_answered_iff (eq_of_inFrame hpkt) (by decide)).mpr ⟨⟨14, rfl⟩, by decide, .inl (by decide)⟩

/-- The checksum of the reply does not cover the last byte. -/
theorem odd_echo_not_answered :
    icmpPacket sampleConfig noFragments ((received oddRequest).read 0 43) = .ok (some (.frame 14, 29)) ∧
      (Location.frame 14).icmp (received oddRequest) 0 = 8 ∧
      ¬ Answered sampleConfig (received oddRequest) (.frame 14) 29 := by
  have hpkt : inFrame (icmpPacket sampleConfig noFragments ((received oddRequest).read 0 43)) = some (14, 29) := by
    decide
  refine ⟨eq_of_inFrame hpkt, by decide, ?_⟩
  rw [answered_frame_iff (by decide) (by decide) (by decide)]
  decide

end Uboot.Ping
