import Uboot.Defrag.Lemmas

/-!
# Reassembly of a datagram

A datagram is cut into fragments that arrive in any order, some more than once. The holes are the bytes that are
not received yet. Reassembly is exact unless, while byte 0 is missing, a new fragment begins right after the
first bytes that are received: then the hole in block 0 is taken for no hole.
-/

namespace Uboot.Defrag

open Uboot.Lib

/-! ## Datagrams and their fragments -/

/-- A datagram's payload, cut into pieces. -/
structure Datagram where
  ipId : UInt16
  pieces : List (List UInt8)
  nonempty : ∀ p ∈ pieces, p ≠ []
  blocks : ∀ i, i + 1 < pieces.length → 8 ∣ (pieces.getD i []).length
  size_le : pieces.flatten.length ≤ ipMaxudp

def Datagram.data (d : Datagram) : List UInt8 := d.pieces.flatten

def Datagram.offset (d : Datagram) (i : Nat) : Nat := (d.pieces.take i).flatten.length

/-- The packet `ip` carries piece `i`. -/
structure IsFragment (d : Datagram) (i : Nat) (ip : IpPacket) : Prop where
  lt : i < d.pieces.length
  ipId_eq : ip.hdr.ipId = d.ipId
  start_eq : ip.start = d.offset i
  data_eq : ip.data = d.pieces.getD i []
  more_iff : ip.moreFragments = true ↔ i + 1 < d.pieces.length

/-- The bytes that have arrived. -/
def received (arrivals : List IpPacket) : Set Nat := {a | ∃ ip ∈ arrivals, a ∈ ip.range.addrs}

section
variable {d : Datagram} {i j : Nat} {ip ip' : IpPacket}

theorem Datagram.offset_succ (hi : i < d.pieces.length) :
    d.offset (i + 1) = d.offset i + (d.pieces.getD i []).length := by
  rw [offset, offset, List.take_succ_eq_append_getElem hi, List.flatten_append, List.length_append,
    List.getD_eq_getElem?_getD, List.getElem?_eq_getElem hi]
  simp

theorem Datagram.offset_mono (hij : i ≤ j) : d.offset i ≤ d.offset j := by
  rw [offset, offset, ← List.take_append_drop i (d.pieces.take j), List.flatten_append, List.length_append,
    List.take_take, Nat.min_eq_left hij]
  omega

theorem Datagram.offset_length : d.offset d.pieces.length = d.data.length := by
  rw [offset, List.take_length, data]

theorem IsFragment.stop_eq (h : IsFragment d i ip) : ip.stop = d.offset (i + 1) := by
  rw [Datagram.offset_succ h.lt, IpPacket.stop, h.start_eq, h.data_eq]

theorem IsFragment.pos (h : IsFragment d i ip) : 0 < ip.data.length := by
  rw [h.data_eq, List.getD_eq_getElem?_getD, List.getElem?_eq_getElem h.lt, Option.getD_some]
  exact List.length_pos_iff.mpr (d.nonempty _ (List.getElem_mem h.lt))

theorem IsFragment.stop_le (h : IsFragment d i ip) : ip.stop ≤ d.data.length := by
  rw [h.stop_eq, ← Datagram.offset_length]
  exact Datagram.offset_mono h.lt

theorem IsFragment.more_iff_lt (h : IsFragment d i ip) : ip.moreFragments = true ↔ ip.stop < d.data.length := by
  rw [h.more_iff, h.stop_eq, ← Datagram.offset_length]
  constructor
  · intro hlt
    have hsucc := Datagram.offset_succ hlt
    have hmono := Datagram.offset_mono (d := d) (show i + 1 + 1 ≤ d.pieces.length by omega)
    have hpos : 0 < (d.pieces.getD (i + 1) []).length := by
      rw [List.getD_eq_getElem?_getD, List.getElem?_eq_getElem hlt, Option.getD_some]
      exact List.length_pos_iff.mpr (d.nonempty _ (List.getElem_mem hlt))
    omega
  · intro hlt
    by_contra hge
    have := h.lt
    rw [show i + 1 = d.pieces.length by omega] at hlt
    omega

theorem IsFragment.stop_of_last (h : IsFragment d i ip) (hmore : ip.moreFragments = false) :
    ip.stop = d.data.length := by
  refine Nat.le_antisymm h.stop_le (Nat.le_of_not_lt fun hlt => ?_)
  rw [← h.more_iff_lt, hmore] at hlt
  exact Bool.noConfusion hlt

theorem IsFragment.aligned (h : IsFragment d i ip) (hlt : ip.stop < d.data.length) : 8 ∣ ip.stop := by
  have hi := h.more_iff.mp (h.more_iff_lt.mpr hlt)
  have h8 := d.blocks i hi
  rw [← h.data_eq] at h8
  rw [IpPacket.stop, ip_start_eq]
  exact Nat.dvd_add (Nat.dvd_mul_right 8 _) h8

theorem IsFragment.byte_eq (h : IsFragment d i ip) {a : Nat} (ha : a < ip.data.length) :
    ip.data.getD a 0 = d.data.getD (ip.start + a) 0 := by
  have hcut : d.data = (d.pieces.take i).flatten ++ (ip.data ++ (d.pieces.drop (i + 1)).flatten) := by
    conv_lhs => rw [Datagram.data, ← List.take_append_drop i d.pieces, List.drop_eq_getElem_cons h.lt]
    rw [List.flatten_append, List.flatten_cons, h.data_eq, List.getD_eq_getElem?_getD,
      List.getElem?_eq_getElem h.lt, Option.getD_some]
  have hs : ip.start = (d.pieces.take i).flatten.length := h.start_eq
  rw [hcut, hs, List.getD_eq_getElem?_getD, List.getD_eq_getElem?_getD, List.getElem?_append_right (by omega),
    Nat.add_sub_cancel_left, List.getElem?_append_left ha]

/-- Two fragments are the same bytes or have none in common. -/
theorem IsFragment.same_or_disjoint (h : IsFragment d i ip) (h' : IsFragment d j ip') :
    ip.range = ip'.range ∨ Disjoint ip.range.addrs ip'.range.addrs := by
  have hsep : ∀ {i j ip ip'}, IsFragment d i ip → IsFragment d j ip' → i < j →
      Disjoint ip.range.addrs ip'.range.addrs := by
    intro i j ip ip' h h' hij
    have hle : ip.stop ≤ ip'.start := by
      rw [h.stop_eq, h'.start_eq]; exact Datagram.offset_mono hij
    refine Set.disjoint_left.mpr fun a ha ha' => ?_
    simp only [Range.mem_addrs, IpPacket.range, IpPacket.stop] at *
    omega
  rcases Nat.lt_trichotomy i j with hij | rfl | hij
  · exact Or.inr (hsep h h' hij)
  · left
    rw [IpPacket.range, IpPacket.range, h.start_eq, h'.start_eq, h.data_eq, h'.data_eq]
  · exact Or.inr (hsep h' h hij).symm

end

/-! ## The invariant -/

/-- `totalLen` is known when the last byte has arrived. -/
def IsTotal (d : Datagram) (c : Set Nat) (total : Nat) : Prop :=
  (d.data.length - 1 ∈ c → total = d.data.length) ∧ (d.data.length - 1 ∉ c → total = 0xffff)

/-- The bytes `c` of the datagram have arrived, and the holes `f` are the others. -/
structure Inv (d : Datagram) (c : Set Nat) (st : DefragState) (n : Nat) (f : Nat → Range) : Prop where
  ipId_eq : st.localip.ipId = d.ipId
  linked : Linked st.payload st.firstHole n f
  holes : Holes n f
  ends : ∀ k < n, 8 ∣ (f k).stop ∨ (f k).stop = 0xffff
  cover_eq : cover n f = {a | a < st.totalLen ∧ a ∉ c}
  total : IsTotal d c st.totalLen
  lt : ∀ a ∈ c, a < d.data.length
  byte_eq : ∀ a ∈ c, st.payload a = d.data.getD a 0

/-- A new fragment does not begin right after the first bytes that have arrived, unless byte 0 is one of them. -/
def SafeArrival (c : Set Nat) (ip : IpPacket) : Prop :=
  ip.start ∈ c ∨ 0 ∈ c ∨ ip.start = 0 ∨ (∀ b < ip.start, b ∉ c) ∨
    ∃ a b, b < a ∧ a < ip.start ∧ b ∈ c ∧ a ∉ c

section
variable {d : Datagram} {c : Set Nat} {st : DefragState} {n k i : Nat} {f : Nat → Range} {ip : IpPacket}

theorem Inv.data_pos (hf : IsFragment d i ip) : 0 < d.data.length := by
  have := hf.pos
  have := hf.stop_le
  simp only [IpPacket.stop] at *
  omega

theorem Inv.stop_le_total (h : Inv d c st n f) (hk : k < n) : (f k).stop ≤ st.totalLen := by
  have hpos := h.holes.size_pos k hk
  have hmem : (f k).stop - 1 ∈ cover n f := by
    refine ⟨k, hk, Range.mem_addrs.mpr ?_⟩
    simp only [Range.stop]; omega
  rw [h.cover_eq] at hmem
  have := hmem.1
  omega

/-- A byte that has arrived is not in a descriptor. -/
theorem Inv.block_ne (h : Inv d c st n f) (hk : k < n) {a : Nat} (ha : a ∈ c) : a / 8 ≠ idx (f k) := by
  intro he
  have hbase := h.holes.base_eq hk
  have hle := h.holes.base_le k hk
  have hpos := h.holes.size_pos k hk
  rw [ipMaxudp_eq] at hle
  have hmem : a ∈ cover n f := by
    refine ⟨k, hk, Range.mem_addrs.mpr ⟨by omega, ?_⟩⟩
    rcases h.ends k hk with h8 | h8
    · simp only [Range.stop] at h8; omega
    · simp only [Range.stop] at h8; omega
  rw [h.cover_eq] at hmem
  exact hmem.2 ha

theorem IsTotal.le {total : Nat} (h : IsTotal d c total) : d.data.length ≤ total := by
  have hN : d.data.length ≤ ipMaxudp := d.size_le
  rw [ipMaxudp_eq] at hN
  by_cases hl : d.data.length - 1 ∈ c
  · exact (h.1 hl).ge
  · rw [h.2 hl]; omega

/-- The hole in which a new fragment lies, cut at the end of the datagram when the fragment is the last one. -/
structure Located (d : Datagram) (c : Set Nat) (ip : IpPacket) (first : Nat) (m : Mem) (total n : Nat)
    (f : Nat → Range) (k : Nat) : Prop where
  inHole : InHole d.data.length ip n f k
  linked : Linked m first n f
  holes : Holes n f
  cover_eq : cover n f = {a | a < total ∧ a ∉ c}
  isTotal : IsTotal d (c ∪ ip.range.addrs) total
  byte_eq : ∀ a ∈ c, m a = d.data.getD a 0

/-- All bytes of a new fragment are in one hole. -/
theorem Inv.find (h : Inv d c st n f) (hf : IsFragment d i ip) (hd : Disjoint ip.range.addrs c) :
    ∃ k < n, (f k).base ≤ ip.start ∧ ip.stop ≤ (f k).stop ∧
      findHole st.payload ip.start 65536 st.firstHole = some (some (idx (f k))) ∧
      ¬ ip.offset8 + (ip.data.length + 7) / 8 ≤ idx (f k) := by
  have hpos := hf.pos
  have hstop := hf.stop_le
  have hN := d.size_le
  have hT := h.total.le
  have hcov : ∀ a, ip.start ≤ a → a < ip.stop → a ∈ cover n f := by
    intro a ha ha'
    rw [h.cover_eq]
    exact ⟨by omega, Set.disjoint_left.mp hd (Range.mem_addrs.mpr ⟨ha, ha'⟩)⟩
  obtain ⟨k, hk, hmem⟩ := hcov ip.start (le_refl _) (by simp only [IpPacket.stop]; omega)
  have hle : ip.stop ≤ (f k).stop := h.holes.le_stop hk hmem hcov
  have hbase : (f k).base ≤ ip.start := (Range.mem_addrs.mp hmem).1
  refine ⟨k, hk, hbase, hle, ?_, ?_⟩
  · rw [h.linked.first_eq]
    rcases h.linked.findHole ip.start (k := 0) h.linked.pos
      (show n ≤ 0 + 65536 by have := h.linked.n_le; omega) with ⟨-, hall⟩ | ⟨j, -, hj, he, hsj, hall⟩
    · have := hall k (by omega) hk
      simp only [IpPacket.stop] at *; omega
    · rw [he]
      rcases Nat.lt_trichotomy j k with hjk | rfl | hjk
      · have := h.holes.lt hjk hk; omega
      · rfl
      · have := hall k (by omega) hjk
        simp only [IpPacket.stop] at *; omega
  · have := h.holes.base_eq hk
    have := ip_start_eq ip
    omega

/-- A new fragment that is not the last one leaves the hole as it is. -/
theorem Inv.locate_more (h : Inv d c st n f) (hf : IsFragment d i ip) (hmore : ip.moreFragments = true)
    (hk : k < n) (hb : (f k).base ≤ ip.start) (hs : ip.stop ≤ (f k).stop) :
    Located d c ip st.firstHole st.payload st.totalLen n f k := by
  have hlt := hf.more_iff_lt.mp hmore
  refine ⟨⟨hk, hb, hs, hf.pos, hf.stop_le, d.size_le, Or.inl (hf.aligned hlt), ?_⟩, h.linked, h.holes,
    h.cover_eq, ?_, h.byte_eq⟩
  · intro j hj
    rcases h.ends j hj with h8 | h8
    · exact Or.inl h8
    · exact Or.inr (Or.inl h8)
  · have hnot : d.data.length - 1 ∉ ip.range.addrs := by
      intro hmem
      have := (Range.mem_addrs.mp hmem).2
      simp only [IpPacket.range, IpPacket.stop] at *
      omega
    have hiff : d.data.length - 1 ∈ c ∪ ip.range.addrs ↔ d.data.length - 1 ∈ c := by
      simp only [Set.mem_union, hnot, or_false]
    exact ⟨fun hm => h.total.1 (hiff.mp hm), fun hm => h.total.2 fun hc => hm (hiff.mpr hc)⟩

/-- The last fragment lies in the hole that has no end yet, which it cuts. -/
theorem Inv.locate_last (h : Inv d c st n f) (hf : IsFragment d i ip) (hd : Disjoint ip.range.addrs c)
    (hmore : ip.moreFragments = false) (hk : k < n) (hb : (f k).base ≤ ip.start) (hs : ip.stop ≤ (f k).stop) :
    Located d c ip st.firstHole (setLastByte st.payload (idx (f k)) ip.stop) d.data.length n
      (Function.update f k ⟨(f k).base, ip.stop - (f k).base⟩) k := by
  have hpos := hf.pos
  have hN := d.size_le
  rw [← Datagram.data, ipMaxudp_eq] at hN
  have hstop := hf.stop_of_last hmore
  have hlast : d.data.length - 1 ∉ c := by
    refine Set.disjoint_left.mp hd (Range.mem_addrs.mpr ?_)
    simp only [IpPacket.range, IpPacket.stop] at *
    omega
  have htotal : st.totalLen = 0xffff := h.total.2 hlast
  have hend : (f k).stop = 0xffff := by
    have hle := h.stop_le_total hk
    have hge : 0xffff ≤ (f k).stop := by
      refine h.holes.le_stop hk (Range.mem_addrs.mpr ⟨hb, ?_⟩) ?_
      · simp only [IpPacket.stop, Range.stop] at *; omega
      · intro a ha ha'
        rw [h.cover_eq, htotal]
        refine ⟨ha', fun hac => ?_⟩
        have hlt := h.lt a hac
        exact Set.disjoint_left.mp hd (Range.mem_addrs.mpr ⟨ha, by simp only [IpPacket.range, IpPacket.stop] at *; omega⟩) hac
    omega
  have hx : Range.stop ⟨(f k).base, ip.stop - (f k).base⟩ = ip.stop := by
    simp only [Range.stop, IpPacket.stop] at *; omega
  have hlinked := h.linked.setLastByte hk (x := ⟨(f k).base, ip.stop - (f k).base⟩) rfl (by rw [hx]; omega)
  rw [hx] at hlinked
  have hholes : Holes n (Function.update f k ⟨(f k).base, ip.stop - (f k).base⟩) :=
    h.holes.update hk (h.holes.aligned k hk) (h.holes.base_le k hk)
      (by simp only [IpPacket.stop] at *; omega) (le_refl _) (by rw [hx]; exact hs)
  refine ⟨⟨hk, ?_, ?_, hpos, hstop.le, d.size_le, Or.inr ⟨hstop, ?_⟩, ?_⟩, hlinked, hholes, ?_, ?_, ?_⟩
  · rw [Function.update_self]; exact hb
  · rw [Function.update_self, hx]
  · rw [Function.update_self, hx]
  · intro j hj
    by_cases hjk : j = k
    · subst hjk; rw [Function.update_self, hx]; exact Or.inr (Or.inr ⟨rfl, rfl⟩)
    · rw [Function.update_of_ne hjk]
      rcases h.ends j hj with h8 | h8
      · exact Or.inl h8
      · exact Or.inr (Or.inl h8)
  · have hcut := cover_update_diff (x := ⟨(f k).base, ip.stop - (f k).base⟩)
      (y := ⟨ip.stop, 0xffff - ip.stop⟩) h.holes.ordered hk ?_ ?_
    · rw [hcut, h.cover_eq, htotal]
      ext a
      simp only [Set.mem_sdiff, Set.mem_ofPred_eq, Range.mem_addrs]
      constructor
      · rintro ⟨⟨ha, hac⟩, hay⟩; exact ⟨by omega, hac⟩
      · rintro ⟨ha, hac⟩; exact ⟨⟨by omega, hac⟩, by omega⟩
    · intro a
      simp only [Range.mem_addrs, Range.stop, IpPacket.stop] at *; omega
    · ext a
      simp only [Set.mem_sdiff, Range.mem_addrs, Range.stop, IpPacket.stop] at *; omega
  · have hmem : d.data.length - 1 ∈ c ∪ ip.range.addrs := by
      right
      refine Range.mem_addrs.mpr ?_
      simp only [IpPacket.range, IpPacket.stop] at *; omega
    exact ⟨fun _ => rfl, fun hm => absurd hmem hm⟩
  · intro a hac
    rw [setLastByte, writeHole_frame (h.block_ne hk hac)]
    exact h.byte_eq a hac

section
variable {first total : Nat} {m : Mem}

/-- A safe fragment at the beginning of a hole has no hole in block 0 before it. -/
theorem Located.prev_ne_zero (h : Located d c ip first m total n f k) (hsafe : SafeArrival c ip)
    (hd : Disjoint ip.range.addrs c) (hb : (f k).base = ip.start) : k = 0 ∨ idx (f (k - 1)) ≠ 0 := by
  by_contra hcon
  obtain ⟨hk0, hidx⟩ := not_or.mp hcon
  rw [not_not] at hidx
  have hk := h.inHole.lt
  have hpos := h.inHole.pos
  have hzero : (f (k - 1)).base = 0 := by rw [h.holes.base_eq (by omega), hidx]
  obtain rfl : k = 1 := by
    by_contra hk1
    have := h.holes.lt (show 0 < k - 1 by omega) (by omega)
    omega
  have hlt := h.holes.lt (show 0 < 1 by omega) hk
  have htotal : ip.start < total := by
    have hmem : ip.start ∈ cover n f := ⟨1, hk, Range.mem_addrs.mpr ⟨hb.le, by have := h.holes.size_pos 1 hk; omega⟩⟩
    rw [h.cover_eq] at hmem
    exact hmem.1
  -- the bytes of hole 0 have not arrived, and the one after it has
  have hzero' : (f 0).base = 0 := hzero
  have hhole : ∀ a < (f 0).stop, a ∉ c := by
    intro a ha hac
    have hmem : a ∈ cover n f := ⟨0, by omega, Range.mem_addrs.mpr ⟨by omega, by simp only [Range.stop] at ha; omega⟩⟩
    rw [h.cover_eq] at hmem
    exact hmem.2 hac
  have hnone : ∀ a, (f 0).stop ≤ a → a < ip.start → a ∈ c := by
    intro a ha ha'
    by_contra hac
    have hmem : a ∈ cover n f := by rw [h.cover_eq]; exact ⟨by omega, hac⟩
    obtain ⟨j, hj, hja⟩ := hmem
    rw [Range.mem_addrs] at hja
    rcases Nat.eq_zero_or_pos j with rfl | hj0
    · simp only [Range.stop] at ha; omega
    · rcases Nat.eq_or_lt_of_le (show 1 ≤ j by omega) with rfl | hj1
      · omega
      · have := h.holes.lt hj1 hj
        simp only [Range.stop] at this; omega
  have hsize := h.holes.size_pos 0 (by omega)
  rcases hsafe with hs | hs | hs | hs | ⟨a, b, hba, ha, hbc, hac⟩
  · exact Set.disjoint_left.mp hd (Range.mem_addrs.mpr ⟨le_refl _, by simp only [IpPacket.range]; omega⟩) hs
  · exact hhole 0 (by simp only [Range.stop]; omega) hs
  · omega
  · exact hs _ (by omega) (hnone _ (le_refl _) (by omega))
  · by_cases has : a < (f 0).stop
    · exact hhole b (by omega) hbc
    · exact hac (hnone a (by omega) ha)

/-- The bytes of the datagram are those that had arrived and those of the fragment. -/
theorem Located.byte_eq_write (h : Located d c ip first m total n f k) (hf : IsFragment d i ip) {m' : Mem}
    (hlt : ∀ a ∈ c, a < d.data.length) (hframe : ∀ a < d.data.length, a ∉ cover n f → m' a = m a) {a : Nat}
    (ha : a ∈ c ∪ ip.range.addrs) : m'.write ip.start ip.data a = d.data.getD a 0 := by
  by_cases hmem : a ∈ ip.range.addrs
  · obtain ⟨hge, hlt'⟩ := Range.mem_addrs.mp hmem
    obtain ⟨b, rfl⟩ : ∃ b, a = ip.start + b := ⟨a - ip.start, by simp only [IpPacket.range] at hge; omega⟩
    have hb : b < ip.data.length := by simp only [IpPacket.range] at hlt'; omega
    rw [Mem.write_of_mem hb, hf.byte_eq hb]
  · have hac : a ∈ c := ha.resolve_right hmem
    have hnc : a ∉ cover n f := by rw [h.cover_eq]; exact fun hc => hc.2 hac
    have hout : ¬ (ip.start ≤ a ∧ a < ip.start + ip.data.length) := hmem
    rw [Mem.write, if_neg hout, hframe a (hlt a hac) hnc, h.byte_eq a hac]

end

/-- What a step does for a fragment of the datagram: the packet is complete and returned, or the invariant
goes on with more bytes. -/
def Outcome (d : Datagram) (c : Set Nat) : Option (DefragState × Option Reassembled) → Prop
  | none => False
  | some (st, none) => (∃ a < d.data.length, a ∉ c) ∧ ∃ n f, Inv d c st n f
  | some (_, some r) => (∀ a < d.data.length, a ∈ c) ∧ r.payload.read 0 d.data.length = d.data ∧
      r.len = d.data.length + ipHdrSize

theorem Inv.incomplete (h : Inv d c st n f) (hd : 0 < d.data.length) : ∃ a < d.data.length, a ∉ c := by
  by_cases hl : d.data.length - 1 ∈ c
  · have hmem : (f 0).base ∈ cover n f :=
      ⟨0, h.linked.pos, Range.mem_addrs.mpr ⟨le_refl _, by have := h.holes.size_pos 0 h.linked.pos; omega⟩⟩
    rw [h.cover_eq, h.total.1 hl] at hmem
    exact ⟨_, hmem.1, hmem.2⟩
  · exact ⟨_, by omega, hl⟩

/-- A new fragment. -/
theorem Inv.step_new (h : Inv d c st n f) (hf : IsFragment d i ip) (hd : Disjoint ip.range.addrs c)
    (hsafe : SafeArrival c ip) : Outcome d (c ∪ ip.range.addrs) (addFragment st ip) := by
  obtain ⟨k, hk, hb, hs, hfind, hover⟩ := h.find hf hd
  -- the hole list that `fixHoles` works on
  obtain ⟨m, total, g, hidx, htotal, hm, hloc⟩ : ∃ m total g, idx (g k) = idx (f k) ∧
      (if ip.moreFragments then st.totalLen else ip.stop % 65536) = total ∧
      (if ip.moreFragments then st.payload else setLastByte st.payload (idx (f k)) ip.stop) = m ∧
      Located d c ip st.firstHole m total n g k := by
    cases hmore : ip.moreFragments with
    | true => exact ⟨_, _, f, rfl, rfl, rfl, h.locate_more hf hmore hk hb hs⟩
    | false =>
        have hloc := h.locate_last hf hd hmore hk hb hs
        have hstop := hf.stop_of_last hmore
        have hN := d.size_le
        rw [← Datagram.data, ipMaxudp_eq] at hN
        exact ⟨_, _, _, by simp [idx], by simp only [Bool.false_eq_true, if_false]; omega, rfl, hloc⟩
  have htotal_le := hloc.isTotal.le
  simp only [addFragment, hfind, if_neg hover, htotal, hm]
  rcases hloc.inHole.fixHoles hloc.linked hloc.holes (fun hb' => hloc.prev_ne_zero hsafe hd hb') with
    ⟨hn, hb', hs', hfix⟩ | ⟨first', m', n', f', hfix, hfill⟩
  · -- the last hole is filled
    rw [hidx] at hfix
    simp only [hfix]
    obtain rfl : k = 0 := by omega
    have hall : ∀ a < d.data.length, a ∈ c ∪ ip.range.addrs := by
      intro a ha
      by_contra hac
      obtain ⟨hac, hai⟩ := not_or.mp hac
      have hmem : a ∈ cover n g := by rw [hloc.cover_eq]; exact ⟨by omega, hac⟩
      obtain ⟨j, hj, hja⟩ := hmem
      obtain rfl : j = 0 := by omega
      refine hai ?_
      simp only [Range.mem_addrs, IpPacket.range, Range.stop, IpPacket.stop] at *
      omega
    have hbyte := fun a (ha : a < d.data.length) =>
      hloc.byte_eq_write hf h.lt (fun _ _ _ => rfl) (hall a ha)
    have htot : total = d.data.length := by
      have hpos := Inv.data_pos hf
      exact hloc.isTotal.1 (hall _ (by omega))
    refine ⟨hall, Mem.read_eq_iff.mpr fun a ha => ?_, by rw [htot]⟩
    rw [Nat.zero_add]
    exact hbyte a ha
  · rw [hidx] at hfix
    simp only [hfix]
    have hinv : Inv d (c ∪ ip.range.addrs) ⟨st.localip, m'.write ip.start ip.data, first', total⟩ n' f' := by
      refine ⟨h.ipId_eq, hfill.linked.write_fragment hfill.holes hfill.cover_eq, hfill.holes, hfill.ends, ?_,
        hloc.isTotal, ?_, fun a ha => hloc.byte_eq_write hf h.lt hfill.frame ha⟩
      · rw [hfill.cover_eq, hloc.cover_eq]
        ext a
        simp only [Set.mem_sdiff, Set.mem_ofPred_eq, Set.mem_union, not_or, and_assoc]
      · rintro a (ha | ha)
        · exact h.lt a ha
        · have := hf.stop_le
          simp only [Range.mem_addrs, IpPacket.range, IpPacket.stop] at *
          omega
    exact ⟨hinv.incomplete (Inv.data_pos hf), _, _, hinv⟩

/-- A fragment that has arrived before, right after hole `k`: the hole is cut at the same place again. -/
theorem Inv.step_dup_after (h : Inv d c st n f) (hf : IsFragment d i ip) (hd : ip.range.addrs ⊆ c) (hk : k < n)
    (he : findHole st.payload ip.start 65536 st.firstHole = some (some (idx (f k))))
    (hse : ip.start = (f k).stop) : Outcome d c (addFragment st ip) := by
  have hpos := hf.pos
  have hstop := hf.stop_le
  have hN := d.size_le
  rw [← Datagram.data, ipMaxudp_eq] at hN
  have hbase := h.holes.base_eq hk
  have hstart := ip_start_eq ip
  have hsize := h.holes.size_pos k hk
  have hb : idx (f k) < ip.offset8 := by simp only [Range.stop] at hse; omega
  have hover : ¬ ip.offset8 + (ip.data.length + 7) / 8 ≤ idx (f k) := by omega
  obtain ⟨m, x, hm, hx, hxb, hl, hframe⟩ : ∃ m x,
      (if ip.moreFragments then st.payload else setLastByte st.payload (idx (f k)) ip.stop) = m ∧
      Range.stop x ≤ ip.stop ∧ x.base = (f k).base ∧
      Linked m st.firstHole n (Function.update f k x) ∧ ∀ a ∈ c, m a = st.payload a := by
    cases hmore : ip.moreFragments with
    | true =>
        refine ⟨st.payload, f k, rfl, by simp only [IpPacket.stop]; omega, rfl, ?_, fun _ _ => rfl⟩
        rw [Function.update_eq_self]
        exact h.linked
    | false =>
        have hx : Range.stop ⟨(f k).base, ip.stop - (f k).base⟩ = ip.stop := by
          simp only [Range.stop, IpPacket.stop] at *; omega
        have hl := h.linked.setLastByte hk (x := ⟨(f k).base, ip.stop - (f k).base⟩) rfl (by rw [hx]; omega)
        rw [hx] at hl
        refine ⟨setLastByte st.payload (idx (f k)) ip.stop, _, rfl, hx.le, rfl, hl, fun a ha => ?_⟩
        rw [setLastByte, writeHole_frame (h.block_ne hk ha)]
  have htotal : (if ip.moreFragments then st.totalLen else ip.stop % 65536) = st.totalLen := by
    cases hmore : ip.moreFragments with
    | true => rfl
    | false =>
        have hs := hf.stop_of_last hmore
        have hlast : d.data.length - 1 ∈ c := by
          refine hd (Range.mem_addrs.mpr ?_)
          simp only [IpPacket.range, IpPacket.stop] at *; omega
        rw [h.total.1 hlast]
        simp only [Bool.false_eq_true, if_false]; omega
  have hidx : idx (Function.update f k x k) = idx (f k) := by rw [Function.update_self, idx, idx, hxb]
  have hfix : fixHoles m st.firstHole (idx (f k)) ip.offset8 ip.data.length =
      some (st.firstHole, setLastByte m (idx (f k)) ip.start) := by
    have hlast : (readHole m (idx (f k))).lastByte = x.stop := by
      have := (hl.desc k hk).1
      rwa [hidx, Function.update_self] at this
    rw [fixHoles, hlast, if_neg (fun hc => by omega), if_pos (by simp only [IpPacket.stop, IpPacket.start] at *; omega)]
    rfl
  have hback := hl.setLastByte hk (x := f k) (by rw [Function.update_self, hxb]) (h.linked.stop_lt k hk)
  rw [hidx, Function.update_idem, Function.update_eq_self, ← hse] at hback
  simp only [addFragment, he, if_neg hover, htotal, hm, hfix]
  have hcov : cover n f = cover n f \ ip.range.addrs := by
    ext a
    refine ⟨fun ha => ⟨ha, fun hai => ?_⟩, fun ha => ha.1⟩
    rw [h.cover_eq] at ha
    exact ha.2 (hd hai)
  refine ⟨h.incomplete (Inv.data_pos hf), n, f, h.ipId_eq, hback.write_fragment h.holes hcov, h.holes, h.ends,
    h.cover_eq, h.total, h.lt, ?_⟩
  intro a ha
  change (setLastByte m (idx (f k)) ip.start).write ip.start ip.data a = _
  by_cases hmem : ip.start ≤ a ∧ a < ip.start + ip.data.length
  · obtain ⟨b, rfl⟩ : ∃ b, a = ip.start + b := ⟨a - ip.start, by omega⟩
    rw [Mem.write_of_mem (by omega), hf.byte_eq (by omega)]
  · rw [Mem.write, if_neg hmem, setLastByte, writeHole_frame (h.block_ne hk ha), hframe a ha, h.byte_eq a ha]

/-- A fragment that has arrived before. -/
theorem Inv.step_dup (h : Inv d c st n f) (hf : IsFragment d i ip) (hd : ip.range.addrs ⊆ c) :
    Outcome d c (addFragment st ip) := by
  have hinc := h.incomplete (Inv.data_pos hf)
  have hpos := hf.pos
  rcases h.linked.findHole ip.start (k := 0) h.linked.pos
    (show n ≤ 0 + 65536 by have := h.linked.n_le; omega) with ⟨he, -⟩ | ⟨k, -, hk, he, hsk, -⟩
  · rw [← h.linked.first_eq] at he
    simp only [addFragment, he]
    exact ⟨hinc, n, f, h⟩
  · rw [← h.linked.first_eq] at he
    have hbase := h.holes.base_eq hk
    have hstart := ip_start_eq ip
    -- no byte of the fragment is in the hole
    have hout : ∀ a, ip.start ≤ a → a < ip.stop → a ∉ (f k).addrs := by
      intro a ha ha' hmem
      have hcov : a ∈ cover n f := ⟨k, hk, hmem⟩
      rw [h.cover_eq] at hcov
      exact hcov.2 (hd (Range.mem_addrs.mpr ⟨ha, ha'⟩))
    rcases Nat.eq_or_lt_of_le hsk with hse | hse
    · exact h.step_dup_after hf hd hk he hse
    · have hge : ip.stop ≤ (f k).base := by
        by_contra hlt
        rcases Nat.lt_or_ge (f k).base ip.start with hb | hb
        · exact hout ip.start (le_refl _) (by simp only [IpPacket.stop]; omega)
            (Range.mem_addrs.mpr ⟨hb.le, hse⟩)
        · exact hout (f k).base hb (by omega)
            (Range.mem_addrs.mpr ⟨le_refl _, by have := h.holes.size_pos k hk; omega⟩)
      have hover : ip.offset8 + (ip.data.length + 7) / 8 ≤ idx (f k) := by
        simp only [IpPacket.stop] at hge; omega
      simp only [addFragment, he, if_pos hover]
      exact ⟨hinc, n, f, h⟩

theorem Inv.step (h : Inv d c st n f) (hf : IsFragment d i ip) (hsafe : SafeArrival c ip)
    (hc : ip.range.addrs ⊆ c ∨ Disjoint ip.range.addrs c) :
    Outcome d (c ∪ ip.range.addrs) (addFragment st ip) := by
  rcases hc with hc | hc
  · rw [Set.union_eq_self_of_subset_right hc]
    exact h.step_dup hf hc
  · exact h.step_new hf hc hsafe

/-- The structures are reset. -/
theorem inv_reset (st : DefragState) (hf : IsFragment d i ip) :
    Inv d ∅ (st.reset ip) 1 fun _ => ⟨0, 0xffff⟩ := by
  refine ⟨hf.ipId_eq, linked_reset st.payload, ⟨by simp, by simp, by simp, gapped_iff.mpr (by omega)⟩, ?_, ?_, ?_,
    by simp, by simp⟩
  · intro k hk
    exact Or.inr rfl
  · ext a
    simp [cover, Range.mem_addrs, DefragState.reset]
  · exact ⟨fun hm => absurd hm (Set.notMem_empty _), fun _ => rfl⟩

end

/-! ## Every order of arrival -/

/-- `__NetDefragment` on packet after packet: the state after them and what was returned for each. -/
def DefragState.run (st : DefragState) : List IpPacket → Option (DefragState × List (Option Reassembled))
  | [] => some (st, [])
  | ip :: arrivals => do
      let (st, r) ← netDefragment st ip
      let (st, rs) ← st.run arrivals
      return (st, r :: rs)

/-- Every packet of a run is safe after those before it. -/
def SafeRun (before : List IpPacket) : List IpPacket → Prop
  | [] => True
  | ip :: arrivals => SafeArrival (received before) ip ∧ SafeRun (before ++ [ip]) arrivals

theorem SafeRun.append {before arrivals : List IpPacket} {ip : IpPacket} (h : SafeRun before (arrivals ++ [ip])) :
    SafeRun before arrivals ∧ SafeArrival (received (before ++ arrivals)) ip := by
  induction arrivals generalizing before with
  | nil => exact ⟨trivial, by simpa using h.1⟩
  | cons p arrivals ih =>
      obtain ⟨hrun, hlast⟩ := ih h.2
      exact ⟨⟨h.1, hrun⟩, by simpa using hlast⟩

/-- A packet with every piece has arrived. -/
def Complete (d : Datagram) (arrivals : List IpPacket) : Prop :=
  ∀ i < d.pieces.length, ∃ ip ∈ arrivals, IsFragment d i ip

section
variable {d : Datagram} {before arrivals : List IpPacket} {st : DefragState} {ip : IpPacket}

theorem received_append_singleton : received (before ++ [ip]) = received before ∪ ip.range.addrs := by
  ext a
  simp only [received, List.mem_append, List.mem_singleton, Set.mem_ofPred_eq, Set.mem_union]
  constructor
  · rintro ⟨p, hp | rfl, ha⟩
    · exact Or.inl ⟨p, hp, ha⟩
    · exact Or.inr ha
  · rintro (⟨p, hp, ha⟩ | ha)
    · exact ⟨p, Or.inl hp, ha⟩
    · exact ⟨ip, Or.inr rfl, ha⟩

/-- Every byte of the datagram is in a piece. -/
theorem Datagram.exists_piece {a : Nat} (ha : a < d.data.length) :
    ∃ i < d.pieces.length, d.offset i ≤ a ∧ a < d.offset (i + 1) := by
  rw [← Datagram.offset_length] at ha
  have hstep : ∀ k ≤ d.pieces.length, a < d.offset k → ∃ i < k, d.offset i ≤ a ∧ a < d.offset (i + 1) := by
    intro k hk hak
    induction k with
    | zero => simp [Datagram.offset] at hak
    | succ k ih =>
        by_cases hlt : a < d.offset k
        · obtain ⟨i, hi, hia⟩ := ih (by omega) hlt
          exact ⟨i, by omega, hia⟩
        · exact ⟨k, by omega, by omega, hak⟩
  exact hstep _ (le_refl _) ha

theorem complete_iff (hfrag : ∀ p ∈ arrivals, ∃ i, IsFragment d i p) :
    Complete d arrivals ↔ ∀ a < d.data.length, a ∈ received arrivals := by
  constructor
  · intro h a ha
    obtain ⟨i, hi, hlo, hhi⟩ := Datagram.exists_piece ha
    obtain ⟨p, hp, hf⟩ := h i hi
    have hstart := hf.start_eq
    have hstop := hf.stop_eq
    refine ⟨p, hp, Range.mem_addrs.mpr ?_⟩
    simp only [IpPacket.range, IpPacket.stop] at *
    omega
  · intro h i hi
    have hpos : d.offset i < d.offset (i + 1) := by
      rw [Datagram.offset_succ hi, List.getD_eq_getElem?_getD, List.getElem?_eq_getElem hi, Option.getD_some]
      have := List.length_pos_iff.mpr (d.nonempty _ (List.getElem_mem hi))
      omega
    have hle := Datagram.offset_mono (d := d) (show i + 1 ≤ d.pieces.length from hi)
    rw [Datagram.offset_length] at hle
    obtain ⟨p, hp, ha⟩ := h (d.offset i) (by omega)
    obtain ⟨j, hf⟩ := hfrag p hp
    have hstart := hf.start_eq
    have hstop := hf.stop_eq
    rw [Range.mem_addrs] at ha
    obtain rfl : j = i := by
      rcases Nat.lt_trichotomy j i with hji | heq | hij
      · have := Datagram.offset_mono (d := d) (show j + 1 ≤ i from hji)
        simp only [IpPacket.range, IpPacket.stop] at *
        omega
      · exact heq
      · have := Datagram.offset_mono (d := d) (show i + 1 ≤ j from hij)
        simp only [IpPacket.range] at ha
        omega
    exact ⟨p, hp, hf⟩

/-- The buffer is fresh, or holds what has arrived of the datagram. -/
def Ready (d : Datagram) (before : List IpPacket) (st : DefragState) : Prop :=
  (before = [] ∧ (st.totalLen = 0 ∨ st.localip.ipId ≠ d.ipId)) ∨ ∃ n f, Inv d (received before) st n f

theorem Ready.step {i : Nat} (h : Ready d before st) (hb : ∀ p ∈ before, ∃ i, IsFragment d i p)
    (hf : IsFragment d i ip) (hsafe : SafeArrival (received before) ip) :
    Outcome d (received (before ++ [ip])) (netDefragment st ip) := by
  have hmax : ¬ ipMaxudp < ip.stop := Nat.not_lt.mpr (hf.stop_le.trans d.size_le)
  have hc : ip.range.addrs ⊆ received before ∨ Disjoint ip.range.addrs (received before) := by
    by_cases hall : ∃ p ∈ before, ip.range = p.range
    · obtain ⟨p, hp, he⟩ := hall
      exact Or.inl fun a ha => ⟨p, hp, he ▸ ha⟩
    · refine Or.inr (Set.disjoint_left.mpr ?_)
      rintro a ha ⟨p, hp, hap⟩
      obtain ⟨j, hj⟩ := hb p hp
      rcases hf.same_or_disjoint hj with he | hd
      · exact hall ⟨p, hp, he⟩
      · exact Set.disjoint_left.mp hd ha hap
  rw [netDefragment, if_neg hmax, received_append_singleton]
  rcases h with ⟨rfl, hfresh⟩ | ⟨n, f, h⟩
  · rw [if_pos (by rw [hf.ipId_eq]; exact hfresh)]
    have hempty : received [] = ∅ := by ext a; simp [received]
    rw [hempty] at hsafe hc ⊢
    exact (inv_reset st hf).step hf hsafe hc
  · have hpos := Inv.data_pos hf
    have hle := h.total.le
    rw [if_neg]
    · exact h.step hf hsafe hc
    · rintro (h0 | hid)
      · omega
      · exact hid (h.ipId_eq.trans hf.ipId_eq.symm)

theorem Ready.run (h : Ready d before st) (hfrag : ∀ p ∈ before ++ arrivals, ∃ i, IsFragment d i p)
    (hinc : ¬ Complete d (before ++ arrivals)) (hsafe : SafeRun before arrivals) :
    ∃ st', st.run arrivals = some (st', List.replicate arrivals.length none) ∧
      Ready d (before ++ arrivals) st' := by
  induction arrivals generalizing before st with
  | nil => exact ⟨st, rfl, by simpa using h⟩
  | cons ip arrivals ih =>
      have hassoc : before ++ ip :: arrivals = before ++ [ip] ++ arrivals := by simp
      obtain ⟨i, hf⟩ := hfrag ip (by simp)
      have hb : ∀ p ∈ before, ∃ i, IsFragment d i p := fun p hp => hfrag p (by simp [hp])
      have hout := h.step hb hf hsafe.1
      -- no packet is returned: not all bytes have arrived
      rcases hd : netDefragment st ip with _ | ⟨st', _ | r⟩
      · rw [hd] at hout; exact hout.elim
      · rw [hd] at hout
        obtain ⟨-, hinv⟩ := hout
        have hready : Ready d (before ++ [ip]) st' := Or.inr hinv
        obtain ⟨st'', hrun, hready⟩ := ih hready (by rwa [← hassoc]) (by rwa [← hassoc]) hsafe.2
        refine ⟨st'', ?_, by rwa [hassoc]⟩
        simp [DefragState.run, hd, hrun, List.replicate_succ]
      · rw [hd] at hout
        exfalso
        refine hinc ((complete_iff hfrag).mpr fun a ha => ?_)
        obtain ⟨p, hp, hpa⟩ := hout.1 a ha
        exact ⟨p, by rw [hassoc]; exact List.mem_append_left _ hp, hpa⟩

end

/-- Fragments of a datagram arrive in an order in which each is safe, and not all of them before `ip`:
`__NetDefragment` returns NULL for each but the one that completes the datagram, and the datagram for that. -/
theorem defragment_exact (d : Datagram) (st : DefragState) (arrivals : List IpPacket) (ip : IpPacket)
    (hfresh : st.totalLen = 0 ∨ st.localip.ipId ≠ d.ipId)
    (hfrag : ∀ p ∈ arrivals ++ [ip], ∃ i, IsFragment d i p) (hinc : ¬ Complete d arrivals)
    (hsafe : SafeRun [] (arrivals ++ [ip])) :
    ∃ st' st'' r, st.run arrivals = some (st', List.replicate arrivals.length none) ∧
      netDefragment st' ip = some (st'', r) ∧
      (¬ Complete d (arrivals ++ [ip]) → r = none) ∧
      (Complete d (arrivals ++ [ip]) → ∃ p, r = some p ∧ p.payload.read 0 d.data.length = d.data ∧
        p.len = d.data.length + ipHdrSize) := by
  have hb : ∀ p ∈ arrivals, ∃ i, IsFragment d i p := fun p hp => hfrag p (List.mem_append_left _ hp)
  obtain ⟨i, hf⟩ := hfrag ip (by simp)
  have hsafe' : SafeRun [] arrivals ∧ SafeArrival (received arrivals) ip := hsafe.append
  have hready : Ready d [] st := Or.inl ⟨rfl, hfresh⟩
  obtain ⟨st', hrun, hready⟩ := hready.run (by simpa using hb) (by simpa using hinc) hsafe'.1
  have hout := Ready.step hready (by simpa using hb) hf (by simpa using hsafe'.2)
  rw [List.nil_append] at hout
  rcases hd : netDefragment st' ip with _ | ⟨st'', _ | r⟩
  · rw [hd] at hout; exact hout.elim
  · rw [hd] at hout
    refine ⟨st', st'', none, hrun, hd, fun _ => rfl, fun hall => ?_⟩
    obtain ⟨⟨a, ha, hac⟩, -⟩ := hout
    exact absurd ((complete_iff hfrag).mp hall a ha) hac
  · rw [hd] at hout
    obtain ⟨hall, hread, hlen⟩ := hout
    exact ⟨st', st'', some r, hrun, hd, fun hn => absurd ((complete_iff hfrag).mpr hall) hn,
      fun _ => ⟨r, rfl, hread, hlen⟩⟩

/-! ## A datagram of three pieces -/

def threePieces : Datagram where
  ipId := 7
  pieces := [List.replicate 8 1, List.replicate 8 2, List.replicate 8 3]
  nonempty := by decide
  blocks := by
    intro i hi
    have : i = 0 ∨ i = 1 := by simp at hi; omega
    rcases this with rfl | rfl <;> decide
  size_le := by decide

/-- A packet with the 8 bytes `b` at block `off`. -/
def packetOf (off : UInt16) (b : UInt8) : IpPacket where
  hdr := ⟨0x45, 0, 28, 7, off, 64, 17, 0, 0, 0⟩
  data := List.replicate 8 b
  ipLen_eq := rfl

def firstPacket : IpPacket := packetOf 0x2000 1

def middlePacket : IpPacket := packetOf 0x2001 2

def lastPacket : IpPacket := packetOf 2 3

def freshState : DefragState := ⟨⟨0, 0, 0, 0, 0, 0, 0, 0, 0, 0⟩, fun _ => 0, 0, 0⟩

theorem firstPacket_isFragment : IsFragment threePieces 0 firstPacket :=
  ⟨by decide, rfl, by decide, rfl, by decide⟩

theorem middlePacket_isFragment : IsFragment threePieces 1 middlePacket :=
  ⟨by decide, rfl, by decide, rfl, by decide⟩

theorem lastPacket_isFragment : IsFragment threePieces 2 lastPacket :=
  ⟨by decide, rfl, by decide, rfl, by decide⟩

/-- The last piece, twice, then the first and the middle one. -/
theorem defragment_exact_last_first :
    ∃ st' st'' p, freshState.run [lastPacket, lastPacket, firstPacket] = some (st', [none, none, none]) ∧
      netDefragment st' middlePacket = some (st'', some p) ∧
      p.payload.read 0 24 = threePieces.data ∧ p.len = 44 := by
  have hfrag : ∀ p ∈ [lastPacket, lastPacket, firstPacket] ++ [middlePacket], ∃ i, IsFragment threePieces i p := by
    intro p hp
    simp only [List.cons_append, List.nil_append, List.mem_cons, List.not_mem_nil, or_false] at hp
    rcases hp with rfl | rfl | rfl | rfl
    · exact ⟨2, lastPacket_isFragment⟩
    · exact ⟨2, lastPacket_isFragment⟩
    · exact ⟨0, firstPacket_isFragment⟩
    · exact ⟨1, middlePacket_isFragment⟩
  have hinc : ¬ Complete threePieces [lastPacket, lastPacket, firstPacket] := by
    intro h
    obtain ⟨p, hp, hf⟩ := h 1 (by decide)
    have hs := hf.start_eq
    simp only [List.mem_cons, List.not_mem_nil, or_false] at hp
    rcases hp with rfl | rfl | rfl <;> exact absurd hs (by decide)
  have hall : Complete threePieces ([lastPacket, lastPacket, firstPacket] ++ [middlePacket]) := by
    intro i hi
    have : i = 0 ∨ i = 1 ∨ i = 2 := by simp [threePieces] at hi; omega
    rcases this with rfl | rfl | rfl
    · exact ⟨firstPacket, by simp, firstPacket_isFragment⟩
    · exact ⟨middlePacket, by simp, middlePacket_isFragment⟩
    · exact ⟨lastPacket, by simp, lastPacket_isFragment⟩
  have hsafe : SafeRun [] ([lastPacket, lastPacket, firstPacket] ++ [middlePacket]) := by
    refine ⟨Or.inr (Or.inr (Or.inr (Or.inl ?_))), Or.inl ?_, Or.inr (Or.inr (Or.inl (by decide))),
      Or.inr (Or.inl ?_), trivial⟩
    · intro b _ hb
      simp [received] at hb
    · exact ⟨lastPacket, by simp, Range.mem_addrs.mpr (by decide)⟩
    · exact ⟨firstPacket, by simp, Range.mem_addrs.mpr (by decide)⟩
  obtain ⟨st', st'', r, hrun, hlast, -, hdone⟩ :=
    defragment_exact threePieces freshState [lastPacket, lastPacket, firstPacket] middlePacket (Or.inl rfl)
      hfrag hinc hsafe
  obtain ⟨p, rfl, hread, hlen⟩ := hdone hall
  exact ⟨st', st'', p, hrun, hlast, hread, hlen⟩

/-- The middle piece, then the last one: a packet is returned although the first piece has not arrived. -/
theorem defragment_returns_without_first_piece :
    IsFragment threePieces 1 middlePacket ∧ IsFragment threePieces 2 lastPacket ∧
      ¬ Complete threePieces [middlePacket, lastPacket] ∧
      ∃ st' p, freshState.run [middlePacket, lastPacket] = some (st', [none, some p]) ∧
        p.payload.read 0 24 ≠ threePieces.data := by
  refine ⟨middlePacket_isFragment, lastPacket_isFragment, ?_, ?_⟩
  · intro h
    obtain ⟨p, hp, hf⟩ := h 0 (by decide)
    have hs := hf.start_eq
    simp only [List.mem_cons, List.not_mem_nil, or_false] at hp
    rcases hp with rfl | rfl <;> exact absurd hs (by decide)
  · refine ⟨_, _, rfl, ?_⟩
    decide

end Uboot.Defrag
