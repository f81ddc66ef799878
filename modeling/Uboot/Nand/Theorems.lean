import Uboot.Nand.SkipBad

/-!
# Writing and reading back

An image that fits is written to good blocks and read back, when the good bytes can be counted in 32 bits and no block
beyond 4 GiB is taken for another one.
-/

namespace Uboot.Nand

open Uboot.Lib

/-- The call comes back with this result. -/
def Returns {α : Type} (run : Nat → Option α) (result : α) : Prop := ∃ bound, ∀ fuel, bound ≤ fuel → run fuel = some result

theorem Returns.unique {α : Type} {run : Nat → Option α} {x y : α} (hx : Returns run x) (hy : Returns run y) : x = y := by
  obtain ⟨m, hm⟩ := hx
  obtain ⟨n, hn⟩ := hy
  have he := (hm (max m n) (Nat.le_max_left m n)).symm.trans (hn (max m n) (Nat.le_max_right m n))
  exact Option.some.inj he

namespace NandInfo

/-- Both calls fail at once when the image does not fit. When it fits, it is written, it is read back, and only good
blocks inside the device are touched. -/
def RoundTrip (nand : NandInfo) (offset length : Nat) : Prop :=
  ∀ (buf : List UInt8) (mem : Mem), buf.length = length →
    ((nand.goodBytes offset).length < length → ∀ fuel,
      nand.writeSkipBad fuel offset buf ⟨mem, []⟩ = some (einval, 0, ⟨mem, []⟩) ∧
      nand.readSkipBad fuel offset length ⟨mem, []⟩ = some (einval, 0, [], ⟨mem, []⟩)) ∧
    (length ≤ (nand.goodBytes offset).length → ∃ f f',
      Returns (fun fuel => nand.writeSkipBad fuel offset buf ⟨mem, []⟩) (0, length, f) ∧
      Returns (fun fuel => nand.readSkipBad fuel offset length f) (0, length, buf, f') ∧
      ∀ a, f'.Touched a → a < nand.size ∧ nand.good a = true)

/-- The first bytes that look good to the loops are inside the device and good. -/
def LooksRight (nand : NandInfo) (offset length : Nat) : Prop :=
  length ≤ (usable nand.looksGood offset (nand.size - offset)).length ∧
    ∀ a ∈ (usable nand.looksGood offset (nand.size - offset)).take length, nand.good a = true

section
variable {nand : NandInfo} {o length fuel : Nat} {buf : List UInt8} {f : Flash}

theorem writeSkipBad_fail (ho : o % nand.writesize = 0) (h : nand.checkSkipLen o buf.length = none) :
    nand.writeSkipBad fuel o buf f = some (einval, 0, f) := by
  rw [writeSkipBad, if_neg (not_not.mpr ho), h]

theorem readSkipBad_fail (ho : o % nand.writesize = 0) (h : nand.checkSkipLen o length = none) :
    nand.readSkipBad fuel o length f = some (einval, 0, [], f) := by
  rw [readSkipBad, if_neg (not_not.mpr ho), h]

theorem writeSkipBad_once (ho : o % nand.writesize = 0) (h : nand.checkSkipLen o buf.length = some false) :
    nand.writeSkipBad fuel o buf f = some (0, buf.length, nandWrite f o buf) := by
  rw [writeSkipBad, if_neg (not_not.mpr ho), h]

theorem readSkipBad_once (ho : o % nand.writesize = 0) (h : nand.checkSkipLen o length = some false) :
    nand.readSkipBad fuel o length f =
      some (0, length, f.mem.read o length, ⟨f.mem, f.log ++ [(o, length)]⟩) := by
  rw [readSkipBad, if_neg (not_not.mpr ho), h]
  rfl

theorem writeSkipBad_loop (ho : o % nand.writesize = 0) (h : nand.checkSkipLen o buf.length = some true) :
    nand.writeSkipBad fuel o buf f = (nand.writeLoop fuel o buf f).map fun f => (0, buf.length, f) := by
  rw [writeSkipBad, if_neg (not_not.mpr ho), h]

theorem readSkipBad_loop (ho : o % nand.writesize = 0) (h : nand.checkSkipLen o length = some true) :
    nand.readSkipBad fuel o length f =
      (nand.readLoop fuel o length [] f).map fun (bytes, f) => (0, length, bytes, f) := by
  rw [readSkipBad, if_neg (not_not.mpr ho), h]

theorem not_touched_nil {mem : Mem} {a : Nat} : ¬ (Flash.mk mem []).Touched a := by
  rintro ⟨c, hc, -⟩
  cases hc

/-- The image is stored where the loops find room, and it is read from there. -/
theorem loops_round_trip {n : Nat} (ho : o % nand.writesize = 0) (h : nand.checkSkipLen o buf.length = some true)
    (hroom : buf.length ≤ (usable nand.looksGood o n).length) (mem : Mem) : ∃ f f',
    Returns (fun fuel => nand.writeSkipBad fuel o buf ⟨mem, []⟩) (0, buf.length, f) ∧
      Returns (fun fuel => nand.readSkipBad fuel o buf.length f) (0, buf.length, buf, f') ∧
      (∀ a, f.Touched a ↔ a ∈ (usable nand.looksGood o n).take buf.length) ∧
      ∀ a, f'.Touched a ↔ a ∈ (usable nand.looksGood o n).take buf.length := by
  obtain ⟨f, hwrite, hplaced⟩ := writeLoop_placed (f := ⟨mem, []⟩) hroom (Nat.lt_succ_self n)
  obtain ⟨f', hread, htouch⟩ := readLoop_loaded (f := f) [] hroom (Nat.lt_succ_self n)
  have hf : ∀ a, f.Touched a ↔ a ∈ (usable nand.looksGood o n).take buf.length := by
    intro a
    rw [hplaced.touched]
    simp [not_touched_nil]
  refine ⟨f, f', ⟨n + 1, ?_⟩, ⟨n + 1, ?_⟩, hf, ?_⟩
  · intro fuel hfuel
    have hsame := writeLoop_mono hfuel hwrite
    simp only [writeSkipBad_loop ho h, hsame, Option.map_some]
  · intro fuel hfuel
    have hsame := readLoop_mono hfuel hread
    simp only [readSkipBad_loop ho h, hsame, Option.map_some, List.nil_append, hplaced.stored]
  · intro a
    rw [htouch, hf, or_self]

/-- No block has to be skipped. -/
theorem once_round_trip (ho : o % nand.writesize = 0) (h : nand.checkSkipLen o buf.length = some false)
    (hcont : nand.Contiguous o buf.length) (mem : Mem) : ∃ f f',
    Returns (fun fuel => nand.writeSkipBad fuel o buf ⟨mem, []⟩) (0, buf.length, f) ∧
      Returns (fun fuel => nand.readSkipBad fuel o buf.length f) (0, buf.length, buf, f') ∧
      ∀ a, f'.Touched a → a < nand.size ∧ nand.good a = true := by
  refine ⟨nandWrite ⟨mem, []⟩ o buf, ⟨mem.write o buf, [(o, buf.length)] ++ [(o, buf.length)]⟩,
    ⟨0, fun fuel _ => writeSkipBad_once ho h⟩, ⟨0, fun fuel _ => ?_⟩, ?_⟩
  · have hread : nand.readSkipBad fuel o buf.length (nandWrite ⟨mem, []⟩ o buf) = _ := readSkipBad_once ho h
    rw [Mem.read_eq_map, nandWrite, Mem.map_write] at hread
    exact hread
  · rintro a ⟨c, hc, ha⟩
    have hcall : c = (o, buf.length) := by simpa using hc
    subst hcall
    exact hcont a ha.1 ha.2

theorem take_usable_append {good : Nat → Bool} {m n : Nat} (h : length ≤ (usable good o m).length) :
    (usable good o (m + n)).take length = (usable good o m).take length := by
  rw [usable_add, List.take_append_of_le_length h]

/-- What the loops use is inside the device. -/
theorem looksRight_of_touched {n : Nat} (ho : o ≤ nand.size) (hroom : length ≤ (usable nand.looksGood o n).length)
    (h : ∀ a ∈ (usable nand.looksGood o n).take length, a < nand.size ∧ nand.good a = true) :
    nand.LooksRight o length := by
  rcases Nat.lt_or_ge (nand.size - o) n with hlt | hge
  · obtain ⟨k, rfl⟩ := Nat.exists_eq_add_of_lt hlt
    have hin : length ≤ (usable nand.looksGood o (nand.size - o)).length := by
      by_contra hno
      -- the next byte is beyond the end
      have hsplit := usable_add nand.looksGood o (nand.size - o) (k + 1)
      rw [← Nat.add_assoc, Nat.add_sub_cancel' ho] at hsplit
      obtain ⟨i, hi⟩ : ∃ i, i = (usable nand.looksGood o (nand.size - o)).length := ⟨_, rfl⟩
      have hlen : i < (usable nand.looksGood o (nand.size - o + k + 1)).length := by omega
      have hmem : (usable nand.looksGood o (nand.size - o + k + 1)).get ⟨i, hlen⟩ ∈
          (usable nand.looksGood o (nand.size - o + k + 1)).take length := by
        rw [List.mem_take_iff_getElem]
        exact ⟨i, by omega, rfl⟩
      have hlt' := (h _ hmem).1
      have hget : (usable nand.looksGood o (nand.size - o + k + 1)).get ⟨i, hlen⟩ ∈
          usable nand.looksGood nand.size (k + 1) := by
        simp only [List.get_eq_getElem, hsplit]
        rw [List.getElem_append_right (by omega)]
        exact List.getElem_mem _
      have hge := (mem_usable.mp hget).1.1
      omega
    rw [Nat.add_assoc, take_usable_append hin] at h
    exact ⟨hin, fun a ha => (h a ha).2⟩
  · obtain ⟨k, hk⟩ := Nat.exists_eq_add_of_le hge
    rw [LooksRight, hk]
    rw [← take_usable_append (n := k) hroom] at h
    refine ⟨?_, fun a ha => (h a ha).2⟩
    rw [usable_add, List.length_append]
    omega

end

end NandInfo

/-- When writing without the bad blocks and reading back works. -/
theorem skip_bad_round_trip_iff (nand : NandInfo) (offset length : Nat) (ho : offset % nand.writesize = 0)
    (hlen : length < 2 ^ 32) : nand.RoundTrip offset length ↔
      (nand.goodBytes offset).length < length ∨
        (nand.NoWrap offset length ∧ (nand.Contiguous offset length ∨ nand.LooksRight offset length)) := by
  constructor
  · intro h
    rcases Nat.lt_or_ge (nand.goodBytes offset).length length with hshort | hfit
    · exact Or.inl hshort
    right
    have hbuf : (List.replicate length (0 : UInt8)).length = length := List.length_replicate
    obtain ⟨f, f', hwrite, hread, htouch⟩ := (h (List.replicate length 0) (fun _ => 0) hbuf).2 hfit
    have hnowrap : nand.NoWrap offset length := by
      by_contra hno
      have hfail : nand.checkSkipLen offset (List.replicate length (0 : UInt8)).length = none := by
        rw [hbuf]
        exact NandInfo.checkSkipLen_wrap hno
      have hret := hwrite.unique ⟨0, fun fuel _ => NandInfo.writeSkipBad_fail ho hfail⟩
      cases congrArg Prod.fst hret
    refine ⟨hnowrap, ?_⟩
    obtain ⟨skip, hskip, hiff⟩ := NandInfo.checkSkipLen_fits hfit hnowrap
    cases skip with
    | false => exact Or.inl (hiff.mp rfl)
    | true =>
        right
        obtain ⟨bound, hbound⟩ := hwrite
        have hcheck : nand.checkSkipLen offset (List.replicate length (0 : UInt8)).length = some true := by
          rw [hbuf]
          exact hskip
        have hrun := hbound bound le_rfl
        simp only [NandInfo.writeSkipBad_loop ho hcheck, Option.map_eq_some_iff] at hrun
        obtain ⟨g, hg, -⟩ := hrun
        obtain ⟨n, hn⟩ := NandInfo.usable_of_writeLoop hg
        obtain ⟨f1, f1', hwrite1, hread1, -, htouch1⟩ := NandInfo.loops_round_trip ho hcheck hn fun _ => 0
        rw [hbuf] at hwrite1 hread1 htouch1 hn
        have hf : f = f1 := by
          have hret := Returns.unique ⟨bound, hbound⟩ hwrite1
          simpa using hret
        subst hf
        have hf' : f' = f1' := by
          have hret := hread.unique hread1
          simpa using hret
        subst hf'
        refine NandInfo.looksRight_of_touched ?_ hn fun a ha => htouch a ((htouch1 a).mpr ha)
        by_contra hno
        rw [NandInfo.goodBytes_end (by omega), List.length_nil] at hfit
        have hzero : length = 0 := by omega
        rw [hzero] at hiff
        exact absurd (hiff.mpr fun a hle hlt => by omega) (by decide)
  · rintro (hshort | ⟨hnowrap, hpath⟩) buf mem rfl
    · have hfail := NandInfo.checkSkipLen_short hlen hshort
      refine ⟨fun _ fuel => ⟨NandInfo.writeSkipBad_fail ho hfail, NandInfo.readSkipBad_fail ho hfail⟩, ?_⟩
      intro hfit
      omega
    · refine ⟨fun hshort fuel => ?_, fun hfit => ?_⟩
      · have hfail := NandInfo.checkSkipLen_short hlen hshort
        exact ⟨NandInfo.writeSkipBad_fail ho hfail, NandInfo.readSkipBad_fail ho hfail⟩
      · obtain ⟨skip, hskip, hiff⟩ := NandInfo.checkSkipLen_fits hfit hnowrap
        cases skip with
        | false => exact NandInfo.once_round_trip ho hskip (hiff.mp rfl) mem
        | true =>
            have hright : nand.LooksRight offset buf.length := by
              rcases hpath with hcont | hright
              · exact absurd (hiff.mpr hcont) (by decide)
              · exact hright
            obtain ⟨f, f', hwrite, hread, -, htouch⟩ := NandInfo.loops_round_trip ho hskip hright.1 mem
            refine ⟨f, f', hwrite, hread, fun a ha => ?_⟩
            have hin := (htouch a).mp ha
            have hlt := (mem_usable.mp (List.mem_of_mem_take hin)).1
            exact ⟨by omega, hright.2 a hin⟩

theorem fourBlocks_pos : 0 < 16 := by decide

/-- Four blocks; the second one is bad. -/
def fourBlocks : NandInfo where
  size := 64
  erasesize := 16
  writesize := 4
  bad := fun a => a = 16
  size_lt := by decide
  erasesize_pos := fourBlocks_pos
  erasesize_lt := by decide
  erasesize_dvd := by decide
  writesize_dvd := by decide
  size_dvd := by decide

theorem skip_bad_round_trip_four_blocks : fourBlocks.RoundTrip 4 20 := by
  refine (skip_bad_round_trip_iff fourBlocks 4 20 (by decide) (by decide)).mpr (Or.inr ⟨?_, Or.inr ?_⟩)
  · unfold NandInfo.NoWrap
    decide
  · unfold NandInfo.LooksRight
    decide

/-- 8 GiB in blocks of 128 KiB; the first block beyond 4 GiB is bad. -/
def eightGiB : NandInfo where
  size := 2 ^ 33
  erasesize := 2 ^ 17
  writesize := 2 ^ 11
  bad := fun a => a = 2 ^ 32
  size_lt := by decide
  erasesize_pos := by decide
  erasesize_lt := by decide
  erasesize_dvd := by decide
  writesize_dvd := by decide
  size_dvd := by decide

/-- The bad block looks like block 0, and a page is written to it. -/
theorem eightGiB_writes_bad_block : ¬ eightGiB.RoundTrip (2 ^ 32) 2048 := by
  intro h
  have hblock : ∀ a, 2 ^ 32 ≤ a → a < 2 ^ 32 + 2048 → eightGiB.looksGood a = true := by
    intro a hle hlt
    have hrest : a < 2 ^ 32 + (eightGiB.erasesize - 2 ^ 32 % eightGiB.erasesize) := hlt.trans (by decide)
    rw [(eightGiB.looksGood_blockWise).rest eightGiB.erasesize_pos hle hrest]
    decide
  have husable : usable eightGiB.looksGood (2 ^ 32) 2048 = List.range' (2 ^ 32) 2048 := usable_all hblock
  have hfit : 2048 ≤ (eightGiB.goodBytes (2 ^ 32)).length := by
    have hfirst := NandInfo.goodBytes_cons (show 2 ^ 32 < eightGiB.size by decide)
    have hsecond := NandInfo.goodBytes_cons (show 2 ^ 32 + 2 ^ 17 < eightGiB.size by decide)
    have hgood : eightGiB.good (2 ^ 32 + 2 ^ 17) = true := by decide
    rw [if_pos hgood] at hsecond
    rw [hfirst, List.length_append]
    refine le_trans ?_ (Nat.le_add_left _ _)
    change 2048 ≤ (eightGiB.goodBytes (2 ^ 32 + 2 ^ 17)).length
    rw [hsecond, List.length_append, List.length_range']
    exact le_trans (by decide) (Nat.le_add_right _ _)
  have hbuf : (List.replicate 2048 (0 : UInt8)).length = 2048 := List.length_replicate
  have hcheck : eightGiB.checkSkipLen (2 ^ 32) (List.replicate 2048 (0 : UInt8)).length = some true := by
    rw [hbuf]
    decide
  obtain ⟨f, f', hwrite, hread, htouch⟩ := (h (List.replicate 2048 0) (fun _ => 0) hbuf).2 hfit
  obtain ⟨f1, f1', hwrite1, hread1, -, htouch1⟩ := NandInfo.loops_round_trip (n := 2048) (by decide) hcheck
    (by rw [husable, List.length_range', hbuf]) fun _ => 0
  rw [hbuf] at hwrite1 hread1 htouch1
  have hf : f = f1 := congrArg (·.2.2) (hwrite.unique hwrite1)
  subst hf
  have hf' : f' = f1' := congrArg (·.2.2.2) (hread.unique hread1)
  subst hf'
  have hin : 2 ^ 32 ∈ (usable eightGiB.looksGood (2 ^ 32) 2048).take 2048 := by
    rw [husable, List.take_of_length_le (by rw [List.length_range']), List.mem_range'_1]
    decide
  have hgood := (htouch _ ((htouch1 _).mpr hin)).2
  exact absurd hgood (by decide)

end Uboot.Nand
