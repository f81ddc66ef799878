import Uboot.EnvNand.Basic
import Uboot.Nand.Theorems

/-!
# Where the environment is

`writeenv` and `readenv` take the good blocks of the area in order, one chunk for each. They agree as long as the end
of the area can be computed in 32 bits.
-/

namespace Uboot.EnvNand

open Uboot.Lib Uboot.Nand

/-- The good ones of `r` blocks from `o` on. -/
def goodBlocks (nand : NandInfo) (o r : Nat) : List Nat :=
  ((List.range r).map fun i => o + i * nand.erasesize).filter fun a => !nand.bad a

/-- The addresses of the first `len` bytes of each block. -/
def chunkBytes (blocks : List Nat) (len : Nat) : List Nat := blocks.flatMap fun o => List.range' o len

/-- The size of a chunk. -/
def chunk (cfg : Config) (nand : NandInfo) : Nat := min nand.erasesize cfg.envSize

section
variable {cfg : Config} {nand : NandInfo} {o r c saved stop fuel a len : Nat} {buf : List UInt8} {f : Flash}

theorem goodBlocks_succ (nand : NandInfo) (o r : Nat) : goodBlocks nand o (r + 1) =
    (if nand.bad o then [] else [o]) ++ goodBlocks nand (o + nand.erasesize) r := by
  have hshift : ((fun i => o + i * nand.erasesize) ∘ Nat.succ) = fun i => o + nand.erasesize + i * nand.erasesize := by
    funext i
    simp only [Function.comp, Nat.succ_mul]
    omega
  rw [goodBlocks, List.range_succ_eq_map, List.map_cons, List.map_map, hshift, Nat.zero_mul, Nat.add_zero,
    List.filter_cons]
  cases nand.bad o <;> rfl

theorem goodBlocks_bad (h : nand.bad o = true) : goodBlocks nand o (r + 1) = goodBlocks nand (o + nand.erasesize) r := by
  rw [goodBlocks_succ, h]
  rfl

theorem goodBlocks_good (h : nand.bad o = false) :
    goodBlocks nand o (r + 1) = o :: goodBlocks nand (o + nand.erasesize) r := by
  rw [goodBlocks_succ, h]
  rfl

theorem mem_goodBlocks (h : a ∈ goodBlocks nand o r) :
    ∃ i < r, a = o + i * nand.erasesize ∧ nand.bad a = false := by
  obtain ⟨hmem, hgood⟩ := List.mem_filter.mp h
  obtain ⟨i, hi, rfl⟩ := List.mem_map.mp hmem
  exact ⟨i, List.mem_range.mp hi, rfl, by simpa using hgood⟩

theorem chunkBytes_cons (o : Nat) (blocks : List Nat) (len : Nat) :
    chunkBytes (o :: blocks) len = List.range' o len ++ chunkBytes blocks len := rfl

theorem chunk_pos (cfg : Config) (nand : NandInfo) : 0 < chunk cfg nand :=
  Nat.lt_min.mpr ⟨nand.erasesize_pos, cfg.envSize_pos⟩

/-- The bytes of the chunks are in good blocks of the area. -/
theorem mem_chunkBytes (hlen : len ≤ nand.erasesize) (h : a ∈ chunkBytes ((goodBlocks nand o r).take c) len) :
    o ≤ a ∧ a < o + r * nand.erasesize ∧ ∃ i, nand.bad (o + i * nand.erasesize) = false ∧
      o + i * nand.erasesize ≤ a ∧ a < o + i * nand.erasesize + nand.erasesize := by
  obtain ⟨b, hb, ha⟩ := List.mem_flatMap.mp h
  obtain ⟨i, hi, rfl, hgood⟩ := mem_goodBlocks (List.mem_of_mem_take hb)
  obtain ⟨hle, hlt⟩ := List.mem_range'_1.mp ha
  have hmul := Nat.mul_le_mul_right nand.erasesize (Nat.succ_le_of_lt hi)
  rw [Nat.succ_mul] at hmul
  exact ⟨by omega, by omega, i, hgood, hle, by omega⟩

theorem Placed.nil (f : Flash) : Placed [] [] f f := ⟨rfl, fun _ _ => rfl, fun a => by simp⟩

/-! ## The two loops -/

/-- The environment goes to the good blocks, as far as they last. -/
theorem writeLoop_placed (hstop : stop = o + r * nand.erasesize) (hlt : stop < 2 ^ 32)
    (hbuf : buf.length = cfg.envSize) (hsaved : saved + c * chunk cfg nand = cfg.envSize) (f : Flash) :
    ∃ f', (∀ fuel, r < fuel → writeLoop cfg nand buf stop fuel o saved f =
        some (saved + ((goodBlocks nand o r).take c).length * chunk cfg nand, f')) ∧
      Placed (chunkBytes ((goodBlocks nand o r).take c) (chunk cfg nand))
        ((buf.drop saved).take (((goodBlocks nand o r).take c).length * chunk cfg nand)) f f' := by
  induction r generalizing o c saved f with
  | zero =>
      refine ⟨f, fun fuel hfuel => ?_, by simpa [goodBlocks, chunkBytes] using Placed.nil f⟩
      obtain ⟨fuel, rfl⟩ := Nat.exists_eq_add_of_lt hfuel
      rw [writeLoop, if_neg (by omega)]
      simp [goodBlocks]
  | succ r ih =>
      have hlen := chunk_pos cfg nand
      have hE := nand.erasesize_pos
      rw [Nat.succ_mul] at hstop
      cases c with
      | zero =>
          refine ⟨f, fun fuel hfuel => ?_, by simpa [chunkBytes] using Placed.nil f⟩
          obtain ⟨fuel, rfl⟩ := Nat.exists_eq_add_of_lt hfuel
          rw [writeLoop, if_neg (by omega)]
          simp
      | succ c =>
          rw [Nat.succ_mul] at hsaved
          have hmore : saved < cfg.envSize ∧ o < stop := by omega
          have hnext : (o + nand.erasesize) % 2 ^ 32 = o + nand.erasesize := Nat.mod_eq_of_lt (by omega)
          cases hbad : nand.bad o with
          | true =>
              rw [goodBlocks_bad hbad]
              obtain ⟨f', hrun, hplaced⟩ := ih (o := o + nand.erasesize) (c := c + 1) (by omega)
                (by rw [Nat.succ_mul]; exact hsaved) f
              refine ⟨f', fun fuel hfuel => ?_, hplaced⟩
              obtain ⟨fuel, rfl⟩ : ∃ m, fuel = m + 1 := ⟨fuel - 1, by omega⟩
              rw [writeLoop, if_pos hmore]
              dsimp only
              rw [hnext, if_pos hbad]
              exact hrun fuel (by omega)
          | false =>
              rw [goodBlocks_good hbad, List.take_succ_cons, chunkBytes_cons, List.length_cons, Nat.succ_mul]
              obtain ⟨f', hrun, hplaced⟩ := ih (o := o + nand.erasesize) (by omega)
                (show saved + chunk cfg nand + c * chunk cfg nand = _ by omega) (nandWrite f o ((buf.drop saved).take (chunk cfg nand)))
              refine ⟨f', fun fuel hfuel => ?_, ?_⟩
              · obtain ⟨fuel, rfl⟩ : ∃ m, fuel = m + 1 := ⟨fuel - 1, by omega⟩
                rw [writeLoop, if_pos hmore]
                dsimp only
                rw [hnext, if_neg (by rw [hbad]; decide), Nat.add_comm (_ * chunk cfg nand), ← Nat.add_assoc]
                exact hrun fuel (by omega)
              · have hfirst := Placed.write f o ((buf.drop saved).take (chunk cfg nand))
                rw [List.length_take, List.length_drop, Nat.min_eq_left (by omega)] at hfirst
                rw [← List.drop_drop] at hplaced
                have hall := hfirst.append hplaced ?_
                · rw [Nat.add_comm (_ * chunk cfg nand), List.take_add]
                  exact hall
                · intro a ha hin
                  have hup := (mem_chunkBytes (Nat.min_le_left _ _) hin).1
                  have hdown := (List.mem_range'_1.mp ha).2
                  have hle : chunk cfg nand ≤ nand.erasesize := Nat.min_le_left _ _
                  omega

/-- A chunk in a good block is read at once. -/
theorem readSkipBad_chunk (ho : o % nand.erasesize = 0) (hsize : o + nand.erasesize ≤ nand.size)
    (hgood : nand.bad o = false) (hlen : len ≤ nand.erasesize) (f : Flash) :
    nand.readSkipBad fuel o len f = some (0, len, f.mem.read o len, ⟨f.mem, f.log ++ [(o, len)]⟩) := by
  have hE := nand.erasesize_pos
  have hstart : nand.blockStart o = o := by
    have hdiv := Nat.div_add_mod o nand.erasesize
    rw [NandInfo.blockStart, Nat.mul_comm]
    omega
  have hg : nand.good o = true := by rw [NandInfo.good, hstart, hgood]; rfl
  have hcont : nand.Contiguous o len := by
    intro a hle hlt
    refine ⟨by omega, ?_⟩
    rw [(nand.good_blockWise).rest hE hle (by rw [ho]; omega)]
    exact hg
  have hfit : len ≤ (nand.goodBytes o).length := by
    rw [NandInfo.goodBytes_cons (by omega), if_pos hg, List.length_append, List.length_range', ho]
    omega
  have hnowrap : nand.NoWrap o len := by
    obtain ⟨q, hq⟩ := nand.erasesize_dvd
    have hlt := nand.erasesize_lt
    have hq2 : 2 ≤ q := by
      by_contra hno
      have : nand.erasesize * q ≤ nand.erasesize * 1 := Nat.mul_le_mul_left _ (by omega)
      omega
    have := Nat.mul_le_mul_left nand.erasesize hq2
    rw [NandInfo.NoWrap]
    omega
  obtain ⟨skip, hskip, hiff⟩ := NandInfo.checkSkipLen_fits hfit hnowrap
  have hfalse := hiff.mpr hcont
  subst hfalse
  apply NandInfo.readSkipBad_once _ hskip
  obtain ⟨q, hq⟩ := nand.writesize_dvd
  have hdvd : nand.writesize ∣ o := nand.writesize_dvd.trans (Nat.dvd_of_mod_eq_zero ho)
  exact Nat.mod_eq_zero_of_dvd hdvd

/-- The environment comes from the same blocks. -/
theorem readLoop_loaded (ho : o % nand.erasesize = 0) (hstop : stop = o + r * nand.erasesize) (hlt : stop < 2 ^ 32)
    (hsize : stop ≤ nand.size) (hbuf : buf.length + c * chunk cfg nand = cfg.envSize) (f : Flash) :
    ∃ f', ∀ fuel, r < fuel → readLoop cfg nand stop fuel o buf f =
      some (some (buf ++ (chunkBytes ((goodBlocks nand o r).take c) (chunk cfg nand)).map f.mem), f') := by
  induction r generalizing o c buf f with
  | zero =>
      refine ⟨f, fun fuel hfuel => ?_⟩
      obtain ⟨fuel, rfl⟩ := Nat.exists_eq_add_of_lt hfuel
      rw [readLoop, if_neg (by omega)]
      simp [goodBlocks, chunkBytes]
  | succ r ih =>
      have hlen := chunk_pos cfg nand
      have hE := nand.erasesize_pos
      rw [Nat.succ_mul] at hstop
      cases c with
      | zero =>
          refine ⟨f, fun fuel hfuel => ?_⟩
          obtain ⟨fuel, rfl⟩ := Nat.exists_eq_add_of_lt hfuel
          rw [readLoop, if_neg (by omega)]
          simp [chunkBytes]
      | succ c =>
          rw [Nat.succ_mul] at hbuf
          have hmore : buf.length < cfg.envSize ∧ o < stop := by omega
          have hnext : (o + nand.erasesize) % 2 ^ 32 = o + nand.erasesize := Nat.mod_eq_of_lt (by omega)
          have halign : (o + nand.erasesize) % nand.erasesize = 0 := by rw [Nat.add_mod_right, ho]
          cases hbad : nand.bad o with
          | true =>
              rw [goodBlocks_bad hbad]
              obtain ⟨f', hrun⟩ := ih (c := c + 1) halign (by omega)
                (by rw [Nat.succ_mul]; exact hbuf) f
              refine ⟨f', fun fuel hfuel => ?_⟩
              obtain ⟨fuel, rfl⟩ : ∃ m, fuel = m + 1 := ⟨fuel - 1, by omega⟩
              rw [readLoop, if_pos hmore]
              dsimp only
              rw [hnext, if_pos hbad]
              exact hrun fuel (by omega)
          | false =>
              rw [goodBlocks_good hbad, List.take_succ_cons, chunkBytes_cons, List.map_append, ← Mem.read_eq_map,
                ← List.append_assoc]
              obtain ⟨f', hrun⟩ := ih (c := c) halign (by omega)
                (show (buf ++ f.mem.read o (chunk cfg nand)).length + _ = _ by
                  rw [List.length_append, Mem.read_length]; omega)
                ⟨f.mem, f.log ++ [(o, chunk cfg nand)]⟩
              refine ⟨f', fun fuel hfuel => ?_⟩
              obtain ⟨fuel, rfl⟩ : ∃ m, fuel = m + 1 := ⟨fuel - 1, by omega⟩
              have hread : nand.readSkipBad fuel o (min nand.erasesize cfg.envSize) f = _ :=
                readSkipBad_chunk ho (by omega) hbad (Nat.min_le_left _ _) f
              rw [readLoop, if_pos hmore]
              dsimp only
              rw [hnext, if_neg (by rw [hbad]; decide), hread]
              exact hrun fuel (by omega)

end

/-! ## Writing and reading back -/

/-- The area has too few good blocks. -/
def TooFew (cfg : Config) (nand : NandInfo) (offset : Nat) : Prop :=
  (goodBlocks nand offset (cfg.envRange / nand.erasesize)).length * nand.erasesize < cfg.envSize

/-- `writeenv` returns, and fails just when there are too few good blocks; it writes to good blocks of the area only;
and when it succeeds `readenv` gives the environment back. -/
def RoundTrip (cfg : Config) (nand : NandInfo) (offset : Nat) : Prop :=
  ∀ (buf : List UInt8) (mem : Mem), buf.length = cfg.envSize → ∃ ok f,
    Returns (fun fuel => writeenv cfg nand fuel offset buf ⟨mem, []⟩) (ok, f) ∧
    (ok = false ↔ TooFew cfg nand offset) ∧
    (∀ a, f.Touched a → offset ≤ a ∧ a < offset + cfg.envRange ∧ nand.good a = true) ∧
    (ok = true → ∃ f', Returns (fun fuel => readenv cfg nand fuel offset f) (some buf, f'))

section
variable {cfg : Config} {nand : NandInfo} {offset : Nat}

/-- The environment is a number of chunks. -/
theorem chunks (hsize : nand.erasesize ∣ cfg.envSize ∨ cfg.envSize < nand.erasesize) :
    ∃ c, c * chunk cfg nand = cfg.envSize ∧
      ∀ k, k * nand.erasesize < cfg.envSize ↔ k < c := by
  have hE := nand.erasesize_pos
  have hpos := cfg.envSize_pos
  rcases hsize with ⟨c, hc⟩ | hlt
  · have hc1 : 0 < c := by
      rcases Nat.eq_zero_or_pos c with rfl | h
      · rw [Nat.mul_zero] at hc
        omega
      · exact h
    have hle : nand.erasesize ≤ cfg.envSize := by
      rw [hc]
      exact Nat.le_mul_of_pos_right _ hc1
    refine ⟨c, ?_, ?_⟩
    · rw [chunk, Nat.min_eq_left hle, hc, Nat.mul_comm]
    · intro k
      rw [hc, Nat.mul_comm, Nat.mul_lt_mul_left hE]
  · refine ⟨1, ?_, ?_⟩
    · rw [chunk, Nat.min_eq_right hlt.le, Nat.one_mul]
    · intro k
      constructor
      · intro hk
        by_contra hno
        have := Nat.mul_le_mul_right nand.erasesize (show 1 ≤ k by omega)
        omega
      · intro hk
        have hzero : k = 0 := by omega
        rw [hzero, Nat.zero_mul]
        exact hpos

/-- The end of the area wraps, and nothing is written. -/
theorem writeenv_wrap (nand : NandInfo) (hoff : offset < 2 ^ 32) (hwrap : 2 ^ 32 ≤ offset + cfg.envRange)
    (buf : List UInt8) (f : Flash) :
    Returns (fun fuel => writeenv cfg nand fuel offset buf f) (false, f) := by
  have hrange := cfg.envRange_lt
  have hpos := cfg.envSize_pos
  have hstop : (offset + cfg.envRange) % 2 ^ 32 = offset + cfg.envRange - 2 ^ 32 := by omega
  refine ⟨1, fun fuel hfuel => ?_⟩
  obtain ⟨n, rfl⟩ := Nat.exists_eq_add_of_le hfuel
  rw [Nat.add_comm]
  simp only [writeenv, hstop]
  rw [writeLoop, if_neg (by omega)]
  simp only [Option.map_some, Option.some.injEq, Prod.mk.injEq, and_true, decide_eq_false_iff_not]
  omega

/-- A byte in a good block of the area is good. -/
theorem good_of_block {a b : Nat} (hb : b % nand.erasesize = 0) (hgood : nand.bad b = false) (hle : b ≤ a)
    (hlt : a < b + nand.erasesize) : nand.good a = true := by
  have hstart : nand.blockStart b = b := by
    have hdiv := Nat.div_add_mod b nand.erasesize
    rw [NandInfo.blockStart, Nat.mul_comm]
    omega
  rw [(nand.good_blockWise).rest nand.erasesize_pos hle (by rw [hb]; omega), NandInfo.good, hstart, hgood]
  rfl

end

/-- When the environment is placed right. -/
theorem writeenv_readenv_iff (cfg : Config) (nand : NandInfo) (offset : Nat) (hoff : offset < 2 ^ 32)
    (halign : nand.erasesize ∣ offset) (hrange : nand.erasesize ∣ cfg.envRange)
    (hsize : nand.erasesize ∣ cfg.envSize ∨ cfg.envSize < nand.erasesize) (hdev : offset + cfg.envRange ≤ nand.size) :
    RoundTrip cfg nand offset ↔ offset + cfg.envRange < 2 ^ 32 ∨ TooFew cfg nand offset := by
  rcases Nat.lt_or_ge (offset + cfg.envRange) (2 ^ 32) with hlt | hge
  swap
  · -- the call fails without writing
    have hret := fun buf mem => writeenv_wrap nand hoff hge buf ⟨mem, []⟩
    constructor
    · intro h
      right
      obtain ⟨ok, f, hwrite, hiff, -⟩ := h (List.replicate cfg.envSize 0) (fun _ => 0) List.length_replicate
      have hok := congrArg Prod.fst (hwrite.unique (hret _ _))
      exact hiff.mp hok
    · rintro (hlt | hfew)
      · omega
      · intro buf mem _
        refine ⟨false, ⟨mem, []⟩, hret buf mem, by simpa using hfew, ?_, by simp⟩
        intro a ha
        exact absurd ha NandInfo.not_touched_nil
  · refine ⟨fun _ => Or.inl hlt, fun _ => ?_⟩
    intro buf mem hbuf
    obtain ⟨r, hr⟩ := hrange
    have hblocks : cfg.envRange / nand.erasesize = r := by rw [hr, Nat.mul_div_cancel_left _ nand.erasesize_pos]
    have hstop : (offset + cfg.envRange) % 2 ^ 32 = offset + r * nand.erasesize := by
      rw [Nat.mod_eq_of_lt hlt, hr, Nat.mul_comm]
    obtain ⟨c, hc, hfew⟩ := chunks hsize
    have hlt' : offset + r * nand.erasesize < 2 ^ 32 := by rw [hr, Nat.mul_comm] at hlt; exact hlt
    obtain ⟨f, hwrite, hplaced⟩ := writeLoop_placed (o := offset) (r := r) (c := c)
      rfl hlt' hbuf (show 0 + c * chunk cfg nand = cfg.envSize by rw [Nat.zero_add, hc]) ⟨mem, []⟩
    rw [List.drop_zero] at hplaced
    obtain ⟨k, hk⟩ : ∃ k, k = (goodBlocks nand offset r).length := ⟨_, rfl⟩
    have htake : ((goodBlocks nand offset r).take c).length = min c k := by rw [List.length_take, hk]
    have hfew' : TooFew cfg nand offset ↔ k < c := by rw [TooFew, hblocks, ← hk]; exact hfew k
    refine ⟨decide (min c k * chunk cfg nand = cfg.envSize), f, ⟨r + 1, fun fuel hfuel => ?_⟩, ?_, ?_, ?_⟩
    · simp only [writeenv, hstop, hwrite fuel hfuel, Option.map_some, htake, Nat.zero_add]
    · rw [hfew', decide_eq_false_iff_not, ← hc]
      have hlen := chunk_pos cfg nand
      constructor
      · intro hne
        by_contra hno
        exact hne (by rw [Nat.min_eq_left (by omega)])
      · intro hkc heq
        have := Nat.mul_lt_mul_of_pos_right hkc hlen
        rw [Nat.min_eq_right hkc.le] at heq
        omega
    · intro a ha
      rcases (hplaced.touched a).mp ha with hno | hin
      · exact absurd hno NandInfo.not_touched_nil
      obtain ⟨hle, hup, i, hgood, hblock⟩ := mem_chunkBytes (Nat.min_le_left _ _) hin
      refine ⟨hle, by rw [hr, Nat.mul_comm]; exact hup, good_of_block ?_ hgood hblock.1 hblock.2⟩
      rw [Nat.add_mul_mod_self_right]
      exact Nat.mod_eq_zero_of_dvd halign
    · intro hok
      have hall : min c k = c := by
        have hlen := chunk_pos cfg nand
        have heq := of_decide_eq_true hok
        rw [← hc] at heq
        exact Nat.eq_of_mul_eq_mul_right hlen heq
      obtain ⟨f', hread⟩ := readLoop_loaded (Nat.mod_eq_zero_of_dvd halign) rfl hlt'
        (by rw [hr, Nat.mul_comm] at hdev; exact hdev)
        (show ([] : List UInt8).length + c * chunk cfg nand = _ by rw [List.length_nil, Nat.zero_add, hc]) f
      refine ⟨f', r + 1, fun fuel hfuel => ?_⟩
      have hstored := hplaced.stored
      rw [htake, hall, hc, ← hbuf, List.take_length] at hstored
      simp only [readenv, hstop, hread fuel hfuel, Option.map_some, List.nil_append, hstored, Option.bind_some, hbuf,
        if_true]

/-- The blocks of the area, with one chunk more than the environment needs. -/
theorem sampleConfig_pos : 0 < 32 := by decide

def sampleConfig : Config := ⟨32, 48, sampleConfig_pos, by decide, by decide⟩

theorem writeenv_readenv_four_blocks : RoundTrip sampleConfig fourBlocks 0 :=
  (writeenv_readenv_iff sampleConfig fourBlocks 0 (by decide) (by decide) (by decide) (by decide) (by decide)).mpr
    (Or.inl (by decide))

/-- 4 GiB without bad blocks. -/
def fourGiB : NandInfo where
  size := 2 ^ 32
  erasesize := 2 ^ 17
  writesize := 2 ^ 11
  bad := fun _ => false
  size_lt := by decide
  erasesize_pos := eightGiB.erasesize_pos
  erasesize_lt := eightGiB.erasesize_lt
  erasesize_dvd := eightGiB.erasesize_dvd
  writesize_dvd := eightGiB.writesize_dvd
  size_dvd := eightGiB.erasesize_dvd

/-- One block. -/
def blockConfig : Config := ⟨2 ^ 17, 2 ^ 17, eightGiB.erasesize_pos, eightGiB.erasesize_lt, eightGiB.erasesize_lt⟩

/-- The area is the last block, and its end is 0. -/
theorem writeenv_last_block_fails :
    ¬ TooFew blockConfig fourGiB (2 ^ 32 - 2 ^ 17) ∧ ¬ RoundTrip blockConfig fourGiB (2 ^ 32 - 2 ^ 17) := by
  have hfew : ¬ TooFew blockConfig fourGiB (2 ^ 32 - 2 ^ 17) := by
    unfold TooFew
    decide
  refine ⟨hfew, fun h => ?_⟩
  obtain ⟨ok, f, hwrite, hiff, -⟩ := h (List.replicate (2 ^ 17) 0) (fun _ => 0) List.length_replicate
  have hret := writeenv_wrap fourGiB (show 2 ^ 32 - 2 ^ 17 < 2 ^ 32 by decide)
    (show 2 ^ 32 ≤ 2 ^ 32 - 2 ^ 17 + blockConfig.envRange by decide) (List.replicate (2 ^ 17) 0) ⟨fun _ => 0, []⟩
  exact hfew (hiff.mp (congrArg Prod.fst (hwrite.unique hret)))

end Uboot.EnvNand
