import Uboot.Lib.Chunks
import Uboot.Nand.Theorems

/-!
# Writing pages with their OOB bytes (`WITH_YAFFS_OOB`)

The buffer holds units of a page and its OOB bytes, while the offset counts pages only. What is left of a block is the
size of a whole block with OOB bytes less the offset in the block without them, so behind the start of a block it is
too large.
-/

namespace Uboot.Nand

open Uboot.Lib

/-- A device with OOB bytes. `blocksize` is an `int`. -/
structure YaffsInfo extends NandInfo where
  oobsize : Nat
  blocksize_lt : erasesize / writesize * oobsize + erasesize < 2 ^ 31

/-- The calls of `write_oob` that succeeded: the page, and its bytes with the OOB bytes. -/
abbrev PageLog := List (Nat × List UInt8)

/-- `-EIO` -/
def eio : Int := -5

namespace YaffsInfo

/-- `nand->writesize + nand->oobsize` -/
def unit (y : YaffsInfo) : Nat := y.writesize + y.oobsize

def pagesPerBlock (y : YaffsInfo) : Nat := y.erasesize / y.writesize

def blocksize (y : YaffsInfo) : Nat := y.pagesPerBlock * y.oobsize + y.erasesize

/-- `nand_write_oob`; `fails` is a failure of the chip. -/
def writeOob (y : YaffsInfo) (fails : Nat → Bool) (offset : Nat) : Int :=
  if y.size < offset + y.writesize then einval else if fails offset then eio else 0

/-- The pages of one block: the result, and how far it came. -/
def writePages (y : YaffsInfo) (fails : Nat → Bool) : Nat → Nat → List UInt8 → PageLog → Int × Nat × List UInt8 × PageLog
  | 0, offset, buf, log => (0, offset, buf, log)
  | pages + 1, offset, buf, log =>
      if y.writeOob fails offset ≠ 0 then (y.writeOob fails offset, offset, buf, log)
      else y.writePages fails pages (offset + y.writesize) (buf.drop y.unit) (log ++ [(offset, buf.take y.unit)])

/-- The loop of `nand_write_skip_bad`: the result, `left_to_write` and the pages. -/
def yaffsLoop (y : YaffsInfo) (fails : Nat → Bool) : Nat → Nat → Nat → List UInt8 → PageLog → Option (Int × Nat × PageLog)
  | 0, _, _, _, _ => none
  | fuel + 1, offset, left, buf, log =>
      if left = 0 then some (0, left, log)
      else
        let blockOffset := offset % y.erasesize
        if y.bad (y.lowBlockStart offset) then
          y.yaffsLoop fails fuel (offset + (y.erasesize - blockOffset)) left buf log
        else
          let writeSize := min left (y.blocksize - blockOffset)
          let (rval, offset, buf, log) := y.writePages fails (writeSize / y.unit) offset buf log
          if rval ≠ 0 then some (rval, left, log)
          else y.yaffsLoop fails fuel offset (left - writeSize) buf log

/-- `nand_write_skip_bad` with the flag: the result, `*length` and the pages. -/
def yaffsSkipBad (y : YaffsInfo) (fails : Nat → Bool) (fuel : Nat) (offset : Nat) (buf : List UInt8) :
    Option (Int × Nat × PageLog) :=
  if buf.length % y.unit ≠ 0 then some (einval, buf.length, [])
  else if offset % y.writesize ≠ 0 then some (einval, 0, [])
  else
    match y.checkSkipLen offset buf.length with
    | none => some (einval, 0, [])
    | some _ => (y.yaffsLoop fails fuel offset buf.length buf []).map fun r => (r.1, buf.length - r.2.1, r.2.2)

/-- The pages of the good blocks from `offset` to the end of the device. -/
def goodPages (y : YaffsInfo) (offset : Nat) : List Nat :=
  usablePages y.good y.writesize offset ((y.size - offset) / y.writesize)

/-- The units of the buffer in order, with the pages they go to. -/
def placedUnits (y : YaffsInfo) (as : List Nat) (buf : List UInt8) : PageLog :=
  as.zip ((List.range as.length).map (chunk buf y.unit))

/-- A write of `k` units comes back, and when it succeeds they are in the first `k` pages of good blocks. -/
def WritesAll (y : YaffsInfo) (offset k : Nat) : Prop :=
  ∀ (buf : List UInt8) (fails : Nat → Bool), buf.length = k * y.unit →
    ∃ r, Returns (fun fuel => y.yaffsSkipBad fails fuel offset buf) r ∧
      (r.1 = 0 → k ≤ (y.goodPages offset).length ∧ r.2.2 = y.placedUnits ((y.goodPages offset).take k) buf)

section
variable {y : YaffsInfo} {fails : Nat → Bool} {o n k left fuel : Nat} {buf : List UInt8} {log : PageLog} {as bs : List Nat}

theorem unit_pos (y : YaffsInfo) : 0 < y.unit :=
  Nat.lt_of_lt_of_le (Nat.pos_of_dvd_of_pos y.writesize_dvd y.erasesize_pos) (Nat.le_add_right _ _)

theorem writesize_pos (y : YaffsInfo) : 0 < y.writesize := Nat.pos_of_dvd_of_pos y.writesize_dvd y.erasesize_pos

theorem pages_mul_writesize (y : YaffsInfo) : y.pagesPerBlock * y.writesize = y.erasesize :=
  Nat.div_mul_cancel y.writesize_dvd

theorem blocksize_eq (y : YaffsInfo) : y.blocksize = y.pagesPerBlock * y.unit := by
  rw [blocksize, unit, Nat.mul_add, y.pages_mul_writesize, Nat.add_comm]

/-! ## Units -/

theorem placedUnits_append (y : YaffsInfo) (as bs : List Nat) (buf : List UInt8) : y.placedUnits (as ++ bs) buf =
    y.placedUnits as buf ++ y.placedUnits bs (buf.drop (as.length * y.unit)) := by
  have hchunk : ∀ i, chunk (buf.drop (as.length * y.unit)) y.unit i = chunk buf y.unit (as.length + i) := by
    intro i
    rw [chunk, chunk, List.drop_drop, Nat.add_mul]
  rw [placedUnits, placedUnits, placedUnits, List.length_append, List.range_add, List.map_append,
    List.zip_append (by simp), List.map_map]
  congr 2
  exact List.map_congr_left fun i _ => (hchunk i).symm

theorem placedUnits_single (y : YaffsInfo) (a : Nat) (buf : List UInt8) :
    y.placedUnits [a] buf = [(a, buf.take y.unit)] := by
  simp [placedUnits, chunk]

theorem placedUnits_fst (y : YaffsInfo) (as : List Nat) (buf : List UInt8) :
    (y.placedUnits as buf).map Prod.fst = as := by
  rw [placedUnits, List.map_fst_zip (by simp)]

/-- An error, or all pages. -/
theorem writePages_cases (y : YaffsInfo) (fails : Nat → Bool) (n o : Nat) (buf : List UInt8) (log : PageLog) :
    ((y.writePages fails n o buf log).1 ≠ 0 ∧ ((∀ a, fails a = false) → y.size < o + n * y.writesize)) ∨
      y.writePages fails n o buf log = (0, o + n * y.writesize, buf.drop (n * y.unit),
        log ++ y.placedUnits (List.range' o n y.writesize) buf) := by
  induction n generalizing o buf log with
  | zero =>
      right
      simp [writePages, placedUnits]
  | succ n ih =>
      rw [writePages]
      split
      next herr =>
        refine .inl ⟨herr, fun hok => ?_⟩
        by_contra hfit
        refine herr ?_
        rw [writeOob, if_neg (by rw [Nat.succ_mul] at hfit; omega), hok]
        rfl
      next =>
        rcases ih (o + y.writesize) (buf.drop y.unit) (log ++ [(o, buf.take y.unit)]) with ⟨herr, hout⟩ | hall
        · refine .inl ⟨herr, fun hok => ?_⟩
          have hlt := hout hok
          rw [Nat.succ_mul]
          omega
        · right
          have hunits : y.placedUnits (List.range' o (n + 1) y.writesize) buf = [(o, buf.take y.unit)] ++
              y.placedUnits (List.range' (o + y.writesize) n y.writesize) (buf.drop y.unit) := by
            have hcons : List.range' o (n + 1) y.writesize = [o] ++ List.range' (o + y.writesize) n y.writesize := rfl
            rw [hcons, placedUnits_append, placedUnits_single, List.length_singleton, Nat.one_mul]
          rw [hall, hunits, List.append_assoc, List.drop_drop, Nat.succ_mul, Nat.succ_mul, Nat.add_comm y.unit,
            Nat.add_assoc o, Nat.add_comm y.writesize]

/-! ## The loop -/

/-- The pages that look good among the `n` pages from `o` on. -/
def lookPages (y : YaffsInfo) (o n : Nat) : List Nat := usablePages y.looksGood y.writesize o n

theorem looksGood_page (y : YaffsInfo) {i : Nat} (hi : i * y.writesize < y.erasesize - o % y.erasesize) :
    y.looksGood (o + i * y.writesize) = y.looksGood o :=
  (y.looksGood_blockWise).rest y.erasesize_pos (Nat.le_add_right _ _) (by omega)

theorem mul_writesize_lt {i : Nat} (hi : i < n) (hn : n * y.writesize ≤ k) : i * y.writesize < k :=
  Nat.lt_of_lt_of_le ((Nat.mul_lt_mul_right y.writesize_pos).mpr hi) hn

/-- Pages of one block. -/
theorem lookPages_block (hg : y.looksGood o = true) (hn : n * y.writesize ≤ y.erasesize - o % y.erasesize) :
    y.lookPages o n = List.range' o n y.writesize :=
  usablePages_all fun _ hi => (y.looksGood_page (mul_writesize_lt hi hn)).trans hg

theorem lookPages_bad (hg : y.looksGood o = false) (hn : n * y.writesize ≤ y.erasesize - o % y.erasesize) :
    y.lookPages o n = [] :=
  usablePages_none fun _ hi => (y.looksGood_page (mul_writesize_lt hi hn)).trans hg

theorem lookPages_add (y : YaffsInfo) (o m n : Nat) :
    y.lookPages o (m + n) = y.lookPages o m ++ y.lookPages (o + m * y.writesize) n := usablePages_add ..

theorem lookPages_length_le (y : YaffsInfo) (o n : Nat) : (y.lookPages o n).length ≤ n := usablePages_length_le ..

theorem yaffsLoop_done : y.yaffsLoop fails (fuel + 1) o 0 buf log = some (0, 0, log) := by
  rw [yaffsLoop, if_pos rfl]

theorem yaffsLoop_skip (hleft : left ≠ 0) (h : y.looksGood o = false) : y.yaffsLoop fails (fuel + 1) o left buf log =
    y.yaffsLoop fails fuel (o + (y.erasesize - o % y.erasesize)) left buf log := by
  rw [yaffsLoop, if_neg hleft]
  dsimp only
  rw [if_pos (by simpa [NandInfo.looksGood] using h)]

/-- A round ends the loop with an error, or writes its pages. -/
theorem yaffsLoop_store (fails : Nat → Bool) (fuel : Nat) (buf : List UInt8) (log : PageLog) {w : Nat} (hleft : left ≠ 0) (h : y.looksGood o = true)
    (hw : w = min left (y.blocksize - o % y.erasesize)) :
    (∃ r, y.yaffsLoop fails (fuel + 1) o left buf log = some r ∧ r.1 ≠ 0 ∧
      ((∀ a, fails a = false) → y.size < o + w / y.unit * y.writesize)) ∨
    y.yaffsLoop fails (fuel + 1) o left buf log =
      y.yaffsLoop fails fuel (o + w / y.unit * y.writesize) (left - w) (buf.drop (w / y.unit * y.unit))
        (log ++ y.placedUnits (List.range' o (w / y.unit) y.writesize) buf) := by
  rw [yaffsLoop, if_neg hleft]
  dsimp only
  rw [if_neg (by simpa [NandInfo.looksGood] using h), ← hw]
  rcases y.writePages_cases fails (w / y.unit) o buf log with ⟨herr, hout⟩ | hall
  · rw [if_pos herr]
    exact .inl ⟨_, rfl, herr, hout⟩
  · rw [hall, if_neg (by simp)]
    exact .inr rfl

/-- What a run of the loop does when it succeeds, and when it does. -/
def Stores (y : YaffsInfo) (fails : Nat → Bool) (o n : Nat) (as : List Nat) (buf : List UInt8) (log : PageLog)
    (result : Option (Int × Nat × PageLog)) : Prop :=
  ∃ r, result = some r ∧ (r.1 = 0 → r.2.2 = log ++ y.placedUnits as buf) ∧
    ((∀ a, fails a = false) → o + n * y.writesize ≤ y.size → r.1 = 0)

theorem units_le {c : Nat} (h : left ≤ c * y.unit) : left / y.unit ≤ c :=
  (Nat.div_le_div_right h).trans (Nat.mul_div_cancel _ y.unit_pos).le

/-- The first pages of a block that looks good. -/
theorem lookPages_take {q : Nat} (hg : y.looksGood o = true) (hq : q ≤ n)
    (hfit : q * y.writesize ≤ y.erasesize - o % y.erasesize) :
    (y.lookPages o n).take q = List.range' o q y.writesize := by
  obtain ⟨m, rfl⟩ := Nat.exists_eq_add_of_le hq
  rw [lookPages_add, lookPages_block hg hfit, List.take_left' List.length_range']

/-- A block that looks bad is left out. -/
theorem lookPages_skip {b : Nat} (hg : y.looksGood o = false) (hb : b * y.writesize = y.erasesize - o % y.erasesize)
    (hn : 0 < (y.lookPages o n).length) : ∃ m, n = b + m ∧
      y.lookPages o n = y.lookPages (o + (y.erasesize - o % y.erasesize)) m := by
  rcases Nat.lt_or_ge n b with hlt | hge
  · have hle : n * y.writesize ≤ b * y.writesize := Nat.mul_le_mul_right _ hlt.le
    rw [lookPages_bad hg (by omega)] at hn
    cases hn
  · obtain ⟨m, rfl⟩ := Nat.exists_eq_add_of_le hge
    refine ⟨m, rfl, ?_⟩
    rw [lookPages_add, lookPages_bad hg hb.le, List.nil_append, hb]

theorem Stores.move {o' n' : Nat} {result : Option (Int × Nat × PageLog)} (h : y.Stores fails o' n' as buf log result)
    (he : o' + n' * y.writesize = o + n * y.writesize) : y.Stores fails o n as buf log result := by
  obtain ⟨r, hr, hlog, hok⟩ := h
  exact ⟨r, hr, hlog, fun hf hsize => hok hf (by omega)⟩

/-- More pages before those of the rest of the run. -/
theorem Stores.cons {n' : Nat} {result : Option (Int × Nat × PageLog)}
    (h : y.Stores fails (o + k * y.writesize) n' bs (buf.drop (k * y.unit))
      (log ++ y.placedUnits (List.range' o k y.writesize) buf) result) (hn : n = k + n') :
    y.Stores fails o n (List.range' o k y.writesize ++ bs) buf log result := by
  obtain ⟨r, hr, hlog, hok⟩ := h
  refine ⟨r, hr, fun hzero => ?_, fun hf hsize => hok hf ?_⟩
  · rw [hlog hzero, placedUnits_append, List.length_range', List.append_assoc]
  · rw [hn, Nat.add_mul] at hsize
    omega

/-- From the start of a block on, the whole units go to the first pages that look good. -/
theorem yaffsLoop_aligned (fails : Nat → Bool) (buf : List UInt8) (log : PageLog) (ho : o % y.erasesize = 0)
    (hleft : left ≤ (y.lookPages o n).length * y.unit) (hfuel : n < fuel) :
    y.Stores fails o n ((y.lookPages o n).take (left / y.unit)) buf log (y.yaffsLoop fails fuel o left buf log) := by
  induction fuel generalizing o n left buf log with
  | zero => omega
  | succ fuel ih =>
      have hunit := y.unit_pos
      have hblock := y.pages_mul_writesize
      rcases Nat.eq_zero_or_pos left with rfl | hpos
      · refine ⟨_, yaffsLoop_done, fun _ => ?_, fun _ _ => rfl⟩
        simp [placedUnits]
      have hcount : 0 < (y.lookPages o n).length := by
        by_contra hno
        rw [Nat.eq_zero_of_not_pos hno, Nat.zero_mul] at hleft
        omega
      have hn := y.lookPages_length_le o n
      have hrest : y.erasesize - o % y.erasesize = y.erasesize := by rw [ho, Nat.sub_zero]
      have hnext : (o + y.pagesPerBlock * y.writesize) % y.erasesize = 0 := by
        rw [hblock, Nat.add_mod_right, ho]
      cases hg : y.looksGood o with
      | false =>
          obtain ⟨m, hm, hskip⟩ := lookPages_skip hg (hblock.trans hrest.symm) hcount
          rw [yaffsLoop_skip (by omega) hg, hskip]
          rw [hskip] at hleft
          rw [hrest] at hleft ⊢
          rw [← hblock] at hleft ⊢
          have hpages := Nat.pos_of_mul_pos_right (hblock ▸ y.erasesize_pos)
          refine (ih _ _ hnext hleft (by omega)).move ?_
          rw [hm, Nat.add_mul, Nat.add_assoc]
      | true =>
          have hq : left / y.unit ≤ n := (units_le hleft).trans hn
          have hsize : y.blocksize - o % y.erasesize = y.pagesPerBlock * y.unit := by
            rw [ho, Nat.sub_zero, y.blocksize_eq]
          obtain ⟨w, hw⟩ : ∃ w, w = min left (y.blocksize - o % y.erasesize) := ⟨_, rfl⟩
          rcases yaffsLoop_store fails fuel buf log (Nat.ne_of_gt hpos) hg hw with ⟨r, hr, herr, hout⟩ | hrun
          · refine ⟨r, hr, fun hzero => absurd hzero herr, fun hf hfit => ?_⟩
            have hle : w / y.unit * y.writesize ≤ n * y.writesize :=
              Nat.mul_le_mul_right _ ((Nat.div_le_div_right (by omega)).trans hq)
            have hlt := hout hf
            omega
          rw [hrun]
          rw [hsize] at hw
          rcases Nat.lt_or_ge left (y.pagesPerBlock * y.unit) with hlt | hge
          · -- the last block
            have hwl : w = left := by omega
            have hfit : left / y.unit * y.writesize ≤ y.erasesize := by
              rw [← hblock]
              exact Nat.mul_le_mul_right _ (units_le hlt.le)
            obtain ⟨fuel, rfl⟩ := Nat.exists_eq_add_of_le' (show 1 ≤ fuel by omega)
            rw [hwl, Nat.sub_self, yaffsLoop_done, lookPages_take hg hq (by omega)]
            exact ⟨_, rfl, fun _ => rfl, fun _ _ => rfl⟩
          · have hwp : w = y.pagesPerBlock * y.unit := by omega
            have hwu : w / y.unit = y.pagesPerBlock := by rw [hwp, Nat.mul_div_cancel _ hunit]
            have hpn : y.pagesPerBlock ≤ n :=
              (Nat.le_of_mul_le_mul_right (hge.trans hleft) hunit).trans hn
            have hpages := Nat.pos_of_mul_pos_right (hblock ▸ y.erasesize_pos)
            obtain ⟨m, hm⟩ := Nat.exists_eq_add_of_le hpn
            have hsplit : y.lookPages o n = List.range' o y.pagesPerBlock y.writesize ++
                y.lookPages (o + y.pagesPerBlock * y.writesize) m := by
              rw [hm, lookPages_add, lookPages_block hg (by omega)]
            have htake : (y.lookPages o n).take (left / y.unit) = List.range' o y.pagesPerBlock y.writesize ++
                (y.lookPages (o + y.pagesPerBlock * y.writesize) m).take ((left - w) / y.unit) := by
              have hdiv : (left - w) / y.unit = left / y.unit - y.pagesPerBlock := by
                rw [hwp, Nat.mul_comm, Nat.sub_mul_div]
              rw [hsplit, List.take_append, List.length_range', hdiv, List.take_of_length_le]
              rw [List.length_range']
              exact (Nat.le_div_iff_mul_le hunit).mpr hge
            rw [htake, hwu]
            refine Stores.cons (ih _ _ hnext ?_ (by omega)) hm
            rw [hsplit, List.length_append, List.length_range', Nat.add_mul] at hleft
            omega

/-- More fuel does not change a result. -/
theorem yaffsLoop_mono {r : Int × Nat × PageLog} {fuel' : Nat} (hle : fuel ≤ fuel')
    (h : y.yaffsLoop fails fuel o left buf log = some r) : y.yaffsLoop fails fuel' o left buf log = some r := by
  induction fuel generalizing o left buf log fuel' with
  | zero => cases h
  | succ fuel ih =>
      cases fuel' with
      | zero => omega
      | succ fuel' =>
          rw [yaffsLoop] at h ⊢
          split
          next hz => rwa [if_pos hz] at h
          next hz =>
            rw [if_neg hz] at h
            dsimp only at h ⊢
            split
            next hb => rw [if_pos hb] at h; exact ih (by omega) h
            next hb =>
              rw [if_neg hb] at h
              split
              next herr => rwa [if_pos herr] at h
              next herr => rw [if_neg herr] at h; exact ih (by omega) h

/-! ## The first pages of good blocks -/

theorem writesize_dvd_size (y : YaffsInfo) : y.writesize ∣ y.size := y.writesize_dvd.trans y.size_dvd

theorem good_page_wise (y : YaffsInfo) : BlockWise y.writesize y.good := by
  intro a b h
  obtain ⟨q, hq⟩ := y.writesize_dvd
  refine y.good_blockWise a b ?_
  rw [hq, ← Nat.div_div_eq_div_mul, ← Nat.div_div_eq_div_mul, h]

theorem goodBytes_length (y : YaffsInfo) (ho : o % y.writesize = 0) :
    (y.goodBytes o).length = (y.goodPages o).length * y.writesize := by
  have hdvd : y.writesize ∣ y.size - o := Nat.dvd_sub y.writesize_dvd_size (Nat.dvd_of_mod_eq_zero ho)
  have hpages := usable_length_pages y.writesize_pos ho y.good_page_wise ((y.size - o) / y.writesize)
  rwa [Nat.div_mul_cancel hdvd] at hpages

/-- The check leaves room. -/
theorem pages_of_check {skip : Bool} {length : Nat} (ho : o % y.writesize = 0) (hlen : length < 2 ^ 32)
    (h : y.checkSkipLen o length = some skip) : length ≤ (y.goodPages o).length * y.writesize := by
  rw [← y.goodBytes_length ho]
  by_contra hno
  rw [NandInfo.checkSkipLen_short hlen (by omega)] at h
  cases h

/-- Every block up to the end of the image looks as it is. -/
def LooksTrue (y : YaffsInfo) (o k : Nat) : Prop :=
  k = 0 ∨ ∃ n, o + n * y.writesize ≤ y.size ∧ (∀ i < n, y.looksGood (o + i * y.writesize) = y.good (o + i * y.writesize)) ∧
    k ≤ (usablePages y.good y.writesize o n).length

theorem LooksTrue.pages (h : y.LooksTrue o k) : ∃ n, k ≤ (y.lookPages o n).length ∧ k ≤ (y.goodPages o).length ∧
    (y.goodPages o).take k = (y.lookPages o n).take k := by
  rcases h with rfl | ⟨n, hn, hlook, hk⟩
  · exact ⟨0, Nat.zero_le _, Nat.zero_le _, rfl⟩
  have hsame : y.lookPages o n = usablePages y.good y.writesize o n := usablePages_congr hlook
  have hle : n ≤ (y.size - o) / y.writesize := (Nat.le_div_iff_mul_le y.writesize_pos).mpr (by omega)
  obtain ⟨m, hm⟩ := Nat.exists_eq_add_of_le hle
  have hgood : y.goodPages o = y.lookPages o n ++ usablePages y.good y.writesize (o + n * y.writesize) m := by
    rw [goodPages, hm, usablePages_add, hsame]
  rw [← hsame] at hk
  refine ⟨n, hk, ?_, ?_⟩
  · rw [hgood, List.length_append]
    omega
  · rw [hgood, List.take_append_of_le_length hk]

/-- The image begins with a block, or in a bad one, or ends in the block in which it begins, or there are no OOB bytes. -/
def StartsWell (y : YaffsInfo) (o k : Nat) : Prop :=
  o % y.erasesize = 0 ∨ y.looksGood o = false ∨ o % y.erasesize + k * y.writesize ≤ y.erasesize ∨ y.oobsize = 0

/-- What is left of a block is a number of pages. -/
theorem writesize_dvd_rest (ho : o % y.writesize = 0) : y.writesize ∣ y.erasesize - o % y.erasesize := by
  refine Nat.dvd_sub y.writesize_dvd ?_
  rw [Nat.dvd_iff_mod_eq_zero, Nat.mod_mod_of_dvd _ y.writesize_dvd, ho]

/-- Without OOB bytes the first round ends with the block. -/
theorem yaffsLoop_first (fails : Nat → Bool) (buf : List UInt8) (log : PageLog) (ho : o % y.writesize = 0)
    (hk : k ≤ (y.lookPages o n).length) (hg : y.looksGood o = true) (hoob : y.oobsize = 0)
    (hover : y.erasesize < o % y.erasesize + k * y.writesize) :
    ∃ fuel, y.Stores fails o n ((y.lookPages o n).take k) buf log (y.yaffsLoop fails fuel o (k * y.unit) buf log) := by
  have hunit := y.unit_pos
  have hquot : ∀ m, m * y.unit / y.unit = m := fun m => Nat.mul_div_cancel _ hunit
  have hws : y.unit = y.writesize := by rw [unit, hoob, Nat.add_zero]
  have hmod := Nat.mod_lt o y.erasesize_pos
  obtain ⟨b, hb⟩ := writesize_dvd_rest ho
  rw [Nat.mul_comm] at hb
  have hbk : b < k := Nat.lt_of_mul_lt_mul_right (a := y.writesize) (by omega)
  have hn := y.lookPages_length_le o n
  obtain ⟨m, rfl⟩ := Nat.exists_eq_add_of_le (show b ≤ n by omega)
  have hw : b * y.unit = min (k * y.unit) (y.blocksize - o % y.erasesize) := by
    have hlt : b * y.unit < k * y.unit := (Nat.mul_lt_mul_right hunit).mpr hbk
    have hsize : y.blocksize - o % y.erasesize = b * y.unit := by
      rw [blocksize, hoob, Nat.mul_zero, Nat.zero_add, hws, ← hb]
    omega
  have hsplit : y.lookPages o (b + m) = List.range' o b y.writesize ++ y.lookPages (o + b * y.writesize) m := by
    rw [lookPages_add, lookPages_block hg hb.ge]
  have htake : (y.lookPages o (b + m)).take k =
      List.range' o b y.writesize ++ (y.lookPages (o + b * y.writesize) m).take (k - b) := by
    rw [hsplit, List.take_append, List.length_range', List.take_of_length_le]
    rw [List.length_range']
    omega
  have haligned : (o + b * y.writesize) % y.erasesize = 0 := by
    rw [← hb]
    exact rest_mod y.erasesize_pos o
  have hleft : (k - b) * y.unit ≤ (y.lookPages (o + b * y.writesize) m).length * y.unit := by
    rw [hsplit, List.length_append, List.length_range'] at hk
    exact Nat.mul_le_mul_right _ (by omega)
  refine ⟨m + 1 + 1, ?_⟩
  rcases yaffsLoop_store fails (m + 1) buf log (Nat.mul_pos (by omega) hunit).ne' hg hw with ⟨r, hr, herr, hout⟩ | hrun
  · refine ⟨r, hr, fun hzero => absurd hzero herr, fun hf hfit => ?_⟩
    have hlt := hout hf
    rw [hquot] at hlt
    have hle : b * y.writesize ≤ (b + m) * y.writesize := Nat.mul_le_mul_right _ (by omega)
    omega
  · rw [hrun, hquot, htake, ← Nat.sub_mul]
    have hstores := yaffsLoop_aligned fails (buf.drop (b * y.unit))
      (log ++ y.placedUnits (List.range' o b y.writesize) buf) haligned hleft (Nat.lt_succ_self m)
    rw [hquot] at hstores
    exact hstores.cons rfl

/-- From such a start the loop puts the units where they belong. -/
theorem yaffsLoop_whole (fails : Nat → Bool) (buf : List UInt8) (log : PageLog) (ho : o % y.writesize = 0)
    (hk : k ≤ (y.lookPages o n).length) (hstart : y.StartsWell o k) :
    ∃ fuel, y.Stores fails o n ((y.lookPages o n).take k) buf log (y.yaffsLoop fails fuel o (k * y.unit) buf log) := by
  have hunit := y.unit_pos
  have hblock := y.pages_mul_writesize
  have hquot : ∀ m, m * y.unit / y.unit = m := fun m => Nat.mul_div_cancel _ hunit
  have hn := y.lookPages_length_le o n
  rcases Nat.eq_zero_or_pos k with rfl | hpos
  · refine ⟨1, _, by rw [Nat.zero_mul, yaffsLoop_done], fun _ => ?_, fun _ _ => rfl⟩
    simp [placedUnits]
  have hleft : k * y.unit ≠ 0 := (Nat.mul_pos hpos hunit).ne'
  by_cases haligned : o % y.erasesize = 0
  · refine ⟨n + 1, ?_⟩
    have hstores := yaffsLoop_aligned fails buf log haligned
      (Nat.mul_le_mul_right y.unit hk) (Nat.lt_succ_self n)
    rwa [hquot] at hstores
  cases hg : y.looksGood o with
  | false =>
      have hdvd := writesize_dvd_rest ho
      obtain ⟨m, hm, hskip⟩ := lookPages_skip hg (Nat.div_mul_cancel hdvd)
        (show 0 < (y.lookPages o n).length by omega)
      refine ⟨m + 1 + 1, ?_⟩
      rw [hskip] at hk ⊢
      rw [yaffsLoop_skip hleft hg]
      have hstores := yaffsLoop_aligned fails buf log (rest_mod y.erasesize_pos o)
        (Nat.mul_le_mul_right y.unit hk) (Nat.lt_succ_self m)
      rw [hquot] at hstores
      refine hstores.move ?_
      rw [hm, Nat.add_mul, Nat.div_mul_cancel hdvd, Nat.add_assoc]
  | true =>
      rcases Nat.lt_or_ge y.erasesize (o % y.erasesize + k * y.writesize) with hover | hin
      · have hoob : y.oobsize = 0 := by
          rcases hstart with h | h | h | h
          · exact absurd h haligned
          · rw [hg] at h
            cases h
          · exact absurd h (not_le_of_gt hover)
          · exact h
        exact yaffsLoop_first fails buf log ho hk hg hoob hover
      have hkp : k * y.oobsize ≤ y.pagesPerBlock * y.oobsize := by
        refine Nat.mul_le_mul_right _ (Nat.le_of_mul_le_mul_right ?_ y.writesize_pos)
        omega
      have hw : k * y.unit = min (k * y.unit) (y.blocksize - o % y.erasesize) := by
        rw [blocksize, unit, Nat.mul_add]
        omega
      refine ⟨2, ?_⟩
      rcases yaffsLoop_store fails 1 buf log hleft hg hw with ⟨r, hr, herr, hout⟩ | hrun
      · refine ⟨r, hr, fun hzero => absurd hzero herr, fun hf hfit => ?_⟩
        have hlt := hout hf
        rw [hquot] at hlt
        have hle : k * y.writesize ≤ n * y.writesize := Nat.mul_le_mul_right _ (by omega)
        omega
      · rw [hrun, hquot, Nat.sub_self, yaffsLoop_done, lookPages_take hg (by omega) (by omega)]
        exact ⟨_, rfl, fun _ => rfl, fun _ _ => rfl⟩

theorem yaffsSkipBad_loop {skip : Bool} (hbuf : buf.length = k * y.unit) (ho : o % y.writesize = 0)
    (h : y.checkSkipLen o (k * y.unit) = some skip) : y.yaffsSkipBad fails fuel o buf =
      (y.yaffsLoop fails fuel o (k * y.unit) buf []).map fun r => (r.1, k * y.unit - r.2.1, r.2.2) := by
  rw [yaffsSkipBad, if_neg (by rw [hbuf, Nat.mul_mod_left]; simp), if_neg (not_not.mpr ho), hbuf, h]

theorem yaffsSkipBad_fail (hbuf : buf.length = k * y.unit) (ho : o % y.writesize = 0)
    (h : y.checkSkipLen o (k * y.unit) = none) : y.yaffsSkipBad fails fuel o buf = some (einval, 0, []) := by
  rw [yaffsSkipBad, if_neg (by rw [hbuf, Nat.mul_mod_left]; simp), if_neg (not_not.mpr ho), hbuf, h]

theorem writesAll_of_start (ho : o % y.writesize = 0)
    (h : y.checkSkipLen o (k * y.unit) = none ∨ (y.LooksTrue o k ∧ y.StartsWell o k)) : y.WritesAll o k := by
  intro buf fails hbuf
  cases hcheck : y.checkSkipLen o (k * y.unit) with
  | none => exact ⟨_, ⟨0, fun fuel _ => yaffsSkipBad_fail hbuf ho hcheck⟩, fun hzero => absurd hzero (by decide)⟩
  | some skip =>
      rw [hcheck] at h
      obtain ⟨hlook, hstart⟩ := h.resolve_left (by simp)
      obtain ⟨n, hkn, hkg, htake⟩ := hlook.pages
      obtain ⟨fuel, r, hr, hlog, -⟩ := yaffsLoop_whole fails buf [] ho hkn hstart
      refine ⟨(r.1, k * y.unit - r.2.1, r.2.2), ⟨fuel, fun fuel' hfuel => ?_⟩, fun hzero => ⟨hkg, ?_⟩⟩
      · simp only [yaffsSkipBad_loop hbuf ho hcheck, yaffsLoop_mono hfuel hr, Option.map_some]
      · rw [htake]
        simpa using hlog hzero

/-! ## A bad block behind the first one -/

/-- The block after the one of `o` is bad, and no other one is. -/
def NextBad (y : YaffsInfo) (o : Nat) : Prop := ∀ a, y.bad a = decide (a = o + (y.erasesize - o % y.erasesize))

theorem NextBad.good_iff (h : y.NextBad o) (a : Nat) : y.good a = true ↔
    a < o + (y.erasesize - o % y.erasesize) ∨ o + (y.erasesize - o % y.erasesize) + y.erasesize ≤ a := by
  have hpos := y.erasesize_pos
  obtain ⟨q, hq⟩ := Nat.dvd_of_mod_eq_zero (rest_mod hpos o)
  have hstart : y.good a = true ↔ ¬ a / y.erasesize = q := by
    rw [NandInfo.good, h, NandInfo.blockStart, hq, Nat.mul_comm y.erasesize]
    simp [hpos.ne']
  rw [hstart, hq, Nat.div_eq_iff hpos, Nat.mul_comm y.erasesize]
  omega

theorem NextBad.looksGood_iff (h : y.NextBad o) {a : Nat} (ha : a < 2 ^ 32) : y.looksGood a = true ↔
    a < o + (y.erasesize - o % y.erasesize) ∨ o + (y.erasesize - o % y.erasesize) + y.erasesize ≤ a := by
  rw [NandInfo.looksGood_eq_good ha, h.good_iff]

/-- The check finds room for the image. -/
theorem NextBad.check (h : y.NextBad o) {length : Nat} (hsize : y.size ≤ 2 ^ 32)
    (hroom : o + (y.erasesize - o % y.erasesize) + y.erasesize ≤ y.size) (hfit : length + y.erasesize ≤ y.size - o) :
    ∃ skip, y.checkSkipLen o length = some skip := by
  obtain ⟨rest, hrest⟩ := Nat.exists_eq_add_of_le hroom
  have hsplit : y.size - o = (y.erasesize - o % y.erasesize) + (y.erasesize + rest) := by omega
  have hbytes : (y.goodBytes o).length = (y.erasesize - o % y.erasesize) + rest := by
    rw [NandInfo.goodBytes, hsplit, usable_add, usable_add, usable_all, usable_none, usable_all]
    · simp
    · exact fun a hle _ => (h.good_iff a).mpr (.inr (by omega))
    · exact fun a hle hlt => Bool.eq_false_iff.mpr fun hg => by have := (h.good_iff a).mp hg; omega
    · exact fun a _ hlt => (h.good_iff a).mpr (.inl (by omega))
  have hwrap : y.NoWrap o length := by
    rw [NandInfo.NoWrap]
    omega
  obtain ⟨skip, hskip, -⟩ := NandInfo.checkSkipLen_fits (by omega) hwrap
  exact ⟨skip, hskip⟩

/-- From inside the bad block the loop goes on behind it. -/
theorem NextBad.rest (h : y.NextBad o) (hsize : y.size ≤ 2 ^ 32)
    (hroom : o + (y.erasesize - o % y.erasesize) + y.erasesize ≤ y.size) {o1 left : Nat}
    (hlow : o + (y.erasesize - o % y.erasesize) ≤ o1) (hup : o1 < o + (y.erasesize - o % y.erasesize) + y.erasesize)
    (hleft : left ≤ y.size - (o + (y.erasesize - o % y.erasesize) + y.erasesize)) (buf : List UInt8) (log : PageLog) :
    ∃ fuel r as, y.yaffsLoop (fun _ => false) fuel o1 left buf log = some r ∧ r.1 = 0 ∧
      as.length = left / y.unit ∧ r.2.2 = log ++ y.placedUnits as buf := by
  rcases Nat.eq_zero_or_pos left with rfl | hpos
  · exact ⟨1, _, [], yaffsLoop_done, rfl, by simp, by simp [placedUnits]⟩
  have hbad : y.looksGood o1 = false := by
    refine Bool.eq_false_iff.mpr fun hg => ?_
    have := (h.looksGood_iff (by omega)).mp hg
    omega
  have hnext : o1 + (y.erasesize - o1 % y.erasesize) = o + (y.erasesize - o % y.erasesize) + y.erasesize := by
    obtain ⟨d, hd⟩ := Nat.exists_eq_add_of_le hlow
    have hmod : o1 % y.erasesize = d := by
      rw [hd, Nat.add_mod, rest_mod y.erasesize_pos, Nat.zero_add, Nat.mod_mod, Nat.mod_eq_of_lt (by omega)]
    omega
  obtain ⟨o2, ho2⟩ : ∃ o2, o2 = o + (y.erasesize - o % y.erasesize) + y.erasesize := ⟨_, rfl⟩
  rw [← ho2] at hroom hup hleft hnext
  have haligned : o2 % y.erasesize = 0 := by
    rw [ho2, Nat.add_mod_right, rest_mod y.erasesize_pos]
  have hdvd : y.writesize ∣ y.size - o2 :=
    Nat.dvd_sub y.writesize_dvd_size (y.writesize_dvd.trans (Nat.dvd_of_mod_eq_zero haligned))
  obtain ⟨n, hn⟩ := hdvd
  rw [Nat.mul_comm] at hn
  have hpages : y.lookPages o2 n = List.range' o2 n y.writesize := by
    refine usablePages_all fun i hi => ?_
    have hlt : i * y.writesize < n * y.writesize := (Nat.mul_lt_mul_right y.writesize_pos).mpr hi
    exact (h.looksGood_iff (by omega)).mpr (.inr (by omega))
  have hcount : (y.lookPages o2 n).length = n := by rw [hpages, List.length_range']
  have hunits : left ≤ n * y.unit := by
    rw [hn] at hleft
    exact hleft.trans (Nat.mul_le_mul_left n (Nat.le_add_right _ _))
  have hunits' : left ≤ (y.lookPages o2 n).length * y.unit := by rwa [hcount]
  obtain ⟨r, hr, hlog, hok⟩ := yaffsLoop_aligned (fun _ => false) buf log haligned hunits' (Nat.lt_succ_self n)
  have hzero := hok (fun _ => rfl) (by omega)
  refine ⟨n + 1 + 1, r, _, ?_, hzero, ?_, hlog hzero⟩
  · rw [yaffsLoop_skip (by omega) hbad, hnext]
    exact hr
  · rw [List.length_take, hcount, Nat.min_eq_left (units_le hunits)]

/-- An image that begins behind the start of a block and goes on after it is not written as it should be. -/
theorem NextBad.not_writesAll (h : y.NextBad o) (ho : o % y.writesize = 0) (hsize : y.size ≤ 2 ^ 32) (hoob : 0 < y.oobsize)
    (hmid : o % y.erasesize ≠ 0) (hover : y.erasesize < o % y.erasesize + k * y.writesize)
    (hroom : o + (y.erasesize - o % y.erasesize) + y.erasesize ≤ y.size) (hfit : k * y.unit + y.erasesize ≤ y.size - o) :
    ¬ y.WritesAll o k := by
  intro hall
  have hunit := y.unit_pos
  have hws := y.writesize_pos
  have hblock := y.pages_mul_writesize
  have hmodlt := Nat.mod_lt o y.erasesize_pos
  have hquot : ∀ m, m * y.unit / y.unit = m := fun m => Nat.mul_div_cancel _ hunit
  have hku : k * y.unit = k * y.writesize + k * y.oobsize := by rw [unit, Nat.mul_add]
  -- the pages that are left in the block
  obtain ⟨b, hb⟩ := writesize_dvd_rest ho
  rw [Nat.mul_comm] at hb
  have hbk : b < k := Nat.lt_of_mul_lt_mul_right (a := y.writesize) (by omega)
  have hbp : b < y.pagesPerBlock := Nat.lt_of_mul_lt_mul_right (a := y.writesize) (by omega)
  have hbu : b * y.unit = b * y.writesize + b * y.oobsize := by rw [unit, Nat.mul_add]
  have hboob : b * y.oobsize < y.pagesPerBlock * y.oobsize := (Nat.mul_lt_mul_right hoob).mpr hbp
  have hsz : y.blocksize - o % y.erasesize = y.pagesPerBlock * y.oobsize + b * y.writesize := by
    rw [blocksize]
    omega
  obtain ⟨w, hw⟩ : ∃ w, w = min (k * y.unit) (y.blocksize - o % y.erasesize) := ⟨_, rfl⟩
  have hbuw : b * y.unit < w := by
    have hlt : b * y.unit < k * y.unit := (Nat.mul_lt_mul_right hunit).mpr hbk
    omega
  have hwp : w ≤ y.pagesPerBlock * y.unit := by
    rw [← blocksize_eq]
    omega
  -- the pages that are written in the first round
  obtain ⟨q, hq⟩ : ∃ q, q = w / y.unit := ⟨_, rfl⟩
  have hbq : b ≤ q := by
    rw [hq]
    exact (Nat.le_div_iff_mul_le hunit).mpr hbuw.le
  have hqp : q ≤ y.pagesPerBlock := by
    rw [hq]
    exact units_le hwp
  have hqws : q * y.writesize ≤ y.erasesize := by
    rw [← hblock]
    exact Nat.mul_le_mul_right _ hqp
  have hbqws : b * y.writesize ≤ q * y.writesize := Nat.mul_le_mul_right _ hbq
  obtain ⟨skip, hcheck⟩ := h.check hsize hroom hfit
  have hgood : y.looksGood o = true := (h.looksGood_iff (by omega)).mpr (.inl (by omega))
  have hpos : k * y.unit ≠ 0 := by omega
  have hbuf : (List.replicate (k * y.unit) (0 : UInt8)).length = k * y.unit := List.length_replicate
  obtain ⟨r, hr, hplaced⟩ := hall _ (fun _ => false) hbuf
  -- the first round writes, and what is left goes behind the bad block
  have hlow : o + (y.erasesize - o % y.erasesize) ≤ o + q * y.writesize := by omega
  have hup : o + q * y.writesize < o + (y.erasesize - o % y.erasesize) + y.erasesize := by omega
  have hleft : k * y.unit - w ≤ y.size - (o + (y.erasesize - o % y.erasesize) + y.erasesize) := by omega
  obtain ⟨fuel, r0, as, hrun, hzero, has, hlog⟩ := h.rest hsize hroom hlow hup hleft ((List.replicate (k * y.unit) 0).drop (q * y.unit))
    ([] ++ y.placedUnits (List.range' o q y.writesize) (List.replicate (k * y.unit) 0))
  have hloop : y.yaffsLoop (fun _ => false) (fuel + 1) o (k * y.unit) (List.replicate (k * y.unit) 0) [] = some r0 := by
    rcases yaffsLoop_store (fun _ => false) fuel (List.replicate (k * y.unit) 0) [] hpos hgood hw with
      ⟨r1, -, -, hout⟩ | hstep
    · have hlt := hout fun _ => rfl
      rw [← hq] at hlt
      omega
    · rw [hstep, ← hq, hrun]
  have hreturns : Returns (fun fuel => y.yaffsSkipBad (fun _ => false) fuel o (List.replicate (k * y.unit) 0))
      (r0.1, k * y.unit - r0.2.1, r0.2.2) := by
    refine ⟨fuel + 1, fun fuel' hfuel => ?_⟩
    simp only [yaffsSkipBad_loop hbuf ho hcheck, yaffsLoop_mono hfuel hloop, Option.map_some]
  have hrr := hr.unique hreturns
  rw [hrr] at hplaced
  obtain ⟨hk, hsame⟩ := hplaced hzero
  -- the pages that the write should have used
  have hpages := congrArg (List.map Prod.fst) hsame
  rw [hlog, List.nil_append, List.map_append, placedUnits_fst, placedUnits_fst, placedUnits_fst] at hpages
  rcases Nat.lt_or_ge b q with hlt | hge
  · have hmem : o + b * y.writesize ∈ (y.goodPages o).take k := by
      rw [← hpages]
      exact List.mem_append_left _ (mem_page_iff.mpr ⟨b, hlt, rfl⟩)
    have hg := List.of_mem_filter (List.mem_of_mem_take hmem)
    have hout := (h.good_iff _).mp hg
    omega
  · have hlen := congrArg List.length hpages
    rw [List.length_append, List.length_range', has, List.length_take, Nat.min_eq_left hk] at hlen
    have hlt : k * y.unit - w < (k - b) * y.unit := by
      rw [Nat.sub_mul]
      omega
    have hdiv := (Nat.div_lt_iff_lt_mul hunit).mpr hlt
    omega

/-- With addresses below 4 GiB, the check leaves room among the blocks that look good. -/
theorem looksTrue_of_check {skip : Bool} (hsize : y.size ≤ 2 ^ 32) (ho : o % y.writesize = 0) (hin : o ≤ y.size)
    (hlen : k * y.unit < 2 ^ 32) (h : y.checkSkipLen o (k * y.unit) = some skip) : y.LooksTrue o k := by
  obtain ⟨n, hn⟩ : y.writesize ∣ y.size - o := Nat.dvd_sub y.writesize_dvd_size (Nat.dvd_of_mod_eq_zero ho)
  have hcount : (y.size - o) / y.writesize = n := by rw [hn, Nat.mul_div_cancel_left _ y.writesize_pos]
  rw [Nat.mul_comm] at hn
  refine .inr ⟨n, by omega, fun i hi => NandInfo.looksGood_eq_good ?_, ?_⟩
  · have hlt := mul_writesize_lt (y := y) hi le_rfl
    omega
  · have hpages := pages_of_check ho hlen h
    rw [goodPages, hcount] at hpages
    have hle : k * y.writesize ≤ k * y.unit := Nat.mul_le_mul_left _ (Nat.le_add_right _ _)
    exact Nat.le_of_mul_le_mul_right (hle.trans hpages) y.writesize_pos

end

/-- The same device with other bad blocks. -/
def withBad (y : YaffsInfo) (bad : Nat → Bool) : YaffsInfo := { y with bad := bad }

end YaffsInfo

/-- The start decides it: on a device with room for one more bad block, the write is right for every map of bad blocks
exactly when the image begins with a block or ends in the block in which it begins. -/
theorem yaffs_places_pages_iff (y : YaffsInfo) (o k : Nat) (ho : o % y.writesize = 0) :
    (y.checkSkipLen o (k * y.unit) = none ∨ (y.LooksTrue o k ∧ y.StartsWell o k) → y.WritesAll o k) ∧
      (y.size ≤ 2 ^ 32 → 0 < y.oobsize → o + (y.erasesize - o % y.erasesize) + y.erasesize ≤ y.size →
        k * y.unit + y.erasesize ≤ y.size - o →
          ((∀ bad, (y.withBad bad).WritesAll o k) ↔
            o % y.erasesize = 0 ∨ o % y.erasesize + k * y.writesize ≤ y.erasesize)) := by
  refine ⟨YaffsInfo.writesAll_of_start ho, fun hsize hoob hroom hfit => ⟨fun hall => ?_, fun hstart bad => ?_⟩⟩
  · by_contra hno
    obtain ⟨hmid, hover⟩ := not_or.mp hno
    have hnext : (y.withBad fun a => decide (a = o + (y.erasesize - o % y.erasesize))).NextBad o := fun _ => rfl
    exact hnext.not_writesAll ho hsize hoob hmid (Nat.lt_of_not_le hover) hroom hfit (hall _)
  · have hpos := y.erasesize_pos
    refine YaffsInfo.writesAll_of_start ho ?_
    cases hcheck : (y.withBad bad).checkSkipLen o (k * y.unit) with
    | none => exact .inl hcheck
    | some skip =>
        have hlook := YaffsInfo.looksTrue_of_check (y := y.withBad bad) hsize ho (show o ≤ y.size by omega)
          (show k * y.unit < 2 ^ 32 by omega) hcheck
        exact .inr ⟨hlook, hstart.imp_right fun h => .inr (.inl h)⟩

/-- `fourBlocks` with 4 OOB bytes for each page. -/
def fourBlocksOob : YaffsInfo where
  toNandInfo := fourBlocks
  oobsize := 4
  blocksize_lt := by decide

theorem yaffs_places_pages_four_blocks :
    fourBlocksOob.WritesAll 16 3 ∧ ∀ bad, (fourBlocksOob.withBad bad).WritesAll 4 3 := by
  refine ⟨(yaffs_places_pages_iff fourBlocksOob 16 3 (by decide)).1 (.inr ⟨.inr ⟨7, by decide, by decide, by decide⟩, .inl rfl⟩), ?_⟩
  exact ((yaffs_places_pages_iff fourBlocksOob 4 3 (by decide)).2 (by decide) (by decide) (by decide) (by decide)).mpr
    (.inr (by decide))

/-- Four units from the third page on: the third one goes to the bad block. -/
theorem yaffs_writes_bad_block :
    ¬ ∀ (y : YaffsInfo) (o k : Nat), o % y.writesize = 0 → k * y.unit < 2 ^ 32 → y.WritesAll o k := by
  intro h
  have hnext : fourBlocksOob.NextBad 8 := fun _ => rfl
  exact hnext.not_writesAll (by decide) (by decide) (by decide) (by decide) (by decide) (by decide) (by decide)
    (h fourBlocksOob 8 4 (by decide) (by decide))

end Uboot.Nand
