import Uboot.QpicNand.Basic

/-!
# Which failures reach the caller
-/

namespace Uboot.QpicNand

/-! ## Status words -/

/-- An operation error that is not one of an erased page, an MPU error or a timeout. -/
def Failed (flashSts eraseSts : Word) : Prop :=
  (flashSts &&& flashOpErr ≠ 0 ∧ eraseSts &&& pageAllErased = 0) ∨ flashSts &&& flashMpuErr ≠ 0 ∨
    flashSts &&& flashTimeoutErr ≠ 0

theorem and_flashErr (s : Word) :
    s &&& flashErr = 0#32 ↔ s &&& flashMpuErr = 0#32 ∧ s &&& flashTimeoutErr = 0#32 ∧ s &&& flashOpErr = 0#32 := by
  have : flashErr = flashMpuErr ||| (flashTimeoutErr ||| flashOpErr) := by decide
  rw [this, BitVec.and_or_distrib_left, BitVec.and_or_distrib_left]
  simp only [BitVec.or_eq_zero_iff]

theorem mask_and (s : Word) : (s &&& ~~~flashOpErr) &&& flashMpuErr = s &&& flashMpuErr ∧
    (s &&& ~~~flashOpErr) &&& flashTimeoutErr = s &&& flashTimeoutErr ∧ (s &&& ~~~flashOpErr) &&& flashOpErr = 0#32 := by
  refine ⟨?_, ?_, ?_⟩ <;> rw [BitVec.and_assoc]
  · rw [show ~~~flashOpErr &&& flashMpuErr = flashMpuErr by decide]
  · rw [show ~~~flashOpErr &&& flashTimeoutErr = flashTimeoutErr by decide]
  · rw [show ~~~flashOpErr &&& flashOpErr = 0 by decide]
    simp

/-- What the check gives: nothing, or one of three codes. -/
theorem checkStatus_cases (s e : Word) : (checkStatus s e = 0 ∧ ¬ Failed s e) ∨
    (Failed s e ∧ (checkStatus s e = ebadmsg ∨ checkStatus s e = eperm ∨ checkStatus s e = etimedout)) := by
  have herr := and_flashErr s
  have hmask := and_flashErr (s &&& ~~~flashOpErr)
  obtain ⟨hm, ht, ho⟩ := mask_and s
  rw [hm, ht, ho] at hmask
  unfold Failed checkStatus
  by_cases hO : s &&& flashOpErr = 0#32 <;> by_cases hM : s &&& flashMpuErr = 0#32 <;>
    by_cases hT : s &&& flashTimeoutErr = 0#32 <;> by_cases hE : e &&& pageAllErased = 0#32 <;>
    simp [herr, hmask, hm, ht, ho, hO, hM, hT, hE]

theorem checkStatus_ne_zero_iff (s e : Word) : checkStatus s e ≠ 0 ↔ Failed s e := by
  rcases checkStatus_cases s e with ⟨h, hn⟩ | ⟨hf, h | h | h⟩
  · simp [h, hn]
  all_goals
    simp only [h, hf, iff_true]
    decide

/-- A code that is checked again is still an error. -/
theorem checkStatus_again (s e e' : Word) : checkStatus (checkStatus s e) e' ≠ 0 ↔ Failed s e := by
  have bad : ∀ c : Word, c &&& flashMpuErr ≠ 0 → checkStatus c e' ≠ 0 :=
    fun c hc => (checkStatus_ne_zero_iff c e').mpr (.inr (.inl hc))
  rcases checkStatus_cases s e with ⟨h, hn⟩ | ⟨hf, h | h | h⟩
  · rw [h, checkStatus_ne_zero_iff]
    refine iff_of_false ?_ hn
    simp [Failed]
  all_goals
    rw [h]
    exact iff_of_true (bad _ (by decide)) hf

theorem exists_from_succ (P : Nat → Prop) (n a : Nat) :
    (∃ i < n + 1, P (a + i)) ↔ P a ∨ ∃ i < n, P (a + 1 + i) := by
  simp only [Nat.exists_lt_succ_left, Nat.add_zero, Nat.add_assoc, Nat.add_comm 1]

/-! ## Reading -/

/-- A codeword's operation failed. -/
def Cw.Failed (cw : Cw) : Prop := QpicNand.Failed cw.flashSts cw.eraseSts

/-- Bits of a codeword were corrected. -/
def Cw.Corrected (cw : Cw) : Prop := cw.bufferSts &&& numErrorsMask ≠ 0

theorem readCheck_iff (cws : List Cw) : readCheck cws = true ↔ ∃ cw ∈ cws, cw.Failed := by
  induction cws with
  | nil => simp [readCheck]
  | cons cw cws ih =>
      rw [readCheck]
      split
      · rename_i h
        exact iff_of_true rfl ⟨cw, by simp, (checkStatus_ne_zero_iff _ _).mp h⟩
      · rename_i h
        have hok : ¬ cw.Failed := fun hf => h ((checkStatus_ne_zero_iff _ _).mpr hf)
        simp [ih, hok]

theorem countCorrected_ne_zero_iff (cws : List Cw) : countCorrected cws ≠ 0 ↔ ∃ cw ∈ cws, cw.Corrected := by
  simp [countCorrected, List.countP_eq_zero, Cw.Corrected]

/-- Only pages without failures are looked at for corrected bits. -/
def Scrubbed (cws : List Cw) : Prop := (∀ cw ∈ cws, ¬ cw.Failed) ∧ ∃ cw ∈ cws, cw.Corrected

theorem readPage_spec (cws : List Cw) (corrected : Nat) : (readPage cws corrected).1 = 0 ∧
    corrected ≤ (readPage cws corrected).2 ∧ ((readPage cws corrected).2 ≠ corrected ↔ Scrubbed cws) := by
  have hcount := countCorrected_ne_zero_iff cws
  rw [readPage]
  split
  · rename_i h
    obtain ⟨cw, hcw, hf⟩ := (readCheck_iff cws).mp h
    exact ⟨rfl, le_refl _, iff_of_false (fun hn => hn rfl) fun hs => hs.1 cw hcw hf⟩
  · rename_i h
    have hok : ∀ cw ∈ cws, ¬ cw.Failed := fun cw hcw hf => h ((readCheck_iff cws).mpr ⟨cw, hcw, hf⟩)
    refine ⟨rfl, by simp, ?_⟩
    rw [Scrubbed, ← hcount]
    simp only [ne_eq, Nat.add_eq_left]
    tauto

theorem readLoop_spec (flash : Nat → List Cw) (n : Nat) : ∀ page corrected, (readLoop flash n page corrected).1 = 0 ∧
    corrected ≤ (readLoop flash n page corrected).2 ∧
    ((readLoop flash n page corrected).2 ≠ corrected ↔ ∃ i < n, Scrubbed (flash (page + i))) := by
  induction n with
  | zero =>
      intro page corrected
      simp [readLoop]
  | succ n ih =>
      intro page corrected
      obtain ⟨hret, hle, hiff⟩ := readPage_spec (flash page) corrected
      obtain ⟨hret', hle', hiff'⟩ := ih (page + 1) (readPage (flash page) corrected).2
      rw [readLoop, if_neg (by simp [hret])]
      refine ⟨hret', by omega, ?_⟩
      rw [exists_from_succ (fun p => Scrubbed (flash p)), ← hiff, ← hiff']
      omega

/-- The pages that `qpic_nand_read_oob` reads. -/
def pagesRead (mtd : Mtd) (to_ : Nat) (ops : OobOps) : Nat :=
  if readOobArgs mtd to_ ops ≠ 0 then 0 else readPageCount mtd ops

theorem readOob_ne_zero_iff (mtd : Mtd) (flash : Nat → List Cw) (corrected to_ : Nat) (ops : OobOps) :
    readOob mtd flash corrected to_ ops ≠ 0 ↔ readOobArgs mtd to_ ops ≠ 0 ∨
      ∃ i < pagesRead mtd to_ ops, Scrubbed (flash (to_ / 2 ^ mtd.pageShift + i)) := by
  obtain ⟨hret, -, hiff⟩ := readLoop_spec flash (readPageCount mtd ops) (to_ / 2 ^ mtd.pageShift) corrected
  rw [readOob, pagesRead]
  split
  · rename_i h
    exact iff_of_true h (.inl h)
  · rename_i h
    dsimp only
    rw [if_neg (by simp [hret]), ← hiff]
    split
    · rename_i hc
      exact iff_of_true (by decide) (.inr hc)
    · rename_i hc
      exact iff_of_false (by decide) fun hor => hor.elim h hc

/-! ## Writing -/

/-- The program-failed bit of a codeword. -/
def Cw.ProgFailed (cw : Cw) : Prop := cw.flashSts &&& progEraseOpResult ≠ 0

theorem writePage_ne_zero_iff (cws : List Cw) : writePage cws ≠ 0 ↔ ∃ cw ∈ cws, cw.Failed := by
  rw [writePage, wrPageCws]
  induction cws with
  | nil => simp [writeCheck]
  | cons cw cws ih =>
      rw [List.map_cons, writeCheck]
      have hagain := checkStatus_again cw.flashSts cw.eraseSts cw.eraseSts2
      dsimp only
      split
      · rename_i h
        exact iff_of_true h ⟨cw, by simp, hagain.mp h⟩
      · rename_i h
        have hok : ¬ cw.Failed := fun hf => h (hagain.mpr hf)
        rw [ih]
        simp [hok]

theorem writeLoop_ne_zero_iff (flash : Nat → List Cw) (n : Nat) : ∀ page, writeLoop flash n page ≠ 0 ↔
    ∃ i < n, ∃ cw ∈ flash (page + i), cw.Failed := by
  induction n with
  | zero =>
      intro page
      simp [writeLoop]
  | succ n ih =>
      intro page
      rw [writeLoop, exists_from_succ (fun p => ∃ cw ∈ flash p, cw.Failed), ← writePage_ne_zero_iff]
      split
      · rename_i h
        exact iff_of_true h (.inl h)
      · rename_i h
        rw [ih]
        simp only [h, false_or]

/-- The pages of a request to `qpic_nand_write_oob`. -/
def pagesWritten (mtd : Mtd) (to_ : Nat) (ops : OobOps) : Nat :=
  if writeOobArgs mtd to_ ops ≠ 0 then 0 else ops.len / 2 ^ mtd.pageShift

theorem writeOob_ne_zero_iff (mtd : Mtd) (flash : Nat → List Cw) (to_ : Nat) (ops : OobOps) :
    writeOob mtd flash to_ ops ≠ 0 ↔ writeOobArgs mtd to_ ops ≠ 0 ∨
      ∃ i < pagesWritten mtd to_ ops, ∃ cw ∈ flash (to_ / 2 ^ mtd.pageShift + i), cw.Failed := by
  rw [writeOob, pagesWritten]
  split
  · rename_i h
    exact iff_of_true h (.inl h)
  · rename_i h
    rw [writeLoop_ne_zero_iff]
    simp only [h, false_or]

/-! ## Erasing -/

def Blk.Failed (blk : Blk) : Prop := QpicNand.Failed blk.flashSts blk.eraseSts

/-- The erase-failed bit of a block. -/
def Blk.EraseFailed (blk : Blk) : Prop := blk.flashSts &&& progEraseOpResult ≠ 0

theorem blkErase_ne_zero_iff (blk : Blk) : blkErase blk ≠ 0 ↔ blk.Failed := by
  rw [blkErase, Blk.Failed, ← checkStatus_ne_zero_iff]
  split
  · rfl
  · rename_i h
    have h0 : checkStatus blk.flashSts blk.eraseSts = 0 := Decidable.not_not.mp h
    simp [h0]

/-- The loop keeps the result of the last block only. -/
theorem eraseLoop_ret (mtd : Mtd) (scrub : Bool) (flash : Nat → Blk) (n : Nat) : ∀ (i : Nat) (ret : Word),
    (eraseLoop mtd scrub flash n i ret).1 ≠ 0 ↔
      (scrub = false ∧ ∃ j < n, blockIsbad mtd flash (i + j) ≠ 0) ∨ (n = 0 ∧ ret ≠ 0) ∨
        (0 < n ∧ (flash (pageno mtd (i + n - 1))).Failed) := by
  induction n with
  | zero =>
      intro i ret
      simp [eraseLoop]
  | succ n ih =>
      intro i ret
      rw [eraseLoop, exists_from_succ (fun j => blockIsbad mtd flash j ≠ 0)]
      split
      · rename_i h
        exact iff_of_true (by decide) (.inl ⟨by simpa using h.1, .inl h.2⟩)
      · rename_i h
        dsimp only
        have hbad : ∀ Q, (scrub = false ∧ (blockIsbad mtd flash i ≠ 0 ∨ Q)) ↔ (scrub = false ∧ Q) := by
          intro Q
          constructor
          · rintro ⟨hs, hb | hq⟩
            · exact absurd ⟨by simp [hs], hb⟩ h
            · exact ⟨hs, hq⟩
          · rintro ⟨hs, hq⟩
            exact ⟨hs, .inr hq⟩
        rw [ih, blkErase_ne_zero_iff, hbad]
        cases n with
        | zero => simp
        | succ n =>
            have hlast : i + 1 + (n + 1) - 1 = i + (n + 1 + 1) - 1 := by omega
            simp [hlast]

/-- Without a failure every block was tried. -/
theorem eraseLoop_pages (mtd : Mtd) (scrub : Bool) (flash : Nat → Blk) (n : Nat) : ∀ (i : Nat) (ret : Word),
    (eraseLoop mtd scrub flash n i ret).1 = 0 →
    (eraseLoop mtd scrub flash n i ret).2 = (List.range n).map fun j => pageno mtd (i + j) := by
  induction n with
  | zero =>
      intro i ret _
      rfl
  | succ n ih =>
      intro i ret h
      rw [eraseLoop] at h ⊢
      split at h
      · exact absurd h (by decide)
      · rename_i hgood
        rw [if_neg hgood]
        dsimp only at h ⊢
        rw [ih _ _ h, List.range_succ_eq_map, List.map_cons, List.map_map]
        simp [Function.comp_def, Nat.add_assoc, Nat.add_comm 1]

/-! ## Page numbers of blocks -/

/-- The first page of a block. -/
def Mtd.firstPage (mtd : Mtd) (b : Nat) : Nat := b * 2 ^ (mtd.physEraseShift - mtd.pageShift)

theorem firstPage_mul (mtd : Mtd) (b : Nat) : mtd.firstPage b * mtd.writesize = b * mtd.erasesize := by
  rw [Mtd.firstPage, Mtd.writesize, Mtd.erasesize, Nat.mul_assoc, ← Nat.pow_add, Nat.sub_add_cancel mtd.shift_le]

theorem blkOffs_eq (mtd : Mtd) (i : Nat) : blkOffs mtd i =
    if 2 * (i * mtd.erasesize % 2 ^ 32) < 2 ^ 32 then ((i * mtd.erasesize % 2 ^ 32 : Nat) : Int)
    else ((i * mtd.erasesize % 2 ^ 32 : Nat) : Int) - 2 ^ 32 := by
  rw [blkOffs, BitVec.toInt_eq_toNat_cond, BitVec.toNat_ofNat, Nat.shiftLeft_eq]
  rfl

/-- Below 2 GiB the page number is that of the block. -/
theorem pageno_of_lt {mtd : Mtd} {b : Nat} (h : b * mtd.erasesize < 2 ^ 31) : pageno mtd b = mtd.firstPage b := by
  have hpos : 0 < mtd.writesize := Nat.two_pow_pos _
  have hmod : b * mtd.erasesize % 2 ^ 32 = b * mtd.erasesize := Nat.mod_eq_of_lt (by omega)
  have hle : mtd.firstPage b ≤ b * mtd.erasesize := by
    rw [← firstPage_mul]
    exact Nat.le_mul_of_pos_right _ hpos
  have hdiv : blkOffs mtd b / 2 ^ mtd.pageShift = (mtd.firstPage b : Int) := by
    rw [blkOffs_eq, hmod, if_pos (by omega), ← firstPage_mul]
    push_cast [Mtd.writesize]
    exact Int.mul_ediv_cancel _ (by positivity)
  rw [pageno, hdiv]
  omega

/-- From 2 GiB on the block is never reached. -/
theorem pageno_ne {mtd : Mtd} {b : Nat} (h : 2 ^ 31 ≤ b * mtd.erasesize) (hs : b * mtd.erasesize < mtd.size) (j : Nat) :
    pageno mtd j ≠ mtd.firstPage b := by
  have hpos : (0 : Int) < 2 ^ mtd.pageShift := by positivity
  have hfirst : mtd.firstPage b < 2 ^ 24 := by
    have hlt : mtd.firstPage b * mtd.writesize < 2 ^ 24 * mtd.writesize := by
      rw [firstPage_mul]
      exact Nat.lt_of_lt_of_le hs mtd.size_le
    exact Nat.lt_of_mul_lt_mul_right hlt
  have hoffs : -2 ^ 31 ≤ blkOffs mtd j ∧ blkOffs mtd j < 2 ^ 31 := by
    rw [blkOffs_eq]
    split <;> omega
  intro heq
  rw [pageno] at heq
  cases lt_or_ge (blkOffs mtd j) 0 with
  | inl hneg =>
      have hq : blkOffs mtd j / 2 ^ mtd.pageShift < 0 := Int.ediv_neg_of_neg_of_pos hneg hpos
      have hq' : blkOffs mtd j ≤ blkOffs mtd j / 2 ^ mtd.pageShift := by
        apply Int.le_ediv_of_mul_le hpos
        nlinarith
      omega
  | inr hnn =>
      have hq : 0 ≤ blkOffs mtd j / 2 ^ mtd.pageShift := Int.ediv_nonneg hnn (by positivity)
      have hq' : blkOffs mtd j / 2 ^ mtd.pageShift ≤ blkOffs mtd j := Int.ediv_le_self _ hnn
      have hk : blkOffs mtd j / 2 ^ mtd.pageShift = mtd.firstPage b := by omega
      have hmul : blkOffs mtd j / 2 ^ mtd.pageShift * 2 ^ mtd.pageShift ≤ blkOffs mtd j :=
        Int.ediv_mul_le _ hpos.ne'
      have hcast : ((mtd.firstPage b : Nat) : Int) * 2 ^ mtd.pageShift = ((b * mtd.erasesize : Nat) : Int) := by
        rw [← firstPage_mul]
        push_cast [Mtd.writesize]
        rfl
      rw [hk, hcast] at hmul
      omega

theorem blkOffs_neg_iff (mtd : Mtd) (i : Nat) : blkOffs mtd i < 0 ↔ 2 ^ 31 ≤ i * mtd.erasesize % 2 ^ 32 := by
  rw [blkOffs_eq]
  split <;> omega

theorem blkOffs_le (mtd : Mtd) (i : Nat) : blkOffs mtd i ≤ (i * mtd.erasesize : Nat) := by
  have hmod := Nat.mod_le (i * mtd.erasesize) (2 ^ 32)
  rw [blkOffs_eq]
  split <;> omega

/-- The offset is that of a block also where it overflows. -/
theorem blkOffs_emod (mtd : Mtd) (i : Nat) : blkOffs mtd i % mtd.erasesize = 0 := by
  have hdvd : (mtd.erasesize : Int) ∣ blkOffs mtd i := by
    rcases Nat.le_total mtd.physEraseShift 32 with hle | hge
    · have h32 : mtd.erasesize ∣ 2 ^ 32 := Nat.pow_dvd_pow 2 hle
      have hmod : mtd.erasesize ∣ i * mtd.erasesize % 2 ^ 32 := (Nat.dvd_mod_iff h32).mpr (Nat.dvd_mul_left _ _)
      rw [blkOffs_eq]
      split
      · exact Int.natCast_dvd_natCast.mpr hmod
      · exact Int.dvd_sub (Int.natCast_dvd_natCast.mpr hmod) (by exact_mod_cast Int.natCast_dvd_natCast.mpr h32)
    · have h32 : 2 ^ 32 ∣ mtd.erasesize := Nat.pow_dvd_pow 2 hge
      have hzero : i * mtd.erasesize % 2 ^ 32 = 0 := Nat.mod_eq_zero_of_dvd (h32.mul_left i)
      rw [blkOffs_eq, hzero]
      simp
  exact Int.emod_eq_zero_of_dvd hdvd

/-! ## Bad blocks -/

/-- The marker of a block cannot be read, or it is not 0xFF. -/
def Blk.Marked (blk : Blk) (widebus : Bool) : Prop :=
  QpicNand.Failed blk.badSts blk.badEraseSts ∨ blk.badBlock.1 ≠ 0xff ∧ (widebus = true → blk.badBlock.2 ≠ 0xff)

/-- A block of the device is passed unless it is marked or its offset is negative as an `int`. -/
theorem blockIsbad_ne_zero_iff {mtd : Mtd} {flash : Nat → Blk} {b : Nat} (hs : b * mtd.erasesize ≤ mtd.size) :
    blockIsbad mtd flash b ≠ 0 ↔
      2 ^ 31 ≤ b * mtd.erasesize % 2 ^ 32 ∨ (flash (pageno mtd b)).Marked mtd.widebus := by
  have hle := blkOffs_le mtd b
  rw [← blkOffs_neg_iff, blockIsbad]
  dsimp only
  by_cases hneg : blkOffs mtd b < 0
  · rw [if_pos (.inl hneg)]
    exact iff_of_true (by decide) (.inl hneg)
  · rw [if_neg (not_or.mpr ⟨hneg, by omega⟩), if_neg (not_not.mpr (blkOffs_emod mtd b)), Blk.Marked,
      ← checkStatus_ne_zero_iff]
    split
    · rename_i hread
      exact iff_of_true (by decide) (.inr (.inl hread))
    · rename_i hread
      rw [Decidable.not_not.mp hread]
      cases mtd.widebus <;> simp [hneg]

/-! ## Failures and results -/

/-- A read that returns 0 had no failed codeword. -/
def ReadReports (mtd : Mtd) (flash : Nat → List Cw) (corrected to_ : Nat) (ops : OobOps) : Prop :=
  (∃ i < pagesRead mtd to_ ops, ∃ cw ∈ flash (to_ / 2 ^ mtd.pageShift + i), cw.Failed) →
    readOob mtd flash corrected to_ ops ≠ 0

/-- A write that returns 0 had no failed codeword, and none with the program-failed bit. -/
def WriteReports (mtd : Mtd) (flash : Nat → List Cw) (to_ : Nat) (ops : OobOps) : Prop :=
  (∃ i < pagesWritten mtd to_ ops, ∃ cw ∈ flash (to_ / 2 ^ mtd.pageShift + i), cw.Failed ∨ cw.ProgFailed) →
    writeOob mtd flash to_ ops ≠ 0

/-- The blocks of a range. -/
def Mtd.InRange (mtd : Mtd) (addr len b : Nat) : Prop :=
  addr / mtd.erasesize ≤ b ∧ b < addr / mtd.erasesize + len / mtd.erasesize

/-- An erase that returns 0 erased every block of the range without a failure. -/
def EraseReports (mtd : Mtd) (flash : Nat → Blk) (addr len : Nat) (scrub : Bool) : Prop :=
  (erase mtd flash addr len scrub).1 = 0 → ∀ b, mtd.InRange addr len b →
    mtd.firstPage b ∈ (erase mtd flash addr len scrub).2 ∧
      ¬ (flash (mtd.firstPage b)).Failed ∧ ¬ (flash (mtd.firstPage b)).EraseFailed

theorem readReports_iff (mtd : Mtd) (flash : Nat → List Cw) (corrected to_ : Nat) (ops : OobOps) :
    ReadReports mtd flash corrected to_ ops ↔
      (∃ i < pagesRead mtd to_ ops, ∃ cw ∈ flash (to_ / 2 ^ mtd.pageShift + i), cw.Failed) →
        ∃ i < pagesRead mtd to_ ops, Scrubbed (flash (to_ / 2 ^ mtd.pageShift + i)) := by
  rw [ReadReports, readOob_ne_zero_iff]
  constructor
  · rintro h ⟨i, hi, hf⟩
    cases h ⟨i, hi, hf⟩ with
    | inl hargs =>
        rw [pagesRead, if_pos hargs] at hi
        omega
    | inr hs => exact hs
  · intro h hf
    exact .inr (h hf)

theorem writeReports_iff (mtd : Mtd) (flash : Nat → List Cw) (to_ : Nat) (ops : OobOps) :
    WriteReports mtd flash to_ ops ↔
      (∃ i < pagesWritten mtd to_ ops, ∃ cw ∈ flash (to_ / 2 ^ mtd.pageShift + i), cw.ProgFailed) →
        ∃ i < pagesWritten mtd to_ ops, ∃ cw ∈ flash (to_ / 2 ^ mtd.pageShift + i), cw.Failed := by
  rw [WriteReports, writeOob_ne_zero_iff]
  constructor
  · rintro h ⟨i, hi, cw, hcw, hp⟩
    cases h ⟨i, hi, cw, hcw, .inr hp⟩ with
    | inl hargs =>
        rw [pagesWritten, if_pos hargs] at hi
        omega
    | inr hf => exact hf
  · rintro h ⟨i, hi, cw, hcw, hf | hp⟩
    · exact .inr ⟨i, hi, cw, hcw, hf⟩
    · exact .inr (h ⟨i, hi, cw, hcw, hp⟩)

/-- The range is refused; or a block of it is marked bad or has a negative offset as an `int`, where that is looked at; or
the last one fails; or all are below 2 GiB and erased. -/
def EraseSeen (mtd : Mtd) (flash : Nat → Blk) (addr len : Nat) (scrub : Bool) : Prop :=
  eraseArgs mtd addr len ≠ 0 ∨
  (scrub = false ∧ ∃ b, mtd.InRange addr len b ∧
    (2 ^ 31 ≤ b * mtd.erasesize % 2 ^ 32 ∨ (flash (pageno mtd b)).Marked mtd.widebus)) ∨
  (0 < len / mtd.erasesize ∧ (flash (pageno mtd (addr / mtd.erasesize + len / mtd.erasesize - 1))).Failed) ∨
  ∀ b, mtd.InRange addr len b → b * mtd.erasesize < 2 ^ 31 ∧
    ¬ (flash (mtd.firstPage b)).Failed ∧ ¬ (flash (mtd.firstPage b)).EraseFailed

theorem lt_size_of_inRange {mtd : Mtd} {addr len b : Nat} (hargs : eraseArgs mtd addr len = 0)
    (hb : mtd.InRange addr len b) : b * mtd.erasesize < mtd.size := by
  have hpos : 0 < mtd.erasesize := Nat.two_pow_pos _
  rw [eraseArgs] at hargs
  split at hargs
  · exact absurd hargs (by decide)
  · split at hargs
    · exact absurd hargs (by decide)
    · split at hargs
      · exact absurd hargs (by decide)
      · have ha : addr / mtd.erasesize * mtd.erasesize = addr := Nat.div_mul_cancel (Nat.dvd_of_mod_eq_zero (by omega))
        have hl : len / mtd.erasesize * mtd.erasesize = len := Nat.div_mul_cancel (Nat.dvd_of_mod_eq_zero (by omega))
        calc b * mtd.erasesize < (addr / mtd.erasesize + len / mtd.erasesize) * mtd.erasesize :=
              Nat.mul_lt_mul_of_pos_right hb.2 hpos
          _ = addr + len := by rw [Nat.add_mul, ha, hl]
          _ ≤ mtd.size := by omega

/-- Counted from the first block, the blocks of the range. -/
theorem exists_isbad_iff {mtd : Mtd} {flash : Nat → Blk} {addr len : Nat} (hargs : eraseArgs mtd addr len = 0) :
    (∃ j < len / mtd.erasesize, blockIsbad mtd flash (addr / mtd.erasesize + j) ≠ 0) ↔
      ∃ b, mtd.InRange addr len b ∧
        (2 ^ 31 ≤ b * mtd.erasesize % 2 ^ 32 ∨ (flash (pageno mtd b)).Marked mtd.widebus) := by
  constructor
  · rintro ⟨j, hj, hbad⟩
    have hb : mtd.InRange addr len (addr / mtd.erasesize + j) := ⟨Nat.le_add_right _ _, Nat.add_lt_add_left hj _⟩
    exact ⟨_, hb, (blockIsbad_ne_zero_iff (lt_size_of_inRange hargs hb).le).mp hbad⟩
  · rintro ⟨b, hb, hbad⟩
    have hsum : addr / mtd.erasesize + (b - addr / mtd.erasesize) = b := Nat.add_sub_cancel' hb.1
    refine ⟨b - addr / mtd.erasesize, by have := hb.2; omega, ?_⟩
    rw [hsum]
    exact (blockIsbad_ne_zero_iff (lt_size_of_inRange hargs hb).le).mpr hbad

theorem eraseReports_iff (mtd : Mtd) (flash : Nat → Blk) (addr len : Nat) (scrub : Bool) :
    EraseReports mtd flash addr len scrub ↔ EraseSeen mtd flash addr len scrub := by
  rw [EraseReports, EraseSeen, erase, show 2 ^ mtd.physEraseShift = mtd.erasesize from rfl]
  split
  · rename_i h
    exact iff_of_true (fun h0 => absurd h0 h) (.inl h)
  · rename_i h
    have hargs : eraseArgs mtd addr len = 0 := Decidable.not_not.mp h
    have hret := eraseLoop_ret mtd scrub flash (len / mtd.erasesize) (addr / mtd.erasesize) 0
    rw [exists_isbad_iff hargs] at hret
    have hpages := eraseLoop_pages mtd scrub flash (len / mtd.erasesize) (addr / mtd.erasesize) 0
    by_cases hne : (eraseLoop mtd scrub flash (len / mtd.erasesize) (addr / mtd.erasesize) 0).1 = 0
    · have hnot := not_congr hret |>.mp (Decidable.not_not.mpr hne)
      simp only [not_or] at hnot
      constructor
      · intro hall
        refine .inr (.inr (.inr fun b hb => ?_))
        obtain ⟨hmem, hclean⟩ := hall hne b hb
        refine ⟨?_, hclean⟩
        by_contra hge
        rw [hpages hne, List.mem_map] at hmem
        obtain ⟨j, -, hj⟩ := hmem
        exact pageno_ne (by omega) (lt_size_of_inRange hargs hb) _ hj
      · rintro (h1 | h1 | h1 | hall) _ b hb
        · exact absurd hargs h1
        · exact absurd h1 hnot.1
        · exact absurd h1 hnot.2.2
        · obtain ⟨hlt, hclean⟩ := hall b hb
          refine ⟨?_, hclean⟩
          rw [hpages hne, List.mem_map]
          have hsum : addr / mtd.erasesize + (b - addr / mtd.erasesize) = b := by have := hb.1; omega
          exact ⟨b - addr / mtd.erasesize, List.mem_range.mpr (by have := hb.2; omega), by rw [hsum, pageno_of_lt hlt]⟩
    · refine iff_of_true (fun h0 => absurd h0 hne) ?_
      rcases hret.mp hne with hbad | ⟨-, h0⟩ | hlast
      · exact .inr (.inl hbad)
      · exact absurd rfl h0
      · exact .inr (.inr (.inl hlast))

/-- The failures of reads, writes and erases that reach the caller. -/
theorem failures_reported_iff (mtd : Mtd) :
    (∀ flash corrected to_ ops, ReadReports mtd flash corrected to_ ops ↔
      ((∃ i < pagesRead mtd to_ ops, ∃ cw ∈ flash (to_ / 2 ^ mtd.pageShift + i), cw.Failed) →
        ∃ i < pagesRead mtd to_ ops, Scrubbed (flash (to_ / 2 ^ mtd.pageShift + i)))) ∧
    (∀ flash corrected offs len,
      read mtd flash corrected offs len = readOob mtd flash corrected offs ⟨.auto, len, 0, 0, true⟩) ∧
    (∀ flash to_ ops, WriteReports mtd flash to_ ops ↔
      ((∃ i < pagesWritten mtd to_ ops, ∃ cw ∈ flash (to_ / 2 ^ mtd.pageShift + i), cw.ProgFailed) →
        ∃ i < pagesWritten mtd to_ ops, ∃ cw ∈ flash (to_ / 2 ^ mtd.pageShift + i), cw.Failed)) ∧
    ∀ flash addr len scrub, EraseReports mtd flash addr len scrub ↔ EraseSeen mtd flash addr len scrub :=
  ⟨readReports_iff mtd, fun _ _ _ _ => rfl, writeReports_iff mtd, eraseReports_iff mtd⟩

/-- A chip of 128 MiB with pages of 2 KiB and blocks of 128 KiB. -/
def chip128M : Mtd where
  pageShift := 11
  physEraseShift := 17
  size := 2 ^ 27
  oobsize := 64
  oobavail := 16
  widebus := false
  shift_le := by decide
  size_le := by decide

/-- A read with operation errors, a write whose codewords have the program-failed bit, and an erase of two blocks of which
the first times out, all return 0. -/
theorem failures_lost : ¬ ReadReports chip128M (fun _ => [⟨0x10, 0, 0, 0⟩]) 0 0 ⟨.auto, 2048, 0, 0, true⟩ ∧
    ¬ WriteReports chip128M (fun _ => [⟨0x80, 0, 0, 0⟩]) 0 ⟨.auto, 2048, 0, 0, true⟩ ∧
    ¬ EraseReports chip128M (fun page => ⟨if page = 0 then 0x40 else 0, 0, 0, 0, (0xff, 0xff)⟩) 0 262144 false := by
  refine ⟨fun h => ?_, fun h => ?_, fun h => ?_⟩
  · exact h ⟨0, by decide, _, List.mem_singleton.mpr rfl, by simp [Cw.Failed, Failed, flashOpErr, pageAllErased]⟩ (by decide)
  · exact h ⟨0, by decide, _, List.mem_singleton.mpr rfl, .inr (by simp [Cw.ProgFailed, progEraseOpResult])⟩ (by decide)
  · refine (h (by decide) 0 ⟨by decide, by decide⟩).2.1 ?_
    simp [Blk.Failed, Failed, Mtd.firstPage, flashTimeoutErr]

end Uboot.QpicNand
