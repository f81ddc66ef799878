import Uboot.Spi.Qup

/-!
# DMA transfers are whole or cut short

`blsp_spi_bam_begin_xfer` stops at the first change of state that fails, and its callers drop the result.
-/

namespace Uboot.Spi

open Bam

variable {fails : Nat → Bool} {dir : Dir} {q : Qup} {ptr len fuel : Nat}

/-- The descriptors that a pipe was given. -/
def queueOf (p : Pipe) : List Desc := p.writes.map Prod.snd

/-- The descriptors of `ds` have been added. -/
def Adds (dir : Dir) (q : Qup) (ds : List Desc) (q' : Qup) : Prop :=
  queueOf (q'.pipe dir) = queueOf (q.pipe dir) ++ ds

/-- A pipe as `qup_bam_init` leaves it, whatever was queued since. -/
structure PipeReady (p : Pipe) : Prop where
  initialized : p.initialized = true
  maxDescLen : p.maxDescLen = qupSpiMaxDescLen

/-- The values of `cons_flag` and `prod_flag`. -/
def FlagOk (flag : Nat) : Prop := flag = 0 ∨ flag = bamDescIntFlag ∨ flag = bamDescEotFlag ||| bamDescNwdFlag ||| bamDescIntFlag

theorem FlagOk.next {flag : Nat} (h : FlagOk flag) (c : Prop) [Decidable c] :
    FlagOk ((if c then bamDescEotFlag ||| bamDescNwdFlag else flag) ||| bamDescIntFlag) := by
  split
  · exact .inr (.inr rfl)
  · obtain rfl | rfl | rfl := h
    · exact .inr (.inl rfl)
    · exact .inr (.inl rfl)
    · exact .inr (.inr rfl)

@[simp] theorem pipe_setPipe (q : Qup) (p : Pipe) (dir : Dir) : (q.setPipe p dir).pipe dir = p := by
  cases dir <;> rfl

@[simp] theorem setPipe_calls (q : Qup) (p : Pipe) (dir : Dir) : (q.setPipe p dir).calls = q.calls := by
  cases dir <;> rfl

@[simp] theorem pipe_calls (q : Qup) (n : Nat) (dir : Dir) : ({ q with calls := n } : Qup).pipe dir = q.pipe dir := by
  cases dir <;> rfl

theorem bamSysGenEvent_ready {p : Pipe} (h : PipeReady p) (n : Nat) : PipeReady (bamSysGenEvent p n) := by
  rw [bamSysGenEvent]
  split
  · exact h
  · exact ⟨h.initialized, h.maxDescLen⟩

/-- A chunk is queued unless its address has become 0. -/
theorem queueOne_spec (hready : PipeReady (q.pipe dir)) {size flag : Nat} (hflag : FlagOk flag) (hpos : 0 < size)
    (hsize : size ≤ spiMaxTrfrBtwnResets) :
    PipeReady ((queueOne dir ptr size flag q).pipe dir) ∧
      Adds dir q (if ptr = 0 then [] else [⟨ptr, size, flag⟩]) (queueOne dir ptr size flag q) := by
  have hbyte : flag % 2 ^ 8 = flag := by obtain rfl | rfl | rfl := hflag <;> rfl
  have hword : size % 2 ^ 16 = size := by
    rw [spiMaxTrfrBtwnResets] at hsize
    omega
  rw [Adds, queueOne, pipe_setPipe, queueOf, bamSysGenEvent_writes, bamAddOneDesc]
  rw [hbyte, hword]
  by_cases hptr : ptr = 0
  · rw [if_neg (fun h => h.1 (.inl hptr)), if_pos hptr, List.append_nil]
    exact ⟨bamSysGenEvent_ready hready 1, rfl⟩
  · have hacc : Accepts (q.pipe dir) ptr size flag := by
      refine ⟨by omega, hready.initialized, ?_, ?_, ?_⟩
      · obtain rfl | rfl | rfl := hflag <;> decide
      · obtain rfl | rfl | rfl := hflag <;> decide
      · rw [hready.maxDescLen, qupSpiMaxDescLen]
        rw [spiMaxTrfrBtwnResets] at hsize
        omega
    rw [if_pos hacc, if_neg hptr]
    refine ⟨bamSysGenEvent_ready (p := (q.pipe dir).push _) ⟨hready.initialized, hready.maxDescLen⟩ 1, ?_⟩
    simp [Pipe.push, queueOf]

/-- A pass of the loop. -/
theorem chunkLoop_step (hpos : 0 < len) {descCnt : Nat} (hcnt : 0 < descCnt) (flag : Nat) :
    ∃ flag' cnt', (FlagOk flag → FlagOk flag') ∧ 0 < cnt' ∧
      chunkLoop fails dir (fuel + 1) len len ptr descCnt flag q =
        if fails q.calls then some (etimedout, { q with calls := q.calls + 1 })
        else
          let q' := queueOne dir ptr (min len spiMaxTrfrBtwnResets) flag' { q with calls := q.calls + 1 }
          if fails (q.calls + 1) then some (etimedout, { q' with calls := q.calls + 2 })
          else
            let rest := if spiMaxTrfrBtwnResets < len then len - spiMaxTrfrBtwnResets else 0
            chunkLoop fails dir fuel rest rest ((ptr + min len spiMaxTrfrBtwnResets) % 2 ^ 32) cnt' flag'
              { q' with calls := q.calls + 2 } := by
  refine ⟨_, if descCnt - 1 = 0 then spiBamMaxDescNum - 1 else descCnt - 1, fun h => h.next
    ((if spiMaxTrfrBtwnResets < len then len - spiMaxTrfrBtwnResets else 0) = 0 ∨ descCnt = 1), ?_, ?_⟩
  · split
    · decide
    · omega
  · rw [chunkLoop, if_neg (by omega)]
    have hcalls : ∀ size flag, (queueOne dir ptr size flag { q with calls := q.calls + 1 }).calls = q.calls + 1 := by
      intro size flag
      rw [queueOne, setPipe_calls]
    simp only [configSpiState, hcalls, if_pos hcnt]
    cases hrun : fails q.calls with
    | true => rfl
    | false =>
        cases hreset : fails (q.calls + 1) with
        | true => rfl
        | false => rfl

/-! ## Chunks -/

/-- How many chunks a transfer takes. -/
def chunks (len : Nat) : Nat := numDesc spiMaxTrfrBtwnResets len

/-- The changes of state from the first chunk's to the one before the last chunk's descriptor succeed, and no chunk's
address wraps. -/
def ChunksWork (fails : Nat → Bool) (first ptr len : Nat) : Prop :=
  (∀ k < 2 * chunks len - 1, fails (first + k) = false) ∧ ptr + (chunks len - 1) * spiMaxTrfrBtwnResets < 2 ^ 32

/-- What the loop does: it ends, with descriptors that are of the buffer's size or shorter. -/
structure Sends (fails : Nat → Bool) (dir : Dir) (ptr len : Nat) (q : Qup) (ds : List Desc) (q' : Qup) : Prop where
  ready : PipeReady (q'.pipe dir)
  adds : Adds dir q ds q'
  sizes : ∀ d ∈ ds, d.addr < 2 ^ 32 ∧ 0 < d.size ∧ d.size ≤ spiMaxTrfrBtwnResets
  whole : ptr ≠ 0 → (bytesOf ds = List.range' ptr len ↔ ChunksWork fails q.calls ptr len)

theorem Adds.trans {ds ds' : List Desc} {q' q'' : Qup} (h : Adds dir q ds q') (h' : Adds dir q' ds' q'') :
    Adds dir q (ds ++ ds') q'' := by
  rw [Adds, h', h, List.append_assoc]

theorem bytesOf_append (ds ds' : List Desc) : bytesOf (ds ++ ds') = bytesOf ds ++ bytesOf ds' := List.flatMap_append

/-- The first byte is the address of a descriptor. -/
theorem bytesOf_start {ds : List Desc} {a n : Nat} (hds : ∀ d ∈ ds, d.addr < 2 ^ 32 ∧ 0 < d.size) (hn : 0 < n)
    (h : bytesOf ds = List.range' a n) : a < 2 ^ 32 := by
  cases ds with
  | nil =>
      have := congrArg List.length h
      rw [List.length_range'] at this
      simp [bytesOf] at this
      omega
  | cons d ds =>
      obtain ⟨haddr, hsize⟩ := hds d List.mem_cons_self
      have hhead := congrArg List.head? h
      rw [bytesOf, List.flatMap_cons, List.head?_append, List.head?_range', if_neg (by omega), Option.some_or,
        List.head?_range', if_neg (by omega)] at hhead
      rw [← Option.some.inj hhead]
      exact haddr

theorem not_range'_nil (ptr : Nat) (hpos : 0 < len) : ¬ bytesOf [] = List.range' ptr len := by
  intro h
  have := congrArg List.length h
  rw [List.length_range'] at this
  simp [bytesOf] at this
  omega

/-- The only chunk, or the last one. -/
theorem chunkLoop_last (hlen : len ≤ spiMaxTrfrBtwnResets) (hpos : 0 < len) (hfuel : len ≤ fuel) (hptr : ptr < 2 ^ 32)
    {descCnt flag : Nat} (hcnt : 0 < descCnt) (hflag : FlagOk flag) (hready : PipeReady (q.pipe dir)) :
    ∃ r ds, chunkLoop fails dir (fuel + 1) len len ptr descCnt flag q = some r ∧ Sends fails dir ptr len q ds r.2 := by
  have hchunks : chunks len = 1 := numDesc_last hlen hpos
  obtain ⟨flag', cnt', hflag', -, hstep⟩ := @chunkLoop_step fails dir q ptr len fuel hpos descCnt hcnt flag
  have hwork : ChunksWork fails q.calls ptr len ↔ fails q.calls = false := by
    rw [ChunksWork, hchunks]
    constructor
    · intro h
      exact h.1 0 (by decide)
    · intro h
      refine ⟨fun k hk => ?_, by omega⟩
      obtain rfl : k = 0 := by omega
      exact h
  rw [hstep]
  cases hrun : fails q.calls with
  | true =>
      refine ⟨_, [], if_pos rfl, ?_, by simp [Adds], by simp, ?_⟩
      · simpa using hready
      · intro _
        rw [hwork, hrun]
        exact iff_of_false (not_range'_nil ptr hpos) (by decide)
  | false =>
      rw [if_neg (by decide), Nat.min_eq_left hlen, if_neg (Nat.not_lt.mpr hlen)]
      dsimp only
      obtain ⟨hready', hadds⟩ := @queueOne_spec dir { q with calls := q.calls + 1 } ptr (by simpa using hready) len flag'
        (hflag' hflag) hpos hlen
      generalize queueOne dir ptr len flag' { q with calls := q.calls + 1 } = q' at *
      have hdone : ∀ q'' : Qup, chunkLoop fails dir fuel 0 0 ((ptr + len) % 2 ^ 32) cnt' flag' q'' = some (0, q'') := by
        intro q''
        obtain ⟨f, rfl⟩ := Nat.exists_eq_succ_of_ne_zero (show fuel ≠ 0 by omega)
        rfl
      rw [hdone]
      have hsends : ∀ ret : Int, Sends fails dir ptr len q (if ptr = 0 then [] else [⟨ptr, len, flag'⟩])
          ((ret, { q' with calls := q.calls + 2 }) : Int × Qup).2 := by
        intro ret
        refine ⟨by simpa using hready', by simpa [Adds] using hadds, ?_, ?_⟩
        · intro d hd
          split at hd
          · cases hd
          · rw [List.mem_singleton.mp hd]
            exact ⟨hptr, hpos, hlen⟩
        · intro hne
          rw [hwork, hrun, if_neg hne]
          simp [bytesOf]
      split
      · exact ⟨_, _, rfl, hsends etimedout⟩
      · exact ⟨_, _, rfl, hsends 0⟩

theorem chunks_mul {c : Nat} (hc : 0 < c) : spiMaxTrfrBtwnResets + (c - 1) * spiMaxTrfrBtwnResets = c * spiMaxTrfrBtwnResets := by
  obtain ⟨k, rfl⟩ := Nat.exists_eq_succ_of_ne_zero (Nat.pos_iff_ne_zero.mp hc)
  rw [Nat.succ_sub_one, Nat.succ_mul, Nat.add_comm]

/-- Behind a chunk the rest of the transfer has to work. -/
theorem chunksWork_more (hmore : spiMaxTrfrBtwnResets < len) {first : Nat} (hrun : fails first = false)
    (hreset : fails (first + 1) = false) :
    ChunksWork fails first ptr len ↔
      ChunksWork fails (first + 2) (ptr + spiMaxTrfrBtwnResets) (len - spiMaxTrfrBtwnResets) := by
  have hchunks : chunks len = chunks (len - spiMaxTrfrBtwnResets) + 1 := numDesc_more (by decide) hmore
  have hrest : 0 < chunks (len - spiMaxTrfrBtwnResets) := numDesc_pos (by decide) (by omega)
  rw [ChunksWork, ChunksWork, hchunks, Nat.add_sub_cancel, Nat.add_assoc ptr, chunks_mul hrest]
  refine and_congr_left fun _ => ⟨fun h k hk => ?_, fun h k hk => ?_⟩
  · rw [Nat.add_assoc]
    exact h (2 + k) (by omega)
  · match k with
    | 0 => exact hrun
    | 1 => exact hreset
    | k + 2 =>
        have := h k (by omega)
        rwa [Nat.add_assoc, Nat.add_comm 2] at this

/-- A chunk and the rest of the transfer. -/
theorem chunkLoop_more (hmore : spiMaxTrfrBtwnResets < len) (hptr : ptr < 2 ^ 32) {descCnt flag : Nat} (hcnt : 0 < descCnt)
    (hflag : FlagOk flag) (hready : PipeReady (q.pipe dir))
    (ih : ∀ (descCnt flag : Nat) (q : Qup), 0 < descCnt → FlagOk flag → PipeReady (q.pipe dir) →
      ∃ r ds, chunkLoop fails dir (fuel + 1) (len - spiMaxTrfrBtwnResets) (len - spiMaxTrfrBtwnResets)
          ((ptr + spiMaxTrfrBtwnResets) % 2 ^ 32) descCnt flag q = some r ∧
        Sends fails dir ((ptr + spiMaxTrfrBtwnResets) % 2 ^ 32) (len - spiMaxTrfrBtwnResets) q ds r.2) :
    ∃ r ds, chunkLoop fails dir (fuel + 1 + 1) len len ptr descCnt flag q = some r ∧ Sends fails dir ptr len q ds r.2 := by
  have hmax : 0 < spiMaxTrfrBtwnResets := by decide
  have hpos : 0 < len := by omega
  have hchunks : chunks len = chunks (len - spiMaxTrfrBtwnResets) + 1 := numDesc_more hmax hmore
  have hrest : 0 < chunks (len - spiMaxTrfrBtwnResets) := numDesc_pos hmax (by omega)
  obtain ⟨flag', cnt', hflag', hcnt', hstep⟩ := @chunkLoop_step fails dir q ptr len (fuel + 1) hpos descCnt hcnt flag
  rw [hstep]
  cases hrun : fails q.calls with
  | true =>
      refine ⟨_, [], if_pos rfl, ⟨by simpa using hready, by simp [Adds], by simp, fun _ => ?_⟩⟩
      refine iff_of_false (not_range'_nil ptr hpos) fun h => ?_
      have h0 := h.1 0 (by omega)
      rw [Nat.add_zero, hrun] at h0
      cases h0
  | false =>
      rw [if_neg (by decide), Nat.min_eq_right (Nat.le_of_lt hmore), if_pos hmore]
      dsimp only
      obtain ⟨hready', hadds⟩ := @queueOne_spec dir { q with calls := q.calls + 1 } ptr (by simpa using hready)
        spiMaxTrfrBtwnResets flag' (hflag' hflag) hmax (Nat.le_refl _)
      generalize queueOne dir ptr spiMaxTrfrBtwnResets flag' { q with calls := q.calls + 1 } = q' at *
      have hfirst : Adds dir q (if ptr = 0 then [] else [⟨ptr, spiMaxTrfrBtwnResets, flag'⟩]) { q' with calls := q.calls + 2 } := by
        simpa [Adds] using hadds
      have hsizes : ∀ d ∈ (if ptr = 0 then [] else [(⟨ptr, spiMaxTrfrBtwnResets, flag'⟩ : Desc)]),
          d.addr < 2 ^ 32 ∧ 0 < d.size ∧ d.size ≤ spiMaxTrfrBtwnResets := by
        intro d hd
        split at hd
        · cases hd
        · rw [List.mem_singleton.mp hd]
          exact ⟨hptr, hmax, Nat.le_refl _⟩
      have hrange : List.range' ptr len =
          List.range' ptr spiMaxTrfrBtwnResets ++ List.range' (ptr + spiMaxTrfrBtwnResets) (len - spiMaxTrfrBtwnResets) := by
        rw [List.range'_append_1, Nat.add_sub_cancel' (Nat.le_of_lt hmore)]
      have hone : ∀ f, bytesOf [⟨ptr, spiMaxTrfrBtwnResets, f⟩] = List.range' ptr spiMaxTrfrBtwnResets := by
        intro f
        simp [bytesOf]
      cases hreset : fails (q.calls + 1) with
      | true =>
          refine ⟨_, _, if_pos rfl, ⟨by simpa using hready', hfirst, hsizes, fun hne => ?_⟩⟩
          rw [if_neg hne, hone]
          refine iff_of_false ?_ fun h => ?_
          · intro h
            have := congrArg List.length h
            rw [List.length_range', List.length_range'] at this
            omega
          · have h1 := h.1 1 (by omega)
            rw [hreset] at h1
            cases h1
      | false =>
          obtain ⟨r, ds, hr, hsends⟩ := ih cnt' flag' { q' with calls := q.calls + 2 } hcnt' (hflag' hflag)
            (by simpa using hready')
          refine ⟨r, _, (if_neg (by decide)).trans hr, ⟨hsends.ready, hfirst.trans hsends.adds, ?_, fun hne => ?_⟩⟩
          · intro d hd
            cases List.mem_append.mp hd with
            | inl hd => exact hsizes d hd
            | inr hd => exact hsends.sizes d hd
          · rw [if_neg hne, bytesOf_append, hone, hrange, List.append_right_inj]
            by_cases hnext : ptr + spiMaxTrfrBtwnResets < 2 ^ 32
            · have hwhole := hsends.whole
              rw [Nat.mod_eq_of_lt hnext] at hwhole
              rw [chunksWork_more hmore hrun hreset]
              exact hwhole (by omega)
            · refine iff_of_false ?_ ?_
              · intro h
                exact hnext (bytesOf_start (fun d hd => ⟨(hsends.sizes d hd).1, (hsends.sizes d hd).2.1⟩) (by omega) h)
              · intro h
                have hle := Nat.le_mul_of_pos_left spiMaxTrfrBtwnResets hrest
                have hwrap := h.2
                rw [hchunks, Nat.add_sub_cancel] at hwrap
                omega

theorem chunkLoop_sends (hpos : 0 < len) (hfuel : len ≤ fuel) (hptr : ptr < 2 ^ 32) {descCnt flag : Nat} (hcnt : 0 < descCnt)
    (hflag : FlagOk flag) (hready : PipeReady (q.pipe dir)) :
    ∃ r ds, chunkLoop fails dir (fuel + 1) len len ptr descCnt flag q = some r ∧ Sends fails dir ptr len q ds r.2 := by
  refine split_induction (motive := fun fuel ptr len => ptr < 2 ^ 32 → ∀ (descCnt flag : Nat) (q : Qup), 0 < descCnt →
    FlagOk flag → PipeReady (q.pipe dir) → ∃ r ds, chunkLoop fails dir (fuel + 1) len len ptr descCnt flag q = some r ∧
      Sends fails dir ptr len q ds r.2) (show 0 < spiMaxTrfrBtwnResets by decide) ?_ ?_ fuel ptr len hpos hfuel hptr
    descCnt flag q hcnt hflag hready
  · intro fuel ptr len hlen hpos hfuel hptr descCnt flag q hcnt hflag hready
    exact chunkLoop_last hlen hpos hfuel hptr hcnt hflag hready
  · intro fuel ptr len hmore _ ih hptr descCnt flag q hcnt hflag hready
    exact chunkLoop_more hmore hptr hcnt hflag hready (ih (Nat.mod_lt _ (by decide)))

theorem ite_imp {α : Type} {c : Prop} [Decidable c] {a a' b b' : Option α} {r : α} (h : (if c then a else b) = some r)
    (ha : a = some r → a' = some r) (hb : b = some r → b' = some r) : (if c then a' else b') = some r := by
  split
  · exact ha (by rwa [if_pos ‹_›] at h)
  · exact hb (by rwa [if_neg ‹_›] at h)

/-- More fuel does not change what the loop returns. -/
theorem chunkLoop_mono {r : Int × Qup} {rem bytes buffer cnt flag : Nat}
    (h : chunkLoop fails dir fuel rem bytes buffer cnt flag q = some r) {fuel' : Nat} (hle : fuel ≤ fuel') :
    chunkLoop fails dir fuel' rem bytes buffer cnt flag q = some r := by
  induction fuel generalizing rem bytes buffer cnt flag q fuel' with
  | zero => cases h
  | succ fuel ih =>
      obtain ⟨f, rfl⟩ := Nat.exists_eq_add_of_le' (Nat.lt_of_lt_of_le (Nat.succ_pos fuel) hle)
      rw [chunkLoop] at h ⊢
      refine ite_imp h id fun h => ite_imp h id fun h => ite_imp h ?_ ?_
      · exact fun h => ite_imp h id fun h => ih h (by omega)
      · exact fun h => ite_imp h id fun h => ih h (by omega)

/-! ## `spi_xfer` -/

/-- The loop for a transfer ends, with what `blsp_spi_bam_begin_xfer` returns. -/
def LoopEnds (fails : Nat → Bool) (dir : Dir) (ptr bytes : Nat) (q : Qup) : Prop :=
  ∀ fuel, bytes < fuel → chunkLoop fails dir fuel bytes bytes ptr (spiBamMaxDescNum - 1) 0 q =
    some (blspSpiBamBeginXfer fails dir ptr bytes q)

theorem beginXfer_sends (hpos : 0 < len) (hptr : ptr < 2 ^ 32) (hready : PipeReady (q.pipe dir)) :
    LoopEnds fails dir ptr len q ∧ ∃ ds, Sends fails dir ptr len q ds (blspSpiBamBeginXfer fails dir ptr len q).2 := by
  obtain ⟨r, ds, hr, hsends⟩ := @chunkLoop_sends fails dir q ptr len len hpos (Nat.le_refl _) hptr (spiBamMaxDescNum - 1) 0
    (by decide) (.inl rfl) hready
  have hbegin : blspSpiBamBeginXfer fails dir ptr len q = r := by rw [blspSpiBamBeginXfer, hr, Option.getD_some]
  refine ⟨fun fuel hfuel => ?_, ds, by rw [hbegin]; exact hsends⟩
  rw [hbegin]
  exact chunkLoop_mono hr hfuel

/-- The arguments `dout` and `din` for a buffer at `ptr`. -/
def Dir.dout (dir : Dir) (ptr : Nat) : Option Nat := if dir = .write then some ptr else none

def Dir.din (dir : Dir) (ptr : Nat) : Option Nat := if dir = .read then some ptr else none

/-- `blsp_spi_read` or `blsp_spi_write` -/
def blspXfer (fails : Nat → Bool) (dir : Dir) (ptr len : Nat) (q : Qup) : Int × Qup :=
  match dir with
  | .read => let r := blspSpiReadDma fails ptr len q; (r.1, r.2.2)
  | .write => blspSpiWriteDma fails ptr len q

theorem xferData_dir (nandCs resetDropsCs xferEnd : Bool) (s : Slave Qup) :
    let r := xferData (qupHw fails nandCs resetDropsCs) len (dir.dout ptr) (dir.din ptr) xferEnd s
    r.1 = (blspXfer fails dir ptr len s.io).1 ∧ r.2.2.io = (blspXfer fails dir ptr len s.io).2 := by
  have hdeassert : ∀ s : Slave Qup, (csDeassert (qupHw fails nandCs resetDropsCs) s).io = s.io := by
    intro s
    rw [csDeassert]
    split <;> rfl
  cases dir with
  | read =>
      simp only [xferData, Dir.dout, Dir.din, qupHw, blspXfer, reduceCtorEq, if_false, if_true, ne_eq, not_true_eq_false]
      split
      · exact ⟨rfl, rfl⟩
      · rename_i hok
        refine ⟨(not_not.mp hok).symm, ?_⟩
        cases xferEnd
        · rfl
        · exact hdeassert _
  | write =>
      simp only [xferData, Dir.dout, Dir.din, qupHw, blspXfer, reduceCtorEq, if_false, if_true]
      split
      · exact ⟨rfl, rfl⟩
      · rename_i hok
        simp only [ne_eq, not_true_eq_false, if_false]
        refine ⟨(not_not.mp hok).symm, ?_⟩
        cases xferEnd
        · rfl
        · exact hdeassert _

/-- `spi_xfer` in one direction has the result and the pipes of the transfer. -/
theorem spiXfer_dir (nandCs resetDropsCs : Bool) (flags : Flags) {bitlen : Nat} (hbits : bitlen % 8 = 0) (s : Slave Qup) :
    let r := spiXfer (qupHw fails nandCs resetDropsCs) bitlen (dir.dout ptr) (dir.din ptr) flags s
    r.1 = (blspXfer fails dir ptr (bitlen / 8) s.io).1 ∧ r.2.2.io = (blspXfer fails dir ptr (bitlen / 8) s.io).2 := by
  have hassert : (csAssert (qupHw fails nandCs resetDropsCs) s).io = s.io := by
    rw [csAssert]
    split <;> rfl
  rw [spiXfer, if_neg (not_not.mpr hbits)]
  split
  · rw [← hassert]
    exact xferData_dir nandCs resetDropsCs flags.xferEnd _
  · exact xferData_dir nandCs resetDropsCs flags.xferEnd s

/-- The first change of state, and then the transfer. -/
theorem blspXfer_begin (hpos : 0 < len) (hok : fails q.calls = false) :
    (blspXfer fails dir ptr len q).1 = 0 ∧ (blspXfer fails dir ptr len q).2.pipe dir =
      (blspSpiBamBeginXfer fails dir ptr len { q with calls := q.calls + 1 }).2.pipe dir := by
  cases dir with
  | read => simp [blspXfer, blspSpiReadDma, configSpiState, hok, Nat.pos_iff_ne_zero.mp hpos, Qup.pipe]
  | write => simp [blspXfer, blspSpiWriteDma, configSpiState, hok, Nat.pos_iff_ne_zero.mp hpos, Qup.pipe]

theorem blspXfer_fails (hfail : fails q.calls = true) : (blspXfer fails dir ptr len q).1 ≠ 0 := by
  cases dir with
  | read => simp [blspXfer, blspSpiReadDma, configSpiState, hfail, etimedout]
  | write => simp [blspXfer, blspSpiWriteDma, configSpiState, hfail, etimedout]

theorem blspXfer_nothing : (blspXfer fails dir ptr 0 q).2.pipe dir = q.pipe dir := by
  cases dir with
  | read =>
      rw [blspXfer, blspSpiReadDma]
      cases hreset : fails q.calls with
      | true => simp [configSpiState, hreset, etimedout, Qup.pipe]
      | false => cases hrun : fails (q.calls + 1) <;> simp [configSpiState, hreset, hrun, etimedout, Qup.pipe]
  | write =>
      rw [blspXfer, blspSpiWriteDma]
      cases hreset : fails q.calls <;> simp [configSpiState, hreset, etimedout, Qup.pipe]

/-- The loop ends, and when `spi_xfer` returns 0 the descriptors of its pipe are the bytes of the buffer in order, none of
them longer than a chunk. -/
def Whole (hw : Hw Qup Nat) (fails : Nat → Bool) (dir : Dir) (bitlen ptr : Nat) (flags : Flags) (s : Slave Qup) : Prop :=
  (∀ q, PipeReady (q.pipe dir) → LoopEnds fails dir ptr (bitlen / 8) q) ∧
    ∀ r, spiXfer hw bitlen (dir.dout ptr) (dir.din ptr) flags s = r → r.1 = 0 →
      ∃ ds, Adds dir s.io ds r.2.2.io ∧ bytesOf ds = List.range' ptr (bitlen / 8) ∧ ∀ d ∈ ds, d.size ≤ spiMaxTrfrBtwnResets

theorem loopEnds (hptr : ptr < 2 ^ 32) (hready : PipeReady (q.pipe dir)) : LoopEnds fails dir ptr len q := by
  cases Nat.eq_zero_or_pos len with
  | inl h0 =>
      subst h0
      intro fuel hfuel
      obtain ⟨f, rfl⟩ := Nat.exists_eq_succ_of_ne_zero (Nat.pos_iff_ne_zero.mp hfuel)
      rfl
  | inr hpos => exact (beginXfer_sends hpos hptr hready).1

/-- Of a transfer that begins all chunks have to work. -/
theorem whole_iff_chunksWork {nandCs resetDropsCs : Bool} {bitlen : Nat} {flags : Flags} {s : Slave Qup}
    (hbits : bitlen % 8 = 0) (hfirst : fails s.io.calls = false) (hpos : 0 < bitlen / 8) (hready : PipeReady (s.io.pipe dir))
    (hnull : ptr ≠ 0) (hptr : ptr < 2 ^ 32) :
    Whole (qupHw fails nandCs resetDropsCs) fails dir bitlen ptr flags s ↔
      ChunksWork fails (s.io.calls + 1) ptr (bitlen / 8) := by
  have hends : ∀ q : Qup, PipeReady (q.pipe dir) → LoopEnds fails dir ptr (bitlen / 8) q := fun q => loopEnds hptr
  obtain ⟨hret, hio⟩ := @spiXfer_dir fails dir ptr nandCs resetDropsCs flags bitlen hbits s
  rw [Whole]
  generalize bitlen / 8 = len at *
  obtain ⟨hok, hpipe⟩ := @blspXfer_begin fails dir s.io ptr len hpos hfirst
  obtain ⟨-, ds, hsends⟩ := @beginXfer_sends fails dir { s.io with calls := s.io.calls + 1 } ptr len hpos hptr
    (by simpa using hready)
  have hadds : Adds dir s.io ds (blspXfer fails dir ptr len s.io).2 := by
    rw [Adds, hpipe]
    simpa [Adds] using hsends.adds
  rw [← hsends.whole hnull]
  constructor
  · rintro ⟨-, h⟩
    obtain ⟨ds', hadds', hbytes, -⟩ := h _ rfl (by rw [hret]; exact hok)
    rw [Adds, hio] at hadds'
    rw [Adds, hadds', List.append_cancel_left_eq] at hadds
    rwa [← hadds]
  · intro hbytes
    refine ⟨hends, ?_⟩
    rintro r rfl -
    exact ⟨ds, by rw [Adds, hio]; exact hadds, hbytes, fun d hd => (hsends.sizes d hd).2.2⟩

/-- A transfer is whole when `spi_xfer` says so just when no change of state after the first fails before the last
descriptor is queued. -/
theorem spi_dma_whole_iff (nandCs resetDropsCs : Bool) (dir : Dir) (bitlen : Nat) (flags : Flags) {s : Slave Qup}
    (hready : PipeReady (s.io.pipe dir)) (hnull : ptr ≠ 0) (hptr : ptr < 2 ^ 32) :
    Whole (qupHw fails nandCs resetDropsCs) fails dir bitlen ptr flags s ↔
      bitlen % 8 ≠ 0 ∨ fails s.io.calls = true ∨ ChunksWork fails (s.io.calls + 1) ptr (bitlen / 8) := by
  have hends : ∀ q : Qup, PipeReady (q.pipe dir) → LoopEnds fails dir ptr (bitlen / 8) q := fun q => loopEnds hptr
  by_cases hbits : bitlen % 8 = 0
  · obtain ⟨hret, hio⟩ := @spiXfer_dir fails dir ptr nandCs resetDropsCs flags bitlen hbits s
    simp only [hbits, ne_eq, not_true_eq_false, false_or]
    cases hfirst : fails s.io.calls with
    | true =>
        refine iff_of_true ⟨hends, ?_⟩ (.inl rfl)
        rintro r rfl hr
        rw [hret] at hr
        exact absurd hr (blspXfer_fails hfirst)
    | false =>
        simp only [Bool.false_eq_true, false_or]
        cases Nat.eq_zero_or_pos (bitlen / 8) with
        | inl h0 =>
            rw [Whole]
            rw [h0] at hends hio ⊢
            have hzero : chunks 0 = 0 := rfl
            refine iff_of_true ⟨hends, ?_⟩ ⟨fun k hk => by omega, by rw [hzero]; omega⟩
            rintro r rfl -
            refine ⟨[], ?_, rfl, by simp⟩
            rw [Adds, hio, blspXfer_nothing, List.append_nil]
        | inr hpos =>
            exact whole_iff_chunksWork hbits hfirst hpos hready hnull hptr
  · refine iff_of_true ⟨hends, ?_⟩ (.inl hbits)
    rintro r rfl hr
    rw [spiXfer, if_pos hbits] at hr
    exact absurd hr (show einval ≠ 0 by decide)

/-- A controller as `spi_hw_init` leaves it, after `calls` changes of state. -/
def qupStart (calls : Nat) : Slave Qup := ⟨⟨qupPipe [] 0, qupPipe [] 0, calls⟩, false, false, false⟩

theorem spi_dma_whole_sample :
    Whole (qupHw (fun _ => false) false true) (fun _ => false) .write (8 * 65536) 0x80000000 ⟨false, true⟩ (qupStart 1) :=
  (spi_dma_whole_iff false true .write (8 * 65536) ⟨false, true⟩ ⟨rfl, rfl⟩ (by decide) (by decide)).mpr
    (.inr (.inr ⟨fun _ _ => rfl, by decide⟩))

/-- The second chunk's change of state fails, and `spi_xfer` returns 0. -/
theorem spi_dma_cut_short :
    ¬ Whole (qupHw (fun k => k = 4) false true) (fun k => k = 4) .write (8 * 65536) 0x80000000 ⟨false, true⟩ (qupStart 1) := by
  rw [whole_iff_chunksWork rfl rfl (by decide) ⟨rfl, rfl⟩ (by decide) (by decide)]
  intro h
  exact absurd (h.1 2 (by decide)) (by decide)

end Uboot.Spi
