import Uboot.Spi.Qup

/-!
# Who releases the chip

`spi_xfer` asserts the chip select at `SPI_XFER_BEGIN` and releases it at `SPI_XFER_END`, and returns before that when a
transfer fails. No caller does it for it.
-/

namespace Uboot.Spi

/-- What the surroundings do: which of the resets in `spi_hw_init` and of the transfers fail, what a read brings, and how
long a poll may take. -/
structure Wire where
  useDma : Bool
  nandCs : Bool
  resetDropsCs : Bool
  initFails : Nat → Bool
  fails : Nat → Bool
  bytes : Nat → List UInt8 → List UInt8
  patience : Nat → Nat

/-- How many calls of `spi_hw_init` and how many transfers there were. -/
structure Count where
  inits : Nat
  xfers : Nat

namespace Wire

variable (w : Wire)

def hw : Hw Count (List UInt8) where
  useDma := w.useDma
  nandCs := w.nandCs
  resetDropsCs := w.resetDropsCs
  hwInit c := (if w.initFails c.inits then etimedout else 0, { c with inits := c.inits + 1 })
  blspSpiWrite _ _ c := (if w.fails c.xfers then etimedout else 0, { c with xfers := c.xfers + 1 })
  blspSpiRead buf _ c := (if w.fails c.xfers then etimedout else 0, w.bytes c.xfers buf, { c with xfers := c.xfers + 1 })

def bus : Bus (Slave Count) where
  claimBus := spiClaimBus w.hw
  releaseBus := spiReleaseBus w.hw
  xfer bitlen dout din flags s :=
    let r := spiXfer w.hw bitlen dout din flags s
    (r.1, r.2.1.getD [], r.2.2)
  patience s := w.patience s.io.xfers

/-- The same surroundings without failing transfers. -/
def quiet : Wire := { w with fails := fun _ => false }

end Wire

/-- An operation on the flash. -/
inductive FlashOp where
  | cmdRead (cmd : List UInt8) (data : Option (List UInt8)) (len : Nat)
  | cmdWrite (cmd : List UInt8) (data : Option (List UInt8)) (len : Nat)
  | pollBit (cmd bit : UInt8)
  | writeMulti (offset : Nat) (buf : List UInt8)
  | readFast (undef : UInt8) (offset len : Nat) (data : List UInt8)
  | erase (undef cmd : UInt8) (offset len : Nat)

namespace FlashOp

def run {σ : Type} (bus : Bus σ) (fl : Flash) : FlashOp → σ → Int × σ
  | cmdRead cmd data len, s => let r := spiFlashCmdRead bus cmd data len s; (r.1, r.2.2)
  | cmdWrite cmd data len, s => spiFlashCmdWrite bus cmd data len s
  | pollBit cmd bit, s => spiFlashCmdPollBit bus cmd bit s
  | writeMulti offset buf, s => spiFlashCmdWriteMulti bus fl offset buf s
  | readFast undef offset len data, s => let r := spiFlashCmdReadFast bus fl undef offset len data s; (r.1, r.2.2)
  | erase undef cmd offset len, s => spiFlashCmdErase bus fl undef cmd offset len s

/-- The operation resets the controller at its end (`spi_release_bus`). -/
def releases : FlashOp → Bool
  | cmdRead .. => false
  | cmdWrite .. => false
  | pollBit .. => false
  | writeMulti .. => true
  | readFast .. => true
  | erase .. => true

end FlashOp

variable {w : Wire} {fl : Flash} {s s' s'' : Slave Count}

/-- The chip is not selected. -/
def Free (w : Wire) (s : Slave Count) : Prop := s.selected w.hw = false

/-- No transfer between two states failed. -/
def Clean (w : Wire) (s s' : Slave Count) : Prop := ∀ k, s.io.xfers ≤ k → k < s'.io.xfers → w.fails k = false

/-- None of the transfers fails that the operation makes when all go well. -/
def Undisturbed (w : Wire) (fl : Flash) (op : FlashOp) (s : Slave Count) : Prop :=
  Clean w s (op.run w.quiet.bus fl s).2

/-! ## The lines -/

theorem free_csDeassert (w : Wire) (s : Slave Count) : Free w (csDeassert w.hw s) := by
  rw [Free, Slave.selected, csDeassert]
  split <;> rfl

theorem not_free_csAssert (w : Wire) (s : Slave Count) : ¬ Free w (csAssert w.hw s) := by
  rw [Free, Slave.selected, csAssert]
  split <;> simp

theorem free_spiReset (w : Wire) (s : Slave Count) :
    Free w (spiReset w.hw s) ↔ Free w s ∨ (w.nandCs = false ∧ w.resetDropsCs = true) := by
  have hn : w.hw.nandCs = w.nandCs := rfl
  have hr : w.hw.resetDropsCs = w.resetDropsCs := rfl
  rw [Free, Free, Slave.selected, Slave.selected, spiReset, hn, hr]
  cases w.nandCs <;> cases w.resetDropsCs <;> simp

theorem free_spiHwInit (h : Free w s) : Free w (spiHwInit w.hw s).2 := by
  have hn : w.hw.nandCs = w.nandCs := rfl
  have hreset := (free_spiReset w s).mpr (.inl h)
  rw [Free, Slave.selected, hn] at hreset ⊢
  rw [spiHwInit]
  by_cases hr : (w.hw.hwInit (spiReset w.hw s).io).1 = 0
  · cases hnand : w.nandCs with
    | true => simpa [hr, hnand] using hreset
    | false => simp [hr]
  · simpa [hr] using hreset

/-! ## `spi_xfer` -/

theorem Clean.refl (w : Wire) (h : s'.io.xfers = s.io.xfers) : Clean w s s' := fun k hle hlt => by omega

theorem Clean.trans (h : Clean w s s') (h' : Clean w s' s'') : Clean w s s'' := by
  intro k hle hlt
  cases Nat.lt_or_ge k s'.io.xfers with
  | inl hk => exact h k hle hk
  | inr hk => exact h' k hk hlt

theorem not_clean_of_fails {k : Nat} (hle : s.io.xfers ≤ k) (hlt : k < s'.io.xfers) (h : w.fails k = true) : ¬ Clean w s s' := by
  intro hc
  rw [hc k hle hlt] at h
  cases h

/-- How a transfer that is under way ends: a failure leaves the lines as they are. -/
structure Ends (w : Wire) (xferEnd : Bool) (s : Slave Count) (ret : Int) (s' : Slave Count) : Prop where
  mono : s.io.xfers ≤ s'.io.xfers
  neg : ret ≤ 0
  ok : ret = 0 → Clean w s s' ∧ (Free w s' ↔ xferEnd = true ∨ Free w s)
  fail : ret ≠ 0 → ¬ Clean w s s' ∧ (Free w s' ↔ Free w s)

/-- The state after `n` transfers in all. -/
def advance (s : Slave Count) (n : Nat) : Slave Count := { s with io := { s.io with xfers := n } }

theorem Ends.deassert (xferEnd : Bool) {n : Nat} (hn : s.io.xfers ≤ n) (hc : Clean w s (advance s n)) :
    Ends w xferEnd s 0 (if xferEnd then csDeassert w.hw (advance s n) else advance s n) := by
  have hio : (csDeassert w.hw (advance s n)).io.xfers = n := by
    rw [csDeassert]
    split <;> rfl
  cases xferEnd with
  | true =>
      refine ⟨by simpa [hio] using hn, Int.le_refl 0, fun _ => ⟨?_, ?_⟩, fun h => absurd rfl h⟩
      · intro k hle hlt
        rw [if_pos rfl, hio] at hlt
        exact hc k hle hlt
      · exact iff_of_true (free_csDeassert w _) (.inl rfl)
  | false =>
      refine ⟨hn, Int.le_refl 0, fun _ => ⟨hc, ?_⟩, fun h => absurd rfl h⟩
      simp [Free, Slave.selected, advance]

theorem Ends.stop (xferEnd : Bool) {n : Nat} (hn : s.io.xfers ≤ n) (hfail : w.fails n = true) :
    Ends w xferEnd s etimedout (advance s (n + 1)) where
  mono := Nat.le_succ_of_le hn
  neg := by decide
  ok h := absurd h (by decide)
  fail _ := ⟨not_clean_of_fails hn (Nat.lt_succ_self n) hfail, Iff.rfl⟩

theorem clean_advance {n : Nat} (hc : Clean w s (advance s n)) (hok : w.fails n = false) : Clean w s (advance s (n + 1)) := by
  intro k hle hlt
  cases Nat.lt_succ_iff_lt_or_eq.mp hlt with
  | inl hlt => exact hc k hle hlt
  | inr heq => rwa [heq]

theorem xferData_ends (w : Wire) (len : Nat) (dout din : Option (List UInt8)) (xferEnd : Bool) (s : Slave Count) :
    Ends w xferEnd s (xferData w.hw len dout din xferEnd s).1 (xferData w.hw len dout din xferEnd s).2.2 := by
  have hstart : Clean w s (advance s s.io.xfers) := fun k hle hlt => absurd hlt (Nat.not_lt.mpr hle)
  have hone := @clean_advance w s s.io.xfers hstart
  cases dout with
  | none =>
      cases din with
      | none => exact .deassert xferEnd (Nat.le_refl _) hstart
      | some buf =>
          cases hfirst : w.fails s.io.xfers with
          | true =>
              simp only [xferData, Wire.hw, hfirst, if_true]
              exact .stop xferEnd (Nat.le_refl _) hfirst
          | false =>
              simp only [xferData, Wire.hw, hfirst]
              exact .deassert xferEnd (Nat.le_succ _) (hone hfirst)
  | some out =>
      cases hfirst : w.fails s.io.xfers with
      | true =>
          simp only [xferData, Wire.hw, hfirst, if_true]
          exact .stop xferEnd (Nat.le_refl _) hfirst
      | false =>
          cases din with
          | none =>
              simp only [xferData, Wire.hw, hfirst]
              exact .deassert xferEnd (Nat.le_succ _) (hone hfirst)
          | some buf =>
              cases hsecond : w.fails (s.io.xfers + 1) with
              | true =>
                  simp only [xferData, Wire.hw, hfirst, hsecond, if_true]
                  exact .stop xferEnd (Nat.le_succ _) hsecond
              | false =>
                  simp only [xferData, Wire.hw, hfirst, hsecond]
                  exact .deassert xferEnd (Nat.le_succ_of_le (Nat.le_succ _)) (clean_advance (hone hfirst) hsecond)

/-- How an operation ends that finds the chip free: it is free again just when no transfer failed. -/
structure Step (w : Wire) (s : Slave Count) (ret : Int) (s' : Slave Count) : Prop where
  mono : s.io.xfers ≤ s'.io.xfers
  neg : ret ≤ 0
  ok : ret = 0 → Clean w s s'
  free : Free w s' ↔ Clean w s s'

/-- What comes behind transfers that all worked. -/
theorem Step.after {ret : Int} (hmono : s.io.xfers ≤ s'.io.xfers) (hc : Clean w s s') (h : Step w s' ret s'') :
    Step w s ret s'' := by
  refine ⟨Nat.le_trans hmono h.mono, h.neg, fun hr => hc.trans (h.ok hr), ?_⟩
  rw [h.free]
  exact ⟨hc.trans, fun hall k hle hlt => hall k (Nat.le_trans hmono hle) hlt⟩

/-- An operation behind one that succeeded. -/
theorem Step.trans {ret : Int} (h : Step w s 0 s') (h' : Free w s' → Step w s' ret s'') : Step w s ret s'' :=
  .after h.mono (h.ok rfl) (h' (h.free.mpr (h.ok rfl)))

theorem Step.refl (hs : Free w s) : Step w s 0 s where
  mono := Nat.le_refl _
  neg := Int.le_refl 0
  ok _ := .refl w rfl
  free := iff_of_true hs (.refl w rfl)

theorem spiHwInit_xfers (w : Wire) (s : Slave Count) : (spiHwInit w.hw s).2.io.xfers = s.io.xfers := by
  rw [spiHwInit]
  by_cases hr : (w.hw.hwInit (spiReset w.hw s).io).1 = 0
  · simp only [hr, ne_eq, not_true_eq_false, if_false]
    rfl
  · simp only [hr, ne_eq, not_false_eq_true, if_true]
    rfl

theorem spiHwInit_neg (w : Wire) (s : Slave Count) : (spiHwInit w.hw s).1 ≤ 0 := by
  rw [spiHwInit]
  cases hfail : w.initFails s.io.inits with
  | true => simp [Wire.hw, spiReset, hfail, etimedout]
  | false => simp [Wire.hw, spiReset, hfail]

theorem csAssert_xfers (w : Wire) (s : Slave Count) : (csAssert w.hw s).io.xfers = s.io.xfers := by
  rw [csAssert]
  split <;> rfl

/-- How a transfer ends that starts with `SPI_XFER_BEGIN` on a free chip. -/
structure Begun (w : Wire) (xferEnd : Bool) (s : Slave Count) (ret : Int) (s' : Slave Count) : Prop where
  mono : s.io.xfers ≤ s'.io.xfers
  neg : ret ≤ 0
  ok : ret = 0 → Clean w s s' ∧ (Free w s' ↔ xferEnd = true)
  fail : ret ≠ 0 → Step w s ret s'

/-- The lines are asserted, and only an end that is reached releases them. -/
theorem xferData_begun {s₁ : Slave Count} (hx : s₁.io.xfers = s.io.xfers) (len : Nat) (dout din : Option (List UInt8))
    (xferEnd : Bool) : Begun w xferEnd s (xferData w.hw len dout din xferEnd (csAssert w.hw s₁)).1
      (xferData w.hw len dout din xferEnd (csAssert w.hw s₁)).2.2 := by
  have h := xferData_ends w len dout din xferEnd (csAssert w.hw s₁)
  have hbusy := not_free_csAssert w s₁
  have hclean : ∀ s₂, Clean w (csAssert w.hw s₁) s₂ ↔ Clean w s s₂ := by
    intro s₂
    rw [Clean, Clean, csAssert_xfers, hx]
  have hmono := h.mono
  rw [csAssert_xfers, hx] at hmono
  refine ⟨hmono, h.neg, fun hok => ?_, fun hne => ?_⟩
  · obtain ⟨hc, hf⟩ := h.ok hok
    exact ⟨(hclean _).mp hc, hf.trans (or_iff_left hbusy)⟩
  · obtain ⟨hc, hf⟩ := h.fail hne
    exact ⟨hmono, h.neg, fun h0 => absurd h0 hne,
      iff_of_false (fun hfree => hbusy (hf.mp hfree)) (fun hall => hc ((hclean _).mpr hall))⟩

theorem xfer_begun (hs : Free w s) {bitlen : Nat} (hbits : bitlen % 8 = 0) (dout din : Option (List UInt8)) (xferEnd : Bool) :
    Begun w xferEnd s (w.bus.xfer bitlen dout din ⟨true, xferEnd⟩ s).1 (w.bus.xfer bitlen dout din ⟨true, xferEnd⟩ s).2.2 := by
  have hinit : ∀ init : Int × Slave Count, init.2.io.xfers = s.io.xfers → init.1 ≤ 0 → Free w init.2 →
      let r := if init.1 ≠ 0 then (init.1, din, init.2) else xferData w.hw (bitlen / 8) dout din xferEnd (csAssert w.hw init.2)
      Begun w xferEnd s r.1 r.2.2 := by
    intro init hx hneg hfree
    by_cases h0 : init.1 = 0
    · rw [if_neg (not_not.mpr h0)]
      exact xferData_begun hx ..
    · rw [if_pos h0]
      have hmono := Nat.le_of_eq hx.symm
      exact ⟨hmono, hneg, fun h => absurd h h0,
        fun _ => ⟨hmono, hneg, fun h => absurd h h0, iff_of_true hfree (.refl w hx)⟩⟩
  have hr : spiXfer w.hw bitlen dout din ⟨true, xferEnd⟩ s =
      let init := if w.hw.useDma then (0, s) else spiHwInit w.hw s
      if init.1 ≠ 0 then (init.1, din, init.2) else xferData w.hw (bitlen / 8) dout din xferEnd (csAssert w.hw init.2) := by
    rw [spiXfer, if_neg (not_not.mpr hbits)]
    rfl
  simp only [Wire.bus]
  rw [hr]
  refine hinit (if w.hw.useDma then (0, s) else spiHwInit w.hw s) ?_ ?_ ?_
  · split
    · rfl
    · exact spiHwInit_xfers w s
  · split
    · exact Int.le_refl 0
    · exact spiHwInit_neg w s
  · split
    · exact hs
    · exact free_spiHwInit hs

/-- A transfer without `SPI_XFER_BEGIN`. -/
theorem xfer_cont {bitlen : Nat} (hbits : bitlen % 8 = 0) (dout din : Option (List UInt8)) (xferEnd : Bool) (s : Slave Count) :
    Ends w xferEnd s (w.bus.xfer bitlen dout din ⟨false, xferEnd⟩ s).1 (w.bus.xfer bitlen dout din ⟨false, xferEnd⟩ s).2.2 := by
  have h := xferData_ends w (bitlen / 8) dout din xferEnd s
  simpa [Wire.bus, spiXfer, hbits] using h

/-! ## Single commands -/

theorem u32_bits (n : Nat) : Sf.u32 (n * 8) % 8 = 0 := by
  rw [Sf.u32]
  omega

theorem readWrite_step (hs : Free w s) (cmd : List UInt8) (dout din : Option (List UInt8)) (n : Nat) :
    Step w s (spiFlashReadWrite w.bus cmd dout din n s).1 (spiFlashReadWrite w.bus cmd dout din n s).2.2 := by
  have hfirst := xfer_begun hs (u32_bits cmd.length) (some cmd) none (decide (n = 0))
  rw [spiFlashReadWrite]
  generalize w.bus.xfer (Sf.u32 (cmd.length * 8)) (some cmd) none ⟨true, decide (n = 0)⟩ s = r at *
  by_cases hr : r.1 = 0
  · rw [if_neg (not_not.mpr hr)]
    obtain ⟨hc, hf⟩ := hfirst.ok hr
    by_cases hn : n = 0
    · rw [if_neg (not_not.mpr hn)]
      exact ⟨hfirst.mono, hfirst.neg, fun _ => hc, iff_of_true (hf.mpr (decide_eq_true hn)) hc⟩
    · have hbusy : ¬ Free w r.2.2 := fun hfree => hn (of_decide_eq_true (hf.mp hfree))
      have hsecond := @xfer_cont w (Sf.u32 (n * 8)) (u32_bits n) dout din true r.2.2
      rw [if_pos hn]
      generalize w.bus.xfer (Sf.u32 (n * 8)) dout din ⟨false, true⟩ r.2.2 = t at *
      have hmono := Nat.le_trans hfirst.mono hsecond.mono
      by_cases ht : t.1 = 0
      · obtain ⟨hc', hf'⟩ := hsecond.ok ht
        exact ⟨hmono, hsecond.neg, fun _ => hc.trans hc', iff_of_true (hf'.mpr (.inl rfl)) (hc.trans hc')⟩
      · obtain ⟨hc', hf'⟩ := hsecond.fail ht
        refine ⟨hmono, hsecond.neg, fun h => absurd h ht, iff_of_false (fun h => hbusy (hf'.mp h)) fun hall => hc' ?_⟩
        exact fun k hle hlt => hall k (Nat.le_trans hfirst.mono hle) hlt
  · rw [if_pos hr]
    exact hfirst.fail hr

/-- A transfer in the middle of a command that fails. -/
theorem Ends.lost {xferEnd : Bool} {ret : Int} (h : Ends w xferEnd s ret s') (hne : ret ≠ 0) (hbusy : ¬ Free w s) :
    Step w s (-1) s' := by
  obtain ⟨hc, hf⟩ := h.fail hne
  exact ⟨h.mono, by omega, fun h0 => by omega, iff_of_false (fun hfree => hbusy (hf.mp hfree)) hc⟩

/-- The end of a poll. -/
theorem pollEnd_step (s : Slave Count) {ret : Int} (hret : ret ≤ 0) :
    Step w s ret (w.bus.xfer 0 none none ⟨false, true⟩ s).2.2 := by
  have h := @xfer_cont w 0 (by decide) none none true s
  obtain ⟨hc, hf⟩ := h.ok rfl
  exact ⟨h.mono, hret, fun _ => hc, iff_of_true (hf.mpr (.inl rfl)) hc⟩

/-- The loop of a poll, which finds the chip selected. -/
theorem pollLoop_step (bit : UInt8) (n : Nat) : ∀ s : Slave Count, ¬ Free w s →
    Step w s (pollLoop w.bus bit n s).1 (pollLoop w.bus bit n s).2 := by
  induction n with
  | zero =>
      intro s hbusy
      have h := @xfer_cont w 8 (by decide) none (some [0]) false s
      rw [pollLoop]
      generalize w.bus.xfer 8 none (some [0]) ⟨false, false⟩ s = r at *
      by_cases hr : r.1 = 0
      · obtain ⟨hc, -⟩ := h.ok hr
        rw [if_neg (not_not.mpr hr)]
        refine .after h.mono hc ?_
        dsimp only
        split
        · exact pollEnd_step r.2.2 (Int.le_refl 0)
        · exact pollEnd_step r.2.2 (show (-1 : Int) ≤ 0 by decide)
      · rw [if_pos hr]
        exact h.lost hr hbusy
  | succ n ih =>
      intro s hbusy
      have h := @xfer_cont w 8 (by decide) none (some [0]) false s
      rw [pollLoop]
      generalize w.bus.xfer 8 none (some [0]) ⟨false, false⟩ s = r at *
      by_cases hr : r.1 = 0
      · obtain ⟨hc, hf⟩ := h.ok hr
        rw [if_neg (not_not.mpr hr)]
        refine .after h.mono hc ?_
        dsimp only
        split
        · exact pollEnd_step r.2.2 (Int.le_refl 0)
        · exact ih r.2.2 fun hfree => (hf.mp hfree).elim (by decide) hbusy
      · rw [if_pos hr]
        exact h.lost hr hbusy

theorem pollBit_step (hs : Free w s) (cmd bit : UInt8) :
    Step w s (spiFlashCmdPollBit w.bus cmd bit s).1 (spiFlashCmdPollBit w.bus cmd bit s).2 := by
  have hfirst := xfer_begun hs (show 8 % 8 = 0 by decide) (some [cmd]) none false
  rw [spiFlashCmdPollBit]
  generalize w.bus.xfer 8 (some [cmd]) none ⟨true, false⟩ s = r at *
  by_cases hr : r.1 = 0
  · rw [if_neg (not_not.mpr hr)]
    obtain ⟨hc, hf⟩ := hfirst.ok hr
    exact .after hfirst.mono hc (pollLoop_step bit _ r.2.2 fun h => absurd (hf.mp h) (by decide))
  · rw [if_pos hr]
    exact hfirst.fail hr

/-! ## Commands on a range -/

/-- A result ends the operation, or what comes next is done. -/
def andThen {σ : Type} (stop : Int → Prop) [DecidablePred stop] (r : Int × σ) (next : σ → Int × σ) : Int × σ :=
  if stop r.1 then r else next r.2

theorem andThen_step {stop : Int → Prop} [DecidablePred stop] (hstop : ∀ ret ≤ 0, ¬ stop ret → ret = 0)
    {r : Int × Slave Count} {next : Slave Count → Int × Slave Count} (hr : Step w s r.1 r.2)
    (hnext : Free w r.2 → Step w r.2 (next r.2).1 (next r.2).2) : Step w s (andThen stop r next).1 (andThen stop r next).2 := by
  by_cases hp : stop r.1
  · rw [andThen, if_pos hp]
    exact hr
  · rw [andThen, if_neg hp]
    rw [hstop r.1 hr.neg hp] at hr
    exact hr.trans hnext

theorem zero_of_not_neg : ∀ ret : Int, ret ≤ 0 → ¬ ret < 0 → ret = 0 := fun _ hle hlt => by omega

theorem zero_of_not_ne : ∀ ret : Int, ret ≤ 0 → ¬ ret ≠ 0 → ret = 0 := fun _ _ hne => not_not.mp hne

theorem writeLoop_succ {σ : Type} (bus : Bus σ) (fl : Flash) (fuel page byte : Nat) (buf : List UInt8) (s : σ) :
    writeLoop bus fl (fuel + 1) page byte buf s =
      let chunk := min buf.length (fl.pageSize - byte)
      if buf = [] then (0, s)
      else andThen (· < 0) (spiFlashCmdWriteEnable bus s) fun s =>
        andThen (· < 0) (spiFlashCmdWrite bus (fl.writeOpcode :: Sf.pageAddr fl.toSpiFlash page byte) (some (buf.take chunk)) chunk s)
          fun s => andThen (· ≠ 0) (spiFlashCmdWaitReady bus s) (writeLoop bus fl fuel (page + 1) 0 (buf.drop chunk)) := rfl

theorem eraseLoop_succ {σ : Type} (bus : Bus σ) (fl : Flash) (undef eraseCmd : UInt8) (eraseSize end_ fuel offset : Nat) (s : σ) :
    eraseLoop bus fl undef eraseCmd eraseSize end_ (fuel + 1) offset s =
      if offset < end_ then
        andThen (· ≠ 0) (spiFlashCmdWriteEnable bus s) fun s =>
          andThen (· ≠ 0) (spiFlashCmdWrite bus ((eraseCmd :: spiFlashAddr fl undef offset).take (flashCmdsz fl)) none 0 s)
            fun s => andThen (· ≠ 0) (spiFlashCmdWaitReady bus s)
              (eraseLoop bus fl undef eraseCmd eraseSize end_ fuel (Sf.u32 (offset + eraseSize)))
      else (0, s) := rfl

theorem writeEnable_step (hs : Free w s) :
    Step w s (spiFlashCmdWriteEnable w.bus s).1 (spiFlashCmdWriteEnable w.bus s).2 := readWrite_step hs ..

theorem cmdWrite_step (hs : Free w s) (cmd : List UInt8) (data : Option (List UInt8)) (n : Nat) :
    Step w s (spiFlashCmdWrite w.bus cmd data n s).1 (spiFlashCmdWrite w.bus cmd data n s).2 := readWrite_step hs ..

theorem waitReady_step (hs : Free w s) :
    Step w s (spiFlashCmdWaitReady w.bus s).1 (spiFlashCmdWaitReady w.bus s).2 := pollBit_step hs ..

theorem writeLoop_step (fuel : Nat) : ∀ (page byte : Nat) (buf : List UInt8) (s : Slave Count), Free w s →
    Step w s (writeLoop w.bus fl fuel page byte buf s).1 (writeLoop w.bus fl fuel page byte buf s).2 := by
  induction fuel with
  | zero =>
      intro page byte buf s hs
      exact .refl hs
  | succ fuel ih =>
      intro page byte buf s hs
      rw [writeLoop_succ]
      dsimp only
      split
      · exact .refl hs
      refine andThen_step zero_of_not_neg (writeEnable_step hs) fun hs' => ?_
      refine andThen_step zero_of_not_neg (cmdWrite_step hs' ..) fun hs'' => ?_
      exact andThen_step zero_of_not_ne (waitReady_step hs'') (ih _ _ _ _)

theorem eraseLoop_step (undef eraseCmd : UInt8) (eraseSize end_ fuel : Nat) : ∀ (offset : Nat) (s : Slave Count), Free w s →
    Step w s (eraseLoop w.bus fl undef eraseCmd eraseSize end_ fuel offset s).1
      (eraseLoop w.bus fl undef eraseCmd eraseSize end_ fuel offset s).2 := by
  induction fuel with
  | zero =>
      intro offset s hs
      exact .refl hs
  | succ fuel ih =>
      intro offset s hs
      rw [eraseLoop_succ]
      split
      case isFalse => exact .refl hs
      refine andThen_step zero_of_not_ne (writeEnable_step hs) fun hs' => ?_
      refine andThen_step zero_of_not_ne (cmdWrite_step hs' ..) fun hs'' => ?_
      exact andThen_step zero_of_not_ne (waitReady_step hs'') (ih _ _)

/-! ## Which transfers matter -/

section
variable {f : Nat → Bool}

/-- The same surroundings with other failures. -/
def Wire.refail (w : Wire) (f : Nat → Bool) : Wire := { w with fails := f }

/-- The failures of the transfers between two states are the same. -/
def Agree (f : Nat → Bool) (w : Wire) (s s' : Slave Count) : Prop := ∀ k, s.io.xfers ≤ k → k < s'.io.xfers → f k = w.fails k

theorem Agree.left (h : Agree f w s s'') (hle : s'.io.xfers ≤ s''.io.xfers) : Agree f w s s' :=
  fun k hk hlt => h k hk (Nat.lt_of_lt_of_le hlt hle)

theorem Agree.right (h : Agree f w s s'') (hle : s.io.xfers ≤ s'.io.xfers) : Agree f w s' s'' :=
  fun k hk hlt => h k (Nat.le_trans hle hk) hlt

theorem xferEnd_xfers (xferEnd : Bool) (s : Slave Count) :
    (if xferEnd then csDeassert w.hw s else s).io.xfers = s.io.xfers := by
  rw [csDeassert]
  split
  · split <;> rfl
  · rfl

/-- What is read comes behind what is written. -/
theorem xferData_some (w : Wire) (len : Nat) (out : List UInt8) (din : Option (List UInt8)) (xferEnd : Bool) (s : Slave Count) :
    xferData w.hw len (some out) din xferEnd s =
      if w.fails s.io.xfers then (etimedout, din, advance s (s.io.xfers + 1))
      else xferData w.hw len none din xferEnd (advance s (s.io.xfers + 1)) := by
  cases hfirst : w.fails s.io.xfers with
  | true =>
      simp only [xferData, Wire.hw, hfirst]
      rfl
  | false =>
      simp only [xferData, Wire.hw, hfirst]
      rfl

/-- A transfer asks for the failures of those it makes. -/
theorem xferData_congr {len : Nat} {dout din : Option (List UInt8)} {xferEnd : Bool}
    (h : Agree f w s (xferData w.hw len dout din xferEnd s).2.2) :
    xferData (w.refail f).hw len dout din xferEnd s = xferData w.hw len dout din xferEnd s := by
  have hread : ∀ s, Agree f w s (xferData w.hw len none din xferEnd s).2.2 →
      xferData (w.refail f).hw len none din xferEnd s = xferData w.hw len none din xferEnd s := by
    intro s h
    cases din with
    | none => rfl
    | some buf =>
        have hfirst : f s.io.xfers = w.fails s.io.xfers := by
          refine h _ (Nat.le_refl _) ?_
          cases hf : w.fails s.io.xfers with
          | true => simp [xferData, Wire.hw, hf, etimedout]
          | false =>
              simp only [xferData, Wire.hw, hf]
              exact Nat.lt_of_lt_of_eq (Nat.lt_succ_self _) (xferEnd_xfers xferEnd (advance s _)).symm
        simp only [xferData, Wire.hw, Wire.refail, hfirst]
        rfl
  cases dout with
  | none => exact hread s h
  | some out =>
      have hmono := (xferData_ends w len none din xferEnd (advance s (s.io.xfers + 1))).mono
      rw [xferData_some] at h
      rw [xferData_some, xferData_some]
      have hfirst : f s.io.xfers = w.fails s.io.xfers := by
        refine h _ (Nat.le_refl _) ?_
        split
        · exact Nat.lt_succ_self _
        · exact hmono
      rw [show (w.refail f).fails s.io.xfers = w.fails s.io.xfers from hfirst]
      split at h
      · rename_i hf
        rw [if_pos hf, if_pos hf]
      · rename_i hf
        rw [if_neg hf, if_neg hf]
        exact hread _ (h.right (Nat.le_succ _))

theorem xfer_congr {bitlen : Nat} {dout din : Option (List UInt8)} {flags : Flags}
    (h : Agree f w s (w.bus.xfer bitlen dout din flags s).2.2) :
    (w.refail f).bus.xfer bitlen dout din flags s = w.bus.xfer bitlen dout din flags s := by
  have hbody : spiXfer (w.refail f).hw bitlen dout din flags s = spiXfer w.hw bitlen dout din flags s := by
    replace h : Agree f w s (spiXfer w.hw bitlen dout din flags s).2.2 := h
    rw [spiXfer] at h ⊢
    rw [spiXfer]
    by_cases hbits : bitlen % 8 = 0
    · rw [if_neg (not_not.mpr hbits)] at h
      rw [if_neg (not_not.mpr hbits), if_neg (not_not.mpr hbits)]
      cases hb : flags.xferBegin with
      | false =>
          rw [hb, if_neg Bool.false_ne_true] at h
          rw [if_neg Bool.false_ne_true, if_neg Bool.false_ne_true]
          exact xferData_congr h
      | true =>
          rw [hb, if_pos rfl] at h
          rw [if_pos rfl, if_pos rfl]
          have hx : (if w.hw.useDma then (0, s) else spiHwInit w.hw s).2.io.xfers = s.io.xfers := by
            split
            · rfl
            · exact spiHwInit_xfers w s
          have hsame : (if (w.refail f).hw.useDma then (0, s) else spiHwInit (w.refail f).hw s) =
              if w.hw.useDma then (0, s) else spiHwInit w.hw s := rfl
          rw [hsame]
          generalize (if w.hw.useDma then (0, s) else spiHwInit w.hw s) = init at *
          by_cases hinit : init.1 = 0
          · rw [if_neg (not_not.mpr hinit)] at h
            simp only [hinit, ne_eq, not_true_eq_false, if_false]
            refine @xferData_congr w (csAssert w.hw init.2) f _ _ _ _ fun k hle hlt => h k ?_ hlt
            rwa [csAssert_xfers, hx] at hle
          · simp only [hinit, ne_eq, not_false_eq_true, if_true]
    · rw [if_pos hbits, if_pos hbits]
  simp only [Wire.bus, hbody]

theorem readWrite_congr (hs : Free w s) {cmd : List UInt8} {dout din : Option (List UInt8)} {n : Nat}
    (h : Agree f w s (spiFlashReadWrite w.bus cmd dout din n s).2.2) :
    spiFlashReadWrite (w.refail f).bus cmd dout din n s = spiFlashReadWrite w.bus cmd dout din n s := by
  have hmono := (xfer_begun hs (u32_bits cmd.length) (some cmd) none (decide (n = 0))).mono
  have hcongr := @xfer_congr w s f (Sf.u32 (cmd.length * 8)) (some cmd) none ⟨true, decide (n = 0)⟩
  rw [spiFlashReadWrite] at h ⊢
  rw [spiFlashReadWrite]
  generalize w.bus.xfer (Sf.u32 (cmd.length * 8)) (some cmd) none ⟨true, decide (n = 0)⟩ s = r at *
  by_cases hr : r.1 = 0
  · rw [if_neg (not_not.mpr hr)] at h
    by_cases hn : n = 0
    · rw [if_neg (not_not.mpr hn)] at h
      rw [hcongr h, if_neg (not_not.mpr hn), if_neg (not_not.mpr hn)]
    · rw [if_pos hn] at h
      have hsecond := (@xfer_cont w (Sf.u32 (n * 8)) (u32_bits n) dout din true r.2.2).mono
      rw [hcongr (h.left hsecond), if_neg (not_not.mpr hr), if_neg (not_not.mpr hr), if_pos hn, if_pos hn,
        xfer_congr (h.right hmono)]
  · rw [if_pos hr] at h
    rw [hcongr h, if_pos hr, if_pos hr]

theorem pollEnd_congr : (w.refail f).bus.xfer 0 none none ⟨false, true⟩ s = w.bus.xfer 0 none none ⟨false, true⟩ s := rfl

theorem pollLoop_congr (bit : UInt8) (n : Nat) : ∀ s : Slave Count, ¬ Free w s → Agree f w s (pollLoop w.bus bit n s).2 →
    pollLoop (w.refail f).bus bit n s = pollLoop w.bus bit n s := by
  induction n with
  | zero =>
      intro s hbusy h
      have hcongr := @xfer_congr w s f 8 none (some [0]) ⟨false, false⟩
      rw [pollLoop] at h ⊢
      rw [pollLoop]
      generalize w.bus.xfer 8 none (some [0]) ⟨false, false⟩ s = r at *
      have hend := (@pollEnd_step w r.2.2 0 (Int.le_refl 0)).mono
      by_cases hr : r.1 = 0
      · rw [if_neg (not_not.mpr hr)] at h
        have hfirst : Agree f w s r.2.2 := by
          dsimp only at h
          split at h
          · exact h.left hend
          · exact h.left hend
        rw [hcongr hfirst]
        rfl
      · rw [if_pos hr] at h
        rw [hcongr h, if_pos hr, if_pos hr]
  | succ n ih =>
      intro s hbusy h
      have hcongr := @xfer_congr w s f 8 none (some [0]) ⟨false, false⟩
      have hcont := @xfer_cont w 8 (by decide) none (some [0]) false s
      rw [pollLoop] at h ⊢
      rw [pollLoop]
      generalize w.bus.xfer 8 none (some [0]) ⟨false, false⟩ s = r at *
      have hend := (@pollEnd_step w r.2.2 0 (Int.le_refl 0)).mono
      by_cases hr : r.1 = 0
      · have hbusy' : ¬ Free w r.2.2 := fun hfree => ((hcont.ok hr).2.mp hfree).elim (by decide) hbusy
        rw [if_neg (not_not.mpr hr)] at h
        dsimp only at h
        split at h
        · rename_i hbit
          rw [hcongr (h.left hend), if_neg (not_not.mpr hr), if_neg (not_not.mpr hr)]
          dsimp only
          rw [if_pos hbit, if_pos hbit, pollEnd_congr]
        · rename_i hbit
          rw [hcongr (h.left (pollLoop_step bit n r.2.2 hbusy').mono), if_neg (not_not.mpr hr), if_neg (not_not.mpr hr)]
          dsimp only
          rw [if_neg hbit, if_neg hbit, ih r.2.2 hbusy' (h.right hcont.mono)]
      · rw [if_pos hr] at h
        rw [hcongr h, if_pos hr, if_pos hr]

theorem pollBit_congr (hs : Free w s) {cmd bit : UInt8} (h : Agree f w s (spiFlashCmdPollBit w.bus cmd bit s).2) :
    spiFlashCmdPollBit (w.refail f).bus cmd bit s = spiFlashCmdPollBit w.bus cmd bit s := by
  have hbegun := xfer_begun hs (show 8 % 8 = 0 by decide) (some [cmd]) none false
  have hcongr := @xfer_congr w s f 8 (some [cmd]) none ⟨true, false⟩
  rw [spiFlashCmdPollBit] at h ⊢
  rw [spiFlashCmdPollBit]
  generalize w.bus.xfer 8 (some [cmd]) none ⟨true, false⟩ s = r at *
  by_cases hr : r.1 = 0
  · have hbusy : ¬ Free w r.2.2 := fun hfree => absurd ((hbegun.ok hr).2.mp hfree) (by decide)
    rw [if_neg (not_not.mpr hr)] at h
    rw [hcongr (h.left (pollLoop_step bit _ r.2.2 hbusy).mono), if_neg (not_not.mpr hr), if_neg (not_not.mpr hr)]
    exact pollLoop_congr bit _ r.2.2 hbusy (h.right hbegun.mono)
  · rw [if_pos hr] at h
    rw [hcongr h, if_pos hr, if_pos hr]

theorem cmdWrite_congr (hs : Free w s) {cmd : List UInt8} {data : Option (List UInt8)} {n : Nat}
    (h : Agree f w s (spiFlashCmdWrite w.bus cmd data n s).2) :
    spiFlashCmdWrite (w.refail f).bus cmd data n s = spiFlashCmdWrite w.bus cmd data n s := by
  rw [spiFlashCmdWrite, spiFlashCmdWrite, readWrite_congr hs h]

theorem writeEnable_congr (hs : Free w s) (h : Agree f w s (spiFlashCmdWriteEnable w.bus s).2) :
    spiFlashCmdWriteEnable (w.refail f).bus s = spiFlashCmdWriteEnable w.bus s := by
  have hcongr := @readWrite_congr w s f hs [0x06] none none 0 h
  exact congrArg (fun r : Int × List UInt8 × Slave Count => (r.1, r.2.2)) hcongr

theorem waitReady_congr (hs : Free w s) (h : Agree f w s (spiFlashCmdWaitReady w.bus s).2) :
    spiFlashCmdWaitReady (w.refail f).bus s = spiFlashCmdWaitReady w.bus s := pollBit_congr hs h

/-- Both parts ask for the failures of the transfers that they make. -/
theorem andThen_congr {stop : Int → Prop} [DecidablePred stop] (hstop : ∀ ret ≤ 0, ¬ stop ret → ret = 0)
    {r r' : Int × Slave Count} {next next' : Slave Count → Int × Slave Count} (hr : Step w s r.1 r.2)
    (hcongr : Agree f w s r.2 → r' = r) (hnext : Free w r.2 → Step w r.2 (next r.2).1 (next r.2).2)
    (hnext' : Free w r.2 → Agree f w r.2 (next r.2).2 → next' r.2 = next r.2) (h : Agree f w s (andThen stop r next).2) :
    andThen stop r' next' = andThen stop r next := by
  by_cases hp : stop r.1
  · rw [andThen, if_pos hp] at h
    rw [hcongr h, andThen, andThen, if_pos hp, if_pos hp]
  · have hmono := hr.mono
    rw [andThen, if_neg hp] at h
    rw [hstop r.1 hr.neg hp] at hr
    have hfree := hr.free.mpr (hr.ok rfl)
    rw [hcongr (h.left (hnext hfree).mono), andThen, andThen, if_neg hp, if_neg hp, hnext' hfree (h.right hmono)]

theorem writeLoop_congr (fuel : Nat) : ∀ (page byte : Nat) (buf : List UInt8) (s : Slave Count), Free w s →
    Agree f w s (writeLoop w.bus fl fuel page byte buf s).2 →
    writeLoop (w.refail f).bus fl fuel page byte buf s = writeLoop w.bus fl fuel page byte buf s := by
  induction fuel with
  | zero =>
      intro page byte buf s hs h
      rfl
  | succ fuel ih =>
      intro page byte buf s hs h
      rw [writeLoop_succ] at h ⊢
      rw [writeLoop_succ]
      dsimp only at h ⊢
      by_cases hbuf : buf = []
      · rw [if_pos hbuf, if_pos hbuf]
      rw [if_neg hbuf] at h
      rw [if_neg hbuf, if_neg hbuf]
      generalize min buf.length (fl.pageSize - byte) = chunk at *
      have hready (s : Slave Count) (hs : Free w s) := @andThen_step w s (· ≠ 0) _ zero_of_not_ne _
        (writeLoop w.bus fl fuel (page + 1) 0 (buf.drop chunk)) (waitReady_step hs) (writeLoop_step fuel _ _ _ _)
      refine andThen_congr zero_of_not_neg (writeEnable_step hs) (writeEnable_congr hs)
        (fun hs => andThen_step zero_of_not_neg (cmdWrite_step hs ..) (hready _)) (fun hs h => ?_) h
      refine andThen_congr zero_of_not_neg (cmdWrite_step hs ..) (cmdWrite_congr hs) (hready _) (fun hs h => ?_) h
      exact andThen_congr zero_of_not_ne (waitReady_step hs) (waitReady_congr hs) (writeLoop_step fuel _ _ _ _) (ih _ _ _ _) h

theorem eraseLoop_congr (undef eraseCmd : UInt8) (eraseSize end_ fuel : Nat) : ∀ (offset : Nat) (s : Slave Count), Free w s →
    Agree f w s (eraseLoop w.bus fl undef eraseCmd eraseSize end_ fuel offset s).2 →
    eraseLoop (w.refail f).bus fl undef eraseCmd eraseSize end_ fuel offset s =
      eraseLoop w.bus fl undef eraseCmd eraseSize end_ fuel offset s := by
  induction fuel with
  | zero =>
      intro offset s hs h
      rfl
  | succ fuel ih =>
      intro offset s hs h
      rw [eraseLoop_succ] at h ⊢
      rw [eraseLoop_succ]
      by_cases hoff : offset < end_
      case neg => rw [if_neg hoff, if_neg hoff]
      rw [if_pos hoff] at h
      rw [if_pos hoff, if_pos hoff]
      have hready (s : Slave Count) (hs : Free w s) := @andThen_step w s (· ≠ 0) _ zero_of_not_ne _
        (eraseLoop w.bus fl undef eraseCmd eraseSize end_ fuel (Sf.u32 (offset + eraseSize))) (waitReady_step hs)
        (eraseLoop_step undef eraseCmd eraseSize end_ fuel _ _)
      refine andThen_congr zero_of_not_ne (writeEnable_step hs) (writeEnable_congr hs)
        (fun hs => andThen_step zero_of_not_ne (cmdWrite_step hs ..) (hready _)) (fun hs h => ?_) h
      refine andThen_congr zero_of_not_ne (cmdWrite_step hs ..) (cmdWrite_congr hs) (hready _) (fun hs h => ?_) h
      exact andThen_congr zero_of_not_ne (waitReady_step hs) (waitReady_congr hs)
        (eraseLoop_step undef eraseCmd eraseSize end_ fuel _ _) (ih _ _) h

end

/-! ## Whole operations -/

theorem free_releaseBus (w : Wire) (s : Slave Count) :
    Free w (w.bus.releaseBus s) ↔ Free w s ∨ (w.nandCs = false ∧ w.resetDropsCs = true) := free_spiReset w s

/-- A step between taking the bus and giving it back. -/
theorem Step.release {ret : Int} (hx : s'.io.xfers = s.io.xfers) (h : Step w s' ret s'') :
    Free w (w.bus.releaseBus s'') ↔ Clean w s (w.bus.releaseBus s'') ∨ (w.nandCs = false ∧ w.resetDropsCs = true) := by
  have hc : Clean w s (w.bus.releaseBus s'') ↔ Clean w s' s'' := by
    rw [Clean, Clean, hx]
    rfl
  rw [free_releaseBus, h.free, hc]

namespace FlashOp

/-- The lines behind an operation, by the transfers that it made. -/
theorem free_run (hs : Free w s) (op : FlashOp) :
    Free w (op.run w.bus fl s).2 ↔
      Clean w s (op.run w.bus fl s).2 ∨ (op.releases = true ∧ w.nandCs = false ∧ w.resetDropsCs = true) := by
  have hplain : ∀ {ret : Int} {s' : Slave Count}, Step w s ret s' →
      (Free w s' ↔ Clean w s s' ∨ (false = true ∧ w.nandCs = false ∧ w.resetDropsCs = true)) := by
    intro ret s' h
    rw [h.free]
    exact (or_iff_left fun h => absurd h.1 (by decide)).symm
  have hclaim : Free w (w.bus.claimBus s).2 := free_spiHwInit hs
  have hx : (w.bus.claimBus s).2.io.xfers = s.io.xfers := spiHwInit_xfers w s
  have hidle : ∀ {s' : Slave Count} {p : Prop}, Free w s' → s'.io.xfers = s.io.xfers → (Free w s' ↔ Clean w s s' ∨ p) :=
    fun hfree hx => iff_of_true hfree (.inl (.refl w hx))
  cases op with
  | cmdRead cmd data len => exact hplain (readWrite_step hs cmd none data len)
  | cmdWrite cmd data len => exact hplain (cmdWrite_step hs cmd data len)
  | pollBit cmd bit => exact hplain (pollBit_step hs cmd bit)
  | writeMulti offset buf =>
      rw [run, spiFlashCmdWriteMulti, releases]
      generalize w.bus.claimBus s = claim at *
      split
      · exact hidle hclaim hx
      · have hloop := @writeLoop_step w fl buf.length (offset / fl.pageSize) (offset % fl.pageSize) buf claim.2 hclaim
        rw [eq_self_iff_true, true_and]
        exact hloop.release hx
  | readFast undef offset len data =>
      rw [run, spiFlashCmdReadFast, spiFlashReadCommon, releases]
      generalize w.bus.claimBus s = claim at *
      have hread := readWrite_step hclaim
        ((fl.readOpcode :: spiFlashAddr fl undef offset ++ [0]).take (flashCmdsz fl + fastReadDummyByte)) none (some data) len
      rw [eq_self_iff_true, true_and]
      exact hread.release hx
  | erase undef cmd offset len =>
      rw [run, spiFlashCmdErase, spiFlashCmdEraseBlockOrSector, releases]
      generalize w.bus.claimBus s = claim at *
      split
      · exact hidle hs rfl
      dsimp only
      split
      · exact hidle hclaim hx
      · have hloop := @eraseLoop_step w fl undef cmd fl.sectorSize (Sf.u32 (offset + len)) (len + 1) offset claim.2 hclaim
        rw [eq_self_iff_true, true_and]
        exact hloop.release hx

/-- An operation asks for the failures of the transfers that it makes. -/
theorem run_congr {f : Nat → Bool} (hs : Free w s) (op : FlashOp) (h : Agree f w s (op.run w.bus fl s).2) :
    op.run (w.refail f).bus fl s = op.run w.bus fl s := by
  have hclaim : Free w (w.bus.claimBus s).2 := free_spiHwInit hs
  have hx : (w.bus.claimBus s).2.io.xfers = s.io.xfers := spiHwInit_xfers w s
  have hsame : (w.refail f).bus.claimBus s = w.bus.claimBus s := rfl
  have hrelease : ∀ {s' : Slave Count}, Agree f w s (w.bus.releaseBus s') → Agree f w (w.bus.claimBus s).2 s' := by
    intro s' h k hle hlt
    exact h k (hx ▸ hle) hlt
  cases op with
  | cmdRead cmd data len =>
      exact congrArg (fun r : Int × List UInt8 × Slave Count => (r.1, r.2.2)) (readWrite_congr hs h)
  | cmdWrite cmd data len => exact cmdWrite_congr hs h
  | pollBit cmd bit => exact pollBit_congr hs h
  | writeMulti offset buf =>
      rw [run, spiFlashCmdWriteMulti] at h
      rw [run, run, spiFlashCmdWriteMulti, spiFlashCmdWriteMulti, hsame]
      split at h
      · rename_i hfail
        rw [if_pos hfail, if_pos hfail]
      · rename_i hfail
        rw [if_neg hfail, if_neg hfail, writeLoop_congr _ _ _ _ _ hclaim (hrelease h)]
        rfl
  | readFast undef offset len data =>
      have hread := readWrite_congr hclaim (hrelease h)
      exact congrArg (fun r : Int × List UInt8 × Slave Count => (r.1, w.bus.releaseBus r.2.2)) hread
  | erase undef cmd offset len =>
      rw [run, spiFlashCmdErase, spiFlashCmdEraseBlockOrSector] at h
      rw [run, run, spiFlashCmdErase, spiFlashCmdErase, spiFlashCmdEraseBlockOrSector, spiFlashCmdEraseBlockOrSector, hsame]
      split at h
      · rename_i halign
        rw [if_pos halign, if_pos halign]
      rename_i halign
      rw [if_neg halign, if_neg halign]
      dsimp only at h ⊢
      split at h
      · rename_i hfail
        rw [if_pos hfail, if_pos hfail]
      · rename_i hfail
        rw [if_neg hfail, if_neg hfail, eraseLoop_congr undef cmd _ _ _ _ _ hclaim (hrelease h)]
        rfl

/-- An operation that loses no transfer is the one that all goes well for. -/
theorem clean_run (hs : Free w s) (op : FlashOp) : Clean w s (op.run w.bus fl s).2 ↔ Undisturbed w fl op s := by
  constructor
  · intro hc
    have hrun : op.run w.quiet.bus fl s = op.run w.bus fl s :=
      run_congr hs op fun k hle hlt => (hc k hle hlt).symm
    rw [Undisturbed, hrun]
    exact hc
  · intro hu
    have hrun : op.run w.bus fl s = op.run w.quiet.bus fl s :=
      @run_congr w.quiet fl s w.fails hs op fun k hle hlt => hu k hle hlt
    rw [hrun]
    exact hu

end FlashOp

/-- Behind an operation the chip is free when no transfer fails. Else the reset of the controller must do it, where the
operation comes to it and the controller makes the chip select. -/
theorem chip_select_released_iff (op : FlashOp) (hs : Free w s) :
    Free w (op.run w.bus fl s).2 ↔
      Undisturbed w fl op s ∨ (op.releases = true ∧ w.nandCs = false ∧ w.resetDropsCs = true) := by
  rw [op.free_run hs, op.clean_run hs]

/-- Surroundings where the second transfer fails. -/
def lossy : Wire where
  useDma := true
  nandCs := false
  resetDropsCs := false
  initFails _ := false
  fails k := k == 1
  bytes _ buf := buf
  patience _ := 0

def anyFlash : Flash := ⟨⟨256, 65536, 16777216, 3⟩, 0x0b, 0x02⟩

/-- The controller behind `n` transfers. -/
def idleAfter (n : Nat) : Slave Count := ⟨⟨0, n⟩, false, false, false⟩

def readId : FlashOp := .cmdRead [0x9f] (some [0, 0, 0]) 3

theorem free_idleAfter (n : Nat) : Free lossy (idleAfter n) := rfl

/-- Transfers 2 and 3 come through, and the chip is free. Had it been 0 and 1, it would stay selected. -/
theorem chip_select_released_sample :
    Free lossy (readId.run lossy.bus anyFlash (idleAfter 2)).2 ∧ ¬ Free lossy (readId.run lossy.bus anyFlash (idleAfter 0)).2 := by
  constructor
  · refine (chip_select_released_iff readId (free_idleAfter 2)).mpr (.inl fun k hle _ => ?_)
    have hk : 2 ≤ k := hle
    exact beq_false_of_ne (by omega)
  · rw [chip_select_released_iff readId (free_idleAfter 0)]
    rintro (h | ⟨h, -⟩)
    · exact absurd (h 1 (by decide) (by decide)) (by decide)
    · cases h

/-- The id of a chip is asked for, and the answer fails. -/
theorem chip_select_kept :
    ¬ ∀ (w : Wire) (fl : Flash) (op : FlashOp) (s : Slave Count), Free w s → Free w (op.run w.bus fl s).2 := by
  intro h
  have hfree : (readId.run lossy.bus anyFlash (idleAfter 0)).2.selected lossy.hw = false :=
    h lossy anyFlash readId (idleAfter 0) (free_idleAfter 0)
  exact absurd hfree (by decide)

end Uboot.Spi
