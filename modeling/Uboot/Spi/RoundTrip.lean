import Uboot.Spi.Chip

/-!
# What is programmed is read back
-/

namespace Uboot.Spi

open Lib
open Sf (u32 SpiFlash pageAddr addrOf program Erased)

variable {width : Nat} {wd : World} {fl : Flash} {c : Chip}

/-! ## Transfers that succeed -/

theorem Chip.xfer_ret (bitlen : Nat) (dout din : Option (List UInt8)) (flags : Flags) (c : Chip) :
    (c.xfer width wd bitlen dout din flags).1 = 0 ∨ (c.xfer width wd bitlen dout din flags).1 = -1 := by
  rw [Chip.xfer]
  split
  · exact .inr rfl
  · exact .inl rfl

theorem Chip.fault_of_ok {bitlen : Nat} {dout din : Option (List UInt8)} {flags : Flags}
    (h : (c.xfer width wd bitlen dout din flags).1 = 0) : c.fault wd dout din = none := by
  rw [Chip.xfer] at h
  split at h
  · cases h
  · assumption

/-- A command that is sent to a chip that is not selected. -/
theorem Chip.xfer_cmd (hs : c.selected = false) {cmd : List UInt8} (hlen : cmd.length < 2 ^ 29) {last : Bool}
    (hok : (c.xfer width wd (u32 (cmd.length * 8)) (some cmd) none ⟨true, last⟩).1 = 0) :
    c.xfer width wd (u32 (cmd.length * 8)) (some cmd) none ⟨true, last⟩ =
      let c' := { c with selected := true, shifted := cmd, given := 0, calls := c.calls + 1 }
      (0, [], if last then c'.release width wd else c') := by
  have hn : u32 (cmd.length * 8) / 8 = cmd.length := by rw [u32]; omega
  simp [Chip.xfer, Chip.fault_of_ok hok, hn, Chip.select, hs, Chip.take]

/-- A command without data. -/
theorem spiFlashReadWrite_alone (hs : c.selected = false) {cmd : List UInt8} (hlen : cmd.length < 2 ^ 29)
    {dout din : Option (List UInt8)} (hok : (spiFlashReadWrite (Chip.bus width wd) cmd dout din 0 c).1 = 0) :
    (spiFlashReadWrite (Chip.bus width wd) cmd dout din 0 c).2.2 =
      Chip.release width wd { c with selected := true, shifted := cmd, given := 0, calls := c.calls + 1 } := by
  have hx := Chip.xfer_cmd hs hlen (spiFlashReadWrite_first hok)
  rw [spiFlashReadWrite_eq hx]
  simp

/-- A command and bytes after it. -/
theorem spiFlashReadWrite_out (hs : c.selected = false) {cmd data : List UInt8} (hlen : cmd.length < 2 ^ 29)
    (hd : data.length < 2 ^ 29) (hpos : data.length ≠ 0)
    (hok : (spiFlashReadWrite (Chip.bus width wd) cmd (some data) none data.length c).1 = 0) :
    (spiFlashReadWrite (Chip.bus width wd) cmd (some data) none data.length c).2.2 =
      Chip.release width wd { c with selected := true, shifted := cmd ++ data, given := 0, calls := c.calls + 2 } := by
  have hm : u32 (data.length * 8) / 8 = data.length := by rw [u32]; omega
  have hx := Chip.xfer_cmd hs hlen (spiFlashReadWrite_first hok)
  rw [spiFlashReadWrite_eq hx, if_pos hpos] at hok ⊢
  simp only [hpos, decide_false, Bool.false_eq_true, if_false] at hok ⊢
  have hf := Chip.fault_of_ok hok
  simp [Chip.xfer, hf, hm, Chip.take]

/-- A command and bytes back: as many as the length in bits says. -/
theorem spiFlashReadWrite_in (hs : c.selected = false) {cmd buf : List UInt8} {n : Nat} (hlen : cmd.length < 2 ^ 29)
    (hpos : n ≠ 0) (hok : (spiFlashReadWrite (Chip.bus width wd) cmd none (some buf) n c).1 = 0) :
    (spiFlashReadWrite (Chip.bus width wd) cmd none (some buf) n c).2.1 =
      (Chip.give width (n % 2 ^ 29) { c with selected := true, shifted := cmd, given := 0, calls := c.calls + 2 }).1 ++
        buf.drop (n % 2 ^ 29) := by
  have hm : u32 (n * 8) / 8 = n % 2 ^ 29 := by rw [u32]; omega
  have hx := Chip.xfer_cmd hs hlen (spiFlashReadWrite_first hok)
  rw [spiFlashReadWrite_eq hx, if_pos hpos] at hok ⊢
  simp only [hpos, decide_false, Bool.false_eq_true, if_false] at hok ⊢
  have hf := Chip.fault_of_ok hok
  simp [Chip.xfer, hf, hm]

/-- Writes get enabled. -/
theorem spiFlashCmdWriteEnable_ok (hs : c.selected = false) (hb : c.busy = 0)
    (hok : (spiFlashCmdWriteEnable (Chip.bus width wd) c).1 = 0) :
    (spiFlashCmdWriteEnable (Chip.bus width wd) c).2 =
      { c with selected := false, shifted := [], given := 0, writeEnabled := true, calls := c.calls + 1 } := by
  simp only [spiFlashCmdWriteEnable, spiFlashCmd, spiFlashCmdRead] at hok ⊢
  rw [spiFlashReadWrite_alone hs (by decide) hok]
  simp [Chip.release, hb]

/-- The next byte of the status. -/
theorem Chip.xfer_status (hsh : c.shifted = [0x05])
    (hok : (c.xfer width wd 8 none (some [0]) ⟨false, false⟩).1 = 0) :
    c.xfer width wd 8 none (some [0]) ⟨false, false⟩ =
      (0, [if c.busy = 0 then 0 else 1],
        { c with busy := c.busy - 1, given := c.given + 1, calls := c.calls + 1 }) := by
  simp [Chip.xfer, Chip.fault_of_ok hok, Chip.give, Chip.giveByte, hsh]

/-- The end of a poll. -/
theorem Chip.xfer_end (hsh : c.shifted = [0x05]) :
    c.xfer width wd 0 none none ⟨false, true⟩ =
      (0, [], { c with selected := false, shifted := [], given := 0, calls := c.calls + 1 }) := by
  simp [Chip.xfer, Chip.fault, Chip.release, hsh]

/-- A poll that finds the chip ready has waited until it is. -/
theorem pollLoop_ok (n : Nat) : ∀ {c : Chip}, c.shifted = [0x05] →
    (pollLoop (Chip.bus width wd) 0x01 n c).1 = 0 →
    ∃ k, (pollLoop (Chip.bus width wd) 0x01 n c).2 =
      { c with selected := false, shifted := [], given := 0, busy := 0, calls := k } := by
  induction n with
  | zero =>
      intro c hsh hok
      rw [pollLoop, Chip.bus_xfer] at hok ⊢
      by_cases hx : (c.xfer width wd 8 none (some [0]) ⟨false, false⟩).1 = 0
      · rw [Chip.xfer_status hsh hx] at hok ⊢
        by_cases hb : c.busy = 0
        · simp [hb, Chip.xfer_end, hsh]
        · simp [hb] at hok
      · simp [hx] at hok
  | succ n ih =>
      intro c hsh hok
      rw [pollLoop, Chip.bus_xfer] at hok ⊢
      by_cases hx : (c.xfer width wd 8 none (some [0]) ⟨false, false⟩).1 = 0
      · rw [Chip.xfer_status hsh hx] at hok ⊢
        by_cases hb : c.busy = 0
        · simp [hb, Chip.xfer_end, hsh]
        · simp only [hb, if_false] at hok ⊢
          simp at hok ⊢
          obtain ⟨k, hk⟩ := ih (by simpa using hsh) hok
          exact ⟨k, by rw [hk]⟩
      · simp [hx] at hok

/-- A wait that succeeds. -/
theorem spiFlashCmdWaitReady_ok (hs : c.selected = false) (hok : (spiFlashCmdWaitReady (Chip.bus width wd) c).1 = 0) :
    ∃ k, (spiFlashCmdWaitReady (Chip.bus width wd) c).2 =
      { c with selected := false, shifted := [], given := 0, busy := 0, calls := k } := by
  rw [spiFlashCmdWaitReady, spiFlashCmdPollBit, Chip.bus_xfer] at hok ⊢
  by_cases hx : (c.xfer width wd 8 (some [0x05]) none ⟨true, false⟩).1 = 0
  · have hfirst := @Chip.xfer_cmd width wd c hs [0x05] (by decide) false hx
    rw [show u32 ([(0x05 : UInt8)].length * 8) = 8 by rfl] at hfirst
    rw [hfirst] at hok ⊢
    simp at hok ⊢
    obtain ⟨k, hk⟩ := pollLoop_ok _ (by rfl) hok
    exact ⟨k, by rw [hk]⟩
  · simp [hx] at hok

/-! ## Addresses -/

/-- What `spi_flash_probe` leaves of a part. -/
structure Flash.Probed (fl : Flash) : Prop where
  read : fl.readOpcode = 0x0b ∨ fl.readOpcode = 0x0c
  write : fl.writeOpcode = 0x02 ∨ fl.writeOpcode = 0x12
  addr : fl.addrWidth = 3 ∧ fl.size ≤ 2 ^ 24 ∨ fl.addrWidth = 4

theorem probed (en4b : Bool) (part : SpiFlash) : (spiFlashProbe en4b part).Probed := by
  rw [spiFlashProbe]
  split
  · exact ⟨by cases en4b <;> simp, by cases en4b <;> simp, .inr rfl⟩
  · exact ⟨.inl rfl, .inl rfl, .inl ⟨rfl, Nat.not_lt.mp ‹_›⟩⟩

theorem spiFlashProbe_size (en4b : Bool) (part : SpiFlash) : (spiFlashProbe en4b part).size = part.size := by
  rw [spiFlashProbe]
  split <;> rfl

theorem spiFlashProbe_pageSize (en4b : Bool) (part : SpiFlash) : (spiFlashProbe en4b part).pageSize = part.pageSize := by
  rw [spiFlashProbe]
  split <;> rfl

theorem pageAddr_length (h : fl.Probed) (page byte : Nat) : (pageAddr fl.toSpiFlash page byte).length = fl.addrWidth := by
  obtain ⟨h, -⟩ | h := h.addr <;> simp [pageAddr, h]

/-- The writer's address, from the page and the byte in it. -/
theorem addrOf_pageAddr (h : fl.Probed) (hsize : fl.size < 2 ^ 32) {page byte : Nat} (hb : byte < 256)
    (ha : page * 256 + byte < fl.size) (op : UInt8) (data : List UInt8) :
    addrOf fl.addrWidth (op :: (pageAddr fl.toSpiFlash page byte ++ data)) = page * 256 + byte := by
  cases h.addr with
  | inl h =>
      simp [addrOf, pageAddr, h.1, Nat.shiftRight_eq_div_pow]
      omega
  | inr h =>
      simp [addrOf, pageAddr, h, Nat.shiftRight_eq_div_pow]
      omega

/-- The reader's address, from a shifted offset, with the dummy byte after it. -/
theorem readCmd (h : fl.Probed) (undef : UInt8) (a : Nat) :
    ∃ dummy, (fl.readOpcode :: spiFlashAddr fl undef a ++ [0]).take (flashCmdsz fl + fastReadDummyByte) =
      fl.readOpcode :: (Sf.spiFlashAddr fl.toSpiFlash a ++ [dummy]) := by
  cases h.addr with
  | inl h =>
      refine ⟨undef, ?_⟩
      simp [spiFlashAddr, flashCmdsz, fastReadDummyByte, Sf.spiFlashAddr, h.1, List.range_succ]
  | inr h =>
      refine ⟨0, ?_⟩
      simp [spiFlashAddr, flashCmdsz, fastReadDummyByte, Sf.spiFlashAddr, h, List.range_succ]

theorem addrOf_spiFlashAddr (h : fl.Probed) (hsize : fl.size < 2 ^ 32) {a : Nat} (ha : a < fl.size) (op dummy : UInt8) :
    addrOf fl.addrWidth (op :: (Sf.spiFlashAddr fl.toSpiFlash a ++ [dummy])) = a := by
  cases h.addr with
  | inl h =>
      simp [addrOf, Sf.spiFlashAddr, h.1, List.range_succ, Nat.shiftRight_eq_div_pow]
      omega
  | inr h =>
      simp [addrOf, Sf.spiFlashAddr, h, List.range_succ, Nat.shiftRight_eq_div_pow]
      omega

/-! ## Programming -/

/-- The end of a page program. -/
theorem Chip.release_program {op : UInt8} {rest : List UInt8} (hop : op = 0x02 ∨ op = 0x12) (hlen : width ≤ rest.length)
    (hsh : c.shifted = op :: rest) (hw : c.writeEnabled = true) (hb : c.busy = 0) :
    c.release width wd =
      { c with
        mem := program (addrOf width (op :: rest) / 256) (rest.drop width) (addrOf width (op :: rest) % 256) c.mem
        selected := false
        shifted := []
        given := 0
        writeEnabled := false
        busy := wd.programTime c.calls
        programs := c.programs ++ [(addrOf width (op :: rest), rest.drop width)] } := by
  have hne : ∀ h : op = 0x06, False := by
    rintro rfl
    simp at hop
  rw [Chip.release, hsh]
  split
  · rename_i heq
    exact (hne (List.cons.inj heq).1).elim
  · rename_i op' rest' _ heq
    obtain ⟨rfl, rfl⟩ := List.cons.inj heq
    rw [if_pos ⟨hop, hlen, hw, hb⟩]
  · rename_i heq
    cases heq

/-- One page. -/
theorem spiFlashCmdWrite_page (h : fl.Probed) (hsize : fl.size < 2 ^ 32) (hs : c.selected = false) (hb : c.busy = 0)
    (hw : c.writeEnabled = true) {page byte : Nat} {data : List UInt8} (hbyte : byte < 256)
    (hlen : byte + data.length ≤ 256) (hne : data ≠ []) (ha : page * 256 + byte < fl.size)
    (he : Erased c.mem (page * 256 + byte) data.length)
    (hok : (spiFlashCmdWrite (Chip.bus fl.addrWidth wd) (fl.writeOpcode :: pageAddr fl.toSpiFlash page byte) (some data)
      data.length c).1 = 0) :
    (spiFlashCmdWrite (Chip.bus fl.addrWidth wd) (fl.writeOpcode :: pageAddr fl.toSpiFlash page byte) (some data)
      data.length c).2 =
      { c with
        mem := c.mem.write (page * 256 + byte) data
        selected := false
        shifted := []
        given := 0
        writeEnabled := false
        busy := wd.programTime (c.calls + 2)
        programs := c.programs ++ [(page * 256 + byte, data)]
        calls := c.calls + 2 } := by
  have hdiv : (page * 256 + byte) / 256 = page := by omega
  have hmod : (page * 256 + byte) % 256 = byte := by omega
  have hcmd := pageAddr_length h page byte
  have hshort : fl.addrWidth ≤ 4 := by cases h.addr <;> omega
  rw [spiFlashCmdWrite] at hok ⊢
  dsimp only at hok ⊢
  rw [spiFlashReadWrite_out hs (by simp; omega) (by omega) (by simpa using hne) hok]
  have hwidth : fl.addrWidth ≤ (pageAddr fl.toSpiFlash page byte ++ data).length := by simp [hcmd]
  refine (Chip.release_program h.write hwidth ?_ ?_ ?_).trans ?_
  · exact List.cons_append
  · exact hw
  · exact hb
  · rw [addrOf_pageAddr h hsize hbyte ha, hdiv, hmod, List.drop_left' hcmd, Sf.program_erased data byte c.mem hlen he]

theorem spiFlashReadWrite_ret (cmd : List UInt8) (dout din : Option (List UInt8)) (n : Nat) (c : Chip) :
    (spiFlashReadWrite (Chip.bus width wd) cmd dout din n c).1 = 0 ∨
      (spiFlashReadWrite (Chip.bus width wd) cmd dout din n c).1 = -1 := by
  rw [spiFlashReadWrite]
  split
  · exact Chip.xfer_ret ..
  · split
    · exact Chip.xfer_ret ..
    · exact Chip.xfer_ret ..

/-- A result that is not negative is a success. -/
theorem spiFlashReadWrite_of_not_neg {cmd : List UInt8} {dout din : Option (List UInt8)} {n : Nat}
    (h : ¬ (spiFlashReadWrite (Chip.bus width wd) cmd dout din n c).1 < 0) :
    (spiFlashReadWrite (Chip.bus width wd) cmd dout din n c).1 = 0 := by
  cases @spiFlashReadWrite_ret width wd cmd dout din n c with
  | inl h0 => exact h0
  | inr h1 => exact absurd (by rw [h1]; decide) h

/-- `buf` has been programmed at `a`, in programs that do not leave their pages. -/
structure Programs (a : Nat) (buf : List UInt8) (c c' : Chip) : Prop where
  mem : c'.mem = c.mem.write a buf
  selected : c'.selected = false
  busy : c'.busy = 0
  programs : ∃ ps, c'.programs = c.programs ++ ps ∧ (∀ p ∈ ps, p.1 % 256 + p.2.length ≤ 256) ∧
    programmed ps = List.range' a buf.length

theorem Programs.nil (a : Nat) (hs : c.selected = false) (hb : c.busy = 0) : Programs a [] c c where
  mem := (Mem.write_nil ..).symm
  selected := hs
  busy := hb
  programs := ⟨[], by simp [programmed]⟩

/-- A chunk, and what comes after it. -/
theorem Programs.append {a : Nat} {xs ys : List UInt8} {c₁ c₂ c₃ : Chip} (h₁ : Programs a xs c₁ c₂)
    (h₂ : Programs (a + xs.length) ys c₂ c₃) : Programs a (xs ++ ys) c₁ c₃ where
  mem := by rw [h₂.mem, h₁.mem, Mem.write_append]
  selected := h₂.selected
  busy := h₂.busy
  programs := by
    obtain ⟨ps, hps, hpage, hrange⟩ := h₁.programs
    obtain ⟨qs, hqs, hpage', hrange'⟩ := h₂.programs
    refine ⟨ps ++ qs, by rw [hqs, hps, List.append_assoc], ?_, ?_⟩
    · intro p hp
      cases List.mem_append.mp hp with
      | inl hp => exact hpage p hp
      | inr hp => exact hpage' p hp
    · rw [programmed, List.flatMap_append]
      rw [programmed] at hrange hrange'
      rw [hrange, hrange', List.length_append, List.range'_append_1]

/-- A pass of the loop. -/
theorem pass_ok (h : fl.Probed) (hsize : fl.size < 2 ^ 32) (hs : c.selected = false) (hb : c.busy = 0) {page byte : Nat}
    {data : List UInt8} (hbyte : byte < 256) (hlen : byte + data.length ≤ 256) (hne : data ≠ [])
    (ha : page * 256 + byte < fl.size) (he : Erased c.mem (page * 256 + byte) data.length) {e w r : Int × Chip}
    (hen : spiFlashCmdWriteEnable (Chip.bus fl.addrWidth wd) c = e) (hen0 : ¬ e.1 < 0)
    (hw : spiFlashCmdWrite (Chip.bus fl.addrWidth wd) (fl.writeOpcode :: pageAddr fl.toSpiFlash page byte) (some data)
      data.length e.2 = w) (hw0 : ¬ w.1 < 0)
    (hr : spiFlashCmdWaitReady (Chip.bus fl.addrWidth wd) w.2 = r) (hr0 : r.1 = 0) :
    Programs (page * 256 + byte) data c r.2 := by
  have h1 : (spiFlashCmdWriteEnable (Chip.bus fl.addrWidth wd) c).1 = 0 :=
    spiFlashReadWrite_of_not_neg (by rwa [← hen] at hen0)
  have h2 := spiFlashCmdWriteEnable_ok hs hb h1
  rw [hen] at h2
  have h3 : (spiFlashCmdWrite (Chip.bus fl.addrWidth wd) (fl.writeOpcode :: pageAddr fl.toSpiFlash page byte) (some data)
      data.length e.2).1 = 0 := spiFlashReadWrite_of_not_neg (by rwa [← hw] at hw0)
  have h4 := spiFlashCmdWrite_page h hsize (by rw [h2]) (by rw [h2]; exact hb) (by rw [h2]) hbyte hlen hne ha
    (by rw [h2]; exact he) h3
  rw [hw] at h4
  obtain ⟨k, h5⟩ := spiFlashCmdWaitReady_ok (show w.2.selected = false by rw [h4]) (by rw [hr]; exact hr0)
  rw [hr] at h5
  constructor
  · rw [h5, h4, h2]
  · rw [h5]
  · rw [h5]
  · refine ⟨[(page * 256 + byte, data)], by rw [h5, h4, h2], ?_, ?_⟩
    · intro p hp
      rw [List.mem_singleton.mp hp]
      simp only
      omega
    · simp [programmed]

theorem writeLoop_ok (h : fl.Probed) (hpage : fl.pageSize = 256) (hsize : fl.size < 2 ^ 32) (fuel : Nat) :
    ∀ (page byte : Nat) (buf : List UInt8) (c : Chip), buf.length ≤ fuel → byte < 256 →
      page * 256 + byte + buf.length ≤ fl.size → c.selected = false → c.busy = 0 →
      Erased c.mem (page * 256 + byte) buf.length →
      (writeLoop (Chip.bus fl.addrWidth wd) fl fuel page byte buf c).1 = 0 →
      Programs (page * 256 + byte) buf c (writeLoop (Chip.bus fl.addrWidth wd) fl fuel page byte buf c).2 := by
  induction fuel with
  | zero =>
      intro page byte buf c hf _ _ hs hb _ _
      obtain rfl : buf = [] := List.length_eq_zero_iff.mp (by omega)
      exact .nil _ hs hb
  | succ fuel ih =>
      intro page byte buf c hf hbyte hin hs hb he hok
      rw [writeLoop] at hok ⊢
      split at hok
      · rename_i hnil
        rw [if_pos hnil, hnil]
        exact .nil _ hs hb
      rename_i hnil
      rw [if_neg hnil]
      have hpos : 0 < buf.length := List.length_pos_iff.mpr hnil
      dsimp only at hok ⊢
      rw [hpage] at hok ⊢
      generalize hc : min buf.length (256 - byte) = chunk at hok ⊢
      have htake : (buf.take chunk).length = chunk := by simp; omega
      generalize hen : spiFlashCmdWriteEnable (Chip.bus fl.addrWidth wd) c = e at hok ⊢
      split at hok
      · omega
      rename_i hen0
      rw [if_neg hen0]
      generalize hw : spiFlashCmdWrite _ _ _ chunk e.2 = w at hok ⊢
      split at hok
      · omega
      rename_i hw0
      rw [if_neg hw0]
      generalize hr : spiFlashCmdWaitReady _ w.2 = r at hok ⊢
      split at hok
      · exact absurd hok ‹_›
      rename_i hr0
      rw [if_neg hr0]
      have hpass : Programs (page * 256 + byte) (buf.take chunk) c r.2 :=
        pass_ok h hsize hs hb hbyte (by omega) (List.ne_nil_of_length_pos (by omega)) (by omega)
          (fun i hi => he i (by omega)) hen hen0 (by rw [htake]; exact hw) hw0 hr (not_not.mp hr0)
      have hdrop : (buf.drop chunk).length = buf.length - chunk := List.length_drop
      rw [← List.take_append_drop chunk buf]
      refine hpass.append ?_
      rw [htake, List.take_append_drop]
      -- what is left starts the next page, or nothing is left
      cases Nat.lt_or_ge chunk buf.length with
      | inl hmore =>
          have hnext : page * 256 + byte + chunk = (page + 1) * 256 + 0 := by omega
          have herased : Erased r.2.mem ((page + 1) * 256 + 0) (buf.drop chunk).length := by
            intro i hi
            rw [hpass.mem, ← hnext, Mem.write_of_ge (by omega)]
            have := he (chunk + i) (by omega)
            rwa [← Nat.add_assoc] at this
          have hin' : (page + 1) * 256 + 0 + (buf.drop chunk).length ≤ fl.size := by
            rwa [← hnext, hdrop, Nat.add_assoc _ chunk, Nat.add_sub_of_le (Nat.le_of_lt hmore)]
          rw [hnext]
          exact ih (page + 1) 0 (buf.drop chunk) r.2 (by omega) (by omega) hin' hpass.selected hpass.busy herased hok
      | inr hlast =>
          have hdone : ∀ b', writeLoop (Chip.bus fl.addrWidth wd) fl fuel (page + 1) 0 [] b' = (0, b') := by
            intro b'
            cases fuel <;> simp [writeLoop]
          rw [List.drop_eq_nil_of_le hlast, hdone]
          exact .nil _ hpass.selected hpass.busy

/-- `spi_flash_cmd_write_multi` into erased bytes. -/
theorem writeMulti_ok (h : fl.Probed) (hpage : fl.pageSize = 256) (hsize : fl.size < 2 ^ 32) (hs : c.selected = false)
    (hb : c.busy = 0) {offset : Nat} {buf : List UInt8} (hin : offset + buf.length ≤ fl.size)
    (he : Erased c.mem offset buf.length) {c' : Chip}
    (hok : spiFlashCmdWriteMulti (Chip.bus fl.addrWidth wd) fl offset buf c = (0, c')) : Programs offset buf c c' := by
  have haddr : offset / 256 * 256 + offset % 256 = offset := Nat.div_add_mod' offset 256
  rw [spiFlashCmdWriteMulti] at hok
  have hclaim : (Chip.bus fl.addrWidth wd).claimBus c =
      (if wd.claimFails c.calls then -1 else 0, { c with calls := c.calls + 1 }) := rfl
  rw [hclaim] at hok
  by_cases hc : wd.claimFails c.calls
  · simp [hc] at hok
  · simp only [hc, Bool.false_eq_true, if_false, ne_eq, not_true_eq_false] at hok
    obtain ⟨h0, rfl⟩ := Prod.mk.inj hok
    rw [hpage] at h0 ⊢
    have hloop := writeLoop_ok h hpage hsize buf.length (offset / 256) (offset % 256) buf { c with calls := c.calls + 1 }
      (Nat.le_refl _) (Nat.mod_lt _ (by decide)) (by omega) hs hb (by rwa [haddr]) h0
    rw [haddr] at hloop
    exact ⟨hloop.mem, hloop.selected, hloop.busy, hloop.programs⟩

/-! ## Reading -/

theorem Chip.give_read {op : UInt8} {rest : List UInt8} (hop : op = 0x0b ∨ op = 0x0c) (hlen : rest.length = width + 1)
    (n : Nat) : ∀ {c : Chip}, c.shifted = op :: rest → c.busy = 0 →
      (c.give width n).1 = c.mem.read (addrOf width (op :: rest) + c.given) n := by
  induction n with
  | zero =>
      intro c _ _
      rfl
  | succ n ih =>
      intro c hsh hb
      have hbyte : c.giveByte width =
          (c.mem (addrOf width (op :: rest) + c.given), { c with given := c.given + 1 }) := by
        rw [giveByte, hsh]
        split
        · rename_i heq
          simp [(List.cons.inj heq).1] at hop
        · rename_i op' rest' _ heq
          obtain ⟨rfl, rfl⟩ := List.cons.inj heq
          rw [if_pos ⟨hop, hlen, hb⟩]
        · rename_i heq
          cases heq
      have hrest := @ih { c with given := c.given + 1 } hsh hb
      rw [give, hbyte]
      dsimp only at hrest ⊢
      rw [hrest, Nat.add_comm n 1, Mem.read_add]
      simp [Mem.read, Nat.add_assoc]

theorem spiFlashReadWrite_none (cmd buf : List UInt8) (c : Chip) :
    (spiFlashReadWrite (Chip.bus width wd) cmd none (some buf) 0 c).2.1 = buf := by
  rw [spiFlashReadWrite]
  split <;> rfl

/-- A read that succeeds has as many bytes as its length in bits, which is 32 bits wide, says. -/
theorem readFast_ok (h : fl.Probed) (hsize : fl.size < 2 ^ 32) (hs : c.selected = false) (hb : c.busy = 0)
    {undef : UInt8} {offset n : Nat} {data : List UInt8} (hn : n ≠ 0) (hin : offset < fl.size)
    (hok : (spiFlashCmdReadFast (Chip.bus fl.addrWidth wd) fl undef offset n data c).1 = 0) :
    (spiFlashCmdReadFast (Chip.bus fl.addrWidth wd) fl undef offset n data c).2.1 =
      c.mem.read offset (n % 2 ^ 29) ++ data.drop (n % 2 ^ 29) := by
  obtain ⟨dummy, hcmd⟩ := readCmd h undef offset
  have hlen : (Sf.spiFlashAddr fl.toSpiFlash offset ++ [dummy]).length = fl.addrWidth + 1 := by simp [Sf.spiFlashAddr]
  have hshort : fl.addrWidth ≤ 4 := by cases h.addr <;> omega
  rw [spiFlashCmdReadFast, hcmd] at hok ⊢
  rw [spiFlashReadCommon, spiFlashCmdRead] at hok ⊢
  dsimp only at hok ⊢
  rw [spiFlashReadWrite_in (by exact hs) (by rw [List.length_cons, hlen]; omega) hn hok]
  rw [Chip.give_read h.read hlen (n % 2 ^ 29) (by rfl) (by exact hb)]
  dsimp only
  rw [addrOf_spiFlashAddr h hsize hin, Nat.add_zero]
  rfl

/-! ## A world without faults -/

/-- No transfer fails and the chip is never at work. -/
def World.quiet : World := ⟨fun _ => false, fun _ => none, fun _ => 0, fun _ => 0⟩

theorem Chip.xfer_quiet (bitlen : Nat) (dout din : Option (List UInt8)) (flags : Flags) (c : Chip) :
    (c.xfer width .quiet bitlen dout din flags).1 = 0 := by
  simp [Chip.xfer, Chip.fault, World.quiet]

theorem spiFlashReadWrite_quiet (cmd : List UInt8) (dout din : Option (List UInt8)) (n : Nat) (c : Chip) :
    (spiFlashReadWrite (Chip.bus width .quiet) cmd dout din n c).1 = 0 := by
  rw [spiFlashReadWrite]
  simp only [Chip.bus_xfer, Chip.xfer_quiet, ne_eq, not_true_eq_false, if_false]
  split
  · exact Chip.xfer_quiet ..
  · rfl

theorem spiFlashCmdWaitReady_quiet (hs : c.selected = false) (hb : c.busy = 0) :
    (spiFlashCmdWaitReady (Chip.bus width .quiet) c).1 = 0 := by
  have hfirst := @Chip.xfer_cmd width .quiet c hs [0x05] (by decide) false (Chip.xfer_quiet ..)
  rw [show u32 ([(0x05 : UInt8)].length * 8) = 8 by rfl] at hfirst
  rw [spiFlashCmdWaitReady, spiFlashCmdPollBit, Chip.bus_xfer, hfirst]
  rw [if_neg (by simp), pollLoop.eq_def, Chip.bus_xfer]
  dsimp only [Bool.false_eq_true, if_false]
  rw [Chip.xfer_status (by rfl) (Chip.xfer_quiet ..)]
  simp [hb]

theorem Chip.release_selected (c : Chip) : (c.release width wd).selected = false := by
  rw [release]
  split
  · split <;> rfl
  · split <;> rfl
  · rfl

theorem Chip.release_quiet (hb : c.busy = 0) : (c.release width .quiet).busy = 0 := by
  rw [release]
  split
  · split <;> exact hb
  · split
    · rfl
    · exact hb
  · exact hb

theorem writeLoop_quiet (h : fl.Probed) (hpage : fl.pageSize = 256) (fuel : Nat) :
    ∀ (page byte : Nat) (buf : List UInt8) (c : Chip), byte < 256 → c.selected = false → c.busy = 0 →
      (writeLoop (Chip.bus fl.addrWidth .quiet) fl fuel page byte buf c).1 = 0 := by
  induction fuel with
  | zero =>
      intro page byte buf c _ _ _
      rfl
  | succ fuel ih =>
      intro page byte buf c hbyte hs hb
      rw [writeLoop]
      split
      · rfl
      rename_i hnil
      have hpos : 0 < buf.length := List.length_pos_iff.mpr hnil
      have hshort : fl.addrWidth ≤ 4 := by cases h.addr <;> omega
      dsimp only
      rw [hpage]
      generalize hc : min buf.length (256 - byte) = chunk
      have htake : (buf.take chunk).length = chunk := by simp; omega
      have hen0 : (spiFlashCmdWriteEnable (Chip.bus fl.addrWidth .quiet) c).1 = 0 := spiFlashReadWrite_quiet ..
      have hen := spiFlashCmdWriteEnable_ok hs hb hen0
      generalize spiFlashCmdWriteEnable (Chip.bus fl.addrWidth .quiet) c = e at *
      rw [if_neg (by omega)]
      have hcmd : (fl.writeOpcode :: pageAddr fl.toSpiFlash page byte).length < 2 ^ 29 := by
        rw [List.length_cons, pageAddr_length h]
        omega
      have hw0 : (spiFlashCmdWrite (Chip.bus fl.addrWidth .quiet) (fl.writeOpcode :: pageAddr fl.toSpiFlash page byte)
        (some (buf.take chunk)) (buf.take chunk).length e.2).1 = 0 := spiFlashReadWrite_quiet ..
      have hw : (spiFlashCmdWrite (Chip.bus fl.addrWidth .quiet) (fl.writeOpcode :: pageAddr fl.toSpiFlash page byte)
        (some (buf.take chunk)) (buf.take chunk).length e.2).2 = _ :=
        spiFlashReadWrite_out (by rw [hen]) hcmd (by omega) (by omega) hw0
      rw [htake] at hw0 hw
      generalize spiFlashCmdWrite _ _ _ chunk e.2 = w at *
      rw [if_neg (by omega)]
      have hws : w.2.selected = false := by
        rw [hw]
        exact Chip.release_selected _
      have hwb : w.2.busy = 0 := by
        rw [hw]
        exact Chip.release_quiet (by rw [hen]; exact hb)
      have hr0 := @spiFlashCmdWaitReady_quiet fl.addrWidth w.2 hws hwb
      obtain ⟨k, hr⟩ := spiFlashCmdWaitReady_ok hws hr0
      generalize spiFlashCmdWaitReady (Chip.bus fl.addrWidth .quiet) w.2 = r at *
      rw [if_neg (not_not.mpr hr0)]
      exact ih (page + 1) 0 (buf.drop chunk) r.2 (by omega) (by rw [hr]) (by rw [hr])

theorem writeMulti_quiet (h : fl.Probed) (hpage : fl.pageSize = 256) (hs : c.selected = false) (hb : c.busy = 0)
    (offset : Nat) (buf : List UInt8) :
    ∃ c', spiFlashCmdWriteMulti (Chip.bus fl.addrWidth .quiet) fl offset buf c = (0, c') := by
  have hclaim : (Chip.bus fl.addrWidth .quiet).claimBus c = (0, { c with calls := c.calls + 1 }) := rfl
  have hloop := @writeLoop_quiet fl h hpage buf.length (offset / fl.pageSize) (offset % fl.pageSize) buf
    { c with calls := c.calls + 1 } (by rw [hpage]; exact Nat.mod_lt _ (by decide)) hs hb
  rw [spiFlashCmdWriteMulti, hclaim]
  simp [hloop]

/-! ## The round trip -/

/-- A buffer that the chip has and one that differs from it in every byte. -/
theorem read_ne {buf : List UInt8} {k : Nat} (hk : k < buf.length) :
    buf.take k ++ (buf.map (· + 1)).drop k ≠ buf := by
  intro heq
  have hdrop : (buf.map (· + 1)).drop k = buf.drop k := by
    have := congrArg (List.drop k) heq
    rwa [List.drop_left' (by simp; omega)] at this
  have hget := congrArg (fun l => l[0]?) hdrop
  simp [List.getElem?_eq_getElem hk] at hget

/-- A length of 2 ^ 29 bytes and more has lost bits. -/
theorem not_roundTrips (h : fl.Probed) (hpage : fl.pageSize = 256) (hsize : fl.size < 2 ^ 32) {offset : Nat}
    {buf : List UInt8} (hin : offset + buf.length ≤ fl.size) (hlong : 2 ^ 29 ≤ buf.length) : ¬ RoundTrips fl offset buf := by
  intro hrt
  obtain ⟨c', hok⟩ := @writeMulti_quiet fl ⟨fun _ => 0xff, false, [], 0, false, 0, [], 0⟩ h hpage rfl rfl offset buf
  obtain ⟨-, -, -, hread⟩ := hrt .quiet 0 _ c' (buf.map (· + 1)) ⟨rfl, rfl, rfl⟩ (List.length_map _) (fun _ _ => rfl) hok
  have hdone := writeMulti_ok h hpage hsize rfl rfl hin (fun _ _ => rfl) hok
  have hquiet : (spiFlashCmdReadFast (Chip.bus fl.addrWidth .quiet) fl 0 offset buf.length (buf.map (· + 1)) c').1 = 0 :=
    spiFlashReadWrite_quiet ..
  have hback := readFast_ok h hsize hdone.selected hdone.busy (by omega) (by omega) hquiet
  have hk : buf.length % 2 ^ 29 < buf.length := by omega
  rw [hread _ rfl hquiet, hdone.mem, Mem.read_write (by omega)] at hback
  exact read_ne hk hback.symm

/-- What comes back is what was programmed as long as its length in bits fits in 32 bits. -/
theorem spi_round_trip_iff (en4b : Bool) {part : SpiFlash} (hpage : part.pageSize = 256) (hsize : part.size < 2 ^ 32)
    {offset : Nat} {buf : List UInt8} (hin : offset + buf.length ≤ part.size) :
    RoundTrips (spiFlashProbe en4b part) offset buf ↔ buf.length < 2 ^ 29 := by
  have h := probed en4b part
  rw [← spiFlashProbe_pageSize en4b] at hpage
  rw [← spiFlashProbe_size en4b] at hsize hin
  generalize spiFlashProbe en4b part = fl at *
  constructor
  · intro hrt
    by_contra hlong
    exact not_roundTrips h hpage hsize hin (by omega) hrt
  · intro hshort wd undef c c' data hc hdata he hok
    have hdone := writeMulti_ok h hpage hsize hc.selected hc.busy hin he hok
    obtain ⟨ps, hps, hpages, hrange⟩ := hdone.programs
    rw [hc.programs, List.nil_append] at hps
    refine ⟨by rwa [hps], by rwa [hps], ?_, ?_⟩
    · intro a ha
      rw [hdone.mem, Mem.write_other ha]
    · rintro r rfl hr
      by_cases hn : buf.length = 0
      · have hnil : data = [] := List.length_eq_zero_iff.mp (by omega)
        rw [hn, hnil, List.length_eq_zero_iff.mp hn]
        exact spiFlashReadWrite_none ..
      · rw [readFast_ok h hsize hdone.selected hdone.busy hn (by omega) hr, Nat.mod_eq_of_lt hshort, hdone.mem,
          Mem.read_write (Nat.le_refl _), List.take_length, List.drop_eq_nil_of_le (by omega), List.append_nil]

/-- Sixteen bytes over the end of a page of a part with addresses of 4 bytes. -/
theorem spi_round_trip_sample : RoundTrips (spiFlashProbe true ⟨256, 65536, 0x2000000, 0⟩) 0x10000f8 (List.replicate 16 0x5a) :=
  (spi_round_trip_iff true rfl (by decide) (by decide)).mpr (by decide)

/-- A length of 2 ^ 29 bytes is none in bits: nothing is read, and the buffer stays. -/
theorem spi_round_trip_lost :
    ¬ RoundTrips (spiFlashProbe true ⟨256, 65536, 0x40000000, 0⟩) 0 (List.replicate (2 ^ 29) 0) := by
  refine not_roundTrips (probed true _) (spiFlashProbe_pageSize true _) ?_ ?_ (by rw [List.length_replicate])
  · rw [spiFlashProbe_size]
    decide
  · rw [spiFlashProbe_size, List.length_replicate]
    decide

end Uboot.Spi
