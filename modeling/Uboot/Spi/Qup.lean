import Uboot.Bam.AddDesc
import Uboot.Spi.Flash

/-!
# The controller of the SPI bus (`drivers/spi/qca_qup_spi_bam.c`)

`spi_xfer` over what moves the bytes, and the DMA transfers that do. A change of the controller's state may fail.
-/

namespace Uboot.Spi

open Bam

/-! ## The chip select -/

/-- What moves bytes between buffers `β` and the bus, on states `σ`. -/
structure Hw (σ β : Type) where
  useDma : Bool
  /-- `slave.cs == CONFIG_SF_SPI_NAND_CS`: the chip select is a GPIO. -/
  nandCs : Bool
  /-- Whether a reset of the controller drops the chip select that it forces. -/
  resetDropsCs : Bool
  /-- What can fail in `spi_hw_init`. -/
  hwInit : σ → Int × σ
  blspSpiWrite : β → Nat → σ → Int × σ
  blspSpiRead : β → Nat → σ → Int × β × σ

/-- The lines: `FORCE_CS_EN` and `CS_POLARITY_MASK` in `io_control`, and the GPIO, set when it selects the chip. -/
structure Slave (σ : Type) where
  io : σ
  forceCs : Bool
  csPolarity : Bool
  csGpio : Bool

variable {σ β : Type} (hw : Hw σ β)

/-- The chip is selected. -/
def Slave.selected (s : Slave σ) : Bool := if hw.nandCs then s.csGpio else s.forceCs

def spiReset (s : Slave σ) : Slave σ := { s with forceCs := s.forceCs && !hw.resetDropsCs }

/-- `spi_hw_init`, which writes all of `io_control` behind the calls that can fail. -/
def spiHwInit (s : Slave σ) : Int × Slave σ :=
  let s := spiReset hw s
  let r := hw.hwInit s.io
  if r.1 ≠ 0 then (r.1, { s with io := r.2 })
  else (0, { s with io := r.2, forceCs := false, csPolarity := false })

/-- `-EIO` -/
def eio : Int := -5

/-- `-EINVAL` -/
def einval : Int := -22

def spiClaimBus (s : Slave σ) : Int × Slave σ :=
  let r := spiHwInit hw s
  (if r.1 ≠ 0 then eio else 0, r.2)

def spiReleaseBus (s : Slave σ) : Slave σ := spiReset hw s

def csAssert (s : Slave σ) : Slave σ :=
  if hw.nandCs then { s with csPolarity := true, csGpio := true } else { s with forceCs := true }

def csDeassert (s : Slave σ) : Slave σ :=
  if hw.nandCs then { s with csPolarity := false, csGpio := false } else { s with forceCs := false }

/-- `spi_xfer` from the check of the output buffer on. -/
def xferData (len : Nat) (dout din : Option β) (xferEnd : Bool) (s : Slave σ) : Int × Option β × Slave σ :=
  let w : Int × Slave σ := match dout with
    | some out => let r := hw.blspSpiWrite out len s.io; (r.1, { s with io := r.2 })
    | none => (0, s)
  if w.1 ≠ 0 then (w.1, din, w.2)
  else
    let r : Int × Option β × Slave σ := match din with
      | some buf => let r := hw.blspSpiRead buf len w.2.io; (r.1, some r.2.1, { w.2 with io := r.2.2 })
      | none => (0, none, w.2)
    if r.1 ≠ 0 then r else (0, r.2.1, if xferEnd then csDeassert hw r.2.2 else r.2.2)

def spiXfer (bitlen : Nat) (dout din : Option β) (flags : Flags) (s : Slave σ) : Int × Option β × Slave σ :=
  if bitlen % 8 ≠ 0 then (einval, din, s)
  else
    let len := bitlen / 8
    if flags.xferBegin then
      let init := if hw.useDma then (0, s) else spiHwInit hw s
      if init.1 ≠ 0 then (init.1, din, init.2)
      else xferData hw len dout din flags.xferEnd (csAssert hw init.2)
    else xferData hw len dout din flags.xferEnd s

/-! ## DMA -/

/-- `READ` and `WRITE` -/
inductive Dir where
  | read
  | write
  deriving DecidableEq

/-- The two pipes, and how many changes of state there were. -/
structure Qup where
  consumer : Pipe
  producer : Pipe
  calls : Nat

/-- `DATA_CONSUMER_PIPE_INDEX` for a write, `DATA_PRODUCER_PIPE_INDEX` for a read -/
def Qup.pipe (q : Qup) : Dir → Pipe
  | .read => q.producer
  | .write => q.consumer

def Qup.setPipe (q : Qup) (p : Pipe) : Dir → Qup
  | .read => { q with producer := p }
  | .write => { q with consumer := p }

def spiMaxTrfrBtwnResets : Nat := 64 * 1024 - 16
def spiBamMaxDescNum : Nat := 32
def qupSpiMaxDescLen : Nat := 0xffff
def bamDescIntFlag : Nat := 1 <<< 7
def bamDescNwdFlag : Nat := 1 <<< 4

/-- `-ETIMEDOUT` -/
def etimedout : Int := -110

section
variable (fails : Nat → Bool)

/-- `config_spi_state`; `fails` says which of the calls time out. -/
def configSpiState (q : Qup) : Int × Qup := (if fails q.calls then etimedout else 0, { q with calls := q.calls + 1 })

/-- A descriptor for the hardware. -/
def queueOne (dir : Dir) (buffer size flag : Nat) (q : Qup) : Qup :=
  q.setPipe (bamSysGenEvent (bamAddOneDesc (q.pipe dir) buffer size flag).2 1) dir

/-- The loop of `blsp_spi_bam_begin_xfer`: `rem_bytes`, `bytes`, the buffer, the countdown of the direction and its flags. -/
def chunkLoop (dir : Dir) : Nat → Nat → Nat → Nat → Nat → Nat → Qup → Option (Int × Qup)
  | 0, _, _, _, _, _, _ => none
  | fuel + 1, remBytes, bytes, buffer, descCnt, flag, q =>
    if remBytes = 0 then some (0, q)
    else
      let size := min bytes spiMaxTrfrBtwnResets
      let remBytes := if spiMaxTrfrBtwnResets < bytes then bytes - spiMaxTrfrBtwnResets else 0
      let run := configSpiState fails q
      if run.1 ≠ 0 then some run
      else if 0 < descCnt then
        let flag := (if remBytes = 0 ∨ descCnt = 1 then bamDescEotFlag ||| bamDescNwdFlag else flag) ||| bamDescIntFlag
        let q := queueOne dir buffer size flag run.2
        let descCnt := if descCnt - 1 = 0 then spiBamMaxDescNum - 1 else descCnt - 1
        let reset := configSpiState fails q
        if reset.1 ≠ 0 then some reset
        else chunkLoop dir fuel remBytes remBytes ((buffer + size) % 2 ^ 32) descCnt flag reset.2
      else
        let reset := configSpiState fails run.2
        if reset.1 ≠ 0 then some reset else chunkLoop dir fuel remBytes bytes buffer descCnt flag reset.2

/-- `blsp_spi_bam_begin_xfer`. The loop ends within the fuel. -/
def blspSpiBamBeginXfer (dir : Dir) (buffer bytes : Nat) (q : Qup) : Int × Qup :=
  (chunkLoop fails dir (bytes + 1) bytes bytes buffer (spiBamMaxDescNum - 1) 0 q).getD (0, q)

/-- `blsp_spi_read` in DMA mode, with `__blsp_spi_read`. The result of a transfer is dropped. -/
def blspSpiReadDma (buffer bytes : Nat) (q : Qup) : Int × Nat × Qup :=
  let reset := configSpiState fails q
  if reset.1 ≠ 0 then (reset.1, buffer, reset.2)
  else if bytes ≠ 0 then
    let r := blspSpiBamBeginXfer fails .read buffer bytes reset.2
    (0, buffer, (configSpiState fails r.2).2)
  else
    let run := configSpiState fails reset.2
    if run.1 ≠ 0 then (run.1, buffer, run.2) else (0, buffer, (configSpiState fails run.2).2)

/-- `blsp_spi_write` in DMA mode, with `__blsp_spi_write`. -/
def blspSpiWriteDma (buffer bytes : Nat) (q : Qup) : Int × Qup :=
  let reset := configSpiState fails q
  if reset.1 ≠ 0 then reset
  else if bytes ≠ 0 then
    let r := blspSpiBamBeginXfer fails .write buffer bytes reset.2
    (0, (configSpiState fails r.2).2)
  else (0, (configSpiState fails reset.2).2)

theorem qupPipe_pos : 0 < 32 := by decide

/-- A pipe as `qup_bam_init` sets it up. -/
def qupPipe (writes : List (Nat × Desc)) (notified : Nat) : Pipe where
  size := 32
  current := 0
  maxDescLen := qupSpiMaxDescLen
  initialized := true
  evnt := 0
  writes := writes
  notified := notified
  size_pow := ⟨5, rfl⟩
  size_le := by decide
  current_lt := qupPipe_pos
  maxDescLen_lt := by decide

/-- `spi_hw_init` in DMA mode: the state and the pipes. -/
def qupInit (q : Qup) : Int × Qup :=
  let reset := configSpiState fails q
  if reset.1 ≠ 0 then reset
  else
    (0, { reset.2 with
      consumer := qupPipe q.consumer.writes q.consumer.notified
      producer := qupPipe q.producer.writes q.producer.notified })

/-- The controller in DMA mode. Buffers are addresses. -/
def qupHw (nandCs resetDropsCs : Bool) : Hw Qup Nat where
  useDma := true
  nandCs := nandCs
  resetDropsCs := resetDropsCs
  hwInit := qupInit fails
  blspSpiWrite := blspSpiWriteDma fails
  blspSpiRead := blspSpiReadDma fails

end

end Uboot.Spi
