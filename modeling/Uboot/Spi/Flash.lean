import Uboot.Sf.Basic

/-!
# Flash commands over a bus

`drivers/mtd/spi/spi_flash.c`, over the functions of `spi.h` that the driver of a bus gives. Lengths are 32 bits.
-/

namespace Uboot.Spi

open Sf (u32 SpiFlash pageAddr)

/-- `SPI_XFER_BEGIN` and `SPI_XFER_END` -/
structure Flags where
  xferBegin : Bool
  xferEnd : Bool

/-- The driver of a bus, on states `σ`. -/
structure Bus (σ : Type) where
  claimBus : σ → Int × σ
  releaseBus : σ → σ
  /-- `spi_xfer`: the length in bits, the bytes to send, the buffer for the bytes received. The result has the buffer after
  the transfer. -/
  xfer : Nat → Option (List UInt8) → Option (List UInt8) → Flags → σ → Int × List UInt8 × σ
  /-- How many more times the clock is below the timeout when a poll looks at it. -/
  patience : σ → Nat

/-- What the commands read of `struct spi_flash`. -/
structure Flash extends SpiFlash where
  readOpcode : UInt8
  writeOpcode : UInt8

/-- The end of `spi_flash_probe`. Winbond and Giga parts have switched to addresses of 4 bytes and keep their commands, the
others have commands for them. -/
def spiFlashProbe (en4b : Bool) (part : SpiFlash) : Flash :=
  if part.size > 0x1000000 then
    { part with
      addrWidth := 4
      readOpcode := if en4b then 0x0b else 0x0c
      writeOpcode := if en4b then 0x02 else 0x12 }
  else { part with addrWidth := 3, readOpcode := 0x0b, writeOpcode := 0x02 }

variable {σ : Type} (bus : Bus σ) (fl : Flash)

/-! ## Single commands -/

/-- `spi_flash_addr`: the bytes after the command. For three address bytes the last shift has no defined result; it gives
`undef`. -/
def spiFlashAddr (undef : UInt8) (addr : Nat) : List UInt8 :=
  [.ofNat (addr >>> (fl.addrWidth * 8 - 8)),
   .ofNat (addr >>> (fl.addrWidth * 8 - 16)),
   .ofNat (addr >>> (fl.addrWidth * 8 - 24)),
   if fl.addrWidth = 4 then .ofNat (addr >>> (fl.addrWidth * 8 - 32)) else undef]

def flashCmdsz : Nat := 1 + fl.addrWidth

def spiFlashReadWrite (cmd : List UInt8) (dataOut dataIn : Option (List UInt8)) (dataLen : Nat) (s : σ) :
    Int × List UInt8 × σ :=
  let r := bus.xfer (u32 (cmd.length * 8)) (some cmd) none ⟨true, dataLen = 0⟩ s
  if r.1 ≠ 0 then (r.1, dataIn.getD [], r.2.2)
  else if dataLen ≠ 0 then bus.xfer (u32 (dataLen * 8)) dataOut dataIn ⟨false, true⟩ r.2.2
  else (r.1, dataIn.getD [], r.2.2)

variable {bus} in
theorem spiFlashReadWrite_first {cmd : List UInt8} {dout din : Option (List UInt8)} {n : Nat} {s : σ}
    (hok : (spiFlashReadWrite bus cmd dout din n s).1 = 0) :
    (bus.xfer (u32 (cmd.length * 8)) (some cmd) none ⟨true, n = 0⟩ s).1 = 0 := by
  rw [spiFlashReadWrite] at hok
  by_contra hne
  rw [if_pos hne] at hok
  exact hne hok

variable {bus} in
theorem spiFlashReadWrite_eq {cmd d : List UInt8} {dout din : Option (List UInt8)} {n : Nat} {s s' : σ}
    (h : bus.xfer (u32 (cmd.length * 8)) (some cmd) none ⟨true, n = 0⟩ s = (0, d, s')) :
    spiFlashReadWrite bus cmd dout din n s =
      if n ≠ 0 then bus.xfer (u32 (n * 8)) dout din ⟨false, true⟩ s' else (0, din.getD [], s') := by
  simp only [spiFlashReadWrite, h, ne_eq, not_true_eq_false, if_false]

def spiFlashCmdRead (cmd : List UInt8) (data : Option (List UInt8)) (dataLen : Nat) (s : σ) : Int × List UInt8 × σ :=
  spiFlashReadWrite bus cmd none data dataLen s

def spiFlashCmd (cmd : UInt8) (response : Option (List UInt8)) (len : Nat) (s : σ) : Int × List UInt8 × σ :=
  spiFlashCmdRead bus [cmd] response len s

def spiFlashCmdWrite (cmd : List UInt8) (data : Option (List UInt8)) (dataLen : Nat) (s : σ) : Int × σ :=
  let r := spiFlashReadWrite bus cmd data none dataLen s
  (r.1, r.2.2)

def spiFlashCmdWriteEnable (s : σ) : Int × σ :=
  let r := spiFlashCmd bus 0x06 none 0 s
  (r.1, r.2.2)

/-- The loop of `spi_flash_cmd_poll_bit`, which the clock lets go on `n` times. -/
def pollLoop (pollBit : UInt8) : Nat → σ → Int × σ
  | n, s =>
    let r := bus.xfer 8 none (some [0]) ⟨false, false⟩ s
    if r.1 ≠ 0 then (-1, r.2.2)
    else
      let status := r.2.1.headD 0
      if status &&& pollBit = 0 then (0, (bus.xfer 0 none none ⟨false, true⟩ r.2.2).2.2)
      else
        match n with
        | 0 => (-1, (bus.xfer 0 none none ⟨false, true⟩ r.2.2).2.2)
        | n + 1 => pollLoop pollBit n r.2.2

def spiFlashCmdPollBit (cmd pollBit : UInt8) (s : σ) : Int × σ :=
  let r := bus.xfer 8 (some [cmd]) none ⟨true, false⟩ s
  if r.1 ≠ 0 then (r.1, r.2.2) else pollLoop bus pollBit (bus.patience r.2.2) r.2.2

def spiFlashCmdWaitReady (s : σ) : Int × σ := spiFlashCmdPollBit bus 0x05 0x01 s

/-! ## Commands on a range -/

/-- The loop of `spi_flash_cmd_write_multi`. Each pass takes a byte at least. -/
def writeLoop : Nat → Nat → Nat → List UInt8 → σ → Int × σ
  | 0, _, _, _, s => (0, s)
  | fuel + 1, page, byte, buf, s =>
    if buf = [] then (0, s)
    else
      let chunkLen := min buf.length (fl.pageSize - byte)
      let en := spiFlashCmdWriteEnable bus s
      if en.1 < 0 then en
      else
        let w := spiFlashCmdWrite bus (fl.writeOpcode :: pageAddr fl.toSpiFlash page byte) (some (buf.take chunkLen)) chunkLen en.2
        if w.1 < 0 then w
        else
          let ready := spiFlashCmdWaitReady bus w.2
          if ready.1 ≠ 0 then ready else writeLoop fuel (page + 1) 0 (buf.drop chunkLen) ready.2

def spiFlashCmdWriteMulti (offset : Nat) (buf : List UInt8) (s : σ) : Int × σ :=
  let claim := bus.claimBus s
  if claim.1 ≠ 0 then claim
  else
    let r := writeLoop bus fl buf.length (offset / fl.pageSize) (offset % fl.pageSize) buf claim.2
    (r.1, bus.releaseBus r.2)

def spiFlashReadCommon (cmd : List UInt8) (data : List UInt8) (dataLen : Nat) (s : σ) : Int × List UInt8 × σ :=
  let r := spiFlashCmdRead bus cmd (some data) dataLen (bus.claimBus s).2
  (r.1, r.2.1, bus.releaseBus r.2.2)

/-- `FAST_READ_DUMMY_BYTE` -/
def fastReadDummyByte : Nat := 1

def spiFlashCmdReadFast (undef : UInt8) (offset len : Nat) (data : List UInt8) (s : σ) : Int × List UInt8 × σ :=
  let cmd := fl.readOpcode :: spiFlashAddr fl undef offset ++ [0]
  spiFlashReadCommon bus (cmd.take (flashCmdsz fl + fastReadDummyByte)) data len s

/-- The loop of `spi_flash_cmd_erase_block_or_sector`. A range that does not wrap has fewer steps than bytes. -/
def eraseLoop (undef eraseCmd : UInt8) (eraseSize end_ : Nat) : Nat → Nat → σ → Int × σ
  | 0, _, s => (0, s)
  | fuel + 1, offset, s =>
    if offset < end_ then
      let en := spiFlashCmdWriteEnable bus s
      if en.1 ≠ 0 then en
      else
        let e := spiFlashCmdWrite bus ((eraseCmd :: spiFlashAddr fl undef offset).take (flashCmdsz fl)) none 0 en.2
        if e.1 ≠ 0 then e
        else
          let ready := spiFlashCmdWaitReady bus e.2
          if ready.1 ≠ 0 then ready else eraseLoop undef eraseCmd eraseSize end_ fuel (u32 (offset + eraseSize)) ready.2
    else (0, s)

def spiFlashCmdEraseBlockOrSector (undef eraseCmd : UInt8) (eraseSize offset len : Nat) (s : σ) : Int × σ :=
  if offset % eraseSize ≠ 0 ∨ len % eraseSize ≠ 0 then (-1, s)
  else
    let claim := bus.claimBus s
    if claim.1 ≠ 0 then claim
    else
      let r := eraseLoop bus fl undef eraseCmd eraseSize (u32 (offset + len)) (len + 1) offset claim.2
      (r.1, bus.releaseBus r.2)

/-- Sector erase -/
def spiFlashCmdErase (undef eraseCmd : UInt8) (offset len : Nat) (s : σ) : Int × σ :=
  spiFlashCmdEraseBlockOrSector bus fl undef eraseCmd fl.sectorSize offset len s

end Uboot.Spi
