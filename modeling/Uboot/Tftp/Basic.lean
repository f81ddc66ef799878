import Uboot.Lib.Bytes

/-!
# The TFTP client (`net/tftp.c`)

`CONFIG_CMD_TFTPPUT` is set; `CONFIG_TFTP_TSIZE`, `CONFIG_MCAST_TFTP` and `CONFIG_CMD_TFTPSRV` are not.
`ulong` has 32 bits. What is printed and the LEDs are left out.
-/

namespace Uboot.Tftp

open Uboot.Lib

abbrev wordSize : Nat := 2 ^ 32

/-- `TFTP_SEQUENCE_SIZE` -/
abbrev tftpSequenceSize : Nat := 2 ^ 16

/-- `TFTP_BLOCK_SIZE` -/
def tftpBlockSize : Nat := 512

/-- `WELL_KNOWN_PORT` -/
def wellKnownPort : Nat := 69

/-- `TIMEOUT_COUNT`, twice `CONFIG_NET_RETRY_COUNT` -/
def timeoutCountDefault : Nat := 5 * 2

/-- `TftpState` -/
inductive TftpState where
  | sendRrq
  | data
  | tooLarge
  | badMagic
  | oack
  | recvWrq
  | sendWrq
deriving DecidableEq, Repr

/-- The state of `NetLoop`. `restart` is what `NetStartAgain` leads to, at once or after a while. -/
inductive NetState where
  | cont
  | restart
  | success
  | fail
deriving DecidableEq, Repr

/-- The static variables of the client, the globals it uses, and memory. -/
structure Client where
  tftpState : TftpState
  tftpBlock : Nat
  tftpLastBlock : Nat
  tftpBlockWrapOffset : Nat
  tftpBlkSize : Nat
  tftpBlkSizeOption : Nat
  tftpTimeoutCount : Nat
  tftpTimeoutCountMax : Nat
  tftpTimeoutMSecs : Nat
  tftpOurPort : Nat
  tftpRemotePort : Nat
  tftpWriting : Bool
  tftpFinalBlock : Bool
  tftpFilename : List UInt8
  loadAddr : Nat
  saveAddr : Nat
  netBootFileXferSize : Nat
  netState : NetState
  mem : Mem

/-! ## Strings -/

/-- `"octet"` -/
def octetName : List UInt8 := [111, 99, 116, 101, 116]

/-- `"timeout"` -/
def timeoutName : List UInt8 := [116, 105, 109, 101, 111, 117, 116]

/-- `"blksize"` -/
def blksizeName : List UInt8 := [98, 108, 107, 115, 105, 122, 101]

def decimal (n : Nat) : List UInt8 := ((Nat.digits 10 n).reverse.map fun d => UInt8.ofNat (48 + d))

/-- `sprintf` of a number with `%lu` or `%d`. -/
def sprintfNum (n : Nat) : List UInt8 := if n = 0 then [48] else decimal n

def isdigit (c : UInt8) : Bool := 48 ≤ c ∧ c ≤ 57

def isxdigit (c : UInt8) : Bool := isdigit c ∨ (65 ≤ c ∧ c ≤ 70) ∨ (97 ≤ c ∧ c ≤ 102)

def digitValue (c : UInt8) : Nat :=
  if isdigit c then c.toNat - 48 else if 97 ≤ c then c.toNat - 97 + 10 else c.toNat - 65 + 10

/-- The loop of `simple_strtoul`. -/
def strtoulLoop (base : Nat) : List UInt8 → Nat → Nat
  | [], result => result
  | c :: cp, result =>
      if isxdigit c ∧ digitValue c < base then
        strtoulLoop base cp ((result * base + digitValue c) % wordSize)
      else result

/-- `simple_strtoul` -/
def simpleStrtoul (cp : List UInt8) (base : Nat) : Nat :=
  match cp with
  | 48 :: cp =>
      if cp.getD 0 0 = 120 ∧ isxdigit (cp.getD 1 0) then strtoulLoop 16 (cp.drop 1) 0
      else strtoulLoop (if base = 0 then 8 else base) cp 0
  | cp => strtoulLoop (if base = 0 then 10 else base) cp 0

/-! ## Packets -/

/-- `htons` into a packet -/
def be16 (n : Nat) : List UInt8 := [UInt8.ofNat (n / 256), UInt8.ofNat n]

/-- `ntohs` from a packet -/
def ntohs (p : List UInt8) : Nat := 256 * (p.getD 0 0).toNat + (p.getD 1 0).toNat

/-- `TFTP_RRQ` or `TFTP_WRQ` -/
def requestPacket (opcode : Nat) (c : Client) : List UInt8 :=
  be16 opcode ++ c.tftpFilename ++ [0] ++ octetName ++ [0] ++ timeoutName ++ [0] ++
    sprintfNum (c.tftpTimeoutMSecs / 1000) ++ [0] ++ blksizeName ++ [0] ++
    sprintfNum c.tftpBlkSizeOption ++ [0]

def ackPacket (block : Nat) : List UInt8 := be16 4 ++ be16 block

def dataPacket (block : Nat) (payload : List UInt8) : List UInt8 := be16 3 ++ be16 block ++ payload

/-! ## Blocks -/

/-- `store_block` -/
def storeBlock (c : Client) (block : Nat) (src : List UInt8) : Client :=
  let offset := (block * c.tftpBlkSize + c.tftpBlockWrapOffset) % wordSize
  let newsize := (offset + src.length) % wordSize
  { c with
    mem := c.mem.write ((c.loadAddr + offset) % wordSize) src
    netBootFileXferSize := if c.netBootFileXferSize < newsize then newsize else c.netBootFileXferSize }

/-- `new_transfer` -/
def newTransfer (c : Client) : Client :=
  { c with tftpLastBlock := 0, tftpBlockWrapOffset := 0, tftpFinalBlock := false }

/-- `load_block` -/
def loadBlock (c : Client) (block len : Nat) : List UInt8 :=
  let offset := ((block + wordSize - 1) * len + c.tftpBlockWrapOffset) % wordSize
  let tosend := min ((c.netBootFileXferSize + wordSize - offset) % wordSize) len
  c.mem.read ((c.saveAddr + offset) % wordSize) tosend

/-- `update_block_number` -/
def updateBlockNumber (c : Client) : Client :=
  if c.tftpBlock = 0 then
    { c with
      tftpBlockWrapOffset := (c.tftpBlockWrapOffset + c.tftpBlkSize * tftpSequenceSize) % wordSize
      tftpTimeoutCount := 0 }
  else c

/-- `restart` -/
def restart (c : Client) : Client := { c with netState := .restart }

/-- `tftp_complete` -/
def tftpComplete (c : Client) : Client := { c with netState := .success }

/-! ## Sending -/

/-- `"File too large"` with its NUL -/
def fileTooLarge : List UInt8 := [70, 105, 108, 101, 32, 116, 111, 111, 32, 108, 97, 114, 103, 101, 0]

/-- `"File has bad magic"` with its NUL -/
def fileHasBadMagic : List UInt8 :=
  [70, 105, 108, 101, 32, 104, 97, 115, 32, 98, 97, 100, 32, 109, 97, 103, 105, 99, 0]

/-- `TftpSend`, with the packet that is sent. -/
def tftpSend (c : Client) : Client × List UInt8 :=
  match c.tftpState with
  | .sendRrq => (c, requestPacket 1 c)
  | .sendWrq => (c, requestPacket 2 c)
  | .oack | .recvWrq | .data =>
      if c.tftpWriting then
        let loaded := loadBlock c c.tftpBlock c.tftpBlkSize
        ({ c with tftpFinalBlock := loaded.length < c.tftpBlkSize }, dataPacket c.tftpBlock loaded)
      else (c, ackPacket c.tftpBlock)
  | .tooLarge => (c, be16 5 ++ be16 3 ++ fileTooLarge)
  | .badMagic => (c, be16 5 ++ be16 2 ++ fileHasBadMagic)

/-! ## Receiving -/

/-- The loop that looks for `blksize` in the options; `n` rounds are left from `p` on. -/
def oackLoop : Nat → List UInt8 → Nat → Nat
  | 0, _, blkSize => blkSize
  | n + 1, p, blkSize =>
      oackLoop n (p.drop 1) (if p.take 8 = blksizeName ++ [0] then
        simpleStrtoul (p.drop 8) 10 % 65536 else blkSize)

/-- The case `TFTP_ACK` of `TftpHandler`. -/
def handleAck (c : Client) (pkt : List UInt8) : Client × Option (List UInt8) :=
  if c.tftpWriting then
    if c.tftpFinalBlock then (tftpComplete c, none)
    else
      let block := ntohs pkt
      let ackOk := c.tftpBlock = block
      let c := updateBlockNumber { c with tftpBlock := (block + 1) % 65536 }
      if ackOk then
        let (c, out) := tftpSend c
        (c, some out)
      else (c, none)
  else (c, none)

/-- The case `TFTP_OACK` of `TftpHandler`. -/
def handleOack (c : Client) (pkt : List UInt8) (src len : Nat) : Client × Option (List UInt8) :=
  let c := { c with tftpState := .oack, tftpRemotePort := src, tftpBlkSize := oackLoop (len - 8) pkt c.tftpBlkSize }
  let c := if c.tftpWriting then
    { c with tftpState := .data, tftpBlock := (c.tftpBlock + 1) % wordSize } else c
  let (c, out) := tftpSend c
  (c, some out)

/-- The case `TFTP_DATA` of `TftpHandler`, after `TftpBlock` is set and the first block is recognised. -/
def acceptData (c : Client) (payload : List UInt8) : Client × Option (List UInt8) :=
  if c.tftpBlock = c.tftpLastBlock then (c, none)
  else
    let c := { c with tftpLastBlock := c.tftpBlock, tftpTimeoutCountMax := timeoutCountDefault }
    let c := storeBlock c ((c.tftpBlock + wordSize - 1) % wordSize) payload
    let (c, out) := tftpSend c
    (if payload.length < c.tftpBlkSize then tftpComplete c else c, some out)

/-- The case `TFTP_DATA` of `TftpHandler`. -/
def handleData (c : Client) (pkt : List UInt8) (src len : Nat) : Client × Option (List UInt8) :=
  if len < 2 then (c, none)
  else
    let payload := (pkt.drop 2).take (len - 2)
    let c := updateBlockNumber { c with tftpBlock := ntohs pkt }
    if c.tftpState = .sendRrq ∨ c.tftpState = .oack ∨ c.tftpState = .recvWrq then
      let c := newTransfer { c with tftpState := .data, tftpRemotePort := src }
      if c.tftpBlock ≠ 1 then (restart c, none) else acceptData c payload
    else acceptData c payload

/-- The case `TFTP_ERROR` of `TftpHandler`. -/
def handleError (c : Client) (pkt : List UInt8) : Client × Option (List UInt8) :=
  if ntohs pkt = 1 ∨ ntohs pkt = 2 then ({ c with netState := .fail }, none) else (restart c, none)

/-- `TftpHandler`. `pkt` is the receive buffer from the UDP payload on; the packet is its first `len` bytes. -/
def tftpHandler (c : Client) (pkt : List UInt8) (dest src len : Nat) : Client × Option (List UInt8) :=
  if dest ≠ c.tftpOurPort then (c, none)
  else if c.tftpState ≠ .sendRrq ∧ src ≠ c.tftpRemotePort ∧ c.tftpState ≠ .recvWrq ∧ c.tftpState ≠ .sendWrq then
    (c, none)
  else if len < 2 then (c, none)
  else
    let proto := ntohs pkt
    let pkt := pkt.drop 2
    let len := len - 2
    if proto = 4 then handleAck c pkt
    else if proto = 6 then handleOack c pkt src len
    else if proto = 3 then handleData c pkt src len
    else if proto = 5 then handleError c pkt
    else (c, none)

/-- `TftpTimeout` -/
def tftpTimeout (c : Client) : Client × Option (List UInt8) :=
  let c := { c with tftpTimeoutCount := c.tftpTimeoutCount + 1 }
  if c.tftpTimeoutCountMax < c.tftpTimeoutCount then (restart c, none)
  else if c.tftpState ≠ .recvWrq then
    let (c, out) := tftpSend c
    (c, some out)
  else (c, none)

/-- `TftpStart`, after the file name, the ports, the option and the timeouts are known. `NetLoop` has cleared
`NetBootFileXferSize`. -/
def tftpStart (c : Client) (writing : Bool) (saveSize ourPort : Nat) : Client × List UInt8 :=
  let c := { c with tftpWriting := writing, netState := .cont }
  let c := if writing then
      newTransfer { c with netBootFileXferSize := saveSize, tftpState := .sendWrq }
    else { c with netBootFileXferSize := 0, tftpState := .sendRrq }
  tftpSend { c with
    tftpRemotePort := wellKnownPort
    tftpTimeoutCount := 0
    tftpOurPort := ourPort
    tftpBlock := 0
    tftpBlkSize := tftpBlockSize }

/-! ## Packets on the wire -/

section
variable {n : Nat}

theorem ntohs_be16 (t : List UInt8) : ntohs (be16 n ++ t) = n % 65536 := by
  simp only [ntohs, be16, List.cons_append, List.nil_append, List.getD_cons_zero, List.getD_cons_succ,
    UInt8.toNat_ofNat']
  omega

theorem be16_mod : be16 (n % 65536) = be16 n := by
  have h1 : UInt8.ofNat (n % 65536 / 256) = UInt8.ofNat (n / 256) := by
    apply UInt8.toNat_inj.mp
    simp only [UInt8.toNat_ofNat']
    omega
  have h2 : UInt8.ofNat (n % 65536) = UInt8.ofNat n := by
    apply UInt8.toNat_inj.mp
    simp only [UInt8.toNat_ofNat']
    omega
  rw [be16, be16, h1, h2]

theorem drop_be16 (t : List UInt8) : (be16 n ++ t).drop 2 = t := rfl

theorem ackPacket_mod : ackPacket (n % 65536) = ackPacket n := by rw [ackPacket, ackPacket, be16_mod]

theorem ntohs_requestPacket (opcode : Nat) (c : Client) : ntohs (requestPacket opcode c) = opcode % 65536 := by
  simp only [requestPacket, List.append_assoc]
  exact ntohs_be16 _

theorem ntohs_ackPacket : ntohs (ackPacket n) = 4 ∧ ntohs ((ackPacket n).drop 2) = n % 65536 := by
  refine ⟨ntohs_be16 _, ?_⟩
  rw [ackPacket, drop_be16]
  simpa using ntohs_be16 (n := n) []

/-- A packet from the server, when the client knows the server's port or still waits for it. -/
theorem tftpHandler_eq {c : Client} {port : Nat} {pkt : List UInt8} {len : Nat}
    (hport : c.tftpState = .sendRrq ∨ c.tftpState = .sendWrq ∨ c.tftpRemotePort = port) (hlen : 2 ≤ len) :
    tftpHandler c pkt c.tftpOurPort port len =
      if ntohs pkt = 4 then handleAck c (pkt.drop 2)
      else if ntohs pkt = 6 then handleOack c (pkt.drop 2) port (len - 2)
      else if ntohs pkt = 3 then handleData c (pkt.drop 2) port (len - 2)
      else if ntohs pkt = 5 then handleError c (pkt.drop 2) else (c, none) := by
  have hpass : ¬ (c.tftpState ≠ .sendRrq ∧ port ≠ c.tftpRemotePort ∧ c.tftpState ≠ .recvWrq ∧
      c.tftpState ≠ .sendWrq) := by
    rintro ⟨h1, h2, -, h4⟩
    rcases hport with hs | hs | hs
    · exact h1 hs
    · exact h4 hs
    · exact h2 hs.symm
  rw [tftpHandler, if_neg (by simp), if_neg hpass, if_neg (by omega)]

end

end Uboot.Tftp
