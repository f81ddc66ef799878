import Uboot.Lib.Bytes

/-!
# Options of a DHCP packet

`popt` is the rest of the packet from an option on. A read behind the packet's end has no value.
-/

namespace Uboot.Bootp

/-- `OPT_FIELD_SIZE`, with `CONFIG_CMD_DHCP` -/
def optFieldSize : Nat := 312

/-- `sizeof(struct Bootp_t)` -/
def bootpHdrSize : Nat := 236 + optFieldSize

/-- `BOOTP_VENDOR_MAGIC` -/
def vendorMagic : List UInt8 := [0x63, 0x82, 0x53, 0x63]

/-- What the options go to. The last one is `bp_file` in the packet itself. -/
structure NetParams where
  ourSubnetMask : List UInt8
  ourGatewayIP : List UInt8
  ourDNSIP : List UInt8
  ourHostName : List UInt8
  ourRootPath : List UInt8
  leasetime : List UInt8
  dhcpServerIP : List UInt8
  bpFile : List UInt8
deriving DecidableEq

def truncateSz (maxlen curlen : Nat) : Nat := if maxlen ≤ curlen then maxlen - 1 else curlen

/-- `memcpy` of `n` bytes from the packet. -/
def netCopy (src : List UInt8) (n : Nat) : Option (List UInt8) :=
  if n ≤ src.length then some (src.take n) else none

/-- A `memcpy` to a buffer, and a NUL behind it. -/
def setString (buf s : List UInt8) : List UInt8 := s ++ 0 :: buf.drop (s.length + 1)

/-- The `switch` of `DhcpOptionsProcess`; `data` is the packet from `popt + 2` on. -/
def processOption (p : NetParams) (code : UInt8) (oplen : Nat) (data : List UInt8) : Option NetParams :=
  match code.toNat with
  | 1 => (netCopy data 4).map fun ip => { p with ourSubnetMask := ip }
  | 3 => (netCopy data 4).map fun ip => { p with ourGatewayIP := ip }
  | 6 => (netCopy data 4).map fun ip => { p with ourDNSIP := ip }
  | 12 => (netCopy data (truncateSz 32 oplen)).map fun s => { p with ourHostName := setString p.ourHostName s }
  | 17 => (netCopy data (truncateSz 64 oplen)).map fun s => { p with ourRootPath := setString p.ourRootPath s }
  | 51 => (netCopy data 4).map fun time => { p with leasetime := time }
  | 54 => (netCopy data 4).map fun ip => { p with dhcpServerIP := ip }
  | 67 =>
      let size := truncateSz 128 oplen
      if p.bpFile.head? = some 0 ∧ 0 < size then
        (netCopy data size).map fun s => { p with bpFile := setString p.bpFile s }
      else some p
  | _ => some p

/-- The loop of `DhcpOptionsProcess`, with `left` bytes to `end`. -/
def optionsLoop (left : Nat) (popt : List UInt8) (p : NetParams) : Option NetParams :=
  if left = 0 then some p
  else
    match popt with
    | [] => none
    | code :: rest =>
        if code = 0xff then some p
        else
          match rest with
          | [] => none
          | oplen :: data =>
              match processOption p code oplen.toNat data with
              | none => none
              | some p => optionsLoop (left - (oplen.toNat + 2)) (data.drop oplen.toNat) p
termination_by left

/-- `end` is as far away as if the packet began at `popt`. -/
def dhcpOptionsProcess (popt : List UInt8) (p : NetParams) : Option NetParams := optionsLoop bootpHdrSize popt p

/-- The loop of `DhcpMessageType`. -/
def typeLoop (popt : List UInt8) : Option Int :=
  match popt with
  | [] => none
  | code :: rest =>
      if code = 0xff then some (-1)
      else if code = 53 then
        match rest with
        | _ :: type :: _ => some type.toNat
        | _ => none
      else
        match rest with
        | [] => none
        | oplen :: data => typeLoop (data.drop oplen.toNat)
termination_by popt.length
decreasing_by
  simp only [List.length_cons, List.length_drop]
  omega

/-- `DhcpMessageType`; `popt` is the packet from `bp_vend` on. -/
def dhcpMessageType (popt : List UInt8) : Option Int :=
  match netCopy popt 4 with
  | none => none
  | some magic => if magic ≠ vendorMagic then some (-1) else typeLoop (popt.drop 4)

/-! ## Options -/

structure DhcpOption where
  code : UInt8
  data : List UInt8
  length_lt : data.length < 256

namespace DhcpOption

def bytes (o : DhcpOption) : List UInt8 := o.code :: UInt8.ofNat o.data.length :: o.data

/-- The smallest length of an option that is read. -/
def minSize (code : UInt8) : Nat :=
  if code ∈ [1, 3, 6, 51, 54] then 4 else if code = 53 then 1 else 0

/-- Neither a pad nor an end mark, and long enough. -/
def Valid (o : DhcpOption) : Prop := o.code ≠ 0 ∧ o.code ≠ 0xff ∧ minSize o.code ≤ o.data.length

instance (o : DhcpOption) : Decidable o.Valid := inferInstanceAs (Decidable (_ ∧ _))

end DhcpOption

def encode (os : List DhcpOption) : List UInt8 := os.flatMap DhcpOption.bytes

/-- Options with so many pads before them. -/
def padded (ps : List (Nat × DhcpOption)) : List UInt8 := ps.flatMap fun p => List.replicate p.1 0 ++ p.2.bytes

end Uboot.Bootp
