import Uboot.Lib.BigEndian
import Uboot.Ping.Theorems

/-!
# The headers of a packet (`net/net.c`)

`net_set_udp_header` with `net_set_ip_header`, and the check of the IP header by `NetCksumOk`.
-/

namespace Uboot.Net

open Lib Ping

/-! ## The code -/

/-- `NetCksumOk`, for `len` halfwords -/
def netCksumOk (m : Mem) (ptr len : Nat) : Bool := (netCksum m ptr len + 1) &&& 0xfffe = 0

/-- `htons` into memory -/
def htons (n : Nat) : List UInt8 := BigEndian.encode 2 n

/-- `net_set_ip_header`, with `NetIPID` -/
def netSetIpHeader (pkt : Nat) (dest source netIPID : UInt32) (m : Mem) : Mem × UInt32 :=
  let m := m.write pkt [0x45]
  let m := m.write (pkt + 1) [0]
  let m := m.write (pkt + 2) (htons 20)
  let m := m.write (pkt + 4) (htons netIPID.toNat)
  let m := m.write (pkt + 6) (htons 0x4000)
  let m := m.write (pkt + 8) [255]
  let m := m.write (pkt + 10) [0, 0]
  let m := m.write (pkt + 12) (ipBytes source)
  (m.write (pkt + 16) (ipBytes dest), netIPID + 1)

/-- `net_set_udp_header`. Lengths are added as 32-bit words. -/
def netSetUdpHeader (netOurIP : UInt32) (pkt : Nat) (dest : UInt32) (dport sport len : Int) (m : Mem) (netIPID : UInt32) :
    Mem × UInt32 :=
  let word (n : Int) : Nat := (n % 2 ^ 32).toNat
  let m := if len % 2 = 1 then m.write (word (pkt + 28 + len)) [0] else m
  let (m, netIPID) := netSetIpHeader pkt dest netOurIP netIPID m
  let m := m.write (pkt + 2) (htons (word (28 + len)))
  let m := m.write (pkt + 9) [17]
  let m := m.write (pkt + 10) (Mem.le16 (65535 - netCksum m pkt 10))
  let m := m.write (pkt + 20) (htons (word sport))
  let m := m.write (pkt + 22) (htons (word dport))
  let m := m.write (pkt + 24) (htons (word (8 + len)))
  (m.write (pkt + 26) [0, 0], netIPID)

/-! ## The check -/

section
variable {m : Mem} {a n : Nat}

theorem netCksumOk_iff (h : 2 * n < 2 ^ 16) : netCksumOk m a n = true ↔ 65535 ∣ sum16 (m.read a (2 * n)) := by
  have hle := sum16_le (m.read a (2 * n))
  rw [Mem.read_length] at hle
  rw [netCksumOk, decide_eq_true_eq, netCksum_eq h, succ_and_eq_zero_iff (fold16_twice_le (by omega)), fold16_twice_dvd_iff]

/-- A header that passes does so with another word just if the word is the same modulo `65535`. -/
theorem netCksumOk_replace_iff {i v : Nat} (h : 2 * n < 2 ^ 16) (hok : netCksumOk m a n = true) (hi : i < n) (hv : v < 65536) :
    netCksumOk (m.write (a + 2 * i) (Mem.le16 v)) a n = true ↔ v ≡ m.readLe16 (a + 2 * i) [MOD 65535] := by
  rw [netCksumOk_iff h] at hok ⊢
  have hsum := @sum16_replace m a (2 * i) (2 * n) v hv (Nat.mul_mod_right 2 i) (by omega)
  rw [← Nat.modEq_zero_iff_dvd] at hok ⊢
  have hright : sum16 (m.read a (2 * n)) + v ≡ v [MOD 65535] := by
    have hadd := hok.add_right v
    rwa [Nat.zero_add] at hadd
  rw [← hsum] at hright
  constructor
  · intro hzero
    have hadd := hzero.add_right (m.readLe16 (a + 2 * i))
    rw [Nat.zero_add] at hadd
    exact hright.symm.trans hadd
  · intro heq
    have hadd := (hright.trans heq).trans (show m.readLe16 (a + 2 * i) ≡ 0 + m.readLe16 (a + 2 * i) [MOD 65535] by rw [Nat.zero_add])
    exact Nat.ModEq.add_right_cancel' _ hadd

end

/-! ## The header -/

/-- The checksum is taken over zeros in its own field. -/
theorem netSetIpHeader_sum (pkt : Nat) (dest source netIPID : UInt32) (m : Mem) {i : Nat} (hi : i < 2) :
    (netSetIpHeader pkt dest source netIPID m).1 (pkt + 10 + i) = 0 := by
  have hip : ∀ ip, (ipBytes ip).length = 4 := fun _ => rfl
  have hfield : ∀ m : Mem, m.write (pkt + 10) [0, 0] (pkt + 10 + i) = 0 := by
    intro m
    rw [Mem.write_of_mem hi]
    rcases show i = 0 ∨ i = 1 by omega with rfl | rfl <;> rfl
  rw [netSetIpHeader]
  dsimp only
  rw [Mem.write_other (by rw [hip]; omega), Mem.write_other (by rw [hip]; omega), hfield]

theorem netSetUdpHeader_ok (netOurIP : UInt32) (pkt : Nat) (dest : UInt32) (dport sport len : Int) (m : Mem) (netIPID : UInt32) :
    netCksumOk (netSetUdpHeader netOurIP pkt dest dport sport len m netIPID).1 pkt 10 = true := by
  have htwo : ∀ n, (htons n).length = 2 := fun n => BigEndian.encode_length 2 n
  rw [netCksumOk_iff (by decide), netSetUdpHeader]
  dsimp only
  generalize (if len % 2 = 1 then m.write _ [0] else m) = m
  have hone : ([17] : List UInt8).length = 1 := rfl
  -- the memory whose checksum is taken
  generalize hbefore : Mem.write _ (pkt + 9) [17] = before
  have hsum : ∀ i < 2, before (pkt + 10 + i) = 0 := by
    intro i hi
    rw [← hbefore, Mem.write_other (by rw [hone]; omega), Mem.write_other (by rw [htwo]; omega),
      netSetIpHeader_sum _ _ _ _ _ hi]
  rw [Mem.read_write_of_le (by omega), Mem.read_write_of_le (by omega), Mem.read_write_of_le (by omega),
    Mem.read_write_of_le (by omega)]
  have hcheck := @sum16_checksum before pkt 10 20 10 (by decide) rfl (by decide) (by decide) (hsum 0 (by decide)) (hsum 1 (by decide))
  exact hcheck.2

/-- The header that is built passes, and with another word in it just if that is the same in one's complement. -/
theorem udp_header_checked (netOurIP : UInt32) (pkt : Nat) (dest : UInt32) (dport sport len : Int) (m : Mem) (netIPID : UInt32) :
    let built := (netSetUdpHeader netOurIP pkt dest dport sport len m netIPID).1
    netCksumOk built pkt 10 = true ∧
      ∀ (i : Fin 10) (v : UInt16), netCksumOk (built.write (pkt + 2 * i) (Mem.le16 v.toNat)) pkt 10 = true ↔
        v.toNat ≡ built.readLe16 (pkt + 2 * i) [MOD 65535] := by
  intro built
  have hok : netCksumOk built pkt 10 = true := netSetUdpHeader_ok ..
  exact ⟨hok, fun i v => netCksumOk_replace_iff (by decide) hok i.isLt v.toNat_lt⟩

end Uboot.Net
