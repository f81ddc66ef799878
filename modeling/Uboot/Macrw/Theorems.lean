import Uboot.Macrw.Checksum
import Uboot.Macrw.Winbond
import Uboot.Sf.Theorems

/-!
# What `flash_write_mac` leaves

The address is in the image, as the string gives it, and the regions verify. Nothing else changes but the checksums of
regions that did not verify.
-/

namespace Uboot.Macrw

open Lib

/-! ## The string -/

/-- The digits of an address, in lower case -/
def digits (macStr : List UInt8) : List UInt8 :=
  ((macStr.filter fun c => c ≠ 58 ∧ c ≠ 45).take 12).map fun c => if 65 ≤ c ∧ c ≤ 70 then c + 32 else c

/-- `aa:bb:cc:dd:ee:ff` -/
def canonical (macStr : List UInt8) : List UInt8 :=
  List.intercalate [58] ((List.range 6).map fun i => ((digits macStr).drop (i * 2)).take 2)

/-- `0123456789abcdef` -/
def hexChars : List UInt8 := ascii "0123456789abcdef"

section
variable {input output out macStr str : List UInt8} {c d : UInt8} {j : Nat}

theorem lower_mem (h : isHexDigit c = true) : (if 65 ≤ c ∧ c ≤ 70 then c + 32 else c) ∈ hexChars := by
  have hall : ∀ n < 256, isHexDigit (UInt8.ofNat n) = true →
      (if 65 ≤ UInt8.ofNat n ∧ UInt8.ofNat n ≤ 70 then UInt8.ofNat n + 32 else UInt8.ofNat n) ∈ hexChars := by
    set_option maxRecDepth 1000 in decide
  have hc := hall c.toNat c.toNat_lt
  rw [UInt8.ofNat_toNat] at hc
  exact hc h

theorem normalizeFrom_some (hj : j ≤ 12) (h : normalizeFrom j output input = some out) :
    ∃ ds, out = output ++ ds ∧ ds.length = 12 - j ∧ (∀ c ∈ ds, c ∈ hexChars) ∧
      ds = ((input.filter fun c => c ≠ 58 ∧ c ≠ 45).take (12 - j)).map fun c => if 65 ≤ c ∧ c ≤ 70 then c + 32 else c := by
  induction input generalizing j output with
  | nil =>
      rw [normalizeFrom, Option.ite_none_right_eq_some] at h
      obtain ⟨rfl, h⟩ := h
      cases h
      exact ⟨[], (List.append_nil _).symm, rfl, by simp, rfl⟩
  | cons c input ih =>
      rw [normalizeFrom] at h
      split at h
      next hfull =>
        cases h
        subst hfull
        exact ⟨[], (List.append_nil _).symm, rfl, by simp, by simp⟩
      next hfull =>
        split at h
        next hsep =>
          rw [List.filter_cons_of_neg (by simpa using fun h => hsep.resolve_left h)]
          exact ih hj h
        next hsep =>
          rw [Option.ite_none_right_eq_some] at h
          obtain ⟨hhex, h⟩ := h
          obtain ⟨ds, rfl, hlen, hmem, hds⟩ := ih (by omega) h
          refine ⟨(if 65 ≤ c ∧ c ≤ 70 then c + 32 else c) :: ds, by simp, ?_, ?_, ?_⟩
          · rw [List.length_cons, hlen]
            omega
          · exact List.forall_mem_cons.mpr ⟨lower_mem hhex, hmem⟩
          · have hsucc : 12 - j = (12 - (j + 1)) + 1 := by omega
            rw [List.filter_cons_of_pos (by simpa [not_or] using hsep), hsucc, List.take_succ_cons, List.map_cons, ← hds]

theorem normalizeMacString_some (h : normalizeMacString macStr = some out) :
    out = digits macStr ∧ out.length = 12 ∧ ∀ c ∈ out, c ∈ hexChars := by
  obtain ⟨ds, rfl, hlen, hmem, hds⟩ := normalizeFrom_some (Nat.zero_le 12) h
  exact ⟨hds, hlen, hmem⟩

theorem hex2_pair (hc : c ∈ hexChars) (hd : d ∈ hexChars) : hex2 ((a2x c <<< 4) + a2x d) = [c, d] := by
  have hall : (hexChars.all fun c => hexChars.all fun d => hex2 ((a2x c <<< 4) + a2x d) == [c, d]) = true := by decide
  exact eq_of_beq (List.all_eq_true.mp (List.all_eq_true.mp hall c hc) d hd)

/-- What was read of the string is printed again. -/
theorem macText_macBytes (hlen : str.length = 12) (hmem : ∀ c ∈ str, c ∈ hexChars) :
    macText (macBytes str) = List.intercalate [58] ((List.range 6).map fun i => (str.drop (i * 2)).take 2) := by
  rw [macText, macBytes, List.map_map]
  congr 1
  refine List.map_congr_left fun i hi => ?_
  rw [List.mem_range] at hi
  have hget : ∀ k, k < 12 → str.getD k 0 ∈ hexChars := by
    intro k hk
    rw [List.getD_eq_getElem _ _ (by omega)]
    exact hmem _ (List.getElem_mem _)
  have hpair : (str.drop (i * 2)).take 2 = [str.getD (i * 2) 0, str.getD (i * 2 + 1) 0] := by
    rw [List.drop_eq_getElem_cons (by omega), List.drop_eq_getElem_cons (by omega), List.getD_eq_getElem _ _ (by omega),
      List.getD_eq_getElem _ _ (by omega)]
    rfl
  rw [hpair]
  exact hex2_pair (hget _ (by omega)) (hget _ (by omega))

theorem macText_digits (h : normalizeMacString macStr = some str) : macText (macBytes str) = canonical macStr := by
  obtain ⟨rfl, hlen, hmem⟩ := normalizeMacString_some h
  exact macText_macBytes hlen hmem

end

/-! ## The image -/

/-- The ART partition -/
def image (flash : Mem) : Mem := fun i => flash (artOffset + i)

/-- What the address and the checksums become in memory. -/
def rewriteArt (mac : Nat) (isWifi : Bool) (cleanMac : List UInt8) (mem : Mem) : Mem :=
  let mem := copyStrToMac (artLoadAddr + mac) cleanMac mem
  if isWifi then updateWifiChecksum mem else mem

/-- The new image has another address at `mac` and other checksums in the regions of `words` at most. The region of the
address verifies, and the address is read back. -/
structure Written {S : Type} (drv : ArtFlash S) (interface macStr : List UInt8) (s s' : State S) (mac : Nat) (isWifi : Bool)
    (words : Nat → Prop) : Prop where
  changed : ∀ i < artSize, image (drv.mem s'.flash) i ≠ image (drv.mem s.flash) i →
    (mac ≤ i ∧ i < mac + 6) ∨ isWifi = true ∧ ∃ base, words base ∧ InWord base i
  verifies : isWifi = true → Verifies (image (drv.mem s'.flash)) (mac - 6)
  readBack : flashReadMac interface s'.mem = some (canonical macStr)

section
variable {S : Type} {drv : ArtFlash S} {interface macStr cleanMac : List UInt8} {s s' : State S} {mem : Mem} {mac base i : Nat}
  {isWifi : Bool}

/-- A wifi address is behind the checksum of its region, the others are before all regions. -/
theorem getMacAddressPtr_some (h : getMacAddressPtr interface = some (mac, isWifi)) :
    if isWifi then mac = mac - 6 + 6 ∧ mac - 6 ∈ wifiBases else mac + 6 ≤ 0x1000 := by
  obtain ⟨⟨name, p⟩, hfind, hp⟩ := Option.map_eq_some_iff.mp h
  have hmem := List.mem_of_find?_eq_some hfind
  cases hp
  simp only [macInterfaceTable, List.mem_cons, Prod.mk.injEq, List.not_mem_nil, or_false] at hmem
  rcases hmem with ⟨-, rfl, rfl⟩ | ⟨-, rfl, rfl⟩ | ⟨-, rfl, rfl⟩ | ⟨-, rfl, rfl⟩ | ⟨-, rfl, rfl⟩ <;> decide

theorem wifiBases_cases (h : base ∈ wifiBases) : base = 0x1000 ∨ base = 0x5000 ∨ base = 0x9000 := by
  simpa [wifiBases] using h

theorem wifiBases_apart : (wifiBases.map (artLoadAddr + ·)).Pairwise Apart := by
  simp [wifiBases, Apart, wifiChecksumSize, artLoadAddr]

theorem updateWifiChecksum_verifies (h : base ∈ wifiBases) : Verifies (updateWifiChecksum mem) (artLoadAddr + base) :=
  (updateRegions_spec wifiBases_apart).1 _ (List.mem_map_of_mem h)

theorem updateWifiChecksum_changed (h : updateWifiChecksum mem (artLoadAddr + i) ≠ mem (artLoadAddr + i)) :
    ∃ base ∈ wifiBases, ¬ Verifies mem (artLoadAddr + base) ∧ InWord base i := by
  obtain ⟨b, hb, hbad, hword⟩ := (updateRegions_spec wifiBases_apart).2 _ h
  obtain ⟨base, hbase, rfl⟩ := List.mem_map.mp hb
  refine ⟨base, hbase, hbad, ?_⟩
  rw [InWord] at hword ⊢
  omega

theorem macBytes_length : (macBytes cleanMac).length = 6 := by simp [macBytes]

theorem copyStrToMac_of_ne (h : ¬ (mac ≤ i ∧ i < mac + 6)) :
    copyStrToMac (artLoadAddr + mac) cleanMac mem (artLoadAddr + i) = mem (artLoadAddr + i) := by
  rw [copyStrToMac]
  rcases Nat.lt_or_ge i mac with hlt | hge
  · exact Mem.write_of_lt (by omega)
  · exact Mem.write_of_ge (by rw [macBytes_length]; omega)

theorem rewriteArt_changed (hmac : getMacAddressPtr interface = some (mac, isWifi))
    (h : rewriteArt mac isWifi cleanMac mem (artLoadAddr + i) ≠ mem (artLoadAddr + i)) :
    (mac ≤ i ∧ i < mac + 6) ∨ isWifi = true ∧ ∃ base, (base ∈ wifiBases ∧
      (mac = base + 6 ∨ ¬ Verifies mem (artLoadAddr + base))) ∧ InWord base i := by
  by_cases hin : mac ≤ i ∧ i < mac + 6
  · exact Or.inl hin
  right
  rw [rewriteArt] at h
  cases isWifi with
  | false => exact absurd (copyStrToMac_of_ne hin) h
  | true =>
      have hplace := getMacAddressPtr_some hmac
      simp only [if_true] at hplace
      rw [← @copyStrToMac_of_ne cleanMac mem _ _ hin] at h
      obtain ⟨base, hbase, hbad, hword⟩ := updateWifiChecksum_changed h
      refine ⟨rfl, base, ⟨hbase, ?_⟩, hword⟩
      by_contra hother
      rw [not_or, not_not] at hother
      refine hbad ((verifies_congr fun k hk => ?_).mpr hother.2)
      rw [Nat.add_assoc]
      refine copyStrToMac_of_ne ?_
      have hb := wifiBases_cases hbase
      have hm := wifiBases_cases hplace.2
      rw [wifiChecksumSize] at hk
      omega

/-- The checksums are not where the address is. -/
theorem rewriteArt_mac (hmac : getMacAddressPtr interface = some (mac, isWifi)) :
    (rewriteArt mac isWifi cleanMac mem).read (artLoadAddr + mac) 6 = macBytes cleanMac := by
  have hcopy : (copyStrToMac (artLoadAddr + mac) cleanMac mem).read (artLoadAddr + mac) 6 = macBytes cleanMac := by
    have hread : (mem.write (artLoadAddr + mac) (macBytes cleanMac)).Holds (artLoadAddr + mac) (macBytes cleanMac) :=
      Mem.holds_write
    rw [Mem.Holds, macBytes_length] at hread
    exact hread
  rw [rewriteArt]
  cases isWifi with
  | false => exact hcopy
  | true =>
      have hplace := getMacAddressPtr_some hmac
      simp only [if_true] at hplace ⊢
      rw [← hcopy, Mem.read, Mem.read]
      refine List.map_congr_left fun k hk => ?_
      rw [List.mem_range] at hk
      by_contra hne
      rw [Nat.add_assoc] at hne
      obtain ⟨base, hbase, -, hword⟩ := updateWifiChecksum_changed hne
      have hb := wifiBases_cases hbase
      have hm := wifiBases_cases hplace.2
      rw [InWord] at hword
      omega

/-- A call that succeeds went through all steps. -/
theorem flashWriteMac_true (h : flashWriteMac drv interface macStr s = (true, s')) :
    ∃ cleanMac mac isWifi mem, normalizeMacString macStr = some cleanMac ∧
      getMacAddressPtr interface = some (mac, isWifi) ∧
      (∀ i < artSize, mem (artLoadAddr + i) = image (drv.mem s.flash) i) ∧
      s'.mem = rewriteArt mac isWifi cleanMac mem ∧
      ∀ i < artSize, image (drv.mem s'.flash) i = s'.mem (artLoadAddr + i) := by
  rw [flashWriteMac] at h
  split at h
  next => cases h
  next => cases h
  next cleanMac mac isWifi hclean hmac =>
    dsimp only at h
    split at h
    case isFalse => cases h
    case isTrue hread =>
      have hdata := drv.read_ok s.flash hread
      refine ⟨cleanMac, mac, isWifi, (readFlashArt drv s).2.mem, hclean, hmac, ?_, ?_⟩
      · intro i hi
        rw [readFlashArt]
        dsimp only
        rw [hdata, Mem.write_of_mem (by rw [Mem.read_length]; exact hi), Mem.read]
        simp [hi, image]
      · rw [writeFlashArt] at h
        dsimp only at h
        split at h
        case isFalse => cases h
        case isTrue herase =>
          obtain ⟨hwrite, rfl⟩ := Prod.mk.inj h
          refine ⟨rfl, ?_⟩
          have herased := drv.erase_ok _ herase
          have hff : ∀ i < artSize, drv.mem (drv.erase (readFlashArt drv s).2.flash).2 (artOffset + i) = 0xff := by
            intro i hi
            rw [herased]
            exact if_pos (by omega)
          have hwritten := drv.write_ok _ _ Mem.read_length hff hwrite
          intro i hi
          rw [image, hwritten, Mem.write_of_mem (by rw [Mem.read_length]; exact hi), Mem.read]
          simp [hi]

/-- The call changes the address and the checksums of its region and of those that did not verify. -/
theorem flash_write_mac_keeps (drv : ArtFlash S) (interface macStr : List UInt8) (s s' : State S)
    (h : flashWriteMac drv interface macStr s = (true, s')) :
    ∃ mac isWifi, getMacAddressPtr interface = some (mac, isWifi) ∧
      Written drv interface macStr s s' mac isWifi fun base =>
        base ∈ wifiBases ∧ (mac = base + 6 ∨ ¬ Verifies (image (drv.mem s.flash)) base) := by
  obtain ⟨cleanMac, mac, isWifi, mem, hclean, hmac, hold, hmem, hnew⟩ := flashWriteMac_true h
  have hplace := getMacAddressPtr_some hmac
  have hinside : ∀ base ∈ wifiBases, base + wifiChecksumSize ≤ artSize := by decide
  refine ⟨mac, isWifi, hmac, ?_, ?_, ?_⟩
  · intro i hi hne
    rw [hnew i hi, ← hold i hi, hmem] at hne
    rcases rewriteArt_changed hmac hne with hin | ⟨hwifi, base, ⟨hbase, hwords⟩, hword⟩
    · exact Or.inl hin
    · refine Or.inr ⟨hwifi, base, ⟨hbase, hwords.imp_right ?_⟩, hword⟩
      refine mt fun hok => (verifies_congr fun k hk => ?_).mpr hok
      rw [Nat.add_assoc]
      have := hinside base hbase
      exact hold _ (by omega)
  · rintro rfl
    simp only [if_true] at hplace
    have hok : Verifies (rewriteArt mac true cleanMac mem) (artLoadAddr + (mac - 6)) :=
      updateWifiChecksum_verifies hplace.2
    refine (verifies_congr fun k hk => ?_).mp hok
    have := hinside _ hplace.2
    rw [hnew _ (by omega), hmem, Nat.add_assoc]
  · rw [flashReadMac, hmac, Option.map_some, hmem]
    dsimp only
    rw [rewriteArt_mac hmac, macText_digits hclean]

end

/-- A W25Q128 on a bus that works -/
def sampleChip : ArtFlash Sf.Bus :=
  winbondArt Sf.w25q128 (Sf.winbond_of_probe (show Sf.spiFlashProbeWinbond 0x4018 true = some Sf.w25q128 from rfl)) (by decide)
    fun _ => ⟨false, true⟩

/-- All bytes are zero. -/
def sampleState : State Sf.Bus := ⟨fun _ => 0, ⟨fun _ => 0, 0⟩⟩

/-- The state after `wifi0` got an address -/
def sampleAfter : State Sf.Bus := (flashWriteMac sampleChip (ascii "wifi0") (ascii "00-11-22-AA-bb-CC") sampleState).2

theorem sampleAfter_eq : flashWriteMac sampleChip (ascii "wifi0") (ascii "00-11-22-AA-bb-CC") sampleState = (true, sampleAfter) :=
  Prod.ext (flashWriteMac_works _ _ (fun _ => rfl) (by decide) (by decide) _) rfl

theorem flash_write_mac_keeps_sample : ∃ mac isWifi, getMacAddressPtr (ascii "wifi0") = some (mac, isWifi) ∧
    Written sampleChip (ascii "wifi0") (ascii "00-11-22-AA-bb-CC") sampleState sampleAfter mac isWifi fun base =>
      base ∈ wifiBases ∧ (mac = base + 6 ∨ ¬ Verifies (image (sampleChip.mem sampleState.flash)) base) :=
  flash_write_mac_keeps sampleChip (ascii "wifi0") (ascii "00-11-22-AA-bb-CC") sampleState sampleAfter sampleAfter_eq

/-- The checksum of the region at 0x5000 is not its own. -/
theorem flash_write_mac_other_region :
    flashWriteMac sampleChip (ascii "wifi0") (ascii "00-11-22-AA-bb-CC") sampleState = (true, sampleAfter) ∧
      ¬ Written sampleChip (ascii "wifi0") (ascii "00-11-22-AA-bb-CC") sampleState sampleAfter 0x1006 true
        fun base => 0x1006 = base + 6 := by
  refine ⟨sampleAfter_eq, ?_⟩
  intro hwritten
  obtain ⟨cleanMac, mac, isWifi, mem, -, hmac, -, hmem, hnew⟩ := flashWriteMac_true sampleAfter_eq
  have hptr : getMacAddressPtr (ascii "wifi0") = some (0x1006, true) := by decide
  cases hptr.symm.trans hmac
  have hok : Verifies (rewriteArt 0x1006 true cleanMac mem) (artLoadAddr + 0x5000) := updateWifiChecksum_verifies (by decide)
  have hzero : Verifies (fun _ => 0) 0x5000 := by
    refine (verifies_congr fun k hk => ?_).mp hok
    rw [wifiChecksumSize] at hk
    by_contra hne
    have hin : 0x5000 + k < artSize := by
      rw [artSize]
      omega
    rw [Nat.add_assoc, ← hmem, ← hnew _ hin] at hne
    rcases hwritten.changed _ hin hne with hmac | ⟨-, base, hbase, hword⟩
    · omega
    · rw [InWord] at hword
      omega
  have hsum : xorSum (region (fun _ => 0) 0x5000) (wifiChecksumSize / 2) = 0 := xorSum_zero fun j _ => rfl
  exact absurd (hsum.symm.trans hzero) (by decide)

end Uboot.Macrw
