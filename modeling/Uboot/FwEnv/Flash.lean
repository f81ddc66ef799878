import Mathlib.Data.List.GetD
import Uboot.FwEnv.Basic
import Uboot.Lib.Scatter

/-!
# What a flash update changes

On NAND the blocks are read, changed and written back one by one, and only the environment changes. On NOR the whole
range is erased and written, but only the blocks of the environment have been read.
-/

namespace Uboot.FwEnv.EnvDev

open Lib

/-- The start of the block of the environment. -/
def eraseOffset (dev : EnvDev) : Nat := dev.devoff / dev.eraseSize * dev.eraseSize

/-- Where the environment starts in its block. -/
def blockSeek (dev : EnvDev) : Nat := dev.devoff - dev.eraseOffset

/-- The good blocks of the environment. -/
def blocks (dev : EnvDev) : List Nat := goodBlocks dev.bad dev.eraseSize dev.envSectors dev.eraseOffset

/-- Where the bytes of the environment are. -/
def envPlaces (dev : EnvDev) (count : Nat) : List Nat :=
  if dev.mtdType = .nand then (List.range' dev.blockSeek count).map (place dev.eraseSize dev.blocks)
  else List.range' dev.devoff count

/-- A successful update is read back, and changes nothing else. -/
def Frames (dev : EnvDev) (junk : Nat → UInt8) (buf : List UInt8) (f : Mem) : Prop :=
  ∀ ret f', dev.flashWriteBuf junk buf dev.devoff f = (some ret, f') →
    dev.flashReadBuf buf.length dev.devoff f' = some buf ∧ ∀ a, a ∉ dev.envPlaces buf.length → f' a = f a

/-- What is written behind the block of the environment is there already, and so is the environment where nothing is
written. -/
structure SectorsKept (dev : EnvDev) (junk : Nat → UInt8) (buf : List UInt8) (f : Mem) : Prop where
  unwritten : dev.envSectors = 0 → f.read dev.devoff buf.length = buf
  behind : ∀ i, dev.eraseSize ≤ i → i < dev.envSectors * dev.eraseSize → junk i = f (dev.eraseOffset + i)

section
variable {dev : EnvDev} {f : Mem} {buf : List UInt8} {data junk : Nat → UInt8} {o n r seek count top fuel k processed W i : Nat}

/-! ## Sizes -/

theorem eraseOffset_add (dev : EnvDev) : dev.eraseOffset + dev.blockSeek = dev.devoff := by
  have hle := Nat.div_mul_le_self dev.devoff dev.eraseSize
  rw [blockSeek, eraseOffset]
  omega

theorem topOfRange_eq (dev : EnvDev) : dev.topOfRange = dev.eraseOffset + dev.envSectors * dev.eraseSize := by
  rw [topOfRange, Nat.add_mul, eraseOffset]

theorem eraseOffset_div (dev : EnvDev) : dev.eraseOffset / dev.eraseSize * dev.eraseSize = dev.eraseOffset := by
  rw [eraseOffset, Nat.mul_div_cancel _ dev.eraseSize_pos]

theorem range_div (dev : EnvDev) : (dev.topOfRange - dev.eraseOffset) / dev.eraseSize = dev.envSectors := by
  rw [topOfRange_eq, Nat.add_sub_cancel_left, Nat.mul_div_cancel _ dev.eraseSize_pos]

/-- Whole blocks, and as few as hold the bytes. -/
theorem writeTotal_spec (dev : EnvDev) (seek count : Nat) : ∃ k, dev.writeTotal seek count = k * dev.eraseSize ∧
    seek + count ≤ k * dev.eraseSize ∧ k * dev.eraseSize < seek + count + dev.eraseSize := by
  have hpos := dev.eraseSize_pos
  refine ⟨(seek + count + dev.eraseSize - 1) / dev.eraseSize, rfl, ?_, ?_⟩
  · have hmod := Nat.mod_lt (seek + count + dev.eraseSize - 1) hpos
    have hdiv := Nat.div_add_mod' (seek + count + dev.eraseSize - 1) dev.eraseSize
    omega
  · have hle := Nat.div_mul_le_self (seek + count + dev.eraseSize - 1) dev.eraseSize
    omega

/-! ## The loops on NAND -/

theorem flashBadBlock_nand (hnand : dev.mtdType = .nand) (o : Nat) : dev.flashBadBlock o = dev.bad o := by
  simp [flashBadBlock, hnand]

theorem readLoop_nand (hnand : dev.mtdType = .nand) (f : Mem) (n o seek r fuel : Nat) (buf : List UInt8)
    (hseek : seek < dev.eraseSize) (hr : 0 < r) (hcount : buf.length + r = count)
    (htop : top = o + n * dev.eraseSize) (hfuel : n + 2 ≤ fuel) :
    dev.readLoop f count dev.eraseSize top fuel o seek (min r (dev.eraseSize - seek)) buf =
      if seek + r ≤ dev.eraseSize * (goodBlocks dev.bad dev.eraseSize n o).length then
        some (buf ++ (List.range' seek r).map fun i => f (place dev.eraseSize (goodBlocks dev.bad dev.eraseSize n o) i))
      else none := by
  have hpos := dev.eraseSize_pos
  induction n generalizing o seek r buf fuel with
  | zero =>
      obtain ⟨fuel, rfl⟩ : ∃ m, fuel = m + 1 := ⟨fuel - 1, by omega⟩
      rw [readLoop, if_pos (by omega), if_pos (by omega), if_neg]
      simp only [goodBlocks, List.length_nil, Nat.mul_zero]
      omega
  | succ n ih =>
      obtain ⟨fuel, rfl⟩ : ∃ m, fuel = m + 2 := ⟨fuel - 2, by omega⟩
      rw [Nat.succ_mul] at htop
      rw [readLoop, if_pos (by omega), if_neg (by omega), flashBadBlock_nand hnand, goodBlocks]
      cases hbad : dev.bad o with
      | true =>
          simp only [if_true]
          exact ih _ _ _ _ _ hseek hr hcount (by omega) (by omega)
      | false =>
          simp only [Bool.false_eq_true, if_false]
          rw [List.length_cons, Nat.mul_succ]
          have hlen : ∀ len, (buf ++ f.read (o + seek) len).length = buf.length + len := by
            intro len
            rw [List.length_append, Mem.read_length]
          rcases Nat.lt_or_ge (dev.eraseSize - seek) r with hmore | hlast
          · -- the block is read to its end
            obtain ⟨len, hlen'⟩ : ∃ len, len = dev.eraseSize - seek := ⟨_, rfl⟩
            obtain ⟨rest, rfl⟩ : ∃ rest, r = len + rest := ⟨r - len, by omega⟩
            have hread := read_head f o (goodBlocks dev.bad dev.eraseSize n (o + dev.eraseSize))
              (show seek + len ≤ dev.eraseSize by omega)
            have hnext := ih (o + dev.eraseSize) 0 rest (fuel + 1) (buf ++ f.read (o + seek) len) hpos (by omega)
              (by rw [hlen]; omega) (by omega) (by omega)
            have hrest : count - (buf ++ f.read (o + seek) len).length = rest := by rw [hlen]; omega
            rw [show min (len + rest) (dev.eraseSize - seek) = len by omega, hrest, Nat.min_comm,
              show min rest dev.eraseSize = min rest (dev.eraseSize - 0) from rfl, hnext, hread, ← List.range'_append_1,
              List.map_append, show seek + len = dev.eraseSize by omega, read_tail hpos, List.append_assoc]
            exact if_congr (by omega) rfl rfl
          · have hread := read_head f o (goodBlocks dev.bad dev.eraseSize n (o + dev.eraseSize))
              (show seek + r ≤ dev.eraseSize by omega)
            rw [Nat.min_eq_left hlast, readLoop, if_neg (by rw [hlen]; omega), hread, if_pos (by omega)]

/-- An erase before a write of the same bytes leaves no trace. -/
theorem erase_write (dev : EnvDev) (o n : Nat) (f : Mem) (bytes : List UInt8) (h : bytes.length = n) :
    (dev.erase o n f).write o bytes = f.write o bytes := by
  unfold erase
  split
  next => rfl
  next => exact Mem.write_write (by rw [List.length_replicate, h])

theorem writeLoop_nand (hnand : dev.mtdType = .nand) (data : Nat → UInt8) (n o k processed fuel : Nat) (f : Mem)
    (htop : top = o + n * dev.eraseSize) (hk : processed + k * dev.eraseSize = W) (hfuel : n + 2 ≤ fuel) :
    (k ≤ (goodBlocks dev.bad dev.eraseSize n o).length → dev.writeLoop data dev.eraseSize W top fuel o processed f =
        (some W, writeBlocks dev.eraseSize data processed ((goodBlocks dev.bad dev.eraseSize n o).take k) f)) ∧
      ((goodBlocks dev.bad dev.eraseSize n o).length < k →
        (dev.writeLoop data dev.eraseSize W top fuel o processed f).1 = none) := by
  have hpos := dev.eraseSize_pos
  induction n generalizing o k processed fuel f with
  | zero =>
      obtain ⟨fuel, rfl⟩ : ∃ m, fuel = m + 1 := ⟨fuel - 1, by omega⟩
      rw [goodBlocks, List.length_nil, List.take_nil]
      constructor
      · intro hle
        obtain rfl : k = 0 := by omega
        rw [writeLoop, if_neg (by omega), show processed = W by omega]
        rfl
      · intro hlt
        have hmul : dev.eraseSize ≤ k * dev.eraseSize := Nat.le_mul_of_pos_left _ hlt
        rw [writeLoop, if_pos (by omega), if_pos (by omega)]
  | succ n ih =>
      obtain ⟨fuel, rfl⟩ : ∃ m, fuel = m + 2 := ⟨fuel - 2, by omega⟩
      rw [Nat.succ_mul] at htop
      cases k with
      | zero =>
          refine ⟨fun _ => ?_, fun hlt => by omega⟩
          rw [writeLoop, if_neg (by omega), List.take_zero, show processed = W by omega]
          rfl
      | succ k =>
          rw [Nat.succ_mul] at hk
          rw [writeLoop, if_pos (by omega), if_neg (by omega), flashBadBlock_nand hnand, goodBlocks]
          cases hbad : dev.bad o with
          | true =>
              simp only [if_true]
              exact ih _ _ _ _ _ (by omega) (by rw [Nat.succ_mul]; omega) (by omega)
          | false =>
              simp only [Bool.false_eq_true, if_false]
              rw [List.length_cons, List.take_succ_cons, writeBlocks, erase_write _ _ _ _ _ (by simp)]
              obtain ⟨hok, hfail⟩ := ih (o + dev.eraseSize) k (processed + dev.eraseSize) (fuel + 1)
                (f.write o ((List.range dev.eraseSize).map fun i => data (processed + i))) (by omega) (by omega) (by omega)
              exact ⟨fun hle => hok (by omega), fun hlt => hfail (by omega)⟩

/-! ## Reading -/

theorem flashReadBuf_nand (hnand : dev.mtdType = .nand) (f : Mem) {offset : Nat}
    (hoff : offset / dev.eraseSize * dev.eraseSize = dev.eraseOffset) (hcount : 0 < count) :
    dev.flashReadBuf count offset f = if offset - dev.eraseOffset + count ≤ dev.eraseSize * dev.blocks.length then
        some ((List.range' (offset - dev.eraseOffset) count).map fun i => f (place dev.eraseSize dev.blocks i))
      else none := by
  have hseek : offset - dev.eraseOffset < dev.eraseSize := by
    have hmod := Nat.mod_lt offset dev.eraseSize_pos
    have hdiv := Nat.div_add_mod' offset dev.eraseSize
    omega
  rw [flashReadBuf, hoff, if_pos hnand, range_div]
  exact readLoop_nand hnand f _ _ _ _ _ [] hseek hcount (by simp) dev.topOfRange_eq le_rfl

theorem flashReadBuf_nor (hnor : dev.mtdType ≠ .nand) (f : Mem) (count offset : Nat) :
    dev.flashReadBuf count offset f = some (f.read offset count) := by
  have hle := Nat.div_mul_le_self offset dev.eraseSize
  have hgood : ∀ o, dev.flashBadBlock o = false := by
    intro o
    simp [flashBadBlock, hnor]
  rw [flashReadBuf, if_neg hnor]
  cases count with
  | zero => rfl
  | succ count =>
      rw [readLoop, if_pos (by simp), if_neg (by omega), hgood]
      simp only [Bool.false_eq_true, if_false, List.nil_append]
      rw [readLoop, if_neg (by rw [Mem.read_length]; omega), Nat.add_sub_cancel' hle]

/-! ## The bytes that are written -/

/-- The environment in its blocks, and what the blocks had before. -/
theorem writeData_getD (old buf : List UInt8) {seek : Nat} (h : seek + buf.length ≤ old.length) (hi : i < old.length)
    (d : UInt8) :
    (old.take seek ++ buf ++ old.drop (seek + buf.length)).getD i d =
      if seek ≤ i ∧ i < seek + buf.length then buf.getD (i - seek) 0 else old.getD i 0 := by
  have htake : (old.take seek).length = seek := by rw [List.length_take]; omega
  rw [List.append_assoc]
  rcases Nat.lt_or_ge i seek with hlt | hge
  · rw [if_neg (by omega), List.getD_append _ _ _ _ (by omega)]
    simp [List.getD_eq_getElem?_getD, hlt, hi]
  · rw [List.getD_append_right _ _ _ _ (by omega), htake]
    rcases Nat.lt_or_ge i (seek + buf.length) with hin | hout
    · rw [if_pos ⟨hge, hin⟩, List.getD_append _ _ _ _ (by omega)]
      simp [List.getD_eq_getElem?_getD, show i - seek < buf.length by omega]
    · rw [if_neg (by omega), List.getD_append_right _ _ _ _ (by omega)]
      rw [List.getD_eq_getElem?_getD, List.getElem?_drop, show seek + buf.length + (i - seek - buf.length) = i by omega]
      simp [hi]

/-- What the blocks get, for the bytes `old` that they have. -/
theorem writeData_some {old : Nat → UInt8} {bytes : List UInt8} (junk : Nat → UInt8)
    (hread : ∀ n, 0 < n → n = dev.writeTotal dev.blockSeek buf.length → dev.flashReadBuf n dev.eraseOffset f = none ∨
      dev.flashReadBuf n dev.eraseOffset f = some ((List.range n).map old))
    (h : dev.writeData buf dev.devoff f = some bytes) (hi : i < dev.writeTotal dev.blockSeek buf.length) :
    bytes.getD i (junk i) =
      if dev.blockSeek ≤ i ∧ i < dev.blockSeek + buf.length then buf.getD (i - dev.blockSeek) 0 else old i := by
  obtain ⟨k, hW, hge, -⟩ := dev.writeTotal_spec dev.blockSeek buf.length
  rw [← hW] at hge
  rw [writeData] at h
  change (if buf.length < dev.writeTotal dev.blockSeek buf.length then
    (dev.flashReadBuf (dev.writeTotal dev.blockSeek buf.length) dev.eraseOffset f).map fun data =>
      data.take dev.blockSeek ++ buf ++ data.drop (dev.blockSeek + buf.length) else some buf) = some bytes at h
  split at h
  next hlt =>
    rcases hread _ (by omega) rfl with hnone | hsome
    · rw [hnone] at h
      cases h
    · rw [hsome] at h
      cases h
      rw [writeData_getD _ _ (by simpa using hge) (by simpa using hi)]
      simp [List.getD_eq_getElem?_getD, hi]
  next hge' =>
    cases h
    rw [if_pos (by omega), show dev.blockSeek = 0 by omega]
    simp [List.getD_eq_getElem?_getD, show i < buf.length by omega]

/-! ## NAND -/

/-- What a successful update has done on NAND. -/
theorem flashWriteBuf_nand (hnand : dev.mtdType = .nand) {ret : Nat} {f' : Mem}
    (h : dev.flashWriteBuf junk buf dev.devoff f = (some ret, f')) : ∃ bytes, dev.writeData buf dev.devoff f = some bytes ∧
      ∃ k ≤ dev.blocks.length, dev.writeTotal dev.blockSeek buf.length = k * dev.eraseSize ∧
        f' = writeBlocks dev.eraseSize (fun i => bytes.getD i (junk i)) 0 (dev.blocks.take k) f := by
  obtain ⟨k, hW, -⟩ := dev.writeTotal_spec dev.blockSeek buf.length
  rw [flashWriteBuf] at h
  split at h
  next => cases h
  next bytes hbytes =>
    refine ⟨bytes, hbytes, k, ?_⟩
    change dev.writeLoop _ (if dev.mtdType = .nand then _ else _) (dev.writeTotal dev.blockSeek buf.length) dev.topOfRange
      ((dev.topOfRange - dev.eraseOffset) / dev.eraseSize + 2) dev.eraseOffset 0 f = _ at h
    rw [if_pos hnand, range_div, hW] at h
    obtain ⟨hok, hfail⟩ := writeLoop_nand hnand (fun i => bytes.getD i (junk i)) dev.envSectors dev.eraseOffset k 0 _ f
      dev.topOfRange_eq (Nat.zero_add _) le_rfl
    rcases Nat.lt_or_ge dev.blocks.length k with hlt | hle
    · have hnone := hfail hlt
      rw [h] at hnone
      cases hnone
    · rw [hok hle] at h
      cases h
      exact ⟨hle, hW, rfl⟩

theorem frames_nand (hnand : dev.mtdType = .nand) (junk : Nat → UInt8) (buf : List UInt8) (f : Mem) :
    Frames dev junk buf f := by
  intro ret f' h
  have hpos := dev.eraseSize_pos
  obtain ⟨bytes, hbytes, k, hk, hW, rfl⟩ := flashWriteBuf_nand hnand h
  obtain ⟨k', hW', hge, -⟩ := dev.writeTotal_spec dev.blockSeek buf.length
  rw [← hW', hW] at hge
  have hread : ∀ n, 0 < n → n = dev.writeTotal dev.blockSeek buf.length → dev.flashReadBuf n dev.eraseOffset f = none ∨
      dev.flashReadBuf n dev.eraseOffset f = some ((List.range n).map fun i => f (place dev.eraseSize dev.blocks i)) := by
    intro n hn _
    rw [flashReadBuf_nand hnand f dev.eraseOffset_div hn, Nat.sub_self, List.range_eq_range']
    split
    next => exact Or.inr rfl
    next => exact Or.inl rfl
  have hdata : ∀ i < k * dev.eraseSize, bytes.getD i (junk i) =
      if dev.blockSeek ≤ i ∧ i < dev.blockSeek + buf.length then buf.getD (i - dev.blockSeek) 0
      else f (place dev.eraseSize dev.blocks i) := fun i hi => writeData_some junk hread hbytes (hW ▸ hi)
  have hsep : Separate dev.eraseSize (dev.blocks.take k) :=
    (goodBlocks_separate _ _ _ _).sublist (List.take_sublist _ _)
  have hlen : (dev.blocks.take k).length = k := by rw [List.length_take]; omega
  have hplace : ∀ i < k * dev.eraseSize,
      writeBlocks dev.eraseSize (fun i => bytes.getD i (junk i)) 0 (dev.blocks.take k) f
        (place dev.eraseSize dev.blocks i) = bytes.getD i (junk i) := by
    intro i hi
    rw [Nat.mul_comm] at hi
    rw [← place_take hi, writeBlocks_place hpos hsep (by rw [hlen]; exact hi), Nat.zero_add]
  constructor
  · rcases Nat.eq_zero_or_pos buf.length with hzero | hcount
    · rw [List.length_eq_zero_iff.mp hzero, flashReadBuf, if_pos hnand]
      rfl
    · have hfits : dev.devoff - dev.eraseOffset + buf.length ≤ dev.eraseSize * dev.blocks.length := by
        have hmul := Nat.mul_le_mul_left dev.eraseSize hk
        rw [Nat.mul_comm] at hmul
        exact hge.trans hmul
      rw [flashReadBuf_nand hnand _ rfl hcount, if_pos hfits, Option.some_inj]
      apply List.ext_getElem
      · simp
      · intro j h1 h2
        have hj : dev.blockSeek + j < k * dev.eraseSize := by omega
        simp only [List.getElem_map, List.getElem_range', Nat.one_mul]
        change writeBlocks _ _ _ _ _ (place _ _ (dev.blockSeek + j)) = _
        rw [hplace _ hj, hdata _ hj, if_pos (by omega), Nat.add_sub_cancel_left]
        simp [List.getD_eq_getElem?_getD, h2]
  · intro a ha
    by_cases hblock : ∃ b ∈ dev.blocks.take k, b ≤ a ∧ a < b + dev.eraseSize
    · obtain ⟨b, hb, hle, hlt⟩ := hblock
      obtain ⟨i, hi, hia⟩ := exists_place hpos hb hle hlt
      rw [hlen] at hi
      rw [place_take hi] at hia
      rw [Nat.mul_comm] at hi
      rw [envPlaces, if_pos hnand] at ha
      rw [← hia, hplace i hi, hdata i hi, if_neg]
      rintro ⟨hge', hlt'⟩
      exact ha (hia ▸ List.mem_map_of_mem (List.mem_range'_1.mpr ⟨hge', hlt'⟩))
    · refine writeBlocks_outside fun b hb => ?_
      by_contra hno
      exact hblock ⟨b, hb, by omega, by omega⟩

/-! ## NOR -/

theorem writeTotal_one (hpos : 0 < seek + count) (hle : seek + count ≤ dev.eraseSize) :
    dev.writeTotal seek count = dev.eraseSize := by
  obtain ⟨k, hW, hge, hlt⟩ := dev.writeTotal_spec seek count
  have hk : k = 1 := by
    have h0 : k ≠ 0 := by
      rintro rfl
      omega
    have h2 : k < 2 := by
      by_contra hk
      have hmul := Nat.mul_le_mul_right dev.eraseSize (show 2 ≤ k by omega)
      omega
    omega
  rw [hW, hk, Nat.one_mul]

theorem writeData_length (hnor : dev.mtdType ≠ .nand) {bytes : List UInt8}
    (h : dev.writeData buf dev.devoff f = some bytes) : bytes.length = dev.writeTotal dev.blockSeek buf.length := by
  obtain ⟨k, hW, hge, -⟩ := dev.writeTotal_spec dev.blockSeek buf.length
  rw [← hW] at hge
  rw [writeData] at h
  change (if buf.length < dev.writeTotal dev.blockSeek buf.length then
    (dev.flashReadBuf (dev.writeTotal dev.blockSeek buf.length) dev.eraseOffset f).map fun data =>
      data.take dev.blockSeek ++ buf ++ data.drop (dev.blockSeek + buf.length) else some buf) = some bytes at h
  rw [flashReadBuf_nor hnor] at h
  split at h
  next =>
    cases h
    simp only [List.length_append, List.length_take, List.length_drop, Mem.read_length]
    omega
  next =>
    cases h
    omega

/-- On NOR the loop ends after one round, or fails in the second one. -/
theorem flashWriteBuf_nor (hnor : dev.mtdType ≠ .nand) (junk : Nat → UInt8) (buf : List UInt8) (f : Mem) :
    ∃ bytes, dev.writeData buf dev.devoff f = some bytes ∧
      (dev.blockSeek + buf.length = 0 → dev.flashWriteBuf junk buf dev.devoff f = (some 0, f)) ∧
      (0 < dev.blockSeek + buf.length → dev.blockSeek + buf.length ≤ dev.eraseSize →
        dev.flashWriteBuf junk buf dev.devoff f = (some dev.eraseSize, f.write dev.eraseOffset
          ((List.range (dev.envSectors * dev.eraseSize)).map fun i => bytes.getD i (junk i)))) ∧
      (dev.eraseSize < dev.blockSeek + buf.length → (dev.flashWriteBuf junk buf dev.devoff f).1 = none) := by
  have hpos := dev.eraseSize_pos
  have hgood : ∀ o, dev.flashBadBlock o = false := by
    intro o
    simp [flashBadBlock, hnor]
  obtain ⟨bytes, hbytes⟩ : ∃ bytes, dev.writeData buf dev.devoff f = some bytes := by
    rw [writeData]
    split
    next => exact ⟨_, by rw [flashReadBuf_nor hnor]; rfl⟩
    next => exact ⟨buf, rfl⟩
  have hrun : dev.flashWriteBuf junk buf dev.devoff f =
      dev.writeLoop (fun i => bytes.getD i (junk i)) (dev.envSectors * dev.eraseSize)
        (dev.writeTotal dev.blockSeek buf.length) dev.topOfRange (dev.envSectors + 2) dev.eraseOffset 0 f := by
    rw [flashWriteBuf, hbytes]
    change dev.writeLoop _ (if dev.mtdType = .nand then _ else dev.topOfRange - dev.eraseOffset) _ _
      ((dev.topOfRange - dev.eraseOffset) / dev.eraseSize + 2) _ _ _ = _
    rw [if_neg hnor, range_div, topOfRange_eq, Nat.add_sub_cancel_left]
    rfl
  have hround : 0 < dev.writeTotal dev.blockSeek buf.length → dev.flashWriteBuf junk buf dev.devoff f =
      dev.writeLoop (fun i => bytes.getD i (junk i)) (dev.envSectors * dev.eraseSize)
        (dev.writeTotal dev.blockSeek buf.length) dev.topOfRange (dev.envSectors + 1) (dev.eraseOffset + dev.eraseSize)
        dev.eraseSize (f.write dev.eraseOffset
          ((List.range (dev.envSectors * dev.eraseSize)).map fun i => bytes.getD i (junk i))) := by
    intro htotal
    rw [hrun, writeLoop, if_pos htotal, if_neg (by rw [topOfRange_eq]; omega), hgood]
    simp only [Bool.false_eq_true, if_false, Nat.zero_add]
    rw [erase_write _ _ _ _ _ (by simp)]
  refine ⟨bytes, hbytes, fun hzero => ?_, fun h1 h2 => ?_, fun hmany => ?_⟩
  · have hW : dev.writeTotal dev.blockSeek buf.length = 0 := by
      rw [writeTotal, hzero, Nat.zero_add, Nat.div_eq_of_lt (by omega), Nat.zero_mul]
    rw [hrun, hW]
    rfl
  · have hW := writeTotal_one h1 h2
    rw [hround (by omega), hW, writeLoop, if_neg (lt_irrefl _)]
  · obtain ⟨k, hW, hge, -⟩ := dev.writeTotal_spec dev.blockSeek buf.length
    rw [hround (by omega), writeLoop, if_pos (by omega), if_pos (by rw [topOfRange_eq]; omega)]

theorem frames_nor_iff (hnor : dev.mtdType ≠ .nand) (junk : Nat → UInt8) (buf : List UInt8) (f : Mem) :
    Frames dev junk buf f ↔ (0 < dev.blockSeek + buf.length → dev.blockSeek + buf.length ≤ dev.eraseSize →
      SectorsKept dev junk buf f) := by
  obtain ⟨bytes, hbytes, hzero, hone, hmany⟩ := flashWriteBuf_nor hnor junk buf f
  have hdev := dev.eraseOffset_add
  have hlen := writeData_length hnor hbytes
  obtain ⟨g, hg⟩ : ∃ g, g = f.write dev.eraseOffset
      ((List.range (dev.envSectors * dev.eraseSize)).map fun i => bytes.getD i (junk i)) := ⟨_, rfl⟩
  have hwritten : ∀ i < dev.envSectors * dev.eraseSize, g (dev.eraseOffset + i) = bytes.getD i (junk i) := by
    intro i hi
    rw [hg, Mem.write_of_mem (by simpa using hi)]
    simp [List.getD_eq_getElem?_getD, hi]
  have hnone : dev.envSectors = 0 → g = f := by
    intro hS
    rw [hg, hS, Nat.zero_mul]
    funext a
    exact if_neg (by simp)
  have hread : ∀ n, 0 < n → n = dev.writeTotal dev.blockSeek buf.length → dev.flashReadBuf n dev.eraseOffset f = none ∨
      dev.flashReadBuf n dev.eraseOffset f = some ((List.range n).map fun i => f (dev.eraseOffset + i)) :=
    fun n _ _ => Or.inr (flashReadBuf_nor hnor f n dev.eraseOffset)
  constructor
  · intro h h1 h2
    obtain ⟨hback, hframe⟩ := h _ _ (hone h1 h2)
    rw [← hg] at hback hframe
    refine ⟨fun hS => ?_, fun i hE hi => ?_⟩
    · rw [flashReadBuf_nor hnor, hnone hS] at hback
      exact Option.some.inj hback
    · have hout : dev.eraseOffset + i ∉ dev.envPlaces buf.length := by
        rw [envPlaces, if_neg hnor, List.mem_range'_1]
        omega
      rw [← hframe _ hout, hwritten i hi, List.getD_eq_default _ _ (by rw [hlen, writeTotal_one h1 h2]; exact hE)]
  · intro h ret f' hret
    rcases Nat.eq_zero_or_pos (dev.blockSeek + buf.length) with h0 | h1
    · rw [hzero h0] at hret
      cases hret
      rw [flashReadBuf_nor hnor, List.length_eq_zero_iff.mp (show buf.length = 0 by omega)]
      exact ⟨rfl, fun _ _ => rfl⟩
    rcases Nat.lt_or_ge dev.eraseSize (dev.blockSeek + buf.length) with hlt | h2
    · have hfail := hmany hlt
      rw [hret] at hfail
      cases hfail
    have hkept := h h1 h2
    rw [hone h1 h2, ← hg] at hret
    cases hret
    rw [flashReadBuf_nor hnor, envPlaces, if_neg hnor]
    rcases Nat.eq_zero_or_pos dev.envSectors with hS | hS
    · rw [hnone hS, hkept.unwritten hS]
      exact ⟨rfl, fun _ _ => rfl⟩
    have hsectors : dev.eraseSize ≤ dev.envSectors * dev.eraseSize := Nat.le_mul_of_pos_left _ hS
    -- the block of the environment
    have hblock : ∀ i < dev.eraseSize, g (dev.eraseOffset + i) =
        if dev.blockSeek ≤ i ∧ i < dev.blockSeek + buf.length then buf.getD (i - dev.blockSeek) 0
        else f (dev.eraseOffset + i) := by
      intro i hi
      rw [hwritten i (by omega)]
      exact writeData_some junk hread hbytes (by rw [writeTotal_one h1 h2]; exact hi)
    constructor
    · rw [Option.some_inj, Mem.read_eq_iff]
      intro j hj
      rw [← hdev, Nat.add_assoc, hblock _ (by omega), if_pos (by omega), Nat.add_sub_cancel_left]
    · intro a ha
      rw [List.mem_range'_1] at ha
      rcases Nat.lt_or_ge a dev.eraseOffset with hlt | hge
      · rw [hg, Mem.write_of_lt hlt]
      obtain ⟨i, rfl⟩ := Nat.exists_eq_add_of_le hge
      rcases Nat.lt_or_ge i dev.eraseSize with hi | hi
      · rw [hblock i hi, if_neg (by omega)]
      rcases Nat.lt_or_ge i (dev.envSectors * dev.eraseSize) with hi' | hi'
      · rw [hwritten i hi', List.getD_eq_default _ _ (by rw [hlen, writeTotal_one h1 h2]; exact hi)]
        exact hkept.behind i hi hi'
      · rw [hg, Mem.write_of_ge (by simpa using hi')]

/-- When an update of the flash changes the environment and nothing else. -/
theorem flash_write_frames_iff (dev : EnvDev) (junk : Nat → UInt8) (buf : List UInt8) (f : Mem) :
    Frames dev junk buf f ↔ dev.mtdType = .nand ∨ (0 < dev.blockSeek + buf.length →
      dev.blockSeek + buf.length ≤ dev.eraseSize → SectorsKept dev junk buf f) := by
  by_cases hnand : dev.mtdType = .nand
  · exact ⟨fun _ => Or.inl hnand, fun _ => frames_nand hnand junk buf f⟩
  · rw [frames_nor_iff hnand]
    exact ⟨Or.inr, fun h => h.resolve_left hnand⟩

end

/-- NOR flash with two sectors for an environment that fits into one. -/
def norTwoSectors : EnvDev := ⟨0, 16, 32, 2, .nor, fun _ => false, by decide⟩

/-- The second sector gets what is behind the buffer in memory. -/
theorem nor_update_spoils_second_sector :
    (norTwoSectors.flashWriteBuf (fun _ => 0) (List.replicate 16 1) 0 fun _ => 7).1 = some 32 ∧
      (norTwoSectors.flashWriteBuf (fun _ => 0) (List.replicate 16 1) 0 fun _ => 7).2 40 = 0 ∧
        ¬ Frames norTwoSectors (fun _ => 0) (List.replicate 16 1) fun _ => 7 := by
  have hret : (norTwoSectors.flashWriteBuf (fun _ => 0) (List.replicate 16 1) 0 fun _ => 7).1 = some 32 := by
    decide
  have hbyte : (norTwoSectors.flashWriteBuf (fun _ => 0) (List.replicate 16 1) 0 fun _ => 7).2 40 = 0 := by
    decide
  refine ⟨hret, hbyte, fun h => ?_⟩
  have hframe := (h 32 (norTwoSectors.flashWriteBuf (fun _ => 0) (List.replicate 16 1) 0 fun _ => 7).2
    (Prod.ext hret rfl)).2 40 (by decide)
  exact absurd (hbyte.symm.trans hframe) (by decide)

end Uboot.FwEnv.EnvDev
