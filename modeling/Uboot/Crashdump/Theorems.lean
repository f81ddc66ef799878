import Uboot.Crashdump.Basic

/-!
# The dump on the flash
-/

namespace Uboot.Crashdump

open Lib

/-- The log holds `bytes` in whole units, one after the other from `start` on. -/
structure Placed (b : Backend) (writeSize start : Nat) (log : Log) (bytes : List UInt8) : Prop where
  numbers : log.map Prod.fst = (List.range log.length).map fun k => b.number (start + k * b.perUnit writeSize)
  whole : ∀ w ∈ log, w.2.length = writeSize
  flat : (log.map Prod.snd).flatten = bytes

section
variable {b : Backend} {writeSize start : Nat} {log : Log} {xs ys data piece : List UInt8} {c : Cxt} {fate : Nat → Bool}

/-! ## One write of the device -/

theorem numbered_length {offset : Nat} {units : List (List UInt8)} :
    (numbered b writeSize offset units).length = units.length := by
  simp [numbered]

theorem numbered_snd {offset : Nat} (units : List (List UInt8)) :
    (numbered b writeSize offset units).map Prod.snd = units := by
  apply List.ext_getElem
  · simp [numbered]
  · intro i h1 h2
    simp [numbered]

theorem numbered_fst {offset : Nat} (units : List (List UInt8)) :
    (numbered b writeSize offset units).map Prod.fst =
      (List.range units.length).map fun k => b.number (offset + k * b.perUnit writeSize) := by
  apply List.ext_getElem
  · simp [numbered]
  · intro i h1 h2
    simp [numbered]

theorem Placed.append (h : Placed b writeSize start log xs) (hdvd : writeSize ∣ ys.length) :
    Placed b writeSize start
      (log ++ numbered b writeSize (start + log.length * b.perUnit writeSize) (pages writeSize ys)) (xs ++ ys) := by
  refine ⟨?_, ?_, ?_⟩
  · rw [List.map_append, h.numbers, numbered_fst, List.length_append, numbered_length, List.range_add, List.map_append,
      List.map_map]
    congr 2
    funext k
    simp only [Function.comp_apply, Nat.add_mul, Nat.add_assoc]
  · intro w hw
    rcases List.mem_append.mp hw with hw | hw
    · exact h.whole w hw
    · have hmem : w.2 ∈ pages writeSize ys := by
        rw [← numbered_snd (pages writeSize ys)]
        exact List.mem_map_of_mem hw
      exact length_of_mem_pages hmem
  · rw [List.map_append, numbered_snd, List.flatten_append, h.flat, pages_flatten hdvd]

theorem Placed.length (h : Placed b writeSize start log xs) : log.length * writeSize = xs.length := by
  have hlens : (log.map Prod.snd).map List.length = log.map fun _ => writeSize := by
    rw [List.map_map]
    exact List.map_congr_left h.whole
  rw [← h.flat, List.length_flatten, hlens]
  simp

/-! ## The buffer -/

/-- Of the data so far, the units `xs` are on the flash and the rest is in the buffer. -/
structure Inv (b : Backend) (writeSize start : Nat) (data : List UInt8) (c : Cxt) (log : Log) : Prop where
  size : c.writeSize = writeSize
  short : c.curDataLen < writeSize
  offset : c.curCrashdumpOffset = start + log.length * b.perUnit writeSize
  stored : ∃ xs tail, Placed b writeSize start log xs ∧ c.tempData.Holds 0 tail ∧ c.curDataLen = tail.length ∧
    xs ++ tail = data

theorem deviceWrite_placed (h : Placed b writeSize start log xs) (hfate : ∀ k, fate k = true) {bytes : List UInt8}
    (hdvd : writeSize ∣ bytes.length) :
    ∃ log', deviceWrite b fate writeSize (start + log.length * b.perUnit writeSize) bytes log = some log' ∧
      Placed b writeSize start log' (xs ++ bytes) ∧ log'.length = log.length + bytes.length / writeSize := by
  refine ⟨_, if_pos (hfate _), h.append hdvd, ?_⟩
  rw [List.length_append, numbered_length, pages_length]

/-- The units of the rest of a piece, which may be none. -/
theorem writeUnits_placed (h : Placed b writeSize start log xs) (hfate : ∀ k, fate k = true) (hpos : 0 < writeSize)
    (rest : List UInt8) :
    ∃ log', (if rest.length / writeSize * writeSize > 0 then
          deviceWrite b fate writeSize (start + log.length * b.perUnit writeSize)
            (rest.take (rest.length / writeSize * writeSize)) log
        else some log) = some log' ∧
      Placed b writeSize start log' (xs ++ rest.take (rest.length / writeSize * writeSize)) ∧
      log'.length = log.length + rest.length / writeSize := by
  have hle : rest.length / writeSize * writeSize ≤ rest.length := Nat.div_mul_le_self _ _
  have htake : (rest.take (rest.length / writeSize * writeSize)).length = rest.length / writeSize * writeSize := by
    rw [List.length_take]
    omega
  split
  next =>
    obtain ⟨log', hwrite, hplaced, hlen⟩ := deviceWrite_placed h hfate
      (show writeSize ∣ (rest.take (rest.length / writeSize * writeSize)).length by
        rw [htake]
        exact Nat.dvd_mul_left _ _)
    rw [htake, Nat.mul_div_cancel _ hpos] at hlen
    exact ⟨log', hwrite, hplaced, hlen⟩
  next hzero =>
    have hz : rest.length / writeSize = 0 := by
      rcases Nat.mul_eq_zero.mp (Nat.eq_zero_of_not_pos hzero) with hz | hz
      · exact hz
      · omega
    refine ⟨log, rfl, ?_, by omega⟩
    rw [hz, Nat.zero_mul, List.take_zero, List.append_nil]
    exact h

theorem holds_extend {m : Mem} {tail bytes : List UInt8} (h : m.Holds 0 tail) :
    (m.write tail.length bytes).Holds 0 (tail ++ bytes) := by
  refine Mem.holds_append.mpr ⟨h.write (Or.inr (by simp)), ?_⟩
  rw [Nat.zero_add]
  exact Mem.holds_write

/-- The buffer with a full unit. -/
theorem read_extend {m : Mem} {tail bytes : List UInt8} (h : m.Holds 0 tail)
    (hunit : (tail ++ bytes).length = writeSize) : (m.write tail.length bytes).read 0 writeSize = tail ++ bytes := by
  rw [← hunit]
  exact holds_extend h

/-- One piece. -/
theorem writeData_inv (h : Inv b writeSize start data c log) (hfate : ∀ k, fate k = true)
    (htotal : (data ++ piece).length < 2 ^ 31) :
    ∃ c' log', writeData b fate piece c log = some (c', log') ∧ Inv b writeSize start (data ++ piece) c' log' := by
  obtain ⟨rfl, hshort, hoffset, xs, tail, hplaced, hholds, hlen, rfl⟩ := h
  have hpos : 0 < c.writeSize := by omega
  simp only [List.length_append] at htotal
  have hmod : (c.curDataLen + piece.length) % 2 ^ 32 = c.curDataLen + piece.length := Nat.mod_eq_of_lt (by omega)
  rw [writeData, hmod]
  split
  next hfit =>
    refine ⟨_, _, rfl, rfl, hfit, hoffset, xs, tail ++ piece, hplaced, ?_, by simp [hlen], by simp⟩
    simp only [hlen]
    exact holds_extend hholds
  next hfull =>
    -- the buffer is filled up to one unit, then come the units of the rest of the piece
    dsimp only
    generalize hhead : piece.take (c.writeSize - c.curDataLen) = head
    generalize hrest : piece.drop (c.writeSize - c.curDataLen) = rest
    have hpiece : piece = head ++ rest := by rw [← hhead, ← hrest, List.take_append_drop]
    have hunit : (tail ++ head).length = c.writeSize := by
      rw [List.length_append, ← hhead, List.length_take]
      omega
    have hread : (c.tempData.write c.curDataLen head).read 0 c.writeSize = tail ++ head := by
      rw [hlen]
      exact read_extend hholds hunit
    obtain ⟨log₁, hwrite₁, hplaced₁, hlen₁⟩ := deviceWrite_placed hplaced hfate (dvd_of_eq hunit.symm)
    rw [hunit, Nat.div_self hpos] at hlen₁
    have hoff₁ : start + log.length * b.perUnit c.writeSize + b.perUnit c.writeSize =
        start + log₁.length * b.perUnit c.writeSize := by
      rw [hlen₁, Nat.add_mul, Nat.one_mul, Nat.add_assoc]
    obtain ⟨log₂, hwrite₂, hplaced₂, hlen₂⟩ := writeUnits_placed hplaced₁ hfate hpos rest
    simp only [hread, hoffset, hwrite₁, hoff₁, hwrite₂]
    refine ⟨_, _, rfl, rfl, ?_, ?_, _, rest.drop (rest.length / c.writeSize * c.writeSize), hplaced₂, Mem.holds_write,
      rfl, ?_⟩
    · simp only [List.length_drop]
      have := Nat.lt_div_mul_add hpos (a := rest.length)
      omega
    · rw [hlen₂, Nat.add_mul, Nat.add_assoc]
    · rw [hpiece]
      simp

theorem writeAll_inv {pieces : List (List UInt8)} (h : Inv b writeSize start data c log) (hfate : ∀ k, fate k = true)
    (htotal : (data ++ pieces.flatten).length < 2 ^ 31) :
    ∃ c' log', writeAll b fate pieces c log = some (c', log') ∧
      Inv b writeSize start (data ++ pieces.flatten) c' log' := by
  induction pieces generalizing data c log with
  | nil => exact ⟨c, log, rfl, by simpa using h⟩
  | cons piece pieces ih =>
      rw [List.flatten_cons, ← List.append_assoc] at htotal ⊢
      have hfirst : (data ++ piece).length < 2 ^ 31 := by
        rw [List.length_append] at htotal
        omega
      obtain ⟨c₁, log₁, hwrite, h₁⟩ := writeData_inv h hfate hfirst
      obtain ⟨c', log', hall, h'⟩ := ih h₁ htotal
      exact ⟨c', log', by rw [writeAll, hwrite]; exact hall, h'⟩

/-! ## The whole dump -/

/-- Up to a whole number of units. -/
def padded (writeSize : Nat) (data : List UInt8) : List UInt8 :=
  data ++ List.replicate ((writeSize - data.length % writeSize) % writeSize) 0xFF

theorem deinit_placed (h : Inv b writeSize start data c log) (hfate : ∀ k, fate k = true) :
    ∃ log', deinit b fate c log = some log' ∧ Placed b writeSize start log' (padded writeSize data) := by
  obtain ⟨rfl, hshort, hoffset, xs, tail, hplaced, hholds, hlen, rfl⟩ := h
  have hmod : (xs ++ tail).length % c.writeSize = tail.length := by
    rw [List.length_append, ← hplaced.length, Nat.mul_comm, Nat.mul_add_mod, Nat.mod_eq_of_lt (by omega)]
  rw [padded, hmod, deinit]
  split
  next hne =>
    have hpad : (c.writeSize - tail.length) % c.writeSize = c.writeSize - tail.length := Nat.mod_eq_of_lt (by omega)
    have hunit : (tail ++ List.replicate (c.writeSize - tail.length) (0xFF : UInt8)).length = c.writeSize := by
      rw [List.length_append, List.length_replicate]
      omega
    obtain ⟨log', hwrite, hplaced', -⟩ := deviceWrite_placed hplaced hfate (dvd_of_eq hunit.symm)
    refine ⟨log', ?_, ?_⟩
    · dsimp only
      rw [← hwrite, hoffset, hlen, read_extend hholds hunit]
    · rw [hpad, List.append_assoc]
      exact hplaced'
  next hzero =>
    have hnil : tail = [] := List.length_eq_zero_iff.mp (by omega)
    refine ⟨log, rfl, ?_⟩
    rw [hnil, List.length_nil, Nat.sub_zero, Nat.mod_self, List.replicate_zero, List.append_nil, List.append_nil]
    exact hplaced

theorem init_inv {flash : Flash} {erased : Bool} {tempData : Mem} (h : init b flash erased start tempData = some c) :
    Inv b flash.writeSize start [] c [] := by
  unfold init at h
  split at h
  · cases h
  split at h
  · cases h
  cases h
  exact ⟨rfl, flash.pos, by simp, [], [], ⟨rfl, by simp, rfl⟩, rfl, rfl, rfl⟩

theorem dump_placed {flash : Flash} {erased : Bool} {tempData : Mem} {pieces : List (List UInt8)}
    (h : (init b flash erased start tempData).isSome) (hfate : ∀ k, fate k = true)
    (htotal : pieces.flatten.length < 2 ^ 31) :
    ∃ log, dump b flash erased fate start tempData pieces = some log ∧
      Placed b flash.writeSize start log (padded flash.writeSize pieces.flatten) := by
  obtain ⟨c, hc⟩ := Option.isSome_iff_exists.mp h
  have htotal : ([] ++ pieces.flatten).length < 2 ^ 31 := htotal
  obtain ⟨c₁, log₁, hall, hinv⟩ := writeAll_inv (init_inv hc) hfate htotal
  obtain ⟨log, hdeinit, hplaced⟩ := deinit_placed hinv hfate
  refine ⟨log, ?_, hplaced⟩
  rw [dump, hc]
  simp only [hall]
  exact hdeinit

/-- The units that `data` needs. -/
def unitCount (writeSize : Nat) (data : List UInt8) : Nat := (data.length + writeSize - 1) / writeSize

theorem padded_length (hpos : 0 < writeSize) : (padded writeSize data).length = unitCount writeSize data * writeSize := by
  have hlen := Nat.div_add_mod data.length writeSize
  have hlt := Nat.mod_lt data.length hpos
  rw [padded, List.length_append, List.length_replicate, unitCount]
  generalize data.length / writeSize = q at hlen
  generalize data.length % writeSize = r at hlen hlt ⊢
  rw [Nat.mul_comm] at hlen
  rcases Nat.eq_zero_or_pos r with rfl | hr
  · have hq : (data.length + writeSize - 1) / writeSize = q :=
      Nat.div_eq_of_lt_le (by omega) (by rw [Nat.add_mul, Nat.one_mul]; omega)
    rw [hq, Nat.sub_zero, Nat.mod_self]
    omega
  · have hq : (data.length + writeSize - 1) / writeSize = q + 1 :=
      Nat.div_eq_of_lt_le (by rw [Nat.add_mul, Nat.one_mul]; omega) (by simp only [Nat.add_mul, Nat.one_mul]; omega)
    rw [hq, Nat.mod_eq_of_lt (by omega), Nat.add_mul, Nat.one_mul]
    omega

/-- The data padded to whole units is on the flash, each unit written once and in order, from `start` on. -/
structure Stored (b : Backend) (writeSize start : Nat) (data : List UInt8) (log : Log) : Prop where
  numbers : log.map Prod.fst = (List.range log.length).map fun k => start + k * b.perUnit writeSize
  whole : ∀ w ∈ log, w.2.length = writeSize
  flat : (log.map Prod.snd).flatten = padded writeSize data

/-- The block numbers of the eMMC have 32 bits. -/
theorem Placed.stored_iff (h : Placed b writeSize start log (padded writeSize data)) (hpos : 0 < writeSize) :
    Stored b writeSize start data log ↔ b = .nand ∨ data = [] ∨ start + unitCount writeSize data ≤ 2 ^ 32 := by
  have hcount : log.length = unitCount writeSize data :=
    Nat.eq_of_mul_eq_mul_right hpos (h.length.trans (padded_length hpos))
  have hiff : Stored b writeSize start data log ↔
      ∀ k < log.length, b.number (start + k * b.perUnit writeSize) = start + k * b.perUnit writeSize := by
    constructor
    · intro hs k hk
      have heq := h.numbers.symm.trans hs.numbers
      exact List.map_inj_left.mp heq k (List.mem_range.mpr hk)
    · intro hall
      refine ⟨h.numbers.trans (List.map_congr_left fun k hk => hall k (List.mem_range.mp hk)), h.whole, h.flat⟩
  rw [hiff, ← hcount]
  cases b with
  | nand => simp [Backend.number]
  | emmc =>
      simp only [Backend.number, Backend.perUnit, Nat.mul_one, reduceCtorEq, false_or]
      constructor
      · intro hall
        rcases Nat.eq_zero_or_pos log.length with hz | hpos'
        · refine Or.inl (List.length_eq_zero_iff.mp ?_)
          rw [hz] at hcount
          have := (Nat.div_eq_zero_iff.mp hcount.symm)
          omega
        · have hlast := hall (log.length - 1) (by omega)
          have := Nat.mod_lt (start + (log.length - 1)) (show 0 < 2 ^ 32 by decide)
          omega
      · rintro (rfl | hle) k hk
        · rw [hcount, unitCount, List.length_nil, Nat.div_eq_of_lt (by omega)] at hk
          omega
        · exact Nat.mod_eq_of_lt (by omega)

/-- The dump is stored if and only if it is on the NAND, there is no data, or its blocks have numbers below 2 ^ 32. Both
copies write the same bytes. -/
theorem dump_stored_iff {flash : Flash} {erased : Bool} {tempData : Mem} {pieces : List (List UInt8)}
    (h : (init b flash erased start tempData).isSome) (hfate : ∀ k, fate k = true)
    (htotal : pieces.flatten.length < 2 ^ 31) :
    ((∃ log, dump b flash erased fate start tempData pieces = some log ∧
        Stored b flash.writeSize start pieces.flatten log) ↔
      b = .nand ∨ pieces.flatten = [] ∨ start + unitCount flash.writeSize pieces.flatten ≤ 2 ^ 32) ∧
    ∀ b', (init b' flash erased start tempData).isSome →
      (dump b' flash erased fate start tempData pieces).map (fun log => (log.map Prod.snd).flatten) =
        (dump b flash erased fate start tempData pieces).map fun log => (log.map Prod.snd).flatten := by
  obtain ⟨log, hdump, hplaced⟩ := dump_placed h hfate htotal
  constructor
  · rw [← hplaced.stored_iff flash.pos]
    constructor
    · rintro ⟨log', hdump', hstored⟩
      rw [hdump, Option.some.injEq] at hdump'
      exact hdump' ▸ hstored
    · exact fun hstored => ⟨log, hdump, hstored⟩
  · intro b' h'
    obtain ⟨log', hdump', hplaced'⟩ := dump_placed h' hfate htotal
    rw [hdump, hdump', Option.map_some, Option.map_some, hplaced.flat, hplaced'.flat]

end

/-- Blocks of four bytes, and three pieces of which one is empty. -/
theorem dump_stored_iff_example :
    ∃ log, dump .emmc ⟨4, by decide⟩ true (fun _ => true) 7 (fun _ => 0) [[1, 2, 3], [], [4, 5, 6, 7, 8, 9]] = some log ∧
      Stored .emmc 4 7 [1, 2, 3, 4, 5, 6, 7, 8, 9] log :=
  (dump_stored_iff (by decide) (fun _ => rfl) (by decide)).1.mpr (Or.inr (Or.inr (by decide)))

/-- The offset 2 ^ 32 on the eMMC: the dump is written from block 0 on. -/
theorem emmc_offset_wraps :
    ¬ ∃ log, dump .emmc ⟨512, by decide⟩ true (fun _ => true) (2 ^ 32) (fun _ => 0) [[1]] = some log ∧
      Stored .emmc 512 (2 ^ 32) [1] log := by
  rintro ⟨log, hdump, hstored⟩
  have hfirst : ((dump .emmc ⟨512, by decide⟩ true (fun _ => true) (2 ^ 32) (fun _ => 0) [[1]]).map
      fun log => log.map Prod.fst) = some [0] := by
    set_option maxRecDepth 4000 in decide
  rw [hdump, Option.map_some, Option.some.injEq] at hfirst
  have hlen : log.length = 1 := by simpa using congrArg List.length hfirst
  have hnumbers := hstored.numbers
  rw [hfirst, hlen] at hnumbers
  exact absurd hnumbers (by decide)

end Uboot.Crashdump
