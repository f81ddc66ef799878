import Uboot.Mtdparts.RoundTrip
import Uboot.Smem.Text

/-!
# Reading the printed table

The entries up to the first one on NAND belong to the first device of the text, the others to the second one. Every
closing bracket of a text that is parsed closes the name of a partition.
-/

namespace Uboot.Smem

open Lib Vsprintf Mtdparts

/-- An entry and the name that is printed for it. -/
abbrev Entry := SmemPtn × List UInt8

/-- The first `n` entries of a table. -/
def entries (beyond : List UInt8) : Nat → List SmemPtn → List Entry
  | 0, _ => []
  | _, [] => []
  | n + 1, p :: parts => (p, printedName (p :: parts) beyond) :: entries beyond n parts

def entriesText (f : Flashes) (es : List Entry) : List UInt8 := es.flatMap fun e => partText f e.1 e.2

/-- The entries before the first one on NAND. -/
def firstEntries (es : List Entry) : List Entry := es.takeWhile fun e => e.1.whichFlash = 0

def nandEntries (es : List Entry) : List Entry := es.dropWhile fun e => e.1.whichFlash = 0

/-- The partition that is read for an entry. -/
def readPart (f : Flashes) (e : Entry) : PartInfo :=
  ⟨e.2, false, (psize f e.1).toNat % 2 ^ 32, partOffset f e.1, false, 0⟩

section
variable {board : Board} {id : MtdIds} {f : Flashes} {beyond tail rest : List UInt8} {parts : List SmemPtn} {n fuel : Nat}
  {es : List Entry} {e : Entry} {running : Nat}

/-! ## The text by devices -/

theorem partsText_true (n : Nat) (parts : List SmemPtn) :
    partsText f beyond true n parts = entriesText f (entries beyond n parts) := by
  induction n generalizing parts with
  | zero => rfl
  | succ n ih =>
      cases parts with
      | nil => rfl
      | cons p parts =>
          rw [partsText, entries, entriesText, List.flatMap_cons, if_neg (by simp), Bool.true_or, ih]
          rfl

theorem partsText_false (n : Nat) (parts : List SmemPtn) :
    partsText f beyond false n parts = entriesText f (firstEntries (entries beyond n parts)) ++
      if nandEntries (entries beyond n parts) = [] then []
      else 59 :: nandName f ++ 58 :: entriesText f (nandEntries (entries beyond n parts)) := by
  induction n generalizing parts with
  | zero => rfl
  | succ n ih =>
      cases parts with
      | nil => rfl
      | cons p parts =>
          rw [partsText, entries, firstEntries, nandEntries, List.takeWhile_cons, List.dropWhile_cons]
          by_cases hp : p.whichFlash = 0
          · simp only [hp, ne_eq, not_true_eq_false, false_and, if_false, decide_true, if_true, decide_false,
              Bool.or_false, ih, firstEntries, nandEntries, entriesText, List.flatMap_cons, List.nil_append,
              List.append_assoc]
            rfl
          · simp only [hp, ne_eq, not_false_eq_true, and_self, if_true, decide_true, decide_false, Bool.or_true,
              partsText_true, Bool.false_eq_true, if_false, entriesText, List.flatMap_nil, List.flatMap_cons,
              List.nil_append, reduceCtorEq, List.append_assoc, List.cons_append]

/-! ## One device -/

theorem entriesText_head (f : Flashes) (tail : List UInt8) (hne : es ≠ []) : ∃ c t, c ≠ 59 ∧ entriesText f es ++ tail = c :: t := by
  cases es with
  | nil => exact absurd rfl hne
  | cons e es =>
      have hsize : ∃ c t, c ≠ 59 ∧ sizeText (psize f e.1) = c :: t := by
        by_cases hneg : psize f e.1 < 0
        · refine ⟨45, numeral 10 (psize f e.1).natAbs ++ [64], by decide, ?_⟩
          rw [sizeText, if_neg (by omega), if_neg (by omega), lld, if_pos hneg]
          rfl
        · obtain ⟨d, ds, hd, hds⟩ := sizeText_digit (i := psize f e.1) (by omega)
          exact ⟨_, ds, (digit_ne hd).2, hds⟩
      obtain ⟨c, t, hc, ht⟩ := hsize
      exact ⟨c, _, hc, by rw [entriesText, List.flatMap_cons, partText, ht]; rfl⟩

/-- The entries are read and checked. -/
def Accepted (board : Board) (id : MtdIds) (f : Flashes) (e : Entry) : Prop :=
  ReadsBack f e.1 e.2 ∧ partFits board id (partOffset f e.1) ((psize f e.1).toNat % 2 ^ 32) = true

instance (board : Board) (id : MtdIds) (f : Flashes) (e : Entry) : Decidable (Accepted board id f e) :=
  inferInstanceAs (Decidable (_ ∧ _))

theorem partsParse_entry (hmem : 41 ∉ e.2) (hoff : partOffset f e.1 < 2 ^ 32 - 1) :
    partsParse board id (fuel + 1) (partText f e.1 e.2 ++ rest) running =
      if Accepted board id f e then
        if rest.head?.all (· == 59) then some ([readPart f e], rest)
        else (partsParse board id fuel rest ((partOffset f e.1 + (psize f e.1).toNat % 2 ^ 32) % 2 ^ 32)).map
          fun (parts, p) => (readPart f e :: parts, p)
      else none := by
  have hoffset : partOffset f e.1 % 2 ^ 32 = partOffset f e.1 := Nat.mod_eq_of_lt (by omega)
  have hne : partOffset f e.1 ≠ offsetNotSpecified := by
    rw [offsetNotSpecified]
    omega
  have hparse := partParse_partText (f := f) (p := e.1) hmem rest
  rw [hoffset] at hparse
  rw [partsParse, hparse]
  by_cases hread : ReadsBack f e.1 e.2
  swap
  · rw [if_neg hread, if_neg fun h => hread h.1]
    rfl
  have hvalid : partValidate board id (readPart f e) =
      if partFits board id (partOffset f e.1) ((psize f e.1).toNat % 2 ^ 32) then some (readPart f e) else none := by
    rw [partValidate]
    have hfill : (readPart f e).size ≠ sizeRemaining := hread.2.2.1
    simp only [if_neg hfill]
    rfl
  rw [if_pos hread, Option.bind_some]
  dsimp only
  rw [if_neg hne]
  change (partValidate board id (readPart f e)).bind _ = _
  rw [hvalid]
  by_cases hfits : partFits board id (partOffset f e.1) ((psize f e.1).toNat % 2 ^ 32) = true
  swap
  · rw [if_neg hfits, if_neg fun h => hfits h.2]
    rfl
  rw [if_pos hfits, if_pos ⟨hread, hfits⟩, Option.bind_some]
  split
  next => rfl
  next => rfl
  next hnil hsemi =>
    rw [if_neg]
    · rfl
    · cases rest with
      | nil => exact absurd rfl hnil
      | cons c rest =>
          intro hc
          have hc : c = 59 := by simpa using hc
          exact hsemi rest (by rw [hc])

/-- What is read of the entries of one device. -/
theorem partsParse_entries (hne : es ≠ []) (hmem : ∀ e ∈ es, 41 ∉ e.2) (hoff : ∀ e ∈ es, partOffset f e.1 < 2 ^ 32 - 1)
    (htail : ∀ c ∈ tail.head?, c = 59) (hfuel : es.length ≤ fuel) (running : Nat) :
    partsParse board id fuel (entriesText f es ++ tail) running =
      if ∀ e ∈ es, Accepted board id f e then some (es.map (readPart f), tail) else none := by
  induction es generalizing fuel running with
  | nil => exact absurd rfl hne
  | cons e es ih =>
      obtain ⟨fuel, rfl⟩ : ∃ m, fuel = m + 1 := ⟨fuel - 1, by simp at hfuel; omega⟩
      have htext : entriesText f (e :: es) ++ tail = partText f e.1 e.2 ++ (entriesText f es ++ tail) := by
        rw [entriesText, List.flatMap_cons, List.append_assoc]
        rfl
      rw [htext, partsParse_entry (hmem e (by simp)) (hoff e (by simp))]
      by_cases he : Accepted board id f e
      swap
      · rw [if_neg he, if_neg fun h => he (h e (by simp))]
      rw [if_pos he]
      cases es with
      | nil =>
          have hlast : (entriesText f [] ++ tail).head?.all (· == 59) = true := by
            cases tail with
            | nil => rfl
            | cons c tail =>
                cases htail c rfl
                rfl
          rw [if_pos hlast, if_pos (by simpa using he)]
          rfl
      | cons e' es =>
          obtain ⟨c, t, hc, ht⟩ := entriesText_head f tail (show e' :: es ≠ [] by simp)
          have hmore : ¬ (entriesText f (e' :: es) ++ tail).head?.all (· == 59) = true := by
            rw [ht]
            simpa using hc
          have hrest := ih (by simp) (fun x hx => hmem x (List.mem_cons_of_mem _ hx))
            (fun x hx => hoff x (List.mem_cons_of_mem _ hx)) (by simpa using hfuel)
          rw [if_neg hmore, hrest]
          by_cases hall : ∀ x ∈ e' :: es, Accepted board id f x
          · rw [if_pos hall, if_pos (List.forall_mem_cons.mpr ⟨he, hall⟩)]
            rfl
          · rw [if_neg hall, if_neg fun h => hall (List.forall_mem_cons.mp h).2]
            rfl

/-! ## Closing brackets -/

theorem strtoulLoop_count (base : Nat) (p : List UInt8) (r : Nat) : (strtoulLoop base p r).2.count 41 = p.count 41 := by
  induction p generalizing r with
  | nil => rfl
  | cons c p ih =>
      rw [strtoulLoop]
      split
      next hc =>
        have hne : c ≠ 41 := by
          rintro rfl
          exact absurd hc.1 (by decide)
        rw [ih, List.count_cons_of_ne hne]
      next => rfl

theorem memsizeParse_count (p : List UInt8) : (memsizeParse p).2.count 41 = p.count 41 := by
  have hnum : (simpleStrtoul p 0).2.count 41 = p.count 41 := by
    unfold simpleStrtoul
    split
    next p =>
      split
      next hx =>
        rw [strtoulLoop_count]
        cases p with
        | nil => simp
        | cons c p =>
            have hc : c = 120 := hx.1
            simp [hc]
      next => simp [strtoulLoop_count]
    next => exact strtoulLoop_count _ _ _
  unfold memsizeParse
  split <;> simp_all

theorem parseSize_count {p : List UInt8} {size : Nat} (h : parseSize p = some (size, rest)) :
    rest.count 41 = p.count 41 := by
  unfold parseSize at h
  split at h
  next => cases h; simp
  next =>
    obtain ⟨-, h⟩ := Option.ite_none_left_eq_some.mp h
    have hcount := memsizeParse_count p
    rw [Option.some.inj h] at hcount
    exact hcount

theorem parseOffset_count (p : List UInt8) : (parseOffset p).2.count 41 = p.count 41 := by
  unfold parseOffset
  split
  next => simp [memsizeParse_count]
  next => rfl

theorem parseName_count {p : List UInt8} {name : Option (List UInt8)} (h : parseName p = some (name, rest)) :
    p.count 41 = rest.count 41 + if name.isNone then 0 else 1 := by
  unfold parseName at h
  split at h
  next p =>
    split at h
    next => cases h
    next c q hq =>
      obtain ⟨-, h⟩ := Option.ite_none_left_eq_some.mp h
      cases h
      have hc : c = 41 := by
        have hhead : (p.dropWhile (· ≠ 41)).head? = some c := by rw [hq]; rfl
        have hnot := List.head?_dropWhile_not (fun c : UInt8 => decide (c ≠ 41)) p
        rw [hhead] at hnot
        simpa using hnot
      have hfront : (p.takeWhile (· ≠ 41)).count 41 = 0 := by
        rw [List.count_eq_zero]
        intro hmem
        have hne := List.mem_takeWhile_imp hmem
        simp at hne
      have hsplit : p.count 41 = (p.takeWhile (· ≠ 41)).count 41 + (p.dropWhile (· ≠ 41)).count 41 := by
        rw [← List.count_append, List.takeWhile_append_dropWhile]
      rw [hfront, hq, hc] at hsplit
      simp [hsplit]
  next => cases h; simp

theorem parseRo_count (p : List UInt8) : (parseRo p).2.count 41 = p.count 41 := by
  unfold parseRo
  split <;> simp

theorem parseEnd_count {p : List UInt8} {size : Nat} (h : parseEnd size p = some rest) : rest.count 41 = p.count 41 := by
  unfold parseEnd at h
  split at h
  next => cases h; rfl
  next => cases h; rfl
  next =>
    obtain ⟨-, h⟩ := Option.ite_none_left_eq_some.mp h
    cases h
    simp
  next => cases h

theorem partParse_count {p : List UInt8} {part : PartInfo} (h : partParse p = some (part, rest)) :
    p.count 41 ≤ rest.count 41 + 1 := by
  obtain ⟨⟨size, p₁⟩, hsize, h⟩ := Option.bind_eq_some_iff.mp h
  obtain ⟨⟨name, p₂⟩, hname, h⟩ := Option.bind_eq_some_iff.mp h
  obtain ⟨p₃, hend, h⟩ := Option.map_eq_some_iff.mp h
  cases h
  have hsize := parseSize_count hsize
  have hoffset := parseOffset_count p₁
  have hname := parseName_count hname
  have hro := parseRo_count p₂
  have hend := parseEnd_count hend
  split at hname <;> omega

theorem partsParse_count {p : List UInt8} {offset : Nat} {parts : List PartInfo}
    (h : partsParse board id fuel p offset = some (parts, rest)) : p.count 41 ≤ rest.count 41 + parts.length := by
  induction fuel generalizing p offset parts with
  | zero => cases h
  | succ fuel ih =>
      obtain ⟨raw, part, p', hparse, -, ⟨rfl, rfl, -⟩ | ⟨parts', hrest, rfl⟩⟩ := partsParse_cases h
      · exact partParse_count hparse
      · have h1 := partParse_count hparse
        have h2 := ih hrest
        rw [List.length_cons]
        omega

theorem partsParse_rest {p : List UInt8} {offset : Nat} {parts : List PartInfo}
    (h : partsParse board id fuel p offset = some (parts, rest)) : rest = [] ∨ ∃ q, rest = 59 :: q := by
  induction fuel generalizing p offset parts with
  | zero => cases h
  | succ fuel ih =>
      obtain ⟨raw, part, p', -, -, ⟨-, rfl, hend⟩ | ⟨parts', hrest, -⟩⟩ := partsParse_cases h
      · exact hend
      · exact ih hrest

theorem deviceParse_count {p : List UInt8} {dev : MtdDevice} {acc : List MtdDevice}
    (hids : ∀ id ∈ board.mtdids, 41 ∉ id.mtdId) (h : deviceParse board acc p = some (dev, rest)) :
    p.count 41 ≤ rest.count 41 + dev.parts.length := by
  unfold deviceParse at h
  split at h
  next => cases h
  next c q hq =>
    obtain ⟨id, hid, h⟩ := Option.bind_eq_some_iff.mp h
    obtain ⟨⟨tmp, p'⟩, htmp, h⟩ := Option.bind_eq_some_iff.mp h
    obtain ⟨parts, hparts, h⟩ := Option.map_eq_some_iff.mp h
    cases h
    have hperm := (sortAddAll_some List.Pairwise.nil List.Pairwise.nil hparts).2.2
    rw [List.append_nil] at hperm
    have hcount := partsParse_count htmp
    have hfound := List.find?_some hid
    have hname : p.takeWhile (· ≠ 58) = id.mtdId := (beq_iff_eq.mp hfound).symm
    have hc : c = 58 := by
      have hhead : (p.dropWhile (· ≠ 58)).head? = some c := by rw [hq]; rfl
      have hnot := List.head?_dropWhile_not (fun c : UInt8 => decide (c ≠ 58)) p
      rw [hhead] at hnot
      simpa using hnot
    have hsplit : p.count 41 = (p.takeWhile (· ≠ 58)).count 41 + (p.dropWhile (· ≠ 58)).count 41 := by
      rw [← List.count_append, List.takeWhile_append_dropWhile]
    have hfree : (id.mtdId).count 41 = 0 := List.count_eq_zero.mpr (hids id (List.mem_of_find?_eq_some hid))
    -- what is dropped at the end is a semicolon
    have hlast : p'.count 41 ≤ (p'.drop 1).count 41 := by
      obtain rfl | ⟨q, rfl⟩ := partsParse_rest htmp
      · simp
      · simp
    rw [hname, hfree, hq, hc, List.count_cons_of_ne (by decide)] at hsplit
    rw [hperm.length_eq]
    omega

/-- There are as many partitions as closing brackets. -/
theorem devicesParse_count {p : List UInt8} {acc devices : List MtdDevice}
    (hids : ∀ id ∈ board.mtdids, 41 ∉ id.mtdId) (h : devicesParse board fuel p acc = some devices) :
    p.count 41 + (acc.map (·.parts.length)).sum ≤ (devices.map (·.parts.length)).sum := by
  induction fuel generalizing p acc with
  | zero => cases h
  | succ fuel ih =>
      obtain ⟨⟨dev, rest⟩, hdev, h⟩ := Option.bind_eq_some_iff.mp h
      have hcount := deviceParse_count hids hdev
      obtain ⟨-, h⟩ := Option.ite_none_left_eq_some.mp h
      have hsum : ((acc ++ [dev]).map (·.parts.length)).sum = (acc.map (·.parts.length)).sum + dev.parts.length := by
        simp
      split at h
      next =>
        cases h
        rw [hsum]
        simp at hcount
        omega
      next =>
        have hrest := ih h
        rw [hsum] at hrest
        omega

/-! ## All entries -/

theorem sortAddAll_count {tmp parts : List PartInfo} (h : sortAddAll tmp [] = some parts) :
    tmp.countP (·.offset = 0) ≤ 1 := by
  obtain ⟨-, hzero, hperm⟩ := sortAddAll_some List.Pairwise.nil List.Pairwise.nil h
  rw [List.append_nil] at hperm
  rw [← hperm.countP_eq]
  cases parts with
  | nil => simp
  | cons q parts =>
      have hrest : parts.countP (·.offset = 0) = 0 := by
        rw [List.countP_eq_zero]
        intro r hr
        simpa using List.rel_of_pairwise_cons hzero hr
      rw [List.countP_cons, hrest]
      split <;> omega

theorem sortAddAll_of_count {tmp parts : List PartInfo} (h : (tmp ++ parts).countP (·.offset = 0) ≤ 1) :
    ∃ parts', sortAddAll tmp parts = some parts' := by
  induction tmp generalizing parts with
  | nil => exact ⟨parts, rfl⟩
  | cons part tmp ih =>
      have hfree : part.offset = 0 → ∀ pi ∈ parts, pi.offset ≠ 0 := by
        intro hz pi hpi hpz
        have hpos : 0 < (tmp ++ parts).countP (·.offset = 0) :=
          List.countP_pos_iff.mpr ⟨pi, List.mem_append_right _ hpi, by simpa using hpz⟩
        rw [List.cons_append, List.countP_cons_of_pos (by simpa using hz)] at h
        omega
      obtain ⟨mid, hmid⟩ := sortAdd_of_free hfree
      have hperm := ((sortAdd_perm hmid).append_left tmp).trans List.perm_middle
      obtain ⟨parts', hrest⟩ := ih (show (tmp ++ mid).countP (·.offset = 0) ≤ 1 by rw [hperm.countP_eq]; exact h)
      exact ⟨parts', by rw [sortAddAll, hmid, Option.bind_some, hrest]⟩

end

end Uboot.Smem
