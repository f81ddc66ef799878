import Uboot.Mtdparts.Lemmas

/-!
# Reading a printed partition

`memsize_parse` reads what `memsize_format` prints, and `part_parse` what `generate_mtdparts` prints of a partition. A
generated name is not printed but generated again.
-/

namespace Uboot.Mtdparts

open Lib Vsprintf

section
variable {board : Board} {id : MtdIds} {p rest tail : List UInt8} {part q : PartInfo} {prev : Option PartInfo}
  {parts : List PartInfo} {fuel n d : Nat}

/-! ## Sizes -/

/-- No byte that can go on a size: `@`, `(`, `r`, `,`, `;` or the end. -/
def Ends (p : List UInt8) : Prop := ∀ c ∈ p.head?, c = 64 ∨ c = 40 ∨ c = 114 ∨ c = 44 ∨ c = 59

theorem strtoulLoop_ends (h : Ends p) (base r : Nat) : strtoulLoop base p r = (r, p) := by
  cases p with
  | nil => rfl
  | cons c p =>
      have hc : isxdigit c = false := by
        rcases h c rfl with rfl | rfl | rfl | rfl | rfl <;> decide
      rw [strtoulLoop, hc, if_neg (by simp)]

theorem memsizeParse_plain (hn : 0 < n) (h : Ends p) : memsizeParse (numeral 10 n ++ p) = (n % 2 ^ 32, p) := by
  rw [memsizeParse, simpleStrtoul_decimal hn, strtoulLoop_ends h]
  cases p with
  | nil => rfl
  | cons c p => rcases h c rfl with rfl | rfl | rfl | rfl | rfl <;> rfl

theorem memsizeParse_g (hn : 0 < n) : memsizeParse (numeral 10 n ++ 103 :: p) = (n % 2 ^ 32 * 2 ^ 30 % 2 ^ 32, p) := by
  rw [memsizeParse, simpleStrtoul_decimal hn]
  rfl

theorem memsizeParse_m (hn : 0 < n) : memsizeParse (numeral 10 n ++ 109 :: p) = (n % 2 ^ 32 * 2 ^ 20 % 2 ^ 32, p) := by
  rw [memsizeParse, simpleStrtoul_decimal hn]
  rfl

theorem memsizeParse_k (hn : 0 < n) : memsizeParse (numeral 10 n ++ 107 :: p) = (n % 2 ^ 32 * 2 ^ 10 % 2 ^ 32, p) := by
  rw [memsizeParse, simpleStrtoul_decimal hn]
  rfl

theorem memsizeParse_format (hn : 0 < n) (hlt : n < 2 ^ 32) (h : Ends p) :
    memsizeParse (memsizeFormat n ++ p) = (n, p) := by
  unfold memsizeFormat
  split
  next hg =>
    rw [List.append_assoc, List.singleton_append, memsizeParse_g (by omega)]
    congr 1
    omega
  next =>
    split
    next hm =>
      rw [List.append_assoc, List.singleton_append, memsizeParse_m (by omega)]
      congr 1
      omega
    next =>
      split
      next hk =>
        rw [List.append_assoc, List.singleton_append, memsizeParse_k (by omega)]
        congr 1
        omega
      next => rw [memsizeParse_plain hn h, Nat.mod_eq_of_lt hlt]

/-- Every size is read back, and all of its text is read. -/
theorem memsize_round_trip (hlt : n < 2 ^ 32) : memsizeParse (memsizeFormat n) = (n, []) := by
  rcases Nat.eq_zero_or_pos n with rfl | hn
  · -- `0g`, which is read in base 8
    rfl
  · have hends : Ends [] := fun c hc => by cases hc
    have hparse := memsizeParse_format hn hlt hends
    rwa [List.append_nil] at hparse

theorem memsize_round_trip_max : memsizeParse (memsizeFormat (2 ^ 32 - 1)) = (2 ^ 32 - 1, []) :=
  memsize_round_trip (by decide)

theorem memsizeFormat_head (hn : 0 < n) : ∃ d ds, d < 10 ∧ memsizeFormat n = UInt8.ofNat (Nat.digitChar d).toNat :: ds := by
  have hhead : ∀ m, 0 < m → ∃ d ds, d < 10 ∧ numeral 10 m = UInt8.ofNat (Nat.digitChar d).toNat :: ds := by
    intro m hm
    obtain ⟨d, ds, -, hlt, hds⟩ := numeral_head (show 1 < 10 by decide) (by decide) hm
    exact ⟨d, ds, hlt, hds⟩
  have happend : ∀ m c, 0 < m → ∃ d ds, d < 10 ∧ numeral 10 m ++ [c] = UInt8.ofNat (Nat.digitChar d).toNat :: ds := by
    intro m c hm
    obtain ⟨d, ds, hlt, hds⟩ := hhead m hm
    exact ⟨d, ds ++ [c], hlt, by rw [hds]; rfl⟩
  unfold memsizeFormat
  split_ifs
  · exact happend _ _ (by omega)
  · exact happend _ _ (by omega)
  · exact happend _ _ (by omega)
  · exact hhead n hn

theorem digit_ne (h : d < 10) : UInt8.ofNat (Nat.digitChar d).toNat ≠ 45 ∧ UInt8.ofNat (Nat.digitChar d).toNat ≠ 59 := by
  have hall : ∀ e < 10, UInt8.ofNat (Nat.digitChar e).toNat ≠ 45 ∧ UInt8.ofNat (Nat.digitChar e).toNat ≠ 59 := by decide
  exact hall d h

theorem parseSize_format (hn : 0 < n) (hlt : n < 2 ^ 32) (h : Ends p) :
    parseSize (memsizeFormat n ++ p) = if n < minPartSize then none else some (n, p) := by
  have hparse := memsizeParse_format hn hlt h
  obtain ⟨d, ds, hd, hds⟩ := memsizeFormat_head hn
  rw [hds] at hparse ⊢
  unfold parseSize
  split
  next heq => exact absurd (List.cons.inj heq).1 (digit_ne hd).1
  next => rw [hparse]

/-! ## One partition -/

theorem fits_bounds (hfits : partFits board id part.offset part.size = true) (hlt : part.size < 2 ^ 32) :
    0 < part.size ∧ part.offset + part.size ≤ id.size := by
  have hid := id.size_lt
  simp only [partFits, Bool.and_eq_true, decide_eq_true_eq] at hfits
  omega

/-- The name that is read where this partition was printed. -/
def writtenName (prev : Option PartInfo) (part : PartInfo) : List UInt8 :=
  if part.autoName then autoName part.size (if hasGap prev part then part.offset else offsetNotSpecified) else part.name

/-- The bytes after the options of a partition. -/
def PartEnd (p : List UInt8) : Prop := ∀ c ∈ p.head?, c = 44 ∨ c = 59

theorem PartEnd.ends (h : PartEnd p) : Ends p := by
  intro c hc
  rcases h c hc with rfl | rfl <;> simp

theorem parseRo_format (ro : Bool) (h : PartEnd tail) : parseRo ((if ro then [114, 111] else []) ++ tail) = (ro, tail) := by
  cases ro with
  | true => rfl
  | false =>
      cases tail with
      | nil => rfl
      | cons c tail => rcases h c rfl with rfl | rfl <;> rfl

theorem ro_ends (ro : Bool) (h : PartEnd tail) : Ends ((if ro then [114, 111] else []) ++ tail) := by
  cases ro with
  | true => simp [Ends]
  | false => exact h.ends

theorem parseName_bracket {name : List UInt8} (hmem : 41 ∉ name) (rest : List UInt8) :
    parseName (40 :: name ++ 41 :: rest) = if name = [] then none else some (some name, rest) := by
  have hall : ∀ c ∈ name, decide (c ≠ 41) = true := by
    intro c hc
    simp only [ne_eq, decide_eq_true_eq]
    rintro rfl
    exact hmem hc
  have htake : (name ++ 41 :: rest).takeWhile (· ≠ 41) = name := by
    rw [List.takeWhile_append_of_pos hall]
    simp
  have hdrop : (name ++ 41 :: rest).dropWhile (· ≠ 41) = 41 :: rest := by
    rw [List.dropWhile_append_of_pos hall]
    simp
  rw [List.cons_append]
  simp only [parseName, htake, hdrop]

theorem parseName_format (hname : part.autoName = false → part.name ≠ [] ∧ 41 ∉ part.name)
    (hhead : ∀ c ∈ p.head?, c ≠ 40) :
    parseName ((if part.autoName then [] else 40 :: part.name ++ [41]) ++ p) =
      some (if part.autoName then none else some part.name, p) := by
  cases hauto : part.autoName with
  | true =>
      cases p with
      | nil => rfl
      | cons c p =>
          have hc := hhead c rfl
          simp only [if_true, List.nil_append]
          unfold parseName
          split
          next heq => exact absurd (List.cons.inj heq).1 hc
          next => rfl
  | false =>
      obtain ⟨hne, hmem⟩ := hname hauto
      have hbracket := parseName_bracket hmem p
      rw [if_neg hne] at hbracket
      simpa using hbracket

/-- What follows the offset: the name, the options and the end. -/
def formatRest (part : PartInfo) : List UInt8 :=
  (if part.autoName then [] else 40 :: part.name ++ [41]) ++ if part.ro then [114, 111] else []

theorem formatRest_ends (h : PartEnd tail) : Ends (formatRest part ++ tail) := by
  rw [formatRest, List.append_assoc]
  cases part.autoName with
  | true => exact ro_ends part.ro h
  | false => simp [Ends]

theorem formatRest_head (part : PartInfo) (h : PartEnd tail) : ∀ c ∈ (formatRest part ++ tail).head?, c ≠ 64 := by
  intro c hc
  rw [formatRest, List.append_assoc] at hc
  cases hauto : part.autoName with
  | true =>
      rw [hauto] at hc
      cases hro : part.ro with
      | true =>
          rw [hro] at hc
          cases hc
          decide
      | false =>
          rw [hro] at hc
          rcases h c hc with rfl | rfl <;> decide
  | false =>
      rw [hauto] at hc
      cases hc
      decide

theorem formatPart_eq : formatPart prev part = memsizeFormat part.size ++
    ((if hasGap prev part then 64 :: memsizeFormat part.offset else []) ++ formatRest part) := by
  simp only [formatPart, formatRest, List.append_assoc]

theorem parseOffset_format (hgap : hasGap prev part = true → 0 < part.offset) (hlt : part.offset < 2 ^ 32)
    (h : PartEnd tail) :
    parseOffset ((if hasGap prev part then 64 :: memsizeFormat part.offset else []) ++ (formatRest part ++ tail)) =
      (if hasGap prev part then part.offset else offsetNotSpecified, formatRest part ++ tail) := by
  cases hg : hasGap prev part with
  | true => exact memsizeParse_format (hgap hg) hlt (formatRest_ends h)
  | false =>
      have hhead := formatRest_head part h
      simp only [Bool.false_eq_true, if_false, List.nil_append]
      unfold parseOffset
      split
      next heq =>
        rw [heq] at hhead
        exact absurd rfl (hhead 64 rfl)
      next => rfl

/-- What is read of a printed partition. -/
theorem partParse_format (hok : PartOk board id part) (hgap : hasGap prev part = true → 0 < part.offset)
    (h : PartEnd tail) : partParse (formatPart prev part ++ tail) =
      if part.size < minPartSize then none
      else (parseEnd part.size tail).map fun rest =>
        (⟨writtenName prev part, part.autoName, part.size,
          if hasGap prev part then part.offset else offsetNotSpecified, part.ro, 0⟩, rest) := by
  obtain ⟨hpos, hend⟩ := fits_bounds hok.fits hok.size_lt
  have hid := id.size_lt
  have hends : Ends ((if hasGap prev part then 64 :: memsizeFormat part.offset else []) ++ (formatRest part ++ tail)) := by
    cases hasGap prev part with
    | true => simp [Ends]
    | false => exact formatRest_ends h
  rw [partParse, formatPart_eq, List.append_assoc, List.append_assoc, parseSize_format hpos hok.size_lt hends]
  split
  next => rfl
  next =>
    rw [Option.bind_some]
    dsimp only
    rw [parseOffset_format hgap (by omega) h]
    dsimp only
    have hhead : ∀ c ∈ ((if part.ro then [114, 111] else []) ++ tail).head?, c ≠ (40 : UInt8) := by
      intro c hc
      cases hro : part.ro with
      | true =>
          rw [hro] at hc
          cases hc
          decide
      | false =>
          rw [hro] at hc
          rcases h c hc with rfl | rfl <;> decide
    rw [formatRest, List.append_assoc, parseName_format hok.named hhead, Option.bind_some]
    dsimp only
    rw [parseRo_format part.ro h]
    dsimp only
    congr 1
    funext rest
    rw [writtenName]
    cases part.autoName <;> rfl

/-! ## The partitions of a device -/

/-- Where the next partition starts when its offset is not given. -/
def runningOffset (prev : Option PartInfo) : Nat :=
  match prev with
  | none => 0
  | some q => (q.offset + q.size) % 2 ^ 32

theorem hasGap_false (h : hasGap prev part = false) : part.offset = runningOffset prev := by
  cases prev with
  | none => exact bne_eq_false_iff_eq.mp h
  | some q => exact (bne_eq_false_iff_eq.mp h).symm

/-- The partitions as they are read from their text. -/
def written : Option PartInfo → List PartInfo → List PartInfo
  | _, [] => []
  | prev, part :: parts => { part with name := writtenName prev part, serial := 0 } :: written (some part) parts

/-- No size is too small, and only the last one can be that of a fill-up partition. -/
def Readable (parts : List PartInfo) : Prop :=
  (∀ part ∈ parts, minPartSize ≤ part.size) ∧ ∀ part ∈ parts.dropLast, part.size ≠ sizeRemaining

instance (parts : List PartInfo) : Decidable (Readable parts) := inferInstanceAs (Decidable (_ ∧ _))

/-- A checked partition passes again. -/
theorem partValidate_again (hfits : partFits board id part.offset part.size = true) (hlt : part.size < 2 ^ 32) :
    partValidate board id part = some part := by
  obtain ⟨hpos, hend⟩ := fits_bounds hfits hlt
  have hid := id.size_lt
  have hsize : (if part.size = sizeRemaining then (id.size + 2 ^ 32 - part.offset) % 2 ^ 32 else part.size) =
      part.size := by
    split
    next heq =>
      rw [sizeRemaining] at heq
      omega
    next => rfl
  rw [partValidate, hsize, if_pos hfits]

/-- One round of the loop over a printed partition. -/
theorem partsParse_round (hok : PartOk board id part) (hgap : hasGap prev part = true → 0 < part.offset)
    (h : PartEnd tail) (hsize : minPartSize ≤ part.size) (hend : parseEnd part.size tail = some rest) :
    partsParse board id (fuel + 1) (formatPart prev part ++ tail) (runningOffset prev) =
      if rest.head?.all (· == 59) then some ([{ part with name := writtenName prev part, serial := 0 }], rest)
      else (partsParse board id fuel rest (runningOffset (some part))).map fun (parts, p) =>
        ({ part with name := writtenName prev part, serial := 0 } :: parts, p) := by
  have hoffset : (if (if hasGap prev part then part.offset else offsetNotSpecified) = offsetNotSpecified then
      runningOffset prev else if hasGap prev part then part.offset else offsetNotSpecified) = part.offset := by
    cases hg : hasGap prev part with
    | true =>
        have hbounds := fits_bounds hok.fits hok.size_lt
        have hid := id.size_lt
        have hne : part.offset ≠ offsetNotSpecified := by
          rw [offsetNotSpecified]
          omega
        simp only [if_true, if_neg hne]
    | false => simp only [Bool.false_eq_true, if_false, if_true, hasGap_false hg]
  have hagain : partValidate board id { part with name := writtenName prev part, serial := 0 } = some _ :=
    partValidate_again hok.fits hok.size_lt
  have hparse := partParse_format hok hgap h
  rw [if_neg (by omega), hend, Option.map_some] at hparse
  rw [partsParse, hparse, Option.bind_some]
  dsimp only
  rw [hoffset, hagain, Option.bind_some]
  split
  next => rfl
  next => rfl
  next hnil hsemi =>
    rw [if_neg]
    · rfl
    · cases rest with
      | nil => exact absurd rfl hnil
      | cons c rest =>
          intro hc
          have hc : c = 59 := by simpa using hc
          exact hsemi rest (by rw [hc])

theorem partsParse_refused (hok : PartOk board id part) (hgap : hasGap prev part = true → 0 < part.offset)
    (h : PartEnd tail) (hno : part.size < minPartSize ∨ parseEnd part.size tail = none) :
    partsParse board id (fuel + 1) (formatPart prev part ++ tail) (runningOffset prev) = none := by
  have hparse := partParse_format hok hgap h
  rw [partsParse, hparse]
  rcases hno with hsize | hend
  · rw [if_pos hsize]
    rfl
  · rw [hend]
    split <;> rfl

theorem formatParts_cons : formatParts prev (part :: q :: parts) =
    formatPart prev part ++ 44 :: formatParts (some part) (q :: parts) := by
  rw [formatParts]
  simp

theorem formatParts_head (prev : Option PartInfo) (parts : List PartInfo) (tail : List UInt8) (hpos : 0 < q.size) : ∃ d ds, d < 10 ∧
    formatParts prev (q :: parts) ++ tail = UInt8.ofNat (Nat.digitChar d).toNat :: ds := by
  obtain ⟨d, ds, hd, hds⟩ := memsizeFormat_head hpos
  cases parts with
  | nil => exact ⟨d, _, hd, by rw [formatParts, formatPart_eq, hds]; rfl⟩
  | cons r parts => exact ⟨d, _, hd, by rw [formatParts_cons, formatPart_eq, hds]; rfl⟩

theorem formatPart_pos (prev : Option PartInfo) (part : PartInfo) : 0 < (formatPart prev part).length := by
  have hsize : memsizeFormat part.size ≠ [] := by
    unfold memsizeFormat
    split_ifs <;> simp [numeral_ne_nil]
  rw [formatPart_eq, List.length_append]
  exact Nat.add_pos_left (List.length_pos_iff.mpr hsize) _

theorem length_le_formatParts (prev : Option PartInfo) (parts : List PartInfo) :
    parts.length ≤ (formatParts prev parts).length := by
  induction parts generalizing prev with
  | nil => simp
  | cons part parts ih =>
      have hpos := formatPart_pos prev part
      cases parts with
      | nil => exact hpos
      | cons q parts =>
          have hrest := ih (some part)
          simp only [formatParts_cons, List.length_append, List.length_cons] at hrest ⊢
          omega

/-- What is read of the printed partitions of a device. -/
theorem partsParse_format (prev : Option PartInfo) (hne : parts ≠ []) (hok : ∀ part ∈ parts, PartOk board id part)
    (hzero : OneZero (prev.toList ++ parts)) (htail : ∀ c ∈ tail.head?, c = 59) (hfuel : parts.length ≤ fuel) :
    partsParse board id fuel (formatParts prev parts ++ tail) (runningOffset prev) =
      if Readable parts then some (written prev parts, tail) else none := by
  induction parts generalizing prev fuel with
  | nil => exact absurd rfl hne
  | cons part parts ih =>
      have hpart := hok part List.mem_cons_self
      obtain ⟨fuel, rfl⟩ : ∃ m, fuel = m + 1 := ⟨fuel - 1, by simp at hfuel; omega⟩
      have hgap : hasGap prev part = true → 0 < part.offset := by
        intro hg
        cases prev with
        | none => exact Nat.pos_of_ne_zero (bne_iff_ne.mp hg)
        | some q => exact Nat.pos_of_ne_zero (List.rel_of_pairwise_cons hzero List.mem_cons_self)
      cases parts with
      | nil =>
          have hend : parseEnd part.size tail = some tail := by
            cases tail with
            | nil => rfl
            | cons c tail =>
                cases htail c rfl
                rfl
          have hpe : PartEnd tail := fun c hc => Or.inr (htail c hc)
          rw [formatParts]
          by_cases hsize : part.size < minPartSize
          · rw [partsParse_refused hpart hgap hpe (Or.inl hsize), if_neg]
            intro hr
            exact absurd (hr.1 part List.mem_cons_self) (by omega)
          · have hread : Readable [part] := ⟨by simpa using hsize, by simp⟩
            have hlast : tail.head?.all (· == 59) = true := by
              cases tail with
              | nil => rfl
              | cons c tail =>
                  cases htail c rfl
                  rfl
            rw [partsParse_round hpart hgap hpe (by omega) hend, if_pos hlast, if_pos hread]
            rfl
      | cons q parts =>
          have hq := hok q (by simp)
          obtain ⟨d, ds, hd, hds⟩ := formatParts_head (some part) parts tail
            (fits_bounds hq.fits hq.size_lt).1
          have hrest : partsParse board id fuel (formatParts (some part) (q :: parts) ++ tail)
              (runningOffset (some part)) = _ := ih _ (by simp) (fun r hr => hok r (List.mem_cons_of_mem _ hr))
            (List.Pairwise.sublist (by cases prev <;> simp) hzero) (by simpa using hfuel)
          have hread : Readable (part :: q :: parts) ↔
              minPartSize ≤ part.size ∧ part.size ≠ sizeRemaining ∧ Readable (q :: parts) := by
            simp only [Readable, List.forall_mem_cons, List.dropLast_cons_cons]
            tauto
          have hpe : PartEnd (44 :: (formatParts (some part) (q :: parts) ++ tail)) := by simp [PartEnd]
          rw [formatParts_cons, List.append_assoc, List.cons_append]
          by_cases hsize : part.size < minPartSize
          · rw [partsParse_refused hpart hgap hpe (Or.inl hsize), if_neg]
            intro hr
            exact absurd (hread.mp hr).1 (by omega)
          by_cases hfill : part.size = sizeRemaining
          · rw [partsParse_refused hpart hgap hpe (Or.inr (if_pos hfill)), if_neg]
            intro hr
            exact (hread.mp hr).2.1 hfill
          have hmore : ¬ (formatParts (some part) (q :: parts) ++ tail).head?.all (· == 59) = true := by
            rw [hds]
            simpa using (digit_ne hd).2
          rw [partsParse_round hpart hgap hpe (by omega) (if_neg hfill), if_neg hmore, hrest]
          by_cases hr : Readable (q :: parts)
          · rw [if_pos hr, if_pos (hread.mpr ⟨by omega, hfill, hr⟩)]
            rfl
          · rw [if_neg hr, if_neg (fun h => hr (hread.mp h).2.2)]
            rfl

/-- A device that is not there yet: its id and its partitions. -/
theorem deviceParse_id {acc : List MtdDevice} {mtdId : List UInt8} (hcolon : 58 ∉ mtdId)
    (hfound : idFindByMtdId board mtdId = some id) (hfree : deviceFind acc (id.type, id.num) = none)
    (text : List UInt8) : deviceParse board acc (mtdId ++ 58 :: text) =
      (partsParse board id (text.length + 1) text 0).bind fun (tmp, p) =>
        (sortAddAll tmp []).map fun parts => (⟨id, parts⟩, p.drop 1) := by
  have hall : ∀ c ∈ mtdId, decide (c ≠ 58) = true := by
    intro c hc
    simp only [ne_eq, decide_eq_true_eq]
    rintro rfl
    exact hcolon hc
  have htake : (mtdId ++ 58 :: text).takeWhile (· ≠ 58) = mtdId := by
    rw [List.takeWhile_append_of_pos hall]
    simp
  have hdrop : (mtdId ++ 58 :: text).dropWhile (· ≠ 58) = 58 :: text := by
    rw [List.dropWhile_append_of_pos hall]
    simp
  rw [deviceParse, htake, hdrop]
  dsimp only
  rw [hfound, Option.bind_some, hfree]
  rfl

end

end Uboot.Mtdparts
