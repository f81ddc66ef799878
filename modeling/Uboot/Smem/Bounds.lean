import Uboot.Smem.Basic

/-!
# What the loops over the table access

`len` is not compared with the size of `parts`. A text that does not fit is cut by `snprintf`, but `part` is moved over all
of it.
-/

namespace Uboot.Smem

open Lib Vsprintf

/-! ## The table in memory -/

/-- A number of four bytes. -/
def readLe32 (bs : List UInt8) : Nat :=
  (bs.getD 0 0).toNat + 2 ^ 8 * (bs.getD 1 0).toNat + 2 ^ 16 * (bs.getD 2 0).toNat + 2 ^ 24 * (bs.getD 3 0).toNat

theorem readLe32_lt (bs : List UInt8) : readLe32 bs < 2 ^ 32 := by
  have h0 := (bs.getD 0 0).toNat_lt
  have h1 := (bs.getD 1 0).toNat_lt
  have h2 := (bs.getD 2 0).toNat_lt
  have h3 := (bs.getD 3 0).toNat_lt
  unfold readLe32
  omega

/-- Bytes taken for an entry. -/
def decodePtn (bs : List UInt8) : SmemPtn where
  name := (bs ++ List.replicate 16 0).take 16
  start := readLe32 (bs.drop 16)
  size := readLe32 (bs.drop 20)
  attr := readLe32 (bs.drop 24)
  name_length := by simp
  start_lt := readLe32_lt _
  size_lt := readLe32_lt _
  attr_lt := readLe32_lt _

section
variable (f : Flashes) (t : SmemPtable) (beyond : List UInt8)

/-- `smem_ptable.parts[i]`, with the memory behind the table -/
def SmemPtable.entry (i : Nat) : SmemPtn := (t.parts[i]?).getD (decodePtn (beyond.drop (28 * (i - 32))))

/-- The C string at `smem_ptable.parts[i].name`. -/
def SmemPtable.nameAt (i : Nat) : List UInt8 := cstr ((t.parts.flatMap SmemPtn.bytes ++ beyond).drop (28 * i))

/-! ## Lookups -/

/-- A search over `n` entries from `i` on: what is read, and where it ends. -/
def search (found : Nat → Bool) : Nat → Nat → List Nat × Nat
  | 0, i => ([], i)
  | n + 1, i =>
      if found i then ([i], i)
      else
        let r := search found n (i + 1)
        (i :: r.1, r.2)

/-- `smem_getpart`: the indices that are read, and the start and the size. -/
def smemGetpart (partName : List UInt8) : List Nat × Option (Nat × Nat) :=
  let r := search (fun i => cstr (t.entry beyond i).name = (cstr partName).take 16) t.len 0
  if r.2 = t.len then (r.1, none)
  else
    let p := t.entry beyond r.2
    let size :=
      if p.size = 0xFFFFFFFF then ((f.nandInfo f.nandEnvDevice).size / f.flashBlockSize + 2 ^ 32 - p.start) % 2 ^ 32 else p.size
    (r.1 ++ [r.2], some (p.start, size))

/-- `get_which_flash_param`: the last entry of the name counts. -/
def getWhichFlashParam (partName : List UInt8) : List Nat × Nat :=
  (List.range t.len).foldl (fun r i =>
    (r.1 ++ [i], if t.nameAt beyond i = cstr partName then (t.entry beyond i).whichFlash else r.2)) ([], 0)

/-- A line of `smeminfo`. -/
structure InfoLine where
  index : Nat
  name : List UInt8
  attr : Nat
  offset : Nat
  size : Int

/-- The loop of `do_smeminfo` -/
def doSmeminfo : List InfoLine :=
  (List.range t.len).map fun i =>
    let p := t.entry beyond i
    ⟨i, t.nameAt beyond i, p.attr, partOffset f p, psize f p⟩

/-! ## Printing -/

/-- What `qca_smem_part_to_mtdparts` has read, where it has written how many bytes, and `part - parts`. -/
structure Printing where
  reads : List Nat
  writes : List (Nat × Nat)
  off : Nat

/-- `ret = snprintf(part, len, ..); part += ret; len -= ret;` -/
def Printing.print (s : Printing) (text : List UInt8) : Printing := { s with
  writes := s.writes ++ [(s.off, (snprintf (4096 - s.off) text).length)]
  off := s.off + text.length }

/-- The entry is the first one that is not in the boot flash. -/
def SmemPtable.opens (init : Bool) (i : Nat) : Bool := !init && decide ((t.entry beyond i).whichFlash ≠ 0)

/-- A round of the loop of `qca_smem_part_to_mtdparts`. -/
def Printing.round (s : Printing) (init : Bool) (i : Nat) : Printing :=
  let s := { s with reads := s.reads ++ [i] }
  let s := if t.opens beyond init i then s.print (59 :: nandName f ++ [58]) else s
  s.print (partText f (t.entry beyond i) (t.nameAt beyond i))

/-- The loop: the final `i`, and what was done. -/
def printLoop : Nat → Nat → Bool → Printing → Nat × Printing
  | 0, i, _, s => (i, s)
  | n + 1, i, init, s =>
      if s.off < 4096 then printLoop n (i + 1) (init || t.opens beyond init i) (s.round f t beyond init i)
      else (i, s)

/-- `qca_smem_part_to_mtdparts`; the NUL at the end goes behind the last text. -/
def printTable (mtdid : List UInt8) : Printing :=
  let r := printLoop f t beyond t.len 0 false (Printing.print ⟨[], [], 0⟩ (mtdid ++ [58]))
  if r.1 = 0 then r.2 else { r.2 with writes := r.2.writes ++ [(r.2.off, 1)] }

/-! ## Bounds -/

/-- Nothing behind the table is read, and nothing behind the buffer is written. -/
structure InBounds (mtdid : List UInt8) : Prop where
  getpart : ∀ name, ∀ i ∈ (smemGetpart f t beyond name).1, i < 32
  whichFlash : ∀ name, ∀ i ∈ (getWhichFlashParam t beyond name).1, i < 32
  info : ∀ line ∈ doSmeminfo f t beyond, line.index < 32
  reads : ∀ i ∈ (printTable f t beyond mtdid).reads, i < 32
  writes : ∀ w ∈ (printTable f t beyond mtdid).writes, w.2 = 0 ∨ w.1 + w.2 ≤ 4096

/-- `";nand%d:"`, when an entry from `i` on opens it, and the texts of the `n` entries from `i` on. -/
def restLength (init : Bool) (i n : Nat) : Nat :=
  (if (List.range' i n).any (t.opens beyond init) then (nandName f).length + 2 else 0) +
    ((List.range' i n).map fun j => (partText f (t.entry beyond j) (t.nameAt beyond j)).length).sum

end

section
variable {f : Flashes} {t : SmemPtable} {beyond text : List UInt8} {init : Bool} {i j n m size : Nat} {s : Printing}

theorem snprintf_length_le (h : size ≠ 0) : (snprintf size text).length ≤ size := by
  have hpos : ¬(size : Int) < 0 := by omega
  have hne : ¬(size : Int) = 0 := by omega
  rw [snprintf, if_neg hpos, if_neg hne, List.length_append, List.length_take, List.length_singleton]
  omega

theorem search_reads {found : Nat → Bool} : (∀ j ∈ (search found n i).1, j < i + n) ∧ (search found n i).2 ≤ i + n := by
  induction n generalizing i with
  | zero => exact ⟨fun j hj => absurd hj List.not_mem_nil, le_rfl⟩
  | succ n ih =>
      unfold search
      split
      next => exact ⟨fun j hj => by rw [List.mem_singleton.mp hj]; omega, by dsimp only; omega⟩
      next =>
        obtain ⟨hreads, hend⟩ := @ih (i + 1)
        refine ⟨fun j hj => ?_, by dsimp only; omega⟩
        rcases List.mem_cons.mp hj with rfl | hj
        · omega
        · have := hreads j hj
          omega

theorem smemGetpart_reads {name : List UInt8} : ∀ i ∈ (smemGetpart f t beyond name).1, i < t.len := by
  intro i hi
  unfold smemGetpart at hi
  dsimp only at hi
  split at hi
  next =>
    have hlt := search_reads.1 i hi
    omega
  next hne =>
    rcases List.mem_append.mp hi with hi | hi
    · have hlt := search_reads.1 i hi
      omega
    · rw [List.mem_singleton.mp hi]
      refine Nat.lt_of_le_of_ne ?_ hne
      exact search_reads.2.trans_eq (Nat.zero_add _)

theorem getWhichFlashParam_reads {name : List UInt8} : (getWhichFlashParam t beyond name).1 = List.range t.len := by
  have hfold : ∀ (is : List Nat) (r : List Nat × Nat), (is.foldl (fun r i =>
      (r.1 ++ [i], if t.nameAt beyond i = cstr name then (t.entry beyond i).whichFlash else r.2)) r).1 = r.1 ++ is := by
    intro is
    induction is with
    | nil => exact fun r => (List.append_nil _).symm
    | cons i is ih => exact fun r => by rw [List.foldl_cons, ih, List.append_assoc, List.singleton_append]
  exact hfold _ _

/-! ## The rounds -/

/-- Every write so far is inside the buffer. -/
def Printing.Inside (s : Printing) : Prop := ∀ w ∈ s.writes, w.2 = 0 ∨ w.1 + w.2 ≤ 4096

theorem Printing.Inside.print (h : s.Inside) (hoff : s.off < 4096) : (s.print text).Inside := by
  intro w hw
  rcases List.mem_append.mp hw with hw | hw
  · exact h w hw
  · rw [List.mem_singleton.mp hw]
    right
    have hsize : (4096 : Int) - s.off = ((4096 - s.off : Nat) : Int) := by omega
    have hle : (snprintf ((4096 - s.off : Nat) : Int) text).length ≤ 4096 - s.off := snprintf_length_le (by omega)
    dsimp only
    rw [hsize]
    omega

theorem round_off : (s.round f t beyond init i).off =
    s.off + ((if t.opens beyond init i then (nandName f).length + 2 else 0) +
      (partText f (t.entry beyond i) (t.nameAt beyond i)).length) := by
  unfold Printing.round
  dsimp only
  split
  all_goals
    simp [Printing.print]
    try omega

theorem round_reads : (s.round f t beyond init i).reads = s.reads ++ [i] := by
  unfold Printing.round
  dsimp only
  split <;> rfl

/-- A round that leaves room has written inside the buffer. -/
theorem Printing.Inside.round (h : s.Inside) (hoff : (s.round f t beyond init i).off < 4096) :
    (s.round f t beyond init i).Inside := by
  rw [round_off] at hoff
  have hread : ({ s with reads := s.reads ++ [i] } : Printing).Inside := h
  unfold Printing.round
  dsimp only
  split
  next hopen =>
    rw [if_pos hopen] at hoff
    refine (hread.print (by dsimp only; omega)).print ?_
    have htext : (59 :: nandName f ++ [58]).length = (nandName f).length + 2 := by simp
    rw [Printing.print, htext]
    dsimp only
    omega
  next hshut =>
    rw [if_neg hshut] at hoff
    exact hread.print (by dsimp only; omega)

theorem restLength_succ : restLength f t beyond init i (n + 1) =
    (if t.opens beyond init i then (nandName f).length + 2 else 0) +
      (partText f (t.entry beyond i) (t.nameAt beyond i)).length +
        restLength f t beyond (init || t.opens beyond init i) (i + 1) n := by
  have hshut : t.opens beyond init i = true → (List.range' (i + 1) n).any (t.opens beyond true) = false :=
    fun _ => List.any_eq_false.mpr fun j _ => by simp [SmemPtable.opens]
  rw [restLength, restLength, List.range'_succ, List.any_cons, List.map_cons, List.sum_cons]
  cases hopen : t.opens beyond init i with
  | true =>
      rw [Bool.true_or, Bool.or_true, hshut hopen, if_pos rfl, if_neg Bool.false_ne_true]
      omega
  | false =>
      rw [Bool.false_or, Bool.or_false, if_neg Bool.false_ne_true]
      omega

theorem printLoop_reads (h : ∀ j ∈ s.reads, j < m) (hm : i + n ≤ m) :
    ∀ j ∈ (printLoop f t beyond n i init s).2.reads, j < m := by
  induction n generalizing i init s with
  | zero => exact h
  | succ n ih =>
      unfold printLoop
      split
      next =>
        refine ih (fun j hj => ?_) (by omega)
        rw [round_reads] at hj
        rcases List.mem_append.mp hj with hj | hj
        · exact h j hj
        · rw [List.mem_singleton.mp hj]
          omega
      next => exact h

/-- A text that fits. -/
theorem printLoop_inside (h : s.Inside) (hfit : s.off + restLength f t beyond init i n < 4096) :
    (printLoop f t beyond n i init s).2.Inside ∧ (printLoop f t beyond n i init s).2.off < 4096 := by
  induction n generalizing i init s with
  | zero => exact ⟨h, by unfold printLoop; dsimp only; omega⟩
  | succ n ih =>
      rw [restLength_succ] at hfit
      have hfit' : (s.round f t beyond init i).off +
          restLength f t beyond (init || t.opens beyond init i) (i + 1) n < 4096 := by
        rw [round_off]
        omega
      rw [printLoop, if_pos (by omega)]
      exact ih (h.round (by omega)) hfit'

theorem printLoop_index : i ≤ (printLoop f t beyond n i init s).1 := by
  induction n generalizing i init s with
  | zero => exact le_rfl
  | succ n ih =>
      unfold printLoop
      split
      next => exact (Nat.le_succ i).trans ih
      next => exact le_rfl

/-- A text that does not fit: the loop is left behind the buffer. -/
theorem printLoop_beyond (hfit : 4096 ≤ s.off + restLength f t beyond init i n) :
    4096 ≤ (printLoop f t beyond n i init s).2.off := by
  induction n generalizing i init s with
  | zero => simpa [restLength, printLoop] using hfit
  | succ n ih =>
      rw [restLength_succ] at hfit
      unfold printLoop
      split
      next =>
        refine ih ?_
        rw [round_off]
        omega
      next hge => exact Nat.le_of_not_lt hge

end

/-- When nothing but the table is read and nothing but the buffer is written. -/
theorem smem_in_bounds_iff (f : Flashes) (t : SmemPtable) (beyond mtdid : List UInt8) : InBounds f t beyond mtdid ↔
    t.len ≤ 32 ∧ (t.len = 0 ∨ 4096 ≤ mtdid.length + 1 ∨
      mtdid.length + 1 + restLength f t beyond false 0 t.len < 4096) := by
  have hstart : (Printing.print ⟨[], [], 0⟩ (mtdid ++ [58])).Inside :=
    Printing.Inside.print (fun w hw => absurd hw List.not_mem_nil) (by decide)
  have hoff : (Printing.print ⟨[], [], 0⟩ (mtdid ++ [58])).off = mtdid.length + 1 := by simp [Printing.print]
  constructor
  · intro h
    have hlen : t.len ≤ 32 := by
      by_contra hmany
      have hline := h.info _ (List.mem_map.mpr ⟨32, List.mem_range.mpr (by omega), rfl⟩)
      exact absurd hline (by dsimp only; omega)
    refine ⟨hlen, ?_⟩
    by_contra hno
    simp only [not_or, Nat.not_lt, Nat.not_le] at hno
    obtain ⟨hpos, hroom, hlong⟩ := hno
    have hbeyond := printLoop_beyond (hoff.symm ▸ hlong)
    have hindex : (printLoop f t beyond t.len 0 false (Printing.print ⟨[], [], 0⟩ (mtdid ++ [58]))).1 ≠ 0 := by
      obtain ⟨n, hn⟩ := Nat.exists_eq_succ_of_ne_zero hpos
      rw [hn, printLoop, if_pos (by rw [hoff]; exact hroom)]
      exact Nat.ne_of_gt printLoop_index
    have hlast := h.writes ((printLoop f t beyond t.len 0 false (Printing.print ⟨[], [], 0⟩ (mtdid ++ [58]))).2.off, 1) (by
      rw [printTable, if_neg hindex]
      simp)
    dsimp only at hlast
    omega
  · rintro ⟨hlen, htext⟩
    have hreads : ∀ i ∈ (printTable f t beyond mtdid).reads, i < t.len := by
      unfold printTable
      dsimp only
      split <;> exact printLoop_reads (fun j hj => absurd hj List.not_mem_nil) (by omega)
    refine ⟨fun name i hi => (smemGetpart_reads i hi).trans_le hlen, fun name i hi => ?_, fun line hline => ?_,
      fun i hi => (hreads i hi).trans_le hlen, ?_⟩
    · rw [getWhichFlashParam_reads] at hi
      exact (List.mem_range.mp hi).trans_le hlen
    · obtain ⟨i, hi, rfl⟩ := List.mem_map.mp hline
      exact (List.mem_range.mp hi).trans_le hlen
    · rcases htext with hzero | hfull | hfit
      · rw [printTable, hzero, printLoop, if_pos rfl]
        exact hstart
      · have hstop : printLoop f t beyond t.len 0 false (Printing.print ⟨[], [], 0⟩ (mtdid ++ [58])) =
            (0, Printing.print ⟨[], [], 0⟩ (mtdid ++ [58])) := by
          cases t.len with
          | zero => rfl
          | succ n => rw [printLoop, if_neg (by rw [hoff]; omega)]
        rw [printTable, hstop, if_pos rfl]
        exact hstart
      · obtain ⟨hin, hend⟩ := printLoop_inside hstart (hoff.symm ▸ hfit)
        unfold printTable
        dsimp only
        split
        next => exact hin
        next =>
          intro w hw
          rcases List.mem_append.mp hw with hw | hw
          · exact hin w hw
          · rw [List.mem_singleton.mp hw]
            right
            dsimp only
            omega

/-! ## The text -/

section
variable {f : Flashes} {t : SmemPtable} {beyond mtdid : List UInt8} {init : Bool} {i n : Nat}

theorem bytes_length (p : SmemPtn) : p.bytes.length = 28 := by simp [SmemPtn.bytes, p.name_length, le32]

theorem drop_bytes (parts : List SmemPtn) (h : i ≤ parts.length) :
    (parts.flatMap SmemPtn.bytes ++ beyond).drop (28 * i) = (parts.drop i).flatMap SmemPtn.bytes ++ beyond := by
  induction parts generalizing i with
  | nil =>
      obtain rfl := Nat.le_zero.mp h
      rfl
  | cons p parts ih =>
      cases i with
      | zero => rfl
      | succ i =>
          rw [List.flatMap_cons, List.append_assoc, Nat.mul_succ, Nat.add_comm, ← List.drop_drop,
            List.drop_left' (bytes_length p), ih (Nat.le_of_succ_le_succ h), List.drop_succ_cons]

/-- In the table, the lengths are those of the text. -/
theorem partsText_length (h : i + n ≤ 32) :
    (partsText f beyond init n (t.parts.drop i)).length = restLength f t beyond init i n := by
  induction n generalizing i init with
  | zero => rw [partsText]; rfl
  | succ n ih =>
      have hlt : i < t.parts.length := by rw [t.parts_length]; omega
      have hentry : t.entry beyond i = t.parts[i] := by
        rw [SmemPtable.entry, List.getElem?_eq_getElem hlt, Option.getD_some]
      have hname : t.nameAt beyond i = printedName (t.parts.drop i) beyond := by
        rw [SmemPtable.nameAt, drop_bytes _ hlt.le, printedName]
      have hinit : (init || t.opens beyond init i) = (init || decide (t.parts[i].whichFlash ≠ 0)) := by
        rw [SmemPtable.opens, hentry]
        cases init <;> rfl
      have hopen : (if t.parts[i].whichFlash ≠ 0 ∧ init = false then 59 :: nandName f ++ [58] else []).length =
          if t.opens beyond init i = true then (nandName f).length + 2 else 0 := by
        rw [SmemPtable.opens, hentry]
        cases init with
        | true => simp
        | false =>
            by_cases hboot : t.parts[i].whichFlash = 0
            · simp [hboot]
            · simp [hboot]
      rw [restLength_succ, hentry, hname, hinit, ← ih (by omega), ← hopen]
      conv_lhs => rw [List.drop_eq_getElem_cons hlt, partsText, ← List.drop_eq_getElem_cons hlt]
      rw [List.length_append, List.length_append]

/-- A table that fits the structure: the text does not fit just when the lengths add up to the buffer. -/
theorem overflow_iff (hlen : t.len ≤ 32) (hpos : t.len ≠ 0) : qcaSmemPartToMtdparts f t beyond mtdid = .overflow ↔
    4096 ≤ mtdid.length + 1 + restLength f t beyond false 0 t.len := by
  have htext : (mtdid ++ 58 :: partsText f beyond false t.len t.parts).length =
      mtdid.length + 1 + restLength f t beyond false 0 t.len := by
    rw [← partsText_length (by omega), List.drop_zero, List.length_append, List.length_cons]
    omega
  rw [qcaSmemPartToMtdparts, if_neg hpos, ← htext]
  split
  next hlong => exact iff_of_true rfl hlong
  next hfit => exact iff_of_false (by simp) hfit

end

/-- A table with the right magic that says it has 33 entries. -/
def longPtable : SmemPtable := ⟨(0x55ee73aa, 0xe35ebddb), 3, 33, List.replicate 32 emptyPtn, rfl⟩

/-- The table is accepted, and `smeminfo` reads behind it. -/
theorem smem_len_unchecked : smemPtableInit ⟨1, 16 + 28 * 32, longPtable⟩ = some longPtable ∧
    ∀ f beyond mtdid, ¬InBounds f longPtable beyond mtdid := by
  refine ⟨rfl, fun f beyond mtdid h => ?_⟩
  have hline := h.info _ (List.mem_map.mpr ⟨32, List.mem_range.mpr (by decide), rfl⟩)
  exact absurd hline (Nat.lt_irrefl 32)

end Uboot.Smem
