import Mathlib.Data.List.TakeWhile
import Mathlib.Data.Nat.ModEq
import Uboot.Smem.Bounds

/-!
# Looking up an entry and listing it

`smem_getpart` and then `qca_set_part_entry` with the name of an entry, against what `do_smeminfo` prints and
`qca_smem_part_to_mtdparts` writes for it.
-/

namespace Uboot.Smem

open Lib Vsprintf

section
variable (f : Flashes) (t : SmemPtable) (beyond : List UInt8)

/-- `get_flash_block_size` -/
def getFlashBlockSize (name : List UInt8) : Nat :=
  if (getWhichFlashParam t beyond name).2 = 1 then (f.nandInfo f.spiNandAvailable).erasesize else f.flashBlockSize

/-- `qca_set_part_entry`: the offset and the size of the entry -/
def qcaSetPartEntry (name : List UInt8) (start size : Nat) : Int × Int :=
  let bsize := getFlashBlockSize f t beyond name
  (loff (start * bsize), loff (size * bsize))

/-- `"%lld%s0x%llx(%s),"` for a size and an offset -/
def entryText (offset size : Int) (name : List UInt8) : List UInt8 :=
  sizeText size ++ 48 :: 120 :: numeral 16 (offset % 2 ^ 64).toNat ++ 40 :: name ++ [41, 44]

/-- The entry can be looked up without a division by zero, and both listings have what is found. -/
def LookupAgrees (i : Nat) : Prop :=
  ((t.entry beyond i).size = 0xFFFFFFFF → f.flashBlockSize ≠ 0) ∧
  ∃ start size offset bytes, (smemGetpart f t beyond (cstr (t.entry beyond i).name)).2 = some (start, size) ∧
    qcaSetPartEntry f t beyond (cstr (t.entry beyond i).name) start size = (offset, bytes) ∧
    (∃ line ∈ doSmeminfo f t beyond, line.index = i ∧ loff line.offset = offset ∧ line.size = bytes) ∧
    ∃ head tail, partsText f beyond false t.len t.parts =
      partsText f beyond false i t.parts ++ (head ++ (entryText offset bytes (t.nameAt beyond i) ++ tail)) ∧
      (head = [] ∨ head = 59 :: nandName f ++ [58])

/-- No other entry has the name. -/
def UniqueName (i : Nat) : Prop := ∀ j < t.len, cstr (t.entry beyond j).name = cstr (t.entry beyond i).name → j = i

/-- `strcmp` sees the end of the name: in it, or in the first byte of the start behind it. -/
def SmemPtn.NameEnds (p : SmemPtn) : Prop := 0 ∈ p.name ∨ p.start % 256 = 0

instance (p : SmemPtn) : Decidable p.NameEnds := inferInstanceAs (Decidable (_ ∨ _))

/-- The blocks of the entry's flash from the start on reach the end of the device. They are counted in blocks of the boot flash. -/
def ReachesEnd (p : SmemPtn) : Prop := ∃ n < 2 ^ 32, n + p.start ≡ (f.nandInfo f.nandEnvDevice).size / f.flashBlockSize [MOD 2 ^ 32] ∧
  (p.start + n) * getPartBlockSize f p ≡ (f.nandInfo f.nandEnvDevice).size [MOD 2 ^ 64]

end

section
variable {f : Flashes} {t : SmemPtable} {beyond name : List UInt8} {i j n : Nat} {p : SmemPtn}

/-! ## Numbers -/

theorem loff_inj {a b : Nat} : loff a = loff b ↔ a ≡ b [MOD 2 ^ 64] := by
  have ha : a % 2 ^ 64 < 2 ^ 64 := Nat.mod_lt _ (by decide)
  have hb : b % 2 ^ 64 < 2 ^ 64 := Nat.mod_lt _ (by decide)
  rw [loff, loff, Nat.ModEq]
  split <;> split <;> omega

theorem loff_mod {a : Nat} (h : a < 2 ^ 64) : (loff a % 2 ^ 64).toNat = a := by
  rw [loff, Nat.mod_eq_of_lt h]
  split <;> omega

theorem getPartBlockSize_lt : getPartBlockSize f p < 2 ^ 32 := by
  rw [getPartBlockSize]
  split
  · exact (f.nandInfo f.spiNandAvailable).erasesize_lt
  · exact f.flashBlockSize_lt

theorem partOffset_lt : partOffset f p < 2 ^ 64 := by
  have h := Nat.mul_lt_mul'' p.start_lt (@getPartBlockSize_lt f p)
  rw [partOffset]
  omega

theorem partText_eq : partText f p name = entryText (loff (partOffset f p)) (psize f p) name := by
  rw [partText, entryText, loff_mod partOffset_lt]

/-! ## Names -/

theorem cstr_append_of_mem {xs : List UInt8} (h : 0 ∈ xs) (ys : List UInt8) : cstr (xs ++ ys) = cstr xs := by
  have hshort : (xs.takeWhile (· ≠ 0)).length ≠ xs.length := by
    intro hlen
    have hall := List.takeWhile_eq_self_iff.mp ((List.takeWhile_prefix _).eq_of_length hlen) 0 h
    simp at hall
  rw [cstr, List.takeWhile_append, if_neg hshort, cstr]

theorem cstr_cstr (xs : List UInt8) : cstr (cstr xs) = cstr xs := List.takeWhile_idem

theorem name_length_le : (cstr p.name).length ≤ 16 := p.name_length ▸ (List.takeWhile_prefix _).length_le

theorem entry_eq (hi : i < 32) : t.parts[i]? = some (t.entry beyond i) := by
  have hlt : i < t.parts.length := t.parts_length ▸ hi
  rw [SmemPtable.entry, List.getElem?_eq_getElem hlt, Option.getD_some]

/-- The name in memory, with what is behind it -/
theorem nameAt_eq (hi : i < 32) : ∃ rest, t.nameAt beyond i = cstr ((t.entry beyond i).name ++ UInt8.ofNat (t.entry beyond i).start :: rest) := by
  have hlt : i < t.parts.length := t.parts_length ▸ hi
  have hentry := @entry_eq t beyond i hi
  rw [List.getElem?_eq_getElem hlt, Option.some.injEq] at hentry
  refine ⟨(le32 (t.entry beyond i).start).tail ++ le32 (t.entry beyond i).size ++ le32 (t.entry beyond i).attr ++
    ((t.parts.drop (i + 1)).flatMap SmemPtn.bytes ++ beyond), ?_⟩
  rw [SmemPtable.nameAt, drop_bytes _ hlt.le, List.drop_eq_getElem_cons hlt, hentry, List.flatMap_cons, SmemPtn.bytes, le32]
  simp [List.append_assoc]

/-- `strcmp` finds the name of an entry where it sees its end. -/
theorem nameAt_of_ends (hi : i < 32) (h : (t.entry beyond i).NameEnds) : t.nameAt beyond i = cstr (t.entry beyond i).name := by
  obtain ⟨rest, hname⟩ := @nameAt_eq t beyond i hi
  rw [hname]
  rcases h with hmem | hstart
  · exact cstr_append_of_mem hmem _
  · have hzero : UInt8.ofNat (t.entry beyond i).start = 0 := UInt8.toNat_inj.mp (by simp [hstart])
    rw [hzero, cstr_append_nul]

/-- Else it has more than the 16 bytes. -/
theorem nameAt_long (hi : i < 32) (h : ¬ (t.entry beyond i).NameEnds) : 16 < (t.nameAt beyond i).length := by
  obtain ⟨rest, hname⟩ := @nameAt_eq t beyond i hi
  rw [SmemPtn.NameEnds, not_or] at h
  have hall : ∀ x ∈ (t.entry beyond i).name ++ [UInt8.ofNat (t.entry beyond i).start], x ≠ 0 := by
    intro x hx hzero
    rcases List.mem_append.mp hx with hx | hx
    · exact h.1 (hzero ▸ hx)
    · rw [List.mem_singleton.mp hx] at hzero
      have hbyte := congrArg UInt8.toNat hzero
      simp at hbyte
      exact h.2 hbyte
  have hsplit : (t.entry beyond i).name ++ UInt8.ofNat (t.entry beyond i).start :: rest =
      ((t.entry beyond i).name ++ [UInt8.ofNat (t.entry beyond i).start]) ++ rest := by
    rw [List.append_assoc]
    rfl
  rw [hname, hsplit, cstr_append hall, List.length_append, List.length_append, (t.entry beyond i).name_length, List.length_singleton]
  omega

/-! ## The lookups -/

theorem search_first {found : Nat → Bool} (hij : i ≤ j) (hjn : j < i + n) (hj : found j = true) (hno : ∀ k, i ≤ k → k < j → found k = false) :
    (search found n i).2 = j := by
  induction n generalizing i with
  | zero => omega
  | succ n ih =>
      rw [search]
      by_cases heq : i = j
      · rw [heq, hj, if_pos rfl]
      · rw [hno i (Nat.le_refl i) (by omega), if_neg Bool.false_ne_true]
        exact ih (by omega) (by omega) fun k hk => hno k (by omega)

/-- The entry of a unique name is found. -/
theorem smemGetpart_unique (hi : i < t.len) (hunique : UniqueName t beyond i) :
    (smemGetpart f t beyond (cstr (t.entry beyond i).name)).2 = some ((t.entry beyond i).start,
      if (t.entry beyond i).size = 0xFFFFFFFF then
        ((f.nandInfo f.nandEnvDevice).size / f.flashBlockSize + 2 ^ 32 - (t.entry beyond i).start) % 2 ^ 32
      else (t.entry beyond i).size) := by
  have hname : (cstr (cstr (t.entry beyond i).name)).take 16 = cstr (t.entry beyond i).name := by
    rw [cstr_cstr, List.take_of_length_le name_length_le]
  have hsearch : (search (fun j => decide (cstr (t.entry beyond j).name = cstr (t.entry beyond i).name)) t.len 0).2 = i :=
    search_first (Nat.zero_le i) (by omega) (decide_eq_true rfl) fun k _ hk => decide_eq_false fun h => by
      have := hunique k (by omega) h
      omega
  rw [smemGetpart, hname]
  dsimp only
  rw [hsearch, if_neg (by omega)]

theorem foldl_last {is : List Nat} {found : Nat → Prop} [DecidablePred found] {flash : Nat → Nat} (reads : List Nat) (start : Nat) :
    ((∀ j ∈ is, ¬ found j) → (is.foldl (fun r j => (r.1 ++ [j], if found j then flash j else r.2)) (reads, start)).2 = start) ∧
    ((∀ j ∈ is, found j ↔ j = i) → i ∈ is ∨ start = flash i →
      (is.foldl (fun r j => (r.1 ++ [j], if found j then flash j else r.2)) (reads, start)).2 = flash i) := by
  induction is generalizing reads start with
  | nil => exact ⟨fun _ => rfl, fun _ h => h.resolve_left List.not_mem_nil⟩
  | cons k ks ih =>
      refine ⟨fun hno => ?_, fun hall hmem => ?_⟩
      · rw [List.foldl_cons, if_neg (hno k List.mem_cons_self)]
        exact (ih _ _).1 fun j hj => hno j (List.mem_cons_of_mem _ hj)
      · rw [List.foldl_cons]
        refine (ih _ _).2 (fun j hj => hall j (List.mem_cons_of_mem _ hj)) ?_
        by_cases hk : k = i
        · rw [if_pos ((hall k List.mem_cons_self).mpr hk), hk]
          exact Or.inr rfl
        · rw [if_neg fun h => hk ((hall k List.mem_cons_self).mp h)]
          exact hmem.imp_left fun h => (List.mem_cons.mp h).resolve_left (Ne.symm hk)

/-- The flash of an entry is found where `strcmp` sees the end of its name. Else it is 0. -/
theorem getWhichFlashParam_unique (hlen : t.len ≤ 32) (hi : i < t.len) (hunique : UniqueName t beyond i) :
    (getWhichFlashParam t beyond (cstr (t.entry beyond i).name)).2 =
      if (t.entry beyond i).NameEnds then (t.entry beyond i).whichFlash else 0 := by
  have hlong : ∀ j < 32, ¬ (t.entry beyond j).NameEnds → t.nameAt beyond j ≠ cstr (t.entry beyond i).name := fun j hj hends heq => by
    have h := nameAt_long hj hends
    rw [heq] at h
    have := @name_length_le (t.entry beyond i)
    omega
  have hother : ∀ j < t.len, t.nameAt beyond j = cstr (t.entry beyond i).name → j = i := fun j hj heq => by
    by_cases hends : (t.entry beyond j).NameEnds
    · exact hunique j hj (by rw [← nameAt_of_ends (by omega) hends, heq])
    · exact absurd heq (hlong j (by omega) hends)
  rw [getWhichFlashParam, cstr_cstr]
  split
  · rename_i hends
    refine (@foldl_last i (List.range t.len) (fun j => t.nameAt beyond j = cstr (t.entry beyond i).name) _
      (fun j => (t.entry beyond j).whichFlash) [] 0).2 (fun j hj => ⟨hother j (List.mem_range.mp hj), ?_⟩) (Or.inl (List.mem_range.mpr hi))
    rintro rfl
    exact nameAt_of_ends (by omega) hends
  · rename_i hends
    refine (@foldl_last i (List.range t.len) (fun j => t.nameAt beyond j = cstr (t.entry beyond i).name) _
      (fun j => (t.entry beyond j).whichFlash) [] 0).1 fun j hj heq => ?_
    obtain rfl := hother j (List.mem_range.mp hj) heq
    exact hlong j (by omega) hends heq

/-- Where the block size by the name is that of the entry -/
theorem getFlashBlockSize_eq (hlen : t.len ≤ 32) (hi : i < t.len) (hunique : UniqueName t beyond i) :
    getFlashBlockSize f t beyond (cstr (t.entry beyond i).name) =
      if (t.entry beyond i).NameEnds then getPartBlockSize f (t.entry beyond i) else f.flashBlockSize := by
  rw [getFlashBlockSize, getWhichFlashParam_unique hlen hi hunique, getPartBlockSize]
  split
  · rfl
  · exact if_neg (by decide)

/-! ## The text of an entry -/

theorem partsText_split {parts : List SmemPtn} {init : Bool} (hin : i < n) (hp : i < parts.length) :
    ∃ head tail, partsText f beyond init n parts =
      partsText f beyond init i parts ++ (head ++ (partText f parts[i] (printedName (parts.drop i) beyond) ++ tail)) ∧
      (head = [] ∨ head = 59 :: nandName f ++ [58]) := by
  induction i generalizing n parts init with
  | zero =>
      obtain ⟨n, rfl⟩ : ∃ k, n = k + 1 := ⟨n - 1, by omega⟩
      obtain ⟨p, ps, rfl⟩ := List.exists_cons_of_length_pos hp
      refine ⟨if p.whichFlash ≠ 0 ∧ init = false then 59 :: nandName f ++ [58] else [],
        partsText f beyond (init || decide (p.whichFlash ≠ 0)) n ps, ?_, ?_⟩
      · rw [partsText, partsText, List.append_assoc]
        rfl
      split
      · exact Or.inr rfl
      · exact Or.inl rfl
  | succ i ih =>
      obtain ⟨n, rfl⟩ : ∃ k, n = k + 1 := ⟨n - 1, by omega⟩
      obtain ⟨p, ps, rfl⟩ := List.exists_cons_of_length_pos (Nat.zero_lt_of_lt hp)
      obtain ⟨head, tail, htext, hhead⟩ := @ih n ps (init || decide (p.whichFlash ≠ 0)) (by omega) (by simpa using hp)
      refine ⟨head, tail, ?_, hhead⟩
      rw [partsText, partsText, htext, List.append_assoc, List.append_assoc, List.append_assoc]
      rfl

/-! ## Agreement -/

/-- The listed values of an entry in both listings -/
theorem listed (hlen : t.len ≤ 32) (hi : i < t.len) :
    (∃ line ∈ doSmeminfo f t beyond, line.index = i ∧ loff line.offset = loff (partOffset f (t.entry beyond i)) ∧
      line.size = psize f (t.entry beyond i)) ∧
    ∃ head tail, partsText f beyond false t.len t.parts = partsText f beyond false i t.parts ++
      (head ++ (entryText (loff (partOffset f (t.entry beyond i))) (psize f (t.entry beyond i)) (t.nameAt beyond i) ++ tail)) ∧
      (head = [] ∨ head = 59 :: nandName f ++ [58]) := by
  have hlt : i < t.parts.length := by
    rw [t.parts_length]
    omega
  have hentry := @entry_eq t beyond i (by omega)
  rw [List.getElem?_eq_getElem hlt, Option.some.injEq] at hentry
  refine ⟨⟨_, List.mem_map.mpr ⟨i, List.mem_range.mpr hi, rfl⟩, rfl, rfl, rfl⟩, ?_⟩
  obtain ⟨head, tail, htext, hhead⟩ := @partsText_split f beyond i t.len t.parts false hi hlt
  refine ⟨head, tail, ?_, hhead⟩
  rw [htext, hentry, partText_eq, printedName, SmemPtable.nameAt, drop_bytes _ hlt.le]

/-- A line of the information has the values of its entry. -/
theorem line_values {line : InfoLine} (h : line ∈ doSmeminfo f t beyond) (hindex : line.index = i) :
    line.offset = partOffset f (t.entry beyond i) ∧ line.size = psize f (t.entry beyond i) := by
  obtain ⟨j, -, rfl⟩ := List.mem_map.mp h
  obtain rfl : j = i := hindex
  exact ⟨rfl, rfl⟩

theorem lookupAgrees_iff (hlen : t.len ≤ 32) (hi : i < t.len) (hunique : UniqueName t beyond i) : LookupAgrees f t beyond i ↔
    ((t.entry beyond i).size = 0xFFFFFFFF → f.flashBlockSize ≠ 0) ∧
    qcaSetPartEntry f t beyond (cstr (t.entry beyond i).name) (t.entry beyond i).start
      (if (t.entry beyond i).size = 0xFFFFFFFF then
        ((f.nandInfo f.nandEnvDevice).size / f.flashBlockSize + 2 ^ 32 - (t.entry beyond i).start) % 2 ^ 32
      else (t.entry beyond i).size) = (loff (partOffset f (t.entry beyond i)), psize f (t.entry beyond i)) := by
  rw [LookupAgrees, smemGetpart_unique hi hunique]
  refine and_congr_right fun _ => ⟨?_, fun h => ?_⟩
  · rintro ⟨start, size, offset, bytes, hget, hset, ⟨line, hline, hindex, hoffset, hsize⟩, -⟩
    obtain ⟨rfl, rfl⟩ := Prod.mk.inj (Option.some.inj hget)
    obtain ⟨hoff, hbytes⟩ := line_values hline hindex
    rw [hset, ← hoffset, ← hsize, hoff, hbytes]
  · obtain ⟨hinfo, htext⟩ := @listed f t beyond i hlen hi
    exact ⟨_, _, _, _, rfl, h, hinfo, htext⟩

/-- The count of blocks that `smem_getpart` makes reaches the end. -/
theorem reachesEnd_iff : ReachesEnd f p ↔
    (p.start + ((f.nandInfo f.nandEnvDevice).size / f.flashBlockSize + 2 ^ 32 - p.start) % 2 ^ 32) * getPartBlockSize f p ≡
      (f.nandInfo f.nandEnvDevice).size [MOD 2 ^ 64] := by
  have hstart := p.start_lt
  rw [ReachesEnd]
  generalize (f.nandInfo f.nandEnvDevice).size / f.flashBlockSize = count
  constructor
  · rintro ⟨n, hn, hcount, hend⟩
    have heq : n = (count + 2 ^ 32 - p.start) % 2 ^ 32 := by
      rw [Nat.ModEq] at hcount
      omega
    rwa [← heq]
  · intro h
    refine ⟨_, Nat.mod_lt _ (by decide), ?_, h⟩
    rw [Nat.ModEq]
    omega

theorem size_iff {size : Nat} : loff (size * getPartBlockSize f p) = loff ((f.nandInfo f.nandEnvDevice).size + 2 ^ 64 - partOffset f p) ↔
    (p.start + size) * getPartBlockSize f p ≡ (f.nandInfo f.nandEnvDevice).size [MOD 2 ^ 64] := by
  have hoff := @partOffset_lt f p
  rw [loff_inj, Nat.add_mul, ← partOffset, Nat.ModEq, Nat.ModEq]
  omega

/-- Looking an entry up gives what is listed for it just when `strcmp` sees the end of the name of an entry in NAND, unless its blocks are
those of the boot flash, and the blocks up to the end of the device make up the device. -/
theorem smem_lookup_agrees_iff (hlen : t.len ≤ 32) (hi : i < t.len) (hunique : UniqueName t beyond i) : LookupAgrees f t beyond i ↔
    ((t.entry beyond i).whichFlash = 1 → (t.entry beyond i).NameEnds ∨ (f.nandInfo f.spiNandAvailable).erasesize = f.flashBlockSize) ∧
    ((t.entry beyond i).size = 0xFFFFFFFF → f.flashBlockSize ≠ 0 ∧ ReachesEnd f (t.entry beyond i)) := by
  rw [lookupAgrees_iff hlen hi hunique, qcaSetPartEntry, getFlashBlockSize_eq hlen hi hunique, reachesEnd_iff]
  generalize t.entry beyond i = p
  by_cases hsame : p.whichFlash = 1 → p.NameEnds ∨ (f.nandInfo f.spiNandAvailable).erasesize = f.flashBlockSize
  · have hblock : (if p.NameEnds then getPartBlockSize f p else f.flashBlockSize) = getPartBlockSize f p := by
      split
      · rfl
      · rename_i hends
        rw [getPartBlockSize]
        split
        · rename_i hnand
          exact ((hsame hnand).resolve_left hends).symm
        · rfl
    rw [hblock, and_iff_right hsame, Prod.mk.injEq, psize, and_iff_right (show loff (p.start * getPartBlockSize f p) = loff (partOffset f p) from rfl)]
    by_cases hend : p.size = 0xFFFFFFFF
    · rw [if_pos hend, if_pos hend, size_iff]
      exact ⟨fun h _ => ⟨h.1 hend, h.2⟩, fun h => ⟨fun _ => (h hend).1, (h hend).2⟩⟩
    · rw [if_neg hend, if_neg hend]
      exact iff_of_true ⟨fun h => absurd h hend, rfl⟩ fun h => absurd h hend
  · refine iff_of_false (fun h => ?_) fun h => hsame h.1
    obtain ⟨hnand, hdiff⟩ := Classical.not_imp.mp hsame
    obtain ⟨hends, hblocks⟩ := not_or.mp hdiff
    have hoff := congrArg Prod.fst h.2
    rw [if_neg hends, partOffset, getPartBlockSize, if_pos hnand, loff_inj] at hoff
    have hstart := p.start_lt
    have hpos : 0 < p.start := Nat.pos_of_ne_zero fun hzero => hends (Or.inr (by rw [hzero]))
    have hboot := Nat.mul_lt_mul'' hstart f.flashBlockSize_lt
    have hnandSize := Nat.mul_lt_mul'' hstart (f.nandInfo f.spiNandAvailable).erasesize_lt
    rw [Nat.ModEq, Nat.mod_eq_of_lt (by omega), Nat.mod_eq_of_lt (by omega)] at hoff
    exact hblocks (Nat.eq_of_mul_eq_mul_left hpos hoff).symm

end

/-! ## Tables of one entry -/

def oneEntry (p : SmemPtn) : SmemPtable := ⟨(0x55ee73aa, 0xe35ebddb), 3, 1, p :: List.replicate 31 emptyPtn, rfl⟩

theorem oneEntry_unique (p : SmemPtn) (beyond : List UInt8) : UniqueName (oneEntry p) beyond 0 := fun _ hj _ => Nat.lt_one_iff.mp hj

/-- Blocks of 64 KiB in the boot flash, and of 128 KiB in NAND -/
def sampleFlashes : Flashes := ⟨0x10000, 1, 1, fun _ => ⟨0x8000000, 0x20000, by decide, by decide⟩, by decide⟩

/-- A partition in the boot flash -/
def prefixedPtn : SmemPtn := ⟨[48, 58, 65, 82, 84, 0, 0, 0, 0, 0, 0, 0, 0, 0, 0, 0], 23, 1, 0, rfl, by decide, by decide, emptyPtn.attr_lt⟩

theorem smem_lookup_agrees_sample : LookupAgrees sampleFlashes (oneEntry prefixedPtn) [] 0 :=
  (smem_lookup_agrees_iff (by decide) (by decide) (oneEntry_unique prefixedPtn [])).mpr
    ⟨fun h => absurd h (by decide), fun h => absurd h (by decide)⟩

/-- A partition in NAND with 16 characters in its name -/
def longNamed : SmemPtn := ⟨List.replicate 16 97, 1, 1, 0x01000000, rfl, by decide, by decide, nandAttr_lt⟩

/-- The lookup takes it for one in the boot flash. -/
theorem smem_lookup_differs : (oneEntry longNamed).len ≤ 32 ∧ UniqueName (oneEntry longNamed) [] 0 ∧
    ¬ LookupAgrees sampleFlashes (oneEntry longNamed) [] 0 := by
  have hunique := oneEntry_unique longNamed []
  refine ⟨by decide, hunique, fun h => ?_⟩
  have hentry : (oneEntry longNamed).entry [] 0 = longNamed := rfl
  have hset := ((lookupAgrees_iff (by decide) (by decide) hunique).mp h).2
  rw [qcaSetPartEntry, getFlashBlockSize_eq (by decide) (by decide) hunique, hentry, if_neg (by decide)] at hset
  have hoff : loff (longNamed.start * sampleFlashes.flashBlockSize) = loff (partOffset sampleFlashes longNamed) := congrArg Prod.fst hset
  exact absurd (loff_inj.mp hoff) (by decide)

end Uboot.Smem
