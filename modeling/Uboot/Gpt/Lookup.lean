import Uboot.EnvMmc.Theorems
import Uboot.Gpt.Safety

/-!
# Partitions by name and by number

`find_part_efi` takes used entries of the primary table only, with their whole names. `get_partition_info_efi` takes any
entry of either table, and its name is cut.
-/

namespace Uboot.Gpt

open Lib
open Mmc (ulong)
open EnvMmc (GptEntry printEfiname isNamed)

/-- `find_part_efi` succeeds just when `get_partition_info_efi` does for a number with that name; it has the same place. -/
structure LookupsAgree (dev : BlockDev) (memalign : Nat → Bool) (name : List UInt8) : Prop where
  found : ∀ info pos part, findPartEfi dev memalign name info = .ok (pos, part) → 0 < pos →
    ∃ n info' part', getPartitionInfoEfi dev memalign n info' = .ok (0, part') ∧
      part'.name = name ∧ part'.start = part.start ∧ part'.size = part.size
  listed : ∀ n info part, getPartitionInfoEfi dev memalign n info = .ok (0, part) → part.name = name →
    ∃ info' pos part', findPartEfi dev memalign name info' = .ok (pos, part') ∧ 0 < pos

/-- A used entry has the name, and all entries that are counted were read. -/
def Named (table : Table) (name : List UInt8) : Prop :=
  table.num ≤ (slots table.array).length ∧ ∃ entry ∈ (slots table.array).take table.num, isNamed name entry = true

/-- No entry that was read has a name that is cut to this one, be it used or counted or not. -/
def Nowhere (table : Table) (name : List UInt8) : Prop :=
  ∀ entry ∈ slots table.array, (printEfiname entry).take 31 ≠ name

/-- The name is short, in the primary table; or it is nowhere. -/
structure NamesAgree (dev : BlockDev) (memalign : Nat → Bool) (name : List UInt8) : Prop where
  primary : ∀ head table, TableOk dev memalign gptPrimaryPartitionTableLba head table →
    (Named table name → name.length ≤ 31) ∧ (¬ Named table name → Nowhere table name)
  backup : SizesOk dev memalign gptPrimaryPartitionTableLba →
    (∀ head table, ¬ TableOk dev memalign gptPrimaryPartitionTableLba head table) →
    ∀ head table, TableOk dev memalign dev.backupLba head table → Nowhere table name

section
variable {dev : BlockDev} {memalign : Nat → Bool} {name pte : List UInt8} {table : Table} {entry : GptEntry}
  {info part : PartitionInfo} {n i : Nat} {num pos : Int} {r r' : Nat × PartitionInfo}

/-! ## The loop over the names -/

/-- As the loop over the entries of a table that was read. -/
theorem findLoop_run (h : i + n ≤ (slots pte).length) : ∃ r', findLoop pte name n i r = .ok r' ∧
    EnvMmc.findLoop name i (((slots pte).drop i).take n) (r.1, r.2.toDiskPartition) = (r'.1, r'.2.toDiskPartition) := by
  induction n generalizing i r with
  | zero => exact ⟨r, rfl, rfl⟩
  | succ n ih =>
      have hlt : i < (slots pte).length := by omega
      obtain ⟨r', hrun, hloop⟩ := @ih (i + 1)
        (if isNamed name (slots pte)[i] then (i + 1, partitionInfo (slots pte)[i]) else r) (by omega)
      refine ⟨r', ?_, ?_⟩
      · rw [findLoop, ptePtr_slot (List.getElem?_eq_getElem hlt), ok_bind]
        exact hrun
      · rw [List.drop_eq_getElem_cons hlt, List.take_succ_cons, EnvMmc.findLoop, ← hloop]
        split
        next => rfl
        next => rfl

/-- The last entry of that name, or what was there before. -/
theorem findLoop_cases (h : findLoop pte name n i r = .ok r') :
    (r' = r ∧ ∀ entry ∈ ((slots pte).drop i).take n, isNamed name entry = false) ∨
      ∃ j entry, (slots pte)[j]? = some entry ∧ entry ∈ ((slots pte).drop i).take n ∧ isNamed name entry = true ∧
        r' = (j + 1, partitionInfo entry) := by
  induction n generalizing i r with
  | zero => cases h; exact Or.inl ⟨rfl, by simp⟩
  | succ n ih =>
      obtain ⟨entry, hentry, h⟩ := bind_eq_ok h
      rcases Nat.lt_or_ge i (slots pte).length with hlt | hge
      case inr => rw [ptePtr_fault hge] at hentry; cases hentry
      have hslot := List.getElem?_eq_getElem hlt
      rw [ptePtr_slot hslot] at hentry
      cases hentry
      rw [List.drop_eq_getElem_cons hlt, List.take_succ_cons]
      rcases ih h with ⟨heq, hnone⟩ | ⟨j, entry, hj, hmem, hnamed, hr⟩
      · cases hname : isNamed name (slots pte)[i] with
        | false =>
            rw [hname] at heq
            exact Or.inl ⟨heq, List.forall_mem_cons.mpr ⟨hname, hnone⟩⟩
        | true =>
            rw [hname] at heq
            exact Or.inr ⟨i, _, hslot, List.mem_cons_self, hname, heq⟩
      · exact Or.inr ⟨j, entry, hj, List.mem_cons_of_mem _ hmem, hnamed, hr⟩

/-! ## The two lookups, for a table -/

theorem getPartitionInfo_ok (h : getPartitionInfoEfi dev memalign num info = .ok (0, part)) :
    ∃ table, loadTable dev memalign = .ok (some table) ∧ ∃ entry ∈ slots table.array, part = partitionInfo entry := by
  rw [getPartitionInfoEfi] at h
  split at h
  next => cases h
  next =>
    obtain ⟨result, hload, h⟩ := bind_eq_ok h
    cases result with
    | none => cases h
    | some table =>
        obtain ⟨entry, hentry, h⟩ := bind_eq_ok h
        cases h
        refine ⟨table, hload, entry, ?_, rfl⟩
        rcases Nat.lt_or_ge (num.toNat - 1) (slots table.array).length with hlt | hge
        · rw [ptePtr_slot (List.getElem?_eq_getElem hlt)] at hentry
          cases hentry
          exact List.getElem_mem hlt
        · rw [ptePtr_fault hge] at hentry
          cases hentry

theorem getPartitionInfo_slot (hload : loadTable dev memalign = .ok (some table))
    (hentry : (slots table.array)[i]? = some entry) :
    getPartitionInfoEfi dev memalign (i + 1 : Nat) info = .ok (0, partitionInfo entry) := by
  rw [getPartitionInfoEfi, if_neg (by omega), hload, ok_bind]
  dsimp only
  rw [Int.toNat_natCast, Nat.add_sub_cancel, ptePtr_slot hentry, ok_bind]

theorem loadTable_primary (h : isGptValid dev memalign gptPrimaryPartitionTableLba = .ok (some table)) :
    loadTable dev memalign = .ok (some table) := by
  rw [loadTable, h, ok_bind]

theorem loadTable_backup (h : isGptValid dev memalign gptPrimaryPartitionTableLba = .ok none) :
    loadTable dev memalign = isGptValid dev memalign dev.backupLba := by
  rw [loadTable, h, ok_bind]

/-- Nothing is found in the backup table. -/
theorem findPartEfi_backup (h : isGptValid dev memalign gptPrimaryPartitionTableLba = .ok none) (hpos : 0 < pos) :
    findPartEfi dev memalign name info ≠ .ok (pos, part) := by
  rw [findPartEfi, h, ok_bind]
  intro hfind
  obtain ⟨_, -, hfind⟩ := bind_eq_ok hfind
  cases hfind
  omega

theorem findPartEfi_named (h : isGptValid dev memalign gptPrimaryPartitionTableLba = .ok (some table)) :
    (∃ info pos part, findPartEfi dev memalign name info = .ok (pos, part) ∧ 0 < pos) ↔ Named table name := by
  constructor
  · rintro ⟨info, pos, part, hfind, hpos⟩
    have hall : table.num ≤ (slots table.array).length := (findPartEfi_some info h).mp ⟨_, hfind⟩
    rw [findPartEfi, h, ok_bind] at hfind
    obtain ⟨r, hloop, hfind⟩ := bind_eq_ok hfind
    cases hfind
    refine ⟨hall, ?_⟩
    rcases findLoop_cases hloop with ⟨rfl, -⟩ | ⟨j, entry, -, hmem, hnamed, -⟩
    · exact absurd hpos (lt_irrefl _)
    · exact ⟨entry, hmem, hnamed⟩
  · rintro ⟨hall, entry, hmem, hnamed⟩
    obtain ⟨r, hloop, -⟩ := @findLoop_run name table.array table.num 0 (0, ⟨⟨0, 0, 0⟩, [], []⟩) (by omega)
    rcases findLoop_cases hloop with ⟨-, hnone⟩ | ⟨j, entry, -, -, -, rfl⟩
    · rw [hnone entry hmem] at hnamed
      cases hnamed
    · refine ⟨⟨⟨0, 0, 0⟩, [], []⟩, (j + 1 : Nat), partitionInfo entry, ?_, by omega⟩
      rw [findPartEfi, h, ok_bind]
      dsimp only
      rw [hloop, ok_bind]

/-- What is found is an entry of that name. -/
theorem findPartEfi_entry (h : isGptValid dev memalign gptPrimaryPartitionTableLba = .ok (some table))
    (hfind : findPartEfi dev memalign name info = .ok (pos, part)) (hpos : 0 < pos) :
    ∃ (i : Nat) (entry : GptEntry), (slots table.array)[i]? = some entry ∧ isNamed name entry = true ∧ part = partitionInfo entry := by
  rw [findPartEfi, h, ok_bind] at hfind
  obtain ⟨r, hloop, hfind⟩ := bind_eq_ok hfind
  cases hfind
  rcases findLoop_cases hloop with ⟨rfl, -⟩ | ⟨j, entry, hj, -, hnamed, rfl⟩
  · exact absurd hpos (lt_irrefl _)
  · exact ⟨j, entry, hj, hnamed, rfl⟩

theorem isNamed_name (h : isNamed name entry = true) (hlen : name.length ≤ 31) : (printEfiname entry).take 31 = name := by
  rw [isNamed, Bool.and_eq_true, beq_iff_eq] at h
  rw [← h.2, List.take_of_length_le hlen]

theorem name_length (entry : GptEntry) : (partitionInfo entry).name.length ≤ 31 := by
  rw [partitionInfo, List.length_take]
  omega

/-! ## Agreement -/

theorem agree_primary (h : isGptValid dev memalign gptPrimaryPartitionTableLba = .ok (some table)) :
    LookupsAgree dev memalign name ↔
      (Named table name → name.length ≤ 31) ∧ (¬ Named table name → Nowhere table name) := by
  have hload := loadTable_primary h
  have hlisted : (∀ entry ∈ slots table.array, (printEfiname entry).take 31 = name → Named table name) ↔
      ∀ n info part, getPartitionInfoEfi dev memalign n info = .ok (0, part) → part.name = name →
        ∃ info' pos part', findPartEfi dev memalign name info' = .ok (pos, part') ∧ 0 < pos := by
    rw [findPartEfi_named h]
    constructor
    · intro hall n info part hget hname
      obtain ⟨table', hload', entry, hentry, rfl⟩ := getPartitionInfo_ok hget
      cases hload.symm.trans hload'
      exact hall entry hentry hname
    · intro hall entry hentry hname
      obtain ⟨i, hi⟩ := List.mem_iff_getElem?.mp hentry
      exact hall _ ⟨⟨0, 0, 0⟩, [], []⟩ _ (getPartitionInfo_slot hload hi) hname
  constructor
  · intro hagree
    constructor
    · intro hnamed
      obtain ⟨info, pos, part, hfind, hpos⟩ := (findPartEfi_named h).mpr hnamed
      obtain ⟨n, info', part', hget, hname, -⟩ := hagree.found info pos part hfind hpos
      obtain ⟨table', -, entry, -, rfl⟩ := getPartitionInfo_ok hget
      rw [← hname]
      exact name_length entry
    · intro hnamed entry hentry hname
      exact hnamed (hlisted.mpr hagree.listed entry hentry hname)
  · rintro ⟨hshort, hnowhere⟩
    constructor
    · intro info pos part hfind hpos
      have hlen := hshort ((findPartEfi_named h).mp ⟨info, pos, part, hfind, hpos⟩)
      obtain ⟨i, entry, hi, hname, rfl⟩ := findPartEfi_entry h hfind hpos
      exact ⟨_, info, _, getPartitionInfo_slot hload hi, isNamed_name hname hlen, rfl, rfl⟩
    · refine hlisted.mp fun entry hentry hname => ?_
      by_contra hnamed
      exact hnowhere hnamed entry hentry hname

theorem agree_backup (h : isGptValid dev memalign gptPrimaryPartitionTableLba = .ok none) :
    LookupsAgree dev memalign name ↔
      ∀ table, isGptValid dev memalign dev.backupLba = .ok (some table) → Nowhere table name := by
  have hload := loadTable_backup h
  constructor
  · intro hagree table htable entry hentry hname
    obtain ⟨i, hi⟩ := List.mem_iff_getElem?.mp hentry
    have hget := @getPartitionInfo_slot _ _ _ _ ⟨⟨0, 0, 0⟩, [], []⟩ _ (hload.trans htable) hi
    obtain ⟨info, pos, part, hfind, hpos⟩ := hagree.listed _ _ _ hget hname
    exact findPartEfi_backup h hpos hfind
  · intro hnowhere
    refine ⟨fun info pos part hfind hpos => absurd hfind (findPartEfi_backup h hpos), ?_⟩
    intro n info part hget hname
    obtain ⟨table, htable, entry, hentry, rfl⟩ := getPartitionInfo_ok hget
    exact absurd hname (hnowhere table (hload.symm.trans htable) entry hentry)

/-- The two lookups agree just when the name is short or nowhere. -/
theorem gpt_lookups_agree_iff (dev : BlockDev) (memalign : Nat → Bool) (name : List UInt8) :
    LookupsAgree dev memalign name ↔ NamesAgree dev memalign name := by
  rcases isGptValid_cases dev memalign gptPrimaryPartitionTableLba with
    ⟨e, hprimary, hfault, hno⟩ | ⟨hprimary, hsizes, hno⟩ | ⟨head, table, hprimary, -, hok, hunique⟩
  · have hload : loadTable dev memalign = .error e := by rw [loadTable, hprimary, error_bind]
    refine iff_of_true ⟨?_, ?_⟩ ⟨fun head table hok => absurd hok (hno head table), fun h => absurd h hfault⟩
    · intro info pos part hfind
      rw [findPartEfi, hprimary, error_bind] at hfind
      cases hfind
    · intro n info part hget
      obtain ⟨table, htable, -⟩ := getPartitionInfo_ok hget
      cases hload.symm.trans htable
  · rw [agree_backup hprimary]
    constructor
    · intro h
      refine ⟨fun head table hok => absurd hok (hno head table), ?_⟩
      intro _ _ head table hok
      exact h table (isGptValid_some.mpr ⟨head, hok⟩)
    · intro h table htable
      obtain ⟨head, hok⟩ := isGptValid_some.mp htable
      exact h.backup hsizes hno head table hok
  · rw [agree_primary hprimary]
    constructor
    · intro h
      refine ⟨?_, fun _ hno => absurd hok (hno head table)⟩
      intro head' table' hok'
      cases hunique head' table' hok'
      exact h
    · intro h
      exact h.primary head table hok

/-- As `EnvMmc` has it: the entries of the primary table. -/
theorem findPartEfi_entries (h : isGptValid dev memalign gptPrimaryPartitionTableLba = .ok (some table))
    (hall : table.num ≤ (slots table.array).length) : ∃ pos part, findPartEfi dev memalign name info = .ok (pos, part) ∧
      EnvMmc.findPartEfi (some ((slots table.array).take table.num)) name info.toDiskPartition =
        (pos, part.toDiskPartition) := by
  obtain ⟨r, hrun, hloop⟩ := @findLoop_run name table.array table.num 0 (0, info) (by omega)
  rw [List.drop_zero] at hloop
  refine ⟨r.1, r.2, ?_, ?_⟩
  · rw [findPartEfi, h, ok_bind]
    dsimp only
    rw [hrun, ok_bind]
  · rw [EnvMmc.findPartEfi, hloop]

end

/-! ## A disk whose backup table is the valid one -/

/-- An entry with the name `a`, for the sectors 34 to 40 -/
def oneEntry : List UInt8 :=
  1 :: List.replicate 15 0 ++ 2 :: List.replicate 15 0 ++ [34, 0, 0, 0, 0, 0, 0, 0, 40, 0, 0, 0, 0, 0, 0, 0] ++
    List.replicate 8 0 ++ [97, 0]

def oneHeader : List UInt8 :=
  ascii "EFI PART" ++ [0, 0, 1, 0, 92, 0, 0, 0, 23, 250, 248, 165, 0, 0, 0, 0] ++
    [63, 0, 0, 0, 0, 0, 0, 0, 1, 0, 0, 0, 0, 0, 0, 0, 34, 0, 0, 0, 0, 0, 0, 0, 60, 0, 0, 0, 0, 0, 0, 0] ++
      3 :: List.replicate 15 0 ++ [40, 0, 0, 0, 0, 0, 0, 0, 4, 0, 0, 0, 128, 0, 0, 0, 128, 140, 53, 6]

/-- 64 sectors; four entries are in the sector 40 and their header is in the last one. -/
def backupOnly : BlockDev where
  lba := 64
  bytes := fun a => if a < 20480 then 0 else if a < 32256 then oneEntry.getD (a - 20480) 0 else oneHeader.getD (a - 32256) 0
  fails := fun _ _ => false
  lba_lt := by decide

/-- The register behind each 64 bytes of the entries -/
def oneRegister : List (BitVec 32) :=
  [0xffffffff, 0x4cc9dac2, 0x412c3fa9, 0x1543f66, 0xc5a2843, 0xedbdbc75, 0x60374d4e, 0x9f8d53cf, 0xf9ca737f]

theorem backupOnly_array_crc : (Crc32.crc32 0 0 (backupOnly.bytes.read 20480 512)).toNat = 0x6358c80 := by
  have hround : ∀ k < 8, (backupOnly.bytes.read (20480 + 64 * k) 64).foldl Crc32.crcByte (oneRegister.getD k 0) =
      oneRegister.getD (k + 1) 0 := by set_option maxRecDepth 16000 in decide
  have hrun : ∀ k ≤ 8, (backupOnly.bytes.read 20480 (64 * k)).foldl Crc32.crcByte 0xffffffff = oneRegister.getD k 0 := by
    intro k hk
    induction k with
    | zero => rfl
    | succ k ih =>
        have hsplit : backupOnly.bytes.read 20480 (64 * (k + 1)) =
            backupOnly.bytes.read 20480 (64 * k) ++ backupOnly.bytes.read (20480 + 64 * k) 64 := by
          simp [Mem.read, Nat.mul_succ, List.range_add, Nat.add_assoc, Function.comp_def]
        rw [hsplit, List.foldl_append, ih (by omega), hround k (by omega)]
  have hinit : (0 : BitVec 32) ^^^ 0xffffffff = 0xffffffff := rfl
  rw [Crc32.crc32, Crc32.crc32NoComp_eq, hinit, hrun 8 (le_refl 8)]
  decide

def backupOnlyHeader : GptHeader := ⟨backupOnly.bytes.read 32256 512, Mem.read_length⟩

theorem backupOnly_header_crc :
    (Crc32.crc32 0 0 (backupOnlyHeader.cleared.take backupOnlyHeader.headerSize)).toNat = backupOnlyHeader.headerCrc32 := by
  have hsize : backupOnlyHeader.headerSize = 64 + 28 := by set_option maxRecDepth 1000 in decide
  have hfirst : (backupOnlyHeader.cleared.take 64).foldl Crc32.crcByte 0xffffffff = 0xfc725d33 := by set_option maxRecDepth 16000 in decide
  have hlast : ((backupOnlyHeader.cleared.drop 64).take 28).foldl Crc32.crcByte 0xfc725d33 = 0x5a0705e8 := by
    set_option maxRecDepth 16000 in decide
  have hinit : (0 : BitVec 32) ^^^ 0xffffffff = 0xffffffff := rfl
  rw [hsize, List.take_add, Crc32.crc32, Crc32.crc32NoComp_eq, hinit, List.foldl_append, hfirst, hlast]
  set_option maxRecDepth 1000 in decide

theorem backupOnly_table : TableOk backupOnly (fun _ => true) backupOnly.backupLba backupOnlyHeader
    ⟨4, backupOnly.bytes.read 20480 512⟩ where
  read := rfl
  signature := by set_option maxRecDepth 1000 in decide
  size := by set_option maxRecDepth 1000 in decide
  crc := backupOnly_header_crc
  myLba := by set_option maxRecDepth 1000 in decide
  first := by set_option maxRecDepth 1000 in decide
  last := by set_option maxRecDepth 1000 in decide
  array := by
    have hcount : backupOnlyHeader.count = 512 := by set_option maxRecDepth 1000 in decide
    have hlba : backupOnlyHeader.partitionEntryLba = 40 := by set_option maxRecDepth 1000 in decide
    have hstart : gptBlockSize * ulong 40 = 20480 := by decide
    have hlen : gptBlockSize * (512 / gptBlockSize) = 512 := by decide
    rw [allocReadGptEntries, hcount, hlba, if_neg (by decide), BlockDev.blockRead, if_neg (fun h => by cases h.2), hstart, hlen]
  whole := by set_option maxRecDepth 1000 in decide
  array_crc := by
    rw [backupOnly_array_crc]
    set_option maxRecDepth 1000 in decide
  num := by set_option maxRecDepth 1000 in decide

/-- The partition 1 has the name `a`, which is not found. -/
theorem gpt_backup_not_found : ¬ LookupsAgree backupOnly (fun _ => true) [97] := by
  have hprimary : isGptValid backupOnly (fun _ => true) gptPrimaryPartitionTableLba = .ok none :=
    isGptValid_signature rfl (by set_option maxRecDepth 1000 in decide)
  rw [agree_backup hprimary]
  intro h
  refine h _ (isGptValid_some.mpr ⟨_, backupOnly_table⟩) (gptEntry ((backupOnly.bytes.read 20480 512).take 128)) ?_ ?_
  · rw [slots, List.mem_map]
    exact ⟨0, List.mem_range.mpr (by rw [Mem.read_length]; decide), by rw [Nat.mul_zero, List.drop_zero]⟩
  · set_option maxRecDepth 1000 in decide

end Uboot.Gpt
