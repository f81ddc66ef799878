import Uboot.Gpt.Basic

/-!
# What is read of a table

The sizes in a header are not compared with anything: the checksums run over as many bytes as they tell, and the loops go
over as many entries.
-/

namespace Uboot.Gpt

open Lib
open Mmc (ulong)
open EnvMmc (GptEntry isPteValid isNamed)

/-- Nothing is used that was not read. -/
def Safe {α : Type} (r : Except Fault α) : Prop := ∃ a, r = .ok a

/-- The entries of an array that were read. -/
def slots (pte : List UInt8) : List GptEntry :=
  (List.range (pte.length / 128)).map fun i => gptEntry ((pte.drop (128 * i)).take 128)

/-- The checksums of the table at `lba` are those of bytes that were read. -/
def SizesOk (dev : BlockDev) (memalign : Nat → Bool) (lba : Nat) : Prop :=
  ∀ head, dev.readHeader lba = some head → head.signature = gptHeaderSignature →
    head.headerSize ≤ gptBlockSize ∧
      (HeaderOk dev lba head → ∀ pte, allocReadGptEntries dev memalign head = some pte → gptBlockSize ∣ head.count)

/-- No byte is used by `is_gpt_valid` or by a loop over the entries that was not read from the disk. -/
def ReadsSafely (dev : BlockDev) (memalign : Nat → Bool) : Prop :=
  (∀ name info, Safe (findPartEfi dev memalign name info)) ∧ Safe (printPartEfi dev memalign)

/-- The sizes in the headers that are looked at fit. -/
structure SizesFit (dev : BlockDev) (memalign : Nat → Bool) : Prop where
  primary : SizesOk dev memalign gptPrimaryPartitionTableLba
  entries : ∀ head table, TableOk dev memalign gptPrimaryPartitionTableLba head table →
    table.num ≤ (slots table.array).length
  backup : (∀ head table, ¬ TableOk dev memalign gptPrimaryPartitionTableLba head table) →
    SizesOk dev memalign dev.backupLba ∧ ∀ head table, TableOk dev memalign dev.backupLba head table →
      table.num ≤ (slots table.array).length ∨ ∃ entry ∈ slots table.array, isPteValid entry = false

section
variable {α β : Type} {dev : BlockDev} {memalign : Nat → Bool} {lba n i : Nat} {head : GptHeader} {pte name : List UInt8}
  {table : Table} {entry : GptEntry} {r r' : Nat × PartitionInfo}

theorem safe_ok (a : α) : Safe (.ok a : Except Fault α) := ⟨a, rfl⟩

theorem not_safe_error (e : Fault) : ¬ Safe (.error e : Except Fault α) := by
  rintro ⟨a, h⟩
  cases h

theorem safe_bind {x : Except Fault α} {f : α → Except Fault β} : Safe (x >>= f) ↔ ∃ a, x = .ok a ∧ Safe (f a) := by
  constructor
  · rintro ⟨b, h⟩
    obtain ⟨a, ha, hf⟩ := bind_eq_ok h
    exact ⟨a, ha, b, hf⟩
  · rintro ⟨a, rfl, h⟩
    rwa [ok_bind]

/-! ## One table -/

theorem isGptValid_unread (h : dev.readHeader lba = none) : isGptValid dev memalign lba = .ok none := by
  rw [isGptValid, h]

theorem isGptValid_signature (hread : dev.readHeader lba = some head) (h : head.signature ≠ gptHeaderSignature) :
    isGptValid dev memalign lba = .ok none := by
  rw [isGptValid, hread]
  exact if_pos h

theorem isGptValid_size (hread : dev.readHeader lba = some head) (hsig : head.signature = gptHeaderSignature)
    (h : ¬ head.headerSize ≤ gptBlockSize) : isGptValid dev memalign lba = .error .unread := by
  have hfault : efiCrc32 head.cleared head.headerSize = .error .unread := if_neg (by rwa [head.cleared_length])
  rw [isGptValid, hread]
  dsimp only
  rw [if_neg (not_not.mpr hsig), hfault, error_bind]

theorem isGptValid_checks (hread : dev.readHeader lba = some head) (hsig : head.signature = gptHeaderSignature)
    (hsize : head.headerSize ≤ gptBlockSize) (h : ¬ HeaderOk dev lba head) : isGptValid dev memalign lba = .ok none := by
  have hcrc : efiCrc32 head.cleared head.headerSize = .ok _ := if_pos (by rwa [head.cleared_length])
  rw [isGptValid, hread]
  dsimp only
  rw [if_neg (not_not.mpr hsig), hcrc, ok_bind]
  split
  next => rfl
  next h₁ =>
    split
    next => rfl
    next h₂ =>
      split
      next => rfl
      next h₃ =>
        split
        next => rfl
        next h₄ =>
          exact absurd ⟨hread, hsig, hsize, not_not.mp h₁, not_not.mp h₂, Nat.not_lt.mp h₃, Nat.not_lt.mp h₄⟩ h

theorem isGptValid_header (h : HeaderOk dev lba head) : isGptValid dev memalign lba = readEntries dev memalign head := by
  have hcrc : efiCrc32 head.cleared head.headerSize = .ok _ := if_pos (by rw [head.cleared_length]; exact h.size)
  rw [isGptValid, h.read]
  dsimp only
  rw [if_neg (not_not.mpr h.signature), hcrc, ok_bind, if_neg (not_not.mpr h.crc), if_neg (not_not.mpr h.myLba),
    if_neg (Nat.not_lt.mpr h.first), if_neg (Nat.not_lt.mpr h.last)]

theorem readEntries_none (h : allocReadGptEntries dev memalign head = none) : readEntries dev memalign head = .ok none := by
  rw [readEntries, h]

theorem readEntries_part (h : allocReadGptEntries dev memalign head = some pte) (hdvd : ¬ gptBlockSize ∣ head.count) :
    readEntries dev memalign head = .error .unread := by
  have hfault : efiCrc32 pte head.count = .error .unread := if_neg (mt (whole_iff h).mp hdvd)
  rw [readEntries, h]
  dsimp only
  rw [hfault, error_bind]

theorem readEntries_whole (h : allocReadGptEntries dev memalign head = some pte) (hdvd : gptBlockSize ∣ head.count) :
    readEntries dev memalign head =
      if (Crc32.crc32 0 0 pte).toNat = head.partitionEntryArrayCrc32 then .ok (some ⟨head.numPartitionEntries, pte⟩)
      else .ok none := by
  have hlen : pte.length = head.count := (array_length h).1.trans (Nat.mul_div_cancel' hdvd)
  have hcrc : efiCrc32 pte head.count = .ok (Crc32.crc32 0 0 pte).toNat := by
    rw [efiCrc32, if_pos hlen.ge, List.take_of_length_le hlen.le]
  rw [readEntries, h]
  dsimp only
  rw [hcrc, ok_bind]
  exact ite_not _ _ _

/-- A table that is found valid passes every check. -/
theorem isGptValid_some : isGptValid dev memalign lba = .ok (some table) ↔ ∃ head, TableOk dev memalign lba head table := by
  constructor
  · intro h
    cases hread : dev.readHeader lba with
    | none => rw [isGptValid_unread hread] at h; cases h
    | some head =>
        by_cases hsig : head.signature = gptHeaderSignature
        case neg => rw [isGptValid_signature hread hsig] at h; cases h
        by_cases hsize : head.headerSize ≤ gptBlockSize
        case neg => rw [isGptValid_size hread hsig hsize] at h; cases h
        by_cases hok : HeaderOk dev lba head
        case neg => rw [isGptValid_checks hread hsig hsize hok] at h; cases h
        rw [isGptValid_header hok] at h
        cases halloc : allocReadGptEntries dev memalign head with
        | none => rw [readEntries_none halloc] at h; cases h
        | some pte =>
            by_cases hdvd : gptBlockSize ∣ head.count
            case neg => rw [readEntries_part halloc hdvd] at h; cases h
            rw [readEntries_whole halloc hdvd] at h
            split at h
            next hcrc => cases h; exact ⟨head, hok, halloc, hdvd, hcrc, rfl⟩
            next => cases h
  · rintro ⟨head, hok⟩
    rw [isGptValid_header hok.toHeaderOk, readEntries_whole hok.array hok.whole, if_pos hok.array_crc, ← hok.num]

theorem isGptValid_safe : Safe (isGptValid dev memalign lba) ↔ SizesOk dev memalign lba := by
  constructor
  · intro h head hread hsig
    have hsize : head.headerSize ≤ gptBlockSize := by
      by_contra hsize
      rw [isGptValid_size hread hsig hsize] at h
      exact not_safe_error _ h
    refine ⟨hsize, ?_⟩
    intro hok pte halloc
    by_contra hdvd
    rw [isGptValid_header hok, readEntries_part halloc hdvd] at h
    exact not_safe_error _ h
  · intro h
    cases hread : dev.readHeader lba with
    | none => rw [isGptValid_unread hread]; exact safe_ok _
    | some head =>
        by_cases hsig : head.signature = gptHeaderSignature
        case neg => rw [isGptValid_signature hread hsig]; exact safe_ok _
        obtain ⟨hsize, hwhole⟩ := h head hread hsig
        by_cases hok : HeaderOk dev lba head
        case neg => rw [isGptValid_checks hread hsig hsize hok]; exact safe_ok _
        rw [isGptValid_header hok]
        cases halloc : allocReadGptEntries dev memalign head with
        | none => rw [readEntries_none halloc]; exact safe_ok _
        | some pte =>
            rw [readEntries_whole halloc (hwhole hok pte halloc)]
            split
            next => exact safe_ok _
            next => exact safe_ok _

/-! ## The loops -/

theorem slots_length : (slots pte).length = pte.length / 128 := by
  rw [slots, List.length_map, List.length_range]

theorem ptePtr_slot (h : (slots pte)[i]? = some entry) : ptePtr pte i = .ok entry := by
  have hi : i < pte.length / 128 := by
    rw [← slots_length]
    exact (List.getElem?_eq_some_iff.mp h).1
  have hentry : gptEntry ((pte.drop (128 * i)).take 128) = entry := by
    simpa [slots, List.getElem?_range hi] using h
  rw [ptePtr, if_pos (by omega), hentry]

theorem ptePtr_fault (h : (slots pte).length ≤ i) : ptePtr pte i = .error .unread := by
  rw [slots_length] at h
  exact if_neg (by omega)

theorem findLoop_safe (hi : i ≤ (slots pte).length) : Safe (findLoop pte name n i r) ↔ i + n ≤ (slots pte).length := by
  induction n generalizing i r with
  | zero => exact iff_of_true (safe_ok r) hi
  | succ n ih =>
      rw [findLoop]
      rcases Nat.lt_or_ge i (slots pte).length with hlt | hge
      · rw [ptePtr_slot (List.getElem?_eq_getElem hlt), ok_bind, ih hlt]
        omega
      · rw [ptePtr_fault hge, error_bind]
        exact iff_of_false (not_safe_error _) (by omega)

theorem printLoop_safe (hi : i ≤ (slots pte).length) : Safe (printLoop pte n i) ↔
    i + n ≤ (slots pte).length ∨ ∃ entry ∈ (slots pte).drop i, isPteValid entry = false := by
  induction n generalizing i with
  | zero => exact iff_of_true (safe_ok _) (Or.inl hi)
  | succ n ih =>
      rw [printLoop]
      rcases Nat.lt_or_ge i (slots pte).length with hlt | hge
      · rw [ptePtr_slot (List.getElem?_eq_getElem hlt), ok_bind, List.drop_eq_getElem_cons hlt]
        cases hvalid : isPteValid (slots pte)[i] with
        | false => exact iff_of_true (safe_ok _) (Or.inr ⟨_, List.mem_cons_self, hvalid⟩)
        | true =>
            have hrest : Safe (do
                let rest ← printLoop pte n (i + 1)
                (.ok ((i + 1, (slots pte)[i]) :: rest) : Except Fault (List (Nat × GptEntry)))) ↔
                Safe (printLoop pte n (i + 1)) := by
              rw [safe_bind]
              exact ⟨fun ⟨a, ha, _⟩ => ⟨a, ha⟩, fun ⟨a, ha⟩ => ⟨a, ha, safe_ok _⟩⟩
            have hcount : i.succ + n = i + (n + 1) := by omega
            rw [if_pos rfl, hrest, ih hlt, hcount]
            simp only [List.mem_cons, exists_eq_or_imp, hvalid, Bool.true_eq_false, false_or]
      · rw [ptePtr_fault hge, error_bind, List.drop_eq_nil_of_le hge]
        exact iff_of_false (not_safe_error _) (by simp; omega)

/-! ## The lookups -/

theorem findLoop_start_safe (info : PartitionInfo) :
    Safe (findLoop pte name n 0 (0, info)) ↔ n ≤ (slots pte).length := by
  rw [findLoop_safe (Nat.zero_le _), Nat.zero_add]

theorem printLoop_start_safe :
    Safe (printLoop pte n 0) ↔ n ≤ (slots pte).length ∨ ∃ entry ∈ slots pte, isPteValid entry = false := by
  rw [printLoop_safe (Nat.zero_le _), Nat.zero_add, List.drop_zero]

theorem findPartEfi_some (info : PartitionInfo)
    (h : isGptValid dev memalign gptPrimaryPartitionTableLba = .ok (some table)) :
    Safe (findPartEfi dev memalign name info) ↔ table.num ≤ (slots table.array).length := by
  rw [findPartEfi, h, ok_bind, ← @findLoop_start_safe _ _ name info, safe_bind]
  exact ⟨fun ⟨a, ha, _⟩ => ⟨a, ha⟩, fun ⟨a, ha⟩ => ⟨a, ha, safe_ok _⟩⟩

theorem findPartEfi_none (info : PartitionInfo) (h : isGptValid dev memalign gptPrimaryPartitionTableLba = .ok none) :
    Safe (findPartEfi dev memalign name info) ↔ Safe (isGptValid dev memalign dev.backupLba) := by
  rw [findPartEfi, h, ok_bind, safe_bind]
  exact ⟨fun ⟨a, ha, _⟩ => ⟨a, ha⟩, fun ⟨a, ha⟩ => ⟨a, ha, safe_ok _⟩⟩

theorem printPartEfi_some (h : isGptValid dev memalign gptPrimaryPartitionTableLba = .ok (some table)) :
    Safe (printPartEfi dev memalign) ↔
      table.num ≤ (slots table.array).length ∨ ∃ entry ∈ slots table.array, isPteValid entry = false := by
  rw [printPartEfi, loadTable, h, ok_bind, ok_bind, printLoop_start_safe]

theorem printPartEfi_none (h : isGptValid dev memalign gptPrimaryPartitionTableLba = .ok none) :
    Safe (printPartEfi dev memalign) ↔ Safe (isGptValid dev memalign dev.backupLba) ∧
      ∀ table, isGptValid dev memalign dev.backupLba = .ok (some table) →
        table.num ≤ (slots table.array).length ∨ ∃ entry ∈ slots table.array, isPteValid entry = false := by
  rw [printPartEfi, loadTable, h, ok_bind]
  dsimp only
  cases hbackup : isGptValid dev memalign dev.backupLba with
  | error e => exact iff_of_false (not_safe_error e) (fun h => not_safe_error e h.1)
  | ok table =>
      rw [ok_bind]
      cases table with
      | none => exact iff_of_true (safe_ok _) ⟨safe_ok _, fun _ h => by cases h⟩
      | some table =>
          dsimp only
          rw [printLoop_start_safe]
          constructor
          · intro hin
            refine ⟨safe_ok _, ?_⟩
            intro table' heq
            cases heq
            exact hin
          · rintro ⟨-, hin⟩
            exact hin table rfl

/-- What is found at an address: sizes that leave what was read, no table, or one table. -/
theorem isGptValid_cases (dev : BlockDev) (memalign : Nat → Bool) (lba : Nat) :
    (∃ e, isGptValid dev memalign lba = .error e ∧ ¬ SizesOk dev memalign lba ∧
      ∀ head table, ¬ TableOk dev memalign lba head table) ∨
    (isGptValid dev memalign lba = .ok none ∧ SizesOk dev memalign lba ∧
      ∀ head table, ¬ TableOk dev memalign lba head table) ∨
    ∃ head table, isGptValid dev memalign lba = .ok (some table) ∧ SizesOk dev memalign lba ∧
      TableOk dev memalign lba head table ∧ ∀ head' table', TableOk dev memalign lba head' table' → table' = table := by
  have hresult : ∀ head table, TableOk dev memalign lba head table → isGptValid dev memalign lba = .ok (some table) :=
    fun head table hok => isGptValid_some.mpr ⟨head, hok⟩
  cases hvalid : isGptValid dev memalign lba with
  | error e =>
      refine Or.inl ⟨e, rfl, ?_, fun head table hok => ?_⟩
      · rw [← isGptValid_safe, hvalid]
        exact not_safe_error e
      · cases hvalid.symm.trans (hresult head table hok)
  | ok result =>
      have hsizes : SizesOk dev memalign lba := by
        rw [← isGptValid_safe, hvalid]
        exact safe_ok _
      cases result with
      | none =>
          refine Or.inr (Or.inl ⟨rfl, hsizes, fun head table hok => ?_⟩)
          cases hvalid.symm.trans (hresult head table hok)
      | some table =>
          obtain ⟨head, hok⟩ := isGptValid_some.mp hvalid
          refine Or.inr (Or.inr ⟨head, table, rfl, hsizes, hok, fun head' table' hok' => ?_⟩)
          cases hvalid.symm.trans (hresult head' table' hok')
          rfl

/-- The reads are safe just when the sizes fit. -/
theorem gpt_reads_safe_iff (dev : BlockDev) (memalign : Nat → Bool) : ReadsSafely dev memalign ↔ SizesFit dev memalign := by
  rcases isGptValid_cases dev memalign gptPrimaryPartitionTableLba with
    ⟨e, hprimary, hfault, -⟩ | ⟨hprimary, hsizes, hno⟩ | ⟨head, table, hprimary, hsizes, hok, hunique⟩
  · have hprint : ¬ Safe (printPartEfi dev memalign) := by
      rw [printPartEfi, loadTable, hprimary, error_bind, error_bind]
      exact not_safe_error e
    exact iff_of_false (fun h => hprint h.2) (fun h => hfault h.primary)
  · constructor
    · rintro ⟨-, hprint⟩
      obtain ⟨hbackup, hin⟩ := (printPartEfi_none hprimary).mp hprint
      refine ⟨hsizes, fun head table hok => absurd hok (hno head table), fun _ => ⟨isGptValid_safe.mp hbackup, ?_⟩⟩
      intro head table hok
      exact hin table (isGptValid_some.mpr ⟨head, hok⟩)
    · intro h
      obtain ⟨hbackup, hin⟩ := h.backup hno
      have hsafe := isGptValid_safe.mpr hbackup
      refine ⟨fun name info => (findPartEfi_none info hprimary).mpr hsafe, (printPartEfi_none hprimary).mpr ⟨hsafe, ?_⟩⟩
      intro table htable
      obtain ⟨head, hok⟩ := isGptValid_some.mp htable
      exact hin head table hok
  · constructor
    · rintro ⟨hfind, -⟩
      refine ⟨hsizes, ?_, fun hno => absurd hok (hno head table)⟩
      intro head' table' hok'
      cases hunique head' table' hok'
      exact (findPartEfi_some ⟨⟨0, 0, 0⟩, [], []⟩ hprimary).mp (hfind [] _)
    · intro h
      have hin := h.entries head table hok
      exact ⟨fun name info => (findPartEfi_some info hprimary).mpr hin, (printPartEfi_some hprimary).mpr (Or.inl hin)⟩

end

/-- The first header has the signature and a size of 513. -/
def longHeader : BlockDev where
  lba := 2 ^ 16
  bytes := fun a =>
    if a < 512 then 0 else if a = 524 then 1 else if a = 525 then 2 else (ascii "EFI PART").getD (a - 512) 0
  fails := fun _ _ => false
  lba_lt := by decide

/-- The checksum of the header takes a byte from behind it. -/
theorem gpt_header_size_unchecked : ¬ ReadsSafely longHeader fun _ => true := by
  have hfault : isGptValid longHeader (fun _ => true) gptPrimaryPartitionTableLba = .error .unread :=
    isGptValid_size rfl (by set_option maxRecDepth 1000 in decide) (by set_option maxRecDepth 1000 in decide)
  rintro ⟨-, hprint⟩
  rw [printPartEfi, loadTable, hfault, error_bind, error_bind] at hprint
  exact not_safe_error _ hprint

end Uboot.Gpt
