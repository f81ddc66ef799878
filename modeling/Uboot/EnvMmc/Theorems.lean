import Uboot.EnvMmc.Basic

/-!
# When the environment stays in its partition
-/

namespace Uboot.EnvMmc

open Uboot.Mmc

/-! ## The lookup -/

/-- The partition of that name; the last one, as the lookup has it. -/
def partition (gpt : Option (List GptEntry)) : Option GptEntry :=
  gpt.bind fun gptPte => (gptPte.filter (isNamed appsblenv)).getLast?

/-- The blocks of the partition. -/
def InPartition (gpt : Option (List GptEntry)) (b : Nat) : Prop :=
  ∃ pte, partition gpt = some pte ∧ pte.startingLba.toNat ≤ b ∧ b ≤ pte.endingLba.toNat

theorem findLoop_eq (name : List UInt8) (gptPte : List GptEntry) : ∀ (i : Nat) (r : Nat × DiskPartition),
    match (gptPte.filter (isNamed name)).getLast? with
    | none => findLoop name i gptPte r = r
    | some pte => 0 < (findLoop name i gptPte r).1 ∧ (findLoop name i gptPte r).2 = partInfo pte := by
  induction gptPte with
  | nil =>
      intro i r
      rfl
  | cons pte gptPte ih =>
      intro i r
      have hrest := ih (i + 1) (if isNamed name pte then (i + 1, partInfo pte) else r)
      rw [findLoop]
      cases hn : isNamed name pte with
      | false =>
          rw [List.filter_cons_of_neg (by simp [hn])]
          simpa [hn] using hrest
      | true =>
          rw [List.filter_cons_of_pos hn, List.getLast?_cons]
          rw [hn] at hrest
          cases hlast : (gptPte.filter (isNamed name)).getLast? with
          | none =>
              rw [hlast] at hrest
              simp only [if_true] at hrest
              simp [hrest]
          | some last =>
              rw [hlast] at hrest
              exact hrest

/-- The entry that `board_mmc_env_init` takes. -/
def found (gpt : Option (List GptEntry)) (o : Outcome) : Option GptEntry :=
  if o.init ∧ o.again ∨ ¬ o.readable then none else partition gpt

/-- The number of blocks that the 32-bit size in bytes stands for. -/
def envBlocks (pte : GptEntry) : Nat := (partInfo pte).size % 2 ^ 23

variable {gpt : Option (List GptEntry)} {o : Outcome} {info : DiskPartition}

theorem boardMmcEnvInit_none (info : DiskPartition) (h : found gpt o = none) : ∃ ret, boardMmcEnvInit gpt o info boardInit = some (ret, boardInit) := by
  rw [boardMmcEnvInit]
  split
  · exact ⟨_, rfl⟩
  · rename_i hinit
    cases hr : o.readable with
    | false => simp [findPartEfi]
    | true =>
        have hpart : partition gpt = none := by simpa [found, hinit, hr] using h
        cases gpt with
        | none => simp [findPartEfi]
        | some gptPte =>
            have hloop := findLoop_eq appsblenv gptPte 0 (0, info)
            rw [partition, Option.bind_some] at hpart
            rw [hpart] at hloop
            simp only [if_true, findPartEfi, hloop]
            simp

theorem boardMmcEnvInit_some (info : DiskPartition) {pte : GptEntry} (h : found gpt o = some pte) :
    (512 < envBlocks pte ∧ boardMmcEnvInit gpt o info boardInit = none) ∨
    envBlocks pte ≤ 512 ∧ ∃ ret, boardMmcEnvInit gpt o info boardInit =
      some (ret, ⟨pte.startingLba.toNat % 2 ^ 23 * 512, envBlocks pte * 512, envBlocks pte * 512⟩) := by
  rw [found] at h
  split at h
  · cases h
  · rename_i hout
    simp only [not_or, Decidable.not_not] at hout
    cases gpt with
    | none => cases h
    | some gptPte =>
        have hloop := findLoop_eq appsblenv gptPte 0 (0, info)
        rw [partition, Option.bind_some] at h
        rw [h] at hloop
        rw [boardMmcEnvInit, if_neg hout.1]
        simp only [hout.2, if_true, findPartEfi, hloop.2]
        rw [if_pos (by exact_mod_cast hloop.1)]
        have hsize : ulong ((partInfo pte).size * (partInfo pte).blksz) = envBlocks pte * 512 := by
          simp only [ulong, envBlocks, partInfo]
          omega
        have hstart : ulong ((partInfo pte).start * (partInfo pte).blksz) = pte.startingLba.toNat % 2 ^ 23 * 512 := by
          simp only [ulong, partInfo]
          omega
        have hmax : envSizeMax = 262144 := rfl
        rw [hsize, hstart, hmax]
        by_cases hn : 512 < envBlocks pte
        · left
          exact ⟨hn, by rw [if_pos (by omega)]⟩
        · right
          exact ⟨by omega, _, by rw [if_neg (by omega)]⟩

/-! ## The transfers -/

abbrev Block := Vector UInt8 512

section Region

variable {a n size : Nat} (ha : a < 2 ^ 23) (hn : n ≤ 512) (dev : Dev)

theorem alignBlocks_mul (ha : a < 2 ^ 23) : alignBlocks (ulong (a * 512)) = a := by
  simp only [alignBlocks, ulong, blLen]
  omega

theorem fits_region (ha : a < 2 ^ 23) (hn : n ≤ 512) (hpos : 0 < n) : dev.Fits a n := by
  refine ⟨by omega, fun _ => ⟨.inl (by omega), .inl ?_⟩⟩
  have : dev.past a n ≤ a + n := Nat.add_le_add_left (Nat.min_le_left _ _) _
  omega

include ha hn in
/-- What a successful `mmc_saveenv` writes. -/
theorem mmcSaveenv_xfer {mmcInit hexportR : Bool} {fate : Nat → Fate} {envNew : Nat → Block}
    (h : (mmcSaveenv ⟨a * 512, n * 512, size⟩ dev mmcInit hexportR fate envNew).1 = 0) :
    (n = 0 ∨ a + n ≤ dev.lba) ∧
    (mmcSaveenv ⟨a * 512, n * 512, size⟩ dev mmcInit hexportR fate envNew).2.xfer = blocksFrom a n envNew := by
  rw [mmcSaveenv] at h ⊢
  split at h
  · cases h
  · rename_i hinit
    rw [if_neg hinit]
    split at h
    · cases h
    · rename_i hexp
      rw [if_neg hexp]
      simp only [writeEnv, alignBlocks_mul ha, alignBlocks_mul (show n < 2 ^ 23 by omega)] at h ⊢
      have hret : (mmcBwrite dev fate a n envNew).1 = n := by simpa using h
      cases Nat.eq_zero_or_pos n with
      | inl h0 =>
          subst h0
          exact ⟨.inl rfl, mmcBwrite_zero_xfer fate a envNew⟩
      | inr hpos =>
          obtain ⟨hle, hx⟩ := mmcBwrite_written (by omega) (by omega) (fits_region dev ha hn hpos) envNew fate hpos hret
          exact ⟨.inr hle, hx⟩

include ha hn in
/-- What a successful `mmc_env_relocate_spec` reads. -/
theorem mmcEnvRelocateSpec_xfer {mmcInit : Bool} {fate : Nat → Fate} {card : Nat → Block} (hle : n = 0 ∨ a + n ≤ dev.lba)
    (h : (mmcEnvRelocateSpec ⟨a * 512, n * 512, size⟩ dev mmcInit fate card).1 = true) :
    (mmcEnvRelocateSpec ⟨a * 512, n * 512, size⟩ dev mmcInit fate card).2.xfer = blocksFrom a n (fun k => card (a + k)) := by
  rw [mmcEnvRelocateSpec] at h ⊢
  split at h
  · cases h
  · rename_i hinit
    rw [if_neg hinit]
    simp only [readEnv, alignBlocks_mul ha, alignBlocks_mul (show n < 2 ^ 23 by omega)] at h ⊢
    have hret : (mmcBread dev fate card a n).1 = n := by simpa using h
    cases Nat.eq_zero_or_pos n with
    | inl h0 =>
        subst h0
        rfl
    | inr hpos => exact mmcBread_xfer hpos (by omega) fate card hret

include ha hn in
theorem confined_region_iff (size : Nat) (P : Nat → Prop) :
    (∀ mmcInit hexportR fate (envNew : Nat → Block),
      (mmcSaveenv ⟨a * 512, n * 512, size⟩ dev mmcInit hexportR fate envNew).1 = 0 →
      ∀ w ∈ (mmcSaveenv ⟨a * 512, n * 512, size⟩ dev mmcInit hexportR fate envNew).2.xfer, P w.1) ↔
    n = 0 ∨ dev.lba < a + n ∨ ∀ b, a ≤ b → b < a + n → P b := by
  constructor
  · intro h
    by_contra hnot
    simp only [not_or, Nat.not_lt] at hnot
    obtain ⟨h0, hlba, hout⟩ := hnot
    have hpos : 0 < n := Nat.pos_of_ne_zero h0
    refine hout fun b hab hbn => ?_
    -- a save without failures writes them all
    let blank : Block := Vector.replicate 512 0
    have hok : (mmcSaveenv ⟨a * 512, n * 512, size⟩ dev false true ready (fun _ => blank)).1 = 0 := by
      simp only [mmcSaveenv, writeEnv, alignBlocks_mul ha, alignBlocks_mul (show n < 2 ^ 23 by omega),
        mmcBwrite_works hpos hlba ready_works]
      simp
    refine h false true ready (fun _ => blank) hok (b, blank) ?_
    rw [(mmcSaveenv_xfer ha hn dev hok).2, blocksFrom, List.mem_map]
    exact ⟨b - a, List.mem_range.mpr (by omega), by simp; omega⟩
  · intro h mmcInit hexportR fate envNew hok w hw
    obtain ⟨hle, hx⟩ := mmcSaveenv_xfer ha hn dev hok
    rw [hx, blocksFrom, List.mem_map] at hw
    obtain ⟨k, hk, rfl⟩ := hw
    have hkn := List.mem_range.mp hk
    rcases h with rfl | hlba | hall
    · omega
    · omega
    · exact hall (a + k) (by omega) (by omega)

end Region

/-! ## The environment and its partition -/

/-- Whatever happens later, a save that succeeds writes blocks of the partition only, and the environment is read from the
blocks that were written. -/
structure Confined (gpt : Option (List GptEntry)) (o : Outcome) (info : DiskPartition) (dev : Dev) : Prop where
  writes : ∀ ret g, boardMmcEnvInit gpt o info boardInit = some (ret, g) →
    ∀ mmcInit hexportR fate (envNew : Nat → Block), (mmcSaveenv g dev mmcInit hexportR fate envNew).1 = 0 →
      ∀ w ∈ (mmcSaveenv g dev mmcInit hexportR fate envNew).2.xfer, InPartition gpt w.1
  reads : ∀ ret g, boardMmcEnvInit gpt o info boardInit = some (ret, g) →
    ∀ mmcInit hexportR fate (envNew : Nat → Block), (mmcSaveenv g dev mmcInit hexportR fate envNew).1 = 0 →
    ∀ mmcInit' fate' (card : Nat → Block), (mmcEnvRelocateSpec g dev mmcInit' fate' card).1 = true →
      (mmcEnvRelocateSpec g dev mmcInit' fate' card).2.xfer.map Prod.fst =
        (mmcSaveenv g dev mmcInit hexportR fate envNew).2.xfer.map Prod.fst

/-- The partition was found and lies below 4 GiB, or nothing can be written: the size has no blocks in 32 bits or too many,
or the device ends before. Without the partition, the first 512 blocks are its blocks or the device has fewer. -/
def Placed (gpt : Option (List GptEntry)) (o : Outcome) (dev : Dev) : Prop :=
  match found gpt o with
  | some pte =>
    (pte.startingLba.toNat < 2 ^ 23 ∧ pte.startingLba.toNat ≤ pte.endingLba.toNat) ∨ 512 < envBlocks pte ∨ envBlocks pte = 0 ∨
      dev.lba < pte.startingLba.toNat % 2 ^ 23 + envBlocks pte
  | none => dev.lba < 512 ∨ ∃ pte, partition gpt = some pte ∧ pte.startingLba.toNat = 0 ∧ 511 ≤ pte.endingLba.toNat

theorem confined_iff_of_globals {dev : Dev} {ret : Int} {a n size : Nat} (ha : a < 2 ^ 23) (hn : n ≤ 512)
    (h : boardMmcEnvInit gpt o info boardInit = some (ret, ⟨a * 512, n * 512, size⟩)) :
    Confined gpt o info dev ↔ n = 0 ∨ dev.lba < a + n ∨ ∀ b, a ≤ b → b < a + n → InPartition gpt b := by
  rw [← confined_region_iff ha hn dev size]
  constructor
  · intro hc
    exact hc.writes _ _ h
  · intro hw
    constructor
    · intro ret' g hg
      obtain ⟨rfl, rfl⟩ : ret = ret' ∧ _ = g := by simpa using h.symm.trans hg
      exact hw
    · intro ret' g hg mmcInit hexportR fate envNew hsave mmcInit' fate' card hload
      obtain ⟨rfl, rfl⟩ : ret = ret' ∧ _ = g := by simpa using h.symm.trans hg
      obtain ⟨hle, hx⟩ := mmcSaveenv_xfer ha hn dev hsave
      rw [hx, mmcEnvRelocateSpec_xfer ha hn dev hle hload]
      simp [blocksFrom]

theorem inPartition_found {pte : GptEntry} (h : found gpt o = some pte) (b : Nat) :
    InPartition gpt b ↔ pte.startingLba.toNat ≤ b ∧ b ≤ pte.endingLba.toNat := by
  have hpart : partition gpt = some pte := by
    rw [found] at h
    split at h
    · cases h
    · exact h
  simp [InPartition, hpart]

theorem envBlocks_le {pte : GptEntry} (h : pte.startingLba.toNat ≤ pte.endingLba.toNat) :
    pte.startingLba.toNat + envBlocks pte ≤ pte.endingLba.toNat + 1 := by
  simp only [envBlocks, partInfo, ulong]
  omega

theorem region_inside_iff {dev : Dev} {pte : GptEntry} (hn : envBlocks pte ≤ 512) :
    (envBlocks pte = 0 ∨ dev.lba < pte.startingLba.toNat % 2 ^ 23 + envBlocks pte ∨
      ∀ b, pte.startingLba.toNat % 2 ^ 23 ≤ b → b < pte.startingLba.toNat % 2 ^ 23 + envBlocks pte →
        pte.startingLba.toNat ≤ b ∧ b ≤ pte.endingLba.toNat) ↔
    (pte.startingLba.toNat < 2 ^ 23 ∧ pte.startingLba.toNat ≤ pte.endingLba.toNat) ∨ 512 < envBlocks pte ∨
      envBlocks pte = 0 ∨ dev.lba < pte.startingLba.toNat % 2 ^ 23 + envBlocks pte := by
  constructor
  · rintro (h | h | h)
    · exact .inr (.inr (.inl h))
    · exact .inr (.inr (.inr h))
    · by_cases h0 : envBlocks pte = 0
      · exact .inr (.inr (.inl h0))
      · have := h (pte.startingLba.toNat % 2 ^ 23) (by omega) (by omega)
        exact .inl (by omega)
  · rintro (⟨hs, he⟩ | h | h | h)
    · have := envBlocks_le he
      exact .inr (.inr fun b hb hb' => by omega)
    · omega
    · exact .inl h
    · exact .inr (.inl h)

/-- Without the partition, the first 512 blocks are written. -/
theorem confined_iff_of_none {dev : Dev} (hf : found gpt o = none) : Confined gpt o info dev ↔
    dev.lba < 512 ∨ ∃ pte, partition gpt = some pte ∧ pte.startingLba.toNat = 0 ∧ 511 ≤ pte.endingLba.toNat := by
  obtain ⟨ret, hg⟩ := boardMmcEnvInit_none info hf
  have hb : boardInit = ⟨0 * 512, 512 * 512, 0⟩ := rfl
  rw [hb] at hg
  rw [confined_iff_of_globals (by decide) (by decide) hg]
  constructor
  · rintro (h | h | h)
    · cases h
    · exact .inl (by omega)
    · obtain ⟨pte, hp, hs, -⟩ := h 0 (by omega) (by omega)
      obtain ⟨pte', hp', -, he⟩ := h 511 (by omega) (by omega)
      obtain rfl : pte = pte' := Option.some.inj (hp.symm.trans hp')
      exact .inr ⟨pte, hp, by omega, he⟩
  · rintro (h | ⟨pte, hp, hs, he⟩)
    · exact .inr (.inl (by omega))
    · exact .inr (.inr fun b _ hb => ⟨pte, hp, by omega, by omega⟩)

theorem confined_iff_of_some {dev : Dev} {pte : GptEntry} (hf : found gpt o = some pte) : Confined gpt o info dev ↔
    (pte.startingLba.toNat < 2 ^ 23 ∧ pte.startingLba.toNat ≤ pte.endingLba.toNat) ∨ 512 < envBlocks pte ∨
      envBlocks pte = 0 ∨ dev.lba < pte.startingLba.toNat % 2 ^ 23 + envBlocks pte := by
  cases boardMmcEnvInit_some info hf with
  | inl h =>
      refine iff_of_true ⟨fun ret g hg => ?_, fun ret g hg => ?_⟩ (.inr (.inl h.1)) <;>
        simp [h.2] at hg
  | inr h =>
      obtain ⟨hn, ret, hg⟩ := h
      rw [confined_iff_of_globals (Nat.mod_lt _ (by decide)) hn hg]
      simp only [inPartition_found hf]
      exact region_inside_iff hn

/-- The environment stays in its partition when, and only when, the partition was found and lies below 4 GiB, but for the
cases in which nothing is written. -/
theorem env_confined_iff (gpt : Option (List GptEntry)) (o : Outcome) (info : DiskPartition) (dev : Dev) :
    Confined gpt o info dev ↔ Placed gpt o dev := by
  rw [Placed]
  cases hf : found gpt o with
  | none => exact confined_iff_of_none hf
  | some pte => exact confined_iff_of_some hf

/-- The environment's entry, from one block to another. -/
def envEntry (startingLba endingLba : UInt64) : GptEntry where
  partitionTypeGuid := Vector.replicate 16 1
  startingLba := startingLba
  endingLba := endingLba
  partitionName := Vector.ofFn fun i => (appsblenv.getD i 0).toUInt16

/-- An eMMC of 8 GiB. -/
def emmc8G : Dev where
  highCapacity := true
  lba := 16777216
  bMax := 512
  hostIsSpi := false
  lba_lt := by decide
  bMax_pos := Mmc.card2G.bMax_pos
  bytes_lt := by decide

theorem partition_envEntry (s e : UInt64) : partition (some [envEntry s e]) = some (envEntry s e) := by
  have hnamed : isNamed appsblenv (envEntry s e) = true := by rfl
  simp [partition, hnamed]

/-- When both tries of `mmc_init` fail the table itself is overwritten, and an environment above 4 GiB is written below. -/
theorem env_overwrites_table : ¬ Confined (some [envEntry 1024 1535]) ⟨true, true, true⟩ ⟨0, 0, 0⟩ emmc8G ∧
    ¬ Confined (some [envEntry 8388608 8389119]) ⟨false, false, true⟩ ⟨0, 0, 0⟩ emmc8G := by
  constructor
  · rw [confined_iff_of_none rfl, partition_envEntry]
    rintro (h | ⟨pte, hp, hs, -⟩)
    · exact absurd h (by decide)
    · obtain rfl := Option.some.inj hp
      exact absurd hs (by decide)
  · have hf : found (some [envEntry 8388608 8389119]) ⟨false, false, true⟩ = some (envEntry 8388608 8389119) := by
      simp [found, partition_envEntry]
    rw [confined_iff_of_some hf]
    decide

end Uboot.EnvMmc
