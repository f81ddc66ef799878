import Uboot.FwEnv.Open

/-!
# The tool reads what U-Boot saved

The tool takes a `long` for the checksum where U-Boot takes a word, and it finds the values as they stand in flash.
-/

namespace Uboot.FwEnv

open Lib Env Crc32

/-- The checksum of the bytes that the tool takes for the data is that of all the data. -/
def CrcCovers (abi : Abi) (config : Nat) (image : List UInt8) : Prop :=
  match abi with
  | .ilp32 => True
  | .lp64 => 8 ≤ config ∧ crc32 0 0 ((image.drop 4).take (config - 8)) = crc32 0 0 (image.drop 4)

/-- The tool accepts the image, and finds every variable with the value that `getenv` returns in U-Boot after the same
image was loaded. -/
def ReadsSaved (abi : Abi) (defaultEnvironment : List UInt8) (addr : Nat → Nat) (p : Part) (addr' : Nat)
    (image : List UInt8) (htab : Option HTab) : Prop :=
  ∃ env t', fwEnvOpen abi defaultEnvironment addr p none = some env ∧ env.badCrc = false ∧
    envImport defaultEnvironment addr' p.dev.envSize image htab = some (1, some t') ∧
    ∀ name, (61 : UInt8) ∉ name → (0 : UInt8) ∉ name →
      ∃ r, getenv t' name = some r ∧ fwGetenv abi defaultEnvironment addr p none name = some (.ok r)

/-! ## The checksum -/

theorem crc32_addr (crc : BitVec 32) (addr addr' : Nat) (buf : List UInt8) : crc32 crc addr buf = crc32 crc addr' buf := by
  rw [crc32, crc32, crc32NoComp_eq, crc32NoComp_eq]

section
variable {t : HTab} {a : Nat} {image : List UInt8} {p : Part}

/-- The data of a saved image. -/
theorem saved_data (himg : saveenvImage t a p.dev.envSize = some image) :
    readHeader image = some (crc32 0 a (image.drop 4), image.drop 4) ∧ (image.drop 4).length = p.dev.envSize - 4 ∧
      5 ≤ p.dev.envSize := by
  obtain ⟨out, hexp, hfit, rfl⟩ := saveenvImage_some himg
  obtain ⟨hout, _⟩ := hexportR_spec hexp
  refine ⟨readHeader_le32 _ _, exportBuffer_length hfit, ?_⟩
  rw [hout, exportBytes, List.length_append, List.length_singleton, envSize] at hfit
  omega

theorem getenvsize_ilp32 {config : Nat} (h4 : 4 ≤ config) (hword : config < 2 ^ 32) :
    getenvsize .ilp32 config false = config - 4 := by
  simp only [getenvsize, Abi.sub, Abi.sizeofLong, Bool.false_eq_true, if_false]
  omega

theorem getenvsize_lp64 {config : Nat} (hword : config < 2 ^ 32) :
    getenvsize .lp64 config false = if 8 ≤ config then config - 8 else config + (2 ^ 64 - 8) := by
  simp only [getenvsize, Abi.sub, Abi.sizeofLong, Bool.false_eq_true, if_false]
  split <;> omega

theorem dataCrc_saved (himg : saveenvImage t a p.dev.envSize = some image) (hword : p.dev.envSize < 2 ^ 32) (abi : Abi)
    (addr : Nat) : dataCrc addr (getenvsize abi p.dev.envSize false) (image.drop 4) =
      some (crc32 0 a (image.drop 4)) ↔ CrcCovers abi p.dev.envSize image := by
  obtain ⟨_, hlen, h5⟩ := saved_data himg
  cases abi with
  | ilp32 =>
      rw [getenvsize_ilp32 (by omega) hword, dataCrc, if_pos hlen.ge, List.take_of_length_le hlen.le, crc32_addr 0 addr a]
      simp [CrcCovers]
  | lp64 =>
      rw [getenvsize_lp64 hword]
      by_cases h8 : 8 ≤ p.dev.envSize
      · rw [if_pos h8, dataCrc, if_pos (by omega), crc32_addr 0 addr 0, crc32_addr 0 a 0, Option.some.injEq]
        simp only [CrcCovers, h8, true_and]
      · rw [if_neg h8, dataCrc, if_neg (by omega)]
        simp [CrcCovers, h8]

/-- The tool takes the image as it is when the checksum covers it, and warns or fails when it does not. -/
theorem fwEnvOpen_saved (himg : saveenvImage t a p.dev.envSize = some image) (hread : p.flashIo = some image)
    (hword : p.dev.envSize < 2 ^ 32) (abi : Abi) (defaultEnvironment : List UInt8) (addr : Nat → Nat)
    (env : Environment) :
    fwEnvOpen abi defaultEnvironment addr p none = some env ∧ env.badCrc = false ↔
      CrcCovers abi p.dev.envSize image ∧ env = ⟨image.drop 4, 0, false⟩ := by
  have hopen : fwEnvOpen abi defaultEnvironment addr p none =
      (dataCrc (addr 0) (getenvsize abi p.dev.envSize false) (image.drop 4)).bind fun crc0 =>
        if crc0 = crc32 0 a (image.drop 4) then some ⟨image.drop 4, 0, false⟩
        else (useDefault defaultEnvironment (image.drop 4)).map fun data => ⟨data, 0, true⟩ := by
    rw [fwEnvOpen, hread, Option.bind_eq_bind, Option.bind_some, (saved_data himg).1]
    rfl
  rw [hopen, ← dataCrc_saved himg hword abi (addr 0)]
  constructor
  · rintro ⟨h, hcrc⟩
    obtain ⟨crc0, hcrc0, h⟩ := Option.bind_eq_some_iff.mp h
    split at h
    · next heq => exact ⟨heq ▸ hcrc0, (Option.some.inj h).symm⟩
    · obtain ⟨data, _, rfl⟩ := Option.map_eq_some_iff.mp h
      cases hcrc
  · rintro ⟨hcrc0, rfl⟩
    rw [hcrc0]
    simp

/-! ## The values -/

/-- The escapes of a plain text take no room, and two bytes are counted for each entry that are not written. -/
theorem flatMap_exportEntry_length {list : List (CStr × CStr)} (h : ∀ e ∈ list, escape 0 e.2 = e.2) :
    (list.flatMap (exportEntry 0)).length + 2 * list.length = exportTotlen 0 list := by
  induction list with
  | nil => rfl
  | cons e list ih =>
      have hih := ih fun e he => h e (List.mem_cons_of_mem _ he)
      have he := h e List.mem_cons_self
      simp only [exportTotlen, List.flatMap_cons, List.length_append, List.map_cons, List.sum_cons, exportEntry, he,
        List.length_cons, List.length_nil, valueLen, if_true] at hih ⊢
      omega

/-- The bound is behind the last entry of a plain text. -/
theorem plain_fits (hinv : t.Inv) (hok : ∀ k v, t.Binds k v → EntryOk (k, v))
    (himg : saveenvImage t a p.dev.envSize = some image) (hword : p.dev.envSize < 2 ^ 32) {abi : Abi}
    (hcrc : CrcCovers abi p.dev.envSize image) (hplain : t.Plain p.dev.envSize) :
    ((qsort cmpkey (exportList t [])).flatMap (exportEntry 0)).length ≤ getenvsize abi p.dev.envSize false + 1 := by
  obtain ⟨out, hexp, hfit, _⟩ := saveenvImage_some himg
  obtain ⟨hout, htot, _⟩ := hexportR_spec hexp
  have hperm : (qsort cmpkey (exportList t [])).Perm (exportList t []) := qsort_perm _ _
  have hflat := (hperm.flatMap_right (exportEntry 0)).length_eq
  have hesc : ∀ e ∈ exportList t [], escape 0 e.2 = e.2 := by
    rintro ⟨k, v⟩ he
    have hb := (mem_exportList hinv k v).mp he
    exact (escape_eq_self_iff (hok k v hb).value).mpr (hplain.plain k v hb).2.2
  have hlen := flatMap_exportEntry_length hesc
  rw [hout, exportBytes, List.length_append, List.length_singleton, envSize] at hfit
  rw [envSize] at htot
  rw [hflat] at hfit ⊢
  cases abi with
  | ilp32 =>
      rw [getenvsize_ilp32 (by omega) hword]
      omega
  | lp64 =>
      rw [getenvsize_lp64 hword, if_pos hcrc.1]
      cases hl : exportList t [] with
      | nil => simp
      | cons e list =>
          rw [hl] at hlen htot
          simp only [List.length_cons] at hlen
          omega

theorem fwGetenv_of_finds {abi : Abi} {defaultEnvironment : List UInt8} {addr : Nat → Nat} {data : List UInt8}
    (hopen : fwEnvOpen abi defaultEnvironment addr p none = some ⟨data, 0, false⟩) {list : List (CStr × CStr)}
    (hok : ∀ e ∈ list, EntryOk e) {name : CStr} {r : Scan}
    (hscan : scanLoop data (getenvsize abi p.dev.envSize false) name (data.length + 1) 0 = some r)
    (hf : Finds data list name r) :
    fwGetenv abi defaultEnvironment addr p none name = some (.ok (rawLookup list name)) := by
  simp only [fwGetenv, hopen, Option.bind_eq_bind, Option.bind_some, if_true, Option.isSome_none, hscan]
  unfold Finds at hf
  split at hf
  · next hnone => simp [hf, rawLookup, hnone]
  · next e he =>
      obtain ⟨pre, rest, hdata, rfl⟩ := hf
      have hv := escape_noNul (hok e (List.mem_of_find?_eq_some he)).value
      have hcstr := cstrAt_spec hv pre rest
      rw [List.append_assoc, ← hdata] at hcstr
      simp [hcstr, rawLookup, he]

theorem fwGetenv_unterminated {abi : Abi} {defaultEnvironment : List UInt8} {addr : Nat → Nat} {data : List UInt8}
    (hopen : fwEnvOpen abi defaultEnvironment addr p none = some ⟨data, 0, false⟩) {name : CStr}
    (hscan : scanLoop data (getenvsize abi p.dev.envSize false) name (data.length + 1) 0 = some .unterminated) :
    fwGetenv abi defaultEnvironment addr p none name = some (.error notTerminated) := by
  simp only [fwGetenv, hopen, Option.bind_eq_bind, Option.bind_some, if_true, Option.isSome_none, hscan]

theorem readsSaved_iff (hinv : t.Inv) (hok : ∀ k v, t.Binds k v → EntryOk (k, v))
    (himg : saveenvImage t a p.dev.envSize = some image) (hread : p.flashIo = some image)
    (hword : p.dev.envSize < 2 ^ 32) (abi : Abi) (defaultEnvironment : List UInt8) (addr : Nat → Nat) (addr' : Nat)
    (htab : Option HTab) :
    ReadsSaved abi defaultEnvironment addr p addr' image htab ↔
      CrcCovers abi p.dev.envSize image ∧ t.Plain p.dev.envSize := by
  have hperm : (qsort cmpkey (exportList t [])).Perm (exportList t []) := qsort_perm _ _
  have hoke : ∀ e ∈ qsort cmpkey (exportList t []), EntryOk e := fun e he =>
    hok e.1 e.2 ((mem_exportList hinv _ _).mp (hperm.mem_iff.mp he))
  have hopen := fwEnvOpen_saved himg hread hword abi defaultEnvironment addr
  have hraw := raw_agrees_iff hinv hok himg defaultEnvironment addr' htab
  constructor
  · rintro ⟨env, t', henv, hcrc, himport, hget⟩
    obtain ⟨hcov, rfl⟩ := (hopen env).mp ⟨henv, hcrc⟩
    refine ⟨hcov, hraw.mp ⟨t', himport, fun name h61 h0 => ?_⟩⟩
    obtain ⟨r, hr, hfw⟩ := hget name h61 h0
    obtain ⟨s, hscan, hcase⟩ := scanLoop_saved hinv hok himg h61 h0 (getenvsize abi p.dev.envSize false)
    rcases hcase with hf | ⟨_, rfl⟩
    · rw [fwGetenv_of_finds henv hoke hscan hf] at hfw
      cases hfw
      exact hr
    · rw [fwGetenv_unterminated henv hscan] at hfw
      cases hfw
  · rintro ⟨hcov, hplain⟩
    obtain ⟨henv, hcrc⟩ := (hopen ⟨image.drop 4, 0, false⟩).mpr ⟨hcov, rfl⟩
    obtain ⟨t', himport, hget⟩ := hraw.mpr hplain
    refine ⟨_, t', henv, hcrc, himport, fun name h61 h0 => ⟨_, hget name h61 h0, ?_⟩⟩
    obtain ⟨s, hscan, hcase⟩ := scanLoop_saved hinv hok himg h61 h0 (getenvsize abi p.dev.envSize false)
    have hfits := plain_fits hinv hok himg hword hcov hplain
    exact fwGetenv_of_finds henv hoke hscan (hcase.resolve_right fun h => by omega)

end

/-- The tool reads what U-Boot saved exactly when the checksum covers the bytes that it takes for the data, and the text
of the environment is plain. -/
theorem fwGetenv_reads_saved_iff {nel : Nat} {t₀ : HTab} (hc : hcreateR nel none = some t₀) (ops : List Op)
    (hok : ∀ k v, (t₀.run ops).Binds k v → EntryOk (k, v)) {a : Nat} {p : Part} {image : List UInt8}
    (himg : saveenvImage (t₀.run ops) a p.dev.envSize = some image) (hread : p.flashIo = some image)
    (hword : p.dev.envSize < 2 ^ 32) (abi : Abi) (defaultEnvironment : List UInt8) (addr : Nat → Nat) (addr' : Nat)
    (htab : Option HTab) :
    ReadsSaved abi defaultEnvironment addr p addr' image htab ↔
      CrcCovers abi p.dev.envSize image ∧ (t₀.run ops).Plain p.dev.envSize :=
  readsSaved_iff ((inv_of_hcreateR hc).1.run ops) hok himg hread hword abi defaultEnvironment addr addr' htab

/-- A sector of NOR flash with the image in it. -/
def norPart (image : List UInt8) : Part where
  dev := ⟨0, 16, 16, 1, .nor, fun _ => false, by decide⟩
  flash := fun i => image.getD i 0

/-- The text of `a=b`. -/
theorem fwGetenv_reads_saved_iff_example : ∃ image, saveenvImage (oneVar [98]) 0 16 = some image ∧
    ReadsSaved .ilp32 [] (fun _ => 4) (norPart image) 0 image none := by
  set_option maxRecDepth 4000 in
  refine ⟨_, rfl, (fwGetenv_reads_saved_iff hcreateR_two [.enter [97] [98]] (oneVar_ok (by decide)) rfl
    (by decide) (by decide) .ilp32 [] (fun _ => 4) 0 none).mpr ⟨trivial, by decide, fun k w h => ?_⟩⟩
  obtain ⟨rfl, rfl⟩ := oneVar_binds h
  decide

/-- The tool finds two backslashes in `a` where U-Boot has one. -/
theorem fwGetenv_doubles_backslash : ∃ image, saveenvImage (oneVar [92]) 0 16 = some image ∧
    fwGetenv .ilp32 [] (fun _ => 4) (norPart image) none [97] = some (.ok (some [92, 92])) ∧
    ¬ ReadsSaved .ilp32 [] (fun _ => 4) (norPart image) 0 image none := by
  set_option maxRecDepth 4000 in
  refine ⟨_, rfl, by decide, fun h => ?_⟩
  set_option maxRecDepth 4000 in
  have hplain := ((readsSaved_iff (oneVar_inv [92]) (oneVar_ok (by decide)) rfl (by decide) (by decide)
    .ilp32 [] (fun _ => 4) 0 none).mp h).2
  have hb : (oneVar [92]).Binds [97] [92] := ⟨3, by decide⟩
  exact (hplain.plain _ _ hb).2.2 (by decide)

end Uboot.FwEnv
