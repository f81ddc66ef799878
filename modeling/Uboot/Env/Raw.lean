import Uboot.Env.Common

/-!
# Reading the saved text as it stands

`getenv_f` (`common/cmd_nvedit.c`) scans the `name=value` strings one after another, and so does `fw_getenv`
(`tools/env/fw_env.c`); they differ in the bound and in what they do with a value. Neither removes escapes, nor does
either skip blanks and comments as `himport_r` does. An access outside of the text makes a call `none`.
-/

namespace Uboot.Env

/-- `envmatch`: the index of the value, or none for `-1`. The string `s1` comes with its terminator. -/
def envmatch (data : List UInt8) : List UInt8 → Nat → Option (Option Nat)
  | [], _ => none
  | c :: s1, i2 => do
      let d ← data[i2]?
      if c = d then if c = 61 then some (some (i2 + 1)) else envmatch data s1 (i2 + 1)
      else if c = 0 ∧ d = 61 then some (some (i2 + 1))
      else some none

/-- How a scan ends: at a value, at the end of the text, or past the bound. -/
inductive Scan where
  | found (val : Nat)
  | missing
  | unterminated
deriving DecidableEq, Repr

/-- `for (nxt = i; env_get_char(nxt) != '\0'; ++nxt)`; the result is none past the bound. -/
def findEnd (data : List UInt8) (bound : Nat) : Nat → Nat → Option (Option Nat)
  | 0, _ => none
  | fuel + 1, nxt => do
      if (← data[nxt]?) = 0 then some (some nxt)
      else if bound ≤ nxt then some none
      else findEnd data bound fuel (nxt + 1)

/-- `for (i = 0; env_get_char(i) != '\0'; i = nxt + 1)`, up to the value. Every round moves `i` on. -/
def scanLoop (data : List UInt8) (bound : Nat) (name : CStr) : Nat → Nat → Option Scan
  | 0, _ => none
  | fuel + 1, i => do
      if (← data[i]?) = 0 then some .missing
      else
        match ← findEnd data bound (data.length + 1) i with
        | none => some .unterminated
        | some nxt =>
            match ← envmatch data (name ++ [0]) i with
            | some val => some (.found val)
            | none => scanLoop data bound name fuel (nxt + 1)

/-- `for (n = 0; n < len; ++n, ++buf)`: the number returned and the string in the buffer, whose last byte gives way to
the terminator when the value is too long. -/
def copyOut (data : List UInt8) : Nat → Nat → List UInt8 → Option (Nat × CStr)
  | 0, _, buf => some (buf.length, buf.dropLast)
  | left + 1, val, buf => do
      let c ← data[val]?
      if c = 0 then some (buf.length, buf) else copyOut data left (val + 1) (buf ++ [c])

/-- `getenv_f` with a buffer of `len` bytes: the length and the string, or none for `-1`. `data` is the text at
`gd->env_addr`. -/
def getenvF (data : List UInt8) (config : Nat) (name : CStr) (len : Nat) : Option (Option (Nat × CStr)) := do
  match ← scanLoop data config name (data.length + 1) 0 with
  | .found val => (copyOut data len val []).map some
  | .missing => some none
  | .unterminated => some none

/-! ## One entry -/

/-- An entry that `setenv` can make. -/
structure EntryOk (e : CStr × CStr) : Prop where
  noEq : (61 : UInt8) ∉ e.1
  noNul : (0 : UInt8) ∉ e.1
  value : (0 : UInt8) ∉ e.2

section
variable {name k v : CStr}

theorem envmatch_entry (h61 : (61 : UInt8) ∉ name) (h0 : (0 : UInt8) ∉ name) (hk61 : (61 : UInt8) ∉ k)
    (hk0 : (0 : UInt8) ∉ k) (pre rest : List UInt8) :
    envmatch (pre ++ (k ++ 61 :: rest)) (name ++ [0]) pre.length =
      some (if k = name then some (pre.length + k.length + 1) else none) := by
  induction name generalizing k pre with
  | nil =>
      cases k with
      | nil => simp [envmatch]
      | cons d k =>
          obtain ⟨hd0, _⟩ := List.ne_and_not_mem_of_not_mem_cons hk0
          obtain ⟨hd61, _⟩ := List.ne_and_not_mem_of_not_mem_cons hk61
          simp [envmatch, hd0, hd61.symm]
  | cons c name ih =>
      obtain ⟨hc0, h0⟩ := List.ne_and_not_mem_of_not_mem_cons h0
      obtain ⟨hc61, h61⟩ := List.ne_and_not_mem_of_not_mem_cons h61
      cases k with
      | nil => simp [envmatch, hc0.symm, hc61.symm]
      | cons d k =>
          have hih := ih h61 h0 (List.not_mem_of_not_mem_cons hk61) (List.not_mem_of_not_mem_cons hk0) (pre ++ [d])
          by_cases hcd : c = d
          · subst hcd
            simp only [List.append_assoc, List.singleton_append, List.length_append, List.length_singleton] at hih
            simp [envmatch, hc61.symm, hih, Nat.add_assoc, Nat.add_comm 1]
          · simp [envmatch, hcd, hc0.symm, Ne.symm hcd]

theorem findEnd_spec (bound : Nat) {fuel : Nat} {s : List UInt8} (hs : (0 : UInt8) ∉ s) (hf : s.length < fuel)
    (pre rest : List UInt8) :
    findEnd (pre ++ (s ++ 0 :: rest)) bound fuel pre.length =
      some (if s = [] ∨ pre.length + s.length ≤ bound then some (pre.length + s.length) else none) := by
  induction s generalizing pre fuel with
  | nil =>
      cases fuel with
      | zero => omega
      | succ fuel => simp [findEnd]
  | cons c s ih =>
      obtain ⟨hc, hs⟩ := List.ne_and_not_mem_of_not_mem_cons hs
      cases fuel with
      | zero => omega
      | succ fuel =>
          have hih := ih hs (by simpa using hf) (pre ++ [c])
          simp only [List.append_assoc, List.singleton_append, List.length_append, List.length_singleton] at hih
          simp only [findEnd, List.cons_append, List.getElem?_append_right (Nat.le_refl _), Nat.sub_self,
            List.getElem?_cons_zero, Option.bind_eq_bind, Option.bind_some, hc.symm, if_false, hih, List.length_cons,
            reduceCtorEq, false_or]
          have hend : pre.length + 1 + s.length = pre.length + (s.length + 1) := by omega
          rw [hend]
          by_cases hb : bound ≤ pre.length
          · rw [if_pos hb, if_neg (by omega)]
          · have hnil : s = [] → pre.length + (s.length + 1) ≤ bound := by
              rintro rfl
              rw [List.length_nil]
              omega
            simp only [if_neg hb, or_iff_right_of_imp hnil]

theorem copyOut_spec {s : CStr} (hs : (0 : UInt8) ∉ s) (pre rest buf : List UInt8) {left : Nat}
    (hlt : s.length < left) :
    copyOut (pre ++ (s ++ 0 :: rest)) left pre.length buf = some (buf.length + s.length, buf ++ s) := by
  induction s generalizing pre buf left with
  | nil =>
      cases left with
      | zero => omega
      | succ left => simp [copyOut]
  | cons c s ih =>
      obtain ⟨hc, hs⟩ := List.ne_and_not_mem_of_not_mem_cons hs
      cases left with
      | zero => omega
      | succ left =>
          have hih := ih hs (pre ++ [c]) (buf ++ [c]) (by simpa using hlt)
          simp only [List.append_assoc, List.singleton_append, List.length_append, List.length_singleton] at hih
          simp [copyOut, hc.symm, hih, Nat.add_assoc, Nat.add_comm 1]

theorem escape_noNul (h : (0 : UInt8) ∉ v) : (0 : UInt8) ∉ escape 0 v := by
  simp only [escape, List.mem_flatMap, not_exists, not_and]
  intro c hc hmem
  have hc0 : c ≠ 0 := fun h0 => h (h0 ▸ hc)
  split at hmem <;> simp [hc0.symm] at hmem

/-- A text is its own escape when it has no backslash. -/
theorem escape_eq_self_iff (h : (0 : UInt8) ∉ v) : escape 0 v = v ↔ (92 : UInt8) ∉ v := by
  induction v with
  | nil => simp [escape]
  | cons c v ih =>
      obtain ⟨hc, hv⟩ := List.ne_and_not_mem_of_not_mem_cons h
      have hlen := escape_length 0 v
      rw [escape_cons, escapeByte]
      by_cases h92 : c = 92
      · subst h92
        simp only [List.mem_cons, true_or, not_true_eq_false, iff_false]
        intro he
        have := congrArg List.length he
        simp at this
        omega
      · simp [h92, hc.symm, Ne.symm h92, ih hv]

end

/-! ## The scan -/

/-- The scan stopped at the first entry with the name, or at the end if there is none. -/
def Finds (data : List UInt8) (list : List (CStr × CStr)) (name : CStr) (r : Scan) : Prop :=
  match list.find? fun e => e.1 = name with
  | none => r = .missing
  | some e => ∃ pre rest, data = pre ++ (escape 0 e.2 ++ 0 :: rest) ∧ r = .found pre.length

/-- The entries of a text are found as they stand, unless one of them reaches past the bound. -/
theorem scanLoop_entries (bound : Nat) {name : CStr} (h61 : (61 : UInt8) ∉ name) (h0 : (0 : UInt8) ∉ name)
    (m : Nat) (list : List (CStr × CStr)) (hok : ∀ e ∈ list, EntryOk e) (pre : List UInt8) {fuel : Nat}
    (hfuel : list.length < fuel) {data : List UInt8}
    (hdata : data = pre ++ (list.flatMap (exportEntry 0) ++ List.replicate (m + 1) 0)) :
    ∃ r, scanLoop data bound name fuel pre.length = some r ∧ (Finds data list name r ∨
      bound + 1 < pre.length + (list.flatMap (exportEntry 0)).length ∧ r = .unterminated) := by
  induction list generalizing pre fuel with
  | nil =>
      cases fuel with
      | zero => simp at hfuel
      | succ fuel => exact ⟨.missing, by simp [hdata, scanLoop, List.replicate_succ], Or.inl rfl⟩
  | cons e list ih =>
      obtain ⟨k, v⟩ := e
      obtain ⟨hk61, hk0, hv⟩ := hok (k, v) List.mem_cons_self
      cases fuel with
      | zero => simp at hfuel
      | succ fuel =>
          have hesc := escape_noNul hv
          set rest := list.flatMap (exportEntry 0) ++ List.replicate (m + 1) 0 with hrest
          set s := k ++ 61 :: escape 0 v with hs
          have hentry : exportEntry 0 (k, v) = s ++ [0] := by simp [exportEntry, hs]
          have hd : data = pre ++ (s ++ 0 :: rest) := by rw [hdata, List.flatMap_cons, hentry]; simp [hrest]
          have hlen : (((k, v) :: list).flatMap (exportEntry 0)).length =
              s.length + 1 + (list.flatMap (exportEntry 0)).length := by simp [hentry]; omega
          have hs0 : (0 : UInt8) ∉ s := by simp [hs, hk0, hesc]
          have hne : s ≠ [] := by simp [hs]
          obtain ⟨c, hc, hc0⟩ : ∃ c, data[pre.length]? = some c ∧ c ≠ 0 := by
            obtain ⟨c, s', hcs⟩ := List.exists_cons_of_ne_nil hne
            exact ⟨c, by simp [hd, hcs], fun h => hs0 (by simp [hcs, h])⟩
          have hend := findEnd_spec bound hs0 (show s.length < data.length + 1 by simp [hd]; omega) pre rest
          rw [← hd] at hend
          have hd' : data = pre ++ (k ++ 61 :: (escape 0 v ++ 0 :: rest)) := by rw [hd, hs]; simp
          have hmatch := envmatch_entry h61 h0 hk61 hk0 pre (escape 0 v ++ 0 :: rest)
          rw [← hd'] at hmatch
          by_cases hle : pre.length + s.length ≤ bound
          · rw [if_pos (Or.inr hle)] at hend
            by_cases hkn : k = name
            · rw [if_pos hkn] at hmatch
              refine ⟨.found (pre.length + k.length + 1), ?_, Or.inl ?_⟩
              · simp [scanLoop, hc, hc0, hend, hmatch]
              · simp only [Finds, List.find?_cons, hkn, decide_true]
                exact ⟨pre ++ k ++ [61], rest, by rw [hd']; simp, by rw [List.length_append, List.length_append, hkn]; rfl⟩
            · -- on to the next entry
              rw [if_neg hkn] at hmatch
              obtain ⟨r, hr, hcase⟩ := ih (fun e he => hok e (List.mem_cons_of_mem _ he)) (pre ++ (s ++ [0]))
                (show list.length < fuel by simpa using hfuel) (by rw [hd]; simp [hrest])
              have hnext : (pre ++ (s ++ [0])).length = pre.length + s.length + 1 := by simp; omega
              rw [hnext] at hr hcase
              refine ⟨r, ?_, hcase.imp ?_ fun h => ⟨by omega, h.2⟩⟩
              · simp [scanLoop, hc, hc0, hend, hmatch, hr]
              · intro hf
                simpa only [Finds, List.find?_cons, hkn, decide_false] using hf
          · rw [if_neg (by simp [hne, hle])] at hend
            exact ⟨.unterminated, by simp [scanLoop, hc, hc0, hend], Or.inr ⟨by omega, rfl⟩⟩

/-! ## The text and the table -/

/-- The value of a name in the exported text, with its escapes. -/
def rawLookup (list : List (CStr × CStr)) (name : CStr) : Option CStr :=
  (list.find? fun e => e.1 = name).map fun e => escape 0 e.2

/-- The text means to `himport_r` what it says: the new table is large enough, and there are no empty values, no
backslashes, and no names that begin with a blank or a `#`. -/
structure HTab.Plain (t : HTab) (config : Nat) : Prop where
  room : t.liveCount ≤ tableSize (importEntries (envSize config))
  plain : ∀ k v, t.Binds k v → Startable k ∧ v ≠ [] ∧ (92 : UInt8) ∉ v

theorem find?_of_nodup {list : List (CStr × CStr)} (hnd : (list.map Prod.fst).Nodup) {k v : CStr}
    (hm : (k, v) ∈ list) : (list.find? fun e => e.1 = k) = some (k, v) := by
  induction list with
  | nil => cases hm
  | cons e list ih =>
      rw [List.map_cons, List.nodup_cons] at hnd
      rcases List.mem_cons.mp hm with rfl | hm
      · simp
      · have hne : e.1 ≠ k := fun he => hnd.1 (he ▸ List.mem_map_of_mem hm)
        rw [List.find?_cons, decide_eq_false hne, ih hnd.2 hm]

theorem rawLookup_of_mem {list : List (CStr × CStr)} (hnd : (list.map Prod.fst).Nodup) {k v : CStr}
    (hm : (k, v) ∈ list) : rawLookup list k = some (escape 0 v) := by rw [rawLookup, find?_of_nodup hnd hm]; rfl

theorem live_iff_binds {t : HTab} (hinv : t.Inv) (k : CStr) : t.Live k ↔ ∃ v, t.Binds k v := by
  constructor
  · rintro ⟨i, hl, hk⟩
    obtain ⟨_, v, _, hv, _⟩ := hinv.entry i hl
    exact ⟨v, i, hl, hk, hv⟩
  · rintro ⟨v, hb⟩
    exact live_of_binds hb

/-- A table that has all the keys of another one has at least as many entries. -/
theorem liveCount_le_of_live {t t' : HTab} (hinv : t.Inv) (hinv' : t'.Inv) (h : ∀ k, t.Live k → t'.Live k) :
    t.liveCount ≤ t'.liveCount := by
  have hmem : ∀ {t : HTab}, t.Inv → ∀ k, k ∈ (exportList t []).map Prod.fst ↔ t.Live k := by
    intro t hinv k
    rw [live_iff_binds hinv, List.mem_map]
    constructor
    · rintro ⟨⟨k', v⟩, hm, rfl⟩
      exact ⟨v, (mem_exportList hinv _ _).mp hm⟩
    · rintro ⟨v, hb⟩
      exact ⟨(k, v), (mem_exportList hinv _ _).mpr hb, rfl⟩
  have hsub : (exportList t []).map Prod.fst ⊆ (exportList t' []).map Prod.fst := fun k hk =>
    (hmem hinv' k).mpr (h k ((hmem hinv k).mp hk))
  have hlen := (List.subperm_of_subset (exportList_nodup hinv) hsub).length_le
  rwa [List.length_map, List.length_map, exportList_length, exportList_length] at hlen

section
variable {t : HTab} {addr config : Nat} {image : List UInt8}

/-- The saved text and the table loaded from it have the same values exactly when the text is plain. -/
theorem raw_agrees_iff (hinv : t.Inv) (hok : ∀ k v, t.Binds k v → EntryOk (k, v))
    (himg : saveenvImage t addr config = some image) (defaultEnvironment : List UInt8) (addr' : Nat)
    (htab : Option HTab) :
    (∃ t', envImport defaultEnvironment addr' config image htab = some (1, some t') ∧
      ∀ name, (61 : UInt8) ∉ name → (0 : UInt8) ∉ name →
        getenv t' name = some (rawLookup (qsort cmpkey (exportList t [])) name)) ↔ t.Plain config := by
  obtain ⟨out, hexp, hfit, rfl⟩ := saveenvImage_some himg
  have hlen := exportBuffer_length hfit
  have hperm : (qsort cmpkey (exportList t [])).Perm (exportList t []) := qsort_perm _ _
  have hnd := (hperm.map Prod.fst).nodup_iff.mpr (exportList_nodup hinv)
  have hmem : ∀ k v, (k, v) ∈ qsort cmpkey (exportList t []) ↔ t.Binds k v := fun k v => by
    rw [hperm.mem_iff, mem_exportList hinv]
  generalize qsort cmpkey (exportList t []) = list at *
  -- with names and values that the parser takes, the import gives the same table
  have hload : (∀ k v, t.Binds k v → Startable k ∧ v ≠ []) →
      t.liveCount ≤ tableSize (importEntries (envSize config)) →
      ∃ t', himportR true htab (exportBuffer (envSize config) out) 0 false = some (1, some t') ∧
        ∀ k v, t'.Binds k v ↔ t.Binds k v := by
    intro hgood hroom
    refine himportR_exported hinv (Or.inl rfl) (fun k v hb => ?_) hexp hfit (fun t₁ ht₁ => ?_) htab
    · have he := hok k v hb
      exact ⟨⟨he.noEq, he.noNul, he.noNul, (hgood k v hb).1⟩, (hgood k v hb).2, he.value⟩
    · rwa [(hcreateR_spec ht₁).2.2.1]
  constructor
  · rintro ⟨t', himport, hget⟩
    obtain ⟨r, himp⟩ := himportR_of_envImport hlen himport
    obtain ⟨hinv', hsize, hstart⟩ := himportR_some himp
    have hraw : ∀ k v, t.Binds k v → t'.Binds k (escape 0 v) := by
      intro k v hb
      have he := hok k v hb
      have hg := hget k he.noEq he.noNul
      rw [rawLookup_of_mem hnd ((hmem k v).mpr hb)] at hg
      exact binds_of_getenv hinv' hg
    have hgood : ∀ k v, t.Binds k v → Startable k ∧ v ≠ [] := by
      intro k v hb
      obtain ⟨hs, hne⟩ := hstart k _ (hraw k v hb)
      refine ⟨hs, ?_⟩
      rintro rfl
      exact hne rfl
    have hroom : t.liveCount ≤ tableSize (importEntries (envSize config)) := by
      rw [hlen] at hsize
      refine (liveCount_le_of_live hinv hinv' fun k hk => ?_).trans (hsize ▸ t'.liveCount_le)
      obtain ⟨v, hb⟩ := (live_iff_binds hinv k).mp hk
      exact live_of_binds (hraw k v hb)
    obtain ⟨t'', himp', hsame⟩ := hload hgood hroom
    rw [himp] at himp'
    cases himp'
    refine ⟨hroom, fun k v hb => ⟨(hgood k v hb).1, (hgood k v hb).2, ?_⟩⟩
    have heq := hinv'.binds_functional (hraw k v hb) ((hsame k v).mpr hb)
    exact (escape_eq_self_iff (hok k v hb).value).mp heq
  · rintro ⟨hroom, hplain⟩
    obtain ⟨t', himp, hsame⟩ := hload (fun k v hb => ⟨(hplain k v hb).1, (hplain k v hb).2.1⟩) hroom
    have hinv' := (himportR_some himp).1
    refine ⟨t', ?_, fun name _ _ => ?_⟩
    · rw [envImport_saved _ _ _ hlen, himp]
      rfl
    · by_cases hl : t'.Live name
      · obtain ⟨v, hb⟩ := (live_iff_binds hinv' name).mp hl
        have hb' := (hsame name v).mp hb
        rw [getenv_of_binds hinv' hb, rawLookup_of_mem hnd ((hmem name v).mpr hb'),
          (escape_eq_self_iff (hok name v hb').value).mpr (hplain name v hb').2.2]
      · have hnone : (list.find? fun e => e.1 = name) = none := by
          rw [List.find?_eq_none]
          rintro ⟨k, v⟩ hm hk
          have hkn : k = name := by simpa using hk
          exact hl (live_of_binds ((hsame name v).mpr ((hmem name v).mp (hkn ▸ hm))))
        rw [getenv_of_not_live hinv' hl, rawLookup, hnone]
        rfl

/-- The text of the image, and what a scan of it finds. -/
theorem scanLoop_saved (hinv : t.Inv) (hok : ∀ k v, t.Binds k v → EntryOk (k, v))
    (himg : saveenvImage t addr config = some image) {name : CStr} (h61 : (61 : UInt8) ∉ name)
    (h0 : (0 : UInt8) ∉ name) (bound : Nat) :
    ∃ r, scanLoop (image.drop 4) bound name ((image.drop 4).length + 1) 0 = some r ∧
      (Finds (image.drop 4) (qsort cmpkey (exportList t [])) name r ∨
        bound + 1 < ((qsort cmpkey (exportList t [])).flatMap (exportEntry 0)).length ∧ r = .unterminated) := by
  obtain ⟨out, hexp, hfit, rfl⟩ := saveenvImage_some himg
  obtain ⟨hout, _⟩ := hexportR_spec hexp
  have hdrop : (le32 (Crc32.crc32 0 addr (exportBuffer (envSize config) out)) ++
      exportBuffer (envSize config) out).drop 4 = exportBuffer (envSize config) out := rfl
  have hperm : (qsort cmpkey (exportList t [])).Perm (exportList t []) := qsort_perm _ _
  have hbuf := exportBuffer_eq 0 (envSize config) (qsort cmpkey (exportList t []))
  rw [← hout] at hbuf
  have hlist := length_le_flatMap_exportEntry 0 (qsort cmpkey (exportList t []))
  have hlen := congrArg List.length hbuf
  rw [List.length_append] at hlen
  have hscan := scanLoop_entries bound h61 h0 _ (qsort cmpkey (exportList t []))
    (fun e he => hok e.1 e.2 ((mem_exportList hinv _ _).mp (hperm.mem_iff.mp he))) []
    (show (qsort cmpkey (exportList t [])).length < (exportBuffer (envSize config) out).length + 1 by omega) hbuf
  rw [hdrop]
  simpa only [List.length_nil, Nat.zero_add] using hscan

/-! ## `getenv_f` -/

/-- What `getenv_f` reads from the saved image is what `getenv` returns once the image is loaded: for every name, and
for every buffer that holds the value. -/
def EarlyAgrees (defaultEnvironment : List UInt8) (addr config : Nat) (image : List UInt8) (htab : Option HTab) : Prop :=
  ∃ t', envImport defaultEnvironment addr config image htab = some (1, some t') ∧
    ∀ name, (61 : UInt8) ∉ name → (0 : UInt8) ∉ name → ∃ r, getenv t' name = some r ∧
      ∀ len, (∀ v ∈ r, v.length < len) →
        getenvF (image.drop 4) config name len = some (r.map fun v => (v.length, v))

theorem getenvF_of_finds {data : List UInt8} {list : List (CStr × CStr)} (hok : ∀ e ∈ list, EntryOk e) {name : CStr}
    {r : Scan} (hscan : scanLoop data config name (data.length + 1) 0 = some r) (hf : Finds data list name r) (len : Nat)
    (hlen : ∀ v ∈ rawLookup list name, v.length < len) :
    getenvF data config name len = some ((rawLookup list name).map fun v => (v.length, v)) := by
  rw [getenvF, hscan, rawLookup]
  rw [rawLookup] at hlen
  unfold Finds at hf
  split at hf
  · next hnone => rw [hf, hnone]; rfl
  · next e he =>
      obtain ⟨pre, rest, hdata, rfl⟩ := hf
      have hv := escape_noNul (hok e (List.mem_of_find?_eq_some he)).value
      rw [he] at hlen ⊢
      have hcopy := copyOut_spec hv pre rest [] (hlen _ rfl)
      rw [← hdata] at hcopy
      simp [hcopy]

end

theorem earlyAgrees_iff {t : HTab} (hinv : t.Inv) (hok : ∀ k v, t.Binds k v → EntryOk (k, v)) {addr config : Nat}
    {image : List UInt8} (himg : saveenvImage t addr config = some image) (defaultEnvironment : List UInt8)
    (addr' : Nat) (htab : Option HTab) :
    EarlyAgrees defaultEnvironment addr' config image htab ↔ t.Plain config := by
  set list := qsort cmpkey (exportList t []) with hlist
  have hperm : list.Perm (exportList t []) := qsort_perm _ _
  have hoke : ∀ e ∈ list, EntryOk e := fun e he => hok e.1 e.2 ((mem_exportList hinv _ _).mp (hperm.mem_iff.mp he))
  -- the text fits the image, so that the bound is never met
  have hfinds : ∀ name, (61 : UInt8) ∉ name → (0 : UInt8) ∉ name →
      ∃ r, scanLoop (image.drop 4) config name ((image.drop 4).length + 1) 0 = some r ∧
        Finds (image.drop 4) list name r := by
    intro name h61 h0
    obtain ⟨r, hr, hcase⟩ := scanLoop_saved hinv hok himg h61 h0 config
    refine ⟨r, hr, hcase.resolve_right ?_⟩
    rintro ⟨hlt, _⟩
    obtain ⟨out, hexp, hfit, _⟩ := saveenvImage_some himg
    obtain ⟨hout, _⟩ := hexportR_spec hexp
    rw [hout, exportBytes, List.length_append, envSize] at hfit
    omega
  rw [← raw_agrees_iff hinv hok himg defaultEnvironment addr' htab]
  refine exists_congr fun t' => and_congr_right fun himport => forall_congr' fun name => ?_
  refine forall_congr' fun h61 => forall_congr' fun h0 => ?_
  obtain ⟨r, hscan, hf⟩ := hfinds name h61 h0
  constructor
  · rintro ⟨v, hget, hread⟩
    -- a buffer that holds both values
    have hsome := getenvF_of_finds hoke hscan hf (((rawLookup list name).getD []).length + (v.getD []).length + 1)
      (fun w hw => by rw [hw, Option.getD_some]; omega)
    rw [hread _ (fun w hw => by rw [hw, Option.getD_some]; omega)] at hsome
    rw [hget]
    congr 1
    have hinj : Function.Injective fun v : CStr => (v.length, v) := fun a b h => congrArg Prod.snd h
    exact Option.map_injective hinj (Option.some.inj hsome)
  · intro hget
    exact ⟨_, hget, fun len hlen => getenvF_of_finds hoke hscan hf len hlen⟩

/-- `getenv_f` and `getenv` agree on a saved environment exactly when its text is plain. -/
theorem getenvF_agrees_iff {nel : Nat} {t₀ : HTab} (hc : hcreateR nel none = some t₀) (ops : List Op)
    (hok : ∀ k v, (t₀.run ops).Binds k v → EntryOk (k, v)) {addr config : Nat} {image : List UInt8}
    (himg : saveenvImage (t₀.run ops) addr config = some image) (defaultEnvironment : List UInt8) (addr' : Nat)
    (htab : Option HTab) :
    EarlyAgrees defaultEnvironment addr' config image htab ↔ (t₀.run ops).Plain config :=
  earlyAgrees_iff ((inv_of_hcreateR hc).1.run ops) hok himg defaultEnvironment addr' htab

/-! ## One variable -/

/-- A table in which `a` has been set. -/
def oneVar (v : CStr) : HTab := HTab.run ⟨fun _ => ⟨0, none, none⟩, 5, 0⟩ [.enter [97] v]

theorem oneVar_inv (v : CStr) : (oneVar v).Inv := (inv_of_hcreateR hcreateR_two).1.run _

theorem oneVar_binds {v k w : CStr} (h : (oneVar v).Binds k w) : k = [97] ∧ w = v := by
  rcases binds_of_run (inv_of_hcreateR hcreateR_two).1 h with h | h
  · exact absurd (live_of_binds h) ((fresh_of_hcreateR hcreateR_two).2.2 k)
  · simpa using h

theorem oneVar_ok {v : CStr} (hv : (0 : UInt8) ∉ v) (k w : CStr) (h : (oneVar v).Binds k w) : EntryOk (k, w) := by
  obtain ⟨rfl, rfl⟩ := oneVar_binds h
  exact ⟨show (61 : UInt8) ∉ [97] by decide, show (0 : UInt8) ∉ [97] by decide, hv⟩

/-- The text of `a=b`. -/
theorem getenvF_agrees_iff_example : ∃ image, saveenvImage (oneVar [98]) 0 16 = some image ∧
    EarlyAgrees [] 0 16 image none := by
  refine ⟨_, rfl, (getenvF_agrees_iff hcreateR_two [.enter [97] [98]] (oneVar_ok (by decide)) rfl [] 0 none).mpr ?_⟩
  refine ⟨by decide, fun k w h => ?_⟩
  obtain ⟨rfl, rfl⟩ := oneVar_binds h
  decide

/-- The variable `a` with a backslash for its value comes out with two. -/
theorem getenvF_doubles_backslash : ∃ image, saveenvImage (oneVar [92]) 0 16 = some image ∧
    getenvF (image.drop 4) 16 [97] 8 = some (some (2, [92, 92])) ∧ ¬ EarlyAgrees [] 0 16 image none := by
  refine ⟨_, rfl, by decide, fun h => ?_⟩
  have hplain := (earlyAgrees_iff (oneVar_inv [92]) (oneVar_ok (by decide)) rfl [] 0 none).mp h
  have hb : (oneVar [92]).Binds [97] [92] := ⟨3, by decide⟩
  exact (hplain.plain _ _ hb).2.2 (by decide)

end Uboot.Env
