import Uboot.Env.Theorems
import Uboot.Env.Lemmas.Parse

/-!
# Saving and loading the environment

A text written by `hexport_r` is loaded by `himport_r` into a table with the same bindings, for both
separators in use and whatever bytes the values hold.
-/

namespace Uboot.Env

/-- Names that the text format can hold. -/
structure KeyOk (sep : UInt8) (k : CStr) : Prop where
  nonempty : k ≠ []
  noEq : (61 : UInt8) ∉ k
  noSep : sep ∉ k
  noNul : (0 : UInt8) ∉ k
  start : k.head? ≠ some 32 ∧ k.head? ≠ some 9 ∧ k.head? ≠ some 35

/-- Values that the text format can hold: an empty value would delete its name. -/
structure ValueOk (v : CStr) : Prop where
  nonempty : v ≠ []
  noNul : (0 : UInt8) ∉ v

/-- Names that the parser takes as they are, the empty one included. -/
structure NameOk (sep : UInt8) (k : CStr) : Prop where
  noEq : (61 : UInt8) ∉ k
  noSep : sep ∉ k
  noNul : (0 : UInt8) ∉ k
  start : k.head? ≠ some 32 ∧ k.head? ≠ some 9 ∧ k.head? ≠ some 35

theorem KeyOk.nameOk {sep : UInt8} {k : CStr} (h : KeyOk sep k) : NameOk sep k :=
  ⟨h.noEq, h.noSep, h.noNul, h.start⟩

/-! ## One entry -/

section
variable {sep : UInt8} {k v : CStr}

/-- The first byte of an entry. -/
theorem NameOk.head (hk : NameOk sep k) (tail : List UInt8) :
    ∃ c rest, k ++ 61 :: tail = c :: rest ∧ c ≠ 0 ∧ c ≠ 32 ∧ c ≠ 9 ∧ c ≠ 35 := by
  cases k with
  | nil => exact ⟨61, tail, rfl, by decide⟩
  | cons c k =>
      obtain ⟨h32, h9, h35⟩ : c ≠ 32 ∧ c ≠ 9 ∧ c ≠ 35 := by simpa using hk.start
      exact ⟨c, k ++ 61 :: tail, rfl, fun h0 => hk.noNul (by simp [h0]), h32, h9, h35⟩

theorem escape_head (hsep : sep ≠ 92) (hv : ValueOk v) :
    ∃ d rest, escape sep v = d :: rest ∧ d ≠ 0 ∧ d ≠ sep := by
  cases v with
  | nil => exact absurd rfl hv.nonempty
  | cons c v =>
      rw [escape_cons, escapeByte]
      split
      · exact ⟨92, _, rfl, by decide, hsep.symm⟩
      · next h =>
          refine ⟨c, _, rfl, fun h0 => hv.noNul (by simp [h0]), fun hs => h (Or.inl hs)⟩

/-- The parser finds the name at once, and its end at the `=`. -/
theorem NameOk.scan (hk : NameOk sep k) (pre tail : List UInt8) {fuel : Nat} (hf : k.length < fuel) :
    skipWhile isblank (pre ++ k ++ 61 :: tail) fuel pre.length = some pre.length ∧
      (∃ c, (pre ++ k ++ 61 :: tail)[pre.length]? = some c ∧ c ≠ 35) ∧
      skipWhile (fun c => c ≠ 61 && c ≠ 0 && c ≠ sep) (pre ++ k ++ 61 :: tail) fuel pre.length =
        some (pre.length + k.length) := by
  obtain ⟨c, rest, hc, _, h32, h9, h35⟩ := hk.head tail
  have hname : ∀ b ∈ k, (b ≠ 61 && b ≠ 0 && b ≠ sep) = true := by
    intro b hb
    have h1 : b ≠ 61 := fun h => hk.noEq (h ▸ hb)
    have h2 : b ≠ 0 := fun h => hk.noNul (h ▸ hb)
    have h3 : b ≠ sep := fun h => hk.noSep (h ▸ hb)
    simp [h1, h2, h3]
  have hdata : pre ++ k ++ 61 :: tail = pre ++ [] ++ c :: rest := by rw [List.append_assoc, hc, List.append_nil]
  refine ⟨?_, ⟨c, by rw [hdata]; simp, h35⟩, skipWhile_spec (by simp) tail k pre fuel hname hf⟩
  rw [hdata]
  exact skipWhile_spec (by simp [isblank, h32, h9]) rest [] pre fuel (by simp) (Nat.lt_of_le_of_lt (Nat.zero_le _) hf)

/-- An entry with a value is not a deletion. -/
theorem isDelete_entry (hsep : sep ≠ 92) (h61 : 61 ≠ sep) (hv : ValueOk v) (done rest : List UInt8) :
    isDelete sep (done ++ 61 :: (escape sep v ++ rest)) done.length = some false := by
  obtain ⟨d, esc, hd, hd0, hds⟩ := escape_head hsep hv
  have h1 : (done ++ 61 :: (escape sep v ++ rest))[done.length + 1]? = some d := by
    rw [hd, List.getElem?_append_right (by simp)]
    simp
  simp [isDelete, h1, hd0, hds, h61]

/-- The value is unescaped and terminated; the terminator goes over the first byte of the gap, or over the
separator. -/
theorem value_entry (hsep : sep ≠ 92) (hv : ValueOk v) (done rest : List UInt8) {fuel : Nat}
    (hf : v.length < fuel) :
    ∃ copy gap, gap.length + v.length = (escape sep v).length ∧
      parseValue sep fuel (done ++ (escape sep v ++ sep :: rest)) done.length done.length =
        some (copy, done.length + v.length + gap.length, done.length + v.length) ∧
      writeAt copy (done.length + v.length) 0 = some (done ++ v ++ 0 :: (gap ++ rest)) := by
  obtain ⟨gap, hgap, hparse⟩ := parseValue_spec hsep rest v done [] fuel hv.noNul hf
  simp only [List.append_nil, List.length_nil, Nat.add_zero, Nat.zero_add] at hparse hgap
  obtain ⟨g, gap', hg⟩ : ∃ g gap', gap ++ [sep] = g :: gap' := by
    cases gap with
    | nil => exact ⟨sep, [], rfl⟩
    | cons g gap' => exact ⟨g, gap' ++ [sep], rfl⟩
  have hglen : gap'.length = gap.length := by simpa using (congrArg List.length hg).symm
  have hcopy : done ++ v ++ gap ++ sep :: rest = (done ++ v) ++ g :: (gap' ++ rest) := by
    rw [← List.cons_append, ← hg]
    simp
  refine ⟨_, gap', by omega, by rw [hparse, hglen], ?_⟩
  have hwrite := writeAt_spec (done ++ v) (gap' ++ rest) g 0
  rwa [← hcopy, List.length_append] at hwrite

/-- The parser enters an exported entry and goes on to what follows it. -/
theorem importBody_entry (hsep : sep = 0 ∨ sep = 10) (hk : NameOk sep k) (hv : ValueOk v)
    (pre rest : List UInt8) (t : HTab) :
    ∃ pre', pre'.length = pre.length + (exportEntry sep (k, v)).length ∧
      importBody sep (pre ++ exportEntry sep (k, v) ++ rest) pre.length t =
        (hsearchR .all ⟨k, some v⟩ .ENTER t).map fun r =>
          if r.retval = none then .fail r.htab else .next (pre' ++ rest) pre'.length r.htab := by
  have hsep92 : sep ≠ 92 := by rcases hsep with h | h <;> rw [h] <;> decide
  have hsep61 : (61 : UInt8) ≠ sep := by rcases hsep with h | h <;> rw [h] <;> decide
  have hdata : pre ++ exportEntry sep (k, v) ++ rest = pre ++ k ++ 61 :: (escape sep v ++ sep :: rest) := by
    simp [exportEntry]
  have hesc := escape_length sep v
  rw [hdata]
  set data := pre ++ k ++ 61 :: (escape sep v ++ sep :: rest) with hdef
  have hlen : data.length = pre.length + k.length + ((escape sep v).length + rest.length + 2) := by
    simp [hdef]; omega
  obtain ⟨hblank, ⟨c, hread, hc⟩, hscan⟩ :=
    hk.scan pre (escape sep v ++ sep :: rest) (show k.length < data.length + 1 by omega)
  have hname : (pre ++ k).length = pre.length + k.length := List.length_append
  have hdel := isDelete_entry hsep92 hsep61 hv (pre ++ k) (sep :: rest)
  have hwrite := writeAt_spec (pre ++ k) (escape sep v ++ sep :: rest) 61 0
  obtain ⟨copy, gap, hgap, hparse, hterm⟩ := value_entry hsep92 hv (pre ++ k ++ [0]) rest
    (show v.length < data.length + 1 by omega)
  have hvalue : (pre ++ k ++ [0]).length = pre.length + k.length + 1 := by
    rw [List.length_append, hname, List.length_singleton]
  have hkey : cstrAt (pre ++ k ++ [0] ++ v ++ 0 :: (gap ++ rest)) pre.length = some k := by
    have hsplit : pre ++ k ++ [0] ++ v ++ 0 :: (gap ++ rest) = pre ++ k ++ 0 :: (v ++ 0 :: (gap ++ rest)) := by
      simp
    rw [hsplit, cstrAt_spec hk.noNul]
  have hval := cstrAt_spec hv.noNul (pre ++ k ++ [0]) (gap ++ rest)
  rw [← hdef] at hblank hread hscan
  rw [← hdef, hname] at hdel hwrite
  rw [List.append_assoc (pre ++ k), List.singleton_append, hvalue] at hparse
  rw [hvalue] at hterm hval
  refine ⟨pre ++ k ++ [0] ++ v ++ 0 :: gap, ?_, ?_⟩
  · simp only [exportEntry, List.length_append, List.length_cons, List.length_nil]; omega
  · have hend : pre.length + k.length + 1 + v.length + gap.length + 1 =
        (pre ++ k ++ [0] ++ v ++ 0 :: gap).length := by
      simp only [List.length_append, List.length_cons, List.length_nil]; omega
    have hcopy : pre ++ k ++ [0] ++ v ++ 0 :: (gap ++ rest) = pre ++ k ++ [0] ++ v ++ 0 :: gap ++ rest := by
      rw [List.append_assoc _ (0 :: gap), List.cons_append]
    rw [hcopy] at hterm hkey hval
    simp only [importBody, hblank, hread, hscan, hdel, hwrite, hparse, hterm, hkey, hval, hc, if_false,
      Bool.false_eq_true, hend, Option.bind_eq_bind, Option.bind_some]
    cases hsearchR .all ⟨k, some v⟩ .ENTER t with
    | none => rfl
    | some r => simp only [Option.bind_some, Option.map_some]; split <;> rfl

end

/-! ## Entering into a table without deleted slots -/

structure HTab.Fresh (t : HTab) : Prop where
  good : t.Good
  noDeleted : ∀ i, 1 ≤ i → i ≤ t.size → (t.table i).used ≠ -1

theorem HTab.Fresh.hasUnused {t : HTab} (h : t.Fresh) (hlt : t.liveCount < t.size) : t.HasUnused := by
  by_contra hno
  have hall : t.liveSet = Finset.Icc 1 t.size := by
    ext i
    rw [HTab.mem_liveSet, Finset.mem_Icc]
    refine ⟨fun hl => ⟨hl.1, hl.2.1⟩, fun hi => ⟨hi.1, hi.2, ?_⟩⟩
    have h1 := h.good.inv.used i hi.1 hi.2
    have h2 := h.noDeleted i hi.1 hi.2
    have h3 : (t.table i).used ≠ 0 := fun h0 => hno ⟨i, hi.1, hi.2, h0⟩
    omega
  have hcard : t.liveSet.card = t.size := by simpa using congrArg Finset.card hall
  rw [HTab.liveSet] at hcard
  rw [HTab.liveCount] at hlt
  omega

/-- A new key is entered while there are fewer entries than slots. -/
theorem HTab.Fresh.enter {t : HTab} (h : t.Fresh) {k : CStr} (hk : ¬ t.Live k) (hlt : t.liveCount < t.size)
    (v : CStr) : ∃ i t', hsearchR .all ⟨k, some v⟩ .ENTER t = some ⟨1, some i, none, t'⟩ ∧ t'.Fresh ∧
      t'.size = t.size ∧ t'.liveCount = t.liveCount + 1 ∧
      ∀ k' v', t'.Binds k' v' ↔ (k', v') = (k, v) ∨ t.Binds k' v' := by
  have hun := h.hasUnused hlt
  have hfull : t.filled < t.size := by rw [h.good.filled]; exact hlt
  obtain ⟨i, ht, he⟩ := enter_of_not_live h.good.inv hk hfull.ne v
  have hfree := ht.free (Or.inl hun)
  have hmem := ht.mem h.good.inv
  have hroomy : t.Roomy (.enter k v) := fun _ _ _ _ _ => Or.inl hun
  have happly : t.apply (.enter k v) = t.putEntry i k v := by simp [HTab.apply, he]
  refine ⟨i, _, he, ⟨happly ▸ h.good.apply hroomy, ?_⟩, rfl, HTab.liveCount_putEntry hmem hfree k v, ?_⟩
  · intro j h1 h2
    by_cases hj : j = i
    · subst hj
      have := hval_pos t.size k
      simp only [HTab.putEntry, HTab.setSlot_same]
      omega
    · simp only [HTab.putEntry, HTab.setSlot_ne t _ hj]
      exact h.noDeleted j h1 h2
  · intro k' v'
    rw [binds_putEntry hmem hfree hk]
    by_cases hkk : k' = k
    · subst hkk
      have : ¬ t.Binds k' v' := fun hb => hk (live_of_binds hb)
      simp [this]
    · simp [hkk]

/-! ## The whole text -/

/-- The parser enters the exported entries one after another and stops at the final NUL. -/
theorem importLoop_entries {sep : UInt8} (hsep : sep = 0 ∨ sep = 10) (n : Nat) :
    ∀ (e : CStr × CStr) (list : List (CStr × CStr)) (pre : List UInt8) (fuel : Nat) (t : HTab), t.Fresh →
      ((e :: list).map Prod.fst).Nodup → (∀ x ∈ e :: list, NameOk sep x.1 ∧ ValueOk x.2 ∧ ¬ t.Live x.1) →
      t.liveCount + (e :: list).length ≤ t.size → (e :: list).length ≤ fuel →
      ∃ t', importLoop sep fuel
          (pre ++ ((e :: list).flatMap (exportEntry sep) ++ List.replicate (n + 1) 0)) pre.length t =
            some (1, t') ∧
        ∀ k v, t'.Binds k v ↔ (k, v) ∈ e :: list ∨ t.Binds k v := by
  intro e list
  induction list generalizing e with
  | nil =>
      intro pre fuel t hf _ hok hsize hfuel
      obtain ⟨k, v⟩ := e
      obtain ⟨hk, hv, hnl⟩ := hok (k, v) (by simp)
      obtain ⟨i, t', he, _, _, _, hb⟩ := hf.enter hnl (by simp at hsize; omega) v
      obtain ⟨pre', _, hbody⟩ := importBody_entry hsep hk hv pre (List.replicate (n + 1) 0) t
      cases fuel with
      | zero => simp at hfuel
      | succ fuel =>
          refine ⟨t', ?_, fun k' v' => by rw [hb]; simp⟩
          simp only [List.flatMap_cons, List.flatMap_nil, List.append_nil, ← List.append_assoc]
          rw [importLoop, hbody, he]
          simp
  | cons e' list ih =>
      intro pre fuel t hf hnd hok hsize hfuel
      obtain ⟨k, v⟩ := e
      obtain ⟨hk, hv, hnl⟩ := hok (k, v) (by simp)
      simp only [List.length_cons] at hsize hfuel
      obtain ⟨i, t₁, he, hf₁, hs₁, hc₁, hb₁⟩ := hf.enter hnl (by omega) v
      obtain ⟨pre', _, hbody⟩ := importBody_entry hsep hk hv pre
        ((e' :: list).flatMap (exportEntry sep) ++ List.replicate (n + 1) 0) t
      simp only [List.map_cons, List.nodup_cons] at hnd
      cases fuel with
      | zero => simp at hfuel
      | succ fuel =>
          obtain ⟨t', hloop, hb'⟩ := ih e' pre' fuel t₁ hf₁ (by simpa using hnd.2)
            (fun x hx => ⟨(hok x (by simp [hx])).1, (hok x (by simp [hx])).2.1, fun hl => by
              obtain ⟨j, hlj, hkj⟩ := hl
              obtain ⟨_, w, hk', hw, _⟩ := hf₁.good.inv.entry j hlj
              rcases (hb₁ x.1 w).mp ⟨j, hlj, hkj, hw⟩ with heq | hbt
              · have hxk : x.1 = k := congrArg Prod.fst heq
                apply hnd.1
                rw [← hxk, ← List.map_cons]
                exact List.mem_map_of_mem hx
              · exact (hok x (by simp [hx])).2.2 (live_of_binds hbt)⟩)
            (by simp only [List.length_cons]; omega) (by simp only [List.length_cons]; omega)
          refine ⟨t', ?_, fun k' v' => ?_⟩
          · obtain ⟨c, rest, hc⟩ : ∃ c rest, (e' :: list).flatMap (exportEntry sep) ++
                List.replicate (n + 1) 0 = c :: rest ∧ c ≠ 0 := by
              obtain ⟨c, rest, hc, h0, _⟩ := (hok e' (by simp)).1.head
                (escape sep e'.2 ++ sep :: (list.flatMap (exportEntry sep) ++ List.replicate (n + 1) 0))
              exact ⟨c, rest, by simpa [exportEntry] using hc, h0⟩
            have hd : (pre' ++ ((e' :: list).flatMap (exportEntry sep) ++ List.replicate (n + 1) 0))[pre'.length]? =
                some c := by rw [hc.1]; simp
            have hlt : pre'.length <
                (pre' ++ ((e' :: list).flatMap (exportEntry sep) ++ List.replicate (n + 1) 0)).length := by
              rw [hc.1]; simp
            rw [List.flatMap_cons, List.append_assoc (exportEntry sep (k, v)), ← List.append_assoc pre,
              importLoop, hbody, he]
            simp only [Option.map_some, reduceCtorEq, if_false, Option.bind_eq_bind, Option.bind_some, hlt,
              if_true, hd, ne_eq, hc.2, not_false_eq_true, hloop]
          · rw [hb', hb₁]
            simp only [List.mem_cons]
            tauto

/-! ## The exported list -/

theorem exportList_eq (t : HTab) : exportList t [] =
    ((List.range' 1 t.size).filter fun i => 0 < (t.table i).used).map
      fun i => ((t.table i).key.getD [], (t.table i).data.getD []) := by
  simp only [exportList, true_or, and_true]
  induction List.range' 1 t.size with
  | nil => rfl
  | cons i l ih =>
      rw [List.filterMap_cons, List.filter_cons]
      by_cases h : 0 < (t.table i).used <;> simp [h, ih]

theorem mem_live_range {t : HTab} {i : Nat} :
    i ∈ (List.range' 1 t.size).filter (fun i => 0 < (t.table i).used) ↔ t.LiveAt i := by
  simp only [List.mem_filter, List.mem_range'_1, decide_eq_true_eq, HTab.LiveAt]
  constructor
  · rintro ⟨⟨h1, h2⟩, h3⟩; exact ⟨h1, by omega, h3⟩
  · rintro ⟨h1, h2, h3⟩; exact ⟨⟨h1, by omega⟩, h3⟩

theorem mem_exportList {t : HTab} (hinv : t.Inv) (k v : CStr) : (k, v) ∈ exportList t [] ↔ t.Binds k v := by
  rw [exportList_eq, List.mem_map]
  constructor
  · rintro ⟨i, hi, he⟩
    have hl := mem_live_range.mp hi
    obtain ⟨k', v', hk', hv', _⟩ := hinv.entry i hl
    rw [hk', hv'] at he
    cases he
    exact ⟨i, hl, hk', hv'⟩
  · rintro ⟨i, hl, hk, hv⟩
    exact ⟨i, mem_live_range.mpr hl, by rw [hk, hv]; rfl⟩

theorem exportList_nodup {t : HTab} (hinv : t.Inv) : ((exportList t []).map Prod.fst).Nodup := by
  rw [exportList_eq, List.map_map]
  apply List.Nodup.map_on
  · intro i hi j hj he
    have hli := mem_live_range.mp hi
    have hlj := mem_live_range.mp hj
    obtain ⟨k, _, hk, _⟩ := hinv.entry i hli
    obtain ⟨k', _, hk', _⟩ := hinv.entry j hlj
    simp only [Function.comp, hk, hk', Option.getD_some] at he
    exact hinv.unique i j hli hlj (by rw [hk, hk', he])
  · exact List.Nodup.filter _ List.nodup_range'

theorem exportList_length (t : HTab) : (exportList t []).length = t.liveCount := by
  have hset : ((List.range' 1 t.size).filter fun i => 0 < (t.table i).used).toFinset = t.liveSet := by
    ext i
    rw [List.mem_toFinset, mem_live_range, HTab.mem_liveSet]
  have hcard := congrArg Finset.card hset
  rw [List.toFinset_card_of_nodup (List.Nodup.filter _ List.nodup_range')] at hcard
  rw [exportList_eq, List.length_map, hcard]
  rfl

/-! ## Round trip -/

theorem length_le_flatMap_exportEntry (sep : UInt8) (list : List (CStr × CStr)) :
    list.length ≤ (list.flatMap (exportEntry sep)).length := by
  induction list with
  | nil => simp
  | cons e list ih =>
      simp only [List.flatMap_cons, List.length_append, List.length_cons, exportEntry]
      omega

/-- An empty text: the parser tries to delete the empty name and stops. -/
theorem importLoop_empty {t : HTab} (hinv : t.Inv) (hk : ¬ t.Live []) (sep : UInt8) (n fuel : Nat) :
    importLoop sep (fuel + 1) (List.replicate (n + 1) 0) 0 t = some (1, t) := by
  have hbody : importBody sep (List.replicate (n + 1) 0) 0 t = some (.next (List.replicate (n + 1) 0) 1 t) := by
    have hkey : cstrAt (List.replicate (n + 1) (0 : UInt8)) 0 = some [] := by
      have := cstrAt_spec (s := []) (by simp) [] (List.replicate n 0)
      simpa [List.replicate_succ] using this
    have hw : writeAt (List.replicate (n + 1) (0 : UInt8)) 0 0 = some (List.replicate (n + 1) 0) := by
      simp [writeAt, List.replicate_succ]
    simp [importBody, skipWhile, isblank, isDelete, hw, hkey, delete_of_not_live hinv hk]
  rw [importLoop, hbody]
  cases n with
  | zero => simp
  | succ n => simp

theorem hexportR_spec {t : HTab} {sep : UInt8} {buf : Bool} {size n : Nat} {out : List UInt8}
    (h : hexportR t sep buf size [] = some (n, out)) :
    out = exportBytes sep (qsort cmpkey (exportList t [])) ∧ exportTotlen sep (exportList t []) < n ∧
      (size ≠ 0 → n = size) := by
  simp only [hexportR] at h
  split at h
  · cases h
  · next hsize =>
      split at h
      · simp only [Option.some.injEq, Prod.mk.injEq] at h
        refine ⟨h.2.symm, ?_⟩
        have hn := h.1
        split at hn <;> omega
      · cases h

theorem exportBuffer_length {n : Nat} {out : List UInt8} (h : out.length ≤ n) : (exportBuffer n out).length = n := by
  simp only [exportBuffer, List.length_append, List.length_replicate]; omega

theorem exportBuffer_eq (sep : UInt8) (n : Nat) (list : List (CStr × CStr)) :
    exportBuffer n (exportBytes sep list) =
      list.flatMap (exportEntry sep) ++ List.replicate (n - (exportBytes sep list).length + 1) 0 := by
  rw [exportBuffer, exportBytes, List.append_assoc, List.replicate_succ, List.singleton_append]

/-- A new table: nothing is bound, and no slot is deleted. -/
theorem fresh_of_hcreateR {nel : Nat} {t : HTab} (h : hcreateR nel none = some t) :
    t.Fresh ∧ t.liveCount = 0 ∧ ∀ k, ¬ t.Live k := by
  have hg := good_of_hcreateR h
  refine ⟨⟨hg, fun i _ _ => by rw [(hcreateR_spec h).1]; simp⟩, ?_, ?_⟩
  · rw [← hg.filled]
    exact (hcreateR_spec h).2.1
  · rintro k ⟨i, hl, _⟩
    have hu := hl.2.2
    rw [(hcreateR_spec h).1] at hu
    exact absurd hu (Int.lt_irrefl 0)

/-- The exported text of a table is loaded into a new one of sufficient size. -/
theorem himportR_exported {t : HTab} (hinv : t.Inv) {sep : UInt8} (hsep : sep = 0 ∨ sep = 10)
    (hok : ∀ k v, t.Binds k v → NameOk sep k ∧ ValueOk v) {buf : Bool} {size n : Nat} {out : List UInt8}
    (hexp : hexportR t sep buf size [] = some (n, out)) (hfit : out.length ≤ n)
    (hroom : ∀ t₁, hcreateR (importEntries n) none = some t₁ → t.liveCount ≤ t₁.size) (htab : Option HTab) :
    ∃ t', himportR true htab (exportBuffer n out) sep false = some (1, some t') ∧
      ∀ k v, t'.Binds k v ↔ t.Binds k v := by
  obtain ⟨hout, _, _⟩ := hexportR_spec hexp
  have hperm : (qsort cmpkey (exportList t [])).Perm (exportList t []) := qsort_perm _ _
  generalize qsort cmpkey (exportList t []) = list at *
  obtain ⟨t₁, ht₁⟩ := hcreateR_of_small (show importEntries n ≤ 520 by simp only [importEntries]; omega)
  have hsize := hroom t₁ ht₁
  obtain ⟨hfresh, hcount, hnl⟩ := fresh_of_hcreateR ht₁
  have hnb : ∀ k v, ¬ t₁.Binds k v := fun k v hb => hnl k (live_of_binds hb)
  have hlen := exportBuffer_length hfit
  have hbuf : exportBuffer n out =
      list.flatMap (exportEntry sep) ++ List.replicate (n - out.length + 1) 0 := by
    rw [hout, exportBuffer_eq]
  have hloop : ∃ t', importLoop sep (n + 1) (exportBuffer n out) 0 t₁ = some (1, t') ∧
      ∀ k v, t'.Binds k v ↔ (k, v) ∈ list := by
    rw [hbuf]
    cases list with
    | nil =>
        exact ⟨t₁, importLoop_empty hfresh.good.inv (hnl []) sep _ n, fun k v => by simp [hnb k v]⟩
    | cons e list =>
        have hlist : (e :: list).length ≤ n + 1 := by
          have h1 := length_le_flatMap_exportEntry sep (e :: list)
          have h2 := congrArg List.length hbuf
          rw [hlen, List.length_append] at h2
          omega
        obtain ⟨t', hl, hb⟩ := importLoop_entries hsep (n - out.length) e list [] (n + 1) t₁ hfresh
          ((hperm.map Prod.fst).nodup_iff.mpr (exportList_nodup hinv))
          (fun x hx => by
            have hbx := (mem_exportList hinv x.1 x.2).mp (hperm.mem_iff.mp hx)
            exact ⟨(hok _ _ hbx).1, (hok _ _ hbx).2, hnl _⟩)
          (by rw [hcount, hperm.length_eq, exportList_length]; omega) hlist
        exact ⟨t', by simpa using hl, fun k v => by rw [hb]; simp [hnb k v]⟩
  obtain ⟨t', hl, hb⟩ := hloop
  refine ⟨t', ?_, fun k v => ?_⟩
  · simp only [himportR, if_true, Bool.false_eq_true, if_false, Option.none_or, hlen, ht₁, hl, Option.map_some]
  · rw [hb, hperm.mem_iff, mem_exportList hinv]

/-- A table saved with `hexport_r` into a buffer that holds the whole output is loaded back by `himport_r`
with the same separator: the call returns `1`, and the new table has exactly the same bindings. -/
theorem export_import_roundtrip {nel : Nat} {t₀ : HTab} (hc : hcreateR nel none = some t₀) (ops : List Op)
    {sep : UInt8} (hsep : sep = 0 ∨ sep = 10)
    (hok : ∀ k v, (t₀.run ops).Binds k v → KeyOk sep k ∧ ValueOk v)
    {buf : Bool} {size n : Nat} {out : List UInt8}
    (hexp : hexportR (t₀.run ops) sep buf size [] = some (n, out)) (hfit : out.length ≤ n)
    (hroom : ∀ t, hcreateR (importEntries n) none = some t → (t₀.run ops).liveCount ≤ t.size)
    (htab : Option HTab) :
    ∃ t', himportR true htab (exportBuffer n out) sep false = some (1, some t') ∧
      ∀ k v, t'.Binds k v ↔ (t₀.run ops).Binds k v :=
  himportR_exported ((inv_of_hcreateR hc).1.run ops) hsep
    (fun k v hb => ⟨(hok k v hb).1.nameOk, (hok k v hb).2⟩) hexp hfit hroom htab

/-- `b=x` and `a` with the value `=\`, newline. -/
theorem export_import_roundtrip_example :
    ∃ t', himportR true none (exportBuffer 24 [97, 61, 61, 92, 92, 92, 10, 10, 98, 61, 120, 10, 0]) 10 false =
      some (1, some t') ∧ t'.Binds [97] [61, 92, 10] := by
  obtain ⟨t', h, hb⟩ := export_import_roundtrip hcreateR_two
    [.enter [98] [120], .enter [97] [61, 92, 10]] (show (10 : UInt8) = 0 ∨ (10 : UInt8) = 10 from Or.inr rfl) (by
      rintro k v ⟨i, ⟨h1, h5, hl⟩, hk, hv⟩
      have h5' : i ≤ 5 := h5
      have h35 : i = 3 ∨ i = 4 := by interval_cases i <;> revert hl <;> decide
      rcases h35 with rfl | rfl
      · cases Option.some.inj (show some [97] = some k from hk)
        cases Option.some.inj (show some [61, 92, 10] = some v from hv)
        exact ⟨⟨by decide, by decide, by decide, by decide, by decide⟩, by decide, by decide⟩
      · cases Option.some.inj (show some [98] = some k from hk)
        cases Option.some.inj (show some [120] = some v from hv)
        exact ⟨⟨by decide, by decide, by decide, by decide, by decide⟩, by decide, by decide⟩)
    (show hexportR _ 10 true 24 [] = some (24, [97, 61, 61, 92, 92, 92, 10, 10, 98, 61, 120, 10, 0]) by decide)
    (by decide) (fun t ht => by
      have hs : t.size = tableSize 67 := (hcreateR_spec ht).2.2.1
      rw [hs]
      decide) none
  exact ⟨t', h, (hb _ _).mpr ⟨3, by decide⟩⟩

end Uboot.Env
