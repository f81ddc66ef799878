import Uboot.Env.Theorems

/-!
# An `ENTER` that runs out of memory

Each of the places that copy a string has already changed the slot when it sees that there is no memory: the old value
is freed and the pointer to it `NULL`, or the slot is marked as used without being counted. Only the refusal of a full
table comes before any change.
-/

namespace Uboot.Env

/-- The data of the entry that a `FIND` of `k` returns. -/
def HTab.lookup (t : HTab) (k : CStr) : Option (Option CStr) :=
  (hsearchR .all ⟨k, none⟩ .FIND t).bind fun r => r.retval.map fun i => (r.htab.table i).data

/-- Every `FIND` returns the same, `filled` and the number of entries are the same. -/
def HTab.SameContents (t t' : HTab) : Prop :=
  (∀ k, t'.lookup k = t.lookup k) ∧ t'.filled = t.filled ∧ t'.liveCount = t.liveCount

/-- An `ENTER` that returns 0 changes nothing. -/
def HTab.FailedEnterUnchanged (t : HTab) (mem : DupMem) (k v : CStr) : Prop :=
  ∃ r, hsearchR mem ⟨k, some v⟩ .ENTER t = some r ∧ (r.ret = 0 → t.SameContents r.htab)

/-- The strings that the `ENTER` copies get memory: the value of an entry that is there, key and value of a new one. In a
full table there is nothing to copy. -/
def HTab.GetsMemory (t : HTab) (mem : DupMem) (k : CStr) : Prop :=
  (t.Live k → mem.data = true) ∧ (¬ t.Live k → t.filled ≠ t.size → mem.key = true ∧ mem.data = true)

/-! ## What a `FIND` returns -/

section
variable {t : HTab} {k : CStr}

/-- The loop ends with an entry only at a slot of the walk that holds the key. -/
theorem probeLoop_found {fuel j i : Nat}
    (h : probeLoop t k (hval t.size k) (hval2 t.size (hval t.size k)) fuel (t.path k j) = some (.found i)) :
    ∃ m, t.path k m = i ∧ (t.table i).holds (hval t.size k) k = true := by
  induction fuel generalizing j with
  | zero => cases h
  | succ fuel ih =>
    have hnext : Lib.stepBack t.size (hval2 t.size (hval t.size k)) (t.path k j) = t.path k (j + 1) := rfl
    simp only [probeLoop, hnext] at h
    split at h
    next => cases h
    next =>
      split at h
      next hholds =>
        cases h
        exact ⟨j + 1, rfl, hholds⟩
      next =>
        split at h
        next => exact ih h
        next => cases h

/-- In the table with one slot the walk leaves the slots, and ends at slot 0. -/
theorem path_holds_mem (hsize : GoodSize t.size) (hzero : (t.table 0).used = 0) {fuel i : Nat}
    (h : probeLoop t k (hval t.size k) (hval2 t.size (hval t.size k)) fuel (hval t.size k) = some (.found i)) :
    (1 ≤ i ∧ i ≤ t.size) ∧ (t.table i).holds (hval t.size k) k = true := by
  obtain ⟨m, hm, hholds⟩ := probeLoop_found (j := 0) h
  refine ⟨?_, hholds⟩
  rcases hsize with h1 | ⟨-, h5, hlt⟩
  · exfalso
    cases fuel with
    | zero => cases h
    | succ fuel =>
      have hs : Lib.stepBack t.size (hval2 1 1) 1 = 0 := by rw [h1]; decide
      rw [h1, hval_one] at h
      simp [probeLoop, hs, hzero, Slot.holds] at h
  · exact hm ▸ path_mem h5 hlt k m

theorem find_retval (hsize : GoodSize t.size) (hzero : (t.table 0).used = 0) {r : SearchResult} {i : Nat}
    (hr : hsearchR .all ⟨k, none⟩ .FIND t = some r) (hi : r.retval = some i) :
    r.htab = t ∧ (1 ≤ i ∧ i ≤ t.size) ∧ (t.table i).holds (hval t.size k) k = true := by
  have hstart : 1 ≤ hval t.size k ∧ hval t.size k ≤ t.size := by
    refine ⟨hval_pos _ _, ?_⟩
    rcases hsize with h1 | ⟨-, h5, -⟩
    · rw [h1, hval_one]
    · exact (hval_lt h5 k).le
  simp only [hsearchR] at hr
  split at hr
  next =>
    split at hr
    next hholds =>
      cases hr
      cases hi
      exact ⟨rfl, hstart, hholds⟩
    next =>
      obtain ⟨p, hp, hr⟩ := Option.map_eq_some_iff.mp hr
      cases p with
      | found idx =>
        cases hr
        cases hi
        exact ⟨rfl, path_holds_mem hsize hzero hp⟩
      | free idx =>
        cases hr
        cases hi
  next =>
    cases hr
    cases hi

theorem lookup_live (hsize : GoodSize t.size) (hzero : (t.table 0).used = 0) {d : Option CStr}
    (h : t.lookup k = some d) : ∃ i, t.LiveAt i ∧ (t.table i).key = some k ∧ (t.table i).data = d := by
  obtain ⟨r, hr, hret⟩ := Option.bind_eq_some_iff.mp h
  obtain ⟨i, hi, hd⟩ := Option.map_eq_some_iff.mp hret
  obtain ⟨ht, hmem, hholds⟩ := find_retval hsize hzero hr hi
  obtain ⟨hl, hk⟩ := live_of_holds hmem hholds
  exact ⟨i, hl, hk, ht ▸ hd⟩

theorem lookup_of_live (hinv : t.Inv) {i : Nat} (hl : t.LiveAt i) (hk : (t.table i).key = some k) :
    t.lookup k = some (t.table i).data := by
  simp [HTab.lookup, find_of_live hinv hl hk]

/-- A slot with an entry is given other data, or another key: the entry is not found any more. -/
theorem lookup_setSlot_ne (hinv : t.Inv) {i : Nat} (hl : t.LiveAt i) (hk : (t.table i).key = some k) {s : Slot}
    (hs : s.key ≠ some k ∨ s.data ≠ (t.table i).data) : (t.setSlot i s).lookup k ≠ t.lookup k := by
  rw [lookup_of_live hinv hl hk]
  intro h
  have hi : (0 : Nat) ≠ i := by have := hl.1; omega
  obtain ⟨j, hlj, hkj, hdj⟩ := lookup_live (t := t.setSlot i s) hinv.size (by rw [HTab.setSlot_ne t s hi, hinv.zero]) h
  by_cases hji : j = i
  · subst hji
    rw [HTab.setSlot_same] at hkj hdj
    exact hs.elim (fun hne => hne hkj) (fun hne => hne hdj)
  · rw [HTab.setSlot_ne t s hji] at hkj
    exact hji (hinv.unique j i ((HTab.liveAt_setSlot hji).mp hlj) hl (hkj.trans hk.symm))

end

/-! ## One call -/

section
variable {t : HTab} {mem : DupMem} {k v : CStr}

theorem sameContents_refl (t : HTab) : t.SameContents t := ⟨fun _ => rfl, rfl, rfl⟩

theorem failed_enter_of_live (hinv : t.Inv) (hk : t.Live k) :
    t.FailedEnterUnchanged mem k v ↔ mem.data = true := by
  obtain ⟨i, hl, hki⟩ := hk
  have hi : i ≠ 0 := by have := hl.1; omega
  have hr := hsearchR_of_live hinv hl hki mem (some v) .ENTER
  obtain ⟨k', v', hk', hv', -⟩ := hinv.entry i hl
  rw [HTab.FailedEnterUnchanged, hr]
  by_cases hmem : mem.data = true
  · refine iff_of_true ⟨_, rfl, fun h => ?_⟩ hmem
    simp [useEntry, strdup, hmem, hi] at h
  · refine iff_of_false ?_ hmem
    rintro ⟨r, hr, hsame⟩
    cases hr
    simp only [useEntry, strdup, hmem] at hsame
    have hne := lookup_setSlot_ne hinv hl hki (s := { t.table i with data := none }) (.inr (by rw [hv']; simp))
    exact hne ((by simpa using hsame : t.SameContents _).1 k)

/-- A slot that gets an entry without key or data is counted by no one, or has lost its entry. -/
theorem failed_enter_of_not_live (hinv : t.Inv) (hk : ¬ t.Live k) :
    t.FailedEnterUnchanged mem k v ↔ (t.filled ≠ t.size → mem.key = true ∧ mem.data = true) := by
  obtain ⟨fd, idx, he, ht⟩ := hsearchR_of_not_live hinv hk mem (some v) .ENTER
  rw [HTab.FailedEnterUnchanged, he]
  by_cases hfull : t.filled = t.size
  · refine iff_of_true ⟨_, rfl, fun _ => ?_⟩ (fun hne => absurd hfull hne)
    simp only [enterEntry, if_pos hfull]
    exact sameContents_refl t
  · have htarget := ht hfull
    simp only [enterEntry, if_neg hfull, HTab.setSlot_same]
    generalize (if fd ≠ 0 then fd else idx) = i at *
    by_cases hmem : mem.key = true ∧ mem.data = true
    · refine iff_of_true ⟨_, rfl, fun h => ?_⟩ (fun _ => hmem)
      simp [strdup, hmem.1, hmem.2] at h
    · have hnone : strdup mem.key (some k) = none ∨ strdup mem.data (some v) = none := by
        simp only [strdup]
        grind
      refine iff_of_false ?_ (fun h => hmem (h hfull))
      rintro ⟨r, hr, hsame⟩
      simp only [if_true, if_pos hnone, Option.some.injEq] at hr
      subst hr
      obtain ⟨hlookup, -, hcount⟩ := hsame rfl
      by_cases hl : t.LiveAt i
      · obtain ⟨k', v', hk', hv', -⟩ := hinv.entry i hl
        have hne : strdup mem.key (some k) ≠ some k' := by
          intro heq
          have hkk : k = k' := by
            simp only [strdup] at heq
            split at heq
            · exact Option.some.inj heq
            · cases heq
          exact hk ⟨i, hl, hkk ▸ hk'⟩
        exact lookup_setSlot_ne hinv hl hk' (s := ⟨hval t.size k, _, _⟩) (.inl hne) (hlookup k')
      · have hset := HTab.liveSet_fill (s := ⟨hval t.size k, strdup mem.key (some k), strdup mem.data (some v)⟩)
          (htarget.mem hinv) (by have := hval_pos t.size k; simp only; omega)
        have hcard : (insert i t.liveSet).card = t.liveSet.card + 1 :=
          Finset.card_insert_of_notMem fun h => hl (HTab.mem_liveSet.mp h)
        rw [← hset] at hcard
        exact absurd (hcard.symm.trans hcount) (Nat.succ_ne_self _)

theorem failed_enter_step (hinv : t.Inv) : t.FailedEnterUnchanged mem k v ↔ t.GetsMemory mem k := by
  by_cases hk : t.Live k
  · rw [failed_enter_of_live hinv hk, HTab.GetsMemory]
    exact ⟨fun h => ⟨fun _ => h, fun hn => absurd hk hn⟩, fun h => h.1 hk⟩
  · rw [failed_enter_of_not_live hinv hk, HTab.GetsMemory]
    exact ⟨fun h => ⟨fun hl => absurd hl hk, fun _ => h⟩, fun h => h.2 hk⟩

end

/-! ## Runs -/

/-- A call, with the memory there is for the copies of an `ENTER`. -/
structure MemCall where
  op : Op
  mem : DupMem

/-- The table after a call. -/
def HTab.applyMem (t : HTab) (c : MemCall) : HTab :=
  match c.op with
  | .enter k v => ((hsearchR c.mem ⟨k, some v⟩ .ENTER t).map (·.htab)).getD t
  | op => t.apply op

def HTab.runMem (t : HTab) (calls : List MemCall) : HTab := calls.foldl HTab.applyMem t

/-- Every `ENTER` of the run gets its memory. -/
def HTab.Supplied : HTab → List MemCall → Prop
  | _, [] => True
  | t, c :: calls => (∀ k v, c.op = .enter k v → t.GetsMemory c.mem k) ∧ (t.applyMem c).Supplied calls

/-- A call that gets its memory does what it does with all the memory. -/
theorem applyMem_eq {t : HTab} (hinv : t.Inv) {c : MemCall} (h : ∀ k v, c.op = .enter k v → t.GetsMemory c.mem k) :
    t.applyMem c = t.apply c.op := by
  obtain ⟨op, mem⟩ := c
  cases op with
  | find k => rfl
  | delete k => rfl
  | enter k v =>
    obtain ⟨hlive, hnew⟩ := h k v rfl
    by_cases hk : t.Live k
    · obtain ⟨i, hl, hki⟩ := hk
      have hmem : mem.data = true := hlive ⟨i, hl, hki⟩
      simp only [HTab.applyMem, HTab.apply, hsearchR_of_live hinv hl hki, useEntry, strdup, DupMem.all, hmem]
    · by_cases hfull : t.filled = t.size
      · obtain ⟨fd, idx, he, -⟩ := hsearchR_of_not_live hinv hk mem (some v) .ENTER
        simp [HTab.applyMem, HTab.apply, enter_of_full hinv hk hfull, he, enterEntry, hfull]
      · obtain ⟨hkey, hdata⟩ := hnew hk hfull
        have hall : mem = .all := by
          obtain ⟨key, data⟩ := mem
          simp_all [DupMem.all]
        simp only [HTab.applyMem, HTab.apply, hall]

theorem HTab.Inv.runMem {t : HTab} (hinv : t.Inv) (calls : List MemCall) (h : t.Supplied calls) :
    (t.runMem calls).Inv := by
  induction calls generalizing t with
  | nil => exact hinv
  | cons c calls ih => exact ih (applyMem_eq hinv h.1 ▸ hinv.apply c.op) h.2

/-- After every run whose copies got their memory, an `ENTER` that fails changes nothing exactly when its own copies get
their memory. -/
theorem failed_enter_unchanged_iff {nel : Nat} {t₀ : HTab} (hc : hcreateR nel none = some t₀) (calls : List MemCall)
    (hs : t₀.Supplied calls) (mem : DupMem) (k v : CStr) :
    (t₀.runMem calls).FailedEnterUnchanged mem k v ↔ (t₀.runMem calls).GetsMemory mem k :=
  failed_enter_step ((inv_of_hcreateR hc).1.runMem calls hs)

/-- The run that sets `a` to `1`. -/
def enteredOnce : List MemCall := [⟨.enter [97] [49], .all⟩]

theorem enteredOnce_supplied (t : HTab) : t.Supplied enteredOnce :=
  ⟨fun _ _ _ => ⟨fun _ => rfl, fun _ _ => ⟨rfl, rfl⟩⟩, trivial⟩

theorem failed_enter_unchanged_example : ∃ t₀, hcreateR 2 none = some t₀ ∧
    (t₀.runMem enteredOnce).FailedEnterUnchanged .all [98] [50] := by
  refine ⟨_, hcreateR_two, (failed_enter_unchanged_iff hcreateR_two enteredOnce (enteredOnce_supplied _) .all _ _).mpr ?_⟩
  exact ⟨fun _ => rfl, fun _ _ => ⟨rfl, rfl⟩⟩

/-- Without memory for the new value of `a`, its entry is left with no value. -/
theorem failed_enter_loses_value : ∃ t₀, hcreateR 2 none = some t₀ ∧ t₀.Supplied enteredOnce ∧
    (t₀.runMem enteredOnce).lookup [97] = some (some [49]) ∧
    (∃ r, hsearchR ⟨true, false⟩ ⟨[97], some [50]⟩ .ENTER (t₀.runMem enteredOnce) = some r ∧ r.ret = 0 ∧
      r.htab.lookup [97] = some none) ∧
    ¬ (t₀.runMem enteredOnce).FailedEnterUnchanged ⟨true, false⟩ [97] [50] := by
  refine ⟨_, hcreateR_two, enteredOnce_supplied _, by decide, ⟨_, rfl, by decide, by decide⟩, ?_⟩
  rintro ⟨r, hr, h⟩
  cases hr
  have hsame := (h (by decide)).1 [97]
  revert hsame
  decide

end Uboot.Env
