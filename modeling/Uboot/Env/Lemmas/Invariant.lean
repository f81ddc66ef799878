import Uboot.Env.Lemmas.Probe

/-!
# What the calls do to the table

With all allocations succeeding, a call leaves the table alone or changes one slot: it overwrites a value,
fills a slot or deletes an entry. Each of these keeps the invariant of the probe sequences.
-/

namespace Uboot.Env

/-! ## The three changes -/

namespace HTab

/-- The value of the entry in slot `i` is replaced by `v`. -/
def putData (t : HTab) (i : Nat) (v : CStr) : HTab := t.setSlot i { t.table i with data := some v }

/-- Slot `i` gets the new entry `k = v`. -/
def putEntry (t : HTab) (i : Nat) (k v : CStr) : HTab :=
  { t.setSlot i ⟨hval t.size k, some k, some v⟩ with filled := (t.filled + 1) % wordSize }

/-- The entry in slot `i` is deleted. -/
def clear (t : HTab) (i : Nat) : HTab :=
  { t.setSlot i { t.table i with used := -1 } with filled := (t.filled + wordSize - 1) % wordSize }

@[simp] theorem setSlot_same (t : HTab) (i : Nat) (s : Slot) : (t.setSlot i s).table i = s := by
  simp [setSlot]

@[simp] theorem setSlot_ne (t : HTab) {i j : Nat} (s : Slot) (h : j ≠ i) :
    (t.setSlot i s).table j = t.table j := by simp [setSlot, h]

@[simp] theorem setSlot_size (t : HTab) (i : Nat) (s : Slot) : (t.setSlot i s).size = t.size := rfl

@[simp] theorem setSlot_filled (t : HTab) (i : Nat) (s : Slot) : (t.setSlot i s).filled = t.filled := rfl

end HTab

/-! ## The results of the calls -/

section
variable {t : HTab} {i : Nat} {k : CStr}

theorem enter_of_live (hinv : t.Inv) (hl : t.LiveAt i) (hk : (t.table i).key = some k) (v : CStr) :
    hsearchR .all ⟨k, some v⟩ .ENTER t = some ⟨i, some i, none, t.putData i v⟩ := by
  rw [hsearchR_of_live hinv hl hk]
  simp [useEntry, strdup, DupMem.all, HTab.putData]

theorem enter_of_full (hinv : t.Inv) (hk : ¬ t.Live k) (hfull : t.filled = t.size) (v : CStr) :
    hsearchR .all ⟨k, some v⟩ .ENTER t = some ⟨0, none, some .ENOMEM, t⟩ := by
  obtain ⟨fd, idx, he, _⟩ := hsearchR_of_not_live hinv hk .all (some v) .ENTER
  rw [he]
  simp [enterEntry, hfull]

theorem enter_of_not_live (hinv : t.Inv) (hk : ¬ t.Live k) (hfull : t.filled ≠ t.size) (v : CStr) :
    ∃ i, t.Target k i ∧
      hsearchR .all ⟨k, some v⟩ .ENTER t = some ⟨1, some i, none, t.putEntry i k v⟩ := by
  obtain ⟨fd, idx, he, ht⟩ := hsearchR_of_not_live hinv hk .all (some v) .ENTER
  refine ⟨_, ht hfull, ?_⟩
  rw [he]
  simp [enterEntry, hfull, strdup, DupMem.all, HTab.putEntry]

theorem find_of_live (hinv : t.Inv) (hl : t.LiveAt i) (hk : (t.table i).key = some k) (mem : DupMem)
    (data : Option CStr) : hsearchR mem ⟨k, data⟩ .FIND t = some ⟨i, some i, none, t⟩ := by
  rw [hsearchR_of_live hinv hl hk]
  simp [useEntry]

theorem find_of_not_live (hinv : t.Inv) (hk : ¬ t.Live k) (mem : DupMem) (data : Option CStr) :
    hsearchR mem ⟨k, data⟩ .FIND t = some ⟨0, none, some .ESRCH, t⟩ := by
  obtain ⟨fd, idx, he, _⟩ := hsearchR_of_not_live hinv hk mem data .FIND
  rw [he]
  simp [enterEntry]

theorem delete_of_live (hinv : t.Inv) (hl : t.LiveAt i) (hk : (t.table i).key = some k) :
    hdeleteR k t = some (1, t.clear i) := by
  have hi : i ≠ 0 := by have := hl.1; omega
  simp [hdeleteR, find_of_live hinv hl hk, hi, HTab.clear]

theorem delete_of_not_live (hinv : t.Inv) (hk : ¬ t.Live k) : hdeleteR k t = some (0, t) := by
  simp [hdeleteR, find_of_not_live hinv hk]

end

/-! ## The slots that hold entries -/

namespace HTab

/-- The slots that hold entries. -/
def liveSet (t : HTab) : Finset Nat := (Finset.Icc 1 t.size).filter fun i => 0 < (t.table i).used

theorem mem_liveSet {t : HTab} {i : Nat} : i ∈ t.liveSet ↔ t.LiveAt i := by
  simp [liveSet, LiveAt, and_assoc]

theorem liveCount_le (t : HTab) : t.liveCount ≤ t.size := by
  simpa [liveCount] using Finset.card_filter_le (Finset.Icc 1 t.size) fun i => 0 < (t.table i).used

section
variable {t : HTab} {i : Nat}

theorem liveAt_setSlot {s : Slot} {j : Nat} (hj : j ≠ i) : (t.setSlot i s).LiveAt j ↔ t.LiveAt j := by
  simp [LiveAt, hj]

theorem liveAt_setSlot_same {s : Slot} : (t.setSlot i s).LiveAt i ↔ 1 ≤ i ∧ i ≤ t.size ∧ 0 < s.used := by
  simp [LiveAt]

theorem liveSet_fill {s : Slot} (hi : 1 ≤ i ∧ i ≤ t.size) (hs : 0 < s.used) :
    (t.setSlot i s).liveSet = insert i t.liveSet := by
  ext j
  rw [Finset.mem_insert, mem_liveSet, mem_liveSet]
  by_cases hj : j = i
  · subst hj; simp [liveAt_setSlot_same, hi, hs]
  · simp [liveAt_setSlot hj, hj]

theorem liveSet_empty {s : Slot} (hs : s.used ≤ 0) : (t.setSlot i s).liveSet = t.liveSet.erase i := by
  ext j
  rw [Finset.mem_erase, mem_liveSet, mem_liveSet]
  by_cases hj : j = i
  · subst hj; simp [liveAt_setSlot_same, hs]
  · simp [liveAt_setSlot hj, hj]

theorem liveCount_putData (hl : t.LiveAt i) (v : CStr) : (t.putData i v).liveCount = t.liveCount := by
  have := liveSet_fill (s := { t.table i with data := some v }) ⟨hl.1, hl.2.1⟩ hl.2.2
  rw [Finset.insert_eq_of_mem (mem_liveSet.mpr hl)] at this
  exact congrArg Finset.card this

theorem liveCount_putEntry (hi : 1 ≤ i ∧ i ≤ t.size) (hl : ¬ t.LiveAt i) (k v : CStr) :
    (t.putEntry i k v).liveCount = t.liveCount + 1 := by
  have hs := liveSet_fill (s := ⟨hval t.size k, some k, some v⟩) hi (by
    have := hval_pos t.size k; simp only; omega)
  have hc : (insert i t.liveSet).card = t.liveSet.card + 1 :=
    Finset.card_insert_of_notMem fun h => hl (mem_liveSet.mp h)
  rw [← hs] at hc
  exact hc

theorem liveCount_clear (hl : t.LiveAt i) : (t.clear i).liveCount + 1 = t.liveCount := by
  have hs := liveSet_empty (t := t) (i := i) (s := { t.table i with used := -1 }) (by simp)
  have hc := Finset.card_erase_add_one (mem_liveSet.mpr hl)
  rw [← hs] at hc
  exact hc

end

end HTab

/-! ## The changes keep the invariant -/

section
variable {t : HTab} {i : Nat} {k : CStr}

/-- A table of the same size in which no slot has become unused. -/
theorem HTab.Passed.mono {m : Nat} (h : t.Passed k m) (t' : HTab) (hs : t'.size = t.size)
    (hu : ∀ j, (t.table j).used ≠ 0 → (t'.table j).used ≠ 0) : t'.Passed k m := by
  intro j hj
  have he : t'.path k j = t.path k j := by simp only [HTab.path, hs]
  rw [he]
  exact hu _ (h j hj)

theorem HTab.Target.mem (hinv : t.Inv) (ht : t.Target k i) : 1 ≤ i ∧ i ≤ t.size := by
  obtain ⟨m, hm, rfl, _⟩ := ht
  rcases hinv.size with h1 | ⟨_, h5, hlt⟩
  · have : m = 0 := by omega
    subst this
    exact hinv.start_mem k
  · exact path_mem h5 hlt k m

/-- The invariant is kept by a change of slot `i` alone, after which the slot is not unused, and holds, if
it holds an entry, one that is on the walk of its key and whose key no other slot has. -/
theorem HTab.Inv.change (hinv : t.Inv) (t' : HTab) (hsize : t'.size = t.size) (hi : 1 ≤ i)
    (hother : ∀ j, j ≠ i → t'.table j = t.table j)
    (hused : (t'.table i).used = -1 ∨ 0 < (t'.table i).used)
    (hentry : t'.LiveAt i → ∃ k v, (t'.table i).key = some k ∧ (t'.table i).data = some v ∧
      (t'.table i).used = (hval t.size k : Int) ∧ (∃ m < t.size, t.path k m = i ∧ t.Passed k m) ∧
      ∀ j, j ≠ i → t.LiveAt j → (t.table j).key ≠ some k)
    (hsingle : t.size = 1 → t'.filled = t'.liveCount) : t'.Inv := by
  have hlive : ∀ j, j ≠ i → (t'.LiveAt j ↔ t.LiveAt j) := by
    intro j hj
    simp only [HTab.LiveAt, hother j hj, hsize]
  have hmono : ∀ j, (t.table j).used ≠ 0 → (t'.table j).used ≠ 0 := by
    intro j h
    by_cases hj : j = i
    · subst hj; omega
    · rwa [hother j hj]
  have hpath : ∀ k j, t'.path k j = t.path k j := fun k j => by simp only [HTab.path, hsize]
  refine ⟨hsize ▸ hinv.size, ?_, ?_, ?_, ?_, fun h => hsingle (hsize ▸ h)⟩
  · intro j h1 h2
    by_cases hj : j = i
    · subst hj; omega
    · rw [hother j hj]; exact hinv.used j h1 (hsize ▸ h2)
  · intro j hj
    by_cases hji : j = i
    · subst hji
      obtain ⟨k, v, hk, hv, hu, ⟨m, hm, hp, hps⟩, _⟩ := hentry hj
      exact ⟨k, v, hk, hv, hsize ▸ hu, m, hsize ▸ hm, by rw [hpath, hp], hps.mono t' hsize hmono⟩
    · obtain ⟨k, v, hk, hv, hu, m, hm, hp, hps⟩ := hinv.entry j ((hlive j hji).mp hj)
      rw [hother j hji]
      exact ⟨k, v, hk, hv, hsize ▸ hu, m, hsize ▸ hm, by rw [hpath, hp], hps.mono t' hsize hmono⟩
  · intro j j' hj hj' he
    by_cases hji : j = i
    · by_cases hji' : j' = i
      · rw [hji, hji']
      · subst hji
        obtain ⟨k, v, hk, _, _, _, hno⟩ := hentry hj
        rw [hk, hother j' hji'] at he
        exact absurd he.symm (hno j' hji' ((hlive j' hji').mp hj'))
    · by_cases hji' : j' = i
      · subst hji'
        obtain ⟨k, v, hk, _, _, _, hno⟩ := hentry hj'
        rw [hk, hother j hji] at he
        exact absurd he (hno j hji ((hlive j hji).mp hj))
      · rw [hother j hji, hother j' hji'] at he
        exact hinv.unique j j' ((hlive j hji).mp hj) ((hlive j' hji').mp hj') he
  · rw [hother 0 (by omega)]; exact hinv.zero

theorem HTab.Inv.putData (hinv : t.Inv) (hl : t.LiveAt i) (v : CStr) : (t.putData i v).Inv := by
  have hsame : (t.putData i v).table i = { t.table i with data := some v } := by simp [HTab.putData]
  apply hinv.change (t.putData i v) rfl hl.1
  · intro j hj; simp [HTab.putData, hj]
  · rw [hsame]; exact Or.inr hl.2.2
  · intro _
    obtain ⟨k, v', hk, _, hu, hm⟩ := hinv.entry i hl
    rw [hsame]
    exact ⟨k, v, hk, rfl, hu, hm, fun j hj hlj he => hj (hinv.unique j i hlj hl (he.trans hk.symm))⟩
  · intro h1
    rw [HTab.liveCount_putData hl]
    exact hinv.single h1

theorem HTab.Inv.putEntry (hinv : t.Inv) (hk : ¬ t.Live k) (ht : t.Target k i)
    (hfull : t.filled ≠ t.size) (v : CStr) : (t.putEntry i k v).Inv := by
  have hi := ht.mem hinv
  have hsame : (t.putEntry i k v).table i = ⟨hval t.size k, some k, some v⟩ := by simp [HTab.putEntry]
  apply hinv.change (t.putEntry i k v) rfl hi.1
  · intro j hj; simp [HTab.putEntry, hj]
  · rw [hsame]
    have := hval_pos t.size k
    exact Or.inr (by simp only; omega)
  · intro _
    obtain ⟨m, hm, hp, hps, _⟩ := ht
    rw [hsame]
    exact ⟨k, v, rfl, rfl, rfl, ⟨m, hm, hp, hps⟩, fun j _ hlj he => hk ⟨j, hlj, he⟩⟩
  · -- a table of one slot is full when the slot holds an entry
    intro h1
    have hf := hinv.single h1
    have hle := t.liveCount_le
    have hnl : ¬ t.LiveAt i := by
      intro hl
      have : i = 1 := by omega
      subst this
      rw [liveCount_single h1, if_pos hl.2.2] at hf
      omega
    rw [HTab.liveCount_putEntry hi hnl]
    simp only [HTab.putEntry, hf, wordSize]
    omega

theorem HTab.Inv.clear (hinv : t.Inv) (hl : t.LiveAt i) : (t.clear i).Inv := by
  have hsame : (t.clear i).table i = { t.table i with used := -1 } := by simp [HTab.clear]
  apply hinv.change (t.clear i) rfl hl.1
  · intro j hj; simp [HTab.clear, hj]
  · rw [hsame]; exact Or.inl rfl
  · intro hl'
    have := hl'.2.2
    rw [hsame] at this
    simp at this
  · intro h1
    have hf := hinv.single h1
    have hc := HTab.liveCount_clear hl
    have hle := t.liveCount_le
    simp only [HTab.clear, hf, wordSize] at *
    omega

end

/-! ## Calls and runs -/

/-- The ways a call can change a table that meets the invariant. -/
theorem apply_cases {t : HTab} (hinv : t.Inv) (op : Op) :
    t.apply op = t ∨
    (∃ i k v, op = .enter k v ∧ t.LiveAt i ∧ (t.table i).key = some k ∧ t.apply op = t.putData i v) ∨
    (∃ i k v, op = .enter k v ∧ ¬ t.Live k ∧ t.filled ≠ t.size ∧ t.Target k i ∧
      t.apply op = t.putEntry i k v) ∨
    (∃ i k, op = .delete k ∧ t.LiveAt i ∧ (t.table i).key = some k ∧ t.apply op = t.clear i) := by
  cases op with
  | enter k v =>
      by_cases hk : t.Live k
      · obtain ⟨i, hl, hki⟩ := hk
        exact Or.inr (Or.inl ⟨i, k, v, rfl, hl, hki, by simp [HTab.apply, enter_of_live hinv hl hki]⟩)
      · by_cases hfull : t.filled = t.size
        · exact Or.inl (by simp [HTab.apply, enter_of_full hinv hk hfull])
        · obtain ⟨i, ht, he⟩ := enter_of_not_live hinv hk hfull v
          exact Or.inr (Or.inr (Or.inl ⟨i, k, v, rfl, hk, hfull, ht, by simp [HTab.apply, he]⟩))
  | find k =>
      left
      by_cases hk : t.Live k
      · obtain ⟨i, hl, hki⟩ := hk
        simp [HTab.apply, find_of_live hinv hl hki]
      · simp [HTab.apply, find_of_not_live hinv hk]
  | delete k =>
      by_cases hk : t.Live k
      · obtain ⟨i, hl, hki⟩ := hk
        exact Or.inr (Or.inr (Or.inr ⟨i, k, rfl, hl, hki, by simp [HTab.apply, delete_of_live hinv hl hki]⟩))
      · exact Or.inl (by simp [HTab.apply, delete_of_not_live hinv hk])

/-- One call keeps the invariant. -/
theorem HTab.Inv.apply {t : HTab} (hinv : t.Inv) (op : Op) : (t.apply op).Inv := by
  rcases apply_cases hinv op with he | ⟨i, k, v, _, hl, _, he⟩ | ⟨i, k, v, _, hk, hf, ht, he⟩ |
    ⟨i, k, _, hl, _, he⟩ <;> rw [he]
  · exact hinv
  · exact hinv.putData hl v
  · exact hinv.putEntry hk ht hf v
  · exact hinv.clear hl

/-- A whole run keeps the invariant. -/
theorem HTab.Inv.run {t : HTab} (hinv : t.Inv) (ops : List Op) : (t.run ops).Inv := by
  induction ops generalizing t with
  | nil => exact hinv
  | cons op ops ih => exact ih (hinv.apply op)

/-- The tables `hcreate_r` makes meet the invariant, and `filled` counts their entries. -/
theorem inv_of_hcreateR {nel : Nat} {htab : Option HTab} {t : HTab} (h : hcreateR nel htab = some t) :
    t.Inv ∧ t.filled = t.liveCount := by
  obtain ⟨htab', hf, _, hsize⟩ := hcreateR_spec h
  have hzero : ∀ i, (t.table i).used = 0 := by intro i; rw [htab']
  have hnl : ∀ i, ¬ t.LiveAt i := by
    intro i hl
    have := hl.2.2
    rw [hzero] at this
    omega
  have hc : t.filled = t.liveCount := by
    have : t.liveSet = ∅ := Finset.eq_empty_of_forall_notMem fun i hi => hnl i (HTab.mem_liveSet.mp hi)
    rw [hf]
    exact (congrArg Finset.card this).symm
  exact ⟨⟨hsize, fun i _ _ => by rw [hzero]; decide, fun i hl => absurd hl (hnl i),
    fun i j hl _ _ => absurd hl (hnl i), hzero 0, fun _ => hc⟩, hc⟩

end Uboot.Env
