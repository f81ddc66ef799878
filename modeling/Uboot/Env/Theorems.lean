import Uboot.Env.Lemmas.Invariant
import Mathlib.Tactic.IntervalCases

/-!
# The hash table is a finite map

The bindings of a table follow the calls like a map, as long as every new entry finds a free slot. A new
entry overwrites another one exactly when no slot is unused and the first slot of its walk holds an entry.
-/

namespace Uboot.Env

/-! ## The bindings after a change -/

section
variable {t : HTab} {i : Nat} {k : CStr}

theorem HTab.Inv.binds_functional (hinv : t.Inv) {v v' : CStr} (h : t.Binds k v) (h' : t.Binds k v') :
    v = v' := by
  obtain ⟨i, hl, hk, hv⟩ := h
  obtain ⟨j, hl', hk', hv'⟩ := h'
  have := hinv.unique i j hl hl' (hk.trans hk'.symm)
  subst this
  rw [hv] at hv'
  exact Option.some.inj hv'

theorem live_of_binds {v : CStr} (h : t.Binds k v) : t.Live k := by
  obtain ⟨i, hl, hk, _⟩ := h
  exact ⟨i, hl, hk⟩

/-- The bindings of a table that differs from `t` in slot `i` alone. -/
theorem binds_of_change (t t' : HTab) (i : Nat) (hsize : t'.size = t.size)
    (hother : ∀ j, j ≠ i → t'.table j = t.table j) (k' v' : CStr) :
    t'.Binds k' v' ↔ (t'.LiveAt i ∧ (t'.table i).key = some k' ∧ (t'.table i).data = some v') ∨
      ∃ j, j ≠ i ∧ t.LiveAt j ∧ (t.table j).key = some k' ∧ (t.table j).data = some v' := by
  have hlive : ∀ j, j ≠ i → (t'.LiveAt j ↔ t.LiveAt j) := by
    intro j hj
    simp only [HTab.LiveAt, hother j hj, hsize]
  constructor
  · rintro ⟨j, hl, hk, hv⟩
    by_cases hj : j = i
    · subst hj; exact Or.inl ⟨hl, hk, hv⟩
    · rw [hother j hj] at hk hv
      exact Or.inr ⟨j, hj, (hlive j hj).mp hl, hk, hv⟩
  · rintro (⟨hl, hk, hv⟩ | ⟨j, hj, hl, hk, hv⟩)
    · exact ⟨i, hl, hk, hv⟩
    · exact ⟨j, (hlive j hj).mpr hl, by rwa [hother j hj], by rwa [hother j hj]⟩

theorem binds_putData (hinv : t.Inv) (hl : t.LiveAt i) (hk : (t.table i).key = some k) (v k' v' : CStr) :
    (t.putData i v).Binds k' v' ↔ if k' = k then v' = v else t.Binds k' v' := by
  have hsame : (t.putData i v).table i = { t.table i with data := some v } := by simp [HTab.putData]
  have hl' : (t.putData i v).LiveAt i := by
    rw [HTab.LiveAt, hsame]; exact hl
  rw [binds_of_change t (t.putData i v) i rfl (fun j hj => by simp [HTab.putData, hj]), hsame]
  split
  · next he =>
      subst he
      constructor
      · rintro (⟨_, _, hv⟩ | ⟨j, hj, hlj, hkj, _⟩)
        · exact (Option.some.inj hv).symm
        · exact absurd (hinv.unique j i hlj hl (hkj.trans hk.symm)) hj
      · rintro rfl
        exact Or.inl ⟨hl', hk, rfl⟩
  · next he =>
      constructor
      · rintro (⟨_, hk', _⟩ | ⟨j, _, hlj, hkj, hvj⟩)
        · rw [hk] at hk'
          exact absurd (Option.some.inj hk').symm he
        · exact ⟨j, hlj, hkj, hvj⟩
      · rintro ⟨j, hlj, hkj, hvj⟩
        refine Or.inr ⟨j, ?_, hlj, hkj, hvj⟩
        rintro rfl
        rw [hk] at hkj
        exact he (Option.some.inj hkj).symm

theorem binds_putEntry (hi : 1 ≤ i ∧ i ≤ t.size) (hl : ¬ t.LiveAt i) (hk : ¬ t.Live k) (v k' v' : CStr) :
    (t.putEntry i k v).Binds k' v' ↔ if k' = k then v' = v else t.Binds k' v' := by
  have hsame : (t.putEntry i k v).table i = ⟨hval t.size k, some k, some v⟩ := by simp [HTab.putEntry]
  have hl' : (t.putEntry i k v).LiveAt i := by
    have := hval_pos t.size k
    rw [HTab.LiveAt, hsame]
    exact ⟨hi.1, hi.2, by simp only; omega⟩
  rw [binds_of_change t (t.putEntry i k v) i rfl (fun j hj => by simp [HTab.putEntry, hj]), hsame]
  split
  · next he =>
      subst he
      constructor
      · rintro (⟨_, _, hv⟩ | ⟨j, _, hlj, hkj, _⟩)
        · exact (Option.some.inj hv).symm
        · exact absurd ⟨j, hlj, hkj⟩ hk
      · rintro rfl
        exact Or.inl ⟨hl', rfl, rfl⟩
  · next he =>
      constructor
      · rintro (⟨_, hk', _⟩ | ⟨j, _, hlj, hkj, hvj⟩)
        · exact absurd (Option.some.inj hk').symm he
        · exact ⟨j, hlj, hkj, hvj⟩
      · rintro ⟨j, hlj, hkj, hvj⟩
        exact Or.inr ⟨j, fun hji => hl (hji ▸ hlj), hlj, hkj, hvj⟩

theorem binds_clear (hinv : t.Inv) (hl : t.LiveAt i) (hk : (t.table i).key = some k) (k' v' : CStr) :
    (t.clear i).Binds k' v' ↔ k' ≠ k ∧ t.Binds k' v' := by
  have hsame : (t.clear i).table i = { t.table i with used := -1 } := by simp [HTab.clear]
  have hl' : ¬ (t.clear i).LiveAt i := by
    rw [HTab.LiveAt, hsame]; simp
  rw [binds_of_change t (t.clear i) i rfl (fun j hj => by simp [HTab.clear, hj])]
  constructor
  · rintro (⟨hl'', _, _⟩ | ⟨j, hj, hlj, hkj, hvj⟩)
    · exact absurd hl'' hl'
    · refine ⟨?_, j, hlj, hkj, hvj⟩
      rintro rfl
      exact hj (hinv.unique j i hlj hl (hkj.trans hk.symm))
  · rintro ⟨hne, j, hlj, hkj, hvj⟩
    refine Or.inr ⟨j, ?_, hlj, hkj, hvj⟩
    rintro rfl
    rw [hk] at hkj
    exact hne (Option.some.inj hkj).symm

end

/-! ## Free slots for new entries -/

/-- A new entry for `k` finds a free slot: some slot is unused, or the first one of its walk is free. -/
def HTab.Room (t : HTab) (k : CStr) : Prop := t.HasUnused ∨ ¬ t.LiveAt (hval t.size k)

theorem HTab.Target.free {t : HTab} {i : Nat} {k : CStr} (ht : t.Target k i) (hr : t.Room k) :
    ¬ t.LiveAt i := by
  obtain ⟨m, _, hp, _, hu | ⟨rfl, hu | ⟨hl, hno⟩⟩⟩ := ht
  · intro hl; have := hl.2.2; omega
  · intro hl; have := hl.2.2; omega
  · have hpi : hval t.size k = i := hp
    rcases hr with h | h
    · exact absurd h hno
    · rwa [hpi] at h

theorem HTab.Target.taken {t : HTab} {i : Nat} {k : CStr} (hinv : t.Inv) (ht : t.Target k i)
    (hr : ¬ t.Room k) : t.LiveAt i := by
  have hmem := ht.mem hinv
  obtain ⟨m, _, hp, _, hu | ⟨rfl, hu | ⟨hl, _⟩⟩⟩ := ht
  · exact absurd (Or.inl ⟨i, hmem.1, hmem.2, hu⟩) hr
  · have hpi : hval t.size k = i := hp
    refine absurd (Or.inr fun hl => ?_) hr
    have := hl.2.2
    rw [hpi, hu] at this
    omega
  · exact hl

theorem HTab.HasUnused.liveCount_lt {t : HTab} (h : t.HasUnused) : t.liveCount < t.size := by
  obtain ⟨i, h1, h2, hu⟩ := h
  have hss : t.liveSet ⊂ Finset.Icc 1 t.size := by
    refine Finset.filter_ssubset.mpr ⟨i, Finset.mem_Icc.mpr ⟨h1, h2⟩, ?_⟩
    rw [hu]; decide
  simpa [HTab.liveCount, HTab.liveSet] using Finset.card_lt_card hss

/-! ## A run with room for its entries -/

/-- The invariant, with `filled` counting the entries. -/
structure HTab.Good (t : HTab) : Prop where
  inv : t.Inv
  filled : t.filled = t.liveCount

/-- The environment as a map. -/
abbrev EnvMap := CStr → Option CStr

/-- A call on the map. -/
def EnvMap.apply (m : EnvMap) : Op → EnvMap
  | .enter k v => Function.update m k (some v)
  | .find _ => m
  | .delete k => Function.update m k none

/-- The bindings of the table are those of the map. -/
def Refines (t : HTab) (m : EnvMap) : Prop := ∀ k v, t.Binds k v ↔ m k = some v

theorem Refines.eq_none {t : HTab} {m : EnvMap} (h : Refines t m) {k : CStr}
    (hk : ¬ t.Live k) : m k = none := by
  cases hm : m k with
  | none => rfl
  | some v => exact absurd (live_of_binds ((h k v).mpr hm)) hk

/-- What a call needs for `filled` to stay right: a new entry finds a free slot. -/
def HTab.Roomy (t : HTab) (op : Op) : Prop :=
  ∀ k v, op = .enter k v → ¬ t.Live k → t.filled < t.size → t.Room k

theorem HTab.Good.apply {t : HTab} (hg : t.Good) {op : Op} (hr : t.Roomy op) : (t.apply op).Good := by
  refine ⟨hg.inv.apply op, ?_⟩
  have hle := t.liveCount_le
  have hgf := hg.filled
  have hsz : t.size < 2 ^ 31 := by rcases hg.inv.size with h | ⟨_, _, h⟩ <;> omega
  rcases apply_cases hg.inv op with he | ⟨i, k, v, _, hl, _, he⟩ | ⟨i, k, v, ho, hk, hf, ht, he⟩ |
    ⟨i, k, _, hl, _, he⟩ <;> rw [he]
  · exact hg.filled
  · rw [HTab.liveCount_putData hl]; exact hg.filled
  · rw [HTab.liveCount_putEntry (ht.mem hg.inv) (ht.free (hr k v ho hk (by omega)))]
    simp only [HTab.putEntry, wordSize]
    omega
  · have hc := HTab.liveCount_clear hl
    simp only [HTab.clear, wordSize] at *
    omega

/-- A call refines the same call on the map, when the table is not full. -/
theorem Refines.apply {t : HTab} (hg : t.Good) {op : Op} (hr : t.Roomy op) (hfull : t.filled < t.size)
    {m : EnvMap} (h : Refines t m) : Refines (t.apply op) (m.apply op) := by
  intro k' v'
  cases op with
  | find k =>
      rcases apply_cases hg.inv (.find k) with he | ⟨_, _, _, ho, _⟩ | ⟨_, _, _, ho, _⟩ | ⟨_, _, ho, _⟩
      · rw [he]; exact h k' v'
      · cases ho
      · cases ho
      · cases ho
  | enter k v =>
      have hset : (t.apply (.enter k v)).Binds k' v' ↔ if k' = k then v' = v else t.Binds k' v' := by
        by_cases hk : t.Live k
        · obtain ⟨i, hl, hki⟩ := hk
          have he : t.apply (.enter k v) = t.putData i v := by
            simp [HTab.apply, enter_of_live hg.inv hl hki]
          rw [he]
          exact binds_putData hg.inv hl hki v k' v'
        · obtain ⟨i, ht, he⟩ := enter_of_not_live hg.inv hk hfull.ne v
          have he' : t.apply (.enter k v) = t.putEntry i k v := by simp [HTab.apply, he]
          rw [he']
          exact binds_putEntry (ht.mem hg.inv) (ht.free (hr k v rfl hk hfull)) hk v k' v'
      rw [hset, EnvMap.apply]
      by_cases hkk : k' = k
      · subst hkk; simp [eq_comm]
      · simp [hkk, h k' v']
  | delete k =>
      rw [EnvMap.apply]
      by_cases hk : t.Live k
      · obtain ⟨i, hl, hki⟩ := hk
        have he : t.apply (.delete k) = t.clear i := by simp [HTab.apply, delete_of_live hg.inv hl hki]
        rw [he, binds_clear hg.inv hl hki]
        by_cases hkk : k' = k
        · subst hkk; simp
        · simp [hkk, h k' v']
      · have he : t.apply (.delete k) = t := by simp [HTab.apply, delete_of_not_live hg.inv hk]
        have hnone := h.eq_none hk
        have hupd : Function.update m k none = m := by rw [← hnone]; exact Function.update_eq_self k m
        rw [he, hupd]
        exact h k' v'

/-- A whole run refines the run on the map, when some slot stays unused. -/
theorem Refines.run {t : HTab} (ops : List Op) (hg : t.Good) {m : EnvMap} (h : Refines t m)
    (hun : ∀ n ≤ ops.length, (t.run (ops.take n)).HasUnused) :
    (t.run ops).Good ∧ Refines (t.run ops) (ops.foldl EnvMap.apply m) := by
  induction ops generalizing t m with
  | nil => exact ⟨hg, h⟩
  | cons op ops ih =>
      have h0 : t.HasUnused := hun 0 (Nat.zero_le _)
      have hr : t.Roomy op := fun _ _ _ _ _ => Or.inl h0
      have hlt : t.filled < t.size := by rw [hg.filled]; exact h0.liveCount_lt
      refine ih (hg.apply hr) (h.apply hg hr hlt) fun n hn => ?_
      exact hun (n + 1) (by simp only [List.length_cons]; omega)

theorem lastEntered_eq (k : CStr) (ops : List Op) (m : EnvMap) :
    ops.foldl EnvMap.apply m k = ops.foldl (fun b op => match op with
      | .enter k' v => if k' = k then some v else b
      | .find _ => b
      | .delete k' => if k' = k then none else b) (m k) := by
  induction ops generalizing m with
  | nil => rfl
  | cons op ops ih =>
      rw [List.foldl_cons, List.foldl_cons, ih]
      congr 1
      cases op with
      | enter k' v => simp [EnvMap.apply, Function.update_apply, eq_comm]
      | find k' => rfl
      | delete k' => simp [EnvMap.apply, Function.update_apply, eq_comm]

theorem refines_empty {nel : Nat} {t : HTab} (hc : hcreateR nel none = some t) :
    Refines t fun _ => none := by
  intro k v
  obtain ⟨htab, _⟩ := hcreateR_spec hc
  constructor
  · rintro ⟨i, hl, _⟩
    have := hl.2.2
    rw [htab] at this
    simp at this
  · intro h; cases h

theorem good_of_hcreateR {nel : Nat} {t : HTab} (hc : hcreateR nel none = some t) : t.Good :=
  ⟨(inv_of_hcreateR hc).1, (inv_of_hcreateR hc).2⟩

/-- The hash table is a finite map over every run that leaves a slot unused: no key is in two slots, and
`FIND` succeeds exactly for the keys entered and not deleted since, with the data last entered. -/
theorem hashtable_is_map {nel : Nat} {t₀ : HTab} (hc : hcreateR nel none = some t₀)
    (ops : List Op) (hun : ∀ n ≤ ops.length, (t₀.run (ops.take n)).HasUnused) :
    (∀ i j, (t₀.run ops).LiveAt i → (t₀.run ops).LiveAt j →
      ((t₀.run ops).table i).key = ((t₀.run ops).table j).key → i = j) ∧
    ∀ k data, ∃ r, hsearchR .all ⟨k, data⟩ .FIND (t₀.run ops) = some r ∧
      (r.ret ≠ 0 ↔ (lastEntered k ops).isSome) ∧
      ∀ v, lastEntered k ops = some v → ∃ i, r.retval = some i ∧
        ((t₀.run ops).table i).key = some k ∧ ((t₀.run ops).table i).data = some v := by
  obtain ⟨hg, href⟩ := Refines.run ops (good_of_hcreateR hc) (refines_empty hc) hun
  refine ⟨hg.inv.unique, fun k data => ?_⟩
  have hlast : ops.foldl EnvMap.apply (fun _ => none) k = lastEntered k ops := lastEntered_eq k ops _
  by_cases hk : (t₀.run ops).Live k
  · obtain ⟨i, hl, hki⟩ := hk
    obtain ⟨k', v, hk', hv, _⟩ := hg.inv.entry i hl
    have hb : lastEntered k ops = some v := by
      rw [← hlast, ← href k v]; exact ⟨i, hl, hki, hv⟩
    have hi : i ≠ 0 := by have := hl.1; omega
    refine ⟨_, find_of_live hg.inv hl hki .all data, by simp [hb, hi], fun v' hv' => ?_⟩
    rw [hb] at hv'
    exact ⟨i, rfl, hki, hv.trans hv'⟩
  · have hb : lastEntered k ops = none := by rw [← hlast]; exact href.eq_none hk
    exact ⟨_, find_of_not_live hg.inv hk .all data, by simp [hb], fun v hv => by rw [hb] at hv; cases hv⟩

/-- A table made for two entries has five slots. -/
theorem hcreateR_two : hcreateR 2 none = some ⟨fun _ => ⟨0, none, none⟩, 5, 0⟩ := by
  simp only [hcreateR, calloc]
  rfl

theorem hashtable_is_map_example : ∃ t₀, hcreateR 2 none = some t₀ ∧
    ∃ r, hsearchR .all ⟨[97], none⟩ .FIND (t₀.run [.enter [97] [49], .delete [98], .enter [97] [50]]) = some r ∧
      r.ret ≠ 0 := by
  refine ⟨_, hcreateR_two, ?_⟩
  obtain ⟨r, hr, hret, _⟩ := (hashtable_is_map hcreateR_two [.enter [97] [49], .delete [98], .enter [97] [50]]
    (fun n hn => ⟨5, by
      simp only [List.length_cons, List.length_nil] at hn
      interval_cases n <;> decide⟩)).2 [97] none
  exact ⟨r, hr, hret.mpr (by decide)⟩

/-! ## Entering a key in any table -/

/-- An `ENTER` of the new key `k` succeeds, binds `k` to `v`, keeps the other bindings and the count. -/
def HTab.EnterOk (t : HTab) (k v : CStr) : Prop :=
  ∃ r, hsearchR .all ⟨k, some v⟩ .ENTER t = some r ∧ r.ret ≠ 0 ∧ r.retval ≠ none ∧
    (∀ v', r.htab.Binds k v' ↔ v' = v) ∧
    (∀ k' v', k' ≠ k → (r.htab.Binds k' v' ↔ t.Binds k' v')) ∧
    r.htab.filled = r.htab.liveCount

/-- Every new entry of the run finds a free slot. -/
def HTab.RoomyRun : HTab → List Op → Prop
  | _, [] => True
  | t, op :: ops => t.Roomy op ∧ (t.apply op).RoomyRun ops

theorem HTab.Good.run {t : HTab} (hg : t.Good) (ops : List Op) (hr : t.RoomyRun ops) : (t.run ops).Good := by
  induction ops generalizing t with
  | nil => exact hg
  | cons op ops ih => exact ih (hg.apply hr.1) hr.2

/-- One `ENTER` of a new key into a table that is not full. -/
theorem HTab.Good.enterOk_iff {t : HTab} (hg : t.Good) {k : CStr} (hk : ¬ t.Live k) (hfull : t.filled < t.size)
    (v : CStr) : t.EnterOk k v ↔ t.Room k := by
  obtain ⟨i, ht, he⟩ := enter_of_not_live hg.inv hk hfull.ne v
  have happly : t.apply (.enter k v) = t.putEntry i k v := by simp [HTab.apply, he]
  have hi := ht.mem hg.inv
  constructor
  · -- without room the target holds an entry, whose binding is lost
    rintro ⟨r, hr, _, _, _, hother, _⟩
    by_contra hroom
    have hl := ht.taken hg.inv hroom
    rw [he] at hr
    cases hr
    obtain ⟨k', v', hk', hv', _⟩ := hg.inv.entry i hl
    have hne : k' ≠ k := fun h => hk ⟨i, hl, h ▸ hk'⟩
    obtain ⟨j, hlj, hkj, _⟩ := (hother k' v' hne).mpr ⟨i, hl, hk', hv'⟩
    by_cases hji : j = i
    · subst hji
      have hkk : some k = some k' := by simpa [HTab.putEntry] using hkj
      exact hne (Option.some.inj hkk).symm
    · have hkj' : (t.table j).key = some k' := by simpa [HTab.putEntry, hji] using hkj
      have hlj' : t.LiveAt j := by simpa [HTab.putEntry, HTab.LiveAt, hji] using hlj
      exact hji (hg.inv.unique j i hlj' hl (hkj'.trans hk'.symm))
  · intro hroom
    have hfree := ht.free hroom
    have hr : t.Roomy (.enter k v) := by
      intro k' v' ho _ _
      cases ho
      exact hroom
    have hgood := hg.apply hr
    rw [happly] at hgood
    refine ⟨_, he, by simp, by simp, fun v' => ?_, fun k' v' hne => ?_, hgood.filled⟩
    · rw [binds_putEntry hi hfree hk, if_pos rfl]
    · rw [binds_putEntry hi hfree hk, if_neg hne]

/-- In every run whose new entries find a free slot, an `ENTER` of a further new key into a table that is
not full does what it should exactly when some slot is unused or the first slot of its walk is free. -/
theorem enter_ok_iff_room {nel : Nat} {t₀ : HTab} (hc : hcreateR nel none = some t₀) (ops : List Op)
    (hr : t₀.RoomyRun ops) {k : CStr} (hk : ¬ (t₀.run ops).Live k)
    (hfull : (t₀.run ops).filled < (t₀.run ops).size) (v : CStr) :
    (t₀.run ops).EnterOk k v ↔ (t₀.run ops).Room k :=
  ((good_of_hcreateR hc).run ops hr).enterOk_iff hk hfull v

/-- Five entries fill the table, one of them is deleted. -/
def filledOps : List Op :=
  [.enter [97] [49], .enter [98] [49], .enter [99] [49], .enter [101] [49], .enter [100] [49], .delete [100]]

theorem enter_ok_iff_room_example : ∃ t₀, hcreateR 2 none = some t₀ ∧
    ((t₀.run [.enter [97] [49]]).EnterOk [98] [50] ↔ (t₀.run [.enter [97] [49]]).Room [98]) := by
  refine ⟨_, hcreateR_two, enter_ok_iff_room hcreateR_two [.enter [97] [49]] ⟨?_, trivial⟩ ?_ (by decide) [50]⟩
  · intro k v _ _ _
    exact Or.inl ⟨1, by decide⟩
  · rintro ⟨i, ⟨h1, h5, hl⟩, hk⟩
    have h5' : i ≤ 5 := h5
    interval_cases i <;> revert hl hk <;> decide

/-- With the table filled and one entry deleted, entering a sixth key loses the binding of the first. -/
theorem enter_loses_binding : ∃ t₀, hcreateR 2 none = some t₀ ∧ ¬ (t₀.run filledOps).Live [102] ∧
    (t₀.run filledOps).filled < (t₀.run filledOps).size ∧ ¬ (t₀.run filledOps).EnterOk [102] [50] := by
  refine ⟨_, hcreateR_two, ?_, by decide, ?_⟩
  · rintro ⟨i, ⟨h1, h5, hl⟩, hk⟩
    have h5' : i ≤ 5 := h5
    interval_cases i <;> revert hl hk <;> decide
  · rintro ⟨r, hr, _, _, _, hother, _⟩
    obtain ⟨i, ⟨h1, h5, hl⟩, hk, _⟩ := (hother [97] [49] (by decide)).mpr ⟨3, by decide⟩
    have he : r.htab = (HTab.run ⟨fun _ => ⟨0, none, none⟩, 5, 0⟩ filledOps).apply (.enter [102] [50]) := by
      simp only [HTab.apply, hr, Option.map_some, Option.getD_some]
    rw [he] at h5 hl hk
    have h5' : i ≤ 5 := h5
    interval_cases i <;> revert hl hk <;> decide

end Uboot.Env
