import Uboot.Env.Lemmas.Prime

/-!
# The probe sequence of a key

The slots that `hsearch_r` looks at for a key are a walk through all of `1..size`. A slot that holds an
entry is on the walk of its key, and no slot before it on that walk is unused; so a search that stops at
an unused slot has passed every slot that could hold the key.
-/

namespace Uboot.Env

open Uboot.Lib

/-- The `j`-th slot that `hsearch_r` looks at for `k`. -/
def HTab.path (t : HTab) (k : CStr) (j : Nat) : Nat :=
  walk t.size (hval2 t.size (hval t.size k)) (hval t.size k) j

/-! ## The two hash functions -/

theorem hval_pos (n : Nat) (k : CStr) : 1 ≤ hval n k := by
  unfold hval; split <;> omega

theorem hval_one (k : CStr) : hval 1 k = 1 := by simp [hval, Nat.mod_one]

theorem hval_lt {n : Nat} (hn : 5 ≤ n) (k : CStr) : hval n k < n := by
  have := Nat.mod_lt (hashKey k) (show 0 < n by omega)
  unfold hval; split <;> omega

theorem hval2_mem {n : Nat} (h5 : 5 ≤ n) (hlt : n < 2 ^ 31) (h : Nat) : 0 < hval2 n h ∧ hval2 n h < n := by
  have he : (n + wordSize - 2) % wordSize = n - 2 := by simp only [wordSize]; omega
  have := Nat.mod_lt h (show 0 < n - 2 by omega)
  unfold hval2; rw [he]; omega

theorem hval2_coprime {n : Nat} (hp : Nat.Prime n) (h5 : 5 ≤ n) (hlt : n < 2 ^ 31) (h : Nat) :
    Nat.Coprime (hval2 n h) n := by
  obtain ⟨h1, h2⟩ := hval2_mem h5 hlt h
  exact (Nat.coprime_of_lt_prime (by omega) h2 hp).symm

/-! ## The walk of a key -/

section
variable {t : HTab} (h5 : 5 ≤ t.size) (hlt : t.size < 2 ^ 31) (k : CStr)
include h5 hlt

theorem path_mem (j : Nat) : 1 ≤ t.path k j ∧ t.path k j ≤ t.size := by
  obtain ⟨hd, hdn⟩ := hval2_mem h5 hlt (hval t.size k)
  exact walk_mem hd hdn ⟨hval_pos _ _, (hval_lt h5 k).le⟩ j

theorem path_period : t.path k t.size = hval t.size k := by
  obtain ⟨hd, hdn⟩ := hval2_mem h5 hlt (hval t.size k)
  exact walk_period hd hdn ⟨hval_pos _ _, (hval_lt h5 k).le⟩

variable (hp : Nat.Prime t.size)
include hp

theorem path_inj {i j : Nat} (hi : i < t.size) (hj : j < t.size) (he : t.path k i = t.path k j) : i = j :=
  walk_inj (hval2_coprime hp h5 hlt _) (hval2_mem h5 hlt _).2 hi hj he

theorem path_surj {i : Nat} (hi : 1 ≤ i ∧ i ≤ t.size) : ∃ j < t.size, t.path k j = i := by
  obtain ⟨hd, hdn⟩ := hval2_mem h5 hlt (hval t.size k)
  exact walk_surj (hval2_coprime hp h5 hlt _) hd hdn ⟨hval_pos _ _, (hval_lt h5 k).le⟩ hi

theorem path_ne_start {j : Nat} (h0 : 0 < j) (hj : j < t.size) : t.path k j ≠ hval t.size k := by
  intro he
  have := path_inj h5 hlt k hp hj (show 0 < t.size by omega) he
  omega

end

/-! ## The loop -/

/-- The loop runs from the `j`-th to the `m`-th slot of the walk when nothing stops it in between. -/
theorem probeLoop_of_stop {t : HTab} {k : CStr} {m : Nat} (fuel j : Nat) (hjm : j < m) (hm : m ≤ j + fuel)
    (hpass : ∀ i, j < i → i < m → t.path k i ≠ hval t.size k ∧
      (t.table (t.path k i)).holds (hval t.size k) k = false ∧ (t.table (t.path k i)).used ≠ 0)
    (hstop : t.path k m = hval t.size k ∨ (t.table (t.path k m)).holds (hval t.size k) k = true ∨
      (t.table (t.path k m)).used = 0) :
    probeLoop t k (hval t.size k) (hval2 t.size (hval t.size k)) fuel (t.path k j) =
      some (if t.path k m ≠ hval t.size k ∧ (t.table (t.path k m)).holds (hval t.size k) k = true
        then .found (t.path k m) else .free (t.path k m)) := by
  induction fuel generalizing j with
  | zero => omega
  | succ fuel ih =>
      have hnext : stepBack t.size (hval2 t.size (hval t.size k)) (t.path k j) = t.path k (j + 1) := rfl
      simp only [probeLoop, hnext]
      rcases Nat.eq_or_lt_of_le (Nat.succ_le_of_lt hjm) with he | hlt
      · rw [Nat.succ_eq_add_one] at he
        rw [he]
        by_cases h1 : t.path k m = hval t.size k
        · simp [h1]
        · by_cases h2 : (t.table (t.path k m)).holds (hval t.size k) k = true
          · simp [h1, h2]
          · have h3 : (t.table (t.path k m)).used = 0 := by
              rcases hstop with h | h | h
              · exact absurd h h1
              · exact absurd h h2
              · exact h
            simp [h1, h2, h3]
      · obtain ⟨h1, h2, h3⟩ := hpass (j + 1) (by omega) hlt
        rw [if_neg h1, if_neg (by simp [h2]), if_pos h3]
        exact ih (j + 1) hlt (by omega) (fun i hi => hpass i (by omega))

/-! ## The invariant -/

/-- The first slots of the walk of `k`, up to the `m`-th, are not unused. -/
def HTab.Passed (t : HTab) (k : CStr) (m : Nat) : Prop := ∀ j < m, (t.table (t.path k j)).used ≠ 0

/-- What holds of every table that is created and then only changed by calls. -/
structure HTab.Inv (t : HTab) : Prop where
  size : GoodSize t.size
  used : ∀ i, 1 ≤ i → i ≤ t.size → -1 ≤ (t.table i).used
  entry : ∀ i, t.LiveAt i → ∃ k v, (t.table i).key = some k ∧ (t.table i).data = some v ∧
    (t.table i).used = (hval t.size k : Int) ∧ ∃ m < t.size, t.path k m = i ∧ t.Passed k m
  unique : ∀ i j, t.LiveAt i → t.LiveAt j → (t.table i).key = (t.table j).key → i = j
  zero : (t.table 0).used = 0
  single : t.size = 1 → t.filled = t.liveCount

/-- A slot whose `used` and key match the searched key holds an entry with this key. -/
theorem live_of_holds {t : HTab} {i : Nat} {k : CStr} (hi : 1 ≤ i ∧ i ≤ t.size)
    (h : (t.table i).holds (hval t.size k) k = true) : t.LiveAt i ∧ (t.table i).key = some k := by
  simp only [Slot.holds, Bool.and_eq_true, beq_iff_eq] at h
  have := hval_pos t.size k
  exact ⟨⟨hi.1, hi.2, by omega⟩, h.2⟩

theorem HTab.Inv.holds_of_live {t : HTab} (hinv : t.Inv) {i : Nat} {k : CStr} (hl : t.LiveAt i)
    (hk : (t.table i).key = some k) : (t.table i).holds (hval t.size k) k = true := by
  obtain ⟨k', v, hk', _, hu, _⟩ := hinv.entry i hl
  rw [hk] at hk'
  cases hk'
  simp [Slot.holds, hu, hk]

/-! ## What a search does -/

/-- A key that is in the table is found in its slot. -/
theorem hsearchR_of_live {t : HTab} (hinv : t.Inv) {i : Nat} {k : CStr} (hl : t.LiveAt i)
    (hk : (t.table i).key = some k) (mem : DupMem) (data : Option CStr) (action : Action) :
    hsearchR mem ⟨k, data⟩ action t = some (useEntry mem ⟨k, data⟩ action t i) := by
  have hholds := hinv.holds_of_live hl hk
  obtain ⟨k', v, hk', _, hu, m, hm, hpath, hpassed⟩ := hinv.entry i hl
  rw [hk] at hk'
  cases hk'
  cases m with
  | zero =>
      have hi : hval t.size k = i := hpath
      have hne : (t.table i).used ≠ 0 := by have := hl.2.2; omega
      simp only [hsearchR, hi]
      rw [hi] at hholds
      simp [hne, hholds]
  | succ m =>
      rcases hinv.size with h1 | ⟨hp, h5, hlt⟩
      · omega
      · have hother : ∀ j < m + 1, (t.table (t.path k j)).holds (hval t.size k) k = false := by
          intro j hj
          by_contra hh
          have hh' := live_of_holds (path_mem h5 hlt k j) (by simpa using hh)
          have he := hinv.unique _ _ hh'.1 hl (hh'.2.trans hk.symm)
          have := path_inj h5 hlt k hp (by omega) hm (he.trans hpath.symm)
          omega
        have h0 : (t.table (hval t.size k)).used ≠ 0 := hpassed 0 (by omega)
        have h0' : (t.table (hval t.size k)).holds (hval t.size k) k = false := hother 0 (by omega)
        have hne := path_ne_start h5 hlt k hp (Nat.succ_pos m) hm
        have hloop := probeLoop_of_stop (t := t) (k := k) (m := m + 1) t.size 0 (by omega) (by omega)
          (fun j hj hjm => ⟨path_ne_start h5 hlt k hp hj (by omega), hother j hjm, hpassed j hjm⟩)
          (Or.inr (Or.inl (by rw [hpath]; exact hholds)))
        have hstart : t.path k 0 = hval t.size k := rfl
        rw [hpath, hstart, if_pos ⟨by rw [← hpath]; exact hne, hholds⟩] at hloop
        simp [hsearchR, h0, h0', hloop]

/-- Where a new entry goes: the first unused slot of the walk of its key, or else the first slot of the
walk. That one is either deleted, or holds an entry while no slot is unused any more. -/
def HTab.Target (t : HTab) (k : CStr) (i : Nat) : Prop :=
  ∃ m < t.size, t.path k m = i ∧ t.Passed k m ∧ ((t.table i).used = 0 ∨
    (m = 0 ∧ ((t.table i).used = -1 ∨ (t.LiveAt i ∧ ¬ t.HasUnused))))

theorem HTab.Inv.start_mem {t : HTab} (hinv : t.Inv) (k : CStr) :
    1 ≤ hval t.size k ∧ hval t.size k ≤ t.size := by
  refine ⟨hval_pos _ _, ?_⟩
  rcases hinv.size with h1 | ⟨_, h5, _⟩
  · rw [h1, hval_one]
  · exact (hval_lt h5 k).le

/-- The first slot of the walk is a target when it is free. -/
theorem HTab.Inv.target_start {t : HTab} (hinv : t.Inv) {k : CStr}
    (h : (t.table (hval t.size k)).used = 0 ∨ (t.table (hval t.size k)).used = -1) :
    t.Target k (hval t.size k) :=
  ⟨0, hinv.size.pos, rfl, fun j hj => by omega, h.imp id fun h => ⟨rfl, Or.inl h⟩⟩

/-- The search for a key that is not in the table, once its first slot is taken, ends at a target. -/
theorem probeLoop_of_not_live {t : HTab} (hp : Nat.Prime t.size) (h5 : 5 ≤ t.size)
    (hlt : t.size < 2 ^ 31) {k : CStr} (hk : ¬ t.Live k) (h0 : (t.table (hval t.size k)).used ≠ 0) :
    ∃ i, probeLoop t k (hval t.size k) (hval2 t.size (hval t.size k)) t.size (hval t.size k) =
      some (.free i) ∧ (t.LiveAt (hval t.size k) → t.Target k i) := by
  classical
  have hnh : ∀ j, (t.table (t.path k j)).holds (hval t.size k) k = false := by
    intro j
    by_contra hh
    exact hk ⟨_, live_of_holds (path_mem h5 hlt k j) (by simpa using hh)⟩
  -- the first place after the start where the loop stops
  have hex : ∃ m, 0 < m ∧ (t.path k m = hval t.size k ∨ (t.table (t.path k m)).used = 0) :=
    ⟨t.size, by omega, Or.inl (path_period h5 hlt k)⟩
  obtain ⟨hm0, hmstop⟩ := Nat.find_spec hex
  have hmle : Nat.find hex ≤ t.size := Nat.find_min' hex ⟨by omega, Or.inl (path_period h5 hlt k)⟩
  have hmin : ∀ j, 0 < j → j < Nat.find hex →
      t.path k j ≠ hval t.size k ∧ (t.table (t.path k j)).used ≠ 0 := by
    intro j hj hjm
    have := Nat.find_min hex hjm
    exact ⟨fun h => this ⟨hj, Or.inl h⟩, fun h => this ⟨hj, Or.inr h⟩⟩
  generalize Nat.find hex = m at *
  have hpassed : t.Passed k m := by
    intro j hj
    rcases Nat.eq_zero_or_pos j with rfl | hj0
    · exact h0
    · exact (hmin j hj0 hj).2
  have hloop := probeLoop_of_stop (t := t) (k := k) (m := m) t.size 0 hm0 (by omega)
    (fun j hj hjm => ⟨(hmin j hj hjm).1, hnh j, (hmin j hj hjm).2⟩)
    (hmstop.imp id Or.inr)
  rw [if_neg (by simp [hnh m])] at hloop
  refine ⟨t.path k m, hloop, fun hlive => ?_⟩
  rcases Nat.lt_or_ge m t.size with hml | hmg
  · have hu := hmstop.resolve_left (path_ne_start h5 hlt k hp hm0 hml)
    exact ⟨m, hml, rfl, hpassed, Or.inl hu⟩
  · -- the walk came back to its start: no slot is unused
    have hmn : m = t.size := by omega
    have hback : t.path k m = t.path k 0 := by rw [hmn]; exact path_period h5 hlt k
    refine ⟨0, by omega, hback.symm, fun j hj => by omega,
      Or.inr ⟨rfl, Or.inr ⟨by rw [hback]; exact hlive, ?_⟩⟩⟩
    rintro ⟨i, hi1, hin, hu⟩
    obtain ⟨j, hj, rfl⟩ := path_surj h5 hlt k hp ⟨hi1, hin⟩
    exact hpassed j (by omega) hu

/-- The only table in which the walk leaves `1..size`: slot zero is never used and ends it. -/
theorem probeLoop_single {t : HTab} (h1 : t.size = 1) (h0 : (t.table 0).used = 0) (k : CStr) :
    probeLoop t k 1 (hval2 1 1) 1 1 = some (.free 0) := by
  have hs : stepBack t.size (hval2 1 1) 1 = 0 := by rw [h1]; decide
  simp [probeLoop, hs, h0, Slot.holds]

theorem liveCount_single {t : HTab} (h1 : t.size = 1) :
    t.liveCount = if 0 < (t.table 1).used then 1 else 0 := by
  rw [HTab.liveCount, h1, Finset.Icc_self, Finset.filter_singleton]
  split <;> rfl

/-- A key that is not in the table: the search goes on to the code that makes a new entry, and with room
left the entry goes to a target. -/
theorem hsearchR_of_not_live {t : HTab} (hinv : t.Inv) {k : CStr} (hk : ¬ t.Live k) (mem : DupMem)
    (data : Option CStr) (action : Action) :
    ∃ fd idx, hsearchR mem ⟨k, data⟩ action t =
        some (enterEntry mem ⟨k, data⟩ action t (hval t.size k) fd idx) ∧
      (t.filled ≠ t.size → t.Target k (if fd ≠ 0 then fd else idx)) := by
  have hmem := hinv.start_mem k
  have hnh : (t.table (hval t.size k)).holds (hval t.size k) k = false := by
    by_contra hh
    exact hk ⟨_, live_of_holds hmem (by simpa using hh)⟩
  by_cases h0 : (t.table (hval t.size k)).used = 0
  · exact ⟨0, hval t.size k, by simp [hsearchR, h0], fun _ => hinv.target_start (Or.inl h0)⟩
  · have hcase : (t.table (hval t.size k)).used ≤ 0 ∨ t.LiveAt (hval t.size k) := by
      rcases lt_or_ge 0 (t.table (hval t.size k)).used with h | h
      · exact Or.inr ⟨hmem.1, hmem.2, h⟩
      · exact Or.inl h
    have hloop : ∃ i, probeLoop t k (hval t.size k) (hval2 t.size (hval t.size k)) t.size (hval t.size k) =
        some (.free i) ∧ (t.filled ≠ t.size → t.LiveAt (hval t.size k) → t.Target k i) := by
      rcases hinv.size with h1 | ⟨hp, h5, hlt⟩
      · -- a table of one slot: the loop looks at slot zero and stops there, but the table is full
        refine ⟨0, ?_, fun hfull hlive => absurd ?_ hfull⟩
        · rw [h1, hval_one]; exact probeLoop_single h1 hinv.zero k
        · rw [hinv.single h1, liveCount_single h1, h1]
          rw [h1, hval_one] at hlive
          exact if_pos hlive.2.2
      · obtain ⟨i, hi, ht⟩ := probeLoop_of_not_live hp h5 hlt hk h0
        exact ⟨i, hi, fun _ => ht⟩
    obtain ⟨i, hi, ht⟩ := hloop
    refine ⟨if (t.table (hval t.size k)).used = -1 then hval t.size k else 0, i,
      by simp [hsearchR, h0, hnh, hi], fun hfull => ?_⟩
    by_cases hdel : (t.table (hval t.size k)).used = -1
    · have hne : hval t.size k ≠ 0 := by omega
      simp only [hdel, if_true, ne_eq, hne, not_false_eq_true]
      exact hinv.target_start (Or.inr hdel)
    · simp only [hdel, if_false, ne_eq, not_true_eq_false]
      have := hinv.used _ hmem.1 hmem.2
      exact ht hfull (hcase.resolve_left (by omega))

end Uboot.Env
