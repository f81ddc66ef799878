import Uboot.Env.ImportBounds

/-!
# Iterating over the environment (`lib/hashtable.c`)

`hstrstr_r` and `hmatch_r` return the next slot behind the one they returned last. They look at the slots `1..size - 1`,
while the entries are in the slots `1..size`.
-/

namespace Uboot.Env

open Uboot.Lib

/-! ## The calls -/

/-- The return value, `*retval` as the index of the entry's slot, and `errno`. -/
structure MatchResult where
  ret : Nat
  retval : Option Nat
  errno : Option Errno
deriving DecidableEq, Repr

/-- `for (idx = last_idx + 1; idx < htab->size; ++idx)`, with the condition on the key and the value of an entry. -/
def nextMatch (cond : CStr → CStr → Bool) (lastIdx : Nat) (t : HTab) : MatchResult :=
  match (List.range' (lastIdx + 1) (t.size - (lastIdx + 1))).find? fun idx =>
      0 < (t.table idx).used && cond ((t.table idx).key.getD []) ((t.table idx).data.getD []) with
  | some idx => ⟨idx, some idx, none⟩
  | none => ⟨0, none, some .ESRCH⟩

/-- `strncmp` of `lib/string.c` -/
def strncmp : CStr → CStr → Nat → Int
  | _, _, 0 => 0
  | cs, ct, count + 1 =>
      let res := signedChar (cs.headD 0 - ct.headD 0)
      if res ≠ 0 ∨ cs.headD 0 = 0 then res else strncmp cs.tail ct.tail count

/-- `hstrstr_r` -/
def hstrstrR (pat : CStr) (lastIdx : Nat) (t : HTab) : MatchResult :=
  nextMatch (fun key data => (find pat key).isSome || (find pat data).isSome) lastIdx t

/-- `hmatch_r` -/
def hmatchR (pat : CStr) (lastIdx : Nat) (t : HTab) : MatchResult :=
  nextMatch (fun key _ => strncmp pat key pat.length = 0) lastIdx t

/-- `idx = last; while ((idx = next(idx))) …`: the indices until the first `0`. -/
def iterate (next : Nat → MatchResult) : Nat → Nat → Option (List Nat)
  | 0, _ => none
  | fuel + 1, last =>
      if (next last).ret = 0 then some []
      else (iterate next fuel (next last).ret).map ((next last).ret :: ·)

/-! ## What they look for -/

/-- One of the two functions. -/
inductive Search where
  | hstrstr | hmatch
deriving DecidableEq, Repr

def Search.next : Search → CStr → Nat → HTab → MatchResult
  | .hstrstr => hstrstrR
  | .hmatch => hmatchR

/-- The entries that are wanted: those whose key or value contains the pattern, or those whose key begins with it. -/
def Search.Wants : Search → CStr → CStr → CStr → Prop
  | .hstrstr, pat, k, v => pat <:+: k ∨ pat <:+: v
  | .hmatch, pat, k, _ => pat <+: k

/-- The slot holds a wanted entry. -/
def HTab.WantedAt (t : HTab) (f : Search) (pat : CStr) (i : Nat) : Prop :=
  t.LiveAt i ∧ ∃ k v, (t.table i).key = some k ∧ (t.table i).data = some v ∧ f.Wants pat k v

/-- The iteration from `0` ends, and returns every wanted entry once and nothing else. -/
def HTab.IteratesAll (t : HTab) (f : Search) (pat : CStr) : Prop :=
  ∃ idxs, iterate (fun last => f.next pat last t) (t.size + 1) 0 = some idxs ∧ idxs.Nodup ∧
    ∀ i, i ∈ idxs ↔ t.WantedAt f pat i

theorem signedChar_sub_eq_zero {c d : UInt8} : signedChar (c - d) = 0 ↔ c = d := by
  have hc := c.toNat_lt
  have hd := d.toNat_lt
  rw [← UInt8.toNat_inj, signedChar, UInt8.toNat_sub]
  split <;> omega

/-- For a C string, which has no byte `0`. -/
theorem strncmp_eq_zero_iff {pat : CStr} (hpat : (0 : UInt8) ∉ pat) (k : CStr) :
    strncmp pat k pat.length = 0 ↔ pat <+: k := by
  induction pat generalizing k with
  | nil => simp [strncmp]
  | cons c pat ih =>
    have hc : c ≠ 0 := fun h => hpat (h ▸ List.mem_cons_self)
    have hrest : (0 : UInt8) ∉ pat := fun h => hpat (List.mem_cons_of_mem c h)
    simp only [List.length_cons, strncmp, List.headD_cons, List.tail_cons, hc, or_false]
    cases k with
    | nil =>
      have hres : signedChar (c - List.headD [] 0) ≠ 0 := fun h => hc (signedChar_sub_eq_zero.mp h)
      rw [if_pos hres]
      exact iff_of_false hres (by simp)
    | cons d k =>
      rw [List.headD_cons, List.tail_cons, List.cons_prefix_cons, ← ih hrest]
      by_cases hcd : c = d
      · rw [if_neg (not_not_intro (signedChar_sub_eq_zero.mpr hcd))]
        simp [hcd]
      · have hres : signedChar (c - d) ≠ 0 := fun h => hcd (signedChar_sub_eq_zero.mp h)
        rw [if_pos hres]
        simp [hres, hcd]

/-- The condition of a function on a key and a value. -/
def Search.cond : Search → CStr → CStr → CStr → Bool
  | .hstrstr, pat, key, data => (find pat key).isSome || (find pat data).isSome
  | .hmatch, pat, key, _ => strncmp pat key pat.length = 0

theorem Search.next_eq (f : Search) (pat : CStr) (last : Nat) (t : HTab) :
    f.next pat last t = nextMatch (f.cond pat) last t := by
  cases f <;> rfl

theorem Search.cond_iff (f : Search) {pat : CStr} (hpat : (0 : UInt8) ∉ pat) (k v : CStr) :
    f.cond pat k v = true ↔ f.Wants pat k v := by
  cases f with
  | hstrstr => simp [Search.cond, Search.Wants, find_isSome_iff]
  | hmatch => simp [Search.cond, Search.Wants, strncmp_eq_zero_iff hpat]

/-! ## The iteration -/

section
variable {t : HTab} {cond : CStr → CStr → Bool} {last : Nat}

/-- The test in the loop. -/
def HTab.hit (t : HTab) (cond : CStr → CStr → Bool) (idx : Nat) : Bool :=
  0 < (t.table idx).used && cond ((t.table idx).key.getD []) ((t.table idx).data.getD [])

/-- The slots behind `last` that the loop can return. -/
def HTab.hits (t : HTab) (cond : CStr → CStr → Bool) (last : Nat) : List Nat :=
  (List.range' (last + 1) (t.size - (last + 1))).filter (t.hit cond)

theorem nextMatch_ret : (nextMatch cond last t).ret = (t.hits cond last).headD 0 := by
  have hfind : (List.range' (last + 1) (t.size - (last + 1))).find? (t.hit cond) = (t.hits cond last).head? :=
    List.head?_filter.symm
  rw [nextMatch]
  change (match (List.range' (last + 1) (t.size - (last + 1))).find? (t.hit cond) with
    | some idx => MatchResult.mk idx (some idx) none
    | none => ⟨0, none, some .ESRCH⟩).ret = _
  rw [hfind]
  cases t.hits cond last with
  | nil => rfl
  | cons i l => rfl

theorem filter_range'_tail {p : Nat → Bool} {a n i : Nat} {l : List Nat} (h : (List.range' a n).filter p = i :: l) :
    l = (List.range' (i + 1) (a + n - (i + 1))).filter p := by
  induction n generalizing a with
  | zero => cases h
  | succ n ih =>
    rw [List.range'_succ, List.filter_cons] at h
    by_cases hp : p a = true
    · rw [if_pos hp] at h
      obtain ⟨rfl, rfl⟩ := List.cons.inj h
      rw [show a + (n + 1) - (a + 1) = n by omega]
    · rw [if_neg hp] at h
      rw [ih h, show a + 1 + n = a + (n + 1) by omega]

/-- A call with the index returned last goes on behind it. -/
theorem hits_cons {i : Nat} {l : List Nat} (h : t.hits cond last = i :: l) : 0 < i ∧ l = t.hits cond i := by
  have hmem : i ∈ t.hits cond last := by rw [h]; exact List.mem_cons_self
  have hrange := List.mem_range'_1.mp (List.mem_of_mem_filter hmem)
  refine ⟨by omega, ?_⟩
  rw [filter_range'_tail h, HTab.hits, show last + 1 + (t.size - (last + 1)) = t.size by omega]

theorem iterate_eq (f : Search) (pat : CStr) {fuel : Nat} (hf : (t.hits (f.cond pat) last).length < fuel) :
    iterate (fun last => f.next pat last t) fuel last = some (t.hits (f.cond pat) last) := by
  induction hl : t.hits (f.cond pat) last generalizing last fuel with
  | nil =>
    cases fuel with
    | zero => cases hf
    | succ fuel => simp [iterate, Search.next_eq, nextMatch_ret, hl]
  | cons i l ih =>
    cases fuel with
    | zero => cases hf
    | succ fuel =>
      obtain ⟨hpos, htail⟩ := hits_cons hl
      rw [hl, List.length_cons] at hf
      have hrest := @ih i fuel (by rw [← htail]; omega) htail.symm
      have hret : (f.next pat last t).ret = i := by rw [Search.next_eq, nextMatch_ret, hl]; rfl
      simp only [iterate, hret, hrest, Nat.ne_of_gt hpos, if_false, Option.map_some]

end

section
variable {t : HTab} {f : Search} {pat : CStr}

theorem mem_hits_iff (hinv : t.Inv) (hpat : (0 : UInt8) ∉ pat) (i : Nat) :
    i ∈ t.hits (f.cond pat) 0 ↔ t.WantedAt f pat i ∧ i ≠ t.size := by
  have hhit : t.LiveAt i → (t.hit (f.cond pat) i = true ↔
      ∃ k v, (t.table i).key = some k ∧ (t.table i).data = some v ∧ f.Wants pat k v) := by
    intro hl
    obtain ⟨k, v, hk, hv, -⟩ := hinv.entry i hl
    simp [HTab.hit, hl.2.2, hk, hv, f.cond_iff hpat]
  rw [HTab.hits, List.mem_filter, List.mem_range'_1, HTab.WantedAt]
  constructor
  · rintro ⟨hi, hp⟩
    have hused : 0 < (t.table i).used := by
      simp only [HTab.hit, Bool.and_eq_true, decide_eq_true_eq] at hp
      exact hp.1
    have hl : t.LiveAt i := ⟨by omega, by omega, hused⟩
    exact ⟨⟨hl, (hhit hl).mp hp⟩, by omega⟩
  · rintro ⟨⟨hl, hw⟩, hne⟩
    have hle := hl.2.1
    exact ⟨⟨by have := hl.1; omega, by omega⟩, (hhit hl).mpr hw⟩

/-- The iteration misses the entry in the last slot, and nothing else. -/
theorem iteratesAll_iff (hinv : t.Inv) (hpat : (0 : UInt8) ∉ pat) :
    t.IteratesAll f pat ↔ ¬ t.WantedAt f pat t.size := by
  have hlen : (t.hits (f.cond pat) 0).length < t.size + 1 := by
    have h := List.length_filter_le (t.hit (f.cond pat)) (List.range' (0 + 1) (t.size - (0 + 1)))
    rw [List.length_range'] at h
    rw [HTab.hits]
    omega
  have heq := iterate_eq f pat hlen
  constructor
  · rintro ⟨idxs, hidxs, -, hmem⟩ hlast
    rw [heq] at hidxs
    cases hidxs
    exact ((mem_hits_iff hinv hpat t.size).mp ((hmem t.size).mpr hlast)).2 rfl
  · intro hlast
    refine ⟨_, heq, List.Nodup.filter _ List.nodup_range', fun i => ?_⟩
    rw [mem_hits_iff hinv hpat]
    refine and_iff_left_of_imp ?_
    rintro hw rfl
    exact hlast hw

end

/-- In every table that calls have made, the iteration is complete unless the last slot holds a wanted entry. -/
theorem iteration_complete_iff {t : HTab} (ht : t.Reachable) (f : Search) {pat : CStr} (hpat : (0 : UInt8) ∉ pat) :
    t.IteratesAll f pat ↔ ¬ t.WantedAt f pat t.size :=
  iteratesAll_iff ht.inv hpat

/-- Four entries; the search for the last one of them passes three slots and takes the slot `5`. -/
def lastSlotOps : List Op := [.enter [98] [49], .enter [101] [49], .enter [99] [49], .enter [100] [49]]

theorem iteration_complete_example : ∃ t₀, hcreateR 2 none = some t₀ ∧ (t₀.run lastSlotOps).IteratesAll .hmatch [98] := by
  refine ⟨_, hcreateR_two, (iteration_complete_iff ⟨2, _, lastSlotOps, hcreateR_two, rfl⟩ .hmatch (by decide)).mpr ?_⟩
  rintro ⟨-, k, v, hk, -, hpre⟩
  obtain rfl : [100] = k := Option.some.inj (hk.symm.trans (by decide)).symm
  revert hpre
  simp [Search.Wants]

/-- `d` is in the table, and neither function ever returns it. -/
theorem iteration_misses_last_slot : ∃ t₀, hcreateR 2 none = some t₀ ∧ (t₀.run lastSlotOps).Binds [100] [49] ∧
    iterate (fun last => hmatchR [100] last (t₀.run lastSlotOps)) 6 0 = some [] ∧
    iterate (fun last => hstrstrR [100] last (t₀.run lastSlotOps)) 6 0 = some [] ∧
    ∀ f, ¬ (t₀.run lastSlotOps).IteratesAll f [100] := by
  refine ⟨_, hcreateR_two, ⟨5, by decide, by decide⟩, by decide, by decide, ?_⟩
  intro f
  rw [iteratesAll_iff ((inv_of_hcreateR hcreateR_two).1.run lastSlotOps) (by decide), not_not]
  refine ⟨by decide, [100], [49], by decide, by decide, ?_⟩
  cases f with
  | hstrstr => exact .inl (List.infix_refl _)
  | hmatch => exact List.prefix_refl _

end Uboot.Env
