import Uboot.FwEnv.Open
import Uboot.Lib.Strings

/-!
# Setting a variable in the block (`fw_env_write`)

An old definition is cut out by shifting what follows, and the new one goes to the end. When it does not fit there the old
one is gone. An access outside of the block makes a call `none`.
-/

namespace Uboot.FwEnv

open Lib Env

/-- Bytes are stored one after another. -/
def store (data : List UInt8) (i : Nat) (bytes : List UInt8) : Option (List UInt8) :=
  if i + bytes.length ≤ data.length then some (data.take i ++ bytes ++ data.drop (i + bytes.length)) else none

/-- The search ends at an entry, from `env` to its NUL at `nxt`, or without one. -/
inductive Search where
  | found (env nxt : Nat)
  | missing
  | unterminated
deriving DecidableEq

/-- `for (nxt = env = environment.data; *env; env = nxt + 1)` -/
def searchLoop (data : List UInt8) (name : CStr) : Nat → Nat → Option Search
  | 0, _ => none
  | fuel + 1, env => do
      if (← data[env]?) = 0 then some .missing
      else
        match ← findEnd data data.length (data.length + 1) env with
        | none => some .unterminated
        | some nxt =>
            match ← envmatch data (name ++ [0]) env with
            | some _ => some (.found env nxt)
            | none => searchLoop data name fuel (nxt + 1)

/-- The loop that shifts what follows the entry; it ends with `env` at the last byte. -/
def shiftLoop : Nat → List UInt8 → Nat → Nat → Option (List UInt8 × Nat)
  | 0, _, _, _ => none
  | fuel + 1, data, env, nxt => do
      let c ← data[nxt]?
      let data ← store data env [c]
      let d ← data[nxt + 1]?
      if c = 0 ∧ d = 0 then some (data, env) else shiftLoop fuel data (env + 1) (nxt + 1)

/-- "Delete any existing definition" -/
def deleteEntry (data : List UInt8) (env nxt : Nat) : Option (List UInt8) := do
  let c ← data[nxt + 1]?
  if c = 0 then store (← store data env [0]) (env + 1) [0]
  else
    let (data, env) ← shiftLoop data.length data env (nxt + 1)
    store data (env + 1) [0]

/-- `for (env = environment.data; *env || *(env + 1); ++env)` -/
def endLoop (data : List UInt8) : Nat → Nat → Option Nat
  | 0, _ => none
  | fuel + 1, env => do
      let c ← data[env]?
      if c ≠ 0 then endLoop data fuel (env + 1)
      else
        let d ← data[env + 1]?
        if d ≠ 0 then endLoop data fuel (env + 1) else some env

/-- Why -1 is returned: `EINVAL`, `EROFS`, and no room for the new definition. -/
inductive WriteError where
  | notTerminated
  | readOnly
  | overflow
deriving DecidableEq

/-- "Append new definition at the end" -/
def append (data : List UInt8) (name value : CStr) : Option (Except WriteError Unit × List UInt8) := do
  let e ← endLoop data data.length 0
  let env := if 0 < e then e + 1 else e
  let len := name.length + 2 + (value.length + 1)
  if data.length - env < len then some (.error .overflow, data)
  else
    let data ← store data env (name ++ [0])
    let data ← store data (env + name.length) [61]
    let data ← store data (env + name.length + 1) (value ++ [0])
    let data ← store data (env + name.length + 1 + value.length + 1) [0]
    some (.ok (), data)

def serial : CStr := ascii "serial#"

def ethaddr : CStr := ascii "ethaddr"

/-- `fw_env_write`; `overwrite` is `CONFIG_ENV_OVERWRITE`, and `value` is none for `NULL`. -/
def fwEnvWrite (overwrite : Bool) (data : List UInt8) (name : CStr) (value : Option CStr) :
    Option (Except WriteError Unit × List UInt8) := do
  match ← searchLoop data name (data.length + 1) 0 with
  | .unterminated => some (.error .notTerminated, data)
  | .missing => if value.getD [] = [] then some (.ok (), data) else append data name (value.getD [])
  | .found env nxt =>
      if overwrite = false ∧ (name = serial ∨ name = ethaddr) then some (.error .readOnly, data)
      else
        let data ← deleteEntry data env nxt
        if value.getD [] = [] then some (.ok (), data) else append data name (value.getD [])

/-! ## Blocks -/

def entryBytes (e : CStr × CStr) : List UInt8 := e.1 ++ 61 :: e.2 ++ [0]

/-- Entries with distinct names, and two NULs at the end. -/
structure Block (data : List UInt8) (entries : List (CStr × CStr)) : Prop where
  text : ∃ junk, data = entries.flatMap entryBytes ++ 0 :: junk ∧ (entries = [] → junk.head? = some 0)
  ok : ∀ e ∈ entries, EntryOk e
  nodup : (entries.map Prod.fst).Nodup

/-- The new block has the value under the name, or nothing when it is empty, and the other variables as before. -/
def Updates (data data' : List UInt8) (entries : List (CStr × CStr)) (name value : CStr) : Prop :=
  data'.length = data.length ∧ ∃ entries', Block data' entries' ∧
    ∀ k v, (k, v) ∈ entries' ↔ if k = name then v = value ∧ v ≠ [] else (k, v) ∈ entries

/-! ## Stores -/

section
variable {pre mid bytes rest junk gap s t data : List UInt8} {entries : List (CStr × CStr)} {name value k v : CStr} {fuel : Nat}

theorem store_append (h : mid.length = bytes.length) :
    store (pre ++ (mid ++ rest)) pre.length bytes = some (pre ++ (bytes ++ rest)) := by
  have hfit : pre.length + bytes.length ≤ (pre ++ (mid ++ rest)).length := by
    rw [List.length_append, List.length_append]
    omega
  rw [store, if_pos hfit, List.take_left, ← List.append_assoc pre mid, ← h, ← List.length_append, List.drop_left,
    List.append_assoc]

/-- Non-empty strings one after another, each with its NUL. -/
def Strings : List UInt8 → Prop
  | [] => False
  | [c] => c = 0
  | c :: d :: t => ¬(c = 0 ∧ d = 0) ∧ Strings (d :: t)

theorem Strings.ne_nil (h : Strings t) : t ≠ [] := by
  rintro rfl
  exact h

/-- A string before others, or before the end. -/
theorem strings_cons (hs : (0 : UInt8) ∉ s) (hne : s ≠ []) (ht : t = [] ∨ Strings t ∧ t.head? ≠ some 0) :
    Strings (s ++ 0 :: t) ∧ (s ++ 0 :: t).head? ≠ some 0 := by
  induction s with
  | nil => exact absurd rfl hne
  | cons c s ih =>
      obtain ⟨hc, hs⟩ := List.ne_and_not_mem_of_not_mem_cons hs
      refine ⟨?_, fun h => hc (Option.some.inj h).symm⟩
      cases s with
      | cons d s => exact ⟨fun h => hc h.1.symm, (ih hs (List.cons_ne_nil _ _)).1⟩
      | nil =>
          refine ⟨fun h => hc h.1.symm, ?_⟩
          rcases ht with rfl | ⟨hstr, hhead⟩
          · exact rfl
          · cases t with
            | nil => exact hstr.elim
            | cons d t => exact ⟨fun h => hhead (congrArg some h.2), hstr⟩

theorem strings_entries (hok : ∀ e ∈ entries, EntryOk e) (hne : entries ≠ []) :
    Strings (entries.flatMap entryBytes) ∧ (entries.flatMap entryBytes).head? ≠ some 0 := by
  induction entries with
  | nil => exact absurd rfl hne
  | cons e entries ih =>
      obtain ⟨-, h0, hv⟩ := hok e List.mem_cons_self
      have hbytes : entryBytes e ++ entries.flatMap entryBytes = (e.1 ++ 61 :: e.2) ++ 0 :: entries.flatMap entryBytes := by
        simp [entryBytes]
      rw [List.flatMap_cons, hbytes]
      refine strings_cons (by simp [h0, hv]) (by simp) ?_
      cases entries with
      | nil => exact .inl rfl
      | cons e' entries => exact .inr (ih (fun x hx => hok x (List.mem_cons_of_mem _ hx)) (List.cons_ne_nil _ _))

/-! ## The end of the block -/

/-- The first of the two NULs behind the strings is their last byte. -/
theorem endLoop_strings (h : Strings t) (hfuel : t.length ≤ fuel) :
    endLoop (pre ++ (t ++ 0 :: junk)) fuel pre.length = some (pre.length + t.length - 1) := by
  induction t generalizing pre fuel with
  | nil => exact h.elim
  | cons c t ih =>
      cases fuel with
      | zero => cases hfuel
      | succ fuel =>
          have hc : (pre ++ (c :: t ++ 0 :: junk))[pre.length]? = some c := by simp
          cases t with
          | nil =>
              obtain rfl : c = 0 := h
              have hd : (pre ++ ([0] ++ 0 :: junk))[pre.length + 1]? = some 0 := by
                rw [List.getElem?_append_right (by omega)]
                simp
              rw [endLoop, hc]
              simp
          | cons d t =>
              have hd : (pre ++ (c :: d :: t ++ 0 :: junk))[pre.length + 1]? = some d := by
                rw [List.getElem?_append_right (by omega)]
                simp
              have hnext : endLoop (pre ++ [c] ++ (d :: t ++ 0 :: junk)) fuel (pre ++ [c]).length =
                  some ((pre ++ [c]).length + (d :: t).length - 1) := ih h.2 (Nat.le_of_succ_le_succ hfuel)
              simp only [List.append_assoc, List.singleton_append, List.length_append, List.length_singleton] at hnext
              have hlast : pre.length + 1 + (d :: t).length - 1 = pre.length + (c :: d :: t).length - 1 := by
                simp only [List.length_cons]
                omega
              rw [hlast] at hnext
              rw [endLoop, hc]
              dsimp only [Option.bind_eq_bind, Option.bind_some]
              by_cases hzero : c = 0
              · rw [if_neg (not_not.mpr hzero), hd, Option.bind_some, if_pos fun hd0 => h.1 ⟨hzero, hd0⟩]
                exact hnext
              · rw [if_pos hzero]
                exact hnext

/-! ## Cutting out an entry -/

/-- The strings move down over the gap, which keeps its length. -/
theorem shiftLoop_strings (h : Strings t) (hgap : gap ≠ []) (hfuel : t.length ≤ fuel) :
    ∃ gap', gap'.length = gap.length ∧
      shiftLoop fuel (pre ++ (gap ++ (t ++ 0 :: junk))) pre.length (pre.length + gap.length) =
        some (pre ++ (t ++ (gap' ++ 0 :: junk)), pre.length + t.length - 1) := by
  induction t generalizing pre gap fuel with
  | nil => exact h.elim
  | cons c t ih =>
      obtain ⟨g, gs, rfl⟩ := List.exists_cons_of_ne_nil hgap
      cases fuel with
      | zero => cases hfuel
      | succ fuel =>
          have hc : (pre ++ (g :: gs ++ (c :: t ++ 0 :: junk)))[pre.length + (g :: gs).length]? = some c := by
            rw [List.getElem?_append_right (by omega), Nat.add_sub_cancel_left, List.getElem?_append_right le_rfl, Nat.sub_self]
            rfl
          have hstore : store (pre ++ (g :: gs ++ (c :: t ++ 0 :: junk))) pre.length [c] =
              some (pre ++ [c] ++ (gs ++ [c] ++ (t ++ 0 :: junk))) := by
            have hput : store (pre ++ ([g] ++ (gs ++ (c :: t ++ 0 :: junk)))) pre.length [c] =
                some (pre ++ ([c] ++ (gs ++ (c :: t ++ 0 :: junk)))) := store_append rfl
            simpa using hput
          have hd : (pre ++ [c] ++ (gs ++ [c] ++ (t ++ 0 :: junk)))[pre.length + (g :: gs).length + 1]? =
              some (t.headD 0) := by
            have hlen : pre.length + (g :: gs).length + 1 = (pre ++ [c] ++ (gs ++ [c])).length := by
              simp only [List.length_append, List.length_cons, List.length_nil]
              omega
            rw [← List.append_assoc, hlen, List.getElem?_append_right le_rfl, Nat.sub_self]
            cases t <;> rfl
          rw [shiftLoop, hc]
          dsimp only [Option.bind_eq_bind, Option.bind_some]
          rw [hstore]
          dsimp only [Option.bind_some]
          rw [hd]
          dsimp only [Option.bind_some]
          cases t with
          | nil =>
              obtain rfl : c = 0 := h
              refine ⟨gs ++ [0], by simp, ?_⟩
              simp
          | cons d t =>
              rw [List.headD_cons, if_neg h.1]
              have hgap' : gs ++ [c] ≠ [] := by simp
              obtain ⟨gap', hlen, hrun⟩ := @ih (pre ++ [c]) (gs ++ [c]) fuel h.2 hgap' (Nat.le_of_succ_le_succ hfuel)
              have henv : (pre ++ [c]).length = pre.length + 1 := by simp
              have hnxt : (pre ++ [c]).length + (gs ++ [c]).length = pre.length + (g :: gs).length + 1 := by
                simp only [List.length_append, List.length_cons, List.length_nil]
                omega
              rw [hnxt, henv] at hrun
              refine ⟨gap', hlen.trans (by simp), ?_⟩
              have hlast : pre.length + 1 + (d :: t).length - 1 = pre.length + (c :: d :: t).length - 1 := by
                simp only [List.length_cons]
                omega
              rw [hrun, hlast]
              simp

theorem entryBytes_length (e : CStr × CStr) : (entryBytes e).length = e.1.length + e.2.length + 2 := by
  simp only [entryBytes, List.length_append, List.length_cons, List.length_nil]
  omega

theorem length_le_flatMap (entries : List (CStr × CStr)) : entries.length ≤ (entries.flatMap entryBytes).length := by
  induction entries with
  | nil => exact le_rfl
  | cons e entries ih =>
      rw [List.flatMap_cons, List.length_append, List.length_cons, entryBytes_length]
      omega

/-- The entry is gone, and the two NULs stand behind what followed it. -/
theorem deleteEntry_spec {e : CStr × CStr} (ht : t = [] ∨ Strings t ∧ t.head? ≠ some 0) :
    ∃ junk', deleteEntry (pre ++ (entryBytes e ++ (t ++ 0 :: junk))) pre.length (pre.length + (entryBytes e).length - 1) =
      some (pre ++ (t ++ 0 :: junk')) ∧ (t = [] → junk'.head? = some 0) ∧
        junk'.length = (entryBytes e).length + junk.length := by
  obtain ⟨b, c, bs, hbytes⟩ : ∃ b c bs, entryBytes e = b :: c :: bs := by
    have hlen := entryBytes_length e
    rcases hb : entryBytes e with _ | ⟨b, _ | ⟨c, bs⟩⟩
    · rw [hb] at hlen
      cases hlen
    · rw [hb, List.length_singleton] at hlen
      omega
    · exact ⟨b, c, bs, rfl⟩
  have hlen : (entryBytes e).length = bs.length + 2 := by rw [hbytes]; rfl
  have hnext : (pre ++ (entryBytes e ++ (t ++ 0 :: junk)))[pre.length + (entryBytes e).length - 1 + 1]? = some (t.headD 0) := by
    have hidx : pre.length + (entryBytes e).length - 1 + 1 = (pre ++ entryBytes e).length := by
      rw [List.length_append]
      omega
    rw [hidx, ← List.append_assoc, List.getElem?_append_right le_rfl, Nat.sub_self]
    cases t <;> rfl
  rw [deleteEntry, hnext]
  dsimp only [Option.bind_eq_bind, Option.bind_some]
  rcases ht with rfl | ⟨hstr, hhead⟩
  · -- the last entry
    rw [List.headD_nil, if_pos rfl, hbytes]
    have hfirst : store (pre ++ ([b] ++ (c :: bs ++ 0 :: junk))) pre.length [0] =
        some (pre ++ ([0] ++ (c :: bs ++ 0 :: junk))) := store_append rfl
    have hsecond : store (pre ++ [0] ++ ([c] ++ (bs ++ 0 :: junk))) (pre ++ [0]).length [0] =
        some (pre ++ [0] ++ ([0] ++ (bs ++ 0 :: junk))) := store_append rfl
    simp only [List.append_assoc, List.cons_append, List.nil_append, List.length_append,
      List.length_singleton] at hfirst hsecond ⊢
    rw [hfirst, Option.bind_some, hsecond]
    exact ⟨0 :: (bs ++ 0 :: junk), rfl, fun _ => rfl, by simp; omega⟩
  · have hne : t.headD 0 ≠ 0 := by
      cases t with
      | nil => exact hstr.elim
      | cons d t => exact fun h => hhead (congrArg some h)
    have hfuel : t.length ≤ (pre ++ (entryBytes e ++ (t ++ 0 :: junk))).length := by
      simp only [List.length_append]
      omega
    have hgap : entryBytes e ≠ [] := by rw [hbytes]; simp
    obtain ⟨gap', hgap', hrun⟩ := @shiftLoop_strings pre junk (entryBytes e) t _ hstr hgap hfuel
    have hidx : pre.length + (entryBytes e).length - 1 + 1 = pre.length + (entryBytes e).length := by omega
    rw [if_neg hne, hidx, hrun]
    dsimp only [Option.bind_some]
    have hpos : 0 < t.length := List.length_pos_iff.mpr hstr.ne_nil
    obtain ⟨g, gs, rfl⟩ := List.exists_cons_of_ne_nil (List.ne_nil_of_length_eq_add_one (hgap'.trans hlen))
    have hput : store (pre ++ t ++ ([g] ++ (gs ++ 0 :: junk))) (pre ++ t).length [0] =
        some (pre ++ t ++ ([0] ++ (gs ++ 0 :: junk))) := store_append rfl
    have henv : pre.length + t.length - 1 + 1 = (pre ++ t).length := by
      rw [List.length_append]
      omega
    refine ⟨gs ++ 0 :: junk, ?_, fun h => absurd h hstr.ne_nil, ?_⟩
    · rw [henv]
      simpa using hput
    · rw [← hgap']
      simp
      omega

/-! ## The search -/

/-- One entry is passed, or is the one that is looked for. -/
theorem searchLoop_entry {k v rest : List UInt8} (h0 : (0 : UInt8) ∉ name) (h61 : (61 : UInt8) ∉ name)
    (hok : EntryOk (k, v)) (hdata : data = pre ++ (entryBytes (k, v) ++ rest)) :
    searchLoop data name (fuel + 1) pre.length =
      if k = name then some (.found pre.length (pre.length + (entryBytes (k, v)).length - 1))
      else searchLoop data name fuel (pre ++ entryBytes (k, v)).length := by
  obtain ⟨hk61, hk0, hv⟩ := hok
  have hs0 : (0 : UInt8) ∉ k ++ 61 :: v := by
    simp only [List.mem_append, List.mem_cons, not_or]
    exact ⟨hk0, by decide, hv⟩
  have hd : data = pre ++ (k ++ 61 :: v ++ 0 :: rest) := by
    rw [hdata]
    simp [entryBytes]
  have hd' : data = pre ++ (k ++ 61 :: (v ++ 0 :: rest)) := by
    rw [hd]
    simp
  obtain ⟨c, hc, hc0⟩ : ∃ c, data[pre.length]? = some c ∧ c ≠ 0 := by
    obtain ⟨c, s', hcs⟩ := List.exists_cons_of_ne_nil (show k ++ 61 :: v ≠ [] by simp)
    exact ⟨c, by simp [hd, hcs], fun h => hs0 (by simp [hcs, h])⟩
  have hbound : pre.length + (k ++ 61 :: v).length ≤ data.length := by
    rw [hd]
    simp
  have hfit : (k ++ 61 :: v).length < data.length + 1 := by omega
  have hend := findEnd_spec data.length hs0 hfit pre rest
  rw [← hd, if_pos (.inr hbound)] at hend
  have hmatch := envmatch_entry h61 h0 hk61 hk0 pre (v ++ 0 :: rest)
  rw [← hd'] at hmatch
  have hlen : (entryBytes (k, v)).length = (k ++ 61 :: v).length + 1 := by
    rw [entryBytes_length, List.length_append, List.length_cons, Nat.add_assoc]
    rfl
  rw [searchLoop, hc]
  dsimp only [Option.bind_eq_bind, Option.bind_some]
  rw [if_neg hc0, hend]
  dsimp only [Option.bind_some]
  rw [hmatch]
  dsimp only [Option.bind_some]
  by_cases hname : k = name
  · rw [if_pos hname, if_pos hname, hlen, ← Nat.add_assoc, Nat.add_sub_cancel]
  · have hpre : (pre ++ entryBytes (k, v)).length = pre.length + (k ++ 61 :: v).length + 1 := by
      rw [List.length_append, hlen, Nat.add_assoc]
    rw [if_neg hname, if_neg hname, hpre]

theorem searchLoop_spec (h0 : (0 : UInt8) ∉ name) (h61 : (61 : UInt8) ∉ name) (hok : ∀ e ∈ entries, EntryOk e)
    (hdata : data = pre ++ (entries.flatMap entryBytes ++ 0 :: junk)) (hfuel : entries.length < fuel) :
    (searchLoop data name fuel pre.length = some .missing ∧ name ∉ entries.map Prod.fst) ∨
      ∃ before v after, entries = before ++ (name, v) :: after ∧
        searchLoop data name fuel pre.length =
          some (.found (pre.length + (before.flatMap entryBytes).length)
            (pre.length + (before.flatMap entryBytes).length + (entryBytes (name, v)).length - 1)) := by
  induction entries generalizing pre fuel with
  | nil =>
      left
      cases fuel with
      | zero => cases hfuel
      | succ fuel =>
          have hhead : data[pre.length]? = some 0 := by simp [hdata]
          rw [searchLoop, hhead]
          exact ⟨rfl, by simp⟩
  | cons e entries ih =>
      obtain ⟨k, v⟩ := e
      have hd : data = pre ++ (entryBytes (k, v) ++ (entries.flatMap entryBytes ++ 0 :: junk)) := by
        rw [hdata, List.flatMap_cons, List.append_assoc]
      cases fuel with
      | zero => cases hfuel
      | succ fuel =>
          rw [searchLoop_entry h0 h61 (hok (k, v) List.mem_cons_self) hd]
          by_cases hname : k = name
          · right
            refine ⟨[], v, entries, by rw [hname, List.nil_append], ?_⟩
            rw [if_pos hname, List.flatMap_nil, List.length_nil, Nat.add_zero, ← hname]
          · rw [if_neg hname]
            have hmoved : data = pre ++ entryBytes (k, v) ++ (entries.flatMap entryBytes ++ 0 :: junk) := by
              rw [hd, List.append_assoc]
            rcases ih (fun e he => hok e (List.mem_cons_of_mem _ he)) hmoved (Nat.lt_of_succ_lt_succ hfuel) with
              ⟨hrun, hno⟩ | ⟨before, v', after, rfl, hrun⟩
            · left
              refine ⟨hrun, ?_⟩
              rw [List.map_cons, List.mem_cons, not_or]
              exact ⟨Ne.symm hname, hno⟩
            · right
              refine ⟨(k, v) :: before, v', after, rfl, ?_⟩
              have hsum : (pre ++ entryBytes (k, v)).length + (before.flatMap entryBytes).length =
                  pre.length + (((k, v) :: before).flatMap entryBytes).length := by
                simp only [List.flatMap_cons, List.length_append, Nat.add_assoc]
              rw [hrun, hsum]

/-! ## Appending -/

theorem split_at {l : List UInt8} {n : Nat} (h : n ≤ l.length) : ∃ a b, l = a ++ b ∧ a.length = n :=
  ⟨l.take n, l.drop n, (List.take_append_drop n l).symm, List.length_take_of_le h⟩

theorem endLoop_block (h : Block data entries) : ∃ e junk, endLoop data data.length 0 = some e ∧
    data = entries.flatMap entryBytes ++ 0 :: junk ∧ (entries = [] → junk.head? = some 0) ∧
      (if 0 < e then e + 1 else e) = (entries.flatMap entryBytes).length := by
  obtain ⟨junk, rfl, hempty⟩ := h.text
  rcases List.eq_nil_or_concat entries with rfl | ⟨_, _, hne⟩
  · obtain ⟨rest, rfl⟩ : ∃ rest, junk = 0 :: rest := by
      cases junk with
      | nil => cases hempty rfl
      | cons c rest => exact ⟨rest, congrArg (· :: rest) (Option.some.inj (hempty rfl))⟩
    exact ⟨0, 0 :: rest, rfl, rfl, hempty, rfl⟩
  · have hne : entries ≠ [] := by
      rw [hne]
      simp
    obtain ⟨hstr, -⟩ := strings_entries h.ok hne
    have hend := @endLoop_strings [] junk _ (entries.flatMap entryBytes ++ 0 :: junk).length hstr
      (by rw [List.length_append]; omega)
    rw [List.nil_append, List.length_nil, Nat.zero_add] at hend
    refine ⟨_, junk, hend, rfl, hempty, ?_⟩
    obtain ⟨e, es, rfl⟩ := List.exists_cons_of_ne_nil hne
    have hlen : 2 ≤ ((e :: es).flatMap entryBytes).length := by
      rw [List.flatMap_cons, List.length_append, entryBytes_length]
      omega
    rw [if_pos (by omega)]
    omega

/-- The new entry stands behind the other ones when there is room, and nothing is changed when there is none. -/
theorem append_spec (h : Block data entries) (hname : (0 : UInt8) ∉ name) (h61 : (61 : UInt8) ∉ name)
    (hvalue : (0 : UInt8) ∉ value) (hnew : name ∉ entries.map Prod.fst) :
    append data name value = some (.error .overflow, data) ∨
      ∃ data', append data name value = some (.ok (), data') ∧ data'.length = data.length ∧
        Block data' (entries ++ [(name, value)]) := by
  obtain ⟨e, junk, hend, hdata, hempty, henv⟩ := endLoop_block h
  rw [append, hend]
  dsimp only [Option.bind_eq_bind, Option.bind_some]
  rw [henv]
  split
  next => exact .inl rfl
  next hroom =>
    right
    set t := entries.flatMap entryBytes with ht
    have hlen : data.length = t.length + (junk.length + 1) := by rw [hdata, List.length_append, List.length_cons]
    -- the room for the name, for the value and for the last NUL
    obtain ⟨a, l₁, hl, ha⟩ := split_at (show name.length + 1 ≤ (0 :: junk).length by rw [List.length_cons]; omega)
    have hsize₁ := congrArg List.length hl
    rw [List.length_append, List.length_cons] at hsize₁
    obtain ⟨b, l₂, rfl, hb⟩ := split_at (show value.length + 1 ≤ l₁.length by omega)
    rw [List.length_append] at hsize₁
    obtain ⟨c, rest, rfl, hc⟩ := split_at (show 1 ≤ l₂.length by omega)
    have hput₁ : store (t ++ (a ++ (b ++ (c ++ rest)))) t.length (name ++ [0]) =
        some (t ++ (name ++ [0] ++ (b ++ (c ++ rest)))) := store_append (by rw [ha, List.length_append, List.length_singleton])
    have hput₂ : store (t ++ name ++ ([0] ++ (b ++ (c ++ rest)))) (t ++ name).length [61] =
        some (t ++ name ++ ([61] ++ (b ++ (c ++ rest)))) := store_append rfl
    have hput₃ : store (t ++ name ++ [61] ++ (b ++ (c ++ rest))) (t ++ name ++ [61]).length (value ++ [0]) =
        some (t ++ name ++ [61] ++ (value ++ [0] ++ (c ++ rest))) :=
      store_append (by rw [hb, List.length_append, List.length_singleton])
    have hput₄ : store (t ++ name ++ [61] ++ (value ++ [0]) ++ (c ++ rest)) (t ++ name ++ [61] ++ (value ++ [0])).length [0] =
        some (t ++ name ++ [61] ++ (value ++ [0]) ++ ([0] ++ rest)) := store_append hc
    simp only [List.append_assoc, List.length_append, List.length_singleton] at hput₁ hput₂ hput₃ hput₄
    have htext : (entries ++ [(name, value)]).flatMap entryBytes ++ 0 :: rest =
        t ++ (name ++ ([61] ++ (value ++ ([0] ++ ([0] ++ rest))))) := by
      rw [List.flatMap_append, List.flatMap_singleton, ← ht, entryBytes]
      simp
    refine ⟨(entries ++ [(name, value)]).flatMap entryBytes ++ 0 :: rest, ?_, ?_, ⟨rest, rfl, fun h => by simp at h⟩, ?_, ?_⟩
    · rw [hdata, hl, htext]
      simp only [Nat.add_assoc]
      rw [hput₁]
      dsimp only [Option.bind_some]
      rw [hput₂]
      dsimp only [Option.bind_some]
      rw [hput₃]
      dsimp only [Option.bind_some]
      rw [hput₄]
      rfl
    · rw [htext, hdata, hl]
      simp only [List.length_append, List.length_singleton, ha, hb, hc]
      omega
    · intro e he
      rcases List.mem_append.mp he with he | he
      · exact h.ok e he
      · rw [List.mem_singleton.mp he]
        exact ⟨h61, hname, hvalue⟩
    · rw [List.map_append, List.map_singleton, List.nodup_append]
      refine ⟨h.nodup, List.nodup_singleton _, fun k hk k' hk' => ?_⟩
      rw [List.mem_singleton.mp hk']
      rintro rfl
      exact hnew hk

/-! ## Setting a variable -/

/-- Without the entry of the name. -/
theorem Block.delete {before after : List (CStr × CStr)} (h : Block data (before ++ (name, v) :: after)) :
    ∃ data', deleteEntry data (before.flatMap entryBytes).length
        ((before.flatMap entryBytes).length + (entryBytes (name, v)).length - 1) = some data' ∧
      data'.length = data.length ∧ Block data' (before ++ after) ∧ name ∉ (before ++ after).map Prod.fst := by
  obtain ⟨junk, rfl, -⟩ := h.text
  have hnodup := h.nodup
  rw [List.map_append, List.map_cons] at hnodup
  obtain ⟨hnot, hnodup'⟩ := List.nodup_middle.mp hnodup |> List.nodup_cons.mp
  have hok : ∀ e ∈ before ++ after, EntryOk e := by
    intro e he
    refine h.ok e ?_
    rcases List.mem_append.mp he with he | he
    · exact List.mem_append_left _ he
    · exact List.mem_append_right _ (List.mem_cons_of_mem _ he)
  have ht : after.flatMap entryBytes = [] ∨
      Strings (after.flatMap entryBytes) ∧ (after.flatMap entryBytes).head? ≠ some 0 := by
    cases after with
    | nil => exact .inl rfl
    | cons e after =>
        exact .inr (strings_entries (fun x hx => hok x (List.mem_append_right _ hx)) (List.cons_ne_nil _ _))
  obtain ⟨junk', hrun, hempty, hlen⟩ := @deleteEntry_spec (before.flatMap entryBytes) junk _ (name, v) ht
  have hdata : (before ++ (name, v) :: after).flatMap entryBytes ++ 0 :: junk =
      before.flatMap entryBytes ++ (entryBytes (name, v) ++ (after.flatMap entryBytes ++ 0 :: junk)) := by simp
  rw [hdata]
  refine ⟨_, hrun, ?_, ⟨⟨junk', by simp, fun hnil => ?_⟩, hok, ?_⟩, ?_⟩
  · simp only [List.length_append, List.length_cons, hlen]
    omega
  · exact hempty (by rw [(List.append_eq_nil_iff.mp hnil).2]; rfl)
  · rwa [List.map_append]
  · rwa [List.map_append]

theorem Block.mem_iff {before after : List (CStr × CStr)} (hnot : name ∉ (before ++ after).map Prod.fst) :
    (k, v) ∈ before ++ after ↔ k ≠ name ∧ (k, v) ∈ before ++ (name, value) :: after := by
  have hmem : (k, v) ∈ before ++ (name, value) :: after ↔ (k, v) = (name, value) ∨ (k, v) ∈ before ++ after := by
    rw [List.mem_append, List.mem_cons, List.mem_append]
    tauto
  rw [hmem]
  constructor
  · intro h
    refine ⟨?_, .inr h⟩
    rintro rfl
    exact hnot (List.mem_map_of_mem (f := Prod.fst) h)
  · rintro ⟨hne, h | h⟩
    · exact absurd (Prod.mk.inj h).1 hne
    · exact h

/-- With the value at the end, when there is room and it is not empty. -/
theorem finish_spec {entries' : List (CStr × CStr)} {data₀ : List UInt8} (h : Block data entries')
    (hlen : data.length = data₀.length) (hnot : name ∉ entries'.map Prod.fst)
    (hothers : ∀ k v, (k, v) ∈ entries' ↔ k ≠ name ∧ (k, v) ∈ entries) (hname : (0 : UInt8) ∉ name)
    (h61 : (61 : UInt8) ∉ name) (hvalue : (0 : UInt8) ∉ value) :
    ∃ ret data', (if value = [] then some (.ok (), data) else append data name value) = some (ret, data') ∧
      (ret = .ok () ∧ Updates data₀ data' entries name value ∨ ret = .error .overflow ∧ data' = data) := by
  by_cases hempty : value = []
  · refine ⟨.ok (), data, if_pos hempty, .inl ⟨rfl, hlen, entries', h, fun k v => ?_⟩⟩
    rw [hothers, hempty]
    split
    next heq => simp [heq]
    next hne => simp [hne]
  · rw [if_neg hempty]
    rcases append_spec h hname h61 hvalue hnot with hfull | ⟨data', hrun, hlen', hblock⟩
    · exact ⟨_, _, hfull, .inr ⟨rfl, rfl⟩⟩
    · refine ⟨_, _, hrun, .inl ⟨rfl, hlen'.trans hlen, _, hblock, fun k v => ?_⟩⟩
      rw [List.mem_append, hothers, List.mem_singleton]
      split
      next heq =>
        rw [heq]
        constructor
        · rintro (⟨hne, -⟩ | hv)
          · exact absurd rfl hne
          · obtain rfl := (Prod.mk.inj hv).2
            exact ⟨rfl, hempty⟩
        · rintro ⟨rfl, -⟩
          exact .inr rfl
      next hne =>
        constructor
        · rintro (⟨-, hmem⟩ | hv)
          · exact hmem
          · exact absurd (Prod.mk.inj hv).1 hne
        · exact fun hmem => .inl ⟨hne, hmem⟩

end

/-- What is said of a call: a success updates the map, and a failure changes nothing. -/
def MapUpdate (overwrite : Bool) (data : List UInt8) (entries : List (CStr × CStr)) (name : CStr) (value : Option CStr) :
    Prop :=
  ∃ ret data', fwEnvWrite overwrite data name value = some (ret, data') ∧
    match ret with
    | .ok () => Updates data data' entries name (value.getD [])
    | .error _ => data' = data

local instance lawfulCStr : LawfulBEq CStr := inferInstance

/-- As `MapUpdate`, but the variable that does not fit any more is deleted. -/
def MapUpdateOrDelete (overwrite : Bool) (data : List UInt8) (entries : List (CStr × CStr)) (name : CStr)
    (value : Option CStr) : Prop :=
  ∃ ret data', fwEnvWrite overwrite data name value = some (ret, data') ∧
    match ret with
    | .ok () => Updates data data' entries name (value.getD [])
    | .error .overflow => if name ∈ entries.map Prod.fst then Updates data data' entries name [] else data' = data
    | .error _ => data' = data

/-- On every block, for every name and value. -/
theorem fw_env_write_updates (overwrite : Bool) (data : List UInt8) (entries : List (CStr × CStr)) (name : CStr)
    (value : Option CStr) (h : Block data entries) (hname : (0 : UInt8) ∉ name) (h61 : (61 : UInt8) ∉ name)
    (hvalue : (0 : UInt8) ∉ value.getD []) : MapUpdateOrDelete overwrite data entries name value := by
  obtain ⟨junk, hdata, -⟩ := h.text
  have hcount : entries.length < data.length + 1 := by
    have hle := length_le_flatMap entries
    rw [hdata, List.length_append]
    omega
  rcases @searchLoop_spec [] junk data entries name _ hname h61 h.ok hdata hcount with ⟨hrun, hnot⟩ | ⟨before, v, after, rfl, hrun⟩
  · rw [List.length_nil] at hrun
    have hothers : ∀ k v, (k, v) ∈ entries ↔ k ≠ name ∧ (k, v) ∈ entries := by
      refine fun k v => ⟨fun hmem => ⟨?_, hmem⟩, And.right⟩
      rintro rfl
      exact hnot (List.mem_map_of_mem (f := Prod.fst) hmem)
    obtain ⟨ret, data', hfinish, hcase⟩ := finish_spec h rfl hnot hothers hname h61 hvalue
    refine ⟨ret, data', by rw [fwEnvWrite, hrun]; exact hfinish, ?_⟩
    rcases hcase with ⟨rfl, hup⟩ | ⟨rfl, hsame⟩
    · exact hup
    · exact (if_neg hnot).symm ▸ hsame
  · rw [List.length_nil, Nat.zero_add] at hrun
    have hin : name ∈ (before ++ (name, v) :: after).map Prod.fst := by simp
    by_cases hprot : overwrite = false ∧ (name = serial ∨ name = ethaddr)
    · refine ⟨.error .readOnly, data, ?_, rfl⟩
      rw [fwEnvWrite, hrun]
      exact if_pos hprot
    · obtain ⟨data₁, hdel, hlen, hblock, hnot⟩ := h.delete
      have hothers : ∀ k w, (k, w) ∈ before ++ after ↔ k ≠ name ∧ (k, w) ∈ before ++ (name, v) :: after :=
        fun k w => Block.mem_iff hnot
      obtain ⟨ret, data', hfinish, hcase⟩ := finish_spec hblock hlen hnot hothers hname h61 hvalue
      refine ⟨ret, data', ?_, ?_⟩
      · rw [fwEnvWrite, hrun]
        dsimp only [Option.bind_eq_bind, Option.bind_some]
        rw [if_neg hprot, hdel]
        exact hfinish
      · rcases hcase with ⟨rfl, hup⟩ | ⟨rfl, rfl⟩
        · exact hup
        · refine (if_pos hin).symm ▸ ⟨hlen, _, hblock, fun k w => ?_⟩
          rw [hothers]
          split
          next heq => simp [heq]
          next hne => simp [hne]

/-- `a=1` in a block of five bytes. -/
def oneEntry : List UInt8 := [97, 61, 49, 0, 0]

theorem oneEntry_block : Block oneEntry [([97], [49])] :=
  ⟨⟨[], rfl, fun h => by cases h⟩, fun e he => by rw [List.mem_singleton.mp he]; exact ⟨by decide, by decide, by decide⟩,
    by decide⟩

theorem fw_env_write_updates_one : MapUpdateOrDelete false oneEntry [([97], [49])] [97] (some [50]) :=
  fw_env_write_updates false oneEntry [([97], [49])] [97] (some [50]) oneEntry_block (by decide) (by decide) (by decide)

/-- A value that does not fit: the call fails, and the old value is gone. -/
theorem fw_env_write_overflow_deletes : Block oneEntry [([97], [49])] ∧
    ¬MapUpdate false oneEntry [([97], [49])] [97] (some [50, 50]) := by
  refine ⟨oneEntry_block, ?_⟩
  rintro ⟨ret, data', hrun, hcase⟩
  have hfail : fwEnvWrite false oneEntry [97] (some [50, 50]) = some (.error .overflow, [0, 0, 49, 0, 0]) := by decide
  obtain ⟨rfl, rfl⟩ := Prod.mk.inj (Option.some.inj (hfail.symm.trans hrun))
  exact absurd hcase (by decide)

end Uboot.FwEnv
