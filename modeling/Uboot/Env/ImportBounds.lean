import Uboot.Env.Import
import Uboot.Lib.Strings
import Mathlib.Data.List.TakeWhile

/-!
# Where the parser reads

Ahead of `dp` the copy is still the text, so that what one round does depends on the rest of the text alone: `nextEntry`
cuts the entry off, and has no result when the entry does not end inside the text. The parser then reads behind the
copy.
-/

namespace Uboot.Env

/-- A byte of a name. -/
def inName (sep c : UInt8) : Bool := c ≠ 61 && c ≠ 0 && c ≠ sep

/-- A byte of a comment. -/
def inComment (sep c : UInt8) : Bool := c ≠ 0 && c ≠ sep

/-- The value at the beginning of a text, without its escapes, and the text behind its terminator. -/
def cutValue (sep : UInt8) : List UInt8 → Option (CStr × List UInt8)
  | [] => none
  | c :: s =>
      if c = 0 ∨ c = sep then some ([], s)
      else if c = 92 then
        match s with
        | [] => none
        | d :: s' => if d = 0 then some ([92], s') else (cutValue sep s').map fun r => (d :: r.1, r.2)
      else (cutValue sep s).map fun r => (c :: r.1, r.2)

/-- The entry with the given name, whose other part is the byte `e` and the text behind it. -/
def afterName (sep : UInt8) (name : CStr) (e : UInt8) (rest : List UInt8) : Option (Option Op × List UInt8) :=
  if e = 0 then some (some (.delete name), rest)
  else
    match rest with
    | [] => none
    | d :: rest' =>
        if d = 0 ∨ e = sep ∨ d = sep then some (some (.delete name), if e = 61 then rest' else rest)
        else (cutValue sep rest).map fun r => (some (.enter name r.1), r.2)

/-- The call that the first entry of a text stands for, if it is no comment, and the text behind the entry. -/
def nextEntry (sep : UInt8) (s : List UInt8) : Option (Option Op × List UInt8) :=
  match s.dropWhile isblank with
  | [] => none
  | c :: s =>
      if c = 35 then
        match (c :: s).dropWhile (inComment sep) with
        | [] => none
        | _ :: rest => some (none, rest)
      else
        match (c :: s).dropWhile (inName sep) with
        | [] => none
        | e :: rest => afterName sep ((c :: s).takeWhile (inName sep)) e rest

/-! ## The scans -/

theorem getElem?_at (pre : List UInt8) (c : UInt8) (s : List UInt8) : (pre ++ c :: s)[pre.length]? = some c := by
  simp

theorem skipWhile_eq (cond : UInt8 → Bool) (s pre : List UInt8) {fuel : Nat} (hf : s.length < fuel) :
    skipWhile cond (pre ++ s) fuel pre.length =
      match s.dropWhile cond with
      | [] => none
      | _ :: _ => some (pre.length + (s.takeWhile cond).length) := by
  induction s generalizing pre fuel with
  | nil =>
    cases fuel with
    | zero => rfl
    | succ fuel => simp [skipWhile]
  | cons c s ih =>
    cases fuel with
    | zero => cases hf
    | succ fuel =>
      rw [skipWhile, getElem?_at]
      by_cases hc : cond c = true
      · have hih := ih (pre ++ [c]) (Nat.lt_of_succ_lt_succ hf)
        simp only [List.append_assoc, List.singleton_append, List.length_append, List.length_singleton] at hih
        simp only [hc, if_true, List.dropWhile_cons, List.takeWhile_cons, List.length_cons, hih]
        cases s.dropWhile cond with
        | nil => rfl
        | cons d s' => simp only [Option.some.injEq]; omega
      · simp [hc]

/-! ## The value -/

section
variable {sep : UInt8}

theorem read_ahead (done gap s : List UInt8) (i : Nat) :
    (done ++ gap ++ s)[done.length + gap.length + i]? = s[i]? := by
  rw [List.getElem?_append_right (by simp)]
  congr 1
  rw [List.length_append, Nat.add_sub_cancel_left]

/-- A byte is written behind `done`, where the bytes in the gap and those just read are not needed any more. -/
theorem write_behind (done gap s : List UInt8) {u : List UInt8} (hu : u ≠ []) (b : UInt8) :
    ∃ gap', gap'.length + 1 = gap.length + u.length ∧
      writeAt (done ++ gap ++ (u ++ s)) done.length b = some (done ++ [b] ++ gap' ++ s) := by
  obtain ⟨g, gap', hg⟩ : ∃ g gap', gap ++ u = g :: gap' := List.exists_cons_of_ne_nil (by simp [hu])
  have hlen := congrArg List.length hg
  simp only [List.length_append, List.length_cons] at hlen
  have hdata : done ++ gap ++ (u ++ s) = done ++ g :: (gap' ++ s) := by
    rw [← List.append_assoc, List.append_assoc done, hg, List.append_assoc, List.cons_append]
  refine ⟨gap', by omega, ?_⟩
  rw [hdata, writeAt_spec]
  simp

theorem parseValue_stop (done gap s : List UInt8) {c : UInt8} (hc : c = 0 ∨ c = sep) (fuel : Nat) :
    parseValue sep (fuel + 1) (done ++ gap ++ c :: s) (done.length + gap.length) done.length =
      some (done ++ gap ++ c :: s, done.length + gap.length, done.length) := by
  have hread := read_ahead done gap (c :: s) 0
  rw [Nat.add_zero, List.getElem?_cons_zero] at hread
  simp only [parseValue, hread, Option.bind_eq_bind, Option.bind_some, if_pos hc]

/-- One round of the value loop reads `u`, an escape or a plain byte, and writes `b`. -/
theorem parseValue_round (done gap s : List UInt8) {u : List UInt8} {b : UInt8}
    (hu : (u = [b] ∧ b ≠ 92) ∨ (u = [92, b] ∧ b ≠ 0) ∨ (u = [92] ∧ b = 92 ∧ s.head? = some 0))
    (hstop : ∀ c, u.head? = some c → ¬ (c = 0 ∨ c = sep)) (fuel : Nat) :
    ∃ gap', gap'.length + 1 = gap.length + u.length ∧
      parseValue sep (fuel + 1) (done ++ gap ++ (u ++ s)) (done.length + gap.length) done.length =
        parseValue sep fuel (done ++ [b] ++ gap' ++ s) ((done ++ [b]).length + gap'.length) (done ++ [b]).length := by
  have hne : u ≠ [] := by
    rintro rfl
    simp at hu
  obtain ⟨gap', hlen, hwrite⟩ := write_behind done gap s hne b
  refine ⟨gap', hlen, ?_⟩
  have hread0 := read_ahead done gap (u ++ s) 0
  have hread1 := read_ahead done gap (u ++ s) 1
  rw [Nat.add_zero] at hread0
  rw [List.length_append, List.length_singleton, parseValue]
  rcases hu with ⟨rfl, h92⟩ | ⟨rfl, h0⟩ | ⟨rfl, rfl, hs⟩
  · have hb := hstop b rfl
    simp only [List.singleton_append, List.getElem?_cons_zero, List.length_singleton] at *
    simp only [hread0, Option.bind_eq_bind, Option.bind_some, hb, if_false, h92, hwrite]
    congr 1
    omega
  · have h92 := hstop 92 rfl
    simp only [List.cons_append, List.nil_append, List.getElem?_cons_zero, List.getElem?_cons_succ, List.length_cons,
      List.length_nil] at *
    simp only [hread0, hread1, Option.bind_eq_bind, Option.bind_some, h92, if_false, if_true, h0, ne_eq,
      not_false_eq_true, Option.map_some, hwrite]
    congr 1
    omega
  · have h92 := hstop 92 rfl
    have hs1 : s[0]? = some 0 := by rw [← List.head?_eq_getElem?]; exact hs
    simp only [List.singleton_append, List.getElem?_cons_zero, List.getElem?_cons_succ, List.length_singleton,
      hs1] at *
    simp only [hread0, hread1, Option.bind_eq_bind, Option.bind_some, h92, if_false, if_true, ne_eq,
      not_true_eq_false, Option.map_some, hwrite]
    congr 1
    omega

/-- The value loop cuts the text `s` ahead of it into a value and the text behind the terminator, or leaves the copy. -/
def LoopCuts (sep : UInt8) (s : List UInt8) (r : Option (CStr × List UInt8)) : Prop :=
  ∀ (done gap : List UInt8) (fuel : Nat), s.length < fuel →
    match r with
    | none => parseValue sep fuel (done ++ gap ++ s) (done.length + gap.length) done.length = none
    | some (v, rest) => ∃ gap' x, gap'.length + v.length + 1 + rest.length = gap.length + s.length ∧
        parseValue sep fuel (done ++ gap ++ s) (done.length + gap.length) done.length =
          some (done ++ v ++ gap' ++ x :: rest, (done ++ v).length + gap'.length, (done ++ v).length)

theorem loopCuts_nil : LoopCuts sep [] none := by
  intro done gap fuel hf
  cases fuel with
  | zero => rfl
  | succ fuel =>
    have hread := read_ahead done gap [] 0
    simp only [List.append_nil, Nat.add_zero, List.getElem?_nil] at hread
    simp only [List.append_nil, parseValue, hread, Option.bind_eq_bind, Option.bind_none]

theorem loopCuts_stop {c : UInt8} (s : List UInt8) (hc : c = 0 ∨ c = sep) : LoopCuts sep (c :: s) (some ([], s)) := by
  intro done gap fuel hf
  cases fuel with
  | zero => cases hf
  | succ fuel =>
    refine ⟨gap, c, by simp only [List.length_cons, List.length_nil]; omega, ?_⟩
    rw [parseValue_stop done gap s hc, List.append_nil]

theorem LoopCuts.round {s u : List UInt8} {b : UInt8} {r : Option (CStr × List UInt8)} (h : LoopCuts sep s r)
    (hu : (u = [b] ∧ b ≠ 92) ∨ (u = [92, b] ∧ b ≠ 0) ∨ (u = [92] ∧ b = 92 ∧ s.head? = some 0))
    (hstop : ∀ c, u.head? = some c → ¬ (c = 0 ∨ c = sep)) :
    LoopCuts sep (u ++ s) (r.map fun r => (b :: r.1, r.2)) := by
  intro done gap fuel hf
  cases fuel with
  | zero => cases hf
  | succ fuel =>
    obtain ⟨gap₁, hlen₁, hround⟩ := parseValue_round done gap s hu hstop fuel
    have hpos : 0 < u.length := by rcases hu with ⟨rfl, -⟩ | ⟨rfl, -⟩ | ⟨rfl, -⟩ <;> simp
    rw [List.length_append] at hf
    have hrest := h (done ++ [b]) gap₁ fuel (by omega)
    rw [hround]
    cases r with
    | none => exact hrest
    | some r =>
      obtain ⟨gap₂, x, hlen₂, hloop⟩ := hrest
      refine ⟨gap₂, x, ?_, ?_⟩
      · simp only [List.length_append, List.length_cons] at hlen₂ ⊢
        omega
      · rw [hloop]
        simp

/-- The value loop does to the copy what `cutValue` does to the text ahead of it. -/
theorem loopCuts (sep : UInt8) (s : List UInt8) : LoopCuts sep s (cutValue sep s) := by
  fun_induction cutValue sep s with
  | case1 => exact loopCuts_nil
  | case2 c s hc => exact loopCuts_stop s hc
  | case3 h92 =>
    intro done gap fuel hf
    cases fuel with
    | zero => cases hf
    | succ fuel =>
      have hread0 := read_ahead done gap [92] 0
      have hread1 := read_ahead done gap [92] 1
      simp only [Nat.add_zero, List.getElem?_cons_zero, List.getElem?_cons_succ, List.getElem?_nil] at hread0 hread1
      simp only [parseValue, hread0, hread1, Option.bind_eq_bind, Option.bind_some, h92, if_false, if_true,
        Option.map_none, Option.bind_none]
  | case4 s h92 =>
    exact (loopCuts_stop s (.inl rfl)).round (u := [92]) (.inr (.inr ⟨rfl, rfl, rfl⟩))
      (fun c hc => Option.some.inj hc ▸ h92)
  | case5 d s h0 h92 ih =>
    exact ih.round (u := [92, d]) (.inr (.inl ⟨rfl, h0⟩)) (fun c hc => Option.some.inj hc ▸ h92)
  | case6 c s hstop h92 ih =>
    exact ih.round (u := [c]) (.inl ⟨rfl, h92⟩) (fun c hc => Option.some.inj hc ▸ hstop)

theorem cutValue_noNul {s v rest : List UInt8} (h : cutValue sep s = some (v, rest)) : (0 : UInt8) ∉ v := by
  fun_induction cutValue sep s generalizing v with
  | case1 => cases h
  | case2 c s hc =>
    cases h
    exact List.not_mem_nil
  | case3 h92 => cases h
  | case4 s h92 =>
    cases h
    decide
  | case5 d s h0 h92 ih =>
    obtain ⟨r, hr, he⟩ := Option.map_eq_some_iff.mp h
    cases he
    exact List.not_mem_cons_of_ne_of_not_mem (Ne.symm h0) (ih hr)
  | case6 c s hstop h92 ih =>
    obtain ⟨r, hr, he⟩ := Option.map_eq_some_iff.mp h
    cases he
    exact List.not_mem_cons_of_ne_of_not_mem (fun h0 => hstop (.inl h0.symm)) (ih hr)

theorem cutValue_length {s v rest : List UInt8} (h : cutValue sep s = some (v, rest)) : rest.length < s.length := by
  obtain ⟨gap, x, hlen, -⟩ : ∃ gap x, _ := by
    have := loopCuts sep s [] [] (s.length + 1) (Nat.lt_succ_self _)
    rwa [h] at this
  simp only [List.length_nil] at hlen
  omega

end

/-! ## One round -/

/-- What the parser does with an entry that ends in the text. -/
def entryStep (op : Option Op) (t : HTab) (next : HTab → ImportStep) : Option ImportStep :=
  match op with
  | some (.delete k) => (hdeleteR k t).map fun r => next r.2
  | some (.enter k v) =>
      (hsearchR .all ⟨k, some v⟩ .ENTER t).map fun r => if r.retval = none then .fail r.htab else next r.htab
  | _ => some (next t)

section
variable {sep : UInt8} {s : List UInt8}

/-- The parser follows `nextEntry` over the text `s` ahead of it. -/
def BodyFollows (sep : UInt8) (s : List UInt8) (r : Option (Option Op × List UInt8)) : Prop :=
  ∀ (pre : List UInt8) (t : HTab),
    match r with
    | none => importBody sep (pre ++ s) pre.length t = none
    | some (op, rest) => ∃ pre', pre'.length + rest.length = pre.length + s.length ∧ rest.length < s.length ∧
        importBody sep (pre ++ s) pre.length t = entryStep op t fun t => .next (pre' ++ rest) pre'.length t

theorem bodyFollows_blanks {r : Option (Option Op × List UInt8)} (h : BodyFollows sep (s.dropWhile isblank) r)
    (hne : s.dropWhile isblank ≠ []) : BodyFollows sep s r := by
  intro pre t
  have hsplit : pre ++ s = pre ++ s.takeWhile isblank ++ s.dropWhile isblank := by
    rw [List.append_assoc, List.takeWhile_append_dropWhile]
  have hlen : s.length = (s.takeWhile isblank).length + (s.dropWhile isblank).length := by
    rw [← List.length_append, List.takeWhile_append_dropWhile]
  -- from the first blank and from the last one the parser comes to the same byte
  have heq : skipWhile isblank (pre ++ s) ((pre ++ s).length + 1) pre.length =
      skipWhile isblank (pre ++ s) ((pre ++ s).length + 1) (pre ++ s.takeWhile isblank).length := by
    rw [skipWhile_eq isblank s pre (by rw [List.length_append]; omega), hsplit]
    obtain ⟨c, s', hs'⟩ := List.exists_cons_of_ne_nil hne
    rw [hs', skipWhile, getElem?_at]
    simp [Lib.not_of_dropWhile hs']
  have hbody := h (pre ++ s.takeWhile isblank) t
  rw [← hsplit, importBody, ← heq, ← importBody] at hbody
  cases r with
  | none => exact hbody
  | some r =>
    obtain ⟨pre', hpre, hrest, heq⟩ := hbody
    rw [List.length_append] at hpre
    exact ⟨pre', by omega, by omega, heq⟩

theorem skipWhile_at {c : UInt8} (hblank : isblank c = false) (pre s : List UInt8) :
    skipWhile isblank (pre ++ c :: s) ((pre ++ c :: s).length + 1) pre.length = some pre.length := by
  rw [skipWhile, getElem?_at]
  simp [hblank]

theorem bodyFollows_comment {c : UInt8} (hblank : isblank c = false) (h35 : c = 35) :
    BodyFollows sep (c :: s) (match (c :: s).dropWhile (inComment sep) with
      | [] => none
      | _ :: rest => some (none, rest)) := by
  intro pre t
  have hbody : importBody sep (pre ++ c :: s) pre.length t =
      (skipWhile (inComment sep) (pre ++ c :: s) ((pre ++ c :: s).length + 1) pre.length).bind fun dp =>
        some (.next (pre ++ c :: s) (dp + 1) t) := by
    simp only [importBody, skipWhile_at hblank, Option.bind_eq_bind, Option.bind_some, getElem?_at, if_pos h35]
    rfl
  rw [hbody, skipWhile_eq _ _ pre (by rw [List.length_append]; omega)]
  have hsplit : (c :: s).takeWhile (inComment sep) ++ (c :: s).dropWhile (inComment sep) = c :: s :=
    List.takeWhile_append_dropWhile
  generalize (c :: s).takeWhile (inComment sep) = com at hsplit ⊢
  cases hdrop : (c :: s).dropWhile (inComment sep) with
  | nil => rfl
  | cons x rest =>
    rw [hdrop] at hsplit
    have hlen := congrArg List.length hsplit
    rw [List.length_append, List.length_cons] at hlen
    refine ⟨pre ++ com ++ [x], ?_, by omega, ?_⟩
    · simp only [List.length_append, List.length_singleton]
      omega
    · rw [← hsplit]
      simp [entryStep, Nat.add_assoc]

/-- The rest of a round, from the byte behind the name on. -/
def behindName (sep : UInt8) (data : List UInt8) (name dp : Nat) (t : HTab) : Option ImportStep := do
  if (← isDelete sep data dp) then
    let c ← data[dp]?
    let data ← writeAt data dp 0
    let (data, dp) ← if c = 61 then (writeAt data (dp + 1) 0).map fun data => (data, dp + 2) else some (data, dp + 1)
    let (_, t) ← hdeleteR (← cstrAt data name) t
    some (.next data dp t)
  else
    let rounds := data.length + 1
    let data ← writeAt data dp 0
    let value := dp + 1
    let (data, dp, sp) ← parseValue sep rounds data value value
    let data ← writeAt data sp 0
    let r ← hsearchR .all ⟨← cstrAt data name, ← cstrAt data value⟩ .ENTER t
    if r.retval = none then some (.fail r.htab) else some (.next data (dp + 1) r.htab)

theorem importBody_named {c : UInt8} (hblank : isblank c = false) (h35 : c ≠ 35) (pre : List UInt8) (t : HTab) :
    importBody sep (pre ++ c :: s) pre.length t =
      (skipWhile (inName sep) (pre ++ c :: s) ((pre ++ c :: s).length + 1) pre.length).bind fun dp =>
        behindName sep (pre ++ c :: s) pre.length dp t := by
  simp only [importBody, skipWhile_at hblank, Option.bind_eq_bind, Option.bind_some, getElem?_at, if_neg h35]
  rfl

/-- The byte `e` behind the name and the one after it decide what the entry is. -/
theorem isDelete_at (sep : UInt8) (pre rest : List UInt8) (e : UInt8) : isDelete sep (pre ++ e :: rest) pre.length =
    if e = 0 then some true else rest.head?.map fun d => decide (d = 0 ∨ e = sep ∨ d = sep) := by
  have hnext : (pre ++ e :: rest)[pre.length + 1]? = rest.head? := by
    rw [List.getElem?_append_right (Nat.le_add_right _ _), Nat.add_sub_cancel_left, List.getElem?_cons_succ,
      List.head?_eq_getElem?]
  simp only [isDelete, getElem?_at, hnext, Option.bind_eq_bind, Option.bind_some]
  by_cases he : e = 0
  · rw [if_pos he, if_pos he]
  · rw [if_neg he, if_neg he]
    cases rest.head? with
    | none => rfl
    | some d => simp [Bool.or_assoc]

section
variable {pre name rest : List UInt8} {e : UInt8}

theorem behindName_delete (hname : (0 : UInt8) ∉ name) (hdel : isDelete sep (pre ++ name ++ e :: rest)
    (pre ++ name).length = some true) (he : e ≠ 61) (t : HTab) :
    behindName sep (pre ++ name ++ e :: rest) pre.length (pre ++ name).length t =
      entryStep (some (.delete name)) t fun t => .next (pre ++ name ++ [0] ++ rest) (pre ++ name ++ [0]).length t := by
  have hwrite := writeAt_spec (pre ++ name) rest e 0
  simp only [behindName, hdel, Option.bind_eq_bind, Option.bind_some, if_true, getElem?_at, hwrite, if_neg he,
    cstrAt_spec hname, entryStep]
  simp [Option.map_eq_bind, Nat.add_assoc]

theorem behindName_deleteEmpty (hname : (0 : UInt8) ∉ name) {d : UInt8}
    (hdel : isDelete sep (pre ++ name ++ 61 :: d :: rest) (pre ++ name).length = some true) (t : HTab) :
    behindName sep (pre ++ name ++ 61 :: d :: rest) pre.length (pre ++ name).length t =
      entryStep (some (.delete name)) t fun t =>
        .next (pre ++ name ++ [0, 0] ++ rest) (pre ++ name ++ [0, 0]).length t := by
  have hwrite := writeAt_spec (pre ++ name) (d :: rest) 61 0
  have hwrite' : writeAt (pre ++ name ++ 0 :: d :: rest) ((pre ++ name).length + 1) 0 =
      some (pre ++ name ++ 0 :: 0 :: rest) := by
    have h := writeAt_spec (pre ++ name ++ [0]) rest d 0
    simpa [Nat.add_assoc] using h
  simp only [behindName, hdel, Option.bind_eq_bind, Option.bind_some, if_true, getElem?_at, hwrite, hwrite',
    Option.map_some, cstrAt_spec hname, entryStep]
  simp [Option.map_eq_bind, Nat.add_assoc]

theorem behindName_none (hdel : isDelete sep (pre ++ name ++ e :: rest) (pre ++ name).length = some false)
    (hcut : cutValue sep rest = none) (t : HTab) :
    behindName sep (pre ++ name ++ e :: rest) pre.length (pre ++ name).length t = none := by
  have hwrite := writeAt_spec (pre ++ name) rest e 0
  have hloop : parseValue sep ((pre ++ name ++ e :: rest).length + 1) (pre ++ name ++ 0 :: rest)
      ((pre ++ name).length + 1) ((pre ++ name).length + 1) = none := by
    have h := loopCuts sep rest (pre ++ name ++ [0]) [] ((pre ++ name ++ e :: rest).length + 1) (by simp; omega)
    rw [hcut] at h
    simpa [Nat.add_assoc] using h
  simp only [behindName, hdel, hwrite, Option.bind_eq_bind, Option.bind_some, Bool.false_eq_true, if_false, hloop,
    Option.bind_none]

theorem behindName_enter (hname : (0 : UInt8) ∉ name)
    (hdel : isDelete sep (pre ++ name ++ e :: rest) (pre ++ name).length = some false) {v rest' : List UInt8}
    (hcut : cutValue sep rest = some (v, rest')) (t : HTab) :
    ∃ pre', pre'.length + rest'.length = (pre ++ name).length + 1 + rest.length ∧
      behindName sep (pre ++ name ++ e :: rest) pre.length (pre ++ name).length t =
        entryStep (some (.enter name v)) t fun t => .next (pre' ++ rest') pre'.length t := by
  have hwrite := writeAt_spec (pre ++ name) rest e 0
  obtain ⟨gap, x, hlen, hloop⟩ : ∃ gap x, gap.length + v.length + 1 + rest'.length = rest.length ∧
      parseValue sep ((pre ++ name ++ e :: rest).length + 1) (pre ++ name ++ 0 :: rest) ((pre ++ name).length + 1)
        ((pre ++ name).length + 1) = some (pre ++ name ++ [0] ++ v ++ gap ++ x :: rest',
          (pre ++ name ++ [0] ++ v).length + gap.length, (pre ++ name ++ [0] ++ v).length) := by
    have h := loopCuts sep rest (pre ++ name ++ [0]) [] ((pre ++ name ++ e :: rest).length + 1) (by simp; omega)
    rw [hcut] at h
    simpa [Nat.add_assoc] using h
  -- the terminator goes over the first byte of the gap, or over the one the value ended with
  obtain ⟨gap', hgap, hterm⟩ := write_behind (pre ++ name ++ [0] ++ v) gap rest' (u := [x]) (by simp) 0
  have hkey : cstrAt (pre ++ name ++ [0] ++ v ++ [0] ++ gap' ++ rest') pre.length = some name := by
    have h := cstrAt_spec hname pre (v ++ 0 :: (gap' ++ rest'))
    simpa using h
  have hval : cstrAt (pre ++ name ++ [0] ++ v ++ [0] ++ gap' ++ rest') ((pre ++ name).length + 1) = some v := by
    have h := cstrAt_spec (cutValue_noNul hcut) (pre ++ name ++ [0]) (gap' ++ rest')
    simpa [Nat.add_assoc] using h
  rw [List.singleton_append] at hterm
  refine ⟨pre ++ name ++ [0] ++ v ++ [0] ++ gap', ?_, ?_⟩
  · simp only [List.length_append, List.length_singleton] at hgap ⊢
    omega
  · have hdp : (pre ++ name ++ [0] ++ v).length + gap.length + 1 = (pre ++ name ++ [0] ++ v ++ [0] ++ gap').length := by
      simp only [List.length_append, List.length_singleton] at hgap ⊢
      omega
    simp only [behindName, hdel, hwrite, Option.bind_eq_bind, Option.bind_some, Bool.false_eq_true, if_false, hloop,
      hterm, hkey, hval, hdp, entryStep]
    cases hsearchR .all ⟨name, some v⟩ .ENTER t with
    | none => rfl
    | some r => simp only [Option.bind_some, Option.map_some, apply_ite some]

end

/-- The rest of the round follows `afterName` over the text that begins with the byte `e` behind the name. -/
def NameFollows (sep : UInt8) (name : CStr) (e : UInt8) (rest : List UInt8)
    (r : Option (Option Op × List UInt8)) : Prop :=
  ∀ (pre : List UInt8) (t : HTab),
    match r with
    | none => behindName sep (pre ++ name ++ e :: rest) pre.length (pre ++ name).length t = none
    | some (op, rest') => ∃ pre', pre'.length + rest'.length = (pre ++ name).length + 1 + rest.length ∧
        rest'.length ≤ rest.length ∧
        behindName sep (pre ++ name ++ e :: rest) pre.length (pre ++ name).length t =
          entryStep op t fun t => .next (pre' ++ rest') pre'.length t

theorem nameFollows (sep : UInt8) {name : CStr} (hname : (0 : UInt8) ∉ name) (e : UInt8) (rest : List UInt8) :
    NameFollows sep name e rest (afterName sep name e rest) := by
  intro pre t
  have hdel := isDelete_at sep (pre ++ name) rest e
  simp only [afterName]
  by_cases he : e = 0
  · rw [if_pos he] at hdel ⊢
    exact ⟨pre ++ name ++ [0], by simp; omega, Nat.le_refl _,
      behindName_delete hname hdel (by rw [he]; decide) t⟩
  · rw [if_neg he] at hdel ⊢
    cases rest with
    | nil =>
      simp only [List.head?_nil, Option.map_none] at hdel
      simp only [behindName, hdel, Option.bind_eq_bind, Option.bind_none]
    | cons d rest =>
      simp only [List.head?_cons, Option.map_some] at hdel ⊢
      by_cases hd : d = 0 ∨ e = sep ∨ d = sep
      · rw [decide_eq_true hd] at hdel
        rw [if_pos hd]
        by_cases h61 : e = 61
        · subst h61
          exact ⟨pre ++ name ++ [0, 0], by simp; omega, by simp, behindName_deleteEmpty hname hdel t⟩
        · rw [if_neg h61]
          exact ⟨pre ++ name ++ [0], by simp; omega, Nat.le_refl _, behindName_delete hname hdel h61 t⟩
      · rw [decide_eq_false hd] at hdel
        rw [if_neg hd]
        cases hcut : cutValue sep (d :: rest) with
        | none => exact behindName_none hdel hcut t
        | some r =>
          obtain ⟨pre', hlen, hbody⟩ := behindName_enter hname hdel hcut t
          exact ⟨pre', hlen, Nat.le_of_lt (cutValue_length hcut), hbody⟩

theorem name_noNul (sep : UInt8) (s : List UInt8) : (0 : UInt8) ∉ s.takeWhile (inName sep) := by
  intro h0
  have h := List.mem_takeWhile_imp h0
  simp [inName] at h

theorem bodyFollows_named {c : UInt8} (hblank : isblank c = false) (h35 : c ≠ 35) :
    BodyFollows sep (c :: s) (match (c :: s).dropWhile (inName sep) with
      | [] => none
      | e :: rest => afterName sep ((c :: s).takeWhile (inName sep)) e rest) := by
  intro pre t
  rw [importBody_named hblank h35, skipWhile_eq _ _ pre (by rw [List.length_append]; omega)]
  have hsplit : (c :: s).takeWhile (inName sep) ++ (c :: s).dropWhile (inName sep) = c :: s :=
    List.takeWhile_append_dropWhile
  have hname := name_noNul sep (c :: s)
  generalize (c :: s).takeWhile (inName sep) = name at hsplit hname ⊢
  cases hdrop : (c :: s).dropWhile (inName sep) with
  | nil => rfl
  | cons e rest =>
    rw [hdrop] at hsplit
    have hlen := congrArg List.length hsplit
    rw [List.length_append, List.length_cons] at hlen
    have hrest := nameFollows sep hname e rest pre t
    rw [← hsplit]
    dsimp only
    rw [Option.bind_some, ← List.append_assoc, ← List.length_append]
    cases hafter : afterName sep name e rest with
    | none =>
      rw [hafter] at hrest
      exact hrest
    | some r =>
      rw [hafter] at hrest
      obtain ⟨pre', hpre, hle, hbody⟩ := hrest
      rw [List.length_append] at hpre
      exact ⟨pre', by rw [List.length_append, List.length_cons]; omega,
        by rw [List.length_append, List.length_cons]; omega, hbody⟩

/-- A round of the parser does to the text ahead of it what `nextEntry` says. -/
theorem bodyFollows (sep : UInt8) (s : List UInt8) : BodyFollows sep s (nextEntry sep s) := by
  cases hdrop : s.dropWhile isblank with
  | nil =>
    intro pre t
    have hskip : skipWhile isblank (pre ++ s) ((pre ++ s).length + 1) pre.length = none := by
      rw [skipWhile_eq isblank s pre (by rw [List.length_append]; omega), hdrop]
    simp only [nextEntry, hdrop, importBody, hskip, Option.bind_eq_bind, Option.bind_none]
  | cons c s' =>
    have hblank := Lib.not_of_dropWhile hdrop
    refine bodyFollows_blanks ?_ (by rw [hdrop]; exact List.cons_ne_nil c s')
    rw [nextEntry, hdrop]
    by_cases h35 : c = 35
    · simp only [if_pos h35]
      exact bodyFollows_comment hblank h35
    · simp only [if_neg h35]
      exact bodyFollows_named hblank h35

end

/-! ## All rounds -/

/-- The table after an entry. -/
def HTab.applyEntry (t : HTab) (op : Option Op) : HTab := op.elim t t.apply

/-- Every entry that the parser comes to ends inside the text. It stops at the end of the text, before a NUL, and at a
new name that the full table does not take. -/
inductive Closed (sep : UInt8) : HTab → List UInt8 → Prop where
  | stop {t : HTab} {s : List UInt8} {op : Option Op} {rest : List UInt8} (h : nextEntry sep s = some (op, rest))
      (hrest : rest.headD 0 = 0) : Closed sep t s
  | full {t : HTab} {s : List UInt8} {k v : CStr} {rest : List UInt8}
      (h : nextEntry sep s = some (some (.enter k v), rest)) (hk : ¬ t.Live k) (hfull : t.filled = t.size) : Closed sep t s
  | next {t : HTab} {s : List UInt8} {op : Option Op} {rest : List UInt8} (h : nextEntry sep s = some (op, rest))
      (hrest : Closed sep (t.applyEntry op) rest) : Closed sep t s

/-- An entry changes the table and the parser goes on, unless the table is full. -/
theorem entryStep_eq {t : HTab} (hinv : t.Inv) (op : Option Op) (next : HTab → ImportStep) :
    entryStep op t next = some (next (t.applyEntry op)) ∨
      ∃ k v, op = some (.enter k v) ∧ ¬ t.Live k ∧ t.filled = t.size ∧ entryStep op t next = some (.fail t) := by
  rcases op with - | ⟨k, v⟩ | k | k
  · exact .inl rfl
  · by_cases hk : t.Live k
    · obtain ⟨i, hl, hki⟩ := hk
      have he := enter_of_live hinv hl hki v
      left
      simp [entryStep, he, HTab.applyEntry, HTab.apply]
    · by_cases hfull : t.filled = t.size
      · right
        refine ⟨k, v, rfl, hk, hfull, ?_⟩
        simp [entryStep, enter_of_full hinv hk hfull]
      · obtain ⟨i, -, he⟩ := enter_of_not_live hinv hk hfull v
        left
        simp [entryStep, he, HTab.applyEntry, HTab.apply]
  · left
    by_cases hk : t.Live k
    · obtain ⟨i, hl, hki⟩ := hk
      simp [entryStep, find_of_live hinv hl hki, HTab.applyEntry, HTab.apply]
    · simp [entryStep, find_of_not_live hinv hk, HTab.applyEntry, HTab.apply]
  · left
    by_cases hk : t.Live k
    · obtain ⟨i, hl, hki⟩ := hk
      simp [entryStep, delete_of_live hinv hl hki, HTab.applyEntry, HTab.apply]
    · simp [entryStep, delete_of_not_live hinv hk, HTab.applyEntry, HTab.apply]

theorem HTab.Inv.applyEntry {t : HTab} (hinv : t.Inv) (op : Option Op) : (t.applyEntry op).Inv := by
  cases op with
  | none => exact hinv
  | some op => exact hinv.apply op

/-- The condition of the loop: it ends before a NUL and at the end of the copy. -/
theorem importLoop_next {sep : UInt8} {data pre rest : List UInt8} {dp : Nat} {t t' : HTab} (fuel : Nat)
    (h : importBody sep data dp t = some (.next (pre ++ rest) pre.length t')) :
    importLoop sep (fuel + 1) data dp t =
      if rest.headD 0 = 0 then some (1, t') else importLoop sep fuel (pre ++ rest) pre.length t' := by
  simp only [importLoop, h, Option.bind_eq_bind, Option.bind_some]
  cases rest with
  | nil => simp
  | cons c rest =>
    rw [if_pos (by simp), getElem?_at, Option.bind_some, List.headD_cons]
    by_cases hc : c = 0
    · rw [if_pos hc, if_neg (not_not_intro hc)]
    · rw [if_neg hc, if_pos hc]

/-- The parser ends, with all accesses inside the copy, exactly when every entry it comes to does. -/
theorem importLoop_isSome_iff (sep : UInt8) {fuel : Nat} {t : HTab} {s : List UInt8} (hinv : t.Inv)
    (hf : s.length < fuel) (pre : List UInt8) :
    (importLoop sep fuel (pre ++ s) pre.length t).isSome ↔ Closed sep t s := by
  induction fuel generalizing t s pre with
  | zero => cases hf
  | succ fuel ih =>
    have hbody := bodyFollows sep s pre t
    cases hentry : nextEntry sep s with
    | none =>
      rw [hentry] at hbody
      have hnone : importLoop sep (fuel + 1) (pre ++ s) pre.length t = none := by
        simp only [importLoop, hbody, Option.bind_eq_bind, Option.bind_none]
      rw [hnone]
      refine ⟨(fun h => by cases h), fun hclosed => ?_⟩
      cases hclosed with
      | stop h hrest => rw [hentry] at h; cases h
      | full h hk hfull => rw [hentry] at h; cases h
      | next h hrest => rw [hentry] at h; cases h
    | some r =>
      obtain ⟨op, rest⟩ := r
      rw [hentry] at hbody
      obtain ⟨pre', -, hlt, hbody⟩ := hbody
      rcases entryStep_eq hinv op fun t => .next (pre' ++ rest) pre'.length t with hstep | ⟨k, v, rfl, hk, hfull, hstep⟩
      · rw [importLoop_next fuel (hbody.trans hstep)]
        by_cases hrest : rest.headD 0 = 0
        · rw [if_pos hrest]
          exact ⟨fun _ => .stop hentry hrest, fun _ => rfl⟩
        · rw [if_neg hrest, ih (hinv.applyEntry op) (by omega)]
          refine ⟨fun h => .next hentry h, fun hclosed => ?_⟩
          cases hclosed with
          | stop h hstop =>
            rw [hentry] at h
            cases h
            exact absurd hstop hrest
          | full h hk hfull =>
            rw [hentry] at h
            cases h
            simp [entryStep, enter_of_full hinv hk hfull] at hstep
          | next h hnext =>
            rw [hentry] at h
            cases h
            exact hnext
      · have hfail : importLoop sep (fuel + 1) (pre ++ s) pre.length t = some (0, t) := by
          simp only [importLoop, hbody.trans hstep, Option.bind_eq_bind, Option.bind_some]
        rw [hfail]
        exact ⟨fun _ => .full hentry hk hfull, fun _ => rfl⟩

/-! ## Texts that end with a NUL -/

section
variable {sep : UInt8} {s s' : List UInt8}

theorem nul_of_suffix (hs : s.getLast? = some 0) (h : s' <:+ s) (hne : s' ≠ []) : s'.getLast? = some 0 := by
  obtain ⟨p, rfl⟩ := h
  rwa [List.getLast?_append_of_ne_nil _ hne] at hs

theorem dropWhile_of_nul {cond : UInt8 → Bool} (h0 : cond 0 = false) (hs : s.getLast? = some 0) :
    ∃ c rest, s.dropWhile cond = c :: rest ∧ (c :: rest).getLast? = some 0 := by
  have hne : s.dropWhile cond ≠ [] := by
    intro hnil
    have := List.dropWhile_eq_nil_iff.mp hnil 0 (List.mem_of_getLast? hs)
    rw [h0] at this
    cases this
  obtain ⟨c, rest, hc⟩ := List.exists_cons_of_ne_nil hne
  exact ⟨c, rest, hc, hc ▸ nul_of_suffix hs (List.dropWhile_suffix cond) hne⟩

theorem cons_nul {c : UInt8} (h : (c :: s).getLast? = some 0) (hc : c ≠ 0) : s.getLast? = some 0 := by
  refine nul_of_suffix h (List.suffix_cons c s) ?_
  rintro rfl
  exact hc (Option.some.inj h)

theorem cutValue_of_nul (sep : UInt8) (hs : s.getLast? = some 0) : ∃ v rest, cutValue sep s = some (v, rest) ∧ rest <:+ s := by
  fun_induction cutValue sep s with
  | case1 => cases hs
  | case2 c s hc => exact ⟨[], s, rfl, List.suffix_cons c s⟩
  | case3 h92 => cases hs
  | case4 s h92 => exact ⟨[92], s, rfl, (List.suffix_cons 0 s).trans (List.suffix_cons 92 _)⟩
  | case5 d s h0 h92 ih =>
    obtain ⟨v, rest, hcut, hsuf⟩ := ih (cons_nul (cons_nul hs (by decide)) h0)
    exact ⟨d :: v, rest, by rw [hcut]; rfl, (hsuf.trans (List.suffix_cons d s)).trans (List.suffix_cons 92 _)⟩
  | case6 c s hstop h92 ih =>
    obtain ⟨v, rest, hcut, hsuf⟩ := ih (cons_nul hs fun h => hstop (.inl h))
    exact ⟨c :: v, rest, by rw [hcut]; rfl, hsuf.trans (List.suffix_cons c s)⟩

theorem afterName_of_nul (sep : UInt8) (name : CStr) {e : UInt8} (hs : (e :: s).getLast? = some 0) :
    ∃ op rest, afterName sep name e s = some (op, rest) ∧ rest <:+ s := by
  rw [afterName.eq_def]
  by_cases he : e = 0
  · exact ⟨_, s, if_pos he, List.suffix_refl s⟩
  · rw [if_neg he]
    cases s with
    | nil => cases cons_nul hs he
    | cons d s =>
      dsimp only
      by_cases hd : d = 0 ∨ e = sep ∨ d = sep
      · rw [if_pos hd]
        refine ⟨_, _, rfl, ?_⟩
        by_cases h61 : e = 61
        · rw [if_pos h61]
          exact List.suffix_cons d s
        · rw [if_neg h61]
      · rw [if_neg hd]
        obtain ⟨v, rest, hcut, hsuf⟩ := cutValue_of_nul sep (cons_nul hs he)
        exact ⟨_, rest, by rw [hcut]; rfl, hsuf⟩

theorem nextEntry_of_nul (sep : UInt8) (hs : s.getLast? = some 0) : ∃ op rest, nextEntry sep s = some (op, rest) ∧ rest <:+ s := by
  obtain ⟨c, s₁, hdrop, hs₁⟩ := dropWhile_of_nul (show isblank 0 = false by decide) hs
  have hsuf : c :: s₁ <:+ s := hdrop ▸ List.dropWhile_suffix isblank
  rw [nextEntry, hdrop]
  by_cases h35 : c = 35
  · obtain ⟨x, rest, hcom, -⟩ := dropWhile_of_nul (show inComment sep 0 = false by simp [inComment]) hs₁
    refine ⟨none, rest, ?_, ?_⟩
    · simp only [if_pos h35, hcom]
    · exact ((List.suffix_cons x rest).trans (hcom ▸ List.dropWhile_suffix _)).trans hsuf
  · obtain ⟨e, rest, hname, hrest⟩ := dropWhile_of_nul (show inName sep 0 = false by simp [inName]) hs₁
    obtain ⟨op, rest', hafter, hsuf'⟩ := afterName_of_nul sep ((c :: s₁).takeWhile (inName sep)) hrest
    refine ⟨op, rest', ?_, ?_⟩
    · simp only [if_neg h35, hname, hafter]
    · exact ((hsuf'.trans (List.suffix_cons e rest)).trans (hname ▸ List.dropWhile_suffix _)).trans hsuf

/-- Every scan stops at the NUL that ends the text. -/
theorem closed_of_nul (hs : s.getLast? = some 0) (t : HTab) : Closed sep t s := by
  induction hn : s.length using Nat.strong_induction_on generalizing s t with
  | _ n ih =>
    obtain ⟨op, rest, hentry, hsuf⟩ := nextEntry_of_nul sep hs
    have hlt : rest.length < s.length := by
      have hbody := bodyFollows sep s [] t
      rw [hentry] at hbody
      obtain ⟨_, _, hlt, _⟩ := hbody
      exact hlt
    by_cases hnil : rest = []
    · exact .stop hentry (by rw [hnil]; rfl)
    · exact .next hentry (ih rest.length (hn ▸ hlt) (nul_of_suffix hs hsuf hnil) _ rfl)

end

/-! ## The import -/

/-- A table that calls have made from an empty one. -/
def HTab.Reachable (t : HTab) : Prop := ∃ nel t₀ ops, hcreateR nel none = some t₀ ∧ t = t₀.run ops

theorem HTab.Reachable.inv {t : HTab} (h : t.Reachable) : t.Inv := by
  obtain ⟨nel, t₀, ops, hc, rfl⟩ := h
  exact (inv_of_hcreateR hc).1.run ops

/-- The table that the entries go to: the old one with `H_NOCLEAR`, otherwise a new one. -/
def importTable (htab : Option HTab) (size : Nat) (noclear : Bool) : Option HTab :=
  (if noclear then htab else none).or (hcreateR (importEntries size) none)

theorem himportR_of_table {htab : Option HTab} {env : List UInt8} {noclear : Bool} {t : HTab}
    (h : importTable htab env.length noclear = some t) (sep : UInt8) :
    himportR true htab env sep noclear = (importLoop sep (env.length + 1) env 0 t).map fun r => (r.1, some r.2) := by
  simp only [himportR, if_true]
  rw [← importTable, h]

/-- Importing a text ends and stays inside the copy exactly when every entry that the parser comes to ends inside it. -/
theorem import_inside_iff {htab : Option HTab} (hold : ∀ t, htab = some t → t.Reachable) (mem : Bool)
    (env : List UInt8) (sep : UInt8) (noclear : Bool) :
    (himportR mem htab env sep noclear).isSome ↔
      (mem = true → ∀ t, importTable htab env.length noclear = some t → Closed sep t env) := by
  cases mem with
  | false => simp [himportR]
  | true =>
    cases ht : importTable htab env.length noclear with
    | none =>
      have hfail : himportR true htab env sep noclear = some (0, none) := by
        simp only [himportR, if_true]
        rw [← importTable, ht]
      simp [hfail]
    | some t =>
      have hinv : t.Inv := by
        cases hkept : (if noclear then htab else none) with
        | none =>
          rw [importTable, hkept, Option.none_or] at ht
          exact (inv_of_hcreateR ht).1
        | some t' =>
          rw [importTable, hkept, Option.some_or] at ht
          cases ht
          cases noclear with
          | false => cases hkept
          | true => exact (hold t hkept).inv
      have hloop := importLoop_isSome_iff sep hinv (Nat.lt_succ_self env.length) []
      simp only [List.nil_append, List.length_nil] at hloop
      rw [himportR_of_table ht, Option.isSome_map]
      simp only [Option.some.injEq, forall_const, forall_eq']
      exact hloop

/-- `a=1`, ended by a NUL. -/
theorem import_inside_example : (himportR true none [97, 61, 49, 0] 10 false).isSome :=
  (import_inside_iff (by simp) true _ _ _).mpr fun _ t _ => closed_of_nul rfl t

/-- The text `a=1` without a terminator, and the line `a`, whose separator is the last byte of the text. -/
theorem import_reads_outside :
    himportR true none [97, 61, 49] 10 false = none ∧ himportR true none [97, 10] 10 false = none := by
  obtain ⟨t, ht⟩ := hcreateR_of_small (show 64 ≤ 520 by decide)
  have htable : ∀ n < 8, importTable none n false = some t := by
    intro n hn
    have hentries : importEntries n = 64 := by
      rw [importEntries]
      omega
    rw [← ht, ← hentries]
    rfl
  constructor
  · rw [himportR_of_table (htable _ (by decide))]
    rfl
  · rw [himportR_of_table (htable _ (by decide))]
    rfl

end Uboot.Env
