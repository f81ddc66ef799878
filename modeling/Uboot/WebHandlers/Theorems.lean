import Uboot.Macrw.Theorems
import Uboot.WebHandlers.Basic

/-!
# What the handlers report

The returned length counts the texts in full, be they cut or not; the bytes below it are there when it is below the size.
-/

namespace Uboot.WebHandlers

open Lib Vsprintf Macrw

/-- The length is less than the size, that many bytes were stored, and no others are sent. -/
structure ReportsWritten (bufsize : Nat) (r : Response) : Prop where
  short : r.len < bufsize
  written : ∀ i < r.len, (r.buf i).isSome
  sent : ∀ mss, none ∉ r.send mss

/-- The bytes of the buffer below the length were stored. -/
def Response.Filled (bufsize : Nat) (r : Response) : Prop := ∀ i < r.len, i < bufsize → (r.buf i).isSome

section
variable {S : Type} {drv : ArtFlash S} {probe : Bool} {s : State S} {bufsize a i : Nat} {r : Response} {text bs : List UInt8}
  {argv : List (List UInt8)} {items : List (List UInt8 × List UInt8)} {env : Environment}

/-! ## Printing -/

theorem store_isSome {buf : Nat → Option UInt8} (h : (buf i).isSome ∨ a ≤ i ∧ i < a + bs.length) :
    (store buf a bs i).isSome := by
  rw [store]
  split
  next => rfl
  next hout => exact h.resolve_right hout

theorem print_len : (r.print bufsize text).len = r.len + text.length := rfl

theorem filled_init : Response.init.Filled bufsize := fun _ hi => absurd hi (Nat.not_lt_zero _)

theorem Response.Filled.print (h : r.Filled bufsize) : (r.print bufsize text).Filled bufsize := by
  intro i hlen hi
  rw [print_len] at hlen
  refine store_isSome ?_
  rcases Nat.lt_or_ge i r.len with hlt | hge
  · exact Or.inl (h i hlt hi)
  · refine Or.inr ⟨hge, ?_⟩
    rw [snprintf, if_neg (by omega), if_neg (by omega), List.length_append, List.length_take, List.length_singleton]
    omega

theorem Response.Filled.terminate (h : r.Filled bufsize) : r.terminate.Filled bufsize :=
  fun i hlen hi => store_isSome (Or.inl (h i hlen hi))

theorem Response.Filled.reports_iff (h : r.Filled bufsize) : ReportsWritten bufsize r ↔ r.len < bufsize := by
  refine ⟨fun hr => hr.short, ?_⟩
  intro hlen
  have hwritten : ∀ i < r.len, (r.buf i).isSome := fun i hi => h i hi (hi.trans hlen)
  refine ⟨hlen, hwritten, ?_⟩
  intro mss hnone
  obtain ⟨i, hi, heq⟩ := List.mem_map.mp hnone
  rw [List.mem_range] at hi
  have hsome := hwritten i (by omega)
  rw [heq] at hsome
  cases hsome

theorem header_length : header.length = 64 := by decide

theorem ascii_length (s : String) : (ascii s).length = s.length := by
  rw [ascii, List.length_map, String.length_toList]

/-- A text with one argument -/
theorem text_length (pre : String) (arg : List UInt8) (post : List UInt8) :
    (ascii pre ++ arg ++ post).length = pre.length + arg.length + post.length := by
  rw [List.length_append, List.length_append, ascii_length]

/-! ## MAC addresses -/

/-- The length of the answer behind the header -/
def macrwLength (drv : ArtFlash S) (probe : Bool) (argv : List (List UInt8)) (s : State S) : Nat :=
  match argument (ascii "action=") argv, argument (ascii "iface=") argv with
  | some action, some iface =>
      if action = ascii "write" then
        match argument (ascii "mac=") argv with
        | none => 23
        | some mac =>
            if probe then
              if (flashWriteMac drv iface mac s).1 then 19 + iface.length + mac.length else 15 + iface.length
            else 59
      else if action = ascii "read" then
        if (flashReadMacToBuf drv probe iface s).1.isSome then 35 + iface.length else 14 + iface.length
      else 17 + action.length
  | _, _ => 37

theorem macText_length {mem : Mem} {mac : Nat} : (macText (mem.read mac 6)).length = 17 := rfl

theorem flashReadMacToBuf_length {iface macAddr : List UInt8} (h : (flashReadMacToBuf drv probe iface s).1 = some macAddr) :
    macAddr.length = 17 := by
  rw [flashReadMacToBuf] at h
  split at h
  next =>
    dsimp only at h
    split at h
    next =>
      obtain ⟨p, -, rfl⟩ := Option.map_eq_some_iff.mp h
      exact macText_length
    next => cases h
  next => cases h

theorem macrwMessage_length : (macrwMessage drv probe argv s).1.length = macrwLength drv probe argv s := by
  rw [macrwMessage, macrwLength]
  cases argument (ascii "action=") argv with
  | none => rfl
  | some action =>
      cases argument (ascii "iface=") argv with
      | none => rfl
      | some iface =>
          dsimp only
          by_cases hwrite : action = ascii "write"
          · rw [if_pos hwrite, if_pos hwrite]
            cases argument (ascii "mac=") argv with
            | none => rfl
            | some mac =>
                cases probe with
                | false => rfl
                | true =>
                    dsimp only
                    rw [if_pos rfl, if_pos rfl]
                    cases (flashWriteMac drv iface mac s).1 with
                    | false =>
                        have hpre : "Write failed: ".length = 14 := rfl
                        rw [if_neg (by decide), if_neg (by decide), text_length, hpre, List.length_singleton]
                        omega
                    | true =>
                        have hpre : "Write success: ".length = 15 := rfl
                        have hmid : " = ".length = 3 := rfl
                        rw [if_pos rfl, if_pos rfl, List.length_append, List.length_append, text_length, hpre, ascii_length,
                          hmid, List.length_singleton]
                        omega
          · rw [if_neg hwrite, if_neg hwrite]
            by_cases hread : action = ascii "read"
            · rw [if_pos hread, if_pos hread]
              cases hmac : (flashReadMacToBuf drv probe iface s).1 with
              | none =>
                  have hpre : "Read failed: ".length = 13 := rfl
                  rw [text_length, hpre, List.length_singleton, if_neg (by decide)]
                  omega
              | some macAddr =>
                  have hpre : "Read success: ".length = 14 := rfl
                  have hmid : " = ".length = 3 := rfl
                  rw [List.length_append, List.length_append, text_length, hpre, ascii_length, hmid, List.length_singleton,
                    flashReadMacToBuf_length hmac, Option.isSome_some, if_pos rfl]
                  omega
            · have hpre : "Unknown action: ".length = 16 := rfl
              rw [if_neg hread, if_neg hread, text_length, hpre, List.length_singleton]
              omega

/-! ## Variables -/

/-- The length before the `k`th variable, from `base` on -/
def listed (base : Nat) (items : List (List UInt8 × List UInt8)) (k : Nat) : Nat :=
  base + ((items.take k).map fun item => item.1.length + item.2.length + 5).sum

/-- All variables fit; or the first one that does not leaves room for the remark. The check counts two bytes of a variable
too few. -/
def ListFits (bufsize base : Nat) (items : List (List UInt8 × List UInt8)) : Prop :=
  listed base items items.length < bufsize ∨
    ∃ k < items.length, bufsize + 2 ≤ listed base items (k + 1) ∧ listed base items k + 28 < bufsize

theorem listed_zero (base : Nat) (items : List (List UInt8 × List UInt8)) : listed base items 0 = base := by
  simp [listed]

theorem listed_cons (base : Nat) (item : List UInt8 × List UInt8) (k : Nat) :
    listed base (item :: items) (k + 1) = listed (base + (item.1.length + item.2.length + 5)) items k := by
  simp [listed, Nat.add_assoc]

theorem le_listed (base k : Nat) : base ≤ listed base items k := Nat.le_add_right _ _

theorem itemText_length (item : List UInt8 × List UInt8) : (itemText item).length = item.1.length + item.2.length + 5 := by
  have hpost : "<br>".length = 4 := rfl
  rw [itemText, List.length_append, List.length_append, List.length_cons, ascii_length, hpost]
  omega

/-- One variable more -/
theorem listFits_cons {base : Nat} {item : List UInt8 × List UInt8} : ListFits bufsize base (item :: items) ↔
    if bufsize ≤ base + (item.1.length + item.2.length + 3) then base + 28 < bufsize
    else ListFits bufsize (base + (item.1.length + item.2.length + 5)) items := by
  rw [ListFits, List.length_cons, listed_cons]
  split
  next hfull =>
    have hle := @le_listed items (base + (item.1.length + item.2.length + 5))
    constructor
    · rintro (hall | ⟨k, -, -, hroom⟩)
      · have := hle items.length
        omega
      · cases k with
        | zero => rwa [listed_zero] at hroom
        | succ k =>
            rw [listed_cons] at hroom
            have := hle k
            omega
    · intro hroom
      refine Or.inr ⟨0, Nat.succ_pos _, ?_, ?_⟩
      · rw [listed_cons, listed_zero]
        omega
      · rwa [listed_zero]
  next hroom =>
    rw [ListFits]
    refine or_congr_right ⟨?_, ?_⟩
    · rintro ⟨k, hk, hover, hbefore⟩
      cases k with
      | zero =>
          rw [listed_cons, listed_zero] at hover
          omega
      | succ k =>
          rw [listed_cons] at hover hbefore
          exact ⟨k, Nat.lt_of_succ_lt_succ hk, hover, hbefore⟩
    · rintro ⟨k, hk, hover, hbefore⟩
      refine ⟨k + 1, Nat.succ_lt_succ hk, ?_, ?_⟩
      · rwa [listed_cons]
      · rwa [listed_cons]

theorem listLoop_fits : (if (listLoop bufsize items r).2 then (listLoop bufsize items r).1.len + 28
    else (listLoop bufsize items r).1.len) < bufsize ↔ ListFits bufsize r.len items := by
  induction items generalizing r with
  | nil => simp [listLoop, ListFits, listed]
  | cons item items ih =>
      rw [listFits_cons, listLoop]
      by_cases hfull : bufsize ≤ r.len + (item.1.length + item.2.length + 3)
      · rw [if_pos hfull, if_pos hfull, if_pos rfl]
      · rw [if_neg hfull, if_neg hfull, ih, print_len, itemText_length]

theorem Response.Filled.listLoop (h : r.Filled bufsize) : (listLoop bufsize items r).1.Filled bufsize := by
  induction items generalizing r with
  | nil => exact h
  | cons item items ih =>
      rw [WebHandlers.listLoop]
      split
      next => exact h
      next => exact ih h.print

theorem Response.Filled.listVars (h : r.Filled bufsize) : (listVars env bufsize r).Filled bufsize := by
  rw [WebHandlers.listVars]
  split
  next => exact h.listLoop.print
  next => exact h.listLoop

theorem listVars_len : (listVars env bufsize r).len < bufsize ↔ ListFits bufsize r.len (envGetItems env) := by
  rw [← listLoop_fits, listVars]
  split
  next => rfl
  next => rfl

/-- The length of the answer for one variable, behind the header -/
def varLength (env : Environment) (var : List UInt8) (val : Option (List UInt8)) (valDec : List UInt8) : Nat :=
  if var = ascii "default" then if env.saveenv then 41 else 45
  else if val = none then
    match env.getenv var with
    | some envVal => 9 + var.length + envVal.length
    | none => 26
  else if valDec = [] then if env.setenv var none && env.saveenv then 16 + var.length else 23
  else if env.setenv var (some valDec) && env.saveenv then 11 + var.length + valDec.length
  else 21

theorem varMessage_length (var : List UInt8) (val : Option (List UInt8)) (valDec : List UInt8) :
    (varMessage env var val valDec).length = varLength env var val valDec := by
  rw [varMessage, varLength]
  by_cases hdefault : var = ascii "default"
  · rw [if_pos hdefault, if_pos hdefault]
    cases env.saveenv with
    | false => rfl
    | true => rfl
  rw [if_neg hdefault, if_neg hdefault]
  by_cases hval : val = none
  · rw [if_pos hval, if_pos hval]
    cases env.getenv var with
    | none => rfl
    | some envVal =>
        have hpre : "Value: ".length = 7 := rfl
        dsimp only
        rw [List.length_append, text_length, hpre, List.length_cons, List.length_singleton]
        omega
  rw [if_neg hval, if_neg hval]
  by_cases hempty : valDec = []
  · rw [if_pos hempty, if_pos hempty]
    cases env.setenv var none && env.saveenv with
    | false => rfl
    | true =>
        have hpre : "Success: ".length = 9 := rfl
        have hpost : " unset\n".length = 7 := rfl
        rw [if_pos rfl, if_pos rfl, text_length, hpre, ascii_length, hpost]
        omega
  rw [if_neg hempty, if_neg hempty]
  cases env.setenv var (some valDec) && env.saveenv with
  | false => rfl
  | true =>
      have hpre : "Success: ".length = 9 := rfl
      rw [if_pos rfl, if_pos rfl, List.length_append, text_length, hpre, List.length_cons, List.length_singleton]
      omega

/-! ## Both handlers -/

/-- The texts of `web_macrw_handle` are shorter than the buffer. -/
def MacrwFits (drv : ArtFlash S) (probe : Bool) (argv : List (List UInt8)) (bufsize : Nat) (s : State S) : Prop :=
  64 + macrwLength drv probe argv s < bufsize

/-- The arguments of `web_setenv_handle` can be decoded, and what it prints is shorter than the buffer. -/
def SetenvFits (env : Environment) (argv : List (List UInt8)) (bufsize : Nat) : Prop :=
  ∃ var valDec, decodeArg (argument (ascii "var=") argv) = some var ∧
    decodeArg (argument (ascii "val=") argv) = some valDec ∧
    if var = [] ∨ var = ascii "all" then ListFits bufsize 64 (envGetItems env)
    else 64 + varLength env var (argument (ascii "val=") argv) valDec < bufsize

theorem header_len : (Response.init.print bufsize header).len = 64 := by
  rw [print_len, header_length]
  rfl

theorem macrw_reports_iff : ReportsWritten bufsize (webMacrwHandle drv probe argv bufsize s).1 ↔
    MacrwFits drv probe argv bufsize s := by
  have hfilled : (webMacrwHandle drv probe argv bufsize s).1.Filled bufsize := filled_init.print.print
  have hlen : (webMacrwHandle drv probe argv bufsize s).1.len = 64 + macrwLength drv probe argv s := by
    rw [webMacrwHandle, print_len, header_len, macrwMessage_length]
  rw [hfilled.reports_iff, hlen, MacrwFits]

theorem setenv_reports_iff : (∃ r, webSetenvHandle env argv bufsize = some r ∧ ReportsWritten bufsize r) ↔
    SetenvFits env argv bufsize := by
  have hheader : (Response.init.print bufsize header).Filled bufsize := filled_init.print
  cases hvar : decodeArg (argument (ascii "var=") argv) with
  | none => simp [webSetenvHandle, SetenvFits, hvar]
  | some var =>
      cases hval : decodeArg (argument (ascii "val=") argv) with
      | none => simp [webSetenvHandle, SetenvFits, hvar, hval]
      | some valDec =>
          simp only [webSetenvHandle, SetenvFits, hvar, hval, Option.bind_eq_bind, Option.bind_some, Option.some.injEq,
            exists_eq_left', exists_and_left]
          by_cases hall : var = [] ∨ var = ascii "all"
          · simp only [if_pos hall, Option.some.injEq, exists_eq_left']
            rw [hheader.listVars.terminate.reports_iff, ← @header_len bufsize, ← listVars_len]
            rfl
          · simp only [if_neg hall, Option.some.injEq, exists_eq_left']
            rw [hheader.print.terminate.reports_iff, ← varMessage_length, ← @header_len bufsize, ← @print_len bufsize]
            rfl

/-- The handlers report what they wrote just when their texts are shorter than the buffer. -/
theorem web_handlers_report_iff (drv : ArtFlash S) (probe : Bool) (s : State S) (env : Environment)
    (argv : List (List UInt8)) (bufsize : Nat) :
    (ReportsWritten bufsize (webMacrwHandle drv probe argv bufsize s).1 ↔ MacrwFits drv probe argv bufsize s) ∧
      ((∃ r, webSetenvHandle env argv bufsize = some r ∧ ReportsWritten bufsize r) ↔ SetenvFits env argv bufsize) :=
  ⟨macrw_reports_iff, setenv_reports_iff⟩

end

/-- An action of 440 characters -/
def longAction : List (List UInt8) := [ascii "action=" ++ List.replicate 440 97, ascii "iface=eth0"]

/-- One variable, `a`, with a value of 8123 characters -/
def longVariable : Environment where
  strings := [97 :: 61 :: List.replicate 8123 97]
  getenv := fun name => if name = [97] then some (List.replicate 8123 97) else none
  malloc := true
  setenv := fun _ _ => true
  saveenv := true

theorem longVariable_items : envGetItems longVariable = [([97], List.replicate 8123 97)] := by
  have hcontains : (97 :: 61 :: List.replicate 8123 97 : List UInt8).contains 61 = true := rfl
  have hname : (97 :: 61 :: List.replicate 8123 97 : List UInt8).takeWhile (· ≠ 61) = [97] := rfl
  simp only [envGetItems, longVariable, if_true, List.filter_cons, List.filter_nil, hcontains, List.filterMap_cons,
    List.filterMap_nil, hname, Option.map_some]

/-- The answer to the action has 521 bytes, and the list of the variables 8193. -/
theorem web_handlers_overrun : ¬ ReportsWritten 512 (webMacrwHandle sampleChip true longAction 512 sampleState).1 ∧
    ¬ ∃ r, webSetenvHandle longVariable [ascii "var=all"] 8192 = some r ∧ ReportsWritten 8192 r := by
  constructor
  · have haction : argument (ascii "action=") longAction = some (List.replicate 440 97) := by
      set_option maxRecDepth 4000 in decide
    have hiface : argument (ascii "iface=") longAction = some (ascii "eth0") := by decide
    have hwrite : List.replicate 440 97 ≠ ascii "write" := by decide
    have hread : List.replicate 440 97 ≠ ascii "read" := by decide
    rw [macrw_reports_iff, MacrwFits, macrwLength, haction, hiface]
    dsimp only
    rw [if_neg hwrite, if_neg hread, List.length_replicate]
    decide
  · rw [setenv_reports_iff, SetenvFits]
    rintro ⟨var, valDec, hvar, -, hfits⟩
    have hall : decodeArg (argument (ascii "var=") [ascii "var=all"]) = some (ascii "all") := by decide
    cases hall.symm.trans hvar
    have hlisted : listed 64 [([97], List.replicate 8123 97)] 1 = 8193 := by
      rw [listed_cons, listed_zero, List.length_replicate]
      rfl
    rw [if_pos (Or.inr rfl), ListFits, longVariable_items, List.length_singleton, hlisted] at hfits
    rcases hfits with hlen | ⟨k, hk, hover, -⟩
    · omega
    · rw [Nat.lt_one_iff] at hk
      rw [hk, hlisted] at hover
      omega

end Uboot.WebHandlers
