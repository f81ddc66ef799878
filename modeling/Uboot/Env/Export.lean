import Uboot.Env.HashTable
import Mathlib.Data.List.Basic

/-!
# Linear export and import of the environment (`lib/hashtable.c`)

`hexport_r` writes the entries as `name=value` strings, sorted with `qsort` (`lib/qsort.c`) and ended by a
separator; `himport_r` parses such a text in a private copy that it changes in place. A pointer into the
copy is an index, and an access outside of the copy makes the whole call `none`.
-/

namespace Uboot.Env

/-! ## `strcmp` and `qsort` -/

/-- The value of a byte as `signed char`. -/
def signedChar (b : UInt8) : Int := if b.toNat < 128 then b.toNat else (b.toNat : Int) - 256

/-- `strcmp` of `lib/string.c`: the first difference of two bytes, as `signed char`. -/
def strcmp : CStr → CStr → Int
  | [], [] => 0
  | c :: _, [] => signedChar c
  | [], d :: _ => signedChar (0 - d)
  | c :: cs, d :: ds => if c = d then strcmp cs ds else signedChar (c - d)

section
variable {α : Type} (comp : α → α → Int)

/-- `do { wgap = 3 * wgap + 1; } while (wgap < (nel-1)/3);` -/
def qsortGap (nel : Nat) : Nat → Nat → Nat
  | 0, wgap => wgap
  | fuel + 1, wgap => if 3 * wgap + 1 < (nel - 1) / 3 then qsortGap nel fuel (3 * wgap + 1) else 3 * wgap + 1

/-- The innermost loop: exchange with the element `wgap` places before, as long as that one is larger. -/
def qsortSink (wgap : Nat) : Nat → List α → Nat → List α
  | 0, l, _ => l
  | fuel + 1, l, j =>
      match l[j - wgap]?, l[j]? with
      | some a, some b =>
          if comp a b ≤ 0 then l
          else if wgap ≤ j - wgap then qsortSink wgap fuel (l.swap (j - wgap) j) (j - wgap)
          else l.swap (j - wgap) j
      | _, _ => l

/-- `i = wgap; do { … i += width; } while (i < nel);` -/
def qsortPass (wgap : Nat) : Nat → List α → Nat → List α
  | 0, l, _ => l
  | fuel + 1, l, i =>
      let l' := qsortSink comp wgap l.length l i
      if i + 1 < l.length then qsortPass wgap fuel l' (i + 1) else l'

/-- `do { … wgap = (wgap - width)/3; } while (wgap);` -/
def qsortPasses : Nat → List α → Nat → List α
  | 0, l, _ => l
  | fuel + 1, l, wgap =>
      let l' := qsortPass comp wgap l.length l wgap
      if (wgap - 1) / 3 ≠ 0 then qsortPasses fuel l' ((wgap - 1) / 3) else l'

/-- `qsort`, with offsets counted in elements. Every loop makes fewer rounds than there are elements. -/
def qsort (l : List α) : List α :=
  if 1 < l.length then qsortPasses comp l.length l (qsortGap l.length l.length 0) else l

end

/-! ## `hexport_r` -/

/-- `cmpkey` -/
def cmpkey (e₁ e₂ : CStr × CStr) : Int := strcmp e₁.1 e₂.1

/-- The entries that pass 1 collects: all of them, or those named by the arguments. -/
def exportList (t : HTab) (argv : List CStr) : List (CStr × CStr) :=
  (List.range' 1 t.size).filterMap fun i =>
    let s := t.table i
    if 0 < s.used ∧ (argv = [] ∨ s.key.getD [] ∈ argv) then some (s.key.getD [], s.data.getD []) else none

/-- The length of a value in the output, as pass 1 computes it. -/
def valueLen (sep : UInt8) (data : CStr) : Nat :=
  if sep = 0 then data.length
  else (data.map fun c => if c = sep ∨ c = 92 then 2 else 1).sum

/-- `totlen` after pass 1. -/
def exportTotlen (sep : UInt8) (list : List (CStr × CStr)) : Nat :=
  (list.map fun e => e.1.length + 2 + valueLen sep e.2 + 2).sum

/-- A value with separators and backslashes escaped. -/
def escape (sep : UInt8) (data : CStr) : List UInt8 :=
  data.flatMap fun c => if c = sep ∨ c = 92 then [92, c] else [c]

/-- What pass 2 writes for an entry. -/
def exportEntry (sep : UInt8) (e : CStr × CStr) : List UInt8 :=
  e.1 ++ 61 :: (escape sep e.2 ++ [sep])

/-- What pass 2 writes. -/
def exportBytes (sep : UInt8) (list : List (CStr × CStr)) : List UInt8 :=
  list.flatMap (exportEntry sep) ++ [0]

/-- `hexport_r`: the returned size and the bytes that pass 2 writes to the cleared buffer, or `none` for
`-1`. `buf` tells that the caller has a buffer or that `calloc` gets one. -/
def hexportR (t : HTab) (sep : UInt8) (buf : Bool) (size : Nat) (argv : List CStr) :
    Option (Nat × List UInt8) :=
  let list := exportList t argv
  let totlen := exportTotlen sep list
  if size ≠ 0 ∧ size < totlen + 1 then none
  else if buf then
    some (if size ≠ 0 then size else totlen + 1, exportBytes sep (qsort cmpkey list))
  else none

/-- A cleared buffer of the given size after `out` was written to it. -/
def exportBuffer (size : Nat) (out : List UInt8) : List UInt8 :=
  out ++ List.replicate (size - out.length) 0

/-! ## `himport_r` -/

/-- `*p = b` in the private copy. -/
def writeAt (data : List UInt8) (p : Nat) (b : UInt8) : Option (List UInt8) :=
  if p < data.length then some (data.set p b) else none

/-- The C string that starts at `p`. -/
def cstrAt (data : List UInt8) (p : Nat) : Option CStr :=
  if 0 ∈ data.drop p then some ((data.drop p).takeWhile (· ≠ 0)) else none

/-- `isblank` -/
def isblank (c : UInt8) : Bool := c = 32 || c = 9

/-- `while (cond(*dp)) ++dp;` A pointer that moves this far has left the copy. -/
def skipWhile (cond : UInt8 → Bool) (data : List UInt8) : Nat → Nat → Option Nat
  | 0, _ => none
  | fuel + 1, dp =>
      match data[dp]? with
      | none => none
      | some c => if cond c then skipWhile cond data fuel (dp + 1) else some dp

/-- The loop that parses a value and removes escapes in place. Result: the copy, `dp` and `sp`. -/
def parseValue (sep : UInt8) : Nat → List UInt8 → Nat → Nat → Option (List UInt8 × Nat × Nat)
  | 0, _, _, _ => none
  | fuel + 1, data, dp, sp => do
      let c ← data[dp]?
      if c = 0 ∨ c = sep then some (data, dp, sp)
      else
        let dp ← if c = 92 then (data[dp + 1]?).map fun d => if d ≠ 0 then dp + 1 else dp else some dp
        let c ← data[dp]?
        let data ← writeAt data sp c
        parseValue sep fuel data (dp + 1) (sp + 1)

/-- `*dp == '\0' || *(dp + 1) == '\0' || *dp == sep || *(dp + 1) == sep` -/
def isDelete (sep : UInt8) (data : List UInt8) (dp : Nat) : Option Bool := do
  let c ← data[dp]?
  if c = 0 then some true
  else
    let d ← data[dp + 1]?
    some (d = 0 || c = sep || d = sep)

/-- One round of the parser: on to the next one, or the return with `0`. -/
inductive ImportStep where
  | next (data : List UInt8) (dp : Nat) (htab : HTab)
  | fail (htab : HTab)

/-- The body of the `do … while` loop. -/
def importBody (sep : UInt8) (data : List UInt8) (dp : Nat) (t : HTab) : Option ImportStep := do
  let rounds := data.length + 1
  let dp ← skipWhile isblank data rounds dp
  let c ← data[dp]?
  if c = 35 then
    let dp ← skipWhile (fun c => c ≠ 0 && c ≠ sep) data rounds dp
    some (.next data (dp + 1) t)
  else
    let name := dp
    let dp ← skipWhile (fun c => c ≠ 61 && c ≠ 0 && c ≠ sep) data rounds dp
    if (← isDelete sep data dp) then
      let c ← data[dp]?
      let data ← writeAt data dp 0
      let dp := dp + 1
      -- the second terminator is written only after a '='
      let (data, dp) ← if c = 61 then (writeAt data dp 0).map fun data => (data, dp + 1) else some (data, dp)
      let (_, t) ← hdeleteR (← cstrAt data name) t
      some (.next data dp t)
    else
      let data ← writeAt data dp 0
      let value := dp + 1
      let (data, dp, sp) ← parseValue sep rounds data value value
      let data ← writeAt data sp 0
      let r ← hsearchR .all ⟨← cstrAt data name, ← cstrAt data value⟩ .ENTER t
      if r.retval = none then some (.fail r.htab) else some (.next data (dp + 1) r.htab)

/-- `do { … } while ((dp < data + size) && *dp);` Every round moves `dp` on. -/
def importLoop (sep : UInt8) : Nat → List UInt8 → Nat → HTab → Option (Nat × HTab)
  | 0, _, _, _ => none
  | fuel + 1, data, dp, t => do
      match ← importBody sep data dp t with
      | .fail t => some (0, t)
      | .next data dp t =>
          if dp < data.length then
            if (← data[dp]?) ≠ 0 then importLoop sep fuel data dp t else some (1, t)
          else some (1, t)

/-- The number of entries the table is made for. -/
def importEntries (size : Nat) : Nat := min (64 + size / 8) 512

/-- `himport_r`: the return value and the table afterwards. `mem` tells that `malloc` gets the copy, and
`noclear` is the flag `H_NOCLEAR`. -/
def himportR (mem : Bool) (htab : Option HTab) (env : List UInt8) (sep : UInt8) (noclear : Bool) :
    Option (Nat × Option HTab) :=
  if mem then
    let kept := if noclear then htab else none
    match kept.or (hcreateR (importEntries env.length) none) with
    | none => some (0, none)
    | some t => (importLoop sep (env.length + 1) env 0 t).map fun r => (r.1, some r.2)
  else some (0, htab)

end Uboot.Env
