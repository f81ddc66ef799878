import Uboot.Lib.Stride
import Mathlib.Logic.Function.Basic
import Mathlib.Data.Finset.Card

/-!
# The environment hash table (`lib/hashtable.c`)

`hcreate_r`, `hsearch_r` and `hdelete_r`: open addressing with double hashing over the slots `1..size`.
A slot holds in `used` the first hash value of its key, `0` when it has never been used and `-1` when its
entry was deleted. Pointers to strings are `Option CStr`, with `none` for `NULL`.
-/

namespace Uboot.Env

open Uboot.Lib

/-- The bytes of a C string, without the terminating NUL. -/
abbrev CStr := List UInt8

/-- `unsigned int` and `size_t` have 32 bits. -/
abbrev wordSize : Nat := 2 ^ 32

inductive Errno where
  | EINVAL | ENOMEM | ESRCH
deriving DecidableEq, Repr

inductive Action where
  | FIND | ENTER
deriving DecidableEq, Repr

/-- `ENTRY` as an argument of `hsearch_r`. -/
structure Entry where
  key : CStr
  data : Option CStr
deriving DecidableEq, Repr

/-- `_ENTRY`: one slot of the table. -/
structure Slot where
  used : Int
  key : Option CStr
  data : Option CStr
deriving DecidableEq, Repr

/-- `struct hsearch_data` with a table. A `struct hsearch_data` whose `table` is `NULL` is `none`. -/
structure HTab where
  table : Nat → Slot
  size : Nat
  filled : Nat

/-! ## `hcreate_r` -/

/-- `while (div * div < number && number % div != 0) div += 2;` -/
def isprimeLoop : Nat → Nat → Nat → Nat
  | 0, _, div => div
  | fuel + 1, number, div =>
      if div * div % wordSize < number ∧ number % div ≠ 0 then
        isprimeLoop fuel number ((div + 2) % wordSize)
      else div

/-- `isprime`. An odd number above one divides itself, so that the loop ends before `number` rounds. -/
def isprime (number : Nat) : Bool := number % isprimeLoop number number 3 != 0

/-- `while (!isprime(nel)) nel += 2;` -/
def primeLoop : Nat → Nat → Nat
  | 0, nel => nel
  | fuel + 1, nel => if isprime nel then nel else primeLoop fuel ((nel + 2) % wordSize)

/-- The table size `hcreate_r` computes from `nel`. The loop passes `1` at the latest. -/
def tableSize (nel : Nat) : Nat := primeLoop wordSize ((nel ||| 1) % wordSize)

/-- `sizeof(_ENTRY)`: an `int` and two pointers. -/
def sizeofSlot : Nat := 12

/-- `calloc`: an array that does not fit the address space cannot be allocated. -/
def calloc (nmemb size : Nat) : Option (Nat → Slot) :=
  if nmemb * size < wordSize then some (fun _ => ⟨0, none, none⟩) else none

/-- `hcreate_r`. The result is `none` where the source returns `0`. -/
def hcreateR (nel : Nat) (htab : Option HTab) : Option HTab :=
  match htab with
  | some _ => none
  | none => (calloc (tableSize nel + 1) sizeofSlot).map fun table => ⟨table, tableSize nel, 0⟩

/-! ## `hsearch_r` -/

namespace HTab

/-- `htab->table[idx] = slot` -/
def setSlot (t : HTab) (idx : Nat) (slot : Slot) : HTab :=
  { t with table := Function.update t.table idx slot }

end HTab

/-- `hval` after the loop over the key, last character first. -/
def hashKey (key : CStr) : Nat :=
  key.foldr (fun c hval => (hval * 16 + c.toNat) % wordSize) (key.length % wordSize)

/-- First hash function: the remainder, but never zero. -/
def hval (size : Nat) (key : CStr) : Nat :=
  if hashKey key % size = 0 then 1 else hashKey key % size

/-- Second hash function. `size - 2` is unsigned. -/
def hval2 (size hval : Nat) : Nat := 1 + hval % ((size + wordSize - 2) % wordSize)

/-- `used == hval && strcmp(item.key, entry.key) == 0` -/
def Slot.holds (s : Slot) (hval : Nat) (key : CStr) : Bool :=
  s.used == (hval : Int) && s.key == some key

/-- How the `do … while` loop of `hsearch_r` is left. -/
inductive Probe where
  /-- at an entry with the key -/
  | found (idx : Nat)
  /-- at an empty slot, or back at the first index -/
  | free (idx : Nat)
deriving DecidableEq, Repr

/-- The `do … while` loop of `hsearch_r`; `idx` is the index the round starts from. -/
def probeLoop (t : HTab) (key : CStr) (hval hval2 : Nat) : Nat → Nat → Option Probe
  | 0, _ => none
  | fuel + 1, idx =>
      let idx := stepBack t.size hval2 idx
      if idx = hval then some (.free idx)
      else if (t.table idx).holds hval key then some (.found idx)
      else if (t.table idx).used ≠ 0 then probeLoop t key hval hval2 fuel idx
      else some (.free idx)

/-- Return value, `*retval` as the index of the entry's slot, `errno` and the table of `hsearch_r`. -/
structure SearchResult where
  ret : Nat
  retval : Option Nat
  errno : Option Errno
  htab : HTab

/-- Which of the two `strdup` calls of an `ENTER` get memory. -/
structure DupMem where
  key : Bool
  data : Bool
deriving DecidableEq, Repr

/-- All allocations succeed. -/
def DupMem.all : DupMem := ⟨true, true⟩

/-- `strdup`, which also returns `NULL` for `NULL`. -/
def strdup (mem : Bool) (s : Option CStr) : Option CStr := if mem then s else none

/-- The entry is there: overwrite its value for `ENTER`, and return it. -/
def useEntry (mem : DupMem) (item : Entry) (action : Action) (t : HTab) (idx : Nat) : SearchResult :=
  if action = .ENTER ∧ item.data ≠ none then
    let t' := t.setSlot idx { t.table idx with data := strdup mem.data item.data }
    if (t'.table idx).data = none then ⟨0, none, some .ENOMEM, t'⟩ else ⟨idx, some idx, none, t'⟩
  else ⟨idx, some idx, none, t⟩

/-- The code after the search, entered when the key was not found and the search stopped at `idx`. -/
def enterEntry (mem : DupMem) (item : Entry) (action : Action) (t : HTab)
    (hval firstDeleted idx : Nat) : SearchResult :=
  if action = .ENTER then
    if t.filled = t.size then ⟨0, none, some .ENOMEM, t⟩
    else
      let idx := if firstDeleted ≠ 0 then firstDeleted else idx
      let t' := t.setSlot idx ⟨hval, strdup mem.key (some item.key), strdup mem.data item.data⟩
      if (t'.table idx).key = none ∨ (t'.table idx).data = none then ⟨0, none, some .ENOMEM, t'⟩
      else ⟨1, some idx, none, { t' with filled := (t'.filled + 1) % wordSize }⟩
  else ⟨0, none, some .ESRCH, t⟩

/-- `hsearch_r`. `none` is a probe loop that does not end. -/
def hsearchR (mem : DupMem) (item : Entry) (action : Action) (t : HTab) : Option SearchResult :=
  let hv := hval t.size item.key
  if (t.table hv).used ≠ 0 then
    let firstDeleted := if (t.table hv).used = -1 then hv else 0
    if (t.table hv).holds hv item.key then some (useEntry mem item action t hv)
    else
      -- the walk is back at its start after `size` rounds
      (probeLoop t item.key hv (hval2 t.size hv) t.size hv).map fun
        | .found idx => useEntry mem item action t idx
        | .free idx => enterEntry mem item action t hv firstDeleted idx
  else some (enterEntry mem item action t hv 0 hv)

/-! ## `hdelete_r` -/

/-- `hdelete_r`. The pointers of the freed entry stay in the slot, as in the source. -/
def hdeleteR (key : CStr) (t : HTab) : Option (Nat × HTab) :=
  (hsearchR .all ⟨key, none⟩ .FIND t).map fun r =>
    if r.ret = 0 then (0, r.htab)
    else
      let t' := r.htab.setSlot r.ret { r.htab.table r.ret with used := -1 }
      (1, { t' with filled := (t'.filled + wordSize - 1) % wordSize })

/-! ## The bindings of a table -/

/-- Slot `i` holds an entry. -/
def HTab.LiveAt (t : HTab) (i : Nat) : Prop := 1 ≤ i ∧ i ≤ t.size ∧ 0 < (t.table i).used

instance (t : HTab) (i : Nat) : Decidable (t.LiveAt i) := inferInstanceAs (Decidable (_ ∧ _))

/-- `k` is bound to `v` in some slot. -/
def HTab.Binds (t : HTab) (k v : CStr) : Prop :=
  ∃ i, t.LiveAt i ∧ (t.table i).key = some k ∧ (t.table i).data = some v

/-- `k` is the key of some slot that holds an entry. -/
def HTab.Live (t : HTab) (k : CStr) : Prop := ∃ i, t.LiveAt i ∧ (t.table i).key = some k

/-- The number of slots that hold an entry. -/
def HTab.liveCount (t : HTab) : Nat := ((Finset.Icc 1 t.size).filter fun i => 0 < (t.table i).used).card

/-- Some slot of `1..size` has never been used. -/
def HTab.HasUnused (t : HTab) : Prop := ∃ i, 1 ≤ i ∧ i ≤ t.size ∧ (t.table i).used = 0

/-! ## Runs of calls -/

/-- A call on the table. -/
inductive Op where
  | enter (key value : CStr)
  | find (key : CStr)
  | delete (key : CStr)
deriving DecidableEq, Repr

/-- The table after a call, with all allocations succeeding. -/
def HTab.apply (t : HTab) : Op → HTab
  | .enter k v => ((hsearchR .all ⟨k, some v⟩ .ENTER t).map (·.htab)).getD t
  | .find k => ((hsearchR .all ⟨k, none⟩ .FIND t).map (·.htab)).getD t
  | .delete k => ((hdeleteR k t).map (·.2)).getD t

/-- The table after a sequence of calls. -/
def HTab.run (t : HTab) (ops : List Op) : HTab := ops.foldl HTab.apply t

/-- The value of the most recent `enter` of `k`, if no later call deletes `k`. -/
def lastEntered (k : CStr) (ops : List Op) : Option CStr :=
  ops.foldl (fun b op => match op with
    | .enter k' v => if k' = k then some v else b
    | .find _ => b
    | .delete k' => if k' = k then none else b) none

end Uboot.Env
