import Mathlib.Algebra.Group.Nat.Defs
import Uboot.Lib.Ranges

/-!
# Logical memory blocks (`lib/lmb.c`)

A region table holds `cnt` ranges in the entries of `region` from `0` on. Addresses, sizes and `cnt` are
32-bit and wrap. An index past the end of the array stands for the memory that follows it.
-/

namespace Uboot.Lmb

open Uboot.Lib

abbrev wordSize : Nat := 2 ^ 32

/-- `MAX_LMB_REGIONS` -/
def maxLmbRegions : Nat := 8

/-- `struct lmb_property` -/
abbrev LmbProperty := Range

/-- `struct lmb_region`, without the field `size` that nothing reads. -/
structure LmbRegion where
  cnt : Nat
  region : Nat → LmbProperty

/-- `struct lmb` -/
structure LmbState where
  memory : LmbRegion
  reserved : LmbRegion

def add32 (a b : Nat) : Nat := (a + b) % wordSize

def sub32 (a b : Nat) : Nat := (a + wordSize - b) % wordSize

def LmbRegion.set (rgn : LmbRegion) (i : Nat) (p : LmbProperty) : LmbRegion :=
  { rgn with region := Function.update rgn.region i p }

/-! ## Adjacent ranges -/

/-- `lmb_addrs_adjacent` -/
def lmbAddrsAdjacent (base1 size1 base2 size2 : Nat) : Int :=
  if base2 = add32 base1 size1 then 1 else if base1 = add32 base2 size2 then -1 else 0

/-- `lmb_regions_adjacent` -/
def lmbRegionsAdjacent (rgn : LmbRegion) (r1 r2 : Nat) : Int :=
  lmbAddrsAdjacent (rgn.region r1).base (rgn.region r1).size (rgn.region r2).base (rgn.region r2).size

/-! ## Removing and joining regions -/

/-- `n` rounds of the loop in `lmb_remove_region`, from `i` on. -/
def shiftDown (region : Nat → LmbProperty) (i : Nat) : Nat → Nat → LmbProperty
  | 0 => region
  | n + 1 => shiftDown (Function.update region i (region (i + 1))) (i + 1) n

/-- `lmb_remove_region`. The bound `cnt - 1` of the loop is unsigned. -/
def lmbRemoveRegion (rgn : LmbRegion) (r : Nat) : LmbRegion :=
  ⟨sub32 rgn.cnt 1, shiftDown rgn.region r (sub32 rgn.cnt 1 - r)⟩

/-- `lmb_coalesce_regions` -/
def lmbCoalesceRegions (rgn : LmbRegion) (r1 r2 : Nat) : LmbRegion :=
  lmbRemoveRegion
    (rgn.set r1 ⟨(rgn.region r1).base, add32 (rgn.region r1).size (rgn.region r2).size⟩) r2

/-! ## Adding a region -/

/-- How the first loop of `lmb_add_region` ends. -/
inductive CoalesceLoop where
  /-- the region is already there -/
  | present
  /-- at index `i`, with `coalesced` regions joined -/
  | stop (i coalesced : Nat) (rgn : LmbRegion)

/-- The first loop of `lmb_add_region`; `n` rounds are left from `i` on. -/
def coalesceLoop (rgn : LmbRegion) (base size : Nat) : Nat → Nat → CoalesceLoop
  | 0, i => .stop i 0 rgn
  | n + 1, i =>
      let rgnbase := (rgn.region i).base
      let rgnsize := (rgn.region i).size
      if rgnbase = base ∧ rgnsize = size then .present
      else if 0 < lmbAddrsAdjacent base size rgnbase rgnsize then
        .stop i 1 (rgn.set i ⟨sub32 rgnbase size, add32 rgnsize size⟩)
      else if lmbAddrsAdjacent base size rgnbase rgnsize < 0 then
        .stop i 1 (rgn.set i ⟨rgnbase, add32 rgnsize size⟩)
      else coalesceLoop rgn base size n (i + 1)

/-- The second loop of `lmb_add_region`, from `i = n - 1` down. -/
def insertLoop (base size : Nat) : Nat → (Nat → LmbProperty) → Nat → LmbProperty
  | 0, region => region
  | i + 1, region =>
      if base < (region i).base then insertLoop base size i (Function.update region (i + 1) (region i))
      else Function.update region (i + 1) ⟨base, size⟩

/-- After the first loop of `lmb_add_region`: region `i` is joined with the next one when they touch. -/
def joinNext (rgn : LmbRegion) (i coalesced : Nat) : Nat × LmbRegion :=
  if i < sub32 rgn.cnt 1 ∧ lmbRegionsAdjacent rgn i (i + 1) ≠ 0 then
    (coalesced + 1, lmbCoalesceRegions rgn i (i + 1))
  else (coalesced, rgn)

/-- The end of `lmb_add_region`: the new region goes into the table. -/
def insertRegion (rgn : LmbRegion) (base size : Nat) : LmbRegion :=
  let region := insertLoop base size rgn.cnt rgn.region
  ⟨add32 rgn.cnt 1, if base < (region 0).base then Function.update region 0 ⟨base, size⟩ else region⟩

/-- `lmb_add_region` -/
def lmbAddRegion (rgn : LmbRegion) (base size : Nat) : Int × LmbRegion :=
  if rgn.cnt = 1 ∧ (rgn.region 0).size = 0 then (0, rgn.set 0 ⟨base, size⟩)
  else
    match coalesceLoop rgn base size rgn.cnt 0 with
    | .present => (0, rgn)
    | .stop i coalesced rgn =>
        let r := joinNext rgn i coalesced
        if r.1 ≠ 0 then (r.1, r.2)
        else if maxLmbRegions ≤ r.2.cnt then (-1, r.2)
        else (0, insertRegion r.2 base size)

/-! ## The calls -/

/-- `lmb_init`. The entries from `1` on keep what was there. -/
def lmbInit (lmb : LmbState) : LmbState :=
  ⟨⟨1, Function.update lmb.memory.region 0 ⟨0, 0⟩⟩, ⟨1, Function.update lmb.reserved.region 0 ⟨0, 0⟩⟩⟩

/-- `lmb_add` -/
def lmbAdd (lmb : LmbState) (base size : Nat) : Int × LmbState :=
  let r := lmbAddRegion lmb.memory base size
  (r.1, { lmb with memory := r.2 })

/-- `lmb_reserve` -/
def lmbReserve (lmb : LmbState) (base size : Nat) : Int × LmbState :=
  let r := lmbAddRegion lmb.reserved base size
  (r.1, { lmb with reserved := r.2 })

/-- The loop of `lmb_free`: the first region, from `i` on, that contains the range from `base` to `stop`. -/
def findRegion (rgn : LmbRegion) (base stop : Nat) : Nat → Nat → Option Nat
  | 0, _ => none
  | n + 1, i =>
      if (rgn.region i).base ≤ base ∧ stop ≤ add32 (rgn.region i).base (rgn.region i).size then some i
      else findRegion rgn base stop n (i + 1)

/-- `lmb_free` -/
def lmbFree (lmb : LmbState) (base size : Nat) : Int × LmbState :=
  let rgn := lmb.reserved
  let stop := add32 base size
  match findRegion rgn base stop rgn.cnt 0 with
  | none => (-1, lmb)
  | some i =>
      let rgnbegin := (rgn.region i).base
      let rgnend := add32 rgnbegin (rgn.region i).size
      if rgnbegin = base ∧ rgnend = stop then (0, { lmb with reserved := lmbRemoveRegion rgn i })
      else if rgnbegin = base then
        (0, { lmb with reserved := rgn.set i ⟨stop, sub32 (rgn.region i).size size⟩ })
      else if rgnend = stop then
        (0, { lmb with reserved := rgn.set i ⟨rgnbegin, sub32 (rgn.region i).size size⟩ })
      else
        let r := lmbAddRegion (rgn.set i ⟨rgnbegin, sub32 base rgnbegin⟩) stop (sub32 rgnend stop)
        (r.1, { lmb with reserved := r.2 })

/-! ## Runs of calls -/

/-- A call that changes the reserved ranges. -/
inductive Call where
  | reserve (range : Range)
  | free (range : Range)
deriving DecidableEq, Repr

def LmbState.call (lmb : LmbState) : Call → Int × LmbState
  | .reserve r => lmbReserve lmb r.base r.size
  | .free r => lmbFree lmb r.base r.size

def LmbState.run (lmb : LmbState) (calls : List Call) : LmbState := calls.foldl (fun l c => (l.call c).2) lmb

/-- The addresses covered by the reserved regions. -/
def LmbState.reservedSet (lmb : LmbState) : Set Nat := cover lmb.reserved.cnt lmb.reserved.region

end Uboot.Lmb
