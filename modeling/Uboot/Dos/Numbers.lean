import Uboot.Dos.Termination

/-!
# The numbers that are printed and the numbers that are looked up
-/

namespace Uboot.Dos

open Lib.Explore

/-- A number is printed with a start and a size, other than for an extended partition. -/
def Listed (lines : List Line) (part : Int) (start size : UInt32) : Prop :=
  (∃ (partNum : Nat) (sysInd : UInt8), partNum = part ∧ isExtended sysInd = false ∧ Line.part partNum start size sysInd ∈ lines) ∨
    part = 1 ∧ start = 0 ∧ ∃ mediaType, Line.pbr size mediaType ∈ lines

/-- What is looked up is what is printed, and what the board keeps. -/
structure Agree (d : BlockDev) (lines : List Line) : Prop where
  listed : ∀ part, ∃ levels r, getPartitionInfoDos d levels part = some r ∧
    ∀ start size, Listed lines part start size ↔ ∃ info, r = some info ∧ info.start = start ∧ info.size = size
  first : ∀ b levels info, getPartitionInfoDos d levels 1 = some (some info) →
    (lines.foldl Line.keep b).bootPartLbaStart = info.start ∧ (lines.foldl Line.keep b).bootPartSize = info.size
  third : ∀ b levels info, getPartitionInfoDos d levels 3 = some (some info) → (lines.foldl Line.keep b).thirdPartLbaStart = info.start

/-- The tables that the lookup may come to -/
def Reached (d : BlockDev) (p q : Place) : Prop := Relation.ReflTransGen (Next (getLinks d)) p q

/-- A table is no FAT sector, and has one extended entry at most. -/
def Plain (d : BlockDev) (p : Place) : Prop := ∀ buffer, d.blockRead p.1 = some buffer → hasMagic buffer = true →
  looksLikeFat buffer = false ∧ ((table buffer).filter fun pt => isExtended pt.sysInd).length ≤ 1

/-- The partitions of a table have a boot indicator of 0x00 or 0x80. -/
def BootBytes (d : BlockDev) (p : Place) : Prop := ∀ buffer, d.blockRead p.1 = some buffer → hasMagic buffer = true →
  ∀ pt ∈ table buffer, pt.sysInd ≠ 0 → isExtended pt.sysInd = false → bootOk pt = true

/-! ## The entries with their numbers -/

structure Item where
  num : Nat
  sector : UInt32
  entry : Entry

def Item.line (it : Item) : Line := printOnePart it.entry it.sector it.num

/-- An item is what is looked for. -/
def Item.is (whichPart : Int) (it : Item) : Bool := bootOk it.entry && (it.num = whichPart && isExtended it.entry.sysInd = false)

def entryItems (sector : UInt32) : List Entry → Nat → List Item
  | [], _ => []
  | pt :: pts, n =>
    if pt.sysInd ≠ 0 ∧ (sector = 0 ∨ isExtended pt.sysInd = false) then ⟨n, sector, pt⟩ :: entryItems sector pts (nextNum sector pt n)
    else entryItems sector pts (nextNum sector pt n)

def lastNum (sector : UInt32) (pts : List Entry) (n : Nat) : Nat := pts.foldl (fun n pt => nextNum sector pt n) n

/-- The items of the tables along the lookup -/
def chainItems (d : BlockDev) : Nat → UInt32 → UInt32 → Nat → Option (List Item)
  | 0, _, _, _ => none
  | levels + 1, sector, relative, n =>
    match d.blockRead sector with
    | none => some []
    | some buffer =>
      if hasMagic buffer = false then some []
      else
        match (table buffer).find? fun pt => isExtended pt.sysInd with
        | none => some (entryItems sector (table buffer) n)
        | some pt =>
          (chainItems d levels (pt.start4 + relative) (if sector = 0 then pt.start4 + relative else relative)
            (lastNum sector (table buffer) n)).map (entryItems sector (table buffer) n ++ ·)

section
variable {d : BlockDev} {levels n : Nat} {sector relative : UInt32} {pts : List Entry} {whichPart : Int} {items : List Item} {it : Item}

theorem printEntries_eq : printEntries sector pts n = ((entryItems sector pts n).map Item.line, lastNum sector pts n) := by
  induction pts generalizing n with
  | nil => rfl
  | cons pt pts ih =>
      rw [printEntries, ih, entryItems]
      dsimp only
      split <;> rfl

theorem findEntry_eq : findEntry d whichPart sector pts n =
    match (entryItems sector pts n).find? (Item.is whichPart) with
    | some it => .error (partInfo d it.entry it.sector it.num)
    | none => .ok (lastNum sector pts n) := by
  induction pts generalizing n with
  | nil => rfl
  | cons pt pts ih =>
      rw [findEntry, entryItems]
      by_cases hfound : bootOk pt ∧ pt.sysInd ≠ 0 ∧ n = whichPart ∧ isExtended pt.sysInd = false
      · have his : Item.is whichPart ⟨n, sector, pt⟩ = true := by simp [Item.is, hfound.1, hfound.2.2.1, hfound.2.2.2]
        rw [if_pos hfound, if_pos ⟨hfound.2.1, Or.inr hfound.2.2.2⟩, List.find?_cons_of_pos his]
      · have hlast : lastNum sector (pt :: pts) n = lastNum sector pts (nextNum sector pt n) := rfl
        rw [if_neg hfound, ih, hlast]
        by_cases hitem : pt.sysInd ≠ 0 ∧ (sector = 0 ∨ isExtended pt.sysInd = false)
        · have his : Item.is whichPart ⟨n, sector, pt⟩ = false := by
            refine Bool.eq_false_of_not_eq_true fun h => hfound ?_
            simp only [Item.is, Bool.and_eq_true, decide_eq_true_eq] at h
            exact ⟨h.1, hitem.1, h.2.1, h.2.2⟩
          rw [if_pos hitem, List.find?_cons_of_neg (by rw [his]; exact Bool.false_ne_true)]
        · rw [if_neg hitem]

/-- The lookup finds the first item that is what is looked for. -/
theorem get_eq (h : chainItems d levels sector relative n = some items) : getPartitionInfoExtended d whichPart levels sector relative n =
    some ((items.find? (Item.is whichPart)).map fun it => partInfo d it.entry it.sector it.num) := by
  induction levels generalizing sector relative n items with
  | zero => cases h
  | succ levels ih =>
      rw [chainItems] at h
      rw [getPartitionInfoExtended]
      cases hread : d.blockRead sector with
      | none =>
          rw [hread] at h
          obtain rfl := Option.some.inj h
          rfl
      | some buffer =>
          rw [hread] at h
          dsimp only at h ⊢
          cases hmagic : hasMagic buffer with
          | false =>
              rw [hmagic, if_pos rfl] at h
              obtain rfl := Option.some.inj h
              rfl
          | true =>
              rw [hmagic, if_neg Bool.true_eq_false_eq_False] at h
              rw [if_neg Bool.true_eq_false_eq_False, findEntry_eq]
              cases hext : (table buffer).find? fun pt => isExtended pt.sysInd with
              | none =>
                  rw [hext] at h
                  obtain rfl := Option.some.inj h
                  cases (entryItems sector (table buffer) n).find? (Item.is whichPart) <;> rfl
              | some pt =>
                  rw [hext] at h
                  obtain ⟨rest, hrest, rfl⟩ := Option.map_eq_some_iff.mp h
                  rw [List.find?_append]
                  cases (entryItems sector (table buffer) n).find? (Item.is whichPart) with
                  | some it => rfl
                  | none => exact ih hrest

/-! ## Numbers go up -/

theorem le_nextNum (pt : Entry) : n ≤ nextNum sector pt n := by
  rw [nextNum]
  split <;> omega

theorem le_lastNum : n ≤ lastNum sector pts n := by
  induction pts generalizing n with
  | nil => exact Nat.le_refl n
  | cons pt pts ih => exact (le_nextNum pt).trans ih

theorem entryItems_num : (∀ it ∈ entryItems sector pts n, n ≤ it.num ∧ it.num < lastNum sector pts n) ∧
    (entryItems sector pts n).Pairwise fun a b => a.num < b.num := by
  induction pts generalizing n with
  | nil => exact ⟨fun _ h => absurd h List.not_mem_nil, .nil⟩
  | cons pt pts ih =>
      obtain ⟨hrange, hup⟩ := @ih (nextNum sector pt n)
      have hnext := @le_nextNum n sector pt
      rw [entryItems]
      split
      · rename_i hitem
        have hone : nextNum sector pt n = n + 1 := if_pos (hitem.2.imp_right fun hext => ⟨hitem.1, hext⟩)
        rw [hone] at hrange hup ⊢
        have hlast : n + 1 ≤ lastNum sector (pt :: pts) n := hone ▸ le_lastNum
        refine ⟨List.forall_mem_cons.mpr ⟨⟨Nat.le_refl n, hlast⟩, fun it hit => ?_⟩, List.pairwise_cons.mpr ⟨fun it hit => ?_, hup⟩⟩
        · have h := hrange it hit
          rw [← hone] at h
          exact ⟨hnext.trans h.1, h.2⟩
        · exact (hrange it hit).1
      · exact ⟨fun it hit => ⟨hnext.trans (hrange it hit).1, (hrange it hit).2⟩, hup⟩

theorem chainItems_num (h : chainItems d levels sector relative n = some items) :
    (∀ it ∈ items, n ≤ it.num) ∧ items.Pairwise fun a b => a.num < b.num := by
  induction levels generalizing sector relative n items with
  | zero => cases h
  | succ levels ih =>
      rw [chainItems] at h
      cases hread : d.blockRead sector with
      | none =>
          rw [hread] at h
          obtain rfl := Option.some.inj h
          exact ⟨fun _ hit => absurd hit List.not_mem_nil, .nil⟩
      | some buffer =>
          rw [hread] at h
          dsimp only at h
          obtain ⟨hrange, hup⟩ := @entryItems_num n sector (table buffer)
          split at h
          · obtain rfl := Option.some.inj h
            exact ⟨fun _ hit => absurd hit List.not_mem_nil, .nil⟩
          split at h
          · obtain rfl := Option.some.inj h
            exact ⟨fun it hit => (hrange it hit).1, hup⟩
          · obtain ⟨rest, hrest, rfl⟩ := Option.map_eq_some_iff.mp h
            obtain ⟨hfrom, hrestup⟩ := ih hrest
            refine ⟨fun it hit => ?_, List.pairwise_append.mpr ⟨hup, hrestup, fun a ha b hb => ?_⟩⟩
            · rcases List.mem_append.mp hit with hit | hit
              · exact (hrange it hit).1
              · exact le_lastNum.trans (hfrom it hit)
            · exact (hrange a ha).2.trans_le (hfrom b hb)

/-- Two items with one number are one. -/
theorem item_unique (hup : items.Pairwise fun a b => a.num < b.num) {a b : Item} (ha : a ∈ items) (hb : b ∈ items) (hnum : a.num = b.num) :
    a = b := by
  have hnodup : (items.map Item.num).Nodup := List.pairwise_map.mpr (hup.imp Nat.ne_of_lt)
  exact List.inj_on_of_nodup_map hnodup ha hb hnum

/-! ## What is printed -/

theorem printFollow_plain {print : UInt32 → Option (List Line)} (h : (pts.filter fun pt => isExtended pt.sysInd).length ≤ 1) :
    printFollow print relative pts = match pts.find? fun pt => isExtended pt.sysInd with
      | none => some []
      | some pt => print (pt.start4 + relative) := by
  induction pts with
  | nil => rfl
  | cons pt pts ih =>
      rw [printFollow]
      cases hext : isExtended pt.sysInd with
      | false =>
          rw [List.filter_cons, if_neg (by rw [hext]; exact Bool.false_ne_true)] at h
          rw [if_neg Bool.false_ne_true, ih h, List.find?_cons_of_neg (by rw [hext]; exact Bool.false_ne_true)]
      | true =>
          rw [List.filter_cons, if_pos hext, List.length_cons] at h
          have hnone : pts.filter (fun pt => isExtended pt.sysInd) = [] := List.length_eq_zero_iff.mp (by omega)
          have hrest : printFollow print relative pts = some [] := by
            rw [ih (by rw [hnone]; exact Nat.zero_le 1), List.find?_eq_none.mpr (List.filter_eq_nil_iff.mp hnone)]
          have hfind : (pt :: pts).find? (fun pt => isExtended pt.sysInd) = some pt := List.find?_cons_of_pos hext
          rw [if_pos rfl, hfind, hrest]
          dsimp only
          cases print (pt.start4 + relative) with
          | none => rfl
          | some lines => exact congrArg some (List.append_nil lines)

/-- A line about an error -/
def Line.Error : Line → Prop
  | .part .. | .pbr .. => False
  | .badSignature .. | .unreadable .. => True

/-- Along plain tables the items are printed, and then an error at most. -/
theorem print_eq {lines : List Line} (hplain : ∀ p, Reached d (sector, relative) p → Plain d p)
    (h : printPartitionExtended d levels sector relative n = some lines) :
    ∃ items errors, chainItems d levels sector relative n = some items ∧ lines = items.map Item.line ++ errors ∧ ∀ l ∈ errors, l.Error := by
  induction levels generalizing sector relative n lines with
  | zero => cases h
  | succ levels ih =>
      rw [printPartitionExtended] at h
      rw [chainItems]
      cases hread : d.blockRead sector with
      | none =>
          rw [hread] at h
          obtain rfl := Option.some.inj h
          exact ⟨[], _, rfl, rfl, fun l hl => by rw [List.mem_singleton.mp hl]; exact trivial⟩
      | some buffer =>
          rw [hread] at h
          dsimp only at h ⊢
          rw [testBlockType] at h
          cases hmagic : hasMagic buffer with
          | false =>
              rw [hmagic, if_pos rfl] at h
              obtain rfl := Option.some.inj h
              exact ⟨[], _, rfl, rfl, fun l hl => by rw [List.mem_singleton.mp hl]; exact trivial⟩
          | true =>
              obtain ⟨hfat, hone⟩ := hplain _ .refl buffer hread hmagic
              rw [hmagic, if_neg Bool.true_eq_false_eq_False, hfat, if_neg Bool.false_ne_true] at h
              dsimp only at h
              rw [printEntries_eq, printFollow_plain hone] at h
              rw [if_neg Bool.true_eq_false_eq_False]
              dsimp only at h
              cases hext : (table buffer).find? fun pt => isExtended pt.sysInd with
              | none =>
                  rw [hext] at h
                  obtain rfl := Option.some.inj h
                  exact ⟨_, [], rfl, rfl, fun _ hl => absurd hl List.not_mem_nil⟩
              | some pt =>
                  rw [hext] at h
                  obtain ⟨rest, hrest, rfl⟩ := Option.map_eq_some_iff.mp h
                  have hlink : Next (getLinks d) (sector, relative) (Place.next (sector, relative) pt) := by
                    rw [Next, getLinks, hread]
                    dsimp only
                    rw [hmagic, if_pos rfl, hext]
                    exact List.mem_singleton_self _
                  obtain ⟨items, errors, hitems, rfl, herr⟩ := ih (fun p hp => hplain p (.head hlink hp)) hrest
                  refine ⟨entryItems sector (table buffer) n ++ items, errors, congrArg (Option.map _) hitems, ?_, herr⟩
                  rw [List.map_append, List.append_assoc]

/-! ## Boot indicators -/

/-- A partition that is not extended has a good boot indicator. -/
def Item.Good (it : Item) : Prop := isExtended it.entry.sysInd = false → bootOk it.entry = true

theorem mem_entryItems {pt : Entry} : (∃ it ∈ entryItems sector pts n, it.entry = pt) ↔
    pt ∈ pts ∧ pt.sysInd ≠ 0 ∧ (sector = 0 ∨ isExtended pt.sysInd = false) := by
  induction pts generalizing n with
  | nil => exact iff_of_false (fun ⟨_, hit, _⟩ => List.not_mem_nil hit) fun h => List.not_mem_nil h.1
  | cons p pts ih =>
      rw [entryItems, List.mem_cons]
      split
      · rename_i hitem
        rw [List.exists_mem_cons_iff, ih, or_and_right]
        refine or_congr ⟨?_, fun h => h.1.symm⟩ Iff.rfl
        rintro rfl
        exact ⟨rfl, hitem⟩
      · rename_i hitem
        rw [ih, or_and_right]
        refine ⟨Or.inr, fun h => h.resolve_left ?_⟩
        rintro ⟨rfl, hused⟩
        exact hitem hused

theorem entryItems_good : (∀ it ∈ entryItems sector pts n, it.Good) ↔
    ∀ pt ∈ pts, pt.sysInd ≠ 0 → isExtended pt.sysInd = false → bootOk pt = true := by
  constructor
  · intro h pt hpt hused hext
    obtain ⟨it, hit, rfl⟩ := (@mem_entryItems n sector pts pt).mpr ⟨hpt, hused, Or.inr hext⟩
    exact h it hit hext
  · intro h it hit hext
    obtain ⟨hpt, hused, -⟩ := mem_entryItems.mp ⟨it, hit, rfl⟩
    exact h _ hpt hused hext

theorem reached_all {P : Place → Prop} {p : Place} : (∀ q, Reached d p q → P q) ↔ P p ∧ ∀ t ∈ getLinks d p, ∀ q, Reached d t q → P q := by
  constructor
  · exact fun hall => ⟨hall _ .refl, fun t ht q hq => hall q (.head ht hq)⟩
  · rintro ⟨hhere, hthere⟩ q hq
    rcases hq.cases_head with rfl | ⟨t, ht, hrest⟩
    · exact hhere
    · exact hthere t ht q hrest

/-- The items are good just when the tables are. -/
theorem items_good (h : chainItems d levels sector relative n = some items) : (∀ it ∈ items, it.Good) ↔
    ∀ p, Reached d (sector, relative) p → BootBytes d p := by
  induction levels generalizing sector relative n items with
  | zero => cases h
  | succ levels ih =>
      rw [chainItems] at h
      rw [reached_all, getLinks, BootBytes]
      cases hread : d.blockRead sector with
      | none =>
          rw [hread] at h
          obtain rfl := Option.some.inj h
          exact iff_of_true (fun _ hit => absurd hit List.not_mem_nil) ⟨(fun _ hb => by cases hb), fun _ ht => absurd ht List.not_mem_nil⟩
      | some buffer =>
          rw [hread] at h
          dsimp only at h ⊢
          have hhere : (∀ b, some buffer = some b → hasMagic b = true → ∀ pt ∈ table b, pt.sysInd ≠ 0 → isExtended pt.sysInd = false →
              bootOk pt = true) ↔ (hasMagic buffer = true → ∀ it ∈ entryItems sector (table buffer) n, it.Good) := by
            rw [entryItems_good]
            exact ⟨fun hall => hall buffer rfl, fun hall b hb => by rw [← Option.some.inj hb]; exact hall⟩
          rw [hhere]
          cases hmagic : hasMagic buffer with
          | false =>
              rw [hmagic, if_pos rfl] at h
              obtain rfl := Option.some.inj h
              exact iff_of_true (fun _ hit => absurd hit List.not_mem_nil) ⟨(fun hno => by cases hno), fun _ ht => absurd ht List.not_mem_nil⟩
          | true =>
              rw [hmagic, if_neg Bool.true_eq_false_eq_False] at h
              rw [if_pos rfl]
              cases hext : (table buffer).find? fun pt => isExtended pt.sysInd with
              | none =>
                  rw [hext] at h
                  obtain rfl := Option.some.inj h
                  exact ⟨fun hall => ⟨fun _ => hall, fun _ ht => absurd ht List.not_mem_nil⟩, fun hall => hall.1 rfl⟩
              | some pt =>
                  rw [hext] at h
                  obtain ⟨rest, hrest, rfl⟩ := Option.map_eq_some_iff.mp h
                  have hthere : (∀ t ∈ (Option.map (Place.next (sector, relative)) (some pt)).toList, ∀ q, Reached d t q → BootBytes d q) ↔
                      ∀ it ∈ rest, it.Good := (List.forall_mem_singleton).trans (ih hrest).symm
                  rw [hthere, List.forall_mem_append]
                  exact and_congr_left fun _ => ⟨fun hall _ => hall, fun hall => hall rfl⟩

/-! ## What the board keeps -/

variable {lines errors : List Line} {start size : UInt32}

theorem keep_first (b : BootParts) (hall : ∀ st sz sys, Line.part 1 st sz sys ∈ lines → st = start ∧ sz = size)
    (h : (∃ sys, Line.part 1 start size sys ∈ lines) ∨ b.bootPartLbaStart = start ∧ b.bootPartSize = size) :
    (lines.foldl Line.keep b).bootPartLbaStart = start ∧ (lines.foldl Line.keep b).bootPartSize = size := by
  induction lines generalizing b with
  | nil => exact h.resolve_left fun ⟨_, hl⟩ => List.not_mem_nil hl
  | cons l ls ih =>
      refine ih _ (fun st sz sys hl => hall st sz sys (List.mem_cons_of_mem _ hl)) ?_
      by_cases hone : ∃ st sz sys, l = Line.part 1 st sz sys
      · obtain ⟨st, sz, sys, rfl⟩ := hone
        obtain ⟨rfl, rfl⟩ := hall st sz sys List.mem_cons_self
        exact Or.inr ⟨rfl, rfl⟩
      · rcases h with ⟨sys, hl⟩ | hb
        · rcases List.mem_cons.mp hl with heq | hl
          · exact absurd ⟨start, size, sys, heq.symm⟩ hone
          · exact Or.inl ⟨sys, hl⟩
        · right
          rw [Line.keep.eq_def]
          split
          · exact absurd ⟨_, _, _, rfl⟩ hone
          · exact hb
          · exact hb

theorem keep_third (b : BootParts) (hall : ∀ st sz sys, Line.part 3 st sz sys ∈ lines → st = start)
    (h : (∃ sz sys, Line.part 3 start sz sys ∈ lines) ∨ b.thirdPartLbaStart = start) :
    (lines.foldl Line.keep b).thirdPartLbaStart = start := by
  induction lines generalizing b with
  | nil => exact h.resolve_left fun ⟨_, _, hl⟩ => List.not_mem_nil hl
  | cons l ls ih =>
      refine ih _ (fun st sz sys hl => hall st sz sys (List.mem_cons_of_mem _ hl)) ?_
      by_cases hone : ∃ st sz sys, l = Line.part 3 st sz sys
      · obtain ⟨st, sz, sys, rfl⟩ := hone
        obtain rfl := hall st sz sys List.mem_cons_self
        exact Or.inr rfl
      · rcases h with ⟨sz, sys, hl⟩ | hb
        · rcases List.mem_cons.mp hl with heq | hl
          · exact absurd ⟨start, sz, sys, heq.symm⟩ hone
          · exact Or.inl ⟨sz, sys, hl⟩
        · right
          rw [Line.keep.eq_def]
          split
          · exact hb
          · exact absurd ⟨_, _, _, rfl⟩ hone
          · exact hb

/-! ## Agreement -/

theorem mem_lines (herr : ∀ l ∈ errors, l.Error) {k : Nat} {sys : UInt8} : Line.part k start size sys ∈ items.map Item.line ++ errors ↔
    ∃ it ∈ items, it.num = k ∧ it.sector + it.entry.start4 = start ∧ it.entry.size4 = size ∧ it.entry.sysInd = sys := by
  rw [List.mem_append, List.mem_map]
  constructor
  · rintro (⟨it, hit, hline⟩ | hl)
    · rw [Item.line, printOnePart, Line.part.injEq] at hline
      exact ⟨it, hit, hline⟩
    · exact (herr _ hl).elim
  · rintro ⟨it, hit, rfl, rfl, rfl, rfl⟩
    exact Or.inl ⟨it, hit, rfl⟩

theorem listed_iff (herr : ∀ l ∈ errors, l.Error) : Listed (items.map Item.line ++ errors) whichPart start size ↔
    ∃ it ∈ items, it.num = whichPart ∧ isExtended it.entry.sysInd = false ∧ it.sector + it.entry.start4 = start ∧ it.entry.size4 = size := by
  constructor
  · rintro (⟨k, sys, rfl, hext, hl⟩ | ⟨-, -, m, hl⟩)
    · obtain ⟨it, hit, rfl, hstart, hsize, rfl⟩ := (mem_lines herr).mp hl
      exact ⟨it, hit, rfl, hext, hstart, hsize⟩
    · rcases List.mem_append.mp hl with hl | hl
      · obtain ⟨it, -, hline⟩ := List.mem_map.mp hl
        cases hline
      · exact (herr _ hl).elim
  · rintro ⟨it, hit, hnum, hext, hstart, hsize⟩
    exact Or.inl ⟨it.num, it.entry.sysInd, hnum, hext, (mem_lines herr).mpr ⟨it, hit, rfl, hstart, hsize, rfl⟩⟩

theorem Item.is_iff : it.is whichPart = true ↔ bootOk it.entry = true ∧ it.num = whichPart ∧ isExtended it.entry.sysInd = false := by
  rw [Item.is, Bool.and_eq_true, Bool.and_eq_true, decide_eq_true_eq, decide_eq_true_eq]

/-- Good items are found by their numbers. -/
theorem find_good (hup : items.Pairwise fun a b => a.num < b.num) (hgood : ∀ it ∈ items, it.Good) (hit : it ∈ items)
    (hnum : it.num = whichPart) (hext : isExtended it.entry.sysInd = false) : items.find? (Item.is whichPart) = some it := by
  have his : it.is whichPart = true := Item.is_iff.mpr ⟨hgood it hit hext, hnum, hext⟩
  cases hfind : items.find? (Item.is whichPart) with
  | none => exact absurd his (List.find?_eq_none.mp hfind it hit)
  | some it' =>
      have his' := Item.is_iff.mp (List.find?_some hfind)
      rw [item_unique hup (List.mem_of_find?_eq_some hfind) hit (by omega)]

/-- The number of levels does not matter where it is enough. -/
theorem get_unique {levels' : Nat} {r r' : Option DiskPartition} (h : getPartitionInfoExtended d whichPart levels sector relative n = some r)
    (h' : getPartitionInfoExtended d whichPart levels' sector relative n = some r') : r = r' := by
  induction levels generalizing levels' sector relative n with
  | zero => cases h
  | succ levels ih =>
      cases levels' with
      | zero => cases h'
      | succ levels' =>
          rw [getPartitionInfoExtended] at h h'
          cases hread : d.blockRead sector with
          | none =>
              rw [hread] at h h'
              exact Option.some.inj (h.symm.trans h')
          | some buffer =>
              rw [hread] at h h'
              dsimp only at h h'
              split at h
              · rename_i hmagic
                rw [if_pos hmagic] at h'
                exact Option.some.inj (h.symm.trans h')
              · rename_i hmagic
                rw [if_neg hmagic] at h'
                cases hfind : findEntry d whichPart sector (table buffer) n with
                | error info =>
                    rw [hfind] at h h'
                    exact Option.some.inj (h.symm.trans h')
                | ok last =>
                    rw [hfind] at h h'
                    dsimp only at h h'
                    cases hext : (table buffer).find? fun pt => isExtended pt.sysInd with
                    | none =>
                        rw [hext] at h h'
                        exact Option.some.inj (h.symm.trans h')
                    | some pt =>
                        rw [hext] at h h'
                        exact ih h h'

/-- What is looked up is an item. -/
theorem get_item {levels' : Nat} {info : DiskPartition} (hitems : chainItems d levels 0 0 1 = some items)
    (h : getPartitionInfoDos d levels' whichPart = some (some info)) :
    ∃ it ∈ items, it.is whichPart = true ∧ partInfo d it.entry it.sector it.num = info := by
  have hget := get_unique h (get_eq hitems)
  obtain ⟨it, hfind, hinfo⟩ := Option.map_eq_some_iff.mp hget.symm
  exact ⟨it, List.mem_of_find?_eq_some hfind, List.find?_some hfind, hinfo⟩

theorem agree_iff_good (hitems : chainItems d levels 0 0 1 = some items) (herr : ∀ l ∈ errors, l.Error) :
    Agree d (items.map Item.line ++ errors) ↔ ∀ it ∈ items, it.Good := by
  have hup := (chainItems_num hitems).2
  -- The item of a number, and the line that is printed with it
  have honly : ∀ it ∈ items, ∀ st sz sys, Line.part it.num st sz sys ∈ items.map Item.line ++ errors →
      st = it.sector + it.entry.start4 ∧ sz = it.entry.size4 := by
    intro it hit st sz sys hl
    obtain ⟨it', hit', hnum, hst, hsz, -⟩ := (mem_lines herr).mp hl
    obtain rfl := item_unique hup hit' hit hnum
    exact ⟨hst.symm, hsz.symm⟩
  have hline : ∀ it ∈ items, Line.part it.num (it.sector + it.entry.start4) it.entry.size4 it.entry.sysInd ∈ items.map Item.line ++ errors :=
    fun it hit => (mem_lines herr).mpr ⟨it, hit, rfl, rfl, rfl, rfl⟩
  constructor
  · intro h it hit hext
    obtain ⟨levels', r, hget, hlisted⟩ := h.listed it.num
    obtain ⟨info, rfl, -⟩ := (hlisted _ _).mp ((listed_iff herr).mpr ⟨it, hit, rfl, hext, rfl, rfl⟩)
    obtain ⟨it', hit', his, -⟩ := get_item hitems hget
    obtain ⟨hboot, hnum, -⟩ := Item.is_iff.mp his
    rw [← item_unique hup hit' hit (by omega)]
    exact hboot
  · intro hgood
    refine ⟨fun part => ⟨levels, _, get_eq hitems, fun start size => ?_⟩, fun b levels' info hget => ?_, fun b levels' info hget => ?_⟩
    · rw [listed_iff herr]
      constructor
      · rintro ⟨it, hit, hnum, hext, rfl, rfl⟩
        rw [find_good hup hgood hit hnum hext]
        exact ⟨_, rfl, rfl, rfl⟩
      · rintro ⟨info, hinfo, rfl, rfl⟩
        obtain ⟨it, hfind, rfl⟩ := Option.map_eq_some_iff.mp hinfo
        obtain ⟨-, hnum, hext⟩ := Item.is_iff.mp (List.find?_some hfind)
        exact ⟨it, List.mem_of_find?_eq_some hfind, hnum, hext, rfl, rfl⟩
    · obtain ⟨it, hit, his, rfl⟩ := get_item hitems hget
      have hnum : it.num = 1 := by
        have h := (Item.is_iff.mp his).2.1
        omega
      refine keep_first b ?_ (Or.inl ⟨it.entry.sysInd, ?_⟩)
      · rw [← hnum]
        exact honly it hit
      · rw [← hnum]
        exact hline it hit
    · obtain ⟨it, hit, his, rfl⟩ := get_item hitems hget
      have hnum : it.num = 3 := by
        have h := (Item.is_iff.mp his).2.1
        omega
      refine keep_third b (fun st sz sys hl => ?_) (Or.inl ⟨it.entry.size4, it.entry.sysInd, ?_⟩)
      · rw [← hnum] at hl
        exact (honly it hit st sz sys hl).1
      · rw [← hnum]
        exact hline it hit

end

/-- Where all tables are plain and have good boot indicators, printing and looking up agree; and where they are plain, only then. -/
theorem dos_numbers_agree_iff {d : BlockDev} {levels : Nat} {lines : List Line} (hlines : printPartDos d levels = some lines) :
    ((∀ p, Reached d (0, 0) p → Plain d p ∧ BootBytes d p) → Agree d lines) ∧
    ((∀ p, Reached d (0, 0) p → Plain d p) → Agree d lines → ∀ p, Reached d (0, 0) p → BootBytes d p) := by
  have hiff : (∀ p, Reached d (0, 0) p → Plain d p) → (Agree d lines ↔ ∀ p, Reached d (0, 0) p → BootBytes d p) := by
    intro hplain
    obtain ⟨items, errors, hitems, rfl, herr⟩ := print_eq hplain hlines
    rw [agree_iff_good hitems herr, items_good hitems]
  exact ⟨fun h => (hiff fun p hp => (h p hp).1).mpr fun p hp => (h p hp).2, fun hplain => (hiff hplain).mp⟩

/-! ## Disks -/

/-- A sector with a table -/
def sectorOf (entries : List UInt8) : Lib.Mem := fun i =>
  if i = 0x1fe then 0x55 else if i = 0x1ff then 0xaa else if i < 0x1be then 0 else entries.getD (i - 0x1be) 0

/-- A bootable partition and an extended one -/
def sampleMbr : Lib.Mem :=
  sectorOf [0x80, 0, 0, 0, 0x83, 0, 0, 0, 0, 8, 0, 0, 0, 16, 0, 0, 0, 0, 0, 0, 0x05, 0, 0, 0, 0, 32, 0, 0, 0, 64, 0, 0]

/-- A partition in the extended one -/
def sampleEbr : Lib.Mem := sectorOf [0, 0, 0, 0, 0x83, 0, 0, 0, 63, 0, 0, 0, 0, 32, 0, 0]

def sampleDisk : BlockDev := ⟨.other, 0, 0x10000, fun s => if s = 0 then some sampleMbr else if s = 8192 then some sampleEbr else none⟩

theorem sample_tables (p : Place) : Plain sampleDisk p ∧ BootBytes sampleDisk p := by
  have hread : ∀ buffer, sampleDisk.blockRead p.1 = some buffer → buffer = sampleMbr ∨ buffer = sampleEbr := by
    intro buffer h
    rw [sampleDisk] at h
    dsimp only at h
    split at h
    · exact Or.inl (Option.some.inj h).symm
    split at h
    · exact Or.inr (Option.some.inj h).symm
    · cases h
  refine ⟨fun buffer h _ => ?_, fun buffer h _ => ?_⟩
  · rcases hread buffer h with rfl | rfl
    · exact ⟨by decide, by decide⟩
    · exact ⟨by decide, by decide⟩
  · rcases hread buffer h with rfl | rfl
    · decide
    · decide

theorem dos_numbers_agree_sample : Agree sampleDisk [.part 1 2048 4096 0x83, .part 2 8192 16384 0x05, .part 5 8255 8192 0x83] :=
  (@dos_numbers_agree_iff sampleDisk 2 _ (by decide)).1 fun p _ => sample_tables p

/-- A partition with a boot indicator of 1 is printed as number 1, and not found. -/
def oddDisk : BlockDev :=
  ⟨.other, 0, 0x10000, fun s => if s = 0 then some (sectorOf [1, 0, 0, 0, 0x83, 0, 0, 0, 0, 8, 0, 0, 0, 16, 0, 0]) else none⟩

theorem dos_numbers_differ : ∃ lines, printPartDos oddDisk 1 = some lines ∧ ¬ Agree oddDisk lines := by
  refine ⟨[.part 1 2048 4096 0x83], by decide, fun h => ?_⟩
  have hnone : getPartitionInfoDos oddDisk 1 1 = some none := by decide
  obtain ⟨levels, r, hget, hlisted⟩ := h.listed 1
  obtain rfl := get_unique hnone hget
  have hone : Listed [.part 1 2048 4096 0x83] 1 2048 4096 := Or.inl ⟨1, 0x83, rfl, by decide, List.mem_singleton_self _⟩
  obtain ⟨info, hinfo, -⟩ := (hlisted 2048 4096).mp hone
  cases hinfo

end Uboot.Dos
