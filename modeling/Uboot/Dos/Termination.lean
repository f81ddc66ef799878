import Uboot.Dos.Basic
import Uboot.Lib.Explore

/-!
# Where the walks over the extended tables end
-/

namespace Uboot.Dos

open Lib.Explore

/-- A sector, and the sector that the entries of its table are relative to -/
abbrev Place := UInt32 × UInt32

instance finiteUInt32 : Finite UInt32 := Finite.of_injective UInt32.toFin fun _ _ h => UInt32.toNat_inj.mp (congrArg Fin.val h)

instance : Finite Place := inferInstanceAs (Finite (UInt32 × UInt32))

def Place.next (p : Place) (pt : Entry) : Place :=
  let lbaStart := pt.start4 + p.2
  (lbaStart, if p.1 = 0 then lbaStart else p.2)

/-- Where the printing goes on -/
def printLinks (d : BlockDev) (p : Place) : List Place :=
  match d.blockRead p.1 with
  | none => []
  | some buffer => if testBlockType buffer = .mbr then ((table buffer).filter fun pt => isExtended pt.sysInd).map p.next else []

/-- Where the lookup goes on -/
def getLinks (d : BlockDev) (p : Place) : List Place :=
  match d.blockRead p.1 with
  | none => []
  | some buffer => if hasMagic buffer then (((table buffer).find? fun pt => isExtended pt.sysInd).map p.next).toList else []

section
variable {d : BlockDev} {levels : Nat} {extPartSector relative : UInt32} {partNum : Nat} {whichPart : Int} {buffer : Lib.Mem}

theorem printFollow_isSome {print : UInt32 → Option (List Line)} {pts : List Entry} : (printFollow print relative pts).isSome ↔
    ∀ pt ∈ pts.filter fun pt => isExtended pt.sysInd, (print (pt.start4 + relative)).isSome := by
  induction pts with
  | nil => exact iff_of_true rfl fun _ h => absurd h List.not_mem_nil
  | cons pt pts ih =>
      rw [printFollow]
      cases hext : isExtended pt.sysInd with
      | false => rw [if_neg Bool.false_ne_true, List.filter_cons_of_neg (by rw [hext]; exact Bool.false_ne_true), ih]
      | true =>
          rw [if_pos rfl, List.filter_cons, if_pos hext, List.forall_mem_cons, ← ih]
          cases print (pt.start4 + relative) with
          | none => exact iff_of_false Bool.false_ne_true fun h => Bool.false_ne_true h.1
          | some lines => rw [Option.isSome_map]; exact (and_iff_right rfl).symm

/-- The printing comes back where the walk along its links does. -/
theorem print_isSome : (printPartitionExtended d levels extPartSector relative partNum).isSome ↔
    Ends (printLinks d) levels (extPartSector, relative) := by
  induction levels generalizing extPartSector relative partNum with
  | zero => exact iff_of_false Bool.false_ne_true id
  | succ levels ih =>
      rw [printPartitionExtended, Ends, printLinks]
      cases d.blockRead extPartSector with
      | none => exact iff_of_true rfl fun _ h => absurd h List.not_mem_nil
      | some buffer =>
          dsimp only
          cases htype : testBlockType buffer with
          | bad => exact iff_of_true rfl fun _ h => absurd h List.not_mem_nil
          | pbr => exact iff_of_true rfl fun _ h => absurd h List.not_mem_nil
          | mbr =>
              rw [if_pos rfl, List.forall_mem_map]
              dsimp only
              rw [Option.isSome_map, printFollow_isSome]
              exact forall₂_congr fun pt _ => ih

/-- Part 0 is never found. -/
theorem findEntry_zero {pts : List Entry} (h : 0 < partNum) : ∃ last, findEntry d 0 extPartSector pts partNum = .ok last ∧ 0 < last := by
  induction pts generalizing partNum with
  | nil => exact ⟨partNum, rfl, h⟩
  | cons pt pts ih =>
      have hne : ¬ (partNum : Int) = 0 := by omega
      rw [findEntry, if_neg fun hfound => hne hfound.2.2.1]
      refine ih ?_
      rw [nextNum]
      split <;> omega

/-- The lookup comes back at the latest where the walk along its links does. -/
theorem get_isSome (h : Ends (getLinks d) levels (extPartSector, relative)) :
    (getPartitionInfoExtended d whichPart levels extPartSector relative partNum).isSome := by
  induction levels generalizing extPartSector relative partNum with
  | zero => exact h.elim
  | succ levels ih =>
      rw [Ends, getLinks] at h
      rw [getPartitionInfoExtended]
      cases hread : d.blockRead extPartSector with
      | none => rfl
      | some buffer =>
          rw [hread] at h
          dsimp only at h ⊢
          cases hmagic : hasMagic buffer with
          | false => rfl
          | true =>
              rw [hmagic, if_pos rfl] at h
              rw [if_neg (Bool.true_eq_false_eq_False)]
              cases findEntry d whichPart extPartSector (table buffer) partNum with
              | error info => rfl
              | ok last =>
                  dsimp only
                  cases hext : (table buffer).find? fun pt => isExtended pt.sysInd with
                  | none => rfl
                  | some pt =>
                      rw [hext] at h
                      exact ih (h _ (List.mem_singleton_self _))

/-- For part 0 it comes back only there. -/
theorem get_zero_isSome (hnum : 0 < partNum) (h : (getPartitionInfoExtended d 0 levels extPartSector relative partNum).isSome) :
    Ends (getLinks d) levels (extPartSector, relative) := by
  induction levels generalizing extPartSector relative partNum with
  | zero => exact absurd h Bool.false_ne_true
  | succ levels ih =>
      rw [Ends, getLinks]
      rw [getPartitionInfoExtended] at h
      cases hread : d.blockRead extPartSector with
      | none => exact fun _ ht => absurd ht List.not_mem_nil
      | some buffer =>
          rw [hread] at h
          dsimp only at h ⊢
          cases hmagic : hasMagic buffer with
          | false => exact fun _ ht => absurd ht List.not_mem_nil
          | true =>
              obtain ⟨last, hlast, hpos⟩ := @findEntry_zero d extPartSector partNum (table buffer) hnum
              rw [hmagic, hlast, if_neg (Bool.true_eq_false_eq_False)] at h
              dsimp only at h
              cases hext : (table buffer).find? fun pt => isExtended pt.sysInd with
              | none => exact fun _ ht => absurd ht List.not_mem_nil
              | some pt =>
                  rw [hext] at h
                  intro t ht
                  obtain rfl := List.mem_singleton.mp ht
                  exact ih hpos h

/-- Both walks end, for every partition number, just when neither reaches a table again from itself. -/
theorem dos_walks_end_iff (d : BlockDev) :
    ((∃ levels, (printPartDos d levels).isSome) ∧ ∀ part, ∃ levels, (getPartitionInfoDos d levels part).isSome) ↔
      ¬ Cyclic (printLinks d) (0, 0) ∧ ¬ Cyclic (getLinks d) (0, 0) := by
  rw [← ends_iff, ← ends_iff]
  refine and_congr (exists_congr fun _ => print_isSome) ⟨fun h => ?_, fun ⟨levels, h⟩ part => ⟨levels, get_isSome h⟩⟩
  obtain ⟨levels, hlevels⟩ := h 0
  exact ⟨levels, get_zero_isSome Nat.one_pos hlevels⟩

end

/-! ## A table that points to itself -/

/-- The first entry is an extended partition at sector 0. -/
def loopBuffer : Lib.Mem := fun i => if i = 0x1c2 then 0x5 else if i = 0x1fe then 0x55 else if i = 0x1ff then 0xaa else 0

def loopDisk : BlockDev := ⟨.other, 0, 1000, fun _ => some loopBuffer⟩

theorem loop_table : table loopBuffer = [⟨0, 5, 0, 0⟩, ⟨0, 0, 0, 0⟩, ⟨0, 0, 0, 0⟩, ⟨0, 0, 0, 0⟩] := by decide

theorem loop_never_found (levels : Nat) (part : Int) (partNum : Nat) : getPartitionInfoExtended loopDisk part levels 0 0 partNum = none := by
  induction levels generalizing partNum with
  | zero => rfl
  | succ levels ih =>
      have hmagic : hasMagic loopBuffer = true := by decide
      have hnone : findEntry loopDisk part 0 (table loopBuffer) partNum = .ok (partNum + 1 + 1 + 1 + 1) := by
        rw [loop_table]
        simp [findEntry, nextNum, isExtended]
      rw [getPartitionInfoExtended]
      dsimp only [loopDisk]
      rw [if_neg (by rw [hmagic]; exact Bool.true_eq_false_eq_False), ← loopDisk, hnone, loop_table]
      exact ih _

/-- Neither walk ends on this disk. -/
theorem dos_walk_never_ends : (∀ levels, printPartDos loopDisk levels = none) ∧ ∀ levels part, getPartitionInfoDos loopDisk levels part = none := by
  have hlink : ((0, 0) : Place) ∈ printLinks loopDisk (0, 0) := by decide
  have hcyclic : Cyclic (printLinks loopDisk) (0, 0) := ⟨(0, 0), .refl, .single hlink⟩
  refine ⟨fun levels => Option.not_isSome_iff_eq_none.mp fun h => ?_, fun levels part => loop_never_found levels part 1⟩
  exact ends_iff.mp ⟨levels, print_isSome.mp h⟩ hcyclic

end Uboot.Dos
