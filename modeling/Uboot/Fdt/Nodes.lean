import Uboot.Fdt.Basic

/-!
# Adding and deleting nodes

`fdt_add_subnode` and `fdt_del_node` of `lib/libfdt/fdt_rw.c`, as changes of the tree that the tokens stand for.
-/

namespace Uboot.Fdt

open Lib.FlatTree

/-- `_fdt_node_end_offset` -/
def fdtNodeEndOffset (blob : Blob) (off : Nat) : Option Nat :=
  match walk (fun depth => 0 ≤ depth) (fun blob off => (.ok (blob, off, 1) : Except Empty (Blob × Nat × Int))) blob.length blob off 0 with
  | some (.ok (_, some endoffset, _)) => some endoffset
  | _ => none

/-- A shorter blob fits. -/
def fdtDelNode (blob : Blob) (off : Nat) : Except Int Blob :=
  match fdtNodeEndOffset blob off with
  | none => .error errBadOffset
  | some endoffset => .ok (blob.take off ++ blob.drop endoffset)

def isProp : Token Bytes Bytes Bytes → Bool
  | .prop _ _ => true
  | _ => false

/-- The offset of the new node, which comes after the parent's properties, with the blob -/
def fdtAddSubnode (fits : Blob → Bool) (blob : Blob) (parent : Nat) (name : Bytes) : Except Int (Nat × Blob) :=
  match fdtSubnodeOffset blob parent name with
  | .ok _ => .error errExists
  | .error e =>
    if e ≠ errNotFound then .error e
    else
      let offset := parent + 1 + ((blob.drop (parent + 1)).takeWhile isProp).length
      (splice fits (blob.take offset ++ .openNode name :: .closeNode :: blob.drop offset)).map fun blob => (offset, blob)

section
variable {props : Props} {children : List Node} {name s : Bytes} {pre post rest : Blob} {c : Node}

theorem keep_steps : Steps (fun blob off => (.ok (blob, off, 1) : Except Empty (Blob × Nat × Int))) (fun _ c _ => .ok c) fun _ => True where
  body_eq := fun _ => rfl
  count_eq := fun h => by rw [Except.ok.inj h]
  kept := fun _ _ => trivial

theorem keep_all : (steps (fun _ c _ => .ok c) pre post children : Except Empty (List Node)) = .ok children := by
  induction children generalizing pre with
  | nil => rfl
  | cons c cs ih =>
      rw [steps]
      simp only [ih]
      rfl

theorem nodeEnd_node : fdtNodeEndOffset (pre ++ (c.flatten ++ post)) pre.length = some (pre ++ c.flatten).length := by
  obtain ⟨name, props, children⟩ := c
  rw [fdtNodeEndOffset, walk_children (by simp; omega) (by decide) keep_steps trivial subnode_fuel, keep_all]
  rfl

theorem delNode_node : fdtDelNode (pre ++ (c.flatten ++ post)) pre.length = .ok (pre ++ post) := by
  rw [fdtDelNode, nodeEnd_node]
  dsimp only
  rw [List.take_left, ← List.append_assoc, List.drop_left]

theorem takeWhile_props : (propToks props ++ (flattenAll children ++ .closeNode :: post) : Blob).takeWhile isProp = propToks props := by
  induction props with
  | nil =>
      cases children with
      | nil => rfl
      | cons c cs =>
          cases c
          rw [flattenAll, flatten_node]
          rfl
  | cons p ps ih =>
      show (Token.prop p.1 p.2 :: (propToks ps ++ (flattenAll children ++ .closeNode :: post))).takeWhile isProp = _
      rw [List.takeWhile_cons, isProp, if_pos rfl, ih]
      rfl

/-- The new node is the first child. -/
theorem addSubnode_node {fits : Blob → Bool} (hnew : ∀ c ∈ children, nodenameEq c.name s = false) :
    fdtAddSubnode fits (pre ++ ((Rose.node name props children).flatten ++ post)) pre.length s =
      (splice fits (pre ++ ((Rose.node name props (.node s [] [] :: children)).flatten ++ post))).map fun blob =>
        (pre.length + 1 + props.length, blob) := by
  have hhead : ∀ xs : Blob, pre ++ .openNode name :: (propToks props ++ xs) = (pre ++ .openNode name :: propToks props) ++ xs := fun xs => by
    rw [List.append_assoc]
    rfl
  have hlen : pre.length + 1 + props.length = (pre ++ (.openNode name :: propToks props) : Blob).length := by
    rw [List.length_append, List.length_cons, propToks_length]
    omega
  have hdrop : (pre ++ ((Rose.node name props children).flatten ++ post)).drop (pre.length + 1) =
      propToks props ++ (flattenAll children ++ .closeNode :: post) := by
    rw [flatten_split, List.drop_length_add_append]
    rfl
  have hnode : flattenAll (.node s [] [] :: children) ++ .closeNode :: post =
      .openNode s :: .closeNode :: (flattenAll children ++ .closeNode :: post) := by
    rw [flattenAll, flatten_node]
    rfl
  rw [fdtAddSubnode, subnodeOffset_none hnew]
  dsimp only
  rw [if_neg (by decide), hdrop, takeWhile_props, propToks_length, flatten_split, flatten_split, hhead, hhead, hnode, hlen, List.take_left,
    List.drop_left]

end

end Uboot.Fdt
