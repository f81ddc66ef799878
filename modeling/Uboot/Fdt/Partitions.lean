import Mathlib.Data.Nat.Digits.Lemmas
import Uboot.Bootm.Basic
import Uboot.Fdt.Nodes
import Uboot.Lib.Except
import Uboot.Lib.Strings

/-!
# Partitions in the device tree

`fdt_node_set_part_info` of `common/fdt_support.c`. Calls that change the tree are numbered, and any of them may lack space. An
error none is that of a loop without an end.
-/

namespace Uboot.Fdt

open Lib (ascii bind_eq_ok ok_bind)
open Lib.FlatTree

/-- What is read of `struct part_info` -/
structure Part where
  name : Bytes
  offset : UInt32
  size : UInt32
  maskFlags : UInt32

/-- Whether a call lacks the space for the blob it would make, and what `fdt_increase_size` returns then -/
structure Space where
  lacks : Nat → Blob → Bool
  increase : Nat → Int

def labelProp : Bytes := ascii "label"
def regProp : Bytes := ascii "reg"
def readOnlyProp : Bytes := ascii "read_only"

/-! ## Deleting -/

/-- The body of the loop: the next round starts at the parent again. -/
def delBody (parent : Nat) (blob : Blob) (off : Nat) : Except Int (Blob × Nat × Int) :=
  match fdtDelNode blob off with
  | .error e => .error e
  | .ok blob => .ok (blob, parent, 0)

def fdtDelSubnodes (blob : Blob) (parent : Nat) : Except (Option Int) Blob :=
  match walk (fun ndepth => 0 < ndepth) (delBody parent) blob.length blob parent 0 with
  | none => .error none
  | some (.error e) => .error (some e)
  | some (.ok (blob, _)) => .ok blob

/-- `fdt_del_partitions`, with the number of levels that it may go down -/
def fdtDelPartitions : Nat → Blob → Nat → Except (Option Int) Blob
  | 0, _, _ => .error none
  | level + 1, blob, parent =>
    match nextNode blob parent 0 with
    | (some off, ndepth) =>
      if 0 < off ∧ ndepth = 1 then
        match fdtGetprop blob off labelProp with
        | none => fdtDelPartitions level blob off
        | some _ => fdtDelSubnodes blob parent
      else .ok blob
    | (none, _) => .ok blob

/-! ## Adding -/

/-- The `goto` loops: a call that lacks space is made again after `fdt_increase_size`. The number of the next call is given too. -/
def retry {α : Type} (space : Space) (op : (Blob → Bool) → Except Int α) : Nat → Nat → Except (Option Int) (α × Nat)
  | 0, _ => .error none
  | fuel + 1, n =>
    match op fun blob => !space.lacks n blob with
    | .ok r => .ok (r, n + 1)
    | .error e =>
      if e = errNoSpace then
        if space.increase n = 0 then retry space op fuel (n + 1) else .error (some (space.increase n))
      else .error (some e)

def hexDigit (d : Nat) : UInt8 := if d < 10 then .ofNat (48 + d) else .ofNat (87 + d)

/-- `%x` -/
def hexString (n : Nat) : Bytes := if n = 0 then [48] else (Nat.digits 16 n).reverse.map hexDigit

/-- `sprintf(buf, "partition@%x", part->offset)` -/
def partName (part : Part) : Bytes := ascii "partition@" ++ hexString part.offset.toNat

/-- `struct reg_cell` -/
def regCell (part : Part) : Bytes := Bootm.cpuToFdt32 part.offset.toNat ++ Bootm.cpuToFdt32 part.size.toNat

/-- `MTD_WRITEABLE_CMD` -/
def Part.readOnly (part : Part) : Bool := part.maskFlags &&& 1 ≠ 0

/-- `add_ro` -/
def addReadOnly (space : Space) (fuel newoff : Nat) (part : Part) (blob : Blob) (n : Nat) : Except (Option Int) (Blob × Nat) :=
  if part.readOnly then retry space (fun fits => fdtSetprop fits blob newoff readOnlyProp []) fuel n else .ok (blob, n)

/-- The calls for one partition -/
def addPart (space : Space) (fuel parent : Nat) (part : Part) (s : Blob × Nat) : Except (Option Int) (Blob × Nat) := do
  let ((newoff, blob), n) ← retry space (fun fits => fdtAddSubnode fits s.1 parent (partName part)) fuel s.2
  let (blob, n) ← addReadOnly space fuel newoff part blob n
  let (blob, n) ← retry space (fun fits => fdtSetprop fits blob newoff regProp (regCell part)) fuel n
  retry space (fun fits => fdtSetprop fits blob newoff labelProp (part.name ++ [0])) fuel n

/-- `list_for_each_prev` -/
def addParts (space : Space) (fuel parent : Nat) (parts : List Part) (s : Blob × Nat) : Except (Option Int) (Blob × Nat) :=
  parts.reverse.foldlM (fun s part => addPart space fuel parent part s) s

/-- The blob where it returns 0, else what it returns -/
def fdtNodeSetPartInfo (space : Space) (fuel : Nat) (blob : Blob) (parent : Nat) (parts : List Part) : Except (Option Int) Blob := do
  let blob ← fdtDelPartitions blob.length blob parent
  let parent := match nextNode blob parent 0 with
    | (some off, ndepth) => if 0 < off ∧ ndepth = 1 then off else parent
    | (none, _) => parent
  let (blob, _) ← addParts space fuel parent parts (blob, 0)
  .ok blob

/-! ## What it makes of the flash node -/

def Labelled (c : Node) : Prop := lookup labelProp c.props ≠ none

instance (c : Node) : Decidable (Labelled c) := inferInstanceAs (Decidable (¬ _))

/-- Only labelled nodes; or one node without a label, with only labelled ones in it -/
def Partitioned (flash : Node) : Prop :=
  (∀ c ∈ flash.children, Labelled c) ∨ ∃ sub, flash.children = [sub] ∧ ¬ Labelled sub ∧ ∀ c ∈ sub.children, Labelled c

/-- The node of a partition -/
def partNode (part : Part) : Node :=
  .node (partName part) ([(labelProp, part.name ++ [0]), (regProp, regCell part)] ++ if part.readOnly then [(readOnlyProp, [])] else []) []

/-- The node with the partitions for its children -/
def withParts (node : Node) (parts : List Part) : Node := .node node.name node.props (parts.map partNode)

/-- The flash node, or its one child without a label, with the partitions -/
def mirror (flash : Node) (parts : List Part) : Node :=
  match flash.children with
  | [sub] => if Labelled sub then withParts flash parts else .node flash.name flash.props [withParts sub parts]
  | _ => withParts flash parts

section
variable {name s : Bytes} {props : Props} {children cs : List Node} {c : Node} {pre post : Blob} {space : Space} {fuel n n' : Nat}
  {part : Part} {parts : List Part}

/-! ## Deleting the children -/

theorem head_split : pre ++ ((Rose.node name props (c :: cs)).flatten ++ post) =
    (pre ++ .openNode name :: propToks props) ++ (c.flatten ++ (flattenAll cs ++ .closeNode :: post)) := by
  rw [flatten_split, flattenAll]
  simp [List.append_assoc]

theorem head_length : (pre ++ (.openNode name :: propToks props) : Blob).length = pre.length + 1 + props.length := by
  rw [List.length_append, List.length_cons, propToks_length]
  omega

theorem delSubnodes_loop (hfuel : children.length < fuel) :
    walk (fun ndepth => 0 < ndepth) (delBody pre.length) fuel (pre ++ ((Rose.node name props children).flatten ++ post)) pre.length 0 =
      some (.ok (pre ++ ((Rose.node name props []).flatten ++ post), some (pre.length + 1 + props.length + 1), -1)) := by
  induction children generalizing fuel with
  | nil =>
      obtain ⟨fuel, rfl⟩ : ∃ k, fuel = k + 1 := ⟨fuel - 1, by omega⟩
      rw [walk, nextNode_leaf]
      rfl
  | cons c cs ih =>
      obtain ⟨fuel, rfl⟩ : ∃ k, fuel = k + 1 := ⟨fuel - 1, by omega⟩
      have hdel : fdtDelNode (pre ++ ((Rose.node name props (c :: cs)).flatten ++ post)) (pre.length + 1 + props.length) =
          .ok (pre ++ ((Rose.node name props cs).flatten ++ post)) := by
        rw [head_split, ← head_length, delNode_node, flatten_split]
        simp [List.append_assoc]
      rw [walk, nextNode_child, visit, if_pos (by decide), if_pos (by decide), delBody, hdel]
      exact ih (by simpa using hfuel)

theorem length_le_countAll : children.length ≤ countAll children := by
  induction children with
  | nil => exact Nat.le_refl 0
  | cons c cs ih =>
      have hc : 1 ≤ c.count := by
        cases c
        rw [Rose.count]
        omega
      rw [List.length_cons, countAll]
      omega

theorem delSubnodes_node : fdtDelSubnodes (pre ++ ((Rose.node name props children).flatten ++ post)) pre.length =
    .ok (pre ++ ((Rose.node name props []).flatten ++ post)) := by
  rw [fdtDelSubnodes, delSubnodes_loop (length_le_countAll.trans_lt subnode_fuel)]

theorem getprop_labelled : fdtGetprop (pre ++ (c.flatten ++ post)) pre.length labelProp = none ↔ ¬ Labelled c := by
  obtain ⟨name, props, children⟩ := c
  rw [Labelled, not_not, Rose.props]
  cases h : lookup labelProp props with
  | none => exact iff_of_true (getprop_none h) rfl
  | some value =>
      obtain ⟨p, hp, -⟩ := @getprop_some _ _ _ children name pre post h
      rw [hp]
      exact iff_of_false (Option.some_ne_none _) (Option.some_ne_none _)

/-- Below a node with only labelled children, or none -/
theorem delPartitions_labelled {level : Nat} (h : ∀ c ∈ children, Labelled c) :
    fdtDelPartitions (level + 1) (pre ++ ((Rose.node name props children).flatten ++ post)) pre.length =
      .ok (pre ++ ((Rose.node name props []).flatten ++ post)) := by
  cases children with
  | nil =>
      rw [fdtDelPartitions, nextNode_leaf]
      rfl
  | cons c cs =>
      have hlabel : fdtGetprop (pre ++ ((Rose.node name props (c :: cs)).flatten ++ post)) (pre.length + 1 + props.length) labelProp ≠ none := by
        rw [head_split, ← head_length, ne_eq, getprop_labelled, not_not]
        exact h c List.mem_cons_self
      obtain ⟨p, hp⟩ := Option.ne_none_iff_exists'.mp hlabel
      rw [fdtDelPartitions, nextNode_child]
      dsimp only
      rw [if_pos ⟨by omega, by omega⟩, hp]
      exact delSubnodes_node

/-- Below a node whose only child has no label -/
theorem delPartitions_sub {level : Nat} {subName : Bytes} {subProps : Props} (hsub : ¬ Labelled (.node subName subProps children))
    (h : ∀ c ∈ children, Labelled c) :
    fdtDelPartitions (level + 2) (pre ++ ((Rose.node name props [.node subName subProps children]).flatten ++ post)) pre.length =
      .ok (pre ++ ((Rose.node name props [.node subName subProps []]).flatten ++ post)) := by
  have hlabel : fdtGetprop (pre ++ ((Rose.node name props [.node subName subProps children]).flatten ++ post)) (pre.length + 1 + props.length)
      labelProp = none := by
    rw [head_split, ← head_length, getprop_labelled]
    exact hsub
  rw [fdtDelPartitions, nextNode_child]
  dsimp only
  rw [if_pos ⟨by omega, by omega⟩, hlabel]
  dsimp only
  rw [head_split, ← head_length, delPartitions_labelled h, head_split]

/-! ## Calls that are made again -/

/-- A call that makes a blob, if it fits, and returns `r` -/
def Makes {α : Type} (op : (Blob → Bool) → Except Int α) (blob : Blob) (r : α) : Prop :=
  ∀ fits : Blob → Bool, op fits = if fits blob then .ok r else .error errNoSpace

theorem retry_ok {α : Type} {op : (Blob → Bool) → Except Int α} {blob : Blob} {r r' : α} (hop : Makes op blob r)
    (h : retry space op fuel n = .ok (r', n')) : r' = r := by
  induction fuel generalizing n with
  | zero => cases h
  | succ fuel ih =>
      rw [retry, hop] at h
      cases hlacks : space.lacks n blob with
      | false =>
          simp only [hlacks, Bool.not_false, if_true] at h
          exact (congrArg Prod.fst (Except.ok.inj h)).symm
      | true =>
          simp only [hlacks, Bool.not_true, Bool.false_eq_true, if_false, if_true] at h
          split at h
          · exact ih h
          · cases h

theorem retry_room {α : Type} {op : (Blob → Bool) → Except Int α} {blob : Blob} {r : α} (hop : Makes op blob r)
    (hroom : space.lacks n blob = false) (hfuel : 0 < fuel) : retry space op fuel n = .ok (r, n + 1) := by
  obtain ⟨fuel, rfl⟩ : ∃ k, fuel = k + 1 := ⟨fuel - 1, by omega⟩
  rw [retry, hop]
  simp only [hroom, Bool.not_false, if_true]

theorem makes_setprop {key value : Bytes} :
    Makes (fun fits => fdtSetprop fits (pre ++ ((Rose.node name props children).flatten ++ post)) pre.length key value)
    (pre ++ ((Rose.node name (setKey key value props) children).flatten ++ post))
    (pre ++ ((Rose.node name (setKey key value props) children).flatten ++ post)) := fun _ => setprop_node

theorem makes_addSubnode (hnew : ∀ c ∈ children, nodenameEq c.name s = false) :
    Makes (fun fits => fdtAddSubnode fits (pre ++ ((Rose.node name props children).flatten ++ post)) pre.length s)
      (pre ++ ((Rose.node name props (.node s [] [] :: children)).flatten ++ post))
      (pre.length + 1 + props.length, pre ++ ((Rose.node name props (.node s [] [] :: children)).flatten ++ post)) := fun fits => by
  dsimp only
  rw [addSubnode_node hnew, splice]
  split <;> rfl

/-! ## One partition -/

/-- The node of a partition after each of the calls -/
def stage (part : Part) (props : Props) : Node := .node (partName part) props []

def roProps (part : Part) : Props := if part.readOnly then [(readOnlyProp, [])] else []

theorem setKey_readOnly : setKey readOnlyProp [] [] = [(readOnlyProp, [])] := by
  rw [setKey, lookup, if_pos rfl]

theorem setKey_reg (part : Part) : setKey regProp (regCell part) (roProps part) = (regProp, regCell part) :: roProps part := by
  have hnone : lookup regProp (roProps part) = none := by
    rw [roProps]
    split <;> decide
  rw [setKey, if_pos hnone]

theorem setKey_label (part : Part) : setKey labelProp (part.name ++ [0]) ((regProp, regCell part) :: roProps part) =
    (labelProp, part.name ++ [0]) :: (regProp, regCell part) :: roProps part := by
  have hnone : lookup labelProp ((regProp, regCell part) :: roProps part) = none := by
    rw [lookup, if_neg (show regProp ≠ labelProp by decide), roProps]
    split <;> decide
  rw [setKey, if_pos hnone]

theorem partNode_eq (part : Part) : partNode part = stage part ((labelProp, part.name ++ [0]) :: (regProp, regCell part) :: roProps part) := rfl

/-- The blob with a node before the other children -/
def withHead (pre : Blob) (name : Bytes) (props : Props) (cs : List Node) (post : Blob) (c : Node) : Blob :=
  pre ++ ((Rose.node name props (c :: cs)).flatten ++ post)

theorem makes_head (hnew : ∀ c ∈ cs, nodenameEq c.name (partName part) = false) :
    Makes (fun fits => fdtAddSubnode fits (pre ++ ((Rose.node name props cs).flatten ++ post)) pre.length (partName part))
      (withHead pre name props cs post (stage part [])) (pre.length + 1 + props.length, withHead pre name props cs post (stage part [])) :=
  makes_addSubnode hnew

theorem makes_stage {ps : Props} (key value : Bytes) :
    Makes (fun fits => fdtSetprop fits (withHead pre name props cs post (stage part ps)) (pre.length + 1 + props.length) key value)
      (withHead pre name props cs post (stage part (setKey key value ps)))
      (withHead pre name props cs post (stage part (setKey key value ps))) := by
  rw [withHead, withHead, head_split, head_split, ← head_length]
  exact makes_setprop

theorem addReadOnly_ok {blob : Blob}
    (h : addReadOnly space fuel (pre.length + 1 + props.length) part (withHead pre name props cs post (stage part [])) n = .ok (blob, n')) :
    blob = withHead pre name props cs post (stage part (roProps part)) := by
  rw [addReadOnly] at h
  rw [roProps]
  split at h
  · rename_i hread
    rw [if_pos hread, ← setKey_readOnly]
    exact retry_ok (makes_stage readOnlyProp []) h
  · rename_i hread
    rw [if_neg hread]
    exact (congrArg Prod.fst (Except.ok.inj h)).symm

/-- What the calls leave if none ends in an error -/
theorem addPart_ok {blob : Blob} (hnew : ∀ c ∈ cs, nodenameEq c.name (partName part) = false)
    (h : addPart space fuel pre.length part (pre ++ ((Rose.node name props cs).flatten ++ post), n) = .ok (blob, n')) :
    blob = withHead pre name props cs post (partNode part) := by
  obtain ⟨⟨⟨newoff, blob₀⟩, n₀⟩, hadd, h⟩ := bind_eq_ok h
  obtain ⟨rfl, rfl⟩ := Prod.mk.inj (retry_ok (makes_head hnew) hadd)
  obtain ⟨⟨blob₁, n₁⟩, hro, h⟩ := bind_eq_ok h
  obtain rfl := addReadOnly_ok hro
  obtain ⟨⟨blob₂, n₂⟩, hreg, hlabel⟩ := bind_eq_ok h
  obtain rfl := retry_ok (makes_stage regProp (regCell part)) hreg
  rw [setKey_reg] at hlabel
  rw [retry_ok (makes_stage labelProp (part.name ++ [0])) hlabel, setKey_label, partNode_eq]

/-! ## Room -/

/-- The size of a blob, for any sizes of the tokens -/
def blobSize (sz : Token Bytes Bytes Bytes → Nat) (blob : Blob) : Nat := (blob.map sz).sum

/-- A call lacks no space for a blob up to a size. -/
def Space.Room (space : Space) (sz : Token Bytes Bytes Bytes → Nat) (limit : Nat) : Prop :=
  ∀ n blob, blobSize sz blob ≤ limit → space.lacks n blob = false

variable {sz : Token Bytes Bytes Bytes → Nat} {limit : Nat}

theorem blobSize_append (xs ys : Blob) : blobSize sz (xs ++ ys) = blobSize sz xs + blobSize sz ys := by
  rw [blobSize, List.map_append, List.sum_append]
  rfl

theorem blobSize_cons (x : Token Bytes Bytes Bytes) (xs : Blob) : blobSize sz (x :: xs) = sz x + blobSize sz xs := by
  rw [blobSize, List.map_cons, List.sum_cons]
  rfl

/-- A child more -/
theorem blobSize_head : blobSize sz (withHead pre name props cs post c) =
    blobSize sz (pre ++ ((Rose.node name props cs).flatten ++ post)) + blobSize sz c.flatten := by
  rw [withHead, flatten_split, flatten_split, flattenAll]
  simp only [blobSize_append, blobSize_cons]
  omega

/-- A property more -/
theorem blobSize_stage (p : Bytes × Bytes) (ps : Props) : blobSize sz (withHead pre name props cs post (stage part ps)) ≤
    blobSize sz (withHead pre name props cs post (stage part (p :: ps))) := by
  have hflat : ∀ qs : Props, (Rose.node (partName part) qs [] : Node).flatten = .openNode (partName part) :: (propToks qs ++ [.closeNode]) :=
    fun qs => by
      rw [flatten_node]
      rfl
  have hprops : (propToks (p :: ps) : Blob) = .prop p.1 p.2 :: propToks ps := rfl
  rw [blobSize_head, blobSize_head, stage, stage, hflat, hflat, hprops]
  simp only [blobSize_append, blobSize_cons]
  omega

theorem blobSize_readOnly : blobSize sz (withHead pre name props cs post (stage part [])) ≤
    blobSize sz (withHead pre name props cs post (stage part (roProps part))) := by
  rw [roProps]
  split
  · exact blobSize_stage _ _
  · exact Nat.le_refl _

theorem addReadOnly_room (hroom : space.Room sz limit) (hfuel : 0 < fuel)
    (hlimit : blobSize sz (withHead pre name props cs post (stage part (roProps part))) ≤ limit) :
    ∃ n', addReadOnly space fuel (pre.length + 1 + props.length) part (withHead pre name props cs post (stage part [])) n =
      .ok (withHead pre name props cs post (stage part (roProps part)), n') := by
  rw [addReadOnly]
  rw [roProps] at hlimit ⊢
  split
  · rename_i hread
    rw [if_pos hread, ← setKey_readOnly] at hlimit
    rw [← setKey_readOnly]
    exact ⟨_, retry_room (makes_stage readOnlyProp []) (hroom _ _ hlimit) hfuel⟩
  · exact ⟨_, rfl⟩

/-- With room for what they leave, no call ends in an error. -/
theorem addPart_room (hnew : ∀ c ∈ cs, nodenameEq c.name (partName part) = false) (hroom : space.Room sz limit) (hfuel : 0 < fuel)
    (hlimit : blobSize sz (withHead pre name props cs post (partNode part)) ≤ limit) :
    ∃ n', addPart space fuel pre.length part (pre ++ ((Rose.node name props cs).flatten ++ post), n) =
      .ok (withHead pre name props cs post (partNode part), n') := by
  rw [partNode_eq] at hlimit ⊢
  have hreg := (blobSize_stage _ _).trans hlimit
  have hro := (blobSize_stage _ _).trans hreg
  have hempty := blobSize_readOnly.trans hro
  obtain ⟨n₁, hone⟩ := @addReadOnly_room name props cs pre post space fuel (n + 1) part sz limit hroom hfuel hro
  have htwo := retry_room (n := n₁) (makes_stage regProp (regCell part)) (hroom n₁ _ (by rw [setKey_reg]; exact hreg)) hfuel
  have hthree := retry_room (n := n₁ + 1) (makes_stage labelProp (part.name ++ [0])) (hroom (n₁ + 1) _ (by rw [setKey_label]; exact hlimit)) hfuel
  rw [addPart, retry_room (makes_head hnew) (hroom _ _ hempty) hfuel, ok_bind]
  dsimp only
  rw [hone, ok_bind]
  dsimp only
  rw [htwo, ok_bind, setKey_reg]
  dsimp only
  rw [hthree, setKey_label]
  exact ⟨_, rfl⟩

/-! ## Names -/

def unhex (b : UInt8) : Nat := if b < 58 then b.toNat - 48 else b.toNat - 87

theorem unhex_hexDigit {d : Nat} (h : d < 16) : unhex (hexDigit d) = d := by
  interval_cases d <;> rfl

theorem hexString_value (k : Nat) : Nat.ofDigits 16 ((hexString k).map unhex).reverse = k := by
  rw [hexString]
  split
  · rename_i hzero
    rw [hzero]
    decide
  · have hdigits : ((Nat.digits 16 k).reverse.map hexDigit).map unhex = (Nat.digits 16 k).reverse := by
      rw [List.map_map]
      refine (List.map_congr_left fun d hd => ?_).trans (List.map_id _)
      exact unhex_hexDigit (Nat.digits_lt_base (by decide) (List.mem_reverse.mp hd))
    rw [hdigits, List.reverse_reverse, Nat.ofDigits_digits]

/-- Partitions with one name have one offset. -/
theorem partName_inj {p q : Part} (h : nodenameEq (partName q) (partName p) = true) : q.offset = p.offset := by
  have hunit : (partName p).contains 64 = true := by
    rw [List.contains_iff_mem, partName, List.mem_append]
    exact Or.inl (by decide)
  rw [nodenameEq, hunit, Bool.not_true, Bool.false_and, Bool.or_false, Bool.and_eq_true, List.isPrefixOf_iff_prefix, decide_eq_true_eq] at h
  have hname : partName p = partName q := h.1.eq_of_length h.2.symm
  have hhex : hexString p.offset.toNat = hexString q.offset.toNat := List.append_cancel_left hname
  have hvalue : p.offset.toNat = q.offset.toNat := by
    rw [← hexString_value p.offset.toNat, hhex, hexString_value]
  exact (UInt32.toNat_inj.mp hvalue).symm

theorem partName_new {p : Part} {ps : List Part} (hdistinct : ((p :: ps).map Part.offset).Nodup) :
    ∀ c ∈ ps.map partNode, nodenameEq c.name (partName p) = false := by
  intro c hc
  obtain ⟨q, hq, rfl⟩ := List.mem_map.mp hc
  refine Bool.eq_false_of_not_eq_true fun h => ?_
  rw [List.map_cons, List.nodup_cons] at hdistinct
  exact hdistinct.1 (partName_inj h ▸ List.mem_map_of_mem hq)

/-! ## All partitions -/

theorem addParts_cons {parent : Nat} {t : Blob × Nat} : addParts space fuel parent (part :: parts) t =
    addParts space fuel parent parts t >>= addPart space fuel parent part := by
  rw [addParts, addParts, List.reverse_cons, List.foldlM_append]
  congr 1
  funext t
  rw [List.foldlM_cons]
  cases addPart space fuel parent part t <;> rfl

theorem addParts_ok {blob : Blob} (hdistinct : (parts.map Part.offset).Nodup)
    (h : addParts space fuel pre.length parts (pre ++ ((Rose.node name props []).flatten ++ post), n) = .ok (blob, n')) :
    blob = pre ++ ((Rose.node name props (parts.map partNode)).flatten ++ post) := by
  induction parts generalizing blob n' with
  | nil => exact (congrArg Prod.fst (Except.ok.inj h)).symm
  | cons p ps ih =>
      rw [addParts_cons] at h
      obtain ⟨⟨blob₁, n₁⟩, hps, hp⟩ := bind_eq_ok h
      have hrest : (ps.map Part.offset).Nodup := by
        rw [List.map_cons, List.nodup_cons] at hdistinct
        exact hdistinct.2
      obtain rfl := ih hrest hps
      exact addPart_ok (partName_new hdistinct) hp

theorem addParts_room (hdistinct : (parts.map Part.offset).Nodup) (hroom : space.Room sz limit) (hfuel : 0 < fuel)
    (hlimit : blobSize sz (pre ++ ((Rose.node name props (parts.map partNode)).flatten ++ post)) ≤ limit) :
    ∃ n', addParts space fuel pre.length parts (pre ++ ((Rose.node name props []).flatten ++ post), n) =
      .ok (pre ++ ((Rose.node name props (parts.map partNode)).flatten ++ post), n') := by
  induction parts with
  | nil => exact ⟨n, rfl⟩
  | cons p ps ih =>
      have hrest : (ps.map Part.offset).Nodup := by
        rw [List.map_cons, List.nodup_cons] at hdistinct
        exact hdistinct.2
      have hhead : blobSize sz (withHead pre name props (ps.map partNode) post (partNode p)) ≤ limit := hlimit
      have hhead' := hhead
      rw [blobSize_head] at hhead'
      obtain ⟨n₁, hps⟩ := ih hrest (by omega)
      obtain ⟨n₂, hp⟩ := @addPart_room name props (ps.map partNode) pre post space fuel n₁ p sz limit (partName_new hdistinct) hroom hfuel hhead
      exact ⟨n₂, by rw [addParts_cons, hps, ok_bind, hp]; rfl⟩

/-! ## The flash node -/

theorem labelled_partNode (p : Part) : Labelled (partNode p) := by
  rw [Labelled, partNode_eq, stage, Rose.props, lookup, if_pos rfl]
  exact Option.some_ne_none _

theorem labelled_parts : ∀ c ∈ parts.map partNode, Labelled c := by
  intro c hc
  obtain ⟨p, -, rfl⟩ := List.mem_map.mp hc
  exact labelled_partNode p

theorem mirror_labelled {flash : Node} (h : ∀ c ∈ flash.children, Labelled c) : mirror flash parts = withParts flash parts := by
  rw [mirror]
  split
  · rename_i sub hsub
    rw [if_pos (h sub (by rw [hsub]; exact List.mem_singleton_self _))]
  · rfl

theorem mirror_sub {flash sub : Node} (hsub : flash.children = [sub]) (h : ¬ Labelled sub) :
    mirror flash parts = .node flash.name flash.props [withParts sub parts] := by
  rw [mirror, hsub]
  exact if_neg h

theorem mirror_partitioned {flash : Node} (h : Partitioned flash) : Partitioned (mirror flash parts) := by
  rcases h with h | ⟨sub, hsub, hlabel, -⟩
  · rw [mirror_labelled h]
    exact Or.inl labelled_parts
  · rw [mirror_sub hsub hlabel]
    exact Or.inr ⟨withParts sub parts, rfl, hlabel, labelled_parts⟩

theorem mirror_mirror {flash : Node} (h : Partitioned flash) : mirror (mirror flash parts) parts = mirror flash parts := by
  rcases h with h | ⟨sub, hsub, hlabel, -⟩
  · have hparts : ∀ c ∈ (withParts flash parts).children, Labelled c := labelled_parts
    rw [mirror_labelled h, mirror_labelled hparts]
    rfl
  · have hlabel' : ¬ Labelled (withParts sub parts) := hlabel
    have hchildren : (Rose.node flash.name flash.props [withParts sub parts] : Node).children = [withParts sub parts] := rfl
    rw [mirror_sub hsub hlabel, mirror_sub hchildren hlabel']
    rfl

/-- The node that the partitions are added to, which has no children then -/
theorem setPartInfo_eq {flash : Node} (h : Partitioned flash) : ∃ (pre' : Blob) (name' : Bytes) (props' : Props) (post' : Blob),
    (∀ space fuel, fdtNodeSetPartInfo space fuel (pre ++ (flash.flatten ++ post)) pre.length parts =
      (addParts space fuel pre'.length parts (pre' ++ ((Rose.node name' props' []).flatten ++ post'), 0)).map Prod.fst) ∧
    pre' ++ ((Rose.node name' props' (parts.map partNode)).flatten ++ post') = pre ++ ((mirror flash parts).flatten ++ post) := by
  obtain ⟨level, hlevel⟩ : ∃ k, (pre ++ (flash.flatten ++ post)).length = k + 2 := by
    have hcount := count_le flash
    have hpos : 1 ≤ flash.count := by
      cases flash
      rw [Rose.count]
      omega
    refine ⟨(pre ++ (flash.flatten ++ post)).length - 2, ?_⟩
    rw [List.length_append, List.length_append]
    omega
  rcases h with h | ⟨sub, hsub, hlabel, hchildren⟩
  · refine ⟨pre, flash.name, flash.props, post, fun space fuel => ?_, by rw [mirror_labelled h]; rfl⟩
    obtain ⟨name, props, children⟩ := flash
    have hchildren : ∀ c ∈ children, Labelled c := h
    rw [fdtNodeSetPartInfo, hlevel, delPartitions_labelled hchildren, ok_bind]
    dsimp only
    rw [nextNode_leaf]
    dsimp only
    rw [if_neg (by omega)]
    simp only [Rose.name, Rose.props]
    cases addParts space fuel pre.length parts (pre ++ ((Rose.node name props []).flatten ++ post), 0) <;> rfl
  · obtain ⟨name, props, children⟩ := flash
    obtain ⟨subName, subProps, subChildren⟩ := sub
    obtain rfl : children = [Rose.node subName subProps subChildren] := hsub
    have hchildren : ∀ c ∈ subChildren, Labelled c := hchildren
    refine ⟨pre ++ .openNode name :: propToks props, subName, subProps, flattenAll [] ++ .closeNode :: post, fun space fuel => ?_, ?_⟩
    · rw [fdtNodeSetPartInfo, hlevel, delPartitions_sub hlabel hchildren, ok_bind]
      dsimp only
      rw [nextNode_child]
      dsimp only
      rw [if_pos ⟨by omega, by omega⟩, head_split, ← head_length]
      cases addParts space fuel (pre ++ (.openNode name :: propToks props) : Blob).length parts
        ((pre ++ .openNode name :: propToks props) ++ ((Rose.node subName subProps []).flatten ++ (flattenAll [] ++ .closeNode :: post)), 0) <;> rfl
    · rw [mirror_sub rfl hlabel]
      simp only [Rose.name, Rose.props]
      rw [head_split]
      rfl

theorem setPartInfo_ok {flash : Node} {blob : Blob} (hshape : Partitioned flash) (hdistinct : (parts.map Part.offset).Nodup)
    (h : fdtNodeSetPartInfo space fuel (pre ++ (flash.flatten ++ post)) pre.length parts = .ok blob) :
    blob = pre ++ ((mirror flash parts).flatten ++ post) := by
  obtain ⟨pre', name', props', post', hcall, hblob⟩ := @setPartInfo_eq pre post parts flash hshape
  rw [hcall] at h
  cases hadd : addParts space fuel pre'.length parts (pre' ++ ((Rose.node name' props' []).flatten ++ post'), 0) with
  | error e =>
      rw [hadd] at h
      cases h
  | ok r =>
      obtain ⟨blob₁, n₁⟩ := r
      rw [hadd] at h
      obtain rfl := Except.ok.inj h
      rw [← hblob]
      exact addParts_ok hdistinct hadd

theorem setPartInfo_room {flash : Node} (hshape : Partitioned flash) (hdistinct : (parts.map Part.offset).Nodup)
    (hroom : space.Room sz (blobSize sz (pre ++ ((mirror flash parts).flatten ++ post)))) (hfuel : 0 < fuel) :
    fdtNodeSetPartInfo space fuel (pre ++ (flash.flatten ++ post)) pre.length parts = .ok (pre ++ ((mirror flash parts).flatten ++ post)) := by
  obtain ⟨pre', name', props', post', hcall, hblob⟩ := @setPartInfo_eq pre post parts flash hshape
  rw [← hblob] at hroom ⊢
  obtain ⟨n', hadd⟩ := @addParts_room name' props' pre' post' space fuel 0 parts sz _ hdistinct hroom hfuel (Nat.le_refl _)
  rw [hcall, hadd]
  rfl

/-- Where it returns 0, the partitions are the children of the flash node, or of its subnode, and everything else is as it was. A second
call that returns 0 changes nothing, and it does return 0 where a call lacks space only for a larger blob. -/
theorem partitions_mirror {flash : Node} {blob : Blob} (hshape : Partitioned flash) (hdistinct : (parts.map Part.offset).Nodup)
    (h : fdtNodeSetPartInfo space fuel (pre ++ (flash.flatten ++ post)) pre.length parts = .ok blob) :
    blob = pre ++ ((mirror flash parts).flatten ++ post) ∧
    ∀ space' fuel',
      (∀ blob', fdtNodeSetPartInfo space' fuel' blob pre.length parts = .ok blob' → blob' = blob) ∧
      ∀ sz : Token Bytes Bytes Bytes → Nat, space'.Room sz (blobSize sz blob) → 0 < fuel' →
        fdtNodeSetPartInfo space' fuel' blob pre.length parts = .ok blob := by
  obtain rfl := setPartInfo_ok hshape hdistinct h
  have hagain : Partitioned (mirror flash parts) := mirror_partitioned hshape
  refine ⟨rfl, fun space' fuel' => ⟨fun blob' hsecond => ?_, fun sz hroom hfuel => ?_⟩⟩
  · rw [setPartInfo_ok hagain hdistinct hsecond, mirror_mirror hshape]
  · have hmirror : (mirror (mirror flash parts) parts).flatten = (mirror flash parts).flatten := by rw [mirror_mirror hshape]
    rw [← hmirror] at hroom
    rw [setPartInfo_room hagain hdistinct hroom hfuel, hmirror]

end

/-! ## A subnode -/

/-- Two partitions, the second one read-only -/
def sampleParts : List Part := [⟨ascii "fs", 0, 0x80000, 0⟩, ⟨ascii "env", 0xe0000, 0x10000, 1⟩]

/-- A flash node with an old partition in its subnode -/
def sampleFlash : Node :=
  .node (ascii "flash@0") [(ascii "status", ascii "ok")] [.node (ascii "nand") [] [.node (ascii "partition@0") [(labelProp, [0])] []]]

/-- Every second call lacks space. -/
def sampleSpace : Space := ⟨fun n _ => n % 2 = 0, fun _ => 0⟩

def sampleBlob : Blob :=
  (.node [] [] [.node (ascii "flash@0") [(ascii "status", ascii "ok")] [.node (ascii "nand") []
    [.node (ascii "partition@0") [(labelProp, ascii "fs" ++ [0]), (regProp, [0, 0, 0, 0, 0, 8, 0, 0])] [],
      .node (ascii "partition@e0000") [(labelProp, ascii "env" ++ [0]), (regProp, [0, 0x0e, 0, 0, 0, 1, 0, 0]), (readOnlyProp, [])]
        []]]] : Node).flatten

theorem partitions_mirror_sample :
    fdtNodeSetPartInfo sampleSpace 2 (.openNode [] :: (sampleFlash.flatten ++ [.closeNode])) 1 sampleParts = .ok sampleBlob ∧
    ∀ blob', fdtNodeSetPartInfo sampleSpace 2 sampleBlob 1 sampleParts = .ok blob' → blob' = sampleBlob := by
  have hset : fdtNodeSetPartInfo sampleSpace 2 ([.openNode []] ++ (sampleFlash.flatten ++ [.closeNode])) 1 sampleParts =
      .ok sampleBlob := by decide
  have hshape : Partitioned sampleFlash := Or.inr ⟨_, rfl, by decide, by decide⟩
  have hsecond := (@partitions_mirror [.openNode []] [.closeNode] sampleSpace 2 sampleParts sampleFlash sampleBlob hshape (by decide) hset).2
  exact ⟨hset, (hsecond sampleSpace 2).1⟩

end Uboot.Fdt
