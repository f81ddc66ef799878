import Uboot.Lib.FlatTree

/-!
# Device trees as tokens

What `lib/libfdt` does with the structure block of a blob. Offsets count tokens, and a pointer to the value of a property is the
offset of its token. What fits into the buffer is a parameter.
-/

namespace Uboot.Fdt

open Lib.FlatTree

abbrev Bytes := List UInt8
abbrev Blob := Toks Bytes Bytes Bytes
abbrev Node := Rose Bytes Bytes Bytes
abbrev Props := List (Bytes × Bytes)

def errNotFound : Int := -1
def errExists : Int := -2
def errNoSpace : Int := -3
def errBadOffset : Int := -4

/-! ## Reading -/

/-- From a property on, the first one with a name -/
def findProp (key : Bytes) : Blob → Nat → Option Nat
  | .prop k _ :: ts, i => if k = key then some i else findProp key ts (i + 1)
  | _, _ => none

def fdtGetProperty (blob : Blob) (off : Nat) (key : Bytes) : Except Int Nat :=
  match blob.drop off with
  | .openNode _ :: ts =>
    match findProp key ts (off + 1) with
    | none => .error errNotFound
    | some p => .ok p
  | _ => .error errBadOffset

/-- The value at a pointer -/
def bytesAt (blob : Blob) (p : Nat) : Bytes :=
  match blob[p]? with
  | some (.prop _ value) => value
  | _ => []

/-- Pointer and length, or none for a null pointer -/
def fdtGetprop (blob : Blob) (off : Nat) (key : Bytes) : Option (Nat × Nat) :=
  match fdtGetProperty blob off key with
  | .error _ => none
  | .ok p => some (p, (bytesAt blob p).length)

def fdtGetName (blob : Blob) (off : Nat) : Bytes :=
  match blob[off]? with
  | some (.openNode name) => name
  | _ => []

/-- `_fdt_nodename_eq`: the name, or the name with a unit address where `s` has none -/
def nodenameEq (name s : Bytes) : Bool :=
  s.isPrefixOf name && (name.length = s.length || !s.contains 64 && name[s.length]? = some 64)

/-- `fdt_subnode_offset`, with an error of `fdt_next_node` as one for the offset -/
def fdtSubnodeOffset (blob : Blob) (parent : Nat) (name : Bytes) : Except Int Nat :=
  let body (blob : Blob) (off : Nat) : Except Nat (Blob × Nat × Int) :=
    if nodenameEq (fdtGetName blob off) name then .error off else .ok (blob, off, 1)
  match walk (fun depth => 0 ≤ depth) body blob.length blob parent 0 with
  | some (.error off) => .ok off
  | some (.ok (_, some _, _)) => .error errNotFound
  | _ => .error errBadOffset

/-! ## Writing -/

/-- `_fdt_splice_struct` -/
def splice (fits : Blob → Bool) (blob : Blob) : Except Int Blob := if fits blob then .ok blob else .error errNoSpace

def fdtSetprop (fits : Blob → Bool) (blob : Blob) (off : Nat) (key value : Bytes) : Except Int Blob :=
  match fdtGetProperty blob off key with
  | .ok p => splice fits (blob.set p (.prop key value))
  | .error e =>
    if e = errNotFound then splice fits (blob.take (off + 1) ++ .prop key value :: blob.drop (off + 1)) else .error e

/-! ## Properties of a node -/

/-- The value of the first property with a name -/
def lookup (key : Bytes) : Props → Option Bytes
  | [] => none
  | p :: ps => if p.1 = key then some p.2 else lookup key ps

/-- The properties after `fdt_setprop`: a new one comes first. -/
def setKey (key value : Bytes) (props : Props) : Props :=
  if lookup key props = none then (key, value) :: props else replaceKey props
where
  replaceKey : Props → Props
    | [] => []
    | p :: ps => if p.1 = key then (key, value) :: ps else p :: replaceKey ps

section
variable {key value : Bytes} {props : Props} {children : List Node} {name : Bytes} {pre post rest : Blob} {i : Nat}

theorem lookup_split (h : lookup key props = some value) : ∃ l r, props = l ++ (key, value) :: r ∧ lookup key l = none := by
  induction props with
  | nil => cases h
  | cons p ps ih =>
      rw [lookup] at h
      split at h
      · rename_i hkey
        obtain rfl := Option.some.inj h
        exact ⟨[], ps, by rw [List.nil_append, ← hkey], rfl⟩
      · rename_i hkey
        obtain ⟨l, r, rfl, hl⟩ := ih h
        exact ⟨p :: l, r, rfl, by rw [lookup, if_neg hkey, hl]⟩

theorem lookup_append {l r : Props} (h : lookup key l = none) : lookup key (l ++ r) = lookup key r := by
  induction l with
  | nil => rfl
  | cons p ps ih =>
      rw [lookup] at h
      split at h
      · cases h
      · rename_i hkey
        rw [List.cons_append, lookup, if_neg hkey, ih h]

theorem replaceKey_append {l r : Props} {old : Bytes} (h : lookup key l = none) :
    setKey.replaceKey key value (l ++ (key, old) :: r) = l ++ (key, value) :: r := by
  induction l with
  | nil => rw [List.nil_append, setKey.replaceKey, if_pos rfl, List.nil_append]
  | cons p ps ih =>
      rw [lookup] at h
      split at h
      · cases h
      · rename_i hkey
        rw [List.cons_append, setKey.replaceKey, if_neg hkey, ih h, List.cons_append]

theorem lookup_setKey_self : lookup key (setKey key value props) = some value := by
  rw [setKey]
  cases h : lookup key props with
  | none => rw [if_pos rfl, lookup, if_pos rfl]
  | some old =>
      obtain ⟨l, r, rfl, hl⟩ := lookup_split h
      rw [if_neg (Option.some_ne_none _), replaceKey_append hl, lookup_append hl, lookup, if_pos rfl]

theorem lookup_setKey_other {other : Bytes} (hne : other ≠ key) : lookup other (setKey key value props) = lookup other props := by
  rw [setKey]
  cases h : lookup key props with
  | none => rw [if_pos rfl, lookup, if_neg hne.symm]
  | some old =>
      rw [if_neg (Option.some_ne_none _)]
      clear h
      induction props with
      | nil => rfl
      | cons p ps ih =>
          rw [setKey.replaceKey]
          by_cases hkey : p.1 = key
          · rw [if_pos hkey, lookup, lookup, if_neg hne.symm, if_neg (by rw [hkey]; exact hne.symm)]
          · rw [if_neg hkey, lookup, lookup, ih]

/-! ## The functions on a node -/

theorem findProp_children : findProp key (flattenAll children ++ .closeNode :: post) i = none := by
  cases children with
  | nil => rfl
  | cons c cs =>
      cases c
      rw [flattenAll, flatten_node]
      rfl

theorem findProp_none (h : lookup key props = none) : findProp key (propToks props ++ rest) i = findProp key rest (i + props.length) := by
  induction props generalizing i with
  | nil => rfl
  | cons p ps ih =>
      rw [lookup] at h
      split at h
      · cases h
      · rename_i hkey
        show findProp key (.prop p.1 p.2 :: (propToks ps ++ rest)) i = _
        rw [findProp, if_neg hkey, ih h, List.length_cons]
        congr 1
        omega

/-- A node in its blob -/
theorem flatten_split : pre ++ ((Rose.node name props children).flatten ++ post) =
    pre ++ .openNode name :: (propToks props ++ (flattenAll children ++ .closeNode :: post)) := by
  rw [flatten_node]
  simp [List.append_assoc]

/-- A child in the blob of the tree -/
theorem root_flatten {before after : List Node} {c : Node} : (Rose.node name props (before ++ c :: after)).flatten =
    (.openNode name :: (propToks props ++ flattenAll before) : Blob) ++ (c.flatten ++ (flattenAll after ++ [.closeNode])) := by
  rw [flatten_node, flattenAll_append, flattenAll]
  simp [List.append_assoc]

theorem getProperty_none (h : lookup key props = none) :
    fdtGetProperty (pre ++ ((Rose.node name props children).flatten ++ post)) pre.length key = .error errNotFound := by
  rw [flatten_split, fdtGetProperty, List.drop_left]
  simp only [findProp_none h, findProp_children]

theorem getProperty_some {l r : Props} (h : lookup key l = none) :
    fdtGetProperty (pre ++ ((Rose.node name (l ++ (key, value) :: r) children).flatten ++ post)) pre.length key =
      .ok (pre.length + 1 + l.length) := by
  have hprops : (propToks (l ++ (key, value) :: r) : Blob) = propToks l ++ (.prop key value :: propToks r) := by simp [propToks]
  have hfind : findProp key (propToks (l ++ (key, value) :: r) ++ (flattenAll children ++ .closeNode :: post)) (pre.length + 1) =
      some (pre.length + 1 + l.length) := by
    rw [hprops, List.append_assoc, findProp_none h, List.cons_append, findProp, if_pos rfl]
  rw [flatten_split, fdtGetProperty, List.drop_left]
  simp only [hfind]

/-- The offset and the value of a property that is there; the value stays where nothing before its node's children changes. -/
theorem getprop_some (h : lookup key props = some value) :
    ∃ p, fdtGetprop (pre ++ ((Rose.node name props children).flatten ++ post)) pre.length key = some (p, value.length) ∧
      ∀ rest, bytesAt (pre ++ .openNode name :: (propToks props ++ rest)) p = value := by
  obtain ⟨l, r, rfl, hl⟩ := lookup_split h
  have hvalue : ∀ rest, bytesAt (pre ++ .openNode name :: (propToks (l ++ (key, value) :: r) ++ rest)) (pre.length + 1 + l.length) = value := by
    intro rest
    have htok : (pre ++ .openNode name :: (propToks (l ++ (key, value) :: r) ++ rest))[pre.length + 1 + l.length]? =
        some (.prop key value) := by
      rw [Nat.add_assoc, List.getElem?_append_right (Nat.le_add_right _ _), Nat.add_sub_cancel_left, Nat.add_comm 1,
        List.getElem?_cons_succ]
      simp [propToks]
    rw [bytesAt, htok]
  refine ⟨_, ?_, hvalue⟩
  rw [fdtGetprop, getProperty_some hl]
  simp only [flatten_split, hvalue]

theorem getprop_none (h : lookup key props = none) :
    fdtGetprop (pre ++ ((Rose.node name props children).flatten ++ post)) pre.length key = none := by
  rw [fdtGetprop, getProperty_none h]

theorem getName_node {c : Node} : fdtGetName (pre ++ (c.flatten ++ post)) pre.length = c.name := by
  cases c
  rw [fdtGetName, List.getElem?_append_right (Nat.le_refl _), Nat.sub_self, flatten_node]
  rfl

theorem setprop_node {fits : Blob → Bool} : fdtSetprop fits (pre ++ ((Rose.node name props children).flatten ++ post)) pre.length key value =
    splice fits (pre ++ ((Rose.node name (setKey key value props) children).flatten ++ post)) := by
  cases h : lookup key props with
  | none =>
      have htake : ∀ xs : Blob, (pre ++ .openNode name :: xs).take (pre.length + 1) = pre ++ [.openNode name] := fun xs => by
        rw [List.take_length_add_append]
        rfl
      have hdrop : ∀ xs : Blob, (pre ++ .openNode name :: xs).drop (pre.length + 1) = xs := fun xs => by
        rw [List.drop_length_add_append]
        rfl
      rw [fdtSetprop, getProperty_none h]
      dsimp only
      rw [if_pos rfl, setKey, if_pos h, flatten_split, flatten_split, htake, hdrop, List.append_assoc]
      rfl
  | some old =>
      obtain ⟨l, r, rfl, hl⟩ := lookup_split h
      have hset : ∀ rest : Blob,
          (pre ++ (.openNode name :: (propToks (l ++ (key, old) :: r) ++ rest) : Blob)).set (pre.length + 1 + l.length) (.prop key value) =
          pre ++ .openNode name :: (propToks (l ++ (key, value) :: r) ++ rest) := by
        intro rest
        rw [List.set_append_right _ _ (by omega), show pre.length + 1 + l.length - pre.length = l.length + 1 by omega, List.set_cons_succ]
        simp [propToks]
      rw [fdtSetprop, getProperty_some hl, setKey, if_neg (by rw [h]; exact Option.some_ne_none _), replaceKey_append hl]
      dsimp only
      rw [flatten_split, flatten_split, hset]

/-! ## A child by its name -/

/-- The child of a name as a step of the loop: it ends with the offset. -/
def findStep (s : Bytes) (pre : Blob) (c : Node) (_ : Blob) : Except Nat Node :=
  if nodenameEq c.name s then .error pre.length else .ok c

theorem findStep_steps (s : Bytes) : Steps (fun blob off => if nodenameEq (fdtGetName blob off) s then .error off else .ok (blob, off, 1))
    (findStep s) fun _ => True where
  body_eq := by
    intro pre rest c _
    rw [getName_node, findStep]
    split <;> rfl
  count_eq := by
    intro pre rest c c' h
    rw [findStep] at h
    split at h
    · cases h
    · rw [Except.ok.inj h]
  kept := fun _ _ => trivial

theorem findStep_none {s : Bytes} (h : ∀ c ∈ children, nodenameEq c.name s = false) : steps (findStep s) pre post children = .ok children := by
  induction children generalizing pre with
  | nil => rfl
  | cons c cs ih =>
      have hc : findStep s pre c (flattenAll cs ++ post) = .ok c := by
        rw [findStep, if_neg (by rw [h c List.mem_cons_self]; exact Bool.false_ne_true)]
      rw [steps, hc]
      simp only [ih fun d hd => h d (List.mem_cons_of_mem _ hd)]
      rfl

theorem findStep_first {s : Bytes} {before after : List Node} {c : Node} (h : ∀ d ∈ before, nodenameEq d.name s = false)
    (hc : nodenameEq c.name s = true) : steps (findStep s) pre post (before ++ c :: after) = .error (pre ++ flattenAll before).length := by
  induction before generalizing pre with
  | nil => rw [List.nil_append, steps, findStep, if_pos hc, flattenAll, List.append_nil]
  | cons d ds ih =>
      have hd : findStep s pre d (flattenAll (ds ++ c :: after) ++ post) = .ok d := by
        rw [findStep, if_neg (by rw [h d List.mem_cons_self]; exact Bool.false_ne_true)]
      rw [List.cons_append, steps, hd]
      simp only [ih fun e he => h e (List.mem_cons_of_mem _ he)]
      rw [flattenAll, List.append_assoc]
      rfl

theorem subnode_fuel : countAll children < (pre ++ ((Rose.node name props children).flatten ++ post)).length := by
  have h := count_le (Rose.node name props children)
  rw [Rose.count] at h
  rw [List.length_append, List.length_append]
  omega

theorem subnodeOffset_none {s : Bytes} (h : ∀ c ∈ children, nodenameEq c.name s = false) :
    fdtSubnodeOffset (pre ++ ((Rose.node name props children).flatten ++ post)) pre.length s = .error errNotFound := by
  rw [fdtSubnodeOffset, walk_children (by simp; omega) (by decide) (findStep_steps s) trivial subnode_fuel, findStep_none h]
  rfl

theorem subnodeOffset_first {s : Bytes} {before after : List Node} {c : Node} (h : ∀ d ∈ before, nodenameEq d.name s = false)
    (hc : nodenameEq c.name s = true) :
    fdtSubnodeOffset (pre ++ ((Rose.node name props (before ++ c :: after)).flatten ++ post)) pre.length s =
      .ok (pre ++ (.openNode name :: (propToks props ++ flattenAll before) : Blob)).length := by
  rw [fdtSubnodeOffset, walk_children (by simp; omega) (by decide) (findStep_steps s) trivial subnode_fuel, findStep_first h hc]
  simp [Except.map]

end

end Uboot.Fdt
