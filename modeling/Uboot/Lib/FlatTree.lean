import Mathlib.Data.List.Basic
import Mathlib.Tactic

/-!
# Flattened trees

A tree as the list of its tokens, with positions in the list for the nodes. Loops over it count the depth: they look at the next
node behind the current one, and act on the nodes of depth 1.
-/

namespace Uboot.Lib.FlatTree

inductive Token (ν κ β : Type) where
  | openNode (name : ν)
  | prop (key : κ) (value : β)
  | closeNode
deriving DecidableEq, Repr

inductive Rose (ν κ β : Type) where
  | node (name : ν) (props : List (κ × β)) (children : List (Rose ν κ β))

section
variable {ν κ β ε : Type}

def Rose.name : Rose ν κ β → ν
  | .node name _ _ => name

def Rose.props : Rose ν κ β → List (κ × β)
  | .node _ props _ => props

def Rose.children : Rose ν κ β → List (Rose ν κ β)
  | .node _ _ children => children

abbrev Toks (ν κ β : Type) := List (Token ν κ β)

def propToks (props : List (κ × β)) : Toks ν κ β := props.map fun p => .prop p.1 p.2

mutual
def Rose.flatten : Rose ν κ β → Toks ν κ β
  | .node name props children => .openNode name :: (propToks props ++ (flattenAll children ++ [.closeNode]))

def flattenAll : List (Rose ν κ β) → Toks ν κ β
  | [] => []
  | c :: cs => c.flatten ++ flattenAll cs
end

mutual
/-- Nodes of a tree -/
def Rose.count : Rose ν κ β → Nat
  | .node _ _ children => countAll children + 1

def countAll : List (Rose ν κ β) → Nat
  | [] => 0
  | c :: cs => c.count + countAll cs
end

/-! ## The next node -/

/-- The next node from position `k` on, and its depth; behind the end of the parent the depth is -1. -/
def scan : Toks ν κ β → Nat → Int → Option Nat × Int
  | [], _, d => (none, d)
  | .openNode _ :: _, k, d => (some k, d + 1)
  | .prop _ _ :: ts, k, d => scan ts (k + 1) d
  | .closeNode :: ts, k, d => if d - 1 < 0 then (some (k + 1), d - 1) else scan ts (k + 1) (d - 1)

def nextNode (ts : Toks ν κ β) (off : Nat) (d : Int) : Option Nat × Int :=
  match ts.drop off with
  | .openNode _ :: rest => scan rest (off + 1) d
  | _ => (none, d)

/-! ## Loops -/

/-- Where a loop comes to: the tokens, and the last position with its depth -/
abbrev Final (ν κ β : Type) := Toks ν κ β × Option Nat × Int

/-- One round: at a node of depth 1 the body may change the tokens, and the position and the depth to go on from. -/
def visit (cont : Int → Bool) (body : Toks ν κ β → Nat → Except ε (Toks ν κ β × Nat × Int))
    (again : Toks ν κ β → Nat → Int → Option (Except ε (Final ν κ β))) (ts : Toks ν κ β) :
    Option Nat × Int → Option (Except ε (Final ν κ β))
  | (none, d) => some (.ok (ts, none, d))
  | (some off, d) =>
    if cont d then
      if d = 1 then
        match body ts off with
        | .error e => some (.error e)
        | .ok (ts, off, d) => again ts off d
      else again ts off d
    else some (.ok (ts, some off, d))

/-- The loop from a node on, while `cont` holds of the depth; none when the rounds are used up -/
def walk (cont : Int → Bool) (body : Toks ν κ β → Nat → Except ε (Toks ν κ β × Nat × Int)) :
    Nat → Toks ν κ β → Nat → Int → Option (Except ε (Final ν κ β))
  | 0, _, _, _ => none
  | fuel + 1, ts, off, d => visit cont body (walk cont body fuel) ts (nextNode ts off d)

variable {cont : Int → Bool} {body : Toks ν κ β → Nat → Except ε (Toks ν κ β × Nat × Int)}
  {ts rest pre post : Toks ν κ β} {k off fuel : Nat} {d : Int} {name : ν} {props : List (κ × β)} {children : List (Rose ν κ β)}

/-! ## Tokens of a tree -/

@[simp] theorem propToks_length : (propToks props : Toks ν κ β).length = props.length := List.length_map _

theorem flattenAll_append (cs ds : List (Rose ν κ β)) : flattenAll (cs ++ ds) = flattenAll cs ++ flattenAll ds := by
  induction cs with
  | nil => rfl
  | cons c cs ih => rw [List.cons_append, flattenAll, flattenAll, ih, List.append_assoc]

theorem flatten_node : (Rose.node name props children).flatten =
    .openNode name :: (propToks props ++ (flattenAll children ++ [.closeNode])) := by
  rw [Rose.flatten]

mutual
theorem count_le : (t : Rose ν κ β) → t.count + 1 ≤ t.flatten.length
  | .node name props children => by
      have h := countAll_le children
      rw [Rose.count, flatten_node]
      simp only [List.length_cons, List.length_append, List.length_nil]
      omega

theorem countAll_le : (cs : List (Rose ν κ β)) → countAll cs ≤ (flattenAll cs).length
  | [] => Nat.le_refl 0
  | c :: cs => by
      have h := count_le c
      have hs := countAll_le cs
      rw [countAll, flattenAll, List.length_append]
      omega
end

theorem drop_next {x : Token ν κ β} (h : ts.drop k = x :: rest) : ts.drop (k + 1) = rest := by
  rw [← List.drop_drop, h]
  rfl

theorem drop_append {xs : Toks ν κ β} (h : ts.drop k = xs ++ rest) : ts.drop (k + xs.length) = rest := by
  rw [← List.drop_drop, h]
  exact List.drop_left

/-! ## Scanning -/

theorem scan_props : scan (propToks props ++ rest) k d = scan rest (k + props.length) d := by
  induction props generalizing k with
  | nil => rfl
  | cons p props ih =>
      show scan (propToks props ++ rest) (k + 1) d = _
      rw [ih, List.length_cons]
      congr 1
      omega

theorem scan_close (hd : 0 < d) : scan (.closeNode :: rest) k d = scan rest (k + 1) (d - 1) := by
  rw [scan, if_neg (by omega)]

theorem scan_last : scan (.closeNode :: rest) k 0 = (some (k + 1), -1) := by
  rw [scan, if_pos (by decide)]
  rfl

theorem nextNode_open (h : ts.drop off = .openNode name :: rest) : nextNode ts off d = scan rest (off + 1) d := by
  rw [nextNode, h]

/-- From a node on, the next one is its first child. -/
theorem nextNode_child {c : Rose ν κ β} : nextNode (pre ++ ((Rose.node name props (c :: children)).flatten ++ post)) pre.length d =
    (some (pre.length + 1 + props.length), d + 1) := by
  cases c
  rw [nextNode, List.drop_left, flatten_node, flattenAll, flatten_node]
  simp only [List.cons_append, List.append_assoc, scan_props, scan]

theorem nextNode_leaf : nextNode (pre ++ ((Rose.node name props []).flatten ++ post)) pre.length 0 =
    (some (pre.length + 1 + props.length + 1), -1) := by
  rw [nextNode, List.drop_left, flatten_node, flattenAll]
  simp only [List.cons_append, List.append_assoc, List.nil_append, scan_props, scan_last]

/-- A round from position `k` on -/
def goOn (cont : Int → Bool) (body : Toks ν κ β → Nat → Except ε (Toks ν κ β × Nat × Int)) (fuel : Nat) (ts : Toks ν κ β) (k : Nat)
    (d : Int) : Option (Except ε (Final ν κ β)) := visit cont body (walk cont body fuel) ts (scan (ts.drop k) k d)

/-- From a node on, the loop passes its properties. -/
theorem walk_open (h : ts.drop off = .openNode name :: (propToks props ++ rest)) :
    walk cont body (fuel + 1) ts off d = goOn cont body fuel ts (off + 1 + props.length) d := by
  have hrest := drop_append (drop_next h)
  rw [propToks_length] at hrest
  rw [walk, nextNode_open h, scan_props, goOn, hrest]

/-! ## Nested nodes -/

theorem goOn_open (hcont : ∀ d, 0 < d → cont d = true) (hd : 0 < d) (h : ts.drop k = .openNode name :: rest) :
    goOn cont body fuel ts k d = walk cont body fuel ts k (d + 1) := by
  have hopen : scan (ts.drop k) k d = (some k, d + 1) := by rw [h, scan]
  rw [goOn, hopen, visit, if_pos (hcont _ (by omega)), if_neg (by omega)]

mutual
/-- From a node on, a loop passes over the rest of its tree. -/
theorem leave_tree (hcont : ∀ d, 0 < d → cont d = true) : (t : Rose ν κ β) → ∀ {ts rest : Toks ν κ β} {k fuel : Nat} {d : Int}, 0 < d →
    ts.drop k = t.flatten ++ rest → walk cont body (fuel + t.count) ts k d = goOn cont body fuel ts (k + t.flatten.length) (d - 1)
  | .node name props children, ts, rest, k, fuel, d, hd, h => by
      rw [flatten_node, List.cons_append, List.append_assoc, List.append_assoc] at h
      have hchildren := drop_append (drop_next h)
      rw [propToks_length] at hchildren
      have hclose := drop_append hchildren
      have hlen : (Rose.node name props children).flatten.length = 1 + props.length + (flattenAll children).length + 1 := by
        rw [flatten_node]
        simp only [List.length_cons, List.length_append, propToks_length, List.length_nil]
        omega
      rw [Rose.count, ← Nat.add_assoc, walk_open h, skip_all hcont children hd hchildren, goOn, hclose,
        List.singleton_append, scan_close hd, goOn, hlen, ← Nat.add_assoc, ← Nat.add_assoc, ← Nat.add_assoc, drop_next hclose]
      rfl

/-- Below depth 1 a loop passes over trees. -/
theorem skip_all (hcont : ∀ d, 0 < d → cont d = true) : (cs : List (Rose ν κ β)) → ∀ {ts rest : Toks ν κ β} {k fuel : Nat} {d : Int}, 0 < d →
    ts.drop k = flattenAll cs ++ rest → goOn cont body (fuel + countAll cs) ts k d = goOn cont body fuel ts (k + (flattenAll cs).length) d
  | [], _, _, _, _, _, _, _ => rfl
  | .node name props children :: cs, ts, rest, k, fuel, d, hd, h => by
      rw [flattenAll, List.append_assoc] at h
      have hopen := h
      rw [flatten_node, List.cons_append] at hopen
      rw [countAll, Nat.add_comm (Rose.count _), ← Nat.add_assoc, goOn_open hcont hd hopen, leave_tree hcont _ (by omega) h,
        show d + 1 - 1 = d by omega, skip_all hcont cs hd (drop_append h), flattenAll, List.length_append, Nat.add_assoc]
end

/-! ## The children of a node -/

/-- What becomes of the children. A step sees the tokens before and behind its child too. -/
def steps (step : Toks ν κ β → Rose ν κ β → Toks ν κ β → Except ε (Rose ν κ β)) (pre post : Toks ν κ β) :
    List (Rose ν κ β) → Except ε (List (Rose ν κ β))
  | [] => .ok []
  | c :: cs =>
    match step pre c (flattenAll cs ++ post) with
    | .error e => .error e
    | .ok c' => (steps step (pre ++ c'.flatten) post cs).map (c' :: ·)

/-- A body that turns the child that it is at into another of as many nodes, under an invariant of what lies before it -/
structure Steps (body : Toks ν κ β → Nat → Except ε (Toks ν κ β × Nat × Int))
    (step : Toks ν κ β → Rose ν κ β → Toks ν κ β → Except ε (Rose ν κ β)) (P : Toks ν κ β → Prop) : Prop where
  body_eq : ∀ {pre rest c}, P pre → body (pre ++ (c.flatten ++ rest)) pre.length =
    (step pre c rest).map fun c' => (pre ++ (c'.flatten ++ rest), pre.length, 1)
  count_eq : ∀ {pre rest c c'}, step pre c rest = .ok c' → c'.count = c.count
  kept : ∀ {pre rest c c'}, P pre → step pre c rest = .ok c' → P (pre ++ c'.flatten)

variable {step : Toks ν κ β → Rose ν κ β → Toks ν κ β → Except ε (Rose ν κ β)} {P : Toks ν κ β → Prop}

/-- The loop makes a step of each child. -/
theorem goOn_children (hcont : ∀ d, 0 < d → cont d = true) (hstop : cont (-1) = false) (hsteps : Steps body step P) (hpre : P pre) :
    goOn cont body (fuel + countAll children) (pre ++ (flattenAll children ++ .closeNode :: post)) pre.length 0 =
      some ((steps step pre (.closeNode :: post) children).map fun children' =>
        (pre ++ (flattenAll children' ++ .closeNode :: post), some ((pre ++ flattenAll children').length + 1), -1)) := by
  induction children generalizing pre with
  | nil =>
      rw [goOn, List.drop_left, flattenAll, List.nil_append, scan_last, visit, hstop]
      simp [steps, flattenAll, Except.map]
  | cons c cs ih =>
      have hopen : scan ((pre ++ (flattenAll (c :: cs) ++ .closeNode :: post)).drop pre.length) pre.length 0 = (some pre.length, 1) := by
        rw [List.drop_left, flattenAll]
        cases c
        rw [flatten_node]
        rfl
      rw [goOn, hopen, visit, if_pos (hcont 1 (by decide)), if_pos rfl, flattenAll, List.append_assoc, hsteps.body_eq hpre]
      cases hstep : step pre c (flattenAll cs ++ .closeNode :: post) with
      | error e =>
          simp only [steps, hstep]
          rfl
      | ok c' =>
          have hleave := @leave_tree _ _ _ _ cont body hcont c' (pre ++ (c'.flatten ++ (flattenAll cs ++ .closeNode :: post)))
            (flattenAll cs ++ .closeNode :: post) pre.length (fuel + countAll cs) 1 (by decide) List.drop_left
          have hrest := ih (hsteps.kept hpre hstep)
          rw [List.length_append, List.append_assoc] at hrest
          simp only [steps, hstep, Except.map]
          rw [countAll, ← hsteps.count_eq hstep, Nat.add_comm (Rose.count _), ← Nat.add_assoc, hleave]
          refine hrest.trans ?_
          cases steps step (pre ++ c'.flatten) (.closeNode :: post) cs with
          | error e => rfl
          | ok cs' => simp [flattenAll, Except.map, List.append_assoc]

/-- The same for the loop that starts at their parent -/
theorem walk_children (hcont : ∀ d, 0 < d → cont d = true) (hstop : cont (-1) = false) (hsteps : Steps body step P)
    (hpre : P (pre ++ .openNode name :: propToks props)) (hfuel : countAll children < fuel) :
    walk cont body fuel (pre ++ ((Rose.node name props children).flatten ++ post)) pre.length 0 =
      some ((steps step (pre ++ .openNode name :: propToks props) (.closeNode :: post) children).map fun children' =>
        (pre ++ ((Rose.node name props children').flatten ++ post),
          some (pre ++ (Rose.node name props children').flatten).length, -1)) := by
  have hflat : ∀ cs : List (Rose ν κ β), pre ++ ((Rose.node name props cs).flatten ++ post) =
      (pre ++ .openNode name :: propToks props) ++ (flattenAll cs ++ .closeNode :: post) := fun cs => by
    simp [flatten_node, List.append_assoc]
  have hlen : ∀ cs : List (Rose ν κ β), (pre ++ (Rose.node name props cs).flatten).length =
      ((pre ++ .openNode name :: propToks props) ++ flattenAll cs).length + 1 := fun cs => by
    simp [flatten_node]
    omega
  obtain ⟨n, rfl⟩ : ∃ n, fuel = n + countAll children + 1 := ⟨fuel - countAll children - 1, by omega⟩
  have hopen : (pre ++ ((Rose.node name props children).flatten ++ post)).drop pre.length =
      .openNode name :: (propToks props ++ (flattenAll children ++ .closeNode :: post)) := by
    rw [List.drop_left, flatten_node]
    simp [List.append_assoc]
  have hstart : pre.length + 1 + props.length = (pre ++ .openNode name :: propToks props : Toks ν κ β).length := by
    simp [propToks_length]
    omega
  rw [walk_open hopen, hstart, hflat, goOn_children hcont hstop hsteps hpre]
  simp only [hflat, hlen]

/-- What is known of a step is known of each child. -/
theorem steps_forall₂ (hsteps : Steps body step P) {children' : List (Rose ν κ β)} (hpre : P pre)
    (h : steps step pre post children = .ok children') :
    List.Forall₂ (fun c c' => ∃ pre rest, P pre ∧ step pre c rest = .ok c') children children' := by
  induction children generalizing pre children' with
  | nil =>
      obtain rfl := Except.ok.inj h
      exact .nil
  | cons c cs ih =>
      rw [steps] at h
      cases hstep : step pre c (flattenAll cs ++ post) with
      | error e =>
          rw [hstep] at h
          cases h
      | ok c' =>
          rw [hstep] at h
          dsimp only at h
          cases hrest : steps step (pre ++ c'.flatten) post cs with
          | error e =>
              rw [hrest] at h
              cases h
          | ok cs' =>
              rw [hrest] at h
              obtain rfl := Except.ok.inj h
              exact .cons ⟨pre, _, hpre, hstep⟩ (ih (hsteps.kept hpre hstep) hrest)

theorem countAll_congr {cs ds : List (Rose ν κ β)} (h : List.Forall₂ (fun c d => d.count = c.count) cs ds) : countAll ds = countAll cs := by
  induction h with
  | nil => rfl
  | cons hcd _ ih => rw [countAll, countAll, hcd, ih]

theorem steps_count (hsteps : Steps body step P) {children' : List (Rose ν κ β)} (hpre : P pre)
    (h : steps step pre post children = .ok children') : countAll children' = countAll children :=
  countAll_congr ((steps_forall₂ hsteps hpre h).imp fun _ _ ⟨_, _, _, hstep⟩ => hsteps.count_eq hstep)

/-- A loop that only tests the children -/
theorem steps_test {test : Rose ν κ β → Bool} {e : ε} (hstep : ∀ pre c rest, step pre c rest = if test c then .ok c else .error e) :
    steps step pre post children = if children.all test then .ok children else .error e := by
  induction children generalizing pre with
  | nil => rfl
  | cons c cs ih =>
      rw [steps, hstep, List.all_cons]
      cases test c with
      | false => rfl
      | true =>
          simp only [if_true, ih, Bool.true_and]
          split <;> rfl

end

end Uboot.Lib.FlatTree
