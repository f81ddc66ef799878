import Mathlib.Data.UInt
import Uboot.Fdt.Basic
import Uboot.Lib.Strings

/-!
# Hashes of FIT images

`fit_set_hashes`, which `mkimage` runs, and `fit_all_image_check_hashes`, which `bootm` runs (`common/image.c`). The hash functions
are parameters. An error none is that of a loop without an end.
-/

namespace Uboot.Fit

open Lib Lib.FlatTree Fdt

/-- What `calculate_hash` stores for data, in the order of the bytes -/
structure Hashes where
  crc32 : Bytes → Bytes
  sha1 : Bytes → Bytes
  md5 : Bytes → Bytes

/-- `calculate_hash`: the value of `value_len` bytes, or none for -1. The algorithm is a C string. -/
def calculateHash (h : Hashes) (data algo : Bytes) : Option Bytes :=
  let algo := cstr algo
  if algo = ascii "crc32" then some (h.crc32 data)
  else if algo = ascii "sha1" then some (h.sha1 data)
  else if algo = ascii "md5" then some (h.md5 data)
  else none

def dataProp : Bytes := ascii "data"
def algoProp : Bytes := ascii "algo"
def valueProp : Bytes := ascii "value"

/-- `fit_image_get_data`: pointer and size -/
def fitImageGetData (blob : Blob) (image : Nat) : Option (Nat × Nat) := fdtGetprop blob image dataProp

/-- The data that a pointer and a size give now -/
def dataAt (blob : Blob) (data : Nat × Nat) : Bytes := (bytesAt blob data.1).take data.2

/-- `strncmp(…, FIT_HASH_NODENAME, …) == 0` -/
def isHashName (name : Bytes) : Bool := (ascii "hash").isPrefixOf name

/-- `for (ndepth = 0, noffset = fdt_next_node(…); (noffset >= 0) && (ndepth > 0); …)` with a body for `ndepth == 1` -/
def childLoop (body : Blob → Nat → Except (Option Int) (Blob × Nat × Int)) (blob : Blob) (parent : Nat) : Except (Option Int) Blob :=
  match walk (fun ndepth => 0 < ndepth) body blob.length blob parent 0 with
  | none => .error none
  | some (.error ret) => .error ret
  | some (.ok (blob, _)) => .ok blob

/-- `fdt_path_offset(fit, FIT_IMAGES_PATH)` -/
def imagesOffset (blob : Blob) : Except Int Nat := fdtSubnodeOffset blob 0 (ascii "images")

/-! ## Setting -/

def setHashBody (h : Hashes) (fits : Blob → Bool) (data : Nat × Nat) (blob : Blob) (off : Nat) :
    Except (Option Int) (Blob × Nat × Int) :=
  if !isHashName (fdtGetName blob off) then .ok (blob, off, 1)
  else
    match fdtGetprop blob off algoProp with
    | none => .error (some (-1))
    | some (algo, _) =>
      match calculateHash h (dataAt blob data) (bytesAt blob algo) with
      | none => .error (some (-1))
      | some value =>
        -- `fit_image_hash_set_value`
        match fdtSetprop fits blob off valueProp value with
        | .error _ => .error (some (-1))
        | .ok blob => .ok (blob, off, 1)

def fitImageSetHashes (h : Hashes) (fits : Blob → Bool) (blob : Blob) (image : Nat) : Except (Option Int) Blob :=
  match fitImageGetData blob image with
  | none => .error (some (-1))
  | some data => childLoop (setHashBody h fits data) blob image

/-- The body of `fit_set_hashes` -/
def setImageBody (h : Hashes) (fits : Blob → Bool) (blob : Blob) (off : Nat) : Except (Option Int) (Blob × Nat × Int) :=
  (fitImageSetHashes h fits blob off).map fun blob => (blob, off, 1)

/-- The blob where it returns 0, else what it returns -/
def fitSetHashes (h : Hashes) (fits : Blob → Bool) (blob : Blob) : Except (Option Int) Blob :=
  match imagesOffset blob with
  | .error ret => .error (some ret)
  | .ok images => childLoop (setImageBody h fits) blob images

/-! ## Checking -/

def checkHashBody (h : Hashes) (data : Nat × Nat) (blob : Blob) (off : Nat) : Except (Option Int) (Blob × Nat × Int) :=
  if !isHashName (fdtGetName blob off) then .ok (blob, off, 1)
  else
    match fdtGetprop blob off algoProp with
    | none => .error (some 0)
    | some (algo, _) =>
      match fdtGetprop blob off valueProp with
      | none => .error (some 0)
      | some (fitValue, fitValueLen) =>
        match calculateHash h (dataAt blob data) (bytesAt blob algo) with
        | none => .error (some 0)
        | some value =>
          if value.length ≠ fitValueLen then .error (some 0)
          else if value ≠ (bytesAt blob fitValue).take value.length then .error (some 0)
          else .ok (blob, off, 1)

/-- `fit_image_check_hashes`; none if its loop does not end -/
def fitImageCheckHashes (h : Hashes) (blob : Blob) (image : Nat) : Option Int :=
  match fitImageGetData blob image with
  | none => some 0
  | some data =>
    match childLoop (checkHashBody h data) blob image with
    | .error ret => ret
    | .ok _ => some 1

/-- The body of `fit_all_image_check_hashes` -/
def checkImageBody (h : Hashes) (blob : Blob) (off : Nat) : Except (Option Int) (Blob × Nat × Int) :=
  match fitImageCheckHashes h blob off with
  | none => .error none
  | some ret => if ret = 0 then .error (some 0) else .ok (blob, off, 1)

def fitAllImageCheckHashes (h : Hashes) (blob : Blob) : Option Int :=
  match imagesOffset blob with
  | .error _ => some 0
  | .ok images =>
    match childLoop (checkImageBody h) blob images with
    | .error ret => ret
    | .ok _ => some 1

/-! ## What they mean on the tree -/

/-- A child whose name starts with "hash" has an algorithm and the value that it gives for the data. -/
def HashOk (h : Hashes) (data : Bytes) (c : Node) : Prop :=
  isHashName c.name = true → ∃ algo value, lookup algoProp c.props = some algo ∧ calculateHash h data algo = some value ∧
    lookup valueProp c.props = some value

/-- The same as the code tests it -/
def hashOk (h : Hashes) (data : Bytes) (c : Node) : Bool :=
  if isHashName c.name then
    match lookup algoProp c.props, lookup valueProp c.props with
    | some algo, some value => calculateHash h data algo = some value
    | _, _ => false
  else true

/-- An image with data, all of whose hashes are right -/
def imageOk (h : Hashes) (image : Node) : Bool :=
  match lookup dataProp image.props with
  | none => false
  | some data => image.children.all (hashOk h data)

def setStep (h : Hashes) (fits : Blob → Bool) (data : Bytes) (pre : Blob) (c : Node) (rest : Blob) : Except (Option Int) Node :=
  if isHashName c.name then
    match lookup algoProp c.props with
    | none => .error (some (-1))
    | some algo =>
      match calculateHash h data algo with
      | none => .error (some (-1))
      | some value =>
        let c' : Node := .node c.name (setKey valueProp value c.props) c.children
        if fits (pre ++ (c'.flatten ++ rest)) then .ok c' else .error (some (-1))
  else .ok c

def imageStep (h : Hashes) (fits : Blob → Bool) (pre : Blob) (image : Node) (rest : Blob) : Except (Option Int) Node :=
  match lookup dataProp image.props with
  | none => .error (some (-1))
  | some data => (steps (setStep h fits data) (pre ++ .openNode image.name :: propToks image.props) (.closeNode :: rest) image.children).map
      (.node image.name image.props)

def testStep (ok : Node → Bool) (_ : Blob) (c : Node) (_ : Blob) : Except (Option Int) Node := if ok c then .ok c else .error (some 0)

section
variable {h : Hashes} {fits : Blob → Bool} {data algo value key name : Bytes} {props : Props} {children : List Node} {pre post rest : Blob}
  {p : Nat} {c image : Node}

theorem hashOk_iff : hashOk h data c = true ↔ HashOk h data c := by
  rw [hashOk, HashOk]
  cases isHashName c.name with
  | false => simp
  | true =>
      cases halgo : lookup algoProp c.props with
      | none => simp
      | some algo =>
          cases hvalue : lookup valueProp c.props with
          | none => simp
          | some value => simp

/-- A property that is there, with its value in the blob -/
theorem getprop_value (hl : lookup key props = some value) :
    ∃ p, fdtGetprop (pre ++ ((Rose.node name props children).flatten ++ post)) pre.length key = some (p, value.length) ∧
      bytesAt (pre ++ ((Rose.node name props children).flatten ++ post)) p = value := by
  obtain ⟨p, hp, hvalue⟩ := @getprop_some _ _ _ children name pre post hl
  exact ⟨p, hp, by rw [flatten_split]; exact hvalue _⟩

/-- The data that a pointer of before gives, as long as nothing before the children changes -/
def Keeps (data : Bytes) (p : Nat) (pre : Blob) : Prop := ∀ rest, bytesAt (pre ++ rest) p = data

theorem Keeps.append {xs : Blob} (hk : Keeps data p pre) : Keeps data p (pre ++ xs) := fun rest => by
  rw [List.append_assoc]
  exact hk _

theorem Keeps.dataAt (hk : Keeps data p pre) : dataAt (pre ++ rest) (p, data.length) = data := by
  rw [Fit.dataAt, hk, List.take_length]

theorem getData_node (hl : lookup dataProp props = some data) :
    ∃ p, fitImageGetData (pre ++ ((Rose.node name props children).flatten ++ post)) pre.length = some (p, data.length) ∧
      Keeps data p (pre ++ .openNode name :: propToks props) := by
  obtain ⟨p, hp, hvalue⟩ := @getprop_some _ _ _ children name pre post hl
  exact ⟨p, hp, fun rest => by rw [List.append_assoc]; exact hvalue rest⟩

/-! ## The bodies -/

theorem setHashBody_steps : Steps (setHashBody h fits (p, data.length)) (setStep h fits data) (Keeps data p) where
  body_eq := by
    intro pre rest c hk
    obtain ⟨name, props, children⟩ := c
    rw [setHashBody, getName_node, setStep]
    cases hname : isHashName (Rose.node name props children).name with
    | false => rfl
    | true =>
        cases halgo : lookup algoProp props with
        | none => simp [getprop_none halgo, Rose.props, halgo, Except.map]
        | some algo =>
            obtain ⟨q, hq, hbytes⟩ := @getprop_value _ _ name _ children pre rest halgo
            simp only [hq, hbytes, hk.dataAt, Rose.props, halgo, Rose.name, Rose.children]
            cases calculateHash h data algo with
            | none => rfl
            | some value =>
                simp only [setprop_node, splice]
                by_cases hfits : fits (pre ++ ((Rose.node name (setKey valueProp value props) children).flatten ++ rest)) = true
                · simp [hfits, Except.map]
                · simp [hfits, Except.map]
  count_eq := by
    intro pre rest c c' hstep
    rw [setStep] at hstep
    split at hstep
    · split at hstep
      · cases hstep
      split at hstep
      · cases hstep
      dsimp only at hstep
      split at hstep
      · obtain ⟨name, props, children⟩ := c
        rw [← Except.ok.inj hstep]
        rfl
      · cases hstep
    · rw [Except.ok.inj hstep]
  kept := fun hk _ => hk.append

theorem checkHashBody_steps : Steps (checkHashBody h (p, data.length)) (testStep (hashOk h data)) (Keeps data p) where
  body_eq := by
    intro pre rest c hk
    obtain ⟨name, props, children⟩ := c
    rw [checkHashBody, getName_node, testStep, hashOk]
    cases hname : isHashName (Rose.node name props children).name with
    | false => rfl
    | true =>
        cases halgo : lookup algoProp props with
        | none => simp [getprop_none halgo, Rose.props, halgo, Except.map]
        | some algo =>
            obtain ⟨q, hq, hbytes⟩ := @getprop_value _ _ name _ children pre rest halgo
            cases hvalue : lookup valueProp props with
            | none => simp [hq, getprop_none hvalue, Rose.props, halgo, hvalue, Except.map]
            | some fitValue =>
                obtain ⟨r, hr, hrbytes⟩ := @getprop_value _ _ name _ children pre rest hvalue
                simp only [hq, hbytes, hr, hrbytes, hk.dataAt, Rose.props, halgo, hvalue]
                cases calculateHash h data algo with
                | none => rfl
                | some value =>
                    by_cases heq : value = fitValue
                    · simp [heq, Except.map]
                    · by_cases hlen : value.length = fitValue.length
                      · simp [hlen, heq, Except.map]
                      · simp [hlen, heq, Except.map]
  count_eq := by
    intro pre rest c c' hstep
    rw [testStep] at hstep
    split at hstep
    · rw [Except.ok.inj hstep]
    · cases hstep
  kept := fun hk _ => hk.append

/-! ## The loops -/

theorem childLoop_node {body : Blob → Nat → Except (Option Int) (Blob × Nat × Int)} {step : Blob → Node → Blob → Except (Option Int) Node}
    {P : Blob → Prop} (hsteps : Steps body step P) (hpre : P (pre ++ .openNode name :: propToks props)) :
    childLoop body (pre ++ ((Rose.node name props children).flatten ++ post)) pre.length =
      (steps step (pre ++ .openNode name :: propToks props) (.closeNode :: post) children).map fun children' =>
        pre ++ ((Rose.node name props children').flatten ++ post) := by
  rw [childLoop, walk_children (by simp) (by decide) hsteps hpre subnode_fuel]
  cases steps step (pre ++ .openNode name :: propToks props) (.closeNode :: post) children <;> rfl

theorem setHashes_node : fitImageSetHashes h fits (pre ++ (image.flatten ++ post)) pre.length =
    (imageStep h fits pre image post).map fun image' => pre ++ (image'.flatten ++ post) := by
  obtain ⟨name, props, children⟩ := image
  rw [fitImageSetHashes, imageStep]
  cases hdata : lookup dataProp props with
  | none =>
      rw [fitImageGetData, getprop_none hdata]
      simp only [Rose.props, hdata]
      rfl
  | some data =>
      obtain ⟨p, hp, hkeeps⟩ := @getData_node _ name _ children pre post hdata
      simp only [hp, childLoop_node setHashBody_steps hkeeps, Rose.props, Rose.name, Rose.children, hdata]
      cases steps (setStep h fits data) (pre ++ .openNode name :: propToks props) (.closeNode :: post) children <;> rfl

theorem testStep_steps {ok : Node → Bool} : steps (testStep ok) pre post children = if children.all ok then .ok children else .error (some 0) :=
  steps_test fun _ _ _ => rfl

theorem checkHashes_node : fitImageCheckHashes h (pre ++ (image.flatten ++ post)) pre.length = some (if imageOk h image then 1 else 0) := by
  obtain ⟨name, props, children⟩ := image
  rw [fitImageCheckHashes, imageOk]
  cases hdata : lookup dataProp props with
  | none =>
      rw [fitImageGetData, getprop_none hdata]
      simp only [Rose.props, hdata]
      rfl
  | some data =>
      obtain ⟨p, hp, hkeeps⟩ := @getData_node _ name _ children pre post hdata
      simp only [hp, childLoop_node checkHashBody_steps hkeeps, testStep_steps, Rose.props, Rose.children, hdata]
      cases children.all (hashOk h data) <;> rfl

/-! ## All images -/

theorem setImageBody_steps : Steps (setImageBody h fits) (imageStep h fits) fun _ => True where
  body_eq := by
    intro pre rest image _
    rw [setImageBody, setHashes_node]
    cases imageStep h fits pre image rest <;> rfl
  count_eq := by
    intro pre rest image image' hstep
    obtain ⟨name, props, children⟩ := image
    rw [imageStep] at hstep
    cases hdata : lookup dataProp props with
    | none =>
        simp only [Rose.props, hdata] at hstep
        cases hstep
    | some data =>
        simp only [Rose.props, Rose.name, Rose.children, hdata] at hstep
        obtain ⟨p, -, hkeeps⟩ := @getData_node _ name _ children pre rest hdata
        cases hset : steps (setStep h fits data) (pre ++ .openNode name :: propToks props) (.closeNode :: rest) children with
        | error e =>
            rw [hset] at hstep
            cases hstep
        | ok children' =>
            rw [hset] at hstep
            rw [← Except.ok.inj hstep, Rose.count, Rose.count, steps_count (setHashBody_steps (h := h)) hkeeps hset]
  kept := fun _ _ => trivial

theorem checkImageBody_steps : Steps (checkImageBody h) (testStep (imageOk h)) fun _ => True where
  body_eq := by
    intro pre rest image _
    rw [checkImageBody, checkHashes_node, testStep]
    cases imageOk h image <;> rfl
  count_eq := by
    intro pre rest c c' hstep
    rw [testStep] at hstep
    split at hstep
    · rw [Except.ok.inj hstep]
    · cases hstep
  kept := fun _ _ => trivial

/-- What a hash node becomes is right. -/
theorem setStep_ok {c' : Node} (hstep : setStep h fits data pre c rest = .ok c') : hashOk h data c' = true := by
  rw [hashOk_iff]
  intro hname
  rw [setStep] at hstep
  split at hstep
  · cases halgo : lookup algoProp c.props with
    | none =>
        rw [halgo] at hstep
        cases hstep
    | some algo =>
        rw [halgo] at hstep
        cases hcalc : calculateHash h data algo with
        | none =>
            simp only [hcalc] at hstep
            cases hstep
        | some value =>
            simp only [hcalc] at hstep
            split at hstep
            · obtain rfl := Except.ok.inj hstep
              refine ⟨algo, value, ?_, hcalc, lookup_setKey_self⟩
              rw [Rose.props, lookup_setKey_other (by decide), halgo]
            · cases hstep
  · rename_i hnot
    rw [Except.ok.inj hstep] at hnot
    exact absurd hname hnot

theorem all_of_forall₂ {test : Node → Bool} {cs ds : List Node} {R : Node → Node → Prop} (hR : ∀ c d, R c d → test d = true)
    (hall : List.Forall₂ R cs ds) : ds.all test = true := by
  induction hall with
  | nil => rfl
  | cons hcd _ ih => rw [List.all_cons, hR _ _ hcd, ih, Bool.true_and]

theorem imageStep_ok {image' : Node} (hstep : imageStep h fits pre image rest = .ok image') : imageOk h image' = true := by
  obtain ⟨name, props, children⟩ := image
  rw [imageStep] at hstep
  cases hdata : lookup dataProp props with
  | none =>
      simp only [Rose.props, hdata] at hstep
      cases hstep
  | some data =>
      simp only [Rose.props, Rose.name, Rose.children, hdata] at hstep
      obtain ⟨p, -, hkeeps⟩ := @getData_node _ name _ children pre rest hdata
      cases hset : steps (setStep h fits data) (pre ++ .openNode name :: propToks props) (.closeNode :: rest) children with
      | error e =>
          rw [hset] at hstep
          cases hstep
      | ok children' =>
          rw [hset] at hstep
          obtain rfl := Except.ok.inj hstep
          simp only [imageOk, Rose.props, Rose.children, hdata]
          refine all_of_forall₂ (fun _ _ hex => ?_) (steps_forall₂ setHashBody_steps hkeeps hset)
          obtain ⟨_, _, _, hone⟩ := hex
          exact setStep_ok hone

end

/-! ## The node of the images -/

section
variable {h : Hashes} {fits : Blob → Bool} {rootName : Bytes} {rootProps : Props} {before after : List Node} {images : Node}

/-- The name of the images node -/
def isImages (c : Node) : Bool := nodenameEq c.name (ascii "images")

theorem imagesOffset_none {children : List Node} (hnone : ∀ c ∈ children, isImages c = false) :
    imagesOffset (Rose.node rootName rootProps children).flatten = .error errNotFound := by
  have hroot := @subnodeOffset_none rootProps children rootName [] [] (ascii "images") hnone
  rwa [List.append_nil] at hroot

theorem imagesOffset_first (hfirst : ∀ c ∈ before, isImages c = false) (himages : isImages images = true) :
    imagesOffset (Rose.node rootName rootProps (before ++ images :: after)).flatten =
      .ok (.openNode rootName :: (propToks rootProps ++ flattenAll before) : Blob).length := by
  have hroot := @subnodeOffset_first rootProps rootName [] [] (ascii "images") before after images hfirst himages
  rwa [List.append_nil] at hroot

theorem setHashes_root (hfirst : ∀ c ∈ before, isImages c = false) (himages : isImages images = true) :
    ∃ pre post, fitSetHashes h fits (Rose.node rootName rootProps (before ++ images :: after)).flatten =
      (steps (imageStep h fits) pre post images.children).map fun children' =>
        (Rose.node rootName rootProps (before ++ .node images.name images.props children' :: after)).flatten := by
  obtain ⟨name, props, children⟩ := images
  refine ⟨(.openNode rootName :: (propToks rootProps ++ flattenAll before)) ++ .openNode name :: propToks props,
    .closeNode :: (flattenAll after ++ [.closeNode]), ?_⟩
  rw [fitSetHashes, imagesOffset_first hfirst himages]
  dsimp only
  rw [root_flatten, childLoop_node setImageBody_steps trivial]
  simp only [root_flatten, Rose.name, Rose.props, Rose.children]

theorem checkAll_root (hfirst : ∀ c ∈ before, isImages c = false) (himages : isImages images = true) :
    fitAllImageCheckHashes h (Rose.node rootName rootProps (before ++ images :: after)).flatten =
      some (if images.children.all (imageOk h) then 1 else 0) := by
  obtain ⟨name, props, children⟩ := images
  rw [fitAllImageCheckHashes, imagesOffset_first hfirst himages]
  dsimp only
  rw [root_flatten, childLoop_node checkImageBody_steps trivial, testStep_steps, Rose.children]
  cases children.all (imageOk h) <;> rfl

/-- With or without a node of the images -/
theorem images_split (children : List Node) : (∀ c ∈ children, isImages c = false) ∨
    ∃ before images after, children = before ++ images :: after ∧ (∀ c ∈ before, isImages c = false) ∧ isImages images = true := by
  cases hfind : children.find? isImages with
  | none => exact Or.inl fun c hc => Bool.eq_false_of_not_eq_true (List.find?_eq_none.mp hfind c hc)
  | some images =>
      obtain ⟨himages, before, after, rfl, hbefore⟩ := List.find?_eq_some_iff_append.mp hfind
      exact Or.inr ⟨before, images, after, rfl, fun c hc => by simpa using hbefore c hc, himages⟩

/-- What `fit_set_hashes` has written is accepted. -/
theorem set_then_check {root : Node} {blob : Blob} (hset : fitSetHashes h fits root.flatten = .ok blob) : fitAllImageCheckHashes h blob = some 1 := by
  obtain ⟨rootName, rootProps, children⟩ := root
  rcases images_split children with hnone | ⟨before, images, after, rfl, hfirst, himages⟩
  · rw [fitSetHashes, imagesOffset_none hnone] at hset
    cases hset
  · obtain ⟨pre, post, hrun⟩ := @setHashes_root h fits rootName rootProps before after images hfirst himages
    rw [hrun] at hset
    cases hsteps : steps (imageStep h fits) pre post images.children with
    | error e =>
        rw [hsteps] at hset
        cases hset
    | ok children' =>
        rw [hsteps] at hset
        have hall : children'.all (imageOk h) = true := by
          refine all_of_forall₂ (fun _ _ hex => ?_) (steps_forall₂ setImageBody_steps trivial hsteps)
          obtain ⟨_, _, _, hone⟩ := hex
          exact imageStep_ok hone
        rw [← Except.ok.inj hset, checkAll_root hfirst (show isImages (.node images.name _ _) = true from himages), Rose.children,
          hall]
        rfl

/-- The error of a loop without an end does not come up. -/
theorem steps_returns {step : Blob → Node → Blob → Except (Option Int) Node} (hstep : ∀ pre c rest, step pre c rest ≠ .error none)
    {children : List Node} {pre post : Blob} : steps step pre post children ≠ .error none := by
  induction children generalizing pre with
  | nil => exact fun h => by cases h
  | cons c cs ih =>
      rw [steps]
      cases hone : step pre c (flattenAll cs ++ post) with
      | error e =>
          rintro ⟨⟩
          exact hstep _ _ _ hone
      | ok c' =>
          dsimp only
          cases hrest : steps step (pre ++ c'.flatten) post cs with
          | error e =>
              rintro ⟨⟩
              exact ih hrest
          | ok cs' => exact fun h => by cases h

theorem setStep_returns {data : Bytes} (pre : Blob) (c : Node) (rest : Blob) : setStep h fits data pre c rest ≠ .error none := by
  rw [setStep]
  split
  · split
    · exact fun hstep => nomatch hstep
    split
    · exact fun hstep => nomatch hstep
    dsimp only
    split
    · exact fun hstep => nomatch hstep
    · exact fun hstep => nomatch hstep
  · exact fun hstep => nomatch hstep

theorem imageStep_returns (pre : Blob) (image : Node) (rest : Blob) : imageStep h fits pre image rest ≠ .error none := by
  rw [imageStep]
  split
  · exact fun hstep => nomatch hstep
  · rename_i data _
    cases hset : steps (setStep h fits data) (pre ++ .openNode image.name :: propToks image.props) (.closeNode :: rest) image.children with
    | error e =>
        rintro ⟨⟩
        exact steps_returns setStep_returns hset
    | ok children' => exact fun hstep => nomatch hstep

theorem set_returns (root : Node) : fitSetHashes h fits root.flatten ≠ .error none := by
  obtain ⟨rootName, rootProps, children⟩ := root
  rcases images_split children with hnone | ⟨before, images, after, rfl, hfirst, himages⟩
  · rw [fitSetHashes, imagesOffset_none hnone]
    exact fun hset => nomatch hset
  · obtain ⟨pre, post, hrun⟩ := @setHashes_root h fits rootName rootProps before after images hfirst himages
    rw [hrun]
    cases hsteps : steps (imageStep h fits) pre post images.children with
    | error e =>
        rintro ⟨⟩
        exact steps_returns imageStep_returns hsteps
    | ok children' => exact fun hset => nomatch hset

theorem imageOk_iff {image : Node} : imageOk h image = true ↔
    ∃ data, lookup dataProp image.props = some data ∧ ∀ c ∈ image.children, HashOk h data c := by
  rw [imageOk]
  cases lookup dataProp image.props with
  | none => simp
  | some data => simp [hashOk_iff]

/-- Setting comes back, and what it leaves is accepted; and an image anywhere in a blob is accepted just when it has data and every
child whose name starts with "hash" has an algorithm and the value that goes with it. -/
theorem fit_hashes (h : Hashes) (fits : Blob → Bool) :
    (∀ root : Node, fitSetHashes h fits root.flatten ≠ .error none ∧
      ∀ blob, fitSetHashes h fits root.flatten = .ok blob → fitAllImageCheckHashes h blob = some 1) ∧
    ∀ (pre : Blob) (image : Node) (post : Blob),
      (fitImageCheckHashes h (pre ++ (image.flatten ++ post)) pre.length = some 1 ↔
        ∃ data, lookup dataProp image.props = some data ∧ ∀ c ∈ image.children, HashOk h data c) ∧
      (fitImageCheckHashes h (pre ++ (image.flatten ++ post)) pre.length = some 1 ∨
        fitImageCheckHashes h (pre ++ (image.flatten ++ post)) pre.length = some 0) := by
  refine ⟨fun root => ⟨set_returns root, fun _ => set_then_check⟩, fun pre image post => ?_⟩
  rw [checkHashes_node, ← imageOk_iff]
  cases imageOk h image with
  | false => exact ⟨iff_of_false (by decide) Bool.false_ne_true, Or.inr rfl⟩
  | true => exact ⟨iff_of_true rfl rfl, Or.inl rfl⟩

end

/-! ## Trees -/

/-- Sums of bytes for the hash functions -/
def sums : Hashes := ⟨fun d => [0, 0, 0, d.sum], fun d => List.replicate 20 d.sum, fun d => List.replicate 16 d.sum⟩

/-- A kernel with two hashes, and a node in the second that looks like one -/
def sampleFit : Node :=
  .node [] [] [.node (ascii "images") [] [.node (ascii "kernel@1") [(dataProp, [1, 2, 3])]
    [.node (ascii "hash@1") [(algoProp, ascii "crc32" ++ [0])] [],
      .node (ascii "hash@2") [(valueProp, [9]), (algoProp, ascii "sha1" ++ [0])] [.node (ascii "hash@3") [] []]]]]

/-- Its blob with the hashes set -/
def sampleSet : Blob :=
  (.node [] [] [.node (ascii "images") [] [.node (ascii "kernel@1") [(dataProp, [1, 2, 3])]
    [.node (ascii "hash@1") [(valueProp, [0, 0, 0, 6]), (algoProp, ascii "crc32" ++ [0])] [],
      .node (ascii "hash@2") [(valueProp, List.replicate 20 6), (algoProp, ascii "sha1" ++ [0])] [.node (ascii "hash@3") [] []]]]] : Node).flatten

theorem fit_hashes_sample : fitSetHashes sums (fun _ => true) sampleFit.flatten = .ok sampleSet ∧ fitAllImageCheckHashes sums sampleSet = some 1 :=
  have hset : fitSetHashes sums (fun _ => true) sampleFit.flatten = .ok sampleSet := by decide
  ⟨hset, ((fit_hashes sums fun _ => true).1 sampleFit).2 _ hset⟩

/-- An image without data and without hashes is refused, though no hash of it is wrong. -/
theorem no_data_refused : fitImageCheckHashes sums (.node (ascii "kernel@1") [] [] : Node).flatten 0 = some 0 ∧
    ∀ c ∈ (.node (ascii "kernel@1") [] [] : Node).children, ∀ data, HashOk sums data c :=
  ⟨by decide, fun _ hc => absurd hc List.not_mem_nil⟩

end Uboot.Fit
