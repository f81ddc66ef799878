import Mathlib.Data.List.TakeWhile
import Uboot.Mtdparts.Basic

/-!
# What the parsers return

The text that is left is a suffix of the text that was given. The partitions of a parsed device are sorted by their
offsets and each of them passed the checks.
-/

namespace Uboot.Mtdparts

open Lib Vsprintf

section
variable {board : Board} {id : MtdIds} {p rest : List UInt8} {part pi : PartInfo} {parts parts' tmp : List PartInfo}
  {devices devices' : List MtdDevice} {dev dev' : MtdDevice} {key : DevType × Nat} {fuel offset size n : Nat}

/-! ## The text that is left -/

theorem strtoulLoop_suffix (base : Nat) (p : List UInt8) (r : Nat) : (strtoulLoop base p r).2 <:+ p := by
  induction p generalizing r with
  | nil => exact List.suffix_rfl
  | cons c p ih =>
      rw [strtoulLoop]
      split
      next => exact (ih _).trans (List.suffix_cons c p)
      next => exact List.suffix_rfl

theorem simpleStrtoul_suffix (p : List UInt8) (base : Nat) : (simpleStrtoul p base).2 <:+ p := by
  unfold simpleStrtoul
  split
  next p =>
    split
    next => exact (strtoulLoop_suffix _ _ _).trans ((List.drop_suffix _ _).trans (List.suffix_cons _ _))
    next => exact (strtoulLoop_suffix _ _ _).trans (List.suffix_cons _ _)
  next => exact strtoulLoop_suffix _ _ _

theorem memsizeParse_suffix (p : List UInt8) : (memsizeParse p).2 <:+ p := by
  have hnum := simpleStrtoul_suffix p 0
  unfold memsizeParse
  split <;> simp_all only <;> exact (List.suffix_cons _ _).trans hnum

theorem parseSize_suffix (h : parseSize p = some (size, rest)) : rest <:+ p := by
  unfold parseSize at h
  split at h
  next => cases h; exact List.suffix_cons _ _
  next =>
    split at h
    next => cases h
    next =>
      have hrest : (memsizeParse _).2 = rest := congrArg Prod.snd (Option.some.inj h)
      rw [← hrest]
      exact memsizeParse_suffix _

theorem parseOffset_suffix (p : List UInt8) : (parseOffset p).2 <:+ p := by
  unfold parseOffset
  split
  next => exact (memsizeParse_suffix _).trans (List.suffix_cons _ _)
  next => exact List.suffix_rfl

theorem parseName_suffix {name : Option (List UInt8)} (h : parseName p = some (name, rest)) : rest <:+ p := by
  unfold parseName at h
  split at h
  next p =>
    split at h
    next => cases h
    next c q hq =>
      have hdrop : c :: q <:+ p := by rw [← hq]; exact List.dropWhile_suffix _
      obtain ⟨-, h⟩ := Option.ite_none_left_eq_some.mp h
      cases h
      exact (List.suffix_cons _ _).trans (hdrop.trans (List.suffix_cons _ _))
  next => cases h; exact List.suffix_rfl

theorem parseRo_suffix (p : List UInt8) : (parseRo p).2 <:+ p := by
  unfold parseRo
  split
  next => exact (List.suffix_cons _ _).trans (List.suffix_cons _ _)
  next => exact List.suffix_rfl

theorem parseEnd_suffix (h : parseEnd size p = some rest) : rest <:+ p := by
  unfold parseEnd at h
  split at h
  next => cases h; exact List.suffix_rfl
  next => cases h; exact List.suffix_rfl
  next =>
    split at h
    next => cases h
    next => cases h; exact List.suffix_cons _ _
  next => cases h

theorem partParse_suffix (h : partParse p = some (part, rest)) : rest <:+ p := by
  obtain ⟨⟨size, p₁⟩, hsize, h⟩ := Option.bind_eq_some_iff.mp h
  obtain ⟨⟨name, p₂⟩, hname, h⟩ := Option.bind_eq_some_iff.mp h
  obtain ⟨p₃, hend, h⟩ := Option.map_eq_some_iff.mp h
  cases h
  exact (parseEnd_suffix hend).trans ((parseRo_suffix _).trans ((parseName_suffix hname).trans
    ((parseOffset_suffix _).trans (parseSize_suffix hsize))))

theorem partValidate_some {raw : PartInfo} (h : partValidate board id raw = some part) :
    part.offset = raw.offset ∧ partFits board id part.offset part.size = true ∧
      (raw.size < 2 ^ 32 → part.size < 2 ^ 32) ∧ part.name = raw.name ∧ part.autoName = raw.autoName := by
  rw [partValidate, Option.ite_none_right_eq_some, Option.some.injEq] at h
  obtain ⟨hfits, rfl⟩ := h
  refine ⟨rfl, hfits, ?_, rfl, rfl⟩
  intro hlt
  dsimp only
  split
  next => exact Nat.mod_lt _ (by decide)
  next => exact hlt

/-- One round of the loop of `device_parse`. -/
theorem partsParse_cases (h : partsParse board id (fuel + 1) p offset = some (parts, rest)) :
    ∃ raw part p', partParse p = some (raw, p') ∧
      partValidate board id
        { raw with offset := if raw.offset = offsetNotSpecified then offset else raw.offset } = some part ∧
      ((parts = [part] ∧ rest = p' ∧ (p' = [] ∨ ∃ q, p' = 59 :: q)) ∨
        ∃ parts', partsParse board id fuel p' ((part.offset + part.size) % 2 ^ 32) = some (parts', rest) ∧
          parts = part :: parts') := by
  obtain ⟨⟨raw, p'⟩, hparse, h⟩ := Option.bind_eq_some_iff.mp h
  obtain ⟨part, hvalid, h⟩ := Option.bind_eq_some_iff.mp h
  refine ⟨raw, part, p', hparse, hvalid, ?_⟩
  have hoffset := (partValidate_some hvalid).1
  split at h
  next => cases h; exact Or.inl ⟨rfl, rfl, Or.inl rfl⟩
  next => cases h; exact Or.inl ⟨rfl, rfl, Or.inr ⟨_, rfl⟩⟩
  next =>
    obtain ⟨⟨parts', p''⟩, hrest, h⟩ := Option.map_eq_some_iff.mp h
    cases h
    rw [hoffset]
    exact Or.inr ⟨parts', hrest, rfl⟩

theorem partsParse_suffix (h : partsParse board id fuel p offset = some (parts, rest)) : rest <:+ p := by
  induction fuel generalizing p offset parts with
  | zero => cases h
  | succ fuel ih =>
      obtain ⟨raw, part, p', hparse, -, ⟨-, rfl, -⟩ | ⟨parts', hrest, -⟩⟩ := partsParse_cases h
      · exact partParse_suffix hparse
      · exact (ih hrest).trans (partParse_suffix hparse)

/-! ## The partitions of a device -/

/-- A partition as it is parsed. -/
structure PartOk (board : Board) (id : MtdIds) (part : PartInfo) : Prop where
  fits : partFits board id part.offset part.size = true
  size_lt : part.size < 2 ^ 32
  named : part.autoName = false → part.name ≠ [] ∧ 41 ∉ part.name

theorem parseName_named {name : List UInt8} (h : parseName p = some (some name, rest)) : name ≠ [] ∧ 41 ∉ name := by
  unfold parseName at h
  split at h
  next =>
    split at h
    next => cases h
    next =>
      obtain ⟨hne, h⟩ := Option.ite_none_left_eq_some.mp h
      cases h
      refine ⟨hne, ?_⟩
      intro hmem
      have hne := List.mem_takeWhile_imp hmem
      simp at hne
  next => cases h

theorem strtoulLoop_lt {r : Nat} (base : Nat) (p : List UInt8) (h : r < 2 ^ 32) : (strtoulLoop base p r).1 < 2 ^ 32 := by
  induction p generalizing r with
  | nil => exact h
  | cons c p ih =>
      rw [strtoulLoop]
      split
      next => exact ih (Nat.mod_lt _ (by decide))
      next => exact h

theorem memsizeParse_lt (p : List UInt8) : (memsizeParse p).1 < 2 ^ 32 := by
  have hnum : (simpleStrtoul p 0).1 < 2 ^ 32 := by
    unfold simpleStrtoul
    split
    next => split <;> exact strtoulLoop_lt _ _ (by decide)
    next => exact strtoulLoop_lt _ _ (by decide)
  unfold memsizeParse
  split <;> first | exact Nat.mod_lt _ (by decide) | simp_all only

theorem parseSize_lt (h : parseSize p = some (size, rest)) : size < 2 ^ 32 := by
  unfold parseSize at h
  split at h
  next => cases h; decide
  next =>
    obtain ⟨-, h⟩ := Option.ite_none_left_eq_some.mp h
    have hlt := memsizeParse_lt p
    rw [Option.some.inj h] at hlt
    exact hlt

theorem partParse_named (h : partParse p = some (part, rest)) :
    part.size < 2 ^ 32 ∧ (part.autoName = false → part.name ≠ [] ∧ 41 ∉ part.name) := by
  obtain ⟨⟨size, p₁⟩, hsize, h⟩ := Option.bind_eq_some_iff.mp h
  obtain ⟨⟨name, p₂⟩, hname, h⟩ := Option.bind_eq_some_iff.mp h
  obtain ⟨p₃, hend, h⟩ := Option.map_eq_some_iff.mp h
  cases h
  refine ⟨parseSize_lt hsize, ?_⟩
  cases name with
  | none => intro h; cases h
  | some name => exact fun _ => parseName_named hname

/-- Each partition is checked. -/
theorem partsParse_ok (h : partsParse board id fuel p offset = some (parts, rest)) :
    parts ≠ [] ∧ parts.length ≤ fuel ∧ ∀ part ∈ parts, PartOk board id part := by
  induction fuel generalizing p offset parts with
  | zero => cases h
  | succ fuel ih =>
      obtain ⟨raw, part, p', hparse, hvalid, hrest⟩ := partsParse_cases h
      obtain ⟨-, hfits, hsize, hname, hauto⟩ := partValidate_some hvalid
      obtain ⟨hlt, hnamed⟩ := partParse_named hparse
      have hok : PartOk board id part := ⟨hfits, hsize hlt, by rw [hname, hauto]; exact hnamed⟩
      obtain ⟨rfl, -, -⟩ | ⟨parts', hrest, rfl⟩ := hrest
      · simpa using hok
      · obtain ⟨-, hlen, hall⟩ := ih hrest
        refine ⟨by simp, by simpa using hlen, ?_⟩
        intro q hq
        rcases List.mem_cons.mp hq with rfl | hq
        · exact hok
        · exact hall q hq

/-- The new partition stands before the first one that does not start before it. -/
theorem sortAdd_some (h : sortAdd part parts = some parts') : ∃ front back, parts = front ++ back ∧
    parts' = front ++ part :: back ∧ (∀ pi ∈ front, pi.offset < part.offset) ∧
      ∀ pi ∈ back.head?, part.offset ≤ pi.offset ∧ pi.offset ≠ 0 := by
  induction parts generalizing parts' with
  | nil => cases h; exact ⟨[], [], rfl, rfl, by simp, by simp⟩
  | cons pi parts ih =>
      rw [sortAdd] at h
      split at h
      next => cases h
      next hzero =>
        split at h
        next hle =>
          cases h
          refine ⟨[], pi :: parts, rfl, rfl, by simp, ?_⟩
          intro q hq
          cases hq
          exact ⟨hle, fun hz => hzero ⟨by omega, hz⟩⟩
        next hlt =>
          obtain ⟨parts'', hrest, rfl⟩ := Option.map_eq_some_iff.mp h
          obtain ⟨front, back, rfl, rfl, hfront, hback⟩ := ih hrest
          refine ⟨pi :: front, back, rfl, rfl, ?_, hback⟩
          intro q hq
          rcases List.mem_cons.mp hq with rfl | hq
          · exact Nat.lt_of_not_le hlt
          · exact hfront q hq

abbrev Sorted (parts : List PartInfo) : Prop := parts.Pairwise fun p q => p.offset ≤ q.offset

theorem sortAdd_sorted (hs : Sorted parts) (h : sortAdd part parts = some parts') : Sorted parts' := by
  obtain ⟨front, back, rfl, rfl, hfront, hback⟩ := sortAdd_some h
  obtain ⟨hsf, hsb, hcross⟩ := List.pairwise_append.mp hs
  have hall : ∀ q ∈ back, part.offset ≤ q.offset := by
    cases back with
    | nil => simp
    | cons b back =>
        have hb : part.offset ≤ b.offset := (hback b rfl).1
        intro q hq
        rcases List.mem_cons.mp hq with rfl | hq
        · exact hb
        · exact hb.trans (List.rel_of_pairwise_cons hsb hq)
  refine List.pairwise_append.mpr ⟨hsf, List.pairwise_cons.mpr ⟨hall, hsb⟩, ?_⟩
  intro q hq r hr
  rcases List.mem_cons.mp hr with rfl | hr
  · exact (hfront q hq).le
  · exact hcross q hq r hr

/-- Only the first partition can be at offset 0. -/
abbrev OneZero (parts : List PartInfo) : Prop := parts.Pairwise fun _ q => q.offset ≠ 0

theorem sortAdd_oneZero (hz : OneZero parts) (h : sortAdd part parts = some parts') : OneZero parts' := by
  obtain ⟨front, back, rfl, rfl, hfront, hback⟩ := sortAdd_some h
  obtain ⟨hzf, hzb, hcross⟩ := List.pairwise_append.mp hz
  have hall : ∀ q ∈ back, q.offset ≠ 0 := by
    cases back with
    | nil => simp
    | cons b back =>
        intro q hq
        rcases List.mem_cons.mp hq with rfl | hq
        · exact (hback q rfl).2
        · exact List.rel_of_pairwise_cons hzb hq
  refine List.pairwise_append.mpr ⟨hzf, List.pairwise_cons.mpr ⟨hall, hzb⟩, ?_⟩
  intro q hq r hr
  rcases List.mem_cons.mp hr with rfl | hr
  · exact Nat.ne_of_gt (Nat.zero_lt_of_lt (hfront q hq))
  · exact hcross q hq r hr

theorem sortAdd_perm (h : sortAdd part parts = some parts') : parts'.Perm (part :: parts) := by
  obtain ⟨front, back, rfl, rfl, -, -⟩ := sortAdd_some h
  exact List.perm_middle

theorem sortAddAll_some (hs : Sorted parts) (hz : OneZero parts) (h : sortAddAll tmp parts = some parts') :
    Sorted parts' ∧ OneZero parts' ∧ parts'.Perm (tmp ++ parts) := by
  induction tmp generalizing parts with
  | nil => cases h; exact ⟨hs, hz, List.Perm.refl _⟩
  | cons part tmp ih =>
      obtain ⟨mid, hmid, hrest⟩ := Option.bind_eq_some_iff.mp h
      obtain ⟨hsorted, hzero, hperm⟩ := ih (sortAdd_sorted hs hmid) (sortAdd_oneZero hz hmid) hrest
      exact ⟨hsorted, hzero, hperm.trans (((sortAdd_perm hmid).append_left tmp).trans List.perm_middle)⟩

/-- A device that can be on the list. -/
structure Listed (board : Board) (dev : MtdDevice) : Prop where
  found : idFindByMtdId board dev.id.mtdId = some dev.id
  colon : 58 ∉ dev.id.mtdId
  nonempty : dev.parts ≠ []
  sorted : Sorted dev.parts
  zero : OneZero dev.parts
  parts : ∀ part ∈ dev.parts, PartOk board dev.id part

/-- A device as it is parsed from a text of `n` bytes. -/
structure Parsed (board : Board) (n : Nat) (dev : MtdDevice) : Prop extends Listed board dev where
  small : dev.parts.length ≤ n

theorem deviceParse_parsed (h : deviceParse board devices p = some (dev, rest)) :
    Parsed board p.length dev ∧ rest <:+ p := by
  unfold deviceParse at h
  split at h
  next => cases h
  next c q hq =>
    obtain ⟨id, hid, h⟩ := Option.bind_eq_some_iff.mp h
    obtain ⟨⟨tmp, p'⟩, htmp, h⟩ := Option.bind_eq_some_iff.mp h
    obtain ⟨parts, hparts, h⟩ := Option.map_eq_some_iff.mp h
    cases h
    have hdrop : c :: q <:+ p := by rw [← hq]; exact List.dropWhile_suffix _
    obtain ⟨hne, hlen, hok⟩ := partsParse_ok htmp
    obtain ⟨hsorted, hzero, hperm⟩ := sortAddAll_some List.Pairwise.nil List.Pairwise.nil hparts
    rw [List.append_nil] at hperm
    have hname : p.takeWhile (· ≠ 58) = id.mtdId := by
      have hfound := List.find?_some hid
      exact (beq_iff_eq.mp hfound).symm
    refine ⟨⟨⟨?_, ?_, ?_, hsorted, hzero, ?_⟩, ?_⟩, ?_⟩
    · rw [← hname]
      exact hid
    · rw [← hname]
      intro hmem
      have hne := List.mem_takeWhile_imp hmem
      simp at hne
    · intro hnil
      cases hnil
      exact hne hperm.nil_eq.symm
    · intro part hpart
      exact hok part (hperm.mem_iff.mp hpart)
    · have := hdrop.length_le
      rw [hperm.length_eq]
      exact hlen.trans this
    · exact (List.drop_suffix _ _).trans ((partsParse_suffix htmp).trans ((List.suffix_cons c q).trans hdrop))

/-! ## The devices -/

theorem deviceFind_some (h : deviceFind devices key = some dev) : dev ∈ devices ∧ dev.key = key :=
  ⟨List.mem_of_find?_eq_some h, by simpa using List.find?_some h⟩

theorem deviceFind_none : deviceFind devices key = none ↔ key ∉ devices.map (·.key) := by
  simp [deviceFind]

theorem devicesParse_parsed (hlen : p.length ≤ n) (hok : ∀ dev ∈ devices, Parsed board n dev)
    (hkeys : (devices.map (·.key)).Nodup) (h : devicesParse board fuel p devices = some devices') :
    (∀ dev ∈ devices', Parsed board n dev) ∧ (devices'.map (·.key)).Nodup := by
  induction fuel generalizing p devices with
  | zero => cases h
  | succ fuel ih =>
      obtain ⟨⟨dev, rest⟩, hdev, h⟩ := Option.bind_eq_some_iff.mp h
      obtain ⟨hparsed, hrest⟩ := deviceParse_parsed hdev
      obtain ⟨hnew, h⟩ := Option.ite_none_left_eq_some.mp h
      have hok' : ∀ d ∈ devices ++ [dev], Parsed board n d := by
        intro d hd
        rcases List.mem_append.mp hd with hd | hd
        · exact hok d hd
        · cases List.mem_singleton.mp hd
          exact { hparsed with small := hparsed.small.trans hlen }
      have hkeys' : ((devices ++ [dev]).map (·.key)).Nodup := by
        rw [Option.not_isSome_iff_eq_none, deviceFind_none] at hnew
        rw [List.map_append]
        exact hkeys.append (by simp) (by simpa using hnew)
      split at h
      next => cases h; exact ⟨hok', hkeys'⟩
      next => exact ih (hrest.length_le.trans hlen) hok' hkeys' h

theorem parseMtdparts_parsed (h : parseMtdparts board p = some devices) :
    (∀ dev ∈ devices, Parsed board p.length dev) ∧ (devices.map (·.key)).Nodup := by
  unfold parseMtdparts at h
  split at h
  next => exact devicesParse_parsed (by simp) (by simp) (by simp) h
  next => cases h

end

end Uboot.Mtdparts
