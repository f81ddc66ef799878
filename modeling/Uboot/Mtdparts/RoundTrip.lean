import Uboot.Lib.Groups
import Uboot.Mtdparts.Current
import Uboot.Mtdparts.Format

/-!
# Parsing the generated text

`parse_mtdparts` gives back what `generate_mtdparts` printed when the partitions at each offset, in reverse and with
their names written anew, are the same ones: `part_sort_add` puts a partition before those at its offset.
-/

namespace Uboot.Mtdparts

open Lib

/-- What of a partition is compared. -/
structure PartData where
  offset : Nat
  size : Nat
  name : List UInt8
  ro : Bool
  deriving DecidableEq

def PartInfo.data (part : PartInfo) : PartData := ⟨part.offset, part.size, part.name, part.ro⟩

def MtdDevice.data (dev : MtdDevice) : MtdIds × List PartData :=
  (dev.id, dev.parts.map PartInfo.data)

/-- The devices after `mtdparts_init`; for an empty text there is no variable and there are no devices. -/
def reload (board : Board) (text : List UInt8) : Option (List MtdDevice) :=
  if text = [] then some [] else parseMtdparts board text

/-- The text gives the same devices and partitions in the same order. -/
def RoundTrip (board : Board) (devices : List MtdDevice) : Prop :=
  ∀ text, generateMtdparts devices 1024 = some text →
    ∃ devices', reload board text = some devices' ∧ devices'.map MtdDevice.data = devices.map MtdDevice.data

/-- The partitions at one offset, in reverse and as they are written. -/
def Mirrored (parts : List PartInfo) : Prop := ∀ o,
  (((written none parts).map PartInfo.data).filter (·.offset = o)).reverse = (parts.map PartInfo.data).filter (·.offset = o)

section
variable {board : Board} {dev : MtdDevice} {devices acc : List MtdDevice} {part : PartInfo} {prev : Option PartInfo}
  {parts parts' tmp : List PartInfo} {p tail : List UInt8} {fuel : Nat}

/-! ## Sorting what is read -/

theorem sortAdd_filter (h : sortAdd part parts = some parts') (o : Nat) :
    parts'.filter (·.offset = o) = (if part.offset = o then [part] else []) ++ parts.filter (·.offset = o) := by
  obtain ⟨front, back, rfl, rfl, hfront, -⟩ := sortAdd_some h
  rw [List.filter_append, List.filter_cons, List.filter_append]
  split
  next heq =>
    have heq : part.offset = o := by simpa using heq
    have hnil : front.filter (·.offset = o) = [] := by
      rw [List.filter_eq_nil_iff]
      intro pi hpi
      have := hfront pi hpi
      simp only [decide_eq_true_eq]
      omega
    rw [hnil, if_pos heq]
    rfl
  next hne =>
    rw [if_neg (by simpa using hne)]
    rfl

theorem sortAddAll_filter (h : sortAddAll tmp parts = some parts') (o : Nat) :
    parts'.filter (·.offset = o) = (tmp.filter (·.offset = o)).reverse ++ parts.filter (·.offset = o) := by
  induction tmp generalizing parts with
  | nil => cases h; rfl
  | cons part tmp ih =>
      obtain ⟨mid, hmid, hrest⟩ := Option.bind_eq_some_iff.mp h
      rw [ih hrest, sortAdd_filter hmid, List.filter_cons]
      by_cases ho : part.offset = o
      · simp [ho]
      · simp [ho]

theorem sortAdd_of_free {parts : List PartInfo} (h : part.offset = 0 → ∀ pi ∈ parts, pi.offset ≠ 0) :
    ∃ parts', sortAdd part parts = some parts' := by
  induction parts with
  | nil => exact ⟨_, rfl⟩
  | cons pi parts ih =>
      rw [sortAdd, if_neg (fun hz => h (hz.1.trans hz.2) pi (by simp) hz.2)]
      split
      next => exact ⟨_, rfl⟩
      next =>
        obtain ⟨parts', hparts⟩ := ih fun hz q hq => h hz q (List.mem_cons_of_mem _ hq)
        exact ⟨pi :: parts', by rw [hparts]; rfl⟩

theorem sortAddAll_of_ne_zero (h : ∀ part ∈ tmp, part.offset ≠ 0) (parts : List PartInfo) :
    ∃ parts', sortAddAll tmp parts = some parts' := by
  induction tmp generalizing parts with
  | nil => exact ⟨parts, rfl⟩
  | cons part tmp ih =>
      obtain ⟨mid, hmid⟩ := @sortAdd_of_free part parts fun hz => absurd hz (h part List.mem_cons_self)
      obtain ⟨parts', hrest⟩ := ih (fun q hq => h q (List.mem_cons_of_mem _ hq)) mid
      exact ⟨parts', by rw [sortAddAll, hmid, Option.bind_some, hrest]⟩

theorem written_offset (prev : Option PartInfo) (parts : List PartInfo) :
    (written prev parts).map (·.offset) = parts.map (·.offset) := by
  induction parts generalizing prev with
  | nil => rfl
  | cons part parts ih => rw [written, List.map_cons, List.map_cons, ih]

/-- The partitions that are read, in the order of the device. -/
theorem reread (hzero : OneZero parts) : ∃ parts', sortAddAll (written none parts) [] = some parts' := by
  cases parts with
  | nil => exact ⟨[], rfl⟩
  | cons part parts =>
      have hrest : ∀ q ∈ written (some part) parts, q.offset ≠ 0 := by
        intro q hq
        have hmem : q.offset ∈ (written (some part) parts).map (·.offset) := List.mem_map_of_mem hq
        rw [written_offset] at hmem
        obtain ⟨r, hr, heq⟩ := List.mem_map.mp hmem
        rw [← heq]
        exact List.rel_of_pairwise_cons hzero hr
      exact sortAddAll_of_ne_zero hrest _

/-- The same partitions come back exactly when they are mirrored. -/
theorem reread_iff (hsorted : Sorted parts) (h : sortAddAll (written none parts) [] = some parts') :
    parts'.map PartInfo.data = parts.map PartInfo.data ↔ Mirrored parts := by
  have hgroups : ∀ o, (parts'.map PartInfo.data).filter (·.offset = o) =
      (((written none parts).map PartInfo.data).filter (·.offset = o)).reverse := by
    intro o
    have hfilter := sortAddAll_filter h o
    rw [List.filter_map, List.filter_map, ← List.map_reverse]
    rw [List.filter_nil, List.append_nil] at hfilter
    exact congrArg (List.map PartInfo.data) hfilter
  constructor
  · intro heq o
    rw [← hgroups, heq]
  · intro hm
    have hsorted' := (sortAddAll_some List.Pairwise.nil List.Pairwise.nil h).1
    refine eq_of_groups PartData.offset (List.pairwise_map.mpr hsorted') (List.pairwise_map.mpr hsorted) ?_
    intro o
    rw [hgroups]
    exact hm o

/-! ## The devices -/

theorem deviceParse_format (tail : List UInt8) (hl : Listed board dev) (hfree : deviceFind acc dev.key = none)
    (htail : ∀ c ∈ tail.head?, c = 59) (hread : sortAddAll (written none dev.parts) [] = some parts') :
    deviceParse board acc (formatDevice dev ++ tail) =
      if Readable dev.parts then some (⟨dev.id, parts'⟩, tail.drop 1) else none := by
  have hlen : dev.parts.length ≤ (formatParts none dev.parts ++ tail).length + 1 := by
    have hle := length_le_formatParts none dev.parts
    rw [List.length_append]
    omega
  have hparts : partsParse board dev.id _ (formatParts none dev.parts ++ tail) 0 = _ :=
    partsParse_format none hl.nonempty hl.parts hl.zero htail hlen
  rw [formatDevice, List.append_assoc, List.cons_append, deviceParse_id hl.colon hl.found hfree, hparts]
  split
  next =>
    rw [Option.bind_some]
    dsimp only
    rw [hread]
    rfl
  next => rfl

theorem formatDevices_cons (dev d : MtdDevice) (devices : List MtdDevice) :
    formatDevices (dev :: d :: devices) = formatDevice dev ++ 59 :: formatDevices (d :: devices) := by
  rw [formatDevices]
  simp

theorem formatDevices_ne_nil (dev : MtdDevice) (devices : List MtdDevice) : formatDevices (dev :: devices) ≠ [] := by
  cases devices with
  | nil => simp [formatDevices, formatDevice]
  | cons d devices => simp [formatDevices_cons, formatDevice]

theorem length_le_formatDevices (devices : List MtdDevice) : devices.length ≤ (formatDevices devices).length := by
  induction devices with
  | nil => simp
  | cons dev devices ih =>
      cases devices with
      | nil =>
          simp only [formatDevices, formatDevice, List.length_append, List.length_cons, List.length_nil]
          omega
      | cons d devices =>
          simp only [formatDevices_cons, List.length_append, List.length_cons] at ih ⊢
          omega

/-- The device as it is read. -/
def Reread (dev dev' : MtdDevice) : Prop :=
  dev'.id = dev.id ∧ sortAddAll (written none dev.parts) [] = some dev'.parts

/-- What is read of the printed devices. -/
theorem devicesParse_format {devices' : List MtdDevice} (hne : devices ≠ []) (hl : ∀ dev ∈ devices, Listed board dev)
    (hread : List.Forall₂ Reread devices devices') (hkeys : ((acc ++ devices).map (·.key)).Nodup)
    (hfuel : devices.length ≤ fuel) : devicesParse board fuel (formatDevices devices) acc =
      if ∀ dev ∈ devices, Readable dev.parts then some (acc ++ devices') else none := by
  induction devices generalizing acc devices' fuel with
  | nil => exact absurd rfl hne
  | cons dev devices ih =>
      obtain ⟨fuel, rfl⟩ : ∃ m, fuel = m + 1 := ⟨fuel - 1, by simp at hfuel; omega⟩
      cases hread with
      | @cons _ dev' _ rest' hdev hrest =>
          have hfree : deviceFind acc dev.key = none := by
            rw [deviceFind_none]
            intro hmem
            rw [List.map_append, List.nodup_append] at hkeys
            exact hkeys.2.2 _ hmem _ (by simp) rfl
          have hkey : dev'.key = dev.key := by rw [MtdDevice.key, hdev.1]; rfl
          have hself : (⟨dev.id, dev'.parts⟩ : MtdDevice) = dev' := by rw [← hdev.1]
          have hnew : ¬ (deviceFind acc dev'.key).isSome = true := by rw [hkey, hfree]; simp
          cases devices with
          | nil =>
              cases hrest
              have hparse := deviceParse_format [] (hl dev (by simp)) hfree (by simp) hdev.2
              rw [List.append_nil, hself] at hparse
              rw [devicesParse, formatDevices, hparse]
              by_cases hr : Readable dev.parts
              · rw [if_pos hr, if_pos (by simpa using hr), Option.bind_some]
                dsimp only
                rw [if_neg hnew]
                rfl
              · rw [if_neg hr, if_neg (by simpa using hr)]
                rfl
          | cons d devices =>
              have hparse := deviceParse_format (59 :: formatDevices (d :: devices)) (hl dev (by simp)) hfree
                (by simp) hdev.2
              rw [hself] at hparse
              have hkeys' : (((acc ++ [dev']) ++ d :: devices).map (·.key)).Nodup := by
                simpa [hkey] using hkeys
              have hmore := ih (by simp) (fun e he => hl e (List.mem_cons_of_mem _ he)) hrest hkeys'
                (show _ ≤ fuel by simpa using hfuel)
              rw [devicesParse, formatDevices_cons, hparse]
              by_cases hr : Readable dev.parts
              · rw [if_pos hr, Option.bind_some]
                dsimp only
                rw [if_neg hnew, List.drop_succ_cons, List.drop_zero]
                split
                next heq => exact absurd heq (formatDevices_ne_nil d devices)
                next =>
                  rw [hmore, List.append_assoc]
                  refine if_congr ?_ rfl rfl
                  simp [hr]
              · rw [if_neg hr, if_neg (fun h => hr (h dev List.mem_cons_self))]
                rfl

/-- Devices that can be on the list. -/
structure ListOk (board : Board) (devices : List MtdDevice) : Prop where
  listed : ∀ dev ∈ devices, Listed board dev
  keys : (devices.map (·.key)).Nodup

theorem exists_reread (hl : ∀ dev ∈ devices, Listed board dev) : ∃ devices', List.Forall₂ Reread devices devices' := by
  induction devices with
  | nil => exact ⟨[], List.Forall₂.nil⟩
  | cons dev devices ih =>
      obtain ⟨parts', hparts⟩ := reread (hl dev (by simp)).zero
      obtain ⟨devices', hrest⟩ := ih fun d hd => hl d (List.mem_cons_of_mem _ hd)
      exact ⟨⟨dev.id, parts'⟩ :: devices', List.Forall₂.cons ⟨rfl, hparts⟩ hrest⟩

theorem reread_data {devices' : List MtdDevice} (hl : ∀ dev ∈ devices, Listed board dev)
    (h : List.Forall₂ Reread devices devices') :
    devices'.map MtdDevice.data = devices.map MtdDevice.data ↔ ∀ dev ∈ devices, Mirrored dev.parts := by
  induction h with
  | nil => simp
  | @cons dev dev' devices devices' hdev hrest ih =>
      have hparts := reread_iff (hl dev (by simp)).sorted hdev.2
      have hdata : dev'.data = dev.data ↔ Mirrored dev.parts := by
        rw [← hparts, MtdDevice.data, MtdDevice.data, Prod.mk.injEq, and_iff_right hdev.1]
      rw [List.map_cons, List.map_cons, List.cons.injEq, hdata, ih fun d hd => hl d (List.mem_cons_of_mem _ hd)]
      simp

theorem roundTrip_iff (h : ListOk board devices) (hlen : (formatDevices devices).length ≤ 1023) :
    RoundTrip board devices ↔ ∀ dev ∈ devices, Readable dev.parts ∧ Mirrored dev.parts := by
  rcases List.eq_nil_or_concat' devices with rfl | ⟨front, last, hdevices⟩
  · refine ⟨fun _ => by simp, fun _ text htext => ?_⟩
    cases htext
    exact ⟨[], rfl, rfl⟩
  have hne : devices ≠ [] := by rw [hdevices]; simp
  have htext : generateMtdparts devices 1024 = some (mtdpartsText ++ formatDevices devices) := by
    rw [generateMtdparts, if_neg hne, if_pos hlen]
  obtain ⟨devices', hread⟩ := exists_reread h.listed
  have hparse : reload board (mtdpartsText ++ formatDevices devices) =
      if ∀ dev ∈ devices, Readable dev.parts then some devices' else none := by
    have hle : devices.length ≤ (mtdpartsText ++ formatDevices devices).length := by
      rw [List.length_append]
      exact (length_le_formatDevices devices).trans (Nat.le_add_left _ _)
    have hkeys : (([] ++ devices).map MtdDevice.key).Nodup := h.keys
    rw [reload, if_neg (by simp [mtdpartsText]), parseMtdparts,
      if_pos (List.isPrefixOf_iff_prefix.mpr (List.prefix_append _ _))]
    change devicesParse board _ (formatDevices devices) [] = _
    exact devicesParse_format hne h.listed hread hkeys hle
  have hdata := reread_data h.listed hread
  constructor
  · intro hrt dev hdev
    obtain ⟨devices'', hsome, heq⟩ := hrt _ htext
    rw [hparse] at hsome
    obtain ⟨hall, hsome⟩ := Option.ite_none_right_eq_some.mp hsome
    cases hsome
    exact ⟨hall dev hdev, hdata.mp heq dev hdev⟩
  · intro hall text htext'
    cases htext.symm.trans htext'
    exact ⟨devices', by rw [hparse, if_pos fun dev hd => (hall dev hd).1], hdata.mpr fun dev hd => (hall dev hd).2⟩

/-! ## The devices of a run -/

theorem Listed.sublist (h : Listed board dev) (hsub : parts.Sublist dev.parts) (hne : parts ≠ []) :
    Listed board { dev with parts := parts } where
  found := h.found
  colon := h.colon
  nonempty := hne
  sorted := h.sorted.sublist hsub
  zero := h.zero.sublist hsub
  parts := fun part hpart => h.parts part (hsub.mem hpart)

theorem Listed.sortAdd (h : Listed board dev) (hpart : PartOk board dev.id part)
    (hadd : sortAdd part dev.parts = some parts) : Listed board { dev with parts := parts } where
  found := h.found
  colon := h.colon
  nonempty := by
    obtain ⟨front, back, -, rfl, -, -⟩ := sortAdd_some hadd
    simp
  sorted := sortAdd_sorted h.sorted hadd
  zero := sortAdd_oneZero h.zero hadd
  parts := by
    intro q hq
    rcases List.mem_cons.mp ((sortAdd_perm hadd).mem_iff.mp hq) with rfl | hq
    · exact hpart
    · exact h.parts q hq

theorem Listed.stamp (h : Listed board dev) (n : Nat) : Listed board (dev.stamp n) where
  found := h.found
  colon := h.colon
  nonempty := by simpa [MtdDevice.stamp] using h.nonempty
  sorted := by
    refine List.pairwise_iff_getElem.mpr ?_
    intro i j hi hj hij
    simp only [MtdDevice.stamp, List.getElem_mapIdx, List.length_mapIdx] at hi hj ⊢
    exact List.pairwise_iff_getElem.mp h.sorted i j hi hj hij
  zero := by
    refine List.pairwise_iff_getElem.mpr ?_
    intro i j hi hj hij
    simp only [MtdDevice.stamp, List.getElem_mapIdx, List.length_mapIdx] at hi hj ⊢
    exact List.pairwise_iff_getElem.mp h.zero i j hi hj hij
  parts := by
    intro q hq
    obtain ⟨i, hi, rfl⟩ := List.mem_mapIdx.mp hq
    have hok := h.parts _ (List.getElem_mem hi)
    exact ⟨hok.fits, hok.size_lt, hok.named⟩

variable {s : Mtd} {key : DevType × Nat}

theorem ListOk.setParts (h : ListOk board s.devices) (hdev : deviceFind s.devices key = some dev)
    (hl : Listed board { dev with parts := parts }) : ListOk board (s.setParts key parts) where
  listed := by
    intro d hd
    rcases Mtd.mem_setParts hdev h.keys hd with rfl | hd
    · exact hl
    · exact h.listed d hd
  keys := by
    rw [Mtd.setParts_keys]
    exact h.keys

theorem ListOk.sublist {devices' : List MtdDevice} (h : ListOk board devices) (hsub : devices'.Sublist devices) :
    ListOk board devices' :=
  ⟨fun dev hd => h.listed dev (hsub.mem hd), h.keys.sublist (hsub.map (·.key))⟩

theorem deviceDel_devices (s : Mtd) (key : DevType × Nat) :
    (s.deviceDel key).devices = s.devices.filter fun dev => dev.key ≠ key := by
  unfold Mtd.deviceDel
  split
  next =>
    dsimp only
    split
    next heq => exact heq.symm
    next heq => exact heq.symm
  next => rfl

theorem ListOk.exec (h : ListOk board s.devices) (c : Command) : ListOk board (s.exec board c).devices := by
  have hempty : ListOk board [] := ⟨by simp, by simp⟩
  cases c with
  | parse text =>
      simp only [Mtd.exec]
      split
      next => exact h
      next =>
        split
        next dev devices hparse =>
          obtain ⟨hall, hkeys⟩ := parseMtdparts_parsed hparse
          refine ⟨?_, ?_⟩
          · intro d hd
            obtain ⟨e, he, rfl⟩ := List.mem_map.mp hd
            exact (hall e he).toListed.stamp _
          · rw [List.map_map]
            exact hkeys
        next => exact hempty
  | add text size name ro =>
      simp only [Mtd.exec]
      split
      next => exact h
      next new hnew =>
        obtain ⟨⟨key, p⟩, -, hnew⟩ := Option.bind_eq_some_iff.mp hnew
        obtain ⟨id, -, hnew⟩ := Option.bind_eq_some_iff.mp hnew
        obtain ⟨-, hnew⟩ := Option.ite_none_left_eq_some.mp hnew
        obtain ⟨⟨d, rest⟩, hparse, rfl⟩ := Option.map_eq_some_iff.mp hnew
        have hparsed := (deviceParse_parsed hparse).1
        split
        next hfree =>
          have hok : ListOk board (s.devices ++ [d.stamp s.nextSerial]) := by
            refine ⟨?_, ?_⟩
            · intro e he
              rcases List.mem_append.mp he with he | he
              · exact h.listed e he
              · cases List.mem_singleton.mp he
                exact hparsed.toListed.stamp _
            · rw [deviceFind_none] at hfree
              rw [List.map_append]
              exact h.keys.append (by simp) (by simpa using hfree)
          unfold Mtd.deviceAdd
          split <;> exact hok
        next old part rest hold hparts =>
          cases hdone : s.partAdd board old part with
          | none => exact h
          | some s' =>
              obtain ⟨part', hvalid, hdone⟩ := Option.bind_eq_some_iff.mp hdone
              obtain ⟨parts, hadd, rfl⟩ := Option.map_eq_some_iff.mp hdone
              obtain ⟨-, hfits, hsize, hname, hauto⟩ := partValidate_some hvalid
              have hpart := hparsed.parts part (by rw [hparts]; simp)
              have hok : PartOk board old.id { part' with serial := s.nextSerial } :=
                ⟨hfits, hsize hpart.size_lt, by rw [hname, hauto]; exact hpart.named⟩
              obtain ⟨hmem, hkey⟩ := deviceFind_some hold
              rw [← hkey] at hold
              exact h.setParts hold ((h.listed old hmem).sortAdd hok hadd)
        next => exact h
  | del text =>
      simp only [Mtd.exec]
      split
      next => exact h
      next dev k part hfind =>
        obtain ⟨hdev, hpart⟩ := Mtd.findDevAndPart_some h.keys hfind
        by_cases hnum : dev.numParts = 1
        · rw [Mtd.partDel, if_pos hnum, deviceDel_devices]
          exact h.sublist List.filter_sublist
        · rw [Mtd.partDel_eq hnum]
          refine h.setParts hdev ((h.listed dev (deviceFind_some hdev).1).sublist (List.eraseIdx_sublist _ _) ?_)
          have hk := (List.getElem?_eq_some_iff.mp hpart).1
          intro hnil
          have hlen := List.length_eraseIdx_of_lt hk
          rw [hnil, List.length_nil] at hlen
          refine hnum ?_
          rw [MtdDevice.numParts, show dev.parts.length = 1 by omega]
          rfl
  | delall => exact hempty
  | chpart text =>
      simp only [Mtd.exec]
      split
      next => exact h
      next => exact h

theorem ListOk.run (h : ListOk board s.devices) (commands : List Command) :
    ListOk board (s.run board commands).devices := by
  induction commands generalizing s with
  | nil => exact h
  | cons c commands ih => exact ih (h.exec c)

end

/-- When the generated text gives the devices back. -/
theorem generate_parse_iff (board : Board) (commands : List Command) :
    RoundTrip board (Mtd.init.run board commands).devices ↔
      1023 < (formatDevices (Mtd.init.run board commands).devices).length ∨
        ∀ dev ∈ (Mtd.init.run board commands).devices, Readable dev.parts ∧ Mirrored dev.parts := by
  have hinit : ListOk board Mtd.init.devices := ⟨by simp [Mtd.init], by simp [Mtd.init]⟩
  have hok := hinit.run commands
  rcases Nat.lt_or_ge 1023 (formatDevices (Mtd.init.run board commands).devices).length with hlong | hlen
  · refine ⟨fun _ => Or.inl hlong, fun _ text htext => ?_⟩
    -- nothing is printed
    rw [generateMtdparts] at htext
    split at htext
    next hnil => rw [hnil] at hlong; simp [formatDevices] at hlong
    next =>
      obtain ⟨hle, -⟩ := Option.ite_none_right_eq_some.mp htext
      omega
  · rw [roundTrip_iff hok hlen]
    exact ⟨Or.inr, fun h => h.resolve_left (by omega)⟩

/-- The two partitions at one offset come back the other way round. -/
theorem generate_swaps_same_offset : ¬ RoundTrip sampleBoard (Mtd.init.run sampleBoard Mtd.sameOffset).devices := by
  intro h
  obtain ⟨devices', hreload, hdata⟩ := h (ascii "mtdparts=n:128k@128k(b),128k@128k(a)") (by decide)
  have hswap : ((reload sampleBoard (ascii "mtdparts=n:128k@128k(b),128k@128k(a)")).map fun devices =>
      devices.map MtdDevice.data) ≠ some ((Mtd.init.run sampleBoard Mtd.sameOffset).devices.map MtdDevice.data) := by
    set_option maxRecDepth 4000 in decide
  exact hswap (by rw [hreload, Option.map_some, hdata])

end Uboot.Mtdparts
