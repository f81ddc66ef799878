import Uboot.Smem.Entries

/-!
# The printed table and the parsed partitions

The parsed text has the partitions of the table when the entries on the boot flash come first, the text has one device
for each flash and the parser accepts every entry.
-/

namespace Uboot.Smem

open Lib Vsprintf Mtdparts

/-- The boot flash is the device that the caller names at the end of `mtdid`; `ft_board_setup` may put a partition
`rootfs` on a NAND device before it. -/
structure Setup where
  board : Board
  flashes : Flashes
  boot : MtdIds
  rootfs : Option Nat
  found : idFindByMtdId board boot.mtdId = some boot
  colon : 58 ∉ boot.mtdId
  brackets : ∀ id ∈ board.mtdids, 41 ∉ id.mtdId
  short : boot.mtdId.length < 240

/-- A partition on its device. -/
structure Row where
  id : MtdIds
  name : List UInt8
  offset : Nat
  size : Int
  deriving DecidableEq

/-- The name of an entry. -/
def SmemPtn.cname (p : SmemPtn) : List UInt8 := cstr p.name

namespace Setup

variable (s : Setup)

/-- `"nand%d:0x%x@0(rootfs);"` with `IPQ_NAND_ROOTFS_SIZE` -/
def rootfsText : List UInt8 :=
  match s.rootfs with
  | none => []
  | some num => ascii "nand" ++ numeral 10 num ++ ascii ":0x" ++ numeral 16 (64 * 2 ^ 20) ++ ascii "@0(rootfs);"

/-- `mtdparts=` and the device -/
def mtdid : List UInt8 := mtdpartsText ++ (s.rootfsText ++ s.boot.mtdId)

/-- The NAND device of the text. -/
def nandId : Option MtdIds := idFindByMtdId s.board (nandName s.flashes)

/-- The device that the which-flash field names: 0 for the boot flash, 1 for NAND. -/
def named (p : SmemPtn) : Option MtdIds :=
  if p.whichFlash = 0 then some s.boot else if p.whichFlash = 1 then s.nandId else none

/-- The bytes of an entry; the size of `~0` reaches to the end of its own flash. -/
def byteSize (p : SmemPtn) : Int :=
  if p.size = 0xFFFFFFFF then
    ((s.flashes.nandInfo (if p.whichFlash = 1 then s.flashes.spiNandAvailable else s.flashes.nandEnvDevice)).size : Int) -
      partOffset s.flashes p
  else p.size * getPartBlockSize s.flashes p

def expected (p : SmemPtn) : Option Row :=
  (s.named p).map fun id => ⟨id, p.cname, partOffset s.flashes p, s.byteSize p⟩

end Setup

def row (id : MtdIds) (part : PartInfo) : Row := ⟨id, part.name, part.offset, part.size⟩

def rows (devices : List MtdDevice) : List Row := devices.flatMap fun dev => dev.parts.map (row dev.id)

/-- The partitions of the text are those of the table. -/
def Agrees (s : Setup) (t : SmemPtable) (beyond : List UInt8) : Prop :=
  match qcaSmemPartToMtdparts s.flashes t beyond s.mtdid with
  | .null => True
  | .overflow => False
  | .text text => ∃ devices, parseMtdparts s.board text = some devices ∧
      ((rows devices).map some).Perm ((t.parts.take t.len).map s.expected)

/-- What makes the parser read an entry as it is meant. -/
@[mk_iff]
structure EntryOk (s : Setup) (id : MtdIds) (e : Entry) : Prop where
  /-- The name ends in its 16 bytes, or a NUL follows them. -/
  terminated : e.2 = e.1.cname
  named : e.2 ≠ []
  bracket : 41 ∉ e.2
  /-- The printed size is that of the entry's own flash. -/
  printed : 0 ≤ psize s.flashes e.1 ∧ ((psize s.flashes e.1).toNat % 2 ^ 32 : Nat) = s.byteSize e.1
  large : minPartSize ≤ s.byteSize e.1
  small : s.byteSize e.1 < sizeRemaining
  fits : partFits s.board id (partOffset s.flashes e.1) (s.byteSize e.1).toNat = true

instance (s : Setup) (id : MtdIds) (e : Entry) : Decidable (EntryOk s id e) := decidable_of_iff' _ (entryOk_iff s id e)

/-- The entries on the boot flash are not empty and come first, and the two devices are different ones. -/
structure TableOk (s : Setup) (es : List Entry) : Prop where
  first : firstEntries es ≠ []
  order : ∀ e ∈ nandEntries es, e.1.whichFlash = 1
  boot : ∀ e ∈ firstEntries es, EntryOk s s.boot e
  bootZero : (firstEntries es).countP (fun e => partOffset s.flashes e.1 = 0) ≤ 1
  nand : nandEntries es ≠ [] → ∃ id, s.nandId = some id ∧ (id.type, id.num) ≠ (s.boot.type, s.boot.num) ∧
    (∀ e ∈ nandEntries es, EntryOk s id e) ∧
      (nandEntries es).countP (fun e => partOffset s.flashes e.1 = 0) ≤ 1

section
variable {s : Setup} {es : List Entry} {e : Entry} {devices : List MtdDevice} {text : List UInt8} {n : Nat}
  {parts : List SmemPtn} {beyond : List UInt8}

/-! ## What the text is parsed to -/

/-- The text of the entries, without `mtdparts=`. -/
def tableText (s : Setup) (es : List Entry) : List UInt8 :=
  s.boot.mtdId ++ 58 :: (entriesText s.flashes (firstEntries es) ++
    if nandEntries es = [] then [] else 59 :: nandName s.flashes ++ 58 :: entriesText s.flashes (nandEntries es))

theorem nandName_colon (f : Flashes) : 58 ∉ nandName f ∧ 41 ∉ nandName f := by
  unfold nandName deviceId
  split <;> decide

theorem deviceParse_found {board : Board} {acc : List MtdDevice} {mtdId rest : List UInt8} {dev : MtdDevice}
    (hcolon : 58 ∉ mtdId) (h : deviceParse board acc (mtdId ++ 58 :: text) = some (dev, rest)) :
    idFindByMtdId board mtdId = some dev.id := by
  have hall : ∀ c ∈ mtdId, decide (c ≠ 58) = true := by
    intro c hc
    simp only [ne_eq, decide_eq_true_eq]
    rintro rfl
    exact hcolon hc
  have htake : (mtdId ++ 58 :: text).takeWhile (· ≠ 58) = mtdId := by
    rw [List.takeWhile_append_of_pos hall]
    simp
  rw [deviceParse, htake] at h
  split at h
  next => cases h
  next =>
    obtain ⟨id, hid, h⟩ := Option.bind_eq_some_iff.mp h
    obtain ⟨⟨tmp, p'⟩, -, h⟩ := Option.bind_eq_some_iff.mp h
    obtain ⟨parts, -, h⟩ := Option.map_eq_some_iff.mp h
    cases h
    exact hid

/-- The entries of one device. -/
theorem deviceParse_entries {board : Board} {acc : List MtdDevice} {id : MtdIds} {mtdId tail : List UInt8} {f : Flashes}
    (hcolon : 58 ∉ mtdId) (hfound : idFindByMtdId board mtdId = some id)
    (hfree : deviceFind acc (id.type, id.num) = none) (hne : es ≠ []) (hmem : ∀ e ∈ es, 41 ∉ e.2)
    (hoff : ∀ e ∈ es, partOffset f e.1 < 2 ^ 32 - 1) (htail : ∀ c ∈ tail.head?, c = 59) :
    deviceParse board acc (mtdId ++ 58 :: (entriesText f es ++ tail)) =
      if ∀ e ∈ es, Accepted board id f e then
        (sortAddAll (es.map (readPart f)) []).map fun parts => (⟨id, parts⟩, tail.drop 1)
      else none := by
  have hlen : es.length ≤ (entriesText f es ++ tail).length + 1 := by
    have hle : es.length ≤ (entriesText f es).length := by
      rw [entriesText, List.length_flatMap]
      refine (List.length_le_sum_of_one_le _ ?_).trans' (by simp)
      intro i hi
      obtain ⟨x, -, rfl⟩ := List.mem_map.mp hi
      simp [partText]
      omega
    rw [List.length_append]
    omega
  rw [deviceParse_id hcolon hfound hfree, partsParse_entries hne hmem hoff htail hlen]
  split
  next => rfl
  next => rfl

/-- The entries of one device are parsed to a sorted list. -/
def ParsedTo (s : Setup) (id : MtdIds) (es : List Entry) (dev : MtdDevice) : Prop :=
  dev.id = id ∧ es ≠ [] ∧ (∀ e ∈ es, Accepted s.board id s.flashes e) ∧
    sortAddAll (es.map (readPart s.flashes)) [] = some dev.parts

/-- One device, or two different ones. -/
def TableParsed (s : Setup) (es : List Entry) (devices : List MtdDevice) : Prop :=
  ∃ dev, ParsedTo s s.boot (firstEntries es) dev ∧
    ((nandEntries es = [] ∧ devices = [dev]) ∨
      ∃ id dev', s.nandId = some id ∧ (id.type, id.num) ≠ (s.boot.type, s.boot.num) ∧
        ParsedTo s id (nandEntries es) dev' ∧ devices = [dev, dev'])

theorem deviceParse_parsedTo {acc : List MtdDevice} {id : MtdIds} {mtdId : List UInt8} (dev : MtdDevice)
    (tail rest : List UInt8) (hcolon : 58 ∉ mtdId) (hfound : idFindByMtdId s.board mtdId = some id)
    (hfree : deviceFind acc (id.type, id.num) = none) (hne : es ≠ []) (hmem : ∀ e ∈ es, 41 ∉ e.2)
    (hoff : ∀ e ∈ es, partOffset s.flashes e.1 < 2 ^ 32 - 1) (htail : ∀ c ∈ tail.head?, c = 59) :
    deviceParse s.board acc (mtdId ++ 58 :: (entriesText s.flashes es ++ tail)) = some (dev, rest) ↔
      ParsedTo s id es dev ∧ rest = tail.drop 1 := by
  rw [deviceParse_entries hcolon hfound hfree hne hmem hoff htail, Option.ite_none_right_eq_some,
    Option.map_eq_some_iff]
  constructor
  · rintro ⟨hall, parts, hparts, h⟩
    cases h
    exact ⟨⟨rfl, hne, hall, hparts⟩, rfl⟩
  · rintro ⟨⟨rfl, -, hall, hparts⟩, rfl⟩
    exact ⟨hall, dev.parts, hparts, rfl⟩

theorem partsParse_semicolon {board : Board} {id : MtdIds} (fuel offset : Nat) (p : List UInt8) :
    partsParse board id fuel (59 :: p) offset = none := by
  cases fuel with
  | zero => rfl
  | succ fuel => rfl

theorem nandEntries_of_first (hne : es ≠ []) (h : firstEntries es = []) : nandEntries es ≠ [] := by
  intro hn
  have hsplit : firstEntries es ++ nandEntries es = es := List.takeWhile_append_dropWhile
  rw [h, hn] at hsplit
  exact hne hsplit.symm

/-- The second device of the text. -/
theorem devicesParse_nand {dev : MtdDevice} (fuel : Nat) (devices : List MtdDevice) (hid : dev.id = s.boot) (hne : nandEntries es ≠ [])
    (hmem : ∀ e ∈ nandEntries es, 41 ∉ e.2) (hoff : ∀ e ∈ nandEntries es, partOffset s.flashes e.1 < 2 ^ 32 - 1) :
    devicesParse s.board (fuel + 1) (nandName s.flashes ++ 58 :: entriesText s.flashes (nandEntries es)) [dev] =
        some devices ↔
      ∃ id dev', s.nandId = some id ∧ (id.type, id.num) ≠ (s.boot.type, s.boot.num) ∧
        ParsedTo s id (nandEntries es) dev' ∧ devices = [dev, dev'] := by
  have hcolon := (nandName_colon s.flashes).1
  have hkey : dev.key = (s.boot.type, s.boot.num) := by rw [MtdDevice.key, hid]
  have hfind : ∀ key, deviceFind [dev] key = if (s.boot.type, s.boot.num) = key then some dev else none := by
    intro key
    rw [deviceFind, List.find?_cons, hkey]
    by_cases heq : (s.boot.type, s.boot.num) = key
    · simp [heq]
    · rw [if_neg heq, beq_eq_false_iff_ne.mpr heq]
      rfl
  constructor
  · intro h
    obtain ⟨⟨dev', rest⟩, hdev, h⟩ := Option.bind_eq_some_iff.mp h
    have hfound := deviceParse_found hcolon hdev
    obtain ⟨hnew, h⟩ := Option.ite_none_left_eq_some.mp h
    have hother : (s.boot.type, s.boot.num) ≠ dev'.key := by
      intro heq
      rw [hfind, if_pos heq] at hnew
      exact hnew rfl
    have hfree : deviceFind [dev] (dev'.id.type, dev'.id.num) = none := (hfind _).trans (if_neg hother)
    have hparse := deviceParse_parsedTo dev' [] rest hcolon hfound hfree hne hmem hoff (by simp)
    rw [List.append_nil] at hparse
    obtain ⟨hto, rfl⟩ := hparse.mp hdev
    cases h
    exact ⟨dev'.id, dev', hfound, Ne.symm hother, hto, rfl⟩
  · rintro ⟨id, dev', hfound, hother, hto, rfl⟩
    have hfree : deviceFind [dev] (id.type, id.num) = none := (hfind _).trans (if_neg (Ne.symm hother))
    have hparse := (deviceParse_parsedTo dev' [] [] hcolon hfound hfree hne hmem hoff (by simp)).mpr ⟨hto, rfl⟩
    rw [List.append_nil] at hparse
    have hkey' : dev'.key = (id.type, id.num) := by rw [MtdDevice.key, hto.1]
    rw [devicesParse, hparse, Option.bind_some]
    dsimp only
    rw [hkey', hfree]
    rfl

/-- What the text of the table is parsed to. -/
theorem devicesParse_table {fuel : Nat} (hne : es ≠ []) (hmem : ∀ e ∈ es, 41 ∉ e.2)
    (hoff : ∀ e ∈ es, partOffset s.flashes e.1 < 2 ^ 32 - 1) :
    devicesParse s.board (fuel + 2) (tableText s es) [] = some devices ↔ TableParsed s es devices := by
  have hfirst : ∀ e ∈ firstEntries es, e ∈ es := fun e he => (List.takeWhile_sublist _).mem he
  have hlast : ∀ e ∈ nandEntries es, e ∈ es := fun e he => (List.dropWhile_sublist _).mem he
  have hfree : deviceFind [] (s.boot.type, s.boot.num) = none := rfl
  by_cases hf : firstEntries es = []
  · -- the first device has no partitions
    have hn := nandEntries_of_first hne hf
    have hparse : deviceParse s.board [] (tableText s es) = none := by
      rw [tableText, deviceParse_id s.colon s.found hfree, hf, if_neg hn]
      exact congrArg (Option.bind · _) (partsParse_semicolon _ _ _)
    rw [devicesParse, hparse]
    constructor
    · intro h
      cases h
    · rintro ⟨dev, hto, -⟩
      exact absurd hf hto.2.1
  have hparse := fun dev rest (tail : List UInt8) (htail : ∀ c ∈ tail.head?, c = 59) =>
    deviceParse_parsedTo dev tail rest s.colon s.found hfree hf
      (fun e he => hmem e (hfirst e he)) (fun e he => hoff e (hfirst e he)) htail
  rw [tableText]
  by_cases hn : nandEntries es = []
  · rw [if_pos hn]
    constructor
    · intro h
      obtain ⟨⟨dev, rest⟩, hdev, h⟩ := Option.bind_eq_some_iff.mp h
      obtain ⟨hto, rfl⟩ := (hparse dev rest [] (by simp)).mp hdev
      cases h
      exact ⟨dev, hto, Or.inl ⟨hn, rfl⟩⟩
    · rintro ⟨dev, hto, ⟨-, rfl⟩ | ⟨id, dev', -, -, hto', -⟩⟩
      · rw [devicesParse, (hparse dev [] [] (by simp)).mpr ⟨hto, rfl⟩]
        rfl
      · exact absurd hn hto'.2.1
  · rw [if_neg hn]
    have htail : ∀ c ∈ (59 :: nandName s.flashes ++ 58 :: entriesText s.flashes (nandEntries es)).head?, c = 59 := by
      simp
    have hrest : ∀ dev, ParsedTo s s.boot (firstEntries es) dev →
        devicesParse s.board (fuel + 2) (s.boot.mtdId ++ 58 :: (entriesText s.flashes (firstEntries es) ++
          (59 :: nandName s.flashes ++ 58 :: entriesText s.flashes (nandEntries es)))) [] =
        devicesParse s.board (fuel + 1) (nandName s.flashes ++ 58 :: entriesText s.flashes (nandEntries es)) [dev] := by
      intro dev hto
      rw [devicesParse, (hparse dev _ _ htail).mpr ⟨hto, rfl⟩, Option.bind_some]
      rfl
    have hsecond := fun (dev : MtdDevice) (hid : dev.id = s.boot) => devicesParse_nand fuel devices hid hn
      (fun e he => hmem e (hlast e he)) (fun e he => hoff e (hlast e he))
    constructor
    · intro h
      obtain ⟨⟨dev, rest⟩, hdev, -⟩ := Option.bind_eq_some_iff.mp h
      obtain ⟨hto, -⟩ := (hparse dev rest _ htail).mp hdev
      rw [hrest dev hto] at h
      exact ⟨dev, hto, Or.inr ((hsecond dev hto.1).mp h)⟩
    · rintro ⟨dev, hto, ⟨hnil, -⟩ | h⟩
      · exact absurd hnil hn
      · rw [hrest dev hto]
        exact (hsecond dev hto.1).mpr h

/-! ## Names -/

theorem entries_fst (beyond : List UInt8) (n : Nat) (parts : List SmemPtn) :
    (entries beyond n parts).map Prod.fst = parts.take n := by
  induction n generalizing parts with
  | zero => rfl
  | succ n ih =>
      cases parts with
      | nil => rfl
      | cons p parts => rw [entries, List.map_cons, ih, List.take_succ_cons]

theorem cname_length (p : SmemPtn) : p.cname.length ≤ 16 := by
  rw [← p.name_length]
  exact (List.takeWhile_sublist _).length_le

/-- A printed name that is not too long is the name of the entry. -/
theorem entries_name (he : e ∈ entries beyond n parts) (hlen : e.2.length ≤ 16) : e.2 = e.1.cname := by
  induction n generalizing parts with
  | zero => cases he
  | succ n ih =>
      cases parts with
      | nil => cases he
      | cons p parts =>
          rcases List.mem_cons.mp he with rfl | he
          swap
          · exact ih he
          obtain ⟨tail, htail⟩ : ∃ tail, printedName (p :: parts) beyond = cstr (p.name ++ tail) :=
            ⟨_, by rw [printedName, List.flatMap_cons, SmemPtn.bytes]; simp only [List.append_assoc]; rfl⟩
          by_cases hnul : 0 ∈ p.name
          · obtain ⟨front, back, hsplit⟩ := List.append_of_mem hnul
            have hname : cstr (p.name ++ tail) = cstr p.name := by
              rw [hsplit, List.append_assoc, List.cons_append, cstr_append_nul, cstr_append_nul]
            exact htail.trans hname
          · have hall : ∀ x ∈ p.name, x ≠ 0 := fun x hx hz => hnul (hz ▸ hx)
            have hname : cstr (p.name ++ tail) = p.name ++ cstr tail := cstr_append hall tail
            have hself : p.cname = p.name := by
              have := cstr_append hall []
              simpa [SmemPtn.cname, cstr] using this
            simp only [htail, hname, List.length_append, p.name_length] at hlen
            have hnil : cstr tail = [] := List.length_eq_zero_iff.mp (by omega)
            change printedName (p :: parts) beyond = p.cname
            rw [htail, hname, hnil, List.append_nil, hself]

/-! ## Brackets -/

theorem entriesText_count (f : Flashes) (es : List Entry) :
    es.length + (es.map fun e => e.2.count 41).sum ≤ (entriesText f es).count 41 := by
  induction es with
  | nil => simp
  | cons e es ih =>
      have hpart : 1 + e.2.count 41 ≤ (partText f e.1 e.2).count 41 := by
        simp only [partText, List.count_append, List.count_cons]
        simp
        omega
      rw [entriesText] at ih ⊢
      rw [List.flatMap_cons, List.count_append, List.length_cons, List.map_cons, List.sum_cons]
      omega

theorem first_append_nand (es : List Entry) : firstEntries es ++ nandEntries es = es :=
  List.takeWhile_append_dropWhile

theorem tableText_count (s : Setup) (es : List Entry) :
    es.length + (es.map fun e => e.2.count 41).sum ≤ (tableText s es).count 41 := by
  have h1 := entriesText_count s.flashes (firstEntries es)
  have h2 := entriesText_count s.flashes (nandEntries es)
  have hlen := congrArg List.length (first_append_nand es)
  have hsum := congrArg (fun l : List Entry => (l.map fun e => e.2.count 41).sum) (first_append_nand es)
  simp only [List.length_append, List.map_append, List.sum_append] at hlen hsum
  rw [tableText, List.count_append, List.count_cons, List.count_append]
  split
  next hn =>
    rw [hn] at hlen hsum
    simp only [List.length_nil, List.map_nil, List.sum_nil] at hlen hsum
    omega
  next =>
    simp only [List.count_append, List.count_cons, List.cons_append]
    omega

theorem rows_length (devices : List MtdDevice) : (rows devices).length = (devices.map (·.parts.length)).sum := by
  simp [rows, List.length_flatMap]

/-! ## From the partitions to the entries -/

theorem rows_cons (dev : MtdDevice) (devices : List MtdDevice) :
    rows (dev :: devices) = dev.parts.map (row dev.id) ++ rows devices := by
  rw [rows, List.flatMap_cons]
  rfl

theorem ParsedTo.perm {id : MtdIds} {dev : MtdDevice} (h : ParsedTo s id es dev) :
    (dev.parts.map (row dev.id)).Perm (es.map fun e => row id (readPart s.flashes e)) := by
  obtain ⟨rfl, -, -, hparts⟩ := h
  have hperm := (sortAddAll_some List.Pairwise.nil List.Pairwise.nil hparts).2.2
  rw [List.append_nil] at hperm
  have hmap := hperm.map (row dev.id)
  rwa [List.map_map] at hmap

section
variable {t : SmemPtable}
  (hperm : ((rows devices).map some).Perm ((es.map Prod.fst).map s.expected))
include hperm

theorem rows_count : (devices.map (·.parts.length)).sum = es.length := by
  have hlen := hperm.length_eq
  rw [List.length_map, List.length_map, List.length_map, rows_length] at hlen
  exact hlen

/-- Each entry has its partition. -/
theorem expected_row (he : e ∈ es) : ∃ dev ∈ devices, ∃ part ∈ dev.parts, s.expected e.1 = some (row dev.id part) := by
  have hmem : s.expected e.1 ∈ (rows devices).map some :=
    hperm.mem_iff.mpr (List.mem_map_of_mem (List.mem_map_of_mem he))
  obtain ⟨r, hr, heq⟩ := List.mem_map.mp hmem
  obtain ⟨dev, hdev, hr⟩ := List.mem_flatMap.mp hr
  obtain ⟨part, hpart, rfl⟩ := List.mem_map.mp hr
  exact ⟨dev, hdev, part, hpart, heq.symm⟩

/-- A partition that was read for an entry is the one that is expected for it. -/
theorem row_expected (hnames : ((es.map Prod.fst).map SmemPtn.cname).Nodup)
    (hlong : ∀ e ∈ es, e.2.length ≤ 16 → e.2 = e.1.cname) {id : MtdIds} (he : e ∈ es)
    (hrow : row id (readPart s.flashes e) ∈ rows devices) :
    e.2 = e.1.cname ∧ s.expected e.1 = some (row id (readPart s.flashes e)) := by
  have hmem := hperm.mem_iff.mp (List.mem_map_of_mem (f := some) hrow)
  obtain ⟨p, hp, heq⟩ := List.mem_map.mp hmem
  have hname : p.cname = e.2 := by
    obtain ⟨id', -, hid⟩ := Option.map_eq_some_iff.mp heq
    exact congrArg Row.name hid
  have hself := hlong e he (by rw [← hname]; exact cname_length p)
  have hsame : p = e.1 :=
    List.inj_on_of_nodup_map hnames hp (List.mem_map_of_mem he) (hname.trans hself)
  rw [hsame] at heq
  exact ⟨hself, heq⟩

end

theorem expected_some {id : MtdIds} (h : s.expected e.1 = some (row id (readPart s.flashes e))) :
    s.named e.1 = some id ∧ s.byteSize e.1 = ((psize s.flashes e.1).toNat % 2 ^ 32 : Nat) := by
  obtain ⟨id', hnamed, hrow⟩ := Option.map_eq_some_iff.mp h
  have hid : id' = id := congrArg Row.id hrow
  exact ⟨by rw [hnamed, hid], congrArg Row.size hrow⟩

theorem EntryOk.of_accepted {id : MtdIds} (hacc : Accepted s.board id s.flashes e) (hmem : 41 ∉ e.2)
    (hname : e.2 = e.1.cname) (hsize : s.byteSize e.1 = ((psize s.flashes e.1).toNat % 2 ^ 32 : Nat)) :
    EntryOk s id e := by
  obtain ⟨⟨hpos, hlarge, hfill, hne⟩, hfits⟩ := hacc
  refine ⟨hname, hne, hmem, ⟨hpos, hsize.symm⟩, ?_, ?_, ?_⟩
  · rw [hsize]
    exact_mod_cast hlarge
  · rw [hsize]
    have hlt : (psize s.flashes e.1).toNat % 2 ^ 32 < 2 ^ 32 := Nat.mod_lt _ (by decide)
    rw [sizeRemaining] at hfill ⊢
    omega
  · rw [hsize]
    exact hfits

theorem EntryOk.accepted {id : MtdIds} (h : EntryOk s id e) : Accepted s.board id s.flashes e := by
  have hprinted := h.printed
  have hlarge := h.large
  have hsmall := h.small
  rw [← hprinted.2] at hlarge hsmall
  refine ⟨⟨hprinted.1, by exact_mod_cast hlarge, ?_, h.named⟩, ?_⟩
  · have hlt : (psize s.flashes e.1).toNat % 2 ^ 32 < sizeRemaining := by exact_mod_cast hsmall
    exact hlt.ne
  · have hfits := h.fits
    rw [← hprinted.2] at hfits
    exact hfits

theorem partFits_offset {board : Board} {id : MtdIds} {offset size : Nat} (h : partFits board id offset size = true) :
    offset < 2 ^ 32 - 1 := by
  have hid := id.size_lt
  simp only [partFits, Bool.and_eq_true, decide_eq_true_eq] at h
  omega

theorem whichFlash_first (he : e ∈ firstEntries es) : e.1.whichFlash = 0 := by
  simpa using List.mem_takeWhile_imp he

/-- The text of a table that is not empty. -/
theorem text_eq (s : Setup) (beyond : List UInt8) (n : Nat) (parts : List SmemPtn) :
    s.mtdid ++ 58 :: partsText s.flashes beyond false n parts =
      mtdpartsText ++ (s.rootfsText ++ tableText s (entries beyond n parts)) := by
  rw [Setup.mtdid, partsText_false, tableText, List.append_assoc, List.append_assoc]

theorem parse_table {fuel : Nat} (hfuel : (mtdpartsText ++ tableText s es).length = fuel) :
    parseMtdparts s.board (mtdpartsText ++ tableText s es) = devicesParse s.board fuel (tableText s es) [] := by
  rw [parseMtdparts, if_pos (List.isPrefixOf_iff_prefix.mpr (List.prefix_append _ _)), hfuel]
  rfl

theorem tableText_fuel (s : Setup) (es : List Entry) : ∃ fuel, (mtdpartsText ++ tableText s es).length = fuel + 2 :=
  ⟨(mtdpartsText ++ tableText s es).length - 2, by simp [mtdpartsText]⟩

/-- The partition of the caller is not in the table. -/
theorem rootfs_of_parsed (hparse : parseMtdparts s.board (mtdpartsText ++ (s.rootfsText ++ tableText s es)) = some devices)
    (hperm : ((rows devices).map some).Perm ((es.map Prod.fst).map s.expected)) : s.rootfs = none := by
  rw [parseMtdparts, if_pos (List.isPrefixOf_iff_prefix.mpr (List.prefix_append _ _))] at hparse
  have hcount := devicesParse_count s.brackets hparse
  have hdrop : (mtdpartsText ++ (s.rootfsText ++ tableText s es)).drop 9 = s.rootfsText ++ tableText s es := rfl
  have htext := tableText_count s es
  rw [rows_count hperm, hdrop, List.count_append] at hcount
  cases hrootfs : s.rootfs with
  | none => rfl
  | some num =>
      have hpos : 0 < s.rootfsText.count 41 := by
        refine List.count_pos_iff.mpr ?_
        rw [Setup.rootfsText, hrootfs]
        exact List.mem_append_right _ (by decide)
      simp only [List.map_nil, List.sum_nil] at hcount
      omega

/-- Partitions that agree come from a table that can be read. -/
theorem TableOk.of_parsed (hne : es ≠ []) (hnames : ((es.map Prod.fst).map SmemPtn.cname).Nodup)
    (hlong : ∀ e ∈ es, e.2.length ≤ 16 → e.2 = e.1.cname)
    (hparse : parseMtdparts s.board (mtdpartsText ++ tableText s es) = some devices)
    (hperm : ((rows devices).map some).Perm ((es.map Prod.fst).map s.expected)) : TableOk s es := by
  obtain ⟨fuel, hfuel⟩ := tableText_fuel s es
  have hok := (parseMtdparts_parsed hparse).1
  rw [parse_table hfuel] at hparse
  -- no bracket is left for a name
  have hmem : ∀ e ∈ es, 41 ∉ e.2 := by
    have hcount := devicesParse_count s.brackets hparse
    have htext := tableText_count s es
    rw [rows_count hperm] at hcount
    have hzero : (es.map fun e => e.2.count 41).sum = 0 := by
      simp only [List.map_nil, List.sum_nil] at hcount
      omega
    intro e he
    rw [List.sum_eq_zero_iff] at hzero
    exact List.count_eq_zero.mp (hzero _ (List.mem_map_of_mem he))
  have hoff : ∀ e ∈ es, partOffset s.flashes e.1 < 2 ^ 32 - 1 := by
    intro e he
    obtain ⟨dev, hdev, part, hpart, hexp⟩ := expected_row hperm he
    obtain ⟨id, -, hrow⟩ := Option.map_eq_some_iff.mp hexp
    have hoffset : partOffset s.flashes e.1 = part.offset := congrArg Row.offset hrow
    rw [hoffset]
    exact partFits_offset ((hok dev hdev).parts part hpart).fits
  obtain ⟨dev, hto, hrest⟩ := (devicesParse_table hne hmem hoff).mp hparse
  have hsplit := first_append_nand es
  have hfirst : ∀ e ∈ firstEntries es, e ∈ es := fun e he => by rw [← hsplit]; exact List.mem_append_left _ he
  have hlast : ∀ e ∈ nandEntries es, e ∈ es := fun e he => by rw [← hsplit]; exact List.mem_append_right _ he
  -- the entries of one device
  have hentry : ∀ id dev' l, dev' ∈ devices → ParsedTo s id l dev' → (∀ e ∈ l, e ∈ es) →
      ∀ e ∈ l, s.named e.1 = some id ∧ EntryOk s id e := by
    intro id dev' l hdev' hto' hsub e he
    have hrow : row id (readPart s.flashes e) ∈ rows devices := by
      refine List.mem_flatMap.mpr ⟨dev', hdev', ?_⟩
      exact hto'.perm.mem_iff.mpr (List.mem_map_of_mem (f := fun e => row id (readPart s.flashes e)) he)
    obtain ⟨hname, hexp⟩ := row_expected hperm hnames hlong (hsub e he) hrow
    obtain ⟨hnamed, hsize⟩ := expected_some hexp
    exact ⟨hnamed, EntryOk.of_accepted (hto'.2.2.1 e he) (hmem e (hsub e he)) hname hsize⟩
  have hzero : ∀ id l dev', ParsedTo s id l dev' → l.countP (fun e => partOffset s.flashes e.1 = 0) ≤ 1 := by
    intro id l dev' hto'
    have hcount := sortAddAll_count hto'.2.2.2
    rw [List.countP_map] at hcount
    exact hcount
  rcases hrest with ⟨hnil, rfl⟩ | ⟨id, dev', hid, hother, hto', rfl⟩
  · refine ⟨hto.2.1, by simp [hnil], fun e he => (hentry _ _ _ (by simp) hto hfirst e he).2, hzero _ _ _ hto, ?_⟩
    exact fun h => absurd hnil h
  · have hnand := hentry id dev' _ (by simp) hto' hlast
    refine ⟨hto.2.1, ?_, fun e he => (hentry _ _ _ (by simp) hto hfirst e he).2, hzero _ _ _ hto, fun _ => ?_⟩
    · intro e he
      have hnamed := (hnand e he).1
      unfold Setup.named at hnamed
      split at hnamed
      next =>
        cases hnamed
        exact absurd rfl hother
      next =>
        split at hnamed
        next h1 => exact h1
        next => cases hnamed
    · exact ⟨id, hid, hother, fun e he => (hnand e he).2, hzero _ _ _ hto'⟩

/-- The entries of one device are parsed to what is expected. -/
theorem ParsedTo.of_ok {id : MtdIds} (hne : es ≠ []) (hnamed : ∀ e ∈ es, s.named e.1 = some id)
    (hok : ∀ e ∈ es, EntryOk s id e) (hzero : es.countP (fun e => partOffset s.flashes e.1 = 0) ≤ 1) :
    ∃ dev, ParsedTo s id es dev ∧
      ((dev.parts.map (row dev.id)).map some).Perm ((es.map Prod.fst).map s.expected) := by
  have hcount : (es.map (readPart s.flashes) ++ []).countP (fun part : PartInfo => part.offset = 0) ≤ 1 := by
    rw [List.append_nil, List.countP_map]
    exact hzero
  obtain ⟨parts, hparts⟩ := sortAddAll_of_count hcount
  have hto : ParsedTo s id es ⟨id, parts⟩ := ⟨rfl, hne, fun e he => (hok e he).accepted, hparts⟩
  have hexp : (es.map fun e => row id (readPart s.flashes e)).map some = (es.map Prod.fst).map s.expected := by
    rw [List.map_map, List.map_map]
    refine List.map_congr_left fun e he => ?_
    have hprinted := (hok e he).printed.2
    simp only [Function.comp_apply, Setup.expected, hnamed e he, Option.map_some, row, readPart, hprinted,
      (hok e he).terminated]
  exact ⟨_, hto, (hto.perm.map some).trans (List.Perm.of_eq hexp)⟩

theorem TableOk.entry (h : TableOk s es) (he : e ∈ es) : ∃ id, EntryOk s id e := by
  rw [← first_append_nand es] at he
  rcases List.mem_append.mp he with he | he
  · exact ⟨_, h.boot e he⟩
  · obtain ⟨id, -, -, hok, -⟩ := h.nand (List.ne_nil_of_mem he)
    exact ⟨id, hok e he⟩

/-- A table that can be read gives partitions that agree. -/
theorem TableOk.parsed (h : TableOk s es) : ∃ devices,
    parseMtdparts s.board (mtdpartsText ++ tableText s es) = some devices ∧
      ((rows devices).map some).Perm ((es.map Prod.fst).map s.expected) := by
  have hsplit := first_append_nand es
  obtain ⟨fuel, hfuel⟩ := tableText_fuel s es
  have hne : es ≠ [] := by
    rintro rfl
    exact h.first rfl
  have hmem : ∀ e ∈ es, 41 ∉ e.2 := fun e he => (h.entry he).choose_spec.bracket
  have hoff : ∀ e ∈ es, partOffset s.flashes e.1 < 2 ^ 32 - 1 :=
    fun e he => partFits_offset (h.entry he).choose_spec.fits
  have hbootNamed : ∀ e ∈ firstEntries es, s.named e.1 = some s.boot := by
    intro e he
    rw [Setup.named, if_pos (whichFlash_first he)]
  obtain ⟨dev, hdev, hboot⟩ := ParsedTo.of_ok h.first hbootNamed h.boot h.bootZero
  rw [parse_table hfuel]
  by_cases hn : nandEntries es = []
  · refine ⟨[dev], (devicesParse_table hne hmem hoff).mpr ⟨dev, hdev, Or.inl ⟨hn, rfl⟩⟩, ?_⟩
    have hes : firstEntries es = es := by rw [hn, List.append_nil] at hsplit; exact hsplit
    rw [rows_cons, rows, List.flatMap_nil, List.append_nil, ← hes]
    rw [hes] at hboot ⊢
    exact hboot
  · obtain ⟨id, hid, hother, hok, hzero⟩ := h.nand hn
    have hnandNamed : ∀ e ∈ nandEntries es, s.named e.1 = some id := by
      intro e he
      have h1 := h.order e he
      rw [Setup.named, if_neg (by omega), if_pos h1, hid]
    obtain ⟨dev', hdev', hnand⟩ := ParsedTo.of_ok hn hnandNamed hok hzero
    refine ⟨[dev, dev'], (devicesParse_table hne hmem hoff).mpr
      ⟨dev, hdev, Or.inr ⟨id, dev', hid, hother, hdev', rfl⟩⟩, ?_⟩
    rw [rows_cons, rows_cons, rows, List.flatMap_nil, List.append_nil, List.map_append]
    have hexp : (es.map Prod.fst).map s.expected = ((firstEntries es).map Prod.fst).map s.expected ++
        ((nandEntries es).map Prod.fst).map s.expected := by
      rw [← List.map_append, ← List.map_append, hsplit]
    rw [hexp]
    exact hboot.append hnand

/-! ## The length of the text -/

theorem numeral_length {base m k : Nat} (hbase : 1 < base) (hk : 0 < k) (h : m < base ^ k) :
    (numeral base m).length ≤ k := by
  rw [numeral, List.length_map]
  exact (Nat.length_toDigits_le_iff hbase hk).mpr h

theorem loff_bounds (m : Nat) : (loff m).natAbs ≤ 2 ^ 63 := by
  unfold loff
  have hlt : m % 2 ^ 64 < 2 ^ 64 := Nat.mod_lt _ (by decide)
  split <;> omega

theorem lld_length {i : Int} (h : i.natAbs ≤ 2 ^ 63) : (lld i).length ≤ 20 := by
  have hnum : (numeral 10 i.natAbs).length ≤ 19 := numeral_length (by decide) (by decide) (by omega)
  unfold lld
  split
  next => rw [List.length_cons]; omega
  next => omega

theorem sizeText_length {i : Int} (h : i.natAbs ≤ 2 ^ 63) : (sizeText i).length ≤ 22 := by
  unfold sizeText
  split
  next =>
    have hlen := lld_length (i := i / 2 ^ 20) (by omega)
    rw [List.length_append]
    exact Nat.add_le_add_right hlen 2
  next =>
    split
    next =>
      have hlen := lld_length (i := i / 2 ^ 10) (by omega)
      rw [List.length_append]
      exact Nat.add_le_add_right hlen 2
    next =>
      have hlen := lld_length h
      rw [List.length_append, List.length_singleton]
      omega

theorem partText_length (f : Flashes) (p : SmemPtn) {name : List UInt8} (h : name.length ≤ 16) :
    (partText f p name).length ≤ 59 := by
  have hsize : (sizeText (psize f p)).length ≤ 22 := by
    apply sizeText_length
    unfold psize
    split <;> exact loff_bounds _
  have hoffset : (numeral 16 (partOffset f p)).length ≤ 16 := by
    apply numeral_length (by decide) (by decide)
    have hblock : getPartBlockSize f p < 2 ^ 32 := by
      unfold getPartBlockSize
      split
      next => exact (f.nandInfo f.spiNandAvailable).erasesize_lt
      next => exact f.flashBlockSize_lt
    exact (Nat.mul_lt_mul'' p.start_lt hblock).trans_le (by norm_num)
  simp only [partText, List.length_append, List.length_cons, List.length_nil]
  omega

theorem entriesText_length (f : Flashes) (h : ∀ e ∈ es, e.2.length ≤ 16) :
    (entriesText f es).length ≤ 59 * es.length := by
  induction es with
  | nil => simp [entriesText]
  | cons e es ih =>
      have hpart := partText_length f e.1 (h e (by simp))
      have hrest := ih fun x hx => h x (List.mem_cons_of_mem _ hx)
      rw [entriesText] at hrest ⊢
      rw [List.flatMap_cons, List.length_append, List.length_cons]
      omega

theorem tableText_length (s : Setup) (h : ∀ e ∈ es, e.2.length ≤ 16) (hlen : es.length ≤ 32) :
    (mtdpartsText ++ tableText s es).length < 4096 := by
  have hsplit := first_append_nand es
  have hsum := congrArg List.length hsplit
  rw [List.length_append] at hsum
  have h1 := entriesText_length s.flashes fun e he => h e (by rw [← hsplit]; exact List.mem_append_left _ he)
  have h2 := entriesText_length s.flashes fun e he => h e (by rw [← hsplit]; exact List.mem_append_right _ he)
  have hshort := s.short
  have hnand : (nandName s.flashes).length ≤ 5 := by
    unfold nandName deviceId
    split <;> decide
  have htext : mtdpartsText.length = 9 := rfl
  simp only [tableText, List.length_append, List.length_cons, htext]
  split
  next => rw [List.length_nil]; omega
  next =>
    simp only [List.length_append, List.length_cons]
    omega

end

/-- When the partitions of the text are those of the table, whether or not `smem_ptable_init` accepts it. -/
theorem smem_mtdparts_agree_iff (s : Setup) (t : SmemPtable) (beyond : List UInt8) (hlen : t.len ≤ 32)
    (hnames : ((t.parts.take t.len).map SmemPtn.cname).Nodup) :
    Agrees s t beyond ↔ t.len = 0 ∨ (s.rootfs = none ∧ TableOk s (entries beyond t.len t.parts)) := by
  rcases Nat.eq_zero_or_pos t.len with hzero | hpos
  · refine ⟨fun _ => Or.inl hzero, fun _ => ?_⟩
    rw [Agrees, qcaSmemPartToMtdparts, if_pos hzero]
    trivial
  have hfst := entries_fst beyond t.len t.parts
  have hcount : (entries beyond t.len t.parts).length = t.len := by
    rw [← List.length_map Prod.fst, hfst, List.length_take, t.parts_length]
    omega
  have hne : entries beyond t.len t.parts ≠ [] := by
    intro hnil
    rw [hnil, List.length_nil] at hcount
    omega
  have htext := text_eq s beyond t.len t.parts
  constructor
  · intro h
    refine Or.inr ?_
    rw [Agrees, qcaSmemPartToMtdparts, if_neg (by omega), htext] at h
    split at h
    next heq =>
      split at heq <;> cases heq
    next => exact h.elim
    next text heq =>
      split at heq
      next => cases heq
      next =>
        cases heq
        obtain ⟨devices, hparse, hperm⟩ := h
        rw [← hfst] at hperm hnames
        have hroot := rootfs_of_parsed hparse hperm
        rw [Setup.rootfsText, hroot, List.nil_append] at hparse
        exact ⟨hroot, TableOk.of_parsed hne hnames (fun e he => entries_name he) hparse hperm⟩
  · rintro (hzero | ⟨hroot, h⟩)
    · omega
    obtain ⟨devices, hparse, hperm⟩ := h.parsed
    have hshort : ∀ e ∈ entries beyond t.len t.parts, e.2.length ≤ 16 := by
      intro e he
      obtain ⟨id, hok⟩ := h.entry he
      rw [hok.terminated]
      exact cname_length _
    have hfits := tableText_length s hshort (by omega)
    have hfront : s.rootfsText = [] := by rw [Setup.rootfsText, hroot]
    rw [Agrees, qcaSmemPartToMtdparts, if_neg (by omega), htext, hfront, List.nil_append, if_neg (by omega)]
    rw [hfst] at hperm
    exact ⟨devices, hparse, hperm⟩

theorem sectorSize_lt : 2 ^ 16 < 2 ^ 32 := by decide

theorem eraseBlockSize_lt : 2 ^ 17 < 2 ^ 32 := by decide

/-- NOR flash of 16 MiB and NAND flash of 128 MiB. -/
def sampleSetup : Setup where
  board :=
    { mtdids := [⟨.nand, 0, 2 ^ 27, ascii "nand0", by decide⟩, ⟨.nand, 2, 2 ^ 24, ascii "spi0.0", by decide⟩]
      mtdTable := fun type num =>
        if type = .nand ∧ num = 0 then some ⟨2 ^ 17, []⟩ else if type = .nand ∧ num = 2 then some ⟨2 ^ 16, []⟩ else none }
  flashes :=
    { flashBlockSize := 2 ^ 16
      spiNandAvailable := 0
      nandEnvDevice := 2
      nandInfo := fun i =>
        if i = 2 then ⟨2 ^ 24, 2 ^ 16, by decide, sectorSize_lt⟩ else ⟨2 ^ 27, 2 ^ 17, by decide, eraseBlockSize_lt⟩
      flashBlockSize_lt := sectorSize_lt }
  boot := ⟨.nand, 2, 2 ^ 24, ascii "spi0.0", by decide⟩
  rootfs := none
  found := by decide
  colon := by decide
  brackets := by decide
  short := by decide

def sblPtn : SmemPtn :=
  ⟨ascii "SBL" ++ List.replicate 13 0, 0, 4, 0, by decide, emptyPtn.start_lt, by decide, emptyPtn.attr_lt⟩

def ubiPtn : SmemPtn :=
  ⟨ascii "ubi" ++ List.replicate 13 0, 2, 512, 0x01000000, by decide, by decide, by decide, nandAttr_lt⟩

theorem artPtn_start_lt : 16 < 2 ^ 32 := by decide

def artPtn : SmemPtn :=
  ⟨ascii "ART" ++ List.replicate 13 0, 16, 2, 0, by decide, artPtn_start_lt, by decide, emptyPtn.attr_lt⟩

def samplePtable (first second third : SmemPtn) : SmemPtable :=
  ⟨(0x55ee73aa, 0xe35ebddb), 4, 3, first :: second :: third :: List.replicate 29 emptyPtn, by simp⟩

theorem samplePtable_init (first second third : SmemPtn) :
    smemPtableInit ⟨1, 912, samplePtable first second third⟩ = some (samplePtable first second third) := by
  simp [smemPtableInit, readAllocEntry, samplePtable]

theorem smem_mtdparts_agree_sample : Agrees sampleSetup (samplePtable sblPtn artPtn ubiPtn) [] := by
  refine (smem_mtdparts_agree_iff sampleSetup (samplePtable sblPtn artPtn ubiPtn) [] (by decide) (by decide)).mpr
    (Or.inr ⟨rfl, ?_⟩)
  refine ⟨by decide, by decide, by decide, by decide, fun _ => ?_⟩
  exact ⟨⟨.nand, 0, 2 ^ 27, ascii "nand0", by decide⟩, by decide, by decide, by decide, by decide⟩

/-- The header is not switched back: the last entry is on NOR flash and its partition on `nand0`. -/
theorem nor_after_nand_disagrees :
    smemPtableInit ⟨1, 912, samplePtable sblPtn ubiPtn artPtn⟩ = some (samplePtable sblPtn ubiPtn artPtn) ∧
      ((samplePtable sblPtn ubiPtn artPtn).parts.take 3 |>.map SmemPtn.cname).Nodup ∧
        ¬ Agrees sampleSetup (samplePtable sblPtn ubiPtn artPtn) [] := by
  refine ⟨samplePtable_init _ _ _, by decide, ?_⟩
  have htext : qcaSmemPartToMtdparts sampleSetup.flashes (samplePtable sblPtn ubiPtn artPtn) [] sampleSetup.mtdid =
      .text (ascii "mtdparts=spi0.0:256K@0x0(SBL),;nand0:64M@0x40000(ubi),128K@0x100000(ART),") := by
    decide
  have hparse : (parseMtdparts sampleSetup.board
      (ascii "mtdparts=spi0.0:256K@0x0(SBL),;nand0:64M@0x40000(ubi),128K@0x100000(ART),")).map (fun devices =>
        (rows devices).map fun r => (r.id.mtdId, r.name)) =
      some [(ascii "spi0.0", ascii "SBL"), (ascii "nand0", ascii "ubi"), (ascii "nand0", ascii "ART")] := by
    decide
  rw [Agrees, htext]
  rintro ⟨devices, hdevices, hperm⟩
  rw [hdevices, Option.map_some, Option.some_inj] at hparse
  have hart : sampleSetup.expected artPtn ∈ (rows devices).map some :=
    hperm.mem_iff.mpr (List.mem_map_of_mem (by simp [samplePtable]))
  obtain ⟨r, hr, hexp⟩ := List.mem_map.mp hart
  have hnamed : (sampleSetup.expected artPtn).map (fun r => (r.id.mtdId, r.name)) =
      some (ascii "spi0.0", ascii "ART") := by
    decide
  rw [← hexp, Option.map_some, Option.some_inj] at hnamed
  have hrow : (ascii "spi0.0", ascii "ART") ∈ (rows devices).map fun r => (r.id.mtdId, r.name) :=
    List.mem_map.mpr ⟨r, hr, hnamed⟩
  rw [hparse] at hrow
  revert hrow
  decide

end Uboot.Smem
