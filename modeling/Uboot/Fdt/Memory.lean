import Uboot.Fdt.Nodes
import Uboot.Lib.BigEndian
import Uboot.Lib.Chunks
import Uboot.Lib.Strings

/-!
# The memory banks in the device tree

`fdt_fixup_memory_banks` of `common/fdt_support.c`, for a blob with a good header.
-/

namespace Uboot.Fdt

open Lib (ascii pages pages_of_flatten)
open Lib.FlatTree
open Lib.BigEndian (value encode encode_length value_encode_of_lt)

def addressCells : Bytes := ascii "#address-cells"
def sizeCells : Bytes := ascii "#size-cells"
def deviceType : Bytes := ascii "device_type"
def regKey : Bytes := ascii "reg"
def memoryName : Bytes := ascii "memory"
def memoryType : Bytes := ascii "memory" ++ [0]

/-- `fdt_getprop` of the root, and `fdt32_to_cpu` of what it points to -/
def getCellsLen (blob : Blob) (nrCellsName : Bytes) : Nat :=
  match fdtGetprop blob 0 nrCellsName with
  | none => 4
  | some (cell, _) => if value ((bytesAt blob cell).take 4) = 2 then 8 else 4

def writeCell : Nat → UInt64 → Bytes
  | 0, _ => []
  | size + 1, val => UInt8.ofNat ((val.toNat >>> (size * 8)) &&& 0xff) :: writeCell size val

/-- `tmp`, up to `len` -/
def writeBanks (addrCellLen sizeCellLen : Nat) : List (UInt64 × UInt64) → Bytes
  | [] => []
  | bank :: banks => writeCell addrCellLen bank.1 ++ (writeCell sizeCellLen bank.2 ++ writeBanks addrCellLen sizeCellLen banks)

/-- What it returns, and the blob then -/
def fdtFixupMemoryBanks (fits : Blob → Bool) (blob : Blob) (banks : List (UInt64 × UInt64)) : Int × Blob :=
  match fdtSubnodeOffset blob 0 memoryName with
  | .error _ =>
    match fdtAddSubnode fits blob 0 memoryName with
    | .error e => (e, blob)
    | .ok (nodeoffset, blob) => (nodeoffset, blob)
  | .ok nodeoffset =>
    match fdtSetprop fits blob nodeoffset deviceType memoryType with
    | .error e => (e, blob)
    | .ok blob =>
      match fdtSetprop fits blob nodeoffset regKey (writeBanks (getCellsLen blob addressCells) (getCellsLen blob sizeCells) banks) with
      | .error e => (e, blob)
      | .ok blob => (0, blob)

/-! ## What the kernel is told -/

def propValue (blob : Blob) (off : Nat) (key : Bytes) : Option Bytes := (fdtGetprop blob off key).map fun p => bytesAt blob p.1

def decodeReg (addrLen sizeLen : Nat) (reg : Bytes) : List (Nat × Nat) :=
  (pages (addrLen + sizeLen) reg).map fun p => (value (p.take addrLen), value (p.drop addrLen))

/-- The memory node, its type, and the banks that its `reg` stands for -/
def Told (blob : Blob) (banks : List (Nat × Nat)) : Prop :=
  ∃ off a s reg, fdtSubnodeOffset blob 0 memoryName = .ok off ∧ propValue blob off deviceType = some memoryType ∧
    propValue blob 0 addressCells = some (encode 4 a) ∧ propValue blob 0 sizeCells = some (encode 4 s) ∧
    propValue blob off regKey = some reg ∧ (a + s) * 4 ∣ reg.length ∧ decodeReg (a * 4) (s * 4) reg = banks

/-- A root with one or two cells -/
def Cells (props : Props) (key : Bytes) (n : Nat) : Prop := lookup key props = some (encode 4 n) ∧ (n = 1 ∨ n = 2)

/-- A bank fits its cells. -/
def FitsCells (a s : Nat) (bank : UInt64 × UInt64) : Prop := bank.1.toNat < 256 ^ (a * 4) ∧ bank.2.toNat < 256 ^ (s * 4)

def isMemory (c : Node) : Bool := nodenameEq c.name memoryName

/-! ## Cells -/

theorem writeCell_eq (size : Nat) (val : UInt64) : writeCell size val = encode size val.toNat := by
  induction size with
  | zero => rfl
  | succ size ih =>
      have hpow : 2 ^ (size * 8) = 256 ^ size := by rw [Nat.mul_comm, Nat.pow_mul]
      have hand : ∀ k : Nat, UInt8.ofNat (k &&& 0xff) = UInt8.ofNat k := fun k => by
        rw [show (0xff : Nat) = 2 ^ 8 - 1 from rfl, Nat.and_two_pow_sub_one_eq_mod]
        exact UInt8.toNat_inj.mp (by simp)
      rw [writeCell, encode, ih, Nat.shiftRight_eq_div_pow, hpow, hand]

section
variable {a s : Nat} {banks : List (UInt64 × UInt64)}

theorem writeBanks_eq : writeBanks a s banks = (banks.map fun b => encode a b.1.toNat ++ encode s b.2.toNat).flatten := by
  induction banks with
  | nil => rfl
  | cons b bs ih => rw [writeBanks, writeCell_eq, writeCell_eq, ih, List.map_cons, List.flatten_cons, List.append_assoc]

theorem writeBanks_length : (writeBanks a s banks).length = banks.length * (a + s) := by
  induction banks with
  | nil => rw [writeBanks, List.length_nil, List.length_nil, Nat.zero_mul]
  | cons b bs ih =>
      rw [writeBanks, writeCell_eq, writeCell_eq, List.length_append, List.length_append, encode_length, encode_length, ih,
        List.length_cons, Nat.add_mul]
      omega

theorem decodeReg_writeBanks (hpos : 0 < a + s) (hfit : ∀ b ∈ banks, b.1.toNat < 256 ^ a ∧ b.2.toNat < 256 ^ s) :
    decodeReg a s (writeBanks a s banks) = banks.map fun b => (b.1.toNat, b.2.toNat) := by
  have hpieces : ∀ p ∈ banks.map fun b => encode a b.1.toNat ++ encode s b.2.toNat, p.length = a + s := by
    intro p hp
    obtain ⟨b, -, rfl⟩ := List.mem_map.mp hp
    rw [List.length_append, encode_length, encode_length]
  rw [decodeReg, writeBanks_eq, pages_of_flatten hpos hpieces, List.map_map]
  refine List.map_congr_left fun b hb => ?_
  have htake : (encode a b.1.toNat ++ encode s b.2.toNat).take a = encode a b.1.toNat := List.take_left' (encode_length _ _)
  have hdrop : (encode a b.1.toNat ++ encode s b.2.toNat).drop a = encode s b.2.toNat := List.drop_left' (encode_length _ _)
  rw [Function.comp_apply, htake, hdrop, value_encode_of_lt (hfit b hb).1, value_encode_of_lt (hfit b hb).2]

end

/-! ## A property of a node -/

section
variable {name key val : Bytes} {props : Props} {children before after : List Node} {pre post blob : Blob} {c : Node} {fits : Blob → Bool}

theorem propValue_node : propValue (pre ++ ((Rose.node name props children).flatten ++ post)) pre.length key = lookup key props := by
  rw [propValue]
  cases h : lookup key props with
  | none => rw [getprop_none h, Option.map_none]
  | some val =>
      obtain ⟨p, hp, hval⟩ := @getprop_some _ _ _ children name pre post h
      rw [hp, Option.map_some, flatten_split, hval]

theorem propValue_root : propValue (Rose.node name props children).flatten 0 key = lookup key props := by
  have h := @propValue_node name key props children [] []
  rwa [List.append_nil] at h

theorem getCellsLen_eq : getCellsLen blob key = match propValue blob 0 key with
    | none => 4
    | some cell => if value (cell.take 4) = 2 then 8 else 4 := by
  rw [getCellsLen, propValue]
  cases fdtGetprop blob 0 key <;> rfl

/-- The length is that of the cells. -/
theorem getCellsLen_root {n : Nat} (h : Cells props key n) : getCellsLen (Rose.node name props children).flatten key = n * 4 := by
  rw [getCellsLen_eq, propValue_root, h.1]
  dsimp only
  rw [List.take_of_length_le (encode_length 4 n).le, value_encode_of_lt (by rcases h.2 with rfl | rfl <;> decide)]
  rcases h.2 with rfl | rfl <;> rfl

/-! ## A node that is there -/

/-- Where the first memory node begins -/
theorem memory_offset (hfirst : ∀ d ∈ before, isMemory d = false) (hc : isMemory c = true) :
    fdtSubnodeOffset (Rose.node name props (before ++ c :: after)).flatten 0 memoryName =
      .ok (.openNode name :: (propToks props ++ flattenAll before) : Blob).length := by
  have hroot := @subnodeOffset_first props name [] [] memoryName before after c hfirst hc
  rwa [List.append_nil] at hroot

theorem memory_offset_none (hnone : ∀ d ∈ children, isMemory d = false) :
    fdtSubnodeOffset (Rose.node name props children).flatten 0 memoryName = .error errNotFound := by
  have hroot := @subnodeOffset_none props children name [] [] memoryName hnone
  rwa [List.append_nil] at hroot

theorem setprop_child {cname : Bytes} {cprops : Props} {cs : List Node} :
    fdtSetprop fits (Rose.node name props (before ++ .node cname cprops cs :: after)).flatten
      (.openNode name :: (propToks props ++ flattenAll before) : Blob).length key val =
      splice fits (Rose.node name props (before ++ .node cname (setKey key val cprops) cs :: after)).flatten := by
  rw [root_flatten, root_flatten, setprop_node]

theorem propValue_child {cname : Bytes} {cprops : Props} {cs : List Node} :
    propValue (Rose.node name props (before ++ .node cname cprops cs :: after)).flatten
      (.openNode name :: (propToks props ++ flattenAll before) : Blob).length key = lookup key cprops := by
  rw [root_flatten, propValue_node]

theorem splice_ok {blob' : Blob} (h : splice fits blob = .ok blob') : blob' = blob := by
  rw [splice] at h
  split at h
  · exact (Except.ok.inj h).symm
  · cases h

theorem splice_error {e : Int} (h : splice fits blob = .error e) : ¬ 0 ≤ e := by
  rw [splice] at h
  split at h
  · cases h
  · rw [← Except.error.inj h]
    decide

variable {a s : Nat} {banks : List (UInt64 × UInt64)}

/-- With a memory node the banks end up in it, or an error is returned. -/
theorem fixup_found (hfirst : ∀ d ∈ before, isMemory d = false) (hc : isMemory c = true) (ha : Cells props addressCells a)
    (hs : Cells props sizeCells s) (hfit : ∀ b ∈ banks, FitsCells a s b)
    (hret : 0 ≤ (fdtFixupMemoryBanks fits (Rose.node name props (before ++ c :: after)).flatten banks).1) :
    Told (fdtFixupMemoryBanks fits (Rose.node name props (before ++ c :: after)).flatten banks).2
      (banks.map fun b => (b.1.toNat, b.2.toNat)) := by
  obtain ⟨cname, cprops, cs⟩ := c
  have hpos : 0 < a * 4 + s * 4 := by
    rcases ha.2 with rfl | rfl <;> omega
  rw [fdtFixupMemoryBanks, memory_offset hfirst hc] at hret ⊢
  dsimp only at hret ⊢
  rw [setprop_child] at hret ⊢
  cases htype : splice fits (Rose.node name props (before ++ .node cname (setKey deviceType memoryType cprops) cs :: after)).flatten with
  | error e =>
      rw [htype] at hret
      exact absurd hret (splice_error htype)
  | ok blob =>
      obtain rfl := splice_ok htype
      rw [htype] at hret
      dsimp only at hret ⊢
      rw [getCellsLen_root ha, getCellsLen_root hs, setprop_child] at hret ⊢
      cases hreg : splice fits (Rose.node name props (before ++ .node cname (setKey regKey (writeBanks (a * 4) (s * 4) banks)
          (setKey deviceType memoryType cprops)) cs :: after)).flatten with
      | error e =>
          rw [hreg] at hret
          exact absurd hret (splice_error hreg)
      | ok blob =>
          obtain rfl := splice_ok hreg
          refine ⟨_, a, s, writeBanks (a * 4) (s * 4) banks, memory_offset hfirst hc, ?_, ?_, ?_, ?_, ?_, decodeReg_writeBanks hpos hfit⟩
          · rw [propValue_child, lookup_setKey_other (by decide), lookup_setKey_self]
          · rw [propValue_root, ha.1]
          · rw [propValue_root, hs.1]
          · rw [propValue_child, lookup_setKey_self]
          · rw [writeBanks_length, ← Nat.add_mul]
            exact Dvd.intro_left _ rfl

/-! ## A node that is not there -/

/-- The tree with an empty memory node -/
def addMemory : Node → Node
  | .node name props children => .node name props (.node memoryName [] [] :: children)

theorem fixup_new (hnone : ∀ d ∈ children, isMemory d = false) :
    fdtFixupMemoryBanks fits (Rose.node name props children).flatten banks =
      if fits (addMemory (.node name props children)).flatten then (((1 + props.length : Nat) : Int), (addMemory (.node name props children)).flatten)
      else (errNoSpace, (Rose.node name props children).flatten) := by
  have hadd : fdtAddSubnode fits (Rose.node name props children).flatten 0 memoryName =
      (splice fits (addMemory (.node name props children)).flatten).map fun blob => (1 + props.length, blob) := by
    have h := @addSubnode_node props children name memoryName [] [] fits hnone
    rwa [List.append_nil, List.append_nil, List.nil_append, List.nil_append, List.length_nil, Nat.zero_add] at h
  rw [fdtFixupMemoryBanks, memory_offset_none hnone]
  dsimp only
  rw [hadd, splice]
  cases fits (addMemory (.node name props children)).flatten <;> rfl

/-- The new node has no type. -/
theorem not_told_new : ¬ Told (addMemory (.node name props children)).flatten (banks.map fun b => (b.1.toNat, b.2.toNat)) := by
  rintro ⟨off, a, s, reg, hoff, htype, -⟩
  have hmemory : isMemory (.node memoryName [] []) = true := by decide
  have hnew := @memory_offset name props [] children (.node memoryName [] []) (fun _ h => absurd h List.not_mem_nil) hmemory
  rw [List.nil_append] at hnew
  rw [addMemory, hnew] at hoff
  obtain rfl := Except.ok.inj hoff
  have hval := @propValue_child name deviceType props [] children memoryName [] []
  rw [List.nil_append] at hval
  rw [addMemory, hval] at htype
  cases htype

/-- The kernel is told the banks just when there is a memory node, unless there is no room for one. -/
theorem memory_told_iff {root : Node} (ha : Cells root.props addressCells a) (hs : Cells root.props sizeCells s)
    (hfit : ∀ b ∈ banks, FitsCells a s b) :
    (0 ≤ (fdtFixupMemoryBanks fits root.flatten banks).1 →
      Told (fdtFixupMemoryBanks fits root.flatten banks).2 (banks.map fun b => (b.1.toNat, b.2.toNat))) ↔
    (∃ c ∈ root.children, isMemory c = true) ∨ fits (addMemory root).flatten = false := by
  obtain ⟨name, props, children⟩ := root
  cases hfind : children.find? isMemory with
  | some c =>
      obtain ⟨hc, before, after, rfl, hbefore⟩ := List.find?_eq_some_iff_append.mp hfind
      have hfirst : ∀ d ∈ before, isMemory d = false := fun d hd => by simpa using hbefore d hd
      exact iff_of_true (fixup_found hfirst hc ha hs hfit) (Or.inl ⟨c, by simp [Rose.children], hc⟩)
  | none =>
      have hnone : ∀ d ∈ children, isMemory d = false := fun d hd => Bool.eq_false_of_not_eq_true (List.find?_eq_none.mp hfind d hd)
      rw [fixup_new hnone]
      cases hfits : fits (addMemory (.node name props children)).flatten with
      | true =>
          refine iff_of_false (fun h => not_told_new (h (Int.natCast_nonneg _))) ?_
          rintro (⟨d, hd, hmem⟩ | hno)
          · exact Bool.false_ne_true ((hnone d hd).symm.trans hmem)
          · cases hno
      | false =>
          have herr : ¬ 0 ≤ errNoSpace := by decide
          exact iff_of_true (fun h => absurd h herr) (Or.inr rfl)

end

/-- One address cell and one size cell -/
def sampleRoot (children : List Node) : Node := .node [] [(addressCells, encode 4 1), (sizeCells, encode 4 1)] children

theorem sample_cells (children : List Node) : Cells (sampleRoot children).props addressCells 1 ∧ Cells (sampleRoot children).props sizeCells 1 :=
  ⟨⟨rfl, Or.inl rfl⟩, ⟨by rw [sampleRoot, Rose.props, lookup, if_neg (by decide), lookup, if_pos rfl], Or.inl rfl⟩⟩

/-- 256 MiB at 0x80000000 -/
def sampleBanks : List (UInt64 × UInt64) := [(0x80000000, 0x10000000)]

theorem sample_fits : ∀ b ∈ sampleBanks, FitsCells 1 1 b := by
  intro b hb
  obtain rfl := List.mem_singleton.mp hb
  exact ⟨by decide, by decide⟩

theorem memory_told_sample :
    Told (fdtFixupMemoryBanks (fun _ => true) (sampleRoot [.node memoryName [] []]).flatten sampleBanks).2 [(0x80000000, 0x10000000)] :=
  have hcells := sample_cells [.node memoryName [] []]
  (memory_told_iff hcells.1 hcells.2 sample_fits).mpr (Or.inl ⟨_, List.mem_singleton_self _, by decide⟩) (by decide)

/-- Without a memory node there is an empty one afterwards. -/
theorem memory_not_told : ¬ ∀ (fits : Blob → Bool) (root : Node) (a s : Nat) (banks : List (UInt64 × UInt64)),
    Cells root.props addressCells a → Cells root.props sizeCells s → (∀ b ∈ banks, FitsCells a s b) →
      0 ≤ (fdtFixupMemoryBanks fits root.flatten banks).1 →
        Told (fdtFixupMemoryBanks fits root.flatten banks).2 (banks.map fun b => (b.1.toNat, b.2.toNat)) := by
  intro h
  have hcells := sample_cells []
  have hnone : ∀ d ∈ ([] : List Node), isMemory d = false := fun _ hd => absurd hd List.not_mem_nil
  have hret : 0 ≤ (fdtFixupMemoryBanks (fun _ => true) (sampleRoot []).flatten sampleBanks).1 := by decide
  have htold := h (fun _ => true) (sampleRoot []) 1 1 sampleBanks hcells.1 hcells.2 sample_fits hret
  rw [sampleRoot, fixup_new hnone, if_pos rfl] at htold
  exact not_told_new htold

end Uboot.Fdt
