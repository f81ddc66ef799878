import Uboot.Lib.Bytes
import Uboot.Lmb.Alloc

/-!
# `bootm`

What `do_bootm` does with a FIT image that has an uncompressed kernel, a ramdisk and a device tree, once `bootm_start` has
found them: `bootm_load_os` (`common/cmd_bootm.c`), `create_fdt` (`arch/arm/lib/bootm.c`), `boot_ramdisk_high` and
`boot_relocate_fdt` (`common/image.c`). Addresses have 32 bits. The code of `libfdt` that changes a tree is a parameter.
-/

namespace Uboot.Bootm

open Lib Lmb

/-! ## Device trees -/

/-- `fdt32_to_cpu` of a word in memory -/
def fdt32 (m : Mem) (p : Nat) : Nat :=
  2 ^ 24 * (m p).toNat + 2 ^ 16 * (m (p + 1)).toNat + 2 ^ 8 * (m (p + 2)).toNat + (m (p + 3)).toNat

/-- `fdt64_to_cpu` of two words in memory -/
def fdt64 (m : Mem) (p : Nat) : Nat := 2 ^ 32 * fdt32 m p + fdt32 m (p + 4)

/-- `cpu_to_fdt32` -/
def cpuToFdt32 (n : Nat) : List UInt8 :=
  [.ofNat (n / 2 ^ 24), .ofNat (n / 2 ^ 16), .ofNat (n / 2 ^ 8), .ofNat n]

/-- `fdt_check_header` returns 0. The words are `magic`, `version`, `last_comp_version` and `size_dt_struct`. -/
def FdtCheckHeader (m : Mem) (fdt : Nat) : Prop :=
  if fdt32 m fdt = 0xd00dfeed then 0x10 ≤ fdt32 m (fdt + 20) ∧ fdt32 m (fdt + 24) ≤ 0x11
  else fdt32 m fdt = 0x2ff20112 ∧ fdt32 m (fdt + 36) ≠ 0

instance (m : Mem) (fdt : Nat) : Decidable (FdtCheckHeader m fdt) := by
  unfold FdtCheckHeader
  infer_instance

/-- `_fdt_mem_rsv` -/
def fdtMemRsv (m : Mem) (fdt n : Nat) : Range :=
  let p := fdt + fdt32 m (fdt + 16) + 16 * n
  ⟨fdt64 m p, fdt64 m (p + 8)⟩

/-- The reservations that `fdt_num_mem_rsv` counts, from `i` on; a size of 0 ends them. -/
def memRsvs (m : Mem) (fdt : Nat) : Nat → Nat → List Range
  | 0, _ => []
  | n + 1, i => if (fdtMemRsv m fdt i).size = 0 then [] else fdtMemRsv m fdt i :: memRsvs m fdt n (i + 1)

/-- All reservations of a tree. No more fit into the memory. -/
def fdtMemRsvs (m : Mem) (fdt : Nat) : List Range := if FdtCheckHeader m fdt then memRsvs m fdt (2 ^ 28) 0 else []

/-- `lmb_reserve` of each range, whose results are ignored. -/
def reserveAll (lmb : LmbState) (ranges : List Range) : LmbState :=
  ranges.foldl (fun lmb r => (lmbReserve lmb (r.base % wordSize) (r.size % wordSize)).2) lmb

/-- `boot_fdt_add_mem_rsv_regions` -/
def bootFdtAddMemRsvRegions (m : Mem) (fdt : Nat) (lmb : LmbState) : LmbState := reserveAll lmb (fdtMemRsvs m fdt)

/-- `fdt_open_into` and the calls that follow it in `create_fdt`, from `fdt_chosen` to `ft_board_setup`. They change
nothing but the buffer. -/
structure Libfdt where
  openInto : Mem → Nat → Nat → Nat → Option Mem
  fixup : Mem → Nat → Nat → Nat → Nat → Mem
  openInto_frame : ∀ {m m' fdt buf size}, openInto m fdt buf size = some m' →
    ∀ a, a < buf ∨ buf + size ≤ a → m' a = m a
  fixup_frame : ∀ {m tree size initrdStart initrdEnd}, ∀ a, a < tree ∨ tree + size ≤ a →
    fixup m tree size initrdStart initrdEnd a = m a

/-! ## The inputs -/

/-- What is read of the environment: `initrd_high` and `fdt_high`, and the results of `getenv_bootm_low`,
`getenv_bootm_size` and `getenv_bootm_mapsize`. -/
structure Env where
  initrdHigh : Option Nat
  fdtHigh : Option Nat
  bootmLow : Nat
  bootmSize : Nat
  bootmMapsize : Nat

/-- `bootm_headers_t` after `bootm_start` -/
structure Images where
  osStart : Nat
  osEnd : Nat
  osImageStart : Nat
  osImageLen : Nat
  osLoad : Nat
  rdStart : Nat
  rdEnd : Nat
  ftAddr : Nat
  ftLen : Nat
  lmb : LmbState

/-- All ones -/
def allOnes : Nat := 2 ^ 32 - 1

/-- `arch_lmb_reserve`, with the stack pointer and the end of the memory -/
def archLmbReserve (sp dramEnd : Nat) (lmb : LmbState) : LmbState :=
  let sp := sub32 sp 1024
  (lmbReserve lmb sp (sub32 dramEnd sp)).2

/-- `boot_start_lmb` -/
def bootStartLmb (env : Env) (sp dramEnd : Nat) (lmb : LmbState) : LmbState :=
  archLmbReserve sp dramEnd (lmbAdd (lmbInit lmb) env.bootmLow env.bootmSize).2

/-! ## The kernel -/

/-- `memmove` -/
def memmove (m : Mem) (to_ from_ len : Nat) : Mem := m.write to_ (m.read from_ len)

/-- The kernel stays where it is. -/
def Xip (images : Images) : Prop := images.osLoad = images.osStart ∨ images.osLoad = images.osImageStart

instance (images : Images) : Decidable (Xip images) := inferInstanceAs (Decidable (_ ∨ _))

/-- The memory after `bootm_load_os` -/
def loadOs (images : Images) (m : Mem) : Mem :=
  if Xip images then m else memmove m images.osLoad images.osImageStart images.osImageLen

/-- `*load_end` -/
def loadEnd (images : Images) : Nat := add32 images.osLoad images.osImageLen

/-- `bootm_load_os` returns `BOOTM_ERR_OVERLAP`. -/
def Overlap (images : Images) : Prop :=
  ¬ Xip images ∧ images.osLoad < images.osEnd ∧ loadEnd images > images.osStart

instance (images : Images) : Decidable (Overlap images) := inferInstanceAs (Decidable (_ ∧ _ ∧ _))

/-! ## The ramdisk -/

structure Ramdisk where
  initrdStart : Nat
  initrdEnd : Nat
  lmb : LmbState
  mem : Mem

/-- The bound for the ramdisk; 0 means that there is none. -/
def initrdMax (env : Env) : Nat := env.initrdHigh.getD allOnes

/-- `boot_ramdisk_high`, or nothing when it fails -/
def bootRamdiskHigh (env : Env) (rdData rdLen : Nat) (lmb : LmbState) (m : Mem) : Option Ramdisk :=
  if rdData = 0 then some ⟨0, 0, lmb, m⟩
  else if env.initrdHigh = some allOnes then
    some ⟨rdData, add32 rdData rdLen, (lmbReserve lmb rdData rdLen).2, m⟩
  else
    let r := if initrdMax env ≠ 0 then lmbAllocBase lmb rdLen 0x1000 (initrdMax env) else lmbAlloc lmb rdLen 0x1000
    if r.1 = 0 then none else some ⟨r.1, add32 r.1 rdLen, r.2, memmove m r.1 rdData rdLen⟩

/-! ## The tree -/

/-- The tree after `boot_relocate_fdt`, and the bytes that were at its old place before. -/
structure Tree where
  addr : Nat
  len : Nat
  mem : Mem
  source : List UInt8

/-- `CONFIG_SYS_FDT_PAD` -/
def fdtPad : Nat := 0x3000

/-- The place for the tree, when it is moved. -/
def fdtPlace (env : Env) (len : Nat) (lmb : LmbState) : Nat :=
  match env.fdtHigh with
  | some desiredAddr =>
      if desiredAddr ≠ 0 then (lmbAllocBase lmb len 0x1000 desiredAddr).1 else (lmbAlloc lmb len 0x1000).1
  | none => (lmbAllocBase lmb len 0x1000 (add32 env.bootmMapsize env.bootmLow)).1

/-- `boot_relocate_fdt`, or nothing when it fails. The calls of `lmb` after it are none. -/
def bootRelocateFdt (libfdt : Libfdt) (env : Env) (ftAddr ofSize : Nat) (lmb : LmbState) (m : Mem) : Option Tree :=
  let source := m.read ftAddr ofSize
  if ofSize = 0 then some ⟨ftAddr, ofSize, m, source⟩
  else if ¬ FdtCheckHeader m ftAddr then none
  else
    let ofLen := add32 ofSize fdtPad
    if env.fdtHigh = some allOnes then some ⟨ftAddr, ofLen, m.write (ftAddr + 4) (cpuToFdt32 ofLen), source⟩
    else
      let ofStart := fdtPlace env ofLen lmb
      if ofStart = 0 then none
      else (libfdt.openInto m ftAddr ofStart ofLen).map fun m => ⟨ofStart, ofLen, m, source⟩

/-! ## The whole -/

/-- What the kernel gets, and the bytes that its tree was made from. -/
structure Handover where
  mem : Mem
  initrdStart : Nat
  initrdEnd : Nat
  ftAddr : Nat
  ftLen : Nat
  ftSource : List UInt8

/-- `create_fdt` -/
def createFdt (libfdt : Libfdt) (env : Env) (images : Images) (lmb : LmbState) (m : Mem) : Option Handover :=
  let lmb := bootFdtAddMemRsvRegions m images.ftAddr lmb
  match bootRamdiskHigh env images.rdStart (sub32 images.rdEnd images.rdStart) lmb m with
  | none => none
  | some rd =>
      match bootRelocateFdt libfdt env images.ftAddr images.ftLen rd.lmb rd.mem with
      | none => none
      | some tree =>
          some
            { mem := libfdt.fixup tree.mem tree.addr tree.len rd.initrdStart rd.initrdEnd
              initrdStart := rd.initrdStart
              initrdEnd := rd.initrdEnd
              ftAddr := tree.addr
              ftLen := tree.len
              ftSource := tree.source }

/-- `do_bootm` from `bootm_load_os` to the jump, or nothing when it does not get there: an image that is overwritten makes
it reset the board, and a failure of `create_fdt` makes it hang. -/
def doBootm (libfdt : Libfdt) (env : Env) (images : Images) (m : Mem) : Option Handover :=
  if Overlap images then none
  else
    let lmb := (lmbReserve images.lmb images.osLoad (sub32 (loadEnd images) images.osLoad)).2
    createFdt libfdt env images lmb (loadOs images m)

end Uboot.Bootm
