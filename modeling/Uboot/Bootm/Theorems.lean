import Uboot.Bootm.Basic
import Uboot.Lmb.Table

/-!
# What the kernel gets

The kernel, the ramdisk and the tree are kept apart by the table of `lmb`, in which the image itself is not reserved. So the
kernel is wrong when it is taken to be in place at the beginning of the image, and the tree when the ramdisk is put on its
source. The table may also lose a range, when one that it is given wraps or overlaps others.
-/

namespace Uboot.Bootm

open Lib Lmb

/-! ## Reserved ranges -/

/-- Regions that do not wrap cover the range, so that no place on it is clear. -/
def Guards (rgn : LmbRegion) (r : Range) : Prop :=
  ∀ a ∈ r.addrs, ∃ i < rgn.cnt, a ∈ (rgn.region i).addrs ∧ (rgn.region i).stop < wordSize

/-- A place that is taken is off the range: the table still has the range, or it happens to be. -/
def Spares (rgn : LmbRegion) (r : Range) (b len : Nat) : Prop :=
  Guards rgn r ∧ b + len < wordSize ∨ Disjoint r.addrs (Range.addrs ⟨b, len⟩)

/-- Ranges that may overlap, but do not wrap. One that ends where another begins has no third that begins inside it. -/
structure Tidy (ranges : List Range) : Prop where
  size_pos : ∀ r ∈ ranges, 0 < r.size
  stop_lt : ∀ r ∈ ranges, r.stop < wordSize
  inside : ∀ r ∈ ranges, ∀ s ∈ ranges, ∀ t ∈ ranges, r.stop = s.base → ¬ (r.base < t.base ∧ t.base < r.stop)

section
variable {rgn : LmbRegion} {lmb : LmbState} {r : Range} {b len : Nat} {ranges all : List Range}

theorem disjoint_of_clear (hg : Guards rgn r) (hclear : rgn.Clear b len) (hb : b + len < wordSize) :
    Disjoint r.addrs (Range.addrs ⟨b, len⟩) := by
  rw [Set.disjoint_left]
  intro a ha hab
  obtain ⟨i, hi, hai, hstop⟩ := hg a ha
  have hoff := hclear i hi
  rw [lmbAddrsOverlap_iff hstop hb] at hoff
  simp only [Range.mem_addrs, Range.stop] at hai hab hoff
  omega

theorem Spares.disjoint (h : Spares rgn r b len) (hclear : rgn.Clear b len) : Disjoint r.addrs (Range.addrs ⟨b, len⟩) := by
  rcases h with ⟨hg, hb⟩ | hd
  · exact disjoint_of_clear hg hclear hb
  · exact hd

theorem guards_of_subset (hstop : ∀ i < rgn.cnt, (rgn.region i).stop < wordSize) (h : r.addrs ⊆ rgn.addrs) :
    Guards rgn r := by
  intro a ha
  obtain ⟨i, hi, hai⟩ := h ha
  exact ⟨i, hi, hai, hstop i hi⟩

theorem reserveAll_memory (lmb : LmbState) (ranges : List Range) : (reserveAll lmb ranges).memory = lmb.memory := by
  induction ranges generalizing lmb with
  | nil => rfl
  | cons r ranges ih => exact ih _

theorem cnt_pos_of_mem {a : Nat} (ha : a ∈ rgn.addrs) : 0 < rgn.cnt := by
  obtain ⟨i, hi, -⟩ := ha
  omega

/-- A table in order, with regions that begin where ranges of the list do. -/
structure FromList (rgn : LmbRegion) (all : List Range) : Prop where
  rising : rgn.Rising
  cnt_pos : 0 < rgn.cnt
  bases : ∀ i < rgn.cnt, ∃ r ∈ all, (rgn.region i).base = r.base

theorem FromList.reserve (h : FromList lmb.reserved all) (ht : Tidy all) (hr : r ∈ all) :
    FromList (lmbReserve lmb r.base r.size).2.reserved all ∧
      lmb.reserved.addrs ⊆ (lmbReserve lmb r.base r.size).2.reserved.addrs ∧
      ((lmbReserve lmb r.base r.size).1 ≠ -1 → r.addrs ⊆ (lmbReserve lmb r.base r.size).2.reserved.addrs) := by
  have hstop := ht.stop_lt r hr
  obtain ⟨hrising, hbases⟩ := h.rising.add h.cnt_pos (ht.size_pos r hr) hstop (by
    intro k hk j hj hend
    obtain ⟨s, hs, hks⟩ := h.bases k hk
    obtain ⟨t, ht', hjt⟩ := h.bases j hj
    rw [hjt]
    exact ht.inside r hr s hs t ht' (hend.trans hks))
  obtain ⟨hkept, hnew, -⟩ := h.rising.add_covers (x := r) h.cnt_pos hstop
  refine ⟨⟨hrising, ?_, fun i hi => ?_⟩, hkept, hnew⟩
  · have hmem : (lmb.reserved.region 0).base ∈ lmb.reserved.addrs :=
      ⟨0, h.cnt_pos, Range.mem_addrs.mpr ⟨le_rfl, by have := h.rising.size_pos 0 h.cnt_pos; omega⟩⟩
    exact cnt_pos_of_mem (hkept hmem)
  · rcases hbases i hi with heq | ⟨j, hj, heq⟩
    · exact ⟨r, hr, heq⟩
    · obtain ⟨s, hs, hjs⟩ := h.bases j hj
      exact ⟨s, hs, heq.trans hjs⟩

/-- Nothing gets lost when tidy ranges are reserved. -/
theorem FromList.reserveAll (h : FromList lmb.reserved all) (ht : Tidy all) (hsub : ∀ r ∈ ranges, r ∈ all) :
    FromList (reserveAll lmb ranges).reserved all ∧ lmb.reserved.addrs ⊆ (reserveAll lmb ranges).reserved.addrs := by
  induction ranges generalizing lmb with
  | nil => exact ⟨h, subset_rfl⟩
  | cons r ranges ih =>
    have hr := hsub r List.mem_cons_self
    have hstop := ht.stop_lt r hr
    simp only [Range.stop] at hstop
    have hstep : Bootm.reserveAll lmb (r :: ranges) = Bootm.reserveAll (lmbReserve lmb r.base r.size).2 ranges := by
      rw [Bootm.reserveAll, List.foldl_cons, Nat.mod_eq_of_lt (by omega), Nat.mod_eq_of_lt (by omega)]
      rfl
    obtain ⟨hfrom, hkept, -⟩ := h.reserve ht hr
    obtain ⟨hfrom', hkept'⟩ := ih hfrom fun s hs => hsub s (List.mem_cons_of_mem _ hs)
    rw [hstep]
    exact ⟨hfrom', hkept.trans hkept'⟩

end

/-! ## The placement -/

/-- The memory of U-Boot, from below its stack on. -/
def stackRange (sp dramEnd : Nat) : Range := ⟨sub32 sp 1024, sub32 dramEnd (sub32 sp 1024)⟩

def kernelRange (images : Images) : Range := ⟨images.osLoad, images.osImageLen⟩

/-- The bound for the tree; 0 means that there is none. -/
def fdtMax (env : Env) : Nat := env.fdtHigh.getD (add32 env.bootmMapsize env.bootmLow)

/-- The size of the buffer for the tree. -/
def treeLen (fdt : List UInt8) : Nat := add32 fdt.length fdtPad

/-- The image is in memory. The tree is in it, or at a load address of its own. -/
structure Placed (env : Env) (sp dramEnd : Nat) (images : Images) (m : Mem) (kernel ramdisk fdt : List UInt8) :
    Prop where
  lmb : ∃ lmb, images.lmb = bootStartLmb env sp dramEnd lmb
  kernel_at : m.Holds images.osImageStart kernel
  kernel_len : images.osImageLen = kernel.length
  kernel_pos : 0 < kernel.length
  kernel_in : images.osStart ≤ images.osImageStart ∧ images.osImageStart + kernel.length ≤ images.osEnd
  kernel_end : images.osLoad + kernel.length < wordSize
  ramdisk_at : m.Holds images.rdStart ramdisk
  ramdisk_len : images.rdEnd = images.rdStart + ramdisk.length
  ramdisk_pos : 0 < images.rdStart
  ramdisk_in : images.osStart ≤ images.rdStart ∧ images.rdEnd ≤ images.osEnd
  fdt_at : m.Holds images.ftAddr fdt
  fdt_len : images.ftLen = fdt.length
  fdt_pos : 0 < fdt.length
  osEnd_lt : images.osEnd < wordSize
  initrdHigh : env.initrdHigh ≠ some allOnes
  fdtHigh : env.fdtHigh ≠ some allOnes

/-- What is reserved when the place for the ramdisk is chosen. -/
def lmbBefore (images : Images) (m : Mem) : LmbState :=
  bootFdtAddMemRsvRegions (loadOs images m) images.ftAddr
    (lmbReserve images.lmb images.osLoad (sub32 (loadEnd images) images.osLoad)).2

/-- What is reserved when the place for the tree is chosen, with the ramdisk at `b`. -/
def lmbAfter (images : Images) (m : Mem) (len b : Nat) : LmbState :=
  (lmbReserve (lmbBefore images m) b (lmbAlignUp len 0x1000)).2

/-- The places that are taken for the ramdisk and then for the tree do not wrap and are off the kernel and each other, and
the ramdisk leaves the source of the tree as it is. -/
def PlacesSpare (env : Env) (images : Images) (m : Mem) (ramdisk fdt : List UInt8) : Prop :=
  ∀ b, Taken (lmbBefore images m) ramdisk.length 12 (initrdMax env) b →
    b + ramdisk.length < wordSize ∧ Spares (lmbBefore images m).reserved (kernelRange images) b ramdisk.length ∧
      ((loadOs images m).write b ramdisk).Holds images.ftAddr fdt ∧
      ∀ t, Taken (lmbAfter images m ramdisk.length b) (treeLen fdt) 12 (fdtMax env) t →
        t + treeLen fdt ≤ wordSize ∧
          Spares (lmbAfter images m ramdisk.length b).reserved (kernelRange images) t (treeLen fdt) ∧
          Spares (lmbAfter images m ramdisk.length b).reserved ⟨b, ramdisk.length⟩ t (treeLen fdt)

section
variable {env : Env} {sp dramEnd : Nat} {images : Images} {m : Mem} {kernel ramdisk fdt : List UInt8}

theorem bootStartLmb_memory (env : Env) (sp dramEnd : Nat) (lmb : LmbState) :
    (bootStartLmb env sp dramEnd lmb).memory.cnt = 1 ∧
      (bootStartLmb env sp dramEnd lmb).memory.region 0 = ⟨env.bootmLow, env.bootmSize⟩ := by
  simp [bootStartLmb, archLmbReserve, lmbReserve, lmbAdd, lmbInit, lmbAddRegion, LmbRegion.set]

theorem bootStartLmb_reserved (env : Env) (sp dramEnd : Nat) (lmb : LmbState) :
    (bootStartLmb env sp dramEnd lmb).reserved.cnt = 1 ∧
      (bootStartLmb env sp dramEnd lmb).reserved.region 0 = stackRange sp dramEnd := by
  simp [bootStartLmb, archLmbReserve, lmbReserve, lmbAdd, lmbInit, lmbAddRegion, LmbRegion.set, stackRange]

theorem loadEnd_eq (hp : Placed env sp dramEnd images m kernel ramdisk fdt) :
    loadEnd images = images.osLoad + images.osImageLen :=
  add32_eq (by rw [hp.kernel_len]; exact hp.kernel_end)

theorem lmbBefore_eq (hp : Placed env sp dramEnd images m kernel ramdisk fdt) :
    lmbBefore images m = reserveAll (lmbReserve images.lmb (kernelRange images).base (kernelRange images).size).2
      (fdtMemRsvs (loadOs images m) images.ftAddr) := by
  have hend := hp.kernel_end
  rw [← hp.kernel_len] at hend
  have hlen : sub32 (loadEnd images) images.osLoad = images.osImageLen := by
    rw [loadEnd_eq hp, sub32_eq (by omega) hend, Nat.add_sub_cancel_left]
  rw [lmbBefore, hlen, bootFdtAddMemRsvRegions]
  rfl

theorem lmbBefore_memory (hp : Placed env sp dramEnd images m kernel ramdisk fdt) :
    (lmbBefore images m).memory.cnt = 1 ∧ (lmbBefore images m).memory.region 0 = ⟨env.bootmLow, env.bootmSize⟩ := by
  obtain ⟨lmb, hlmb⟩ := hp.lmb
  have hmem := bootStartLmb_memory env sp dramEnd lmb
  rw [← hlmb] at hmem
  rw [lmbBefore_eq hp, reserveAll_memory]
  exact hmem

theorem fdtPlace_eq (env : Env) (len : Nat) (lmb : LmbState) :
    fdtPlace env len lmb = (lmbAllocBase lmb len 0x1000 (fdtMax env)).1 := by
  unfold fdtPlace fdtMax
  cases env.fdtHigh with
  | none => rfl
  | some desiredAddr =>
    simp only [Option.getD_some]
    split
    next => rfl
    next h =>
      rw [show desiredAddr = 0 by omega]
      rfl

/-! ## The memory -/

theorem loadOs_eq (hp : Placed env sp dramEnd images m kernel ramdisk fdt) :
    loadOs images m = if Xip images then m else m.write images.osLoad kernel := by
  rw [loadOs, memmove, hp.kernel_len, show m.read images.osImageStart kernel.length = kernel from hp.kernel_at]

/-- The kernel is in place, unless the beginning of the image is taken for it. -/
theorem kernel_loaded_iff (hp : Placed env sp dramEnd images m kernel ramdisk fdt) :
    (loadOs images m).Holds images.osLoad kernel ↔
      (images.osLoad = images.osStart → m.Holds images.osStart kernel) := by
  rw [loadOs_eq hp]
  by_cases hs : images.osLoad = images.osStart
  · simp [Xip, hs]
  · by_cases hi : images.osLoad = images.osImageStart
    · rw [if_pos (.inr hi), hi]
      exact ⟨fun _ h => absurd (hi.trans h) hs, fun _ => hp.kernel_at⟩
    · simp [Xip, hs, hi, Mem.holds_write]

/-- A kernel that does not overwrite the image leaves the ramdisk alone. -/
theorem ramdisk_kept (hp : Placed env sp dramEnd images m kernel ramdisk fdt)
    (ho : ¬ Overlap images) : (loadOs images m).Holds images.rdStart ramdisk := by
  rw [loadOs_eq hp]
  split
  next => exact hp.ramdisk_at
  next hx =>
    have hend := loadEnd_eq hp
    have hlen := hp.kernel_len
    have hin := hp.ramdisk_in
    have hrd := hp.ramdisk_len
    apply hp.ramdisk_at.write
    by_contra hcon
    exact ho ⟨hx, by omega, by omega⟩

theorem rdLen_eq (hp : Placed env sp dramEnd images m kernel ramdisk fdt) :
    sub32 images.rdEnd images.rdStart = ramdisk.length := by
  have hlen := hp.ramdisk_len
  have hin := hp.ramdisk_in
  have hlt := hp.osEnd_lt
  rw [sub32_eq (by omega) (by omega)]
  omega

theorem bootRamdiskHigh_some {lmb : LmbState} {rd : Ramdisk} {rdLen : Nat} {m : Mem} (hpos : 0 < images.rdStart)
    (hhigh : env.initrdHigh ≠ some allOnes) (h : bootRamdiskHigh env images.rdStart rdLen lmb m = some rd) :
    lmbAllocBase lmb rdLen 0x1000 (initrdMax env) = (rd.initrdStart, rd.lmb) ∧ rd.initrdStart ≠ 0 ∧
      rd.initrdEnd = add32 rd.initrdStart rdLen ∧ rd.mem = memmove m rd.initrdStart images.rdStart rdLen := by
  have halloc : (if initrdMax env ≠ 0 then lmbAllocBase lmb rdLen 0x1000 (initrdMax env)
      else lmbAlloc lmb rdLen 0x1000) = lmbAllocBase lmb rdLen 0x1000 (initrdMax env) := by
    split
    next => rfl
    next h0 =>
      rw [show initrdMax env = 0 by omega]
      rfl
  rw [bootRamdiskHigh, if_neg (by omega), if_neg hhigh] at h
  simp only [halloc] at h
  split at h
  case isTrue => cases h
  case isFalse hne =>
    obtain rfl := Option.some.inj h
    exact ⟨rfl, hne, rfl, rfl⟩

theorem bootRelocateFdt_some {libfdt : Libfdt} {lmb : LmbState} {tree : Tree} {ftAddr ofSize : Nat} {m : Mem}
    (hpos : 0 < ofSize) (hhigh : env.fdtHigh ≠ some allOnes)
    (h : bootRelocateFdt libfdt env ftAddr ofSize lmb m = some tree) :
    tree.source = m.read ftAddr ofSize ∧ tree.len = add32 ofSize fdtPad ∧ tree.addr ≠ 0 ∧
      (lmbAllocBase lmb tree.len 0x1000 (fdtMax env)).1 = tree.addr ∧
      libfdt.openInto m ftAddr tree.addr tree.len = some tree.mem := by
  have hsize : ofSize ≠ 0 := by omega
  simp only [bootRelocateFdt, hsize, hhigh, ↓reduceIte] at h
  split at h
  case isTrue => cases h
  case isFalse =>
    split at h
    case isTrue => cases h
    case isFalse hne =>
      obtain ⟨m', hopen, rfl⟩ := Option.map_eq_some_iff.mp h
      exact ⟨rfl, rfl, hne, (fdtPlace_eq _ _ _).symm, hopen⟩

/-! ## What is handed over -/

/-- The kernel, the ramdisk and the tree are those of the image, each in a place of its own. -/
structure Delivered (images : Images) (kernel ramdisk fdt : List UInt8) (out : Handover) : Prop where
  kernel_at : out.mem.Holds images.osLoad kernel
  ramdisk_at : out.mem.Holds out.initrdStart ramdisk
  initrdEnd : out.initrdEnd = out.initrdStart + ramdisk.length
  source : out.ftSource = fdt
  tree_end : out.ftAddr + out.ftLen ≤ wordSize
  kernel_ramdisk : Disjoint (Range.addrs ⟨images.osLoad, kernel.length⟩) (Range.addrs ⟨out.initrdStart, ramdisk.length⟩)
  kernel_tree : Disjoint (Range.addrs ⟨images.osLoad, kernel.length⟩) (Range.addrs ⟨out.ftAddr, out.ftLen⟩)
  ramdisk_tree : Disjoint (Range.addrs ⟨out.initrdStart, ramdisk.length⟩) (Range.addrs ⟨out.ftAddr, out.ftLen⟩)

/-- The ramdisk and the tree at the places that were taken for them. -/
structure Handed (images : Images) (m : Mem) (ramdisk fdt : List UInt8) (env : Env) (out : Handover) : Prop where
  ramdisk_taken : Taken (lmbBefore images m) ramdisk.length 12 (initrdMax env) out.initrdStart
  reserved : (lmbReserve (lmbBefore images m) out.initrdStart (lmbAlignUp ramdisk.length 0x1000)).1 ≠ -1
  tree_taken : Taken (lmbAfter images m ramdisk.length out.initrdStart) (treeLen fdt) 12 (fdtMax env) out.ftAddr
  initrdEnd : out.initrdEnd = add32 out.initrdStart ramdisk.length
  ftLen : out.ftLen = treeLen fdt
  source : out.ftSource = ((loadOs images m).write out.initrdStart ramdisk).read images.ftAddr fdt.length
  mem : ∀ a ∉ Range.addrs ⟨out.ftAddr, out.ftLen⟩, out.mem a = (loadOs images m).write out.initrdStart ramdisk a

theorem doBootm_handed {libfdt : Libfdt} {out : Handover} (hp : Placed env sp dramEnd images m kernel ramdisk fdt)
    (h : doBootm libfdt env images m = some out) : Handed images m ramdisk fdt env out := by
  rw [doBootm] at h
  split at h
  case isTrue => cases h
  case isFalse ho =>
    simp only [createFdt] at h
    have hbefore : bootFdtAddMemRsvRegions (loadOs images m) images.ftAddr
        (lmbReserve images.lmb images.osLoad (sub32 (loadEnd images) images.osLoad)).2 = lmbBefore images m := rfl
    rw [hbefore, rdLen_eq hp] at h
    cases hrd : bootRamdiskHigh env images.rdStart ramdisk.length (lmbBefore images m) (loadOs images m) with
    | none => simp [hrd] at h
    | some rd =>
      simp only [hrd] at h
      cases htree : bootRelocateFdt libfdt env images.ftAddr images.ftLen rd.lmb rd.mem with
      | none => simp [htree] at h
      | some tree =>
        simp only [htree, Option.some.injEq] at h
        subst h
        have hpage : (0x1000 : Nat) = 2 ^ 12 := rfl
        have hrdlt : ramdisk.length < wordSize := by
          have hlen := hp.ramdisk_len
          have hin := hp.ramdisk_in
          have hlt := hp.osEnd_lt
          omega
        obtain ⟨halloc, hne, hend, hmem⟩ := bootRamdiskHigh_some hp.ramdisk_pos hp.initrdHigh hrd
        rw [hpage] at halloc
        obtain ⟨htaken, hok, hlmb⟩ := lmbAllocBase_spec (by omega) (lmbBefore_memory hp).1 hrdlt halloc hne
        have hafter : rd.lmb = lmbAfter images m ramdisk.length rd.initrdStart := hlmb
        have hftLen : 0 < images.ftLen := by rw [hp.fdt_len]; exact hp.fdt_pos
        obtain ⟨hsource, hlen, htne, hfdt, hopen⟩ := bootRelocateFdt_some hftLen hp.fdtHigh htree
        rw [hp.fdt_len] at hlen
        have htree' : lmbAllocBase rd.lmb (treeLen fdt) (2 ^ 12) (fdtMax env) =
            (tree.addr, (lmbAllocBase rd.lmb tree.len 0x1000 (fdtMax env)).2) := by
          rw [← hfdt, hlen]
          rfl
        obtain ⟨ttaken, -, -⟩ := lmbAllocBase_spec (by omega) (hafter ▸ (lmbBefore_memory hp).1)
          (Nat.mod_lt _ (by decide)) htree' htne
        rw [hafter] at ttaken
        rw [memmove, show (loadOs images m).read images.rdStart ramdisk.length = ramdisk from ramdisk_kept hp ho] at hmem
        rw [hp.fdt_len, hmem] at hsource
        refine ⟨htaken, hok, ttaken, hend, hlen, hsource, ?_⟩
        intro a ha
        have hout : a < tree.addr ∨ tree.addr + tree.len ≤ a := by
          rw [Range.mem_addrs] at ha
          simp only at ha
          omega
        simp only
        rw [libfdt.fixup_frame a hout, libfdt.openInto_frame hopen a hout, hmem]

theorem holds_congr {m m' : Mem} {a : Nat} {bs : List UInt8}
    (h : ∀ x ∈ Range.addrs ⟨a, bs.length⟩, m' x = m x) : m'.Holds a bs ↔ m.Holds a bs := by
  have hread : m'.read a bs.length = m.read a bs.length := by
    apply List.map_congr_left
    intro i hi
    exact h _ (Range.mem_addrs.mpr ⟨by simp, by simpa using hi⟩)
  rw [Mem.Holds, Mem.Holds, hread]

/-- A kernel that neither the ramdisk nor the tree is put on. -/
theorem kernel_delivered_iff {out : Handover} (hp : Placed env sp dramEnd images m kernel ramdisk fdt)
    (hh : Handed images m ramdisk fdt env out)
    (hrd : Disjoint (Range.addrs ⟨images.osLoad, kernel.length⟩) (Range.addrs ⟨out.initrdStart, ramdisk.length⟩))
    (htree : Disjoint (Range.addrs ⟨images.osLoad, kernel.length⟩) (Range.addrs ⟨out.ftAddr, out.ftLen⟩)) :
    out.mem.Holds images.osLoad kernel ↔ (images.osLoad = images.osStart → m.Holds images.osStart kernel) := by
  rw [← kernel_loaded_iff hp, holds_congr fun x hx => hh.mem x (Set.disjoint_left.mp htree hx)]
  refine holds_congr fun x hx => ?_
  have hout := Set.disjoint_left.mp hrd hx
  rw [Range.mem_addrs] at hout
  simp only at hout
  rw [Mem.write, if_neg (by omega)]

/-- Nothing that is given to `lmb` wraps, and its table stays in order. -/
structure InReach (env : Env) (sp dramEnd : Nat) (images : Images) (m : Mem) (ramdisk fdt : List UInt8) : Prop where
  memory : env.bootmLow + env.bootmSize + 0x1000 ≤ wordSize
  tidy : Tidy (stackRange sp dramEnd :: kernelRange images :: fdtMemRsvs (loadOs images m) images.ftAddr)
  ramdisk_le : initrdMax env ≠ 0 → env.bootmLow < initrdMax env → ramdisk.length ≤ initrdMax env
  fdt_le : fdtMax env ≠ 0 → env.bootmLow < fdtMax env → treeLen fdt ≤ fdtMax env

theorem fromList_single {rgn : LmbRegion} {all : List Range} {r : Range} (hcnt : rgn.cnt = 1) (hregion : rgn.region 0 = r)
    (ht : Tidy all) (hr : r ∈ all) : FromList rgn all := by
  have hone : ∀ i < rgn.cnt, rgn.region i = r := by
    intro i hi
    rw [show i = 0 by omega, hregion]
  refine ⟨⟨by rw [hcnt]; decide, fun i hi => ?_, fun i hi => ?_, fun i j hij hj => by omega⟩, by omega, fun i hi => ?_⟩
  · rw [hone i hi]
    exact ht.stop_lt r hr
  · rw [hone i hi]
    exact ht.size_pos r hr
  · exact ⟨r, hr, by rw [hone i hi]⟩

/-- The table has the kernel when the ramdisk gets its place. -/
theorem lmbBefore_tidy (hp : Placed env sp dramEnd images m kernel ramdisk fdt)
    (hr : InReach env sp dramEnd images m ramdisk fdt) :
    (lmbBefore images m).reserved.Rising ∧ 0 < (lmbBefore images m).reserved.cnt ∧
      (kernelRange images).addrs ⊆ (lmbBefore images m).reserved.addrs := by
  obtain ⟨lmb, hlmb⟩ := hp.lmb
  obtain ⟨hcnt, hregion⟩ := bootStartLmb_reserved env sp dramEnd lmb
  rw [← hlmb] at hcnt hregion
  obtain ⟨hfrom, -, hnew⟩ := (fromList_single hcnt hregion hr.tidy (.head _)).reserve hr.tidy (.tail _ (.head _))
  have hok : (lmbReserve images.lmb (kernelRange images).base (kernelRange images).size).1 ≠ -1 := by
    intro hres
    have hfull := (lmbAddRegion_fails_iff (by rw [hcnt]; decide)).mp hres
    rw [hcnt] at hfull
    exact absurd hfull.1 (by decide)
  obtain ⟨hall, hkept⟩ := hfrom.reserveAll hr.tidy fun r h => .tail _ (.tail _ h)
  rw [lmbBefore_eq hp]
  exact ⟨hall.rising, hall.cnt_pos, (hnew hok).trans hkept⟩

theorem alignUp_page {len : Nat} (h : len + 0x1000 ≤ wordSize) :
    len ≤ lmbAlignUp len 0x1000 ∧ lmbAlignUp len 0x1000 < len + 0x1000 := by
  have heq : lmbAlignUp len (2 ^ 12) = (len + (2 ^ 12 - 1)) / 2 ^ 12 * 2 ^ 12 := lmbAlignUp_eq h (by omega)
  have hpage : (0x1000 : Nat) = 2 ^ 12 := rfl
  rw [hpage, heq]
  omega

/-- Then only the source of the tree can be hit. -/
theorem placesSpare_iff {libfdt : Libfdt} {out : Handover} (hp : Placed env sp dramEnd images m kernel ramdisk fdt)
    (hr : InReach env sp dramEnd images m ramdisk fdt) (h : doBootm libfdt env images m = some out) :
    PlacesSpare env images m ramdisk fdt ↔ ∀ b, Taken (lmbBefore images m) ramdisk.length 12 (initrdMax env) b →
      ((loadOs images m).write b ramdisk).Holds images.ftAddr fdt := by
  refine ⟨fun hplaces b hb => (hplaces b hb).2.2.1, fun hsource b hb => ?_⟩
  have hh := doBootm_handed hp h
  have hmem := hr.memory
  obtain ⟨-, hregion⟩ := lmbBefore_memory hp
  obtain ⟨hrising, hcnt, hkernel⟩ := lmbBefore_tidy hp hr
  have hmstop : ((lmbBefore images m).memory.region 0).stop < wordSize := by
    rw [hregion]
    simp only [Range.stop]
    omega
  have hend := hb.stop_le (by omega) hmstop (by rw [hregion]; exact hr.ramdisk_le)
  rw [hregion] at hend
  simp only [Range.stop] at hend
  obtain ⟨hle, hlt⟩ := alignUp_page (show ramdisk.length + 0x1000 ≤ wordSize by omega)
  obtain ⟨hkept, hnew, hstops⟩ := hrising.add_covers (x := ⟨b, lmbAlignUp ramdisk.length 0x1000⟩) hcnt
    (by simp only [Range.stop]; omega)
  have hok : (lmbReserve (lmbBefore images m) b (lmbAlignUp ramdisk.length 0x1000)).1 ≠ -1 :=
    hb.unique hh.ramdisk_taken ▸ hh.reserved
  refine ⟨by omega, .inl ⟨guards_of_subset hrising.stop_lt hkernel, by omega⟩, hsource b hb, fun t ht => ?_⟩
  have hafter : (lmbAfter images m ramdisk.length b).memory.region 0 = ⟨env.bootmLow, env.bootmSize⟩ := hregion
  have htend := ht.stop_le (by omega) (by rw [hafter, ← hregion]; exact hmstop) (by rw [hafter]; exact hr.fdt_le)
  rw [hafter] at htend
  simp only [Range.stop] at htend
  refine ⟨by omega, .inl ⟨guards_of_subset hstops (hkernel.trans hkept), by omega⟩,
    .inl ⟨guards_of_subset hstops (subset_trans ?_ (hnew hok)), by omega⟩⟩
  intro a ha
  simp only [Range.mem_addrs] at ha ⊢
  omega

end

/-- A tree without nodes, with a reservation in the memory of U-Boot. -/
def sampleTree : List UInt8 :=
  [0xd0, 0x0d, 0xfe, 0xed] ++ cpuToFdt32 76 ++ cpuToFdt32 72 ++ cpuToFdt32 76 ++ cpuToFdt32 40 ++ cpuToFdt32 17 ++
    cpuToFdt32 16 ++ cpuToFdt32 0 ++ cpuToFdt32 0 ++ cpuToFdt32 4 ++ cpuToFdt32 0 ++ cpuToFdt32 0x8ff80000 ++
    cpuToFdt32 0 ++ cpuToFdt32 0x1000 ++ List.replicate 16 0 ++ cpuToFdt32 9

theorem moveTree_frame {m m' : Mem} {fdt buf size : Nat} (h : (if fdt32 m (fdt + 4) ≤ size ∧ 40 ≤ size then
      some (((memmove m buf fdt (fdt32 m (fdt + 4))).write (buf + 4) (cpuToFdt32 size)).write (buf + 20) (cpuToFdt32 17))
    else none) = some m') (a : Nat) (ha : a < buf ∨ buf + size ≤ a) : m' a = m a := by
  split at h
  case isFalse => cases h
  case isTrue hsize =>
    obtain rfl := Option.some.inj h
    have hlen : ∀ n, (cpuToFdt32 n).length = 4 := fun _ => rfl
    simp only [Mem.write, memmove, hlen, Mem.read_length]
    rw [if_neg (by omega), if_neg (by omega), if_neg (by omega)]

/-- What `libfdt` does with such a tree: it is moved and gets the size of its buffer. -/
def moveTree : Libfdt where
  openInto m fdt buf size :=
    if fdt32 m (fdt + 4) ≤ size ∧ 40 ≤ size then
      some (((memmove m buf fdt (fdt32 m (fdt + 4))).write (buf + 4) (cpuToFdt32 size)).write (buf + 20) (cpuToFdt32 17))
    else none
  fixup m _ _ _ _ := m
  openInto_frame := @moveTree_frame
  fixup_frame _ _ := rfl

def sampleEnv : Env := ⟨none, none, 0x80000000, 0x10000000, 0x10000000⟩

def sampleImages (load : Nat) : Images where
  osStart := 0x84000000
  osEnd := 0x84001000
  osImageStart := 0x84000100
  osImageLen := 4
  osLoad := load
  rdStart := 0x84000200
  rdEnd := 0x84000204
  ftAddr := 0x84000300
  ftLen := 76
  lmb := bootStartLmb sampleEnv 0x8ff00000 0x90000000 ⟨⟨0, fun _ => ⟨0, 0⟩⟩, ⟨0, fun _ => ⟨0, 0⟩⟩⟩

def sampleMem : Mem :=
  ((Mem.write (fun _ => 0) 0x84000100 [1, 2, 3, 4]).write 0x84000200 [5, 6, 7, 8]).write 0x84000300 sampleTree

theorem sample_placed {load : Nat} (hload : load + 4 < wordSize) :
    Placed sampleEnv 0x8ff00000 0x90000000 (sampleImages load) sampleMem [1, 2, 3, 4] [5, 6, 7, 8] sampleTree where
  lmb := ⟨_, rfl⟩
  kernel_at := show sampleMem.Holds 0x84000100 [1, 2, 3, 4] by decide
  kernel_len := rfl
  kernel_pos := by decide
  kernel_in := by simp [sampleImages]
  kernel_end := hload
  ramdisk_at := show sampleMem.Holds 0x84000200 [5, 6, 7, 8] by decide
  ramdisk_len := rfl
  ramdisk_pos := by simp [sampleImages]
  ramdisk_in := by simp [sampleImages]
  fdt_at := show sampleMem.Holds 0x84000300 sampleTree by decide
  fdt_len := rfl
  fdt_pos := by decide
  osEnd_lt := by simp [sampleImages, wordSize]
  initrdHigh := by decide
  fdtHigh := by decide

theorem sample_inReach :
    InReach sampleEnv 0x8ff00000 0x90000000 (sampleImages 0x80208000) sampleMem [5, 6, 7, 8] sampleTree where
  memory := by decide
  tidy := by
    have hranges : stackRange 0x8ff00000 0x90000000 :: kernelRange (sampleImages 0x80208000) ::
        fdtMemRsvs (loadOs (sampleImages 0x80208000) sampleMem) (sampleImages 0x80208000).ftAddr =
          [⟨0x8feffc00, 0x100400⟩, ⟨0x80208000, 4⟩, ⟨0x8ff80000, 0x1000⟩] := by decide
    rw [hranges]
    exact ⟨by decide, by decide, by decide⟩
  ramdisk_le := by decide
  fdt_le := by decide

end Uboot.Bootm
