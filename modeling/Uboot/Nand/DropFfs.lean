import Uboot.Nand.Theorems

/-!
# Writing without trailing 0xFF (`WITH_DROP_FFS`)

`drop_ffs` looks for the last byte of a chunk that is not 0xFF. Its index is unsigned, so the scan does not stop at the
chunk's start but goes on to the bytes before it: those of earlier chunks, and then whatever is before the buffer.
-/

namespace Uboot.Nand

open Uboot.Lib

def wordSize : Nat := 2 ^ 32

namespace NandInfo

/-- `drop_ffs` of a chunk, with the bytes of the buffer before it; none when the scan leaves the buffer. -/
def dropFfs (nand : NandInfo) (before chunk : List UInt8) : Option Nat :=
  match (before ++ chunk).reverse.findIdx? (· ≠ 0xff) with
  | none => none
  | some k =>
      let i := (chunk.length + wordSize - 1 - k) % wordSize
      let l := (i + 1) % wordSize
      let l := (l + nand.writesize - 1) % wordSize / nand.writesize
      let l := l * nand.writesize % wordSize
      some (min l chunk.length)

/-- The loop of `nand_write_skip_bad` with the flag; none also when it reads outside the buffer. -/
def dropLoop (nand : NandInfo) : Nat → Nat → List UInt8 → List UInt8 → Flash → Option Flash
  | 0, _, _, _, _ => none
  | fuel + 1, offset, before, buf, f =>
      if buf.length = 0 then some f
      else
        let blockOffset := offset % nand.erasesize
        if nand.bad (nand.lowBlockStart offset) then
          dropLoop nand fuel (offset + (nand.erasesize - blockOffset)) before buf f
        else
          let writeSize := min buf.length (nand.erasesize - blockOffset)
          match nand.dropFfs before (buf.take writeSize) with
          | none => none
          | some truncated =>
              dropLoop nand fuel (offset + writeSize) (before ++ buf.take writeSize) (buf.drop writeSize)
                (nandWrite f offset (buf.take truncated))

/-- `nand_write_skip_bad` with the flag. It always takes the loop. -/
def dropSkipBad (nand : NandInfo) (fuel : Nat) (offset : Nat) (buf : List UInt8) (f : Flash) :
    Option (Int × Nat × Flash) :=
  if offset % nand.writesize ≠ 0 then some (einval, 0, f)
  else
    match nand.checkSkipLen offset buf.length with
    | none => some (einval, 0, f)
    | some _ => (nand.dropLoop fuel offset [] buf f).map fun f => (0, buf.length, f)

/-- On erased flash both writes come back with the same result and leave the same contents. -/
def DropEquiv (nand : NandInfo) (o : Nat) (buf : List UInt8) : Prop :=
  ∀ mem : Mem, (∀ a, o ≤ a → mem a = 0xff) → ∃ rval len f f',
    Returns (fun fuel => nand.dropSkipBad fuel o buf ⟨mem, []⟩) (rval, len, f) ∧
      Returns (fun fuel => nand.writeSkipBad fuel o buf ⟨mem, []⟩) (rval, len, f') ∧ f.mem = f'.mem

/-- The bytes that go to the first block that looks good. -/
def firstChunk (nand : NandInfo) (o : Nat) (buf : List UInt8) : List UInt8 :=
  buf.take (if nand.looksGood o then nand.erasesize - o % nand.erasesize else nand.erasesize)

/-- `b` is not 0xFF. -/
def Programmed (bs : List UInt8) : Prop := ∃ b ∈ bs, b ≠ 0xff

/-! ## `drop_ffs` -/

section
variable {nand : NandInfo} {before chunk buf : List UInt8} {o fuel n : Nat} {f f' : Flash}

theorem writesize_pos (nand : NandInfo) : 0 < nand.writesize :=
  Nat.pos_of_dvd_of_pos nand.writesize_dvd nand.erasesize_pos

theorem erasesize_le (nand : NandInfo) : nand.erasesize ≤ 2 ^ 31 := by
  obtain ⟨q, hq⟩ := nand.erasesize_dvd
  have hlt := nand.erasesize_lt
  have hq2 : 2 ≤ q := by
    by_contra hno
    have hle : nand.erasesize * q ≤ nand.erasesize * 1 := Nat.mul_le_mul_left _ (by omega)
    omega
  have hle : nand.erasesize * 2 ≤ nand.erasesize * q := Nat.mul_le_mul_left _ hq2
  omega

theorem writesize_le (nand : NandInfo) : nand.writesize ≤ 2 ^ 31 :=
  (Nat.le_of_dvd nand.erasesize_pos nand.writesize_dvd).trans nand.erasesize_le

theorem dropFfs_none (h : ¬ Programmed (before ++ chunk)) : nand.dropFfs before chunk = none := by
  have hfind : (before ++ chunk).reverse.findIdx? (· ≠ 0xff) = none := by
    rw [List.findIdx?_eq_none_iff]
    intro b hb
    have hff : b = 0xff := by
      by_contra hne
      exact h ⟨b, List.mem_reverse.mp hb, hne⟩
    simp [hff]
  rw [dropFfs, hfind]

theorem le_roundUp {ws l : Nat} (hws : 0 < ws) : l ≤ (l + ws - 1) / ws * ws := by
  have hdiv := Nat.div_add_mod (l + ws - 1) ws
  have hmod := Nat.mod_lt (l + ws - 1) hws
  rw [Nat.mul_comm ws] at hdiv
  omega

/-- Behind the byte that the scan finds, the chunk is erased. -/
theorem scan_erased {k m : Nat} (hk : (before ++ chunk).reverse.findIdx? (· ≠ 0xff) = some k) (hm : m < chunk.length)
    (hlast : chunk.length ≤ m + k) : chunk[m] = 0xff := by
  obtain ⟨hlt, -, hbefore⟩ := List.findIdx?_eq_some_iff_getElem.mp hk
  rw [List.length_reverse, List.length_append] at hlt
  have hff := hbefore (chunk.length - 1 - m) (by omega)
  rw [List.getElem_reverse] at hff
  have hindex : (before ++ chunk).length - 1 - (chunk.length - 1 - m) = before.length + m := by
    rw [List.length_append]
    omega
  simp only [hindex, List.getElem_append_right (Nat.le_add_right _ _), Nat.add_sub_cancel_left] at hff
  simpa using hff

/-- What is left out is erased. -/
theorem dropFfs_some (nand : NandInfo) (h : Programmed (before ++ chunk)) (hchunk : chunk.length ≤ 2 ^ 31) :
    ∃ l, nand.dropFfs before chunk = some l ∧ l ≤ chunk.length ∧ ∀ b ∈ chunk.drop l, b = 0xff := by
  obtain ⟨k, hk⟩ : ∃ k, (before ++ chunk).reverse.findIdx? (· ≠ 0xff) = some k := by
    cases hfind : (before ++ chunk).reverse.findIdx? (· ≠ 0xff) with
    | some k => exact ⟨k, rfl⟩
    | none =>
        obtain ⟨b, hb, hne⟩ := h
        have hall := List.findIdx?_eq_none_iff.mp hfind b (List.mem_reverse.mpr hb)
        simp [hne] at hall
  refine ⟨_, by rw [dropFfs, hk], Nat.min_le_right .., ?_⟩
  intro b hb
  obtain ⟨m, hm, rfl⟩ := List.mem_iff_getElem.mp hb
  rw [List.length_drop] at hm
  rw [List.getElem_drop]
  refine scan_erased hk (by omega) ?_
  rcases Nat.lt_or_ge k chunk.length with hin | hout
  · -- the scan stops inside the chunk, so nothing wraps
    have hws := nand.writesize_pos
    have hws' := nand.writesize_le
    have hi : (chunk.length + wordSize - 1 - k) % wordSize = chunk.length - 1 - k := by
      unfold wordSize
      omega
    have hl : (chunk.length - 1 - k + 1) % wordSize = chunk.length - k := by
      unfold wordSize
      omega
    have hsum : (chunk.length - k + nand.writesize - 1) % wordSize = chunk.length - k + nand.writesize - 1 := by
      unfold wordSize
      omega
    have hround := le_roundUp (l := chunk.length - k) hws
    have hle := Nat.div_mul_le_self (chunk.length - k + nand.writesize - 1) nand.writesize
    have hmul : (chunk.length - k + nand.writesize - 1) / nand.writesize * nand.writesize % wordSize =
        (chunk.length - k + nand.writesize - 1) / nand.writesize * nand.writesize := by
      unfold wordSize
      omega
    rw [hi, hl, hsum, hmul]
    omega
  · omega

/-! ## One chunk -/

/-- On erased flash it does not matter whether 0xFF is written. -/
theorem write_take_erased {mem : Mem} {l : Nat} (hmem : ∀ a, o ≤ a → mem a = 0xff)
    (h : ∀ b ∈ chunk.drop l, b = 0xff) : mem.write o (chunk.take l) = mem.write o chunk := by
  rw [← List.take_append_drop l chunk, ← Mem.write_append, List.take_append_drop]
  funext a
  by_cases hin : o + (chunk.take l).length ≤ a ∧ a < o + (chunk.take l).length + (chunk.drop l).length
  · rw [Mem.write_of_ge hin.1, hmem a (by omega)]
    obtain ⟨i, rfl⟩ := Nat.exists_eq_add_of_le hin.1
    rw [Mem.write_of_mem (by omega), List.getD_eq_getElem _ _ (by omega)]
    exact (h _ (List.getElem_mem _)).symm
  · exact (Mem.write_of_not_mem hin).symm

theorem dropLoop_skip (hbuf : buf.length ≠ 0) (h : nand.looksGood o = false) :
    nand.dropLoop (fuel + 1) o before buf f =
      nand.dropLoop fuel (o + (nand.erasesize - o % nand.erasesize)) before buf f := by
  rw [dropLoop, if_neg hbuf]
  dsimp only
  rw [if_pos (by simpa [looksGood] using h)]

theorem dropLoop_store (hbuf : buf.length ≠ 0) (h : nand.looksGood o = true) :
    nand.dropLoop (fuel + 1) o before buf f =
      match nand.dropFfs before (buf.take (min buf.length (nand.erasesize - o % nand.erasesize))) with
      | none => none
      | some truncated =>
          nand.dropLoop fuel (o + min buf.length (nand.erasesize - o % nand.erasesize))
            (before ++ buf.take (min buf.length (nand.erasesize - o % nand.erasesize)))
            (buf.drop (min buf.length (nand.erasesize - o % nand.erasesize)))
            (nandWrite f o (buf.take truncated)) := by
  rw [dropLoop, if_neg hbuf]
  dsimp only
  rw [if_neg (by simpa [looksGood] using h)]

/-! ## The loops side by side -/

/-- A chunk with a programmed byte at or before it: the loops leave the same contents. -/
theorem dropLoop_chunk (nand : NandInfo) {mem : Mem} {k : Nat} (hk : k ≤ 2 ^ 31) (hkbuf : k ≤ buf.length)
    (hprog : Programmed (before ++ buf.take k)) (hmem : ∀ a, o ≤ a → mem a = 0xff) :
    ∃ l, nand.dropFfs before (buf.take k) = some l ∧ mem.write o (buf.take l) = mem.write o (buf.take k) ∧
      ∀ a, o + k ≤ a → mem.write o (buf.take l) a = 0xff := by
  have hlen : (buf.take k).length = k := List.length_take_of_le hkbuf
  obtain ⟨l, hl, hle, herased⟩ := dropFfs_some nand hprog (by omega)
  have hsame := write_take_erased hmem herased
  rw [List.take_take, Nat.min_eq_left (by omega)] at hsame
  refine ⟨l, hl, hsame, fun a ha => ?_⟩
  rw [hsame, Mem.write_of_ge (by omega)]
  exact hmem a (by omega)

/-- Both loops end with the same contents, or neither ends. -/
theorem dropLoop_eq (hprog : Programmed before) (hsame : f.mem = f'.mem) (hmem : ∀ a, o ≤ a → f.mem a = 0xff) :
    (nand.dropLoop fuel o before buf f).map Flash.mem = (nand.writeLoop fuel o buf f').map Flash.mem := by
  induction fuel generalizing o before buf f f' with
  | zero => rfl
  | succ fuel ih =>
      rcases Nat.eq_zero_or_pos buf.length with hzero | hpos
      · rw [dropLoop, writeLoop, if_pos hzero, if_pos hzero]
        simp [hsame]
      cases hg : nand.looksGood o with
      | false =>
          rw [dropLoop_skip (by omega) hg, writeLoop_skip (by omega) hg]
          exact ih hprog hsame fun a ha => hmem a (by omega)
      | true =>
          rw [dropLoop_store (by omega) hg, writeLoop_store (by omega) hg]
          obtain ⟨k, hk⟩ : ∃ k, k = min buf.length (nand.erasesize - o % nand.erasesize) := ⟨_, rfl⟩
          have hsize := nand.erasesize_le
          rw [← hk]
          have hprog' : Programmed (before ++ buf.take k) := by
            obtain ⟨b, hb, hne⟩ := hprog
            exact ⟨b, List.mem_append_left _ hb, hne⟩
          obtain ⟨l, hl, hwrite, hrest⟩ := dropLoop_chunk nand (by omega) (by omega) hprog' hmem
          rw [hl]
          refine ih hprog' ?_ ?_
          · rw [nandWrite, nandWrite, hwrite, hsame]
          · exact hrest

/-- The chunk for the first block that looks good does not change on the way there. -/
theorem firstChunk_skip (hg : nand.looksGood o = false) :
    nand.firstChunk (o + (nand.erasesize - o % nand.erasesize)) buf = nand.firstChunk o buf := by
  rw [firstChunk, firstChunk, hg, rest_mod nand.erasesize_pos, Nat.sub_zero]
  simp

theorem firstChunk_good (hg : nand.looksGood o = true) :
    nand.firstChunk o buf = buf.take (min buf.length (nand.erasesize - o % nand.erasesize)) := by
  rw [firstChunk, hg, if_pos rfl, List.take_eq_take_iff]
  omega

/-- The first chunk decides. -/
theorem dropLoop_first (fuel : Nat) (f' : Flash) (hbuf : 0 < buf.length) (hprog : Programmed (nand.firstChunk o buf)) (hsame : f.mem = f'.mem)
    (hmem : ∀ a, o ≤ a → f.mem a = 0xff) :
    (nand.dropLoop fuel o [] buf f).map Flash.mem = (nand.writeLoop fuel o buf f').map Flash.mem := by
  induction fuel generalizing o with
  | zero => rfl
  | succ fuel ih =>
      cases hg : nand.looksGood o with
      | false =>
          rw [dropLoop_skip (by omega) hg, writeLoop_skip (by omega) hg]
          exact ih (by rwa [firstChunk_skip hg]) fun a ha => hmem a (by omega)
      | true =>
          rw [dropLoop_store (by omega) hg, writeLoop_store (by omega) hg]
          rw [firstChunk_good hg] at hprog
          obtain ⟨k, hk⟩ : ∃ k, k = min buf.length (nand.erasesize - o % nand.erasesize) := ⟨_, rfl⟩
          have hsize := nand.erasesize_le
          rw [← hk] at hprog ⊢
          obtain ⟨l, hl, hwrite, hrest⟩ := dropLoop_chunk nand (by omega) (by omega)
            (show Programmed ([] ++ buf.take k) from hprog) hmem
          rw [hl]
          refine dropLoop_eq hprog ?_ ?_
          · rw [nandWrite, nandWrite, hwrite, hsame]
          · exact hrest

/-- An erased first chunk makes the scan leave the buffer. -/
theorem dropLoop_outside (hbuf : 0 < buf.length) (h : ¬ Programmed (nand.firstChunk o buf)) :
    nand.dropLoop fuel o [] buf f = none := by
  induction fuel generalizing o with
  | zero => rfl
  | succ fuel ih =>
      cases hg : nand.looksGood o with
      | false =>
          rw [dropLoop_skip (by omega) hg]
          exact ih (by rwa [firstChunk_skip hg])
      | true =>
          rw [firstChunk_good hg] at h
          rw [dropLoop_store (by omega) hg, dropFfs_none h]

theorem dropLoop_mono {f' : Flash} {fuel' : Nat} (hle : fuel ≤ fuel')
    (h : nand.dropLoop fuel o before buf f = some f') : nand.dropLoop fuel' o before buf f = some f' := by
  induction fuel generalizing o before buf f fuel' with
  | zero => cases h
  | succ fuel ih =>
      cases fuel' with
      | zero => omega
      | succ fuel' =>
          rw [dropLoop] at h ⊢
          split
          next hz => rwa [if_pos hz] at h
          next hz =>
            rw [if_neg hz] at h
            dsimp only at h ⊢
            split
            next hb => rw [if_pos hb] at h; exact ih (by omega) h
            next hb =>
              rw [if_neg hb] at h
              split
              next hnone => rw [hnone] at h; cases h
              next l hl => rw [hl] at h; exact ih (by omega) h

end

end NandInfo

/-! ## Addresses in order -/

section
variable {as : List Nat} {o i : Nat}

theorem add_le_getElem (h : as.Pairwise (· < ·)) (d : Nat) (hd : i + d < as.length) : as[i] + d ≤ as[i + d] := by
  induction d with
  | zero => simp
  | succ d ih =>
      have hnext := List.pairwise_iff_getElem.mp h (i + d) (i + (d + 1)) (by omega) hd (by omega)
      have hprev := ih (by omega)
      omega

theorem le_getElem (h : as.Pairwise (· < ·)) (ho : ∀ a ∈ as, o ≤ a) (hi : i < as.length) : o + i ≤ as[i] := by
  have hfirst := ho as[0] (List.getElem_mem _)
  have hle := add_le_getElem (i := 0) h i (by omega)
  simp only [Nat.zero_add] at hle
  omega

/-- An address that is as low as it can be has all lower ones before it. -/
theorem mem_of_getElem_eq (h : as.Pairwise (· < ·)) (ho : ∀ a ∈ as, o ≤ a) (hi : i < as.length) (he : as[i] = o + i)
    {a : Nat} (hle : o ≤ a) (hlt : a ≤ o + i) : a ∈ as := by
  obtain ⟨j, rfl⟩ := Nat.exists_eq_add_of_le hle
  obtain ⟨d, rfl⟩ := Nat.exists_eq_add_of_le (show j ≤ i by omega)
  have hlow := le_getElem h ho (show j < as.length by omega)
  have hup := add_le_getElem h d hi
  have hj : as[j] = o + j := by omega
  rw [← hj]
  exact List.getElem_mem _

/-- Bytes stored in this order on erased flash are where one write puts them, when none that is programmed has
moved. -/
theorem stored_eq_write_iff {mem mem' : Mem} {buf : List UInt8} (h : as.Pairwise (· < ·)) (ho : ∀ a ∈ as, o ≤ a)
    (hstored : as.map mem' = buf) (hframe : ∀ a, a ∉ as → mem' a = mem a) (hmem : ∀ a, o ≤ a → mem a = 0xff) :
    mem' = mem.write o buf ↔ ∀ i (hi : i < as.length), mem' as[i] ≠ 0xff → as[i] = o + i := by
  have hlen : buf.length = as.length := by rw [← hstored, List.length_map]
  have hwrite : ∀ i (hi : i < as.length), mem.write o buf (o + i) = mem' as[i] := by
    intro i hi
    rw [Mem.write_of_mem (by omega), List.getD_eq_getElem _ _ (by omega)]
    simp only [← hstored, List.getElem_map]
  constructor
  · intro heq i hi hne
    by_contra hmoved
    -- the last programmed byte that has moved
    obtain ⟨d, hd⟩ : ∃ d, d = as.length - i := ⟨_, rfl⟩
    induction d using Nat.strong_induction_on generalizing i with
    | _ d ih =>
        have hlow := le_getElem h ho hi
        obtain ⟨k, hk⟩ := Nat.exists_eq_add_of_le (show o ≤ as[i] by omega)
        rcases Nat.lt_or_ge k as.length with hin | hout
        · have hval := hwrite k hin
          rw [← heq, ← hk] at hval
          refine ih (as.length - k) (by omega) k hin (by rwa [← hval]) ?_ rfl
          intro he
          have hsame := (List.Nodup.getElem_inj_iff h.nodup).mp (he.trans hk.symm)
          omega
        · have hval := congrFun heq as[i]
          rw [hk, Mem.write_of_ge (by omega), hmem _ (by omega), ← hk] at hval
          exact hne hval
  · intro hfix
    funext a
    rcases Nat.lt_or_ge a o with hlt | hge
    · rw [Mem.write_of_lt hlt]
      exact hframe a fun ha => by have := ho a ha; omega
    · obtain ⟨k, rfl⟩ := Nat.exists_eq_add_of_le hge
      -- the address holds 0xff unless a byte was put exactly there
      have hhere : mem' (o + k) ≠ 0xff → ∃ hk : k < as.length, as[k] = o + k := by
        intro hne
        have hin : o + k ∈ as := by
          by_contra hout
          exact hne ((hframe _ hout).trans (hmem _ (by omega)))
        obtain ⟨j, hj, he⟩ := List.mem_iff_getElem.mp hin
        have hjk := hfix j hj (by rwa [he])
        have hkj : k = j := by omega
        subst hkj
        exact ⟨hj, he⟩
      rcases Nat.lt_or_ge k as.length with hin | hout
      · rw [hwrite k hin]
        by_cases hne : mem' as[k] = 0xff
        · rw [hne]
          by_contra hother
          obtain ⟨hk, he⟩ := hhere hother
          exact hother (by rw [← he]; exact hne)
        · rw [hfix k hin hne]
      · rw [Mem.write_of_ge (by omega), hmem _ (by omega)]
        by_contra hother
        obtain ⟨hk, -⟩ := hhere hother
        omega

end

namespace NandInfo

section
variable {nand : NandInfo} {buf : List UInt8} {o fuel n : Nat} {mem : Mem} {f : Flash}

theorem usable_sorted (good : Nat → Bool) (o n : Nat) : (usable good o n).Pairwise (· < ·) :=
  List.Pairwise.filter _ List.pairwise_lt_range'

theorem dropSkipBad_fail (ho : o % nand.writesize = 0) (h : nand.checkSkipLen o buf.length = none) :
    nand.dropSkipBad fuel o buf f = some (einval, 0, f) := by
  rw [dropSkipBad, if_neg (not_not.mpr ho), h]

theorem dropSkipBad_loop {skip : Bool} (ho : o % nand.writesize = 0) (h : nand.checkSkipLen o buf.length = some skip) :
    nand.dropSkipBad fuel o buf f = (nand.dropLoop fuel o [] buf f).map fun f => (0, buf.length, f) := by
  rw [dropSkipBad, if_neg (not_not.mpr ho), h]

/-- Whether the bytes that go block by block end up where one write puts them. -/
theorem placed_eq_write_iff {f' : Flash} (hn : buf.length ≤ (usable nand.looksGood o n).length)
    (hmem : ∀ a, o ≤ a → mem a = 0xff)
    (h : Placed ((usable nand.looksGood o n).take buf.length) buf ⟨mem, []⟩ f') :
    f'.mem = mem.write o buf ↔
      ∀ i (hi : i < buf.length), buf[i] ≠ 0xff → ∀ a, o ≤ a → a ≤ o + i → nand.looksGood a = true := by
  have hsorted := (usable_sorted nand.looksGood o n).sublist (List.take_sublist buf.length _)
  have hlow : ∀ a ∈ (usable nand.looksGood o n).take buf.length, o ≤ a :=
    fun a ha => (mem_usable.mp (List.mem_of_mem_take ha)).1.1
  have hlen : ((usable nand.looksGood o n).take buf.length).length = buf.length := List.length_take_of_le hn
  have hval : ∀ i (hi : i < buf.length), f'.mem ((usable nand.looksGood o n).take buf.length)[i] = buf[i] := by
    intro i hi
    have he := List.getElem_of_eq h.stored (i := i) (by rw [List.length_map]; omega)
    rwa [List.getElem_map] at he
  rw [stored_eq_write_iff hsorted hlow h.stored h.frame hmem]
  constructor
  · intro hfix i hi hne a hle hlt
    have hi' : i < ((usable nand.looksGood o n).take buf.length).length := by omega
    have he := hfix i hi' (by rwa [hval i hi])
    exact (mem_usable.mp (List.mem_of_mem_take (mem_of_getElem_eq hsorted hlow hi' he hle hlt))).2
  · intro hgood i hi hne
    have hi' : i < buf.length := by omega
    rw [hval i hi'] at hne
    obtain ⟨m, hm⟩ := Nat.exists_eq_add_of_le (show i + 1 ≤ n from (by omega : i + 1 ≤ _).trans (hn.trans usable_length_le))
    have hall : usable nand.looksGood o (i + 1) = List.range' o (i + 1) :=
      usable_all fun a hle hlt => hgood i hi' hne a hle (by omega)
    rw [List.getElem_take]
    simp only [hm, usable_add, hall]
    rw [List.getElem_append_left (by rw [List.length_range']; omega), List.getElem_range']
    omega

end

end NandInfo

/-- When a write that drops trailing 0xFF bytes does the same as a write of everything. -/
theorem drop_ffs_iff (nand : NandInfo) (o : Nat) (buf : List UInt8) (ho : o % nand.writesize = 0) :
    nand.DropEquiv o buf ↔
      nand.checkSkipLen o buf.length = none ∨ buf = [] ∨
        ((∃ n, buf.length ≤ (usable nand.looksGood o n).length) ∧ NandInfo.Programmed (nand.firstChunk o buf) ∧
          (nand.checkSkipLen o buf.length = some false →
            ∀ i (hi : i < buf.length), buf[i] ≠ 0xff → ∀ a, o ≤ a → a ≤ o + i → nand.looksGood a = true)) := by
  constructor
  · intro h
    cases hcheck : nand.checkSkipLen o buf.length with
    | none => exact .inl rfl
    | some skip =>
        by_cases hnil : buf = []
        · exact .inr (.inl hnil)
        have hpos := List.length_pos_iff.mpr hnil
        obtain ⟨rval, len, f, f', ⟨bound, hdrop⟩, hwrite, hmem⟩ := h (fun _ => 0xff) fun _ _ => rfl
        have hrun := hdrop bound le_rfl
        simp only [NandInfo.dropSkipBad_loop ho hcheck, Option.map_eq_some_iff] at hrun
        obtain ⟨g, hg, hres⟩ := hrun
        have hgf : g = f := congrArg (·.2.2) hres
        subst hgf
        have hprog : NandInfo.Programmed (nand.firstChunk o buf) := by
          by_contra hno
          rw [NandInfo.dropLoop_outside hpos hno] at hg
          cases hg
        have heq := NandInfo.dropLoop_first bound ⟨fun _ => 0xff, []⟩ hpos hprog rfl fun _ _ => rfl
        rw [hg, Option.map_some, eq_comm, Option.map_eq_some_iff] at heq
        obtain ⟨g', hg', hgg'⟩ := heq
        obtain ⟨n, hn⟩ := NandInfo.usable_of_writeLoop hg'
        refine .inr (.inr ⟨⟨n, hn⟩, hprog, fun hskip => ?_⟩)
        obtain ⟨g'', hg'', hplaced⟩ := NandInfo.writeLoop_placed (f := ⟨fun _ => 0xff, []⟩) hn (Nat.lt_succ_self n)
        have hsame := (NandInfo.writeLoop_mono (Nat.le_max_left bound (n + 1)) hg').symm.trans
          (NandInfo.writeLoop_mono (Nat.le_max_right bound (n + 1)) hg'')
        have hg3 : g' = g'' := Option.some.inj hsame
        subst hg3
        have hskip' : nand.checkSkipLen o buf.length = some false := by rw [hcheck, hskip]
        have hone := hwrite.unique ⟨0, fun fuel _ => NandInfo.writeSkipBad_once ho hskip'⟩
        refine (NandInfo.placed_eq_write_iff hn (fun _ _ => rfl) hplaced).mp ?_
        have hf' : f' = nandWrite ⟨fun _ => 0xff, []⟩ o buf := congrArg (·.2.2) hone
        rw [hgg', hmem, hf']
        rfl
  · rintro (hfail | rfl | ⟨⟨n, hn⟩, hprog, hfix⟩) mem hmem
    · exact ⟨_, _, _, _, ⟨0, fun fuel _ => NandInfo.dropSkipBad_fail ho hfail⟩,
        ⟨0, fun fuel _ => NandInfo.writeSkipBad_fail ho hfail⟩, rfl⟩
    · have hcheck : nand.checkSkipLen o ([] : List UInt8).length = some false := NandInfo.checkSkipFrom_done le_rfl
      refine ⟨0, 0, ⟨mem, []⟩, nandWrite ⟨mem, []⟩ o [], ⟨1, fun fuel hfuel => ?_⟩,
        ⟨0, fun fuel _ => NandInfo.writeSkipBad_once ho hcheck⟩, ?_⟩
      · obtain ⟨fuel, rfl⟩ := Nat.exists_eq_add_of_le' hfuel
        simp only [NandInfo.dropSkipBad_loop ho hcheck, NandInfo.dropLoop]
        rfl
      · funext a
        exact (Mem.write_of_not_mem (by rw [List.length_nil]; omega)).symm
    · rcases List.eq_nil_or_concat buf with rfl | hne
      · obtain ⟨b, hb, -⟩ := hprog
        rw [NandInfo.firstChunk, List.take_nil] at hb
        cases hb
      have hpos : 0 < buf.length := by
        obtain ⟨init, last, rfl⟩ := hne
        simp
      obtain ⟨g, hg, hplaced⟩ := NandInfo.writeLoop_placed (f := ⟨mem, []⟩) hn (Nat.lt_succ_self n)
      have heq := NandInfo.dropLoop_first (n + 1) ⟨mem, []⟩ hpos hprog rfl hmem
      rw [hg, Option.map_some, Option.map_eq_some_iff] at heq
      obtain ⟨g', hg', hgg'⟩ := heq
      have hdrop : ∀ skip, nand.checkSkipLen o buf.length = some skip →
          Returns (fun fuel => nand.dropSkipBad fuel o buf ⟨mem, []⟩) (0, buf.length, g') := by
        intro skip hcheck
        refine ⟨n + 1, fun fuel hfuel => ?_⟩
        have hsame := NandInfo.dropLoop_mono hfuel hg'
        simp only [NandInfo.dropSkipBad_loop ho hcheck, hsame, Option.map_some]
      cases hcheck : nand.checkSkipLen o buf.length with
      | none =>
          exact ⟨_, _, _, _, ⟨0, fun fuel _ => NandInfo.dropSkipBad_fail ho hcheck⟩,
            ⟨0, fun fuel _ => NandInfo.writeSkipBad_fail ho hcheck⟩, rfl⟩
      | some skip =>
          cases skip with
          | true =>
              refine ⟨_, _, _, g, hdrop true hcheck, ⟨n + 1, fun fuel hfuel => ?_⟩, hgg'⟩
              have hsame := NandInfo.writeLoop_mono hfuel hg
              simp only [NandInfo.writeSkipBad_loop ho hcheck, hsame, Option.map_some]
          | false =>
              refine ⟨_, _, _, _, hdrop false hcheck, ⟨0, fun fuel _ => NandInfo.writeSkipBad_once ho hcheck⟩, ?_⟩
              exact hgg'.trans ((NandInfo.placed_eq_write_iff hn hmem hplaced).mpr (hfix hcheck))

/-- The second chunk is erased, and the scan stops at the byte of the first one. -/
theorem drop_ffs_four_blocks : fourBlocks.DropEquiv 4 (1 :: List.replicate 19 0xff) := by
  refine (drop_ffs_iff fourBlocks 4 (1 :: List.replicate 19 0xff) (by decide)).mpr (.inr (.inr ⟨⟨60, by decide⟩, ?_, ?_⟩))
  · exact ⟨1, by decide, by decide⟩
  · intro h
    exact absurd h (by decide)

/-- A page of 0xFF: the scan leaves the buffer. -/
theorem drop_ffs_erased_page :
    ¬ ∀ (nand : NandInfo) (o : Nat) (buf : List UInt8), o % nand.writesize = 0 → nand.DropEquiv o buf := by
  intro h
  obtain ⟨rval, len, f, f', ⟨bound, hdrop⟩, -, -⟩ :=
    h fourBlocks 0 (List.replicate 4 0xff) (by decide) (fun _ => 0xff) fun _ _ => rfl
  have hrun := hdrop bound le_rfl
  have hcheck : fourBlocks.checkSkipLen 0 (List.replicate 4 (0xff : UInt8)).length = some false := by decide
  have hout : fourBlocks.dropLoop bound 0 [] (List.replicate 4 0xff) ⟨fun _ => 0xff, []⟩ = none := by
    refine NandInfo.dropLoop_outside (by decide) ?_
    rintro ⟨b, hb, hne⟩
    exact hne (List.eq_of_mem_replicate (List.mem_of_mem_take hb))
  simp only [NandInfo.dropSkipBad_loop (by decide) hcheck, hout, Option.map_none] at hrun
  cases hrun

end Uboot.Nand
