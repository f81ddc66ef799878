import Uboot.Nand.Basic

/-!
# Which blocks are used

The check counts the good bytes block by block, modulo 2^32. The two loops look up a block at its address modulo 2^32,
so beyond 4 GiB they may take a good block for a bad one and a bad block for a good one.
-/

namespace Uboot.Nand

open Uboot.Lib

namespace NandInfo

/-- The byte is in a good block. -/
def good (nand : NandInfo) (a : Nat) : Bool := !nand.bad (nand.blockStart a)

/-- The byte's block looks good to the loops. -/
def looksGood (nand : NandInfo) (a : Nat) : Bool := !nand.bad (nand.lowBlockStart a)

/-- The bytes of the good blocks from `offset` to the end of the device. -/
def goodBytes (nand : NandInfo) (offset : Nat) : List Nat := usable nand.good offset (nand.size - offset)

variable {nand : NandInfo} {o n length len fuel : Nat} {ret : Bool}

theorem good_blockWise (nand : NandInfo) : BlockWise nand.erasesize nand.good := by
  intro a b h
  rw [good, good, blockStart, blockStart, h]

theorem looksGood_blockWise (nand : NandInfo) : BlockWise nand.erasesize nand.looksGood := by
  intro a b h
  obtain ⟨q, hq⟩ := nand.erasesize_dvd
  rw [looksGood, looksGood, lowBlockStart, lowBlockStart, hq, Nat.mod_mul_right_div_self, Nat.mod_mul_right_div_self, h]

/-- Below 4 GiB blocks look as they are. -/
theorem looksGood_eq_good {a : Nat} (h : a < 2 ^ 32) : nand.looksGood a = nand.good a := by
  rw [looksGood, good, lowBlockStart, blockStart, Nat.mod_eq_of_lt h]

/-! ## The check -/

/-- A block that begins inside the device ends inside it. -/
theorem rest_le_size (ho : o < nand.size) : o + (nand.erasesize - o % nand.erasesize) ≤ nand.size := by
  obtain ⟨q, hq⟩ := nand.size_dvd
  have hpos := nand.erasesize_pos
  have hmod := Nat.mod_lt o hpos
  have hdiv := Nat.div_add_mod o nand.erasesize
  have hlt : o / nand.erasesize < q := by
    rw [Nat.div_lt_iff_lt_mul hpos, Nat.mul_comm, ← hq]
    exact ho
  have hle : nand.erasesize * (o / nand.erasesize + 1) ≤ nand.erasesize * q := Nat.mul_le_mul_left _ hlt
  rw [Nat.mul_add, Nat.mul_one] at hle
  omega

/-- The good bytes of the first block, and those behind it. -/
theorem goodBytes_cons (ho : o < nand.size) : nand.goodBytes o =
    (if nand.good o then List.range' o (nand.erasesize - o % nand.erasesize) else []) ++
      nand.goodBytes (o + (nand.erasesize - o % nand.erasesize)) := by
  have hle := rest_le_size ho
  have hpos := nand.erasesize_pos
  have hsplit : nand.size - o = nand.erasesize - o % nand.erasesize +
      (nand.size - (o + (nand.erasesize - o % nand.erasesize))) := by omega
  rw [goodBytes, hsplit, usable_add, goodBytes]
  congr 1
  split
  next h =>
    apply usable_all
    intro a hle hlt
    rw [(nand.good_blockWise).rest hpos hle hlt]
    exact h
  next h =>
    apply usable_none
    intro a hle hlt
    rw [(nand.good_blockWise).rest hpos hle hlt]
    exact Bool.not_eq_true _ ▸ h

theorem goodBytes_end (ho : nand.size ≤ o) : nand.goodBytes o = [] := by
  rw [goodBytes, Nat.sub_eq_zero_of_le ho]
  rfl

theorem checkSkipFrom_done (h : length ≤ len) : nand.checkSkipFrom length (fuel + 1) o len ret = some ret := by
  rw [checkSkipFrom, if_pos h]

theorem checkSkipFrom_end (h : len < length) (ho : nand.size ≤ o) :
    nand.checkSkipFrom length (fuel + 1) o len ret = none := by
  rw [checkSkipFrom, if_neg (by omega), if_pos ho]

theorem checkSkipFrom_bad (h : len < length) (ho : o < nand.size) (hbad : nand.good o = false) :
    nand.checkSkipFrom length (fuel + 1) o len ret =
      nand.checkSkipFrom length fuel (o + (nand.erasesize - o % nand.erasesize)) len true := by
  rw [checkSkipFrom, if_neg (by omega), if_neg (by omega)]
  dsimp only
  rw [if_pos (by simpa [good] using hbad)]

theorem checkSkipFrom_good (h : len < length) (ho : o < nand.size) (hgood : nand.good o = true) :
    nand.checkSkipFrom length (fuel + 1) o len ret =
      nand.checkSkipFrom length fuel (o + (nand.erasesize - o % nand.erasesize))
        ((len + (nand.erasesize - o % nand.erasesize)) % 2 ^ 32) ret := by
  rw [checkSkipFrom, if_neg (by omega), if_neg (by omega)]
  dsimp only
  rw [if_neg (by simpa [good] using hgood)]

/-- There are too few good bytes. -/
theorem checkSkipFrom_short (hlen : length < 2 ^ 32) (h : len + (nand.goodBytes o).length < length) :
    nand.checkSkipFrom length fuel o len ret = none := by
  induction fuel generalizing o len ret with
  | zero => rfl
  | succ fuel ih =>
      rcases Nat.lt_or_ge o nand.size with ho | ho
      · rw [goodBytes_cons ho, List.length_append] at h
        cases hg : nand.good o with
        | false =>
            rw [checkSkipFrom_bad (by omega) ho hg]
            rw [hg] at h
            exact ih (by simpa using h)
        | true =>
            rw [checkSkipFrom_good (by omega) ho hg]
            rw [hg, if_pos rfl, List.length_range'] at h
            have hsum : (len + (nand.erasesize - o % nand.erasesize)) % 2 ^ 32 =
                len + (nand.erasesize - o % nand.erasesize) := Nat.mod_eq_of_lt (by omega)
            rw [hsum]
            exact ih (by omega)
      · exact checkSkipFrom_end (by omega) ho

/-- No count of good bytes below 2^32 reaches the length. -/
theorem checkSkipFrom_never (ho : o % nand.erasesize = 0) (hlen : len < 2 ^ 32)
    (h : ∀ v < 2 ^ 32, v % nand.erasesize = len % nand.erasesize → v < length) :
    nand.checkSkipFrom length fuel o len ret = none := by
  induction fuel generalizing o len ret with
  | zero => rfl
  | succ fuel ih =>
      have hlt := h len hlen rfl
      rcases Nat.lt_or_ge o nand.size with hsize | hsize
      · have hnext := rest_mod nand.erasesize_pos o
        cases hg : nand.good o with
        | false =>
            rw [checkSkipFrom_bad hlt hsize hg]
            exact ih hnext hlen h
        | true =>
            rw [checkSkipFrom_good hlt hsize hg]
            refine ih hnext (Nat.mod_lt _ (by decide)) ?_
            intro v hv he
            apply h v hv
            rw [he, Nat.mod_mod_of_dvd _ nand.erasesize_dvd, ho, Nat.sub_zero, Nat.add_mod_right]
      · exact checkSkipFrom_end hlt hsize

/-- The bytes from `o` on are good and inside the device. -/
def Contiguous (nand : NandInfo) (o n : Nat) : Prop := ∀ a, o ≤ a → a < o + n → a < nand.size ∧ nand.good a = true

theorem Contiguous.mono {m : Nat} (h : nand.Contiguous o n) (hm : m ≤ n) : nand.Contiguous o m :=
  fun a hle hlt => h a hle (by omega)

theorem Contiguous.rest {b : Nat} (h : nand.Contiguous (o + b) (n - b))
    (hb : ∀ a, o ≤ a → a < o + b → a < nand.size ∧ nand.good a = true) : nand.Contiguous o n := by
  intro a hle hlt
  rcases Nat.lt_or_ge a (o + b) with hin | hout
  · exact hb a hle hin
  · exact h a hout (by omega)

/-- The count reaches the length. -/
theorem checkSkipFrom_fits (ret : Bool) (ho : o % nand.erasesize = 0) (hlen : len < 2 ^ 32)
    (hfit : length ≤ len + (nand.goodBytes o).length)
    (hv : ∃ v < 2 ^ 32, v % nand.erasesize = len % nand.erasesize ∧ length ≤ v) (hfuel : nand.size - o < fuel) :
    ∃ skip, nand.checkSkipFrom length fuel o len ret = some skip ∧
      (skip = false ↔ ret = false ∧ nand.Contiguous o (length - len)) := by
  induction fuel generalizing o len ret with
  | zero => omega
  | succ fuel ih =>
      rcases Nat.lt_or_ge len length with hlt | hdone
      swap
      · refine ⟨ret, checkSkipFrom_done hdone, ?_⟩
        rw [Nat.sub_eq_zero_of_le hdone]
        refine ⟨fun h => ⟨h, fun a hle hlt => by omega⟩, fun h => h.1⟩
      have hsize : o < nand.size := by
        by_contra hno
        rw [goodBytes_end (by omega), List.length_nil] at hfit
        omega
      have hpos := nand.erasesize_pos
      have hnext := rest_mod hpos o
      have hend := rest_le_size hsize
      rw [goodBytes_cons hsize, List.length_append] at hfit
      have hmod : nand.erasesize - o % nand.erasesize = nand.erasesize := by rw [ho, Nat.sub_zero]
      cases hg : nand.good o with
      | false =>
          rw [checkSkipFrom_bad hlt hsize hg]
          rw [hg] at hfit
          obtain ⟨skip, hskip, hiff⟩ := ih true hnext hlen (by simpa using hfit) hv (by omega)
          refine ⟨skip, hskip, ?_⟩
          rw [hiff]
          refine ⟨fun h => by simp at h, fun h => ?_⟩
          have hbad := (h.2 o le_rfl (by omega)).2
          rw [hg] at hbad
          cases hbad
      | true =>
          rw [checkSkipFrom_good hlt hsize hg]
          rw [hg, if_pos rfl, List.length_range'] at hfit
          obtain ⟨v, hv1, hv2, hv3⟩ := hv
          -- both counts are in the same class, so there is room for a whole block
          have hroom : len + nand.erasesize ≤ v := by
            have h1 := Nat.div_add_mod v nand.erasesize
            have h2 := Nat.div_add_mod len nand.erasesize
            rw [hv2] at h1
            have hdiv : len / nand.erasesize < v / nand.erasesize := by
              by_contra hno
              have := Nat.mul_le_mul_left nand.erasesize (Nat.le_of_not_lt hno)
              omega
            have := Nat.mul_le_mul_left nand.erasesize hdiv
            rw [Nat.mul_succ] at this
            omega
          rw [hmod] at hfit hnext hend ⊢
          rw [Nat.mod_eq_of_lt (by omega)]
          obtain ⟨skip, hskip, hiff⟩ := ih ret hnext (show len + nand.erasesize < 2 ^ 32 by omega)
            (by omega) ⟨v, hv1, by rw [Nat.add_mod_right]; exact hv2, hv3⟩ (by omega)
          refine ⟨skip, hskip, ?_⟩
          rw [hiff]
          have hblock : ∀ a, o ≤ a → a < o + nand.erasesize → a < nand.size ∧ nand.good a = true := by
            intro a hle hlt'
            refine ⟨by omega, ?_⟩
            rw [(nand.good_blockWise).rest hpos hle (by omega)]
            exact hg
          constructor
          · rintro ⟨hret, hc⟩
            refine ⟨hret, Contiguous.rest (b := nand.erasesize) ?_ hblock⟩
            rwa [show length - len - nand.erasesize = length - (len + nand.erasesize) by omega]
          · rintro ⟨hret, hc⟩
            exact ⟨hret, fun a hle hlt' => hc a (by omega) (by omega)⟩

/-- What the first block adds to the count, apart from whole blocks. -/
def firstRest (nand : NandInfo) (o : Nat) : Nat :=
  if nand.good o then (nand.erasesize - o % nand.erasesize) % nand.erasesize else 0

/-- The count of good bytes comes to the length below 2^32. -/
def NoWrap (nand : NandInfo) (o length : Nat) : Prop := length + nand.erasesize ≤ 2 ^ 32 + nand.firstRest o

theorem class_le {v c : Nat} (hv : v < 2 ^ 32) (hc : v % nand.erasesize = c) : v + nand.erasesize ≤ 2 ^ 32 + c := by
  obtain ⟨q, hq⟩ := nand.erasesize_dvd
  have hdiv := Nat.div_add_mod v nand.erasesize
  have hlt : v / nand.erasesize < q := by
    rw [Nat.div_lt_iff_lt_mul nand.erasesize_pos, Nat.mul_comm, ← hq]
    exact hv
  have hle := Nat.mul_le_mul_left nand.erasesize hlt
  rw [Nat.mul_succ, ← hq] at hle
  omega

theorem class_max {c : Nat} (hc : c < nand.erasesize) : ∃ v < 2 ^ 32, v % nand.erasesize = c ∧
    v + nand.erasesize = 2 ^ 32 + c := by
  obtain ⟨q, hq⟩ := nand.erasesize_dvd
  have hlt := nand.erasesize_lt
  cases q with
  | zero => omega
  | succ q =>
      refine ⟨nand.erasesize * q + c, ?_, ?_, ?_⟩
      · rw [hq, Nat.mul_succ]
        omega
      · rw [Nat.mul_add_mod, Nat.mod_eq_of_lt hc]
      · rw [hq, Nat.mul_succ]
        omega

/-- The first round, which may begin inside a block. -/
theorem checkSkipLen_first (hpos : 0 < length) (ho : o < nand.size) : nand.checkSkipLen o length =
    nand.checkSkipFrom length (nand.size - o) (o + (nand.erasesize - o % nand.erasesize))
      (if nand.good o then nand.erasesize - o % nand.erasesize else 0) (!nand.good o) := by
  rw [checkSkipLen]
  cases hg : nand.good o with
  | false => exact checkSkipFrom_bad hpos ho hg
  | true =>
      have hle : nand.erasesize - o % nand.erasesize < 2 ^ 32 := (Nat.sub_le _ _).trans_lt nand.erasesize_lt
      rw [checkSkipFrom_good hpos ho hg, Nat.zero_add, Nat.mod_eq_of_lt hle]
      rfl

theorem first_lt (nand : NandInfo) (o : Nat) :
    (if nand.good o then nand.erasesize - o % nand.erasesize else 0) < 2 ^ 32 := by
  have hlt := nand.erasesize_lt
  split <;> omega

theorem first_mod (nand : NandInfo) (o : Nat) :
    (if nand.good o then nand.erasesize - o % nand.erasesize else 0) % nand.erasesize = nand.firstRest o := by
  rw [firstRest]
  split
  next => rfl
  next => exact Nat.zero_mod _

theorem checkSkipLen_short (hlen : length < 2 ^ 32) (h : (nand.goodBytes o).length < length) :
    nand.checkSkipLen o length = none := checkSkipFrom_short hlen (by rw [Nat.zero_add]; exact h)

theorem checkSkipLen_wrap (h : ¬ nand.NoWrap o length) : nand.checkSkipLen o length = none := by
  have hpos : 0 < length := by
    by_contra hno
    have hlt := nand.erasesize_lt
    exact h (by rw [NoWrap]; omega)
  rcases Nat.lt_or_ge o nand.size with ho | ho
  · rw [checkSkipLen_first hpos ho]
    refine checkSkipFrom_never (rest_mod nand.erasesize_pos o) (nand.first_lt o) ?_
    intro v hv hc
    rw [first_mod] at hc
    have hle := class_le hv hc
    rw [NoWrap] at h
    omega
  · exact checkSkipFrom_end hpos ho

theorem checkSkipLen_fits (hfit : length ≤ (nand.goodBytes o).length) (h : nand.NoWrap o length) :
    ∃ skip, nand.checkSkipLen o length = some skip ∧ (skip = false ↔ nand.Contiguous o length) := by
  rcases Nat.eq_zero_or_pos length with rfl | hpos
  · exact ⟨false, checkSkipFrom_done le_rfl, fun _ a hle hlt => by omega, fun _ => rfl⟩
  have ho : o < nand.size := by
    by_contra hno
    rw [goodBytes_end (by omega), List.length_nil] at hfit
    omega
  have hblock := rest_le_size ho
  have hE := block_rest_pos nand.erasesize_pos o
  rw [checkSkipLen_first hpos ho]
  rw [goodBytes_cons ho, List.length_append] at hfit
  obtain ⟨v, hv, hclass, hmax⟩ := class_max
    (show nand.firstRest o < nand.erasesize by rw [← first_mod]; exact Nat.mod_lt _ nand.erasesize_pos)
  have hreach : length ≤ v := by
    rw [NoWrap] at h
    omega
  obtain ⟨skip, hskip, hiff⟩ := checkSkipFrom_fits (!nand.good o) (rest_mod nand.erasesize_pos o)
    (nand.first_lt o) (by split at hfit <;> simp_all) ⟨v, hv, by rw [hclass, first_mod], hreach⟩
    (Nat.sub_lt_sub_left ho (Nat.lt_add_of_pos_right hE))
  refine ⟨skip, hskip, ?_⟩
  rw [hiff]
  cases hg : nand.good o with
  | false =>
      refine ⟨fun hc => absurd hc.1 (by decide), fun hc => ?_⟩
      have hbad := (hc o le_rfl (by omega)).2
      rw [hg] at hbad
      cases hbad
  | true =>
      simp only [Bool.not_true, if_true, true_and]
      constructor
      · intro hc
        refine Contiguous.rest hc ?_
        intro a hle hlt
        refine ⟨by omega, ?_⟩
        rw [(nand.good_blockWise).rest nand.erasesize_pos hle hlt]
        exact hg
      · intro hc a hle hlt
        exact hc a (by omega) (by omega)

end NandInfo

/-! ## The loops -/

/-- The driver was called for the byte. -/
def Flash.Touched (f : Flash) (a : Nat) : Prop := ∃ c ∈ f.log, c.1 ≤ a ∧ a < c.1 + c.2

theorem Flash.touched_append {mem mem' : Mem} {log : List (Nat × Nat)} {offset len a : Nat} :
    (Flash.mk mem' (log ++ [(offset, len)])).Touched a ↔ (Flash.mk mem log).Touched a ∨ a ∈ List.range' offset len := by
  simp only [Touched, List.mem_append, List.mem_singleton, List.mem_range'_1]
  constructor
  · rintro ⟨c, hc | rfl, ha⟩
    · exact Or.inl ⟨c, hc, ha⟩
    · exact Or.inr ha
  · rintro (⟨c, hc, ha⟩ | ha)
    · exact ⟨c, Or.inl hc, ha⟩
    · exact ⟨_, Or.inr rfl, ha⟩

/-- The image is stored at the addresses, and nothing else is changed or touched. -/
structure Placed (as : List Nat) (buf : List UInt8) (f f' : Flash) : Prop where
  stored : as.map f'.mem = buf
  frame : ∀ a, a ∉ as → f'.mem a = f.mem a
  touched : ∀ a, f'.Touched a ↔ f.Touched a ∨ a ∈ as

section
variable {as as' : List Nat} {buf buf' : List UInt8} {f f' f'' : Flash} {o : Nat}

theorem Placed.write (f : Flash) (o : Nat) (buf : List UInt8) :
    Placed (List.range' o buf.length) buf f (nandWrite f o buf) := by
  refine ⟨Mem.map_write _ _ _, ?_, fun a => Flash.touched_append⟩
  intro a ha
  rw [List.mem_range'_1] at ha
  exact Mem.write_of_not_mem ha

theorem Placed.append (h : Placed as buf f f') (h' : Placed as' buf' f' f'') (hdisj : ∀ a ∈ as, a ∉ as') :
    Placed (as ++ as') (buf ++ buf') f f'' := by
  refine ⟨?_, ?_, ?_⟩
  · rw [List.map_append, h'.stored, ← h.stored]
    congr 1
    apply List.map_congr_left
    intro a ha
    exact h'.frame a (hdisj a ha)
  · intro a ha
    rw [List.mem_append, not_or] at ha
    rw [h'.frame a ha.2, h.frame a ha.1]
  · intro a
    rw [h'.touched, h.touched, List.mem_append, or_assoc]

end

namespace NandInfo

section
variable {nand : NandInfo} {o n fuel left : Nat} {buf : List UInt8} {f : Flash}

theorem writeLoop_skip (hbuf : buf.length ≠ 0) (h : nand.looksGood o = false) :
    nand.writeLoop (fuel + 1) o buf f = nand.writeLoop fuel (o + (nand.erasesize - o % nand.erasesize)) buf f := by
  rw [writeLoop, if_neg hbuf]
  dsimp only
  rw [if_pos (by simpa [looksGood] using h)]

theorem writeLoop_store (hbuf : buf.length ≠ 0) (h : nand.looksGood o = true) :
    nand.writeLoop (fuel + 1) o buf f =
      nand.writeLoop fuel (o + min buf.length (nand.erasesize - o % nand.erasesize))
        (buf.drop (min buf.length (nand.erasesize - o % nand.erasesize)))
        (nandWrite f o (buf.take (min buf.length (nand.erasesize - o % nand.erasesize)))) := by
  rw [writeLoop, if_neg hbuf]
  dsimp only
  rw [if_neg (by simpa [looksGood] using h)]

theorem readLoop_skip {bytes : List UInt8} (hleft : left ≠ 0) (h : nand.looksGood o = false) :
    nand.readLoop (fuel + 1) o left bytes f =
      nand.readLoop fuel (o + (nand.erasesize - o % nand.erasesize)) left bytes f := by
  rw [readLoop, if_neg hleft]
  dsimp only
  rw [if_pos (by simpa [looksGood] using h)]

theorem readLoop_load {bytes : List UInt8} (hleft : left ≠ 0) (h : nand.looksGood o = true) :
    nand.readLoop (fuel + 1) o left bytes f =
      nand.readLoop fuel (o + min left (nand.erasesize - o % nand.erasesize))
        (left - min left (nand.erasesize - o % nand.erasesize))
        (bytes ++ f.mem.read o (min left (nand.erasesize - o % nand.erasesize)))
        ⟨f.mem, f.log ++ [(o, min left (nand.erasesize - o % nand.erasesize))]⟩ := by
  rw [readLoop, if_neg hleft]
  dsimp only
  rw [if_neg (by simpa [looksGood] using h)]
  rfl

/-- A block that looks bad is left out. -/
theorem usable_skip (hbad : nand.looksGood o = false) (hn : 0 < (usable nand.looksGood o n).length) :
    ∃ m, n = nand.erasesize - o % nand.erasesize + m ∧
      usable nand.looksGood o n = usable nand.looksGood (o + (nand.erasesize - o % nand.erasesize)) m := by
  have hpos := nand.erasesize_pos
  have hnone : ∀ k ≤ nand.erasesize - o % nand.erasesize, usable nand.looksGood o k = [] := by
    intro k hk
    apply usable_none
    intro a hle hlt
    rw [(nand.looksGood_blockWise).rest hpos hle (by omega)]
    exact hbad
  rcases Nat.lt_or_ge n (nand.erasesize - o % nand.erasesize) with hlt | hge
  · rw [hnone n hlt.le, List.length_nil] at hn
    omega
  · obtain ⟨m, rfl⟩ := Nat.exists_eq_add_of_le hge
    refine ⟨m, rfl, ?_⟩
    rw [usable_add, hnone _ le_rfl, List.nil_append]

/-- The bytes of a block that looks good are used. -/
theorem usable_store (hgood : nand.looksGood o = true) (hn : left ≤ (usable nand.looksGood o n).length) :
    ∃ m, n = min left (nand.erasesize - o % nand.erasesize) + m ∧
      usable nand.looksGood o n = List.range' o (min left (nand.erasesize - o % nand.erasesize)) ++
        usable nand.looksGood (o + min left (nand.erasesize - o % nand.erasesize)) m := by
  have hle := hn.trans usable_length_le
  obtain ⟨m, hm⟩ := Nat.exists_eq_add_of_le
    (show min left (nand.erasesize - o % nand.erasesize) ≤ n from (Nat.min_le_left _ _).trans hle)
  refine ⟨m, hm, ?_⟩
  rw [hm, usable_add]
  congr 1
  apply usable_all
  intro a hle hlt
  rw [(nand.looksGood_blockWise).rest nand.erasesize_pos hle (by omega)]
  exact hgood

theorem take_range'_append {as : List Nat} {m k : Nat} (h : m ≤ k) :
    (List.range' o m ++ as).take k = List.range' o m ++ as.take (k - m) := by
  rw [List.take_append, List.length_range', List.take_of_length_le (by rw [List.length_range']; exact h)]

/-- The image goes to the first bytes that look good. -/
theorem writeLoop_placed (h : buf.length ≤ (usable nand.looksGood o n).length) (hfuel : n < fuel) :
    ∃ f', nand.writeLoop fuel o buf f = some f' ∧ Placed ((usable nand.looksGood o n).take buf.length) buf f f' := by
  induction fuel generalizing o n buf f with
  | zero => omega
  | succ fuel ih =>
      rcases Nat.eq_zero_or_pos buf.length with hzero | hpos
      · have hnil := List.length_eq_zero_iff.mp hzero
        subst hnil
        exact ⟨f, by rw [writeLoop, if_pos hzero], rfl, fun _ _ => rfl, fun a => by simp⟩
      have hrest := block_rest_pos nand.erasesize_pos o
      cases hg : nand.looksGood o with
      | false =>
          obtain ⟨m, rfl, hus⟩ := usable_skip hg (hpos.trans_le h)
          rw [writeLoop_skip (by omega) hg, hus]
          rw [hus] at h
          exact ih h (by omega)
      | true =>
          obtain ⟨m, hm, hus⟩ := usable_store hg h
          rw [writeLoop_store (by omega) hg, hus]
          rw [hus, List.length_append, List.length_range'] at h
          obtain ⟨k, hk⟩ : ∃ k, k = min buf.length (nand.erasesize - o % nand.erasesize) := ⟨_, rfl⟩
          rw [← hk] at h hm ⊢
          obtain ⟨f', hrun, hplaced⟩ := ih (o := o + k) (n := m) (f := nandWrite f o (buf.take k))
            (show (buf.drop k).length ≤ _ by rw [List.length_drop]; omega) (by omega)
          refine ⟨f', hrun, ?_⟩
          have hfirst := Placed.write f o (buf.take k)
          rw [List.length_take, Nat.min_eq_left (by omega)] at hfirst
          rw [take_range'_append (by omega)]
          rw [List.length_drop] at hplaced
          have hall := hfirst.append hplaced ?_
          · rwa [List.take_append_drop] at hall
          · intro a ha hin
            have hup := (mem_usable.mp (List.mem_of_mem_take hin)).1.1
            have hdown := (List.mem_range'_1.mp ha).2
            omega

/-- The bytes come from the first bytes that look good. -/
theorem readLoop_loaded (bytes : List UInt8) (h : left ≤ (usable nand.looksGood o n).length) (hfuel : n < fuel) :
    ∃ f', nand.readLoop fuel o left bytes f =
        some (bytes ++ ((usable nand.looksGood o n).take left).map f.mem, f') ∧
      ∀ a, f'.Touched a ↔ f.Touched a ∨ a ∈ (usable nand.looksGood o n).take left := by
  induction fuel generalizing o n left bytes f with
  | zero => omega
  | succ fuel ih =>
      rcases Nat.eq_zero_or_pos left with rfl | hpos
      · exact ⟨f, by rw [readLoop, if_pos rfl]; simp, fun a => by simp⟩
      have hrest := block_rest_pos nand.erasesize_pos o
      cases hg : nand.looksGood o with
      | false =>
          obtain ⟨m, rfl, hus⟩ := usable_skip hg (hpos.trans_le h)
          rw [readLoop_skip (by omega) hg, hus]
          rw [hus] at h
          exact ih bytes h (by omega)
      | true =>
          obtain ⟨m, hm, hus⟩ := usable_store hg h
          rw [readLoop_load (by omega) hg, hus]
          rw [hus, List.length_append, List.length_range'] at h
          obtain ⟨k, hk⟩ : ∃ k, k = min left (nand.erasesize - o % nand.erasesize) := ⟨_, rfl⟩
          rw [← hk] at h hm ⊢
          obtain ⟨f', hrun, htouch⟩ := ih (o := o + k) (n := m) (f := ⟨f.mem, f.log ++ [(o, k)]⟩)
            (bytes ++ f.mem.read o k) (show left - k ≤ _ by omega) (by omega)
          refine ⟨f', ?_, ?_⟩
          · rw [hrun, take_range'_append (by omega), List.map_append, Mem.read_eq_map, List.append_assoc]
          · intro a
            rw [htouch, Flash.touched_append, take_range'_append (by omega), List.mem_append, or_assoc]

/-- More fuel does not change a result. -/
theorem writeLoop_mono {f' : Flash} {fuel' : Nat} (hle : fuel ≤ fuel') (h : nand.writeLoop fuel o buf f = some f') :
    nand.writeLoop fuel' o buf f = some f' := by
  induction fuel generalizing o buf f fuel' with
  | zero => cases h
  | succ fuel ih =>
      cases fuel' with
      | zero => omega
      | succ fuel' =>
          rw [writeLoop] at h ⊢
          split
          next hz => rwa [if_pos hz] at h
          next hz =>
            rw [if_neg hz] at h
            dsimp only at h ⊢
            split
            next hb => rw [if_pos hb] at h; exact ih (by omega) h
            next hb => rw [if_neg hb] at h; exact ih (by omega) h

theorem readLoop_mono {bytes : List UInt8} {r : List UInt8 × Flash} {fuel' : Nat} (hle : fuel ≤ fuel')
    (h : nand.readLoop fuel o left bytes f = some r) : nand.readLoop fuel' o left bytes f = some r := by
  induction fuel generalizing o left bytes f fuel' with
  | zero => cases h
  | succ fuel ih =>
      cases fuel' with
      | zero => omega
      | succ fuel' =>
          rw [readLoop] at h ⊢
          split
          next hz => rwa [if_pos hz] at h
          next hz =>
            rw [if_neg hz] at h
            dsimp only at h ⊢
            split
            next hb => rw [if_pos hb] at h; exact ih (by omega) h
            next hb => rw [if_neg hb] at h; exact ih (by omega) h

/-- A loop that ends has found enough bytes that look good. -/
theorem usable_of_writeLoop {f' : Flash} (h : nand.writeLoop fuel o buf f = some f') :
    ∃ n, buf.length ≤ (usable nand.looksGood o n).length := by
  induction fuel generalizing o buf f with
  | zero => cases h
  | succ fuel ih =>
      rcases Nat.eq_zero_or_pos buf.length with hzero | hpos
      · exact ⟨0, by rw [hzero]; exact Nat.zero_le _⟩
      cases hg : nand.looksGood o with
      | false =>
          rw [writeLoop_skip (by omega) hg] at h
          obtain ⟨n, hn⟩ := ih h
          refine ⟨nand.erasesize - o % nand.erasesize + n, ?_⟩
          rw [usable_add, List.length_append]
          omega
      | true =>
          rw [writeLoop_store (by omega) hg] at h
          obtain ⟨n, hn⟩ := ih h
          rw [List.length_drop] at hn
          refine ⟨min buf.length (nand.erasesize - o % nand.erasesize) + n, ?_⟩
          have hblock : usable nand.looksGood o (min buf.length (nand.erasesize - o % nand.erasesize)) =
              List.range' o (min buf.length (nand.erasesize - o % nand.erasesize)) := by
            apply usable_all
            intro a hle hlt
            rw [(nand.looksGood_blockWise).rest nand.erasesize_pos hle (by omega)]
            exact hg
          rw [usable_add, List.length_append, hblock, List.length_range']
          omega

end

end NandInfo

end Uboot.Nand
