import Uboot.Bootm.Basic

/-!
# Moving with the watchdog

`memmove_wd` of `common/image.c`, with `memmove` of `lib/string.c` byte by byte. With `CONFIG_WATCHDOG` a move is made in chunks,
from the lowest address on.
-/

namespace Uboot.Bootm

open Lib

/-- `while (count--) *tmp++ = *s++;` -/
def copyUp : Nat → Nat → Nat → Mem → Mem
  | 0, _, _, m => m
  | count + 1, tmp, s, m => copyUp count (tmp + 1) (s + 1) (m.write tmp [m s])

/-- `while (count--) *--tmp = *--s;` from `count` bytes above the two addresses on -/
def copyDown : Nat → Nat → Nat → Mem → Mem
  | 0, _, _, m => m
  | count + 1, tmp, s, m => copyDown count tmp s (m.write (tmp + count) [m (s + count)])

/-- `memmove` of `lib/string.c` -/
def memmoveBytes (m : Mem) (dest src count : Nat) : Mem :=
  if src = dest then m
  else if dest ≤ src then copyUp count dest src m
  else copyDown count dest src m

/-- The loop of `memmove_wd`; none when the rounds are used up -/
def wdLoop (chunksz : Nat) : Nat → Nat → Nat → Nat → Mem → Option Mem
  | fuel, to_, from_, len, m =>
    if 0 < len then
      match fuel with
      | 0 => none
      | fuel + 1 =>
        let tail := if len > chunksz then chunksz else len
        wdLoop chunksz fuel (to_ + tail) (from_ + tail) (len - tail) (memmoveBytes m to_ from_ tail)
    else some m

/-- `memmove_wd` with `CONFIG_WATCHDOG` -/
def memmoveWd (m : Mem) (to_ from_ len chunksz : Nat) : Option Mem :=
  if to_ = from_ then some m else wdLoop chunksz len to_ from_ len m

/-- `memmove_wd` without it -/
def memmoveNoWd (m : Mem) (to_ from_ len : Nat) : Mem := if to_ = from_ then m else memmoveBytes m to_ from_ len

section
variable {m : Mem} {to_ from_ len chunksz count : Nat}

/-! ## One move -/

theorem memmove_apply (i : Nat) : memmove m to_ from_ len i = if to_ ≤ i ∧ i < to_ + len then m (from_ + (i - to_)) else m i := by
  rw [memmove, Mem.write, Mem.read_length]
  split
  · exact Mem.getD_read (by omega)
  · rfl

theorem write_one (a : Nat) (b : UInt8) (i : Nat) : m.write a [b] i = if i = a then b else m i := by
  rw [Mem.write, List.length_singleton]
  split
  · rename_i hin
    rw [if_pos (by omega), show i - a = 0 by omega]
    rfl
  · rw [if_neg (by omega)]

theorem copyUp_eq (h : to_ ≤ from_) : copyUp count to_ from_ m = memmove m to_ from_ count := by
  induction count generalizing to_ from_ m with
  | zero =>
      funext i
      rw [copyUp, memmove_apply, if_neg (by omega)]
  | succ count ih =>
      funext i
      rw [copyUp, ih (Nat.succ_le_succ h), memmove_apply, memmove_apply]
      by_cases hfirst : i = to_
      · rw [if_neg (by omega), if_pos (by omega), write_one, if_pos hfirst, hfirst, Nat.sub_self, Nat.add_zero]
      · by_cases hin : to_ + 1 ≤ i ∧ i < to_ + 1 + count
        · rw [if_pos hin, if_pos (by omega), write_one, if_neg (by omega)]
          congr 1
          omega
        · rw [if_neg hin, if_neg (by omega), write_one, if_neg hfirst]

theorem copyDown_eq (h : from_ < to_) : copyDown count to_ from_ m = memmove m to_ from_ count := by
  induction count generalizing m with
  | zero =>
      funext i
      rw [copyDown, memmove_apply, if_neg (by omega)]
  | succ count ih =>
      funext i
      rw [copyDown, ih, memmove_apply, memmove_apply]
      by_cases hlast : i = to_ + count
      · rw [if_neg (by omega), if_pos (by omega), write_one, if_pos hlast]
        congr 1
        omega
      · by_cases hin : to_ ≤ i ∧ i < to_ + count
        · rw [if_pos hin, if_pos (by omega), write_one, if_neg (by omega)]
        · rw [if_neg hin, if_neg (by omega), write_one, if_neg hlast]

theorem memmoveBytes_eq : memmoveBytes m to_ from_ count = memmove m to_ from_ count := by
  rw [memmoveBytes]
  split
  · rename_i heq
    funext i
    rw [memmove_apply, heq]
    split
    · rw [show to_ + (i - to_) = i by omega]
    · rfl
  split
  · rename_i hle
    exact copyUp_eq hle
  · rename_i hlt
    exact copyDown_eq (by omega)

/-! ## What a byte becomes -/

/-- The source that a chunk finds for byte `i` of the range, `d` bytes below its place: the first `d` bytes of the chunk may be
bytes that an earlier chunk has put there. -/
def settled (m : Mem) (from_ d chunksz i : Nat) : UInt8 :=
  if _h : d ≤ i ∧ i % chunksz < d then settled m from_ d chunksz (i - d) else m (from_ + i)
termination_by i
decreasing_by omega

/-- The memory with the first `n` bytes moved -/
def moved (m : Mem) (to_ from_ chunksz n : Nat) : Mem := fun a =>
  if to_ ≤ a ∧ a < to_ + n then settled m from_ (to_ - from_) chunksz (a - to_) else m a

theorem settled_found {d i : Nat} (h : d ≤ i ∧ i % chunksz < d) : settled m from_ d chunksz i = settled m from_ d chunksz (i - d) := by
  rw [settled, dif_pos h]

theorem settled_kept {d i : Nat} (h : ¬ (d ≤ i ∧ i % chunksz < d)) : settled m from_ d chunksz i = m (from_ + i) := by
  rw [settled, dif_neg h]

/-- A chunk at a multiple of the chunk size -/
theorem moved_chunk {p tail : Nat} (hp : chunksz ∣ p) (htail : tail ≤ chunksz) :
    memmoveBytes (moved m to_ from_ chunksz p) (to_ + p) (from_ + p) tail = moved m to_ from_ chunksz (p + tail) := by
  funext a
  rw [memmoveBytes_eq, memmove_apply]
  by_cases hin : to_ + p ≤ a ∧ a < to_ + p + tail
  · obtain ⟨j, rfl⟩ := Nat.exists_eq_add_of_le hin.1
    have hmod : (p + j) % chunksz = j := by
      obtain ⟨k, rfl⟩ := hp
      rw [Nat.mul_add_mod, Nat.mod_eq_of_lt (by omega)]
    rw [if_pos hin, moved, moved, Nat.add_sub_cancel_left, if_pos (show to_ ≤ to_ + p + j ∧ to_ + p + j < to_ + (p + tail) by omega),
      show to_ + p + j - to_ = p + j by omega]
    by_cases hfound : to_ - from_ ≤ p + j ∧ j < to_ - from_
    · have hstep : settled m from_ (to_ - from_) chunksz (p + j) = _ := settled_found (by rw [hmod]; exact hfound)
      rw [if_pos (by omega), hstep]
      congr 1
      omega
    · have hstep : settled m from_ (to_ - from_) chunksz (p + j) = _ := settled_kept (by rw [hmod]; exact hfound)
      rw [if_neg (by omega), hstep, Nat.add_assoc]
  · rw [if_neg hin, moved, moved]
    by_cases hbelow : to_ ≤ a ∧ a < to_ + p
    · rw [if_pos hbelow, if_pos (by omega)]
    · rw [if_neg hbelow, if_neg (by omega)]

/-! ## The loop -/

theorem wdLoop_moved {p fuel : Nat} (hpos : 0 < chunksz) (hp : chunksz ∣ p ∨ len = 0) (hfuel : len ≤ fuel) :
    wdLoop chunksz fuel (to_ + p) (from_ + p) len (moved m to_ from_ chunksz p) = some (moved m to_ from_ chunksz (p + len)) := by
  induction fuel generalizing p len with
  | zero =>
      obtain rfl := Nat.le_zero.mp hfuel
      rw [wdLoop, if_neg (Nat.lt_irrefl 0), Nat.add_zero]
  | succ fuel ih =>
      rw [wdLoop]
      by_cases hlen : 0 < len
      · have hdvd : chunksz ∣ p := hp.resolve_right (Nat.ne_of_gt hlen)
        simp only [if_pos hlen]
        by_cases hmore : len > chunksz
        · rw [if_pos hmore, moved_chunk hdvd (Nat.le_refl _), Nat.add_assoc, Nat.add_assoc,
            ih (Or.inl (Nat.dvd_add hdvd (Nat.dvd_refl _))) (by omega), show p + chunksz + (len - chunksz) = p + len by omega]
        · rw [if_neg hmore, moved_chunk hdvd (Nat.le_of_not_lt hmore), Nat.sub_self, Nat.add_assoc, Nat.add_assoc,
            ih (Or.inr rfl) (Nat.zero_le _), Nat.add_zero]
      · rw [if_neg hlen, Nat.eq_zero_of_not_pos hlen, Nat.add_zero]

theorem moved_zero : moved m to_ from_ chunksz 0 = m := by
  funext a
  exact if_neg (by omega)

theorem memmoveWd_eq (hpos : 0 < chunksz) (hne : to_ ≠ from_) : memmoveWd m to_ from_ len chunksz = some (moved m to_ from_ chunksz len) := by
  have h := @wdLoop_moved m to_ from_ len chunksz 0 len hpos (Or.inl (Nat.dvd_zero _)) (Nat.le_refl _)
  rw [moved_zero, Nat.zero_add] at h
  rw [memmoveWd, if_neg hne]
  exact h

/-! ## Exactly when -/

/-- Bytes that a chunk finds overwritten are the same again `d` places on. -/
def Repeats (m : Mem) (to_ from_ len chunksz : Nat) : Prop :=
  ∀ i < len, to_ - from_ ≤ i → i % chunksz < to_ - from_ → m (from_ + (i - (to_ - from_))) = m (from_ + i)

theorem moved_eq_iff : moved m to_ from_ chunksz len = memmove m to_ from_ len ↔
    ∀ i < len, settled m from_ (to_ - from_) chunksz i = m (from_ + i) := by
  constructor
  · intro h i hi
    have hi' := congrFun h (to_ + i)
    rw [moved, memmove_apply, if_pos (by omega), if_pos (by omega), Nat.add_sub_cancel_left] at hi'
    exact hi'
  · intro h
    funext a
    rw [moved, memmove_apply]
    split
    · exact h _ (by omega)
    · rfl

theorem settled_iff : (∀ i < len, settled m from_ (to_ - from_) chunksz i = m (from_ + i)) ↔ Repeats m to_ from_ len chunksz := by
  constructor
  · intro h i hi hle hmod
    rw [← h i hi, settled_found ⟨hle, hmod⟩]
    exact (h _ (by omega)).symm
  · intro h i
    induction i using Nat.strong_induction_on with
    | _ i ih =>
        intro hi
        by_cases hfound : to_ - from_ ≤ i ∧ i % chunksz < to_ - from_
        · rw [settled_found hfound, ih _ (by omega) (by omega)]
          exact h i hi hfound.1 hfound.2
        · exact settled_kept hfound

/-- For the memory at hand -/
theorem memmoveWd_mem_iff (hpos : 0 < chunksz) :
    memmoveWd m to_ from_ len chunksz = some (memmoveNoWd m to_ from_ len) ↔ Repeats m to_ from_ len chunksz := by
  by_cases heq : to_ = from_
  · rw [memmoveWd, memmoveNoWd, if_pos heq, if_pos heq]
    refine iff_of_true rfl fun i _ _ hmod => ?_
    omega
  · rw [memmoveWd_eq hpos heq, memmoveNoWd, if_neg heq, memmoveBytes_eq, Option.some_inj, moved_eq_iff, settled_iff]

/-- For every memory -/
theorem repeats_all_iff (hpos : 0 < chunksz) :
    (∀ m, Repeats m to_ from_ len chunksz) ↔ to_ ≤ from_ ∨ from_ + len ≤ to_ ∨ len ≤ chunksz := by
  constructor
  · intro h
    by_contra hnot
    simp only [not_or, not_le] at hnot
    obtain ⟨hup, hover, hlong⟩ := hnot
    -- the first byte that a chunk finds overwritten is the only one that is not 0
    have hfirst : (max (to_ - from_) chunksz) % chunksz < to_ - from_ := by
      rcases Nat.le_total chunksz (to_ - from_) with hle | hle
      · rw [Nat.max_eq_left hle]
        exact (Nat.mod_lt _ hpos).trans_le hle
      · rw [Nat.max_eq_right hle, Nat.mod_self]
        omega
    have hsame := h (fun a => if a = from_ + max (to_ - from_) chunksz then 1 else 0) _ (by omega) (Nat.le_max_left _ chunksz) hfirst
    dsimp only at hsame
    rw [if_neg (by omega), if_pos rfl] at hsame
    exact absurd hsame (by decide)
  · rintro (hle | hdisjoint | hshort) m i hi hd hmod
    · omega
    · omega
    · rw [Nat.mod_eq_of_lt (by omega)] at hmod
      omega

/-- The two builds leave the same memory just when the ranges do not overlap from below or one chunk holds all; for a given
memory, just when the bytes found overwritten repeat. -/
theorem memmove_wd_iff (to_ from_ len : Nat) {chunksz : Nat} (hpos : 0 < chunksz) :
    ((∀ m, memmoveWd m to_ from_ len chunksz = some (memmoveNoWd m to_ from_ len)) ↔
      to_ ≤ from_ ∨ from_ + len ≤ to_ ∨ len ≤ chunksz) ∧
    ∀ m, memmoveWd m to_ from_ len chunksz = some (memmoveNoWd m to_ from_ len) ↔ Repeats m to_ from_ len chunksz :=
  ⟨(forall_congr' fun _ => memmoveWd_mem_iff hpos).trans (repeats_all_iff hpos), fun _ => memmoveWd_mem_iff hpos⟩

end

/-- An image moved down over itself -/
theorem memmove_wd_sample : memmoveWd UInt8.ofNat 0x80008000 0x80010040 0x300000 0x10000 =
    some (memmoveNoWd UInt8.ofNat 0x80008000 0x80010040 0x300000) :=
  (memmove_wd_iff 0x80008000 0x80010040 0x300000 (show 0 < 0x10000 by decide)).1.mpr (by decide) UInt8.ofNat

/-- An image moved up over itself by less than its length; and the bytes 0, 1, 2, 3 moved by one place in chunks of two. -/
theorem memmove_wd_spoils : (¬ ∀ m, memmoveWd m 0x80108000 0x80000040 0x300000 0x10000 = some (memmoveNoWd m 0x80108000 0x80000040 0x300000)) ∧
    (memmoveWd UInt8.ofNat 1 0 4 2).map (fun m => m.read 1 4) = some [0, 1, 1, 3] := by
  refine ⟨?_, by decide⟩
  intro h
  have hcond := (repeats_all_iff (show 0 < 0x10000 by decide)).mp fun m => (memmoveWd_mem_iff (by decide)).mp (h m)
  exact absurd hcond (by decide)

end Uboot.Bootm
