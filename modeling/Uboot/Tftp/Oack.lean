import Uboot.Tftp.Basic

/-!
# The options of an OACK

A server answers with options that the client asked for, `timeout` and `blksize`. The client scans for the bytes of
`blksize` at every offset; the letter `b` is nowhere else in the options.
-/

namespace Uboot.Tftp

open Uboot.Lib

inductive Opt where
  | timeout (n : Nat)
  | blksize (n : Nat)
deriving DecidableEq, Repr

def Opt.bytes : Opt → List UInt8
  | .timeout n => timeoutName ++ [0] ++ sprintfNum n ++ [0]
  | .blksize n => blksizeName ++ [0] ++ sprintfNum n ++ [0]

def optsBytes (opts : List Opt) : List UInt8 := opts.flatMap Opt.bytes

/-- The block size after the options. -/
def optsBlkSize (opts : List Opt) (blkSize : Nat) : Nat :=
  opts.foldl (fun b o => match o with
    | .timeout _ => b
    | .blksize n => n) blkSize

/-- The options leave the block size as it is, or set it. -/
theorem optsBlkSize_cases (opts : List Opt) :
    (∀ b, optsBlkSize opts b = b) ∨ ∃ n, ∀ b, optsBlkSize opts b = n := by
  induction opts with
  | nil => exact Or.inl fun _ => rfl
  | cons o opts ih =>
      cases o with
      | timeout n => exact ih
      | blksize n => exact Or.inr ⟨optsBlkSize opts n, fun _ => rfl⟩

/-- A block size fits in 16 bits. -/
def OptsOk (opts : List Opt) : Prop := ∀ n, Opt.blksize n ∈ opts → n < 65536

/-! ## Numbers -/

theorem decimal_mem {n : Nat} {c : UInt8} (h : c ∈ sprintfNum n) : isdigit c = true := by
  unfold sprintfNum at h
  split at h
  next => rw [List.mem_singleton.mp h]; decide
  next =>
    simp only [decimal, List.mem_map, List.mem_reverse] at h
    obtain ⟨d, hd, rfl⟩ := h
    have hlt := Nat.digits_lt_base (by omega) hd
    interval_cases d <;> decide

theorem strtoulLoop_digits {ds : List Nat} (hds : ∀ d ∈ ds, d < 10) {c : UInt8} (hc : isxdigit c = false)
    (t : List UInt8) (r : Nat) (hr : r * 10 ^ ds.length + Nat.ofDigits 10 ds.reverse < wordSize) :
    strtoulLoop 10 (ds.map (fun d => UInt8.ofNat (48 + d)) ++ c :: t) r =
      r * 10 ^ ds.length + Nat.ofDigits 10 ds.reverse := by
  induction ds generalizing r with
  | nil => simp [strtoulLoop, hc]
  | cons d ds ih =>
      have hd : d < 10 := hds d (by simp)
      have hval : digitValue (UInt8.ofNat (48 + d)) = d := by interval_cases d <;> rfl
      have hx : isxdigit (UInt8.ofNat (48 + d)) = true := by interval_cases d <;> rfl
      have hrev : Nat.ofDigits 10 (d :: ds).reverse = Nat.ofDigits 10 ds.reverse + 10 ^ ds.length * d := by
        rw [List.reverse_cons, Nat.ofDigits_append]
        simp
      have hsplit : r * 10 ^ (d :: ds).length + Nat.ofDigits 10 (d :: ds).reverse =
          (r * 10 + d) * 10 ^ ds.length + Nat.ofDigits 10 ds.reverse := by
        rw [hrev, List.length_cons, pow_succ]; ring
      rw [hsplit] at hr ⊢
      have hsmall : r * 10 + d < wordSize := by
        have : r * 10 + d ≤ (r * 10 + d) * 10 ^ ds.length := Nat.le_mul_of_pos_right _ (by positivity)
        omega
      rw [List.map_cons, List.cons_append, strtoulLoop, if_pos ⟨hx, by rw [hval]; exact hd⟩, hval,
        Nat.mod_eq_of_lt hsmall]
      exact ih (fun e he => hds e (by simp [he])) _ hr

/-- What `sprintf` prints, `simple_strtoul` reads back. -/
theorem simpleStrtoul_sprintfNum {n : Nat} (hn : n < wordSize) (t : List UInt8) :
    simpleStrtoul (sprintfNum n ++ 0 :: t) 10 = n := by
  by_cases h0 : n = 0
  · subst h0
    simp [sprintfNum, simpleStrtoul, strtoulLoop, isxdigit, isdigit]
  · have hne : Nat.digits 10 n ≠ [] := Nat.digits_ne_nil_iff_ne_zero.mpr h0
    have hrev : (Nat.digits 10 n).reverse ≠ [] := by simpa using hne
    obtain ⟨d, ds, hds⟩ := List.exists_cons_of_ne_nil hrev
    have hlast : d ≠ 0 := by
      have hg := Nat.getLast_digit_ne_zero 10 h0
      have he : (Nat.digits 10 n).getLast hne = d := by
        have hd : Nat.digits 10 n = ds.reverse ++ [d] := by
          rw [← List.reverse_reverse (Nat.digits 10 n), hds, List.reverse_cons]
        simp [hd]
      rwa [he] at hg
    have hlt : ∀ e ∈ d :: ds, e < 10 := by
      intro e he
      rw [← hds, List.mem_reverse] at he
      exact Nat.digits_lt_base (by omega) he
    have hval : Nat.ofDigits 10 (d :: ds).reverse = n := by
      rw [← hds, List.reverse_reverse, Nat.ofDigits_digits]
    have hloop := strtoulLoop_digits hlt (show isxdigit 0 = false by decide) t 0 (by rw [hval]; simpa using hn)
    rw [hval] at hloop
    have hd : d < 10 := hlt d (by simp)
    have h48 : UInt8.ofNat (48 + d) ≠ 48 := by interval_cases d <;> simp_all
    rw [sprintfNum, if_neg h0, decimal, hds]
    rw [List.map_cons, List.cons_append] at hloop ⊢
    unfold simpleStrtoul
    split
    next cp heq => exact absurd (List.cons.inj heq).1 h48
    next => simpa using hloop

/-! ## The scan -/

theorem oackLoop_skip {s : List UInt8} (h : 98 ∉ s) (n : Nat) (t : List UInt8) (blkSize : Nat) :
    oackLoop n (s ++ t) blkSize = oackLoop (n - s.length) t blkSize := by
  induction s generalizing n with
  | nil => rfl
  | cons c s ih =>
      have hc : 98 ≠ c := fun he => h (by simp [he])
      have hs : 98 ∉ s := fun hm => h (by simp [hm])
      cases n with
      | zero => simp [oackLoop]
      | succ n =>
          have hne : (c :: (s ++ t)).take 8 ≠ blksizeName ++ [0] := by
            intro he
            have := congrArg (List.getD · 0 0) he
            simp only [List.take_succ_cons, List.getD_cons_zero, blksizeName] at this
            exact hc this.symm
          rw [List.cons_append, oackLoop, if_neg hne, List.drop_one, List.tail_cons, ih hs]
          congr 1
          simp

theorem not_mem_sprintfNum {n : Nat} : 98 ∉ sprintfNum n := by
  intro h
  exact absurd (decimal_mem h) (by decide)

theorem oackLoop_opts {opts : List Opt} (h : OptsOk opts) (t : List UInt8) (blkSize : Nat) :
    oackLoop ((optsBytes opts).length - 8) (optsBytes opts ++ t) blkSize = optsBlkSize opts blkSize := by
  induction opts generalizing blkSize with
  | nil => rfl
  | cons o opts ih =>
      have hrest := fun b => ih (fun n hn => h n (by simp [hn])) b
      cases o with
      | timeout n =>
          have hskip : 98 ∉ (Opt.timeout n).bytes := by
            simp [Opt.bytes, timeoutName, not_mem_sprintfNum]
          rw [optsBytes, List.flatMap_cons, List.append_assoc, oackLoop_skip hskip, List.length_append]
          rw [show (Opt.timeout n).bytes.length + (opts.flatMap Opt.bytes).length - 8 -
            (Opt.timeout n).bytes.length = (optsBytes opts).length - 8 by simp only [optsBytes]; omega]
          exact hrest blkSize
      | blksize n =>
          have hn : n < 65536 := h n (by simp)
          -- the name without its first letter, and the number
          obtain ⟨s, hs⟩ : ∃ s, s = [108, 107, 115, 105, 122, 101] ++ [0] ++ sprintfNum n ++ [0] := ⟨_, rfl⟩
          have hbytes : (Opt.blksize n).bytes = 98 :: s := by simp [Opt.bytes, blksizeName, hs]
          have hskip : 98 ∉ s := by simp [hs, not_mem_sprintfNum]
          have hlen : 8 ≤ s.length := by simp [hs]
          have htake : (98 :: (s ++ (optsBytes opts ++ t))).take 8 = blksizeName ++ [0] := by
            simp [hs, blksizeName]
          have hdrop : (98 :: (s ++ (optsBytes opts ++ t))).drop 8 =
              sprintfNum n ++ 0 :: (optsBytes opts ++ t) := by simp [hs]
          rw [optsBytes, List.flatMap_cons, ← optsBytes, hbytes, List.append_assoc, List.length_append,
            List.length_cons, show s.length + 1 + (optsBytes opts).length - 8 =
              (s.length + (optsBytes opts).length - 8) + 1 by omega, List.cons_append, oackLoop, if_pos htake, hdrop,
            simpleStrtoul_sprintfNum (by simp only [wordSize]; omega), Nat.mod_eq_of_lt hn, List.drop_one,
            List.tail_cons, oackLoop_skip hskip]
          rw [show s.length + (optsBytes opts).length - 8 - s.length = (optsBytes opts).length - 8 by omega]
          exact hrest n

end Uboot.Tftp
