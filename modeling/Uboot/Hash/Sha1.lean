import Mathlib.Data.UInt
import Uboot.Lib.BigEndian
import Uboot.Lib.Chunks

/-!
# SHA-1 (`lib/sha1.c`)

The block function keeps 16 words in a ring and renames the registers in place of moving them. The rest of a block stays in a
buffer between two calls. An `unsigned long` has 32 bits, and lengths are of type `int`.
-/

namespace Uboot.Hash

open Lib

abbrev Bytes := List UInt8

/-- `GET_UINT32_BE` -/
def getUint32Be (b : Bytes) (i : Nat) : UInt32 :=
  (b.getD i 0).toUInt32 <<< 24 ||| (b.getD (i + 1) 0).toUInt32 <<< 16 ||| (b.getD (i + 2) 0).toUInt32 <<< 8 |||
    (b.getD (i + 3) 0).toUInt32

/-- `PUT_UINT32_BE` -/
def putUint32Be (n : UInt32) : Bytes := [(n >>> 24).toUInt8, (n >>> 16).toUInt8, (n >>> 8).toUInt8, n.toUInt8]

structure Sha1State where
  a : UInt32
  b : UInt32
  c : UInt32
  d : UInt32
  e : UInt32
deriving DecidableEq, Repr

/-- `sha1_context` -/
structure Sha1Context where
  total : UInt32 × UInt32
  state : Sha1State
  buffer : Bytes
deriving DecidableEq, Repr

def sha1Init : Sha1State := ⟨0x67452301, 0xefcdab89, 0x98badcfe, 0x10325476, 0xc3d2e1f0⟩

/-- `sha1_starts` -/
def sha1Starts (ctx : Sha1Context) : Sha1Context := { ctx with total := (0, 0), state := sha1Init }

/-! ## A block -/

/-- `S` -/
def rotl (x n : UInt32) : UInt32 := x <<< n ||| x >>> (32 - n)

/-- `R`, which replaces a word in the ring -/
def sha1R (w : List UInt32) (t : Nat) : List UInt32 :=
  w.set (t % 16) (rotl (w.getD ((t - 3) % 16) 0 ^^^ w.getD ((t - 8) % 16) 0 ^^^ w.getD ((t - 14) % 16) 0 ^^^ w.getD (t % 16) 0) 1)

/-- The word for line `t`, and the ring after it: `W[t]` in the first 16 lines, then `R(t)`. -/
def sha1Word (w : List UInt32) (t : Nat) : UInt32 × List UInt32 :=
  let w := if t < 16 then w else sha1R w t
  (w.getD (t % 16) 0, w)

/-- `P`: what becomes of `b` and `e` -/
def sha1P (f : UInt32 → UInt32 → UInt32 → UInt32) (k a b c d e x : UInt32) : UInt32 × UInt32 :=
  (rotl b 30, e + (rotl a 5 + f b c d + k + x))

/-- Five lines from line `t` on, after which each register has its first place again. -/
def sha1Lines (f : UInt32 → UInt32 → UInt32 → UInt32) (k : UInt32) (t : Nat) (s : Sha1State) (w : List UInt32) :
    Sha1State × List UInt32 :=
  let ⟨a, b, c, d, e⟩ := s
  let (x, w) := sha1Word w t
  let (b, e) := sha1P f k a b c d e x
  let (x, w) := sha1Word w (t + 1)
  let (a, d) := sha1P f k e a b c d x
  let (x, w) := sha1Word w (t + 2)
  let (e, c) := sha1P f k d e a b c x
  let (x, w) := sha1Word w (t + 3)
  let (d, b) := sha1P f k c d e a b x
  let (x, w) := sha1Word w (t + 4)
  let (c, a) := sha1P f k b c d e a x
  (⟨a, b, c, d, e⟩, w)

/-- The 20 lines between two `#undef`s. -/
def sha1Round (f : UInt32 → UInt32 → UInt32 → UInt32) (k : UInt32) (t : Nat) (r : Sha1State × List UInt32) :
    Sha1State × List UInt32 :=
  let r := sha1Lines f k t r.1 r.2
  let r := sha1Lines f k (t + 5) r.1 r.2
  let r := sha1Lines f k (t + 10) r.1 r.2
  sha1Lines f k (t + 15) r.1 r.2

def Sha1State.add (s t : Sha1State) : Sha1State := ⟨s.a + t.a, s.b + t.b, s.c + t.c, s.d + t.d, s.e + t.e⟩

/-- `sha1_process` -/
def sha1Process (s : Sha1State) (data : Bytes) : Sha1State :=
  let w := (List.range 16).map fun i => getUint32Be data (4 * i)
  let r := sha1Round (fun x y z => z ^^^ (x &&& (y ^^^ z))) 0x5a827999 0 (s, w)
  let r := sha1Round (fun x y z => x ^^^ y ^^^ z) 0x6ed9eba1 20 r
  let r := sha1Round (fun x y z => (x &&& y) ||| (z &&& (x ||| y))) 0x8f1bbcdc 40 r
  let r := sha1Round (fun x y z => x ^^^ y ^^^ z) 0xca62c1d6 60 r
  s.add r.1

/-! ## A message -/

/-- `sha1_update` -/
def sha1Update (ctx : Sha1Context) (input : Bytes) : Sha1Context :=
  if input.length = 0 then ctx
  else
    let ilen := UInt32.ofNat input.length
    let left := (ctx.total.1 &&& 0x3f).toNat
    let fill := 64 - left
    let low := ctx.total.1 + ilen
    let high := if low < ilen then ctx.total.2 + 1 else ctx.total.2
    if left ≠ 0 ∧ fill ≤ input.length then
      let buffer := copyAt ctx.buffer left (input.take fill)
      let (state, input) := eatChunks sha1Process 64 (sha1Process ctx.state buffer) (input.drop fill)
      ⟨(low, high), state, if 0 < input.length then copyAt buffer 0 input else buffer⟩
    else
      let (state, input) := eatChunks sha1Process 64 ctx.state input
      ⟨(low, high), state, if 0 < input.length then copyAt ctx.buffer left input else ctx.buffer⟩

def Sha1State.bytes (s : Sha1State) : Bytes :=
  putUint32Be s.a ++ putUint32Be s.b ++ putUint32Be s.c ++ putUint32Be s.d ++ putUint32Be s.e

/-- `sha1_finish` -/
def sha1Finish (ctx : Sha1Context) : Bytes :=
  let high := ctx.total.1 >>> 29 ||| ctx.total.2 <<< 3
  let low := ctx.total.1 <<< 3
  let msglen := putUint32Be high ++ putUint32Be low
  let last := (ctx.total.1 &&& 0x3f).toNat
  let padn := if last < 56 then 56 - last else 120 - last
  let ctx := sha1Update ctx ((0x80 :: List.replicate 63 0).take padn)
  (sha1Update ctx msglen).state.bytes

/-- `sha1_csum` -/
def sha1Csum (ctx : Sha1Context) (input : Bytes) : Bytes := sha1Finish (sha1Update (sha1Starts ctx) input)

/-- The loop of a `_wd` function; none is a loop without an end. -/
def wdLoop {σ : Type} (update : σ → Bytes → σ) (chunkSz : Nat) (ctx : σ) (input : Bytes) : Option σ :=
  if input.length = 0 then some ctx
  else if chunkSz = 0 then none
  else wdLoop update chunkSz (update ctx (input.take (min input.length chunkSz))) (input.drop (min input.length chunkSz))
termination_by input.length
decreasing_by
  rw [List.length_drop]
  omega

/-- `sha1_csum_wd`, with or without a watchdog -/
def sha1CsumWd (watchdog : Bool) (chunkSz : Nat) (ctx : Sha1Context) (input : Bytes) : Option Bytes :=
  (if watchdog then wdLoop sha1Update chunkSz (sha1Starts ctx) input else some (sha1Update (sha1Starts ctx) input)).map sha1Finish

/-! ## The standard

FIPS 180-1: 80 words, five registers that move, and a message that is padded to whole blocks.
-/

def shaWord (m : Bytes) (t : Nat) : UInt32 :=
  if t < 16 then getUint32Be m (4 * t)
  else rotl (shaWord m (t - 3) ^^^ shaWord m (t - 8) ^^^ shaWord m (t - 14) ^^^ shaWord m (t - 16)) 1

def shaF (t : Nat) (b c d : UInt32) : UInt32 :=
  if t < 20 then (b &&& c) ||| (~~~b &&& d)
  else if t < 40 then b ^^^ c ^^^ d
  else if t < 60 then (b &&& c) ||| (b &&& d) ||| (c &&& d)
  else b ^^^ c ^^^ d

def shaK (t : Nat) : UInt32 :=
  if t < 20 then 0x5a827999 else if t < 40 then 0x6ed9eba1 else if t < 60 then 0x8f1bbcdc else 0xca62c1d6

def shaStep (m : Bytes) (s : Sha1State) (t : Nat) : Sha1State :=
  ⟨rotl s.a 5 + shaF t s.b s.c s.d + s.e + shaWord m t + shaK t, s.a, rotl s.b 30, s.c, s.d⟩

def shaBlock (s : Sha1State) (m : Bytes) : Sha1State := s.add ((List.range' 0 80).foldl (shaStep m) s)

/-- A one, zeros and the number of bits, up to a whole block -/
def shaPad (length : Nat) : Bytes := 0x80 :: List.replicate ((119 - length % 64) % 64) 0 ++ BigEndian.encode 8 (8 * length)

def sha1 (m : Bytes) : Bytes := ((pages 64 (m ++ shaPad m.length)).foldl shaBlock sha1Init).bytes

/-! ## The block function -/

theorem choose_eq (x y z : UInt32) : z ^^^ (x &&& (y ^^^ z)) = (x &&& y) ||| (~~~x &&& z) := by
  rw [← UInt32.toBitVec_inj]
  refine BitVec.eq_of_getLsbD_eq fun i hi => ?_
  simp only [UInt32.toBitVec_xor, UInt32.toBitVec_and, UInt32.toBitVec_or, UInt32.toBitVec_not, BitVec.getLsbD_xor,
    BitVec.getLsbD_and, BitVec.getLsbD_or, BitVec.getLsbD_not, hi, decide_true, Bool.true_and]
  cases x.toBitVec.getLsbD i <;> cases y.toBitVec.getLsbD i <;> cases z.toBitVec.getLsbD i <;> rfl

theorem majority_eq (x y z : UInt32) : (x &&& y) ||| (z &&& (x ||| y)) = (x &&& y) ||| (x &&& z) ||| (y &&& z) := by
  rw [← UInt32.toBitVec_inj]
  refine BitVec.eq_of_getLsbD_eq fun i hi => ?_
  simp only [UInt32.toBitVec_and, UInt32.toBitVec_or, BitVec.getLsbD_and, BitVec.getLsbD_or]
  cases x.toBitVec.getLsbD i <;> cases y.toBitVec.getLsbD i <;> cases z.toBitVec.getLsbD i <;> rfl

/-- Before line `t` the ring holds the last 16 words. -/
structure InRing (m : Bytes) (w : List UInt32) (t : Nat) : Prop where
  length : w.length = 16
  word : ∀ u, u < max t 16 → max t 16 ≤ u + 16 → w.getD (u % 16) 0 = shaWord m u

variable {m : Bytes} {w : List UInt32} {t : Nat} {s : Sha1State}

theorem InRing.start (m : Bytes) : InRing m ((List.range 16).map fun i => getUint32Be m (4 * i)) 0 where
  length := by rw [List.length_map, List.length_range]
  word := by
    intro u hu _
    have hlt : u < 16 := by omega
    rw [shaWord, if_pos hlt, Nat.mod_eq_of_lt hlt, List.getD_eq_getElem?_getD, List.getElem?_map, List.getElem?_range hlt]
    rfl

theorem sha1Word_spec (h : InRing m w t) : (sha1Word w t).1 = shaWord m t ∧ InRing m (sha1Word w t).2 (t + 1) := by
  simp only [sha1Word]
  split
  · rename_i hlt
    refine ⟨h.word t (by omega) (by omega), h.length, fun u hu hle => h.word u (by omega) (by omega)⟩
  · rename_i hge
    have hset : ∀ u, (sha1R w t).getD (u % 16) 0 = if t % 16 = u % 16 then shaWord m t else w.getD (u % 16) 0 := by
      intro u
      have hlt : u % 16 < w.length := by
        rw [h.length]
        omega
      have hold : w.getD (t % 16) 0 = shaWord m (t - 16) := by
        rw [← h.word (t - 16) (by omega) (by omega), show (t - 16) % 16 = t % 16 by omega]
      rw [shaWord, if_neg hge, ← h.word (t - 3) (by omega) (by omega), ← h.word (t - 8) (by omega) (by omega),
        ← h.word (t - 14) (by omega) (by omega), ← hold, sha1R, List.getD_eq_getElem?_getD, List.getElem?_set]
      split
      · rw [if_pos (by omega)]
        rfl
      · rw [List.getD_eq_getElem?_getD]
    refine ⟨by rw [hset, if_pos rfl], by rw [sha1R, List.length_set]; exact h.length, fun u hu hle => ?_⟩
    rw [hset]
    split
    · rw [show u = t by omega]
    · exact h.word u (by omega) (by omega)

/-- A line in the order of the standard. -/
theorem sha1P_eq (f : UInt32 → UInt32 → UInt32 → UInt32) (k a b c d e x : UInt32) :
    sha1P f k a b c d e x = (rotl b 30, rotl a 5 + f b c d + e + x + k) := by
  rw [sha1P]
  congr 1
  ac_rfl

variable {f : UInt32 → UInt32 → UInt32 → UInt32} {k : UInt32}

/-- What the first `t` lines of a block make of the registers and the ring. -/
structure Ran (m : Bytes) (s₀ : Sha1State) (t : Nat) (r : Sha1State × List UInt32) : Prop where
  state : r.1 = (List.range' 0 t).foldl (shaStep m) s₀
  ring : InRing m r.2 t

variable {s₀ : Sha1State} {r : Sha1State × List UInt32}

theorem sha1Lines_ran (h : Ran m s₀ t r) (hf : ∀ u, t ≤ u → u < t + 5 → shaF u = f ∧ shaK u = k) :
    Ran m s₀ (t + 5) (sha1Lines f k t r.1 r.2) := by
  obtain ⟨h0, hr0⟩ := sha1Word_spec h.ring
  obtain ⟨h1, hr1⟩ := sha1Word_spec hr0
  obtain ⟨h2, hr2⟩ := sha1Word_spec hr1
  obtain ⟨h3, hr3⟩ := sha1Word_spec hr2
  obtain ⟨h4, hr4⟩ := sha1Word_spec hr3
  refine ⟨?_, hr4⟩
  have hstep : ∀ u, t ≤ u → u < t + 5 → ∀ r : Sha1State,
      shaStep m r u = ⟨rotl r.a 5 + f r.b r.c r.d + r.e + shaWord m u + k, r.a, rotl r.b 30, r.c, r.d⟩ := by
    intro u hle hlt r
    rw [shaStep, (hf u hle hlt).1, (hf u hle hlt).2]
  have hrange : List.range' 0 (t + 5) = List.range' 0 t ++ [t, t + 1, t + 2, t + 3, t + 4] := by
    rw [List.range'_append_1.symm, Nat.zero_add]
    rfl
  rw [hrange, List.foldl_append, ← h.state]
  simp only [List.foldl_cons, List.foldl_nil]
  rw [hstep (t + 4) (by omega) (by omega), hstep (t + 3) (by omega) (by omega), hstep (t + 2) (by omega) (by omega),
    hstep (t + 1) (by omega) (by omega), hstep t (by omega) (by omega)]
  simp only [sha1Lines, sha1P_eq, h0, h1, h2, h3, h4]

theorem sha1Round_ran (h : Ran m s₀ t r) (hf : ∀ u, t ≤ u → u < t + 20 → shaF u = f ∧ shaK u = k) :
    Ran m s₀ (t + 20) (sha1Round f k t r) := by
  have h5 : Ran m s₀ (t + 5) (sha1Lines f k t r.1 r.2) := sha1Lines_ran h fun u hle hlt => hf u (by omega) (by omega)
  have h10 : Ran m s₀ (t + 10) (sha1Lines f k (t + 5) _ _) := sha1Lines_ran h5 fun u hle hlt => hf u (by omega) (by omega)
  have h15 : Ran m s₀ (t + 15) (sha1Lines f k (t + 10) _ _) := sha1Lines_ran h10 fun u hle hlt => hf u (by omega) (by omega)
  exact sha1Lines_ran h15 fun u hle hlt => hf u (by omega) (by omega)

theorem shaF_of_lt (h : t < 20) : shaF t = fun x y z => z ^^^ (x &&& (y ^^^ z)) := by
  funext x y z
  rw [shaF, if_pos h, choose_eq]

theorem shaF_of_lt_60 (h : 40 ≤ t) (h' : t < 60) : shaF t = fun x y z => (x &&& y) ||| (z &&& (x ||| y)) := by
  funext x y z
  rw [shaF, if_neg (by omega), if_neg (by omega), if_pos h', majority_eq]

theorem shaF_parity (h : 20 ≤ t) (h' : t < 40 ∨ 60 ≤ t) : shaF t = fun x y z => x ^^^ y ^^^ z := by
  funext x y z
  rw [shaF, if_neg (by omega)]
  split
  · rfl
  · rw [if_neg (by omega)]

/-- The ring and the renamed registers give what the standard says. -/
theorem sha1Process_eq (s : Sha1State) (m : Bytes) : sha1Process s m = shaBlock s m := by
  have h0 : Ran m s 0 (s, (List.range 16).map fun i => getUint32Be m (4 * i)) := ⟨rfl, InRing.start m⟩
  have h20 := sha1Round_ran (k := 0x5a827999) h0 fun u _ hlt => ⟨shaF_of_lt hlt, if_pos hlt⟩
  have h40 := sha1Round_ran (k := 0x6ed9eba1) h20 fun u hle hlt => ⟨shaF_parity hle (Or.inl hlt), by
    rw [shaK, if_neg (by omega), if_pos hlt]⟩
  have h60 := sha1Round_ran (k := 0x8f1bbcdc) h40 fun u hle hlt => ⟨shaF_of_lt_60 hle hlt, by
    rw [shaK, if_neg (by omega), if_neg (by omega), if_pos hlt]⟩
  have h80 := sha1Round_ran (k := 0xca62c1d6) h60 fun u hle hlt => ⟨shaF_parity (by omega) (Or.inr hle), by
    rw [shaK, if_neg (by omega), if_neg (by omega), if_neg (by omega)]⟩
  exact congrArg s.add h80.state

/-! ## A message in pieces -/

/-- After the bytes `m`. -/
structure Sha1Context.Holds (ctx : Sha1Context) (m : Bytes) : Prop where
  absorbed : Absorbed sha1Process 64 sha1Init m ctx.state ctx.buffer
  total : ctx.total.1.toNat + 2 ^ 32 * ctx.total.2.toNat = m.length % 2 ^ 64

variable {ctx : Sha1Context} {input : Bytes}

theorem low6_toNat (x : UInt32) : (x &&& 0x3f).toNat = x.toNat % 64 := by
  rw [UInt32.toNat_and]
  exact Nat.and_two_pow_sub_one_eq_mod x.toNat 6

theorem sha1Starts_holds (h : ctx.buffer.length = 64) : (sha1Starts ctx).Holds [] where
  absorbed := .start (by decide) h
  total := rfl

theorem Sha1Context.Holds.left (h : ctx.Holds m) : (ctx.total.1 &&& 0x3f).toNat = m.length % 64 := by
  have htotal := h.total
  rw [low6_toNat]
  omega

/-- The 64 bits of the counter. -/
theorem total_add {low high : UInt32} {n len : Nat} (h : low.toNat + 2 ^ 32 * high.toNat = n % 2 ^ 64) (hlen : len < 2 ^ 32) :
    (low + UInt32.ofNat len).toNat + 2 ^ 32 * (if low + UInt32.ofNat len < UInt32.ofNat len then high + 1 else high).toNat =
      (n + len) % 2 ^ 64 := by
  have hlow := low.toNat_lt
  have hhigh := high.toNat_lt
  have hof : (UInt32.ofNat len).toNat = len := UInt32.toNat_ofNat_of_lt' hlen
  have hsum : (low + UInt32.ofNat len).toNat = (low.toNat + len) % 2 ^ 32 := by rw [UInt32.toNat_add, hof]
  have hsucc : (high + 1).toNat = (high.toNat + 1) % 2 ^ 32 := UInt32.toNat_add high 1
  split
  · rename_i hcarry
    rw [UInt32.lt_iff_toNat_lt, hof] at hcarry
    rw [hsucc]
    omega
  · rename_i hcarry
    rw [UInt32.lt_iff_toNat_lt, hof] at hcarry
    omega

/-- The rest of the input at the start of a buffer. -/
theorem take_rest {buf rest : Bytes} (hbuf : buf.length = 64) (hrest : rest.length < 64) :
    (if 0 < rest.length then copyAt buf 0 rest else buf).length = 64 ∧
      (if 0 < rest.length then copyAt buf 0 rest else buf).take rest.length = rest := by
  split
  · refine ⟨by rw [copyAt_length (by omega), hbuf], ?_⟩
    exact take_copyAt_zero buf rest
  · rename_i hpos
    have hnil : rest = [] := List.eq_nil_of_length_eq_zero (by omega)
    exact ⟨hbuf, by rw [hnil]; rfl⟩

theorem sha1Update_holds (h : ctx.Holds m) (hlen : input.length < 2 ^ 31) : (sha1Update ctx input).Holds (m ++ input) := by
  have htotal := total_add h.total (hlen.trans (by decide))
  rw [← List.length_append] at htotal
  have hrest : ∀ xs : Bytes, (leftover 64 xs).length < 64 := leftover_lt (by decide)
  rw [sha1Update]
  split
  · rename_i hzero
    rw [List.eq_nil_of_length_eq_zero hzero, List.append_nil]
    exact h
  simp only [h.left]
  split
  · rename_i hfill
    -- the buffer is filled, and the rest follows
    have hsplit : m ++ input = m ++ input.take (64 - m.length % 64) ++ input.drop (64 - m.length % 64) := by
      rw [List.append_assoc, List.take_append_drop]
    have htake : (input.take (64 - m.length % 64)).length = 64 - m.length % 64 := by
      rw [List.length_take, Nat.min_eq_left hfill.2]
    have hbuf : (copyAt ctx.buffer (m.length % 64) (input.take (64 - m.length % 64))).length = 64 := by
      rw [copyAt_length (by rw [htake, h.absorbed.length]; omega), h.absorbed.length]
    have hfull := h.absorbed.fill (by decide) (by rw [htake]; omega) hbuf
    refine ⟨?_, htotal⟩
    have hkeep := take_rest hbuf (hrest (input.drop (64 - m.length % 64)))
    rw [hsplit, eatChunks_eq (by decide)]
    have heat := hfull.eat (by decide) (by rw [List.length_append, htake]; omega) hkeep.1 hkeep.2
    rwa [eatChunks_eq (by decide)] at heat
  · rename_i hnofill
    refine ⟨?_, htotal⟩
    rw [eatChunks_eq (by decide)]
    by_cases hleft : m.length % 64 = 0
    · have hkeep := take_rest h.absorbed.length (hrest input)
      have heat := h.absorbed.eat (by decide) hleft hkeep.1 hkeep.2
      rw [eatChunks_eq (by decide)] at heat
      rw [hleft]
      exact heat
    · have hshort : m.length % 64 + input.length < 64 := by omega
      obtain ⟨hpages, hleftover⟩ := pages_of_lt (n := 64) (by omega : input.length < 64)
      simp only [hpages, hleftover, List.foldl_nil]
      rw [if_pos (by omega)]
      exact h.absorbed.keep hshort

/-! ## The digest -/

theorem putUint32Be_eq (n : UInt32) : putUint32Be n = BigEndian.encode 4 n.toNat := by
  have h24 : (n >>> 24).toUInt8 = UInt8.ofNat (n.toNat / 256 ^ 3) := by
    rw [← UInt8.toNat_inj, UInt32.toNat_toUInt8, UInt32.toNat_shiftRight, UInt8.toNat_ofNat']
    exact congrArg (· % 2 ^ 8) (Nat.shiftRight_eq_div_pow n.toNat 24)
  have h16 : (n >>> 16).toUInt8 = UInt8.ofNat (n.toNat / 256 ^ 2) := by
    rw [← UInt8.toNat_inj, UInt32.toNat_toUInt8, UInt32.toNat_shiftRight, UInt8.toNat_ofNat']
    exact congrArg (· % 2 ^ 8) (Nat.shiftRight_eq_div_pow n.toNat 16)
  have h8 : (n >>> 8).toUInt8 = UInt8.ofNat (n.toNat / 256 ^ 1) := by
    rw [← UInt8.toNat_inj, UInt32.toNat_toUInt8, UInt32.toNat_shiftRight, UInt8.toNat_ofNat']
    exact congrArg (· % 2 ^ 8) (Nat.shiftRight_eq_div_pow n.toNat 8)
  have h0 : n.toUInt8 = UInt8.ofNat (n.toNat / 256 ^ 0) := by
    rw [← UInt8.toNat_inj, UInt32.toNat_toUInt8, UInt8.toNat_ofNat', pow_zero, Nat.div_one]
  rw [putUint32Be, h24, h16, h8, h0]
  rfl

/-- The number of bits is eight times the number of bytes, with the three bits that leave the low word. -/
theorem msglen_eq {low high : UInt32} {n : Nat} (h : low.toNat + 2 ^ 32 * high.toNat = n % 2 ^ 64) :
    putUint32Be (low >>> 29 ||| high <<< 3) ++ putUint32Be (low <<< 3) = BigEndian.encode 8 (8 * n) := by
  have hlow := low.toNat_lt
  have hhigh := high.toNat_lt
  have hshift : (low >>> 29).toNat = low.toNat / 2 ^ 29 := by
    rw [UInt32.toNat_shiftRight]
    exact Nat.shiftRight_eq_div_pow low.toNat 29
  have hleft : ∀ x : UInt32, (x <<< 3).toNat = x.toNat * 8 % 2 ^ 32 := fun x => by
    rw [UInt32.toNat_shiftLeft]
    exact congrArg (· % 2 ^ 32) (Nat.shiftLeft_eq x.toNat 3)
  have hor : (low >>> 29 ||| high <<< 3).toNat = low.toNat / 2 ^ 29 + high.toNat * 8 % 2 ^ 32 := by
    rw [UInt32.toNat_or, hshift, hleft, Nat.or_comm, show high.toNat * 8 % 2 ^ 32 = (high.toNat % 2 ^ 29) <<< 3 by
      rw [Nat.shiftLeft_eq]
      omega, ← Nat.shiftLeft_add_eq_or_of_lt (by omega)]
    omega
  rw [putUint32Be_eq, putUint32Be_eq, hor, hleft, BigEndian.encode_add 4 4]
  congr 1
  · refine BigEndian.encode_congr ?_
    norm_num
    omega
  · refine BigEndian.encode_congr ?_
    norm_num
    omega

theorem sha1Finish_eq (h : ctx.Holds m) : sha1Finish ctx = sha1 m := by
  have hpadn : ∀ n, (((0x80 : UInt8) :: List.replicate 63 0).take (n + 1)) = 0x80 :: List.replicate (min n 63) 0 := fun n => by
    rw [List.take_succ_cons, List.take_replicate]
  have hlast : (if m.length % 64 < 56 then 56 - m.length % 64 else 120 - m.length % 64) = (119 - m.length % 64) % 64 + 1 := by
    split <;> omega
  rw [sha1Finish, h.left, hlast, hpadn, Nat.min_eq_left (by omega), msglen_eq h.total]
  have hpad : ((0x80 : UInt8) :: List.replicate ((119 - m.length % 64) % 64) 0).length < 2 ^ 31 := by
    rw [List.length_cons, List.length_replicate]
    omega
  have hbits : (BigEndian.encode 8 (8 * m.length)).length < 2 ^ 31 := by
    rw [BigEndian.encode_length]
    decide
  have hall := sha1Update_holds (sha1Update_holds h hpad) hbits
  have hblock : (fun s b => sha1Process s b) = shaBlock := funext fun s => funext fun b => sha1Process_eq s b
  have hstate := hall.absorbed.state
  rw [show sha1Process = shaBlock from hblock, List.append_assoc] at hstate
  rw [hstate]
  rfl

theorem pieces_hold {σ : Type} {update : σ → Bytes → σ} {P : σ → Bytes → Prop} {N : Nat}
    (hupdate : ∀ c m xs, P c m → xs.length < N → P (update c xs) (m ++ xs)) {c : σ} (hc : P c m) (pieces : List Bytes)
    (hlen : ∀ xs ∈ pieces, xs.length < N) : P (pieces.foldl update c) (m ++ pieces.flatten) := by
  induction pieces generalizing c m with
  | nil => rwa [List.flatten_nil, List.append_nil]
  | cons xs pieces ih =>
      rw [List.flatten_cons, ← List.append_assoc]
      exact ih (hupdate c m xs hc (hlen xs List.mem_cons_self)) fun ys hys => hlen ys (List.mem_cons_of_mem _ hys)

/-- `sha1_csum` computes the digest of the standard. -/
theorem sha1Csum_eq (hbuf : ctx.buffer.length = 64) (hlen : input.length < 2 ^ 31) : sha1Csum ctx input = sha1 input :=
  sha1Finish_eq (sha1Update_holds (sha1Starts_holds hbuf) hlen)

/-- However a message is cut into pieces, and whatever is in the buffer first, the digest is that of the standard. -/
theorem sha1_pieces (ctx : Sha1Context) (pieces : List Bytes) (hbuf : ctx.buffer.length = 64)
    (hlen : ∀ xs ∈ pieces, xs.length < 2 ^ 31) :
    sha1Finish (pieces.foldl sha1Update (sha1Starts ctx)) = sha1 pieces.flatten :=
  sha1Finish_eq (pieces_hold (fun _ _ _ => sha1Update_holds) (sha1Starts_holds hbuf) pieces hlen)

theorem sha1_pieces_abc : sha1Finish ([[97], [98, 99]].foldl sha1Update (sha1Starts ⟨(0, 0), sha1Init, List.replicate 64 0⟩)) =
    sha1 [97, 98, 99] :=
  sha1_pieces ⟨(0, 0), sha1Init, List.replicate 64 0⟩ [[97], [98, 99]] List.length_replicate (by decide)

/-- The loop cuts the input into pieces. -/
theorem wdLoop_pieces {σ : Type} (update : σ → Bytes → σ) {chunkSz : Nat} (hchunk : 0 < chunkSz) (c : σ) (input : Bytes) :
    ∃ pieces : List Bytes, wdLoop update chunkSz c input = some (pieces.foldl update c) ∧ pieces.flatten = input := by
  induction c, input using wdLoop.induct update chunkSz with
  | case1 c input hzero =>
      rw [wdLoop, if_pos hzero]
      exact ⟨[], rfl, (List.eq_nil_of_length_eq_zero hzero).symm⟩
  | case2 c input hne hzero => omega
  | case3 c input hne hpos ih =>
      obtain ⟨pieces, hloop, hflat⟩ := ih
      rw [wdLoop, if_neg hne, if_neg hpos, hloop]
      refine ⟨input.take (min input.length chunkSz) :: pieces, rfl, ?_⟩
      rw [List.flatten_cons, hflat, List.take_append_drop]

theorem wdLoop_holds {σ : Type} {update : σ → Bytes → σ} {P : σ → Bytes → Prop} {N chunkSz : Nat}
    (hupdate : ∀ c m xs, P c m → xs.length < N → P (update c xs) (m ++ xs)) {c : σ} (hc : P c m) (hchunk : 0 < chunkSz)
    (hlen : input.length < N) : ∃ c', wdLoop update chunkSz c input = some c' ∧ P c' (m ++ input) := by
  obtain ⟨pieces, hloop, hflat⟩ := wdLoop_pieces update hchunk c input
  have hpieces := pieces_hold hupdate hc pieces fun xs hxs =>
    ((List.sublist_flatten_of_mem hxs).length_le.trans_eq (congrArg List.length hflat)).trans_lt hlen
  rw [hflat] at hpieces
  exact ⟨pieces.foldl update c, hloop, hpieces⟩

/-- With a watchdog and without one, the digest is that of the standard. -/
theorem sha1CsumWd_eq (watchdog : Bool) {chunkSz : Nat} (hchunk : 0 < chunkSz) (hbuf : ctx.buffer.length = 64)
    (hlen : input.length < 2 ^ 31) : sha1CsumWd watchdog chunkSz ctx input = some (sha1 input) := by
  cases watchdog with
  | false => exact congrArg some (sha1Csum_eq hbuf hlen)
  | true =>
      obtain ⟨c, hloop, hc⟩ := wdLoop_holds (fun _ _ _ => sha1Update_holds) (sha1Starts_holds hbuf) hchunk hlen
      rw [sha1CsumWd, if_pos rfl, hloop]
      exact congrArg some (sha1Finish_eq hc)

end Uboot.Hash
