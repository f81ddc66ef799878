import Uboot.Hash.Sha1

/-!
# MD5 (`lib/md5.c`)

The machine is little-endian, so `byteReverse` changes nothing. The rest of a block is in `in`, and a block is copied there before
it is used.
-/

namespace Uboot.Hash

open Lib

structure Md5State where
  a : UInt32
  b : UInt32
  c : UInt32
  d : UInt32
deriving DecidableEq, Repr

/-- `struct MD5Context` -/
structure Md5Context where
  buf : Md5State
  bits : UInt32 × UInt32
  inBuf : Bytes
deriving DecidableEq, Repr

/-- A `__u32` in memory -/
def getUint32Le (b : Bytes) (i : Nat) : UInt32 :=
  (b.getD (i + 3) 0).toUInt32 <<< 24 ||| (b.getD (i + 2) 0).toUInt32 <<< 16 ||| (b.getD (i + 1) 0).toUInt32 <<< 8 |||
    (b.getD i 0).toUInt32

def putUint32Le (n : UInt32) : Bytes := [n.toUInt8, (n >>> 8).toUInt8, (n >>> 16).toUInt8, (n >>> 24).toUInt8]

def md5Iv : Md5State := ⟨0x67452301, 0xefcdab89, 0x98badcfe, 0x10325476⟩

/-- `MD5Init` -/
def md5Init (ctx : Md5Context) : Md5Context := { ctx with buf := md5Iv, bits := (0, 0) }

/-! ## A block -/

def md5F1 (x y z : UInt32) : UInt32 := z ^^^ (x &&& (y ^^^ z))
def md5F2 (x y z : UInt32) : UInt32 := md5F1 z x y
def md5F3 (x y z : UInt32) : UInt32 := x ^^^ y ^^^ z
def md5F4 (x y z : UInt32) : UInt32 := y ^^^ (x ||| ~~~z)

/-- `MD5STEP`: what becomes of `w` -/
def md5Step (f : UInt32 → UInt32 → UInt32 → UInt32) (w x y z data s : UInt32) : UInt32 := rotl (w + (f x y z + data)) s + x

/-- The lines of `MD5Transform`: the index of the word, the constant and the shift -/
def md5Table : List (Nat × UInt32 × UInt32) :=
  [(0, 0xd76aa478, 7), (1, 0xe8c7b756, 12), (2, 0x242070db, 17), (3, 0xc1bdceee, 22),
   (4, 0xf57c0faf, 7), (5, 0x4787c62a, 12), (6, 0xa8304613, 17), (7, 0xfd469501, 22),
   (8, 0x698098d8, 7), (9, 0x8b44f7af, 12), (10, 0xffff5bb1, 17), (11, 0x895cd7be, 22),
   (12, 0x6b901122, 7), (13, 0xfd987193, 12), (14, 0xa679438e, 17), (15, 0x49b40821, 22),
   (1, 0xf61e2562, 5), (6, 0xc040b340, 9), (11, 0x265e5a51, 14), (0, 0xe9b6c7aa, 20),
   (5, 0xd62f105d, 5), (10, 0x02441453, 9), (15, 0xd8a1e681, 14), (4, 0xe7d3fbc8, 20),
   (9, 0x21e1cde6, 5), (14, 0xc33707d6, 9), (3, 0xf4d50d87, 14), (8, 0x455a14ed, 20),
   (13, 0xa9e3e905, 5), (2, 0xfcefa3f8, 9), (7, 0x676f02d9, 14), (12, 0x8d2a4c8a, 20),
   (5, 0xfffa3942, 4), (8, 0x8771f681, 11), (11, 0x6d9d6122, 16), (14, 0xfde5380c, 23),
   (1, 0xa4beea44, 4), (4, 0x4bdecfa9, 11), (7, 0xf6bb4b60, 16), (10, 0xbebfbc70, 23),
   (13, 0x289b7ec6, 4), (0, 0xeaa127fa, 11), (3, 0xd4ef3085, 16), (6, 0x04881d05, 23),
   (9, 0xd9d4d039, 4), (12, 0xe6db99e5, 11), (15, 0x1fa27cf8, 16), (2, 0xc4ac5665, 23),
   (0, 0xf4292244, 6), (7, 0x432aff97, 10), (14, 0xab9423a7, 15), (5, 0xfc93a039, 21),
   (12, 0x655b59c3, 6), (3, 0x8f0ccc92, 10), (10, 0xffeff47d, 15), (1, 0x85845dd1, 21),
   (8, 0x6fa87e4f, 6), (15, 0xfe2ce6e0, 10), (6, 0xa3014314, 15), (13, 0x4e0811a1, 21),
   (4, 0xf7537e82, 6), (11, 0xbd3af235, 10), (2, 0x2ad7d2bb, 15), (9, 0xeb86d391, 21)]

/-- Four lines from line `t` on, after which each register has its first place again -/
def md5Lines (f : UInt32 → UInt32 → UInt32 → UInt32) (data : Bytes) (t : Nat) (s : Md5State) : Md5State :=
  let word := fun t => getUint32Le data (4 * (md5Table.getD t (0, 0, 0)).1) + (md5Table.getD t (0, 0, 0)).2.1
  let shift := fun t => (md5Table.getD t (0, 0, 0)).2.2
  let ⟨a, b, c, d⟩ := s
  let a := md5Step f a b c d (word t) (shift t)
  let d := md5Step f d a b c (word (t + 1)) (shift (t + 1))
  let c := md5Step f c d a b (word (t + 2)) (shift (t + 2))
  let b := md5Step f b c d a (word (t + 3)) (shift (t + 3))
  ⟨a, b, c, d⟩

/-- The 16 lines with one of the functions -/
def md5Round (f : UInt32 → UInt32 → UInt32 → UInt32) (data : Bytes) (t : Nat) (s : Md5State) : Md5State :=
  md5Lines f data (t + 12) (md5Lines f data (t + 8) (md5Lines f data (t + 4) (md5Lines f data t s)))

def Md5State.add (s t : Md5State) : Md5State := ⟨s.a + t.a, s.b + t.b, s.c + t.c, s.d + t.d⟩

/-- `MD5Transform` -/
def md5Transform (s : Md5State) (data : Bytes) : Md5State :=
  s.add (md5Round md5F4 data 48 (md5Round md5F3 data 32 (md5Round md5F2 data 16 (md5Round md5F1 data 0 s))))

/-! ## A message -/

/-- A block goes through `in`. -/
def md5Block (c : Md5State × Bytes) (block : Bytes) : Md5State × Bytes :=
  let inBuf := copyAt c.2 0 block
  (md5Transform c.1 inBuf, inBuf)

/-- `MD5Update` from the first whole block on -/
def md5Blocks (ctx : Md5Context) (input : Bytes) : Md5Context :=
  let ((buf, inBuf), input) := eatChunks md5Block 64 (ctx.buf, ctx.inBuf) input
  { ctx with buf := buf, inBuf := copyAt inBuf 0 input }

/-- `MD5Update` -/
def md5Update (ctx : Md5Context) (input : Bytes) : Md5Context :=
  let len := UInt32.ofNat input.length
  let low := ctx.bits.1 + len <<< 3
  let high := (if low < ctx.bits.1 then ctx.bits.2 + 1 else ctx.bits.2) + len >>> 29
  let t := (ctx.bits.1 >>> 3 &&& 0x3f).toNat
  let ctx := { ctx with bits := (low, high) }
  if t ≠ 0 then
    if input.length < 64 - t then { ctx with inBuf := copyAt ctx.inBuf t input }
    else
      let inBuf := copyAt ctx.inBuf t (input.take (64 - t))
      md5Blocks { ctx with buf := md5Transform ctx.buf inBuf, inBuf := inBuf } (input.drop (64 - t))
  else md5Blocks ctx input

def Md5State.bytes (s : Md5State) : Bytes := putUint32Le s.a ++ putUint32Le s.b ++ putUint32Le s.c ++ putUint32Le s.d

/-- `MD5Final` -/
def md5Final (ctx : Md5Context) : Bytes :=
  let count := (ctx.bits.1 >>> 3 &&& 0x3f).toNat
  let inBuf := copyAt ctx.inBuf count [0x80]
  let p := count + 1
  let count := 64 - 1 - count
  let (buf, inBuf) :=
    if count < 8 then
      let inBuf := copyAt inBuf p (List.replicate count 0)
      (md5Transform ctx.buf inBuf, copyAt inBuf 0 (List.replicate 56 0))
    else (ctx.buf, copyAt inBuf p (List.replicate (count - 8) 0))
  let inBuf := copyAt inBuf 56 (putUint32Le ctx.bits.1 ++ putUint32Le ctx.bits.2)
  (md5Transform buf inBuf).bytes

/-- `md5` -/
def md5 (ctx : Md5Context) (input : Bytes) : Bytes := md5Final (md5Update (md5Init ctx) input)

/-- `md5_wd`, with or without a watchdog -/
def md5Wd (watchdog : Bool) (chunkSz : Nat) (ctx : Md5Context) (input : Bytes) : Option Bytes :=
  (if watchdog then wdLoop md5Update chunkSz (md5Init ctx) input else some (md5Update (md5Init ctx) input)).map md5Final

/-! ## The standard

RFC 1321: 64 operations on four registers that move, and a message that is padded to whole blocks.
-/

def rfcF (t : Nat) (x y z : UInt32) : UInt32 :=
  if t < 16 then (x &&& y) ||| (~~~x &&& z)
  else if t < 32 then (x &&& z) ||| (y &&& ~~~z)
  else if t < 48 then x ^^^ y ^^^ z
  else y ^^^ (x ||| ~~~z)

/-- The word for an operation -/
def rfcWord (t : Nat) : Nat :=
  if t < 16 then t else if t < 32 then (1 + 5 * t) % 16 else if t < 48 then (5 + 3 * t) % 16 else 7 * t % 16

/-- The shifts repeat every four operations. -/
def rfcShift (t : Nat) : UInt32 :=
  (if t < 16 then [7, 12, 17, 22] else if t < 32 then [5, 9, 14, 20] else if t < 48 then [4, 11, 16, 23] else [6, 10, 15, 21]).getD
    (t % 4) 0

/-- `T[t + 1]`, the whole part of `2 ^ 32 * abs (sin (t + 1))` -/
def rfcT : List UInt32 :=
  [0xd76aa478, 0xe8c7b756, 0x242070db, 0xc1bdceee, 0xf57c0faf, 0x4787c62a, 0xa8304613, 0xfd469501,
   0x698098d8, 0x8b44f7af, 0xffff5bb1, 0x895cd7be, 0x6b901122, 0xfd987193, 0xa679438e, 0x49b40821,
   0xf61e2562, 0xc040b340, 0x265e5a51, 0xe9b6c7aa, 0xd62f105d, 0x02441453, 0xd8a1e681, 0xe7d3fbc8,
   0x21e1cde6, 0xc33707d6, 0xf4d50d87, 0x455a14ed, 0xa9e3e905, 0xfcefa3f8, 0x676f02d9, 0x8d2a4c8a,
   0xfffa3942, 0x8771f681, 0x6d9d6122, 0xfde5380c, 0xa4beea44, 0x4bdecfa9, 0xf6bb4b60, 0xbebfbc70,
   0x289b7ec6, 0xeaa127fa, 0xd4ef3085, 0x04881d05, 0xd9d4d039, 0xe6db99e5, 0x1fa27cf8, 0xc4ac5665,
   0xf4292244, 0x432aff97, 0xab9423a7, 0xfc93a039, 0x655b59c3, 0x8f0ccc92, 0xffeff47d, 0x85845dd1,
   0x6fa87e4f, 0xfe2ce6e0, 0xa3014314, 0x4e0811a1, 0xf7537e82, 0xbd3af235, 0x2ad7d2bb, 0xeb86d391]

def rfcStep (m : Bytes) (s : Md5State) (t : Nat) : Md5State :=
  ⟨s.d, s.b + rotl (s.a + rfcF t s.b s.c s.d + getUint32Le m (4 * rfcWord t) + rfcT.getD t 0) (rfcShift t), s.b, s.c⟩

def rfcBlock (s : Md5State) (m : Bytes) : Md5State := s.add ((List.range' 0 64).foldl (rfcStep m) s)

/-- A one, zeros and the number of bits, up to a whole block -/
def rfcPad (length : Nat) : Bytes :=
  0x80 :: List.replicate ((119 - length % 64) % 64) 0 ++
    (putUint32Le (UInt32.ofNat (8 * length)) ++ putUint32Le (UInt32.ofNat (8 * length / 2 ^ 32)))

def rfcMd5 (m : Bytes) : Bytes := ((pages 64 (m ++ rfcPad m.length)).foldl rfcBlock md5Iv).bytes

example : rfcMd5 [97, 98, 99] =
    [0x90, 0x01, 0x50, 0x98, 0x3c, 0xd2, 0x4f, 0xb0, 0xd6, 0x96, 0x3f, 0x7d, 0x28, 0xe1, 0x7f, 0x72] := by
  decide +kernel

/-! ## The block function -/

theorem md5Table_eq : ∀ t < 64, md5Table.getD t (0, 0, 0) = (rfcWord t, rfcT.getD t 0, rfcShift t) := by
  decide

variable {m : Bytes} {t : Nat} {s : Md5State} {f : UInt32 → UInt32 → UInt32 → UInt32}

/-- Four lines are four operations. -/
theorem md5Lines_eq (ht : t + 4 ≤ 64) (hf : ∀ u, t ≤ u → u < t + 4 → rfcF u = f) :
    md5Lines f m t s = (List.range' t 4).foldl (rfcStep m) s := by
  have hstep : ∀ u, t ≤ u → u < t + 4 → ∀ r : Md5State,
      rfcStep m r u = ⟨r.d, md5Step f r.a r.b r.c r.d
        (getUint32Le m (4 * (md5Table.getD u (0, 0, 0)).1) + (md5Table.getD u (0, 0, 0)).2.1) (md5Table.getD u (0, 0, 0)).2.2,
        r.b, r.c⟩ := by
    intro u hle hlt r
    rw [rfcStep, hf u hle hlt, md5Step, md5Table_eq u (by omega), UInt32.add_comm _ r.b, UInt32.add_assoc (r.a + _),
      UInt32.add_assoc r.a]
  have hrange : List.range' t 4 = [t, t + 1, t + 2, t + 3] := rfl
  rw [hrange]
  simp only [List.foldl_cons, List.foldl_nil]
  rw [hstep (t + 3) (by omega) (by omega), hstep (t + 2) (by omega) (by omega), hstep (t + 1) (by omega) (by omega),
    hstep t (by omega) (by omega)]
  rfl

theorem md5Round_eq (ht : t + 16 ≤ 64) (hf : ∀ u, t ≤ u → u < t + 16 → rfcF u = f) :
    md5Round f m t s = (List.range' t 16).foldl (rfcStep m) s := by
  have hrange : List.range' t 16 = List.range' t 4 ++ (List.range' (t + 4) 4 ++ (List.range' (t + 8) 4 ++ List.range' (t + 12) 4)) := rfl
  rw [hrange, List.foldl_append, List.foldl_append, List.foldl_append, md5Round,
    md5Lines_eq (by omega) fun u hle hlt => hf u (by omega) (by omega),
    md5Lines_eq (by omega) fun u hle hlt => hf u (by omega) (by omega),
    md5Lines_eq (by omega) fun u hle hlt => hf u (by omega) (by omega),
    md5Lines_eq (by omega) fun u hle hlt => hf u (by omega) (by omega)]

theorem rfcF_1 (h : t < 16) : rfcF t = md5F1 := by
  funext x y z
  rw [rfcF, if_pos h, md5F1, choose_eq]

theorem rfcF_2 (h : 16 ≤ t) (h' : t < 32) : rfcF t = md5F2 := by
  funext x y z
  rw [rfcF, if_neg (by omega), if_pos h', md5F2, md5F1, choose_eq, UInt32.and_comm z x, UInt32.and_comm (~~~z) y]

theorem rfcF_3 (h : 32 ≤ t) (h' : t < 48) : rfcF t = md5F3 := by
  funext x y z
  rw [rfcF, if_neg (by omega), if_neg (by omega), if_pos h', md5F3]

theorem rfcF_4 (h : 48 ≤ t) : rfcF t = md5F4 := by
  funext x y z
  rw [rfcF, if_neg (by omega), if_neg (by omega), if_neg (by omega), md5F4]

theorem md5Transform_eq (s : Md5State) (m : Bytes) : md5Transform s m = rfcBlock s m := by
  have hrange : List.range' 0 64 = List.range' 0 16 ++ (List.range' 16 16 ++ (List.range' 32 16 ++ List.range' 48 16)) := rfl
  rw [md5Transform, rfcBlock, hrange, List.foldl_append, List.foldl_append, List.foldl_append,
    md5Round_eq (by decide) fun u _ hlt => rfcF_1 hlt, md5Round_eq (by decide) fun u hle hlt => rfcF_2 hle hlt,
    md5Round_eq (by decide) fun u hle hlt => rfcF_3 hle hlt, md5Round_eq (by decide) fun u hle _ => rfcF_4 hle]

/-! ## A message in pieces -/

/-- After the bytes `m`. -/
structure Md5Context.Holds (ctx : Md5Context) (m : Bytes) : Prop where
  absorbed : Absorbed md5Transform 64 md5Iv m ctx.buf ctx.inBuf
  bits : ctx.bits.1.toNat + 2 ^ 32 * ctx.bits.2.toNat = 8 * m.length % 2 ^ 64

variable {ctx : Md5Context} {input : Bytes}

theorem md5Init_holds (h : ctx.inBuf.length = 64) : (md5Init ctx).Holds [] where
  absorbed := .start (by decide) h
  bits := rfl

theorem shiftRight_toNat (x : UInt32) {k : Nat} (hk : k < 32) : (x >>> UInt32.ofNat k).toNat = x.toNat / 2 ^ k := by
  rw [UInt32.toNat_shiftRight, UInt32.toNat_ofNat_of_lt' (by omega : k < 2 ^ 32)]
  exact (Nat.shiftRight_eq_div_pow x.toNat _).trans (by rw [Nat.mod_eq_of_lt hk])

theorem Md5Context.Holds.count (h : ctx.Holds m) : (ctx.bits.1 >>> 3 &&& 0x3f).toNat = m.length % 64 := by
  have hbits := h.bits
  have hshift : (ctx.bits.1 >>> 3).toNat = ctx.bits.1.toNat / 2 ^ 3 := shiftRight_toNat ctx.bits.1 (by decide)
  rw [low6_toNat, hshift]
  omega

/-- The carries of the bit count. -/
theorem bits_add {low high : UInt32} {n len : Nat} (h : low.toNat + 2 ^ 32 * high.toNat = 8 * n % 2 ^ 64) (hlen : len < 2 ^ 32) :
    (low + UInt32.ofNat len <<< 3).toNat +
      2 ^ 32 * ((if low + UInt32.ofNat len <<< 3 < low then high + 1 else high) + UInt32.ofNat len >>> 29).toNat =
        8 * (n + len) % 2 ^ 64 := by
  have hlow := low.toNat_lt
  have hhigh := high.toNat_lt
  have hof : (UInt32.ofNat len).toNat = len := UInt32.toNat_ofNat_of_lt' hlen
  have hleft : (UInt32.ofNat len <<< 3).toNat = len * 8 % 2 ^ 32 := by
    rw [UInt32.toNat_shiftLeft, hof]
    exact congrArg (· % 2 ^ 32) (Nat.shiftLeft_eq len 3)
  have hright : (UInt32.ofNat len >>> 29).toNat = len / 2 ^ 29 := by
    rw [show (29 : UInt32) = UInt32.ofNat 29 from rfl, shiftRight_toNat _ (by decide), hof]
  have hsum : (low + UInt32.ofNat len <<< 3).toNat = (low.toNat + len * 8 % 2 ^ 32) % 2 ^ 32 := by rw [UInt32.toNat_add, hleft]
  have hsucc : (high + 1).toNat = (high.toNat + 1) % 2 ^ 32 := UInt32.toNat_add high 1
  rw [UInt32.toNat_add _ (UInt32.ofNat len >>> 29), hright]
  split
  · rename_i hcarry
    rw [UInt32.lt_iff_toNat_lt, hsum] at hcarry
    rw [hsum, hsucc]
    omega
  · rename_i hcarry
    rw [UInt32.lt_iff_toNat_lt, hsum] at hcarry
    rw [hsum]
    omega

/-- The blocks that go through `in`. -/
theorem foldl_md5Block {ps : List Bytes} (hps : ∀ p ∈ ps, p.length = 64) {buf : Bytes} (hbuf : buf.length = 64) (s : Md5State) :
    (ps.foldl md5Block (s, buf)).1 = ps.foldl md5Transform s ∧ (ps.foldl md5Block (s, buf)).2.length = 64 := by
  induction ps generalizing s buf with
  | nil => exact ⟨rfl, hbuf⟩
  | cons p ps ih =>
      have hp := hps p List.mem_cons_self
      have hcopy : copyAt buf 0 p = p := by
        rw [copyAt, List.take_zero, List.nil_append, Nat.zero_add, hp, ← hbuf, List.drop_length, List.append_nil]
      rw [List.foldl_cons, List.foldl_cons, md5Block, hcopy]
      exact ih (fun q hq => hps q (List.mem_cons_of_mem _ hq)) hp _

theorem md5Blocks_absorbed {bits : UInt32 × UInt32} {buf : Md5State} {inBuf : Bytes}
    (h : Absorbed md5Transform 64 md5Iv m buf inBuf) (hm : m.length % 64 = 0) (input : Bytes) :
    Absorbed md5Transform 64 md5Iv (m ++ input) (md5Blocks ⟨buf, bits, inBuf⟩ input).buf (md5Blocks ⟨buf, bits, inBuf⟩ input).inBuf := by
  have hpages : ∀ p ∈ pages 64 input, p.length = 64 := fun p hp => length_of_mem_pages hp
  obtain ⟨hstate, hlen⟩ := foldl_md5Block hpages h.length buf
  have hrest : (leftover 64 input).length < 64 := leftover_lt (by decide) input
  have hbuf : (copyAt ((pages 64 input).foldl md5Block (buf, inBuf)).2 0 (leftover 64 input)).length = 64 := by
    rw [copyAt_length (by omega), hlen]
  have heat := h.eat (by decide) hm hbuf (take_copyAt_zero _ _)
  rw [eatChunks_eq (by decide)] at heat
  rw [md5Blocks, eatChunks_eq (by decide)]
  rwa [← hstate] at heat

theorem md5Update_holds (h : ctx.Holds m) (hlen : input.length < 2 ^ 32) : (md5Update ctx input).Holds (m ++ input) := by
  have hbits := bits_add h.bits hlen
  rw [← List.length_append] at hbits
  simp only [md5Update, h.count]
  split
  · split
    · exact ⟨h.absorbed.keep (by omega), hbits⟩
    · rename_i hfill
      -- `in` is filled, and the rest follows
      have hsplit : m ++ input = m ++ input.take (64 - m.length % 64) ++ input.drop (64 - m.length % 64) := by
        rw [List.append_assoc, List.take_append_drop]
      have htake : (input.take (64 - m.length % 64)).length = 64 - m.length % 64 := by
        rw [List.length_take, Nat.min_eq_left (by omega)]
      have hbuf : (copyAt ctx.inBuf (m.length % 64) (input.take (64 - m.length % 64))).length = 64 := by
        rw [copyAt_length (by rw [htake, h.absorbed.length]; omega), h.absorbed.length]
      have hfull := h.absorbed.fill (by decide) (by rw [htake]; omega) hbuf
      refine ⟨?_, hbits⟩
      rw [hsplit]
      exact md5Blocks_absorbed hfull (by rw [List.length_append, htake]; omega) _
  · rename_i hzero
    exact ⟨md5Blocks_absorbed h.absorbed (by omega) input, hbits⟩

/-! ## The digest -/

/-- Two copies, one after the other. -/
theorem copyAt_copyAt {buf xs ys : Bytes} {i j : Nat} (hi : i ≤ buf.length) (hj : j = i + xs.length) :
    copyAt (copyAt buf i xs) j ys = copyAt buf i (xs ++ ys) := by
  have hlen : (buf.take i ++ xs).length = j := by rw [List.length_append, List.length_take, Nat.min_eq_left hi, hj]
  have htake : (copyAt buf i xs).take j = buf.take i ++ xs := by rw [copyAt, ← hlen, List.take_left]
  have hdrop : (copyAt buf i xs).drop (j + ys.length) = buf.drop (i + (xs ++ ys).length) := by
    rw [copyAt, ← List.drop_drop, ← hlen, List.drop_left, List.drop_drop, List.length_append, Nat.add_assoc]
  rw [copyAt, htake, hdrop, copyAt, List.append_assoc, List.append_assoc, List.append_assoc, List.append_assoc]

theorem bits_bytes {low high : UInt32} {n : Nat} (h : low.toNat + 2 ^ 32 * high.toNat = 8 * n % 2 ^ 64) :
    putUint32Le low ++ putUint32Le high = putUint32Le (UInt32.ofNat (8 * n)) ++ putUint32Le (UInt32.ofNat (8 * n / 2 ^ 32)) := by
  have hlow := low.toNat_lt
  have hhigh := high.toNat_lt
  have h0 : low = UInt32.ofNat (8 * n) := by
    rw [← UInt32.toNat_inj, UInt32.toNat_ofNat']
    omega
  have h1 : high = UInt32.ofNat (8 * n / 2 ^ 32) := by
    rw [← UInt32.toNat_inj, UInt32.toNat_ofNat']
    omega
  rw [h0, h1]

/-- What follows the message fills one block or two. -/
theorem md5Final_eq (h : ctx.Holds m) : md5Final ctx = rfcMd5 m := by
  have hlen := h.absorbed.length
  have hdigest : ∀ {s : Md5State} {buf : Bytes} {pad : Bytes}, Absorbed md5Transform 64 md5Iv (m ++ pad) s buf → pad = rfcPad m.length →
      s.bytes = rfcMd5 m := by
    intro s buf pad hs hpad
    have hblock : md5Transform = rfcBlock := funext fun s => funext fun b => md5Transform_eq s b
    rw [hs.state, hpad, hblock]
    rfl
  have hone : ∀ zeros : Bytes, copyAt (copyAt ctx.inBuf (m.length % 64) [0x80]) (m.length % 64 + 1) zeros =
      copyAt ctx.inBuf (m.length % 64) (0x80 :: zeros) := fun zeros => by
    have hj : m.length % 64 + 1 = m.length % 64 + ([0x80] : Bytes).length := rfl
    rw [copyAt_copyAt (by omega) hj]
    rfl
  simp only [md5Final, h.count, bits_bytes h.bits, hone]
  have hbits : (putUint32Le (UInt32.ofNat (8 * m.length)) ++ putUint32Le (UInt32.ofNat (8 * m.length / 2 ^ 32))).length = 8 := rfl
  split
  · rename_i htwo
    have hfirst : (copyAt ctx.inBuf (m.length % 64) (0x80 :: List.replicate (64 - 1 - m.length % 64) 0)).length = 64 := by
      rw [copyAt_length (by rw [List.length_cons, List.length_replicate]; omega), hlen]
    have hpad : ((0x80 : UInt8) :: List.replicate (64 - 1 - m.length % 64) 0).length = 64 - m.length % 64 := by
      rw [List.length_cons, List.length_replicate]
      omega
    have hfull := h.absorbed.fill (by decide) (by rw [hpad]; omega) hfirst
    have hm : (m ++ 0x80 :: List.replicate (64 - 1 - m.length % 64) 0).length % 64 = 0 := by
      rw [List.length_append, hpad]
      omega
    have hlast : (m ++ 0x80 :: List.replicate (64 - 1 - m.length % 64) 0).length % 64 + (List.replicate 56 0 ++
        (putUint32Le (UInt32.ofNat (8 * m.length)) ++ putUint32Le (UInt32.ofNat (8 * m.length / 2 ^ 32)))).length = 64 := by
      rw [hm, List.length_append, hbits, List.length_replicate]
    have hfinal := hfull.fill (by decide) hlast hfirst
    rw [hm, List.append_assoc] at hfinal
    rw [copyAt_copyAt (Nat.zero_le _) (by rw [List.length_replicate])]
    refine hdigest hfinal ?_
    have hzeros : (119 - m.length % 64) % 64 = 64 - 1 - m.length % 64 + 56 := by omega
    rw [rfcPad, hzeros, List.replicate_add]
    simp only [List.cons_append, List.append_assoc]
  · rename_i hone
    have hzeros : 64 - 1 - m.length % 64 - 8 = (119 - m.length % 64) % 64 := by omega
    have hpad : (rfcPad m.length).length = 64 - m.length % 64 := by
      rw [rfcPad, List.length_append, hbits, List.length_cons, List.length_replicate]
      omega
    rw [copyAt_copyAt (by omega) (by rw [List.length_cons, List.length_replicate]; omega), hzeros]
    exact hdigest (h.absorbed.fill (by decide) (by rw [← rfcPad, hpad]; omega) (List.length_replicate (n := 64) (a := 0))) rfl

theorem md5_eq (hbuf : ctx.inBuf.length = 64) (hlen : input.length < 2 ^ 32) : md5 ctx input = rfcMd5 input :=
  md5Final_eq (md5Update_holds (md5Init_holds hbuf) hlen)

/-- However a message is cut into pieces, and whatever is in the buffer first, the digest is that of the standard. -/
theorem md5_pieces (ctx : Md5Context) (pieces : List Bytes) (hbuf : ctx.inBuf.length = 64)
    (hlen : ∀ xs ∈ pieces, xs.length < 2 ^ 32) :
    md5Final (pieces.foldl md5Update (md5Init ctx)) = rfcMd5 pieces.flatten :=
  md5Final_eq (pieces_hold (fun _ _ _ => md5Update_holds) (md5Init_holds hbuf) pieces hlen)

theorem md5_pieces_abc : md5Final ([[97], [98, 99]].foldl md5Update (md5Init ⟨md5Iv, (0, 0), List.replicate 64 0⟩)) =
    rfcMd5 [97, 98, 99] :=
  md5_pieces ⟨md5Iv, (0, 0), List.replicate 64 0⟩ [[97], [98, 99]] List.length_replicate (by decide)

/-- With a watchdog and without one, the digest is that of the standard. -/
theorem md5Wd_eq (watchdog : Bool) {chunkSz : Nat} (hchunk : 0 < chunkSz) (hbuf : ctx.inBuf.length = 64)
    (hlen : input.length < 2 ^ 31) : md5Wd watchdog chunkSz ctx input = some (rfcMd5 input) := by
  cases watchdog with
  | false => exact congrArg some (md5_eq hbuf (hlen.trans (by decide)))
  | true =>
      obtain ⟨c, hloop, hc⟩ := wdLoop_holds (fun _ _ _ => md5Update_holds) (md5Init_holds hbuf) hchunk (hlen.trans (by decide))
      rw [md5Wd, if_pos rfl, hloop]
      exact congrArg some (md5Final_eq hc)

end Uboot.Hash
