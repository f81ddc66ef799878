import Mathlib.Tactic

/-!
# A list in chunks

Chunk `i` holds `n` elements from position `i * n` on. The chunk after the last full one is short, maybe empty, and
ends the list.
-/

namespace Uboot.Lib

section
variable {α : Type} {xs : List α} {n i : Nat}

def chunk (xs : List α) (n i : Nat) : List α := (xs.drop (i * n)).take n

def chunkCount (xs : List α) (n : Nat) : Nat := xs.length / n + 1

theorem chunk_length (xs : List α) (n i : Nat) : (chunk xs n i).length = min n (xs.length - i * n) := by
  simp [chunk]

theorem chunk_mul_le (hi : i < chunkCount xs n) : i * n ≤ xs.length :=
  calc i * n ≤ xs.length / n * n := Nat.mul_le_mul_right _ (Nat.le_of_lt_succ hi)
    _ ≤ xs.length := Nat.div_mul_le_self _ _

theorem length_lt_chunkCount_mul (xs : List α) (hn : 0 < n) : xs.length < chunkCount xs n * n := by
  rw [chunkCount, Nat.add_mul, Nat.one_mul]
  exact Nat.lt_div_mul_add hn

/-- Only the last chunk is short. -/
theorem chunk_short_iff (hn : 0 < n) (hi : i < chunkCount xs n) :
    (chunk xs n i).length < n ↔ i + 1 = chunkCount xs n := by
  have hle := chunk_mul_le hi
  rw [chunk_length]
  constructor
  · intro hlt
    by_contra hne
    have hle' : (i + 1) * n ≤ xs.length := chunk_mul_le (by omega)
    rw [Nat.add_mul, Nat.one_mul] at hle'
    omega
  · intro he
    have hlt := length_lt_chunkCount_mul xs hn
    rw [← he, Nat.add_mul, Nat.one_mul] at hlt
    omega

theorem chunk_end (hi : i < chunkCount xs n) :
    i * n + (chunk xs n i).length = min ((i + 1) * n) xs.length := by
  have hle := chunk_mul_le hi
  rw [chunk_length, Nat.add_mul, Nat.one_mul]
  omega

theorem chunk_getElem? {x : Nat} (hx : x < (chunk xs n i).length) : (chunk xs n i)[x]? = xs[i * n + x]? := by
  have hlt : x < n := by rw [chunk_length] at hx; omega
  rw [chunk, List.getElem?_take_of_lt hlt, List.getElem?_drop]

/-- The chunks before `i` and chunk `i`. -/
theorem take_append_chunk (xs : List α) (n i : Nat) : xs.take (i * n) ++ chunk xs n i = xs.take ((i + 1) * n) := by
  rw [chunk, Nat.add_mul, Nat.one_mul, List.take_add]

/-! ## Whole chunks -/

/-- The chunks that are full. -/
def pages (n : Nat) (xs : List α) : List (List α) := (List.range (xs.length / n)).map (chunk xs n)

theorem pages_length : (pages n xs).length = xs.length / n := by simp [pages]

theorem length_of_mem_pages {page : List α} (h : page ∈ pages n xs) : page.length = n := by
  obtain ⟨i, hi, rfl⟩ := List.mem_map.mp h
  have hle : (i + 1) * n ≤ xs.length :=
    (Nat.mul_le_mul_right n (List.mem_range.mp hi)).trans (Nat.div_mul_le_self _ _)
  rw [chunk_length]
  rw [Nat.add_mul, Nat.one_mul] at hle
  omega

theorem chunks_flatten (xs : List α) (n k : Nat) : ((List.range k).map (chunk xs n)).flatten = xs.take (k * n) := by
  induction k with
  | zero => simp
  | succ k ih => rw [List.range_succ, List.map_append, List.flatten_append, ih, ← take_append_chunk]; simp

theorem pages_flatten (h : n ∣ xs.length) : (pages n xs).flatten = xs := by
  rw [pages, chunks_flatten, Nat.div_mul_cancel h, List.take_length]

/-- The chunks are the pieces. -/
theorem pages_of_flatten {pieces : List (List α)} (hn : 0 < n) (h : ∀ p ∈ pieces, p.length = n) : pages n pieces.flatten = pieces := by
  induction pieces with
  | nil => simp [pages]
  | cons p ps ih =>
      have hp : p.length = n := h p List.mem_cons_self
      have hcount : (p ++ ps.flatten).length / n = ps.flatten.length / n + 1 := by
        rw [List.length_append, hp, Nat.add_comm, Nat.add_div_right _ hn]
      have hfirst : chunk (p ++ ps.flatten) n 0 = p := by
        rw [chunk, Nat.zero_mul, List.drop_zero, ← hp, List.take_left]
      have hrest : ∀ i, chunk (p ++ ps.flatten) n (i + 1) = chunk ps.flatten n i := fun i => by
        rw [chunk, chunk, Nat.add_mul, Nat.one_mul, Nat.add_comm, ← hp, List.drop_length_add_append]
      rw [pages, List.flatten_cons, hcount, List.range_succ_eq_map, List.map_cons, List.map_map, hfirst]
      congr 1
      exact (List.map_congr_left fun i _ => hrest i).trans (ih fun q hq => h q (List.mem_cons_of_mem _ hq))

/-! ## Whole chunks and what is left -/

/-- What follows the last full chunk. -/
def leftover (n : Nat) (xs : List α) : List α := xs.drop (xs.length / n * n)

theorem leftover_length (n : Nat) (xs : List α) : (leftover n xs).length = xs.length % n := by
  rw [leftover, List.length_drop, Nat.mod_eq_sub_div_mul]

theorem pages_flatten_append (n : Nat) (xs : List α) : (pages n xs).flatten ++ leftover n xs = xs := by
  rw [pages, chunks_flatten, leftover, List.take_append_drop]

/-- Whole pieces before a short one. -/
theorem pages_append {pieces : List (List α)} {tail : List α} (h : ∀ p ∈ pieces, p.length = n) (hn : tail.length < n) :
    pages n (pieces.flatten ++ tail) = pieces ∧ leftover n (pieces.flatten ++ tail) = tail := by
  have hpos : 0 < n := Nat.zero_lt_of_lt hn
  have hlen : pieces.flatten.length = pieces.length * n := by
    rw [List.length_flatten, List.map_congr_left h, List.map_const', List.sum_replicate, smul_eq_mul]
  have hdiv : (pieces.flatten ++ tail).length / n = pieces.length := by
    rw [List.length_append, hlen, Nat.mul_comm, Nat.mul_add_div hpos, Nat.div_eq_of_lt hn, Nat.add_zero]
  have hdiv' : pieces.flatten.length / n = pieces.length := by rw [hlen, Nat.mul_div_cancel _ hpos]
  refine ⟨?_, ?_⟩
  · have hpages := pages_of_flatten hpos h
    rw [pages, hdiv'] at hpages
    rw [pages, hdiv]
    refine (List.map_congr_left fun i hi => ?_).trans hpages
    have hle : (i + 1) * n ≤ pieces.flatten.length := hlen ▸ Nat.mul_le_mul_right n (List.mem_range.mp hi)
    rw [Nat.add_mul, Nat.one_mul] at hle
    rw [chunk, chunk, List.drop_append_of_le_length (by omega), List.take_append_of_le_length (by rw [List.length_drop]; omega)]
  · rw [leftover, hdiv, ← hlen, List.drop_left]

theorem leftover_lt (hn : 0 < n) (xs : List α) : (leftover n xs).length < n := by
  rw [leftover_length]
  exact Nat.mod_lt _ hn

/-- A chunk that gets full. -/
theorem pages_fill {ys : List α} (hys : (leftover n xs).length + ys.length = n) (hn : 0 < n) (zs : List α) :
    pages n (xs ++ ys ++ zs) = pages n xs ++ (leftover n xs ++ ys) :: pages n zs ∧ leftover n (xs ++ ys ++ zs) = leftover n zs := by
  have hxs := pages_flatten_append n xs
  have hzs := pages_flatten_append n zs
  have hall : xs ++ ys ++ zs = (pages n xs ++ (leftover n xs ++ ys) :: pages n zs).flatten ++ leftover n zs := by
    rw [List.flatten_append, List.flatten_cons, List.append_assoc, List.append_assoc, List.append_assoc, hzs]
    conv_lhs => rw [← hxs]
    simp only [List.append_assoc]
  rw [hall]
  refine pages_append ?_ (leftover_lt hn zs)
  intro p hp
  rcases List.mem_append.mp hp with hp | hp
  · exact length_of_mem_pages hp
  rcases List.mem_cons.mp hp with rfl | hp
  · rw [List.length_append, hys]
  · exact length_of_mem_pages hp

/-- Less than what is missing. -/
theorem pages_extend {ys : List α} (hys : (leftover n xs).length + ys.length < n) :
    pages n (xs ++ ys) = pages n xs ∧ leftover n (xs ++ ys) = leftover n xs ++ ys := by
  have hall : xs ++ ys = (pages n xs).flatten ++ (leftover n xs ++ ys) := by
    rw [← List.append_assoc, pages_flatten_append]
  rw [hall]
  exact pages_append (fun p hp => length_of_mem_pages hp) (by rwa [List.length_append])

theorem pages_of_lt (h : xs.length < n) : pages n xs = [] ∧ leftover n xs = xs := by
  have hdiv : xs.length / n = 0 := Nat.div_eq_of_lt h
  rw [pages, leftover, hdiv]
  simp

theorem pages_nil (hn : 0 < n) : pages n ([] : List α) = [] ∧ leftover n ([] : List α) = [] := pages_of_lt hn

theorem pages_cons (hn : 0 < n) (h : n ≤ xs.length) :
    pages n xs = xs.take n :: pages n (xs.drop n) ∧ leftover n xs = leftover n (xs.drop n) := by
  have hnil := pages_nil (α := α) hn
  have htake : (leftover n ([] : List α)).length + (xs.take n).length = n := by
    rw [hnil.2, List.length_take, Nat.min_eq_left h]
    exact Nat.zero_add n
  have hfill := pages_fill htake hn (xs.drop n)
  rwa [List.nil_append, List.take_append_drop, hnil.1, hnil.2, List.nil_append, List.nil_append] at hfill

/-! ## A fold over chunks, with a buffer for the last one -/

variable {σ : Type} {f : σ → List α → σ} {s₀ s : σ} {buf ys : List α}

/-- The buffer after a copy to an offset. -/
def copyAt (buf : List α) (off : Nat) (ys : List α) : List α := buf.take off ++ ys ++ buf.drop (off + ys.length)

theorem copyAt_length (h : i + ys.length ≤ buf.length) : (copyAt buf i ys).length = buf.length := by
  simp only [copyAt, List.length_append, List.length_take, List.length_drop]
  omega

theorem take_copyAt (h : i ≤ buf.length) : (copyAt buf i ys).take (i + ys.length) = buf.take i ++ ys := by
  rw [copyAt, List.take_left' (by rw [List.length_append, List.length_take, Nat.min_eq_left h])]

theorem take_copyAt_zero (buf ys : List α) : (copyAt buf 0 ys).take ys.length = ys := by
  rw [copyAt, List.take_zero, List.nil_append, List.take_left]

/-- The whole chunks of `xs` went into the state, and the rest is at the start of the buffer. -/
structure Absorbed (f : σ → List α → σ) (n : Nat) (s₀ : σ) (xs : List α) (s : σ) (buf : List α) : Prop where
  state : s = (pages n xs).foldl f s₀
  pending : buf.take (xs.length % n) = leftover n xs
  length : buf.length = n

theorem Absorbed.start (hn : 0 < n) (hbuf : buf.length = n) : Absorbed f n s₀ [] s₀ buf := by
  obtain ⟨hpages, hleft⟩ := pages_nil (α := α) hn
  refine ⟨by rw [hpages]; rfl, ?_, hbuf⟩
  rw [hleft, List.length_nil, Nat.zero_mod, List.take_zero]

/-- What comes is too short for a chunk. -/
theorem Absorbed.keep (h : Absorbed f n s₀ xs s buf) (hys : xs.length % n + ys.length < n) :
    Absorbed f n s₀ (xs ++ ys) s (copyAt buf (xs.length % n) ys) := by
  have hlen := h.length
  have hshort : (leftover n xs).length + ys.length < n := by rwa [leftover_length]
  obtain ⟨hpages, hleft⟩ := pages_extend hshort
  refine ⟨by rw [hpages]; exact h.state, ?_, by rw [copyAt_length (by omega)]; exact hlen⟩
  rw [hleft, ← h.pending, ← take_copyAt (by omega), List.length_append, Nat.add_mod, Nat.mod_eq_of_lt (a := ys.length) (by omega),
    Nat.mod_eq_of_lt hys]

/-- The buffer gets full, and nothing is left in it. -/
theorem Absorbed.fill {buf' : List α} (h : Absorbed f n s₀ xs s buf) (hn : 0 < n) (hys : xs.length % n + ys.length = n)
    (hbuf : buf'.length = n) : Absorbed f n s₀ (xs ++ ys) (f s (copyAt buf (xs.length % n) ys)) buf' := by
  have hlen := h.length
  have hfull : (leftover n xs).length + ys.length = n := by rwa [leftover_length]
  have hfill := pages_fill hfull hn []
  obtain ⟨hpages, hleft⟩ := pages_nil (α := α) hn
  rw [List.append_nil, hpages, hleft] at hfill
  have hcopy : copyAt buf (xs.length % n) ys = leftover n xs ++ ys := by
    rw [← h.pending, ← take_copyAt (by omega), hys]
    exact (List.take_of_length_le (by rw [copyAt_length (by omega)]; omega)).symm
  refine ⟨?_, ?_, hbuf⟩
  · rw [hfill.1, List.foldl_append, ← h.state, hcopy]
    rfl
  · rw [hfill.2, List.length_append, ← Nat.mod_add_mod, hys, Nat.mod_self, List.take_zero]

/-- `f` for one chunk after the other, and what is left. -/
def eatChunks (f : σ → List α → σ) (n : Nat) (s : σ) (xs : List α) : σ × List α :=
  if 0 < n ∧ n ≤ xs.length then eatChunks f n (f s (xs.take n)) (xs.drop n) else (s, xs)
termination_by xs.length
decreasing_by
  rw [List.length_drop]
  omega

theorem eatChunks_eq (hn : 0 < n) (s : σ) (xs : List α) : eatChunks f n s xs = ((pages n xs).foldl f s, leftover n xs) := by
  induction s, xs using eatChunks.induct f n with
  | case1 s xs h ih =>
      obtain ⟨hpages, hleft⟩ := pages_cons hn h.2
      rw [eatChunks, if_pos h, ih, hpages, hleft, List.foldl_cons]
  | case2 s xs h =>
      obtain ⟨hpages, hleft⟩ := pages_of_lt (n := n) (by omega : xs.length < n)
      rw [eatChunks, if_neg h, hpages, hleft, List.foldl_nil]

/-- After a full chunk, the next ones go into the state at once. -/
theorem Absorbed.eat {zs buf' : List α} (h : Absorbed f n s₀ xs s buf) (hn : 0 < n) (hxs : xs.length % n = 0)
    (hbuf : buf'.length = n) (hleft : buf'.take (leftover n zs).length = leftover n zs) :
    Absorbed f n s₀ (xs ++ zs) (eatChunks f n s zs).1 buf' := by
  have hnil : leftover n xs = [] := List.eq_nil_of_length_eq_zero (by rw [leftover_length, hxs])
  have hflat : xs ++ zs = (pages n xs ++ pages n zs).flatten ++ leftover n zs := by
    rw [List.flatten_append, List.append_assoc, pages_flatten_append]
    congr 1
    conv_lhs => rw [← pages_flatten_append n xs, hnil, List.append_nil]
  have hpieces : ∀ p ∈ pages n xs ++ pages n zs, p.length = n := fun p hp =>
    (List.mem_append.mp hp).elim (fun h => length_of_mem_pages h) fun h => length_of_mem_pages h
  obtain ⟨hpages, hrest⟩ := pages_append hpieces (leftover_lt hn zs)
  refine ⟨?_, ?_, hbuf⟩
  · rw [eatChunks_eq hn, hflat, hpages, List.foldl_append, ← h.state]
  · rw [hflat, hrest, ← hflat, List.length_append, Nat.add_mod, hxs, Nat.zero_add, Nat.mod_mod, ← leftover_length, hleft]

end

end Uboot.Lib
