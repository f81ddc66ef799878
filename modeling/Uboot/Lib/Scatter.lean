import Uboot.Lib.Bytes

/-!
# Bytes in blocks

The blocks of a region that are not bad are taken one after the other. `place` is the address of a byte, counted over
the blocks that are taken.
-/

namespace Uboot.Lib

/-- The good ones of `n` blocks from `o` on. -/
def goodBlocks (bad : Nat → Bool) (size : Nat) : Nat → Nat → List Nat
  | 0, _ => []
  | n + 1, o => if bad o then goodBlocks bad size n (o + size) else o :: goodBlocks bad size n (o + size)

/-- Where the byte `i` is. -/
def place (size : Nat) (blocks : List Nat) (i : Nat) : Nat := blocks.getD (i / size) 0 + i % size

/-- Whole blocks are written, with the bytes of `data` from `p` on. -/
def writeBlocks (size : Nat) (data : Nat → UInt8) : Nat → List Nat → Mem → Mem
  | _, [], m => m
  | p, b :: blocks, m => writeBlocks size data (p + size) blocks (m.write b ((List.range size).map fun i => data (p + i)))

/-- Each block ends before the next one starts. -/
def Separate (size : Nat) (blocks : List Nat) : Prop := blocks.Pairwise fun a b => a + size ≤ b

section
variable {bad : Nat → Bool} {size n o a b i p s r : Nat} {blocks : List Nat} {m : Mem} {data : Nat → UInt8}

theorem goodBlocks_ge (h : b ∈ goodBlocks bad size n o) : o ≤ b := by
  induction n generalizing o with
  | zero => cases h
  | succ n ih =>
      rw [goodBlocks] at h
      split at h
      next => exact (Nat.le_add_right o size).trans (ih h)
      next =>
        rcases List.mem_cons.mp h with rfl | h
        · exact le_rfl
        · exact (Nat.le_add_right o size).trans (ih h)

theorem goodBlocks_separate (bad : Nat → Bool) (size n o : Nat) : Separate size (goodBlocks bad size n o) := by
  induction n generalizing o with
  | zero => exact List.Pairwise.nil
  | succ n ih =>
      rw [goodBlocks]
      split
      next => exact ih _
      next => exact List.pairwise_cons.mpr ⟨fun b hb => goodBlocks_ge hb, ih _⟩

theorem place_head (h : i < size) : place size (b :: blocks) i = b + i := by
  rw [place, Nat.div_eq_of_lt h, Nat.mod_eq_of_lt h]
  rfl

theorem place_tail (hs : 0 < size) : place size (b :: blocks) (size + i) = place size blocks i := by
  rw [place, Nat.add_div_left i hs, Nat.add_mod_left]
  rfl

theorem place_take (h : i < size * n) : place size (blocks.take n) i = place size blocks i := by
  have hlt : i / size < n := Nat.div_lt_of_lt_mul h
  rw [place, place, List.getD_eq_getElem?_getD, List.getElem?_take_of_lt hlt, ← List.getD_eq_getElem?_getD]

theorem read_head (m : Mem) (b : Nat) (blocks : List Nat) (h : s + r ≤ size) :
    m.read (b + s) r = (List.range' s r).map fun i => m (place size (b :: blocks) i) := by
  apply List.ext_getElem
  · simp [Mem.read]
  · intro i h1 h2
    have hi : i < r := by simpa using h2
    simp only [Mem.read, List.getElem_map, List.getElem_range, List.getElem_range', Nat.one_mul]
    rw [place_head (by omega), Nat.add_assoc]

/-- The bytes of the other blocks. -/
theorem read_tail (hs : 0 < size) :
    ((List.range' size r).map fun i => m (place size (b :: blocks) i)) =
      (List.range' 0 r).map fun i => m (place size blocks i) := by
  apply List.ext_getElem
  · simp
  · intro i h1 h2
    simp only [List.getElem_map, List.getElem_range', Nat.one_mul, Nat.zero_add]
    rw [place_tail hs]

theorem exists_place (hs : 0 < size) (hb : b ∈ blocks) (hle : b ≤ a) (hlt : a < b + size) :
    ∃ i < size * blocks.length, place size blocks i = a := by
  induction blocks with
  | nil => cases hb
  | cons c blocks ih =>
      rw [List.length_cons, Nat.mul_succ]
      rcases List.mem_cons.mp hb with rfl | hb
      · exact ⟨a - b, by omega, by rw [place_head (by omega)]; omega⟩
      · obtain ⟨i, hi, rfl⟩ := ih hb
        exact ⟨size + i, by omega, place_tail hs⟩

theorem writeBlocks_outside (h : ∀ b ∈ blocks, a < b ∨ b + size ≤ a) : writeBlocks size data p blocks m a = m a := by
  induction blocks generalizing p m with
  | nil => rfl
  | cons b blocks ih =>
      rw [writeBlocks, ih fun c hc => h c (List.mem_cons_of_mem _ hc)]
      rcases h b (by simp) with hlt | hge
      · exact Mem.write_of_lt hlt
      · exact Mem.write_of_ge (by simpa using hge)

theorem writeBlocks_place (hs : 0 < size) (hsep : Separate size blocks) (hi : i < size * blocks.length) :
    writeBlocks size data p blocks m (place size blocks i) = data (p + i) := by
  induction blocks generalizing p m i with
  | nil => simp at hi
  | cons b blocks ih =>
      obtain ⟨hfirst, hrest⟩ := List.pairwise_cons.mp hsep
      rw [List.length_cons, Nat.mul_succ] at hi
      rw [writeBlocks]
      rcases Nat.lt_or_ge i size with hlt | hge
      · rw [place_head hlt, writeBlocks_outside fun c hc => Or.inl (by have := hfirst c hc; omega),
          Mem.write_of_mem (by simpa using hlt)]
        simp [List.getD_eq_getElem?_getD, hlt]
      · obtain ⟨j, rfl⟩ := Nat.exists_eq_add_of_le hge
        rw [place_tail hs, ih hrest (by omega), Nat.add_assoc]

end

end Uboot.Lib
