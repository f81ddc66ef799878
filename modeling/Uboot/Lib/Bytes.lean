import Mathlib.Data.List.GetD
import Mathlib.Tactic

/-!
# Byte memory

Memory is a function from addresses to bytes. `write` is `memcpy` into it and `read` the bytes at an address.
-/

namespace Uboot.Lib

abbrev Mem := Nat → UInt8

namespace Mem

def write (m : Mem) (a : Nat) (bs : List UInt8) : Mem :=
  fun i => if a ≤ i ∧ i < a + bs.length then bs.getD (i - a) 0 else m i

def read (m : Mem) (a n : Nat) : List UInt8 := (List.range n).map fun i => m (a + i)

section
variable {m m' : Mem} {a i n : Nat} {bs : List UInt8}

theorem write_of_lt (h : i < a) : m.write a bs i = m i := by
  simp [write, show ¬ a ≤ i by omega]

theorem write_of_ge (h : a + bs.length ≤ i) : m.write a bs i = m i := by
  simp [write, show ¬ i < a + bs.length by omega]

theorem write_of_mem (h : i < bs.length) : m.write a bs (a + i) = bs.getD i 0 := by
  simp [write, h]

/-- A write over all of an earlier one. -/
theorem write_write {xs : List UInt8} (h : xs.length ≤ bs.length) : (m.write a xs).write a bs = m.write a bs := by
  funext i
  simp only [write]
  split
  next => rfl
  next hout => rw [if_neg (by omega)]

theorem write_append (m : Mem) (a : Nat) (xs ys : List UInt8) :
    (m.write a xs).write (a + xs.length) ys = m.write a (xs ++ ys) := by
  funext i
  simp only [write, List.length_append]
  by_cases hx : a ≤ i ∧ i < a + xs.length
  · rw [if_neg (by omega), if_pos hx, if_pos (by omega), List.getD_append _ _ _ _ (by omega)]
  · by_cases hy : a + xs.length ≤ i ∧ i < a + xs.length + ys.length
    · rw [if_pos hy, if_pos (by omega), List.getD_append_right _ _ _ _ (by omega)]
      congr 1
      omega
    · rw [if_neg hy, if_neg hx, if_neg (by omega)]

theorem write_other (h : i < a ∨ a + bs.length ≤ i) : m.write a bs i = m i := by
  cases h with
  | inl h => exact write_of_lt h
  | inr h => exact write_of_ge h

@[simp] theorem write_nil (m : Mem) (a : Nat) : m.write a [] = m := by
  funext i
  rw [write_other (by simp; omega)]

theorem read_length : (m.read a n).length = n := by simp [read]

theorem read_add (m : Mem) (a n k : Nat) : m.read a (n + k) = m.read a n ++ m.read (a + n) k := by
  simp [read, List.range_add, Nat.add_assoc, Function.comp_def]

theorem read_congr (h : ∀ j < n, m (a + j) = m' (a + j)) : m.read a n = m'.read a n := by
  simp only [read]
  exact List.map_congr_left fun j hj => h j (List.mem_range.mp hj)

theorem read_drop (m : Mem) (a n k : Nat) : (m.read a (n + k)).drop n = m.read (a + n) k := by
  rw [read_add, List.drop_left' read_length]

theorem read_take {k : Nat} (h : k ≤ n) : (m.read a n).take k = m.read a k := by
  obtain ⟨l, rfl⟩ := Nat.exists_eq_add_of_le h
  rw [read_add, List.take_left' read_length]

theorem read_write {k : Nat} (h : k ≤ bs.length) : (m.write a bs).read a k = bs.take k := by
  refine List.ext_getElem (by rw [read_length, List.length_take]; omega) fun i hi _ => ?_
  rw [read_length] at hi
  simp only [read, List.getElem_map, List.getElem_range, List.getElem_take]
  rw [write_of_mem (by omega), List.getD_eq_getElem?_getD, List.getElem?_eq_getElem (by omega), Option.getD_some]

theorem read_write_of_le {b : Nat} (h : b + n ≤ a) : (m.write a bs).read b n = m.read b n :=
  read_congr fun j hj => write_of_lt (by omega)

theorem getD_read (h : i < n) : (m.read a n).getD i 0 = m (a + i) := by
  rw [read, List.getD_eq_getElem?_getD]
  simp [h]

theorem read_slice (m : Mem) (a n k l : Nat) : ((m.read a n).drop k).take l = m.read (a + k) (min l (n - k)) := by
  apply List.ext_getElem
  · simp [read]
  · intro i h1 h2
    simp [read, Nat.add_assoc]

theorem read_eq_iff : m.read a bs.length = bs ↔ ∀ i < bs.length, m (a + i) = bs.getD i 0 := by
  constructor
  · intro h i hi
    rw [← h, read, List.getD_eq_getElem?_getD]
    simp [hi]
  · intro h
    refine List.ext_getElem (by simp [read]) ?_
    intro i hi hi'
    simp only [read, List.getElem_map, List.getElem_range]
    rw [h i hi', List.getD_eq_getElem?_getD, List.getElem?_eq_getElem hi', Option.getD_some]

/-- The bytes `bs` are at `a`. -/
def Holds (m : Mem) (a : Nat) (bs : List UInt8) : Prop := m.read a bs.length = bs

instance (m : Mem) (a : Nat) (bs : List UInt8) : Decidable (m.Holds a bs) := inferInstanceAs (Decidable (_ = _))

theorem holds_append {xs ys : List UInt8} :
    m.Holds a (xs ++ ys) ↔ m.Holds a xs ∧ m.Holds (a + xs.length) ys := by
  rw [Holds, List.length_append, read_add]
  constructor
  · intro h
    exact List.append_inj h read_length
  · rintro ⟨hx, hy⟩
    rw [hx, hy]

theorem holds_cons {b : UInt8} : m.Holds a (b :: bs) ↔ m a = b ∧ m.Holds (a + 1) bs := by
  rw [← List.singleton_append, holds_append]
  simp [Holds, read]

theorem holds_write : (m.write a bs).Holds a bs := read_eq_iff.mpr fun _ hi => write_of_mem hi

theorem Holds.write {xs : List UInt8} {b : Nat} (h : m.Holds a xs) (hd : b + bs.length ≤ a ∨ a + xs.length ≤ b) :
    (m.write b bs).Holds a xs := by
  refine read_eq_iff.mpr fun i hi => ?_
  rw [← read_eq_iff.mp h i hi]
  cases hd with
  | inl hd => exact write_of_ge (by omega)
  | inr hd => exact write_of_lt (by omega)

end

/-! ## Little-endian halfwords -/

def le16 (n : Nat) : List UInt8 := [UInt8.ofNat n, UInt8.ofNat (n / 256)]

def readLe16 (m : Mem) (a : Nat) : Nat := (m a).toNat + 256 * (m (a + 1)).toNat

theorem readLe16_congr {m m' : Mem} {a b : Nat} (h0 : m a = m' b) (h1 : m (a + 1) = m' (b + 1)) :
    readLe16 m a = readLe16 m' b := by
  rw [readLe16, readLe16, h0, h1]

theorem le16_value (n : Nat) (h : n < 65536) :
    (UInt8.ofNat n).toNat + 256 * (UInt8.ofNat (n / 256)).toNat = n := by
  simp only [UInt8.toNat_ofNat']
  omega

end Mem

end Uboot.Lib
