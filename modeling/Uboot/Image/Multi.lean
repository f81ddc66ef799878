import Uboot.Lib.Bytes

/-!
# Multi-file images

`mkimage` with `-T multi` (`tools/mkimage.c`) writes a table of the sizes that ends with a zero, and the files, all but the
last one padded to words. `image_multi_count` and `image_multi_getimg` (`common/image.c`) take them apart. Files are given
by their contents; `ulong` has 32 bits.
-/

namespace Uboot.Image

open Lib

/-! ## `mkimage` -/

/-- `cpu_to_uimage (size)` in memory -/
def uimage (size : Nat) : List UInt8 :=
  [.ofNat (size / 2 ^ 24), .ofNat (size / 2 ^ 16), .ofNat (size / 2 ^ 8), .ofNat size]

/-- The loop that writes the sizes. -/
def sizeTable : List (List UInt8) → List UInt8
  | [] => uimage 0
  | file :: files => uimage file.length ++ sizeTable files

/-- What `copy_file` writes. -/
def copyFile (file : List UInt8) (pad : Bool) : List UInt8 :=
  let tail := file.length % 4
  file ++ if pad ∧ tail ≠ 0 then List.replicate (4 - tail) 0 else []

/-- The loop that copies the files. -/
def copyFiles : List (List UInt8) → List UInt8
  | [] => []
  | [file] => copyFile file false
  | file :: files => copyFile file true ++ copyFiles files

/-- `sizeof(image_header_t)` -/
def headerSize : Nat := 64

/-- The image, with the header that `image_set_header` fills in. -/
def mkimageMulti (header : Vector UInt8 headerSize) (files : List (List UInt8)) : List UInt8 :=
  header.toList ++ (sizeTable files ++ copyFiles files)

/-! ## `image_multi_count` and `image_multi_getimg` -/

def ulong (n : Nat) : Nat := n % 2 ^ 32

/-- A `uint32_t` in memory. -/
def load32 (m : Mem) (p : Nat) : Nat :=
  (m p).toNat + 2 ^ 8 * (m (p + 1)).toNat + 2 ^ 16 * (m (p + 2)).toNat + 2 ^ 24 * (m (p + 3)).toNat

/-- `uimage_to_cpu` -/
def uimageToCpu (x : Nat) : Nat :=
  2 ^ 24 * (x % 2 ^ 8) + 2 ^ 16 * (x / 2 ^ 8 % 2 ^ 8) + 2 ^ 8 * (x / 2 ^ 16 % 2 ^ 8) + x / 2 ^ 24 % 2 ^ 8

/-- `image_get_data` -/
def imageGetData (hdr : Nat) : Nat := ulong (hdr + headerSize)

/-- `size[i]` -/
def sizeAt (m : Mem) (hdr i : Nat) : Nat := load32 m (ulong (imageGetData hdr + 4 * i))

/-- `for (i = 0; size[i]; ++i) count++;` -/
def countLoop (m : Mem) (hdr : Nat) : Nat → Nat → Option Nat
  | 0, _ => none
  | fuel + 1, i => if sizeAt m hdr i ≠ 0 then countLoop m hdr fuel (i + 1) else some i

/-- `image_multi_count`. It does not end when no word of the address space is zero. -/
def imageMultiCount (m : Mem) (hdr : Nat) : Option Nat := countLoop m hdr (2 ^ 30) 0

/-- `(x + 3) & ~3` -/
def roundUp (x : Nat) : Nat := ulong (x + 3) / 4 * 4

/-- `for (i = 0; i < idx; i++)` -/
def offsetLoop (m : Mem) (hdr idx : Nat) : Nat :=
  (List.range idx).foldl (fun offset i => ulong (offset + roundUp (uimageToCpu (sizeAt m hdr i)))) 0

/-- `image_multi_getimg`: `*data` and `*len` -/
def imageMultiGetimg (m : Mem) (hdr idx : Nat) : Option (Nat × Nat) := do
  let count ← imageMultiCount m hdr
  let imgData := ulong (imageGetData hdr + ulong ((count + 1) * 4))
  if idx < count then some (ulong (imgData + offsetLoop m hdr idx), uimageToCpu (sizeAt m hdr idx))
  else some (0, 0)

/-! ## The table -/

theorem uimage_length (n : Nat) : (uimage n).length = 4 := rfl

theorem uimageToCpu_bytes {a b c d : Nat} (ha : a < 2 ^ 8) (hb : b < 2 ^ 8) (hc : c < 2 ^ 8) (hd : d < 2 ^ 8) :
    uimageToCpu (a + 2 ^ 8 * b + 2 ^ 16 * c + 2 ^ 24 * d) = 2 ^ 24 * a + 2 ^ 16 * b + 2 ^ 8 * c + d := by
  have h0 : (a + 2 ^ 8 * b + 2 ^ 16 * c + 2 ^ 24 * d) % 2 ^ 8 = a := by omega
  have h1 : (a + 2 ^ 8 * b + 2 ^ 16 * c + 2 ^ 24 * d) / 2 ^ 8 % 2 ^ 8 = b := by omega
  have h2 : (a + 2 ^ 8 * b + 2 ^ 16 * c + 2 ^ 24 * d) / 2 ^ 16 % 2 ^ 8 = c := by omega
  have h3 : (a + 2 ^ 8 * b + 2 ^ 16 * c + 2 ^ 24 * d) / 2 ^ 24 % 2 ^ 8 = d := by omega
  rw [uimageToCpu, h0, h1, h2, h3]

theorem load32_uimage {m : Mem} {p n : Nat} (h : m.Holds p (uimage n)) (hn : n < 2 ^ 32) :
    uimageToCpu (load32 m p) = n ∧ (load32 m p = 0 ↔ n = 0) := by
  simp only [uimage, Mem.holds_cons] at h
  obtain ⟨h0, h1, h2, h3, _⟩ := h
  have hload : load32 m p = n / 2 ^ 24 % 2 ^ 8 + 2 ^ 8 * (n / 2 ^ 16 % 2 ^ 8) + 2 ^ 16 * (n / 2 ^ 8 % 2 ^ 8) +
      2 ^ 24 * (n % 2 ^ 8) := by
    rw [load32, h0, h1, h2, h3]
    simp only [UInt8.toNat_ofNat']
  have hmod : ∀ x : Nat, x % 2 ^ 8 < 2 ^ 8 := fun x => Nat.mod_lt x (by decide)
  have hn' : n = 2 ^ 24 * (n / 2 ^ 24 % 2 ^ 8) + 2 ^ 16 * (n / 2 ^ 16 % 2 ^ 8) + 2 ^ 8 * (n / 2 ^ 8 % 2 ^ 8) +
      n % 2 ^ 8 := by
    have h16 : n / 2 ^ 16 = n / 2 ^ 8 / 2 ^ 8 := by omega
    have h24 : n / 2 ^ 24 = n / 2 ^ 8 / 2 ^ 8 / 2 ^ 8 := by omega
    rw [h24, h16]
    omega
  rw [hload, uimageToCpu_bytes (hmod _) (hmod _) (hmod _) (hmod _)]
  refine ⟨hn'.symm, ?_⟩
  generalize n / 2 ^ 24 % 2 ^ 8 = a at *
  generalize n / 2 ^ 16 % 2 ^ 8 = b at *
  generalize n / 2 ^ 8 % 2 ^ 8 = c at *
  omega

/-- The sizes, and the zero behind them. -/
theorem sizeTable_getD {m : Mem} {files : List (List UInt8)} {p : Nat} (h : m.Holds p (sizeTable files)) {i : Nat}
    (hi : i ≤ files.length) : m.Holds (p + 4 * i) (uimage ((files.map List.length).getD i 0)) := by
  induction files generalizing p i with
  | nil =>
      cases i with
      | zero => exact h
      | succ i => simp at hi
  | cons file files ih =>
      obtain ⟨hf, ht⟩ := Mem.holds_append.mp h
      cases i with
      | zero => exact hf
      | succ i =>
          have hih := ih ht (by simpa using hi)
          rw [uimage_length, show p + 4 + 4 * i = p + 4 * (i + 1) by omega] at hih
          simpa using hih

theorem sizeTable_length (files : List (List UInt8)) : (sizeTable files).length = 4 * (files.length + 1) := by
  induction files with
  | nil => rfl
  | cons file files ih =>
      rw [sizeTable, List.length_append, ih, uimage_length, List.length_cons]
      omega

theorem countLoop_spec {m : Mem} {hdr count : Nat} (hnz : ∀ j < count, sizeAt m hdr j ≠ 0)
    (hz : sizeAt m hdr count = 0) {fuel i : Nat} (hi : i ≤ count) (hf : count < i + fuel) :
    countLoop m hdr fuel i = some count := by
  induction fuel generalizing i with
  | zero => omega
  | succ fuel ih =>
      rw [countLoop]
      by_cases he : i = count
      · rw [he, if_neg (not_not_intro hz)]
      · rw [if_pos (hnz i (by omega)), ih (by omega) (by omega)]

/-! ## The files -/

/-- A size rounded up to words. -/
def padded (n : Nat) : Nat := (n + 3) / 4 * 4

/-- The space of the files before one. -/
def fileOffset (files : List (List UInt8)) (idx : Nat) : Nat := ((files.take idx).map fun f => padded f.length).sum

theorem copyFile_length (file : List UInt8) : (copyFile file true).length = padded file.length := by
  simp only [copyFile, padded, true_and, List.length_append]
  split
  · rw [List.length_replicate]; omega
  · rw [List.length_nil]; omega

/-- A file begins after the padded files before it. -/
theorem copyFiles_holds {m : Mem} {files : List (List UInt8)} {a : Nat} (h : m.Holds a (copyFiles files)) {i : Nat}
    (hi : i < files.length) :
    m.Holds (a + fileOffset files i) files[i] ∧ fileOffset files i + files[i].length ≤ (copyFiles files).length := by
  induction files generalizing a i with
  | nil => simp at hi
  | cons file files ih =>
      cases files with
      | nil =>
          have h0 : i = 0 := by simpa using hi
          subst h0
          simpa [copyFiles, copyFile, fileOffset] using h
      | cons next files =>
          obtain ⟨hf, ht⟩ := Mem.holds_append.mp h
          rw [copyFile_length] at ht
          have hlen : (copyFiles (file :: next :: files)).length = padded file.length + (copyFiles (next :: files)).length := by
            rw [copyFiles, List.length_append, copyFile_length]
            simp
          cases i with
          | zero =>
              refine ⟨(Mem.holds_append.mp hf).1, ?_⟩
              rw [hlen]
              simp only [fileOffset, padded, List.take_zero, List.map_nil, List.sum_nil, List.getElem_cons_zero]
              omega
          | succ i =>
              obtain ⟨hih, hle⟩ := ih ht (by simpa using hi)
              have hoff : fileOffset (file :: next :: files) (i + 1) = padded file.length + fileOffset (next :: files) i := by
                simp [fileOffset]
              rw [hoff, hlen, List.getElem_cons_succ, ← Nat.add_assoc]
              exact ⟨hih, by omega⟩

theorem offsetLoop_spec {m : Mem} {hdr : Nat} {files : List (List UInt8)} (hlt : ∀ f ∈ files, f.length < 2 ^ 31)
    (hsize : ∀ j (hj : j < files.length), uimageToCpu (sizeAt m hdr j) = files[j].length) {idx : Nat}
    (hidx : idx ≤ files.length) (hoff : fileOffset files idx < 2 ^ 32) :
    offsetLoop m hdr idx = fileOffset files idx := by
  induction idx with
  | zero => rfl
  | succ idx ih =>
      have hlast : fileOffset files (idx + 1) = fileOffset files idx + padded files[idx].length := by
        rw [fileOffset, List.take_succ_eq_append_getElem (by omega), List.map_append, List.sum_append]
        simp [fileOffset]
      have hf := hlt files[idx] (List.getElem_mem _)
      have hround : roundUp files[idx].length = padded files[idx].length := by
        simp only [roundUp, ulong, padded]; omega
      have hih := ih (by omega) (by omega)
      rw [offsetLoop] at hih ⊢
      rw [List.range_succ, List.foldl_append, hih, List.foldl_cons, List.foldl_nil, hsize idx (by omega), hround, ulong,
        hlast]
      omega

/-! ## Unpacking -/

/-- An image in memory unpacks to the files that were packed. -/
theorem multi_unpacks {files : List (List UInt8)} (hfiles : ∀ f ∈ files, f ≠ [])
    (htotal : (files.map List.length).sum < 2 ^ 31) (header : Vector UInt8 headerSize) {m : Mem} {hdr : Nat}
    (himage : m.Holds hdr (mkimageMulti header files)) (hspace : hdr + (mkimageMulti header files).length ≤ 2 ^ 32) :
    imageMultiCount m hdr = some files.length ∧
      (∀ i (hi : i < files.length), ∃ data, imageMultiGetimg m hdr i = some (data, files[i].length) ∧
        hdr ≤ data ∧ data + files[i].length ≤ hdr + (mkimageMulti header files).length ∧ m.Holds data files[i]) ∧
      ∀ i, files.length ≤ i → imageMultiGetimg m hdr i = some (0, 0) := by
  have hheader : header.toList.length = 64 := header.length_toList
  obtain ⟨_, hrest⟩ := Mem.holds_append.mp himage
  rw [hheader] at hrest
  obtain ⟨htable, hdata⟩ := Mem.holds_append.mp hrest
  rw [sizeTable_length] at hdata
  have hlen : (mkimageMulti header files).length = 64 + (4 * (files.length + 1) + (copyFiles files).length) := by
    rw [mkimageMulti, List.length_append, List.length_append, hheader, sizeTable_length]
  rw [hlen] at hspace
  have hlt : ∀ f ∈ files, f.length < 2 ^ 31 := fun f hf =>
    (List.single_le_sum (by simp) _ (List.mem_map_of_mem hf)).trans_lt htotal
  have hget : ∀ j (hj : j < files.length), (files.map List.length).getD j 0 = files[j].length := by
    intro j hj
    simp [List.getD_eq_getElem?_getD, hj]
  have hend : (files.map List.length).getD files.length 0 = 0 := by simp [List.getD_eq_getElem?_getD]
  have haddr : ∀ j ≤ files.length, sizeAt m hdr j = load32 m (hdr + 64 + 4 * j) := by
    intro j hj
    rw [sizeAt, imageGetData, headerSize, ulong, ulong]
    congr 1
    omega
  have hword : ∀ j ≤ files.length, uimageToCpu (sizeAt m hdr j) = (files.map List.length).getD j 0 ∧
      (sizeAt m hdr j = 0 ↔ (files.map List.length).getD j 0 = 0) := by
    intro j hj
    rw [haddr j hj]
    refine load32_uimage (sizeTable_getD htable hj) ?_
    rcases Nat.lt_or_eq_of_le hj with hj | rfl
    · have hf := hlt files[j] (List.getElem_mem _)
      rw [hget j hj]
      omega
    · rw [hend]
      decide
  have hsize : ∀ j (hj : j < files.length), uimageToCpu (sizeAt m hdr j) = files[j].length := fun j hj =>
    (hword j hj.le).1.trans (hget j hj)
  have hcount : imageMultiCount m hdr = some files.length := by
    refine countLoop_spec (fun j hj => ?_) ?_ (Nat.zero_le _) (by omega)
    · rw [Ne, (hword j hj.le).2, hget j hj, List.length_eq_zero_iff]
      exact hfiles files[j] (List.getElem_mem _)
    · rw [(hword files.length le_rfl).2, hend]
  refine ⟨hcount, fun i hi => ?_, fun i hi => ?_⟩
  · obtain ⟨hfile, hle⟩ := copyFiles_holds hdata hi
    have hpos := List.length_pos_of_ne_nil (hfiles files[i] (List.getElem_mem _))
    have hoff := offsetLoop_spec hlt hsize hi.le (by omega)
    have hdat : ulong (ulong (imageGetData hdr + ulong ((files.length + 1) * 4)) + offsetLoop m hdr i) =
        hdr + 64 + 4 * (files.length + 1) + fileOffset files i := by
      have hpay : imageGetData hdr = hdr + 64 := Nat.mod_eq_of_lt (show hdr + 64 < 2 ^ 32 by omega)
      have htab : ulong ((files.length + 1) * 4) = 4 * (files.length + 1) := by
        rw [ulong, Nat.mul_comm]
        exact Nat.mod_eq_of_lt (by omega)
      have himg : ulong (hdr + 64 + 4 * (files.length + 1)) = hdr + 64 + 4 * (files.length + 1) :=
        Nat.mod_eq_of_lt (by omega)
      rw [hoff, hpay, htab, himg]
      exact Nat.mod_eq_of_lt (by omega)
    refine ⟨hdr + 64 + 4 * (files.length + 1) + fileOffset files i, ?_, by omega, by omega, hfile⟩
    rw [imageMultiGetimg, hcount, Option.bind_eq_bind, Option.bind_some]
    dsimp only
    rw [if_pos hi, hdat, hsize i hi]
  · rw [imageMultiGetimg, hcount, Option.bind_eq_bind, Option.bind_some]
    dsimp only
    rw [if_neg (by omega)]

/-- Two files, the first one of three bytes. -/
theorem multi_unpacks_example :
    imageMultiCount (Mem.write (fun _ => 255) 16 (mkimageMulti (.replicate 64 0) [[1, 2, 3], [4]])) 16 = some 2 :=
  (multi_unpacks (show ∀ f ∈ [[1, 2, 3], [4]], f ≠ [] by decide) (by decide) (.replicate 64 0)
    (show Mem.read _ 16 _ = _ by decide) (by decide)).1

end Uboot.Image
