import Uboot.Crc32.Basic
import Uboot.Env.Import

/-!
# The environment in flash

What `nand_saveenv` writes (`common/env_nand.c`), `env_import` (`common/env_common.c`) and `getenv`
(`common/cmd_nvedit.c`) once the environment is in the hash table. There is one copy: `env_t` is a checksum and
the data. Memory can be allocated.
-/

namespace Uboot.Env

open Crc32

/-- `ENV_SIZE`, with the header of one copy -/
def envSize (config : Nat) : Nat := config - 4

/-- The bytes of a word. -/
def le32 (x : BitVec 32) : List UInt8 :=
  [.ofNat x.toNat, .ofNat (x.toNat / 2 ^ 8), .ofNat (x.toNat / 2 ^ 16), .ofNat (x.toNat / 2 ^ 24)]

/-- `ep->crc` and what follows it -/
def readHeader : List UInt8 → Option (BitVec 32 × List UInt8)
  | b₀ :: b₁ :: b₂ :: b₃ :: data => some (word b₀ b₁ b₂ b₃, data)
  | _ => none

/-- The image that `nand_saveenv` writes. There is none when the export fails, and when its text does not fit the
buffer, which `hexport_r` does not check for escaped values. -/
def saveenvImage (t : HTab) (addr config : Nat) : Option (List UInt8) :=
  (hexportR t 0 true (envSize config) []).bind fun (_, out) =>
    if out.length ≤ envSize config then
      let data := exportBuffer (envSize config) out
      some (le32 (crc32 0 addr data) ++ data)
    else none

/-- `set_default_env` -/
def setDefaultEnv (defaultEnvironment : List UInt8) (config : Nat) (htab : Option HTab) : Option (Option HTab) :=
  if envSize config < defaultEnvironment.length then some htab
  else (himportR true htab defaultEnvironment 0 false).map (·.2)

/-- `env_import` with `check`: the return value and the table. A bad checksum is followed by a `saveenv`. -/
def envImport (defaultEnvironment : List UInt8) (addr config : Nat) (buf : List UInt8) (htab : Option HTab) :
    Option (Nat × Option HTab) := do
  let (crc, data) ← readHeader buf
  if crc32 0 addr (data.take (envSize config)) ≠ crc then
    (setDefaultEnv defaultEnvironment config htab).map fun htab => (0, htab)
  else
    let (ret, htab) ← himportR true htab (data.take (envSize config)) 0 false
    if ret ≠ 0 then some (1, htab)
    else (setDefaultEnv defaultEnvironment config htab).map fun htab => (0, htab)

/-- `getenv` -/
def getenv (t : HTab) (name : CStr) : Option (Option CStr) :=
  (hsearchR .all ⟨name, none⟩ .FIND t).map fun r => r.retval.bind fun i => (r.htab.table i).data

/-! ## The image -/

theorem readHeader_le32 (x : BitVec 32) (data : List UInt8) : readHeader (le32 x ++ data) = some (x, data) := by
  have hx := x.isLt
  have hword : word (.ofNat x.toNat) (.ofNat (x.toNat / 2 ^ 8)) (.ofNat (x.toNat / 2 ^ 16))
      (.ofNat (x.toNat / 2 ^ 24)) = x := by
    apply BitVec.eq_of_toNat_eq
    simp only [word_toNat, UInt8.toNat_ofNat']
    omega
  show some (word _ _ _ _, data) = _
  rw [hword]

theorem saveenvImage_some {t : HTab} {addr config : Nat} {image : List UInt8}
    (h : saveenvImage t addr config = some image) :
    ∃ out, hexportR t 0 true (envSize config) [] = some (envSize config, out) ∧ out.length ≤ envSize config ∧
      image = le32 (crc32 0 addr (exportBuffer (envSize config) out)) ++ exportBuffer (envSize config) out := by
  obtain ⟨⟨n, out⟩, hexp, h⟩ := Option.bind_eq_some_iff.mp h
  simp only [Option.ite_none_right_eq_some] at h
  obtain ⟨hout, _, hn⟩ := hexportR_spec hexp
  have hpos : envSize config ≠ 0 := by
    have hle := h.1
    rw [hout, exportBytes, List.length_append, List.length_singleton] at hle
    omega
  exact ⟨out, hn hpos ▸ hexp, h.1, (Option.some.inj h.2).symm⟩

/-- The checksum of a saved image is good wherever the image is loaded. -/
theorem envImport_saved (defaultEnvironment : List UInt8) (addr addr' : Nat) {config : Nat} {data : List UInt8}
    (hlen : data.length = envSize config) (htab : Option HTab) :
    envImport defaultEnvironment addr config (le32 (crc32 0 addr' data) ++ data) htab =
      (himportR true htab data 0 false).bind fun r =>
        if r.1 ≠ 0 then some (1, r.2)
        else (setDefaultEnv defaultEnvironment config r.2).map fun htab => (0, htab) := by
  have hcrc : crc32 0 addr data = crc32 0 addr' data := by rw [crc32, crc32, crc32NoComp_eq, crc32NoComp_eq]
  have htake : data.take (envSize config) = data := List.take_of_length_le hlen.le
  rw [envImport, readHeader_le32, Option.bind_eq_bind, Option.bind_some]
  dsimp only
  rw [htake, if_neg (not_not_intro hcrc)]
  rfl

theorem himportR_of_envImport {defaultEnvironment : List UInt8} {addr addr' config : Nat} {data : List UInt8}
    (hlen : data.length = envSize config) {htab : Option HTab} {t : HTab}
    (h : envImport defaultEnvironment addr config (le32 (crc32 0 addr' data) ++ data) htab = some (1, some t)) :
    ∃ r, himportR true htab data 0 false = some (r, some t) := by
  rw [envImport_saved _ _ _ hlen] at h
  obtain ⟨⟨r, htab'⟩, himp, h⟩ := Option.bind_eq_some_iff.mp h
  split at h
  · cases h
    exact ⟨r, himp⟩
  · obtain ⟨_, _, he⟩ := Option.map_eq_some_iff.mp h
    cases he

/-! ## Lookups -/

section
variable {t : HTab} {k v : CStr}

theorem getenv_of_binds (hinv : t.Inv) (h : t.Binds k v) : getenv t k = some (some v) := by
  obtain ⟨i, hl, hk, hv⟩ := h
  simp [getenv, find_of_live hinv hl hk, hv]

theorem getenv_of_not_live (hinv : t.Inv) (h : ¬ t.Live k) : getenv t k = some none := by
  simp [getenv, find_of_not_live hinv h]

theorem binds_of_getenv (hinv : t.Inv) (h : getenv t k = some (some v)) : t.Binds k v := by
  by_cases hk : t.Live k
  · obtain ⟨i, hl, hki⟩ := hk
    rw [getenv, find_of_live hinv hl hki] at h
    exact ⟨i, hl, hki, Option.some.inj h⟩
  · rw [getenv_of_not_live hinv hk] at h
    cases h

end

/-! ## Damage -/

theorem le32_word (b₀ b₁ b₂ b₃ : UInt8) : le32 (word b₀ b₁ b₂ b₃) = [b₀, b₁, b₂, b₃] := by
  have h₀ := b₀.toNat_lt
  have h₁ := b₁.toNat_lt
  have h₂ := b₂.toNat_lt
  have h₃ := b₃.toNat_lt
  have hbyte : ∀ (b : UInt8) (n : Nat), n % 256 = b.toNat → UInt8.ofNat n = b := fun b n h => by
    rw [← UInt8.toNat_inj, UInt8.toNat_ofNat']
    exact h
  rw [le32, word_toNat, hbyte b₀ _ (by omega), hbyte b₁ _ (by omega), hbyte b₂ _ (by omega), hbyte b₃ _ (by omega)]

theorem le32_injective {x y : BitVec 32} (h : le32 x = le32 y) : x = y := by
  have hx := readHeader_le32 x []
  rw [h, readHeader_le32] at hx
  exact (congrArg Prod.fst (Option.some.inj hx)).symm

/-- An image is a checksum and data. -/
theorem exists_le32 (image : List UInt8) (h : 4 ≤ image.length) : ∃ x data, image = le32 x ++ data := by
  match image, h with
  | b₀ :: b₁ :: b₂ :: b₃ :: data, _ =>
      refine ⟨word b₀ b₁ b₂ b₃, data, ?_⟩
      rw [le32_word]
      rfl

/-- A saved image whose checksum or whose data were damaged is not loaded: the defaults are. The changed bits are within 32 bits
in a row, where the bits of a byte are counted from the low one on. -/
theorem envImport_damaged {t : HTab} {addr config : Nat} {image image' : List UInt8} (himg : saveenvImage t addr config = some image)
    (hlen : image'.length = image.length) (hne : image' ≠ image)
    (hpart : image'.take 4 = image.take 4 ∨ image'.drop 4 = image.drop 4) (i : Nat)
    (hout : ∀ j, j < i ∨ i + 32 ≤ j → (bitsOf image')[j]? = (bitsOf image)[j]?)
    (defaultEnvironment : List UInt8) (addr' : Nat) (htab : Option HTab) :
    envImport defaultEnvironment addr' config image' htab =
      (setDefaultEnv defaultEnvironment config htab).map fun htab => (0, htab) := by
  obtain ⟨out, -, hfit, rfl⟩ := saveenvImage_some himg
  have hdata : (exportBuffer (envSize config) out).length = envSize config := by
    rw [exportBuffer, List.length_append, List.length_replicate]
    omega
  generalize exportBuffer (envSize config) out = data at *
  have hfour : ∀ x, (le32 x).length = 4 := fun _ => rfl
  rw [List.length_append, hfour] at hlen
  obtain ⟨x, data', rfl⟩ := exists_le32 image' (by omega)
  rw [List.length_append, hfour] at hlen
  simp only [List.take_left' (hfour _), List.drop_left' (hfour _)] at hpart
  have hcrc : crc32 0 addr' data' ≠ x := by
    rcases hpart with hx | rfl
    · -- the data are damaged, and their checksum is another one
      obtain rfl := le32_injective hx
      have hbits : ∀ bs, bitsOf (le32 (crc32 0 addr data) ++ bs) = bitsOf (le32 (crc32 0 addr data)) ++ bitsOf bs := fun bs =>
        List.flatMap_append
      have h32 : (bitsOf (le32 (crc32 0 addr data))).length = 32 := by rw [bitsOf_length, hfour]
      refine (burst_detected 0 addr addr' data data' (i - 32) (by omega) (fun h => hne (by rw [h])) fun j hj => ?_).symm
      have hsame := hout (32 + j) (by omega)
      rw [hbits, hbits, List.getElem?_append_right (by omega), List.getElem?_append_right (by omega), h32, Nat.add_sub_cancel_left]
        at hsame
      exact hsame.symm
    · intro hx
      refine hne ?_
      rw [← hx, crc32, crc32, crc32NoComp_eq, crc32NoComp_eq]
  have htake : data'.take (envSize config) = data' := List.take_of_length_le (by omega)
  rw [envImport, readHeader_le32, Option.bind_eq_bind, Option.bind_some]
  dsimp only
  rw [htake, if_pos hcrc]

/-- One byte of an empty environment. -/
theorem envImport_damaged_byte : ∃ image, saveenvImage ⟨fun _ => ⟨0, none, none⟩, 5, 0⟩ 0 16 = some image ∧
    envImport [] 0 16 (image.set 7 1) none = (setDefaultEnv [] 16 none).map fun htab => (0, htab) := by
  have himg : saveenvImage ⟨fun _ => ⟨0, none, none⟩, 5, 0⟩ 0 16 =
      some (le32 (crc32 0 0 (List.replicate 12 0)) ++ List.replicate 12 0) := rfl
  refine ⟨_, himg, envImport_damaged himg List.length_set (fun h => ?_) (Or.inl rfl) 56 (fun _ hj => bitsOf_set _ 7 1 (by omega))
    [] 0 none⟩
  have hbyte : (some 1 : Option UInt8) = some 0 := congrArg (·[7]?) h
  cases hbyte

end Uboot.Env
