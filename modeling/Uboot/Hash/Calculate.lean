import Uboot.Crc32.Basic
import Uboot.Fit.Hashes
import Uboot.Hash.Md5

/-!
# The hashes of `calculate_hash` (`common/image.c`)

`mkimage` hashes data with one call. A board with a watchdog takes them in chunks of 64 KiB.
-/

namespace Uboot.Hash

open Lib Crc32 Fit

/-- A checksum and the address of the next chunk -/
def crc32Chunk (c : BitVec 32 × Nat) (xs : Bytes) : BitVec 32 × Nat := (crc32 c.1 c.2 xs, c.2 + xs.length)

/-- `crc32_wd`, with or without a watchdog -/
def crc32Wd (watchdog : Bool) (chunkSz : Nat) (crc : BitVec 32) (addr : Nat) (buf : Bytes) : Option (BitVec 32) :=
  if watchdog then (wdLoop crc32Chunk chunkSz (crc, addr) buf).map Prod.fst
  else some (crc32 crc addr buf)

/-- `CHUNKSZ` -/
def chunksz : Nat := 64 * 1024

/-- What is on the stack, and where the data are -/
structure Memory where
  sha1 : { ctx : Sha1Context // ctx.buffer.length = 64 }
  md5 : { ctx : Md5Context // ctx.inBuf.length = 64 }
  addr : Nat

/-- `data_len` is an `int`. -/
def ofData (hash : Bytes → Bytes) (data : Bytes) : Bytes := if data.length < 2 ^ 31 then hash data else []

/-- The functions that `calculate_hash` calls, and what it stores -/
def hashes (watchdog : Bool) (m : Memory) : Hashes where
  crc32 := ofData fun data => (crc32Wd watchdog chunksz 0 m.addr data).elim [] fun crc => BigEndian.encode 4 crc.toNat
  sha1 := ofData fun data => (sha1CsumWd watchdog chunksz m.sha1 data).getD []
  md5 := ofData fun data => (md5Wd watchdog chunksz m.md5 data).getD []

/-- The values of the standards -/
def standard : Hashes where
  crc32 := ofData fun data => BigEndian.encode 4 (crc32 0 0 data).toNat
  sha1 := ofData sha1
  md5 := ofData rfcMd5

theorem crc32_append (crc : BitVec 32) (addr addr' : Nat) (xs ys : Bytes) :
    crc32 (crc32 crc addr xs) addr' ys = crc32 crc addr (xs ++ ys) := by
  have hcancel : ∀ x : BitVec 32, x ^^^ 0xffffffff ^^^ 0xffffffff = x := fun x => by
    rw [BitVec.xor_assoc, BitVec.xor_self]
    exact BitVec.xor_zero
  rw [crc32, crc32, crc32, crc32NoComp_eq, crc32NoComp_eq, crc32NoComp_eq, List.foldl_append, hcancel]

/-- In chunks or at once, the checksum is the same. -/
theorem crc32Wd_eq (watchdog : Bool) {chunkSz : Nat} (hchunk : 0 < chunkSz) (addr addr' : Nat) (buf : Bytes) :
    crc32Wd watchdog chunkSz 0 addr buf = some (crc32 0 addr' buf) := by
  have haddr : ∀ a b xs, crc32 0 a xs = crc32 0 b xs := fun a b xs => by rw [crc32, crc32, crc32NoComp_eq, crc32NoComp_eq]
  cases watchdog with
  | false => exact congrArg some (haddr _ _ _)
  | true =>
      have hstart : (0, addr).1 = crc32 0 addr' [] := by
        rw [haddr addr' 0]
        show (0 : BitVec 32) = crc32 0 0 []
        decide
      have hupdate : ∀ (c : BitVec 32 × Nat) (m xs : Bytes), c.1 = crc32 0 addr' m → xs.length < buf.length + 1 →
          (crc32Chunk c xs).1 = crc32 0 addr' (m ++ xs) := by
        intro c m xs hm _
        rw [crc32Chunk, hm, crc32_append]
      obtain ⟨c, hloop, hc⟩ := wdLoop_holds hupdate hstart hchunk (Nat.lt_succ_self buf.length)
      rw [crc32Wd, if_pos rfl, hloop]
      exact congrArg some hc

/-- The values are those of the standards. -/
theorem hashes_eq (watchdog : Bool) (m : Memory) : hashes watchdog m = standard := by
  have hchunk : 0 < chunksz := by decide
  have hdata : ∀ {f g : Bytes → Bytes}, (∀ data, data.length < 2 ^ 31 → f data = g data) → ofData f = ofData g := by
    intro f g h
    funext data
    rw [ofData, ofData]
    split
    · exact h data ‹_›
    · rfl
  rw [hashes, standard]
  congr 1
  · exact hdata fun data _ => by rw [crc32Wd_eq watchdog hchunk m.addr 0]; rfl
  · exact hdata fun data hlen => by rw [sha1CsumWd_eq watchdog hchunk m.sha1.2 hlen]; rfl
  · exact hdata fun data hlen => by rw [md5Wd_eq watchdog hchunk m.md5.2 hlen]; rfl

/-- What `mkimage` writes are the values of the standards, and a board with a watchdog accepts them. -/
theorem mkimage_hashes_accepted (host board : Memory) (fits : Fdt.Blob → Bool) (root : Fdt.Node) (blob : Fdt.Blob)
    (hset : fitSetHashes (hashes false host) fits root.flatten = .ok blob) :
    fitSetHashes standard fits root.flatten = .ok blob ∧ fitAllImageCheckHashes (hashes true board) blob = some 1 := by
  rw [hashes_eq] at hset
  rw [hashes_eq]
  exact ⟨hset, set_then_check hset⟩

/-- Memory with zeros -/
def zeroed : Memory where
  sha1 := ⟨⟨(0, 0), sha1Init, List.replicate 64 0⟩, List.length_replicate⟩
  md5 := ⟨⟨md5Iv, (0, 0), List.replicate 64 0⟩, List.length_replicate⟩
  addr := 0

/-- A FIT with a kernel of three bytes and these nodes -/
def kernelFit (nodes : List Fdt.Node) : Fdt.Node :=
  .node [] [] [.node (ascii "images") [] [.node (ascii "kernel@1") [(dataProp, [1, 2, 3])] nodes]]

/-- A hash node, with a value when it is set -/
def hashNode (name algo : String) (value : Option Bytes) : Fdt.Node :=
  .node (ascii name) ((value.map (Prod.mk valueProp)).toList ++ [(algoProp, ascii algo ++ [0])]) []

/-- A node for each algorithm -/
def hashNodes (crc sha md : Option Bytes) : List Fdt.Node :=
  [hashNode "hash@1" "crc32" crc, hashNode "hash@2" "sha1" sha, hashNode "hash@3" "md5" md]

/-- The values are those of the three bytes, whatever the functions are. -/
theorem kernelFit_set (h : Hashes) : fitSetHashes h (fun _ => true) (kernelFit (hashNodes none none none)).flatten =
    .ok (kernelFit (hashNodes (some (h.crc32 [1, 2, 3])) (some (h.sha1 [1, 2, 3])) (some (h.md5 [1, 2, 3])))).flatten :=
  rfl

/-- `mkimage` stores the three values of the standards, and they are found right. -/
theorem mkimage_hashes_accepted_kernel : ∃ blob,
    blob = (kernelFit (hashNodes (some (standard.crc32 [1, 2, 3])) (some (standard.sha1 [1, 2, 3]))
      (some (standard.md5 [1, 2, 3])))).flatten ∧
      fitSetHashes standard (fun _ => true) (kernelFit (hashNodes none none none)).flatten = .ok blob ∧
      fitAllImageCheckHashes (hashes true zeroed) blob = some 1 := by
  refine ⟨_, rfl, mkimage_hashes_accepted zeroed zeroed (fun _ => true) (kernelFit (hashNodes none none none)) _ ?_⟩
  rw [hashes_eq]
  exact kernelFit_set standard

end Uboot.Hash
