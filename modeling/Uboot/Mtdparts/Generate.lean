import Uboot.Mtdparts.Basic

/-!
# The pieces that `generate_mtdparts` writes

Every piece is compared with what is left of the buffer. The nine bytes of `mtdparts=` in front of them are not taken off,
and the room is one byte less than the buffer, which wraps for a buffer of no bytes.
-/

namespace Uboot.Mtdparts

open Lib Vsprintf

/-- The pieces of a partition; `more` when a comma follows. -/
def partPieces (prev : Option PartInfo) (part : PartInfo) (more : Bool) : List (List UInt8) :=
  memsizeFormat part.size ::
    ((if hasGap prev part then [64 :: memsizeFormat part.offset] else []) ++
      (if part.autoName then [] else [40 :: part.name ++ [41]]) ++ (if part.ro then [[114, 111]] else []) ++
        if more then [[44]] else [])

/-- The partitions of a device from the one behind `partCnt` on. -/
def partsPieces (numParts : Nat) : Nat → Option PartInfo → List PartInfo → List (List UInt8)
  | _, _, [] => []
  | partCnt, prev, part :: parts =>
      partPieces prev part (partCnt + 1 < numParts) ++ partsPieces numParts (partCnt + 1) (some part) parts

def devicePieces (dev : MtdDevice) : List (List UInt8) :=
  (dev.id.mtdId ++ [58]) :: partsPieces dev.numParts 0 none dev.parts

/-- All devices, with semicolons between them. -/
def pieces : List MtdDevice → List (List UInt8)
  | [] => []
  | [dev] => devicePieces dev
  | dev :: devices => devicePieces dev ++ [59] :: pieces devices

/-- `if (len > maxlen) goto cleanup; memcpy(p, ..); p += len; maxlen -= len;` for every piece: whether all were written, and
the bytes so far. -/
def putPieces : Nat → List UInt8 → List (List UInt8) → Bool × List UInt8
  | _, out, [] => (true, out)
  | maxlen, out, piece :: rest =>
      if maxlen < piece.length then (false, out) else putPieces (maxlen - piece.length) (out ++ piece) rest

/-- `maxlen` at the start -/
def maxlenOf (buflen : Nat) : Nat := if buflen = 0 then 2 ^ 32 - 1 else buflen - 1

/-- `generate_mtdparts`: the result, and the bytes of the buffer that were written. `sprintf` has put a NUL behind
`mtdparts=`. -/
def generateMtdpartsBuf (devices : List MtdDevice) (buflen : Nat) : Nat × List UInt8 :=
  if devices = [] then (0, [0])
  else
    let (all, out) := putPieces (maxlenOf buflen) mtdpartsText (pieces devices)
    if all then (0, out ++ [0]) else (1, if out = mtdpartsText then out ++ [0] else out)

/-- The text of the devices with its NUL. -/
def neededBytes (devices : List MtdDevice) : Nat :=
  if devices = [] then 1 else (mtdpartsText ++ (pieces devices).flatten ++ [0]).length

/-- Nothing is written behind the buffer, and there is an error when it is too small. -/
def RespectsBuffer (devices : List MtdDevice) (buflen : Nat) : Prop :=
  (generateMtdpartsBuf devices buflen).2.length ≤ buflen ∧
    (buflen < neededBytes devices → (generateMtdpartsBuf devices buflen).1 = 1)

/-- The first `n` pieces. -/
def firstPieces (devices : List MtdDevice) (n : Nat) : List UInt8 := ((pieces devices).take n).flatten

section
variable {devices : List MtdDevice} {ps : List (List UInt8)} {out piece : List UInt8} {maxlen buflen n : Nat}

/-- What is written is a beginning of the pieces that fits. -/
theorem putPieces_spec : ∃ n, (putPieces maxlen out ps).2 = out ++ (ps.take n).flatten ∧ (ps.take n).flatten.length ≤ maxlen ∧
    ((putPieces maxlen out ps).1 = true → ps.take n = ps) := by
  induction ps generalizing maxlen out with
  | nil => exact ⟨0, (List.append_nil out).symm, Nat.zero_le _, fun _ => rfl⟩
  | cons piece ps ih =>
      unfold putPieces
      split
      next => exact ⟨0, (List.append_nil out).symm, Nat.zero_le _, fun h => by cases h⟩
      next hfit =>
        obtain ⟨n, hout, hlen, hall⟩ := @ih (out ++ piece) (maxlen - piece.length)
        refine ⟨n + 1, ?_, ?_, fun h => ?_⟩
        · rw [hout, List.take_succ_cons, List.flatten_cons, List.append_assoc]
        · rw [List.take_succ_cons, List.flatten_cons, List.length_append]
          omega
        · rw [List.take_succ_cons, hall h]

/-- All pieces are written just when they fit together. -/
theorem putPieces_all : (putPieces maxlen out ps).1 = true ↔ ps.flatten.length ≤ maxlen := by
  induction ps generalizing maxlen out with
  | nil => exact iff_of_true rfl (Nat.zero_le _)
  | cons piece ps ih =>
      rw [List.flatten_cons, List.length_append]
      unfold putPieces
      split
      next hlong => exact iff_of_false (fun h => by cases h) (by omega)
      next hfit =>
        rw [ih]
        omega

/-- A beginning that fits is written. -/
theorem putPieces_take (h : (ps.take n).flatten.length ≤ maxlen) :
    out ++ (ps.take n).flatten <+: (putPieces maxlen out ps).2 := by
  induction ps generalizing maxlen out n with
  | nil => simp [putPieces]
  | cons piece ps ih =>
      cases n with
      | zero =>
          obtain ⟨n, hout, -, -⟩ := @putPieces_spec (piece :: ps) out maxlen
          rw [hout, List.take_zero, List.flatten_nil, List.append_nil]
          exact List.prefix_append _ _
      | succ n =>
          rw [List.take_succ_cons, List.flatten_cons, List.length_append] at h
          rw [putPieces, if_neg (by omega), List.take_succ_cons, List.flatten_cons, ← List.append_assoc]
          exact ih (by omega)

theorem mtdpartsText_length : mtdpartsText.length = 9 := rfl

/-- The bytes behind the text. -/
theorem generate_length (hne : devices ≠ []) : (generateMtdpartsBuf devices buflen).2.length =
    max 10 ((putPieces (maxlenOf buflen) mtdpartsText (pieces devices)).2.length +
      if (putPieces (maxlenOf buflen) mtdpartsText (pieces devices)).1 then 1 else 0) := by
  obtain ⟨n, hout, -, -⟩ := @putPieces_spec (pieces devices) mtdpartsText (maxlenOf buflen)
  have hlen := congrArg List.length hout
  rw [List.length_append, mtdpartsText_length] at hlen
  rw [generateMtdpartsBuf, if_neg hne]
  dsimp only
  split
  next =>
    rw [List.length_append, List.length_singleton]
    omega
  next =>
    split
    next heq =>
      rw [heq]
      rfl
    next hmore =>
      have hpos : ((pieces devices).take n).flatten ≠ [] := fun h => hmore (by rw [hout, h, List.append_nil])
      have hpos := List.length_pos_iff.mpr hpos
      dsimp only
      omega

theorem generate_error (hne : devices ≠ []) :
    (generateMtdpartsBuf devices buflen).1 = 1 ↔ maxlenOf buflen < (pieces devices).flatten.length := by
  rw [generateMtdpartsBuf, if_neg hne, ← not_iff_not, Nat.not_lt, ← putPieces_all]
  dsimp only
  split
  next h => exact iff_of_true (fun h => by cases h) h
  next h => exact iff_of_false (not_not.mpr rfl) h

/-- Respected just when a beginning of whole pieces that is shorter than the buffer leaves nine bytes of it, and the whole
text ten. -/
theorem generate_respects_iff (devices : List MtdDevice) (buflen : Nat) : RespectsBuffer devices buflen ↔
    if devices = [] then 1 ≤ buflen
    else 10 ≤ buflen ∧ (∀ n, (firstPieces devices n).length < buflen → (firstPieces devices n).length + 9 ≤ buflen) ∧
      ((pieces devices).flatten.length < buflen → (pieces devices).flatten.length + 10 ≤ buflen) := by
  by_cases hne : devices = []
  · subst hne
    rw [if_pos rfl]
    refine ⟨fun h => h.1, fun h => ⟨h, fun hlt => absurd hlt (Nat.not_lt.mpr h)⟩⟩
  rw [if_neg hne]
  have hneeded : neededBytes devices = (pieces devices).flatten.length + 10 := by
    rw [neededBytes, if_neg hne, List.length_append, List.length_append, mtdpartsText_length, List.length_singleton]
    omega
  rw [RespectsBuffer, generate_length hne, generate_error hne, hneeded]
  rcases Nat.eq_zero_or_pos buflen with rfl | hpos
  · exact iff_of_false (fun h => by have := h.1; omega) (fun h => by have := h.1; omega)
  have hmax : maxlenOf buflen = buflen - 1 := if_neg hpos.ne'
  rw [hmax]
  constructor
  · rintro ⟨hlen, hsmall⟩
    refine ⟨by omega, fun n hn => ?_, fun hall => ?_⟩
    · have hput : mtdpartsText ++ ((pieces devices).take n).flatten <+: (putPieces (buflen - 1) mtdpartsText (pieces devices)).2 :=
        putPieces_take (show (firstPieces devices n).length ≤ buflen - 1 by omega)
      have hprefix := hput.length_le
      rw [List.length_append, mtdpartsText_length] at hprefix
      rw [firstPieces] at hn ⊢
      omega
    · by_contra hno
      have := hsmall (by omega)
      omega
  · rintro ⟨hten, hbeginnings, hwhole⟩
    obtain ⟨n, hout, hfit, hall⟩ := @putPieces_spec (pieces devices) mtdpartsText (buflen - 1)
    have hlen := congrArg List.length hout
    rw [List.length_append, mtdpartsText_length] at hlen
    have hn := hbeginnings n (by rw [firstPieces]; omega)
    rw [firstPieces] at hn
    refine ⟨?_, fun hlt => ?_⟩
    · split
      next hok =>
        rw [hall hok] at hlen
        have := putPieces_all.mp hok
        have := hwhole (by omega)
        omega
      next => omega
    · by_contra hno
      have := hwhole (by omega)
      omega

/-! ## The text -/

theorem partPieces_flatten (prev : Option PartInfo) (part : PartInfo) (more : Bool) :
    (partPieces prev part more).flatten = formatPart prev part ++ if more then [44] else [] := by
  unfold partPieces formatPart
  cases hasGap prev part <;> cases part.autoName <;> cases part.ro <;> cases more <;> simp

theorem partsPieces_flatten {parts : List PartInfo} {prev : Option PartInfo} {partCnt numParts : Nat}
    (h : numParts = partCnt + parts.length) : (partsPieces numParts partCnt prev parts).flatten = formatParts prev parts := by
  induction parts generalizing prev partCnt with
  | nil => rfl
  | cons part parts ih =>
      rw [partsPieces, List.flatten_append, partPieces_flatten, ih (by rw [h, List.length_cons]; omega)]
      cases parts with
      | nil =>
          rw [List.length_singleton] at h
          rw [h, decide_eq_false (Nat.lt_irrefl _), formatParts, formatParts]
          simp
      | cons next parts =>
          have hmore : partCnt + 1 < numParts := by
            rw [h, List.length_cons, List.length_cons]
            omega
          have htext : formatParts prev (part :: next :: parts) =
              formatPart prev part ++ 44 :: formatParts (some part) (next :: parts) := rfl
          rw [decide_eq_true hmore, htext]
          simp

theorem pieces_flatten (h : ∀ dev ∈ devices, dev.parts.length < 2 ^ 16) :
    (pieces devices).flatten = formatDevices devices := by
  have hdev : ∀ dev ∈ devices, (devicePieces dev).flatten = formatDevice dev := by
    intro dev hdev
    have hcount : dev.numParts = 0 + dev.parts.length := by
      rw [MtdDevice.numParts, Nat.mod_eq_of_lt (h dev hdev), Nat.zero_add]
    rw [devicePieces, List.flatten_cons, partsPieces_flatten hcount, formatDevice, List.append_assoc, List.singleton_append]
  induction devices with
  | nil => rfl
  | cons dev devices ih =>
      have hrest := ih (fun x hx => h x (List.mem_cons_of_mem _ hx)) fun x hx => hdev x (List.mem_cons_of_mem _ hx)
      cases devices with
      | nil => exact hdev dev List.mem_cons_self
      | cons next devices =>
          have hpieces : pieces (dev :: next :: devices) = devicePieces dev ++ [59] :: pieces (next :: devices) := rfl
          have htext : formatDevices (dev :: next :: devices) = formatDevice dev ++ 59 :: formatDevices (next :: devices) := rfl
          rw [hpieces, htext, List.flatten_append, List.flatten_cons, hdev dev List.mem_cons_self, hrest]
          rfl

theorem generate_ok (hne : devices ≠ []) (h : (pieces devices).flatten.length ≤ maxlenOf buflen) :
    generateMtdpartsBuf devices buflen = (0, mtdpartsText ++ (pieces devices).flatten ++ [0]) := by
  obtain ⟨n, hout, -, hall⟩ := @putPieces_spec (pieces devices) mtdpartsText (maxlenOf buflen)
  have hok : (putPieces (maxlenOf buflen) mtdpartsText (pieces devices)).1 = true := putPieces_all.mpr h
  rw [generateMtdpartsBuf, if_neg hne]
  dsimp only
  rw [if_pos hok, hout, hall hok]

/-- With a buffer, and so few partitions that they can be counted, the pieces are the text. -/
theorem generateMtdparts_eq (h : ∀ dev ∈ devices, dev.parts.length < 2 ^ 16) (hpos : 0 < buflen) :
    generateMtdparts devices buflen =
      if (generateMtdpartsBuf devices buflen).1 = 0 then some (generateMtdpartsBuf devices buflen).2.dropLast else none := by
  by_cases hne : devices = []
  · rw [generateMtdparts, generateMtdpartsBuf, if_pos hne, if_pos hne]
    rfl
  have hmax : maxlenOf buflen = buflen - 1 := if_neg hpos.ne'
  rw [generateMtdparts, if_neg hne, ← pieces_flatten h, ← hmax]
  by_cases hfit : (pieces devices).flatten.length ≤ maxlenOf buflen
  · rw [if_pos hfit, generate_ok hne hfit]
    simp
  · rw [if_neg hfit, (generate_error hne).mpr (Nat.not_le.mp hfit)]
    rfl

end

/-- The NAND device `a` with one partition of a mebibyte. -/
def oneDevice : MtdDevice := ⟨⟨.nand, 0, 2 ^ 20, [97], by decide⟩, [⟨[], true, 2 ^ 20, 0, false, 0⟩]⟩

/-- `mtdparts=a:1m` and its NUL are written to a buffer of five bytes. -/
theorem generate_overruns_buffer : ¬RespectsBuffer [oneDevice] 5 ∧ (generateMtdpartsBuf [oneDevice] 5).1 = 0 ∧
    (generateMtdpartsBuf [oneDevice] 5).2.length = 14 := by
  have hrun : (generateMtdpartsBuf [oneDevice] 5).2.length = 14 := by decide
  refine ⟨fun h => ?_, by decide, hrun⟩
  have hle := h.1
  omega

end Uboot.Mtdparts
