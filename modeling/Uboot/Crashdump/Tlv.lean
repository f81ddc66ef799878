import Uboot.Lib.Bytes

/-!
# The message of a crashed kernel

`qcom_wdt_extract_crashdump_data` (`arch/arm/cpu/armv7/qca/cmd_dumpqca_data.c`) takes apart a message of entries with type,
length and value. What it stores in `struct qcom_wdt_crashdump_data` is listed in its order; a read outside the message has no
result.
-/

namespace Uboot.Crashdump

open Lib

def maxUnameSize : Nat := 1024

/-- `QCOM_WDT_LOG_DUMP_TYPE_INVALID` and `QCOM_WDT_LOG_DUMP_TYPE_UNAME` -/
def typeInvalid : UInt8 := 0
def typeUname : UInt8 := 1

def einval : Int := -22

/-- `crashdump_data->uname_length = …` and the copy to `crashdump_data->uname` -/
inductive Store where
  | unameLength (n : Nat)
  | uname (bytes : List UInt8)
deriving DecidableEq

/-- `qcom_wdt_scm_extract_tlv_info` at `x`: type and size, or none for `-EINVAL` -/
def extractTlvInfo (msg : List UInt8) (x : Nat) : Option (Option (UInt8 × Nat)) :=
  if msg.length ≤ x + 3 then some none
  else do
    let type ← msg[x]?
    let lo ← msg[x + 1]?
    let hi ← msg[x + 2]?
    some (some (type, lo.toNat ||| hi.toNat <<< 8))

/-- Bytes of the message, if all of them are in it -/
def messageBytes (msg : List UInt8) (a n : Nat) : Option (List UInt8) :=
  if a + n ≤ msg.length then some ((msg.drop a).take n) else none

/-- `qcom_wdt_scm_extract_tlv_data` at `x`: the bytes that are copied, or none for `-EINVAL` -/
def extractTlvData (msg : List UInt8) (x size : Nat) : Option (Option (List UInt8)) :=
  if msg.length ≤ x + 3 + size then some none else (messageBytes msg (x + 3) size).map some

/-- The loop of `qcom_wdt_extract_crashdump_data` from `x` on: the result and the stores -/
def extractLoop (msg : List UInt8) : Nat → Nat → Option (Int × List Store)
  | 0, _ => none
  | fuel + 1, x => do
      match ← extractTlvInfo msg x with
      | none => some (einval, [])
      | some (type, size) =>
          if type = typeUname then
            match ← extractTlvData msg x size with
            | none => some (einval, [.unameLength size])
            | some data =>
                (extractLoop msg fuel (x + size + 3)).map fun r => (r.1, .unameLength size :: .uname data :: r.2)
          else if type = typeInvalid then some (0, [])
          else some (einval, [])

/-- `qcom_wdt_extract_crashdump_data`. Each round but the last goes on by three bytes at least. -/
def extractCrashdumpData (msg : List UInt8) : Option (Int × List Store) := extractLoop msg (msg.length + 1) 0

/-- `uname_length` lies behind `uname`. -/
def Store.apply (mem : Mem) : Store → Mem
  | .unameLength n => mem.write maxUnameSize (Mem.le16 n ++ Mem.le16 (n / 2 ^ 16))
  | .uname bytes => mem.write 0 bytes

/-- A store that keeps to `uname`, and a length that does. -/
def Store.Within : Store → Prop
  | .unameLength n => n ≤ maxUnameSize
  | .uname bytes => bytes.length ≤ maxUnameSize

instance (s : Store) : Decidable s.Within :=
  match s with
  | .unameLength n => inferInstanceAs (Decidable (n ≤ maxUnameSize))
  | .uname bytes => inferInstanceAs (Decidable (bytes.length ≤ maxUnameSize))

/-! ## Entries -/

/-- An entry as bytes -/
def tlv (type : UInt8) (value : List UInt8) : List UInt8 := type :: Mem.le16 value.length ++ value

/-- UNAME entries and an INVALID entry with the value `last` -/
def message (unames : List (List UInt8)) (last : List UInt8) : List UInt8 :=
  unames.flatMap (tlv typeUname) ++ tlv typeInvalid last

/-- The values fit `uname`, and the one of the INVALID entry has a length of 16 bits. -/
def Encodes (msg : List UInt8) (unames : List (List UInt8)) (last : List UInt8) : Prop :=
  (∀ v ∈ unames, v.length ≤ maxUnameSize) ∧ last.length < 2 ^ 16 ∧ msg = message unames last

/-- The parser comes to an end, reads only the message, and stores at most 1024 bytes and a length that is not greater. -/
def Safe (msg : List UInt8) : Prop := ∃ r, extractCrashdumpData msg = some r ∧ ∀ s ∈ r.2, s.Within

/-- The last UNAME entry and its length are what the parser leaves. -/
def Complete (msg : List UInt8) : Prop :=
  ∀ unames last, Encodes msg unames last → ∃ stores, extractCrashdumpData msg = some (0, stores) ∧
    ∀ v ∈ unames.getLast?, ∀ mem : Mem, (stores.foldl Store.apply mem).Holds 0 v ∧
      (stores.foldl Store.apply mem).Holds maxUnameSize (Mem.le16 v.length ++ [0, 0])

/-! ## Exactly when -/

/-- The length in the entry at `x` -/
def sizeAt (msg : List UInt8) (x : Nat) : Nat := (msg.getD (x + 1) 0).toNat + 256 * (msg.getD (x + 2) 0).toNat

/-- An entry at `x` with bytes behind its header -/
def UnameAt (msg : List UInt8) (x : Nat) : Prop := x + 3 < msg.length ∧ msg.getD x 0 = typeUname

/-- Whole UNAME entries, with bytes behind each, lead to `x`. -/
inductive Reached (msg : List UInt8) : Nat → Prop where
  | start : Reached msg 0
  | next {x : Nat} (h : Reached msg x) (huname : UnameAt msg x) (hin : x + 3 + sizeAt msg x < msg.length) :
      Reached msg (x + sizeAt msg x + 3)

/-- No UNAME entry that is reached announces more than 1024 bytes. -/
def ShortNames (msg : List UInt8) : Prop := ∀ x, Reached msg x → UnameAt msg x → sizeAt msg x ≤ maxUnameSize

/-- The message is no list of UNAME entries with an empty INVALID entry at its end. -/
def NoEmptyEnd (msg : List UInt8) : Prop := ∀ unames, ¬ Encodes msg unames []

section
variable {msg pre value last : List UInt8} {unames : List (List UInt8)} {x fuel : Nat} {type : UInt8}

/-! ## One entry -/

theorem halves_or (lo hi : UInt8) : lo.toNat ||| hi.toNat <<< 8 = lo.toNat + 256 * hi.toNat := by
  have hlo : lo.toNat < 2 ^ 8 := lo.toNat_lt
  rw [Nat.or_comm, ← Nat.shiftLeft_add_eq_or_of_lt hlo, Nat.shiftLeft_eq]
  omega

theorem getElem?_eq_getD (h : x < msg.length) : msg[x]? = some (msg.getD x 0) := by
  rw [List.getD_eq_getElem?_getD, List.getElem?_eq_getElem h, Option.getD_some]

theorem extractTlvInfo_inside (h : x + 3 < msg.length) :
    extractTlvInfo msg x = some (some (msg.getD x 0, sizeAt msg x)) := by
  rw [extractTlvInfo, if_neg (by omega), getElem?_eq_getD (show x < msg.length by omega),
    getElem?_eq_getD (show x + 1 < msg.length by omega), getElem?_eq_getD (show x + 2 < msg.length by omega)]
  simp only [Option.bind_eq_bind, Option.bind_some, halves_or, sizeAt]

/-- A UNAME entry with bytes behind it -/
theorem extractLoop_next (huname : UnameAt msg x) (hin : x + 3 + sizeAt msg x < msg.length) :
    extractLoop msg (fuel + 1) x = (extractLoop msg fuel (x + sizeAt msg x + 3)).map fun r =>
      (r.1, .unameLength (sizeAt msg x) :: .uname ((msg.drop (x + 3)).take (sizeAt msg x)) :: r.2) := by
  have hdata : extractTlvData msg x (sizeAt msg x) = some (some ((msg.drop (x + 3)).take (sizeAt msg x))) := by
    rw [extractTlvData, if_neg (by omega), messageBytes, if_pos (by omega), Option.map_some]
  rw [extractLoop, extractTlvInfo_inside huname.1]
  simp only [Option.bind_eq_bind, Option.bind_some, if_pos huname.2, hdata]

/-- A UNAME entry whose value does not end before the message does -/
theorem extractLoop_outside (huname : UnameAt msg x) (hout : ¬ x + 3 + sizeAt msg x < msg.length) :
    extractLoop msg (fuel + 1) x = some (einval, [.unameLength (sizeAt msg x)]) := by
  have hdata : extractTlvData msg x (sizeAt msg x) = some none := by rw [extractTlvData, if_pos (by omega)]
  rw [extractLoop, extractTlvInfo_inside huname.1]
  simp only [Option.bind_eq_bind, Option.bind_some, if_pos huname.2, hdata]

/-- Anything else ends the loop without a store. -/
theorem extractLoop_end (hother : ¬ UnameAt msg x) : extractLoop msg (fuel + 1) x =
    some (if x + 3 < msg.length ∧ msg.getD x 0 = typeInvalid then 0 else einval, []) := by
  rw [extractLoop]
  by_cases hin : x + 3 < msg.length
  · have htype : msg.getD x 0 ≠ typeUname := fun h => hother ⟨hin, h⟩
    rw [extractTlvInfo_inside hin]
    simp only [Option.bind_eq_bind, Option.bind_some, if_neg htype, hin, true_and]
    split <;> rfl
  · rw [extractTlvInfo, if_pos (by omega), if_neg (fun h => hin h.1)]
    rfl

/-! ## Safety -/

theorem Reached.le (h : Reached msg x) : x ≤ msg.length := by
  cases h with
  | start => exact Nat.zero_le _
  | next h huname hin => omega

/-- From a place that is reached, the loop ends, and stores no more than the entries announce. -/
theorem extractLoop_total (hx : Reached msg x) (hfuel : msg.length < x + fuel) :
    ∃ r, extractLoop msg fuel x = some r ∧ (ShortNames msg → ∀ s ∈ r.2, s.Within) := by
  induction fuel generalizing x with
  | zero =>
      have hle := hx.le
      omega
  | succ fuel ih =>
      by_cases huname : UnameAt msg x
      · by_cases hin : x + 3 + sizeAt msg x < msg.length
        · obtain ⟨r, hr, hwithin⟩ := ih (hx.next huname hin) (by omega)
          refine ⟨_, by rw [extractLoop_next huname hin, hr, Option.map_some], fun hshort s hs => ?_⟩
          have hsize := hshort x hx huname
          rcases List.mem_cons.mp hs with rfl | hs
          · exact hsize
          · rcases List.mem_cons.mp hs with rfl | hs
            · exact (List.length_take_le _ _).trans hsize
            · exact hwithin hshort s hs
        · refine ⟨_, extractLoop_outside huname hin, fun hshort s hs => ?_⟩
          rw [List.mem_singleton.mp hs]
          exact hshort x hx huname
      · exact ⟨_, extractLoop_end huname, fun _ s hs => absurd hs List.not_mem_nil⟩

/-- What is stored from a place that is reached on is stored in all. -/
theorem Reached.stores (h : Reached msg x) {r : Int × List Store} (hr : extractCrashdumpData msg = some r) :
    ∃ fuel r', extractLoop msg (fuel + 1) x = some r' ∧ ∀ s ∈ r'.2, s ∈ r.2 := by
  induction h with
  | start => exact ⟨msg.length, r, hr, fun s hs => hs⟩
  | next h huname hin ih =>
      obtain ⟨fuel, r', hloop, hmem⟩ := ih
      rw [extractLoop_next huname hin] at hloop
      obtain ⟨rest, hrest, rfl⟩ := Option.map_eq_some_iff.mp hloop
      cases fuel with
      | zero => cases hrest
      | succ fuel =>
          exact ⟨fuel, rest, hrest, fun s hs => hmem s (List.mem_cons_of_mem _ (List.mem_cons_of_mem _ hs))⟩

theorem safe_iff : Safe msg ↔ ShortNames msg := by
  constructor
  · rintro ⟨r, hr, hwithin⟩ x hx huname
    obtain ⟨fuel, r', hloop, hmem⟩ := hx.stores hr
    -- the length is the first thing that is stored
    have hstored : Store.unameLength (sizeAt msg x) ∈ r'.2 := by
      by_cases hin : x + 3 + sizeAt msg x < msg.length
      · rw [extractLoop_next huname hin] at hloop
        obtain ⟨rest, -, rfl⟩ := Option.map_eq_some_iff.mp hloop
        exact List.mem_cons_self
      · rw [extractLoop_outside huname hin] at hloop
        cases hloop
        exact List.mem_cons_self
    exact hwithin _ (hmem _ hstored)
  · intro hshort
    obtain ⟨r, hr, hwithin⟩ := @extractLoop_total msg 0 (msg.length + 1) .start (by omega)
    exact ⟨r, hr, hwithin hshort⟩

/-! ## Completeness -/

/-- The stores for UNAME entries -/
def unameStores (unames : List (List UInt8)) : List Store := unames.flatMap fun v => [.unameLength v.length, .uname v]

theorem tlv_length (type : UInt8) (value : List UInt8) : (tlv type value).length = 3 + value.length := by
  rw [tlv, List.length_append, List.length_cons]
  exact Nat.add_right_cancel_iff.mpr rfl

/-- An entry behind `pre` -/
theorem tlv_at {rest : List UInt8} (hvalue : value.length < 2 ^ 16) (hmsg : msg = pre ++ (tlv type value ++ rest)) :
    msg.getD pre.length 0 = type ∧ sizeAt msg pre.length = value.length ∧
      (msg.drop (pre.length + 3)).take value.length = value ∧ msg.length = pre.length + 3 + value.length + rest.length := by
  have hget : ∀ i, msg.getD (pre.length + i) 0 = (tlv type value ++ rest).getD i 0 := fun i => by
    rw [hmsg, List.getD_append_right _ _ _ _ (Nat.le_add_right _ _), Nat.add_sub_cancel_left]
  refine ⟨hget 0, ?_, ?_, ?_⟩
  · rw [sizeAt, hget 1, hget 2]
    exact Mem.le16_value value.length hvalue
  · have hsplit : msg = (pre ++ type :: Mem.le16 value.length) ++ (value ++ rest) := by
      rw [hmsg, tlv]
      simp only [List.append_assoc, List.cons_append]
    have hlen : (pre ++ type :: Mem.le16 value.length).length = pre.length + 3 := by
      rw [List.length_append]
      rfl
    rw [hsplit, List.drop_left' hlen, List.take_left]
  · rw [hmsg, List.length_append, List.length_append, tlv_length]
    omega

theorem message_length_pos (unames : List (List UInt8)) (last : List UInt8) : 3 ≤ (message unames last).length := by
  rw [message, List.length_append, tlv_length]
  omega

/-- A list of entries is taken apart up to the INVALID one, which needs bytes behind its header. -/
theorem extractLoop_message (hnames : ∀ v ∈ unames, v.length ≤ maxUnameSize) (hlast : last.length < 2 ^ 16)
    (hmsg : msg = pre ++ message unames last) (hfuel : unames.length < fuel) :
    extractLoop msg fuel pre.length = some (if last = [] then einval else 0, unameStores unames) := by
  induction unames generalizing pre fuel with
  | nil =>
      obtain ⟨fuel, rfl⟩ : ∃ k, fuel = k + 1 := ⟨fuel - 1, by simp at hfuel; omega⟩
      have hmsg' : msg = pre ++ (tlv typeInvalid last ++ []) := by rw [hmsg, message, List.append_nil]; rfl
      obtain ⟨htype, -, -, hlen⟩ := tlv_at hlast hmsg'
      rw [extractLoop_end (by rintro ⟨-, h⟩; rw [htype] at h; exact absurd h (by decide)), htype]
      cases last with
      | nil =>
          rw [if_neg (by simp at hlen; omega), if_pos rfl]
          rfl
      | cons b last =>
          rw [if_pos ⟨by simp at hlen; omega, rfl⟩, if_neg (List.cons_ne_nil _ _)]
          rfl
  | cons v unames ih =>
      obtain ⟨fuel, rfl⟩ : ∃ k, fuel = k + 1 := ⟨fuel - 1, by simp at hfuel; omega⟩
      have hv : v.length ≤ maxUnameSize := hnames v List.mem_cons_self
      have hmax : maxUnameSize < 2 ^ 16 := by decide
      have hmsg' : msg = pre ++ (tlv typeUname v ++ message unames last) := by
        rw [hmsg, message, message, List.flatMap_cons, List.append_assoc]
      obtain ⟨htype, hsize, hvalue, hlen⟩ := tlv_at (by omega) hmsg'
      have hrest := message_length_pos unames last
      have hnext := @ih (pre ++ tlv typeUname v) fuel (fun w hw => hnames w (List.mem_cons_of_mem _ hw))
        (by rw [hmsg', List.append_assoc]) (by simpa using hfuel)
      rw [List.length_append, tlv_length] at hnext
      rw [extractLoop_next ⟨by omega, htype⟩ (by rw [hsize]; omega), hsize, hvalue,
        show pre.length + v.length + 3 = pre.length + (3 + v.length) by omega, hnext, Option.map_some]
      rfl

theorem unames_length_le (unames : List (List UInt8)) (last : List UInt8) : unames.length ≤ (message unames last).length := by
  rw [message, List.length_append, List.length_flatMap]
  have hsum : (unames.map fun _ => 1).sum ≤ (unames.map fun v => (tlv typeUname v).length).sum :=
    List.sum_le_sum fun v _ => by
      rw [tlv_length]
      omega
  rw [List.map_const', List.sum_replicate, smul_eq_mul, Nat.mul_one] at hsum
  exact hsum.trans (Nat.le_add_right _ _)

theorem extract_message (h : Encodes msg unames last) :
    extractCrashdumpData msg = some (if last = [] then einval else 0, unameStores unames) := by
  obtain ⟨hnames, hlast, rfl⟩ := h
  have hle := unames_length_le unames last
  exact @extractLoop_message _ [] last unames _ hnames hlast rfl (by omega)

/-- What the stores leave -/
theorem unameStores_holds (hnames : ∀ v ∈ unames, v.length ≤ maxUnameSize) (hvalue : value ∈ unames.getLast?) (mem : Mem) :
    ((unameStores unames).foldl Store.apply mem).Holds 0 value ∧
      ((unameStores unames).foldl Store.apply mem).Holds maxUnameSize (Mem.le16 value.length ++ [0, 0]) := by
  obtain ⟨init, rfl⟩ := List.getLast?_eq_some_iff.mp hvalue
  have hlen := hnames value (List.mem_append_right _ (List.mem_singleton_self _))
  have hmax : maxUnameSize < 2 ^ 16 := by decide
  have hhigh : value.length / 2 ^ 16 = 0 := Nat.div_eq_of_lt (by omega)
  have hhalf : Mem.le16 (value.length / 2 ^ 16) = [0, 0] := by rw [hhigh]; rfl
  rw [unameStores, List.flatMap_append, List.foldl_append, List.flatMap_singleton]
  generalize (init.flatMap fun v => [Store.unameLength v.length, .uname v]).foldl Store.apply mem = m
  show ((m.write maxUnameSize _).write 0 value).Holds 0 value ∧ ((m.write maxUnameSize _).write 0 value).Holds maxUnameSize _
  refine ⟨Mem.holds_write, ?_⟩
  rw [hhalf]
  exact Mem.holds_write.write (Or.inl (by omega))

theorem complete_iff : Complete msg ↔ NoEmptyEnd msg := by
  constructor
  · intro h unames hencodes
    obtain ⟨stores, hstores, -⟩ := h unames [] hencodes
    rw [extract_message hencodes, if_pos rfl] at hstores
    have hret : einval = 0 := congrArg Prod.fst (Option.some.inj hstores)
    exact absurd hret (by decide)
  · intro h unames last hencodes
    have hne : last ≠ [] := by
      rintro rfl
      exact h unames hencodes
    refine ⟨unameStores unames, ?_, fun v hv mem => unameStores_holds hencodes.1 hv mem⟩
    rw [extract_message hencodes, if_neg hne]

/-- The parser is safe and complete just for messages without long names and without an empty INVALID entry at their end. -/
theorem crashdump_tlv_iff (msg : List UInt8) : Safe msg ∧ Complete msg ↔ ShortNames msg ∧ NoEmptyEnd msg :=
  and_congr safe_iff complete_iff

end

/-- A UNAME entry of 1025 bytes; and one of one byte with an INVALID entry of three bytes behind it. -/
theorem crashdump_tlv_fails : ¬ Safe (tlv typeUname (List.replicate 1025 65) ++ [0, 1, 0, 0]) ∧
    Encodes [1, 1, 0, 65, 0, 0, 0] [[65]] [] ∧
    extractCrashdumpData [1, 1, 0, 65, 0, 0, 0] = some (einval, [.unameLength 1, .uname [65]]) ∧
    ¬ Complete [1, 1, 0, 65, 0, 0, 0] := by
  have hencodes : Encodes [1, 1, 0, 65, 0, 0, 0] [[65]] [] := ⟨by decide, by decide, by decide⟩
  refine ⟨?_, hencodes, by decide, ?_⟩
  · rw [safe_iff]
    intro hshort
    obtain ⟨htype, hsize, -, hlen⟩ := @tlv_at _ [] (List.replicate 1025 65) typeUname [0, 1, 0, 0]
      (by rw [List.length_replicate]; decide) rfl
    rw [List.nil_append] at htype hsize hlen
    rw [List.length_replicate] at hsize hlen
    have hle := hshort 0 .start ⟨by rw [hlen]; decide, htype⟩
    rw [show sizeAt _ 0 = 1025 from hsize] at hle
    exact absurd hle (by decide)
  · rw [complete_iff]
    exact fun h => h [[65]] hencodes

end Uboot.Crashdump
