import Uboot.Bootp.Basic

/-!
# Pads and the packet's end

A pad has no length byte, but both loops take the next option's code for one. Neither loop knows where the packet ends.
-/

namespace Uboot.Bootp

section
variable {p p' : NetParams} {code : UInt8} {left oplen n : Nat} {data rest popt tail : List UInt8} {o : DhcpOption}
  {os : List DhcpOption} {ps : List (Nat × DhcpOption)}

/-! ## Options in the packet -/

@[simp] theorem encode_nil : encode [] = [] := rfl

@[simp] theorem encode_cons (o : DhcpOption) (os : List DhcpOption) : encode (o :: os) = o.bytes ++ encode os :=
  List.flatMap_cons

@[simp] theorem padded_nil : padded [] = [] := rfl

@[simp] theorem padded_cons (n : Nat) (o : DhcpOption) (ps : List (Nat × DhcpOption)) :
    padded ((n, o) :: ps) = List.replicate n 0 ++ (o.bytes ++ padded ps) := by
  rw [padded, List.flatMap_cons, List.append_assoc]
  rfl

theorem DhcpOption.bytes_append (o : DhcpOption) (rest : List UInt8) :
    o.bytes ++ rest = o.code :: UInt8.ofNat o.data.length :: (o.data ++ rest) := rfl

theorem DhcpOption.bytes_length (o : DhcpOption) : o.bytes.length = o.data.length + 2 := rfl

theorem DhcpOption.length_byte (o : DhcpOption) : (UInt8.ofNat o.data.length).toNat = o.data.length :=
  UInt8.toNat_ofNat_of_lt o.length_lt

/-- The option that begins with a code and a length. -/
def DhcpOption.ofBytes (code oplen : UInt8) (data : List UInt8) : DhcpOption where
  code := code
  data := data.take oplen.toNat
  length_lt := Nat.lt_of_le_of_lt (List.length_take_le ..) oplen.toNat_lt

theorem DhcpOption.ofBytes_bytes {oplen : UInt8} (h : oplen.toNat ≤ data.length) :
    (ofBytes code oplen data).bytes ++ data.drop oplen.toNat = code :: oplen :: data := by
  have hlen : (data.take oplen.toNat).length = oplen.toNat := List.length_take_of_le h
  rw [bytes_append, ofBytes, hlen, List.take_append_drop, UInt8.ofNat_toNat]

/-! ## One option -/

theorem truncateSz_le (maxlen curlen : Nat) : truncateSz maxlen curlen ≤ curlen := by
  unfold truncateSz
  split <;> omega

theorem netCopy_isSome : (netCopy data n).isSome = true ↔ n ≤ data.length := by
  unfold netCopy
  split
  next h => simp [h]
  next h => simp [h]

theorem netCopy_append (h : n ≤ data.length) (rest : List UInt8) : netCopy (data ++ rest) n = netCopy data n := by
  rw [netCopy, netCopy, if_pos h, if_pos (by rw [List.length_append]; omega), List.take_append_of_le_length h]

/-- How many bytes are copied; `empty` is an empty `bp_file`. -/
def copyLen (empty : Bool) (code : UInt8) (oplen : Nat) : Nat :=
  match code.toNat with
  | 1 | 3 | 6 | 51 | 54 => 4
  | 12 => truncateSz 32 oplen
  | 17 => truncateSz 64 oplen
  | 67 => if empty then truncateSz 128 oplen else 0
  | _ => 0

def NetParams.noFile (p : NetParams) : Bool := p.bpFile.head? = some 0

theorem processOption_isSome : (processOption p code oplen data).isSome = true ↔
    copyLen p.noFile code oplen ≤ data.length := by
  unfold processOption copyLen
  split <;> rename_i hcode <;> simp only [hcode, Option.isSome_map, netCopy_isSome]
  · by_cases hfile : p.bpFile.head? = some 0
    · by_cases hsize : 0 < truncateSz 128 oplen
      · simp [NetParams.noFile, hfile, hsize, netCopy_isSome]
      · simp [NetParams.noFile, hfile, hsize]
        omega
    · simp [NetParams.noFile, hfile]
  · simp

theorem processOption_append (h : copyLen p.noFile code oplen ≤ data.length) (rest : List UInt8) :
    processOption p code oplen (data ++ rest) = processOption p code oplen data := by
  unfold copyLen at h
  unfold processOption
  split <;> rename_i hcode <;> simp only [hcode] at h
  · rw [netCopy_append h]
  · rw [netCopy_append h]
  · rw [netCopy_append h]
  · rw [netCopy_append h]
  · rw [netCopy_append h]
  · rw [netCopy_append h]
  · rw [netCopy_append h]
  · dsimp only
    split
    next hfile =>
      rw [NetParams.noFile, decide_eq_true hfile.1, if_pos rfl] at h
      rw [netCopy_append h]
    next => rfl
  · rfl

/-- An option with the name of a file. -/
def DhcpOption.namesFile (o : DhcpOption) : Bool := o.code = 67 ∧ o.data ≠ [] ∧ o.data.head? ≠ some 0

theorem processOption_file (hcode : code = 67) : processOption p code oplen data =
    if p.bpFile.head? = some 0 ∧ 0 < truncateSz 128 oplen then
      (netCopy data (truncateSz 128 oplen)).map fun s => { p with bpFile := setString p.bpFile s }
    else some p := by
  subst hcode
  rfl

/-- Such an option is taken when there was none. -/
theorem processOption_noFile (h : processOption p o.code o.data.length (o.data ++ rest) = some p') :
    p'.noFile = (p.noFile && !o.namesFile) := by
  by_cases hcode : o.code = 67
  · rw [processOption_file hcode] at h
    split at h
    next hfile =>
      obtain ⟨hempty, hsize⟩ := hfile
      cases hdata : o.data with
      | nil =>
          rw [hdata] at hsize
          cases hsize
      | cons b bs =>
          obtain ⟨k, hk⟩ := Nat.exists_eq_add_of_le' hsize
          rw [hk, netCopy] at h
          split at h
          next =>
            rw [hdata, List.cons_append, List.take_succ_cons, Option.map_some] at h
            cases h
            simp [NetParams.noFile, hempty, DhcpOption.namesFile, hcode, hdata, setString]
          next => cases h
    next hfile =>
      cases h
      by_cases hempty : p.bpFile.head? = some 0
      · have hsize : ¬ 0 < truncateSz 128 o.data.length := fun hpos => hfile ⟨hempty, hpos⟩
        have hnil : o.data = [] := by
          rw [truncateSz] at hsize
          rw [← List.length_eq_zero_iff]
          split at hsize <;> omega
        simp [NetParams.noFile, hempty, DhcpOption.namesFile, hnil]
      · simp [NetParams.noFile, hempty]
  · have hnat : o.code.toNat ≠ 67 := fun hn => hcode (UInt8.toNat_inj.mp hn)
    have hfile : p'.bpFile = p.bpFile := by
      unfold processOption at h
      split at h
      · obtain ⟨b, -, rfl⟩ := Option.map_eq_some_iff.mp h; rfl
      · obtain ⟨b, -, rfl⟩ := Option.map_eq_some_iff.mp h; rfl
      · obtain ⟨b, -, rfl⟩ := Option.map_eq_some_iff.mp h; rfl
      · obtain ⟨b, -, rfl⟩ := Option.map_eq_some_iff.mp h; rfl
      · obtain ⟨b, -, rfl⟩ := Option.map_eq_some_iff.mp h; rfl
      · obtain ⟨b, -, rfl⟩ := Option.map_eq_some_iff.mp h; rfl
      · obtain ⟨b, -, rfl⟩ := Option.map_eq_some_iff.mp h; rfl
      · exact absurd ‹_› hnat
      · cases h; rfl
    simp [NetParams.noFile, hfile, DhcpOption.namesFile, hcode]

/-! ## The loop over the options -/

theorem optionsLoop_zero : optionsLoop 0 popt p = some p := by
  rw [optionsLoop.eq_def, if_pos rfl]

theorem optionsLoop_nil (hleft : left ≠ 0) : optionsLoop left [] p = none := by
  rw [optionsLoop.eq_def, if_neg hleft]

theorem optionsLoop_cut (hleft : left ≠ 0) (hcode : code ≠ 0xff) : optionsLoop left [code] p = none := by
  rw [optionsLoop.eq_def, if_neg hleft]
  exact if_neg hcode

theorem optionsLoop_end : optionsLoop left (0xff :: popt) p = some p := by
  rw [optionsLoop.eq_def]
  split
  next => rfl
  next => rfl

theorem optionsLoop_option {oplen : UInt8} (hleft : left ≠ 0) (hcode : code ≠ 0xff) :
    optionsLoop left (code :: oplen :: data) p = (processOption p code oplen.toNat data).bind
      (optionsLoop (left - (oplen.toNat + 2)) (data.drop oplen.toNat)) := by
  rw [optionsLoop.eq_def, if_neg hleft]
  dsimp only
  rw [if_neg hcode]
  cases processOption p code oplen.toNat data with
  | none => rfl
  | some p => rfl

theorem optionsLoop_bytes (hleft : left ≠ 0) (hcode : o.code ≠ 0xff) :
    optionsLoop left (o.bytes ++ rest) p = (processOption p o.code o.data.length (o.data ++ rest)).bind
      (optionsLoop (left - o.bytes.length) rest) := by
  rw [DhcpOption.bytes_append, optionsLoop_option hleft hcode, o.length_byte, List.drop_left, o.bytes_length]

/-- Whole options up to an end mark or the limit, in the packet with all that is copied from them. A file is copied
only when there is none yet. -/
def OptionsInside (left : Nat) (popt : List UInt8) (p : NetParams) : Prop :=
  ∃ os tail, popt = encode os ++ tail ∧ (∀ o ∈ os, o.code ≠ 0xff) ∧
    (∀ pre o post, os = pre ++ o :: post → o.code ∈ [1, 3, 6, 51, 54] → 4 ≤ (o.data ++ (encode post ++ tail)).length) ∧
      (tail.head? = some 0xff ∨ left ≤ (encode os).length ∨
        ∃ code oplen data, tail = code :: oplen :: data ∧ left ≤ (encode os).length + (oplen.toNat + 2) ∧
          copyLen (p.noFile && os.all fun o => !o.namesFile) code oplen.toNat ≤ data.length)

theorem isSome_bind {α β : Type} {x : Option α} {f : α → Option β} : (x.bind f).isSome = true ↔
    ∃ a, x = some a ∧ (f a).isSome = true := by
  cases x with
  | none => simp
  | some a => simp

/-- What is copied from a whole option. -/
theorem copyLen_le {empty : Bool} (hfixed : code ∈ [1, 3, 6, 51, 54] → 4 ≤ data.length) (hoplen : oplen ≤ data.length) :
    copyLen empty code oplen ≤ data.length := by
  have hsize : ∀ m, truncateSz m oplen ≤ data.length := fun m => (truncateSz_le m oplen).trans hoplen
  have hcode : ∀ c : UInt8, code.toNat = c.toNat → c ∈ [1, 3, 6, 51, 54] → 4 ≤ data.length :=
    fun c hc hmem => hfixed (UInt8.toNat_inj.mp hc ▸ hmem)
  unfold copyLen
  split <;> rename_i hc
  · exact hcode 1 hc (by decide)
  · exact hcode 3 hc (by decide)
  · exact hcode 6 hc (by decide)
  · exact hcode 51 hc (by decide)
  · exact hcode 54 hc (by decide)
  · exact hsize 32
  · exact hsize 64
  · split
    next => exact hsize 128
    next => exact Nat.zero_le _
  · exact Nat.zero_le _

theorem copyLen_fixed {empty : Bool} (h : code ∈ [1, 3, 6, 51, 54]) : copyLen empty code oplen = 4 := by
  fin_cases h <;> rfl

theorem inside_of_isSome (h : (optionsLoop left popt p).isSome = true) : OptionsInside left popt p := by
  induction left using Nat.strongRecOn generalizing popt p with
  | ind left ih =>
      rcases Nat.eq_zero_or_pos left with rfl | hpos
      · exact ⟨[], popt, rfl, by simp, by simp, .inr (.inl (Nat.zero_le _))⟩
      have hleft := hpos.ne'
      cases popt with
      | nil =>
          rw [optionsLoop_nil hleft] at h
          cases h
      | cons code rest =>
          by_cases hcode : code = 0xff
          · subst hcode
            exact ⟨[], _, rfl, by simp, by simp, .inl rfl⟩
          cases rest with
          | nil =>
              rw [optionsLoop_cut hleft hcode] at h
              cases h
          | cons oplen data =>
              rw [optionsLoop_option hleft hcode, isSome_bind] at h
              obtain ⟨p', hp', h⟩ := h
              have hcopy := processOption_isSome.mp (by rw [hp']; rfl)
              rcases Nat.lt_or_ge data.length oplen.toNat with hcut | hwhole
              · -- the loop stops behind an option that is not all there
                have hlast : left - (oplen.toNat + 2) = 0 := by
                  by_contra hmore
                  rw [List.drop_of_length_le hcut.le, optionsLoop_nil hmore] at h
                  cases h
                refine ⟨[], code :: oplen :: data, rfl, by simp, by simp, .inr (.inr ⟨code, oplen, data, rfl, ?_, ?_⟩)⟩
                · rw [encode_nil, List.length_nil]
                  omega
                · rwa [List.all_nil, Bool.and_true]
              · obtain ⟨os, tail, hrest, hcodes, hfixed, hend⟩ := ih _ (by omega) h
                have hbytes : (DhcpOption.ofBytes code oplen data).bytes ++ data.drop oplen.toNat = code :: oplen :: data :=
                  DhcpOption.ofBytes_bytes hwhole
                have hdata : (DhcpOption.ofBytes code oplen data).data ++ (encode os ++ tail) = data := by
                  rw [← hrest]
                  exact List.take_append_drop ..
                refine ⟨DhcpOption.ofBytes code oplen data :: os, tail, ?_, ?_, ?_, ?_⟩
                · rw [encode_cons, List.append_assoc, ← hrest, hbytes]
                · exact List.forall_mem_cons.mpr ⟨hcode, hcodes⟩
                · intro pre o post hos hmem
                  cases pre with
                  | nil =>
                      obtain ⟨rfl, rfl⟩ := List.cons.inj hos
                      rw [hdata, ← copyLen_fixed hmem]
                      exact hcopy
                  | cons _ pre => exact hfixed pre o post (List.cons.inj hos).2 hmem
                · have hsize : (DhcpOption.ofBytes code oplen data).data.length = oplen.toNat := List.length_take_of_le hwhole
                  have hfile : p'.noFile = (p.noFile && !(DhcpOption.ofBytes code oplen data).namesFile) := by
                    have hstep : processOption p (DhcpOption.ofBytes code oplen data).code
                        (DhcpOption.ofBytes code oplen data).data.length
                        ((DhcpOption.ofBytes code oplen data).data ++ (encode os ++ tail)) = some p' := by
                      rw [hdata, hsize]
                      exact hp'
                    exact processOption_noFile hstep
                  rw [encode_cons, List.length_append, DhcpOption.bytes_length, hsize]
                  rcases hend with hmark | hlimit | ⟨c, l, d, htail, hlimit, hlen⟩
                  · exact .inl hmark
                  · exact .inr (.inl (by omega))
                  · refine .inr (.inr ⟨c, l, d, htail, by omega, ?_⟩)
                    rwa [List.all_cons, ← Bool.and_assoc, ← hfile]

theorem isSome_of_inside (h : OptionsInside left popt p) : (optionsLoop left popt p).isSome = true := by
  obtain ⟨os, tail, rfl, hcodes, hfixed, hend⟩ := h
  induction os generalizing left p with
  | nil =>
      by_cases hleft : left = 0
      · rw [hleft, optionsLoop_zero]
        rfl
      rcases hend with hmark | hlimit | ⟨code, oplen, data, rfl, hlimit, hcopy⟩
      · obtain ⟨rest, rfl⟩ := List.head?_eq_some_iff.mp hmark
        rw [encode_nil, List.nil_append, optionsLoop_end]
        rfl
      · exact absurd (Nat.le_zero.mp hlimit) hleft
      · rw [encode_nil, List.nil_append]
        by_cases hcode : code = 0xff
        · rw [hcode, optionsLoop_end]
          rfl
        rw [List.all_nil, Bool.and_true] at hcopy
        obtain ⟨p', hp'⟩ := Option.isSome_iff_exists.mp (processOption_isSome.mpr hcopy)
        have hlast : left - (oplen.toNat + 2) = 0 := by
          rw [encode_nil, List.length_nil] at hlimit
          omega
        rw [optionsLoop_option hleft hcode, hp', Option.bind_some, hlast, optionsLoop_zero]
        rfl
  | cons o os ih =>
      by_cases hleft : left = 0
      · rw [hleft, optionsLoop_zero]
        rfl
      obtain ⟨hcode, hcodes⟩ := List.forall_mem_cons.mp hcodes
      have hcopy : copyLen p.noFile o.code o.data.length ≤ (o.data ++ (encode os ++ tail)).length :=
        copyLen_le (hfixed [] o os rfl) (by rw [List.length_append]; exact Nat.le_add_right _ _)
      obtain ⟨p', hp'⟩ := Option.isSome_iff_exists.mp (processOption_isSome.mpr hcopy)
      rw [encode_cons, List.append_assoc, optionsLoop_bytes hleft hcode, hp', Option.bind_some]
      refine ih hcodes (fun pre o' post hos => hfixed (o :: pre) o' post (congrArg (o :: ·) hos)) ?_
      rw [encode_cons, List.length_append] at hend
      rcases hend with hmark | hlimit | ⟨code, oplen, data, htail, hlimit, hlen⟩
      · exact .inl hmark
      · exact .inr (.inl (by omega))
      · refine .inr (.inr ⟨code, oplen, data, htail, by omega, ?_⟩)
        rwa [List.all_cons, ← Bool.and_assoc, ← processOption_noFile hp'] at hlen

/-! ## The loop over the types -/

theorem typeLoop_nil : typeLoop [] = none := by
  rw [typeLoop.eq_def]

theorem typeLoop_end : typeLoop (0xff :: popt) = some (-1) := by
  rw [typeLoop.eq_def]
  rfl

theorem typeLoop_type (l type : UInt8) : typeLoop (53 :: l :: type :: popt) = some type.toNat := by
  rw [typeLoop.eq_def]
  rfl

theorem typeLoop_option {oplen : UInt8} (hend : code ≠ 0xff) (htype : code ≠ 53) :
    typeLoop (code :: oplen :: data) = typeLoop (data.drop oplen.toNat) := by
  rw [typeLoop.eq_def]
  dsimp only
  rw [if_neg hend, if_neg htype]

theorem typeLoop_cut (hend : code ≠ 0xff) : typeLoop [code] = none := by
  rw [typeLoop.eq_def]
  dsimp only
  rw [if_neg hend]
  split <;> rfl

theorem typeLoop_bytes (hend : o.code ≠ 0xff) (htype : o.code ≠ 53) : typeLoop (o.bytes ++ rest) = typeLoop rest := by
  rw [DhcpOption.bytes_append, typeLoop_option hend htype, o.length_byte, List.drop_left]

/-- Whole options up to an end mark or a message type. -/
def TypeInside (popt : List UInt8) : Prop :=
  ∃ os tail, popt = encode os ++ tail ∧ (∀ o ∈ os, o.code ≠ 0xff ∧ o.code ≠ 53) ∧
    (tail.head? = some 0xff ∨ tail.head? = some 53 ∧ 3 ≤ tail.length)

theorem typeInside_of_isSome (h : (typeLoop popt).isSome = true) : TypeInside popt := by
  obtain ⟨n, hn⟩ : ∃ n, n = popt.length := ⟨_, rfl⟩
  induction n using Nat.strongRecOn generalizing popt with
  | ind n ih =>
      subst hn
      match popt with
      | [] =>
          rw [typeLoop_nil] at h
          cases h
      | code :: rest =>
          by_cases hend : code = 0xff
          · subst hend
            exact ⟨[], _, rfl, by simp, .inl rfl⟩
          match rest with
          | [] =>
              rw [typeLoop_cut hend] at h
              cases h
          | oplen :: data =>
              by_cases htype : code = 53
              · subst htype
                refine ⟨[], _, rfl, by simp, .inr ⟨rfl, ?_⟩⟩
                cases data with
                | nil =>
                    rw [typeLoop.eq_def] at h
                    cases h
                | cons type data => simp
              rw [typeLoop_option hend htype] at h
              have hwhole : oplen.toNat ≤ data.length := by
                by_contra hcut
                rw [List.drop_of_length_le (by omega), typeLoop_nil] at h
                cases h
              obtain ⟨os, tail, hrest, hcodes, hlast⟩ := ih _ (by simp only [List.length_drop, List.length_cons]; omega) h rfl
              refine ⟨DhcpOption.ofBytes code oplen data :: os, tail, ?_, ?_, hlast⟩
              · rw [encode_cons, List.append_assoc, ← hrest, DhcpOption.ofBytes_bytes hwhole]
              · exact List.forall_mem_cons.mpr ⟨⟨hend, htype⟩, hcodes⟩

theorem isSome_of_typeInside (h : TypeInside popt) : (typeLoop popt).isSome = true := by
  obtain ⟨os, tail, rfl, hcodes, hlast⟩ := h
  induction os with
  | nil =>
      rw [encode_nil, List.nil_append]
      rcases hlast with hmark | ⟨htype, hlen⟩
      · obtain ⟨rest, rfl⟩ := List.head?_eq_some_iff.mp hmark
        rw [typeLoop_end]
        rfl
      · obtain ⟨rest, rfl⟩ := List.head?_eq_some_iff.mp htype
        match rest, hlen with
        | l :: type :: rest, _ =>
            rw [typeLoop_type]
            rfl
  | cons o os ih =>
      obtain ⟨⟨hend, htype⟩, hcodes⟩ := List.forall_mem_cons.mp hcodes
      rw [encode_cons, List.append_assoc, typeLoop_bytes hend htype]
      exact ih hcodes

theorem dhcpMessageType_isSome : (dhcpMessageType popt).isSome = true ↔
    4 ≤ popt.length ∧ (popt.take 4 = vendorMagic → TypeInside (popt.drop 4)) := by
  rw [dhcpMessageType, netCopy]
  by_cases hlen : 4 ≤ popt.length
  · rw [if_pos hlen]
    dsimp only
    by_cases hmagic : popt.take 4 = vendorMagic
    · rw [if_neg (not_not.mpr hmagic)]
      exact ⟨fun h => ⟨hlen, fun _ => typeInside_of_isSome h⟩, fun h => isSome_of_typeInside (h.2 hmagic)⟩
    · rw [if_pos hmagic]
      exact ⟨fun _ => ⟨hlen, fun h => absurd h hmagic⟩, fun _ => rfl⟩
  · rw [if_neg hlen]
    simp [hlen]

/-! ## Pads

The code takes a pad for an option of its own, so it reads pads two by two.
-/

theorem typeLoop_pads (h : Even n) : typeLoop (List.replicate n 0 ++ rest) = typeLoop rest := by
  obtain ⟨k, rfl⟩ := h
  induction k with
  | zero => rfl
  | succ k ih =>
      have hpair : List.replicate (k + 1 + (k + 1)) (0 : UInt8) = 0 :: 0 :: List.replicate (k + k) 0 := by
        rw [show k + 1 + (k + 1) = k + k + 1 + 1 by omega, List.replicate_succ, List.replicate_succ]
      rw [hpair, List.cons_append, List.cons_append, typeLoop_option (by decide) (by decide)]
      exact ih

theorem optionsLoop_pads (h : Even n) (left : Nat) :
    optionsLoop left (List.replicate n 0 ++ rest) p = optionsLoop (left - n) rest p := by
  obtain ⟨k, rfl⟩ := h
  induction k generalizing left with
  | zero => rfl
  | succ k ih =>
      have hpair : List.replicate (k + 1 + (k + 1)) (0 : UInt8) = 0 :: 0 :: List.replicate (k + k) 0 := by
        rw [show k + 1 + (k + 1) = k + k + 1 + 1 by omega, List.replicate_succ, List.replicate_succ]
      rcases Nat.eq_zero_or_pos left with rfl | hpos
      · rw [Nat.zero_sub, optionsLoop_zero, optionsLoop_zero]
      rw [hpair, List.cons_append, List.cons_append, optionsLoop_option hpos.ne' (by decide)]
      have hnone : processOption p 0 (UInt8.toNat 0) (List.replicate (k + k) 0 ++ rest) = some p := rfl
      rw [hnone, Option.bind_some]
      refine (ih (left - 2)).trans ?_
      congr 1
      omega

/-- What is known after some options. -/
def NetParams.after (p : NetParams) (os : List DhcpOption) : NetParams :=
  os.foldl (fun p o => (processOption p o.code o.data.length o.data).getD p) p

theorem DhcpOption.Valid.copyLen_le {empty : Bool} (h : o.Valid) : copyLen empty o.code o.data.length ≤ o.data.length := by
  refine Bootp.copyLen_le (fun hmem => ?_) le_rfl
  have hmin := h.2.2
  rwa [DhcpOption.minSize, if_pos hmem] at hmin

theorem optionsLoop_valid (h : o.Valid) (hleft : left ≠ 0) :
    optionsLoop left (o.bytes ++ rest) p = optionsLoop (left - o.bytes.length) rest (p.after [o]) := by
  obtain ⟨p', hp'⟩ := Option.isSome_iff_exists.mp (processOption_isSome.mpr (h.copyLen_le : copyLen p.noFile _ _ ≤ _))
  rw [optionsLoop_bytes hleft h.2.1, processOption_append h.copyLen_le, hp', Option.bind_some, NetParams.after,
    List.foldl_cons, List.foldl_nil, hp', Option.getD_some]

theorem optionsLoop_padded (heven : ∀ n ∈ ps.map Prod.fst, Even n) (hvalid : ∀ o ∈ ps.map Prod.snd, o.Valid)
    (hfit : (padded ps).length ≤ left) : optionsLoop left (padded ps ++ rest) p =
      optionsLoop (left - (padded ps).length) rest (p.after (ps.map Prod.snd)) := by
  induction ps generalizing left p with
  | nil => rfl
  | cons q ps ih =>
      obtain ⟨n, o⟩ := q
      rw [List.map_cons, List.forall_mem_cons] at heven hvalid
      rw [padded_cons, List.length_append, List.length_append, List.length_replicate, o.bytes_length] at hfit
      rw [padded_cons, List.append_assoc, List.append_assoc, optionsLoop_pads heven.1,
        optionsLoop_valid hvalid.1 (by omega), ih heven.2 hvalid.2 (by rw [o.bytes_length]; omega)]
      simp only [List.length_append, List.length_replicate, Nat.sub_sub, Nat.add_assoc, List.map_cons, NetParams.after,
        List.foldl_cons, List.foldl_nil]

theorem padded_zero (os : List DhcpOption) : padded (os.map fun o => (0, o)) = encode os := by
  induction os with
  | nil => rfl
  | cons o os ih => rw [List.map_cons, padded_cons, ih, encode_cons, List.replicate_zero, List.nil_append]

/-- Options up to an end mark. -/
theorem optionsLoop_done (heven : ∀ n ∈ ps.map Prod.fst, Even n) (hvalid : ∀ o ∈ ps.map Prod.snd, o.Valid)
    (hfit : (padded ps).length ≤ left) (tail : List UInt8) :
    optionsLoop left (padded ps ++ 0xff :: tail) p = some (p.after (ps.map Prod.snd)) := by
  rw [optionsLoop_padded heven hvalid hfit, optionsLoop_end]

theorem typeLoop_padded (heven : ∀ n ∈ ps.map Prod.fst, Even n) (hvalid : ∀ o ∈ ps.map Prod.snd, o.Valid) :
    typeLoop (padded ps ++ rest) = typeLoop (encode (ps.map Prod.snd) ++ rest) := by
  induction ps with
  | nil => rfl
  | cons q ps ih =>
      obtain ⟨n, o⟩ := q
      rw [List.map_cons, List.forall_mem_cons] at heven hvalid
      rw [padded_cons, List.append_assoc, typeLoop_pads heven.1, List.map_cons, encode_cons, List.append_assoc,
        List.append_assoc]
      by_cases htype : o.code = 53
      · obtain ⟨type, data, hdata⟩ : ∃ type data, o.data = type :: data := by
          refine List.exists_cons_of_length_pos (Nat.lt_of_lt_of_le Nat.zero_lt_one ?_)
          have hmin := hvalid.1.2.2
          rwa [htype] at hmin
        rw [DhcpOption.bytes_append, DhcpOption.bytes_append, htype, hdata, List.cons_append, List.cons_append,
          typeLoop_type, typeLoop_type]
      · rw [typeLoop_bytes hvalid.1.2.1 htype, typeLoop_bytes hvalid.1.2.1 htype, ih heven.2 hvalid.2]

theorem encode_length_le (ps : List (Nat × DhcpOption)) : (encode (ps.map Prod.snd)).length ≤ (padded ps).length := by
  induction ps with
  | nil => exact le_rfl
  | cons q ps ih =>
      obtain ⟨n, o⟩ := q
      rw [padded_cons, List.map_cons, encode_cons, List.length_append, List.length_append, List.length_append]
      dsimp only
      omega

theorem optionsLoop_plain (hvalid : ∀ o ∈ os, o.Valid) (hfit : (encode os).length ≤ left) (tail : List UInt8) :
    optionsLoop left (encode os ++ 0xff :: tail) p = some (p.after os) := by
  have hsnd : (os.map fun o => ((0 : Nat), o)).map Prod.snd = os := by
    rw [List.map_map]
    exact List.map_id _
  rw [← padded_zero] at hfit ⊢
  rw [optionsLoop_done ?_ (by rwa [hsnd]) hfit, hsnd]
  intro n hn
  obtain ⟨q, hq, rfl⟩ := List.mem_map.mp hn
  obtain ⟨o, -, rfl⟩ := List.mem_map.mp hq
  exact even_two_mul 0

/-- Without a 53 there is no message type. -/
theorem typeLoop_without {type : Int} (h : 53 ∉ popt) (ht : typeLoop popt = some type) : type = -1 := by
  obtain ⟨n, hn⟩ : ∃ n, n = popt.length := ⟨_, rfl⟩
  induction n using Nat.strongRecOn generalizing popt with
  | ind n ih =>
      subst hn
      match popt with
      | [] =>
          rw [typeLoop_nil] at ht
          cases ht
      | code :: rest =>
          by_cases hend : code = 0xff
          · rw [hend, typeLoop_end] at ht
            exact (Option.some.inj ht).symm
          match rest with
          | [] =>
              rw [typeLoop_cut hend] at ht
              cases ht
          | oplen :: data =>
              have hcode : code ≠ 53 := fun heq => h (heq ▸ List.mem_cons_self)
              rw [typeLoop_option hend hcode] at ht
              refine ih _ (by simp only [List.length_drop, List.length_cons]; omega) ?_ ht rfl
              exact fun hmem => h (List.mem_cons_of_mem _ (List.mem_cons_of_mem _ (List.mem_of_mem_drop hmem)))

def domainName : DhcpOption := ⟨15, [], by decide⟩

def ack : DhcpOption := ⟨53, [5], by decide⟩

theorem domainName_valid : domainName.Valid := by decide

theorem ack_valid : ack.Valid := by decide

theorem typeLoop_domainName : typeLoop (domainName.bytes ++ rest) = typeLoop rest :=
  typeLoop_bytes (by decide) (by decide)

/-- After an odd number of pads the code of the next option is a length. -/
theorem odd_pads (tail : List UInt8) (hn : ¬ Even n) (h : 53 ∉ rest) :
    typeLoop (List.replicate n 0 ++ (ack.bytes ++ rest)) ≠ typeLoop (ack.bytes ++ tail) := by
  obtain ⟨k, rfl⟩ := Nat.not_even_iff_odd.mp hn
  have hpads : List.replicate (2 * k + 1) (0 : UInt8) = List.replicate (2 * k) 0 ++ [0] := List.replicate_succ'
  have hleft : typeLoop (List.replicate (2 * k + 1) 0 ++ (ack.bytes ++ rest)) = typeLoop ((1 :: 5 :: rest).drop 53) := by
    rw [hpads, List.append_assoc, typeLoop_pads (even_two_mul k)]
    exact typeLoop_option (by decide) (by decide)
  have hright : typeLoop (ack.bytes ++ tail) = some 5 := typeLoop_type 1 5
  intro heq
  rw [hleft, hright] at heq
  have hwithout := typeLoop_without (fun hmem => h (by simpa using List.mem_of_mem_drop hmem)) heq
  exact absurd hwithout (by decide)

theorem exists_odd_pads {ns : List Nat} (h : ∃ n ∈ ns, ¬ Even n) : ∃ ps : List (Nat × DhcpOption),
    ps.map Prod.fst = ns ∧ (∀ o ∈ ps.map Prod.snd, o.Valid) ∧
      typeLoop (padded ps ++ [0xff]) ≠ typeLoop (encode (ps.map Prod.snd) ++ [0xff]) := by
  induction ns with
  | nil =>
      obtain ⟨n, hn, -⟩ := h
      cases hn
  | cons n ns ih =>
      by_cases hn : Even n
      · obtain ⟨m, hm, hodd⟩ := h
        have hmem : m ∈ ns := (List.mem_cons.mp hm).resolve_left fun heq => hodd (heq ▸ hn)
        obtain ⟨ps, hns, hvalid, hne⟩ := ih ⟨m, hmem, hodd⟩
        refine ⟨(n, domainName) :: ps, by rw [List.map_cons, hns], List.forall_mem_cons.mpr ⟨domainName_valid, hvalid⟩, ?_⟩
        rw [padded_cons, List.append_assoc, typeLoop_pads hn, List.map_cons, encode_cons, List.append_assoc,
          List.append_assoc, typeLoop_domainName, typeLoop_domainName]
        exact hne
      · refine ⟨(n, ack) :: ns.map fun m => (m, domainName), ?_, ?_, ?_⟩
        · simp [List.map_map, Function.comp_def]
        · refine List.forall_mem_cons.mpr ⟨ack_valid, fun o ho => ?_⟩
          obtain ⟨q, hq, rfl⟩ := List.mem_map.mp ho
          obtain ⟨m, -, rfl⟩ := List.mem_map.mp hq
          exact domainName_valid
        · rw [padded_cons, List.append_assoc, List.append_assoc, List.map_cons, encode_cons, List.append_assoc]
          refine odd_pads _ hn ?_
          have hbytes : (53 : UInt8) ∉ domainName.bytes := by decide
          simp [padded, List.mem_replicate, hbytes]

/-- Pads between options change nothing. The limit is there for the loop that has one. -/
def PadsHarmless (ns : List Nat) : Prop :=
  ∀ (o : DhcpOption) (ps : List (Nat × DhcpOption)) (tail : List UInt8), ps.map Prod.fst = ns →
    (∀ o' ∈ o :: ps.map Prod.snd, o'.Valid) →
      dhcpMessageType (vendorMagic ++ (o.bytes ++ (padded ps ++ 0xff :: tail))) =
          dhcpMessageType (vendorMagic ++ (o.bytes ++ (encode (ps.map Prod.snd) ++ 0xff :: tail))) ∧
        ((o.bytes ++ padded ps).length ≤ bootpHdrSize → ∀ p,
          dhcpOptionsProcess (o.bytes ++ (padded ps ++ 0xff :: tail)) p =
            dhcpOptionsProcess (o.bytes ++ (encode (ps.map Prod.snd) ++ 0xff :: tail)) p)

theorem dhcpMessageType_magic : dhcpMessageType (vendorMagic ++ popt) = typeLoop popt := by
  rfl

theorem padsHarmless_iff (ns : List Nat) : PadsHarmless ns ↔ ∀ n ∈ ns, Even n := by
  constructor
  · intro h n hn
    by_contra hodd
    obtain ⟨ps, hns, hvalid, hne⟩ := exists_odd_pads ⟨n, hn, hodd⟩
    have htype := (h domainName ps [] hns (List.forall_mem_cons.mpr ⟨domainName_valid, hvalid⟩)).1
    rw [dhcpMessageType_magic, dhcpMessageType_magic, typeLoop_domainName, typeLoop_domainName] at htype
    exact hne htype
  · rintro heven o ps tail rfl hvalid
    have heven' : ∀ n ∈ ((0, o) :: ps).map Prod.fst, Even n := List.forall_mem_cons.mpr ⟨even_two_mul 0, heven⟩
    have hpads : ∀ rest, o.bytes ++ (padded ps ++ rest) = padded ((0, o) :: ps) ++ rest := by
      intro rest
      rw [padded_cons, List.replicate_zero, List.nil_append, List.append_assoc]
    have hplain : ∀ rest, o.bytes ++ (encode (ps.map Prod.snd) ++ rest) =
        encode (((0, o) :: ps).map Prod.snd) ++ rest := by
      intro rest
      rw [List.map_cons, encode_cons, List.append_assoc]
    refine ⟨?_, fun hfit p => ?_⟩
    · rw [dhcpMessageType_magic, dhcpMessageType_magic, hpads, hplain, typeLoop_padded heven' hvalid]
    · have hfit' : (padded ((0, o) :: ps)).length ≤ bootpHdrSize := by
        rwa [padded_cons, List.replicate_zero, List.nil_append]
      rw [dhcpOptionsProcess, dhcpOptionsProcess, hpads, hplain, optionsLoop_done heven' hvalid hfit']
      have hsame := optionsLoop_plain hvalid ((encode_length_le _).trans hfit') tail (p := p)
      exact hsame.symm

/-- Exactly then everything is read from the packet, and exactly pads in even numbers are harmless. -/
theorem dhcp_options_iff (popt : List UInt8) (p : NetParams) (ns : List Nat) :
    ((dhcpMessageType popt).isSome = true ↔
      4 ≤ popt.length ∧ (popt.take 4 = vendorMagic → TypeInside (popt.drop 4))) ∧
    ((dhcpOptionsProcess popt p).isSome = true ↔ OptionsInside bootpHdrSize popt p) ∧
      (PadsHarmless ns ↔ ∀ n ∈ ns, Even n) :=
  ⟨dhcpMessageType_isSome, ⟨inside_of_isSome, isSome_of_inside⟩, padsHarmless_iff ns⟩

/-- One pad before the message type: the loop leaves the packet. -/
theorem dhcp_one_pad :
    ¬ ((∀ popt p, (dhcpMessageType popt).isSome = true ∧ (dhcpOptionsProcess (popt.drop 4) p).isSome = true) ∧
      ∀ ns, PadsHarmless ns) := by
  rintro ⟨hinside, -⟩
  have hrun : dhcpMessageType (vendorMagic ++ [15, 0, 0, 53, 1, 5, 0xff]) = none := by
    have hname : typeLoop [15, 0, 0, 53, 1, 5, 0xff] = typeLoop [0, 53, 1, 5, 0xff] :=
      typeLoop_option (by decide) (by decide)
    have hpad : typeLoop [0, 53, 1, 5, 0xff] = typeLoop [] := typeLoop_option (by decide) (by decide)
    rw [dhcpMessageType_magic, hname, hpad, typeLoop_nil]
  have hsome := (hinside (vendorMagic ++ [15, 0, 0, 53, 1, 5, 0xff]) ⟨[], [], [], [], [], [], [], []⟩).1
  rw [hrun] at hsome
  cases hsome

end

end Uboot.Bootp
