import Uboot.Bam.Basic

/-!
# What `bam_add_desc` queues
-/

namespace Uboot.Bam

variable {p : Pipe} {max ptr len flags fuel : Nat}

/-! ## The pieces of a transfer -/

/-- The descriptors that the loop asks for. -/
def split (max flags : Nat) : Nat → Nat → Nat → List Desc
  | 0, _, _ => []
  | fuel + 1, ptr, len =>
    if len = 0 then []
    else
      ⟨ptr, if max < len then max else len, if max < len then 0 else flags % 2 ^ 8⟩ ::
        split max flags fuel ((ptr + max) % 2 ^ 32) (if max < len then len - max else 0)

theorem split_zero (fuel ptr : Nat) : split max flags fuel ptr 0 = [] := by
  cases fuel <;> simp [split]

/-- A transfer that fits in one descriptor. -/
theorem split_last (hlen : len ≤ max) (hpos : 0 < len) (hfuel : len ≤ fuel) :
    split max flags fuel ptr len = [⟨ptr, len, flags % 2 ^ 8⟩] := by
  cases fuel with
  | zero => omega
  | succ fuel => simp [split, Nat.not_lt.mpr hlen, Nat.pos_iff_ne_zero.mp hpos, split_zero]

theorem split_more (hmore : max < len) :
    split max flags (fuel + 1) ptr len =
      ⟨ptr, max, 0⟩ :: split max flags fuel ((ptr + max) % 2 ^ 32) (len - max) := by
  simp [split, hmore, Nat.ne_of_gt (Nat.zero_lt_of_lt hmore)]

theorem numDesc_last (hlen : len ≤ max) (hpos : 0 < len) : numDesc max len = 1 := by
  rw [numDesc, Nat.div_eq_iff (by omega)]
  omega

theorem numDesc_more (hmax : 0 < max) (hmore : max < len) : numDesc max len = numDesc max (len - max) + 1 := by
  rw [numDesc, numDesc, ← Nat.add_div_right _ hmax]
  congr 1
  omega

theorem numDesc_pos (hmax : 0 < max) (hpos : 0 < len) : 0 < numDesc max len :=
  Nat.div_pos (by omega) hmax

/-- A transfer is its first piece and the rest. -/
theorem split_induction {motive : Nat → Nat → Nat → Prop} (hmax : 0 < max)
    (last : ∀ fuel ptr len, len ≤ max → 0 < len → len ≤ fuel → motive fuel ptr len)
    (more : ∀ fuel ptr len, max < len → len ≤ fuel + 1 → motive fuel ((ptr + max) % 2 ^ 32) (len - max) →
      motive (fuel + 1) ptr len) :
    ∀ fuel ptr len, 0 < len → len ≤ fuel → motive fuel ptr len := by
  intro fuel
  induction fuel with
  | zero =>
      intro ptr len hpos hfuel
      omega
  | succ fuel ih =>
      intro ptr len hpos hfuel
      cases Nat.lt_or_ge max len with
      | inl hmore => exact more fuel ptr len hmore hfuel (ih _ _ (by omega) (by omega))
      | inr hlen => exact last _ ptr len hlen hpos hfuel

theorem split_length (hmax : 0 < max) (hpos : 0 < len) (hfuel : len ≤ fuel) :
    (split max flags fuel ptr len).length = numDesc max len := by
  refine split_induction (motive := fun fuel ptr len => (split max flags fuel ptr len).length = numDesc max len) hmax
    ?_ ?_ fuel ptr len hpos hfuel
  · intro fuel ptr len hlen hpos hfuel
    rw [split_last hlen hpos hfuel, numDesc_last hlen hpos]
    rfl
  · intro fuel ptr len hmore hfuel ih
    rw [split_more hmore, List.length_cons, ih, numDesc_more hmax hmore]

/-- The flags are on the last piece only. -/
theorem split_flags (hmax : 0 < max) (hpos : 0 < len) (hfuel : len ≤ fuel) :
    (split max flags fuel ptr len).map Desc.flags = List.replicate (numDesc max len - 1) 0 ++ [flags % 2 ^ 8] := by
  refine split_induction (motive := fun fuel ptr len => (split max flags fuel ptr len).map Desc.flags =
    List.replicate (numDesc max len - 1) 0 ++ [flags % 2 ^ 8]) hmax ?_ ?_ fuel ptr len hpos hfuel
  · intro fuel ptr len hlen hpos hfuel
    rw [split_last hlen hpos hfuel, numDesc_last hlen hpos]
    rfl
  · intro fuel ptr len hmore hfuel ih
    have hn := @numDesc_pos max (len - max) hmax (by omega)
    rw [split_more hmore, List.map_cons, ih, numDesc_more hmax hmore, Nat.add_sub_cancel]
    obtain ⟨k, hk⟩ := Nat.exists_eq_succ_of_ne_zero (Nat.pos_iff_ne_zero.mp hn)
    rw [hk]
    rfl

/-- Pieces that do not wrap are not empty, fit in a descriptor, and do not start at 0. -/
theorem split_good (hmax : 0 < max) (hpos : 0 < len) (hfuel : len ≤ fuel) (hptr : ptr ≠ 0)
    (hwrap : ptr + (numDesc max len - 1) * max < 2 ^ 32) :
    ∀ d ∈ split max flags fuel ptr len, d.addr ≠ 0 ∧ d.size ≠ 0 ∧ d.size ≤ max ∧ (d.flags = 0 ∨ d.flags = flags % 2 ^ 8) := by
  refine split_induction (motive := fun fuel ptr len => ptr ≠ 0 → ptr + (numDesc max len - 1) * max < 2 ^ 32 →
    ∀ d ∈ split max flags fuel ptr len, d.addr ≠ 0 ∧ d.size ≠ 0 ∧ d.size ≤ max ∧ (d.flags = 0 ∨ d.flags = flags % 2 ^ 8)) hmax
    ?_ ?_ fuel ptr len hpos hfuel hptr hwrap
  · intro fuel ptr len hlen hpos hfuel hptr _ d hd
    rw [split_last hlen hpos hfuel, List.mem_singleton] at hd
    subst hd
    exact ⟨hptr, by dsimp only; omega, hlen, .inr rfl⟩
  · intro fuel ptr len hmore _ ih hptr hwrap d hd
    obtain ⟨k, hk⟩ := Nat.exists_eq_succ_of_ne_zero
      (Nat.pos_iff_ne_zero.mp (@numDesc_pos max (len - max) hmax (by omega)))
    rw [numDesc_more hmax hmore, hk, Nat.add_sub_cancel, Nat.succ_mul] at hwrap
    have hnext : (ptr + max) % 2 ^ 32 = ptr + max := Nat.mod_eq_of_lt (by omega)
    rw [hnext, hk] at ih
    rw [split_more hmore, hnext] at hd
    cases List.mem_cons.mp hd with
    | inl hd =>
        subst hd
        exact ⟨hptr, by dsimp only; omega, Nat.le_refl _, .inl rfl⟩
    | inr hd => exact ih (by omega) (by rw [Nat.succ_sub_one]; omega) d hd

theorem bytesOf_split_head (hmax : 0 < max) (hpos : 0 < len) (hfuel : len ≤ fuel) :
    (bytesOf (split max flags fuel ptr len)).head? = some ptr := by
  cases fuel with
  | zero => omega
  | succ fuel =>
      rw [split, if_neg (by omega), bytesOf, List.flatMap_cons]
      dsimp only
      split
      · rw [List.head?_append, List.head?_range', if_neg (by omega), Option.some_or]
      · rw [List.head?_append, List.head?_range', if_neg (by omega), Option.some_or]

/-- The pieces are the bytes of the transfer just when no piece starts behind the last address. -/
theorem bytesOf_split_iff (hmax : 0 < max) (hpos : 0 < len) (hfuel : len ≤ fuel) (hptr : ptr < 2 ^ 32) :
    bytesOf (split max flags fuel ptr len) = List.range' ptr len ↔ ptr + (numDesc max len - 1) * max < 2 ^ 32 := by
  refine split_induction (motive := fun fuel ptr len => ptr < 2 ^ 32 →
    (bytesOf (split max flags fuel ptr len) = List.range' ptr len ↔ ptr + (numDesc max len - 1) * max < 2 ^ 32)) hmax
    ?_ ?_ fuel ptr len hpos hfuel hptr
  · intro fuel ptr len hlen hpos hfuel hptr
    rw [split_last hlen hpos hfuel, numDesc_last hlen hpos]
    simpa [bytesOf] using hptr
  · intro fuel ptr len hmore hfuel ih hptr
    have hn := @numDesc_pos max (len - max) hmax (by omega)
    rw [split_more hmore, numDesc_more hmax hmore, Nat.add_sub_cancel]
    generalize hk : numDesc max (len - max) = k at *
    have hrange : List.range' ptr len = List.range' ptr max ++ List.range' (ptr + max) (len - max) := by
      rw [List.range'_append_1, Nat.add_sub_cancel' (Nat.le_of_lt hmore)]
    have hmul : max + (k - 1) * max = k * max := by
      obtain ⟨j, rfl⟩ := Nat.exists_eq_succ_of_ne_zero (Nat.pos_iff_ne_zero.mp hn)
      rw [Nat.succ_eq_add_one, Nat.add_sub_cancel, Nat.add_one_mul, Nat.add_comm]
    have hcons : bytesOf (⟨ptr, max, 0⟩ :: split max flags fuel ((ptr + max) % 2 ^ 32) (len - max)) =
        List.range' ptr max ++ bytesOf (split max flags fuel ((ptr + max) % 2 ^ 32) (len - max)) := rfl
    rw [hcons, hrange, List.append_right_inj]
    by_cases hnext : ptr + max < 2 ^ 32
    · rw [Nat.mod_eq_of_lt hnext] at ih ⊢
      rw [ih hnext, Nat.add_assoc, hmul]
    · refine iff_of_false ?_ (by omega)
      intro heq
      have hhead := @bytesOf_split_head max ((ptr + max) % 2 ^ 32) (len - max) flags fuel hmax (by omega) (by omega)
      rw [heq, List.head?_range', if_neg (by omega)] at hhead
      have := Nat.mod_lt (ptr + max) (show 0 < 2 ^ 32 by decide)
      rw [← Option.some.inj hhead] at this
      omega

/-! ## The queue -/

/-- `ds` have gone to the next slots, and nothing else has changed. -/
structure Queued (p : Pipe) (ds : List Desc) (p' : Pipe) : Prop where
  writes : p'.writes = p.writes ++ (p.slots ds.length).zip ds
  current : p'.current = (p.current + ds.length) % p.size
  size : p'.size = p.size
  maxDescLen : p'.maxDescLen = p.maxDescLen
  initialized : p'.initialized = p.initialized
  evnt : p'.evnt = p.evnt
  notified : p'.notified = p.notified

theorem Queued.nil (p : Pipe) : Queued p [] p where
  writes := by simp [Pipe.slots]
  current := (Nat.mod_eq_of_lt p.current_lt).symm
  size := rfl
  maxDescLen := rfl
  initialized := rfl
  evnt := rfl
  notified := rfl

theorem push_current (p : Pipe) (d : Desc) : (p.push d).current = (p.current + 1) % p.size := fifoGetnext_eq p.current_lt

theorem slots_cons (p : Pipe) (d : Desc) (n : Nat) : p.slots (n + 1) = p.current :: (p.push d).slots n := by
  have hnext : ∀ i, ((p.current + 1) % p.size + i) % p.size = (p.current + (i + 1)) % p.size := by
    intro i
    rw [Nat.mod_add_mod, Nat.add_assoc, Nat.add_comm 1]
  have hsize : (p.push d).size = p.size := rfl
  simp only [Pipe.slots, push_current, hsize, hnext]
  rw [List.range_succ_eq_map, List.map_cons, List.map_map]
  simp [Nat.mod_eq_of_lt p.current_lt, Function.comp_def]

theorem Queued.cons {d : Desc} {ds : List Desc} {p' : Pipe} (h : Queued (p.push d) ds p') : Queued p (d :: ds) p' where
  writes := by
    rw [h.writes, List.length_cons, slots_cons p d, List.zip_cons_cons]
    simp [Pipe.push]
  current := by
    rw [h.current, push_current, List.length_cons]
    change ((p.current + 1) % p.size + ds.length) % p.size = _
    rw [Nat.mod_add_mod, Nat.add_assoc, Nat.add_comm 1]
  size := h.size
  maxDescLen := h.maxDescLen
  initialized := h.initialized
  evnt := h.evnt
  notified := h.notified

/-- The pieces that `bam_add_one_desc` takes. -/
def taken (p : Pipe) (ds : List Desc) : List Desc := ds.filter fun d => Accepts p d.addr d.size d.flags

/-- The loop counts all pieces and queues those that are taken. -/
theorem addLoop_queued (flags fuel : Nat) : ∀ (ptr len n : Nat) (p : Pipe),
    (addLoop flags fuel ptr len n p).1 = n + (split p.maxDescLen flags fuel ptr len).length ∧
      Queued p (taken p (split p.maxDescLen flags fuel ptr len)) (addLoop flags fuel ptr len n p).2 := by
  induction fuel with
  | zero =>
      intro ptr len n p
      exact ⟨rfl, .nil p⟩
  | succ fuel ih =>
      intro ptr len n p
      rw [addLoop, split]
      split
      · exact ⟨rfl, .nil p⟩
      dsimp only
      generalize hl : (if p.maxDescLen < len then p.maxDescLen else len) = descLen
      generalize (if p.maxDescLen < len then len - p.maxDescLen else 0) = rest
      have hflags : (if p.maxDescLen < len then 0 else flags) % 2 ^ 8 = if p.maxDescLen < len then 0 else flags % 2 ^ 8 := by
        split <;> rfl
      have hsize : descLen % 2 ^ 16 = descLen := by
        have := p.maxDescLen_lt
        rw [Nat.mod_eq_of_lt]
        subst hl
        split <;> omega
      rw [bamAddOneDesc]
      rw [hflags, hsize, taken, List.filter_cons]
      by_cases hacc : Accepts p ptr descLen (if p.maxDescLen < len then 0 else flags % 2 ^ 8)
      · simp only [hacc, if_true, decide_true]
        obtain ⟨hcount, hqueued⟩ := ih ((ptr + p.maxDescLen) % 2 ^ 32) rest (n + 1) (p.push ⟨ptr, descLen, _⟩)
        exact ⟨by rw [hcount, List.length_cons]; simp only [Pipe.push]; omega, hqueued.cons⟩
      · simp only [hacc, if_false, decide_false, Bool.false_eq_true]
        obtain ⟨hcount, hqueued⟩ := ih ((ptr + p.maxDescLen) % 2 ^ 32) rest (n + 1) p
        exact ⟨by rw [hcount, List.length_cons]; omega, hqueued⟩

/-! ## `bam_add_desc` -/

theorem zip_slots_inj {ds ds' : List Desc} (h : (p.slots ds.length).zip ds = (p.slots ds'.length).zip ds') : ds = ds' := by
  have hsnd : ∀ xs : List Desc, ((p.slots xs.length).zip xs).map Prod.snd = xs := by
    intro xs
    exact List.map_snd_zip (by simp [Pipe.slots])
  rw [← hsnd ds, h, hsnd]

theorem slots_nodup (p : Pipe) {n : Nat} (h : n ≤ p.size) : (p.slots n).Nodup := by
  refine List.Nodup.map_on ?_ List.nodup_range
  intro i hi j hj heq
  rw [List.mem_range] at hi hj
  have hmod : i ≡ j [MOD p.size] := Nat.ModEq.add_left_cancel' p.current heq
  exact hmod.eq_of_lt_of_lt (by omega) (by omega)

theorem bamSysGenEvent_writes (p : Pipe) (n : Nat) : (bamSysGenEvent p n).writes = p.writes := by
  rw [bamSysGenEvent]
  split <;> rfl

/-- The register goes on with the descriptors. -/
theorem bamSysGenEvent_inStep {p' : Pipe} {ds : List Desc} (hstep : p.InStep) (h : Queued p ds p')
    (hn : ds.length < p.size) : (bamSysGenEvent p' ds.length).InStep := by
  obtain ⟨k, hk⟩ := p.size_pow
  have hk15 : k < 15 := by
    have hle := p.size_le
    rw [hk] at hle
    exact (Nat.pow_lt_pow_iff_right (by decide)).mp (Nat.lt_of_le_of_lt hle (by decide : 0x7fff < 2 ^ 15))
  have hpow : p.size * bamDescSize = 2 ^ (k + 3) := by rw [hk, Nat.pow_add]; rfl
  have hdvd : p.size * bamDescSize ∣ 2 ^ 32 := by
    rw [hpow]
    exact Nat.pow_dvd_pow 2 (by omega)
  rw [Pipe.InStep] at hstep
  rw [bamSysGenEvent, if_neg (by rw [h.size]; omega), Pipe.InStep]
  dsimp only
  rw [h.size, h.evnt, h.current]
  conv_lhs => rw [hpow, Nat.and_two_pow_sub_one_eq_mod, Nat.mod_mod, ← hpow, Nat.mod_mod_of_dvd _ hdvd]
  rw [← Nat.mod_add_mod, hstep, ← Nat.add_mul, Nat.mul_mod_mul_right]

/-- What a transfer that is let in leaves in the queue. -/
theorem bamAddDesc_queued (hpos : 0 < len) (hparams : ptr ≠ 0) (hlong : len ≤ p.size * p.maxDescLen) :
    0 < p.maxDescLen ∧ ∃ q, Queued p (taken p (split p.maxDescLen flags len ptr len)) q ∧
      bamAddDesc p ptr len flags = (.success, bamSysGenEvent q (numDesc p.maxDescLen len)) := by
  have hmax : 0 < p.maxDescLen := by
    by_contra h0
    rw [Nat.eq_zero_of_not_pos h0, Nat.mul_zero] at hlong
    omega
  obtain ⟨hcount, hqueued⟩ := addLoop_queued flags len ptr len 0 p
  rw [Nat.zero_add, split_length hmax hpos (Nat.le_refl _)] at hcount
  refine ⟨hmax, _, hqueued, ?_⟩
  rw [bamAddDesc, if_neg (by omega), if_neg (by omega), ← hcount]

theorem sound_of_exact (hpos : 0 < len) (hparams : ptr ≠ 0) (hlong : len ≤ p.size * p.maxDescLen) (hptr : ptr < 2 ^ 32)
    (hexact : Exact p ptr len flags) : Sound p ptr len flags := by
  obtain ⟨hmax, q, hqueued, hadd⟩ := @bamAddDesc_queued p ptr len flags hpos hparams hlong
  obtain ⟨ds, hwrites, -, hbytes, hflags, hnotified, -⟩ := hexact _ hadd
  have hds : ds = taken p (split p.maxDescLen flags len ptr len) := by
    rw [bamSysGenEvent_writes, hqueued.writes] at hwrites
    exact (zip_slots_inj (List.append_cancel_left hwrites)).symm
  have hne : ds ≠ [] := by
    rintro rfl
    have := congrArg List.length hbytes
    rw [List.length_range'] at this
    simp [bytesOf] at this
    omega
  -- the register counts all pieces or none, and it has to count those taken
  have hroom : numDesc p.maxDescLen len < p.size := by
    by_contra hfull
    rw [bamSysGenEvent, if_pos (by rw [hqueued.size]; omega), hqueued.notified] at hnotified
    exact hne (List.length_eq_zero_iff.mp (by omega))
  have hall : ds = split p.maxDescLen flags len ptr len := by
    rw [bamSysGenEvent, if_neg (by rw [hqueued.size]; omega)] at hnotified
    dsimp only at hnotified
    rw [hqueued.notified] at hnotified
    rw [hds]
    refine List.filter_sublist.eq_of_length ?_
    rw [split_length hmax hpos (Nat.le_refl _)]
    rw [hds, taken] at hnotified
    omega
  have hacc : ∀ d ∈ ds, Accepts p d.addr d.size d.flags := by
    intro d hd
    rw [hds, taken, List.mem_filter] at hd
    exact of_decide_eq_true hd.2
  have hbyte : flags % 2 ^ 8 = flags := by
    have hlast := @split_flags p.maxDescLen ptr len flags len hmax hpos (Nat.le_refl _)
    rw [← hall, hflags] at hlast
    exact (List.cons.inj (List.append_inj_right' hlast rfl)).1.symm
  obtain ⟨d, hd, hdflags⟩ : ∃ d ∈ ds, d.flags = flags :=
    List.mem_map.mp (by rw [hflags]; exact List.mem_append_right _ (List.mem_singleton.mpr rfl))
  have hd' := hacc d hd
  rw [hdflags] at hd'
  exact
    { initialized := hd'.2.1
      byte := by rw [← hbyte]; exact Nat.mod_lt _ (by decide)
      lock := hd'.2.2.1
      eot := hd'.2.2.2.1
      room := hroom
      wrap := (bytesOf_split_iff hmax hpos (Nat.le_refl _) hptr).mp (by rw [← hall]; exact hbytes) }

theorem exact_of_sound (hpos : 0 < len) (hparams : ptr ≠ 0) (hlong : len ≤ p.size * p.maxDescLen) (hptr : ptr < 2 ^ 32)
    (hstep : p.InStep) (h : Sound p ptr len flags) : Exact p ptr len flags := by
  obtain ⟨hmax, q, hqueued, hadd⟩ := @bamAddDesc_queued p ptr len flags hpos hparams hlong
  have hbyte : flags % 2 ^ 8 = flags := Nat.mod_eq_of_lt h.byte
  have hall : taken p (split p.maxDescLen flags len ptr len) = split p.maxDescLen flags len ptr len := by
    rw [taken, List.filter_eq_self]
    intro d hd
    obtain ⟨haddr, hsize, hle, hdflags⟩ := split_good hmax hpos (Nat.le_refl _) (by omega) h.wrap d hd
    refine decide_eq_true ⟨by omega, h.initialized, ?_, ?_, hle⟩
    · cases hdflags with
      | inl h0 => simp [h0]
      | inr hf =>
          rw [hf, hbyte]
          exact h.lock
    · cases hdflags with
      | inl h0 => simp [h0]
      | inr hf =>
          rw [hf, hbyte]
          exact h.eot
  have hlength := @split_length p.maxDescLen ptr len flags len hmax hpos (Nat.le_refl _)
  rw [hall] at hqueued
  rintro p' hp'
  rw [hadd] at hp'
  obtain rfl := (Prod.mk.inj hp').2
  refine ⟨split p.maxDescLen flags len ptr len, ?_, ?_, ?_, ?_, ?_, ?_⟩
  · rw [bamSysGenEvent_writes, hqueued.writes]
  · exact slots_nodup p (by rw [hlength]; exact Nat.le_of_lt h.room)
  · exact (bytesOf_split_iff hmax hpos (Nat.le_refl _) hptr).mpr h.wrap
  · rw [hlength, split_flags hmax hpos (Nat.le_refl _), hbyte]
  · rw [bamSysGenEvent, if_neg (by rw [hqueued.size]; exact Nat.not_le.mpr h.room), hlength]
    dsimp only
    rw [hqueued.notified]
  · rw [← hlength]
    exact bamSysGenEvent_inStep hstep hqueued (by rw [hlength]; exact h.room)

/-- What `bam_add_desc` returns success for is queued as it says just under the conditions of `Sound`. -/
theorem bam_add_desc_exact_iff (p : Pipe) (hstep : p.InStep) (hptr : ptr < 2 ^ 32) :
    Exact p ptr len flags ↔ ptr = 0 ∨ len = 0 ∨ p.size * p.maxDescLen < len ∨ Sound p ptr len flags := by
  by_cases hparams : ptr = 0 ∨ len = 0
  · refine iff_of_true ?_ (by omega)
    intro p' hp'
    rw [bamAddDesc, if_pos hparams] at hp'
    cases hp'
  by_cases hlong : p.size * p.maxDescLen < len
  · refine iff_of_true ?_ (.inr (.inr (.inl hlong)))
    intro p' hp'
    rw [bamAddDesc, if_neg hparams, if_pos hlong] at hp'
    cases hp'
  have hpos : 0 < len := by omega
  constructor
  · intro hexact
    exact .inr (.inr (.inr (sound_of_exact hpos (by omega) (by omega) hptr hexact)))
  · rintro (h | h | h | h)
    · exact absurd (.inl h) hparams
    · exact absurd (.inr h) hparams
    · exact absurd h hlong
    · exact exact_of_sound hpos (by omega) (by omega) hptr hstep h

/-- A FIFO of four slots as `bam_pipe_fifo_init` leaves it. -/
def sample : Pipe where
  size := 4
  current := 0
  maxDescLen := 16
  initialized := true
  evnt := 0
  writes := []
  notified := 0
  size_pow := ⟨2, rfl⟩
  size_le := by decide
  current_lt := by decide
  maxDescLen_lt := by decide

theorem bam_add_desc_exact_sample : Exact sample 0x80000000 40 bamDescEotFlag :=
  (bam_add_desc_exact_iff sample rfl (by decide)).mpr
    (.inr (.inr (.inr ⟨rfl, by decide, by decide, by decide, by decide, by decide⟩)))

/-- With EOT and CMD nothing is queued, while the register goes on; four descriptors fill the FIFO, and the register stays. -/
theorem bam_add_desc_out_of_step :
    ¬ Exact sample 0x80000000 16 (bamDescEotFlag ||| bamDescCmdFlag) ∧ ¬ Exact sample 0x80000000 64 bamDescEotFlag := by
  constructor
  · intro h
    exact (sound_of_exact (by decide) (by decide) (by decide) (by decide) h).eot (by decide)
  · intro h
    exact absurd (sound_of_exact (by decide) (by decide) (by decide) (by decide) h).room (by decide)

end Uboot.Bam
