import Uboot.Nfs.Theorems

/-!
# Packets

The bytes of a reply. The handlers copy the packet into a `struct rpc_t` on the stack and read the fields there; the
block of a read reply is taken from the packet. What a handler writes is kept as a list of accesses.
-/

namespace Uboot.Nfs

open Lib

/-- `sizeof(struct rpc_t)` -/
def rpcSize : Nat := 2048

/-- `sizeof(rpc_pkt.u.reply)` -/
def replySize : Nat := 100

/-- `sizeof(nfs_path_buff)` -/
def pathSize : Nat := 2048

/-- `ntohl` of the word at `i` -/
def ntohl (m : Mem) (i : Nat) : Nat :=
  (m i).toNat * 2 ^ 24 + (m (i + 1)).toNat * 2 ^ 16 + (m (i + 2)).toNat * 2 ^ 8 + (m (i + 3)).toNat

/-- `rpc_pkt` after `copied` bytes of the packet were copied into the stack frame. -/
def rpcPkt (pkt frame : Mem) (copied : Nat) : Mem := fun i => if i < copied then pkt i else frame i

/-- The fields of `rpc_pkt`, and the bytes of the packet after the header. -/
def replyOf (pkt frame : Mem) (copied : Nat) : Reply :=
  let rpc := rpcPkt pkt frame copied
  { id := ntohl rpc 0
    rstatus := ntohl rpc 8
    verifier := ntohl rpc 12
    astatus := ntohl rpc 20
    data := fun k => ntohl rpc (24 + 4 * k)
    fh := Vector.ofFn fun i => rpc (28 + i)
    text := fun i => rpc (32 + i)
    payload := fun i => pkt (replySize + i) }

/-- A packet of `len` bytes at `pkt` in the receive buffer, with the stack frame of the handler, or a timeout. -/
inductive Arrival where
  | packet (dest : Nat) (pkt frame : Mem) (len : Nat)
  | timeout

/-- `nfs_read_reply` copies the header only. -/
def copied (c : Client) (len : Nat) : Nat := if c.nfsState = .readReq then replySize else len

def Arrival.event (c : Client) : Arrival → Event
  | .packet dest pkt frame len => .reply dest (replyOf pkt frame (copied c len))
  | .timeout => .timeout

/-- A copy into `rpc_pkt`, a write to `nfs_path`, and a copy of bytes of the packet into memory. -/
inductive Access where
  | copy (n : Nat)
  | path (i : Int) (n : Nat)
  | store (i n : Nat)
  deriving DecidableEq

/-- The reply is taken. -/
def Good (c : Client) (r : Reply) : Prop := r.id = c.rpcId ∧ r.Accepted ∧ r.data 0 = 0

instance (c : Client) (r : Reply) : Decidable (Good c r) := inferInstanceAs (Decidable (_ ∧ _ ∧ _))

/-- Where the text of a link goes. -/
def linkBase (path : List UInt8) (r : Reply) : Nat := if r.text 0 ≠ 47 then path.length + 1 else 0

/-- Where `dirname` writes its NUL. Without a slash `basename` returns the byte before the path. -/
def dirnameAt (path : List UInt8) : Int := if 47 ∈ path then (dirname path).length else -2

/-- `nfs_readlink_reply`, and `dirname` after it -/
def linkWrites (path : List UInt8) (r : Reply) : List Access :=
  (if r.text 0 ≠ 47 then [.path path.length 2] else []) ++
    [.path (linkBase path r) (r.data 1), .path (linkBase path r + toInt (r.data 1)) 1,
      .path (dirnameAt (linkPath path (r.text 0) (r.text.read 0 (r.data 1)))) 1]

def accesses (c : Client) : Arrival → List Access
  | .timeout => []
  | .packet dest pkt frame len =>
      if ¬ c.Running ∨ dest ≠ nfsOurPort then []
      else
        let r := replyOf pkt frame (copied c len)
        .copy (copied c len) ::
          match c.nfsState with
          | .readReq => if Good c r then [.store replySize (r.data 18)] else []
          | .readlinkReq => if Good c r then linkWrites c.nfsPath r else []
          | _ => []

/-- The copy fits, the write is inside the path buffer, the bytes were received. -/
def Access.Bounded (len : Nat) : Access → Prop
  | .copy n => n ≤ rpcSize
  | .path i n => 0 ≤ i ∧ i + n ≤ pathSize
  | .store i n => ∀ j < n, i + j < len

def Arrival.len : Arrival → Nat
  | .packet _ _ _ len => len
  | .timeout => 0

/-- All that the handler does with the packet is in bounds. -/
def Bounded (c : Client) (a : Arrival) : Prop := ∀ x ∈ accesses c a, x.Bounded a.len

/-- The text of a link fits behind the directory, and is not empty in front of a slash. -/
def LinkFits (path : List UInt8) (r : Reply) : Prop :=
  linkBase path r + r.data 1 < pathSize ∧ (r.data 1 = 0 → r.text 0 ≠ 47)

/-- The packet fits into `rpc_pkt`, the link into the path, and the block is in the packet. -/
def Fits (c : Client) : Arrival → Prop
  | .timeout => True
  | .packet dest pkt frame len =>
      c.Running → dest = nfsOurPort →
        copied c len ≤ rpcSize ∧
        (Good c (replyOf pkt frame (copied c len)) →
          (c.nfsState = .readlinkReq → LinkFits c.nfsPath (replyOf pkt frame (copied c len))) ∧
          (c.nfsState = .readReq → (replyOf pkt frame (copied c len)).data 18 ≠ 0 →
            replySize + (replyOf pkt frame (copied c len)).data 18 ≤ len))

/-- `P` holds of every arrival of a run. -/
def AtEvery (P : Client → Arrival → Prop) (loadAddr : Nat) : Client → List Arrival → Prop
  | _, [] => True
  | c, a :: as => P c a ∧ AtEvery P loadAddr (step loadAddr c (a.event c)) as

/-! ## One packet -/

section
variable {path : List UInt8} {r : Reply} {len n : Nat}

theorem takeWhile_ne_of_not_mem (h : 0 ∉ path) (rest : List UInt8) :
    (path ++ rest).takeWhile (· ≠ 0) = path ++ rest.takeWhile (· ≠ 0) :=
  List.takeWhile_append_of_pos fun b hb => by
    have hb0 : b ≠ 0 := fun he => h (he ▸ hb)
    simpa using hb0

theorem dirname_length_le (path : List UInt8) : (dirname path).length ≤ path.length := by
  rw [dirname, List.length_reverse, List.length_drop]
  have hle : (path.reverse.dropWhile (· ≠ 47)).length ≤ path.reverse.length := (List.dropWhile_sublist _).length_le
  rw [List.length_reverse] at hle
  omega

theorem dirnameAt_of_mem (h : 47 ∈ path) : dirnameAt path = (dirname path).length := if_pos h

/-- What a link leads to has a slash, unless it is empty. -/
theorem slash_mem_linkPath (hnul : 0 ∉ path) (first : UInt8) {text : List UInt8} (hfirst : first = 47 → text.head? = some 47) :
    47 ∈ linkPath path first text := by
  rw [linkPath]
  split
  next hrel =>
    rw [takeWhile_ne_of_not_mem hnul]
    simp
  next habs =>
    cases text with
    | nil => simp [not_not.mp habs] at hfirst
    | cons b text =>
        have hb : b = 47 := by simpa [not_not.mp habs] using hfirst
        rw [hb]
        simp

theorem linkPath_length (path : List UInt8) (first : UInt8) (text : List UInt8) :
    (linkPath path first text).length ≤ (if first ≠ 47 then path.length + 1 else 0) + text.length := by
  rw [linkPath]
  refine (List.takeWhile_sublist _).length_le.trans ?_
  split
  next => simp only [List.length_append, List.length_cons]; omega
  next => omega

theorem read_head (m : Mem) (a : Nat) (hn : n ≠ 0) : (m.read a n).head? = some (m a) := by
  cases n with
  | zero => exact absurd rfl hn
  | succ n => simp [Mem.read, List.range_succ_eq_map]

theorem linkPath_le (path : List UInt8) (r : Reply) :
    (dirname (linkPath path (r.text 0) (r.text.read 0 (r.data 1)))).length ≤ linkBase path r + r.data 1 :=
  calc (dirname (linkPath path (r.text 0) (r.text.read 0 (r.data 1)))).length
    _ ≤ (linkPath path (r.text 0) (r.text.read 0 (r.data 1))).length := dirname_length_le _
    _ ≤ linkBase path r + (r.text.read 0 (r.data 1)).length := linkPath_length ..
    _ = linkBase path r + r.data 1 := by rw [Mem.read_length]

theorem LinkFits.bounded (h : LinkFits path r) (hnul : 0 ∉ path) : ∀ x ∈ linkWrites path r, x.Bounded len := by
  obtain ⟨hfit, hempty⟩ := h
  unfold pathSize at hfit
  have hint : toInt (r.data 1) = r.data 1 := toInt_of_lt (by omega) (by omega)
  have hslash : 47 ∈ linkPath path (r.text 0) (r.text.read 0 (r.data 1)) := by
    refine slash_mem_linkPath hnul _ fun hfirst => ?_
    rw [read_head _ _ fun h0 => hempty h0 hfirst, hfirst]
  have hdir := linkPath_le path r
  intro x hx
  rcases List.mem_append.mp hx with hcat | hx
  · split at hcat
    next hrel =>
      rw [List.mem_singleton.mp hcat]
      rw [linkBase, if_pos hrel] at hfit
      simp only [Access.Bounded, pathSize]
      omega
    next => cases hcat
  · simp only [List.mem_cons, List.not_mem_nil, or_false] at hx
    rcases hx with rfl | rfl | rfl
    · simp only [Access.Bounded, pathSize]
      omega
    · simp only [Access.Bounded, pathSize, hint]
      omega
    · simp only [Access.Bounded, pathSize, dirnameAt_of_mem hslash]
      omega

theorem linkWrites_fit (h : ∀ x ∈ linkWrites path r, x.Bounded len) : LinkFits path r := by
  have hcopy := h (.path (linkBase path r) (r.data 1)) (by simp [linkWrites])
  have hnul := h (.path (linkBase path r + toInt (r.data 1)) 1) (by simp [linkWrites])
  have hdir := h (.path (dirnameAt (linkPath path (r.text 0) (r.text.read 0 (r.data 1)))) 1) (by simp [linkWrites])
  simp only [Access.Bounded, pathSize] at hcopy hnul hdir
  have hint : toInt (r.data 1) = r.data 1 := toInt_of_lt (by omega) (by omega)
  rw [hint] at hnul
  refine ⟨by unfold pathSize; omega, fun h0 hfirst => ?_⟩
  -- an empty path has no slash
  have hempty : linkPath path (r.text 0) (r.text.read 0 (r.data 1)) = [] := by
    rw [linkPath, if_neg (by simp [hfirst]), h0]
    rfl
  rw [hempty] at hdir
  exact absurd hdir.1 (by decide)

theorem store_bounded_iff : (Access.store replySize n).Bounded len ↔ n ≠ 0 → replySize + n ≤ len := by
  constructor
  · intro h hn
    have hlast := h (n - 1) (by omega)
    omega
  · intro h j hj
    have hle := h (by omega)
    omega

/-- All accesses are in bounds when the packet fits, and only then. -/
theorem bounded_iff_fits {c : Client} (hnul : 0 ∉ c.nfsPath) (a : Arrival) : Bounded c a ↔ Fits c a := by
  cases a with
  | timeout => simp [Bounded, accesses, Fits]
  | packet dest pkt frame len =>
      by_cases hidle : ¬ c.Running ∨ dest ≠ nfsOurPort
      · have hskip : ¬ (c.Running ∧ dest = nfsOurPort) := by tauto
        rw [Bounded, accesses, if_pos hidle, Fits]
        exact ⟨fun _ hrun hdest => absurd ⟨hrun, hdest⟩ hskip, fun _ x hx => by cases hx⟩
      · have hrun : c.Running ∧ dest = nfsOurPort := by tauto
        rw [Bounded, accesses, if_neg hidle, Fits, List.forall_mem_cons]
        simp only [hrun.1, hrun.2, forall_const]
        refine and_congr Iff.rfl ?_
        generalize replyOf pkt frame (copied c len) = r
        cases hst : c.nfsState with
        | readlinkReq =>
            by_cases hgood : Good c r
            · simp only [hgood, if_true, forall_const, reduceCtorEq, false_imp_iff, and_true]
              exact ⟨fun h => linkWrites_fit h, fun h => h.bounded hnul⟩
            · simp [hgood]
        | readReq =>
            by_cases hgood : Good c r
            · simp only [hgood, if_true, forall_const, reduceCtorEq, false_imp_iff, true_and, List.mem_singleton, forall_eq]
              exact store_bounded_iff
            · simp [hgood]
        | _ => simp

end

/-! ## Runs -/

section
variable {loadAddr : Nat} {c : Client}

theorem nul_not_mem_linkPath (path : List UInt8) (first : UInt8) (text : List UInt8) : 0 ∉ linkPath path first text := by
  intro h
  have hall := List.all_takeWhile (p := (· ≠ 0)) (l := if first ≠ 47 then path ++ 47 :: text else text)
  have hne := List.all_eq_true.mp hall 0 h
  simp at hne

theorem dirname_subset (path : List UInt8) : dirname path ⊆ path := by
  intro b hb
  rw [dirname, List.mem_reverse] at hb
  exact List.mem_reverse.mp ((List.dropWhile_sublist _).subset (List.drop_subset _ _ hb))

theorem nfsSend_path (c : Client) : (nfsSend c).nfsPath = c.nfsPath := by
  rw [nfsSend]
  split <;> rfl

theorem goto_path (state : NfsState) (c : Client) : (goto state c).nfsPath = c.nfsPath := nfsSend_path _

theorem rpcLookupReply_path (prog : Prog) (r : Reply) (c : Client) :
    ((rpcLookupReply prog r c).getD c).nfsPath = c.nfsPath := by
  unfold rpcLookupReply
  split
  next => rfl
  next =>
    split
    next => rfl
    next => cases prog <;> rfl

theorem nfsReadReply_path (r : Reply) (c : Client) : (nfsReadReply loadAddr r c).2.nfsPath = c.nfsPath := by
  rcases nfsReadReply_cases loadAddr r c with ⟨-, -, -, h⟩ | ⟨-, -, -, -, h⟩ | h | h <;> rw [h]
  rfl

/-- The path changes with a link only. -/
theorem nfsHandler_path (loadAddr dest : Nat) (r : Reply) (c : Client) : (nfsHandler loadAddr dest r c).nfsPath = c.nfsPath ∨
    ∃ text : List UInt8, (nfsHandler loadAddr dest r c).nfsPath = dirname (linkPath c.nfsPath (r.text 0) text) := by
  rw [nfsHandler]
  split
  next => exact .inl rfl
  next =>
    cases hst : c.nfsState with
    | prclookupProgMountReq => exact .inl ((goto_path ..).trans (rpcLookupReply_path ..))
    | prclookupProgNfsReq => exact .inl ((goto_path ..).trans (rpcLookupReply_path ..))
    | mountReq =>
        left
        cases h : nfsMountReply r c with
        | none => exact goto_path ..
        | some c' =>
            obtain ⟨-, -, -, rfl⟩ := nfsMountReply_some h
            exact goto_path ..
    | umountReq =>
        left
        cases h : nfsUmountallReply r c with
        | none => rfl
        | some c' =>
            obtain ⟨-, rfl⟩ := nfsUmountallReply_some h
            rfl
    | lookupReq =>
        left
        cases h : nfsLookupReply r c with
        | none => exact goto_path ..
        | some c' =>
            obtain ⟨-, -, -, rfl⟩ := nfsLookupReply_some h
            exact goto_path ..
    | readlinkReq =>
        cases h : nfsReadlinkReply r c with
        | none => exact .inl (goto_path ..)
        | some c' =>
            obtain ⟨-, -, -, rfl⟩ := nfsReadlinkReply_some h
            exact .inr ⟨_, goto_path ..⟩
    | readReq =>
        left
        dsimp only
        split
        next => exact (nfsSend_path _).trans (nfsReadReply_path ..)
        next =>
          split
          next => exact (goto_path ..).trans (nfsReadReply_path ..)
          next => exact (goto_path ..).trans (nfsReadReply_path ..)

/-- The path has no NUL, whatever arrives. -/
theorem step_path (h : 0 ∉ c.nfsPath) (e : Event) : 0 ∉ (step loadAddr c e).nfsPath := by
  cases e with
  | timeout =>
      rw [step, nfsTimeout]
      split
      next =>
        dsimp only
        split
        next => exact h
        next => rwa [nfsSend_path]
      next => exact h
  | reply dest r =>
      rw [step]
      split
      next =>
        rcases nfsHandler_path loadAddr dest r c with he | ⟨text, he⟩
        · rwa [he]
        · rw [he]
          exact fun hmem => nul_not_mem_linkPath _ _ _ (dirname_subset _ hmem)
      next => exact h

theorem atEvery_congr {P Q : Client → Arrival → Prop} (h : ∀ c a, 0 ∉ c.nfsPath → (P c a ↔ Q c a)) (as : List Arrival)
    (hnul : 0 ∉ c.nfsPath) : AtEvery P loadAddr c as ↔ AtEvery Q loadAddr c as := by
  induction as generalizing c with
  | nil => exact Iff.rfl
  | cons a as ih => exact and_congr (h c a hnul) (ih (step_path hnul _))

end

/-- In every chain of replies, all that the handlers copy and write is in bounds as long as every packet fits, and
no longer. -/
theorem reply_bounds_iff (loadAddr : Nat) (path name : List UInt8) (c : Client) (hnul : 0 ∉ path) (as : List Arrival) :
    AtEvery Bounded loadAddr (nfsStart path name c) as ↔ AtEvery Fits loadAddr (nfsStart path name c) as := by
  refine atEvery_congr (fun c a h => bounded_iff_fits h a) as ?_
  rw [nfsStart, nfsSend_path]
  exact hnul

instance (path : List UInt8) (r : Reply) : Decidable (LinkFits path r) := inferInstanceAs (Decidable (_ ∧ _))

instance (c : Client) : (a : Arrival) → Decidable (Fits c a)
  | .timeout => instDecidableTrue
  | .packet dest _ _ _ => inferInstanceAs (Decidable (c.Running → dest = nfsOurPort → _ ∧ (_ → (_ → _) ∧ (_ → _ → _))))

instance instDecidableAtEvery {P : Client → Arrival → Prop} [∀ c a, Decidable (P c a)] (loadAddr : Nat) :
    (c : Client) → (as : List Arrival) → Decidable (AtEvery P loadAddr c as)
  | _, [] => instDecidableTrue
  | c, a :: as =>
      have := instDecidableAtEvery (P := P) loadAddr (step loadAddr c (a.event c)) as
      inferInstanceAs (Decidable (_ ∧ _))

/-- A good reply with this id and `data[18]`. -/
def samplePacket (id count : UInt8) (len : Nat) : Arrival :=
  .packet nfsOurPort (fun i => if i = 3 then id else if i = 99 then count else 0) (fun _ => 0) len

/-- The replies up to the one to a read. -/
def sampleChain (count : UInt8) : List Arrival :=
  [samplePacket 1 0 28, samplePacket 2 0 28, samplePacket 3 0 60, samplePacket 4 0 60, samplePacket 5 count 103]

theorem reply_bounds_iff_example : AtEvery Bounded 0 (nfsStart [47] [97] idleClient) (sampleChain 3) :=
  (reply_bounds_iff 0 [47] [97] idleClient (by decide) (sampleChain 3)).mpr (by decide)

/-- The reply to the read says 200 bytes, and the packet has three. -/
theorem read_reply_stores_stale_bytes :
    ¬ ∀ (loadAddr : Nat) (path name : List UInt8) (c : Client) (as : List Arrival), 0 ∉ path →
      AtEvery Bounded loadAddr (nfsStart path name c) as := by
  intro h
  obtain ⟨-, -, -, -, hread, -⟩ := h 0 [47] [97] idleClient (sampleChain 200) (by decide)
  have hstore := hread (.store 100 200) (by decide) 150 (by decide)
  exact absurd hstore (by decide)

end Uboot.Nfs
