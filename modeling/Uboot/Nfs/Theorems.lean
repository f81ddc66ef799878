import Uboot.Nfs.Server

/-!
# Stale replies

A stale reply makes the client go to its next state, or give up, in every state but the last one. What is loaded is the
file even so: a reply is only used when it has the id of the last request.
-/

namespace Uboot.Nfs

open Lib

/-! ## Requests -/

/-- The ids count up, modulo their size. -/
def Ids (c : Client) : Prop := ∀ j p, c.sent[j]? = some p → (p.1 + j) % 2 ^ 32 = c.rpcId % 2 ^ 32

/-- The last request is that of the state. -/
structure Issued (c : Client) : Prop where
  ids : Ids c
  head : c.nfsState ≠ .umountReq → c.sent.head? = some (c.rpcId, reqOf c)

theorem nfsSend_eq (c : Client) : ∃ id sent, nfsSend c = { c with rpcId := id, sent := sent } := by
  unfold nfsSend
  split
  next => exact ⟨c.rpcId, c.sent, rfl⟩
  next => exact ⟨_, _, rfl⟩

theorem rpcReq_ids {c : Client} {req : Req} (h : Ids c) : Ids (rpcReq req c) := by
  intro j p hp
  cases j with
  | zero =>
    simp only [rpcReq, List.getElem?_cons_zero, Option.some.injEq] at hp
    subst hp
    rfl
  | succ j =>
    have hj := h j p (by simpa [rpcReq] using hp)
    simp only [rpcReq]
    omega

theorem nfsSend_issued {c : Client} (h : Ids c) : Issued (nfsSend c) := by
  unfold nfsSend
  split
  next hu => exact ⟨h, fun hn => absurd hu.1 hn⟩
  next => exact ⟨rpcReq_ids h, fun _ => rfl⟩

/-- Of less than 2^32 requests one has the last id. -/
theorem Issued.unique {c : Client} (h : Issued c) (hlen : c.sent.length ≤ 2 ^ 32) (hs : c.nfsState ≠ .umountReq)
    {req : Req} (hmem : (c.rpcId, req) ∈ c.sent) : req = reqOf c := by
  obtain ⟨j, hj⟩ := List.mem_iff_getElem?.mp hmem
  have hlt : j < c.sent.length := (List.getElem?_eq_some_iff.mp hj).1
  have hid := h.ids j _ hj
  have h0 : j = 0 := by
    simp only at hid
    omega
  subst h0
  have hhead := h.head hs
  rw [List.head?_eq_getElem?, hj] at hhead
  simpa using hhead

theorem Issued.answers {srv : Server} {c : Client} {dest : Nat} {r : Reply} (h : Issued c)
    (hlen : c.sent.length ≤ 2 ^ 32) (hsend : srv.Sends c (.reply dest r)) (hs : c.nfsState ≠ .umountReq)
    (hid : r.id = c.rpcId) : srv.Answers (reqOf c) r := by
  have hhead : (r.id, reqOf c) ∈ c.sent := by
    rw [hid]
    exact List.mem_of_mem_head? (h.head hs)
  obtain ⟨req, hmem, hreq⟩ := hsend ⟨_, hhead⟩
  rw [hid] at hmem
  rw [← h.unique hlen hs hmem]
  exact hreq

/-! ## Replies -/

section
variable {c c' : Client} {r : Reply}

theorem guarded_some {α : Type} {p q : Prop} [Decidable p] [Decidable q] {x y : α}
    (h : (if p then none else if q then none else some x) = some y) : ¬ p ∧ ¬ q ∧ y = x := by
  split at h
  next => cases h
  next hp =>
    split at h
    next => cases h
    next hq => exact ⟨hp, hq, (Option.some.inj h).symm⟩

theorem nfsMountReply_some (h : nfsMountReply r c = some c') :
    r.id = c.rpcId ∧ r.Accepted ∧ r.data 0 = 0 ∧ c' = { c with fsMounted := true, dirfh := r.fh } := by
  obtain ⟨hid, hok, rfl⟩ := guarded_some h
  exact ⟨by simpa using hid, by tauto, by tauto, rfl⟩

theorem nfsLookupReply_some (h : nfsLookupReply r c = some c') :
    r.id = c.rpcId ∧ r.Accepted ∧ r.data 0 = 0 ∧ c' = { c with filefh := r.fh } := by
  obtain ⟨hid, hok, rfl⟩ := guarded_some h
  exact ⟨by simpa using hid, by tauto, by tauto, rfl⟩

theorem nfsReadlinkReply_some (h : nfsReadlinkReply r c = some c') :
    r.id = c.rpcId ∧ r.Accepted ∧ r.data 0 = 0 ∧
      c' = { c with nfsPath := linkPath c.nfsPath (r.text 0) (r.text.read 0 (r.data 1)) } := by
  obtain ⟨hid, hok, rfl⟩ := guarded_some h
  exact ⟨by simpa using hid, by tauto, by tauto, rfl⟩

theorem nfsUmountallReply_some (h : nfsUmountallReply r c = some c') :
    r.id = c.rpcId ∧ c' = { c with fsMounted := false, dirfh := Vector.replicate 32 0 } := by
  obtain ⟨hid, -, rfl⟩ := guarded_some h
  exact ⟨by simpa using hid, rfl⟩

/-- A block is stored, the reply says why not, or it says nothing. -/
theorem nfsReadReply_cases (loadAddr : Nat) (r : Reply) (c : Client) :
    (r.id = c.rpcId ∧ r.Accepted ∧ r.data 0 = 0 ∧
      nfsReadReply loadAddr r c = (toInt (r.data 18), storeBlock loadAddr (r.payload.read 0 (r.data 18)) c)) ∨
    (r.id = c.rpcId ∧ r.rstatus = 0 ∧ r.astatus = 0 ∧ (r.verifier ≠ 0 ∨ r.data 0 ≠ 0) ∧
      nfsReadReply loadAddr r c = (toInt (-(r.data 0 : Int)), c)) ∨
    ((nfsReadReply loadAddr r c = (-1, c) ∨ nfsReadReply loadAddr r c = (-9999, c))) := by
  unfold nfsReadReply
  split
  next => exact .inr (.inr (.inl rfl))
  next hid =>
    split
    next hbad =>
      split
      next => exact .inr (.inr (.inr rfl))
      next hr =>
        split
        next => exact .inr (.inr (.inr rfl))
        next ha =>
          refine .inr (.inl ⟨by simpa using hid, by omega, by omega, ?_, rfl⟩)
          simp only [Reply.Accepted] at hbad
          omega
    next hok => exact .inl ⟨by simpa using hid, by tauto, by tauto, rfl⟩

end

/-! ## What is loaded -/

section
variable (srv : Server) (loadAddr : Nat) (path name : List UInt8)

/-- The first part of the file is loaded; nothing is when it is not a file. -/
structure Loading (c : Client) : Prop where
  nfsLen : c.nfsLen = nfsReadSize
  size : c.xferSize = c.nfsOffset
  file : ∀ bytes, srv.node c.filefh = .file bytes →
    c.nfsOffset ≤ bytes.length ∧ c.mem.Holds loadAddr (bytes.take c.nfsOffset)
  other : (∀ bytes, srv.node c.filefh ≠ .file bytes) → c.xferSize = 0

structure Core (c : Client) : Prop where
  resolves : ∀ bytes, srv.Resolves c.nfsPath c.nfsFilename bytes → srv.Resolves path name bytes
  dirfh : c.nfsState = .lookupReq ∨ c.nfsState = .readReq ∨ c.nfsState = .readlinkReq →
    srv.mount c.nfsPath = some c.dirfh
  filefh : c.nfsState = .readReq ∨ c.nfsState = .readlinkReq → srv.lookup c.dirfh c.nfsFilename = some c.filefh
  idle : c.nfsState ≠ .readReq → c.nfsState ≠ .umountReq → c.xferSize = 0
  loading : c.nfsState = .readReq → Loading srv loadAddr c
  unfinished : c.nfsState ≠ .umountReq → c.downloadState = .fail
  finished : c.downloadState = .success → Done srv loadAddr path name c
  success : c.netState = .success → c.downloadState = .success

end

section
variable {srv : Server} {loadAddr : Nat} {path name : List UInt8} {c : Client} {r : Reply}

/-- Nothing is said of the retry state and of the requests. -/
theorem Core.frame (h : Core srv loadAddr path name c) (count timer id : Nat) (returned : Bool)
    (sent : List (Nat × Req)) :
    Core srv loadAddr path name
      { c with timeoutCount := count, timer := timer, rpcId := id, returned := returned, sent := sent } := by
  have hload : c.nfsState = .readReq → Loading srv loadAddr
      { c with timeoutCount := count, timer := timer, rpcId := id, returned := returned, sent := sent } :=
    fun hs => ⟨(h.loading hs).nfsLen, (h.loading hs).size, (h.loading hs).file, (h.loading hs).other⟩
  exact ⟨h.resolves, h.dirfh, h.filefh, h.idle, hload, h.unfinished, h.finished, h.success⟩

theorem Core.send (h : Core srv loadAddr path name c) : Core srv loadAddr path name (nfsSend c) := by
  obtain ⟨id, sent, hc⟩ := nfsSend_eq c
  rw [hc]
  exact h.frame c.timeoutCount c.timer id c.returned sent

/-- The client gives up, or is done. -/
theorem Core.umount (h : Core srv loadAddr path name c) : Core srv loadAddr path name (goto .umountReq c) :=
  Core.send ⟨h.resolves, by simp, by simp, by simp, by simp, by simp, h.finished, h.success⟩

theorem Core.getport {c' : Client} {state : NfsState} (h : Core srv loadAddr path name c)
    (hc : c.nfsState = .prclookupProgMountReq ∨ c.nfsState = .prclookupProgNfsReq)
    (hstate : state = .prclookupProgNfsReq ∨ state = .mountReq)
    (hc' : ∃ m n, c' = { c with srvMountPort := m, srvNfsPort := n }) :
    Core srv loadAddr path name (goto state c') := by
  obtain ⟨m, n, rfl⟩ := hc'
  have hidle : c.xferSize = 0 := h.idle (by rcases hc with hc | hc <;> simp [hc]) (by rcases hc with hc | hc <;> simp [hc])
  have hfail : c.downloadState = .fail := h.unfinished (by rcases hc with hc | hc <;> simp [hc])
  refine Core.send ⟨h.resolves, ?_, ?_, fun _ _ => hidle, ?_, fun _ => hfail, h.finished, h.success⟩
  all_goals rcases hstate with rfl | rfl <;> simp

theorem rpcLookupReply_getD (prog : Prog) (r : Reply) (c : Client) :
    ∃ m n, (rpcLookupReply prog r c).getD c = { c with srvMountPort := m, srvNfsPort := n } := by
  cases h : rpcLookupReply prog r c with
  | none => exact ⟨c.srvMountPort, c.srvNfsPort, rfl⟩
  | some c' =>
    cases prog with
    | mount =>
      obtain ⟨-, -, rfl⟩ := guarded_some h
      exact ⟨_, _, rfl⟩
    | nfs =>
      obtain ⟨-, -, rfl⟩ := guarded_some h
      exact ⟨_, _, rfl⟩

theorem Core.mount (h : Core srv loadAddr path name c) (hs : c.nfsState = .mountReq)
    (hmount : srv.mount c.nfsPath = some r.fh) :
    Core srv loadAddr path name (goto .lookupReq { c with fsMounted := true, dirfh := r.fh }) := by
  have hidle : c.xferSize = 0 := h.idle (by simp [hs]) (by simp [hs])
  have hfail : c.downloadState = .fail := h.unfinished (by simp [hs])
  exact Core.send ⟨h.resolves, fun _ => hmount, by simp, fun _ _ => hidle, by simp, fun _ => hfail, h.finished, h.success⟩

theorem Core.lookup (h : Core srv loadAddr path name c) (hs : c.nfsState = .lookupReq)
    (hlookup : srv.lookup c.dirfh c.nfsFilename = some r.fh) :
    Core srv loadAddr path name (goto .readReq { c with filefh := r.fh, nfsOffset := 0, nfsLen := nfsReadSize }) := by
  have hidle : c.xferSize = 0 := h.idle (by simp [hs]) (by simp [hs])
  have hfail : c.downloadState = .fail := h.unfinished (by simp [hs])
  refine Core.send ⟨h.resolves, fun _ => h.dirfh (.inl hs), fun _ => hlookup, by simp, fun _ => ?_, fun _ => hfail,
    h.finished, h.success⟩
  exact ⟨rfl, hidle, fun bytes _ => ⟨Nat.zero_le _, by simp [Mem.Holds, Mem.read]⟩, fun _ => hidle⟩

theorem Core.readlink {text : List UInt8} (h : Core srv loadAddr path name c) (hs : c.nfsState = .readlinkReq)
    (hnode : srv.node c.filefh = .symlink text) :
    Core srv loadAddr path name (goto .mountReq
      { c with
        nfsFilename := basename (linkPath c.nfsPath (text.headD 0) text)
        nfsPath := dirname (linkPath c.nfsPath (text.headD 0) text) }) := by
  have hidle : c.xferSize = 0 := h.idle (by simp [hs]) (by simp [hs])
  have hfail : c.downloadState = .fail := h.unfinished (by simp [hs])
  refine Core.send ⟨fun bytes hb => h.resolves bytes ?_, by simp, by simp, fun _ _ => hidle, by simp, fun _ => hfail,
    h.finished, h.success⟩
  exact .link (h.dirfh (.inr (.inr hs))) (h.filefh (.inr hs)) hnode hb

/-- `NFSERR_ISDIR` or `NFSERR_INVAL` -/
theorem Core.notFile (h : Core srv loadAddr path name c) (hs : c.nfsState = .readReq)
    (hnode : ∀ bytes, srv.node c.filefh ≠ .file bytes) :
    Core srv loadAddr path name (goto .readlinkReq { c with timer := c.timer + 1 }) :=
  Core.send ⟨h.resolves, fun _ => h.dirfh (.inr (.inl hs)), fun _ => h.filefh (.inl hs),
    fun _ _ => (h.loading hs).other hnode, by simp, fun _ => h.unfinished (by simp [hs]), h.finished, h.success⟩

theorem toInt_of_lt {n : Int} (h0 : -(2 ^ 31) ≤ n) (h : n < 2 ^ 31) : toInt n = n := by
  simp only [toInt, Int.bmod]
  omega

theorem Loading.store {bytes : List UInt8} (h : Loading srv loadAddr c) (hnode : srv.node c.filefh = .file bytes)
    (hn : r.data 18 ≤ bytes.length - c.nfsOffset)
    (hpayload : r.payload.read 0 (r.data 18) = (bytes.drop c.nfsOffset).take (r.data 18)) :
    Loading srv loadAddr
      { storeBlock loadAddr (r.payload.read 0 (r.data 18)) c with
        nfsOffset := c.nfsOffset + r.data 18, timer := c.timer + 1 } := by
  obtain ⟨hoff, hmem⟩ := h.file bytes hnode
  have hlen : (bytes.take c.nfsOffset).length = c.nfsOffset := by simp [hoff]
  have hsize := h.size
  refine ⟨h.nfsLen, ?_, fun bytes' hb => ?_, fun hb => absurd hnode (hb bytes)⟩
  · simp only [storeBlock, Mem.read_length]
    split <;> omega
  · have hb : srv.node c.filefh = .file bytes' := hb
    obtain rfl : bytes = bytes' := by simpa [hnode] using hb
    refine ⟨by simp only; omega, ?_⟩
    simp only [storeBlock]
    rw [List.take_add, ← hpayload, Mem.holds_append]
    constructor
    · exact hmem.write (.inr (by rw [hlen]))
    · rw [hlen]
      exact Mem.holds_write

/-- A read of the file, with a block or at its end. -/
theorem Core.read {bytes : List UInt8} (h : Core srv loadAddr path name c) (hs : c.nfsState = .readReq)
    (hnode : srv.node c.filefh = .file bytes) (hn : r.data 18 ≤ bytes.length - c.nfsOffset)
    (hpayload : r.payload.read 0 (r.data 18) = (bytes.drop c.nfsOffset).take (r.data 18)) :
    Core srv loadAddr path name
      { storeBlock loadAddr (r.payload.read 0 (r.data 18)) c with
        nfsOffset := c.nfsOffset + r.data 18, timer := c.timer + 1 } := by
  have hfail : c.downloadState = .fail := h.unfinished (by simp [hs])
  refine ⟨h.resolves, h.dirfh, h.filefh, fun hn => absurd hs hn, fun _ => (h.loading hs).store hnode hn hpayload,
    h.unfinished, fun hd => ?_, h.success⟩
  simp [storeBlock, hfail] at hd

theorem Core.done {bytes : List UInt8} (h : Core srv loadAddr path name c) (hs : c.nfsState = .readReq)
    (hnode : srv.node c.filefh = .file bytes) (hend : bytes.length ≤ c.nfsOffset) :
    Core srv loadAddr path name (goto .umountReq { c with downloadState := .success }) := by
  have hload := h.loading hs
  obtain ⟨hoff, hmem⟩ := hload.file bytes hnode
  have hres : srv.Resolves c.nfsPath c.nfsFilename bytes :=
    .file (h.dirfh (.inr (.inl hs))) (h.filefh (.inl hs)) hnode
  rw [List.take_of_length_le hend] at hmem
  exact Core.send ⟨h.resolves, by simp, by simp, by simp, by simp, by simp,
    fun _ => ⟨bytes, h.resolves bytes hres, hmem, by simp only [hload.size]; omega⟩, fun _ => rfl⟩

/-- The end of a file is a reply with no bytes. -/
theorem readReq_core (h : Core srv loadAddr path name c) (hs : c.nfsState = .readReq)
    (hans : r.id = c.rpcId → srv.Answers (.read c.filefh c.nfsOffset c.nfsLen) r)
    (hend : ¬ (r.id = c.rpcId ∧ r.rstatus = 0 ∧ r.verifier ≠ 0 ∧ r.astatus = 0 ∧ r.data 0 = 0)) :
    Core srv loadAddr path name (nfsHandler loadAddr nfsOurPort r c) := by
  have htimer : Core srv loadAddr path name { c with timer := c.timer + 1 } :=
    h.frame c.timeoutCount (c.timer + 1) c.rpcId c.returned c.sent
  simp only [nfsHandler, ne_eq, not_true_eq_false, ↓reduceIte, hs]
  rcases nfsReadReply_cases loadAddr r c with ⟨hid, hok, h0, hread⟩ | ⟨hid, hr, ha, hbad, hread⟩ | hread
  · obtain ⟨bytes, hnode, hlen, hn, hz, hpayload⟩ := (hans hid).1 hok h0
    have hlt : r.data 18 < 2 ^ 31 := by
      rw [(h.loading hs).nfsLen] at hlen
      simp only [nfsReadSize] at hlen
      omega
    have hcore := h.read hs hnode hn hpayload
    rw [hread, toInt_of_lt (by omega) (by omega)]
    by_cases hpos : r.data 18 = 0
    · have hdone := hcore.done hs hnode (by simp only; omega)
      simpa [hpos, storeBlock] using hdone
    · have hgt : 0 < r.data 18 := by omega
      simpa [hgt, storeBlock] using hcore.send
  · obtain ⟨-, hlt, hdir⟩ := hans hid
    have h0 : r.data 0 ≠ 0 := by omega
    rw [hread, toInt_of_lt (by omega) (by omega)]
    have hneg : ¬ -(r.data 0 : Int) > 0 := by omega
    have hne : -(r.data 0 : Int) ≠ 0 := by omega
    simp only [hneg, ↓reduceIte, hne]
    split
    next hlink => exact h.notFile hs (hdir (by omega))
    next => exact htimer.umount
  · rcases hread with hread | hread <;> simpa [hread] using htimer.umount

theorem readlinkReq_core (h : Core srv loadAddr path name c) (hs : c.nfsState = .readlinkReq)
    (hans : r.id = c.rpcId → srv.Answers (.readlink c.filefh) r) :
    Core srv loadAddr path name (nfsHandler loadAddr nfsOurPort r c) := by
  simp only [nfsHandler, ne_eq, not_true_eq_false, ↓reduceIte, hs]
  cases hc : nfsReadlinkReply r c with
  | none => exact h.umount
  | some c' =>
    obtain ⟨hid, hok, h0, rfl⟩ := nfsReadlinkReply_some hc
    obtain ⟨text, hnode, hlen, htext⟩ := hans hid hok h0
    have hfirst : r.text 0 = text.headD 0 := by
      cases text with
      | nil => exact absurd rfl (srv.link_ne hnode)
      | cons b bs => exact (Mem.holds_cons.mp htext).1
    have hread : r.text.read 0 (r.data 1) = text := by
      rw [hlen]
      exact htext
    simp only [hfirst, hread]
    exact h.readlink hs hnode

/-- One reply. Only in the state of its request is a reply used. -/
theorem handler_core (h : Core srv loadAddr path name c) (dest : Nat)
    (hans : c.nfsState ≠ .umountReq → r.id = c.rpcId → srv.Answers (reqOf c) r)
    (hend : c.nfsState = .readReq → dest = nfsOurPort →
      ¬ (r.id = c.rpcId ∧ r.rstatus = 0 ∧ r.verifier ≠ 0 ∧ r.astatus = 0 ∧ r.data 0 = 0)) :
    Core srv loadAddr path name (nfsHandler loadAddr dest r c) := by
  by_cases hdest : dest = nfsOurPort
  case neg => simpa [nfsHandler, hdest] using h
  subst hdest
  cases hs : c.nfsState with
  | readReq => exact readReq_core h hs (by simpa [hs, reqOf] using hans) (hend hs rfl)
  | readlinkReq => exact readlinkReq_core h hs (by simpa [hs, reqOf] using hans)
  | prclookupProgMountReq =>
    simp only [nfsHandler, ne_eq, not_true_eq_false, ↓reduceIte, hs]
    exact h.getport (.inl hs) (.inl rfl) (rpcLookupReply_getD _ _ _)
  | prclookupProgNfsReq =>
    simp only [nfsHandler, ne_eq, not_true_eq_false, ↓reduceIte, hs]
    exact h.getport (.inr hs) (.inr rfl) (rpcLookupReply_getD _ _ _)
  | mountReq =>
    simp only [nfsHandler, ne_eq, not_true_eq_false, ↓reduceIte, hs]
    cases hc : nfsMountReply r c with
    | none => exact h.umount
    | some c' =>
      obtain ⟨hid, hok, h0, rfl⟩ := nfsMountReply_some hc
      have hreq : srv.Answers (.mount c.nfsPath) r := by simpa [hs, reqOf, hid] using hans
      exact h.mount hs (hreq hok h0)
  | lookupReq =>
    simp only [nfsHandler, ne_eq, not_true_eq_false, ↓reduceIte, hs]
    cases hc : nfsLookupReply r c with
    | none => exact h.umount
    | some c' =>
      obtain ⟨hid, hok, h0, rfl⟩ := nfsLookupReply_some hc
      have hreq : srv.Answers (.lookup c.dirfh c.nfsFilename) r := by simpa [hs, reqOf, hid] using hans
      exact h.lookup hs (hreq hok h0)
  | umountReq =>
    simp only [nfsHandler, ne_eq, not_true_eq_false, ↓reduceIte, hs]
    cases hc : nfsUmountallReply r c with
    | none =>
      exact ⟨h.resolves, by simp, by simp, by simp, by simp, by simp, h.finished, by simp⟩
    | some c' =>
      obtain ⟨-, rfl⟩ := nfsUmountallReply_some hc
      exact ⟨h.resolves, by simp [hs], by simp [hs], by simp [hs], by simp [hs], by simp [hs], h.finished,
        fun hd => hd⟩

end

/-! ## Runs -/

section
variable {srv : Server} {loadAddr : Nat} {path name : List UInt8} {c : Client}

theorem nfsReadReply_ids (h : Ids c) (r : Reply) : Ids (nfsReadReply loadAddr r c).2 := by
  rcases nfsReadReply_cases loadAddr r c with ⟨-, -, -, hread⟩ | ⟨-, -, -, -, hread⟩ | hread | hread
  all_goals
    rw [hread]
    exact h

theorem handler_issued (h : Issued c) (dest : Nat) (r : Reply) : Issued (nfsHandler loadAddr dest r c) := by
  by_cases hdest : dest = nfsOurPort
  case neg => simpa [nfsHandler, hdest] using h
  have hids : Ids c := h.ids
  cases hs : c.nfsState with
  | prclookupProgMountReq =>
    obtain ⟨m, n, hc⟩ := rpcLookupReply_getD .mount r c
    simp only [nfsHandler, ne_eq, hdest, not_true_eq_false, ↓reduceIte, hs, hc]
    exact nfsSend_issued hids
  | prclookupProgNfsReq =>
    obtain ⟨m, n, hc⟩ := rpcLookupReply_getD .nfs r c
    simp only [nfsHandler, ne_eq, hdest, not_true_eq_false, ↓reduceIte, hs, hc]
    exact nfsSend_issued hids
  | mountReq =>
    simp only [nfsHandler, ne_eq, hdest, not_true_eq_false, ↓reduceIte, hs]
    cases hc : nfsMountReply r c with
    | none => exact nfsSend_issued hids
    | some c' =>
      obtain ⟨-, -, -, rfl⟩ := nfsMountReply_some hc
      exact nfsSend_issued hids
  | lookupReq =>
    simp only [nfsHandler, ne_eq, hdest, not_true_eq_false, ↓reduceIte, hs]
    cases hc : nfsLookupReply r c with
    | none => exact nfsSend_issued hids
    | some c' =>
      obtain ⟨-, -, -, rfl⟩ := nfsLookupReply_some hc
      exact nfsSend_issued hids
  | readlinkReq =>
    simp only [nfsHandler, ne_eq, hdest, not_true_eq_false, ↓reduceIte, hs]
    cases hc : nfsReadlinkReply r c with
    | none => exact nfsSend_issued hids
    | some c' =>
      obtain ⟨-, -, -, rfl⟩ := nfsReadlinkReply_some hc
      exact nfsSend_issued hids
  | readReq =>
    have hread : Ids (nfsReadReply loadAddr r c).2 := nfsReadReply_ids hids r
    simp only [nfsHandler, ne_eq, hdest, not_true_eq_false, ↓reduceIte, hs]
    split
    next => exact nfsSend_issued hread
    next =>
      split
      next => exact nfsSend_issued hread
      next => exact nfsSend_issued hread
  | umountReq =>
    simp only [nfsHandler, ne_eq, hdest, not_true_eq_false, ↓reduceIte, hs]
    cases hc : nfsUmountallReply r c with
    | none => exact ⟨hids, by simp⟩
    | some c' =>
      obtain ⟨-, rfl⟩ := nfsUmountallReply_some hc
      exact ⟨hids, by simp [hs]⟩

theorem timeout_issued (h : Issued c) : Issued (nfsTimeout c) := by
  simp only [nfsTimeout]
  split
  next => exact ⟨h.ids, h.head⟩
  next => exact nfsSend_issued h.ids

theorem timeout_core (h : Core srv loadAddr path name c) : Core srv loadAddr path name (nfsTimeout c) := by
  simp only [nfsTimeout]
  split
  next =>
    have hc := h.frame (c.timeoutCount + 1) c.timer c.rpcId c.returned c.sent
    have hload : c.nfsState = .readReq → Loading srv loadAddr
        { c with timeoutCount := c.timeoutCount + 1, netState := .restart } :=
      fun hs => ⟨(h.loading hs).nfsLen, (h.loading hs).size, (h.loading hs).file, (h.loading hs).other⟩
    exact ⟨hc.resolves, hc.dirfh, hc.filefh, hc.idle, hload, hc.unfinished, hc.finished, by simp⟩
  next => exact (h.frame (c.timeoutCount + 1) (c.timer + 1) c.rpcId c.returned c.sent).send

/-- One event -/
theorem step_core {e : Event} (hi : Issued c) (hlen : c.sent.length ≤ 2 ^ 32) (h : Core srv loadAddr path name c)
    (hsend : srv.Sends c e) (hend : ¬ FalseEnd c e) : Core srv loadAddr path name (step loadAddr c e) := by
  cases e with
  | timeout =>
    simp only [step]
    split
    next => exact (timeout_core h).frame _ _ _ true _
    next => exact h
  | reply dest r =>
    simp only [step]
    split
    next hrun =>
      refine handler_core h dest (fun hs hid => hi.answers hlen hsend hs hid) ?_
      rintro hs hdest ⟨hid, hfalse⟩
      exact hend ⟨hrun, hdest, hs, hid, hfalse⟩
    next => exact h

theorem step_issued (h : Issued c) (e : Event) : Issued (step loadAddr c e) := by
  cases e with
  | timeout =>
    simp only [step]
    split
    next => exact ⟨(timeout_issued h).ids, (timeout_issued h).head⟩
    next => exact h
  | reply dest r =>
    simp only [step]
    split
    next => exact handler_issued h dest r
    next => exact h

theorem run_core {es : List Event} (hi : Issued c) (h : Core srv loadAddr path name c)
    (hsend : Throughout srv.Sends loadAddr c es)
    (hcond : Throughout (fun c e => c.sent.length ≤ 2 ^ 32 ∧ ¬ FalseEnd c e) loadAddr c es) :
    Core srv loadAddr path name (run loadAddr c es) := by
  induction es generalizing c with
  | nil => exact h
  | cons e es ih =>
    obtain ⟨hsend, hsends⟩ := hsend
    obtain ⟨⟨hlen, hend⟩, hconds⟩ := hcond
    exact ih (step_issued hi e) (step_core hi hlen h hsend hend) hsends hconds

theorem start_core (srv : Server) (loadAddr : Nat) (path name : List UInt8) (c : Client) :
    Core srv loadAddr path name (nfsStart path name c) :=
  Core.send ⟨fun _ h => h, by simp, by simp, fun _ _ => rfl, by simp, fun _ => rfl, by simp, by simp⟩

theorem start_issued (path name : List UInt8) (c : Client) : Issued (nfsStart path name c) :=
  nfsSend_issued (by simp [Ids])

/-! ## Stale replies -/

theorem nfsSend_nfsState (c : Client) : (nfsSend c).nfsState = c.nfsState := by
  obtain ⟨id, sent, hc⟩ := nfsSend_eq c
  rw [hc]

@[simp] theorem goto_nfsState (state : NfsState) (c : Client) : (goto state c).nfsState = state :=
  nfsSend_nfsState _

/-- The parsers return -1, which only the last state does not leave. -/
theorem handler_stale {r : Reply} (hid : r.id ≠ c.rpcId) :
    Unchanged c (nfsHandler loadAddr nfsOurPort r c) ↔ c.nfsState = .umountReq := by
  constructor
  · intro h
    have hstate := h.nfsState
    cases hs : c.nfsState <;>
      simp [nfsHandler, hs, nfsMountReply, nfsLookupReply, nfsReadlinkReply, nfsReadReply, hid] at hstate ⊢
  · intro hs
    simp only [nfsHandler, ne_eq, not_true_eq_false, ↓reduceIte, hs, nfsUmountallReply, hid, not_false_eq_true]
    exact ⟨by simp [hs], rfl, rfl, rfl, rfl, rfl, rfl, rfl, rfl⟩

theorem step_stale {e : Event} (h : Stale c e) : Unchanged c (step loadAddr c e) ↔ c.nfsState = .umountReq := by
  cases e with
  | timeout => exact h.elim
  | reply dest r =>
    obtain ⟨hrun, rfl, hid⟩ := h
    simp only [step, if_pos hrun]
    exact handler_stale hid

theorem throughout_congr {P Q : Client → Event → Prop} (h : ∀ c e, P c e ↔ Q c e) :
    ∀ (c : Client) (es : List Event), Throughout P loadAddr c es ↔ Throughout Q loadAddr c es
  | _, [] => Iff.rfl
  | c, e :: es => and_congr (h c e) (throughout_congr h (step loadAddr c e) es)

end

/-- The client is immune to stale replies as long as they come when it unmounts. What it reports as loaded is the file
unless a read reply is taken for the end of the file, or the ids have come round. -/
theorem stale_harmless_iff (srv : Server) (loadAddr : Nat) (path name : List UInt8) (c : Client) (es : List Event)
    (hsend : Throughout srv.Sends loadAddr (nfsStart path name c) es) :
    (Throughout (fun c e => Stale c e → Unchanged c (step loadAddr c e)) loadAddr (nfsStart path name c) es ↔
      Throughout (fun c e => Stale c e → c.nfsState = .umountReq) loadAddr (nfsStart path name c) es) ∧
    (Throughout (fun c e => c.sent.length ≤ 2 ^ 32 ∧ ¬ FalseEnd c e) loadAddr (nfsStart path name c) es →
      (run loadAddr (nfsStart path name c) es).netState = .success →
        Done srv loadAddr path name (run loadAddr (nfsStart path name c) es)) := by
  constructor
  · exact throughout_congr (fun c e => imp_congr_right fun h => step_stale h) _ _
  · intro hcond hsuccess
    have hcore := run_core (start_issued path name c) (start_core srv loadAddr path name c) hsend hcond
    exact hcore.finished (hcore.success hsuccess)

/-- A server that has one file, of three bytes. -/
def smallServer : Server where
  mount _ := some (Vector.replicate 32 1)
  lookup _ _ := some (Vector.replicate 32 2)
  node _ := .file [7, 8, 9]
  file_lt h := by
    cases h
    decide
  link_ne h := by cases h

def idleClient : Client where
  fsMounted := false
  rpcId := 0
  nfsOffset := 0
  nfsLen := 0
  dirfh := Vector.replicate 32 0
  filefh := Vector.replicate 32 0
  downloadState := .fail
  srvMountPort := 0
  srvNfsPort := 0
  timeoutCount := 0
  timer := 0
  nfsState := .prclookupProgMountReq
  nfsPath := []
  nfsFilename := []
  netState := .fail
  returned := false
  mem := fun _ => 0
  xferSize := 0
  sent := []

/-- A good reply with a handle and the bytes of a block. -/
def goodReply (id : Nat) (fh : Fh) (bytes : List UInt8) : Event :=
  .reply nfsOurPort
    { id := id, rstatus := 0, verifier := 0, astatus := 0, data := fun i => if i = 18 then bytes.length else 0
      fh := fh, text := fun _ => 0, payload := fun i => bytes.getD i 0 }

/-- The replies of the server, in order. -/
def smallTransfer : List Event :=
  [goodReply 1 default [], goodReply 2 default [], goodReply 3 (Vector.replicate 32 1) [],
    goodReply 4 (Vector.replicate 32 2) [], goodReply 5 default [7, 8, 9], goodReply 6 default [],
    goodReply 7 default []]

theorem smallTransfer_sends : Throughout smallServer.Sends 0 (nfsStart [47] [97] idleClient) smallTransfer := by
  refine ⟨fun _ => ⟨_, .head _, trivial⟩, fun _ => ⟨_, .head _, trivial⟩, fun _ => ⟨_, .head _, fun _ _ => rfl⟩,
    fun _ => ⟨_, .head _, fun _ _ => rfl⟩, fun _ => ⟨_, .head _, ?_⟩, fun _ => ⟨_, .head _, ?_⟩,
    fun _ => ⟨_, .head _, trivial⟩, trivial⟩
  · exact ⟨fun _ _ => ⟨[7, 8, 9], rfl, by decide, by decide, by decide, rfl⟩, by decide, fun h => absurd h (by decide)⟩
  · exact ⟨fun _ _ => ⟨[7, 8, 9], rfl, by decide, by decide, by decide, rfl⟩, by decide, fun h => absurd h (by decide)⟩

theorem stale_harmless_iff_example :
    Done smallServer 0 [47] [97] (run 0 (nfsStart [47] [97] idleClient) smallTransfer) := by
  refine (stale_harmless_iff smallServer 0 [47] [97] idleClient smallTransfer smallTransfer_sends).2 ?_ rfl
  refine ⟨⟨by decide, ?_⟩, ⟨by decide, ?_⟩, ⟨by decide, ?_⟩, ⟨by decide, ?_⟩, ⟨by decide, ?_⟩, ⟨by decide, ?_⟩,
    ⟨by decide, ?_⟩, trivial⟩
  all_goals exact fun h => h.2.2.2.2.2.1 rfl

/-- The reply to the first request comes twice. -/
theorem stale_reply_moves_on :
    ¬ ∀ (srv : Server) (loadAddr : Nat) (path name : List UInt8) (c : Client) (es : List Event),
      Throughout srv.Sends loadAddr (nfsStart path name c) es →
        Throughout (fun c e => Stale c e → Unchanged c (step loadAddr c e)) loadAddr (nfsStart path name c) es ∧
        ((run loadAddr (nfsStart path name c) es).netState = .success →
          Done srv loadAddr path name (run loadAddr (nfsStart path name c) es)) := by
  intro h
  have hsends : Throughout smallServer.Sends 0 (nfsStart [47] [97] idleClient)
      [goodReply 1 default [], goodReply 1 default []] :=
    ⟨fun _ => ⟨_, .head _, trivial⟩, fun _ => ⟨_, .tail _ (.head _), trivial⟩, trivial⟩
  obtain ⟨-, hsame, -⟩ := (h smallServer 0 [47] [97] idleClient _ hsends).1
  have hstate := (hsame ⟨by decide, rfl, by decide⟩).nfsState
  revert hstate
  decide

end Uboot.Nfs
