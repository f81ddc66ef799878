import Uboot.Nfs.Basic

/-!
# A server and its replies

The server has files that do not change. Its replies may come late, more than once or in any order, and so may replies
to requests that were not made in this run.
-/

namespace Uboot.Nfs

open Lib

inductive Node where
  | file (bytes : List UInt8)
  | symlink (text : List UInt8)
  | other

structure Server where
  mount : List UInt8 → Option Fh
  lookup : Fh → List UInt8 → Option Fh
  node : Fh → Node
  /-- A file has at most 2 GiB. -/
  file_lt : ∀ {fh bytes}, node fh = .file bytes → bytes.length < 2 ^ 31
  /-- A link is not empty. -/
  link_ne : ∀ {fh text}, node fh = .symlink text → text ≠ []

namespace Server

variable (srv : Server)

/-- The file that a path leads to, through the links on the way. -/
inductive Resolves : List UInt8 → List UInt8 → List UInt8 → Prop where
  | file {path name dirfh filefh bytes} :
      srv.mount path = some dirfh → srv.lookup dirfh name = some filefh → srv.node filefh = .file bytes →
        Resolves path name bytes
  | link {path name dirfh filefh text bytes} :
      srv.mount path = some dirfh → srv.lookup dirfh name = some filefh → srv.node filefh = .symlink text →
        Resolves (dirname (linkPath path (text.headD 0) text)) (basename (linkPath path (text.headD 0) text)) bytes →
          Resolves path name bytes

/-- The reply answers the request. A read may return less than was asked for, but not nothing before the end of the file;
`NFSERR_ISDIR` and `NFSERR_INVAL` mean that there is no file to read. -/
def Answers : Req → Reply → Prop
  | .getport _, _ => True
  | .umountall, _ => True
  | .mount path, r => r.Accepted → r.data 0 = 0 → srv.mount path = some r.fh
  | .lookup dirfh fname, r => r.Accepted → r.data 0 = 0 → srv.lookup dirfh fname = some r.fh
  | .readlink filefh, r =>
      r.Accepted → r.data 0 = 0 →
        ∃ text, srv.node filefh = .symlink text ∧ r.data 1 = text.length ∧ r.text.Holds 0 text
  | .read filefh offset len, r =>
      (r.Accepted → r.data 0 = 0 →
        ∃ bytes, srv.node filefh = .file bytes ∧ r.data 18 ≤ len ∧ r.data 18 ≤ bytes.length - offset ∧
          (r.data 18 = 0 → bytes.length ≤ offset) ∧
          r.payload.read 0 (r.data 18) = (bytes.drop offset).take (r.data 18)) ∧
      r.data 0 < 2 ^ 31 ∧ (r.data 0 = 21 ∨ r.data 0 = 22 → ∀ bytes, srv.node filefh ≠ .file bytes)

/-- A reply with the id of a request is the answer to a request with that id. -/
def Sends (c : Client) : Event → Prop
  | .timeout => True
  | .reply _ r => (∃ req, (r.id, req) ∈ c.sent) → ∃ req, (r.id, req) ∈ c.sent ∧ srv.Answers req r

end Server

/-! ## Steps of a run -/

/-- `P` holds before every event of a run. -/
def Throughout (P : Client → Event → Prop) (loadAddr : Nat) : Client → List Event → Prop
  | _, [] => True
  | c, e :: es => P c e ∧ Throughout P loadAddr (step loadAddr c e) es

/-- A reply that is not to the outstanding request gets to the client. -/
def Stale (c : Client) : Event → Prop
  | .timeout => False
  | .reply dest r => c.Running ∧ dest = nfsOurPort ∧ r.id ≠ c.rpcId

/-- `nfs_read_reply` returns 0 for a reply that is not accepted. -/
def FalseEnd (c : Client) : Event → Prop
  | .timeout => False
  | .reply dest r =>
      c.Running ∧ dest = nfsOurPort ∧ c.nfsState = .readReq ∧ r.id = c.rpcId ∧
        r.rstatus = 0 ∧ r.verifier ≠ 0 ∧ r.astatus = 0 ∧ r.data 0 = 0

/-- `NfsState`, the file handles, the offset, the retry state and the loaded memory. -/
structure Unchanged (c c' : Client) : Prop where
  nfsState : c'.nfsState = c.nfsState
  dirfh : c'.dirfh = c.dirfh
  filefh : c'.filefh = c.filefh
  nfsOffset : c'.nfsOffset = c.nfsOffset
  nfsLen : c'.nfsLen = c.nfsLen
  timeoutCount : c'.timeoutCount = c.timeoutCount
  timer : c'.timer = c.timer
  mem : c'.mem = c.mem
  xferSize : c'.xferSize = c.xferSize

/-- The load area holds the file that was asked for. -/
def Done (srv : Server) (loadAddr : Nat) (path name : List UInt8) (c : Client) : Prop :=
  ∃ bytes, srv.Resolves path name bytes ∧ c.mem.Holds loadAddr bytes ∧ c.xferSize = bytes.length

end Uboot.Nfs
