import Uboot.Lib.Bytes

/-!
# The NFS client

`net/nfs.c`. A reply is given by the fields of `struct rpc_t` that are read, the file handle at `data + 1`, and the bytes
of the buffer from `data + 2` and from the end of the header on. The requests sent are kept in a list.
-/

namespace Uboot.Nfs

open Lib

/-- `NFS_FHSIZE` bytes -/
abbrev Fh := Vector UInt8 32

inductive Prog where
  | mount
  | nfs
  deriving DecidableEq

inductive Req where
  | getport (prog : Prog)
  | mount (path : List UInt8)
  | umountall
  | lookup (dirfh : Fh) (fname : List UInt8)
  | read (filefh : Fh) (offset len : Nat)
  | readlink (filefh : Fh)

structure Reply where
  id : Nat
  rstatus : Nat
  verifier : Nat
  astatus : Nat
  data : Nat → Nat
  fh : Fh
  text : Mem
  payload : Mem

inductive NfsState where
  | prclookupProgMountReq
  | prclookupProgNfsReq
  | mountReq
  | umountReq
  | lookupReq
  | readReq
  | readlinkReq
  deriving DecidableEq

/-- `enum net_loop_state` -/
inductive LoopState where
  | continue
  | restart
  | success
  | fail
  deriving DecidableEq

/-- The client, the load area, and the requests sent, the last one first. `timer` counts the calls of `NetSetTimeout`, and
`returned` says that `NetLoop` has returned -1 after a timeout. -/
structure Client where
  fsMounted : Bool
  rpcId : Nat
  nfsOffset : Nat
  nfsLen : Nat
  dirfh : Fh
  filefh : Fh
  downloadState : LoopState
  srvMountPort : Nat
  srvNfsPort : Nat
  timeoutCount : Nat
  timer : Nat
  nfsState : NfsState
  nfsPath : List UInt8
  nfsFilename : List UInt8
  netState : LoopState
  returned : Bool
  mem : Mem
  xferSize : Nat
  sent : List (Nat × Req)

/-- `NFS_READ_SIZE` -/
def nfsReadSize : Nat := 1024

/-- `NfsOurPort` -/
def nfsOurPort : Nat := 1000

/-! ## Requests -/

/-- `rpc_req` -/
def rpcReq (req : Req) (c : Client) : Client :=
  let id := (c.rpcId + 1) % 2 ^ 32
  { c with rpcId := id, sent := (id, req) :: c.sent }

/-- The request of a state. -/
def reqOf (c : Client) : Req :=
  match c.nfsState with
  | .prclookupProgMountReq => .getport .mount
  | .prclookupProgNfsReq => .getport .nfs
  | .mountReq => .mount c.nfsPath
  | .umountReq => .umountall
  | .lookupReq => .lookup c.dirfh c.nfsFilename
  | .readReq => .read c.filefh c.nfsOffset c.nfsLen
  | .readlinkReq => .readlink c.filefh

/-- `NfsSend`. Nothing is sent to unmount when nothing is mounted or the port is -1. -/
def nfsSend (c : Client) : Client :=
  if c.nfsState = .umountReq ∧ (c.srvMountPort = 2 ^ 32 - 1 ∨ ¬ c.fsMounted) then c
  else rpcReq (reqOf c) c

/-- A change of state and `NfsSend`. -/
def goto (state : NfsState) (c : Client) : Client := nfsSend { c with nfsState := state }

/-! ## Replies

The parsers return the client after a good reply, and nothing for the result -1. -/

/-- `reply.rstatus || reply.verifier || reply.astatus` is false. -/
def Reply.Accepted (r : Reply) : Prop := r.rstatus = 0 ∧ r.verifier = 0 ∧ r.astatus = 0

instance (r : Reply) : Decidable r.Accepted := inferInstanceAs (Decidable (_ ∧ _ ∧ _))

def rpcLookupReply (prog : Prog) (r : Reply) (c : Client) : Option Client :=
  if r.id ≠ c.rpcId then none
  else if ¬ r.Accepted then none
  else
    match prog with
    | .mount => some { c with srvMountPort := r.data 0 }
    | .nfs => some { c with srvNfsPort := r.data 0 }

def nfsMountReply (r : Reply) (c : Client) : Option Client :=
  if r.id ≠ c.rpcId then none
  else if ¬ r.Accepted ∨ r.data 0 ≠ 0 then none
  else some { c with fsMounted := true, dirfh := r.fh }

def nfsUmountallReply (r : Reply) (c : Client) : Option Client :=
  if r.id ≠ c.rpcId then none
  else if ¬ r.Accepted then none
  else some { c with fsMounted := false, dirfh := Vector.replicate 32 0 }

def nfsLookupReply (r : Reply) (c : Client) : Option Client :=
  if r.id ≠ c.rpcId then none
  else if ¬ r.Accepted ∨ r.data 0 ≠ 0 then none
  else some { c with filefh := r.fh }

/-- The path that a link leads to, from the directory it is in. The text of the link starts with `first`. -/
def linkPath (dir : List UInt8) (first : UInt8) (text : List UInt8) : List UInt8 :=
  (if first ≠ 47 then dir ++ 47 :: text else text).takeWhile (· ≠ 0)

/-- `basename`, of a path with a slash -/
def basename (path : List UInt8) : List UInt8 := (path.reverse.takeWhile (· ≠ 47)).reverse

/-- `dirname`, of a path with a slash -/
def dirname (path : List UInt8) : List UInt8 := ((path.reverse.dropWhile (· ≠ 47)).drop 1).reverse

def nfsReadlinkReply (r : Reply) (c : Client) : Option Client :=
  if r.id ≠ c.rpcId then none
  else if ¬ r.Accepted ∨ r.data 0 ≠ 0 then none
  else some { c with nfsPath := linkPath c.nfsPath (r.text 0) (r.text.read 0 (r.data 1)) }

/-- A word as an `int` -/
def toInt (n : Int) : Int := n.bmod (2 ^ 32)

/-- `store_block` -/
def storeBlock (loadAddr : Nat) (src : List UInt8) (c : Client) : Client :=
  let newsize := c.nfsOffset + src.length
  { c with
    mem := c.mem.write (loadAddr + c.nfsOffset) src
    xferSize := if c.xferSize < newsize then newsize else c.xferSize }

def nfsReadReply (loadAddr : Nat) (r : Reply) (c : Client) : Int × Client :=
  if r.id ≠ c.rpcId then (-1, c)
  else if ¬ r.Accepted ∨ r.data 0 ≠ 0 then
    if r.rstatus ≠ 0 then (-9999, c)
    else if r.astatus ≠ 0 then (-9999, c)
    else (toInt (-(r.data 0 : Int)), c)
  else (toInt (r.data 18), storeBlock loadAddr (r.payload.read 0 (r.data 18)) c)

/-! ## `NfsHandler` and `NfsTimeout` -/

def nfsHandler (loadAddr dest : Nat) (r : Reply) (c : Client) : Client :=
  if dest ≠ nfsOurPort then c
  else
    match c.nfsState with
    | .prclookupProgMountReq => goto .prclookupProgNfsReq ((rpcLookupReply .mount r c).getD c)
    | .prclookupProgNfsReq => goto .mountReq ((rpcLookupReply .nfs r c).getD c)
    | .mountReq =>
      match nfsMountReply r c with
      | none => goto .umountReq c
      | some c => goto .lookupReq c
    | .umountReq =>
      match nfsUmountallReply r c with
      | none => { c with netState := .fail }
      | some c => { c with netState := c.downloadState }
    | .lookupReq =>
      match nfsLookupReply r c with
      | none => goto .umountReq c
      | some c => goto .readReq { c with nfsOffset := 0, nfsLen := nfsReadSize }
    | .readlinkReq =>
      match nfsReadlinkReply r c with
      | none => goto .umountReq c
      | some c => goto .mountReq { c with nfsFilename := basename c.nfsPath, nfsPath := dirname c.nfsPath }
    | .readReq =>
      let rc := nfsReadReply loadAddr r c
      let rlen := rc.1
      let c := { rc.2 with timer := rc.2.timer + 1 }
      if rlen > 0 then nfsSend { c with nfsOffset := c.nfsOffset + rlen.toNat }
      else if rlen = -21 ∨ rlen = -22 then goto .readlinkReq c
      else goto .umountReq { c with downloadState := if rlen = 0 then .success else c.downloadState }

/-- `NfsTimeout`. After `NFS_RETRY_COUNT` tries the loop starts again. -/
def nfsTimeout (c : Client) : Client :=
  let c := { c with timeoutCount := c.timeoutCount + 1 }
  if c.timeoutCount > 30 then { c with netState := .restart }
  else nfsSend { c with timer := c.timer + 1 }

/-- `NfsStart`, with the path and the name it takes from the boot file; `NetLoop` has reset the size -/
def nfsStart (path filename : List UInt8) (c : Client) : Client :=
  nfsSend
    { c with
      downloadState := .fail
      nfsPath := path
      nfsFilename := filename
      timer := c.timer + 1
      timeoutCount := 0
      nfsState := .prclookupProgMountReq
      netState := .continue
      returned := false
      xferSize := 0
      sent := [] }

/-! ## Runs -/

inductive Event where
  | reply (dest : Nat) (r : Reply)
  | timeout

/-- `NetLoop` goes on. -/
def Client.Running (c : Client) : Prop := c.netState = .continue ∧ c.returned = false

instance (c : Client) : Decidable c.Running := inferInstanceAs (Decidable (_ ∧ _))

/-- What `NetLoop` does with an event. It returns after the call of a timeout handler. -/
def step (loadAddr : Nat) (c : Client) : Event → Client
  | .reply dest r => if c.Running then nfsHandler loadAddr dest r c else c
  | .timeout => if c.Running then { nfsTimeout c with returned := true } else c

def run (loadAddr : Nat) (c : Client) (es : List Event) : Client := es.foldl (step loadAddr) c

end Uboot.Nfs
