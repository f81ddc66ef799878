import Uboot.Lib.Chunks
import Uboot.Lib.Fifo
import Uboot.Tftp.Oack

/-!
# Reading a file

A lock-step server and the client exchange packets over two channels that lose and repeat them. The server's
packets are numbered: 0 is the OACK and `i` is block `i` of the file, sent with the number `i` modulo `2 ^ 16`.
-/

namespace Uboot.Tftp

open Uboot.Lib

/-! ## The server -/

/-- The options of the OACK, if the server answers with one. -/
structure Offer where
  opts : Option (List Opt)
  optsOk : ∀ o, opts = some o → OptsOk o

def Offer.blkSize (f : Offer) : Nat := optsBlkSize (f.opts.getD []) tftpBlockSize

structure Server where
  offer : Offer
  blkSize_pos : 0 < offer.blkSize
  file : List UInt8
  port : Nat

namespace Server

def blkSize (srv : Server) : Nat := srv.offer.blkSize

/-- The number of blocks; the last one is short, maybe empty. -/
def count (srv : Server) : Nat := chunkCount srv.file srv.blkSize

/-- The number of the first packet. -/
def first (srv : Server) : Nat := if srv.offer.opts.isSome then 0 else 1

def block (srv : Server) (i : Nat) : List UInt8 := chunk srv.file srv.blkSize (i - 1)

def packet (srv : Server) (q : Nat) : List UInt8 :=
  if q = 0 then be16 6 ++ optsBytes (srv.offer.opts.getD []) else dataPacket q (srv.block q)

end Server

/-! ## The client, the server and the channels -/

structure Net where
  client : Client
  /-- the request has arrived -/
  started : Bool
  /-- the packet that the server sends until it is acknowledged -/
  current : Nat
  toClient : List Nat
  toServer : List (List UInt8)

inductive Act where
  | timeout
  | send
  /-- the oldest packet for the client arrives; `stale` is what follows it in the buffer -/
  | recvClient (stale : List UInt8)
  | recvServer
  | noiseClient (w : Noise)
  | noiseServer (w : Noise)

/-- What a lock-step server does with a packet. -/
def Server.recv (srv : Server) (net : Net) (msg : List UInt8) : Net :=
  if ntohs msg = 1 then { net with started := true }
  else if net.started ∧ ntohs msg = 4 ∧ ntohs (msg.drop 2) = net.current % tftpSequenceSize ∧
      net.current ≤ srv.count then
    { net with current := net.current + 1 }
  else net

def Net.step (srv : Server) (net : Net) : Act → Net
  | .timeout =>
      if net.client.netState = .cont then
        let r := tftpTimeout net.client
        { net with client := r.1, toServer := net.toServer ++ r.2.toList }
      else net
  | .send =>
      if net.started ∧ net.current ≤ srv.count then { net with toClient := net.toClient ++ [net.current] } else net
  | .recvClient stale =>
      match net.toClient with
      | [] => net
      | q :: rest =>
          if net.client.netState = .cont then
            let r := tftpHandler net.client (srv.packet q ++ stale) net.client.tftpOurPort srv.port
              (srv.packet q).length
            { net with client := r.1, toClient := rest, toServer := net.toServer ++ r.2.toList }
          else { net with toClient := rest }
  | .recvServer =>
      match net.toServer with
      | [] => net
      | msg :: rest => srv.recv { net with toServer := rest } msg
  | .noiseClient w => { net with toClient := w.apply net.toClient }
  | .noiseServer w => { net with toServer := w.apply net.toServer }

def Net.run (srv : Server) (net : Net) (acts : List Act) : Net := acts.foldl (Net.step srv) net

/-- After `TftpStart`. -/
def Net.start (srv : Server) (c : Client) (ourPort : Nat) : Net :=
  let r := tftpStart c false 0 ourPort
  ⟨r.1, false, srv.first, [], [r.2]⟩

/-- A client at its start. -/
def idleClient : Client where
  tftpState := .sendRrq
  tftpBlock := 0
  tftpLastBlock := 0
  tftpBlockWrapOffset := 0
  tftpBlkSize := tftpBlockSize
  tftpBlkSizeOption := 1468
  tftpTimeoutCount := 0
  tftpTimeoutCountMax := timeoutCountDefault
  tftpTimeoutMSecs := 1000
  tftpOurPort := 0
  tftpRemotePort := 0
  tftpWriting := false
  tftpFinalBlock := false
  tftpFilename := [102]
  loadAddr := 0x88000000
  saveAddr := 0x88000000
  netBootFileXferSize := 0
  netState := .cont
  mem := fun _ => 0

/-- No block whose number is 0 arrives again. -/
def Net.Sound (net : Net) : Act → Prop
  | .recvClient _ => ∀ q ∈ net.toClient.head?, ¬ (q ≠ 0 ∧ q % tftpSequenceSize = 0 ∧
      net.client.tftpState = .data ∧ net.client.tftpLastBlock = 0)
  | _ => True

/-- Every step of a run is sound. -/
def Net.SoundRun (srv : Server) : Net → List Act → Prop
  | _, [] => True
  | net, act :: acts => net.Sound act ∧ Net.SoundRun srv (net.step srv act) acts

end Uboot.Tftp
