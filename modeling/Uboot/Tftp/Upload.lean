import Uboot.Tftp.Download

/-!
# Writing a file

The server of an upload accepts the blocks in sequence. Its packets are numbered by what they acknowledge: 0 is the
answer to the request, an OACK or the ACK of block 0, and `i` is the ACK of block `i`.
-/

namespace Uboot.Tftp

open Uboot.Lib

/-! ## The server -/

structure Sink where
  offer : Offer
  blkSize_pos : 0 < offer.blkSize
  port : Nat

namespace Sink

def blkSize (snk : Sink) : Nat := snk.offer.blkSize

/-- Packet `q` is an OACK. -/
def isOack (snk : Sink) (q : Nat) : Bool := q = 0 ∧ snk.offer.opts.isSome

def packet (snk : Sink) (q : Nat) : List UInt8 :=
  if snk.isOack q then be16 6 ++ optsBytes (snk.offer.opts.getD []) else ackPacket q

end Sink

/-! ## The client, the server and the channels -/

structure PutNet where
  client : Client
  /-- the request has arrived -/
  started : Bool
  /-- the blocks that the server has accepted -/
  accepted : Nat
  /-- their payloads -/
  received : List UInt8
  /-- a short block has been accepted -/
  finished : Bool
  /-- the last block that the server has acknowledged -/
  acked : Nat
  toClient : List Nat
  toServer : List (List UInt8)

/-- What the server does with a packet. -/
def Sink.recv (snk : Sink) (net : PutNet) (msg : List UInt8) : PutNet :=
  if ntohs msg = 2 then { net with started := true }
  else if net.started ∧ ntohs msg = 3 ∧ ntohs (msg.drop 2) = (net.accepted + 1) % tftpSequenceSize ∧
      net.finished = false then
    { net with
      accepted := net.accepted + 1
      received := net.received ++ msg.drop 4
      finished := (msg.drop 4).length < snk.blkSize }
  else net

def PutNet.step (snk : Sink) (net : PutNet) : Act → PutNet
  | .timeout =>
      if net.client.netState = .cont then
        let r := tftpTimeout net.client
        { net with client := r.1, toServer := net.toServer ++ r.2.toList }
      else net
  | .send =>
      if net.started then { net with acked := net.accepted, toClient := net.toClient ++ [net.accepted] } else net
  | .recvClient stale =>
      match net.toClient with
      | [] => net
      | q :: rest =>
          if net.client.netState = .cont then
            let r := tftpHandler net.client (snk.packet q ++ stale) net.client.tftpOurPort snk.port
              (snk.packet q).length
            { net with client := r.1, toClient := rest, toServer := net.toServer ++ r.2.toList }
          else { net with toClient := rest }
  | .recvServer =>
      match net.toServer with
      | [] => net
      | msg :: rest => snk.recv { net with toServer := rest } msg
  | .noiseClient w => { net with toClient := w.apply net.toClient }
  | .noiseServer w => { net with toServer := w.apply net.toServer }

def PutNet.run (snk : Sink) (net : PutNet) (acts : List Act) : PutNet := acts.foldl (PutNet.step snk) net

/-- After `TftpStart` for `size` bytes. -/
def PutNet.start (c : Client) (size ourPort : Nat) : PutNet :=
  let r := tftpStart c true size ourPort
  ⟨r.1, false, 0, [], false, 0, [], [r.2]⟩

/-- The OACK arrives once. Of the ACKs, the one before block 65536 (131072, ...) does not arrive again when that block
is on its way, and only the ACK of the final block arrives after the final block is sent. -/
def PutNet.Sound (snk : Sink) (net : PutNet) : Act → Prop
  | .recvClient _ => ∀ q ∈ net.toClient.head?,
      if snk.isOack q then net.client.tftpState = .sendWrq
      else if net.client.tftpFinalBlock then q % tftpSequenceSize = net.client.tftpBlock
      else ¬ (q % tftpSequenceSize = 65535 ∧ net.client.tftpBlock = 0)
  | _ => True

/-- Every step of a run is sound. -/
def PutNet.SoundRun (snk : Sink) : PutNet → List Act → Prop
  | _, [] => True
  | net, act :: acts => net.Sound snk act ∧ PutNet.SoundRun snk (net.step snk act) acts

end Uboot.Tftp
