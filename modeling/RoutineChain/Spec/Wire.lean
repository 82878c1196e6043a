import RoutineChain.Spec.Consensus
import RoutineChain.Spec.Decode

/-!
# Messages on the wire (`rc-consensus`)

`send_to_peer` writes one frame to a new connection: the length of the encoded message as
four big-endian bytes, then the message. `listen` reads one frame off each connection that
it accepts, and hands on what decodes.

The connection itself, its timeouts and the limit on open connections are left out: a frame
arrives as it was written.
-/

namespace RoutineChain

open Bincode

instance : Serialize ConsensusMessage := ⟨fun
  | .propose block => tag 0 ++ serialize block
  | .sign height sig => tag 1 ++ serialize height ++ serialize sig
  | .requestTxs => tag 2
  | .submitTx tx => tag 3 ++ serialize tx
  | .viewChange height round nodeId =>
    tag 4 ++ serialize height ++ serialize round ++ serialize nodeId
  | .handshake nodeId publicKey listenAddr =>
    tag 5 ++ serialize nodeId ++ serialize publicKey ++ serialize listenAddr⟩

instance : Deserialize ConsensusMessage := ⟨do
  let i : UInt32 ← deserialize
  match i with
  | 0 => return .propose (← deserialize)
  | 1 => return .sign (← deserialize) (← deserialize)
  | 2 => return .requestTxs
  | 3 => return .submitTx (← deserialize)
  | 4 => return .viewChange (← deserialize) (← deserialize) (← deserialize)
  | 5 => return .handshake (← deserialize) (← deserialize) (← deserialize)
  | i => throw (.invalidVariant i)⟩

def ConsensusMessage.Fits : ConsensusMessage → Prop
  | .propose block => block.Fits
  | .submitTx tx => tx.Fits
  | .handshake _ _ listenAddr => listenAddr.utf8ByteSize < 2 ^ 64
  | _ => True

/-! ## Sending -/

/-- The length in front of `data`: the cast `as u32` drops the high bits. -/
def lenPrefix (data : List UInt8) : UInt32 := .ofNat data.length

/-- What `send_to_peer` writes to the stream. -/
def sendToPeer (msg : ConsensusMessage) : List UInt8 :=
  let data := serialize msg
  (leBytes 4 (lenPrefix data).toNat).reverse ++ data

/-! ## Receiving -/

/-- Why `listen` drops a connection. -/
inductive ReadError where
  | unexpectedEof
  | oversizedMessage
  deriving DecidableEq, Repr

/-- The longest message that `listen` reads: 16 MB. -/
def maxMessageLen : ℕ := 16 * 1024 * 1024

/-- `read_exact`: so many bytes, and what follows them. -/
def readExact (n : ℕ) (stream : List UInt8) : Except ReadError (List UInt8 × List UInt8) :=
  if stream.length < n then .error .unexpectedEof else .ok (stream.take n, stream.drop n)

/-- Read one frame. -/
def readFrame (stream : List UInt8) : Except ReadError (List UInt8) := do
  let (lenBuf, stream) ← readExact 4 stream
  let len := leNat lenBuf.reverse
  if len > maxMessageLen then throw .oversizedMessage
  let (buf, _) ← readExact len stream
  return buf

/-- The peer that a message names. -/
def ConsensusMessage.peerId : ConsensusMessage → Id
  | .sign _ sig => sig.nodeId
  | .propose block => block.header.proposer
  | .submitTx tx => tx.sender
  | .requestTxs => 0
  | .viewChange _ _ nodeId => nodeId
  | .handshake nodeId _ _ => nodeId

/-- What `listen` hands to the loop for one connection. -/
def listen (stream : List UInt8) : Option (Id × ConsensusMessage) :=
  match readFrame stream with
  | .error _ => none
  | .ok buf =>
    match fromBytes ConsensusMessage buf with
    | .ok msg => some (msg.peerId, msg)
    | .error _ => none

end RoutineChain
