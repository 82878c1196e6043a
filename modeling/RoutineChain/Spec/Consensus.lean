import Mathlib.Data.Finset.Card
import Mathlib.Data.List.Sort
import RoutineChain.Spec.StateMachine

/-!
# Consensus (`rc-consensus`)

The consensus state of a node for a fixed validator set: leader rotation, view change
votes, the check that a follower makes before it signs, and finalization by unique valid
signatures. Sending and receiving are in `Spec/Node.lean`.
-/

namespace RoutineChain

open Bincode

/-- Peer node info. -/
structure Peer where
  id : Id
  address : String
  publicKey : Id
  deriving DecidableEq, Repr

/-- Messages between nodes. -/
inductive ConsensusMessage where
  | propose (block : Block)
  | sign (height : UInt64) (sig : NodeSignature)
  | requestTxs
  | submitTx (tx : Transaction)
  | viewChange (height : UInt64) (round : UInt32) (nodeId : Id)
  | handshake (nodeId publicKey : Id) (listenAddr : String)
  deriving DecidableEq, Repr

/-- The hash of a block header: block identity and `prev_hash`. -/
def blockHeaderHash (C : Crypto) (h : BlockHeader) : Hash := C.hash (serialize h)

/-- `tx_hash` of a list of transactions. -/
def computeTxHash (C : Crypto) (txs : List Transaction) : Hash :=
  if txs.isEmpty then emptyHash else C.hash (serialize txs)

/-- The consensus state. A view change vote set that was never touched is empty. -/
structure Consensus where
  nodeId : Id
  privateKey : BitVec 256
  peers : List Peer
  minSignatures : ℕ
  pendingTxs : List Transaction
  /-- The receiving end of the channel behind `tx_sender()`. -/
  txReceiver : List Transaction
  round : UInt32
  viewChangeVotes : UInt64 → UInt32 → Finset Id

namespace Consensus

def new (nodeId : Id) (privateKey : BitVec 256) (peers : List Peer) (minSignatures : ℕ) :
    Consensus :=
  { nodeId, privateKey, peers, minSignatures, pendingTxs := [], txReceiver := [], round := 0,
    viewChangeVotes := fun _ _ => ∅ }

variable (c : Consensus)

/-! ## The transaction pool -/

def collectPendingTxs : Consensus :=
  { c with pendingTxs := c.pendingTxs ++ c.txReceiver, txReceiver := [] }

def hasPendingTxs : Bool := !c.pendingTxs.isEmpty

def drainPendingTxs : List Transaction × Consensus := (c.pendingTxs, { c with pendingTxs := [] })

def pushTxs (txs : List Transaction) : Consensus := { c with pendingTxs := c.pendingTxs ++ txs }

/-! ## Leader rotation -/

/-- The ids of the peers and of the node itself, sorted. -/
def allNodeIds : List Id := (c.peers.map (·.id) ++ [c.nodeId]).insertionSort (· ≤ ·)

/-- The leader of a height in a round: the sum of both, modulo the number of nodes. -/
def leaderForHeightRound (height : UInt64) (round : UInt32) : Id :=
  let allNodes := c.allNodeIds
  if allNodes.isEmpty then c.nodeId
  else allNodes.getD ((height + round.toUInt64).toNat % allNodes.length) c.nodeId

def leaderForHeight (height : UInt64) : Id := c.leaderForHeightRound height c.round

def isLeader (height : UInt64) : Bool := c.leaderForHeight height == c.nodeId

def isValidProposer (block : Block) : Bool :=
  block.header.proposer == c.leaderForHeight block.header.height

def peerCount : ℕ := c.peers.length

/-- The public key of a peer; none for the node itself and for an unknown id. -/
def getPeerKey (id : Id) : Option Id :=
  if id = c.nodeId then none else (c.peers.find? (·.id == id)).map (·.publicKey)

/-- Add a dynamically discovered peer; true if the peer was new. -/
def addPeer (id publicKey : Id) (address : String) : Bool × Consensus :=
  if id = c.nodeId then (false, c)
  else if c.peers.any (·.id == id) then (false, c)
  else (true, { c with peers := c.peers ++ [{ id, address, publicKey }] })

/-! ## View change -/

/-- Cast `voter`'s vote for `(height, round)`. -/
def addVote (height : UInt64) (round : UInt32) (voter : Id) : Consensus :=
  { c with viewChangeVotes := fun h r =>
      if h = height ∧ r = round then insert voter (c.viewChangeVotes h r)
      else c.viewChangeVotes h r }

/-- Adopt a round and drop the votes for lower heights. -/
def adoptRound (height : UInt64) (round : UInt32) : Consensus :=
  { c with
    round
    viewChangeVotes := fun h r => if h ≥ height then c.viewChangeVotes h r else ∅ }

/-- Simple majority. -/
def threshold : ℕ := c.allNodeIds.length / 2 + 1

/-- Initiate a view change; true if the threshold is reached. -/
def requestViewChange (height : UInt64) : Bool × Consensus :=
  let nextRound := c.round + 1
  let c' := c.addVote height nextRound c.nodeId
  if (c'.viewChangeVotes height nextRound).card ≥ c.threshold then
    (true, c'.adoptRound height nextRound)
  else (false, c')

/-- Process a view change vote of another node; true if the threshold is reached. -/
def receiveViewChange (height : UInt64) (round : UInt32) (voter : Id) : Bool × Consensus :=
  -- the voter is whoever the message names
  let c' := c.addVote height round voter
  if (c'.viewChangeVotes height round).card ≥ c.threshold ∧ round > c.round then
    (true, c'.adoptRound height round)
  else (false, c')

def resetRound : Consensus := { c with round := 0, viewChangeVotes := fun _ _ => ∅ }

/-! ## Signing and finalization -/

variable (C : Crypto)

/-- The signature that a node puts on a header. -/
def signHeader (h : BlockHeader) : NodeSignature :=
  { nodeId := c.nodeId, signature := C.sign (serialize h) c.privateKey }

/-- Verify and sign a proposed block (follower). -/
def verifyAndSign (block : Block) (expectedPrevHash : Hash) : Option NodeSignature := do
  guard (c.isValidProposer block)
  guard (block.header.prevHash = expectedPrevHash)
  let proposerSig ← block.signatures.head?
  -- a signature under an id without a known key is not verified
  let proposerKey :=
    if proposerSig.nodeId = c.nodeId then none else c.getPeerKey proposerSig.nodeId
  if let some key := proposerKey then
    guard (C.verify (serialize block.header) proposerSig.signature key)
  guard (computeTxHash C block.transactions = block.header.txHash)
  return c.signHeader C block.header

/-- The key under which a signature of `id` is checked: the node's own id, or the peer's
key; none for an unknown signer. -/
def signerKey (id : Id) : Option Id := if id = c.nodeId then some c.nodeId else c.getPeerKey id

/-- Verify a node's signature on a block header. -/
def verifyBlockSignature (block : Block) (sig : NodeSignature) : Bool :=
  match c.signerKey sig.nodeId with
  | some key => C.verify (serialize block.header) sig.signature key
  | none => false

/-- One turn of the loop of `is_finalized`: the signer is inserted before the check, and
an unknown signer stays in the set. -/
def countSigner (header : BlockHeader) (uniqueSigners : Finset Id) (sig : NodeSignature) :
    Finset Id :=
  if sig.nodeId ∈ uniqueSigners then uniqueSigners else
  match c.signerKey sig.nodeId with
  | none => insert sig.nodeId uniqueSigners
  | some key =>
    if !C.verify (serialize header) sig.signature key then
      (insert sig.nodeId uniqueSigners).erase sig.nodeId
    else insert sig.nodeId uniqueSigners

/-- Check if the block has enough unique valid signatures to finalize. -/
def isFinalized (block : Block) : Bool :=
  c.minSignatures ≤ (block.signatures.foldl (c.countSigner C block.header) ∅).card

end Consensus

end RoutineChain
