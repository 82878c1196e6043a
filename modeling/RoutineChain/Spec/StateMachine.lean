import RoutineChain.Spec.Modules

/-!
# The state machine (`rc-state/src/lib.rs`)

* `execute`: one transaction, on the store. The nonce is written before the payload
  runs, and a failing payload keeps what it wrote.
* `applyBlock`: a follower's path, re-executing the transactions of a block.
* `leaderExecute`: a leader's path, executing the drained pool and keeping the
  transactions that succeeded (`start_node`, step 8).
-/

namespace RoutineChain

open Bincode Std

/-- The configuration that a `StateMachine` carries next to its store. -/
structure Params where
  rewards : RewardConfig
  disputeVoteThreshold : ℕ
  platformKeys : List Id

def Params.default : Params :=
  { rewards := .default, disputeVoteThreshold := 3, platformKeys := [] }

/-- The signature covers the payload only. -/
def verifyTxSignature (C : Crypto) (tx : Transaction) : Bool :=
  C.verify (serialize tx.payload) tx.signature tx.sender

/-- Run a computation on the records of a store. -/
def onRecords {α : Type} (x : Exec α) : EStateM String Store α := fun s =>
  match x.run s.records with
  | .ok a r => .ok a { s with records := r }
  | .error e r => .error e { s with records := r }

/-- Validate and increment the nonce, for replay protection. -/
def checkAndUpdateNonce (tx : Transaction) : EStateM String Store Unit := do
  let currentNonce := (← get).getNonce tx.sender
  if tx.nonce ≤ currentNonce then
    throw s!"Nonce too low: got {tx.nonce}, expected > {currentNonce}"
  modify fun s => s.setNonce tx.sender tx.nonce

/-- Anchor a Merkle root; only platform keys may. -/
def anchorMerkleRoot (P : Params) (sender batchId : Id) (merkleRoot : Hash)
    (entryCount fromEntryId toEntryId : UInt64) (timestamp : Int64) : Exec (List Event) := do
  if sender ∉ P.platformKeys then throw "Unauthorized: only platform can anchor"
  if (← getAnchor batchId).isSome then throw "Anchor batch already recorded"
  setAnchor batchId
    { batchId, merkleRoot, entryCount, fromEntryId, toEntryId, anchoredAt := timestamp }
  return [.anchorRecorded batchId merkleRoot entryCount]

/-- Run a payload on the records. -/
def runPayload (P : Params) (sender : Id) (timestamp : Int64) :
    TxPayload → Exec (List Event)
  | .registerParticipant id pType metadata =>
    Participant.register sender id pType metadata timestamp
  | .updateParticipant id metadata => Participant.update sender id metadata timestamp
  | .deactivateParticipant id => Participant.deactivate sender id
  | .recordSettlement participantId record =>
    Settlement.record sender participantId record timestamp P.rewards.settlementRecorded
  | .recordRating participantId rating success =>
    Settlement.recordRating participantId rating success timestamp P.rewards.ratingSubmitted
  | .createEscrow escrowId buyer seller amount expiresAt =>
    Escrow.create sender escrowId buyer seller amount expiresAt timestamp
  | .releaseEscrow escrowId evidenceHash =>
    Escrow.release sender escrowId evidenceHash timestamp P.rewards.escrowCompleted
  | .refundEscrow escrowId => Escrow.refund sender escrowId timestamp
  | .raiseDispute disputeId escrowId reason evidenceHash =>
    Dispute.raise disputeId escrowId sender reason evidenceHash timestamp
  | .submitEvidence disputeId evidenceHash => Dispute.submitEvidence sender disputeId evidenceHash
  | .voteDispute disputeId decision =>
    Dispute.vote disputeId sender decision timestamp P.rewards.disputeWon P.disputeVoteThreshold
  | .transferRCW receiver amount memo => Token.transfer sender receiver amount memo
  | .spendRCW amount purpose => Token.spend sender amount purpose
  | .anchorMerkleRoot batchId merkleRoot entryCount fromEntryId toEntryId =>
    anchorMerkleRoot P sender batchId merkleRoot entryCount fromEntryId toEntryId timestamp

/-- Execute a single transaction, returning its events. -/
def execute (P : Params) (tx : Transaction) (timestamp : Int64) :
    EStateM String Store (List Event) := do
  checkAndUpdateNonce tx
  onRecords (runPayload P tx.sender timestamp tx.payload)

/-! ## A follower's path -/

/-- The loop state of `apply_block`. `ran` and `succeeded` are ghost: the transactions
that `execute` was called on, and those for which it returned events. -/
structure Replay where
  store : Store
  allEvents : List Event := []
  ran : List Transaction := []
  succeeded : List Transaction := []

/-- One turn of the loop of `apply_block`. -/
def applyTx (C : Crypto) (P : Params) (timestamp : Int64) (st : Replay) (tx : Transaction) :
    Replay :=
  -- a transaction that does not verify is skipped
  if !verifyTxSignature C tx then st else
  match (execute P tx timestamp).run st.store with
  | .ok events store =>
    { store, allEvents := st.allEvents ++ events, ran := st.ran ++ [tx],
      succeeded := st.succeeded ++ [tx] }
  | .error _ store => { st with store, ran := st.ran ++ [tx] }

/-- The state of the loop after all transactions of a block. -/
def replayBlock (C : Crypto) (P : Params) (block : Block) (s : Store) : Replay :=
  block.transactions.foldl (applyTx C P block.header.timestamp) { store := s }

/-- Execute all transactions of a block, verifying signatures and the state root, and
store the block. The transactions run on the store itself. -/
def applyBlock (C : Crypto) (P : Params) (block : Block) : EStateM String Store (List Event) :=
  fun s =>
    let replay := replayBlock C P block s
    let computedRoot := computeStateRoot C replay.store
    -- a zero root is not checked
    if block.header.stateRoot ≠ emptyHash ∧ computedRoot ≠ block.header.stateRoot then
      .error
        (s!"State root mismatch at height {block.header.height}: expected " ++
          C.hexEncode ((serialize block.header.stateRoot).take 8) ++ ", computed " ++
          C.hexEncode ((serialize computedRoot).take 8))
        replay.store
    else .ok replay.allEvents (replay.store.putBlock block)

/-! ## A leader's path -/

/-- The loop state of the leader's execution. -/
structure Production where
  store : Store
  allEvents : List Event := []
  validTxs : List Transaction := []
  /-- Ghost: the transactions that were rejected. -/
  rejected : List Transaction := []

/-- One turn of the leader's loop: no signature is checked. -/
def produceTx (P : Params) (timestamp : Int64) (st : Production) (tx : Transaction) :
    Production :=
  match (execute P tx timestamp).run st.store with
  | .ok events store =>
    { st with store, allEvents := st.allEvents ++ events, validTxs := st.validTxs ++ [tx] }
  | .error _ store => { st with store, rejected := st.rejected ++ [tx] }

/-- Execute drained transactions against the state. -/
def leaderExecute (P : Params) (timestamp : Int64) (txs : List Transaction) (s : Store) :
    Production :=
  txs.foldl (produceTx P timestamp) { store := s }

end RoutineChain
