import RoutineChain.Lib.Decode
import RoutineChain.Spec.Encode

/-!
# Decodings of the stored and exchanged types

What `bincode::deserialize` reads for each type: the fields in declaration order, behind
the variant's index for an enum. A signature is read as a vector of bytes, and its length is
checked then.

A string or a vector of the source has a length that a `u64` holds. `Fits` says so of the
values that have one.
-/

namespace RoutineChain

open Bincode

/-! ## Transactions -/

instance : Deserialize ParticipantType := ⟨do
  let i : UInt32 ← deserialize
  match i with
  | 0 => return .seller
  | 1 => return .buyer
  | 2 => return .author
  | 3 => return .contentWork
  | 4 => return .franchisee
  | 5 => return .investor
  | 6 => return .host
  | 7 => return .influencer
  | 8 => return .brand
  | 9 => return .agency
  | 10 => return .serviceProvider
  | 11 => return .buyerAgent
  | 12 => return .sellerAgent
  | 13 => return .matchingAgent
  | 14 => return .arbiter
  | i => throw (.invalidVariant i)⟩

instance : Deserialize DisputeReason := ⟨do
  let i : UInt32 ← deserialize
  match i with
  | 0 => return .notDelivered
  | 1 => return .damaged
  | 2 => return .notAsDescribed
  | 3 => return .unauthorized
  | 4 => return .other
  | i => throw (.invalidVariant i)⟩

instance : Deserialize DisputeDecision := ⟨do
  let i : UInt32 ← deserialize
  match i with
  | 0 => return .favorBuyer
  | 1 => return .favorSeller
  | 2 => return .split
  | i => throw (.invalidVariant i)⟩

instance : Deserialize SettlementData := ⟨do
  let recordId ← deserialize
  let grossAmount ← deserialize
  let platformFee ← deserialize
  let netAmount ← deserialize
  let currency ← deserialize
  let settledAt ← deserialize
  return { recordId, grossAmount, platformFee, netAmount, currency, settledAt }⟩

instance : Deserialize TxPayload := ⟨do
  let i : UInt32 ← deserialize
  match i with
  | 0 => return .registerParticipant (← deserialize) (← deserialize) (← deserialize)
  | 1 => return .updateParticipant (← deserialize) (← deserialize)
  | 2 => return .deactivateParticipant (← deserialize)
  | 3 => return .recordSettlement (← deserialize) (← deserialize)
  | 4 => return .recordRating (← deserialize) (← deserialize) (← deserialize)
  | 5 =>
    return .createEscrow (← deserialize) (← deserialize) (← deserialize) (← deserialize)
      (← deserialize)
  | 6 => return .releaseEscrow (← deserialize) (← deserialize)
  | 7 => return .refundEscrow (← deserialize)
  | 8 =>
    return .raiseDispute (← deserialize) (← deserialize) (← deserialize) (← deserialize)
  | 9 => return .submitEvidence (← deserialize) (← deserialize)
  | 10 => return .voteDispute (← deserialize) (← deserialize)
  | 11 => return .transferRCW (← deserialize) (← deserialize) (← deserialize)
  | 12 => return .spendRCW (← deserialize) (← deserialize)
  | 13 =>
    return .anchorMerkleRoot (← deserialize) (← deserialize) (← deserialize) (← deserialize)
      (← deserialize)
  | i => throw (.invalidVariant i)⟩

/-- The hand-written `Signature` deserializer. -/
def deserializeSignature : Decoder Signature := do
  let bytes : List UInt8 ← deserialize
  if bytes.length ≠ 64 then throw (.custom "Signature must be 64 bytes")
  return .ofNat 512 (leNat bytes.reverse)

instance : Deserialize Transaction := ⟨do
  let payload ← deserialize
  let sender ← deserialize
  let signature ← deserializeSignature
  let timestamp ← deserialize
  let nonce ← deserialize
  return { payload, sender, signature, timestamp, nonce }⟩

def TxPayload.Fits : TxPayload → Prop
  | .registerParticipant _ _ metadata => metadata.utf8ByteSize < 2 ^ 64
  | .updateParticipant _ metadata => metadata.utf8ByteSize < 2 ^ 64
  | .transferRCW _ _ memo => memo.utf8ByteSize < 2 ^ 64
  | .spendRCW _ purpose => purpose.utf8ByteSize < 2 ^ 64
  | _ => True

def Transaction.Fits (tx : Transaction) : Prop := tx.payload.Fits

/-- A vector of transactions. -/
structure TxsFit (txs : List Transaction) : Prop where
  length : txs.length < 2 ^ 64
  each : ∀ tx ∈ txs, tx.Fits

/-! ## Blocks -/

instance : Deserialize BlockHeader := ⟨do
  let height ← deserialize
  let prevHash ← deserialize
  let timestamp ← deserialize
  let txCount ← deserialize
  let txHash ← deserialize
  let stateRoot ← deserialize
  let proposer ← deserialize
  return { height, prevHash, timestamp, txCount, txHash, stateRoot, proposer }⟩

instance : Serialize NodeSignature := ⟨fun sig =>
  serialize sig.nodeId ++ serializeSignature sig.signature⟩

instance : Deserialize NodeSignature := ⟨do
  let nodeId ← deserialize
  let signature ← deserializeSignature
  return { nodeId, signature }⟩

instance : Serialize Block := ⟨fun b =>
  serialize b.header ++ serialize b.transactions ++ serialize b.signatures⟩

instance : Deserialize Block := ⟨do
  let header ← deserialize
  let transactions ← deserialize
  let signatures ← deserialize
  return { header, transactions, signatures }⟩

structure Block.Fits (b : Block) : Prop where
  transactions : TxsFit b.transactions
  signatures : b.signatures.length < 2 ^ 64

/-! ## State records -/

instance : Deserialize Participant := ⟨do
  let id ← deserialize
  let pType ← deserialize
  let metadata ← deserialize
  let totalTx ← deserialize
  let successTx ← deserialize
  let disputeCount ← deserialize
  let disputeWon ← deserialize
  let ratingSum ← deserialize
  let ratingCount ← deserialize
  let totalVolume ← deserialize
  let totalSettled ← deserialize
  let registeredAt ← deserialize
  let lastActivityAt ← deserialize
  let isActive ← deserialize
  return { id, pType, metadata, totalTx, successTx, disputeCount, disputeWon, ratingSum,
           ratingCount, totalVolume, totalSettled, registeredAt, lastActivityAt, isActive }⟩

def Participant.Fits (p : Participant) : Prop := p.metadata.utf8ByteSize < 2 ^ 64

instance : Deserialize RCWBalance := ⟨do
  let owner ← deserialize
  let earned ← deserialize
  let purchased ← deserialize
  return { owner, earned, purchased }⟩

instance : Deserialize EscrowState := ⟨do
  let i : UInt32 ← deserialize
  match i with
  | 0 => return .created
  | 1 => return .funded
  | 2 => return .released
  | 3 => return .refunded
  | 4 => return .disputed
  | i => throw (.invalidVariant i)⟩

instance : Deserialize Escrow := ⟨do
  let id ← deserialize
  let buyer ← deserialize
  let seller ← deserialize
  let amount ← deserialize
  let state ← deserialize
  let createdAt ← deserialize
  let expiresAt ← deserialize
  let evidenceHash ← deserialize
  let disputeId ← deserialize
  return { id, buyer, seller, amount, state, createdAt, expiresAt, evidenceHash, disputeId }⟩

instance : Deserialize DisputeState := ⟨do
  let i : UInt32 ← deserialize
  match i with
  | 0 => return .raised
  | 1 => return .evidence
  | 2 => return .voting
  | 3 => return .resolved
  | i => throw (.invalidVariant i)⟩

instance : Deserialize DisputeVote := ⟨do
  let voter ← deserialize
  let decision ← deserialize
  let votedAt ← deserialize
  return { voter, decision, votedAt }⟩

instance : Deserialize Dispute := ⟨do
  let id ← deserialize
  let escrowId ← deserialize
  let raisedBy ← deserialize
  let reason ← deserialize
  let evidenceHashes ← deserialize
  let votes ← deserialize
  let state ← deserialize
  let resolution ← deserialize
  let raisedAt ← deserialize
  let resolvedAt ← deserialize
  return { id, escrowId, raisedBy, reason, evidenceHashes, votes, state, resolution, raisedAt,
           resolvedAt }⟩

structure Dispute.Fits (d : Dispute) : Prop where
  evidence : d.evidenceHashes.length < 2 ^ 64
  votes : d.votes.length < 2 ^ 64

instance : Deserialize SettlementRecord := ⟨do
  let recordId ← deserialize
  let participantId ← deserialize
  let grossAmount ← deserialize
  let platformFee ← deserialize
  let netAmount ← deserialize
  let currency ← deserialize
  let settledAt ← deserialize
  let recordedAt ← deserialize
  return { recordId, participantId, grossAmount, platformFee, netAmount, currency, settledAt,
           recordedAt }⟩

instance : Deserialize AnchorRecord := ⟨do
  let batchId ← deserialize
  let merkleRoot ← deserialize
  let entryCount ← deserialize
  let fromEntryId ← deserialize
  let toEntryId ← deserialize
  let anchoredAt ← deserialize
  return { batchId, merkleRoot, entryCount, fromEntryId, toEntryId, anchoredAt }⟩

end RoutineChain
