import RoutineChain.Lib.Bincode
import RoutineChain.Spec.Types

/-!
# Encodings of the stored and signed types

What `bincode::serialize` returns for each type that is hashed, signed or stored:
the fields in declaration order, behind the variant's index for an enum. A
signature is written as a byte slice, so with its length.
-/

namespace RoutineChain

open Bincode

/-- The position of a variant in the enum's declaration. -/
def ParticipantType.index : ParticipantType → UInt32
  | .seller => 0 | .buyer => 1 | .author => 2 | .contentWork => 3 | .franchisee => 4
  | .investor => 5 | .host => 6 | .influencer => 7 | .brand => 8 | .agency => 9
  | .serviceProvider => 10 | .buyerAgent => 11 | .sellerAgent => 12 | .matchingAgent => 13
  | .arbiter => 14

instance : Serialize ParticipantType := ⟨fun t => tag t.index⟩

instance : Serialize DisputeReason := ⟨fun
  | .notDelivered => tag 0 | .damaged => tag 1 | .notAsDescribed => tag 2
  | .unauthorized => tag 3 | .other => tag 4⟩

instance : Serialize DisputeDecision := ⟨fun
  | .favorBuyer => tag 0 | .favorSeller => tag 1 | .split => tag 2⟩

instance : Serialize EscrowState := ⟨fun
  | .created => tag 0 | .funded => tag 1 | .released => tag 2 | .refunded => tag 3
  | .disputed => tag 4⟩

instance : Serialize DisputeState := ⟨fun
  | .raised => tag 0 | .evidence => tag 1 | .voting => tag 2 | .resolved => tag 3⟩

instance : Serialize SettlementData := ⟨fun d =>
  serialize d.recordId ++ serialize d.grossAmount ++ serialize d.platformFee ++
    serialize d.netAmount ++ serialize d.currency ++ serialize d.settledAt⟩

instance : Serialize TxPayload := ⟨fun
  | .registerParticipant id pType metadata =>
    tag 0 ++ serialize id ++ serialize pType ++ serialize metadata
  | .updateParticipant id metadata => tag 1 ++ serialize id ++ serialize metadata
  | .deactivateParticipant id => tag 2 ++ serialize id
  | .recordSettlement participantId record =>
    tag 3 ++ serialize participantId ++ serialize record
  | .recordRating participantId rating success =>
    tag 4 ++ serialize participantId ++ serialize rating ++ serialize success
  | .createEscrow escrowId buyer seller amount expiresAt =>
    tag 5 ++ serialize escrowId ++ serialize buyer ++ serialize seller ++ serialize amount ++
      serialize expiresAt
  | .releaseEscrow escrowId evidenceHash => tag 6 ++ serialize escrowId ++ serialize evidenceHash
  | .refundEscrow escrowId => tag 7 ++ serialize escrowId
  | .raiseDispute disputeId escrowId reason evidenceHash =>
    tag 8 ++ serialize disputeId ++ serialize escrowId ++ serialize reason ++
      serialize evidenceHash
  | .submitEvidence disputeId evidenceHash =>
    tag 9 ++ serialize disputeId ++ serialize evidenceHash
  | .voteDispute disputeId decision => tag 10 ++ serialize disputeId ++ serialize decision
  | .transferRCW receiver amount memo =>
    tag 11 ++ serialize receiver ++ serialize amount ++ serialize memo
  | .spendRCW amount purpose => tag 12 ++ serialize amount ++ serialize purpose
  | .anchorMerkleRoot batchId merkleRoot entryCount fromEntryId toEntryId =>
    tag 13 ++ serialize batchId ++ serialize merkleRoot ++ serialize entryCount ++
      serialize fromEntryId ++ serialize toEntryId⟩

/-- The hand-written `Signature` serializer: `serialize_bytes`. -/
def serializeSignature (s : Signature) : List UInt8 := bytes (serialize s)

instance : Serialize Transaction := ⟨fun tx =>
  serialize tx.payload ++ serialize tx.sender ++ serializeSignature tx.signature ++
    serialize tx.timestamp ++ serialize tx.nonce⟩

instance : Serialize BlockHeader := ⟨fun h =>
  serialize h.height ++ serialize h.prevHash ++ serialize h.timestamp ++ serialize h.txCount ++
    serialize h.txHash ++ serialize h.stateRoot ++ serialize h.proposer⟩

instance : Serialize Participant := ⟨fun p =>
  serialize p.id ++ serialize p.pType ++ serialize p.metadata ++ serialize p.totalTx ++
    serialize p.successTx ++ serialize p.disputeCount ++ serialize p.disputeWon ++
    serialize p.ratingSum ++ serialize p.ratingCount ++ serialize p.totalVolume ++
    serialize p.totalSettled ++ serialize p.registeredAt ++ serialize p.lastActivityAt ++
    serialize p.isActive⟩

instance : Serialize RCWBalance := ⟨fun b =>
  serialize b.owner ++ serialize b.earned ++ serialize b.purchased⟩

instance : Serialize Escrow := ⟨fun e =>
  serialize e.id ++ serialize e.buyer ++ serialize e.seller ++ serialize e.amount ++
    serialize e.state ++ serialize e.createdAt ++ serialize e.expiresAt ++
    serialize e.evidenceHash ++ serialize e.disputeId⟩

instance : Serialize DisputeVote := ⟨fun v =>
  serialize v.voter ++ serialize v.decision ++ serialize v.votedAt⟩

instance : Serialize Dispute := ⟨fun d =>
  serialize d.id ++ serialize d.escrowId ++ serialize d.raisedBy ++ serialize d.reason ++
    serialize d.evidenceHashes ++ serialize d.votes ++ serialize d.state ++
    serialize d.resolution ++ serialize d.raisedAt ++ serialize d.resolvedAt⟩

instance : Serialize SettlementRecord := ⟨fun r =>
  serialize r.recordId ++ serialize r.participantId ++ serialize r.grossAmount ++
    serialize r.platformFee ++ serialize r.netAmount ++ serialize r.currency ++
    serialize r.settledAt ++ serialize r.recordedAt⟩

instance : Serialize AnchorRecord := ⟨fun a =>
  serialize a.batchId ++ serialize a.merkleRoot ++ serialize a.entryCount ++
    serialize a.fromEntryId ++ serialize a.toEntryId ++ serialize a.anchoredAt⟩

end RoutineChain
