import Mathlib.Algebra.Group.Nat.Defs

/-!
# Data types (`rc-types`)

The records, transactions, blocks and configuration that the node stores and
exchanges. Fixed-width integers keep their width, so unchecked arithmetic wraps
as it does in a release build. A byte array `[u8; n]` is a bit vector of `8 * n`
bits read big-endian, so the order of byte arrays is the numeric order.
-/

namespace RoutineChain

/-- 32-byte identifier, also the public key of its owner. -/
abbrev Id := BitVec 256

/-- 32-byte blake3 hash. -/
abbrev Hash := BitVec 256

/-- All zeros. -/
def emptyHash : Hash := 0

/-- 64-byte Ed25519 signature. -/
abbrev Signature := BitVec 512

/-! ## Transactions (`transaction.rs`) -/

/-- Participant types across all domains. -/
inductive ParticipantType where
  | seller | buyer | author | contentWork | franchisee | investor | host | influencer | brand
  | agency | serviceProvider | buyerAgent | sellerAgent | matchingAgent | arbiter
  deriving DecidableEq, Repr

/-- `p_type as u8`. -/
def ParticipantType.toU8 : ParticipantType → UInt8
  | .seller => 1 | .buyer => 2 | .author => 10 | .contentWork => 11 | .franchisee => 20
  | .investor => 21 | .host => 22 | .influencer => 30 | .brand => 31 | .agency => 32
  | .serviceProvider => 40 | .buyerAgent => 50 | .sellerAgent => 51 | .matchingAgent => 52
  | .arbiter => 54

/-- Settlement data recorded on-chain. -/
structure SettlementData where
  recordId : Id
  grossAmount : UInt64
  platformFee : UInt64
  netAmount : UInt64
  currency : BitVec 32
  settledAt : Int64
  deriving DecidableEq, Repr

/-- Dispute reasons. -/
inductive DisputeReason where
  | notDelivered | damaged | notAsDescribed | unauthorized | other
  deriving DecidableEq, Repr

/-- `reason as u8`. -/
def DisputeReason.toU8 : DisputeReason → UInt8
  | .notDelivered => 0 | .damaged => 1 | .notAsDescribed => 2 | .unauthorized => 3 | .other => 99

/-- Dispute resolution decisions. -/
inductive DisputeDecision where
  | favorBuyer | favorSeller | split
  deriving DecidableEq, Repr

/-- `decision as u8`. -/
def DisputeDecision.toU8 : DisputeDecision → UInt8
  | .favorBuyer => 0 | .favorSeller => 1 | .split => 2

/-- All transaction types of the system. -/
inductive TxPayload where
  | registerParticipant (id : Id) (pType : ParticipantType) (metadata : String)
  | updateParticipant (id : Id) (metadata : String)
  | deactivateParticipant (id : Id)
  | recordSettlement (participantId : Id) (record : SettlementData)
  | recordRating (participantId : Id) (rating : UInt16) (success : Bool)
  | createEscrow (escrowId buyer seller : Id) (amount : UInt64) (expiresAt : Int64)
  | releaseEscrow (escrowId : Id) (evidenceHash : Hash)
  | refundEscrow (escrowId : Id)
  | raiseDispute (disputeId escrowId : Id) (reason : DisputeReason) (evidenceHash : Hash)
  | submitEvidence (disputeId : Id) (evidenceHash : Hash)
  | voteDispute (disputeId : Id) (decision : DisputeDecision)
  | transferRCW (receiver : Id) (amount : UInt64) (memo : String)
  | spendRCW (amount : UInt64) (purpose : String)
  | anchorMerkleRoot (batchId : Id) (merkleRoot : Hash) (entryCount fromEntryId toEntryId : UInt64)
  deriving DecidableEq, Repr

/-- A signed transaction submitted to the chain. -/
structure Transaction where
  payload : TxPayload
  /-- The sender's public key. -/
  sender : Id
  /-- Ed25519 signature of the serialized payload. -/
  signature : Signature
  timestamp : Int64
  /-- Client-provided nonce for dedup. -/
  nonce : UInt64
  deriving DecidableEq, Repr

/-! ## Blocks (`block.rs`) -/

/-- Block header, hashed to produce the block's identity. -/
structure BlockHeader where
  height : UInt64
  prevHash : Hash
  /-- Unix milliseconds. -/
  timestamp : Int64
  txCount : UInt32
  txHash : Hash
  /-- Hash of the state after applying the block. -/
  stateRoot : Hash
  proposer : Id
  deriving DecidableEq, Repr

/-- A validator's signature on a block. -/
structure NodeSignature where
  nodeId : Id
  signature : Signature
  deriving DecidableEq, Repr

/-- A block of the chain. -/
structure Block where
  header : BlockHeader
  transactions : List Transaction
  signatures : List NodeSignature
  deriving DecidableEq, Repr

/-- The genesis block. -/
def Block.genesis (timestamp : Int64) (proposer : Id) : Block where
  header :=
    { height := 0, prevHash := emptyHash, timestamp, txCount := 0, txHash := emptyHash,
      stateRoot := emptyHash, proposer }
  transactions := []
  signatures := []

def Block.isGenesis (b : Block) : Bool := b.header.height == 0

/-! ## State records (`state.rs`) -/

/-- Participant trust profile stored on-chain. -/
structure Participant where
  id : Id
  pType : UInt8
  metadata : String
  totalTx : UInt64
  successTx : UInt64
  disputeCount : UInt64
  disputeWon : UInt64
  ratingSum : UInt64
  ratingCount : UInt64
  totalVolume : UInt64
  totalSettled : UInt64
  registeredAt : Int64
  lastActivityAt : Int64
  isActive : Bool
  deriving DecidableEq, Repr

/-- RCW token balance. -/
structure RCWBalance where
  owner : Id
  earned : UInt64
  purchased : UInt64
  deriving DecidableEq, Repr

def RCWBalance.total (b : RCWBalance) : UInt64 := b.earned + b.purchased

inductive EscrowState where
  | created | funded | released | refunded | disputed
  deriving DecidableEq, Repr

/-- The `{:?}` form that the error texts of `release` and `refund` print. -/
def EscrowState.debug : EscrowState → String
  | .created => "Created" | .funded => "Funded" | .released => "Released"
  | .refunded => "Refunded" | .disputed => "Disputed"

structure Escrow where
  id : Id
  buyer : Id
  seller : Id
  amount : UInt64
  state : EscrowState
  createdAt : Int64
  expiresAt : Int64
  evidenceHash : Option Hash
  disputeId : Option Id
  deriving DecidableEq, Repr

inductive DisputeState where
  | raised | evidence | voting | resolved
  deriving DecidableEq, Repr

structure DisputeVote where
  voter : Id
  decision : UInt8
  votedAt : Int64
  deriving DecidableEq, Repr

structure Dispute where
  id : Id
  escrowId : Id
  raisedBy : Id
  reason : UInt8
  evidenceHashes : List Hash
  votes : List DisputeVote
  state : DisputeState
  resolution : Option UInt8
  raisedAt : Int64
  resolvedAt : Option Int64
  deriving DecidableEq, Repr

/-- Settlement record stored on-chain. -/
structure SettlementRecord where
  recordId : Id
  participantId : Id
  grossAmount : UInt64
  platformFee : UInt64
  netAmount : UInt64
  currency : BitVec 32
  settledAt : Int64
  recordedAt : Int64
  deriving DecidableEq, Repr

/-- Anchor record of a Merkle root. -/
structure AnchorRecord where
  batchId : Id
  merkleRoot : Hash
  entryCount : UInt64
  fromEntryId : UInt64
  toEntryId : UInt64
  anchoredAt : Int64
  deriving DecidableEq, Repr

/-- `u64::saturating_add`. -/
def satAdd (a b : UInt64) : UInt64 := .ofNat (min (a.toNat + b.toNat) (2 ^ 64 - 1))

/-- `u64::saturating_sub`. -/
def satSub (a b : UInt64) : UInt64 := .ofNat (a.toNat - b.toNat)

/-- **Trust score**, in hundredths of a percent. The sums are `u128` in the source
and stay far below its limit, so they are plain numbers here; the last step is the
narrowing `as u16`. -/
def computeTrustScore (p : Participant) : UInt16 :=
  if p.totalTx = 0 then 0 else
  let totalTx := p.totalTx.toNat
  let successScore := p.successTx.toNat * 10000 / totalTx
  let disputeScore :=
    if p.disputeCount > 0 then 10000 - p.disputeCount.toNat * 10000 / totalTx * 3 else 10000
  let ratingScore :=
    if p.ratingCount > 0 then p.ratingSum.toNat * 2000 / p.ratingCount.toNat else 0
  let volumeScore :=
    if p.totalVolume = 0 then 0
    else if p.totalVolume ≤ 100000 then 2500
    else if p.totalVolume ≤ 1000000 then 5000
    else if p.totalVolume ≤ 10000000 then 7500
    else 10000
  let days : Int64 :=
    if p.lastActivityAt > p.registeredAt then (p.lastActivityAt - p.registeredAt) / 86400 else 0
  let longevityScore :=
    if 0 ≤ days ∧ days ≤ 30 then 2000
    else if 31 ≤ days ∧ days ≤ 90 then 4000
    else if 91 ≤ days ∧ days ≤ 180 then 6000
    else if 181 ≤ days ∧ days ≤ 365 then 8000
    else 10000
  let rawTotal := successScore * 35 + disputeScore * 25 + ratingScore * 20 + volumeScore * 10 +
    longevityScore * 10
  let maturityFactor :=
    if p.totalTx ≤ 9 then 3000 else if p.totalTx ≤ 49 then 6000 else if p.totalTx ≤ 99 then 8000
    else 10000
  .ofNat (rawTotal * maturityFactor / 10000 / 100)

/-- Events emitted by state transitions. -/
inductive Event where
  | participantRegistered (id : Id) (pType : UInt8)
  | participantUpdated (id : Id)
  | participantDeactivated (id : Id)
  | settlementRecorded (participantId recordId : Id)
  | ratingRecorded (participantId : Id) (newScore : UInt16)
  | escrowCreated (escrowId buyer seller : Id) (amount : UInt64)
  | escrowReleased (escrowId : Id)
  | escrowRefunded (escrowId : Id)
  | disputeRaised (disputeId escrowId : Id)
  | disputeResolved (disputeId : Id) (decision : UInt8)
  | rcwMinted (receiver : Id) (amount : UInt64) (reason : String)
  | rcwTransferred (sender receiver : Id) (amount : UInt64)
  | rcwSpent (sender : Id) (amount : UInt64) (purpose : String)
  | anchorRecorded (batchId : Id) (merkleRoot : Hash) (entryCount : UInt64)
  deriving DecidableEq, Repr

/-! ## Configuration (`config.rs`) -/

/-- The rewards that execution pays out. -/
structure RewardConfig where
  settlementRecorded : UInt64
  escrowCompleted : UInt64
  ratingSubmitted : UInt64
  disputeWon : UInt64
  deriving DecidableEq, Repr

/-- The rewards of the default configuration. -/
def RewardConfig.default : RewardConfig :=
  { settlementRecorded := 5, escrowCompleted := 20, ratingSubmitted := 2, disputeWon := 50 }

end RoutineChain
