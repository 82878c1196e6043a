import RoutineChain.Spec.Store

/-!
# The modules of the state machine (`rc-state/src/modules`)

Each operation reads and writes the records and either returns events or fails with the
text that the source returns. It runs in `Exec`, which keeps the writes made before a
failure, as the store does. Store I/O and decoding never fail here.
-/

namespace RoutineChain

open Std

/-- A computation on the records that can fail, keeping what it wrote. -/
abbrev Exec := EStateM String Records

section Access

def getParticipant (id : Id) : Exec (Option Participant) := do return (← get).participants[id]?

def setParticipant (id : Id) (p : Participant) : Exec Unit := modify (·.putParticipant id p)

def setSettlement (id : Id) (s : SettlementRecord) : Exec Unit := modify (·.putSettlement id s)

def getBalance (owner : Id) : Exec RCWBalance := do return (← get).balance owner

def setBalance (owner : Id) (b : RCWBalance) : Exec Unit := modify (·.putBalance owner b)

def getEscrow (id : Id) : Exec (Option Escrow) := do return (← get).escrows[id]?

def setEscrow (id : Id) (e : Escrow) : Exec Unit := modify (·.putEscrow id e)

def getDispute (id : Id) : Exec (Option Dispute) := do return (← get).disputes[id]?

def setDispute (id : Id) (d : Dispute) : Exec Unit := modify (·.putDispute id d)

def getAnchor (id : Id) : Exec (Option AnchorRecord) := do return (← get).anchors[id]?

def setAnchor (id : Id) (a : AnchorRecord) : Exec Unit := modify (·.putAnchor id a)

end Access

/-! ## Tokens (`token.rs`) -/

/-- Mint RCW tokens as reward. -/
def Token.mint (receiver : Id) (amount : UInt64) (reason : String) : Exec (List Event) := do
  let balance ← getBalance receiver
  setBalance receiver { balance with earned := balance.earned + amount }
  return [.rcwMinted receiver amount reason]

/-- What `transfer` and `spend` take from a balance that covers `amount`: earned first,
then purchased. -/
def RCWBalance.deduct (b : RCWBalance) (amount : UInt64) : RCWBalance :=
  if b.earned ≥ amount then { b with earned := b.earned - amount }
  else { b with earned := 0, purchased := b.purchased - (amount - b.earned) }

/-- Transfer RCW between participants. -/
def Token.transfer (sender receiver : Id) (amount : UInt64) (_memo : String) :
    Exec (List Event) := do
  if amount = 0 then throw "Amount must be positive"
  let balance ← getBalance sender
  if balance.total < amount then
    throw s!"Insufficient balance: have {balance.total}, need {amount}"
  setBalance sender (balance.deduct amount)
  -- read again: the receiver may be the sender
  let target ← getBalance receiver
  setBalance receiver { target with earned := target.earned + amount }
  return [.rcwTransferred sender receiver amount]

/-- Spend RCW. -/
def Token.spend (sender : Id) (amount : UInt64) (purpose : String) : Exec (List Event) := do
  if amount = 0 then throw "Amount must be positive"
  let balance ← getBalance sender
  if balance.total < amount then
    throw s!"Insufficient balance: have {balance.total}, need {amount}"
  setBalance sender (balance.deduct amount)
  return [.rcwSpent sender amount purpose]

/-! ## Participants (`participant.rs`) -/

def Participant.register (sender id : Id) (pType : ParticipantType) (metadata : String)
    (timestamp : Int64) : Exec (List Event) := do
  if sender ≠ id then throw "Unauthorized: sender must match participant id"
  if (← getParticipant id).isSome then throw "Participant already exists"
  setParticipant id
    { id, pType := pType.toU8, metadata, totalTx := 0, successTx := 0, disputeCount := 0,
      disputeWon := 0, ratingSum := 0, ratingCount := 0, totalVolume := 0, totalSettled := 0,
      registeredAt := timestamp, lastActivityAt := timestamp, isActive := true }
  return [.participantRegistered id pType.toU8]

def Participant.update (sender id : Id) (metadata : String) (timestamp : Int64) :
    Exec (List Event) := do
  if sender ≠ id then throw "Unauthorized: sender must match participant id"
  let some p ← getParticipant id | throw "Participant not found"
  setParticipant id { p with metadata, lastActivityAt := timestamp }
  return [.participantUpdated id]

def Participant.deactivate (sender id : Id) : Exec (List Event) := do
  if sender ≠ id then throw "Unauthorized: sender must match participant id"
  let some p ← getParticipant id | throw "Participant not found"
  setParticipant id { p with isActive := false }
  return [.participantDeactivated id]

/-! ## Settlements (`settlement.rs`) -/

def Settlement.record (sender participantId : Id) (data : SettlementData) (timestamp : Int64)
    (rewardAmount : UInt64) : Exec (List Event) := do
  if sender ≠ participantId then throw "Unauthorized: sender must match participant id"
  let some p ← getParticipant participantId | throw "Participant not found"
  -- an older record under this id is replaced
  setSettlement data.recordId
    { recordId := data.recordId, participantId, grossAmount := data.grossAmount,
      platformFee := data.platformFee, netAmount := data.netAmount, currency := data.currency,
      settledAt := data.settledAt, recordedAt := timestamp }
  setParticipant participantId
    { p with
      totalTx := satAdd p.totalTx 1
      successTx := satAdd p.successTx 1
      totalVolume := satAdd p.totalVolume data.grossAmount
      totalSettled := satAdd p.totalSettled data.netAmount
      lastActivityAt := timestamp }
  let events := [.settlementRecorded participantId data.recordId]
  if rewardAmount > 0 then
    return events ++ (← Token.mint participantId rewardAmount "settlement_reward")
  return events

def Settlement.recordRating (participantId : Id) (rating : UInt16) (success : Bool)
    (timestamp : Int64) (rewardAmount : UInt64) : Exec (List Event) := do
  let some p ← getParticipant participantId | throw "Participant not found"
  let p :=
    if rating > 0 ∧ rating ≤ 500 then
      { p with ratingSum := p.ratingSum + rating.toUInt64, ratingCount := p.ratingCount + 1 }
    else p
  let p := if success then p else { p with totalTx := p.totalTx + 1 }
  let p := { p with lastActivityAt := timestamp }
  setParticipant participantId p
  let events := [.ratingRecorded participantId (computeTrustScore p)]
  if rewardAmount > 0 then
    return events ++ (← Token.mint participantId rewardAmount "rating_reward")
  return events

/-! ## Escrows (`escrow.rs`) -/

def Escrow.create (sender escrowId buyer seller : Id) (amount : UInt64)
    (expiresAt timestamp : Int64) : Exec (List Event) := do
  if sender ≠ buyer then throw "Unauthorized: only buyer can create escrow"
  if (← getEscrow escrowId).isSome then throw "Escrow already exists"
  if (← getParticipant buyer).isNone then throw "Buyer not found"
  if (← getParticipant seller).isNone then throw "Seller not found"
  setEscrow escrowId
    { id := escrowId, buyer, seller, amount, state := .created, createdAt := timestamp,
      expiresAt, evidenceHash := none, disputeId := none }
  return [.escrowCreated escrowId buyer seller amount]

def Escrow.release (sender escrowId : Id) (evidenceHash : Hash) (timestamp : Int64)
    (rewardAmount : UInt64) : Exec (List Event) := do
  let some escrow ← getEscrow escrowId | throw "Escrow not found"
  if sender ≠ escrow.buyer then throw "Unauthorized: only buyer can release escrow"
  if escrow.state ≠ .created ∧ escrow.state ≠ .funded then
    throw s!"Escrow cannot be released in state {escrow.state.debug}"
  if timestamp > escrow.expiresAt then throw "Escrow has expired"
  -- the escrow is written before the lookups that can still fail
  setEscrow escrowId { escrow with state := .released, evidenceHash := some evidenceHash }
  let some buyer ← getParticipant escrow.buyer | throw "Buyer not found"
  setParticipant escrow.buyer
    { buyer with
      totalTx := satAdd buyer.totalTx 1
      successTx := satAdd buyer.successTx 1
      lastActivityAt := timestamp }
  let some seller ← getParticipant escrow.seller | throw "Seller not found"
  setParticipant escrow.seller
    { seller with
      totalTx := satAdd seller.totalTx 1
      successTx := satAdd seller.successTx 1
      totalVolume := satAdd seller.totalVolume escrow.amount
      lastActivityAt := timestamp }
  let events := [.escrowReleased escrowId]
  if rewardAmount > 0 then
    let buyerRewards ← Token.mint escrow.buyer rewardAmount "escrow_complete"
    let sellerRewards ← Token.mint escrow.seller rewardAmount "escrow_complete"
    return events ++ buyerRewards ++ sellerRewards
  return events

def Escrow.refund (sender escrowId : Id) (timestamp : Int64) : Exec (List Event) := do
  let some escrow ← getEscrow escrowId | throw "Escrow not found"
  if sender ≠ escrow.buyer ∧ ¬ timestamp > escrow.expiresAt then
    throw "Unauthorized: only buyer can refund, or escrow must be expired"
  if escrow.state ≠ .created ∧ escrow.state ≠ .funded then
    throw s!"Escrow cannot be refunded in state {escrow.state.debug}"
  setEscrow escrowId { escrow with state := .refunded }
  let some seller ← getParticipant escrow.seller | throw "Seller not found"
  setParticipant escrow.seller
    { seller with totalTx := satAdd seller.totalTx 1, lastActivityAt := timestamp }
  return [.escrowRefunded escrowId]

/-! ## Disputes (`dispute.rs`) -/

def Dispute.raise (disputeId escrowId raisedBy : Id) (reason : DisputeReason)
    (evidenceHash : Hash) (timestamp : Int64) : Exec (List Event) := do
  let some escrow ← getEscrow escrowId | throw "Escrow not found"
  if raisedBy ≠ escrow.buyer ∧ raisedBy ≠ escrow.seller then
    throw "Unauthorized: only escrow buyer or seller can raise dispute"
  if escrow.state = .released ∨ escrow.state = .refunded then throw "Escrow already settled"
  setEscrow escrowId { escrow with state := .disputed, disputeId := some disputeId }
  setDispute disputeId
    { id := disputeId, escrowId, raisedBy, reason := reason.toU8,
      evidenceHashes := [evidenceHash], votes := [], state := .raised, resolution := none,
      raisedAt := timestamp, resolvedAt := none }
  -- a party that is not registered has no count
  let otherParty := if raisedBy = escrow.buyer then escrow.seller else escrow.buyer
  if let some p ← getParticipant otherParty then
    setParticipant otherParty { p with disputeCount := satAdd p.disputeCount 1 }
  return [.disputeRaised disputeId escrowId]

def Dispute.submitEvidence (sender disputeId : Id) (evidenceHash : Hash) :
    Exec (List Event) := do
  let some dispute ← getDispute disputeId | throw "Dispute not found"
  let some escrow ← getEscrow dispute.escrowId | throw "Escrow not found"
  if sender ≠ escrow.buyer ∧ sender ≠ escrow.seller then
    throw "Unauthorized: only escrow parties can submit evidence"
  if dispute.state ≠ .raised ∧ dispute.state ≠ .evidence then
    throw "Dispute not in evidence phase"
  setDispute disputeId
    { dispute with
      state := .evidence
      evidenceHashes := dispute.evidenceHashes ++ [evidenceHash] }
  return []

/-- One vote of the tally: a split vote counts for both sides. -/
def tallyVote (tally : UInt32 × UInt32) (v : DisputeVote) : UInt32 × UInt32 :=
  let (favorBuyer, favorSeller) := tally
  match v.decision with
  | 0 => (favorBuyer + 1, favorSeller)
  | 1 => (favorBuyer, favorSeller + 1)
  | 2 => (favorBuyer + 1, favorSeller + 1)
  | _ => tally

/-- The resolution that a tally gives: buyer, seller, or split on a tie. -/
def resolutionOf (votes : List DisputeVote) : UInt8 :=
  let (favorBuyer, favorSeller) := votes.foldl tallyVote (0, 0)
  if favorBuyer > favorSeller then 0 else if favorSeller > favorBuyer then 1 else 2

/-- The resolving part of `vote`: statistics of both parties and the winner's reward. -/
def Dispute.resolve (dispute : Dispute) (resolution : UInt8) (disputeWonReward : UInt64) :
    Exec (List Event) := do
  let some escrow ← getEscrow dispute.escrowId | throw "Escrow not found"
  if resolution = 2 then return []
  let winner := if resolution = 0 then escrow.buyer else escrow.seller
  let loser := if resolution = 0 then escrow.seller else escrow.buyer
  if let some p ← getParticipant winner then
    setParticipant winner
      { p with
        disputeWon := satAdd p.disputeWon 1
        disputeCount :=
          if dispute.raisedBy ≠ winner then satSub p.disputeCount 1 else p.disputeCount }
  if let some p ← getParticipant loser then
    let penalty := if dispute.raisedBy = loser then 2 else 1
    setParticipant loser { p with disputeCount := satAdd p.disputeCount penalty }
  if disputeWonReward > 0 then
    return ← Token.mint winner disputeWonReward "dispute_won"
  return []

def Dispute.vote (disputeId voter : Id) (decision : DisputeDecision) (timestamp : Int64)
    (disputeWonReward : UInt64) (voteThreshold : ℕ) : Exec (List Event) := do
  let some dispute ← getDispute disputeId | throw "Dispute not found"
  let some voterParticipant ← getParticipant voter | throw "Voter not registered as participant"
  if voterParticipant.pType ≠ ParticipantType.arbiter.toU8 then
    throw "Unauthorized: only Arbiter participants can vote on disputes"
  -- the first vote opens the voting phase
  let state :=
    if dispute.state = .raised ∨ dispute.state = .evidence then .voting else dispute.state
  if state ≠ .voting then throw "Dispute not in voting phase"
  if dispute.votes.any fun v => v.voter = voter then throw "Already voted"
  let dispute :=
    { dispute with
      state
      votes := dispute.votes ++ [{ voter, decision := decision.toU8, votedAt := timestamp }] }
  if dispute.votes.length ≥ voteThreshold then
    let resolution := resolutionOf dispute.votes
    let events ← Dispute.resolve dispute resolution disputeWonReward
    setDispute disputeId
      { dispute with
        state := .resolved, resolution := some resolution, resolvedAt := some timestamp }
    return events ++ [.disputeResolved disputeId resolution]
  setDispute disputeId dispute
  return []

end RoutineChain
