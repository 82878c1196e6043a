import Mathlib.Algebra.Group.Int.Defs
import RoutineChain.Spec.StateMachine

/-!
# The state machine with overflow checks

A release build wraps where a plain operator exceeds its type, a debug build panics. The
modules of `Spec.Modules` are those of a release build. Here are, as a debug build runs them,
`execute` and the functions under it that compute with plain operators or call one that does.
The other functions saturate or do not compute, and are the same in both builds.
-/

namespace RoutineChain

/-- How a debug build stops: with the error that the source returns, or in a panic. -/
inductive Halt
  | failed (text : String)
  | overflow
  deriving DecidableEq, Repr

/-- A computation of a debug build on the records. -/
abbrev DebugExec := EStateM Halt Records

/-- What is the same in both builds. -/
instance {σ : Type} : MonadLift (EStateM String σ) (EStateM Halt σ) :=
  ⟨EStateM.adaptExcept .failed⟩

namespace Debug

/-! ## Plain operators -/

section Operators

variable {σ : Type}

/-- `+` on `u64`. -/
def addU64 (a b : UInt64) : EStateM Halt σ UInt64 :=
  if a.toNat + b.toNat < 2 ^ 64 then return a + b else throw .overflow

/-- `-` on `u64`. -/
def subU64 (a b : UInt64) : EStateM Halt σ UInt64 :=
  if b.toNat ≤ a.toNat then return a - b else throw .overflow

/-- `+` on `u32`. -/
def addU32 (a b : UInt32) : EStateM Halt σ UInt32 :=
  if a.toNat + b.toNat < 2 ^ 32 then return a + b else throw .overflow

/-- `-` on `i64`. -/
def subI64 (a b : Int64) : EStateM Halt σ Int64 :=
  if -2 ^ 63 ≤ a.toInt - b.toInt ∧ a.toInt - b.toInt < 2 ^ 63 then return a - b
  else throw .overflow

/-- The result of `+` or `*` on `u128`. -/
def u128 (n : ℕ) : EStateM Halt σ ℕ := if n < 2 ^ 128 then return n else throw .overflow

end Operators

/-! ## Types (`rc-types`) -/

def RCWBalance.total (b : RCWBalance) : DebugExec UInt64 := addU64 b.earned b.purchased

/-- The dispute score of `compute_trust_score`. -/
def disputeScore (p : Participant) : DebugExec ℕ := do
  if p.disputeCount > 0 then
    let rate := (← u128 (p.disputeCount.toNat * 10000)) / p.totalTx.toNat
    return 10000 - (← u128 (rate * 3))
  return 10000

/-- Its rating score. -/
def ratingScore (p : Participant) : DebugExec ℕ := do
  if p.ratingCount > 0 then
    return (← u128 (p.ratingSum.toNat * 2000)) / p.ratingCount.toNat
  return 0

/-- Its days of activity. -/
def activeDays (p : Participant) : DebugExec Int64 := do
  if p.lastActivityAt > p.registeredAt then
    return (← subI64 p.lastActivityAt p.registeredAt) / 86400
  return 0

def computeTrustScore (p : Participant) : DebugExec UInt16 := do
  if p.totalTx = 0 then return 0
  let successScore := (← u128 (p.successTx.toNat * 10000)) / p.totalTx.toNat
  let disputeScore ← disputeScore p
  let ratingScore ← ratingScore p
  let volumeScore :=
    if p.totalVolume = 0 then 0
    else if p.totalVolume ≤ 100000 then 2500
    else if p.totalVolume ≤ 1000000 then 5000
    else if p.totalVolume ≤ 10000000 then 7500
    else 10000
  let days ← activeDays p
  let longevityScore :=
    if 0 ≤ days ∧ days ≤ 30 then 2000
    else if 31 ≤ days ∧ days ≤ 90 then 4000
    else if 91 ≤ days ∧ days ≤ 180 then 6000
    else if 181 ≤ days ∧ days ≤ 365 then 8000
    else 10000
  let success ← u128 (successScore * 35)
  let dispute ← u128 (disputeScore * 25)
  let rating ← u128 (ratingScore * 20)
  let volume ← u128 (volumeScore * 10)
  let longevity ← u128 (longevityScore * 10)
  let rawTotal ← u128 ((← u128 ((← u128 ((← u128 (success + dispute)) + rating)) + volume)) +
    longevity)
  let maturityFactor :=
    if p.totalTx ≤ 9 then 3000 else if p.totalTx ≤ 49 then 6000 else if p.totalTx ≤ 99 then 8000
    else 10000
  return .ofNat ((← u128 (rawTotal * maturityFactor)) / 10000 / 100)

/-! ## Tokens -/

def Token.mint (receiver : Id) (amount : UInt64) (reason : String) : DebugExec (List Event) := do
  let balance ← getBalance receiver
  setBalance receiver { balance with earned := ← addU64 balance.earned amount }
  return [.rcwMinted receiver amount reason]

def RCWBalance.deduct (b : RCWBalance) (amount : UInt64) : DebugExec RCWBalance := do
  if b.earned ≥ amount then return { b with earned := ← subU64 b.earned amount }
  let remaining ← subU64 amount b.earned
  return { b with earned := 0, purchased := ← subU64 b.purchased remaining }

def Token.transfer (sender receiver : Id) (amount : UInt64) (_memo : String) :
    DebugExec (List Event) := do
  if amount = 0 then throw (.failed "Amount must be positive")
  let balance ← getBalance sender
  if (← RCWBalance.total balance) < amount then
    let total ← RCWBalance.total balance
    throw (.failed s!"Insufficient balance: have {total}, need {amount}")
  setBalance sender (← RCWBalance.deduct balance amount)
  let target ← getBalance receiver
  setBalance receiver { target with earned := ← addU64 target.earned amount }
  return [.rcwTransferred sender receiver amount]

def Token.spend (sender : Id) (amount : UInt64) (purpose : String) : DebugExec (List Event) := do
  if amount = 0 then throw (.failed "Amount must be positive")
  let balance ← getBalance sender
  if (← RCWBalance.total balance) < amount then
    let total ← RCWBalance.total balance
    throw (.failed s!"Insufficient balance: have {total}, need {amount}")
  setBalance sender (← RCWBalance.deduct balance amount)
  return [.rcwSpent sender amount purpose]

/-! ## Settlements -/

def Settlement.record (sender participantId : Id) (data : SettlementData) (timestamp : Int64)
    (rewardAmount : UInt64) : DebugExec (List Event) := do
  if sender ≠ participantId then
    throw (.failed "Unauthorized: sender must match participant id")
  let some p ← getParticipant participantId | throw (.failed "Participant not found")
  setSettlement data.recordId
    { recordId := data.recordId, participantId, grossAmount := data.grossAmount,
      platformFee := data.platformFee, netAmount := data.netAmount, currency := data.currency,
      settledAt := data.settledAt, recordedAt := timestamp }
  setParticipant participantId
    { p with
      totalTx := satAdd p.totalTx 1
      successTx := satAdd p.successTx 1
      totalVolume := satAdd p.totalVolume data.grossAmount
      totalSettled := satAdd p.totalSettled data.netAmount
      lastActivityAt := timestamp }
  let events := [.settlementRecorded participantId data.recordId]
  if rewardAmount > 0 then
    return events ++ (← Token.mint participantId rewardAmount "settlement_reward")
  return events

/-- The participant that `record_rating` writes. -/
def Participant.rated (p : Participant) (rating : UInt16) (success : Bool) (timestamp : Int64) :
    DebugExec Participant := do
  let mut p := p
  if rating > 0 ∧ rating ≤ 500 then
    let ratingSum ← addU64 p.ratingSum rating.toUInt64
    let ratingCount ← addU64 p.ratingCount 1
    p := { p with ratingSum, ratingCount }
  if !success then
    p := { p with totalTx := ← addU64 p.totalTx 1 }
  return { p with lastActivityAt := timestamp }

def Settlement.recordRating (participantId : Id) (rating : UInt16) (success : Bool)
    (timestamp : Int64) (rewardAmount : UInt64) : DebugExec (List Event) := do
  let some p ← getParticipant participantId | throw (.failed "Participant not found")
  let p ← Participant.rated p rating success timestamp
  setParticipant participantId p
  let events := [.ratingRecorded participantId (← computeTrustScore p)]
  if rewardAmount > 0 then
    return events ++ (← Token.mint participantId rewardAmount "rating_reward")
  return events

/-! ## Escrows -/

def Escrow.release (sender escrowId : Id) (evidenceHash : Hash) (timestamp : Int64)
    (rewardAmount : UInt64) : DebugExec (List Event) := do
  let some escrow ← getEscrow escrowId | throw (.failed "Escrow not found")
  if sender ≠ escrow.buyer then
    throw (.failed "Unauthorized: only buyer can release escrow")
  if escrow.state ≠ .created ∧ escrow.state ≠ .funded then
    throw (.failed s!"Escrow cannot be released in state {escrow.state.debug}")
  if timestamp > escrow.expiresAt then throw (.failed "Escrow has expired")
  setEscrow escrowId { escrow with state := .released, evidenceHash := some evidenceHash }
  let some buyer ← getParticipant escrow.buyer | throw (.failed "Buyer not found")
  setParticipant escrow.buyer
    { buyer with
      totalTx := satAdd buyer.totalTx 1
      successTx := satAdd buyer.successTx 1
      lastActivityAt := timestamp }
  let some seller ← getParticipant escrow.seller | throw (.failed "Seller not found")
  setParticipant escrow.seller
    { seller with
      totalTx := satAdd seller.totalTx 1
      successTx := satAdd seller.successTx 1
      totalVolume := satAdd seller.totalVolume escrow.amount
      lastActivityAt := timestamp }
  let events := [.escrowReleased escrowId]
  if rewardAmount > 0 then
    let buyerRewards ← Token.mint escrow.buyer rewardAmount "escrow_complete"
    let sellerRewards ← Token.mint escrow.seller rewardAmount "escrow_complete"
    return events ++ buyerRewards ++ sellerRewards
  return events

/-! ## Disputes -/

def tallyVote (tally : UInt32 × UInt32) (v : DisputeVote) : DebugExec (UInt32 × UInt32) := do
  let (favorBuyer, favorSeller) := tally
  match v.decision with
  | 0 => return (← addU32 favorBuyer 1, favorSeller)
  | 1 => return (favorBuyer, ← addU32 favorSeller 1)
  | 2 => return (← addU32 favorBuyer 1, ← addU32 favorSeller 1)
  | _ => return tally

def resolutionOf (votes : List DisputeVote) : DebugExec UInt8 := do
  let (favorBuyer, favorSeller) ← votes.foldlM tallyVote (0, 0)
  return if favorBuyer > favorSeller then 0 else if favorSeller > favorBuyer then 1 else 2

def Dispute.resolve (dispute : Dispute) (resolution : UInt8) (disputeWonReward : UInt64) :
    DebugExec (List Event) := do
  let some escrow ← getEscrow dispute.escrowId | throw (.failed "Escrow not found")
  if resolution = 2 then return []
  let winner := if resolution = 0 then escrow.buyer else escrow.seller
  let loser := if resolution = 0 then escrow.seller else escrow.buyer
  if let some p ← getParticipant winner then
    setParticipant winner
      { p with
        disputeWon := satAdd p.disputeWon 1
        disputeCount :=
          if dispute.raisedBy ≠ winner then satSub p.disputeCount 1 else p.disputeCount }
  if let some p ← getParticipant loser then
    let penalty := if dispute.raisedBy = loser then 2 else 1
    setParticipant loser { p with disputeCount := satAdd p.disputeCount penalty }
  if disputeWonReward > 0 then
    return ← Token.mint winner disputeWonReward "dispute_won"
  return []

def Dispute.vote (disputeId voter : Id) (decision : DisputeDecision) (timestamp : Int64)
    (disputeWonReward : UInt64) (voteThreshold : ℕ) : DebugExec (List Event) := do
  let some dispute ← getDispute disputeId | throw (.failed "Dispute not found")
  let some voterParticipant ← getParticipant voter
    | throw (.failed "Voter not registered as participant")
  if voterParticipant.pType ≠ ParticipantType.arbiter.toU8 then
    throw (.failed "Unauthorized: only Arbiter participants can vote on disputes")
  let state :=
    if dispute.state = .raised ∨ dispute.state = .evidence then .voting else dispute.state
  if state ≠ .voting then throw (.failed "Dispute not in voting phase")
  if dispute.votes.any fun v => v.voter = voter then throw (.failed "Already voted")
  let dispute :=
    { dispute with
      state
      votes := dispute.votes ++ [{ voter, decision := decision.toU8, votedAt := timestamp }] }
  if dispute.votes.length ≥ voteThreshold then
    let resolution ← resolutionOf dispute.votes
    let events ← Dispute.resolve dispute resolution disputeWonReward
    setDispute disputeId
      { dispute with
        state := .resolved, resolution := some resolution, resolvedAt := some timestamp }
    return events ++ [.disputeResolved disputeId resolution]
  setDispute disputeId dispute
  return []

/-! ## Transactions -/

def runPayload (P : Params) (sender : Id) (timestamp : Int64) :
    TxPayload → DebugExec (List Event)
  | .registerParticipant id pType metadata =>
    Participant.register sender id pType metadata timestamp
  | .updateParticipant id metadata => Participant.update sender id metadata timestamp
  | .deactivateParticipant id => Participant.deactivate sender id
  | .recordSettlement participantId record =>
    Settlement.record sender participantId record timestamp P.rewards.settlementRecorded
  | .recordRating participantId rating success =>
    Settlement.recordRating participantId rating success timestamp P.rewards.ratingSubmitted
  | .createEscrow escrowId buyer seller amount expiresAt =>
    Escrow.create sender escrowId buyer seller amount expiresAt timestamp
  | .releaseEscrow escrowId evidenceHash =>
    Escrow.release sender escrowId evidenceHash timestamp P.rewards.escrowCompleted
  | .refundEscrow escrowId => Escrow.refund sender escrowId timestamp
  | .raiseDispute disputeId escrowId reason evidenceHash =>
    Dispute.raise disputeId escrowId sender reason evidenceHash timestamp
  | .submitEvidence disputeId evidenceHash => Dispute.submitEvidence sender disputeId evidenceHash
  | .voteDispute disputeId decision =>
    Dispute.vote disputeId sender decision timestamp P.rewards.disputeWon P.disputeVoteThreshold
  | .transferRCW receiver amount memo => Token.transfer sender receiver amount memo
  | .spendRCW amount purpose => Token.spend sender amount purpose
  | .anchorMerkleRoot batchId merkleRoot entryCount fromEntryId toEntryId =>
    anchorMerkleRoot P sender batchId merkleRoot entryCount fromEntryId toEntryId timestamp

def onRecords {α : Type} (x : DebugExec α) : EStateM Halt Store α := fun s =>
  match x.run s.records with
  | .ok a r => .ok a { s with records := r }
  | .error e r => .error e { s with records := r }

def execute (P : Params) (tx : Transaction) (timestamp : Int64) :
    EStateM Halt Store (List Event) := do
  checkAndUpdateNonce tx
  onRecords (runPayload P tx.sender timestamp tx.payload)

end Debug

end RoutineChain
