import RoutineChain.Lib.StateError
import RoutineChain.Spec.StateMachine

/-!
# What the modules do to the records

One lemma per operation: a run fails and leaves the records as they were, or its guards
hold and it ends in the given records. Only `release` and `refund` also fail after a
write, when a party of the escrow is not registered.
-/

namespace RoutineChain

open EStateM Std

variable {r : Records}

/-! ## Reading and writing -/

@[simp] theorem getParticipant_run (id : Id) :
    (getParticipant id).run r = .ok r.participants[id]? r := rfl

@[simp] theorem setParticipant_run (id : Id) (p : Participant) :
    (setParticipant id p).run r = .ok () (r.putParticipant id p) := rfl

@[simp] theorem setSettlement_run (id : Id) (s : SettlementRecord) :
    (setSettlement id s).run r = .ok () (r.putSettlement id s) := rfl

@[simp] theorem getBalance_run (owner : Id) :
    (getBalance owner).run r = .ok (r.balance owner) r := rfl

@[simp] theorem setBalance_run (owner : Id) (b : RCWBalance) :
    (setBalance owner b).run r = .ok () (r.putBalance owner b) := rfl

@[simp] theorem getEscrow_run (id : Id) : (getEscrow id).run r = .ok r.escrows[id]? r := rfl

@[simp] theorem setEscrow_run (id : Id) (e : Escrow) :
    (setEscrow id e).run r = .ok () (r.putEscrow id e) := rfl

@[simp] theorem getDispute_run (id : Id) : (getDispute id).run r = .ok r.disputes[id]? r := rfl

@[simp] theorem setDispute_run (id : Id) (d : Dispute) :
    (setDispute id d).run r = .ok () (r.putDispute id d) := rfl

@[simp] theorem getAnchor_run (id : Id) : (getAnchor id).run r = .ok r.anchors[id]? r := rfl

@[simp] theorem setAnchor_run (id : Id) (a : AnchorRecord) :
    (setAnchor id a).run r = .ok () (r.putAnchor id a) := rfl

/-! ## Tokens -/

/-- The records after minting. -/
def Records.mint (r : Records) (a : Id) (amount : UInt64) : Records :=
  r.putBalance a { r.balance a with earned := (r.balance a).earned + amount }

/-- The records after minting a reward; a reward of zero is not minted. -/
def Records.reward (r : Records) (a : Id) (amount : UInt64) : Records :=
  if amount > 0 then r.mint a amount else r

/-- The event of a reward. -/
def rewardEvents (a : Id) (amount : UInt64) (reason : String) : List Event :=
  if amount > 0 then [.rcwMinted a amount reason] else []

@[simp] theorem Token.mint_run (a : Id) (amount : UInt64) (reason : String) :
    (Token.mint a amount reason).run r = .ok [.rcwMinted a amount reason] (r.mint a amount) := by
  simp only [Token.mint, bind_pure_comp, run_bind, getBalance_run, run_map_match,
    setBalance_run, Records.mint]

section Reward

variable (a : Id) (amount : UInt64)

/-- Only balances are rewarded. -/
theorem Records.reward_eq :
    r.reward a amount = { r with balances := (r.reward a amount).balances } := by
  unfold reward mint
  split <;> rfl

@[simp] theorem Records.reward_participants :
    (r.reward a amount).participants = r.participants := by rw [reward_eq]

@[simp] theorem Records.reward_settlements :
    (r.reward a amount).settlements = r.settlements := by rw [reward_eq]

@[simp] theorem Records.reward_escrows : (r.reward a amount).escrows = r.escrows := by
  rw [reward_eq]

@[simp] theorem Records.reward_disputes : (r.reward a amount).disputes = r.disputes := by
  rw [reward_eq]

@[simp] theorem Records.reward_anchors : (r.reward a amount).anchors = r.anchors := by
  rw [reward_eq]

end Reward

/-- Minting a reward ends in `Records.reward`. -/
theorem Token.reward_run (r : Records) (a : Id) (amount : UInt64) (reason : String) :
    (if amount > 0 then Token.mint a amount reason else pure []).run r =
      .ok (rewardEvents a amount reason) (r.reward a amount) := by
  unfold Records.reward rewardEvents
  by_cases h : amount > 0
  · simp [h]
  · simp [h]

/-- A transfer that the balance covers goes through. -/
theorem Token.transfer_run {a : Id} {amount : UInt64} (h0 : amount ≠ 0)
    (ht : ¬ (r.balance a).total < amount) (b : Id) (memo : String) :
    (Token.transfer a b amount memo).run r = .ok [.rcwTransferred a b amount]
      ((r.putBalance a ((r.balance a).deduct amount)).mint b amount) := by
  simp [Token.transfer, h0, ht, Records.mint]

theorem Token.transfer_cases (a b : Id) (amount : UInt64) (memo : String) :
    (∃ e, (Token.transfer a b amount memo).run r = .error e r) ∨
    (amount ≠ 0 ∧ ¬ (r.balance a).total < amount ∧
      (Token.transfer a b amount memo).run r = .ok [.rcwTransferred a b amount]
        ((r.putBalance a ((r.balance a).deduct amount)).mint b amount)) := by
  by_cases h0 : amount = 0
  · left; simp [Token.transfer, h0]
  by_cases ht : (r.balance a).total < amount
  · left; simp [Token.transfer, h0, ht]
  · exact .inr ⟨h0, ht, transfer_run h0 ht b memo⟩

/-- A spend that the balance covers goes through. -/
theorem Token.spend_run {a : Id} {amount : UInt64} (h0 : amount ≠ 0)
    (ht : ¬ (r.balance a).total < amount) (purpose : String) :
    (Token.spend a amount purpose).run r = .ok [.rcwSpent a amount purpose]
      (r.putBalance a ((r.balance a).deduct amount)) := by
  simp [Token.spend, h0, ht]

theorem Token.spend_cases (a : Id) (amount : UInt64) (purpose : String) :
    (∃ e, (Token.spend a amount purpose).run r = .error e r) ∨
    (amount ≠ 0 ∧ ¬ (r.balance a).total < amount ∧
      (Token.spend a amount purpose).run r = .ok [.rcwSpent a amount purpose]
        (r.putBalance a ((r.balance a).deduct amount))) := by
  by_cases h0 : amount = 0
  · left; simp [Token.spend, h0]
  by_cases ht : (r.balance a).total < amount
  · left; simp [Token.spend, h0, ht]
  · exact .inr ⟨h0, ht, spend_run h0 ht purpose⟩

/-! ## Participants -/

theorem Participant.register_cases (a id : Id) (ty : ParticipantType) (md : String) (t : Int64) :
    (∃ e, (Participant.register a id ty md t).run r = .error e r) ∨
    (a = id ∧ r.participants[id]? = none ∧
      (Participant.register a id ty md t).run r = .ok [.participantRegistered id ty.toU8]
        (r.putParticipant id
          { id, pType := ty.toU8, metadata := md, totalTx := 0, successTx := 0,
            disputeCount := 0, disputeWon := 0, ratingSum := 0, ratingCount := 0,
            totalVolume := 0, totalSettled := 0, registeredAt := t, lastActivityAt := t,
            isActive := true })) := by
  unfold Participant.register
  by_cases h : a = id
  · cases hp : r.participants[id]? with
    | some p => left; simp [h, hp]
    | none => right; simp [h, hp]
  · left; simp [h]

theorem Participant.update_cases (a id : Id) (md : String) (t : Int64) :
    (∃ e, (Participant.update a id md t).run r = .error e r) ∨
    (a = id ∧ ∃ p, r.participants[id]? = some p ∧
      (Participant.update a id md t).run r = .ok [.participantUpdated id]
        (r.putParticipant id { p with metadata := md, lastActivityAt := t })) := by
  unfold Participant.update
  by_cases h : a = id
  · cases hp : r.participants[id]? with
    | some p => right; simp [h, hp]
    | none => left; simp [h, hp, run_throw_any]
  · left; simp [h]

theorem Participant.deactivate_cases (a id : Id) :
    (∃ e, (Participant.deactivate a id).run r = .error e r) ∨
    (a = id ∧ ∃ p, r.participants[id]? = some p ∧
      (Participant.deactivate a id).run r = .ok [.participantDeactivated id]
        (r.putParticipant id { p with isActive := false })) := by
  unfold Participant.deactivate
  by_cases h : a = id
  · cases hp : r.participants[id]? with
    | some p => right; simp [h, hp]
    | none => left; simp [h, hp]
  · left; simp [h]

/-! ## Settlements -/

/-- A settlement by a registered participant goes through. -/
theorem Settlement.record_run {a : Id} {p : Participant} (hp : r.participants[a]? = some p)
    (d : SettlementData) (t : Int64) (reward : UInt64) :
    (Settlement.record a a d t reward).run r =
      .ok (.settlementRecorded a d.recordId :: rewardEvents a reward "settlement_reward")
        (((r.putSettlement d.recordId
          { recordId := d.recordId, participantId := a, grossAmount := d.grossAmount,
            platformFee := d.platformFee, netAmount := d.netAmount, currency := d.currency,
            settledAt := d.settledAt, recordedAt := t }).putParticipant a
          { p with
            totalTx := satAdd p.totalTx 1
            successTx := satAdd p.successTx 1
            totalVolume := satAdd p.totalVolume d.grossAmount
            totalSettled := satAdd p.totalSettled d.netAmount
            lastActivityAt := t }).reward a reward) := by
  unfold Settlement.record Records.reward rewardEvents
  by_cases hr : reward > 0
  · simp [hp, hr]
  · simp [hp, hr]

theorem Settlement.record_cases (a id : Id) (d : SettlementData) (t : Int64) (reward : UInt64) :
    (∃ e, (Settlement.record a id d t reward).run r = .error e r) ∨
    (a = id ∧ ∃ p, r.participants[id]? = some p ∧
      (Settlement.record a id d t reward).run r =
        .ok (.settlementRecorded id d.recordId :: rewardEvents id reward "settlement_reward")
        (((r.putSettlement d.recordId
            { recordId := d.recordId, participantId := id, grossAmount := d.grossAmount,
              platformFee := d.platformFee, netAmount := d.netAmount, currency := d.currency,
              settledAt := d.settledAt, recordedAt := t }).putParticipant id
            { p with
              totalTx := satAdd p.totalTx 1
              successTx := satAdd p.successTx 1
              totalVolume := satAdd p.totalVolume d.grossAmount
              totalSettled := satAdd p.totalSettled d.netAmount
              lastActivityAt := t }).reward id reward)) := by
  by_cases h : a = id
  · subst h
    cases hp : r.participants[a]? with
    | some p => exact .inr ⟨rfl, p, rfl, record_run hp d t reward⟩
    | none => left; simp [Settlement.record, hp]
  · left; simp [Settlement.record, h]

/-- The participant after a rating. -/
def Participant.rated (p : Participant) (rating : UInt16) (success : Bool) (t : Int64) :
    Participant :=
  let p :=
    if rating > 0 ∧ rating ≤ 500 then
      { p with ratingSum := p.ratingSum + rating.toUInt64, ratingCount := p.ratingCount + 1 }
    else p
  let p := if success then p else { p with totalTx := p.totalTx + 1 }
  { p with lastActivityAt := t }

/-- A rating of a registered participant goes through. -/
theorem Settlement.recordRating_run {id : Id} {p : Participant} (hp : r.participants[id]? = some p)
    (rating : UInt16) (success : Bool) (t : Int64) (reward : UInt64) :
    (Settlement.recordRating id rating success t reward).run r =
      .ok (.ratingRecorded id (computeTrustScore (p.rated rating success t)) ::
          rewardEvents id reward "rating_reward")
        ((r.putParticipant id (p.rated rating success t)).reward id reward) := by
  unfold Settlement.recordRating Records.reward rewardEvents
  by_cases hr : reward > 0
  · simp [hp, hr, Participant.rated]
  · simp [hp, hr, Participant.rated]

theorem Settlement.recordRating_cases (id : Id) (rating : UInt16) (success : Bool) (t : Int64)
    (reward : UInt64) :
    (∃ e, (Settlement.recordRating id rating success t reward).run r = .error e r) ∨
    (∃ p, r.participants[id]? = some p ∧
      (Settlement.recordRating id rating success t reward).run r =
        .ok (.ratingRecorded id (computeTrustScore (p.rated rating success t)) ::
            rewardEvents id reward "rating_reward")
          ((r.putParticipant id (p.rated rating success t)).reward id reward)) := by
  cases hp : r.participants[id]? with
  | none => left; simp [Settlement.recordRating, hp]
  | some p => exact .inr ⟨p, rfl, recordRating_run hp rating success t reward⟩

/-! ## Escrows -/

/-- A released or refunded escrow. -/
def Escrow.Settled (e : Escrow) : Prop := e.state = .released ∨ e.state = .refunded

instance (e : Escrow) : Decidable e.Settled := inferInstanceAs (Decidable (_ ∨ _))

theorem Escrow.create_cases (a e b s : Id) (n : UInt64) (x t : Int64) :
    (∃ err, (Escrow.create a e b s n x t).run r = .error err r) ∨
    (a = b ∧ r.escrows[e]? = none ∧ r.participants[b]?.isSome ∧ r.participants[s]?.isSome ∧
      (Escrow.create a e b s n x t).run r = .ok [.escrowCreated e b s n]
        (r.putEscrow e
          { id := e, buyer := b, seller := s, amount := n, state := .created, createdAt := t,
            expiresAt := x, evidenceHash := none, disputeId := none })) := by
  unfold Escrow.create
  by_cases h : a = b
  · cases he : r.escrows[e]? with
    | some x => left; simp [h, he]
    | none =>
      cases hb : r.participants[b]? with
      | none => left; simp [h, he, hb]
      | some p =>
        cases hs : r.participants[s]? with
        | none => left; simp [h, he, hb, hs]
        | some q => right; simp [h, he, hb, hs]
  · left; simp [h]

/-- A released buyer: one more successful transaction. -/
def Participant.released (p : Participant) (t : Int64) : Participant :=
  { p with totalTx := satAdd p.totalTx 1, successTx := satAdd p.successTx 1, lastActivityAt := t }

/-- A seller also gains volume. -/
def Participant.sold (p : Participant) (n : UInt64) (t : Int64) : Participant :=
  { p.released t with totalVolume := satAdd p.totalVolume n }

theorem Escrow.release_cases (a e : Id) (ev : Hash) (t : Int64) (reward : UInt64) :
    (∃ err, (Escrow.release a e ev t reward).run r = .error err r) ∨
    (∃ esc, r.escrows[e]? = some esc ∧ a = esc.buyer ∧
      (esc.state = .created ∨ esc.state = .funded) ∧ ¬ t > esc.expiresAt ∧
      ∃ r₁, r₁ = r.putEscrow e { esc with state := .released, evidenceHash := some ev } ∧
      ((r.participants[esc.buyer]? = none ∧
          ∃ err, (Escrow.release a e ev t reward).run r = .error err r₁) ∨
        ∃ b r₂, r.participants[esc.buyer]? = some b ∧
          r₂ = r₁.putParticipant esc.buyer (b.released t) ∧
          ((r₂.participants[esc.seller]? = none ∧
              ∃ err, (Escrow.release a e ev t reward).run r = .error err r₂) ∨
            ∃ s, r₂.participants[esc.seller]? = some s ∧
              (Escrow.release a e ev t reward).run r =
                .ok (.escrowReleased e :: (rewardEvents esc.buyer reward "escrow_complete" ++
                    rewardEvents esc.seller reward "escrow_complete"))
                (((r₂.putParticipant esc.seller (s.sold esc.amount t)).reward esc.buyer
                  reward).reward esc.seller reward)))) := by
  cases he : r.escrows[e]? with
  | none => left; simp [Escrow.release, he]
  | some esc =>
    by_cases ha : a = esc.buyer
    · by_cases hs : esc.state = .created ∨ esc.state = .funded
      · by_cases ht : t > esc.expiresAt
        · left
          rcases hs with hs | hs <;> simp [Escrow.release, he, ha, hs, ht]
        · right
          refine ⟨esc, rfl, ha, hs, ht, _, rfl, ?_⟩
          have hs' : ¬ (esc.state ≠ .created ∧ esc.state ≠ .funded) := by tauto
          -- The escrow is written before the parties are read, so both lookups can fail late.
          cases hb : r.participants[esc.buyer]? with
          | none => left; simp [Escrow.release, he, ha, hs', ht, hb]
          | some b =>
            right
            refine ⟨b, _, rfl, rfl, ?_⟩
            -- The seller is read after the buyer is written: they may be the same participant.
            cases hq : ((r.putEscrow e { esc with
                state := .released, evidenceHash := some ev }).putParticipant esc.buyer
                (b.released t)).participants[esc.seller]? with
            | none =>
              left
              simp only [Participant.released, Records.putParticipant_participants,
                Records.putEscrow_participants] at hq
              simp [Escrow.release, he, ha, hs', ht, hb, hq, Participant.released]
            | some s =>
              right
              simp only [Participant.released, Records.putParticipant_participants,
                Records.putEscrow_participants] at hq
              by_cases hr : reward > 0
              · simp [Escrow.release, he, ha, hs', ht, hb, hq, hr, Records.reward, rewardEvents,
                  Participant.released, Participant.sold]
              · simp [Escrow.release, he, ha, hs', ht, hb, hq, hr, Records.reward, rewardEvents,
                  Participant.released, Participant.sold]
      · left
        have hs' : esc.state ≠ .created ∧ esc.state ≠ .funded := by tauto
        simp [Escrow.release, he, ha, hs']
    · left; simp [Escrow.release, he, ha]

theorem Escrow.refund_cases (a e : Id) (t : Int64) :
    (∃ err, (Escrow.refund a e t).run r = .error err r) ∨
    (∃ esc, r.escrows[e]? = some esc ∧ (a = esc.buyer ∨ t > esc.expiresAt) ∧
      (esc.state = .created ∨ esc.state = .funded) ∧
      ∃ r₁, r₁ = r.putEscrow e { esc with state := .refunded } ∧
      ((r.participants[esc.seller]? = none ∧
          ∃ err, (Escrow.refund a e t).run r = .error err r₁) ∨
        ∃ s, r.participants[esc.seller]? = some s ∧
          (Escrow.refund a e t).run r = .ok [.escrowRefunded e]
            (r₁.putParticipant esc.seller
              { s with totalTx := satAdd s.totalTx 1, lastActivityAt := t }))) := by
  cases he : r.escrows[e]? with
  | none => left; simp [Escrow.refund, he]
  | some esc =>
    by_cases ha : a = esc.buyer ∨ t > esc.expiresAt
    · have ha' : ¬ (¬ a = esc.buyer ∧ t ≤ esc.expiresAt) := by
        rw [← Int64.not_lt]
        tauto
      by_cases hs : esc.state = .created ∨ esc.state = .funded
      · right
        refine ⟨esc, rfl, ha, hs, _, rfl, ?_⟩
        have hs' : ¬ (esc.state ≠ .created ∧ esc.state ≠ .funded) := by tauto
        cases hp : r.participants[esc.seller]? with
        | none => left; simp [Escrow.refund, he, ha', hs', hp]
        | some s => right; simp [Escrow.refund, he, ha', hs', hp]
      · left
        have hs' : esc.state ≠ .created ∧ esc.state ≠ .funded := by tauto
        simp [Escrow.refund, he, ha', hs']
    · left
      have ha' : ¬ a = esc.buyer ∧ t ≤ esc.expiresAt := by
        rw [← Int64.not_lt]
        tauto
      simp [Escrow.refund, he, ha']

/-! ## Disputes -/

/-- The records after `f` has changed a participant; an unregistered one is left alone. -/
def Records.modifyParticipant (r : Records) (id : Id) (f : Participant → Participant) :
    Records :=
  match r.participants[id]? with
  | some p => r.putParticipant id (f p)
  | none => r

section ModifyParticipant

variable (id : Id) (f : Participant → Participant)

/-- Only participants are modified. -/
theorem Records.modifyParticipant_eq : r.modifyParticipant id f =
    { r with participants := (r.modifyParticipant id f).participants } := by
  unfold modifyParticipant
  split <;> rfl

@[simp] theorem Records.modifyParticipant_settlements :
    (r.modifyParticipant id f).settlements = r.settlements := by rw [modifyParticipant_eq]

@[simp] theorem Records.modifyParticipant_balances :
    (r.modifyParticipant id f).balances = r.balances := by rw [modifyParticipant_eq]

@[simp] theorem Records.modifyParticipant_escrows :
    (r.modifyParticipant id f).escrows = r.escrows := by rw [modifyParticipant_eq]

@[simp] theorem Records.modifyParticipant_disputes :
    (r.modifyParticipant id f).disputes = r.disputes := by rw [modifyParticipant_eq]

@[simp] theorem Records.modifyParticipant_anchors :
    (r.modifyParticipant id f).anchors = r.anchors := by rw [modifyParticipant_eq]

end ModifyParticipant

/-- One more dispute is counted. -/
def Participant.disputed (p : Participant) : Participant :=
  { p with disputeCount := satAdd p.disputeCount 1 }

/-- A raise goes through if its three guards do. -/
theorem Dispute.raise_run {d e a : Id} {reason : DisputeReason} {ev : Hash} {t : Int64}
    {esc : Escrow} (he : r.escrows[e]? = some esc) (ha : a = esc.buyer ∨ a = esc.seller)
    (hs : ¬ esc.Settled) :
    (Dispute.raise d e a reason ev t).run r = .ok [.disputeRaised d e]
      (((r.putEscrow e { esc with state := .disputed, disputeId := some d }).putDispute d
          { id := d, escrowId := e, raisedBy := a, reason := reason.toU8,
            evidenceHashes := [ev], votes := [], state := .raised, resolution := none,
            raisedAt := t, resolvedAt := none }).modifyParticipant
        (if a = esc.buyer then esc.seller else esc.buyer) Participant.disputed) := by
  have ha' : ¬ (a ≠ esc.buyer ∧ a ≠ esc.seller) := by tauto
  have hs' : ¬ (esc.state = .released ∨ esc.state = .refunded) := hs
  -- The other party; nothing is counted if it is not registered.
  cases hp : r.participants[if a = esc.buyer then esc.seller else esc.buyer]? with
  | none => simp [Dispute.raise, Records.modifyParticipant, he, ha', hs', hp]
  | some p =>
    simp [Dispute.raise, Records.modifyParticipant, Participant.disputed, he, ha', hs', hp]

theorem Dispute.raise_cases (d e a : Id) (reason : DisputeReason) (ev : Hash) (t : Int64) :
    (∃ err, (Dispute.raise d e a reason ev t).run r = .error err r) ∨
    (∃ esc, r.escrows[e]? = some esc ∧ (a = esc.buyer ∨ a = esc.seller) ∧ ¬ esc.Settled ∧
      (Dispute.raise d e a reason ev t).run r = .ok [.disputeRaised d e]
        (((r.putEscrow e { esc with state := .disputed, disputeId := some d }).putDispute d
            { id := d, escrowId := e, raisedBy := a, reason := reason.toU8,
              evidenceHashes := [ev], votes := [], state := .raised, resolution := none,
              raisedAt := t, resolvedAt := none }).modifyParticipant
          (if a = esc.buyer then esc.seller else esc.buyer) Participant.disputed)) := by
  cases he : r.escrows[e]? with
  | none => left; simp [Dispute.raise, he]
  | some esc =>
    by_cases ha : a = esc.buyer ∨ a = esc.seller
    · have ha' : ¬ (a ≠ esc.buyer ∧ a ≠ esc.seller) := by tauto
      by_cases hs : esc.state = .released ∨ esc.state = .refunded
      · left
        simp [Dispute.raise, he, ha', hs]
      · exact .inr ⟨esc, rfl, ha, hs, raise_run he ha hs⟩
    · left
      have ha' : a ≠ esc.buyer ∧ a ≠ esc.seller := by tauto
      simp [Dispute.raise, he, ha']

theorem Dispute.submitEvidence_cases (a d : Id) (ev : Hash) :
    (∃ err, (Dispute.submitEvidence a d ev).run r = .error err r) ∨
    (∃ dis esc, r.disputes[d]? = some dis ∧ r.escrows[dis.escrowId]? = some esc ∧
      (a = esc.buyer ∨ a = esc.seller) ∧ (dis.state = .raised ∨ dis.state = .evidence) ∧
      (Dispute.submitEvidence a d ev).run r = .ok []
        (r.putDispute d
          { dis with state := .evidence, evidenceHashes := dis.evidenceHashes ++ [ev] })) := by
  cases hd : r.disputes[d]? with
  | none => left; simp [Dispute.submitEvidence, hd]
  | some dis =>
    cases he : r.escrows[dis.escrowId]? with
    | none => left; simp [Dispute.submitEvidence, hd, he]
    | some esc =>
      by_cases ha : a = esc.buyer ∨ a = esc.seller
      · have ha' : ¬ (a ≠ esc.buyer ∧ a ≠ esc.seller) := by tauto
        by_cases hs : dis.state = .raised ∨ dis.state = .evidence
        · right
          have hs' : ¬ (dis.state ≠ .raised ∧ dis.state ≠ .evidence) := by tauto
          exact ⟨dis, esc, rfl, he, ha, hs, by simp [Dispute.submitEvidence, hd, he, ha', hs']⟩
        · left
          have hs' : dis.state ≠ .raised ∧ dis.state ≠ .evidence := by tauto
          simp [Dispute.submitEvidence, hd, he, ha', hs']
      · left
        have ha' : a ≠ esc.buyer ∧ a ≠ esc.seller := by tauto
        simp [Dispute.submitEvidence, hd, he, ha']

/-- The statistics of the winner of a dispute. -/
def Participant.won (p : Participant) (raised : Bool) : Participant :=
  { p with
    disputeWon := satAdd p.disputeWon 1
    disputeCount := if raised then p.disputeCount else satSub p.disputeCount 1 }

/-- The statistics of the loser of a dispute. -/
def Participant.lost (p : Participant) (raised : Bool) : Participant :=
  { p with disputeCount := satAdd p.disputeCount (if raised then 2 else 1) }

/-- The records after a dispute over `esc` is resolved: a split changes nothing. -/
def Records.resolve (r : Records) (esc : Escrow) (raisedBy : Id) (resolution : UInt8)
    (reward : UInt64) : Records :=
  if resolution = 2 then r else
  let winner := if resolution = 0 then esc.buyer else esc.seller
  let loser := if resolution = 0 then esc.seller else esc.buyer
  ((r.modifyParticipant winner (·.won (raisedBy = winner))).modifyParticipant loser
    (·.lost (raisedBy = loser))).reward winner reward

/-- The events of resolving a dispute over `esc`: the reward of the winner. -/
def resolveEvents (esc : Escrow) (resolution : UInt8) (reward : UInt64) : List Event :=
  if resolution = 2 then [] else
  rewardEvents (if resolution = 0 then esc.buyer else esc.seller) reward "dispute_won"

section Resolve

variable (esc : Escrow) (a : Id) (res : UInt8) (w : UInt64)

@[simp] theorem Records.resolve_settlements :
    (r.resolve esc a res w).settlements = r.settlements := by
  unfold resolve
  split <;> simp

@[simp] theorem Records.resolve_escrows : (r.resolve esc a res w).escrows = r.escrows := by
  unfold resolve
  split <;> simp

@[simp] theorem Records.resolve_disputes : (r.resolve esc a res w).disputes = r.disputes := by
  unfold resolve
  split <;> simp

@[simp] theorem Records.resolve_anchors : (r.resolve esc a res w).anchors = r.anchors := by
  unfold resolve
  split <;> simp

end Resolve

/-- A dispute over a stored escrow is resolved. -/
theorem Dispute.resolve_run {dis : Dispute} {esc : Escrow}
    (he : r.escrows[dis.escrowId]? = some esc) (res : UInt8) (w : UInt64) :
    (Dispute.resolve dis res w).run r =
      .ok (resolveEvents esc res w) (r.resolve esc dis.raisedBy res w) := by
  by_cases h2 : res = 2
  · simp [Dispute.resolve, Records.resolve, resolveEvents, he, h2]
  simp only [Dispute.resolve, Records.resolve, resolveEvents, EStateM.run_bind, getEscrow_run,
    he, h2, if_false]
  -- From here on only who won and who lost matters, not which of them is the buyer.
  generalize (if res = 0 then esc.buyer else esc.seller) = winner
  generalize (if res = 0 then esc.seller else esc.buyer) = loser
  have hmint := fun r' : Records => Token.reward_run r' winner w "dispute_won"
  cases hp : r.participants[winner]? with
  | none =>
    cases hq : r.participants[loser]? with
    | none => simpa [hp, hq, Records.modifyParticipant] using hmint r
    | some q =>
      simpa [hp, hq, Records.modifyParticipant, Participant.lost] using
        hmint (r.putParticipant loser (q.lost (dis.raisedBy = loser)))
  | some p =>
    cases hq : (r.putParticipant winner (p.won (dis.raisedBy = winner))).participants[loser]?
      with
    | none =>
      simp only [Records.putParticipant_participants, Participant.won, decide_eq_true_eq] at hq
      simpa [hp, hq, Records.modifyParticipant, Participant.won] using
        hmint (r.putParticipant winner (p.won (dis.raisedBy = winner)))
    | some q =>
      simp only [Records.putParticipant_participants, Participant.won, decide_eq_true_eq] at hq
      simpa [hp, hq, Records.modifyParticipant, Participant.won, Participant.lost] using
        hmint ((r.putParticipant winner (p.won (dis.raisedBy = winner))).putParticipant loser
          (q.lost (dis.raisedBy = loser)))

theorem Dispute.resolve_cases (dis : Dispute) (res : UInt8) (w : UInt64) :
    (∃ err, (Dispute.resolve dis res w).run r = .error err r) ∨
    (∃ esc, r.escrows[dis.escrowId]? = some esc ∧
      (Dispute.resolve dis res w).run r =
        .ok (resolveEvents esc res w) (r.resolve esc dis.raisedBy res w)) := by
  cases he : r.escrows[dis.escrowId]? with
  | none => left; simp [Dispute.resolve, he]
  | some esc => exact .inr ⟨esc, rfl, resolve_run he res w⟩

/-- The dispute once a vote has been added. -/
def Dispute.voted (dis : Dispute) (voter : Id) (decision : DisputeDecision) (t : Int64) :
    Dispute :=
  { dis with
    state := .voting
    votes := dis.votes ++ [{ voter, decision := decision.toU8, votedAt := t }] }

/-- **A vote whose guards hold** is added. Below the threshold it is stored; else the dispute
is resolved, and written only then, so that a failure to resolve it writes nothing. -/
theorem Dispute.vote_run {d a : Id} {dis : Dispute} {p : Participant}
    (hd : r.disputes[d]? = some dis) (hp : r.participants[a]? = some p)
    (ha : p.pType = ParticipantType.arbiter.toU8) (hs : dis.state ≠ .resolved)
    (hv : ∀ v ∈ dis.votes, v.voter ≠ a) (dec : DisputeDecision) (t : Int64) (w : UInt64)
    (m : ℕ) :
    (Dispute.vote d a dec t w m).run r =
      if m ≤ (dis.voted a dec t).votes.length then
        match (Dispute.resolve (dis.voted a dec t)
            (resolutionOf (dis.voted a dec t).votes) w).run r with
        | .ok es r' =>
          .ok (es ++ [.disputeResolved d (resolutionOf (dis.voted a dec t).votes)])
            (r'.putDispute d
              { dis.voted a dec t with
                state := .resolved
                resolution := some (resolutionOf (dis.voted a dec t).votes)
                resolvedAt := some t })
        | .error err r' => .error err r'
      else .ok [] (r.putDispute d (dis.voted a dec t)) := by
  -- Any state but `resolved` becomes `voting`, and the phase check that follows passes.
  have hst : (if dis.state = .raised ∨ dis.state = .evidence then DisputeState.voting
      else dis.state) = .voting := by
    cases h : dis.state <;> simp_all
  have hph : ¬ (¬ dis.state = .raised ∧ ¬ dis.state = .evidence ∧ ¬ dis.state = .voting) := by
    cases h : dis.state <;> simp_all
  have hno : ¬ ∃ v ∈ dis.votes, v.voter = a := by
    rintro ⟨v, hmem, rfl⟩
    exact hv v hmem rfl
  by_cases hm : m ≤ (dis.voted a dec t).votes.length
  · rw [if_pos hm]
    simp only [Dispute.voted, List.length_append, List.length_singleton] at hm ⊢
    generalize hres : (Dispute.resolve _ _ w).run r = out
    cases out with
    | ok es r' => simp [Dispute.vote, hd, hp, ha, hst, hph, hno, hm, hres]
    | error err r' => simp [Dispute.vote, hd, hp, ha, hst, hph, hno, hm, hres]
  · rw [if_neg hm]
    simp only [Dispute.voted, List.length_append, List.length_singleton] at hm
    simp [Dispute.vote, hd, hp, ha, hst, hph, hno, hm, Dispute.voted]

/-- A vote is recorded; the vote that reaches the threshold also resolves the dispute. -/
theorem Dispute.vote_cases (d a : Id) (dec : DisputeDecision) (t : Int64) (w : UInt64) (m : ℕ) :
    (∃ err, (Dispute.vote d a dec t w m).run r = .error err r) ∨
    (∃ dis p, r.disputes[d]? = some dis ∧ r.participants[a]? = some p ∧
      p.pType = ParticipantType.arbiter.toU8 ∧ dis.state ≠ .resolved ∧
      (∀ v ∈ dis.votes, v.voter ≠ a) ∧
      (((dis.voted a dec t).votes.length < m ∧
          (Dispute.vote d a dec t w m).run r = .ok [] (r.putDispute d (dis.voted a dec t))) ∨
        (m ≤ (dis.voted a dec t).votes.length ∧ ∃ esc, r.escrows[dis.escrowId]? = some esc ∧
          (Dispute.vote d a dec t w m).run r =
            .ok (resolveEvents esc (resolutionOf (dis.voted a dec t).votes) w ++
                [.disputeResolved d (resolutionOf (dis.voted a dec t).votes)])
            ((r.resolve esc dis.raisedBy (resolutionOf (dis.voted a dec t).votes) w).putDispute d
              { dis.voted a dec t with
                state := .resolved
                resolution := some (resolutionOf (dis.voted a dec t).votes)
                resolvedAt := some t })))) := by
  cases hd : r.disputes[d]? with
  | none => left; simp [Dispute.vote, hd]
  | some dis =>
    cases hp : r.participants[a]? with
    | none => left; simp [Dispute.vote, hd, hp]
    | some p =>
      by_cases ha : p.pType = ParticipantType.arbiter.toU8
      · by_cases hr : dis.state = .resolved
        · left; simp [Dispute.vote, hd, hp, ha, hr]
        by_cases hv : ∃ v ∈ dis.votes, v.voter = a
        · left
          have hst : ¬ (¬ dis.state = .raised ∧ ¬ dis.state = .evidence ∧
              ¬ dis.state = .voting) := by
            cases h : dis.state <;> simp_all
          simp [Dispute.vote, hd, hp, ha, hst, hv]
        have hv' : ∀ v ∈ dis.votes, v.voter ≠ a := fun v hm h => hv ⟨v, hm, h⟩
        have hrun := vote_run hd hp ha hr hv' dec t w m
        by_cases hm : m ≤ (dis.voted a dec t).votes.length
        · rw [if_pos hm] at hrun
          rcases Dispute.resolve_cases (r := r) (dis.voted a dec t)
            (resolutionOf (dis.voted a dec t).votes) w with ⟨err, he⟩ | ⟨esc, he, hok⟩
          · rw [he] at hrun
            exact .inl ⟨err, hrun⟩
          · rw [hok] at hrun
            exact .inr ⟨dis, p, rfl, rfl, ha, hr, hv', .inr ⟨hm, esc, he, hrun⟩⟩
        · rw [if_neg hm] at hrun
          exact .inr ⟨dis, p, rfl, rfl, ha, hr, hv', .inl ⟨Nat.not_le.1 hm, hrun⟩⟩
      · left; simp [Dispute.vote, hd, hp, ha]

end RoutineChain
