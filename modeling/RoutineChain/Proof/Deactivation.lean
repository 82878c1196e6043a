import RoutineChain.Lib.Simulation
import RoutineChain.Proof.Counters

/-!
# The flag that deactivation clears

`deactivate` clears `is_active`, and no operation sets it again or reads it. Two stores that
differ in these flags alone answer every transaction alike (`execute_sim`), so a deactivated
participant votes, trades, settles and is rated as before.
-/

namespace RoutineChain

open EStateM Std

/-! ## Records that differ in the flags alone -/

/-- The participants differ in their flag at most. -/
def Participant.SameButActive (p q : Participant) : Prop := ∃ v, q = { p with isActive := v }

/-- The records differ in the flags of their participants at most. -/
structure Records.SameButActive (r r' : Records) : Prop where
  participants : ∀ x : Id, Option.Rel Participant.SameButActive r.participants[x]?
    r'.participants[x]?
  others : r' = { r with participants := r'.participants }

/-- The stores differ in the flags of their participants at most. -/
structure Store.SameButActive (s s' : Store) : Prop where
  records : s.records.SameButActive s'.records
  others : s' = { s with records := s'.records }

/-- The executions have returned the same events, and their stores differ in the flags of the
participants at most. -/
structure Execution.SameButActive (x y : Execution) : Prop where
  store : x.store.SameButActive y.store
  events : y.events = x.events

theorem Participant.SameButActive.refl (p : Participant) : p.SameButActive p := ⟨p.isActive, rfl⟩

theorem Participant.SameButActive.rated {p q : Participant} (h : p.SameButActive q)
    (rating : UInt16) (success : Bool) (t : Int64) :
    (p.rated rating success t).SameButActive (q.rated rating success t) := by
  obtain ⟨v, rfl⟩ := h
  refine ⟨v, ?_⟩
  unfold Participant.rated
  by_cases hr : rating > 0 ∧ rating ≤ 500 <;> cases success <;> simp [hr]

/-- The trust score does not depend on the flag. -/
theorem Participant.SameButActive.score {p q : Participant} (h : p.SameButActive q) :
    computeTrustScore p = computeTrustScore q := by
  obtain ⟨v, rfl⟩ := h
  rfl

namespace Records.SameButActive

variable {r r' : Records} {p q : Participant}

/-- Another flag of one participant. -/
theorem putFlag {x : Id} {v : Bool} (hp : r.participants[x]? = some p) :
    r.SameButActive (r.putParticipant x { p with isActive := v }) := by
  refine ⟨?_, rfl⟩
  intro y
  refine Table.rel_insert (R := Option.Rel Participant.SameButActive)
    (Records.putParticipant_participants r x _) (optionRel_refl .refl) ?_
  rintro rfl
  rw [hp]
  exact .some ⟨v, rfl⟩

theorem balances (h : r.SameButActive r') : r'.balances = r.balances := by
  rw [h.others]

theorem balance (h : r.SameButActive r') (a : Id) : r.balance a = r'.balance a := by
  unfold Records.balance
  rw [h.balances]

/-! ### Writes -/

theorem putParticipant (h : r.SameButActive r') (x : Id) (hp : p.SameButActive q) :
    (r.putParticipant x p).SameButActive (r'.putParticipant x q) := by
  refine ⟨?_, ?_⟩
  · intro y
    rw [Records.putParticipant_participants, Records.putParticipant_participants,
      Table.get_insert, Table.get_insert]
    split
    · exact .some hp
    · exact h.participants y
  · rw [h.others]
    rfl

theorem putSettlement (h : r.SameButActive r') (x : Id) (s : SettlementRecord) :
    (r.putSettlement x s).SameButActive (r'.putSettlement x s) :=
  ⟨h.participants, by rw [h.others]; rfl⟩

theorem putBalance (h : r.SameButActive r') (x : Id) (b : RCWBalance) :
    (r.putBalance x b).SameButActive (r'.putBalance x b) :=
  ⟨h.participants, by rw [h.others]; rfl⟩

theorem putEscrow (h : r.SameButActive r') (x : Id) (e : Escrow) :
    (r.putEscrow x e).SameButActive (r'.putEscrow x e) :=
  ⟨h.participants, by rw [h.others]; rfl⟩

theorem putDispute (h : r.SameButActive r') (x : Id) (d : Dispute) :
    (r.putDispute x d).SameButActive (r'.putDispute x d) :=
  ⟨h.participants, by rw [h.others]; rfl⟩

theorem putAnchor (h : r.SameButActive r') (x : Id) (a : AnchorRecord) :
    (r.putAnchor x a).SameButActive (r'.putAnchor x a) :=
  ⟨h.participants, by rw [h.others]; rfl⟩

end Records.SameButActive

/-! ## No operation reads the flag -/

/-- The computation does not see the flags. -/
abbrev Exec.IgnoresActive {α : Type} (x : Exec α) : Prop := Sim Records.SameButActive Eq x x

section Access

theorem getParticipant_sim (id : Id) : Sim Records.SameButActive
    (Option.Rel Participant.SameButActive) (getParticipant id) (getParticipant id) :=
  .reads fun _ _ h => h.participants id

theorem setParticipant_sim {p q : Participant} (id : Id) (h : p.SameButActive q) :
    Sim Records.SameButActive Eq (setParticipant id p) (setParticipant id q) :=
  .modify fun _ _ hr => hr.putParticipant id h

theorem setSettlement_sim (id : Id) (s : SettlementRecord) :
    (setSettlement id s).IgnoresActive :=
  .modify fun _ _ hr => hr.putSettlement id s

theorem getBalance_sim (owner : Id) : (getBalance owner).IgnoresActive :=
  .reads fun _ _ h => h.balance owner

theorem setBalance_sim (owner : Id) (b : RCWBalance) : (setBalance owner b).IgnoresActive :=
  .modify fun _ _ hr => hr.putBalance owner b

theorem getEscrow_sim (id : Id) : (getEscrow id).IgnoresActive :=
  .reads fun _ _ h => by rw [h.others]

theorem setEscrow_sim (id : Id) (e : Escrow) : (setEscrow id e).IgnoresActive :=
  .modify fun _ _ hr => hr.putEscrow id e

theorem getDispute_sim (id : Id) : (getDispute id).IgnoresActive :=
  .reads fun _ _ h => by rw [h.others]

theorem setDispute_sim (id : Id) (d : Dispute) : (setDispute id d).IgnoresActive :=
  .modify fun _ _ hr => hr.putDispute id d

theorem getAnchor_sim (id : Id) : (getAnchor id).IgnoresActive :=
  .reads fun _ _ h => by rw [h.others]

theorem setAnchor_sim (id : Id) (a : AnchorRecord) : (setAnchor id a).IgnoresActive :=
  .modify fun _ _ hr => hr.putAnchor id a

end Access

/-- A participant that the operation needs: both sides find it or both fail. -/
theorem needParticipant_sim {α : Type} {id : Id} {err : String} {f g : Participant → Exec α}
    (h : ∀ p q, p.SameButActive q → Sim Records.SameButActive Eq (f p) (g q)) :
    Sim Records.SameButActive Eq
      (getParticipant id >>= fun o => match o with | some p => f p | _ => throw err)
      (getParticipant id >>= fun o => match o with | some p => g p | _ => throw err) := by
  refine (getParticipant_sim id).bind ?_
  rintro _ _ (hpq | _)
  · exact h _ _ hpq
  · exact .throw

/-- A participant that the operation writes if it is registered. -/
theorem mayWrite_sim {α : Type} {id : Id} {f : Participant → Participant} {rest : Exec α}
    (hf : ∀ p q, p.SameButActive q → (f p).SameButActive (f q)) (hrest : rest.IgnoresActive) :
    Exec.IgnoresActive (getParticipant id >>= fun o =>
      match o with
      | some p => setParticipant id (f p) >>= fun _ => rest
      | _ => rest) := by
  refine (getParticipant_sim id).bind ?_
  rintro _ _ (hpq | _)
  · exact (setParticipant_sim id (hf _ _ hpq)).bind fun _ _ _ => hrest
  · exact hrest

theorem Token.mint_sim (receiver : Id) (amount : UInt64) (reason : String) :
    (Token.mint receiver amount reason).IgnoresActive := by
  unfold Token.mint
  refine (getBalance_sim receiver).bind ?_
  rintro b _ rfl
  refine (setBalance_sim receiver _).bind ?_
  intro _ _ _
  exact .pure rfl

theorem Token.transfer_sim (sender receiver : Id) (amount : UInt64) (memo : String) :
    (Token.transfer sender receiver amount memo).IgnoresActive := by
  unfold Token.transfer
  refine .guard fun _ => (getBalance_sim sender).bind ?_
  rintro b _ rfl
  refine .guard fun _ => (setBalance_sim sender _).bind ?_
  intro _ _ _
  refine (getBalance_sim receiver).bind ?_
  rintro b' _ rfl
  refine (setBalance_sim receiver _).bind ?_
  intro _ _ _
  exact .pure rfl

theorem Token.spend_sim (sender : Id) (amount : UInt64) (purpose : String) :
    (Token.spend sender amount purpose).IgnoresActive := by
  unfold Token.spend
  refine .guard fun _ => (getBalance_sim sender).bind ?_
  rintro b _ rfl
  refine .guard fun _ => (setBalance_sim sender _).bind ?_
  intro _ _ _
  exact .pure rfl

theorem Participant.register_sim (sender id : Id) (pType : ParticipantType) (metadata : String)
    (timestamp : Int64) :
    (Participant.register sender id pType metadata timestamp).IgnoresActive := by
  unfold Participant.register
  refine .guard fun _ => (getParticipant_sim id).bind ?_
  intro o o' ho
  rw [optionRel_isSome ho]
  refine .guard fun _ => (setParticipant_sim id (.refl _)).bind ?_
  intro _ _ _
  exact .pure rfl

theorem Participant.update_sim (sender id : Id) (metadata : String) (timestamp : Int64) :
    (Participant.update sender id metadata timestamp).IgnoresActive := by
  unfold Participant.update
  refine .guard fun _ => needParticipant_sim ?_
  rintro p _ ⟨v, rfl⟩
  refine (setParticipant_sim id ⟨v, rfl⟩).bind ?_
  intro _ _ _
  exact .pure rfl

theorem Participant.deactivate_sim (sender id : Id) :
    (Participant.deactivate sender id).IgnoresActive := by
  unfold Participant.deactivate
  refine .guard fun _ => needParticipant_sim ?_
  rintro p _ ⟨v, rfl⟩
  refine (setParticipant_sim id ⟨false, rfl⟩).bind ?_
  intro _ _ _
  exact .pure rfl

/-- A reward that is minted if it is not zero. -/
theorem reward_sim (receiver : Id) (amount : UInt64) (reason : String) {events events' : List Event}
    (h : events = events') : Sim Records.SameButActive Eq
      (do
        if amount > 0 then return events ++ (← Token.mint receiver amount reason)
        return events)
      (do
        if amount > 0 then return events' ++ (← Token.mint receiver amount reason)
        return events') := by
  subst h
  refine .ite (fun _ => (Token.mint_sim receiver amount reason).bind ?_) fun _ => .pure rfl
  rintro es _ rfl
  exact .pure rfl

theorem Settlement.record_sim (sender participantId : Id) (data : SettlementData)
    (timestamp : Int64) (rewardAmount : UInt64) :
    (Settlement.record sender participantId data timestamp rewardAmount).IgnoresActive := by
  unfold Settlement.record
  refine .guard fun _ => needParticipant_sim ?_
  rintro p _ ⟨v, rfl⟩
  refine (setSettlement_sim data.recordId _).bind ?_
  intro _ _ _
  refine (setParticipant_sim participantId ⟨v, rfl⟩).bind ?_
  intro _ _ _
  exact reward_sim participantId rewardAmount _ rfl

theorem Settlement.recordRating_sim (participantId : Id) (rating : UInt16) (success : Bool)
    (timestamp : Int64) (rewardAmount : UInt64) :
    (Settlement.recordRating participantId rating success timestamp
      rewardAmount).IgnoresActive := by
  unfold Settlement.recordRating
  refine needParticipant_sim fun p q hpq => ?_
  have hrated := hpq.rated rating success timestamp
  refine (setParticipant_sim participantId hrated).bind ?_
  intro _ _ _
  -- the returned score is computed from the participant that is written
  refine reward_sim participantId rewardAmount _ ?_
  exact congrArg (fun n => [Event.ratingRecorded participantId n]) hrated.score

theorem Escrow.create_sim (sender escrowId buyer seller : Id) (amount : UInt64)
    (expiresAt timestamp : Int64) :
    (Escrow.create sender escrowId buyer seller amount expiresAt timestamp).IgnoresActive := by
  unfold Escrow.create
  refine .guard fun _ => (getEscrow_sim escrowId).bind ?_
  rintro e _ rfl
  refine .guard fun _ => (getParticipant_sim buyer).bind ?_
  intro b b' hb
  rw [← Option.not_isSome, ← Option.not_isSome, optionRel_isSome hb]
  refine .guard fun _ => (getParticipant_sim seller).bind ?_
  intro s s' hs
  rw [← Option.not_isSome, ← Option.not_isSome, optionRel_isSome hs]
  refine .guard fun _ => (setEscrow_sim escrowId _).bind ?_
  intro _ _ _
  exact .pure rfl

/-- An escrow that the operation needs. -/
theorem needEscrow_sim {α : Type} {id : Id} {err : String} {f : Escrow → Exec α}
    (h : ∀ e, (f e).IgnoresActive) : Exec.IgnoresActive
      (getEscrow id >>= fun o => match o with | some e => f e | _ => throw err) := by
  refine (getEscrow_sim id).bind ?_
  rintro (_ | e) _ rfl
  · exact .throw
  · exact h e

/-- A dispute that the operation needs. -/
theorem needDispute_sim {α : Type} {id : Id} {err : String} {f : Dispute → Exec α}
    (h : ∀ d, (f d).IgnoresActive) : Exec.IgnoresActive
      (getDispute id >>= fun o => match o with | some d => f d | _ => throw err) := by
  refine (getDispute_sim id).bind ?_
  rintro (_ | d) _ rfl
  · exact .throw
  · exact h d

theorem Escrow.release_sim (sender escrowId : Id) (evidenceHash : Hash) (timestamp : Int64)
    (rewardAmount : UInt64) :
    (Escrow.release sender escrowId evidenceHash timestamp rewardAmount).IgnoresActive := by
  unfold Escrow.release
  refine needEscrow_sim fun escrow => ?_
  refine .guard fun _ => .guard fun _ => .guard fun _ => (setEscrow_sim escrowId _).bind ?_
  intro _ _ _
  refine needParticipant_sim ?_
  rintro b _ ⟨v, rfl⟩
  refine (setParticipant_sim escrow.buyer ⟨v, rfl⟩).bind ?_
  intro _ _ _
  refine needParticipant_sim ?_
  rintro s _ ⟨w, rfl⟩
  refine (setParticipant_sim escrow.seller ⟨w, rfl⟩).bind ?_
  intro _ _ _
  refine .ite (fun _ => (Token.mint_sim escrow.buyer rewardAmount _).bind ?_) fun _ => .pure rfl
  rintro es _ rfl
  refine (Token.mint_sim escrow.seller rewardAmount _).bind ?_
  rintro es' _ rfl
  exact .pure rfl

theorem Escrow.refund_sim (sender escrowId : Id) (timestamp : Int64) :
    (Escrow.refund sender escrowId timestamp).IgnoresActive := by
  unfold Escrow.refund
  refine needEscrow_sim fun escrow => ?_
  refine .guard fun _ => .guard fun _ => (setEscrow_sim escrowId _).bind ?_
  intro _ _ _
  refine needParticipant_sim ?_
  rintro s _ ⟨v, rfl⟩
  refine (setParticipant_sim escrow.seller ⟨v, rfl⟩).bind ?_
  intro _ _ _
  exact .pure rfl

theorem Dispute.raise_sim (disputeId escrowId raisedBy : Id) (reason : DisputeReason)
    (evidenceHash : Hash) (timestamp : Int64) :
    (Dispute.raise disputeId escrowId raisedBy reason evidenceHash timestamp).IgnoresActive := by
  unfold Dispute.raise
  refine needEscrow_sim fun escrow => ?_
  refine .guard fun _ => .guard fun _ => (setEscrow_sim escrowId _).bind ?_
  intro _ _ _
  refine (setDispute_sim disputeId _).bind ?_
  intro _ _ _
  refine mayWrite_sim ?_ (.pure rfl)
  rintro p _ ⟨v, rfl⟩
  exact ⟨v, rfl⟩

theorem Dispute.submitEvidence_sim (sender disputeId : Id) (evidenceHash : Hash) :
    (Dispute.submitEvidence sender disputeId evidenceHash).IgnoresActive := by
  unfold Dispute.submitEvidence
  refine needDispute_sim fun dispute => needEscrow_sim fun escrow => ?_
  refine .guard fun _ => .guard fun _ => (setDispute_sim disputeId _).bind ?_
  intro _ _ _
  exact .pure rfl

theorem Dispute.resolve_sim (dispute : Dispute) (resolution : UInt8)
    (disputeWonReward : UInt64) :
    (Dispute.resolve dispute resolution disputeWonReward).IgnoresActive := by
  unfold Dispute.resolve
  refine needEscrow_sim fun escrow => ?_
  refine .ite (fun _ => .pure rfl) fun _ => mayWrite_sim ?_ (mayWrite_sim ?_ ?_)
  · rintro p _ ⟨v, rfl⟩
    exact ⟨v, rfl⟩
  · rintro p _ ⟨v, rfl⟩
    exact ⟨v, rfl⟩
  · exact .ite (fun _ => Token.mint_sim _ disputeWonReward _) fun _ => .pure rfl

theorem Dispute.vote_sim (disputeId voter : Id) (decision : DisputeDecision) (timestamp : Int64)
    (disputeWonReward : UInt64) (voteThreshold : ℕ) :
    (Dispute.vote disputeId voter decision timestamp disputeWonReward
      voteThreshold).IgnoresActive := by
  unfold Dispute.vote
  refine needDispute_sim fun dispute => needParticipant_sim ?_
  rintro p _ ⟨v, rfl⟩
  refine .guard fun _ => .guard fun _ => .guard fun _ => .ite (fun _ => ?_) fun _ => ?_
  · refine (Dispute.resolve_sim _ _ disputeWonReward).bind ?_
    rintro es _ rfl
    refine (setDispute_sim disputeId _).bind ?_
    intro _ _ _
    exact .pure rfl
  · refine (setDispute_sim disputeId _).bind ?_
    intro _ _ _
    exact .pure rfl

theorem anchorMerkleRoot_sim (P : Params) (sender batchId : Id) (merkleRoot : Hash)
    (entryCount fromEntryId toEntryId : UInt64) (timestamp : Int64) :
    (anchorMerkleRoot P sender batchId merkleRoot entryCount fromEntryId toEntryId
      timestamp).IgnoresActive := by
  unfold anchorMerkleRoot
  refine .guard fun _ => (getAnchor_sim batchId).bind ?_
  rintro o _ rfl
  refine .guard fun _ => (setAnchor_sim batchId _).bind ?_
  intro _ _ _
  exact .pure rfl

/-- **No payload sees the flags.** -/
theorem runPayload_sim (P : Params) (sender : Id) (t : Int64) (p : TxPayload) :
    (runPayload P sender t p).IgnoresActive := by
  cases p with
  | registerParticipant id ty md => exact Participant.register_sim sender id ty md t
  | updateParticipant id md => exact Participant.update_sim sender id md t
  | deactivateParticipant id => exact Participant.deactivate_sim sender id
  | recordSettlement id d => exact Settlement.record_sim sender id d t _
  | recordRating id n ok => exact Settlement.recordRating_sim id n ok t _
  | createEscrow e b s n x => exact Escrow.create_sim sender e b s n x t
  | releaseEscrow e ev => exact Escrow.release_sim sender e ev t _
  | refundEscrow e => exact Escrow.refund_sim sender e t
  | raiseDispute d e reason ev => exact Dispute.raise_sim d e sender reason ev t
  | submitEvidence d ev => exact Dispute.submitEvidence_sim sender d ev
  | voteDispute d dec => exact Dispute.vote_sim d sender dec t _ _
  | transferRCW b n memo => exact Token.transfer_sim sender b n memo
  | spendRCW n purpose => exact Token.spend_sim sender n purpose
  | anchorMerkleRoot b root n i j => exact anchorMerkleRoot_sim P sender b root n i j t

section Run

variable {P : Params}

/-- What is so of the records is so of the store that holds them. -/
theorem onRecords_sim {α : Type} {x : Exec α} (h : x.IgnoresActive) :
    Sim Store.SameButActive Eq (onRecords x) (onRecords x) := by
  intro s s' hs
  have hx := h s.records s'.records hs.records
  rw [onRecords_run, onRecords_run]
  cases hr : x.run s.records <;> cases hr' : x.run s'.records <;> simp only [hr, hr'] at hx ⊢
  · exact ⟨hx.1, hx.2, by rw [hs.others]⟩
  · exact ⟨hx.1, hx.2, by rw [hs.others]⟩

theorem checkAndUpdateNonce_sim (tx : Transaction) :
    Sim Store.SameButActive Eq (checkAndUpdateNonce tx) (checkAndUpdateNonce tx) := by
  unfold checkAndUpdateNonce
  refine Sim.get.bind fun s s' hs => ?_
  have hnonce : s'.getNonce tx.sender = s.getNonce tx.sender := by
    rw [hs.others]
    rfl
  rw [hnonce]
  refine .guard fun _ => .modify ?_
  intro s s' hs
  refine ⟨hs.records, ?_⟩
  rw [hs.others]
  rfl

/-- **`execute` does not see the flags.** -/
theorem execute_sim (tx : Transaction) (t : Int64) :
    Sim Store.SameButActive Eq (execute P tx t) (execute P tx t) :=
  (checkAndUpdateNonce_sim tx).bind fun _ _ _ =>
    onRecords_sim (runPayload_sim P tx.sender t tx.payload)

theorem Execution.SameButActive.execute {x y : Execution} (h : x.SameButActive y) (act : Timed) :
    (x.execute P act).SameButActive (y.execute P act) := by
  have hsim := execute_sim (P := P) act.1 act.2 x.store y.store h.store
  unfold Execution.execute
  cases hx : (RoutineChain.execute P act.1 act.2).run x.store <;>
    cases hy : (RoutineChain.execute P act.1 act.2).run y.store <;>
      simp only [hx, hy] at hsim ⊢
  · exact ⟨hsim.2, by rw [hsim.1, h.events]⟩
  · exact ⟨hsim.2, h.events⟩

theorem Execution.SameButActive.succeeds {x y : Execution} (h : x.SameButActive y) (act : Timed) :
    x.Succeeds P act ↔ y.Succeeds P act := by
  have hok : isOk (RoutineChain.execute P act.1 act.2) x.store =
      isOk (RoutineChain.execute P act.1 act.2) y.store := (execute_sim act.1 act.2).isOk h.store
  unfold Execution.Succeeds
  rw [hok]

/-- **A run does not see the flags.** -/
theorem Execution.SameButActive.run {x y : Execution} (h : x.SameButActive y) (l : List Timed) :
    (Runs.run (Execution.execute P) x l).SameButActive (Runs.run (Execution.execute P) y l) :=
  Runs.sim_run (fun _ _ act hxy => hxy.execute act) h l

end Run

/-! ## The flag stays cleared -/

/-- `a` is registered, and its flag is cleared. -/
def Records.Inactive (r : Records) (a : Id) : Prop :=
  r.participants[a]?.map (·.isActive) = some false

theorem Participant.Update.isActive {p : TxPayload} {t : Int64} {q q' : Participant}
    (h : q.Update p t q') (hq : q.isActive = false) : q'.isActive = false := by
  cases h with
  | rated _ => exact (q.sameProfile_rated _ _ t).isActive.trans hq
  | deactivated => rfl
  | _ => exact hq

section Inactive

variable {P : Params} {a x : Id} {t : Int64} {r r' : Records} {p : TxPayload} {es : List Event}

theorem Records.Updated.inactive {n : ℕ} (h : r.Updated p t n r') (hr : r.Inactive x) :
    r'.Inactive x := by
  have hx := h x
  unfold Records.Inactive at hr ⊢
  generalize r.participants[x]? = o at hx hr
  generalize r'.participants[x]? = o' at hx
  cases hx with
  | none => cases hr
  | some hu =>
    simp only [Option.map_some, Option.some_inj] at hr ⊢
    exact hu.inv (I := fun q => q.isActive = false) (fun _ _ hstep => hstep.isActive) hr

theorem TxPayload.Outcome.inactive (h : p.Outcome P a t r es r') (hr : r.Inactive x) :
    r'.Inactive x := by
  rcases h.participants with hupd | ⟨ty, md, hnew, hins⟩
  · exact hupd.inactive hr
  · unfold Records.Inactive at hr ⊢
    -- a registration is that of another account
    have hax : a ≠ x := by
      rintro rfl
      rw [hnew] at hr
      cases hr
    rw [hins, Table.get_insert, if_neg hax]
    exact hr

/-- A payload that fails has written the buyer of an escrow at most. -/
theorem runPayload_failed {err : String} (h : (runPayload P a t p).run r = .error err r') :
    r.Updated p t 1 r' := by
  rcases runPayload_outcome P a t p r with ⟨err₁, r₁, h₁, hfail⟩ | ⟨es, r₁, h₁, -⟩
  · rw [h₁] at h
    cases h
    cases hfail with
    | clean => exact .of_eq rfl
    | refunded he ha hopen hmissing => exact .of_eq rfl
    | @released e ev esc _ he ha hopen ht hmissing hr =>
      -- which records it leaves is read off the operation itself
      have hrun : (Escrow.release a e ev t P.rewards.escrowCompleted).run r = .error err r' := h₁
      rcases Escrow.release_cases (r := r) a e ev t P.rewards.escrowCompleted with
        ⟨err₂, h₂⟩ | ⟨esc₂, -, -, -, -, r₁, rfl, h₂⟩
      · rw [h₂] at hrun
        cases hrun
        exact .of_eq rfl
      · rcases h₂ with ⟨-, err₂, h₂⟩ | ⟨b, r₂, hb, rfl, ⟨-, err₂, h₂⟩ | ⟨s, -, h₂⟩⟩ <;>
          rw [h₂] at hrun <;> cases hrun
        · exact .of_eq rfl
        · exact .put hb .released
  · rw [h₁] at h
    cases h

theorem runPayload_inactive (hr : r.Inactive x) :
    (after (runPayload P a t p) r).Inactive x := by
  rcases runPayload_outcome P a t p r with ⟨err, r', h, -⟩ | ⟨es, r', h, hout⟩
  · rw [after_error h]
    exact (runPayload_failed h).inactive hr
  · rw [after_ok h]
    exact hout.inactive hr

end Inactive

section Deactivation

variable {P : Params} {a : Id} {x y : Execution}

theorem Execution.inactive_execute (act : Timed) (h : x.store.records.Inactive a) :
    (x.execute P act).store.records.Inactive a := by
  by_cases hf : act.1.Fresh x.store
  · rw [Execution.execute_records hf]
    exact runPayload_inactive h
  · rw [Execution.execute_store, after_execute, if_neg hf]
    exact h

/-- **A cleared flag stays cleared.** -/
theorem Execution.inactive_run (h : x.store.records.Inactive a) (l : List Timed) :
    (Runs.run (Execution.execute P) x l).store.records.Inactive a :=
  Runs.inv_run (I := fun x => x.store.records.Inactive a)
    (fun _ act hx _ => Execution.inactive_execute act hx) h (Runs.along_true x l)

/-- What a successful deactivation returns and writes. -/
theorem Execution.execute_deactivate {d : Timed} (hd : d.1.payload = .deactivateParticipant a)
    (hs : x.Succeeds P d) : ∃ p, x.store.records.participants[a]? = some p ∧
      x.execute P d =
        { store := x.store.afterTx d.1
            (x.store.records.putParticipant a { p with isActive := false })
          events := x.events ++ [.participantDeactivated a] } := by
  rcases execute_outcome P d.1 d.2 x.store with
    ⟨-, err, h⟩ | ⟨-, err, r', h, -⟩ | ⟨-, es, r', h, hout⟩
  · simp [Execution.Succeeds, isOk, h] at hs
  · simp [Execution.Succeeds, isOk, h] at hs
  · rw [hd] at hout
    unfold Execution.execute
    rw [h]
    cases hout with
    | @deactivated p hp => exact ⟨p, hp, rfl⟩

end Deactivation

/-! ## What deactivation does -/

/-- No transaction of the kind `K` goes through, in `x` or later. -/
def Execution.Refuses (P : Params) (x : Execution) (K : Transaction → Prop) : Prop :=
  ∀ (l : List Timed) (act : Timed), K act.1 →
    ¬ (Runs.run (Execution.execute P) x l).Succeeds P act

/-- A vote by `a`. -/
def Transaction.VotesAs (a : Id) (tx : Transaction) : Prop :=
  tx.sender = a ∧ ∃ d dec, tx.payload = .voteDispute d dec

/-- An escrow with `a` as buyer or seller. -/
def Transaction.Engages (a : Id) (tx : Transaction) : Prop :=
  ∃ e b s n x, tx.payload = .createEscrow e b s n x ∧ (b = a ∨ s = a)

/-- A settlement for `a`. -/
def Transaction.SettlesFor (a : Id) (tx : Transaction) : Prop :=
  ∃ d, tx.payload = .recordSettlement a d

/-- A rating of `a`. -/
def Transaction.Rates (a : Id) (tx : Transaction) : Prop :=
  ∃ n ok, tx.payload = .recordRating a n ok

/-- **The deactivation of `a` takes effect** from `x` on. -/
structure DeactivationTakesEffect (P : Params) (a : Id) (x : Execution) : Prop where
  votes : x.Refuses P (·.VotesAs a)
  escrows : x.Refuses P (·.Engages a)
  settlements : x.Refuses P (·.SettlesFor a)
  ratings : x.Refuses P (·.Rates a)
  inactive : ∀ l, (Runs.run (Execution.execute P) x l).store.records.Inactive a

/-- Two arbiters register. -/
def toyArbiters : List Timed :=
  [(.toy 1 1 (.registerParticipant 1 .arbiter ""), 0),
    (.toy 2 1 (.registerParticipant 2 .arbiter ""), 0)]

/-- The first one is deactivated. -/
def Timed.toyDeactivate : Timed := (.toy 1 2 (.deactivateParticipant 1), 10)

/-- It settles, is rated, trades with the other one, and votes on the dispute over its own
escrow. -/
def toyUnaffected : List Timed :=
  [(.toy 1 3 (.recordSettlement 1
      { recordId := 9, grossAmount := 100, platformFee := 10, netAmount := 90, currency := 0,
        settledAt := 0 }), 20),
    (.toy 2 2 (.recordRating 1 500 true), 20), (.toy 1 4 (.createEscrow 7 1 2 100 90), 20),
    (.toy 2 3 (.raiseDispute 8 7 .damaged 0), 30), (.toy 1 5 (.voteDispute 8 .favorBuyer), 40)]

theorem Execution.not_refuses {P : Params} {x : Execution} {K : Transaction → Prop}
    (l : List Timed) (act : Timed) (hK : K act.1)
    (hs : (Runs.run (Execution.execute P) x l).Succeeds P act) : ¬ x.Refuses P K :=
  fun h => h l act hK hs

/-- The state after the deactivation. -/
abbrev Execution.toyDeactivated : Execution :=
  (executeAll .default toyArbiters).execute .default .toyDeactivate

/-- Each kind of transaction goes through. -/
theorem Execution.toyDeactivated_refuses_nothing :
    ¬ toyDeactivated.Refuses .default (·.VotesAs 1) ∧
    ¬ toyDeactivated.Refuses .default (·.Engages 1) ∧
    ¬ toyDeactivated.Refuses .default (·.SettlesFor 1) ∧
    ¬ toyDeactivated.Refuses .default (·.Rates 1) := by
  refine ⟨?_, ?_, ?_, ?_⟩
  · exact not_refuses (toyUnaffected.take 4) (toyUnaffected.get ⟨4, by decide⟩)
      ⟨rfl, 8, .favorBuyer, rfl⟩ (by decide +kernel)
  · exact not_refuses (toyUnaffected.take 2) (toyUnaffected.get ⟨2, by decide⟩)
      ⟨7, 1, 2, 100, 90, rfl, .inl rfl⟩ (by decide +kernel)
  · exact not_refuses [] (toyUnaffected.get ⟨0, by decide⟩) ⟨_, rfl⟩ (by decide +kernel)
  · exact not_refuses (toyUnaffected.take 1) (toyUnaffected.get ⟨1, by decide⟩)
      ⟨500, true, rfl⟩ (by decide +kernel)

/-- The deactivated participant votes, trades, settles and is rated. -/
theorem deactivation_fails : ¬ ∀ (P : Params) (l : List Timed) (d : Timed) (a : Id),
    d.1.payload = .deactivateParticipant a → (executeAll P l).Succeeds P d →
      DeactivationTakesEffect P a ((executeAll P l).execute P d) := by
  intro hall
  have heffect := hall .default toyArbiters .toyDeactivate 1 rfl (by decide +kernel)
  exact Execution.toyDeactivated_refuses_nothing.1 heffect.votes

/-- `y` with the records of `x`: the transaction between them has used up its nonce and returned
its events, and has written nothing. -/
def Execution.undone (x y : Execution) : Execution :=
  { y with store := { y.store with records := x.store.records } }

/-- **What the deactivation of `a` does** that leads from `x` to `y`: its flag stays cleared,
and every run goes on as it would have without the deactivation. -/
structure DeactivationMarks (P : Params) (a : Id) (x y : Execution) : Prop where
  inactive : ∀ l, (Runs.run (Execution.execute P) y l).store.records.Inactive a
  alike : ∀ l, (Runs.run (Execution.execute P) (x.undone y) l).SameButActive
    (Runs.run (Execution.execute P) y l)
  succeeds : ∀ (l : List Timed) (act : Timed),
    (Runs.run (Execution.execute P) y l).Succeeds P act ↔
      (Runs.run (Execution.execute P) (x.undone y) l).Succeeds P act

/-- **A deactivation marks the participant for good, and does nothing else.** -/
theorem deactivation_marks (P : Params) (x : Execution) (d : Timed) (a : Id)
    (hd : d.1.payload = .deactivateParticipant a) (hs : x.Succeeds P d) :
    DeactivationMarks P a x (x.execute P d) := by
  obtain ⟨p, hp, hexec⟩ := Execution.execute_deactivate hd hs
  have hcleared : (x.execute P d).store.records.Inactive a := by
    unfold Records.Inactive
    rw [hexec, Store.afterTx_records, Records.putParticipant_participants, Table.get_insert,
      if_pos rfl]
    rfl
  have hsame : (x.undone (x.execute P d)).SameButActive (x.execute P d) := by
    rw [hexec]
    exact ⟨⟨.putFlag hp, rfl⟩, rfl⟩
  exact ⟨Execution.inactive_run hcleared, hsame.run,
    fun l act => ((hsame.run l).succeeds act).symm⟩

theorem deactivation_marks_toy : DeactivationMarks .default 1 (executeAll .default toyArbiters)
    ((executeAll .default toyArbiters).execute .default .toyDeactivate) :=
  deactivation_marks .default _ .toyDeactivate 1 rfl (by decide +kernel)

end RoutineChain
