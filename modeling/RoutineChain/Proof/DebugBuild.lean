import RoutineChain.Lib.Checked
import RoutineChain.Proof.TrustScore
import RoutineChain.Spec.DebugBuild

/-!
# A debug build stops or does what a release build does

`Checks` relates each function of the debug build to the one of the release build: it panics,
or it returns, fails and writes the same. The proofs walk down the two `do` blocks together.
-/

namespace RoutineChain

open EStateM

namespace Debug

/-- The computation of a debug build panics, or does what that of a release build does. -/
abbrev Checks {σ α : Type} (x : EStateM Halt σ α) (y : EStateM String σ α) : Prop :=
  Follows Halt.failed .overflow x y

theorem checks_lift {σ α : Type} (y : EStateM String σ α) : Checks (liftM y) y := .adaptExcept

/-- A participant that the operation needs. -/
theorem checks_needParticipant {α : Type} {id : Id} {err : String} {f : Participant → DebugExec α}
    {g : Participant → Exec α} (h : ∀ p, Checks (f p) (g p)) : Checks
      ((getParticipant id : DebugExec _) >>= fun o =>
        match o with | some p => f p | _ => throw (.failed err))
      (getParticipant id >>= fun o => match o with | some p => g p | _ => throw err) := by
  refine (checks_lift (getParticipant id)).bind ?_
  rintro (_ | p)
  · exact .throw
  · exact h p

/-- An escrow that the operation needs. -/
theorem checks_needEscrow {α : Type} {id : Id} {err : String} {f : Escrow → DebugExec α}
    {g : Escrow → Exec α} (h : ∀ e, Checks (f e) (g e)) : Checks
      ((getEscrow id : DebugExec _) >>= fun o =>
        match o with | some e => f e | _ => throw (.failed err))
      (getEscrow id >>= fun o => match o with | some e => g e | _ => throw err) := by
  refine (checks_lift (getEscrow id)).bind ?_
  rintro (_ | e)
  · exact .throw
  · exact h e

/-- A participant that the operation writes if it is registered. -/
theorem checks_mayWrite {α : Type} {id : Id} {f : Participant → Participant} {x : DebugExec α}
    {y : Exec α} (h : Checks x y) : Checks
      ((getParticipant id : DebugExec _) >>= fun o =>
        match o with
        | some p => (setParticipant id (f p) : DebugExec _) >>= fun _ => x
        | _ => x)
      (getParticipant id >>= fun o =>
        match o with
        | some p => setParticipant id (f p) >>= fun _ => y
        | _ => y) := by
  refine (checks_lift (getParticipant id)).bind ?_
  rintro (_ | p)
  · exact h
  · exact (checks_lift (setParticipant id (f p))).bind fun _ => h

theorem Token.mint_checks (receiver : Id) (amount : UInt64) (reason : String) :
    Checks (Token.mint receiver amount reason)
      (RoutineChain.Token.mint receiver amount reason) := by
  unfold Token.mint RoutineChain.Token.mint
  refine (checks_lift (getBalance receiver)).bind fun b => .pureBind .check ?_
  exact (checks_lift (setBalance receiver _)).bind fun _ => .pure

theorem RCWBalance.total_checks (b : RCWBalance) :
    Checks (σ := Records) (RCWBalance.total b) (pure b.total) := .check

theorem RCWBalance.deduct_checks (b : RCWBalance) (amount : UInt64) :
    Checks (σ := Records) (RCWBalance.deduct b amount) (pure (b.deduct amount)) := by
  unfold RCWBalance.deduct RoutineChain.RCWBalance.deduct
  refine .itePure (fun _ => .pureBind .check .pure) fun _ => ?_
  exact .pureBind .check (.pureBind .check .pure)

theorem Token.transfer_checks (sender receiver : Id) (amount : UInt64) (memo : String) :
    Checks (Token.transfer sender receiver amount memo)
      (RoutineChain.Token.transfer sender receiver amount memo) := by
  unfold Token.transfer RoutineChain.Token.transfer
  refine .guard ((checks_lift (getBalance sender)).bind fun b => ?_)
  refine .pureBind (RCWBalance.total_checks b) (.ite ?_ ?_)
  · exact .pureBind (RCWBalance.total_checks b) .throwBind
  refine .pureBind (RCWBalance.deduct_checks b amount) ?_
  refine (checks_lift (setBalance sender _)).bind fun _ => ?_
  refine (checks_lift (getBalance receiver)).bind fun target => .pureBind .check ?_
  exact (checks_lift (setBalance receiver _)).bind fun _ => .pure

theorem Token.spend_checks (sender : Id) (amount : UInt64) (purpose : String) :
    Checks (Token.spend sender amount purpose)
      (RoutineChain.Token.spend sender amount purpose) := by
  unfold Token.spend RoutineChain.Token.spend
  refine .guard ((checks_lift (getBalance sender)).bind fun b => ?_)
  refine .pureBind (RCWBalance.total_checks b) (.ite ?_ ?_)
  · exact .pureBind (RCWBalance.total_checks b) .throwBind
  refine .pureBind (RCWBalance.deduct_checks b amount) ?_
  exact (checks_lift (setBalance sender _)).bind fun _ => .pure

/-- A reward that is minted if it is not zero. -/
theorem reward_checks (receiver : Id) (amount : UInt64) (reason : String)
    (events : List Event) : Checks
      (do
        if amount > 0 then return events ++ (← Token.mint receiver amount reason)
        return events)
      (do
        if amount > 0 then
          return events ++ (← RoutineChain.Token.mint receiver amount reason)
        return events) :=
  .ite ((Token.mint_checks receiver amount reason).bind fun _ => .pure) .pure

theorem Settlement.record_checks (sender participantId : Id) (data : SettlementData)
    (timestamp : Int64) (rewardAmount : UInt64) :
    Checks (Settlement.record sender participantId data timestamp rewardAmount)
      (RoutineChain.Settlement.record sender participantId data timestamp rewardAmount) := by
  unfold Settlement.record RoutineChain.Settlement.record
  refine .guard (checks_needParticipant fun p => ?_)
  refine (checks_lift (setSettlement data.recordId _)).bind fun _ => ?_
  refine (checks_lift (setParticipant participantId _)).bind fun _ => ?_
  exact reward_checks participantId rewardAmount _ _

theorem Escrow.release_checks (sender escrowId : Id) (evidenceHash : Hash) (timestamp : Int64)
    (rewardAmount : UInt64) :
    Checks (Escrow.release sender escrowId evidenceHash timestamp rewardAmount)
      (RoutineChain.Escrow.release sender escrowId evidenceHash timestamp rewardAmount) := by
  unfold Escrow.release RoutineChain.Escrow.release
  refine checks_needEscrow fun escrow => .guard (.guard (.guard ?_))
  refine (checks_lift (setEscrow escrowId _)).bind fun _ => checks_needParticipant fun b => ?_
  refine (checks_lift (setParticipant escrow.buyer _)).bind fun _ => ?_
  refine checks_needParticipant fun s => ?_
  refine (checks_lift (setParticipant escrow.seller _)).bind fun _ => .ite ?_ .pure
  refine (Token.mint_checks escrow.buyer rewardAmount _).bind fun _ => ?_
  exact (Token.mint_checks escrow.seller rewardAmount _).bind fun _ => .pure

theorem tallyVote_checks (tally : UInt32 × UInt32) (v : DisputeVote) :
    Checks (σ := Records) (tallyVote tally v) (pure (RoutineChain.tallyVote tally v)) := by
  obtain ⟨favorBuyer, favorSeller⟩ := tally
  unfold tallyVote RoutineChain.tallyVote
  dsimp only
  by_cases h0 : v.decision = 0
  · rw [h0]
    exact .pureBind .check .pure
  by_cases h1 : v.decision = 1
  · rw [h1]
    exact .pureBind .check .pure
  by_cases h2 : v.decision = 2
  · rw [h2]
    exact .pureBind .check (.pureBind .check .pure)
  · simp only
    exact .pure

theorem foldlM_tallyVote_checks (votes : List DisputeVote) (tally : UInt32 × UInt32) :
    Checks (σ := Records) (votes.foldlM tallyVote tally)
      (pure (votes.foldl RoutineChain.tallyVote tally)) := by
  induction votes generalizing tally with
  | nil => exact .pure
  | cons v votes ih =>
    rw [List.foldlM_cons, List.foldl_cons]
    exact .pureBind (tallyVote_checks tally v) (ih _)

theorem resolutionOf_checks (votes : List DisputeVote) :
    Checks (σ := Records) (resolutionOf votes) (pure (RoutineChain.resolutionOf votes)) :=
  .pureBind (foldlM_tallyVote_checks votes (0, 0)) .pure

theorem Dispute.resolve_checks (dispute : Dispute) (resolution : UInt8)
    (disputeWonReward : UInt64) :
    Checks (Dispute.resolve dispute resolution disputeWonReward)
      (RoutineChain.Dispute.resolve dispute resolution disputeWonReward) := by
  unfold Dispute.resolve RoutineChain.Dispute.resolve
  refine checks_needEscrow fun escrow => .ite .pure (checks_mayWrite (checks_mayWrite ?_))
  exact .ite (Token.mint_checks _ disputeWonReward _) .pure

theorem Dispute.vote_checks (disputeId voter : Id) (decision : DisputeDecision)
    (timestamp : Int64) (disputeWonReward : UInt64) (voteThreshold : ℕ) :
    Checks (Dispute.vote disputeId voter decision timestamp disputeWonReward voteThreshold)
      (RoutineChain.Dispute.vote disputeId voter decision timestamp disputeWonReward
        voteThreshold) := by
  unfold Dispute.vote RoutineChain.Dispute.vote
  refine (checks_lift (getDispute disputeId)).bind ?_
  rintro (_ | dispute)
  · exact .throw
  refine checks_needParticipant fun p => .guard (.guard (.guard (.ite ?_ ?_)))
  · refine .pureBind (resolutionOf_checks _) ?_
    refine (Dispute.resolve_checks _ _ disputeWonReward).bind fun es => ?_
    exact (checks_lift (setDispute disputeId _)).bind fun _ => .pure
  · exact (checks_lift (setDispute disputeId _)).bind fun _ => .pure

theorem disputeScore_checks (p : Participant) :
    Checks (σ := Records) (disputeScore p) (pure (if p.disputeCount > 0 then
      10000 - p.disputeCount.toNat * 10000 / p.totalTx.toNat * 3 else 10000)) :=
  .itePure (fun _ => .pureBind .check (.pureBind .check .pure)) fun _ => .pure

theorem ratingScore_checks (p : Participant) :
    Checks (σ := Records) (ratingScore p) (pure (if p.ratingCount > 0 then
      p.ratingSum.toNat * 2000 / p.ratingCount.toNat else 0)) :=
  .itePure (fun _ => .pureBind .check .pure) fun _ => .pure

theorem activeDays_checks (p : Participant) :
    Checks (σ := Records) (activeDays p) (pure p.activeDays) :=
  .itePure (fun _ => .pureBind .check .pure) fun _ => .pure

theorem computeTrustScore_checks (p : Participant) :
    Checks (σ := Records) (computeTrustScore p) (pure (RoutineChain.computeTrustScore p)) := by
  unfold computeTrustScore RoutineChain.computeTrustScore
  refine .itePure (fun _ => .pure) fun _ => ?_
  refine .pureBind .check (.pureBind (disputeScore_checks p) ?_)
  refine .pureBind (ratingScore_checks p) (.pureBind (activeDays_checks p) ?_)
  refine .pureBind .check (.pureBind .check (.pureBind .check (.pureBind .check ?_)))
  refine .pureBind .check (.pureBind .check (.pureBind .check (.pureBind .check ?_)))
  exact .pureBind .check (.pureBind .check .pure)

theorem Participant.rated_checks (p : Participant) (rating : UInt16) (success : Bool)
    (timestamp : Int64) :
    Checks (σ := Records) (Participant.rated p rating success timestamp)
      (pure (p.rated rating success timestamp)) := by
  unfold Participant.rated RoutineChain.Participant.rated
  by_cases hr : rating > 0 ∧ rating ≤ 500
  · simp only [if_pos hr]
    refine .pureBind .check (.pureBind .check ?_)
    cases success with
    | true => exact .pure
    | false => exact .pureBind .check .pure
  · simp only [if_neg hr]
    cases success with
    | true => exact .pure
    | false => exact .pureBind .check .pure

theorem Settlement.recordRating_checks (participantId : Id) (rating : UInt16) (success : Bool)
    (timestamp : Int64) (rewardAmount : UInt64) :
    Checks (Settlement.recordRating participantId rating success timestamp rewardAmount)
      (RoutineChain.Settlement.recordRating participantId rating success timestamp
        rewardAmount) := by
  unfold Settlement.recordRating RoutineChain.Settlement.recordRating
  refine checks_needParticipant fun p => ?_
  refine .pureBind (Participant.rated_checks p rating success timestamp) ?_
  refine (checks_lift (setParticipant participantId _)).bind fun _ => ?_
  refine .pureBind (computeTrustScore_checks _) ?_
  exact reward_checks participantId rewardAmount _ _

theorem runPayload_checks (P : Params) (sender : Id) (t : Int64) (p : TxPayload) :
    Checks (runPayload P sender t p) (RoutineChain.runPayload P sender t p) := by
  cases p with
  | recordSettlement id d => exact Settlement.record_checks sender id d t _
  | recordRating id n ok => exact Settlement.recordRating_checks id n ok t _
  | releaseEscrow e ev => exact Escrow.release_checks sender e ev t _
  | voteDispute d dec => exact Dispute.vote_checks d sender dec t _ _
  | transferRCW b n memo => exact Token.transfer_checks sender b n memo
  | spendRCW n purpose => exact Token.spend_checks sender n purpose
  | _ => exact checks_lift _

theorem onRecords_run {α : Type} (x : DebugExec α) (s : Store) :
    (onRecords x).run s = match x.run s.records with
      | .ok a r => .ok a { s with records := r }
      | .error e r => .error e { s with records := r } := rfl

theorem onRecords_checks {α : Type} {x : DebugExec α} {y : Exec α} (h : Checks x y) :
    Checks (onRecords x) (RoutineChain.onRecords y) := by
  intro s
  rw [run_adaptExcept, RoutineChain.onRecords_run, onRecords_run]
  rcases h s.records with ⟨r, hr⟩ | hr
  · rw [hr]
    exact .inl ⟨_, rfl⟩
  · rw [hr, run_adaptExcept]
    right
    cases y.run s.records <;> rfl

/-- **A debug build panics, or does what a release build does.** -/
theorem execute_checks (P : Params) (tx : Transaction) (t : Int64) :
    Checks (execute P tx t) (RoutineChain.execute P tx t) :=
  (checks_lift (checkAndUpdateNonce tx)).bind fun _ =>
    onRecords_checks (runPayload_checks P tx.sender t tx.payload)

end Debug

end RoutineChain
