import RoutineChain.Proof.Voting

/-!
# Votes in any order

Votes that bring a dispute to the threshold can be executed in any order: none but the last
resolves it, the resolution does not depend on the order, and so nothing does but the order of
the new votes in the record (`votes_commute`).
-/

namespace RoutineChain

open EStateM Std

/-- The votes that transactions cast at time `t`. -/
def ballots (t : Int64) (txs : List Transaction) : List DisputeVote :=
  txs.filterMap fun tx =>
    match tx.payload with
    | .voteDispute _ decision =>
      some { voter := tx.sender, decision := decision.toU8, votedAt := t }
    | _ => none

/-- The transactions at time `t`. -/
def atTime (t : Int64) (txs : List Transaction) : List Timed := txs.map fun tx => (tx, t)

/-- The dispute that a payload votes on. -/
def TxPayload.votesOn : TxPayload → Option Id
  | .voteDispute d _ => some d
  | _ => none

/-- The transaction is a vote on `d` that is counted: fresh, from a registered arbiter that
has not voted. -/
def Store.TakesVote (s : Store) (d : Id) (dis : Dispute) (tx : Transaction) : Prop :=
  tx.Fresh s ∧ tx.payload.votesOn = some d ∧
    (∃ q ∈ s.records.participants[tx.sender]?, q.pType = ParticipantType.arbiter.toU8) ∧
    ∀ v ∈ dis.votes, v.voter ≠ tx.sender

instance (s : Store) (d : Id) (dis : Dispute) (tx : Transaction) :
    Decidable (s.TakesVote d dis tx) :=
  inferInstanceAs (Decidable (_ ∧ _ ∧ _ ∧ _))

theorem TxPayload.votesOn_eq_some {p : TxPayload} {d : Id} :
    p.votesOn = some d ↔ ∃ dec, p = .voteDispute d dec := by
  cases p <;> simp [votesOn]

/-! ## Tallies -/

/-- A vote adds to each side what it gives from nothing. -/
theorem tallyVote_eq (tally : UInt32 × UInt32) (v : DisputeVote) :
    tallyVote tally v =
      (tally.1 + (tallyVote (0, 0) v).1, tally.2 + (tallyVote (0, 0) v).2) := by
  obtain ⟨b, s⟩ := tally
  simp only [tallyVote]
  split <;> simp

theorem tallyVote_comm (tally : UInt32 × UInt32) (v v' : DisputeVote) :
    tallyVote (tallyVote tally v) v' = tallyVote (tallyVote tally v') v := by
  rw [tallyVote_eq (tallyVote tally v) v', tallyVote_eq (tallyVote tally v') v,
    tallyVote_eq tally v, tallyVote_eq tally v']
  simp only [Prod.mk.injEq]
  refine ⟨?_, ?_⟩
  · rw [UInt32.add_assoc, UInt32.add_assoc, UInt32.add_comm (tallyVote (0, 0) v).1]
  · rw [UInt32.add_assoc, UInt32.add_assoc, UInt32.add_comm (tallyVote (0, 0) v).2]

/-- **The resolution does not depend on the order of the votes.** -/
theorem resolutionOf_perm {votes votes' : List DisputeVote} (h : votes.Perm votes') :
    resolutionOf votes = resolutionOf votes' := by
  unfold resolutionOf
  rw [h.foldl_eq' fun v _ v' _ tally => tallyVote_comm tally v v']

/-! ## Writes to one dispute -/

section Put

variable {r : Records} {d : Id} {dis dis' : Dispute}

theorem Records.putDispute_putDispute :
    (r.putDispute d dis).putDispute d dis' = r.putDispute d dis' := by
  unfold Records.putDispute
  simp only [Table.insert_insert]

theorem Records.putDispute_same (h : r.disputes[d]? = some dis) : r.putDispute d dis = r := by
  unfold Records.putDispute
  rw [Table.insert_same h]

theorem Records.modifyParticipant_putDispute (x : Id) (f : Participant → Participant) :
    (r.putDispute d dis).modifyParticipant x f = (r.modifyParticipant x f).putDispute d dis := by
  unfold Records.modifyParticipant
  rw [Records.putDispute_participants]
  split <;> rfl

theorem Records.reward_putDispute (x : Id) (w : UInt64) :
    (r.putDispute d dis).reward x w = (r.reward x w).putDispute d dis := by
  unfold Records.reward
  split <;> rfl

/-- Resolving a dispute does not look at the disputes. -/
theorem Records.resolve_putDispute (esc : Escrow) (x : Id) (res : UInt8) (w : UInt64) :
    (r.putDispute d dis).resolve esc x res w = (r.resolve esc x res w).putDispute d dis := by
  unfold Records.resolve
  split
  · rfl
  · simp only [Records.modifyParticipant_putDispute, Records.reward_putDispute]

end Put

/-! ## The nonces of a list of transactions -/

/-- The store once it has the nonces of `txs`. -/
def Store.setNonces (s : Store) (txs : List Transaction) : Store :=
  txs.foldl (fun s tx => s.setNonce tx.sender tx.nonce) s

theorem Store.setNonces_records (s : Store) (r : Records) (txs : List Transaction) :
    Store.setNonces { s with records := r } txs = { s.setNonces txs with records := r } := by
  induction txs generalizing s with
  | nil => rfl
  | cons tx txs ih => exact ih (s.setNonce tx.sender tx.nonce)

/-- The nonces of different senders are written in any order. -/
theorem Store.setNonces_perm {txs txs' : List Transaction} (h : txs.Perm txs')
    (hsenders : (txs.map (·.sender)).Nodup) (s : Store) : s.setNonces txs = s.setNonces txs' := by
  refine h.foldl_eq' ?_ s
  intro tx htx tx' htx' s
  by_cases heq : tx = tx'
  · rw [heq]
  · have hne : tx.sender ≠ tx'.sender := fun hs =>
      heq (List.inj_on_of_nodup_map hsenders htx htx' hs)
    exact Store.afterTx_comm (s := s) hne s.records s.records s.records

/-! ## Runs of votes -/

/-- A dispute that takes the votes `txs`, one after the other. -/
structure Store.TakesVotes (s : Store) (d : Id) (dis : Dispute) (txs : List Transaction) :
    Prop where
  stored : s.records.disputes[d]? = some dis
  unresolved : dis.state ≠ .resolved
  escrow : s.records.escrows[dis.escrowId]?.isSome
  votes : ∀ tx ∈ txs, s.TakesVote d dis tx
  senders : (txs.map (·.sender)).Nodup

section Run

variable {P : Params} {s : Store} {x : Execution} {d : Id} {dis : Dispute} {t : Int64}
  {tx : Transaction} {txs : List Transaction}

theorem ballots_cons {dec : DisputeDecision} (hp : tx.payload = .voteDispute d dec) :
    ballots t (tx :: txs) =
      { voter := tx.sender, decision := dec.toU8, votedAt := t } :: ballots t txs := by
  unfold ballots
  rw [List.filterMap_cons, hp]

theorem ballots_append (txs txs' : List Transaction) :
    ballots t (txs ++ txs') = ballots t txs ++ ballots t txs' :=
  List.filterMap_append

/-- Each vote casts one. -/
theorem length_ballots (h : ∀ tx ∈ txs, tx.payload.votesOn = some d) :
    (ballots t txs).length = txs.length := by
  induction txs with
  | nil => rfl
  | cons tx txs ih =>
    obtain ⟨dec, hp⟩ := TxPayload.votesOn_eq_some.1 (h tx List.mem_cons_self)
    rw [ballots_cons hp, List.length_cons, ih fun tx' htx' => h tx' (.tail _ htx')]
    rfl

/-- What a vote on `d` does when it is executed. -/
theorem Store.TakesVote.run (h : s.TakesVote d dis tx) : ∃ dec, tx.payload = .voteDispute d dec ∧
      isOk (execute P tx t) s = isOk (Dispute.vote d tx.sender dec t P.rewards.disputeWon
        P.disputeVoteThreshold) s.records ∧
      after (execute P tx t) s = s.afterTx tx (after (Dispute.vote d tx.sender dec t
        P.rewards.disputeWon P.disputeVoteThreshold) s.records) := by
  obtain ⟨hf, hp, -, -⟩ := h
  obtain ⟨dec, hp⟩ := TxPayload.votesOn_eq_some.1 hp
  have hexec : tx.exec P t = Dispute.vote d tx.sender dec t P.rewards.disputeWon
      P.disputeVoteThreshold := by
    rw [Transaction.exec, hp]
    rfl
  refine ⟨dec, hp, ?_, ?_⟩
  · rw [Bool.eq_iff_iff, isOk_execute, hexec]
    exact and_iff_right hf
  · rw [after_execute, if_pos hf, hexec]
    rfl

/-- **A vote below the threshold** is added, and the other votes can follow. -/
theorem Store.TakesVotes.step (h : s.TakesVotes d dis (tx :: txs))
    (hlt : dis.votes.length + 1 < P.disputeVoteThreshold) :
    ∃ dec, tx.payload = .voteDispute d dec ∧ isOk (execute P tx t) s ∧
      after (execute P tx t) s =
        s.afterTx tx (s.records.putDispute d (dis.voted tx.sender dec t)) ∧
      (after (execute P tx t) s).TakesVotes d (dis.voted tx.sender dec t) txs := by
  have htx := h.votes tx List.mem_cons_self
  obtain ⟨dec, hp, hok, hafter⟩ := htx.run (P := P) (t := t)
  obtain ⟨-, -, ⟨q, hq, hty⟩, hvoters⟩ := htx
  have hrun := Dispute.vote_run h.stored hq hty h.unresolved hvoters dec t P.rewards.disputeWon
    P.disputeVoteThreshold
  rw [Dispute.length_voted, if_neg (Nat.not_le.2 hlt)] at hrun
  rw [after_ok hrun] at hafter
  obtain ⟨hsender, hsenders⟩ := List.nodup_cons.1 h.senders
  refine ⟨dec, hp, ?_, hafter, ?_⟩
  · rw [hok, isOk, hrun]
  · rw [hafter]
    have hvoting : DisputeState.voting ≠ .resolved := by decide
    refine ⟨?_, hvoting, h.escrow, ?_, hsenders⟩
    · rw [Store.afterTx_records, Records.putDispute_disputes, Table.get_insert, if_pos rfl]
    · intro tx' htx'
      obtain ⟨hf, hp', harb, hnew⟩ := h.votes tx' (.tail _ htx')
      have hne : tx.sender ≠ tx'.sender := by
        intro heq
        exact hsender (List.mem_map.2 ⟨tx', htx', heq.symm⟩)
      refine ⟨?_, hp', harb, ?_⟩
      · rw [Transaction.Fresh, Store.getNonce_afterTx, if_neg hne]
        exact hf
      · intro v hv
        rcases List.mem_append.1 hv with hv | hv
        · exact hnew v hv
        · rw [List.mem_singleton.1 hv]
          exact hne

/-- The dispute once it is resolved at time `t` with these votes. -/
def Dispute.settledBy (dis : Dispute) (votes : List DisputeVote) (t : Int64) : Dispute :=
  { dis with
    state := .resolved, votes, resolution := some (resolutionOf votes), resolvedAt := some t }

/-- **The vote that reaches the threshold** resolves the dispute. -/
theorem Store.TakesVotes.last (h : s.TakesVotes d dis [tx])
    (hle : P.disputeVoteThreshold ≤ dis.votes.length + 1) {esc : Escrow}
    (he : s.records.escrows[dis.escrowId]? = some esc) :
    isOk (execute P tx t) s ∧ after (execute P tx t) s =
      s.afterTx tx ((s.records.resolve esc dis.raisedBy
        (resolutionOf (dis.votes ++ ballots t [tx])) P.rewards.disputeWon).putDispute d
          (dis.settledBy (dis.votes ++ ballots t [tx]) t)) := by
  have htx := h.votes tx List.mem_cons_self
  obtain ⟨dec, hp, hok, hafter⟩ := htx.run (P := P) (t := t)
  obtain ⟨-, -, ⟨q, hq, hty⟩, hvoters⟩ := htx
  have hrun := Dispute.vote_run h.stored hq hty h.unresolved hvoters dec t P.rewards.disputeWon
    P.disputeVoteThreshold
  have hescrow : s.records.escrows[(dis.voted tx.sender dec t).escrowId]? = some esc := he
  have hresolve := Dispute.resolve_run hescrow
    (resolutionOf (dis.voted tx.sender dec t).votes) P.rewards.disputeWon
  rw [Dispute.length_voted, if_pos hle, hresolve] at hrun
  have hvotes : dis.votes ++ ballots t [tx] = (dis.voted tx.sender dec t).votes := by
    rw [ballots_cons hp]
    rfl
  rw [hvotes]
  refine ⟨?_, ?_⟩
  · rw [hok, isOk, hrun]
  · rw [hafter, after_ok hrun]
    rfl

/-- **Votes below the threshold** are added one after the other. -/
theorem Store.TakesVotes.run {rest : List Transaction} (h : x.store.TakesVotes d dis (txs ++ rest))
    (hlt : dis.votes.length + txs.length < P.disputeVoteThreshold) :
    Runs.Along (Execution.execute P) (Execution.Succeeds P) x (atTime t txs) ∧
    ∃ st, (Runs.run (Execution.execute P) x (atTime t txs)).store =
        { x.store.setNonces txs with
          records := x.store.records.putDispute d
            { dis with state := st, votes := dis.votes ++ ballots t txs } } ∧
      (Runs.run (Execution.execute P) x (atTime t txs)).store.TakesVotes d
        { dis with state := st, votes := dis.votes ++ ballots t txs } rest := by
  induction txs generalizing x dis with
  | nil =>
    refine ⟨trivial, dis.state, ?_, ?_⟩
    · have hsame : { dis with state := dis.state, votes := dis.votes ++ ballots t [] } = dis := by
        rw [ballots, List.filterMap_nil, List.append_nil]
      rw [hsame, Records.putDispute_same h.stored]
      rfl
    · rw [ballots, List.filterMap_nil, List.append_nil]
      exact h
  | cons tx txs ih =>
    rw [List.length_cons] at hlt
    obtain ⟨dec, hp, hok, hafter, hnext⟩ := h.step (P := P) (t := t) (by omega)
    have hstore : (x.execute P (tx, t)).store = after (execute P tx t) x.store :=
      Execution.execute_store P x (tx, t)
    rw [← hstore] at hafter hnext
    obtain ⟨halong, st, hrun, hrest⟩ := ih hnext (by rw [Dispute.length_voted]; omega)
    have hvotes : { dis.voted tx.sender dec t with
        state := st, votes := (dis.voted tx.sender dec t).votes ++ ballots t txs } =
        { dis with state := st, votes := dis.votes ++ ballots t (tx :: txs) } := by
      rw [ballots_cons hp]
      simp [Dispute.voted]
    rw [hvotes] at hrun hrest
    refine ⟨⟨hok, halong⟩, st, ?_, hrest⟩
    have hcons : Runs.run (Execution.execute P) x (atTime t (tx :: txs)) =
        Runs.run (Execution.execute P) (x.execute P (tx, t)) (atTime t txs) := rfl
    rw [hcons, hrun, hafter, Store.afterTx_records, Records.putDispute_putDispute, Store.afterTx,
      Store.setNonces_records]
    rfl

end Run

/-! ## All orders -/

/-- **The votes `txs` resolve the dispute**, in this order from `x`: all of them succeed, none
but the last resolves it, and the store is `s` but for the record of the dispute. -/
structure VotesResolve (P : Params) (x : Execution) (d : Id) (dis : Dispute) (t : Int64)
    (txs : List Transaction) (s : Store) (resolution : UInt8) : Prop where
  succeed : Runs.Along (Execution.execute P) (Execution.Succeeds P) x (atTime t txs)
  unresolved : ∀ txs₁, txs₁ <+: txs → txs₁ ≠ txs → ∃ dis',
    (Runs.run (Execution.execute P) x (atTime t txs₁)).store.records.disputes[d]? = some dis' ∧
      dis'.state ≠ .resolved
  store : (Runs.run (Execution.execute P) x (atTime t txs)).store =
    { s with
      records := s.records.putDispute d
        { dis with
          state := .resolved, votes := dis.votes ++ ballots t txs,
          resolution := some resolution, resolvedAt := some t } }

section Order

variable {P : Params} {x : Execution} {d : Id} {dis : Dispute} {t : Int64}
  {txs : List Transaction}

/-- **One order**: the votes below the threshold, and then the last. -/
theorem Store.TakesVotes.resolve {esc : Escrow} (h : x.store.TakesVotes d dis txs)
    (he : x.store.records.escrows[dis.escrowId]? = some esc) (hne : txs ≠ [])
    (hcount : dis.votes.length + txs.length = P.disputeVoteThreshold) :
    VotesResolve P x d dis t txs
      { x.store.setNonces txs with
        records := x.store.records.resolve esc dis.raisedBy
          (resolutionOf (dis.votes ++ ballots t txs)) P.rewards.disputeWon }
      (resolutionOf (dis.votes ++ ballots t txs)) := by
  obtain ⟨init, tx, rfl⟩ := (List.eq_nil_or_concat' txs).resolve_left hne
  rw [List.length_append, List.length_singleton] at hcount
  obtain ⟨halong, st, hrun, hlast⟩ := h.run (P := P) (t := t) (by omega)
  have hlen : (ballots t init).length = init.length := by
    refine length_ballots (d := d) ?_
    intro tx' htx'
    exact (h.votes tx' (List.mem_append_left _ htx')).2.1
  set x₁ := Runs.run (Execution.execute P) x (atTime t init)
  have he₁ : x₁.store.records.escrows[dis.escrowId]? = some esc := by
    rw [hrun]
    exact he
  obtain ⟨hok, hafter⟩ := hlast.last (P := P) (t := t) (by
    rw [List.length_append, hlen]
    omega) he₁
  have htimed : atTime t (init ++ [tx]) = atTime t init ++ [(tx, t)] := List.map_append
  have hvotes : dis.votes ++ ballots t init ++ ballots t [tx] =
      dis.votes ++ ballots t (init ++ [tx]) := by
    rw [ballots_append, List.append_assoc]
  refine ⟨?_, ?_, ?_⟩
  · rw [htimed]
    exact Runs.along_append.2 ⟨halong, hok, trivial⟩
  · intro txs₁ hpre hne₁
    obtain ⟨rest, hrest⟩ := (List.prefix_concat_iff.1 hpre).resolve_left hne₁
    rw [← hrest, List.append_assoc] at h
    have hshort : txs₁.length ≤ init.length := by
      rw [← hrest, List.length_append]
      exact Nat.le_add_right _ _
    obtain ⟨-, st₁, -, hstill⟩ := h.run (P := P) (t := t) (by omega)
    exact ⟨_, hstill.stored, hstill.unresolved⟩
  · rw [htimed, Runs.run_append, Runs.run_cons, Runs.run_nil, Execution.execute_store, hafter,
      hvotes, hrun, Records.resolve_putDispute, Records.putDispute_putDispute]
    simp only [Store.afterTx, Store.setNonces, List.foldl_append, List.foldl_cons,
      List.foldl_nil, Store.setNonce, Dispute.settledBy]

end Order

/-- **Votes that bring a dispute to the threshold can be executed in any order.** -/
theorem votes_commute (P : Params) (l : List Timed) (d : Id) (dis : Dispute) (t : Int64)
    (txs : List Transaction)
    (hd : (executeAll P l).store.records.disputes[d]? = some dis) (hs : dis.state ≠ .resolved)
    (hlt : dis.votes.length < P.disputeVoteThreshold)
    (hcount : dis.votes.length + txs.length = P.disputeVoteThreshold)
    (hvotes : ∀ tx ∈ txs, (executeAll P l).store.TakesVote d dis tx)
    (hsenders : (txs.map (·.sender)).Nodup) :
    ∃ (s : Store) (resolution : UInt8), ∀ txs', txs'.Perm txs →
      VotesResolve P (executeAll P l) d dis t txs' s resolution := by
  have hfiled := executeAll_disputesFiled P l d dis hd
  obtain ⟨esc, he⟩ := Option.isSome_iff_exists.1 hfiled
  refine ⟨{ (executeAll P l).store.setNonces txs with
    records := (executeAll P l).store.records.resolve esc dis.raisedBy
      (resolutionOf (dis.votes ++ ballots t txs)) P.rewards.disputeWon },
    resolutionOf (dis.votes ++ ballots t txs), ?_⟩
  intro txs' hperm
  have htakes : (executeAll P l).store.TakesVotes d dis txs' :=
    ⟨hd, hs, hfiled, fun tx htx => hvotes tx (hperm.mem_iff.1 htx),
      (hperm.map _).nodup_iff.2 hsenders⟩
  have hne : txs' ≠ [] := by
    rintro rfl
    rw [← hperm.length_eq, List.length_nil] at hcount
    omega
  have hresolve := htakes.resolve (P := P) (t := t) he hne (by rw [hperm.length_eq, hcount])
  have hballots : (dis.votes ++ ballots t txs').Perm (dis.votes ++ ballots t txs) :=
    (hperm.filterMap _).append_left _
  rwa [Store.setNonces_perm hperm htakes.senders, resolutionOf_perm hballots] at hresolve

/-- The buyer disputes the escrow of the trade as 8, and three arbiters have registered. -/
def toyRaised : List Timed :=
  toyTrade ++ [(.toy 3 1 (.registerParticipant 3 .arbiter ""), 0),
    (.toy 4 1 (.registerParticipant 4 .arbiter ""), 0),
    (.toy 5 1 (.registerParticipant 5 .arbiter ""), 0),
    (.toy 1 3 (.raiseDispute 8 7 .damaged 0), 10)]

/-- The dispute that the buyer has raised. -/
def Dispute.toyRaised : Dispute := .new 8 7 1 .damaged 0 10

/-- One vote for each decision. -/
def toyVotes : List Transaction :=
  [.toy 3 2 (.voteDispute 8 .favorSeller), .toy 4 2 (.voteDispute 8 .split),
    .toy 5 2 (.voteDispute 8 .favorBuyer)]

theorem votes_commute_toy : ∃ (s : Store) (resolution : UInt8), ∀ txs', txs'.Perm toyVotes →
    VotesResolve .default (executeAll .default toyRaised) 8 .toyRaised 20 txs' s resolution :=
  votes_commute .default toyRaised 8 .toyRaised 20 toyVotes (by decide +kernel) (by decide)
    (by decide) (by decide) (by decide +kernel) (by decide)

end RoutineChain
