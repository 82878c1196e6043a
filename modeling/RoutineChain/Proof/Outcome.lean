import RoutineChain.Proof.Execute
import RoutineChain.Spec.Execution

/-!
# What a transaction does

`Outcome` lists what a payload that goes through writes and returns, with what has been
checked before, and `Failure` what a payload that fails leaves behind. `runPayload_outcome`
says that there is nothing else. On runs of `execute` this becomes `Execution.Step`, and
every invariant of the state machine is proved by cases on it.
-/

namespace RoutineChain

open EStateM Std

theorem Table.get_insert {V : Type} (t : Table V) (k k' : Id) (v : V) :
    (t.insert k v)[k']? = if k = k' then some v else t[k']? := by
  rw [ExtTreeMap.getElem?_insert]
  simp only [Std.compare_eq_iff_eq]

theorem Table.insert_insert {V : Type} (T : Table V) (k : Id) (v w : V) :
    (T.insert k v).insert k w = T.insert k w := by
  refine ExtTreeMap.ext_getElem? ?_
  intro x
  simp only [Table.get_insert]
  split <;> rfl

theorem Table.insert_same {V : Type} {T : Table V} {k : Id} {v : V} (h : T[k]? = some v) :
    T.insert k v = T := by
  refine ExtTreeMap.ext_getElem? ?_
  intro x
  rw [Table.get_insert]
  split
  next hx => rw [← hx, h]
  next => rfl

/-- A relation between what was and what is stored under a key, after a write to one key. -/
theorem Table.rel_insert {V : Type} {R : Option V → Option V → Prop} {T T' : Table V}
    {k k' : Id} {v : V} (hT : T' = T.insert k v) (hsame : ∀ o, R o o)
    (hput : k = k' → R T[k']? (some v)) : R T[k']? T'[k']? := by
  rw [hT, Table.get_insert]
  by_cases hk : k = k'
  · rw [if_pos hk]
    exact hput hk
  · rw [if_neg hk]
    exact hsame _

theorem Records.modifyParticipant_get (r : Records) (k k' : Id) (f : Participant → Participant) :
    (r.modifyParticipant k f).participants[k']? =
      if k = k' then r.participants[k']?.map f else r.participants[k']? := by
  unfold Records.modifyParticipant
  split
  case h_1 p hp =>
    rw [Records.putParticipant_participants, Table.get_insert]
    by_cases hk : k = k'
    · rw [if_pos hk, if_pos hk, ← hk, hp, Option.map_some]
    · rw [if_neg hk, if_neg hk]
  case h_2 hp =>
    by_cases hk : k = k'
    · rw [if_pos hk, ← hk, hp, Option.map_none]
    · rw [if_neg hk]

/-- A participant that has just registered. -/
def Participant.new (id : Id) (ty : ParticipantType) (metadata : String) (t : Int64) :
    Participant :=
  { id, pType := ty.toU8, metadata, totalTx := 0, successTx := 0, disputeCount := 0,
    disputeWon := 0, ratingSum := 0, ratingCount := 0, totalVolume := 0, totalSettled := 0,
    registeredAt := t, lastActivityAt := t, isActive := true }

/-- The record of a settlement of `id`. -/
def SettlementRecord.new (id : Id) (d : SettlementData) (t : Int64) : SettlementRecord :=
  { recordId := d.recordId, participantId := id, grossAmount := d.grossAmount,
    platformFee := d.platformFee, netAmount := d.netAmount, currency := d.currency,
    settledAt := d.settledAt, recordedAt := t }

/-- The participant after a settlement. -/
def Participant.settled (p : Participant) (d : SettlementData) (t : Int64) : Participant :=
  { p with
    totalTx := satAdd p.totalTx 1
    successTx := satAdd p.successTx 1
    totalVolume := satAdd p.totalVolume d.grossAmount
    totalSettled := satAdd p.totalSettled d.netAmount
    lastActivityAt := t }

/-- An escrow that has just been created. -/
def Escrow.new (id buyer seller : Id) (amount : UInt64) (expiresAt t : Int64) : Escrow :=
  { id, buyer, seller, amount, state := .created, createdAt := t, expiresAt,
    evidenceHash := none, disputeId := none }

/-- A dispute that has just been raised. -/
def Dispute.new (id escrowId raisedBy : Id) (reason : DisputeReason) (evidence : Hash)
    (t : Int64) : Dispute :=
  { id, escrowId, raisedBy, reason := reason.toU8, evidenceHashes := [evidence], votes := [],
    state := .raised, resolution := none, raisedAt := t, resolvedAt := none }

/-- The dispute after its last vote. -/
def Dispute.resolved (dis : Dispute) (t : Int64) : Dispute :=
  { dis with
    state := .resolved, resolution := some (resolutionOf dis.votes), resolvedAt := some t }

/-- **What a payload of sender `a` that goes through returns and writes.** -/
inductive TxPayload.Outcome (P : Params) (a : Id) (t : Int64) (r : Records) :
    TxPayload → List Event → Records → Prop
  | registered {ty md} (hnew : r.participants[a]? = none) :
    Outcome P a t r (.registerParticipant a ty md) [.participantRegistered a ty.toU8]
      (r.putParticipant a (.new a ty md t))
  | updated {md p} (hp : r.participants[a]? = some p) :
    Outcome P a t r (.updateParticipant a md) [.participantUpdated a]
      (r.putParticipant a { p with metadata := md, lastActivityAt := t })
  | deactivated {p} (hp : r.participants[a]? = some p) :
    Outcome P a t r (.deactivateParticipant a) [.participantDeactivated a]
      (r.putParticipant a { p with isActive := false })
  -- a record stored under the same id is replaced
  | settled {d p} (hp : r.participants[a]? = some p) :
    Outcome P a t r (.recordSettlement a d)
      (.settlementRecorded a d.recordId ::
        rewardEvents a P.rewards.settlementRecorded "settlement_reward")
      (((r.putSettlement d.recordId (.new a d t)).putParticipant a (p.settled d t)).reward a
        P.rewards.settlementRecorded)
  -- anybody rates anybody, and the rated participant is rewarded
  | rated {id n ok p} (hp : r.participants[id]? = some p) :
    Outcome P a t r (.recordRating id n ok)
      (.ratingRecorded id (computeTrustScore (p.rated n ok t)) ::
        rewardEvents id P.rewards.ratingSubmitted "rating_reward")
      ((r.putParticipant id (p.rated n ok t)).reward id P.rewards.ratingSubmitted)
  | created {e s n x} (hnew : r.escrows[e]? = none) (hb : r.participants[a]?.isSome)
      (hs : r.participants[s]?.isSome) :
    Outcome P a t r (.createEscrow e a s n x) [.escrowCreated e a s n]
      (r.putEscrow e (.new e a s n x t))
  | released {e ev esc b s} (he : r.escrows[e]? = some esc) (ha : a = esc.buyer)
      (hopen : esc.state = .created ∨ esc.state = .funded) (ht : ¬ t > esc.expiresAt)
      (hb : r.participants[esc.buyer]? = some b)
      (hs : (r.participants.insert esc.buyer (b.released t))[esc.seller]? = some s) :
    Outcome P a t r (.releaseEscrow e ev)
      (.escrowReleased e :: (rewardEvents esc.buyer P.rewards.escrowCompleted "escrow_complete" ++
        rewardEvents esc.seller P.rewards.escrowCompleted "escrow_complete"))
      (((((r.putEscrow e { esc with state := .released, evidenceHash := some ev }).putParticipant
        esc.buyer (b.released t)).putParticipant esc.seller (s.sold esc.amount t)).reward
          esc.buyer P.rewards.escrowCompleted).reward esc.seller P.rewards.escrowCompleted)
  | refunded {e esc s} (he : r.escrows[e]? = some esc)
      (ha : a = esc.buyer ∨ t > esc.expiresAt)
      (hopen : esc.state = .created ∨ esc.state = .funded)
      (hs : r.participants[esc.seller]? = some s) :
    Outcome P a t r (.refundEscrow e) [.escrowRefunded e]
      ((r.putEscrow e { esc with state := .refunded }).putParticipant esc.seller
        { s with totalTx := satAdd s.totalTx 1, lastActivityAt := t })
  -- neither a dispute of the same id nor one over the same escrow is in the way
  | raised {d e reason ev esc} (he : r.escrows[e]? = some esc)
      (ha : a = esc.buyer ∨ a = esc.seller) (hs : ¬ esc.Settled) :
    Outcome P a t r (.raiseDispute d e reason ev) [.disputeRaised d e]
      (((r.putEscrow e { esc with state := .disputed, disputeId := some d }).putDispute d
          (.new d e a reason ev t)).modifyParticipant
        (if a = esc.buyer then esc.seller else esc.buyer) Participant.disputed)
  | evidence {d ev dis esc} (hd : r.disputes[d]? = some dis)
      (he : r.escrows[dis.escrowId]? = some esc) (ha : a = esc.buyer ∨ a = esc.seller)
      (hs : dis.state = .raised ∨ dis.state = .evidence) :
    Outcome P a t r (.submitEvidence d ev) []
      (r.putDispute d
        { dis with state := .evidence, evidenceHashes := dis.evidenceHashes ++ [ev] })
  | voted {d dec dis p} (hd : r.disputes[d]? = some dis) (hp : r.participants[a]? = some p)
      (ha : p.pType = ParticipantType.arbiter.toU8) (hs : dis.state ≠ .resolved)
      (hv : ∀ v ∈ dis.votes, v.voter ≠ a)
      (hm : (dis.voted a dec t).votes.length < P.disputeVoteThreshold) :
    Outcome P a t r (.voteDispute d dec) [] (r.putDispute d (dis.voted a dec t))
  | decided {d dec dis p esc} (hd : r.disputes[d]? = some dis)
      (hp : r.participants[a]? = some p) (ha : p.pType = ParticipantType.arbiter.toU8)
      (hs : dis.state ≠ .resolved) (hv : ∀ v ∈ dis.votes, v.voter ≠ a)
      (hm : P.disputeVoteThreshold ≤ (dis.voted a dec t).votes.length)
      (he : r.escrows[dis.escrowId]? = some esc) :
    Outcome P a t r (.voteDispute d dec)
      (resolveEvents esc (resolutionOf (dis.voted a dec t).votes) P.rewards.disputeWon ++
        [.disputeResolved d (resolutionOf (dis.voted a dec t).votes)])
      ((r.resolve esc dis.raisedBy (resolutionOf (dis.voted a dec t).votes)
        P.rewards.disputeWon).putDispute d ((dis.voted a dec t).resolved t))
  | transferred {b n memo} (hn : n ≠ 0) (ht : ¬ (r.balance a).total < n) :
    Outcome P a t r (.transferRCW b n memo) [.rcwTransferred a b n]
      ((r.putBalance a ((r.balance a).deduct n)).mint b n)
  | spent {n purpose} (hn : n ≠ 0) (ht : ¬ (r.balance a).total < n) :
    Outcome P a t r (.spendRCW n purpose) [.rcwSpent a n purpose]
      (r.putBalance a ((r.balance a).deduct n))
  | anchored {b root n i j} (ha : a ∈ P.platformKeys) (hnew : r.anchors[b]? = none) :
    Outcome P a t r (.anchorMerkleRoot b root n i j) [.anchorRecorded b root n]
      (r.putAnchor b
        { batchId := b, merkleRoot := root, entryCount := n, fromEntryId := i, toEntryId := j,
          anchoredAt := t })

/-- **What a payload that fails leaves behind**: nothing, or a settled escrow with a party
that is not registered. -/
inductive TxPayload.Failure (a : Id) (t : Int64) (r : Records) : TxPayload → Records → Prop
  | clean (p) : Failure a t r p r
  | released {e ev esc r'} (he : r.escrows[e]? = some esc) (ha : a = esc.buyer)
      (hopen : esc.state = .created ∨ esc.state = .funded) (ht : ¬ t > esc.expiresAt)
      (hmissing : r.participants[esc.buyer]? = none ∨ r.participants[esc.seller]? = none)
      (hr : r' = r.putEscrow e { esc with state := .released, evidenceHash := some ev } ∨
        ∃ b, r' = (r.putEscrow e { esc with
          state := .released, evidenceHash := some ev }).putParticipant esc.buyer b) :
    Failure a t r (.releaseEscrow e ev) r'
  | refunded {e esc} (he : r.escrows[e]? = some esc) (ha : a = esc.buyer ∨ t > esc.expiresAt)
      (hopen : esc.state = .created ∨ esc.state = .funded)
      (hmissing : r.participants[esc.seller]? = none) :
    Failure a t r (.refundEscrow e) (r.putEscrow e { esc with state := .refunded })

/-- **A payload goes through with an outcome, or it fails.** -/
theorem runPayload_outcome (P : Params) (a : Id) (t : Int64) (p : TxPayload) (r : Records) :
    (∃ err r', (runPayload P a t p).run r = .error err r' ∧ p.Failure a t r r') ∨
    ∃ es r', (runPayload P a t p).run r = .ok es r' ∧ p.Outcome P a t r es r' := by
  have hclean : (∃ err, (runPayload P a t p).run r = .error err r) →
      ∃ err r', (runPayload P a t p).run r = .error err r' ∧ p.Failure a t r r' := by
    rintro ⟨err, h⟩
    exact ⟨err, r, h, .clean p⟩
  cases p with
  | registerParticipant id ty md =>
    refine (Participant.register_cases a id ty md t).imp hclean ?_
    rintro ⟨rfl, hnew, h⟩
    exact ⟨_, _, h, .registered hnew⟩
  | updateParticipant id md =>
    refine (Participant.update_cases a id md t).imp hclean ?_
    rintro ⟨rfl, q, hq, h⟩
    exact ⟨_, _, h, .updated hq⟩
  | deactivateParticipant id =>
    refine (Participant.deactivate_cases a id).imp hclean ?_
    rintro ⟨rfl, q, hq, h⟩
    exact ⟨_, _, h, .deactivated hq⟩
  | recordSettlement id d =>
    refine (Settlement.record_cases a id d t P.rewards.settlementRecorded).imp hclean ?_
    rintro ⟨rfl, q, hq, h⟩
    exact ⟨_, _, h, .settled hq⟩
  | recordRating id n ok =>
    refine (Settlement.recordRating_cases id n ok t P.rewards.ratingSubmitted).imp hclean ?_
    rintro ⟨q, hq, h⟩
    exact ⟨_, _, h, .rated hq⟩
  | createEscrow e b s n x =>
    refine (Escrow.create_cases a e b s n x t).imp hclean ?_
    rintro ⟨rfl, hnew, hb, hs, h⟩
    exact ⟨_, _, h, .created hnew hb hs⟩
  | releaseEscrow e ev =>
    rcases Escrow.release_cases a e ev t P.rewards.escrowCompleted with
      herr | ⟨esc, he, ha, hopen, ht, r₁, rfl, h⟩
    · exact .inl (hclean herr)
    -- The escrow is written; each of the two lookups can still fail.
    rcases h with ⟨hb, err, h⟩ | ⟨b, r₂, hb, rfl, ⟨hs, err, h⟩ | ⟨s, hs, h⟩⟩
    · exact .inl ⟨err, _, h, .released he ha hopen ht (.inl hb) (.inl rfl)⟩
    · refine .inl ⟨err, _, h, .released he ha hopen ht (.inr ?_) (.inr ⟨_, rfl⟩)⟩
      simp only [Records.putParticipant_participants, Records.putEscrow_participants,
        Table.get_insert] at hs
      split at hs
      · cases hs
      · exact hs
    · exact .inr ⟨_, _, h, .released he ha hopen ht hb hs⟩
  | refundEscrow e =>
    rcases Escrow.refund_cases a e t with herr | ⟨esc, he, ha, hopen, r₁, rfl, h⟩
    · exact .inl (hclean herr)
    rcases h with ⟨hs, err, h⟩ | ⟨s, hs, h⟩
    · exact .inl ⟨err, _, h, .refunded he ha hopen hs⟩
    · exact .inr ⟨_, _, h, .refunded he ha hopen hs⟩
  | raiseDispute d e reason ev =>
    refine (Dispute.raise_cases d e a reason ev t).imp hclean ?_
    rintro ⟨esc, he, ha, hs, h⟩
    exact ⟨_, _, h, .raised he ha hs⟩
  | submitEvidence d ev =>
    refine (Dispute.submitEvidence_cases a d ev).imp hclean ?_
    rintro ⟨dis, esc, hd, he, ha, hs, h⟩
    exact ⟨_, _, h, .evidence hd he ha hs⟩
  | voteDispute d dec =>
    refine (Dispute.vote_cases d a dec t P.rewards.disputeWon P.disputeVoteThreshold).imp
      hclean ?_
    rintro ⟨dis, q, hd, hq, ha, hs, hv, ⟨hm, h⟩ | ⟨hm, esc, he, h⟩⟩
    · exact ⟨_, _, h, .voted hd hq ha hs hv hm⟩
    · exact ⟨_, _, h, .decided hd hq ha hs hv hm he⟩
  | transferRCW b n memo =>
    refine (Token.transfer_cases a b n memo).imp hclean ?_
    rintro ⟨hn, ht, h⟩
    exact ⟨_, _, h, .transferred hn ht⟩
  | spendRCW n purpose =>
    refine (Token.spend_cases a n purpose).imp hclean ?_
    rintro ⟨hn, ht, h⟩
    exact ⟨_, _, h, .spent hn ht⟩
  | anchorMerkleRoot b root n i j =>
    refine (anchorMerkleRoot_cases P a b root n i j t).imp hclean ?_
    rintro ⟨ha, hnew, h⟩
    exact ⟨_, _, h, .anchored ha hnew⟩

/-! ## One transaction of a run -/

/-- The store after a fresh transaction that leaves the records `r'`. -/
def Store.afterTx (s : Store) (tx : Transaction) (r' : Records) : Store :=
  { s.setNonce tx.sender tx.nonce with records := r' }

@[simp] theorem Store.afterTx_records (s : Store) (tx : Transaction) (r' : Records) :
    (s.afterTx tx r').records = r' := rfl

@[simp] theorem Store.getNonce_afterTx (s : Store) (tx : Transaction) (r' : Records) (a : Id) :
    (s.afterTx tx r').getNonce a = if tx.sender = a then tx.nonce else s.getNonce a :=
  Store.getNonce_setNonce s tx.sender a tx.nonce

/-- Two nonces are written in any order. -/
theorem Store.afterTx_comm {s : Store} {tx tx' : Transaction} (hne : tx.sender ≠ tx'.sender)
    (r₁ r₂ r' : Records) : (s.afterTx tx r₁).afterTx tx' r' = (s.afterTx tx' r₂).afterTx tx r' := by
  have hnonces : (s.nonces.insert tx.sender tx.nonce).insert tx'.sender tx'.nonce =
      (s.nonces.insert tx'.sender tx'.nonce).insert tx.sender tx.nonce := by
    refine ExtTreeMap.ext_getElem? ?_
    intro x
    simp only [Table.get_insert]
    by_cases hx : tx.sender = x
    · subst hx
      simp [hne.symm]
    · simp [hx]
  unfold Store.afterTx Store.setNonce
  rw [hnonces]

/-- `execute` as a whole: stale, failing after the nonce check, or going through. -/
theorem execute_outcome (P : Params) (tx : Transaction) (t : Int64) (s : Store) :
    (¬ tx.Fresh s ∧ ∃ err, (execute P tx t).run s = .error err s) ∨
    (tx.Fresh s ∧ ∃ err r', (execute P tx t).run s = .error err (s.afterTx tx r') ∧
      tx.payload.Failure tx.sender t s.records r') ∨
    (tx.Fresh s ∧ ∃ es r', (execute P tx t).run s = .ok es (s.afterTx tx r') ∧
      tx.payload.Outcome P tx.sender t s.records es r') := by
  by_cases hf : tx.Fresh s
  · right
    rcases runPayload_outcome P tx.sender t tx.payload s.records with
      ⟨err, r', h, hout⟩ | ⟨es, r', h, hout⟩
    · left
      refine ⟨hf, err, r', ?_, hout⟩
      have h : (tx.exec P t).run (s.setNonce tx.sender tx.nonce).records = .error err r' := h
      rw [execute_fresh hf, onRecords_run, h]
      rfl
    · right
      refine ⟨hf, es, r', ?_, hout⟩
      have h : (tx.exec P t).run (s.setNonce tx.sender tx.nonce).records = .ok es r' := h
      rw [execute_fresh hf, onRecords_run, h]
      rfl
  · exact .inl ⟨hf, execute_stale hf⟩

theorem executeAll_append_one (P : Params) (l : List Timed) (act : Timed) :
    executeAll P (l ++ [act]) = (executeAll P l).execute P act := by
  unfold executeAll
  rw [Runs.run_append, Runs.run_cons, Runs.run_nil]

theorem Execution.execute_store (P : Params) (x : Execution) (act : Timed) :
    (x.execute P act).store = after (RoutineChain.execute P act.1 act.2) x.store := by
  unfold Execution.execute
  cases h : (RoutineChain.execute P act.1 act.2).run x.store <;> simp [after, h]

/-- The records after a fresh transaction. -/
theorem Execution.execute_records {P : Params} {x : Execution} {act : Timed}
    (hf : act.1.Fresh x.store) : (x.execute P act).store.records =
      after (runPayload P act.1.sender act.2 act.1.payload) x.store.records := by
  rw [execute_store, after_execute, if_pos hf]

/-- The transaction succeeds. -/
def Execution.Succeeds (P : Params) (x : Execution) (act : Timed) : Prop :=
  isOk (RoutineChain.execute P act.1 act.2) x.store

instance (P : Params) (x : Execution) (act : Timed) : Decidable (x.Succeeds P act) :=
  inferInstanceAs (Decidable (_ = true))

/-- **The outcomes of one transaction of a run.** -/
inductive Execution.Step (P : Params) (x : Execution) (tx : Transaction) (t : Int64) :
    Execution → Prop
  | stale (h : ¬ tx.Fresh x.store) : Step P x tx t x
  | failed {r'} (h : tx.Fresh x.store)
      (hout : tx.payload.Failure tx.sender t x.store.records r') :
    Step P x tx t { x with store := x.store.afterTx tx r' }
  | succeeded {es r'} (h : tx.Fresh x.store)
      (hout : tx.payload.Outcome P tx.sender t x.store.records es r') :
    Step P x tx t { store := x.store.afterTx tx r', events := x.events ++ es }

/-- **Every transaction of a run has one of these outcomes.** -/
theorem execution_step (P : Params) (x : Execution) (a : Timed) :
    x.Step P a.1 a.2 (x.execute P a) := by
  unfold Execution.execute
  rcases execute_outcome P a.1 a.2 x.store with
    ⟨hf, err, h⟩ | ⟨hf, err, r', h, hout⟩ | ⟨hf, es, r', h, hout⟩
  · rw [h]
    exact .stale hf
  · rw [h]
    exact .failed hf hout
  · rw [h]
    exact .succeeded hf hout

end RoutineChain
