import RoutineChain.Proof.Modules

/-!
# What a payload does to the escrows

* An escrow that is released or refunded stays so, and only a release or refund of it
  makes it so.
* A payload that fails leaves the records alone, or it has settled an escrow.
-/

namespace RoutineChain

open EStateM Std

/-- The escrow `id` is released or refunded. -/
def Records.SettledAt (r : Records) (id : Id) : Prop :=
  ∃ esc, r.escrows[id]? = some esc ∧ esc.Settled

/-- The payload releases or refunds the escrow `id`. -/
def TxPayload.Settles (id : Id) : TxPayload → Prop
  | .releaseEscrow e _ => e = id
  | .refundEscrow e => e = id
  | _ => False

variable {r : Records}

theorem anchorMerkleRoot_cases (P : Params) (a b : Id) (root : Hash) (n i j : UInt64)
    (t : Int64) :
    (∃ err, (anchorMerkleRoot P a b root n i j t).run r = .error err r) ∨
    (a ∈ P.platformKeys ∧ r.anchors[b]? = none ∧
      (anchorMerkleRoot P a b root n i j t).run r = .ok [.anchorRecorded b root n]
        (r.putAnchor b
          { batchId := b, merkleRoot := root, entryCount := n, fromEntryId := i,
            toEntryId := j, anchoredAt := t })) := by
  by_cases ha : a ∈ P.platformKeys
  · cases hb : r.anchors[b]? with
    | none => right; simp [anchorMerkleRoot, ha, hb]
    | some x => left; simp [anchorMerkleRoot, ha, hb]
  · left; simp [anchorMerkleRoot, ha]

/-- What a payload that goes through does to the escrows: nothing, or it writes one that
was not settled. Only a payload that settles an escrow writes a settled one. -/
def TxPayload.EscrowStep (p : TxPayload) (r r' : Records) : Prop :=
  (r'.escrows = r.escrows ∧ ∀ id, ¬ p.Settles id) ∨
  ∃ id esc, r'.escrows = r.escrows.insert id esc ∧ ¬ r.SettledAt id ∧
    (esc.Settled ↔ p.Settles id) ∧ ∀ id', p.Settles id' → id' = id

theorem not_settledAt_of_open {id : Id} {esc : Escrow} (he : r.escrows[id]? = some esc)
    (hs : ¬ esc.Settled) : ¬ r.SettledAt id := by
  rintro ⟨esc', he', hs'⟩
  rw [he, Option.some_inj] at he'
  exact hs (he' ▸ hs')

theorem Escrow.not_settled {esc : Escrow} (h : esc.state = .created ∨ esc.state = .funded) :
    ¬ esc.Settled := by
  unfold Escrow.Settled
  rcases h with h | h <;> simp [h]

/-- **A payload fails and leaves the records alone, or it makes its step on the escrows.**
In the second case it can still fail, if it settles an escrow. -/
theorem runPayload_cases (P : Params) (a : Id) (t : Int64) (p : TxPayload) (r : Records) :
    (∃ e, (runPayload P a t p).run r = .error e r) ∨
    (p.EscrowStep r (after (runPayload P a t p) r) ∧
      (isOk (runPayload P a t p) r ∨ ∃ id, p.Settles id)) := by
  cases p with
  | registerParticipant id ty md =>
    refine (Participant.register_cases a id ty md t).imp_right ?_
    rintro ⟨-, -, h⟩
    simp [runPayload, after, isOk, h, TxPayload.EscrowStep, TxPayload.Settles]
  | updateParticipant id md =>
    refine (Participant.update_cases a id md t).imp_right ?_
    rintro ⟨-, q, -, h⟩
    simp [runPayload, after, isOk, h, TxPayload.EscrowStep, TxPayload.Settles]
  | deactivateParticipant id =>
    refine (Participant.deactivate_cases a id).imp_right ?_
    rintro ⟨-, q, -, h⟩
    simp [runPayload, after, isOk, h, TxPayload.EscrowStep, TxPayload.Settles]
  | recordSettlement id d =>
    refine (Settlement.record_cases a id d t P.rewards.settlementRecorded).imp_right ?_
    rintro ⟨-, q, -, h⟩
    simp [runPayload, after, isOk, h, TxPayload.EscrowStep, TxPayload.Settles]
  | recordRating id n ok =>
    refine (Settlement.recordRating_cases id n ok t P.rewards.ratingSubmitted).imp_right ?_
    rintro ⟨q, -, h⟩
    simp [runPayload, after, isOk, h, TxPayload.EscrowStep, TxPayload.Settles]
  | createEscrow e b s n x =>
    refine (Escrow.create_cases a e b s n x t).imp_right ?_
    rintro ⟨-, he, -, -, h⟩
    refine ⟨.inr ⟨e, _, by simp [runPayload, after, h]; rfl, ?_, ?_, ?_⟩, .inl ?_⟩
    -- The guard of `create`: there is no escrow of this id yet.
    · rintro ⟨esc, hesc, -⟩
      simp [he] at hesc
    · simp [Escrow.Settled, TxPayload.Settles]
    · simp [TxPayload.Settles]
    · simp [runPayload, isOk, h]
  | releaseEscrow e ev =>
    refine (Escrow.release_cases a e ev t P.rewards.escrowCompleted).imp_right ?_
    rintro ⟨esc, he, -, hs, -, r₁, rfl, h⟩
    refine ⟨.inr ⟨e, { esc with state := .released, evidenceHash := some ev },
      ?_, ?_, ?_, ?_⟩, .inr ⟨e, rfl⟩⟩
    -- Whether or not both parties are registered, the escrow has been written.
    · rcases h with ⟨-, err, h⟩ | ⟨b, r₂, -, rfl, ⟨-, err, h⟩ | ⟨s, -, h⟩⟩ <;>
        simp [runPayload, after, h]
    · exact not_settledAt_of_open he (Escrow.not_settled hs)
    · simp [Escrow.Settled, TxPayload.Settles]
    · rintro id rfl; rfl
  | refundEscrow e =>
    refine (Escrow.refund_cases a e t).imp_right ?_
    rintro ⟨esc, he, -, hs, r₁, rfl, h⟩
    refine ⟨.inr ⟨e, { esc with state := .refunded }, ?_, ?_, ?_, ?_⟩, .inr ⟨e, rfl⟩⟩
    · rcases h with ⟨-, err, h⟩ | ⟨s, -, h⟩ <;> simp [runPayload, after, h]
    · exact not_settledAt_of_open he (Escrow.not_settled hs)
    · simp [Escrow.Settled, TxPayload.Settles]
    · rintro id rfl; rfl
  | raiseDispute d e reason ev =>
    refine (Dispute.raise_cases d e a reason ev t).imp_right ?_
    rintro ⟨esc, he, -, hs, h⟩
    refine ⟨.inr ⟨e, { esc with state := .disputed, disputeId := some d },
      ?_, ?_, ?_, ?_⟩, .inl ?_⟩
    · simp [runPayload, after, h]
    · exact not_settledAt_of_open he hs
    · simp [Escrow.Settled, TxPayload.Settles]
    · simp [TxPayload.Settles]
    · simp [runPayload, isOk, h]
  | submitEvidence d ev =>
    refine (Dispute.submitEvidence_cases a d ev).imp_right ?_
    rintro ⟨dis, esc, -, -, -, -, h⟩
    simp [runPayload, after, isOk, h, TxPayload.EscrowStep, TxPayload.Settles]
  | voteDispute d dec =>
    refine (Dispute.vote_cases d a dec t P.rewards.disputeWon P.disputeVoteThreshold).imp_right ?_
    rintro ⟨dis, q, -, -, -, -, -, ⟨-, h⟩ | ⟨-, esc, -, h⟩⟩ <;>
      simp [runPayload, after, isOk, h, TxPayload.EscrowStep, TxPayload.Settles]
  | transferRCW b n memo =>
    refine (Token.transfer_cases a b n memo).imp_right ?_
    rintro ⟨-, -, h⟩
    simp [runPayload, after, isOk, h, TxPayload.EscrowStep, TxPayload.Settles, Records.mint]
  | spendRCW n purpose =>
    refine (Token.spend_cases a n purpose).imp_right ?_
    rintro ⟨-, -, h⟩
    simp [runPayload, after, isOk, h, TxPayload.EscrowStep, TxPayload.Settles]
  | anchorMerkleRoot b root n i j =>
    refine (anchorMerkleRoot_cases P a b root n i j t).imp_right ?_
    rintro ⟨-, -, h⟩
    simp [runPayload, after, isOk, h, TxPayload.EscrowStep, TxPayload.Settles]

variable {P : Params} {a : Id} {t : Int64} {p : TxPayload} {id : Id}

/-- A settled escrow stays settled. -/
theorem settledAt_after (h : r.SettledAt id) : (after (runPayload P a t p) r).SettledAt id := by
  rcases runPayload_cases P a t p r with ⟨e, he⟩ | ⟨⟨hsame, -⟩ | ⟨id', esc, hins, hopen, -⟩, -⟩
  · rwa [after_error he]
  · unfold Records.SettledAt
    rwa [hsame]
  -- The escrow written was open, so it is another one.
  · obtain ⟨esc', he, hs⟩ := h
    have hne : id' ≠ id := fun heq => hopen (heq ▸ ⟨esc', he, hs⟩)
    refine ⟨esc', ?_, hs⟩
    rw [hins, ExtTreeMap.getElem?_insert]
    simp [hne, he]

/-- Only a payload that settles an escrow makes it settled. -/
theorem settledAt_of_after (h : (after (runPayload P a t p) r).SettledAt id) :
    r.SettledAt id ∨ p.Settles id := by
  rcases runPayload_cases P a t p r with ⟨e, he⟩ | ⟨⟨hsame, -⟩ | ⟨id', esc, hins, -, hiff, -⟩, -⟩
  · rw [after_error he] at h
    exact .inl h
  · unfold Records.SettledAt at h
    rw [hsame] at h
    exact .inl h
  · obtain ⟨esc', he, hs⟩ := h
    rw [hins, ExtTreeMap.getElem?_insert] at he
    by_cases hid : id' = id
    · simp only [hid, compare_self, if_true, Option.some_inj] at he
      exact .inr (hid ▸ hiff.1 (he ▸ hs))
    · simp only [Std.compare_eq_iff_eq, hid, if_false] at he
      exact .inl ⟨esc', he, hs⟩

/-- A payload that settles an escrow goes through only while the escrow is open. -/
theorem not_settledAt_of_isOk (hp : p.Settles id) (h : isOk (runPayload P a t p) r) :
    ¬ r.SettledAt id := by
  rcases runPayload_cases P a t p r with ⟨e, he⟩ | ⟨⟨-, hno⟩ | ⟨id', esc, -, hopen, -, hid⟩, -⟩
  · simp [isOk, he] at h
  · exact absurd hp (hno id)
  · rwa [hid id hp]

/-- **A failing payload leaves the records alone, or it has settled an open escrow.** -/
theorem runPayload_fail (h : ¬ isOk (runPayload P a t p) r) :
    after (runPayload P a t p) r = r ∨
    ∃ id, ¬ r.SettledAt id ∧ (after (runPayload P a t p) r).SettledAt id := by
  rcases runPayload_cases P a t p r with
    ⟨e, he⟩ | ⟨⟨-, hno⟩ | ⟨id', esc, hins, hopen, hiff, hid⟩, hok | ⟨id, hp⟩⟩
  · exact .inl (after_error he)
  · exact absurd hok h
  · exact absurd hp (hno id)
  · exact absurd hok h
  · refine .inr ⟨id', hopen, esc, ?_, hiff.2 (hid id hp ▸ hp)⟩
    rw [hins, ExtTreeMap.getElem?_insert_self]

end RoutineChain
