import RoutineChain.Proof.Outcome

/-!
# What a transaction does to the participants

A participant is registered once, by itself, and stays registered. Its id, type and time of
registration are fixed then; its metadata, activity and settled total change only by its own
transactions. The counters of trade, rating and dispute are open to others.
-/

namespace RoutineChain

/-- What is fixed at registration. -/
structure Participant.SameIdentity (p p' : Participant) : Prop where
  id : p'.id = p.id
  pType : p'.pType = p.pType
  registeredAt : p'.registeredAt = p.registeredAt

/-- What no other account changes. -/
structure Participant.SameProfile (p p' : Participant) : Prop extends p.SameIdentity p' where
  metadata : p'.metadata = p.metadata
  isActive : p'.isActive = p.isActive
  totalSettled : p'.totalSettled = p.totalSettled

theorem Participant.SameIdentity.refl (p : Participant) : p.SameIdentity p := ⟨rfl, rfl, rfl⟩

theorem Participant.SameProfile.refl (p : Participant) : p.SameProfile p :=
  ⟨.refl p, rfl, rfl, rfl⟩

theorem Participant.SameIdentity.trans {p p' p'' : Participant} (h : p.SameIdentity p')
    (h' : p'.SameIdentity p'') : p.SameIdentity p'' :=
  ⟨h'.id.trans h.id, h'.pType.trans h.pType, h'.registeredAt.trans h.registeredAt⟩

theorem Participant.SameProfile.trans {p p' p'' : Participant} (h : p.SameProfile p')
    (h' : p'.SameProfile p'') : p.SameProfile p'' :=
  ⟨h.toSameIdentity.trans h'.toSameIdentity, h'.metadata.trans h.metadata,
    h'.isActive.trans h.isActive, h'.totalSettled.trans h.totalSettled⟩

/-- Registered participants keep their identity, and all but `a` their profile; only `a`
registers. -/
structure Records.KeepsOthers (a : Id) (r r' : Records) : Prop where
  kept : ∀ x p, r.participants[x]? = some p → ∃ p', r'.participants[x]? = some p' ∧
    p.SameIdentity p' ∧ (x ≠ a → p.SameProfile p')
  unregistered : ∀ x, x ≠ a → r.participants[x]? = none → r'.participants[x]? = none

namespace Records.KeepsOthers

variable {a x : Id} {r r' r'' : Records} {p p' : Participant}

theorem of_eq (h : r'.participants = r.participants) : r.KeepsOthers a r' := by
  refine ⟨?_, ?_⟩
  · intro x p hp
    exact ⟨p, by rw [h, hp], .refl p, fun _ => .refl p⟩
  · intro x _ hx
    rw [h, hx]

theorem trans (h : r.KeepsOthers a r') (h' : r'.KeepsOthers a r'') : r.KeepsOthers a r'' := by
  refine ⟨?_, ?_⟩
  · intro x p hp
    obtain ⟨p', hp', hi, hs⟩ := h.kept x p hp
    obtain ⟨p'', hp'', hi', hs'⟩ := h'.kept x p' hp'
    exact ⟨p'', hp'', hi.trans hi', fun hx => (hs hx).trans (hs' hx)⟩
  · intro x hx hnone
    exact h'.unregistered x hx (h.unregistered x hx hnone)

theorem isSome (h : r.KeepsOthers a r') (hx : r.participants[x]?.isSome) :
    r'.participants[x]?.isSome := by
  obtain ⟨p, hp⟩ := Option.isSome_iff_exists.1 hx
  obtain ⟨p', hp', -⟩ := h.kept x p hp
  rw [hp']
  rfl

/-- A participant is written that was registered. -/
theorem put (hp : r.participants[x]? = some p) (hi : p.SameIdentity p')
    (hs : x ≠ a → p.SameProfile p') : r.KeepsOthers a (r.putParticipant x p') := by
  refine ⟨?_, ?_⟩
  · intro y q hq
    rw [Records.putParticipant_participants, Table.get_insert]
    by_cases hxy : x = y
    · subst hxy
      rw [hp, Option.some_inj] at hq
      subst hq
      exact ⟨p', by rw [if_pos rfl], hi, hs⟩
    · rw [if_neg hxy]
      exact ⟨q, hq, .refl q, fun _ => .refl q⟩
  · intro y _ hy
    rw [Records.putParticipant_participants, Table.get_insert]
    have hxy : x ≠ y := by
      rintro rfl
      rw [hp] at hy
      cases hy
    rw [if_neg hxy]
    exact hy

/-- The counters of a participant are written. -/
theorem putSame (hp : r.participants[x]? = some p) (hs : p.SameProfile p') :
    r.KeepsOthers a (r.putParticipant x p') :=
  put hp hs.toSameIdentity fun _ => hs

theorem modify {f : Participant → Participant} (hf : ∀ p : Participant, p.SameProfile (f p)) :
    r.KeepsOthers a (r.modifyParticipant x f) := by
  unfold Records.modifyParticipant
  split
  case h_1 p hp => exact putSame hp (hf p)
  case h_2 => exact of_eq rfl

theorem reward {n : UInt64} : r.KeepsOthers a (r.reward x n) :=
  of_eq (Records.reward_participants x n)

theorem resolve {esc : Escrow} {y : Id} {res : UInt8} {w : UInt64} :
    r.KeepsOthers a (r.resolve esc y res w) := by
  unfold Records.resolve
  split
  · exact of_eq rfl
  · refine (trans (modify ?_) (modify ?_)).trans reward
    · exact fun p => ⟨⟨rfl, rfl, rfl⟩, rfl, rfl, rfl⟩
    · exact fun p => ⟨⟨rfl, rfl, rfl⟩, rfl, rfl, rfl⟩

end Records.KeepsOthers

theorem Participant.sameProfile_rated (p : Participant) (n : UInt16) (ok : Bool) (t : Int64) :
    p.SameProfile (p.rated n ok t) := by
  unfold Participant.rated
  by_cases hn : n > 0 ∧ n ≤ 500
  · cases ok <;> simp only [hn] <;> exact ⟨⟨rfl, rfl, rfl⟩, rfl, rfl, rfl⟩
  · cases ok <;> simp only [hn] <;> exact ⟨⟨rfl, rfl, rfl⟩, rfl, rfl, rfl⟩

section Outcome

variable {P : Params} {a : Id} {t : Int64} {r r' : Records} {p : TxPayload} {es : List Event}

/-- **A payload keeps the other participants.** -/
theorem TxPayload.Outcome.keepsOthers (h : p.Outcome P a t r es r') : r.KeepsOthers a r' := by
  cases h with
  | registered hnew =>
    refine ⟨?_, ?_⟩
    · intro x q hq
      have hx : a ≠ x := by
        rintro rfl
        rw [hnew] at hq
        cases hq
      refine ⟨q, ?_, .refl q, fun _ => .refl q⟩
      rw [Records.putParticipant_participants, Table.get_insert, if_neg hx, hq]
    · intro x hx hnone
      rw [Records.putParticipant_participants, Table.get_insert, if_neg hx.symm, hnone]
  | updated hp | deactivated hp => exact .put hp ⟨rfl, rfl, rfl⟩ fun hne => absurd rfl hne
  | @settled d q hp =>
    have hrec : r.KeepsOthers a (r.putSettlement d.recordId (.new a d t)) := .of_eq rfl
    have hput : (r.putSettlement d.recordId (.new a d t)).KeepsOthers a
        ((r.putSettlement d.recordId (.new a d t)).putParticipant a (q.settled d t)) :=
      .put hp ⟨rfl, rfl, rfl⟩ fun hne => absurd rfl hne
    exact (hrec.trans hput).trans .reward
  | @rated id n ok q hp =>
    exact (Records.KeepsOthers.putSame hp (q.sameProfile_rated n ok t)).trans .reward
  | created hnew hb hs => exact .of_eq rfl
  | @released e ev esc b s he ha hopen ht hb hs =>
    -- the parties one after the other, as they can be the same participant
    set r₁ := r.putEscrow e { esc with state := .released, evidenceHash := some ev }
    have he₁ : r.KeepsOthers a r₁ := .of_eq rfl
    have hb₁ : r₁.KeepsOthers a (r₁.putParticipant esc.buyer (b.released t)) :=
      .putSame hb ⟨⟨rfl, rfl, rfl⟩, rfl, rfl, rfl⟩
    have hs₁ : (r₁.putParticipant esc.buyer (b.released t)).KeepsOthers a
        ((r₁.putParticipant esc.buyer (b.released t)).putParticipant esc.seller
          (s.sold esc.amount t)) :=
      .putSame hs ⟨⟨rfl, rfl, rfl⟩, rfl, rfl, rfl⟩
    exact (((he₁.trans hb₁).trans hs₁).trans .reward).trans .reward
  | @refunded e esc s he ha hopen hs =>
    have he₁ : r.KeepsOthers a (r.putEscrow e { esc with state := .refunded }) := .of_eq rfl
    have hput : (r.putEscrow e { esc with state := .refunded }).KeepsOthers a
        ((r.putEscrow e { esc with state := .refunded }).putParticipant esc.seller
          { s with totalTx := satAdd s.totalTx 1, lastActivityAt := t }) :=
      .putSame hs ⟨⟨rfl, rfl, rfl⟩, rfl, rfl, rfl⟩
    exact he₁.trans hput
  | @raised d e reason ev esc he ha hs =>
    have hput : r.KeepsOthers a ((r.putEscrow e { esc with
        state := .disputed, disputeId := some d }).putDispute d (.new d e a reason ev t)) :=
      .of_eq rfl
    exact hput.trans (.modify fun p => ⟨⟨rfl, rfl, rfl⟩, rfl, rfl, rfl⟩)
  | evidence hd he ha hs => exact .of_eq rfl
  | voted hd hp ha hs hv hm => exact .of_eq rfl
  | decided hd hp ha hs hv hm he => exact Records.KeepsOthers.resolve.trans (.of_eq rfl)
  | transferred hn ht => exact .of_eq rfl
  | spent hn ht => exact .of_eq rfl
  | anchored ha hnew => exact .of_eq rfl

end Outcome

end RoutineChain
