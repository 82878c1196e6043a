import RoutineChain.Proof.Disputes
import RoutineChain.Proof.Tokens

/-!
# What backs the tokens

Each reward pays for a recorded fact: a settlement record, a released escrow, a dispute over
an escrow, a rating. The supply stays within what the recorded facts are worth as long as
each reward is for a new one (`supply_backed`). A settlement under a stored id, a rating out
of range and a second dispute over one escrow are rewarded without one.
-/

namespace RoutineChain

open Std

/-- The sum of the rating counts. -/
def Records.ratings (r : Records) : ℕ :=
  MapSum.total (fun p : Participant => p.ratingCount.toNat) r.participants

/-- The number of released escrows. -/
def Records.releases (r : Records) : ℕ :=
  MapSum.count (fun e : Escrow => e.state = .released) r.escrows

/-- The number of escrows with a dispute. -/
def Records.disputed (r : Records) : ℕ :=
  MapSum.count (fun e : Escrow => e.disputeId.isSome) r.escrows

/-- The number of disputes that are not resolved. -/
def Records.pending (r : Records) : ℕ :=
  MapSum.count (fun d : Dispute => d.state ≠ .resolved) r.disputes

/-- What the recorded facts are worth. -/
def Records.backing (r : Records) (R : RewardConfig) : ℕ :=
  R.settlementRecorded.toNat * r.settlements.size + 2 * R.escrowCompleted.toNat * r.releases +
    R.disputeWon.toNat * r.disputed + R.ratingSubmitted.toNat * r.ratings

/-- A payload of `a` that reaches a reward records the fact that it pays for: a settlement is
stored under a new id, a rating is in range, and a dispute is over an escrow that has none, or
replaces one that is not resolved. -/
def TxPayload.RewardsNewFact (P : Params) (a : Id) (r : Records) : TxPayload → Prop
  | .recordSettlement id d =>
    a = id → r.participants[id]?.isSome → P.rewards.settlementRecorded > 0 →
      r.settlements[d.recordId]? = none
  | .recordRating id n _ =>
    r.participants[id]?.isSome → P.rewards.ratingSubmitted > 0 → n > 0 ∧ n ≤ 500
  | .raiseDispute d e _ _ =>
    ∀ esc ∈ r.escrows[e]?, (a = esc.buyer ∨ a = esc.seller) → ¬ esc.Settled →
      P.rewards.disputeWon > 0 →
      esc.disputeId = none ∨ ∃ dis ∈ r.disputes[d]?, dis.state ≠ .resolved
  | _ => True

instance (P : Params) (a : Id) (r : Records) (p : TxPayload) :
    Decidable (p.RewardsNewFact P a r) := by
  unfold TxPayload.RewardsNewFact
  split <;> infer_instance

/-- If the transaction is fresh, it is rewarded for a new fact only. -/
def RewardsNewFacts (P : Params) (x : Execution) (act : Timed) : Prop :=
  act.1.Fresh x.store → act.1.payload.RewardsNewFact P act.1.sender x.store.records

instance (P : Params) (x : Execution) (act : Timed) : Decidable (RewardsNewFacts P x act) :=
  inferInstanceAs (Decidable (_ → _))

/-! ## Ratings -/

namespace Records

variable {r r' : Records} {x : Id} {p p' : Participant}

theorem ratings_of_eq (h : r'.participants = r.participants) : r'.ratings = r.ratings := by
  rw [ratings, h, ratings]

theorem ratings_putParticipant (hp : r.participants[x]? = some p) (p' : Participant) :
    (r.putParticipant x p').ratings + p.ratingCount.toNat =
      r.ratings + p'.ratingCount.toNat :=
  MapSum.total_insert_old hp

theorem ratings_put_same (hp : r.participants[x]? = some p)
    (hsame : p'.ratingCount = p.ratingCount) : (r.putParticipant x p').ratings = r.ratings := by
  have hput := ratings_putParticipant hp p'
  rw [hsame] at hput
  omega

theorem ratings_modify {f : Participant → Participant}
    (hf : ∀ p : Participant, (f p).ratingCount = p.ratingCount) :
    (r.modifyParticipant x f).ratings = r.ratings := by
  unfold modifyParticipant
  split
  case h_1 p hp => exact ratings_put_same hp (hf p)
  case h_2 => rfl

theorem ratings_resolve {esc : Escrow} {a : Id} {res : UInt8} {w : UInt64} :
    (r.resolve esc a res w).ratings = r.ratings := by
  unfold resolve
  split
  · rfl
  · rw [ratings_of_eq (reward_participants _ _)]
    refine (ratings_modify ?_).trans (ratings_modify ?_)
    · exact fun p => rfl
    · exact fun p => rfl

theorem ratingCount_le_ratings (hp : r.participants[x]? = some p) :
    p.ratingCount.toNat ≤ r.ratings := by
  have hshare : MapSum.share (fun p : Participant => p.ratingCount.toNat) r.participants x =
      p.ratingCount.toNat := by
    rw [MapSum.share, hp, Option.elim_some]
  rw [← hshare]
  exact MapSum.share_le_total

end Records

theorem Participant.ratingCount_rated (p : Participant) (n : UInt16) (ok : Bool) (t : Int64) :
    (p.rated n ok t).ratingCount =
      if n > 0 ∧ n ≤ 500 then p.ratingCount + 1 else p.ratingCount := by
  unfold Participant.rated
  by_cases hn : n > 0 ∧ n ≤ 500
  · cases ok <;> simp [hn]
  · cases ok <;> simp only [hn, if_false] <;> rfl

section Outcome

variable {P : Params} {a : Id} {t : Int64} {r r' : Records} {p : TxPayload} {es : List Event}

/-- Only a rating changes the rating counts. -/
theorem TxPayload.Outcome.ratings_eq (h : p.Outcome P a t r es r')
    (hno : ∀ id n ok, p ≠ .recordRating id n ok) : r'.ratings = r.ratings := by
  cases h with
  | registered hnew =>
    exact MapSum.total_insert_new (f := fun p : Participant => p.ratingCount.toNat) hnew
  | updated hp | deactivated hp => exact Records.ratings_put_same hp rfl
  | @settled d q hp =>
    rw [Records.ratings_of_eq (Records.reward_participants _ _)]
    exact Records.ratings_put_same (r := r.putSettlement d.recordId (.new a d t)) hp rfl
  | rated _ => exact absurd rfl (hno _ _ _)
  | @released e ev esc b s _ _ _ _ hb hs =>
    set r₁ := r.putEscrow e { esc with state := .released, evidenceHash := some ev }
    rw [Records.ratings_of_eq (Records.reward_participants _ _),
      Records.ratings_of_eq (Records.reward_participants _ _)]
    have hseller : ((r₁.putParticipant esc.buyer (b.released t)).putParticipant esc.seller
        (s.sold esc.amount t)).ratings = (r₁.putParticipant esc.buyer (b.released t)).ratings :=
      Records.ratings_put_same hs rfl
    have hbuyer : (r₁.putParticipant esc.buyer (b.released t)).ratings = r₁.ratings :=
      Records.ratings_put_same hb rfl
    exact hseller.trans hbuyer
  | @refunded e esc s _ _ _ hs =>
    exact Records.ratings_put_same (r := r.putEscrow e { esc with state := .refunded }) hs rfl
  | raised _ _ _ => exact Records.ratings_modify fun _ => rfl
  | decided _ _ _ _ _ _ _ => exact Records.ratings_resolve
  | created | evidence | voted | transferred | spent | anchored => rfl

/-- **Each rating that is counted has been rewarded.** -/
theorem TxPayload.Outcome.ratings_le (h : p.Outcome P a t r es r') :
    P.rewards.ratingSubmitted.toNat * r'.ratings ≤
      P.rewards.ratingSubmitted.toNat * r.ratings + tally Event.minted es := by
  by_cases hrating : ∃ id n ok, p = .recordRating id n ok
  · obtain ⟨id, n, ok, rfl⟩ := hrating
    cases h with
    | @rated _ _ _ q hq =>
      have hput := Records.ratings_putParticipant hq (q.rated n ok t)
      have hcount : (q.rated n ok t).ratingCount.toNat ≤ q.ratingCount.toNat + 1 := by
        rw [Participant.ratingCount_rated]
        split
        · rw [UInt64.toNat_add]
          exact Nat.mod_le _ _
        · omega
      rw [Records.ratings_of_eq (Records.reward_participants _ _), tally_cons,
        tally_minted_reward]
      have hle : (r.putParticipant id (q.rated n ok t)).ratings ≤ r.ratings + 1 := by omega
      have hmul := Nat.mul_le_mul_left P.rewards.ratingSubmitted.toNat hle
      rw [Nat.mul_add, Nat.mul_one] at hmul
      exact hmul.trans (by simp [Event.minted])
  · rw [h.ratings_eq fun id n ok heq => hrating ⟨id, n, ok, heq⟩]
    exact Nat.le_add_right _ _

end Outcome

/-! ## Each reward pays for a new fact -/

/-- The new facts of `r'` are worth the `m` that is minted, where an unresolved dispute is
worth the reward that it can still pay. -/
def Records.Backed (R : RewardConfig) (r : Records) (m : ℕ) (r' : Records) : Prop :=
  m + R.disputeWon.toNat * r'.pending + r.backing R ≤
    r'.backing R + R.disputeWon.toNat * r.pending

/-- A counter that grows by one where its reward is not zero. -/
theorem mul_eq_add_of_pos {n : UInt64} {c c' : ℕ} (h : n > 0 → c' = c + 1) :
    n.toNat * c' = n.toNat * c + n.toNat := by
  by_cases hn : n > 0
  · rw [h hn, Nat.mul_add, Nat.mul_one]
  · have hzero : n = 0 := by simpa using hn
    simp [hzero]

namespace Records

variable {r r' : Records} {e d : Id} {old esc : Escrow} {dis dis' : Dispute} {R : RewardConfig}

theorem releases_putEscrow (he : r.escrows[e]? = some old) (esc : Escrow) :
    (r.putEscrow e esc).releases + (if old.state = .released then 1 else 0) =
      r.releases + if esc.state = .released then 1 else 0 :=
  MapSum.count_insert_old he

theorem disputed_putEscrow (he : r.escrows[e]? = some old) (esc : Escrow) :
    (r.putEscrow e esc).disputed + (if old.disputeId.isSome then 1 else 0) =
      r.disputed + if esc.disputeId.isSome then 1 else 0 :=
  MapSum.count_insert_old he

theorem pending_putDispute (hd : r.disputes[d]? = some dis) (dis' : Dispute) :
    (r.putDispute d dis').pending + (if dis.state ≠ .resolved then 1 else 0) =
      r.pending + if dis'.state ≠ .resolved then 1 else 0 :=
  MapSum.count_insert_old hd

theorem pending_putDispute_le (dis' : Dispute) : (r.putDispute d dis').pending ≤ r.pending + 1 := by
  have hins := MapSum.total_insert (fun d : Dispute => if d.state ≠ .resolved then 1 else 0)
    r.disputes d dis'
  have hle : (if dis'.state ≠ .resolved then 1 else 0) ≤ 1 := by split <;> omega
  unfold pending MapSum.count
  simp only [putDispute_disputes]
  omega

theorem releases_of_eq (h : r'.escrows = r.escrows) : r'.releases = r.releases := by
  rw [releases, h, releases]

theorem disputed_of_eq (h : r'.escrows = r.escrows) : r'.disputed = r.disputed := by
  rw [disputed, h, disputed]

theorem pending_of_eq (h : r'.disputes = r.disputes) : r'.pending = r.pending := by
  rw [pending, h, pending]

namespace Backed

/-- Nothing is minted, and no fact is added. -/
theorem none (hset : r'.settlements = r.settlements) (hrel : r'.releases = r.releases)
    (hdis : r'.disputed = r.disputed) (hpend : r'.pending = r.pending)
    (hrat : r'.ratings = r.ratings) : r.Backed R 0 r' := by
  unfold Backed backing
  rw [hset, hrel, hdis, hpend, hrat]
  omega

/-- A settlement is stored. -/
theorem settled {k : Id} {v : SettlementRecord} (hset : r'.settlements = r.settlements.insert k v)
    (hnew : R.settlementRecorded > 0 → r.settlements[k]? = .none)
    (hesc : r'.escrows = r.escrows) (hdis : r'.disputes = r.disputes)
    (hrat : r'.ratings = r.ratings) : r.Backed R R.settlementRecorded.toNat r' := by
  have hsize : R.settlementRecorded > 0 → r'.settlements.size = r.settlements.size + 1 := by
    intro hpos
    have hmem : ¬ r.settlements.contains k := by
      rw [ExtTreeMap.contains_eq_isSome_getElem?, hnew hpos]
      nofun
    rw [hset, ExtTreeMap.size_insert, if_neg hmem]
  have hmul := mul_eq_add_of_pos hsize
  unfold Backed backing
  rw [releases_of_eq hesc, disputed_of_eq hesc, pending_of_eq hdis, hrat, hmul]
  omega

/-- A rating is counted. -/
theorem rated (hset : r'.settlements = r.settlements) (hesc : r'.escrows = r.escrows)
    (hdis : r'.disputes = r.disputes)
    (hrat : R.ratingSubmitted > 0 → r'.ratings = r.ratings + 1) :
    r.Backed R R.ratingSubmitted.toNat r' := by
  have hmul := mul_eq_add_of_pos hrat
  unfold Backed backing
  rw [hset, releases_of_eq hesc, disputed_of_eq hesc, pending_of_eq hdis, hmul]
  omega

/-- An escrow is released: both parties are rewarded. -/
theorem released (hset : r'.settlements = r.settlements) (hrel : r'.releases = r.releases + 1)
    (hdis : r'.disputed = r.disputed) (hpend : r'.pending = r.pending)
    (hrat : r'.ratings = r.ratings) :
    r.Backed R (R.escrowCompleted.toNat + R.escrowCompleted.toNat) r' := by
  unfold Backed backing
  rw [hset, hrel, hdis, hpend, hrat, Nat.mul_add, Nat.mul_one]
  omega

/-- A dispute is raised: it can pay a reward later, so it needs an escrow for it, unless it
replaces another that could. -/
theorem raised (hset : r'.settlements = r.settlements) (hrel : r'.releases = r.releases)
    (hdis : r.disputed ≤ r'.disputed) (hpend : r'.pending ≤ r.pending + 1)
    (hnew : R.disputeWon > 0 → r'.disputed = r.disputed + 1 ∨ r'.pending = r.pending)
    (hrat : r'.ratings = r.ratings) : r.Backed R 0 r' := by
  unfold Backed backing
  rw [hset, hrel, hrat]
  by_cases hpos : R.disputeWon > 0
  · rcases hnew hpos with hone | hsame
    · have hmul := Nat.mul_le_mul_left R.disputeWon.toNat hpend
      rw [hone, Nat.mul_add, Nat.mul_one] at *
      omega
    · have hmul := Nat.mul_le_mul_left R.disputeWon.toNat hdis
      rw [hsame]
      omega
  · have hzero : R.disputeWon = 0 := by simpa using hpos
    simp [hzero]

/-- A dispute is resolved: it is no longer pending. -/
theorem decided {m : ℕ} (hset : r'.settlements = r.settlements) (hesc : r'.escrows = r.escrows)
    (hpend : r'.pending + 1 = r.pending) (hrat : r'.ratings = r.ratings)
    (hm : m ≤ R.disputeWon.toNat) : r.Backed R m r' := by
  unfold Backed backing
  rw [hset, releases_of_eq hesc, disputed_of_eq hesc, hrat, ← hpend, Nat.mul_add, Nat.mul_one]
  omega

end Backed

end Records

section Backed

variable {P : Params} {a : Id} {t : Int64} {r r' : Records} {p : TxPayload} {es : List Event}

theorem tally_minted_cons {e : Event} (he : e.Silent) :
    tally Event.minted (e :: es) = tally Event.minted es := by
  obtain ⟨-, -, -, -, hm, -⟩ := he.tallies
  rw [tally_cons, hm, Nat.zero_add]

theorem tally_minted_resolve_le (esc : Escrow) (res : UInt8) (n : UInt64) :
    tally Event.minted (resolveEvents esc res n) ≤ n.toNat := by
  unfold resolveEvents
  split
  · simp [tally]
  · rw [tally_minted_reward]

/-- **A payload mints no more than its new facts are worth.** -/
theorem TxPayload.Outcome.backed (h : p.Outcome P a t r es r')
    (hnew : p.RewardsNewFact P a r)
    (hwrap : P.rewards.ratingSubmitted > 0 →
      P.rewards.ratingSubmitted.toNat ≤ tally Event.minted es → r.ratings + 1 < 2 ^ 64) :
    r.Backed P.rewards (tally Event.minted es) r' := by
  have hrat := h.ratings_eq
  cases h with
  | registered _ | updated _ | deactivated _ | transferred _ _ | spent _ _ | anchored _ _ =>
    exact .none rfl rfl rfl rfl (hrat nofun)
  | @settled d q hq =>
    rw [tally_minted_cons (by trivial), tally_minted_reward]
    have hstored := hnew rfl (by simp [hq])
    exact .settled (v := .new a d t) (by simp) hstored (by simp) (by simp) (hrat nofun)
  | @rated id n ok q hq =>
    rw [tally_minted_cons (by trivial), tally_minted_reward]
    refine .rated (by simp) (by simp) (by simp) ?_
    intro hpos
    have hrange := hnew (by simp [hq]) hpos
    have hfit := hwrap hpos (by rw [tally_minted_cons (by trivial), tally_minted_reward])
    have hput := Records.ratings_putParticipant hq (q.rated n ok t)
    have hle := Records.ratingCount_le_ratings hq
    rw [Records.ratings_of_eq (Records.reward_participants _ _)]
    rw [Participant.ratingCount_rated, if_pos hrange, UInt64.toNat_add, UInt64.toNat_one] at hput
    omega
  | @created e s n x he _ _ =>
    exact .none rfl (MapSum.count_insert_new he) (MapSum.count_insert_new he) rfl (hrat nofun)
  | @released e ev esc b s he _ hopen _ _ _ =>
    have hne : esc.state ≠ .released := by rcases hopen with hs | hs <;> simp [hs]
    rw [tally_minted_cons (by trivial), tally_append, tally_minted_reward, tally_minted_reward]
    set esc' : Escrow := { esc with state := .released, evidenceHash := some ev }
    have hrel := Records.releases_putEscrow he esc'
    have hdis := Records.disputed_putEscrow he esc'
    rw [if_neg hne, if_pos rfl] at hrel
    refine .released (by simp) ?_ ?_ (Records.pending_of_eq (by simp)) (hrat nofun)
    · exact (Records.releases_of_eq (by simp)).trans hrel
    · exact (Records.disputed_of_eq (by simp)).trans (Nat.add_right_cancel hdis)
  | @refunded e esc s he _ hopen _ =>
    have hne : esc.state ≠ .released := by rcases hopen with hs | hs <;> simp [hs]
    set esc' : Escrow := { esc with state := .refunded }
    have hrel := Records.releases_putEscrow he esc'
    have hdis := Records.disputed_putEscrow he esc'
    rw [if_neg hne, if_neg nofun] at hrel
    refine .none rfl ?_ ?_ rfl (hrat nofun)
    · exact (Records.releases_of_eq rfl).trans hrel
    · exact (Records.disputed_of_eq rfl).trans (Nat.add_right_cancel hdis)
  | @raised d e reason ev esc he ha hs =>
    have hne : esc.state ≠ .released := fun h => hs (.inl h)
    set esc' : Escrow := { esc with state := .disputed, disputeId := some d }
    set dis' : Dispute := .new d e a reason ev t
    have hrel := Records.releases_putEscrow he esc'
    have hdis := Records.disputed_putEscrow he esc'
    have hone : esc'.disputeId.isSome := rfl
    rw [if_neg hne, if_neg nofun] at hrel
    rw [if_pos hone] at hdis
    set r' := ((r.putEscrow e esc').putDispute d dis').modifyParticipant
      (if a = esc.buyer then esc.seller else esc.buyer) Participant.disputed
    have hescrows : r'.escrows = (r.putEscrow e esc').escrows := by simp [r']
    have hdisputes : r'.disputes = (r.putDispute d dis').disputes := by simp [r']
    have hreleases := (Records.releases_of_eq hescrows).trans hrel
    refine .raised (by simp [r']) hreleases ?_ ?_ ?_ (hrat nofun)
    · rw [Records.disputed_of_eq hescrows]
      split at hdis <;> omega
    · rw [Records.pending_of_eq hdisputes]
      exact Records.pending_putDispute_le dis'
    · intro hpos
      rw [Records.disputed_of_eq hescrows, Records.pending_of_eq hdisputes]
      rcases hnew esc he ha hs hpos with hnone | ⟨dis, hd, hres⟩
      · left
        rw [if_neg (by simp [hnone])] at hdis
        exact hdis
      -- the raise takes the place of a dispute that was pending
      · right
        have hpend := Records.pending_putDispute hd dis'
        rw [if_pos hres, if_pos nofun] at hpend
        exact Nat.add_right_cancel hpend
  | @evidence d ev dis esc hd _ _ hs =>
    have hne : dis.state ≠ .resolved := by rcases hs with hs | hs <;> simp [hs]
    have hpend := Records.pending_putDispute hd
      { dis with state := .evidence, evidenceHashes := dis.evidenceHashes ++ [ev] }
    rw [if_pos hne, if_pos nofun] at hpend
    exact .none rfl rfl rfl (Nat.add_right_cancel hpend) (hrat nofun)
  | @voted d dec dis q hd _ _ hs _ _ =>
    have hpend := Records.pending_putDispute hd (dis.voted a dec t)
    rw [if_pos hs, if_pos nofun] at hpend
    exact .none rfl rfl rfl (Nat.add_right_cancel hpend) (hrat nofun)
  | @decided d dec dis p esc hd _ _ hs _ _ _ =>
    set res := resolutionOf (dis.voted a dec t).votes
    set r₁ := r.resolve esc dis.raisedBy res P.rewards.disputeWon with hr₁
    have hd₁ : r₁.disputes[d]? = some dis := by rw [hr₁, Records.resolve_disputes, hd]
    have hpend := Records.pending_putDispute hd₁ ((dis.voted a dec t).resolved t)
    have hdone : ¬ ((dis.voted a dec t).resolved t).state ≠ .resolved := not_not_intro rfl
    have hsame : r₁.pending = r.pending := Records.pending_of_eq (by simp [hr₁])
    rw [if_pos hs, if_neg hdone, hsame] at hpend
    rw [tally_append]
    refine .decided (by simp [hr₁]) (by simp [hr₁]) hpend (hrat nofun) ?_
    exact tally_minted_resolve_le esc res P.rewards.disputeWon

end Backed

/-! ## Runs -/

/-- **What a run has minted is backed**, and all counted ratings have been rewarded. -/
structure Records.FullyBacked (R : RewardConfig) (r : Records) (es : List Event) : Prop where
  ratings : R.ratingSubmitted.toNat * r.ratings ≤ tally Event.minted es
  minted : tally Event.minted es + R.disputeWon.toNat * r.pending ≤ r.backing R

theorem Records.fullyBacked_empty (R : RewardConfig) : Records.empty.FullyBacked R [] := by
  have hratings : Records.empty.ratings = 0 := MapSum.total_empty
  have hpending : Records.empty.pending = 0 := MapSum.count_empty
  refine ⟨?_, ?_⟩
  · simp [hratings]
  · simp [hpending, tally]

section Runs

variable {P : Params} {l : List Timed}

theorem executeAll_fullyBacked (hfit : tally Event.minted (executeAll P l).events < 2 ^ 64)
    (h : Runs.Along (Execution.execute P) (RewardsNewFacts P) { store := .empty } l) :
    (executeAll P l).store.records.FullyBacked P.rewards (executeAll P l).events := by
  refine executeAll_inv (P := P) (C := RewardsNewFacts P)
    (I := fun r es => tally Event.minted es < 2 ^ 64 → r.FullyBacked P.rewards es)
    ?_ ?_ h hfit
  · intro _
    exact Records.fullyBacked_empty P.rewards
  · intro x tx t es r' hI hnew hf hout hfit
    rw [tally_append] at hfit
    obtain ⟨hratings, hminted⟩ := hI (by omega)
    have hratings' := hout.ratings_le
    -- a rating that is rewarded adds to the mints, so the counts have room for it
    have hwrap : P.rewards.ratingSubmitted > 0 →
        P.rewards.ratingSubmitted.toNat ≤ tally Event.minted es →
        x.store.records.ratings + 1 < 2 ^ 64 := by
      intro hpos hle
      have hone : 1 ≤ P.rewards.ratingSubmitted.toNat := UInt64.lt_iff_toNat_lt.1 hpos
      calc x.store.records.ratings + 1
          ≤ P.rewards.ratingSubmitted.toNat * (x.store.records.ratings + 1) :=
            Nat.le_mul_of_pos_left _ hone
        _ ≤ tally Event.minted x.events + tally Event.minted es := by
            rw [Nat.mul_add, Nat.mul_one]
            omega
        _ < 2 ^ 64 := hfit
    have hbacked := hout.backed (hnew hf) hwrap
    unfold Records.Backed at hbacked
    refine ⟨?_, ?_⟩
    · rw [tally_append]
      omega
    · rw [tally_append]
      omega

/-- **The supply is backed** in every state of a run whose transactions are rewarded for new
facts only. -/
theorem supply_backed (P : Params) (l : List Timed)
    (hfit : tally Event.minted (executeAll P l).events < 2 ^ 64)
    (h : Runs.Along (Execution.execute P) (RewardsNewFacts P) { store := .empty } l) :
    (executeAll P l).store.records.supply + tally Event.spent (executeAll P l).events ≤
      (executeAll P l).store.records.backing P.rewards := by
  have hminted := (executeAll_fullyBacked hfit h).minted
  rw [executeAll_supply hfit]
  omega

end Runs

theorem supply_backed_toy : (executeAll .default toyPayments).store.records.supply +
    tally Event.spent (executeAll .default toyPayments).events ≤
      (executeAll .default toyPayments).store.records.backing .default :=
  supply_backed .default toyPayments (by decide +kernel) (by decide +kernel)

/-- The seller reports the same settlement once more. -/
def Timed.toyAgain : Timed :=
  (.toy 2 5 (.recordSettlement 2
    { recordId := 9, grossAmount := 100, platformFee := 10, netAmount := 90, currency := 0,
      settledAt := 0 }), 50)

/-- Two rewards are paid for one settlement record. -/
theorem supply_backed_fails : ¬ ∀ (P : Params) (l : List Timed),
    tally Event.minted (executeAll P l).events < 2 ^ 64 →
    (executeAll P l).store.records.supply + tally Event.spent (executeAll P l).events ≤
      (executeAll P l).store.records.backing P.rewards := by
  intro hall
  have hle := hall .default (toyPayments ++ [.toyAgain]) (by decide +kernel)
  revert hle
  decide +kernel

end RoutineChain
