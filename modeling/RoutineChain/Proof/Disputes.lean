import RoutineChain.Proof.Escrows

/-!
# The record of a dispute

* `DisputeChange` lists what a transaction can do to the dispute of one id. A raise writes a
  new record whether or not the id is taken.
* As long as raises take new ids, disputes are append-only; where a raise takes the id of
  another record, votes and evidence are lost.
-/

namespace RoutineChain

open Std

/-- **What a transaction does to the dispute `d`**, from what was stored to what is stored. -/
inductive DisputeChange (P : Params) (r : Records) (a : Id) (t : Int64) (p : TxPayload) (d : Id) :
    Option Dispute → Option Dispute → Prop
  | same (o) : DisputeChange P r a t p d o o
  | raised {e reason ev esc} (o) (hp : p = .raiseDispute d e reason ev)
      (he : r.escrows[e]? = some esc) (ha : a = esc.buyer ∨ a = esc.seller)
      (hs : ¬ esc.Settled) :
    DisputeChange P r a t p d o (some (.new d e a reason ev t))
  | evidence {ev dis} (hp : p = .submitEvidence d ev)
      (hs : dis.state = .raised ∨ dis.state = .evidence) :
    DisputeChange P r a t p d (some dis)
      (some { dis with state := .evidence, evidenceHashes := dis.evidenceHashes ++ [ev] })
  | voted {dec dis q} (hp : p = .voteDispute d dec) (hq : r.participants[a]? = some q)
      (ha : q.pType = ParticipantType.arbiter.toU8) (hs : dis.state ≠ .resolved)
      (hv : ∀ v ∈ dis.votes, v.voter ≠ a)
      (hm : (dis.voted a dec t).votes.length < P.disputeVoteThreshold) :
    DisputeChange P r a t p d (some dis) (some (dis.voted a dec t))
  | decided {dec dis q} (hp : p = .voteDispute d dec) (hq : r.participants[a]? = some q)
      (ha : q.pType = ParticipantType.arbiter.toU8) (hs : dis.state ≠ .resolved)
      (hv : ∀ v ∈ dis.votes, v.voter ≠ a)
      (hm : P.disputeVoteThreshold ≤ (dis.voted a dec t).votes.length) :
    DisputeChange P r a t p d (some dis) (some ((dis.voted a dec t).resolved t))

section Change

variable {P : Params} {a : Id} {t : Int64} {r r' : Records} {p : TxPayload} {es : List Event}

theorem DisputeChange.of_insert {e : Id} {o : Option Dispute} {dis : Dispute}
    (he : r.disputes[e]? = o) (h : DisputeChange P r a t p e o (some dis)) (d : Id)
    (hr : r'.disputes = r.disputes.insert e dis) :
    DisputeChange P r a t p d r.disputes[d]? r'.disputes[d]? := by
  refine Table.rel_insert (R := DisputeChange P r a t p d) hr .same ?_
  rintro rfl
  rw [he]
  exact h

theorem DisputeChange.of_eq (d : Id) (hr : r'.disputes = r.disputes) :
    DisputeChange P r a t p d r.disputes[d]? r'.disputes[d]? := by
  rw [hr]
  exact .same _

theorem TxPayload.Outcome.disputeChange (h : p.Outcome P a t r es r') (d : Id) :
    DisputeChange P r a t p d r.disputes[d]? r'.disputes[d]? := by
  cases h with
  | registered _ | updated _ | deactivated _ | created _ _ _ | refunded _ _ _ _ =>
    exact .of_eq d rfl
  | transferred _ _ | spent _ _ | anchored _ _ => exact .of_eq d rfl
  | settled hp => exact .of_eq d (by simp)
  | rated hp => exact .of_eq d (by simp)
  | released he ha hopen ht hb hs => exact .of_eq d (by simp)
  | raised he ha hs => exact .of_insert rfl (.raised _ rfl he ha hs) d (by simp)
  | evidence hd he ha hs => exact .of_insert hd (.evidence rfl hs) d rfl
  | voted hd hp ha hs hv hm => exact .of_insert hd (.voted rfl hp ha hs hv hm) d rfl
  | decided hd hp ha hs hv hm he =>
    exact .of_insert hd (.decided rfl hp ha hs hv hm) d (by simp)

theorem TxPayload.Failure.disputes (h : p.Failure a t r r') : r'.disputes = r.disputes := by
  cases h with
  | clean => rfl
  | released he ha hopen ht hmissing hr => rcases hr with rfl | ⟨b, rfl⟩ <;> rfl
  | refunded he ha hopen hmissing => rfl

end Change

/-! ## Raises -/

/-- A raise of `tx` over the escrow `e` passes: the transaction is fresh, and its sender is a
party of the stored escrow, which is not settled. -/
def Store.AllowsRaise (s : Store) (tx : Transaction) (e : Id) : Prop :=
  tx.Fresh s ∧ ∃ esc ∈ s.records.escrows[e]?,
    (tx.sender = esc.buyer ∨ tx.sender = esc.seller) ∧ ¬ esc.Settled

instance (s : Store) (tx : Transaction) (e : Id) : Decidable (s.AllowsRaise tx e) :=
  inferInstanceAs (Decidable (_ ∧ _))

/-- **One transaction of a run, as a dispute sees it.** -/
theorem Execution.Step.disputeChange {P : Params} {t : Int64} {x x' : Execution}
    {tx : Transaction} (h : x.Step P tx t x') (d : Id) :
    DisputeChange P x.store.records tx.sender t tx.payload d x.store.records.disputes[d]?
      x'.store.records.disputes[d]? ∧
    (x'.store.records.disputes[d]? ≠ x.store.records.disputes[d]? → tx.Fresh x.store) := by
  cases h with
  | stale _ => exact ⟨.same _, fun hne => absurd rfl hne⟩
  | failed hf hout => exact ⟨.of_eq d hout.disputes, fun _ => hf⟩
  | succeeded hf hout => exact ⟨hout.disputeChange d, fun _ => hf⟩

/-- A raise that passes stores its record and points the escrow to it. -/
theorem Execution.execute_raise {P : Params} {x : Execution} {act : Timed} {d e : Id}
    {reason : DisputeReason} {ev : Hash} (hp : act.1.payload = .raiseDispute d e reason ev)
    (h : x.store.AllowsRaise act.1 e) :
    (x.execute P act).store.records.disputes =
      x.store.records.disputes.insert d (.new d e act.1.sender reason ev act.2) ∧
    ∃ esc, x.store.records.escrows[e]? = some esc ∧
      (x.execute P act).store.records.escrows = x.store.records.escrows.insert e
        { esc with state := .disputed, disputeId := some d } := by
  obtain ⟨hf, esc, he, ha, hs⟩ := h
  have hrun : (Dispute.raise d e act.1.sender reason ev act.2).run x.store.records = _ :=
    Dispute.raise_run he ha hs
  have hrec := Execution.execute_records (P := P) hf
  simp only [hp, runPayload, EStateM.after_ok hrun] at hrec
  rw [hrec]
  refine ⟨?_, esc, he, ?_⟩
  · rw [Records.modifyParticipant_disputes]
    rfl
  · rw [Records.modifyParticipant_escrows]
    rfl

/-! ## The escrow of a dispute -/

/-- The escrow of every stored dispute is stored. -/
def Records.DisputesFiled (r : Records) : Prop :=
  ∀ (d : Id) (dis : Dispute), r.disputes[d]? = some dis → r.escrows[dis.escrowId]?.isSome

/-- A stored escrow stays stored, with its terms. -/
theorem TxPayload.Outcome.escrow_kept {P : Params} {a : Id} {t : Int64} {r r' : Records}
    {p : TxPayload} {es : List Event} (h : p.Outcome P a t r es r') {e : Id} {esc : Escrow}
    (he : r.escrows[e]? = some esc) : ∃ esc', r'.escrows[e]? = some esc' ∧ esc.SameTerms esc' := by
  have hchange := h.escrowChange e
  rw [he] at hchange
  obtain ⟨esc', he', hterms, -⟩ := hchange.kept
  exact ⟨esc', he', hterms⟩

/-- **A dispute comes with its escrow**, or from a stored dispute over the same escrow. -/
theorem DisputeChange.escrow {P : Params} {r : Records} {a : Id} {t : Int64} {p : TxPayload}
    {d : Id} {o : Option Dispute} {dis : Dispute} (h : DisputeChange P r a t p d o (some dis)) :
    r.escrows[dis.escrowId]?.isSome ∨ ∃ old, o = some old ∧ old.escrowId = dis.escrowId := by
  cases h with
  | same => exact .inr ⟨dis, rfl, rfl⟩
  | raised _ _ he _ _ => exact .inl (Option.isSome_iff_exists.2 ⟨_, he⟩)
  | evidence _ _ | voted _ _ _ _ _ _ | decided _ _ _ _ _ _ => exact .inr ⟨_, rfl, rfl⟩

theorem TxPayload.Outcome.disputesFiled {P : Params} {a : Id} {t : Int64} {r r' : Records}
    {p : TxPayload} {es : List Event} (h : p.Outcome P a t r es r') (hr : r.DisputesFiled) :
    r'.DisputesFiled := by
  intro d dis hd
  have hchange := h.disputeChange d
  rw [hd] at hchange
  have hstored : r.escrows[dis.escrowId]?.isSome := by
    rcases hchange.escrow with hstored | ⟨old, hold, heq⟩
    · exact hstored
    · exact heq ▸ hr d old hold
  obtain ⟨esc, he⟩ := Option.isSome_iff_exists.1 hstored
  obtain ⟨esc', he', -⟩ := h.escrow_kept he
  exact Option.isSome_iff_exists.2 ⟨esc', he'⟩

theorem executeAll_disputesFiled (P : Params) (l : List Timed) :
    (executeAll P l).store.records.DisputesFiled := by
  refine executeAll_inv (P := P) (C := fun _ _ => True) (I := fun r _ => r.DisputesFiled)
    ?_ ?_ (Runs.along_true _ l)
  · intro d dis hd
    simp [Records.empty] at hd
  · intro x tx t es r' hr _ _ hout
    exact hout.disputesFiled hr

/-! ## Disputes are append-only -/

/-- The order of the phases. -/
def DisputeState.rank : DisputeState → ℕ
  | .raised => 0 | .evidence => 1 | .voting => 2 | .resolved => 3

/-- The later record says all that the earlier one does. -/
structure Dispute.Extends (dis dis' : Dispute) : Prop where
  escrowId : dis'.escrowId = dis.escrowId
  raisedBy : dis'.raisedBy = dis.raisedBy
  reason : dis'.reason = dis.reason
  raisedAt : dis'.raisedAt = dis.raisedAt
  evidenceHashes : dis.evidenceHashes <+: dis'.evidenceHashes
  votes : dis.votes <+: dis'.votes
  state : dis.state.rank ≤ dis'.state.rank
  resolved : dis.state = .resolved → dis' = dis

theorem Dispute.Extends.refl (dis : Dispute) : dis.Extends dis :=
  ⟨rfl, rfl, rfl, rfl, List.prefix_rfl, List.prefix_rfl, Nat.le_refl _, fun _ => rfl⟩

theorem Dispute.Extends.trans {dis dis' dis'' : Dispute} (h : dis.Extends dis')
    (h' : dis'.Extends dis'') : dis.Extends dis'' := by
  refine ⟨h'.escrowId.trans h.escrowId, h'.raisedBy.trans h.raisedBy, h'.reason.trans h.reason,
    h'.raisedAt.trans h.raisedAt, h.evidenceHashes.trans h'.evidenceHashes,
    h.votes.trans h'.votes, h.state.trans h'.state, ?_⟩
  intro hs
  have heq := h.resolved hs
  subst heq
  exact h'.resolved hs

/-- The dispute `d` after a run from `s`. -/
def disputeAfter (P : Params) (s : Store) (d : Id) (l : List Timed) : Option Dispute :=
  (Runs.run (Execution.execute P) { store := s } l).store.records.disputes[d]?

/-- **Disputes are append-only** over the run `l` from `s`. -/
def DisputesAppendOnly (P : Params) (s : Store) (l : List Timed) : Prop :=
  ∀ l₁ l₂, l₁ ++ l₂ <+: l → ∀ d dis, disputeAfter P s d l₁ = some dis →
    ∃ dis', disputeAfter P s d (l₁ ++ l₂) = some dis' ∧ dis.Extends dis'

/-- A raise that passes takes an id under which no dispute is stored, or only the very record
that it writes. -/
def RaisesNewIds (x : Execution) (act : Timed) : Prop :=
  match act.1.payload with
  | .raiseDispute d e reason ev =>
    x.store.AllowsRaise act.1 e → ∀ dis ∈ x.store.records.disputes[d]?,
      dis = .new d e act.1.sender reason ev act.2
  | _ => True

instance (x : Execution) (act : Timed) : Decidable (RaisesNewIds x act) := by
  unfold RaisesNewIds
  split <;> infer_instance

section AppendOnly

variable {P : Params} {s : Store} {a : Id} {t : Int64} {r : Records} {p : TxPayload} {d : Id}

theorem DisputeState.rank_le_voting {st : DisputeState} (h : st ≠ .resolved) :
    st.rank ≤ DisputeState.voting.rank := by
  cases st with
  | resolved => exact absurd rfl h
  | raised | evidence | voting => decide

/-- Every change but a raise extends the record. -/
theorem DisputeChange.extends {dis : Dispute} {o : Option Dispute}
    (h : DisputeChange P r a t p d (some dis) o)
    (hnew : ∀ e reason ev esc, p = .raiseDispute d e reason ev → r.escrows[e]? = some esc →
      (a = esc.buyer ∨ a = esc.seller) → ¬ esc.Settled → dis = .new d e a reason ev t) :
    ∃ dis', o = some dis' ∧ dis.Extends dis' := by
  cases h with
  | same => exact ⟨dis, rfl, .refl dis⟩
  | raised _ hp he ha hs =>
    have heq := hnew _ _ _ _ hp he ha hs
    subst heq
    exact ⟨_, rfl, .refl _⟩
  | evidence _ hs =>
    refine ⟨_, rfl, rfl, rfl, rfl, rfl, List.prefix_append _ _,
      List.prefix_rfl, ?_, ?_⟩
    · rcases hs with hs | hs <;> simp [hs, DisputeState.rank]
    · intro hres
      rcases hs with hs | hs <;> rw [hs] at hres <;> cases hres
  | voted _ _ _ hs _ _ =>
    exact ⟨_, rfl, rfl, rfl, rfl, rfl, List.prefix_rfl, List.prefix_append _ _,
      DisputeState.rank_le_voting hs, fun hres => absurd hres hs⟩
  | decided _ _ _ hs _ _ =>
    exact ⟨_, rfl, rfl, rfl, rfl, rfl, List.prefix_rfl, List.prefix_append _ _,
      Nat.le_succ_of_le (DisputeState.rank_le_voting hs), fun hres => absurd hres hs⟩

theorem Execution.Step.extends {x x' : Execution} {tx : Transaction} (h : x.Step P tx t x')
    (hnew : RaisesNewIds x (tx, t)) {dis : Dispute}
    (hd : x.store.records.disputes[d]? = some dis) :
    ∃ dis', x'.store.records.disputes[d]? = some dis' ∧ dis.Extends dis' := by
  obtain ⟨hchange, hfresh⟩ := h.disputeChange d
  by_cases hsame : x'.store.records.disputes[d]? = x.store.records.disputes[d]?
  · rw [hsame, hd]
    exact ⟨dis, rfl, .refl dis⟩
  · rw [hd] at hchange
    refine hchange.extends ?_
    intro e reason ev esc hp he ha hs
    simp only [RaisesNewIds, hp] at hnew
    exact hnew ⟨hfresh hsame, esc, he, ha, hs⟩ dis hd

/-- **Disputes are append-only in every run whose raises take new ids.** -/
theorem disputesAppendOnly_of_along {l : List Timed}
    (h : Runs.Along (Execution.execute P) RaisesNewIds { store := s } l) :
    DisputesAppendOnly P s l := by
  intro l₁ l₂ hpre d dis hd
  have h₂ : Runs.Along (Execution.execute P) RaisesNewIds
      (Runs.run (Execution.execute P) { store := s } l₁) l₂ :=
    (Runs.along_append.1 (h.initial hpre)).2
  have hstep : ∀ (x : Execution) (act : Timed) (dis : Dispute),
      x.store.records.disputes[d]? = some dis → RaisesNewIds x act →
      ∃ dis', (x.execute P act).store.records.disputes[d]? = some dis' ∧ dis.Extends dis' := by
    intro x act dis hd hnew
    exact (execution_step P x act).extends hnew hd
  unfold disputeAfter at hd ⊢
  rw [Runs.run_append]
  exact Runs.persists_run (fun x : Execution => x.store.records.disputes[d]?) Dispute.Extends.refl
    (fun _ _ _ => .trans) hstep hd h₂

end AppendOnly

/-! The condition is also needed, in runs from the empty store. -/

/-- A dispute under `d` in its first phase is as it was raised. -/
def Dispute.AsRaised (d : Id) (dis : Dispute) : Prop :=
  dis.state = .raised → ∃ e a reason ev t, dis = .new d e a reason ev t

section Needed

variable {P : Params} {a e : Id} {t : Int64} {r : Records} {p : TxPayload} {d : Id}

theorem DisputeChange.asRaised {o : Option Dispute} {dis' : Dispute}
    (h : DisputeChange P r a t p d o (some dis')) (ho : ∀ dis, o = some dis → dis.AsRaised d) :
    dis'.AsRaised d := by
  cases h with
  | same => exact ho dis' rfl
  | raised _ _ _ _ _ => exact fun _ => ⟨_, _, _, _, _, rfl⟩
  | evidence _ _ => exact fun hs => nomatch hs
  | voted _ _ _ _ _ _ => exact fun hs => nomatch hs
  | decided _ _ _ _ _ _ => exact fun hs => nomatch hs

theorem executeAll_asRaised (P : Params) (l : List Timed) (d : Id) (dis : Dispute)
    (hd : (executeAll P l).store.records.disputes[d]? = some dis) : dis.AsRaised d := by
  refine executeAll_inv (P := P) (C := fun _ _ => True)
    (I := fun r _ => ∀ dis : Dispute, r.disputes[d]? = some dis → dis.AsRaised d)
    ?_ ?_ (Runs.along_true _ l) dis hd
  · intro dis hd
    simp [Records.empty] at hd
  · intro x tx t es r' hI _ _ hout dis' hd'
    have hchange := hout.disputeChange d
    rw [hd'] at hchange
    exact hchange.asRaised hI

/-- A new record that extends the stored one is the stored one. -/
theorem Dispute.AsRaised.eq_new {dis : Dispute} {reason : DisputeReason} {ev : Hash}
    (h : dis.AsRaised d) (hext : dis.Extends (.new d e a reason ev t)) :
    dis = .new d e a reason ev t := by
  have hstate : dis.state = .raised := by
    have hrank := hext.state
    cases hs : dis.state <;> simp [hs, Dispute.new, DisputeState.rank] at hrank
    rfl
  obtain ⟨e', a', reason', ev', t', rfl⟩ := h hstate
  have he := hext.escrowId
  have ha := hext.raisedBy
  have hr := hext.reason
  have ht := hext.raisedAt
  have hev := hext.evidenceHashes
  simp only [Dispute.new, List.cons_prefix_cons, List.nil_prefix,
    and_true] at he ha hr ht hev
  simp only [Dispute.new, he, ha, hr, ht, hev]

theorem along_of_disputesAppendOnly {l : List Timed} (h : DisputesAppendOnly P .empty l) :
    Runs.Along (Execution.execute P) RaisesNewIds { store := .empty } l := by
  refine Runs.along_iff_prefix.2 fun l₁ act hpre => ?_
  unfold RaisesNewIds
  split
  case h_2 => trivial
  case h_1 d e reason ev hp =>
    intro hallow dis hd
    obtain ⟨dis', hd', hext⟩ := h l₁ [act] hpre d dis hd
    have hnew : (Execution.execute P (executeAll P l₁) act).store.records.disputes[d]? =
        some (.new d e act.1.sender reason ev act.2) := by
      unfold executeAll
      rw [(Execution.execute_raise hp hallow).1, Table.get_insert, if_pos rfl]
    rw [← executeAll_append_one] at hnew
    have heq := Option.some_inj.1 (hnew.symm.trans hd')
    exact (executeAll_asRaised P l₁ d dis hd).eq_new (heq ▸ hext)

end Needed

/-- **Disputes are append-only as long as raises take new ids**, in every run, and in runs
from the empty store only then. -/
theorem disputesAppendOnly_iff (P : Params) :
    (∀ s l, Runs.Along (Execution.execute P) RaisesNewIds { store := s } l →
      DisputesAppendOnly P s l) ∧
    ∀ l, DisputesAppendOnly P .empty l →
      Runs.Along (Execution.execute P) RaisesNewIds { store := .empty } l :=
  ⟨fun _ _ h => disputesAppendOnly_of_along h, fun _ h => along_of_disputesAppendOnly h⟩

/-- One vote decides a dispute. -/
def Params.toyOneVote : Params := { Params.default with disputeVoteThreshold := 1 }

/-- The buyer disputes the escrow of the trade as 8, and arbiter 3 decides for the seller. -/
def toyDecided : List Timed :=
  toyTrade ++ [(.toy 3 1 (.registerParticipant 3 .arbiter ""), 0),
    (.toy 1 3 (.raiseDispute 8 7 .damaged 0), 10), (.toy 3 2 (.voteDispute 8 .favorSeller), 20)]

/-- The seller raises a dispute under the same id. -/
def Timed.toyReraise : Timed := (.toy 2 2 (.raiseDispute 8 7 .other 1), 30)

theorem disputesAppendOnly_iff_toy : DisputesAppendOnly .toyOneVote .empty toyDecided :=
  (disputesAppendOnly_iff .toyOneVote).1 .empty toyDecided (by decide +kernel)

/-- The vote on a decided dispute is lost. -/
theorem disputesAppendOnly_fails : ¬ ∀ P s l, DisputesAppendOnly P s l := by
  intro hall
  have hvotes : (disputeAfter .toyOneVote .empty 8 toyDecided).map (·.votes.length) = some 1 := by
    decide +kernel
  obtain ⟨dis, hd, hone⟩ := Option.map_eq_some_iff.1 hvotes
  obtain ⟨dis', hd', hext⟩ := hall .toyOneVote .empty (toyDecided ++ [.toyReraise]) toyDecided
    [.toyReraise] List.prefix_rfl 8 dis hd
  have hlost : (disputeAfter .toyOneVote .empty 8 (toyDecided ++ [.toyReraise])).map
      (·.votes.length) = some 0 := by
    decide +kernel
  rw [hd', Option.map_some, Option.some_inj] at hlost
  have hle := hext.votes.length_le
  omega

end RoutineChain
