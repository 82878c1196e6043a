import Mathlib.Logic.Function.Basic
import RoutineChain.Proof.Consistency

/-!
# The event log

What the returned events say about the records, for a reader that sees nothing else.

* `Index`: what is known of the records from their events, and `Index.apply`, one event.
* `Event.Follows`: what must be known before an event can happen.
* `index_log`: at the end of every run the index of the records is the fold of its events.
* `log_legal`: every event of every run follows from the events before it.
-/

namespace RoutineChain

open Std

/-! ## The index -/

/-- What is known of an escrow. -/
structure Deal where
  buyer : Id
  seller : Id
  amount : UInt64
  state : EscrowState

/-- What a reader of the events knows. -/
structure Index where
  /-- The type, and whether the participant is active. -/
  participants : Id → Option (UInt8 × Bool)
  /-- The participant that settled. -/
  settlements : Id → Option Id
  /-- The total. Earned and purchased tokens look the same in the events. -/
  balances : Id → UInt64
  escrows : Id → Option Deal
  /-- The escrow, and the resolution. Evidence and votes have no event. -/
  disputes : Id → Option (Id × Option UInt8)
  /-- The root, and the number of entries. -/
  anchors : Id → Option (Hash × UInt64)

def Index.empty : Index :=
  ⟨fun _ => none, fun _ => none, fun _ => 0, fun _ => none, fun _ => none, fun _ => none⟩

/-- Learn one event. -/
def Index.apply (x : Index) : Event → Index
  | .participantRegistered id ty =>
    { x with participants := Function.update x.participants id (some (ty, true)) }
  | .participantUpdated _ => x
  | .participantDeactivated id =>
    { x with participants :=
        Function.update x.participants id ((x.participants id).map fun q => (q.1, false)) }
  | .settlementRecorded id record =>
    { x with settlements := Function.update x.settlements record (some id) }
  | .ratingRecorded _ _ => x
  | .escrowCreated e buyer seller amount =>
    { x with escrows :=
        Function.update x.escrows e (some { buyer, seller, amount, state := .created }) }
  | .escrowReleased e =>
    { x with escrows :=
        Function.update x.escrows e ((x.escrows e).map ({ · with state := .released })) }
  | .escrowRefunded e =>
    { x with escrows :=
        Function.update x.escrows e ((x.escrows e).map ({ · with state := .refunded })) }
  | .disputeRaised d e =>
    { x with
      disputes := Function.update x.disputes d (some (e, none))
      escrows := Function.update x.escrows e ((x.escrows e).map ({ · with state := .disputed })) }
  | .disputeResolved d res =>
    { x with disputes :=
        Function.update x.disputes d ((x.disputes d).map fun q => (q.1, some res)) }
  | .rcwMinted a n _ => { x with balances := Function.update x.balances a (x.balances a + n) }
  | .rcwTransferred a b n =>
    let paid := Function.update x.balances a (x.balances a - n)
    { x with balances := Function.update paid b (paid b + n) }
  | .rcwSpent a n _ => { x with balances := Function.update x.balances a (x.balances a - n) }
  | .anchorRecorded b root n =>
    { x with anchors := Function.update x.anchors b (some (root, n)) }

/-- The participant is known. -/
def Index.Registered (x : Index) (a : Id) : Prop := (x.participants a).isSome

/-- What is known before an event. -/
def Event.Follows (x : Index) : Event → Prop
  | .participantRegistered id _ => ¬ x.Registered id
  | .participantUpdated id | .participantDeactivated id | .settlementRecorded id _
  | .ratingRecorded id _ => x.Registered id
  | .escrowCreated e buyer seller _ =>
    x.escrows e = none ∧ x.Registered buyer ∧ x.Registered seller
  | .escrowReleased e | .escrowRefunded e =>
    ∃ deal, x.escrows e = some deal ∧ (deal.state = .created ∨ deal.state = .funded)
  | .disputeRaised _ e =>
    ∃ deal, x.escrows e = some deal ∧ deal.state ≠ .released ∧ deal.state ≠ .refunded
  -- a dispute is resolved once
  | .disputeResolved d _ => ∃ e, x.disputes d = some (e, none)
  | .rcwMinted a n _ => x.Registered a ∧ n ≠ 0
  -- anybody can hold tokens
  | .rcwTransferred a _ n | .rcwSpent a n _ => n ≠ 0 ∧ n ≤ x.balances a
  | .anchorRecorded b _ _ => x.anchors b = none

/-! ## The index of records -/

/-- What a reader sees of each entry of a table. -/
def Table.view {V W : Type} (f : V → W) (T : Table V) (k : Id) : Option W := T[k]?.map f

section View

variable {V W : Type} {f : V → W} {T : Table V} {k : Id} {v w : V}

theorem Table.view_insert : Table.view f (T.insert k v) =
    Function.update (T.view f) k (some (f v)) := by
  funext x
  rw [view, Table.get_insert, Function.update_apply]
  by_cases hx : k = x
  · rw [if_pos hx, if_pos hx.symm, Option.map_some]
  · rw [if_neg hx, if_neg (Ne.symm hx)]
    rfl

/-- A write that a reader does not see. -/
theorem Table.view_insert_same (hw : T[k]? = some w) (hf : f v = f w) :
    Table.view f (T.insert k v) = T.view f := by
  rw [view_insert, hf]
  exact Function.update_eq_self_iff.2 (by rw [view, hw, Option.map_some])

end View

def Participant.seen (p : Participant) : UInt8 × Bool := (p.pType, p.isActive)

def Escrow.deal (e : Escrow) : Deal :=
  { buyer := e.buyer, seller := e.seller, amount := e.amount, state := e.state }

def Dispute.seen (d : Dispute) : Id × Option UInt8 := (d.escrowId, d.resolution)

def AnchorRecord.seen (a : AnchorRecord) : Hash × UInt64 := (a.merkleRoot, a.entryCount)

/-- The index of records. -/
def Records.index (r : Records) : Index :=
  { participants := r.participants.view (·.seen)
    settlements := r.settlements.view (·.participantId)
    balances := fun a => (r.balance a).total
    escrows := r.escrows.view (·.deal)
    disputes := r.disputes.view (·.seen)
    anchors := r.anchors.view (·.seen) }

theorem Records.index_empty : Records.empty.index = .empty := by
  have hview : ∀ {V W : Type} (f : V → W), Table.view f ∅ = fun _ => none := by
    intro V W f
    funext k
    simp [Table.view]
  simp [index, empty, Index.empty, hview, balance, RCWBalance.total]

variable {r r' : Records} {k : Id}

theorem Records.registered_index : r.index.Registered k ↔ r.participants[k]?.isSome := by
  unfold Index.Registered index Table.view
  rw [Option.isSome_map]

/-! ### Participants, escrows and disputes -/

/-- A write to a participant that keeps its type, and whether it is active. -/
theorem Records.index_putParticipant {p q : Participant} (hq : r.participants[k]? = some q)
    (hp : p.seen = q.seen) : (r.putParticipant k p).index = r.index := by
  unfold index
  rw [putParticipant_participants, Table.view_insert_same hq hp]
  rfl

theorem Records.index_modifyParticipant {f : Participant → Participant}
    (hf : ∀ p, (f p).seen = p.seen) : (r.modifyParticipant k f).index = r.index := by
  unfold modifyParticipant
  split
  case h_1 p hp => exact index_putParticipant hp (hf p)
  case h_2 => rfl

theorem Records.index_putEscrow (e : Escrow) : (r.putEscrow k e).index =
    { r.index with escrows := Function.update r.index.escrows k (some e.deal) } := by
  unfold index
  rw [putEscrow_escrows, Table.view_insert]
  rfl

theorem Records.index_putDispute (d : Dispute) : (r.putDispute k d).index =
    { r.index with disputes := Function.update r.index.disputes k (some d.seen) } := by
  unfold index
  rw [putDispute_disputes, Table.view_insert]
  rfl

/-- A write to a dispute that keeps its escrow and its resolution. -/
theorem Records.index_putDispute_same {d d' : Dispute} (hd : r.disputes[k]? = some d')
    (hs : d.seen = d'.seen) : (r.putDispute k d).index = r.index := by
  unfold index
  rw [putDispute_disputes, Table.view_insert_same hd hs]
  rfl

theorem Records.index_escrows {esc : Escrow} (he : r.escrows[k]? = some esc) :
    r.index.escrows k = some esc.deal := by
  simp [index, Table.view, he]

theorem Records.index_disputes {dis : Dispute} (hd : r.disputes[k]? = some dis) :
    r.index.disputes k = some dis.seen := by
  simp [index, Table.view, hd]

/-! ### Balances -/

theorem Records.index_putBalance (b : RCWBalance) : (r.putBalance k b).index =
    { r.index with balances := Function.update r.index.balances k b.total } := by
  have hb : (fun a => ((r.putBalance k b).balance a).total) =
      Function.update (fun a => (r.balance a).total) k b.total := by
    funext a
    rw [balance_putBalance, Function.update_apply]
    by_cases ha : k = a
    · rw [if_pos ha, if_pos ha.symm]
    · rw [if_neg ha, if_neg (Ne.symm ha)]
  unfold index
  rw [hb]
  rfl

/-- What is taken from a balance that covers it is taken from the total, also modulo `2 ^ 64`. -/
theorem RCWBalance.total_deduct (b : RCWBalance) (n : UInt64) :
    (b.deduct n).total = b.total - n := by
  unfold deduct total
  split <;> grind

theorem Records.index_mint (n : UInt64) (reason : String) :
    (r.mint k n).index = r.index.apply (.rcwMinted k n reason) := by
  have htotal : ∀ b : RCWBalance, ({ b with earned := b.earned + n } : RCWBalance).total =
      b.total + n := by
    intro b
    unfold RCWBalance.total
    grind
  unfold mint
  rw [index_putBalance, htotal]
  rfl

theorem Records.index_reward (a : Id) (n : UInt64) (reason : String) :
    (r.reward a n).index = (rewardEvents a n reason).foldl Index.apply r.index := by
  unfold reward rewardEvents
  split
  · exact index_mint n reason
  · rfl

theorem Records.index_resolve (esc : Escrow) (y : Id) (res : UInt8) (w : UInt64) :
    (r.resolve esc y res w).index = (resolveEvents esc res w).foldl Index.apply r.index := by
  unfold resolve resolveEvents
  split
  · rfl
  · rw [index_reward _ _ "dispute_won"]
    congr 1
    refine (index_modifyParticipant ?_).trans (index_modifyParticipant ?_)
    · exact fun _ => rfl
    · exact fun _ => rfl

/-! ## One payload -/

/-- Rewards touch balances only. -/
theorem apply_rewardEvents (x : Index) (a : Id) (n : UInt64) (reason : String) :
    (rewardEvents a n reason).foldl Index.apply x =
      { x with balances := ((rewardEvents a n reason).foldl Index.apply x).balances } := by
  unfold rewardEvents
  split <;> rfl

theorem disputes_resolveEvents (x : Index) (esc : Escrow) (res : UInt8) (w : UInt64) :
    ((resolveEvents esc res w).foldl Index.apply x).disputes = x.disputes := by
  unfold resolveEvents
  split
  · rfl
  · rw [apply_rewardEvents]

/-- The rewards of a known participant. -/
theorem follows_rewardEvents {x : Index} {a : Id} (ha : x.Registered a) (n : UInt64)
    (reason : String) :
    Runs.Along Index.apply (fun x e => e.Follows x) x (rewardEvents a n reason) := by
  unfold rewardEvents
  split
  case isTrue hn => exact ⟨⟨ha, (UInt64.pos_iff_ne_zero.1 hn)⟩, trivial⟩
  case isFalse => trivial

section Outcome

variable {P : Params} {a : Id} {t : Int64} {p : TxPayload} {es : List Event}

/-- **What a payload writes is what its events say.** -/
theorem TxPayload.Outcome.index (h : p.Outcome P a t r es r') :
    r'.index = es.foldl Index.apply r.index := by
  cases h with
  | @registered ty md hnew =>
    simp only [Records.index, Records.putParticipant_participants, Table.view_insert]
    rfl
  | @updated md q hq =>
    exact Records.index_putParticipant hq rfl
  | @deactivated q hq =>
    have hseen : r.index.participants a = some q.seen := by simp [Records.index, Table.view, hq]
    simp only [List.foldl_cons, List.foldl_nil, Index.apply, hseen, Option.map_some]
    simp only [Records.index, Records.putParticipant_participants, Table.view_insert]
    rfl
  | @settled d q hq =>
    rw [Records.index_reward _ _ "settlement_reward", List.foldl_cons]
    congr 1
    rw [Records.index_putParticipant (q := q)]
    · simp only [Records.index, Records.putSettlement_settlements, Table.view_insert]
      rfl
    · exact hq
    · rfl
  | @rated id n ok q hq =>
    rw [Records.index_reward _ _ "rating_reward", List.foldl_cons]
    congr 1
    have hseen : (q.rated n ok t).seen = q.seen := by
      have hsame := q.sameProfile_rated n ok t
      unfold Participant.seen
      rw [hsame.pType, hsame.isActive]
    exact Records.index_putParticipant hq hseen
  | created hnew hb hs => exact Records.index_putEscrow _
  | @released e ev esc b s he ha hopen ht hb hs =>
    rw [Records.index_reward _ _ "escrow_complete", Records.index_reward _ _ "escrow_complete",
      List.foldl_cons, List.foldl_append]
    congr 2
    -- the seller is looked up after the buyer has been written
    rw [Records.index_putParticipant (q := s), Records.index_putParticipant (q := b),
      Records.index_putEscrow]
    · simp only [Index.apply, Records.index_escrows he, Option.map_some]
      rfl
    · exact hb
    · rfl
    · exact hs
    · rfl
  | @refunded e esc s he ha hopen hs =>
    rw [Records.index_putParticipant (q := s), Records.index_putEscrow]
    · simp only [List.foldl_cons, List.foldl_nil, Index.apply, Records.index_escrows he,
        Option.map_some]
      rfl
    · exact hs
    · rfl
  | @raised d e reason ev esc he ha hs =>
    refine (Records.index_modifyParticipant ?_).trans ?_
    · exact fun _ => rfl
    rw [Records.index_putDispute, Records.index_putEscrow]
    simp only [List.foldl_cons, List.foldl_nil, Index.apply, Records.index_escrows he,
      Option.map_some]
    rfl
  | evidence hd he ha hs => exact Records.index_putDispute_same hd rfl
  | voted hd hp ha hs hv hm => exact Records.index_putDispute_same hd rfl
  | @decided d dec dis q esc hd hp ha hs hv hm he =>
    rw [Records.index_putDispute, Records.index_resolve, List.foldl_append]
    have hdis : ((resolveEvents esc (resolutionOf (dis.voted a dec t).votes)
        P.rewards.disputeWon).foldl Index.apply r.index).disputes d = some dis.seen := by
      rw [disputes_resolveEvents, Records.index_disputes hd]
    simp only [List.foldl_cons, List.foldl_nil, Index.apply, hdis, Option.map_some]
    rfl
  | @transferred b n memo hn ht =>
    rw [Records.index_mint n "", Records.index_putBalance, RCWBalance.total_deduct]
    rfl
  | @spent n purpose hn ht =>
    rw [Records.index_putBalance, RCWBalance.total_deduct]
    rfl
  | anchored ha hnew =>
    simp only [Records.index, Records.putAnchor_anchors, Table.view_insert]
    rfl

/-- A dispute that is not resolved has no resolution. -/
def Records.OpenUnresolved (r : Records) : Prop :=
  ∀ (d : Id) (dis : Dispute), r.disputes[d]? = some dis → dis.state ≠ .resolved →
    dis.resolution = none

theorem TxPayload.Outcome.openUnresolved (h : p.Outcome P a t r es r') (hr : r.OpenUnresolved) :
    r'.OpenUnresolved := by
  intro d dis' hd hs'
  have hchange := h.disputeChange d
  rw [hd] at hchange
  generalize ho : r.disputes[d]? = o at hchange
  cases hchange with
  | same => exact hr d dis' ho hs'
  | raised _ _ _ _ _ => rfl
  | @evidence _ dis _ hs =>
    refine hr d dis ho ?_
    rcases hs with hs | hs <;> simp [hs]
  | @voted _ dis _ _ _ _ hs _ _ => exact hr d dis ho hs
  | decided _ _ _ _ _ _ => simp [Dispute.resolved] at hs'

/-- **Every event of a payload follows** from what is known before it. -/
theorem TxPayload.Outcome.follows (h : p.Outcome P a t r es r') (hr : r.OpenUnresolved)
    (hparties : r.PartiesRegistered) :
    Runs.Along Index.apply (fun x e => e.Follows x) r.index es := by
  cases h with
  | registered hnew =>
    refine ⟨mt Records.registered_index.1 ?_, trivial⟩
    simp [hnew]
  | updated hq | deactivated hq =>
    exact ⟨Records.registered_index.2 (Option.isSome_of_eq_some hq), trivial⟩
  | settled hq | rated hq =>
    have hreg := Records.registered_index.2 (Option.isSome_of_eq_some hq)
    refine ⟨hreg, follows_rewardEvents ?_ _ _⟩
    exact hreg
  | created hnew hb hs =>
    refine ⟨⟨?_, Records.registered_index.2 hb, Records.registered_index.2 hs⟩, trivial⟩
    simp [Records.index, Table.view, hnew]
  | @released e ev esc b s he ha hopen ht hb hs =>
    obtain ⟨hbuyer, hseller⟩ := hparties e esc he
    refine ⟨⟨_, Records.index_escrows he, hopen⟩, Runs.along_append.2 ⟨?_, ?_⟩⟩
    · refine follows_rewardEvents ?_ _ _
      exact Records.registered_index.2 hbuyer
    · refine follows_rewardEvents ?_ _ _
      unfold Runs.run
      rw [apply_rewardEvents]
      exact Records.registered_index.2 hseller
  | refunded he ha hopen hs => exact ⟨⟨_, Records.index_escrows he, hopen⟩, trivial⟩
  | raised he ha hs =>
    obtain ⟨hrel, href⟩ := not_or.1 hs
    exact ⟨⟨_, Records.index_escrows he, hrel, href⟩, trivial⟩
  | evidence _ _ _ _ | voted _ _ _ _ _ _ => trivial
  | @decided d dec dis q esc hd hp ha hs hv hm he =>
    obtain ⟨hbuyer, hseller⟩ := hparties _ esc he
    refine Runs.along_append.2 ⟨?_, ⟨dis.escrowId, ?_⟩, trivial⟩
    · unfold resolveEvents
      split
      · trivial
      · refine follows_rewardEvents (Records.registered_index.2 ?_) _ _
        split
        · exact hbuyer
        · exact hseller
    · rw [Runs.run, disputes_resolveEvents, Records.index_disputes hd, Dispute.seen,
        hr d dis hd hs]
  | transferred hn ht | spent hn ht => exact ⟨⟨hn, UInt64.not_lt.1 ht⟩, trivial⟩
  | anchored ha hnew =>
    refine ⟨?_, trivial⟩
    simp [Event.Follows, Records.index, Table.view, hnew]

end Outcome

/-! ## Runs -/

/-- **The index of the records is the fold of the events**, at the end of every run. -/
theorem index_log (P : Params) (l : List Timed) :
    (executeAll P l).store.records.index =
      Runs.run Index.apply .empty (executeAll P l).events := by
  refine executeAll_inv (P := P) (C := fun _ _ => True)
    (I := fun r es => r.index = Runs.run Index.apply .empty es) Records.index_empty ?_
    (Runs.along_true _ l)
  intro x tx t es r' hx _ _ hout
  rw [Runs.run_append, ← hx]
  exact hout.index

/-- **Every event of a run follows** from the events before it. -/
theorem log_legal (P : Params) (l : List Timed) :
    Runs.Along Index.apply (fun x e => e.Follows x) .empty (executeAll P l).events := by
  have hinv := executeAll_inv (P := P) (C := fun _ _ => True)
    (I := fun r es => (r.OpenUnresolved ∧ r.PartiesRegistered) ∧
      r.index = Runs.run Index.apply .empty es ∧
      Runs.Along Index.apply (fun x e => e.Follows x) .empty es) ?_ ?_ (Runs.along_true _ l)
  · exact hinv.2.2
  · refine ⟨⟨?_, Records.partiesRegistered_empty⟩, Records.index_empty, trivial⟩
    intro d dis hd
    simp [Records.empty] at hd
  · rintro x tx t es r' ⟨⟨hopen, hparties⟩, hindex, hlog⟩ _ _ hout
    refine ⟨⟨hout.openUnresolved hopen, hout.partiesRegistered hparties⟩, ?_,
      Runs.along_append.2 ⟨hlog, ?_⟩⟩
    · rw [Runs.run_append, ← hindex]
      exact hout.index
    · rw [← hindex]
      exact hout.follows hopen hparties

end RoutineChain
