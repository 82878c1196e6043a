import Mathlib.Data.Finset.Image
import RoutineChain.Lib.Footprint
import RoutineChain.Lib.Simulation
import RoutineChain.Proof.Escrows

/-!
# What a transaction touches

Accounts are named by the payload, or are the parties of the escrow that it is about: nothing
else is read or written.

* `Transaction.touches`: the keys that a transaction touches in a store.
* `runPayload_local`: every operation of the modules stays in the scope of its payload.
* `execute_local`: what is stored under the keys determines what the transaction returns and
  writes, and it writes nowhere else.
-/

namespace RoutineChain

open EStateM Footprint Std

/-! ## Keys -/

/-- A record, or the participant and the balance of an account. -/
inductive RecordKey where
  | account (id : Id)
  | settlement (id : Id)
  | escrow (id : Id)
  | dispute (id : Id)
  | anchor (id : Id)
  deriving DecidableEq

/-- What is stored under a key. -/
abbrev RecordKey.Value : RecordKey → Type
  | .account _ => Option Participant × Option RCWBalance
  | .settlement _ => Option SettlementRecord
  | .escrow _ => Option Escrow
  | .dispute _ => Option Dispute
  | .anchor _ => Option AnchorRecord

def Records.view (r : Records) : (k : RecordKey) → k.Value
  | .account id => (r.participants[id]?, r.balances[id]?)
  | .settlement id => r.settlements[id]?
  | .escrow id => r.escrows[id]?
  | .dispute id => r.disputes[id]?
  | .anchor id => r.anchors[id]?

/-- An escrow and its parties. -/
def Records.escrowScope (r : Records) (e : Id) : Finset RecordKey :=
  insert (.escrow e) (match r.escrows[e]? with
    | some esc => {.account esc.buyer, .account esc.seller}
    | none => ∅)

/-- A dispute, its escrow and the parties of that. -/
def Records.disputeScope (r : Records) (d : Id) : Finset RecordKey :=
  insert (.dispute d) (match r.disputes[d]? with
    | some dis => r.escrowScope dis.escrowId
    | none => ∅)

/-- The records that a payload of sender `a` touches. -/
def TxPayload.touches (r : Records) (a : Id) : TxPayload → Finset RecordKey
  | .registerParticipant id _ _ => {.account id}
  | .updateParticipant id _ => {.account id}
  | .deactivateParticipant id => {.account id}
  | .recordSettlement id d => {.account id, .settlement d.recordId}
  | .recordRating id _ _ => {.account id}
  | .createEscrow e b s _ _ => {.account b, .account s} ∪ r.escrowScope e
  | .releaseEscrow e _ => r.escrowScope e
  | .refundEscrow e => r.escrowScope e
  | .raiseDispute d e _ _ => r.escrowScope e ∪ r.disputeScope d
  | .submitEvidence d _ => r.disputeScope d
  | .voteDispute d _ => insert (.account a) (r.disputeScope d)
  | .transferRCW b _ _ => {.account a, .account b}
  | .spendRCW _ _ => {.account a}
  | .anchorMerkleRoot b _ _ _ _ => {.anchor b}

/-- A record, the nonce of a sender, or the chain. -/
inductive StoreKey where
  | record (k : RecordKey)
  | nonce (id : Id)
  | chain
  deriving DecidableEq

abbrev StoreKey.Value : StoreKey → Type
  | .record k => k.Value
  | .nonce _ => Option UInt64
  | .chain => ExtTreeMap UInt64 Block compare × Option UInt64

def Store.view (s : Store) : (k : StoreKey) → k.Value
  | .record k => s.records.view k
  | .nonce id => s.nonces[id]?
  | .chain => (s.blocks, s.latestHeight)

/-- The keys of a sender's nonce and of the records in `G`. -/
def storeKeys (a : Id) (G : Finset RecordKey) : Finset StoreKey :=
  insert (.nonce a) (G.image .record)

/-- What a transaction touches: the nonce of its sender, and the records that its payload
touches. -/
def Transaction.touches (s : Store) (tx : Transaction) : Finset StoreKey :=
  storeKeys tx.sender (tx.payload.touches s.records tx.sender)

theorem Records.view_ext {r r' : Records} (h : ∀ k, r.view k = r'.view k) : r = r' := by
  have hparticipants : r.participants = r'.participants :=
    ExtTreeMap.ext_getElem? fun id => congrArg Prod.fst (h (.account id))
  have hbalances : r.balances = r'.balances :=
    ExtTreeMap.ext_getElem? fun id => congrArg Prod.snd (h (.account id))
  have hsettlements : r.settlements = r'.settlements :=
    ExtTreeMap.ext_getElem? fun id => h (.settlement id)
  have hescrows : r.escrows = r'.escrows := ExtTreeMap.ext_getElem? fun id => h (.escrow id)
  have hdisputes : r.disputes = r'.disputes := ExtTreeMap.ext_getElem? fun id => h (.dispute id)
  have hanchors : r.anchors = r'.anchors := ExtTreeMap.ext_getElem? fun id => h (.anchor id)
  obtain ⟨_, _, _, _, _, _⟩ := r
  obtain ⟨_, _, _, _, _, _⟩ := r'
  simp only at hparticipants hbalances hsettlements hescrows hdisputes hanchors
  rw [hparticipants, hbalances, hsettlements, hescrows, hdisputes, hanchors]

theorem Store.view_ext {s s' : Store} (h : ∀ k, s.view k = s'.view k) : s = s' := by
  have hrecords : s.records = s'.records := Records.view_ext fun k => h (.record k)
  have hnonces : s.nonces = s'.nonces := ExtTreeMap.ext_getElem? fun id => h (.nonce id)
  have hchain : (s.blocks, s.latestHeight) = (s'.blocks, s'.latestHeight) := h .chain
  obtain ⟨_, _, _, _⟩ := s
  obtain ⟨_, _, _, _⟩ := s'
  simp only [Prod.mk.injEq] at hrecords hnonces hchain
  rw [hrecords, hnonces, hchain.1, hchain.2]

/-! ### Writes -/

section Writes

variable (r : Records) {k : RecordKey} {x : Id}

theorem Records.view_putParticipant (p : Participant) (h : k ≠ .account x) :
    (r.putParticipant x p).view k = r.view k := by
  cases k with
  | account id =>
    have hne : ¬ x = id := fun heq => h (heq ▸ rfl)
    simp [view, Table.get_insert, hne]
  | _ => rfl

theorem Records.view_putBalance (b : RCWBalance) (h : k ≠ .account x) :
    (r.putBalance x b).view k = r.view k := by
  cases k with
  | account id =>
    have hne : ¬ x = id := fun heq => h (heq ▸ rfl)
    simp [view, Table.get_insert, hne]
  | _ => rfl

theorem Records.view_putSettlement (s : SettlementRecord) (h : k ≠ .settlement x) :
    (r.putSettlement x s).view k = r.view k := by
  cases k with
  | settlement id =>
    have hne : ¬ x = id := fun heq => h (heq ▸ rfl)
    simp [view, Table.get_insert, hne]
  | _ => rfl

theorem Records.view_putEscrow (e : Escrow) (h : k ≠ .escrow x) :
    (r.putEscrow x e).view k = r.view k := by
  cases k with
  | escrow id =>
    have hne : ¬ x = id := fun heq => h (heq ▸ rfl)
    simp [view, Table.get_insert, hne]
  | _ => rfl

theorem Records.view_putDispute (d : Dispute) (h : k ≠ .dispute x) :
    (r.putDispute x d).view k = r.view k := by
  cases k with
  | dispute id =>
    have hne : ¬ x = id := fun heq => h (heq ▸ rfl)
    simp [view, Table.get_insert, hne]
  | _ => rfl

theorem Records.view_putAnchor (a : AnchorRecord) (h : k ≠ .anchor x) :
    (r.putAnchor x a).view k = r.view k := by
  cases k with
  | anchor id =>
    have hne : ¬ x = id := fun heq => h (heq ▸ rfl)
    simp [view, Table.get_insert, hne]
  | _ => rfl

end Writes

/-! ## Payloads stay in their scope -/

/-- The parties of an escrow in `F` are in it, and the escrow of a dispute. -/
structure Records.Closed (r : Records) (F : Set RecordKey) : Prop where
  parties : ∀ e esc, .escrow e ∈ F → r.escrows[e]? = some esc →
    .account esc.buyer ∈ F ∧ .account esc.seller ∈ F
  cases : ∀ d dis, .dispute d ∈ F → r.disputes[d]? = some dis → .escrow dis.escrowId ∈ F

/-- Two runs of a computation in the closed scope `F`. -/
structure Records.Within (F : Set RecordKey) (r₀ q₀ r q : Records) : Prop extends
    Footprint.Within Records.view F r₀ q₀ r q, r.Closed F

namespace Records.Within

variable {F : Set RecordKey} {r₀ q₀ r q : Records} {x : Id}

theorem getParticipant (h : Records.Within F r₀ q₀ r q) (hx : .account x ∈ F) :
    r.participants[x]? = q.participants[x]? := congrArg Prod.fst (h.agree _ hx)

theorem getBalance (h : Records.Within F r₀ q₀ r q) (hx : .account x ∈ F) :
    r.balance x = q.balance x := by
  unfold Records.balance
  rw [show r.balances[x]? = q.balances[x]? from congrArg Prod.snd (h.agree _ hx)]

theorem putParticipant (h : Records.Within F r₀ q₀ r q) (hx : .account x ∈ F)
    (p : Participant) : Records.Within F r₀ q₀ (r.putParticipant x p) (q.putParticipant x p) := by
  refine ⟨h.write hx (fun _ => r.view_putParticipant p) (fun _ => q.view_putParticipant p) ?_,
    h.parties, h.cases⟩
  have hbalance : r.balances[x]? = q.balances[x]? := congrArg Prod.snd (h.agree _ hx)
  simp [Records.view, hbalance]

theorem putBalance (h : Records.Within F r₀ q₀ r q) (hx : .account x ∈ F) (b : RCWBalance) :
    Records.Within F r₀ q₀ (r.putBalance x b) (q.putBalance x b) := by
  refine ⟨h.write hx (fun _ => r.view_putBalance b) (fun _ => q.view_putBalance b) ?_,
    h.parties, h.cases⟩
  simp [Records.view, h.getParticipant hx]

theorem putSettlement (h : Records.Within F r₀ q₀ r q) (hx : .settlement x ∈ F)
    (s : SettlementRecord) :
    Records.Within F r₀ q₀ (r.putSettlement x s) (q.putSettlement x s) := by
  refine ⟨h.write hx (fun _ => r.view_putSettlement s) (fun _ => q.view_putSettlement s) ?_,
    h.parties, h.cases⟩
  simp [Records.view]

theorem putEscrow (h : Records.Within F r₀ q₀ r q) (hx : .escrow x ∈ F) {e : Escrow}
    (hb : .account e.buyer ∈ F) (hs : .account e.seller ∈ F) :
    Records.Within F r₀ q₀ (r.putEscrow x e) (q.putEscrow x e) := by
  refine ⟨h.write hx (fun _ => r.view_putEscrow e) (fun _ => q.view_putEscrow e) ?_, ?_,
    h.cases⟩
  · simp [Records.view]
  · intro x' e' hx' he'
    rw [Records.putEscrow_escrows, Table.get_insert] at he'
    split at he'
    · cases he'
      exact ⟨hb, hs⟩
    · exact h.parties x' e' hx' he'

theorem putDispute (h : Records.Within F r₀ q₀ r q) (hx : .dispute x ∈ F) {d : Dispute}
    (he : .escrow d.escrowId ∈ F) :
    Records.Within F r₀ q₀ (r.putDispute x d) (q.putDispute x d) := by
  refine ⟨h.write hx (fun _ => r.view_putDispute d) (fun _ => q.view_putDispute d) ?_,
    h.parties, ?_⟩
  · simp [Records.view]
  · intro x' d' hx' hd'
    rw [Records.putDispute_disputes, Table.get_insert] at hd'
    split at hd'
    · cases hd'
      exact he
    · exact h.cases x' d' hx' hd'

theorem putAnchor (h : Records.Within F r₀ q₀ r q) (hx : .anchor x ∈ F) (a : AnchorRecord) :
    Records.Within F r₀ q₀ (r.putAnchor x a) (q.putAnchor x a) := by
  refine ⟨h.write hx (fun _ => r.view_putAnchor a) (fun _ => q.view_putAnchor a) ?_,
    h.parties, h.cases⟩
  simp [Records.view]

end Records.Within

section Scope

variable {F : Set RecordKey} {r₀ q₀ : Records} {α : Type}

/-- The computation reads and writes records in the scope only. -/
abbrev Exec.StaysIn (F : Set RecordKey) (r₀ q₀ : Records) (x : Exec α) : Prop :=
  Sim (Records.Within F r₀ q₀) Eq x x

theorem getParticipant_local {id : Id} (h : .account id ∈ F) :
    (getParticipant id).StaysIn F r₀ q₀ :=
  .reads fun _ _ hr => hr.getParticipant h

theorem setParticipant_local {id : Id} (h : .account id ∈ F) (p : Participant) :
    (setParticipant id p).StaysIn F r₀ q₀ :=
  .modify fun _ _ hr => hr.putParticipant h p

theorem setSettlement_local {id : Id} (h : .settlement id ∈ F) (s : SettlementRecord) :
    (setSettlement id s).StaysIn F r₀ q₀ :=
  .modify fun _ _ hr => hr.putSettlement h s

theorem getBalance_local {id : Id} (h : .account id ∈ F) : (getBalance id).StaysIn F r₀ q₀ :=
  .reads fun _ _ hr => hr.getBalance h

theorem setBalance_local {id : Id} (h : .account id ∈ F) (b : RCWBalance) :
    (setBalance id b).StaysIn F r₀ q₀ :=
  .modify fun _ _ hr => hr.putBalance h b

theorem setEscrow_local {id : Id} {e : Escrow} (h : .escrow id ∈ F)
    (hb : .account e.buyer ∈ F) (hs : .account e.seller ∈ F) :
    (setEscrow id e).StaysIn F r₀ q₀ :=
  .modify fun _ _ hr => hr.putEscrow h hb hs

theorem setDispute_local {id : Id} {d : Dispute} (h : .dispute id ∈ F)
    (he : .escrow d.escrowId ∈ F) : (setDispute id d).StaysIn F r₀ q₀ :=
  .modify fun _ _ hr => hr.putDispute h he

theorem getAnchor_local {id : Id} (h : .anchor id ∈ F) : (getAnchor id).StaysIn F r₀ q₀ :=
  .reads fun _ _ hr => hr.agree _ h

theorem setAnchor_local {id : Id} (h : .anchor id ∈ F) (a : AnchorRecord) :
    (setAnchor id a).StaysIn F r₀ q₀ :=
  .modify fun _ _ hr => hr.putAnchor h a

/-- A participant that the operation needs. -/
theorem needParticipant_local {id : Id} {err : String} {f : Participant → Exec α}
    (h : .account id ∈ F) (hf : ∀ p, (f p).StaysIn F r₀ q₀) : Exec.StaysIn F r₀ q₀
      (getParticipant id >>= fun o => match o with | some p => f p | _ => throw err) := by
  refine (getParticipant_local h).bind ?_
  rintro (_ | p) _ rfl
  · exact .throw
  · exact hf p

/-- A participant that the operation writes if it is registered. -/
theorem mayWrite_local {id : Id} {f : Participant → Participant} {rest : Exec α}
    (h : .account id ∈ F) (hrest : rest.StaysIn F r₀ q₀) : Exec.StaysIn F r₀ q₀
      (getParticipant id >>= fun o =>
        match o with
        | some p => setParticipant id (f p) >>= fun _ => rest
        | _ => rest) := by
  refine (getParticipant_local h).bind ?_
  rintro (_ | p) _ rfl
  · exact hrest
  · exact (setParticipant_local h _).bind fun _ _ _ => hrest

/-- An escrow that the operation needs, with its parties. -/
theorem needEscrow_local {id : Id} {err : String} {f : Escrow → Exec α} (h : .escrow id ∈ F)
    (hf : ∀ e : Escrow, .account e.buyer ∈ F → .account e.seller ∈ F →
      (f e).StaysIn F r₀ q₀) : Exec.StaysIn F r₀ q₀
      (getEscrow id >>= fun o => match o with | some e => f e | _ => throw err) := by
  have hread : Sim (Records.Within F r₀ q₀)
      (fun o o' : Option Escrow => o = o' ∧
        ∀ e, o = some e → .account e.buyer ∈ F ∧ .account e.seller ∈ F)
      (getEscrow id) (getEscrow id) :=
    .reads fun r q hr => ⟨hr.agree _ h, fun e he => hr.parties id e h he⟩
  refine hread.bind ?_
  rintro (_ | e) _ ⟨rfl, hparties⟩
  · exact .throw
  · exact hf e (hparties e rfl).1 (hparties e rfl).2

/-- A dispute that the operation needs, with its escrow. -/
theorem needDispute_local {id : Id} {err : String} {f : Dispute → Exec α} (h : .dispute id ∈ F)
    (hf : ∀ d : Dispute, .escrow d.escrowId ∈ F → (f d).StaysIn F r₀ q₀) :
    Exec.StaysIn F r₀ q₀
      (getDispute id >>= fun o => match o with | some d => f d | _ => throw err) := by
  have hread : Sim (Records.Within F r₀ q₀)
      (fun o o' : Option Dispute => o = o' ∧ ∀ d, o = some d → .escrow d.escrowId ∈ F)
      (getDispute id) (getDispute id) :=
    .reads fun r q hr => ⟨hr.agree _ h, fun d hd => hr.cases id d h hd⟩
  refine hread.bind ?_
  rintro (_ | d) _ ⟨rfl, hcase⟩
  · exact .throw
  · exact hf d (hcase d rfl)

/-! ### Modules -/

theorem Token.mint_local {receiver : Id} (h : .account receiver ∈ F) (amount : UInt64)
    (reason : String) : (Token.mint receiver amount reason).StaysIn F r₀ q₀ := by
  unfold Token.mint
  refine (getBalance_local h).bind ?_
  rintro b _ rfl
  refine (setBalance_local h _).bind ?_
  intro _ _ _
  exact .pure rfl

/-- A reward that is minted if it is not zero. -/
theorem reward_local {receiver : Id} (h : .account receiver ∈ F) (amount : UInt64)
    (reason : String) (events : List Event) : Exec.StaysIn F r₀ q₀ (do
      if amount > 0 then return events ++ (← Token.mint receiver amount reason)
      return events) := by
  refine .ite (fun _ => (Token.mint_local h amount reason).bind ?_) fun _ => .pure rfl
  rintro es _ rfl
  exact .pure rfl

theorem Token.transfer_local {sender receiver : Id} (hs : .account sender ∈ F)
    (hr : .account receiver ∈ F) (amount : UInt64) (memo : String) :
    (Token.transfer sender receiver amount memo).StaysIn F r₀ q₀ := by
  unfold Token.transfer
  refine .guard fun _ => (getBalance_local hs).bind ?_
  rintro b _ rfl
  refine .guard fun _ => (setBalance_local hs _).bind ?_
  intro _ _ _
  refine (getBalance_local hr).bind ?_
  rintro b' _ rfl
  refine (setBalance_local hr _).bind ?_
  intro _ _ _
  exact .pure rfl

theorem Token.spend_local {sender : Id} (hs : .account sender ∈ F) (amount : UInt64)
    (purpose : String) : (Token.spend sender amount purpose).StaysIn F r₀ q₀ := by
  unfold Token.spend
  refine .guard fun _ => (getBalance_local hs).bind ?_
  rintro b _ rfl
  refine .guard fun _ => (setBalance_local hs _).bind ?_
  intro _ _ _
  exact .pure rfl

theorem Participant.register_local {id : Id} (h : .account id ∈ F) (sender : Id)
    (pType : ParticipantType) (metadata : String) (timestamp : Int64) :
    (Participant.register sender id pType metadata timestamp).StaysIn F r₀ q₀ := by
  unfold Participant.register
  refine .guard fun _ => (getParticipant_local h).bind ?_
  rintro o _ rfl
  refine .guard fun _ => (setParticipant_local h _).bind ?_
  intro _ _ _
  exact .pure rfl

theorem Participant.update_local {id : Id} (h : .account id ∈ F) (sender : Id)
    (metadata : String) (timestamp : Int64) :
    (Participant.update sender id metadata timestamp).StaysIn F r₀ q₀ := by
  unfold Participant.update
  refine .guard fun _ => needParticipant_local h fun p => ?_
  refine (setParticipant_local h _).bind ?_
  intro _ _ _
  exact .pure rfl

theorem Participant.deactivate_local {id : Id} (h : .account id ∈ F) (sender : Id) :
    (Participant.deactivate sender id).StaysIn F r₀ q₀ := by
  unfold Participant.deactivate
  refine .guard fun _ => needParticipant_local h fun p => ?_
  refine (setParticipant_local h _).bind ?_
  intro _ _ _
  exact .pure rfl

theorem Settlement.record_local {id : Id} {data : SettlementData} (h : .account id ∈ F)
    (hrecord : .settlement data.recordId ∈ F) (sender : Id) (timestamp : Int64)
    (rewardAmount : UInt64) :
    (Settlement.record sender id data timestamp rewardAmount).StaysIn F r₀ q₀ := by
  unfold Settlement.record
  refine .guard fun _ => needParticipant_local h fun p => ?_
  refine (setSettlement_local hrecord _).bind ?_
  intro _ _ _
  refine (setParticipant_local h _).bind ?_
  intro _ _ _
  exact reward_local h rewardAmount _ _

theorem Settlement.recordRating_local {id : Id} (h : .account id ∈ F) (rating : UInt16)
    (success : Bool) (timestamp : Int64) (rewardAmount : UInt64) :
    (Settlement.recordRating id rating success timestamp rewardAmount).StaysIn F r₀ q₀ := by
  unfold Settlement.recordRating
  refine needParticipant_local h fun p => ?_
  refine (setParticipant_local h _).bind ?_
  intro _ _ _
  exact reward_local h rewardAmount _ _

theorem Escrow.create_local {e buyer seller : Id} (he : .escrow e ∈ F)
    (hb : .account buyer ∈ F) (hs : .account seller ∈ F) (sender : Id) (amount : UInt64)
    (expiresAt timestamp : Int64) :
    (Escrow.create sender e buyer seller amount expiresAt timestamp).StaysIn F r₀ q₀ := by
  have hread : (getEscrow e).StaysIn F r₀ q₀ := .reads fun _ _ hr => hr.agree _ he
  unfold Escrow.create
  refine .guard fun _ => hread.bind ?_
  rintro o _ rfl
  refine .guard fun _ => (getParticipant_local hb).bind ?_
  rintro b _ rfl
  refine .guard fun _ => (getParticipant_local hs).bind ?_
  rintro s _ rfl
  refine .guard fun _ => (setEscrow_local he hb hs).bind ?_
  intro _ _ _
  exact .pure rfl

theorem Escrow.release_local {e : Id} (he : .escrow e ∈ F) (sender : Id) (evidenceHash : Hash)
    (timestamp : Int64) (rewardAmount : UInt64) :
    (Escrow.release sender e evidenceHash timestamp rewardAmount).StaysIn F r₀ q₀ := by
  unfold Escrow.release
  refine needEscrow_local he fun escrow hb hs => ?_
  refine .guard fun _ => .guard fun _ => .guard fun _ => (setEscrow_local he ?_ ?_).bind ?_
  · exact hb
  · exact hs
  intro _ _ _
  refine needParticipant_local hb fun b => (setParticipant_local hb _).bind ?_
  intro _ _ _
  refine needParticipant_local hs fun s => (setParticipant_local hs _).bind ?_
  intro _ _ _
  refine .ite (fun _ => (Token.mint_local hb rewardAmount _).bind ?_) fun _ => .pure rfl
  rintro es _ rfl
  refine (Token.mint_local hs rewardAmount _).bind ?_
  rintro es' _ rfl
  exact .pure rfl

theorem Escrow.refund_local {e : Id} (he : .escrow e ∈ F) (sender : Id) (timestamp : Int64) :
    (Escrow.refund sender e timestamp).StaysIn F r₀ q₀ := by
  unfold Escrow.refund
  refine needEscrow_local he fun escrow hb hs => ?_
  refine .guard fun _ => .guard fun _ => (setEscrow_local he ?_ ?_).bind ?_
  · exact hb
  · exact hs
  intro _ _ _
  refine needParticipant_local hs fun s => (setParticipant_local hs _).bind ?_
  intro _ _ _
  exact .pure rfl

theorem Dispute.raise_local {d e : Id} (he : .escrow e ∈ F) (hd : .dispute d ∈ F)
    (raisedBy : Id) (reason : DisputeReason) (evidenceHash : Hash) (timestamp : Int64) :
    (Dispute.raise d e raisedBy reason evidenceHash timestamp).StaysIn F r₀ q₀ := by
  unfold Dispute.raise
  refine needEscrow_local he fun escrow hb hs => ?_
  refine .guard fun _ => .guard fun _ => (setEscrow_local he ?_ ?_).bind ?_
  · exact hb
  · exact hs
  intro _ _ _
  refine (setDispute_local hd ?_).bind ?_
  · exact he
  intro _ _ _
  refine mayWrite_local ?_ (.pure rfl)
  split
  · exact hs
  · exact hb

theorem Dispute.submitEvidence_local {d : Id} (hd : .dispute d ∈ F) (sender : Id)
    (evidenceHash : Hash) : (Dispute.submitEvidence sender d evidenceHash).StaysIn F r₀ q₀ := by
  unfold Dispute.submitEvidence
  refine needDispute_local hd fun dispute he => needEscrow_local he fun escrow _ _ => ?_
  refine .guard fun _ => .guard fun _ => (setDispute_local hd ?_).bind ?_
  · exact he
  intro _ _ _
  exact .pure rfl

theorem Dispute.resolve_local {dispute : Dispute} (he : .escrow dispute.escrowId ∈ F)
    (resolution : UInt8) (disputeWonReward : UInt64) :
    (Dispute.resolve dispute resolution disputeWonReward).StaysIn F r₀ q₀ := by
  unfold Dispute.resolve
  refine needEscrow_local he fun escrow hb hs => ?_
  have hwinner : .account (if resolution = 0 then escrow.buyer else escrow.seller) ∈ F := by
    split
    · exact hb
    · exact hs
  have hloser : .account (if resolution = 0 then escrow.seller else escrow.buyer) ∈ F := by
    split
    · exact hs
    · exact hb
  refine .ite (fun _ => .pure rfl) fun _ => mayWrite_local hwinner (mayWrite_local hloser ?_)
  exact .ite (fun _ => Token.mint_local hwinner disputeWonReward _) fun _ => .pure rfl

theorem Dispute.vote_local {d voter : Id} (hd : .dispute d ∈ F) (hv : .account voter ∈ F)
    (decision : DisputeDecision) (timestamp : Int64) (disputeWonReward : UInt64)
    (voteThreshold : ℕ) :
    (Dispute.vote d voter decision timestamp disputeWonReward voteThreshold).StaysIn F r₀ q₀ := by
  unfold Dispute.vote
  refine needDispute_local hd fun dispute he => needParticipant_local hv fun p => ?_
  refine .guard fun _ => .guard fun _ => .guard fun _ => .ite (fun _ => ?_) fun _ => ?_
  · refine (Dispute.resolve_local he _ disputeWonReward).bind ?_
    rintro es _ rfl
    refine (setDispute_local hd ?_).bind ?_
    · exact he
    intro _ _ _
    exact .pure rfl
  · refine (setDispute_local hd ?_).bind ?_
    · exact he
    intro _ _ _
    exact .pure rfl

theorem anchorMerkleRoot_local {b : Id} (h : .anchor b ∈ F) (P : Params) (sender : Id)
    (merkleRoot : Hash) (entryCount fromEntryId toEntryId : UInt64) (timestamp : Int64) :
    (anchorMerkleRoot P sender b merkleRoot entryCount fromEntryId toEntryId
      timestamp).StaysIn F r₀ q₀ := by
  unfold anchorMerkleRoot
  refine .guard fun _ => (getAnchor_local h).bind ?_
  rintro o _ rfl
  refine .guard fun _ => (setAnchor_local h _).bind ?_
  intro _ _ _
  exact .pure rfl

end Scope

/-! ## Scopes -/

section Scopes

variable {r q : Records} {F G : Finset RecordKey} {p : TxPayload} {a d e : Id}

theorem Records.Closed.of_accounts (he : ∀ e, .escrow e ∉ F) (hd : ∀ d, .dispute d ∉ F) :
    r.Closed F :=
  ⟨fun e _ hmem => absurd hmem (he e), fun d _ hmem => absurd hmem (hd d)⟩

theorem Records.Closed.union (hF : r.Closed F) (hG : r.Closed G) : r.Closed ↑(F ∪ G) := by
  refine ⟨?_, ?_⟩
  · intro e esc he hesc
    rw [Finset.mem_coe, Finset.mem_union] at he
    rcases he with he | he
    · exact (hF.parties e esc he hesc).imp (Finset.mem_union_left _) (Finset.mem_union_left _)
    · exact (hG.parties e esc he hesc).imp (Finset.mem_union_right _) (Finset.mem_union_right _)
  · intro d dis hd hdis
    rw [Finset.mem_coe, Finset.mem_union] at hd
    rcases hd with hd | hd
    · exact Finset.mem_union_left _ (hF.cases d dis hd hdis)
    · exact Finset.mem_union_right _ (hG.cases d dis hd hdis)

theorem Records.mem_escrowScope : .escrow e ∈ r.escrowScope e := Finset.mem_insert_self _ _

theorem Records.mem_disputeScope : .dispute d ∈ r.disputeScope d := Finset.mem_insert_self _ _

theorem Records.closed_escrowScope (r : Records) (e : Id) : r.Closed (r.escrowScope e) := by
  refine ⟨?_, ?_⟩
  · intro e' esc he hesc
    have heq : e' = e := by
      unfold Records.escrowScope at he
      split at he <;> simpa using he
    subst heq
    simp [Records.escrowScope, hesc]
  · intro d dis hd
    unfold Records.escrowScope at hd
    split at hd <;> simp at hd

theorem Records.closed_disputeScope (r : Records) (d : Id) : r.Closed (r.disputeScope d) := by
  cases hdis : r.disputes[d]? with
  | none =>
    have hscope : r.disputeScope d = {.dispute d} := by simp [Records.disputeScope, hdis]
    rw [hscope]
    refine ⟨fun e _ he => by simp at he, ?_⟩
    intro d' dis hd' hdis'
    have heq : d' = d := by simpa using hd'
    rw [heq, hdis] at hdis'
    cases hdis'
  | some dis =>
    have hscope : r.disputeScope d = insert (.dispute d) (r.escrowScope dis.escrowId) := by
      simp [Records.disputeScope, hdis]
    have hclosed := r.closed_escrowScope dis.escrowId
    rw [hscope]
    refine ⟨?_, ?_⟩
    · intro e esc he hesc
      have he' : .escrow e ∈ r.escrowScope dis.escrowId := by simpa using he
      exact (hclosed.parties e esc he' hesc).imp (Finset.mem_insert_of_mem ·)
        (Finset.mem_insert_of_mem ·)
    · intro d' dis' hd' hdis'
      rw [Finset.mem_coe, Finset.mem_insert] at hd'
      rcases hd' with hd' | hd'
      · cases hd'
        rw [hdis, Option.some_inj] at hdis'
        rw [← hdis']
        exact Finset.mem_insert_of_mem Records.mem_escrowScope
      · exact Finset.mem_insert_of_mem (hclosed.cases d' dis' hd' hdis')

/-- **What a payload touches is closed.** -/
theorem TxPayload.closed_touches (p : TxPayload) (r : Records) (a : Id) :
    r.Closed (p.touches r a) := by
  cases p with
  | createEscrow e b s n x =>
    exact Records.Closed.union (.of_accounts (by simp) (by simp)) (r.closed_escrowScope e)
  | releaseEscrow e _ | refundEscrow e => exact r.closed_escrowScope e
  | raiseDispute d e _ _ => exact (r.closed_escrowScope e).union (r.closed_disputeScope d)
  | submitEvidence d _ => exact r.closed_disputeScope d
  | voteDispute d _ =>
    have hunion := Records.Closed.union (r := r) (F := {.account a})
      (.of_accounts (by simp) (by simp)) (r.closed_disputeScope d)
    rwa [← Finset.insert_eq] at hunion
  | _ => exact .of_accounts (by simp [touches]) (by simp [touches])

/-- **A payload stays in what it touches.** -/
theorem runPayload_local (P : Params) (a : Id) (t : Int64) (p : TxPayload) (r r₀ q₀ : Records) :
    (runPayload P a t p).StaysIn (p.touches r a) r₀ q₀ := by
  cases p with
  | registerParticipant id ty md =>
    exact Participant.register_local (Finset.mem_singleton_self _) a ty md t
  | updateParticipant id md =>
    exact Participant.update_local (Finset.mem_singleton_self _) a md t
  | deactivateParticipant id => exact Participant.deactivate_local (Finset.mem_singleton_self _) a
  | recordSettlement id d =>
    exact Settlement.record_local (by simp [TxPayload.touches]) (by simp [TxPayload.touches]) a t _
  | recordRating id n ok =>
    exact Settlement.recordRating_local (Finset.mem_singleton_self _) n ok t _
  | createEscrow e b s n x =>
    exact Escrow.create_local (Finset.mem_union_right _ Records.mem_escrowScope) (by simp)
      (by simp) a n x t
  | releaseEscrow e ev => exact Escrow.release_local Records.mem_escrowScope a ev t _
  | refundEscrow e => exact Escrow.refund_local Records.mem_escrowScope a t
  | raiseDispute d e reason ev =>
    exact Dispute.raise_local (Finset.mem_union_left _ Records.mem_escrowScope)
      (Finset.mem_union_right _ Records.mem_disputeScope) a reason ev t
  | submitEvidence d ev => exact Dispute.submitEvidence_local Records.mem_disputeScope a ev
  | voteDispute d dec =>
    exact Dispute.vote_local (Finset.mem_insert_of_mem Records.mem_disputeScope)
      (Finset.mem_insert_self _ _) dec t _ _
  | transferRCW b n memo =>
    exact Token.transfer_local (by simp [TxPayload.touches]) (by simp [TxPayload.touches]) n memo
  | spendRCW n purpose => exact Token.spend_local (Finset.mem_singleton_self _) n purpose
  | anchorMerkleRoot b root n i j =>
    exact anchorMerkleRoot_local (Finset.mem_singleton_self _) P a root n i j t

/-! ### The scope is read off itself -/

theorem Records.escrowScope_congr (h : AgreeOn Records.view (r.escrowScope e) r q) :
    q.escrowScope e = r.escrowScope e := by
  have he : r.escrows[e]? = q.escrows[e]? := h (.escrow e) Records.mem_escrowScope
  unfold Records.escrowScope
  rw [he]

theorem Records.disputeScope_congr (h : AgreeOn Records.view (r.disputeScope d) r q) :
    q.disputeScope d = r.disputeScope d := by
  have hd : r.disputes[d]? = q.disputes[d]? := h (.dispute d) Records.mem_disputeScope
  cases hdis : r.disputes[d]? with
  | none => simp [Records.disputeScope, ← hd, hdis]
  | some dis =>
    have hscope : r.disputeScope d = insert (.dispute d) (r.escrowScope dis.escrowId) := by
      simp [Records.disputeScope, hdis]
    have hescrow : q.escrowScope dis.escrowId = r.escrowScope dis.escrowId := by
      refine Records.escrowScope_congr fun k hk => h k ?_
      rw [hscope]
      exact Finset.mem_insert_of_mem hk
    rw [hscope, ← hescrow]
    simp [Records.disputeScope, ← hd, hdis]

theorem TxPayload.touches_congr (h : AgreeOn Records.view (p.touches r a) r q) :
    p.touches q a = p.touches r a := by
  cases p with
  | createEscrow e b s n x =>
    have he := Records.escrowScope_congr fun k hk => h k (Finset.mem_union_right _ hk)
    simp only [touches, he]
  | releaseEscrow e _ | refundEscrow e => exact Records.escrowScope_congr h
  | raiseDispute d e _ _ =>
    have he := Records.escrowScope_congr fun k hk => h k (Finset.mem_union_left _ hk)
    have hd := Records.disputeScope_congr fun k hk => h k (Finset.mem_union_right _ hk)
    simp only [touches, he, hd]
  | submitEvidence d _ => exact Records.disputeScope_congr h
  | voteDispute d _ =>
    have hd := Records.disputeScope_congr fun k hk => h k (Finset.mem_insert_of_mem hk)
    simp only [touches, hd]
  | _ => rfl

end Scopes

/-! ## Transactions -/

section Transactions

variable {P : Params} {G : Finset RecordKey} {a : Id} {s₀ t₀ s s' : Store} {tx : Transaction}
  {t : Int64}

theorem mem_storeKeys_record {k : RecordKey} : .record k ∈ storeKeys a G ↔ k ∈ G := by
  simp [storeKeys]

theorem mem_storeKeys_nonce {id : Id} : .nonce id ∈ storeKeys a G ↔ id = a := by
  simp [storeKeys]

/-- Two runs of a transaction of sender `a` in the closed scope `G`. -/
structure Store.Within (a : Id) (G : Finset RecordKey) (s₀ t₀ s s' : Store) : Prop extends
    Footprint.Within Store.view (storeKeys a G) s₀ t₀ s s' where
  closed : s.records.Closed G

theorem Store.Within.records (h : Store.Within a G s₀ t₀ s s') :
    Records.Within G s₀.records t₀.records s.records s'.records where
  agree k hk := h.agree (.record k) (mem_storeKeys_record.2 hk)
  left k hk := h.left (.record k) (mt mem_storeKeys_record.1 hk)
  right k hk := h.right (.record k) (mt mem_storeKeys_record.1 hk)
  parties := h.closed.parties
  cases := h.closed.cases

theorem Store.Within.putRecords (h : Store.Within a G s₀ t₀ s s') {r q : Records}
    (hr : Records.Within G s₀.records t₀.records r q) :
    Store.Within a G s₀ t₀ { s with records := r } { s' with records := q } := by
  refine ⟨⟨?_, ?_, ?_⟩, hr.toClosed⟩
  · intro k hk
    cases k with
    | record k => exact hr.agree k (mem_storeKeys_record.1 hk)
    | nonce id => exact h.agree (.nonce id) hk
    | chain => exact h.agree .chain hk
  · intro k hk
    cases k with
    | record k => exact hr.left k (mt mem_storeKeys_record.2 hk)
    | nonce id => exact h.left (.nonce id) hk
    | chain => exact h.left .chain hk
  · intro k hk
    cases k with
    | record k => exact hr.right k (mt mem_storeKeys_record.2 hk)
    | nonce id => exact h.right (.nonce id) hk
    | chain => exact h.right .chain hk

theorem Store.view_setNonce (s : Store) (n : UInt64) {k : StoreKey} (h : k ≠ .nonce a) :
    (s.setNonce a n).view k = s.view k := by
  cases k with
  | nonce id =>
    have hne : ¬ a = id := fun heq => h (heq ▸ rfl)
    simp [view, setNonce, Table.get_insert, hne]
  | _ => rfl

theorem Store.Within.setNonce (h : Store.Within a G s₀ t₀ s s') (n : UInt64) :
    Store.Within a G s₀ t₀ (s.setNonce a n) (s'.setNonce a n) := by
  refine ⟨h.write (mem_storeKeys_nonce.2 rfl) (fun _ => s.view_setNonce n)
    (fun _ => s'.view_setNonce n) ?_, h.closed⟩
  simp [Store.view, Store.setNonce]

theorem Store.Within.getNonce (h : Store.Within a G s₀ t₀ s s') :
    s.getNonce a = s'.getNonce a := by
  have hnonce : s.nonces[a]? = s'.nonces[a]? := h.agree (.nonce a) (mem_storeKeys_nonce.2 rfl)
  rw [Store.getNonce, Store.getNonce, hnonce]

theorem checkAndUpdateNonce_local (tx : Transaction) :
    Sim (Store.Within tx.sender G s₀ t₀) Eq (checkAndUpdateNonce tx) (checkAndUpdateNonce tx) := by
  unfold checkAndUpdateNonce
  refine Sim.get.bind fun s s' hs => ?_
  rw [hs.getNonce]
  exact .guard fun _ => .modify fun _ _ h => h.setNonce tx.nonce

theorem onRecords_local {α : Type} {x : Exec α} (h : x.StaysIn G s₀.records t₀.records) :
    Sim (Store.Within a G s₀ t₀) Eq (onRecords x) (onRecords x) := by
  intro s s' hs
  have hx := h s.records s'.records hs.records
  rw [onRecords_run, onRecords_run]
  cases hr : x.run s.records <;> cases hr' : x.run s'.records <;> simp only [hr, hr'] at hx ⊢
  · exact ⟨hx.1, hs.putRecords hx.2⟩
  · exact ⟨hx.1, hs.putRecords hx.2⟩

/-- **A transaction stays in what it touches.** -/
theorem execute_staysIn (P : Params) (tx : Transaction) (t : Int64) (s : Store) {s₀ t₀ : Store} :
    Sim (Store.Within tx.sender (tx.payload.touches s.records tx.sender) s₀ t₀) Eq
      (execute P tx t) (execute P tx t) :=
  (checkAndUpdateNonce_local tx).bind fun _ _ _ =>
    onRecords_local (runPayload_local P tx.sender t tx.payload s.records _ _)

/-- Two stores that agree on what a transaction touches. -/
theorem within_touches (h : AgreeOn Store.view (tx.touches s) s s') :
    Store.Within tx.sender (tx.payload.touches s.records tx.sender) s s' s s' :=
  ⟨⟨h, fun _ _ => rfl, fun _ _ => rfl⟩, tx.payload.closed_touches s.records tx.sender⟩

/-- **What a transaction touches is a footprint.** -/
theorem local_touches (P : Params) : Local Store.view
    (fun s (act : Timed) => after (execute P act.1 act.2) s)
    (fun s act => (execute P act.1 act.2).answer s)
    (fun s act => (act.1.touches s : Set StoreKey)) := by
  refine ⟨Store.view_ext, ?_, ?_, ?_, ?_⟩
  · intro s act k hk
    exact ((execute_staysIn P act.1 act.2 s).after (within_touches fun _ _ => rfl)).left k hk
  · intro s s' act h
    have hrecords : AgreeOn Records.view (act.1.payload.touches s.records act.1.sender)
        s.records s'.records :=
      fun k hk => h (.record k) (mem_storeKeys_record.2 hk)
    show (Transaction.touches s' act.1 : Set StoreKey) = Transaction.touches s act.1
    unfold Transaction.touches
    rw [TxPayload.touches_congr hrecords]
  · intro s s' act h
    exact ((execute_staysIn P act.1 act.2 s).answer (within_touches h)).symm
  · intro s s' act h
    exact ((execute_staysIn P act.1 act.2 s).after (within_touches h)).agree

/-- **Locality.** On two stores that agree on what a transaction touches in one of them, the
transaction returns the same and leaves the same there, and it changes nothing else. -/
theorem execute_local (P : Params) (tx : Transaction) (t : Int64) {s s' : Store}
    (h : AgreeOn Store.view (tx.touches s) s s') :
    (execute P tx t).answer s' = (execute P tx t).answer s ∧
      AgreeOn Store.view (tx.touches s) (after (execute P tx t) s) (after (execute P tx t) s') ∧
      ∀ k ∉ tx.touches s, (after (execute P tx t) s').view k = s'.view k := by
  have hlocal := local_touches P
  refine ⟨hlocal.answer (a := (tx, t)) h, hlocal.writes (a := (tx, t)) h, ?_⟩
  intro k hk
  have hfoot : (tx.touches s' : Set StoreKey) = tx.touches s := hlocal.footprint (a := (tx, t)) h
  refine hlocal.frame (a := (tx, t)) ?_
  rw [hfoot]
  exact hk

end Transactions

/-- The trade, and then 3 registers. -/
def toyLater : Execution :=
  (executeAll .default toyTrade).execute .default (.toy 3 1 (.registerParticipant 3 .arbiter ""), 0)

/-- The buyer releases the escrow, whether or not 3 has registered. -/
theorem execute_local_toy :
    (execute .default (.toy 1 3 (.releaseEscrow 7 0)) 10).answer toyLater.store =
      (execute .default (.toy 1 3 (.releaseEscrow 7 0)) 10).answer
        (executeAll .default toyTrade).store ∧
    AgreeOn Store.view
      (Transaction.touches (executeAll .default toyTrade).store (.toy 1 3 (.releaseEscrow 7 0)))
      (after (execute .default (.toy 1 3 (.releaseEscrow 7 0)) 10)
        (executeAll .default toyTrade).store)
      (after (execute .default (.toy 1 3 (.releaseEscrow 7 0)) 10) toyLater.store) ∧
    ∀ k ∉ Transaction.touches (executeAll .default toyTrade).store
        (.toy 1 3 (.releaseEscrow 7 0)),
      (after (execute .default (.toy 1 3 (.releaseEscrow 7 0)) 10) toyLater.store).view k =
        toyLater.store.view k := by
  refine execute_local .default _ 10 ?_
  have hdisjoint : Disjoint
      (Transaction.touches (executeAll .default toyTrade).store
        (.toy 3 1 (.registerParticipant 3 .arbiter "")))
      (Transaction.touches (executeAll .default toyTrade).store
        (.toy 1 3 (.releaseEscrow 7 0))) := by
    decide +kernel
  rw [toyLater, Execution.execute_store]
  exact (local_touches .default).agree (a := (_, 0)) (b := (_, 10))
    (Finset.disjoint_coe.2 hdisjoint)

end RoutineChain
