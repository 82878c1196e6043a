import RoutineChain.Proof.Counters
import RoutineChain.Proof.Disputes
import RoutineChain.Proof.Tokens

/-!
# The records are consistent

* `Records.Keyed`: every record is stored under the id that it carries.
* `executeAll_consistent`: in every reachable state the records are keyed, what they refer to
  is stored, and the counters of each participant fit together.
-/

namespace RoutineChain

open Std

/-! ## Keys -/

/-- Every stored value carries its own key. -/
def Table.Keyed {V : Type} (key : V → Id) (T : Table V) : Prop :=
  ∀ (k : Id) (v : V), T[k]? = some v → key v = k

theorem Table.keyed_empty {V : Type} (key : V → Id) : Table.Keyed key ∅ := by
  intro k v hv
  simp at hv

theorem Table.Keyed.insert {V : Type} {key : V → Id} {T : Table V} (h : T.Keyed key) {k : Id}
    {v : V} (hv : key v = k) : Table.Keyed key (T.insert k v) := by
  intro k' v' hv'
  rw [Table.get_insert] at hv'
  by_cases hk : k = k'
  · rw [if_pos hk, Option.some_inj] at hv'
    rw [← hv', hv, hk]
  · rw [if_neg hk] at hv'
    exact h k' v' hv'

/-- **Every record is stored under the id that it carries.** -/
structure Records.Keyed (r : Records) : Prop where
  participants : r.participants.Keyed (·.id)
  settlements : r.settlements.Keyed (·.recordId)
  balances : r.balances.Keyed (·.owner)
  escrows : r.escrows.Keyed (·.id)
  disputes : r.disputes.Keyed (·.id)
  anchors : r.anchors.Keyed (·.batchId)

theorem Records.keyed_empty : Records.empty.Keyed :=
  ⟨Table.keyed_empty _, Table.keyed_empty _, Table.keyed_empty _, Table.keyed_empty _,
    Table.keyed_empty _, Table.keyed_empty _⟩

namespace Records.Keyed

variable {r : Records} {k : Id}

theorem putParticipant (h : r.Keyed) {p : Participant} (hp : p.id = k) :
    (r.putParticipant k p).Keyed :=
  { h with participants := h.participants.insert hp }

theorem putSettlement (h : r.Keyed) {s : SettlementRecord} (hs : s.recordId = k) :
    (r.putSettlement k s).Keyed :=
  { h with settlements := h.settlements.insert hs }

theorem putBalance (h : r.Keyed) {b : RCWBalance} (hb : b.owner = k) :
    (r.putBalance k b).Keyed :=
  { h with balances := h.balances.insert hb }

theorem putEscrow (h : r.Keyed) {e : Escrow} (he : e.id = k) : (r.putEscrow k e).Keyed :=
  { h with escrows := h.escrows.insert he }

theorem putDispute (h : r.Keyed) {d : Dispute} (hd : d.id = k) : (r.putDispute k d).Keyed :=
  { h with disputes := h.disputes.insert hd }

theorem putAnchor (h : r.Keyed) {a : AnchorRecord} (ha : a.batchId = k) :
    (r.putAnchor k a).Keyed :=
  { h with anchors := h.anchors.insert ha }

/-- Also a balance that is not stored has its owner. -/
theorem owner_balance (h : r.Keyed) (a : Id) : (r.balance a).owner = a := by
  unfold Records.balance
  cases hb : r.balances[a]? with
  | none => rfl
  | some b => exact h.balances a b hb

theorem mint (h : r.Keyed) (a : Id) (n : UInt64) : (r.mint a n).Keyed :=
  h.putBalance (h.owner_balance a)

theorem reward (h : r.Keyed) (a : Id) (n : UInt64) : (r.reward a n).Keyed := by
  unfold Records.reward
  split
  · exact h.mint a n
  · exact h

theorem modifyParticipant (h : r.Keyed) (a : Id) {f : Participant → Participant}
    (hf : ∀ p, (f p).id = p.id) : (r.modifyParticipant a f).Keyed := by
  unfold Records.modifyParticipant
  split
  case h_1 p hp => exact h.putParticipant ((hf p).trans (h.participants a p hp))
  case h_2 => exact h

theorem resolve (h : r.Keyed) (esc : Escrow) (y : Id) (res : UInt8) (w : UInt64) :
    (r.resolve esc y res w).Keyed := by
  unfold Records.resolve
  split
  · exact h
  · have hwon : ∀ a : Id, (r.modifyParticipant a (·.won (y = a))).Keyed :=
      fun a => h.modifyParticipant a fun _ => rfl
    refine .reward ?_ _ _
    exact (hwon _).modifyParticipant _ fun _ => rfl

end Records.Keyed

section Outcome

variable {P : Params} {a : Id} {t : Int64} {r r' : Records} {p : TxPayload} {es : List Event}

/-- **Every payload keeps the keys.** -/
theorem TxPayload.Outcome.keyed (h : p.Outcome P a t r es r') (hr : r.Keyed) : r'.Keyed := by
  cases h with
  | registered _ => exact hr.putParticipant rfl
  | updated hp | deactivated hp =>
    have hid := hr.participants _ _ hp
    exact hr.putParticipant hid
  | settled hp =>
    have hid := hr.participants _ _ hp
    refine .reward ?_ _ _
    refine .putParticipant ?_ hid
    exact hr.putSettlement rfl
  | @rated id n ok q hp =>
    have hid := hr.participants _ _ hp
    exact (hr.putParticipant ((q.sameProfile_rated n ok t).id.trans hid)).reward _ _
  | created _ _ _ => exact hr.putEscrow rfl
  | @released e ev esc b s he _ _ _ hb hs =>
    have hesc := hr.escrows _ _ he
    have hbuyer := hr.participants _ _ hb
    -- the seller is looked up after the buyer has been written
    have hput : (r.putParticipant esc.buyer (b.released t)).Keyed := hr.putParticipant hbuyer
    have hseller := hput.participants _ _ hs
    refine .reward (.reward ?_ _ _) _ _
    refine .putParticipant ?_ hseller
    refine .putParticipant ?_ hbuyer
    exact hr.putEscrow hesc
  | refunded he _ _ hs =>
    have hesc := hr.escrows _ _ he
    have hseller := hr.participants _ _ hs
    refine .putParticipant ?_ hseller
    exact hr.putEscrow hesc
  | raised he _ _ =>
    have hesc := hr.escrows _ _ he
    refine .modifyParticipant ?_ _ fun _ => rfl
    refine .putDispute ?_ rfl
    exact hr.putEscrow hesc
  | evidence hd _ _ _ | voted hd _ _ _ _ _ =>
    have hid := hr.disputes _ _ hd
    exact hr.putDispute hid
  | decided hd _ _ _ _ _ _ =>
    have hid := hr.disputes _ _ hd
    exact (hr.resolve _ _ _ _).putDispute hid
  | transferred _ _ =>
    refine .mint ?_ _ _
    exact hr.putBalance (RCWBalance.owner_deduct.trans (hr.owner_balance a))
  | spent _ _ => exact hr.putBalance (RCWBalance.owner_deduct.trans (hr.owner_balance a))
  | anchored _ _ => exact hr.putAnchor rfl

end Outcome

/-- **In every reachable state every record is stored under its id.** -/
theorem executeAll_keyed (P : Params) (l : List Timed) :
    (executeAll P l).store.records.Keyed := by
  refine executeAll_inv (P := P) (C := fun _ _ => True) (I := fun r _ => r.Keyed)
    Records.keyed_empty ?_ (Runs.along_true _ l)
  intro x tx t es r' hr _ _ hout
  exact hout.keyed hr

/-! ## Consistency -/

/-- The counters of a participant fit together: every success is a transaction, and every
rating that is counted is between 1 and 500. -/
structure Participant.CountersFit (p : Participant) : Prop where
  success : p.successTx ≤ p.totalTx
  low : p.ratingCount ≤ p.ratingSum
  sum : p.ratingSum.toNat ≤ 500 * p.ratingCount.toNat

theorem Participant.Counted.countersFit {k : ℕ} {p : Participant} (h : p.Counted 500 k) :
    p.CountersFit :=
  ⟨UInt64.le_iff_toNat_le.2 h.success, UInt64.le_iff_toNat_le.2 h.low, h.sum⟩

/-- **The records are consistent.** -/
structure Records.Consistent (r : Records) : Prop where
  counters : ∀ (a : Id) (p : Participant), r.participants[a]? = some p → p.CountersFit
  /-- The buyer and the seller of every escrow are registered. -/
  parties : r.PartiesRegistered
  /-- The escrow of every dispute is stored. -/
  filed : r.DisputesFiled
  keyed : r.Keyed

/-- **In every reachable state the records are consistent.** -/
theorem executeAll_consistent (P : Params) (l : List Timed) (hl : l.length < 2 ^ 50) :
    (executeAll P l).store.records.Consistent where
  counters := by
    have hcounted : (executeAll P l).store.records.Counted 500 (2 * l.length) :=
      executeAll_counted_max P hl
    intro a p hp
    exact (hcounted a p hp).countersFit
  parties := executeAll_partiesRegistered P l
  filed := executeAll_disputesFiled P l
  keyed := executeAll_keyed P l

/-- The trade of participants 1 and 2. -/
theorem executeAll_consistent_toy : (executeAll .default toyTrade).store.records.Consistent :=
  executeAll_consistent .default toyTrade (by decide)

end RoutineChain
