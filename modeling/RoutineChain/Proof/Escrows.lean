import RoutineChain.Proof.Participants
import RoutineChain.Proof.Replay

/-!
# The life of an escrow

* `EscrowChange` lists what a transaction can do to the escrow of one id. It is the same
  list for transactions that go through and for those that fail.
* The parties of a stored escrow are registered, so no transaction fails halfway.
* An escrow moves once, from `Created`, and its terms never change.
-/

namespace RoutineChain

open EStateM Std

/-- **What a transaction does to the escrow `id`**, from what was stored to what is stored. -/
inductive EscrowChange (r : Records) (a : Id) (t : Int64) (p : TxPayload) (id : Id) :
    Option Escrow → Option Escrow → Prop
  | same (o) : EscrowChange r a t p id o o
  | created {s n x} (hp : p = .createEscrow id a s n x) (hb : r.participants[a]?.isSome)
      (hs : r.participants[s]?.isSome) :
    EscrowChange r a t p id none (some (.new id a s n x t))
  | released {ev esc} (hp : p = .releaseEscrow id ev) (ha : a = esc.buyer)
      (hopen : esc.state = .created ∨ esc.state = .funded) (ht : ¬ t > esc.expiresAt) :
    EscrowChange r a t p id (some esc)
      (some { esc with state := .released, evidenceHash := some ev })
  | refunded {esc} (hp : p = .refundEscrow id) (ha : a = esc.buyer ∨ t > esc.expiresAt)
      (hopen : esc.state = .created ∨ esc.state = .funded) :
    EscrowChange r a t p id (some esc) (some { esc with state := .refunded })
  | disputed {d esc reason ev} (hp : p = .raiseDispute d id reason ev)
      (ha : a = esc.buyer ∨ a = esc.seller) (hs : ¬ esc.Settled) :
    EscrowChange r a t p id (some esc)
      (some { esc with state := .disputed, disputeId := some d })

section Change

variable {P : Params} {a : Id} {t : Int64} {r r' : Records} {p : TxPayload} {es : List Event}

/-- A write to one escrow changes that one alone. -/
theorem EscrowChange.of_insert {e : Id} {o : Option Escrow} {esc : Escrow}
    (he : r.escrows[e]? = o) (h : EscrowChange r a t p e o (some esc)) (id : Id)
    (hr : r'.escrows = r.escrows.insert e esc) :
    EscrowChange r a t p id r.escrows[id]? r'.escrows[id]? := by
  refine Table.rel_insert (R := EscrowChange r a t p id) hr .same ?_
  rintro rfl
  rw [he]
  exact h

theorem EscrowChange.of_eq (id : Id) (hr : r'.escrows = r.escrows) :
    EscrowChange r a t p id r.escrows[id]? r'.escrows[id]? := by
  rw [hr]
  exact .same _

theorem TxPayload.Outcome.escrowChange (h : p.Outcome P a t r es r') (id : Id) :
    EscrowChange r a t p id r.escrows[id]? r'.escrows[id]? := by
  cases h with
  | registered _ | updated _ | deactivated _ | evidence _ _ _ _ | voted _ _ _ _ _ _ =>
    exact .of_eq id rfl
  | transferred _ _ | spent _ _ | anchored _ _ => exact .of_eq id rfl
  | settled hp => exact .of_eq id (by simp)
  | rated hp => exact .of_eq id (by simp)
  | decided hd hp ha hs hv hm he => exact .of_eq id (by simp)
  | created hnew hb hs => exact .of_insert hnew (.created rfl hb hs) id rfl
  | released he ha hopen ht hb hs =>
    exact .of_insert he (.released rfl ha hopen ht) id (by simp)
  | refunded he ha hopen hs => exact .of_insert he (.refunded rfl ha hopen) id rfl
  | raised he ha hs => exact .of_insert he (.disputed rfl ha hs) id (by simp)

theorem TxPayload.Failure.escrowChange (h : p.Failure a t r r') (id : Id) :
    EscrowChange r a t p id r.escrows[id]? r'.escrows[id]? := by
  cases h with
  | clean => exact .same _
  | released he ha hopen ht hmissing hr =>
    refine .of_insert he (.released rfl ha hopen ht) id ?_
    rcases hr with rfl | ⟨b, rfl⟩ <;> rfl
  | refunded he ha hopen hmissing => exact .of_insert he (.refunded rfl ha hopen) id rfl

/-- **One transaction of a run, as an escrow sees it.** -/
theorem Execution.Step.escrowChange {x x' : Execution} {tx : Transaction}
    (h : x.Step P tx t x') (id : Id) :
    EscrowChange x.store.records tx.sender t tx.payload id x.store.records.escrows[id]?
      x'.store.records.escrows[id]? := by
  cases h with
  | stale _ => exact .same _
  | failed _ hout => exact hout.escrowChange id
  | succeeded _ hout => exact hout.escrowChange id

end Change

/-! ## The parties of an escrow stay registered -/

/-- The parties of every stored escrow are registered. -/
def Records.PartiesRegistered (r : Records) : Prop :=
  ∀ (id : Id) (esc : Escrow), r.escrows[id]? = some esc →
    r.participants[esc.buyer]?.isSome ∧ r.participants[esc.seller]?.isSome

theorem Records.partiesRegistered_empty : Records.empty.PartiesRegistered := by
  intro id esc he
  simp [Records.empty] at he

section Parties

variable {P : Params} {a : Id} {t : Int64} {r r' : Records} {p : TxPayload} {es : List Event}

/-- A change other than a creation keeps the terms. -/
theorem EscrowChange.parties {id : Id} {esc : Escrow} {o : Option Escrow}
    (h : EscrowChange r a t p id o (some esc))
    (ho : ∀ old : Escrow, o = some old →
      r.participants[old.buyer]?.isSome ∧ r.participants[old.seller]?.isSome) :
    r.participants[esc.buyer]?.isSome ∧ r.participants[esc.seller]?.isSome := by
  cases h with
  | same => exact ho esc rfl
  | created _ hb hs => exact ⟨hb, hs⟩
  | @released ev old _ _ _ _ => exact ho old rfl
  | @refunded old _ _ _ => exact ho old rfl
  | @disputed d old _ _ _ _ _ => exact ho old rfl

theorem TxPayload.Outcome.partiesRegistered (h : p.Outcome P a t r es r')
    (hr : r.PartiesRegistered) : r'.PartiesRegistered := by
  intro id esc he
  have hchange := h.escrowChange id
  rw [he] at hchange
  obtain ⟨hb, hs⟩ := hchange.parties fun old hold => hr id old hold
  exact ⟨h.keepsOthers.isSome hb, h.keepsOthers.isSome hs⟩

/-- Where the parties are registered, a payload that fails has written nothing. -/
theorem TxPayload.Failure.eq_of_partiesRegistered (h : p.Failure a t r r')
    (hr : r.PartiesRegistered) : r' = r := by
  cases h with
  | clean => rfl
  | released he ha hopen ht hmissing _ =>
    obtain ⟨hb, hs⟩ := hr _ _ he
    rcases hmissing with hnone | hnone
    · rw [hnone] at hb
      cases hb
    · rw [hnone] at hs
      cases hs
  | refunded he ha hopen hmissing =>
    have hs := (hr _ _ he).2
    rw [hmissing] at hs
    cases hs

theorem Execution.Step.partiesRegistered {x x' : Execution} {tx : Transaction}
    (h : x.Step P tx t x') (hx : x.store.records.PartiesRegistered) :
    x'.store.records.PartiesRegistered := by
  cases h with
  | stale _ => exact hx
  | failed _ hout =>
    rw [hout.eq_of_partiesRegistered hx]
    exact hx
  | succeeded _ hout => exact hout.partiesRegistered hx

/-- **In every reachable state the parties of every escrow are registered.** -/
theorem executeAll_partiesRegistered (P : Params) (l : List Timed) :
    (executeAll P l).store.records.PartiesRegistered := by
  have hstep : ∀ (x : Execution) (a : Timed), x.store.records.PartiesRegistered → True →
      (x.execute P a).store.records.PartiesRegistered := by
    intro x a hx _
    exact (execution_step P x a).partiesRegistered hx
  exact Runs.inv_run hstep Records.partiesRegistered_empty (Runs.along_true _ l)

/-- In a reachable state a transaction that fails leaves the records and events alone, and
the payload of one that succeeds has its outcome. -/
theorem executeAll_step (P : Params) (l : List Timed) (act : Timed) :
    (¬ (executeAll P l).Succeeds P act ∧
      (executeAll P (l ++ [act])).store.records = (executeAll P l).store.records ∧
      (executeAll P (l ++ [act])).events = (executeAll P l).events) ∨
    ((executeAll P l).Succeeds P act ∧
      ∃ es, act.1.payload.Outcome P act.1.sender act.2 (executeAll P l).store.records es
          (executeAll P (l ++ [act])).store.records ∧
        (executeAll P (l ++ [act])).events = (executeAll P l).events ++ es) := by
  have hregistered := executeAll_partiesRegistered P l
  rw [executeAll_append_one]
  unfold Execution.execute Execution.Succeeds isOk
  rcases execute_outcome P act.1 act.2 (executeAll P l).store with
    ⟨-, err, h⟩ | ⟨-, err, r', h, hout⟩ | ⟨-, es, r', h, hout⟩
  · rw [h]
    exact .inl ⟨Bool.false_ne_true, rfl, rfl⟩
  · rw [h]
    exact .inl ⟨Bool.false_ne_true, hout.eq_of_partiesRegistered hregistered, rfl⟩
  · rw [h]
    exact .inr ⟨rfl, es, hout, rfl⟩

/-- **Invariant rule for runs from the empty store.** Only a payload that goes through writes
records or returns events. -/
theorem executeAll_inv {I : Records → List Event → Prop} {C : Execution → Timed → Prop}
    (hinit : I .empty [])
    (hstep : ∀ (x : Execution) (tx : Transaction) (t : Int64) (es : List Event) (r' : Records),
      I x.store.records x.events → C x (tx, t) → tx.Fresh x.store →
      tx.payload.Outcome P tx.sender t x.store.records es r' → I r' (x.events ++ es))
    {l : List Timed} (h : Runs.Along (Execution.execute P) C { store := .empty } l) :
    I (executeAll P l).store.records (executeAll P l).events := by
  have hinv : ∀ (x : Execution) (act : Timed),
      x.store.records.PartiesRegistered ∧ I x.store.records x.events → C x act →
      (x.execute P act).store.records.PartiesRegistered ∧
        I (x.execute P act).store.records (x.execute P act).events := by
    rintro x ⟨tx, t⟩ ⟨hx, hI⟩ hC
    have hs := execution_step P x (tx, t)
    generalize x.execute P (tx, t) = x' at hs ⊢
    refine ⟨hs.partiesRegistered hx, ?_⟩
    cases hs with
    | stale _ => exact hI
    | failed _ hout =>
      rw [Store.afterTx_records, hout.eq_of_partiesRegistered hx]
      exact hI
    | succeeded hf hout => exact hstep x tx t _ _ hI hC hf hout
  exact (Runs.inv_run hinv ⟨Records.partiesRegistered_empty, hinit⟩ h).2

/-- **A transaction that fails in a reachable state** changes at most the sender's nonce,
and not even that if it is stale. -/
theorem execute_error_store (P : Params) (l : List Timed) (tx : Transaction) (t : Int64)
    (err : String) (s' : Store)
    (herr : (execute P tx t).run (executeAll P l).store = .error err s') :
    s' = if tx.nonce ≤ (executeAll P l).store.getNonce tx.sender then (executeAll P l).store
      else (executeAll P l).store.setNonce tx.sender tx.nonce := by
  rcases execute_outcome P tx t (executeAll P l).store with
    ⟨hstale, err', h⟩ | ⟨hf, err', r', h, hout⟩ | ⟨hf, es, r', h, hout⟩
  · rw [herr] at h
    cases h
    rw [if_pos (UInt64.not_lt.1 hstale)]
  · rw [herr] at h
    cases h
    have hsame := hout.eq_of_partiesRegistered (executeAll_partiesRegistered P l)
    rw [if_neg (UInt64.not_le.2 hf), hsame]
    rfl
  · rw [herr] at h
    cases h

end Parties

/-- Buyer 1 and seller 2 register, and 1 creates the escrow 7, which expires at 50. -/
def toyTrade : List Timed :=
  [(.toy 1 1 (.registerParticipant 1 .buyer ""), 0),
    (.toy 2 1 (.registerParticipant 2 .seller ""), 0),
    (.toy 1 2 (.createEscrow 7 1 2 100 50), 0)]

/-- The seller tries to release the escrow: only the nonce is kept. -/
theorem execute_error_store_toy : ∃ err s',
    (execute .default (.toy 2 5 (.releaseEscrow 7 0)) 10).run (executeAll .default toyTrade).store =
      .error err s' ∧
    s' = if 5 ≤ (executeAll .default toyTrade).store.getNonce 2 then
        (executeAll .default toyTrade).store
      else (executeAll .default toyTrade).store.setNonce 2 5 := by
  have hfail : ¬ EStateM.isOk (execute .default (.toy 2 5 (.releaseEscrow 7 0)) 10)
      (executeAll .default toyTrade).store := by
    decide +kernel
  obtain ⟨err, s', h⟩ := EStateM.exists_error hfail
  exact ⟨err, s', h, execute_error_store .default toyTrade _ 10 err s' h⟩

/-! ## The lifecycle -/

/-- What is agreed when an escrow is created. -/
structure Escrow.SameTerms (e e' : Escrow) : Prop where
  id : e'.id = e.id
  buyer : e'.buyer = e.buyer
  seller : e'.seller = e.seller
  amount : e'.amount = e.amount
  createdAt : e'.createdAt = e.createdAt
  expiresAt : e'.expiresAt = e.expiresAt

theorem Escrow.SameTerms.refl (e : Escrow) : e.SameTerms e := ⟨rfl, rfl, rfl, rfl, rfl, rfl⟩

/-- Moving an escrow keeps its terms. -/
theorem Escrow.SameTerms.move (e : Escrow) (state : EscrowState) (evidenceHash : Option Hash)
    (disputeId : Option Id) : e.SameTerms { e with state, evidenceHash, disputeId } :=
  ⟨rfl, rfl, rfl, rfl, rfl, rfl⟩

theorem Escrow.SameTerms.trans {e e' e'' : Escrow} (h : e.SameTerms e') (h' : e'.SameTerms e'') :
    e.SameTerms e'' :=
  ⟨h'.id.trans h.id, h'.buyer.trans h.buyer, h'.seller.trans h.seller,
    h'.amount.trans h.amount, h'.createdAt.trans h.createdAt, h'.expiresAt.trans h.expiresAt⟩

/-- Who may move an escrow to a state, and when. -/
def Escrow.MovableBy (e : Escrow) (a : Id) (t : Int64) : EscrowState → Prop
  | .released => a = e.buyer ∧ t ≤ e.expiresAt
  | .refunded => a = e.buyer ∨ t > e.expiresAt
  | .disputed => a = e.buyer ∨ a = e.seller
  | .created | .funded => False

/-- Nothing funds an escrow, and evidence of delivery comes with the release. -/
def Escrow.Formed (e : Escrow) : Prop :=
  e.state ≠ .funded ∧ (e.evidenceHash.isSome ↔ e.state = .released)

/-- The escrow `id` after a run from `s`. -/
def escrowAfter (P : Params) (s : Store) (id : Id) (l : List Timed) : Option Escrow :=
  (Runs.run (Execution.execute P) { store := s } l).store.records.escrows[id]?

/-- **The life of the escrow `id`**, over every run from `s`. -/
structure EscrowLifecycle (P : Params) (s : Store) (id : Id) : Prop where
  /-- Once stored, it stays, with its terms; a settled one does not change at all. -/
  kept : ∀ l l' esc, escrowAfter P s id l = some esc →
    ∃ esc', escrowAfter P s id (l ++ l') = some esc' ∧ esc.SameTerms esc' ∧
      (esc.Settled → esc' = esc)
  starts : ∀ l a esc, escrowAfter P s id l = none → escrowAfter P s id (l ++ [a]) = some esc →
    esc.id = id ∧ esc.state = .created
  moves : ∀ l a esc esc', escrowAfter P s id l = some esc →
    escrowAfter P s id (l ++ [a]) = some esc' → esc'.state ≠ esc.state →
    esc.state = .created ∧ esc.MovableBy a.1.sender a.2 esc'.state
  evidence : ∀ l esc, escrowAfter P s id l = some esc →
    (esc.evidenceHash.isSome ↔ esc.state = .released)

section Lifecycle

variable {P : Params} {s : Store} {a : Id} {t : Int64} {r : Records} {p : TxPayload} {id : Id}

/-- A change keeps the terms, and a settled escrow as it is. -/
theorem EscrowChange.kept {esc : Escrow} {o : Option Escrow}
    (h : EscrowChange r a t p id (some esc) o) :
    ∃ esc', o = some esc' ∧ esc.SameTerms esc' ∧ (esc.Settled → esc' = esc) := by
  cases h with
  | same => exact ⟨esc, rfl, .refl esc, fun _ => rfl⟩
  | released _ _ hopen _ =>
    exact ⟨_, rfl, .move esc _ _ _, fun hs => absurd hs (Escrow.not_settled hopen)⟩
  | refunded _ _ hopen =>
    exact ⟨_, rfl, .move esc _ _ _, fun hs => absurd hs (Escrow.not_settled hopen)⟩
  | disputed _ _ hopen => exact ⟨_, rfl, .move esc _ _ _, fun hs => absurd hs hopen⟩

theorem EscrowChange.moves {esc esc' : Escrow}
    (h : EscrowChange r a t p id (some esc) (some esc')) (hf : esc.Formed)
    (hne : esc'.state ≠ esc.state) :
    esc.state = .created ∧ esc.MovableBy a t esc'.state := by
  cases h with
  | same => exact absurd rfl hne
  | released _ ha hopen ht => exact ⟨hopen.resolve_right hf.1, ha, Int64.not_lt.1 ht⟩
  | refunded _ ha hopen => exact ⟨hopen.resolve_right hf.1, ha⟩
  | disputed _ ha hs =>
    refine ⟨?_, ha⟩
    -- what is neither funded, settled nor disputed already
    cases hstate : esc.state with
    | created => rfl
    | funded => exact absurd hstate hf.1
    | released => exact absurd (.inl hstate) hs
    | refunded => exact absurd (.inr hstate) hs
    | disputed => exact absurd hstate.symm hne

theorem EscrowChange.formed {o : Option Escrow} {esc' : Escrow}
    (h : EscrowChange r a t p id o (some esc')) (ho : ∀ esc, o = some esc → esc.Formed) :
    esc'.Formed := by
  cases h with
  | same => exact ho esc' rfl
  | created _ _ _ => exact ⟨by simp [Escrow.new], by simp [Escrow.new]⟩
  | released _ _ _ _ => exact ⟨by simp, by simp⟩
  | @refunded esc _ _ hopen =>
    have hev := (ho esc rfl).2
    refine ⟨by simp, ?_⟩
    rcases hopen with hstate | hstate <;> simpa [hstate] using hev
  | @disputed d esc _ _ _ _ hs =>
    have hev := (ho esc rfl).2
    refine ⟨by simp, ?_⟩
    have hnot : esc.state ≠ .released := fun hstate => hs (.inl hstate)
    simpa [hnot] using hev

theorem escrowAfter_append (P : Params) (s : Store) (id : Id) (l : List Timed) (act : Timed) :
    EscrowChange (Runs.run (Execution.execute P) { store := s } l).store.records act.1.sender
      act.2 act.1.payload id (escrowAfter P s id l) (escrowAfter P s id (l ++ [act])) := by
  unfold escrowAfter
  rw [Runs.run_append, Runs.run_cons, Runs.run_nil]
  exact (execution_step P _ act).escrowChange id

theorem escrowAfter_kept (P : Params) (s : Store) (id : Id) (l : List Timed) {esc : Escrow}
    (he : escrowAfter P s id l = some esc) (l' : List Timed) :
    ∃ esc', escrowAfter P s id (l ++ l') = some esc' ∧ esc.SameTerms esc' ∧
      (esc.Settled → esc' = esc) := by
  have hstep : ∀ (x : Execution) (act : Timed) (esc : Escrow),
      x.store.records.escrows[id]? = some esc → True →
      ∃ esc', (x.execute P act).store.records.escrows[id]? = some esc' ∧
        esc.SameTerms esc' ∧ (esc.Settled → esc' = esc) := by
    intro x act esc he _
    have hchange := (execution_step P x act).escrowChange id
    rw [he] at hchange
    exact hchange.kept
  unfold escrowAfter at he ⊢
  rw [Runs.run_append]
  refine Runs.persists_run (fun x : Execution => x.store.records.escrows[id]?)
    (R := fun esc esc' : Escrow => esc.SameTerms esc' ∧ (esc.Settled → esc' = esc))
    ?_ ?_ hstep he (Runs.along_true _ l')
  · intro esc
    exact ⟨.refl esc, fun _ => rfl⟩
  · rintro esc₁ esc₂ esc₃ ⟨hterms, hsame⟩ ⟨hterms', hsame'⟩
    refine ⟨hterms.trans hterms', ?_⟩
    intro hs
    have heq := hsame hs
    subst heq
    exact hsame' hs

theorem escrowAfter_formed (hnew : s.records.escrows[id]? = none) (l : List Timed) :
    ∀ esc, escrowAfter P s id l = some esc → esc.Formed := by
  induction l using List.reverseRecOn with
  | nil =>
    intro esc he
    rw [escrowAfter, Runs.run_nil, hnew] at he
    cases he
  | append_singleton l act ih =>
    intro esc he
    have hchange := escrowAfter_append P s id l act
    rw [he] at hchange
    exact hchange.formed ih

/-- **The escrow lifecycle** holds for every escrow that a run creates. -/
theorem escrow_lifecycle (P : Params) (s : Store) (id : Id)
    (hnew : s.records.escrows[id]? = none) : EscrowLifecycle P s id := by
  refine ⟨?_, ?_, ?_, ?_⟩
  · intro l l' esc he
    exact escrowAfter_kept P s id l he l'
  · intro l act esc hnone he
    have hchange := escrowAfter_append P s id l act
    rw [hnone, he] at hchange
    cases hchange with
    | created _ _ _ => exact ⟨rfl, rfl⟩
  · intro l act esc esc' he he' hne
    have hchange := escrowAfter_append P s id l act
    rw [he, he'] at hchange
    exact hchange.moves (escrowAfter_formed hnew l esc he) hne
  · intro l esc he
    exact (escrowAfter_formed hnew l esc he).2

/-- In a run from the empty store every escrow is created. -/
theorem escrow_lifecycle_empty : EscrowLifecycle .default .empty 7 :=
  escrow_lifecycle .default .empty 7 (by decide +kernel)

end Lifecycle

end RoutineChain
