import RoutineChain.Proof.Step

/-!
# The leader's execution and the follower's

Both loops run `execute` one transaction after the other. The leader runs the drained
pool and puts the transactions that succeeded into its block; a follower runs these alone.

* The two end in the same state exactly if the transactions that the leader rejected left
  nothing behind: no record, and no nonce that a later transaction does not overwrite.
* A record left behind is a settled escrow, and it stays settled: the states never meet again.
-/

namespace RoutineChain

open EStateM

variable {C : Crypto} {P : Params} {t : Int64} {s s' : Store} {a id : Id}

/-- The store after running transactions one by one. -/
def runAll (P : Params) (t : Int64) (s : Store) (txs : List Transaction) : Store :=
  Runs.run (fun s tx => after (execute P tx t) s) s txs

@[simp] theorem runAll_nil : runAll P t s [] = s := rfl

@[simp] theorem runAll_cons (tx : Transaction) (txs : List Transaction) :
    runAll P t s (tx :: txs) = runAll P t (after (execute P tx t) s) txs := rfl

/-- The transactions that succeed when a list runs. -/
def validOf (P : Params) (t : Int64) : Store → List Transaction → List Transaction
  | _, [] => []
  | s, tx :: txs =>
    if isOk (execute P tx t) s then tx :: validOf P t (after (execute P tx t) s) txs
    else validOf P t (after (execute P tx t) s) txs

theorem foldl_produceTx_store (txs : List Transaction) (st : Production) :
    (txs.foldl (produceTx P t) st).store = runAll P t st.store txs := by
  induction txs generalizing st with
  | nil => rfl
  | cons tx txs ih => rw [List.foldl_cons, ih, produceTx_store, runAll_cons]

theorem foldl_produceTx_validTxs (txs : List Transaction) (st : Production) :
    (txs.foldl (produceTx P t) st).validTxs = st.validTxs ++ validOf P t st.store txs := by
  induction txs generalizing st with
  | nil => simp [validOf]
  | cons tx txs ih =>
    rw [List.foldl_cons, ih, produceTx_store, produceTx_validTxs, validOf]
    split <;> simp

/-- The leader runs all transactions. -/
theorem leaderExecute_store (txs : List Transaction) (s : Store) :
    (leaderExecute P t txs s).store = runAll P t s txs :=
  foldl_produceTx_store txs _

/-- The leader keeps those that succeed. -/
theorem leaderExecute_validTxs (txs : List Transaction) (s : Store) :
    (leaderExecute P t txs s).validTxs = validOf P t s txs :=
  foldl_produceTx_validTxs txs { store := s }

/-- A follower runs all transactions that verify. -/
theorem replay_verified {txs : List Transaction} (st : Replay)
    (h : ∀ tx ∈ txs, verifyTxSignature C tx) :
    (txs.foldl (applyTx C P t) st).store = runAll P t st.store txs := by
  induction txs generalizing st with
  | nil => rfl
  | cons tx txs ih =>
    rw [List.foldl_cons, ih _ fun tx' hm => h tx' (List.mem_cons_of_mem _ hm), applyTx_store,
      if_pos (h tx List.mem_cons_self), runAll_cons]

theorem mem_of_mem_validOf {txs : List Transaction} {tx : Transaction} {s : Store}
    (h : tx ∈ validOf P t s txs) : tx ∈ txs := by
  induction txs generalizing s with
  | nil => cases h
  | cons tx' txs ih =>
    unfold validOf at h
    split at h
    · exact (List.mem_cons.1 h).elim (· ▸ List.mem_cons_self) fun h => .tail _ (ih h)
    · exact .tail _ (ih h)

/-! ## The same state -/

theorem Store.SameState.symm (h : s.SameState s') : s'.SameState s := ⟨h.1.symm, h.2.symm⟩

theorem Store.SameState.trans {s'' : Store} (h : s.SameState s') (h' : s'.SameState s'') :
    s.SameState s'' :=
  ⟨h.1.trans h'.1, h.2.trans h'.2⟩

theorem Store.SameState.getNonce (h : s.SameState s') (a : Id) :
    s.getNonce a = s'.getNonce a := by
  unfold Store.getNonce
  rw [h.2]

/-- The blocks of a store have no influence on what a transaction does. -/
theorem Store.SameState.execute {tx : Transaction} (h : s.SameState s') :
    (after (execute P tx t) s).SameState (after (RoutineChain.execute P tx t) s') := by
  have hfresh : tx.Fresh s ↔ tx.Fresh s' := by
    unfold Transaction.Fresh
    rw [h.getNonce]
  rw [after_execute, after_execute]
  by_cases hf : tx.Fresh s
  · rw [if_pos hf, if_pos (hfresh.1 hf), h.1]
    exact ⟨rfl, congrArg (·.insert tx.sender tx.nonce) h.2⟩
  · rwa [if_neg hf, if_neg (hf ∘ hfresh.2)]

theorem Store.SameState.replayBlock (h : s.SameState s') (b : Block) :
    (replayBlock C P b s).store.SameState (RoutineChain.replayBlock C P b s').store := by
  refine Runs.sim_run (R := fun st st' : Replay => st.store.SameState st'.store) ?_ h _
  intro st st' tx h
  rw [applyTx_store, applyTx_store]
  split
  · exact h.execute
  · exact h

/-! ## What persists -/

theorem getNonce_le_runAll (txs : List Transaction) (s : Store) (a : Id) :
    s.getNonce a ≤ (runAll P t s txs).getNonce a := by
  induction txs generalizing s with
  | nil => exact UInt64.le_refl _
  | cons tx txs ih => exact UInt64.le_trans (getNonce_le_execute a) (ih _)

/-- Only its sender's transactions move a nonce. -/
theorem getNonce_runAll_of_ne {txs : List Transaction} (h : ∀ tx ∈ txs, tx.sender ≠ a)
    (s : Store) : (runAll P t s txs).getNonce a = s.getNonce a := by
  induction txs generalizing s with
  | nil => rfl
  | cons tx txs ih =>
    have hne : ¬ (tx.Fresh s ∧ tx.sender = a) := fun hf => h tx List.mem_cons_self hf.2
    have htail : ∀ tx' ∈ txs, tx'.sender ≠ a := fun tx' hm => h tx' (List.mem_cons_of_mem _ hm)
    rw [runAll_cons, ih htail, getNonce_execute, if_neg hne]

theorem settledAt_execute {tx : Transaction} (h : s.records.SettledAt id) :
    (after (execute P tx t) s).records.SettledAt id := by
  rw [after_execute]
  split
  · exact settledAt_after h
  · exact h

theorem settledAt_of_execute {tx : Transaction}
    (h : (after (execute P tx t) s).records.SettledAt id) :
    s.records.SettledAt id ∨ tx.payload.Settles id := by
  rw [after_execute] at h
  split at h
  · exact settledAt_of_after h
  · exact .inl h

/-- **An escrow that is settled on the leader only stays so.** -/
theorem settledAt_runAll (txs : List Transaction) {L F : Store} (hL : L.records.SettledAt id)
    (hF : ¬ F.records.SettledAt id) : (runAll P t L txs).records.SettledAt id ∧
      ¬ (runAll P t F (validOf P t L txs)).records.SettledAt id := by
  induction txs generalizing L F with
  | nil => exact ⟨hL, hF⟩
  | cons tx txs ih =>
    unfold validOf
    split
    case isFalse => exact ih (settledAt_execute hL) hF
    case isTrue hok =>
      -- the leader cannot settle it again, so the follower is never told to
      have hno : ¬ tx.payload.Settles id := by
        intro hp
        exact not_settledAt_of_isOk hp (isOk_execute.1 hok).2 hL
      have hF' : ¬ (after (execute P tx t) F).records.SettledAt id := by
        intro h
        rcases settledAt_of_execute h with h | h
        · exact hF h
        · exact hno h
      exact ih (settledAt_execute hL) hF'

/-! ## Clean rejections -/

/-- Each rejected transaction left the records alone, and wrote no nonce or one that a
later transaction of its sender overwrites. -/
def CleanRejects (P : Params) (t : Int64) : Store → List Transaction → Prop
  | _, [] => True
  | s, tx :: txs =>
    let s' := after (execute P tx t) s
    (isOk (execute P tx t) s ∨ s'.records = s.records ∧
      (tx.nonce ≤ s.getNonce tx.sender ∨
        ∃ v ∈ (leaderExecute P t txs s').validTxs, v.sender = tx.sender)) ∧
    CleanRejects P t s' txs

/-- The follower has the leader's records, and is behind in nonces. -/
structure Behind (F L : Store) : Prop where
  records : F.records = L.records
  nonce : ∀ a, F.getNonce a ≤ L.getNonce a

/-- It will catch up: each nonce is equal, or a transaction to come overwrites it. -/
def CatchesUp (F L : Store) (rest : List Transaction) : Prop :=
  ∀ a, F.nonces[a]? = L.nonces[a]? ∨ ∃ v ∈ rest, v.sender = a

section Steps

variable {F L : Store} {tx : Transaction} {rest : List Transaction}

theorem Behind.fresh (h : Behind F L) (hL : tx.Fresh L) : tx.Fresh F :=
  UInt64.lt_of_le_of_lt (h.nonce tx.sender) hL

theorem Behind.valid (h : Behind F L) (hL : tx.Fresh L) :
    Behind (after (execute P tx t) F) (after (execute P tx t) L) := by
  refine ⟨?_, ?_⟩
  · simp [after_execute, hL, h.fresh hL, h.records]
  · intro a
    simp only [getNonce_execute, hL, h.fresh hL, true_and]
    split
    · exact UInt64.le_refl _
    · exact h.nonce a

theorem Behind.rejected (h : Behind F L)
    (hrec : (after (execute P tx t) L).records = L.records) :
    Behind F (after (execute P tx t) L) :=
  ⟨h.records.trans hrec.symm, fun a => UInt64.le_trans (h.nonce a) (getNonce_le_execute a)⟩

theorem CatchesUp.valid (h : CatchesUp F L (tx :: rest)) (hF : tx.Fresh F) (hL : tx.Fresh L) :
    CatchesUp (after (execute P tx t) F) (after (execute P tx t) L) rest := by
  intro a
  simp only [after_execute, hL, hF, if_true, Store.setNonce, Std.ExtTreeMap.getElem?_insert]
  split
  case isTrue => exact .inl rfl
  case isFalse hne =>
    refine (h a).imp_right ?_
    rintro ⟨v, hv, rfl⟩
    rcases List.mem_cons.1 hv with rfl | hv
    · simp at hne
    · exact ⟨v, hv, rfl⟩

theorem CatchesUp.rejected (h : CatchesUp F L rest)
    (hn : tx.nonce ≤ L.getNonce tx.sender ∨ ∃ v ∈ rest, v.sender = tx.sender) :
    CatchesUp F (after (execute P tx t) L) rest := by
  intro a
  rw [after_execute]
  split
  case isFalse => exact h a
  case isTrue hf =>
    simp only [Store.setNonce, Std.ExtTreeMap.getElem?_insert]
    split
    case isFalse => exact h a
    case isTrue heq =>
      rw [Std.compare_eq_iff_eq] at heq
      exact .inr (heq ▸ hn.resolve_left (UInt64.not_le.2 hf))

/-- A rejected transaction that changes records settles an escrow. -/
theorem settledAt_of_rejected (hok : ¬ isOk (execute P tx t) s)
    (hrec : (after (execute P tx t) s).records ≠ s.records) :
    ∃ id, ¬ s.records.SettledAt id ∧ (after (execute P tx t) s).records.SettledAt id := by
  rw [after_execute] at hrec ⊢
  split
  case isFalse hf => simp [hf] at hrec
  case isTrue hf =>
    rw [if_pos hf] at hrec
    have hfail : ¬ isOk (tx.exec P t) s.records := fun h => hok (isOk_execute.2 ⟨hf, h⟩)
    exact (runPayload_fail hfail).resolve_left hrec

end Steps

/-- A follower that will catch up does. -/
theorem CatchesUp.sameState {txs : List Transaction} {F L : Store} (hb : Behind F L)
    (h : CatchesUp F L (validOf P t L txs)) (hclean : CleanRejects P t L txs) :
    (runAll P t F (validOf P t L txs)).SameState (runAll P t L txs) := by
  induction txs generalizing L F with
  | nil =>
    refine ⟨hb.records, Std.ExtTreeMap.ext_getElem? ?_⟩
    intro a
    simpa [validOf] using h a
  -- A success runs on both nodes, a rejection on the leader only.
  | cons tx txs ih =>
    obtain ⟨hhead, htail⟩ := hclean
    unfold validOf at h ⊢
    by_cases hok : isOk (execute P tx t) L
    · have hL := (isOk_execute.1 hok).1
      rw [if_pos hok] at h ⊢
      exact ih (hb.valid hL) (h.valid (hb.fresh hL) hL) htail
    · obtain ⟨hrec, hn⟩ := hhead.resolve_left hok
      rw [leaderExecute_validTxs] at hn
      rw [if_neg hok] at h ⊢
      exact ih (hb.rejected hrec) (h.rejected hn) htail

/-- The same state at the end leaves no room for an unclean rejection. -/
theorem cleanRejects_of_sameState {txs : List Transaction} {F L : Store} (hb : Behind F L)
    (h : (runAll P t F (validOf P t L txs)).SameState (runAll P t L txs)) :
    CleanRejects P t L txs := by
  induction txs generalizing L F with
  | nil => trivial
  | cons tx txs ih =>
    unfold validOf at h
    by_cases hok : isOk (execute P tx t) L
    · rw [if_pos hok] at h
      exact ⟨.inl hok, ih (hb.valid (isOk_execute.1 hok).1) h⟩
    rw [if_neg hok] at h
    by_cases hrec : (after (execute P tx t) L).records = L.records
    · refine ⟨.inr ⟨hrec, ?_⟩, ih (hb.rejected hrec) h⟩
      rw [leaderExecute_validTxs]
      by_contra hn
      obtain ⟨hf, hv⟩ := not_or.1 hn
      have hf : tx.Fresh L := UInt64.not_le.1 hf
      -- the leader keeps the nonce, the follower never runs the sender again
      have hL := getNonce_le_runAll (P := P) (t := t) txs (after (execute P tx t) L) tx.sender
      have hF := getNonce_runAll_of_ne (P := P) (t := t) (a := tx.sender)
        (fun v hm hs => hv ⟨v, hm, hs⟩) F
      have hsame : (runAll P t F (validOf P t (after (execute P tx t) L) txs)).getNonce tx.sender =
          (runAll P t (after (execute P tx t) L) txs).getNonce tx.sender := by
        unfold Store.getNonce
        rw [h.2]
        rfl
      rw [getNonce_execute, if_pos ⟨hf, rfl⟩, ← hsame, hF] at hL
      exact absurd (UInt64.lt_of_le_of_lt (hb.nonce tx.sender) hf) (UInt64.not_lt.2 hL)
    -- A record left behind is an escrow settled on the leader only, for good.
    · obtain ⟨id, hopen, hset⟩ := settledAt_of_rejected hok hrec
      obtain ⟨hL, hF⟩ := settledAt_runAll txs hset (hb.records ▸ hopen)
      exact absurd (h.1 ▸ hL) hF

theorem validOf_sublist (txs : List Transaction) (s : Store) :
    (validOf P t s txs).Sublist txs := by
  induction txs generalizing s with
  | nil => exact .slnil
  | cons tx txs ih =>
    unfold validOf
    split
    · exact (ih _).cons_cons tx
    · exact (ih _).cons tx

/-- A pool without a rejection is clean. -/
theorem cleanRejects_of_valid {txs : List Transaction}
    (h : validOf P t s txs = txs) : CleanRejects P t s txs := by
  induction txs generalizing s with
  | nil => trivial
  | cons tx txs ih =>
    unfold validOf at h
    by_cases hok : isOk (execute P tx t) s
    · rw [if_pos hok, List.cons.injEq] at h
      exact ⟨.inl hok, ih h.2⟩
    -- a rejection makes the list shorter
    · rw [if_neg hok] at h
      have hlen := congrArg List.length h
      have hle := (validOf_sublist (P := P) (t := t) txs (after (execute P tx t) s)).length_le
      rw [List.length_cons] at hlen
      omega

/-! ## The block of a leader and its followers -/

/-- A follower runs the block of a signed pool in full. -/
theorem replay_signed {b : Block} {txs : List Transaction}
    (hsigned : ∀ tx ∈ txs, verifyTxSignature C tx)
    (hb : b.transactions = (leaderExecute P b.header.timestamp txs s).validTxs) :
    (replayBlock C P b s).store =
      runAll P b.header.timestamp s (validOf P b.header.timestamp s txs) := by
  have hvalid : ∀ tx ∈ b.transactions, verifyTxSignature C tx := by
    intro tx hm
    rw [hb, leaderExecute_validTxs] at hm
    exact hsigned tx (mem_of_mem_validOf hm)
  rw [← leaderExecute_validTxs, ← hb]
  exact replay_verified { store := s } hvalid

/-- What a clean pool has left in a block leads a follower to the leader's state. -/
theorem replay_clean {b : Block} {txs : List Transaction}
    (hsigned : ∀ tx ∈ txs, verifyTxSignature C tx)
    (hclean : CleanRejects P b.header.timestamp s txs)
    (hb : b.transactions = (leaderExecute P b.header.timestamp txs s).validTxs) :
    (replayBlock C P b s).store.SameState
      (leaderExecute P b.header.timestamp txs s).store := by
  have hbehind : Behind s s := ⟨rfl, fun _ => UInt64.le_refl _⟩
  rw [replay_signed hsigned hb, leaderExecute_store]
  exact CatchesUp.sameState hbehind (fun _ => .inl rfl) hclean

/-- A block with the transactions that succeeded, the leader's time and its state root; what
else the header holds does not matter here. -/
def leaderBlock (C : Crypto) (P : Params) (t : Int64) (txs : List Transaction) (s : Store)
    (header : BlockHeader) (signatures : List NodeSignature) : Block :=
  { header :=
      { header with
        timestamp := t
        stateRoot := computeStateRoot C (leaderExecute P t txs s).store },
    transactions := (leaderExecute P t txs s).validTxs, signatures }

/-- What the block production loop proposes is the leader's block, over the node's own store. -/
theorem block_eq_leaderBlock (n : Node) (prev : Block) :
    n.block C P prev t = leaderBlock C P t n.cons.pendingTxs n.store (n.block C P prev t).header
      (n.block C P prev t).signatures :=
  rfl

/-- A follower accepts the leader's block, and ends in the leader's state. -/
def FollowerAgrees (C : Crypto) (P : Params) (t : Int64) (txs : List Transaction) (s : Store)
    (header : BlockHeader) (signatures : List NodeSignature) : Prop :=
  ∃ events s', (applyBlock C P (leaderBlock C P t txs s header signatures)).run s =
    .ok events s' ∧ s'.SameState (leaderExecute P t txs s).store

/-- **Leader and follower agree exactly if the leader's rejections are clean.** -/
theorem followerAgrees_iff {txs : List Transaction} (h : ∀ tx ∈ txs, verifyTxSignature C tx)
    (s : Store) (header : BlockHeader) (signatures : List NodeSignature) :
    FollowerAgrees C P t txs s header signatures ↔ CleanRejects P t s txs := by
  set b := leaderBlock C P t txs s header signatures with hb
  unfold FollowerAgrees
  rw [← hb]
  constructor
  · rintro ⟨events, s', hrun, hsame⟩
    by_cases hr : RootAccepted C P b s
    -- The block's transactions are signed, so the follower skips none of them.
    · have hreplay : (replayBlock C P b s).store = runAll P t s (validOf P t s txs) :=
        replay_signed h rfl
      rw [applyBlock_accepted hr, hreplay] at hrun
      cases hrun
      rw [leaderExecute_store] at hsame
      have hbehind : Behind s s := ⟨rfl, fun _ => UInt64.le_refl _⟩
      exact cleanRejects_of_sameState hbehind ⟨hsame.1, hsame.2⟩
    · obtain ⟨e, he⟩ := applyBlock_refused hr
      rw [he] at hrun
      cases hrun
  · intro hclean
    have hsame : (replayBlock C P b s).store.SameState (leaderExecute P t txs s).store :=
      replay_clean h hclean rfl
    -- The root is a function of the state, so no property of the hash is used.
    have hr : RootAccepted C P b s := .inr hsame.root
    exact ⟨_, _, applyBlock_accepted hr, hsame.1, hsame.2⟩

/-- Sender 2 updates a participant that does not exist. -/
def Transaction.toyUpdate : Transaction := .toy 2 1 (.updateParticipant 2 "")

/-- Sender 2 registers, with the nonce after that. -/
def Transaction.toyJoin : Transaction := .toy 2 2 (.registerParticipant 2 .seller "")

/-- Two clean rejections: the update of sender 2, whose nonce the registration overwrites, and
a copy of a transaction that has gone through. -/
theorem followerAgrees_iff_toy :
    FollowerAgrees .toy .default 0 [.toyRegister, .toyUpdate, .toyRegister, .toyJoin] .empty
      (Block.toy [] 0).header [] := by
  refine (followerAgrees_iff (by decide +kernel) _ _ _).2 ?_
  exact ⟨.inl (by decide +kernel),
    .inr ⟨rfl, .inr ⟨.toyJoin, by decide +kernel, rfl⟩⟩,
    .inr ⟨rfl, .inl (by decide +kernel)⟩, .inl (by decide +kernel), trivial⟩

/-- A rejected transaction has used up its nonce on the leader only. -/
theorem followerAgrees_fails : ¬ ∀ txs, (∀ tx ∈ txs, verifyTxSignature .toy tx) →
    (leaderExecute .default 0 txs .empty).validTxs ≠ [] →
    FollowerAgrees .toy .default 0 txs .empty (Block.toy [] 0).header [] := by
  intro hagree
  obtain ⟨events, s', hrun, -⟩ := hagree [.toyRegister, .toyUpdate]
    (by decide +kernel) (by decide +kernel)
  have hr : ¬ RootAccepted .toy .default (leaderBlock .toy .default 0
      [.toyRegister, .toyUpdate] .empty (Block.toy [] 0).header []) .empty := by
    decide +kernel
  obtain ⟨e, he⟩ := applyBlock_refused hr
  rw [he] at hrun
  cases hrun

end RoutineChain
