import RoutineChain.Proof.Payload

/-!
# One transaction and one block

* `execute`: a stale transaction changes nothing. A fresh one writes its nonce, and then
  its payload runs on the records, whether it succeeds or not.
* Nonces only grow, and only a transaction of the same sender moves them.
* The two loops as recursions: what a block's replay ran, and what a leader kept.
-/

namespace RoutineChain

open EStateM

variable {C : Crypto} {P : Params} {t : Int64} {tx : Transaction} {s : Store}

/-- The nonce of a transaction is above the stored one. -/
def Transaction.Fresh (tx : Transaction) (s : Store) : Prop := s.getNonce tx.sender < tx.nonce

instance (tx : Transaction) (s : Store) : Decidable (tx.Fresh s) :=
  inferInstanceAs (Decidable (_ < _))

/-- The payload of a transaction, run on records. -/
abbrev Transaction.exec (P : Params) (t : Int64) (tx : Transaction) : Exec (List Event) :=
  runPayload P tx.sender t tx.payload

theorem execute_stale (h : ¬ tx.Fresh s) : ∃ e, (execute P tx t).run s = .error e s := by
  have hle : tx.nonce ≤ s.getNonce tx.sender := UInt64.not_lt.1 h
  simp [execute, checkAndUpdateNonce, hle]

-- The nonce is written before the payload runs: a failing payload does not take it back.
theorem execute_fresh (h : tx.Fresh s) :
    (execute P tx t).run s = (onRecords (tx.exec P t)).run (s.setNonce tx.sender tx.nonce) := by
  have hlt : ¬ tx.nonce ≤ s.getNonce tx.sender := fun hle => UInt64.not_lt.2 hle h
  simp [execute, checkAndUpdateNonce, hlt]

theorem onRecords_run {α : Type} (x : Exec α) (s : Store) :
    (onRecords x).run s = match x.run s.records with
      | .ok a r => .ok a { s with records := r }
      | .error e r => .error e { s with records := r } := rfl

theorem after_onRecords {α : Type} (x : Exec α) (s : Store) :
    after (onRecords x) s = { s with records := after x s.records } := by
  rw [after, onRecords_run, after]
  cases x.run s.records <;> rfl

theorem isOk_onRecords {α : Type} (x : Exec α) (s : Store) :
    isOk (onRecords x) s = isOk x s.records := by
  rw [isOk, onRecords_run, isOk]
  cases x.run s.records <;> rfl

/-- **The store after a transaction.** -/
theorem after_execute : after (execute P tx t) s =
    if tx.Fresh s then
      { s.setNonce tx.sender tx.nonce with records := after (tx.exec P t) s.records }
    else s := by
  by_cases h : tx.Fresh s
  · rw [if_pos h, after, execute_fresh h]
    exact after_onRecords _ _
  · obtain ⟨e, he⟩ := execute_stale (P := P) (t := t) h
    rw [after_error he, if_neg h]

/-- **A transaction succeeds if it is fresh and its payload does.** -/
theorem isOk_execute :
    isOk (execute P tx t) s ↔ tx.Fresh s ∧ isOk (tx.exec P t) s.records := by
  by_cases h : tx.Fresh s
  · have hok : isOk (execute P tx t) s = isOk (tx.exec P t) s.records := by
      rw [isOk, execute_fresh h]
      exact isOk_onRecords _ _
    rw [hok]
    exact (and_iff_right h).symm
  · obtain ⟨e, he⟩ := execute_stale (P := P) (t := t) h
    simp [isOk, he, h]

theorem getNonce_execute (a : Id) : (after (execute P tx t) s).getNonce a =
    if tx.Fresh s ∧ tx.sender = a then tx.nonce else s.getNonce a := by
  rw [after_execute]
  by_cases h : tx.Fresh s
  · simp only [h, if_true, true_and]
    exact Store.getNonce_setNonce s tx.sender a tx.nonce
  · simp [h]

/-- Nonces only grow. -/
theorem getNonce_le_execute (a : Id) : s.getNonce a ≤ (after (execute P tx t) s).getNonce a := by
  rw [getNonce_execute]
  by_cases h : tx.Fresh s ∧ tx.sender = a
  · rw [if_pos h, ← h.2]
    exact UInt64.le_of_lt h.1
  · rw [if_neg h]
    exact UInt64.le_refl _

/-- After a fresh transaction its nonce is used up. -/
theorem not_fresh_execute : ¬ tx.Fresh (after (execute P tx t) s) := by
  unfold Transaction.Fresh
  rw [getNonce_execute, UInt64.not_lt]
  by_cases h : tx.Fresh s
  · simp [h]
  · simpa [h] using UInt64.not_lt.1 h

@[simp] theorem execute_blocks : (after (execute P tx t) s).blocks = s.blocks := by
  rw [after_execute]
  split <;> rfl

@[simp] theorem execute_latestHeight :
    (after (execute P tx t) s).latestHeight = s.latestHeight := by
  rw [after_execute]
  split <;> rfl

/-! ## A block's replay -/

theorem applyTx_store (st : Replay) : (applyTx C P t st tx).store =
    if verifyTxSignature C tx then after (execute P tx t) st.store else st.store := by
  unfold applyTx
  by_cases hv : verifyTxSignature C tx
  · simp only [hv, Bool.not_true, Bool.false_eq_true, if_false, if_true]
    cases h : (execute P tx t).run st.store <;> simp [after, h]
  · simp [hv]

theorem applyTx_ran (st : Replay) : (applyTx C P t st tx).ran =
    if verifyTxSignature C tx then st.ran ++ [tx] else st.ran := by
  unfold applyTx
  by_cases hv : verifyTxSignature C tx
  · simp only [hv, Bool.not_true, Bool.false_eq_true, if_false, if_true]
    split <;> rfl
  · simp [hv]

theorem applyTx_succeeded (st : Replay) : (applyTx C P t st tx).succeeded =
    if verifyTxSignature C tx ∧ isOk (execute P tx t) st.store then st.succeeded ++ [tx]
    else st.succeeded := by
  unfold applyTx
  by_cases hv : verifyTxSignature C tx
  · simp only [hv, Bool.not_true, Bool.false_eq_true, if_false, true_and]
    cases h : (execute P tx t).run st.store <;> simp [isOk, h]
  · simp [hv]

/-! ## A leader's execution -/

theorem produceTx_store (st : Production) :
    (produceTx P t st tx).store = after (execute P tx t) st.store := by
  unfold produceTx
  cases h : (execute P tx t).run st.store <;> simp [after, h]

theorem produceTx_validTxs (st : Production) : (produceTx P t st tx).validTxs =
    if isOk (execute P tx t) st.store then st.validTxs ++ [tx] else st.validTxs := by
  unfold produceTx
  cases h : (execute P tx t).run st.store <;> simp [isOk, h]

theorem produceTx_rejected (st : Production) : (produceTx P t st tx).rejected =
    if isOk (execute P tx t) st.store then st.rejected else st.rejected ++ [tx] := by
  unfold produceTx
  cases h : (execute P tx t).run st.store <;> simp [isOk, h]

end RoutineChain
