import RoutineChain.Proof.Outcome
import RoutineChain.Proof.Replay

/-!
# Nonce discipline

Over any run of `execute`, the nonces of one sender that get past the check increase, and
the store holds the last of them. Nothing else moves a nonce: a payload that fails keeps the
one of its transaction. So a transaction that has been processed is stale for good, in
whatever order it comes back.
-/

namespace RoutineChain

open EStateM

variable {P : Params} {tx : Transaction} {act : Timed} {l : List Timed}

/-- The transactions of a run that get past `check_and_update_nonce`, in order. -/
def passed (P : Params) : Execution → List Timed → List Transaction
  | _, [] => []
  | x, act :: l =>
    (if isOk (checkAndUpdateNonce act.1) x.store then [act.1] else []) ++
      passed P (x.execute P act) l

/-- A transaction gets past the check if it is fresh. -/
theorem isOk_checkAndUpdateNonce {s : Store} :
    isOk (checkAndUpdateNonce tx) s ↔ tx.Fresh s := by
  unfold Transaction.Fresh
  rw [← UInt64.not_le]
  by_cases h : tx.nonce ≤ s.getNonce tx.sender
  · simp [isOk, checkAndUpdateNonce, h]
  · simp [isOk, checkAndUpdateNonce, h]

/-! ## The nonces of one sender -/

theorem Execution.getNonce_execute (a : Id) (x : Execution) (act : Timed) :
    (x.execute P act).store.getNonce a =
      if act.1.Fresh x.store ∧ act.1.sender = a then act.1.nonce else x.store.getNonce a := by
  rw [execute_store]
  exact RoutineChain.getNonce_execute a

/-- What one transaction adds to the nonces of `a` that passed. -/
theorem noncesOf_passed_cons (a : Id) (x : Execution) (act : Timed) (l : List Timed) :
    noncesOf a (passed P x (act :: l)) =
      (if act.1.Fresh x.store ∧ act.1.sender = a then [act.1.nonce.toNat] else []) ++
        noncesOf a (passed P (x.execute P act) l) := by
  rw [passed, noncesOf_append]
  congr 1
  by_cases hf : act.1.Fresh x.store
  · by_cases ha : act.1.sender = a
    · simp [isOk_checkAndUpdateNonce, noncesOf, hf, ha]
    · simp [isOk_checkAndUpdateNonce, noncesOf, hf, ha]
  · simp [isOk_checkAndUpdateNonce, noncesOf, hf]

/-- Nonces only grow. -/
theorem getNonce_le_run (a : Id) (x : Execution) (l : List Timed) :
    x.store.getNonce a ≤ (Runs.run (Execution.execute P) x l).store.getNonce a := by
  induction l generalizing x with
  | nil => exact UInt64.le_refl _
  | cons act l ih =>
    have hstep : x.store.getNonce a ≤ (x.execute P act).store.getNonce a := by
      rw [Execution.execute_store]
      exact getNonce_le_execute a
    exact UInt64.le_trans hstep (ih _)

/-- **The nonces that pass ascend**, above the nonce stored at first and up to the one
stored in the end. -/
theorem ascending_passed (a : Id) (x : Execution) (l : List Timed) :
    Ascending (x.store.getNonce a).toNat (noncesOf a (passed P x l))
      ((Runs.run (Execution.execute P) x l).store.getNonce a).toNat := by
  induction l generalizing x with
  | nil => exact .nil _ _
  | cons act l ih =>
    have hrest := ih (x.execute P act)
    rw [noncesOf_passed_cons, Runs.run_cons]
    by_cases h : act.1.Fresh x.store ∧ act.1.sender = a
    · have hnonce : (x.execute P act).store.getNonce a = act.1.nonce := by
        rw [Execution.getNonce_execute, if_pos h]
      have hlt : (x.store.getNonce a).toNat < act.1.nonce.toNat :=
        h.2 ▸ UInt64.lt_iff_toNat_lt.1 h.1
      have hle := UInt64.le_iff_toNat_le.1 (getNonce_le_run (P := P) a (x.execute P act) l)
      rw [hnonce] at hrest hle
      rw [if_pos h]
      exact (Ascending.singleton hlt).append hrest hlt.le hle
    · have hnonce : (x.execute P act).store.getNonce a = x.store.getNonce a := by
        rw [Execution.getNonce_execute, if_neg h]
      rw [hnonce] at hrest
      rwa [if_neg h]

/-- If any nonce passes, the one stored in the end did. -/
theorem getNonce_mem_passed (a : Id) (x : Execution) (l : List Timed) :
    (noncesOf a (passed P x l) = [] ∧
      (Runs.run (Execution.execute P) x l).store.getNonce a = x.store.getNonce a) ∨
    ((Runs.run (Execution.execute P) x l).store.getNonce a).toNat ∈
      noncesOf a (passed P x l) := by
  induction l generalizing x with
  | nil => exact .inl ⟨rfl, rfl⟩
  | cons act l ih =>
    rw [noncesOf_passed_cons, Runs.run_cons]
    have hnonce := Execution.getNonce_execute (P := P) a x act
    rcases ih (x.execute P act) with ⟨hnil, hsame⟩ | hmem
    · rw [hnil, hsame, hnonce]
      by_cases h : act.1.Fresh x.store ∧ act.1.sender = a
      · right
        simp [h]
      · left
        simp [h]
    · exact .inr (List.mem_append_right _ hmem)

/-- **The stored nonce is the largest that passed**, or the one stored at first. -/
theorem getNonce_eq_max (a : Id) (x : Execution) (l : List Timed) :
    ((Runs.run (Execution.execute P) x l).store.getNonce a).toNat =
      (noncesOf a (passed P x l)).max?.getD (x.store.getNonce a).toNat := by
  rcases getNonce_mem_passed (P := P) a x l with ⟨hnil, hsame⟩ | hmem
  · rw [hnil, hsame]
    rfl
  · have hmax : (noncesOf a (passed P x l)).max? =
        some ((Runs.run (Execution.execute P) x l).store.getNonce a).toNat :=
      List.max?_eq_some_iff.2 ⟨hmem, (ascending_passed a x l).below⟩
    rw [hmax, Option.getD_some]

/-- No sender uses a nonce twice. -/
theorem nodup_passed (x : Execution) (l : List Timed) :
    ((passed P x l).map fun tx => (tx.sender, tx.nonce)).Nodup := by
  induction l generalizing x with
  | nil => exact List.nodup_nil
  | cons act l ih =>
    by_cases hf : act.1.Fresh x.store
    · rw [passed, if_pos (isOk_checkAndUpdateNonce.2 hf), List.singleton_append, List.map_cons,
        List.nodup_cons]
      refine ⟨?_, ih _⟩
      -- What passes later is above the nonce that this step stores.
      intro hm
      obtain ⟨tx, htx, heq⟩ := List.mem_map.1 hm
      rw [Prod.mk.injEq] at heq
      have hmem : tx.nonce.toNat ∈ noncesOf act.1.sender (passed P (x.execute P act) l) := by
        simp only [noncesOf, List.mem_map, List.mem_filter, decide_eq_true_eq]
        exact ⟨tx, ⟨htx, heq.1⟩, rfl⟩
      have habove := (ascending_passed act.1.sender _ l).above _ hmem
      rw [Execution.getNonce_execute, if_pos ⟨hf, rfl⟩, heq.2] at habove
      exact lt_irrefl _ habove
    · rw [passed, if_neg (mt isOk_checkAndUpdateNonce.1 hf), List.nil_append]
      exact ih _

/-! ## Coming back -/

/-- A transaction of the run is stale at its end. -/
theorem not_fresh_run {x : Execution} (h : act ∈ l) :
    ¬ act.1.Fresh (Runs.run (Execution.execute P) x l).store := by
  induction l generalizing x with
  | nil => cases h
  | cons act' l ih =>
    rcases List.mem_cons.1 h with rfl | h
    -- Its own step uses the nonce up, and the steps after it only raise nonces.
    · have hused : ¬ act.1.Fresh (x.execute P act).store := by
        rw [Execution.execute_store]
        exact not_fresh_execute
      have hmono := getNonce_le_run (P := P) act.1.sender (x.execute P act) l
      unfold Transaction.Fresh at hused ⊢
      exact fun hf => hused (UInt64.lt_of_le_of_lt hmono hf)
    · exact ih h

/-- The transaction fails, and leaves the store alone. -/
def FailsInPlace (P : Params) (x : Execution) (act : Timed) : Prop :=
  ∃ e, (execute P act.1 act.2).run x.store = .error e x.store

/-- **Stale transactions fail one after the other** and leave the run where it was. -/
theorem run_stale {x : Execution} (h : ∀ act ∈ l, ¬ act.1.Fresh x.store) :
    Runs.Along (Execution.execute P) (FailsInPlace P) x l ∧
      Runs.run (Execution.execute P) x l = x := by
  induction l with
  | nil => exact ⟨trivial, rfl⟩
  | cons act l ih =>
    obtain ⟨e, he⟩ := execute_stale (P := P) (t := act.2) (h act List.mem_cons_self)
    have hsame : x.execute P act = x := by
      simp [Execution.execute, he]
    rw [Runs.along_cons, Runs.run_cons, hsame]
    obtain ⟨halong, hrun⟩ := ih fun act' hm => h act' (List.mem_cons_of_mem _ hm)
    exact ⟨⟨⟨e, he⟩, halong⟩, hrun⟩

/-- **Nonce discipline.** For every run of `execute` from a store: the nonces of each sender
that get past the check increase strictly, and no pair of sender and nonce is executed twice;
the stored nonce is the largest that passed (the one stored at first if none did, which is
zero on a new store); and transactions of the run that come back, in any order, at any time
and any number of times, all fail and change nothing. -/
theorem nonce_discipline (P : Params) (s : Store) (l : List Timed) :
    (∀ a, (noncesOf a (passed P { store := s } l)).Pairwise (· < ·)) ∧
    ((passed P { store := s } l).map fun tx => (tx.sender, tx.nonce)).Nodup ∧
    (∀ a, ((Runs.run (Execution.execute P) { store := s } l).store.getNonce a).toNat =
      (noncesOf a (passed P { store := s } l)).max?.getD (s.getNonce a).toNat) ∧
    ∀ l' : List Timed, l'.map (·.1) ⊆ l.map (·.1) →
      Runs.Along (Execution.execute P) (FailsInPlace P)
        (Runs.run (Execution.execute P) { store := s } l) l' ∧
      (Runs.run (Execution.execute P) (Runs.run (Execution.execute P) { store := s } l) l').store =
        (Runs.run (Execution.execute P) { store := s } l).store := by
  refine ⟨fun a => (ascending_passed a _ l).sorted, nodup_passed _ l,
    fun a => getNonce_eq_max a _ l, ?_⟩
  intro l' hsub
  have hstale : ∀ act ∈ l',
      ¬ act.1.Fresh (Runs.run (Execution.execute P) { store := s } l).store := by
    intro act hm
    -- the time of the first processing need not be the time of this one
    obtain ⟨act', hm', heq⟩ := List.mem_map.1 (hsub (List.mem_map_of_mem hm))
    rw [← heq]
    exact not_fresh_run hm'
  obtain ⟨halong, hrun⟩ := run_stale (P := P) hstale
  exact ⟨halong, by rw [hrun]⟩

end RoutineChain
