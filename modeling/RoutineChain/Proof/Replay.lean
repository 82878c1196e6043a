import RoutineChain.Lib.Ascending
import RoutineChain.Lib.Runs
import RoutineChain.Proof.Execute

/-!
# Replaying a block

A follower runs the transactions of a block on its store, one after the other.

* Nonces only grow, and the blocks stay as they are.
* A refused block has left the store alone exactly if none of its transactions was fresh.
* Over a sequence of blocks, the transactions of one sender that succeed have different
  nonces: a signature is used once exactly as often as its nonces allow.
-/

namespace RoutineChain

open Bincode EStateM

variable {C : Crypto} {P : Params} {t : Int64} {s : Store} {b : Block}

/-! ## One block -/

theorem getNonce_le_applyTx (a : Id) (st : Replay) (tx : Transaction) :
    st.store.getNonce a ≤ (applyTx C P t st tx).store.getNonce a := by
  rw [applyTx_store]
  split
  · exact getNonce_le_execute a
  · exact UInt64.le_refl _

/-- Nonces only grow. -/
theorem getNonce_le_replay (a : Id) (st : Replay) (txs : List Transaction) :
    st.store.getNonce a ≤ (txs.foldl (applyTx C P t) st).store.getNonce a := by
  induction txs generalizing st with
  | nil => exact UInt64.le_refl _
  | cons tx txs ih => exact UInt64.le_trans (getNonce_le_applyTx a st tx) (ih _)

/-- A verified transaction of the list is stale at the end. -/
theorem not_fresh_replay {txs : List Transaction} {tx : Transaction} (st : Replay)
    (h : tx ∈ txs) (hv : verifyTxSignature C tx) :
    ¬ tx.Fresh (txs.foldl (applyTx C P t) st).store := by
  induction txs generalizing st with
  | nil => cases h
  | cons tx' txs ih =>
    rcases List.mem_cons.1 h with rfl | h
    -- Its own step uses the nonce up, and the steps after it only raise nonces.
    · have hused : ¬ tx.Fresh (applyTx C P t st tx).store := by
        rw [applyTx_store, if_pos hv]
        exact not_fresh_execute
      have hmono :=
        getNonce_le_replay (C := C) (P := P) (t := t) tx.sender (applyTx C P t st tx) txs
      rw [List.foldl_cons]
      unfold Transaction.Fresh at hused ⊢
      exact fun hf => hused (UInt64.lt_of_le_of_lt hmono hf)
    · exact ih _ h

/-- Stale transactions leave the store alone. -/
theorem replay_stale {txs : List Transaction} (st : Replay)
    (h : ∀ tx ∈ txs, verifyTxSignature C tx → ¬ tx.Fresh st.store) :
    (txs.foldl (applyTx C P t) st).store = st.store := by
  induction txs generalizing st with
  | nil => rfl
  | cons tx txs ih =>
    have hsame : (applyTx C P t st tx).store = st.store := by
      rw [applyTx_store]
      split
      case isTrue hv => rw [after_execute, if_neg (h tx List.mem_cons_self hv)]
      case isFalse => rfl
    rw [List.foldl_cons, ih _ fun tx' hm => hsame ▸ h tx' (List.mem_cons_of_mem _ hm), hsame]

/-- **The replay leaves the store alone exactly if no verified transaction is fresh.** -/
theorem replayBlock_store_eq_iff : (replayBlock C P b s).store = s ↔
    ∀ tx ∈ b.transactions, verifyTxSignature C tx → ¬ tx.Fresh s := by
  constructor
  · intro heq tx hm hv
    have hstale := not_fresh_replay (P := P) (t := b.header.timestamp) { store := s } hm hv
    rwa [show (b.transactions.foldl (applyTx C P b.header.timestamp) { store := s }).store = s
      from heq] at hstale
  · exact replay_stale { store := s }

/-- The root check of `apply_block`: a zero root is not checked. -/
def RootAccepted (C : Crypto) (P : Params) (b : Block) (s : Store) : Prop :=
  b.header.stateRoot = emptyHash ∨
    computeStateRoot C (replayBlock C P b s).store = b.header.stateRoot

instance : Decidable (RootAccepted C P b s) := inferInstanceAs (Decidable (_ ∨ _))

theorem applyBlock_accepted (h : RootAccepted C P b s) : (applyBlock C P b).run s =
    .ok (replayBlock C P b s).allEvents ((replayBlock C P b s).store.putBlock b) := by
  have hroot : ¬ (b.header.stateRoot ≠ emptyHash ∧
      computeStateRoot C (replayBlock C P b s).store ≠ b.header.stateRoot) := by
    unfold RootAccepted at h
    tauto
  exact if_neg hroot

theorem applyBlock_refused (h : ¬ RootAccepted C P b s) :
    ∃ e, (applyBlock C P b).run s = .error e (replayBlock C P b s).store := by
  have hroot : b.header.stateRoot ≠ emptyHash ∧
      computeStateRoot C (replayBlock C P b s).store ≠ b.header.stateRoot := by
    unfold RootAccepted at h
    tauto
  exact ⟨_, if_pos hroot⟩

/-- A refused block leaves the replayed store. -/
theorem applyBlock_error {e : String} {s' : Store}
    (h : (applyBlock C P b).run s = .error e s') : s' = (replayBlock C P b s).store := by
  by_cases hr : RootAccepted C P b s
  · rw [applyBlock_accepted hr] at h
    cases h
  · obtain ⟨e', he⟩ := applyBlock_refused hr
    rw [he] at h
    cases h
    rfl

theorem getNonce_applyBlock (a : Id) :
    (after (applyBlock C P b) s).getNonce a = (replayBlock C P b s).store.getNonce a := by
  by_cases hr : RootAccepted C P b s
  · rw [after_ok (applyBlock_accepted hr)]
    rfl
  · obtain ⟨e, he⟩ := applyBlock_refused hr
    rw [after_error he]

/-- **Atomicity.** A refused block leaves the store as it was exactly if none of its
verified transactions has a nonce above the stored one. -/
theorem applyBlock_atomic_iff {e : String} {s' : Store}
    (h : (applyBlock C P b).run s = .error e s') :
    s' = s ↔ ∀ tx ∈ b.transactions, verifyTxSignature C tx → tx.nonce ≤ s.getNonce tx.sender := by
  rw [applyBlock_error h, replayBlock_store_eq_iff]
  simp only [Transaction.Fresh, UInt64.not_lt]

/-- A transaction that its sender has signed with the toy scheme. -/
def Transaction.toy (sender : Id) (nonce : UInt64) (payload : TxPayload) : Transaction :=
  { payload, sender, signature := Crypto.toy.sign (serialize payload) sender, timestamp := 0,
    nonce }

/-- A block of height 1 with a given state root. -/
def Block.toy (transactions : List Transaction) (stateRoot : Hash) : Block :=
  { header :=
      { height := 1, prevHash := emptyHash, timestamp := 0, txCount := 1, txHash := emptyHash,
        stateRoot, proposer := 1 },
    transactions, signatures := [] }

/-- Sender 1 registers. -/
def Transaction.toyRegister : Transaction :=
  Transaction.toy 1 1 (.registerParticipant 1 .seller "")

theorem applyBlock_toy_refused : ∃ e s',
    (applyBlock .toy .default (.toy [.toyRegister] 1)).run .empty = .error e s' := by
  have hroot : ¬ RootAccepted .toy .default (.toy [.toyRegister] 1) .empty := by decide +kernel
  obtain ⟨e, he⟩ := applyBlock_refused hroot
  exact ⟨e, _, he⟩

/-- A refused block with one fresh transaction. -/
theorem applyBlock_atomic_iff_toy : ∃ e s',
    (applyBlock .toy .default (.toy [.toyRegister] 1)).run .empty = .error e s' ∧
    (s' = Store.empty ↔ ∀ tx ∈ (Block.toy [.toyRegister] 1).transactions,
      verifyTxSignature .toy tx → tx.nonce ≤ Store.empty.getNonce tx.sender) := by
  obtain ⟨e, s', h⟩ := applyBlock_toy_refused
  exact ⟨e, s', h, applyBlock_atomic_iff h⟩

/-- Its nonce stays in the store. -/
theorem applyBlock_not_atomic : ¬ ∀ e s',
    (applyBlock .toy .default (.toy [.toyRegister] 1)).run .empty = .error e s' →
      s' = Store.empty := by
  intro hatomic
  obtain ⟨e, s', h⟩ := applyBlock_toy_refused
  have hnonce :
      (replayBlock .toy .default (.toy [.toyRegister] 1) .empty).store.getNonce 1 = 1 := by
    decide +kernel
  rw [← applyBlock_error h, hatomic e s' h] at hnonce
  exact absurd hnonce (by decide +kernel)

/-! ## A sequence of blocks -/

/-- A store, and the transactions that succeeded on the way to it. -/
structure Ledger where
  store : Store
  succeeded : List Transaction := []

/-- Apply a block; its transactions have run even if it is refused. -/
def Ledger.apply (C : Crypto) (P : Params) (l : Ledger) (b : Block) : Ledger :=
  { store := after (applyBlock C P b) l.store,
    succeeded := l.succeeded ++ (replayBlock C P b l.store).succeeded }

/-- What a copy of a signed transaction keeps. -/
def Transaction.signedPart (tx : Transaction) : Id × TxPayload × Signature :=
  (tx.sender, tx.payload, tx.signature)

/-- The nonces, as numbers, of the transactions of `a` in a list. -/
def noncesOf (a : Id) (txs : List Transaction) : List ℕ :=
  (txs.filter (·.sender = a)).map (·.nonce.toNat)

theorem noncesOf_append (a : Id) (txs txs' : List Transaction) :
    noncesOf a (txs ++ txs') = noncesOf a txs ++ noncesOf a txs' := by
  simp [noncesOf]

/-- The successes of one sender ascend in nonce, up to the stored one. -/
def AscendingFrom (a : Id) (lo : ℕ) (succeeded : List Transaction) (s : Store) : Prop :=
  Ascending lo (noncesOf a succeeded) (s.getNonce a).toNat

theorem ascendingFrom_applyTx {a : Id} {lo : ℕ} {st : Replay} (tx : Transaction)
    (h : AscendingFrom a lo st.succeeded st.store) (hlo : lo ≤ (st.store.getNonce a).toNat) :
    AscendingFrom a lo (applyTx C P t st tx).succeeded (applyTx C P t st tx).store := by
  have hmono := UInt64.le_iff_toNat_le.1 (getNonce_le_applyTx (C := C) (P := P) (t := t) a st tx)
  unfold AscendingFrom at h ⊢
  rw [applyTx_succeeded]
  split
  case isFalse => exact h.mono hmono
  -- The new success is above the stored nonce, which bounds all the earlier ones.
  case isTrue hok =>
    have hfresh := (isOk_execute.1 hok.2).1
    rw [noncesOf_append]
    by_cases ha : tx.sender = a
    · have hnew : (applyTx C P t st tx).store.getNonce a = tx.nonce := by
        rw [applyTx_store, if_pos hok.1, getNonce_execute, if_pos ⟨hfresh, ha⟩]
      have hlt : (st.store.getNonce a).toNat < tx.nonce.toNat :=
        ha ▸ UInt64.lt_iff_toNat_lt.1 hfresh
      have hone : noncesOf a [tx] = [tx.nonce.toNat] := by simp [noncesOf, ha]
      rw [hnew, hone]
      exact h.append (.singleton hlt) hlo hlt.le
    · have hnone : noncesOf a [tx] = [] := by simp [noncesOf, ha]
      rw [hnone, List.append_nil]
      exact h.mono hmono

theorem ascendingFrom_replay {a : Id} {lo : ℕ} (txs : List Transaction) {st : Replay}
    (h : AscendingFrom a lo st.succeeded st.store) (hlo : lo ≤ (st.store.getNonce a).toNat) :
    AscendingFrom a lo (txs.foldl (applyTx C P t) st).succeeded
      (txs.foldl (applyTx C P t) st).store := by
  induction txs generalizing st with
  | nil => exact h
  | cons tx txs ih =>
    have hmono := UInt64.le_iff_toNat_le.1
      (getNonce_le_applyTx (C := C) (P := P) (t := t) a st tx)
    exact ih (ascendingFrom_applyTx tx h hlo) (hlo.trans hmono)

theorem ascendingFrom_apply {a : Id} {lo : ℕ} {l : Ledger}
    (h : AscendingFrom a lo l.succeeded l.store) (hlo : lo ≤ (l.store.getNonce a).toNat) :
    AscendingFrom a lo (l.apply C P b).succeeded (l.apply C P b).store := by
  have hblock : AscendingFrom a (l.store.getNonce a).toNat
      (replayBlock C P b l.store).succeeded (replayBlock C P b l.store).store :=
    ascendingFrom_replay b.transactions (Ascending.nil _ _) le_rfl
  have hmono := UInt64.le_iff_toNat_le.1 (getNonce_le_replay (C := C) (P := P)
    (t := b.header.timestamp) a { store := l.store } b.transactions)
  unfold AscendingFrom at h hblock ⊢
  simp only [Ledger.apply, noncesOf_append, getNonce_applyBlock]
  exact h.append hblock hlo hmono

/-- **The successes of one sender ascend in nonce over a sequence of blocks.** -/
theorem ascendingFrom_run (a : Id) (s : Store) (blocks : List Block) :
    AscendingFrom a (s.getNonce a).toNat
      (Runs.run (Ledger.apply C P) { store := s } blocks).succeeded
      (Runs.run (Ledger.apply C P) { store := s } blocks).store := by
  -- The second part lets the successes of a block continue those before it.
  let I : Ledger → Prop := fun l => AscendingFrom a (s.getNonce a).toNat l.succeeded l.store ∧
    (s.getNonce a).toNat ≤ (l.store.getNonce a).toNat
  have hstep : ∀ l b, I l → True → I (l.apply C P b) := by
    rintro l b ⟨h, hlo⟩ -
    have hmono := UInt64.le_iff_toNat_le.1 (getNonce_le_replay (C := C) (P := P)
      (t := b.header.timestamp) a { store := l.store } b.transactions)
    refine ⟨ascendingFrom_apply h hlo, hlo.trans ?_⟩
    rwa [show (l.apply C P b).store.getNonce a = _ from getNonce_applyBlock a]
  have hinit : I { store := s } := ⟨Ascending.nil _ _, le_rfl⟩
  exact (Runs.inv_run hstep hinit (Runs.along_true _ _)).1

/-- Only transactions of the blocks succeed, and only verified ones. -/
theorem mem_succeeded_replay {tx : Transaction} (txs : List Transaction) {st : Replay}
    (h : tx ∈ (txs.foldl (applyTx C P t) st).succeeded) :
    tx ∈ st.succeeded ∨ tx ∈ txs ∧ verifyTxSignature C tx := by
  induction txs generalizing st with
  | nil => exact .inl h
  | cons tx' txs ih =>
    rcases ih h with h | ⟨hm, hv⟩
    · rw [applyTx_succeeded] at h
      split at h
      case isFalse => exact .inl h
      case isTrue hok =>
        rcases List.mem_append.1 h with h | h
        · exact .inl h
        · rw [List.mem_singleton.1 h]
          exact .inr ⟨List.mem_cons_self, hok.1⟩
    · exact .inr ⟨List.mem_cons_of_mem _ hm, hv⟩

theorem mem_succeeded_run {tx : Transaction} {blocks : List Block} {l : Ledger}
    (h : tx ∈ (Runs.run (Ledger.apply C P) l blocks).succeeded) :
    tx ∈ l.succeeded ∨ ∃ b ∈ blocks, tx ∈ b.transactions ∧ verifyTxSignature C tx := by
  induction blocks generalizing l with
  | nil => exact .inl h
  | cons b blocks ih =>
    rcases ih h with h | ⟨b', hb, htx⟩
    · rcases List.mem_append.1 h with h | h
      · exact .inl h
      · rcases mem_succeeded_replay b.transactions h with h | h
        · cases h
        · exact .inr ⟨b, List.mem_cons_self, h⟩
    · exact .inr ⟨b', List.mem_cons_of_mem _ hb, htx⟩

/-- **Replay protection binds the signature while nonces are not rewritten.** If every
verified transaction of the blocks has the nonce of an act of signing it, a signed payload
succeeds at most as often as it was signed. -/
theorem succeeded_le_signed (acts : List Transaction) (s : Store) (blocks : List Block)
    (hacts : ∀ b ∈ blocks, ∀ tx ∈ b.transactions, verifyTxSignature C tx →
      ∃ act ∈ acts, act.signedPart = tx.signedPart ∧ act.nonce = tx.nonce)
    (part : Id × TxPayload × Signature) :
    (Runs.run (Ledger.apply C P) { store := s } blocks).succeeded.countP (·.signedPart = part) ≤
      acts.countP (·.signedPart = part) := by
  set succeeded := (Runs.run (Ledger.apply C P) { store := s } blocks).succeeded with hsucc
  obtain ⟨a, payload, sig⟩ := part
  -- The executions of one signature are some of its sender's, so their nonces differ.
  have hsub : ((succeeded.filter (·.signedPart = (a, payload, sig))).map (·.nonce.toNat)).Sublist
      (noncesOf a succeeded) := by
    refine (List.monotone_filter_right _ ?_).map _
    intro tx htx
    simp only [Transaction.signedPart, decide_eq_true_eq, Prod.mk.injEq] at htx ⊢
    exact htx.1
  have hasc := (ascendingFrom_run (C := C) (P := P) a s blocks).sublist hsub
  -- Each has the nonce of an act, so there are no more of them than acts.
  have hmem : (succeeded.filter (·.signedPart = (a, payload, sig))).map (·.nonce.toNat) ⊆
      (acts.filter (·.signedPart = (a, payload, sig))).map (·.nonce.toNat) := by
    intro n hn
    obtain ⟨tx, htx, rfl⟩ := List.mem_map.1 hn
    obtain ⟨htx, hpart⟩ := List.mem_filter.1 htx
    obtain h | ⟨b, hb, hm, hv⟩ := mem_succeeded_run (hsucc ▸ htx)
    · cases h
    obtain ⟨act, hact, hsame, hnonce⟩ := hacts b hb tx hm hv
    refine List.mem_map.2 ⟨act, List.mem_filter.2 ⟨hact, ?_⟩, by rw [hnonce]⟩
    rwa [hsame]
  simpa only [List.countP_eq_length_filter, List.length_map] using hasc.length_le hmem

/-- A second block repeats the registration word for word: it succeeds once. -/
theorem succeeded_le_signed_toy :
    (Runs.run (Ledger.apply .toy .default) { store := .empty }
        [.toy [.toyRegister] emptyHash, .toy [.toyRegister] emptyHash]).succeeded.countP
          (·.signedPart = Transaction.toyRegister.signedPart) ≤
      [Transaction.toyRegister].countP (·.signedPart = Transaction.toyRegister.signedPart) :=
  succeeded_le_signed [.toyRegister] .empty
    [.toy [.toyRegister] emptyHash, .toy [.toyRegister] emptyHash] (by simp [Block.toy]) _

/-- Sender 1 reports a settlement. -/
def Transaction.toySettlement : Transaction :=
  Transaction.toy 1 2 (.recordSettlement 1
    { recordId := 9, grossAmount := 100, platformFee := 10, netAmount := 90, currency := 0,
      settledAt := 0 })

/-- A copy of the settlement with the next nonce is executed again: sender 1 signed twice,
and three transactions succeed. -/
theorem succeeded_le_signed_fails : ¬ ∀ (acts : List Transaction) (blocks : List Block),
    (∀ b ∈ blocks, ∀ tx ∈ b.transactions, verifyTxSignature .toy tx →
      ∃ act ∈ acts, act.signedPart = tx.signedPart) →
    ∀ part, (Runs.run (Ledger.apply .toy .default) { store := .empty }
        blocks).succeeded.countP (·.signedPart = part) ≤
      acts.countP (·.signedPart = part) := by
  intro h
  have hcount := h [.toyRegister, .toySettlement]
    [.toy [.toyRegister, .toySettlement] emptyHash,
      .toy [{ Transaction.toySettlement with nonce := 3 }] emptyHash]
    (by simp [Block.toy, Transaction.signedPart]) Transaction.toySettlement.signedPart
  revert hcount
  decide +kernel

end RoutineChain
