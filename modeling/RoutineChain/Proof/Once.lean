import RoutineChain.Proof.Replication

/-!
# A transaction takes effect once in the network

A nonce that has succeeded in a block is stale in the blocks above it, and the chains of two
nodes are the same up to the lower tip. So for a sender and a nonce there is one height, and one
transaction, for all nodes.

* `nonce_succeeded`: what succeeds in a block has its nonce between the stored ones before and
  after the block.
* `succeededAt_congr`: what succeeds at a height does not depend on the node.
* `succeeds_once`: for any two nodes at any two moments.
-/

namespace RoutineChain

open EStateM

variable {C : Crypto} {P : Params} {s s' : Store} {b : Block} {tx tx' : Transaction}

/-! ## One chain -/

/-- What succeeds in a block of one sender ascends in nonce. -/
theorem ascending_replayBlock (a : Id) (b : Block) (s : Store) :
    Ascending (s.getNonce a).toNat (noncesOf a (replayBlock C P b s).succeeded)
      ((replayBlock C P b s).store.getNonce a).toNat :=
  ascendingFrom_replay (t := b.header.timestamp) b.transactions (Ascending.nil _ _) le_rfl

theorem mem_noncesOf {txs : List Transaction} (h : tx ∈ txs) :
    tx.nonce.toNat ∈ noncesOf tx.sender txs :=
  List.mem_map.2 ⟨tx, List.mem_filter.2 ⟨h, decide_eq_true rfl⟩, rfl⟩

/-- The nonce was above the stored one, and now none is stored that is below it. -/
theorem nonce_succeeded (h : tx ∈ (replayBlock C P b s).succeeded) :
    (s.getNonce tx.sender).toNat < tx.nonce.toNat ∧
      tx.nonce.toNat ≤ ((replayBlock C P b s).store.getNonce tx.sender).toNat := by
  have hasc := ascending_replayBlock (C := C) (P := P) tx.sender b s
  exact ⟨hasc.above _ (mem_noncesOf h), hasc.below _ (mem_noncesOf h)⟩

/-- The nonces of one sender after the other tell the transactions apart. -/
theorem nodup_of_noncesOf {txs : List Transaction} (h : ∀ a, (noncesOf a txs).Nodup) :
    (txs.map fun tx => (tx.sender, tx.nonce)).Nodup := by
  induction txs with
  | nil => exact List.nodup_nil
  | cons tx txs ih =>
    rw [List.map_cons, List.nodup_cons]
    refine ⟨?_, ih ?_⟩
    · intro hm
      obtain ⟨tx', htx', heq⟩ := List.mem_map.1 hm
      obtain ⟨hsender, hnonce⟩ := Prod.mk.inj heq
      have hcons : noncesOf tx.sender (tx :: txs) = tx.nonce.toNat :: noncesOf tx.sender txs := by
        simp [noncesOf]
      have hnodup := h tx.sender
      rw [hcons, List.nodup_cons, ← hnonce, ← hsender] at hnodup
      exact hnodup.1 (mem_noncesOf htx')
    · intro a
      exact (h a).sublist (((List.sublist_cons_self tx txs).filter _).map _)

/-- **In one block a sender succeeds once with a nonce.** -/
theorem nodup_succeeded (b : Block) (s : Store) :
    ((replayBlock C P b s).succeeded.map fun tx => (tx.sender, tx.nonce)).Nodup :=
  nodup_of_noncesOf fun a => (ascending_replayBlock a b s).sorted.imp fun hlt => ne_of_lt hlt

theorem getNonce_le_replayChain (a : Id) (s : Store) (bs : List Block) :
    (s.getNonce a).toNat ≤ ((replayChain C P s bs).getNonce a).toNat := by
  induction bs generalizing s with
  | nil => exact le_rfl
  | cons b bs ih =>
    have hblock := UInt64.le_iff_toNat_le.1 (getNonce_le_replay (C := C) (P := P)
      (t := b.header.timestamp) a { store := s } b.transactions)
    exact hblock.trans (ih (replayBlock C P b s).store)

/-- The transactions that succeed in the block at index `m` of a chain, from the state of `s`. -/
def succeededAt (C : Crypto) (P : Params) (s : Store) (bs : List Block) (m : ℕ) :
    List Transaction :=
  match bs[m]? with
  | some b => (replayBlock C P b (replayChain C P s (bs.take m))).succeeded
  | none => []

theorem succeededAt_of_some {bs : List Block} {m : ℕ} (hb : bs[m]? = some b) :
    succeededAt C P s bs m = (replayBlock C P b (replayChain C P s (bs.take m))).succeeded := by
  unfold succeededAt
  rw [hb]

/-- Where something succeeds there is a block. -/
theorem exists_of_succeededAt {bs : List Block} {m : ℕ} (h : tx ∈ succeededAt C P s bs m) :
    ∃ b, bs[m]? = some b ∧
      tx ∈ (replayBlock C P b (replayChain C P s (bs.take m))).succeeded := by
  cases hb : bs[m]? with
  | none =>
    unfold succeededAt at h
    rw [hb] at h
    cases h
  | some b => exact ⟨b, rfl, succeededAt_of_some hb ▸ h⟩

/-- **Higher up in a chain a sender succeeds with higher nonces.** -/
theorem nonce_lt_of_succeededAt {bs : List Block} {m m' : ℕ} (hm : m < m')
    (h : tx ∈ succeededAt C P s bs m) (h' : tx' ∈ succeededAt C P s bs m')
    (hsender : tx.sender = tx'.sender) : tx.nonce.toNat < tx'.nonce.toNat := by
  obtain ⟨b, hb, hmem⟩ := exists_of_succeededAt h
  obtain ⟨b', -, hmem'⟩ := exists_of_succeededAt h'
  -- the state before the higher block is reached from that after the lower one
  have hsplit : bs.take m' = bs.take m ++ ([b] ++ (bs.take m').drop (m + 1)) := by
    have htake : (bs.take m').take (m + 1) = bs.take m ++ [b] := by
      rw [List.take_take, Nat.min_eq_left hm, List.take_add_one, hb, Option.toList_some]
    rw [← List.append_assoc, ← htake, List.take_append_drop]
  have hbelow := (nonce_succeeded hmem).2
  have habove := (nonce_succeeded hmem').1
  rw [hsplit, replayChain_append, replayChain_append, ← hsender] at habove
  exact (hbelow.trans (getNonce_le_replayChain _ _ _)).trans_lt habove

/-- **In one chain a sender succeeds once with a nonce.** -/
theorem succeededAt_unique {bs : List Block} {m m' : ℕ} (h : tx ∈ succeededAt C P s bs m)
    (h' : tx' ∈ succeededAt C P s bs m') (hsender : tx.sender = tx'.sender)
    (hnonce : tx.nonce = tx'.nonce) : m = m' ∧ tx = tx' := by
  have hn : tx.nonce.toNat = tx'.nonce.toNat := congrArg UInt64.toNat hnonce
  rcases lt_trichotomy m m' with hlt | rfl | hlt
  · have hne := nonce_lt_of_succeededAt hlt h h' hsender
    omega
  · obtain ⟨b, hb, hmem⟩ := exists_of_succeededAt h
    rw [succeededAt_of_some hb] at h'
    have hpair : (tx.sender, tx.nonce) = (tx'.sender, tx'.nonce) := by rw [hsender, hnonce]
    exact ⟨rfl, List.inj_on_of_nodup_map (nodup_succeeded b _) hmem h' hpair⟩
  · have hne := nonce_lt_of_succeededAt hlt h' h hsender.symm
    omega

theorem nodup_succeededAt (s : Store) (bs : List Block) (m : ℕ) :
    (succeededAt C P s bs m).Nodup := by
  unfold succeededAt
  split
  · exact (nodup_succeeded _ _).of_map
  · exact List.nodup_nil

/-! ## Two chains -/

theorem Store.SameState.isOk {t : Int64} (h : s.SameState s') :
    EStateM.isOk (RoutineChain.execute P tx t) s ↔
      EStateM.isOk (RoutineChain.execute P tx t) s' := by
  have hfresh : tx.Fresh s ↔ tx.Fresh s' := by
    unfold Transaction.Fresh
    rw [h.getNonce]
  rw [isOk_execute, isOk_execute, hfresh, h.1]

/-- What succeeds in a block depends on the state only. -/
theorem Store.SameState.succeeded (h : s.SameState s') (b : Block) :
    (RoutineChain.replayBlock C P b s).succeeded =
      (RoutineChain.replayBlock C P b s').succeeded := by
  have hstep : ∀ (st st' : Replay) tx,
      st.store.SameState st'.store ∧ st.succeeded = st'.succeeded →
      (applyTx C P b.header.timestamp st tx).store.SameState
        (applyTx C P b.header.timestamp st' tx).store ∧
      (applyTx C P b.header.timestamp st tx).succeeded =
        (applyTx C P b.header.timestamp st' tx).succeeded := by
    rintro st st' tx ⟨hstate, hsucc⟩
    refine ⟨?_, ?_⟩
    · rw [applyTx_store, applyTx_store]
      split
      · exact hstate.execute
      · exact hstate
    · rw [applyTx_succeeded, applyTx_succeeded, hsucc]
      simp only [hstate.isOk]
  have hinit : ({ store := s } : Replay).store.SameState ({ store := s' } : Replay).store ∧
      ({ store := s } : Replay).succeeded = ({ store := s' } : Replay).succeeded := ⟨h, rfl⟩
  exact (Runs.sim_run (R := fun st st' : Replay => st.store.SameState st'.store ∧
    st.succeeded = st'.succeeded) hstep hinit b.transactions).2

/-- **What succeeds at a height is the same in a longer chain**, whoever has signed it. -/
theorem succeededAt_congr {bs bs' : List Block} {m : ℕ} (hstart : s.SameState s')
    (hpre : (bs'.take bs.length).map Block.unsigned = bs.map Block.unsigned)
    (hm : m < bs.length) : succeededAt C P s bs m = succeededAt C P s' bs' m := by
  have hlow : (bs.take m).map Block.unsigned = (bs'.take m).map Block.unsigned := by
    rw [List.map_take, ← hpre, ← List.map_take, List.take_take, Nat.min_eq_left hm.le]
  have hget : (bs'[m]?).map Block.unsigned = (bs[m]?).map Block.unsigned := by
    rw [← List.getElem?_map, ← List.getElem?_map, ← hpre, List.getElem?_map, List.getElem?_map,
      List.getElem?_take_of_lt hm]
  have hb := List.getElem?_eq_getElem hm
  rw [hb, Option.map_some] at hget
  obtain ⟨b', hb', hsame⟩ := Option.map_eq_some_iff.1 hget
  have hstate : (replayChain C P s (bs.take m)).SameState (replayChain C P s' (bs'.take m)) := by
    rw [← replayChain_unsigned, hlow, replayChain_unsigned]
    exact hstart.replayChain _
  have hblock : ∀ b : Block, replayBlock C P b.unsigned = replayBlock C P b := fun _ => rfl
  rw [succeededAt_of_some hb, succeededAt_of_some hb', hstate.succeeded, ← hblock, ← hsame, hblock]

/-! ## The network -/

section Network

variable {k : ℕ} {cfg : Fin k → NodeConfig} {ids : Fin k → Id} {keys : Fin k → BitVec 256}
  {stores : Fin k → Store} {now : Fin k → StartClock} {g : Block}

/-- **A transaction takes effect once in the network.** Whatever succeeds in a block of one node
after `as`, and in a block of any node after `as'`, from one sender and with one nonce, is one
transaction at one height, and there it is executed once. -/
theorem succeeds_once {as as' as'' : List (Fin k × Micro)} {final : Net k}
    (h : Net.Setup C cfg ids keys stores now g)
    (hend : Runs.run (Net.micro C cfg) (.start cfg ids keys stores now) (as ++ as' ++ as'') = final)
    (hparams : ∀ i j, (cfg i).params = (cfg j).params)
    (hstart : ∀ i j, (stores i).SameState (stores j))
    (hrun : Runs.Along (Net.micro C cfg) (Net.Replicates C cfg ids keys final)
      (.start cfg ids keys stores now) (as ++ as' ++ as''))
    {i j : Fin k} {first second : Node}
    (hfirst : (Runs.run (Net.micro C cfg) (.start cfg ids keys stores now) as i).node = first)
    (hsecond : (Runs.run (Net.micro C cfg) (.start cfg ids keys stores now) (as ++ as') j).node =
      second)
    (hhash : ∀ b ∈ first.store.chain, ∀ b' ∈ second.store.chain,
      computeTxHash C b.transactions = computeTxHash C b'.transactions →
        b.transactions = b'.transactions)
    {m m' : ℕ} (htx : tx ∈ succeededAt C (cfg i).params (stores i) first.store.chain m)
    (htx' : tx' ∈ succeededAt C (cfg j).params (stores j) second.store.chain m')
    (hsender : tx.sender = tx'.sender) (hnonce : tx.nonce = tx'.nonce) :
    m = m' ∧ tx = tx' ∧
      (succeededAt C (cfg j).params (stores j) second.store.chain m').count tx' = 1 := by
  have hone := List.count_eq_one_of_mem (nodup_succeededAt _ _ _) htx'
  suffices hsame : m = m' ∧ tx = tx' from ⟨hsame.1, hsame.2, hone⟩
  subst hfirst hsecond
  have hlater := moment_run h hend hrun
  rw [List.append_assoc] at hend hrun
  have hnow := moment_run h hend hrun
  have hchain := (hnow.replicas i).state.chain
  have hchain' := (hlater.replicas j).state.chain
  have hblocks {height : UInt64} (h0 : height ≠ 0) {b b' : Block}
      (hb : (Runs.run (Net.micro C cfg) (.start cfg ids keys stores now) as i).node.store.getBlock
        height = some b)
      (hb' : (Runs.run (Net.micro C cfg) (.start cfg ids keys stores now)
        (as ++ as') j).node.store.getBlock height = some b') : b.unsigned = b'.unsigned :=
    replicas_blocks hnow.replicas hlater.replicas hnow.once hnow.voted hlater.voted hhash h0 hb hb'
  obtain ⟨b, hb, -⟩ := exists_of_succeededAt htx
  obtain ⟨b', hb', -⟩ := exists_of_succeededAt htx'
  rw [hparams j i] at htx'
  -- the lower chain is a part of the higher one, and there the nonces ascend
  rcases UInt64.le_total _ _ with hle | hle
  · have hpre := chain_prefix hchain hchain' hle fun height h0 b b' => hblocks h0
    rw [succeededAt_congr (hstart i j) hpre (List.getElem?_eq_some_iff.1 hb).1] at htx
    exact succeededAt_unique htx htx' hsender hnonce
  · have hpre := chain_prefix hchain' hchain hle fun height h0 b b' hb hb' =>
      (hblocks h0 hb' hb).symm
    rw [succeededAt_congr (hstart j i) hpre (List.getElem?_eq_some_iff.1 hb').1] at htx'
    exact succeededAt_unique htx htx' hsender hnonce

end Network

/-- The registration of a round is executed by two followers, at the same height. -/
theorem succeeds_once_toy : ∃ first second,
    (Runs.run (Net.micro .toy NodeConfig.toyFour) .toyFour (Net.toyProposes 1 0) 0).node =
      first ∧
    (Runs.run (Net.micro .toy NodeConfig.toyFour) .toyFour
      (Net.toyProposes 1 0 ++ Net.toyFollows 2) 2).node = second ∧
    Transaction.toyRegister ∈ succeededAt .toy .default .toyGenesis first.store.chain 0 ∧
    0 = 0 ∧ Transaction.toyRegister = .toyRegister ∧
    (succeededAt .toy .default .toyGenesis second.store.chain 0).count .toyRegister = 1 := by
  obtain ⟨first, hfirst⟩ : ∃ n, (Runs.run (Net.micro .toy NodeConfig.toyFour) .toyFour
      (Net.toyProposes 1 0) 0).node = n := ⟨_, rfl⟩
  obtain ⟨second, hsecond⟩ : ∃ n, (Runs.run (Net.micro .toy NodeConfig.toyFour) .toyFour
      (Net.toyProposes 1 0 ++ Net.toyFollows 2) 2).node = n := ⟨_, rfl⟩
  have hhash : ∀ b ∈ first.store.chain, ∀ b' ∈ second.store.chain,
      computeTxHash .toy b.transactions = computeTxHash .toy b'.transactions →
        b.transactions = b'.transactions := by
    rw [← hfirst, ← hsecond]
    exact hashes_toyFour
  have hexecuted : Transaction.toyRegister ∈
        succeededAt .toy .default .toyGenesis first.store.chain 0 ∧
      Transaction.toyRegister ∈ succeededAt .toy .default .toyGenesis second.store.chain 0 := by
    rw [← hfirst, ← hsecond]
    decide +kernel
  exact ⟨first, second, hfirst, hsecond, hexecuted.1,
    succeeds_once Net.setup_toyFour rfl NodeConfig.params_toyFour (fun _ _ => ⟨rfl, rfl⟩)
      (replicates_toyFour rfl) hfirst hsecond hhash hexecuted.1 hexecuted.2 rfl rfl⟩

end RoutineChain
