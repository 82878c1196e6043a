import RoutineChain.Proof.Iteration

/-!
# Rounds that commit

Whatever a run must not do to stay safe, the network can still do its work: with matching
configurations, keys that sign for their ids and a quorum that is there, every batch of valid
transactions becomes a block on every node.

* `Net.Ready`: all nodes have the same tip, the same state and nothing left to do.
* `round_commits`: three turns, of the leader, of its followers and of the leader again, lead
  from one ready network to the next.
* `batches_commit`: so any number of batches does.
-/

namespace RoutineChain

open Bincode

variable {C : Crypto} {P : Params} {k : ℕ} {cfg : Fin k → NodeConfig} {ids : Fin k → Id}
  {keys : Fin k → BitVec 256} {net : Net k}

/-- Everybody knows everybody, keys sign for their ids, a quorum is more than one node and no
more than all of them, and a timeout is not negative. -/
structure Net.Cooperates (C : Crypto) (cfg : Fin k → NodeConfig) (ids : Fin k → Id)
    (keys : Fin k → BitVec 256) : Prop where
  known : Net.Matching cfg ids
  distinct : Function.Injective ids
  signs : ∀ i data, C.verify data (C.sign data (keys i)) (ids i)
  several : ∀ i, 2 ≤ (cfg i).minSignatures
  enough : ∀ i, (cfg i).minSignatures ≤ k
  patient : ∀ i, 0 ≤ (cfg i).viewChangeTimeoutMs.toInt64

/-- The node is the configured one, in round 0, and nothing waits in it. -/
structure Node.Ready (cfg : NodeConfig) (id : Id) (key : BitVec 256) (n : Node) : Prop extends
    n.Idle where
  nodeId : n.cons.nodeId = id
  privateKey : n.cons.privateKey = key
  minSignatures : n.cons.minSignatures = cfg.minSignatures
  peers : n.cons.peers = cfg.peers
  round : n.cons.round = 0

/-- All nodes are ready, with the same tip and the same state. -/
structure Net.Ready (C : Crypto) (cfg : Fin k → NodeConfig) (ids : Fin k → Id)
    (keys : Fin k → BitVec 256) (net : Net k) : Prop where
  node : ∀ i, (net i).node.Ready (cfg i) (ids i) (keys i)
  chain : ∀ i, ChainOK C (net i).node.store
  height : ∀ i j, (net i).node.store.getLatestHeight = (net j).node.store.getLatestHeight
  tip : ∀ i j b b',
    (net i).node.store.getBlock (net i).node.store.getLatestHeight = some b →
    (net j).node.store.getBlock (net j).node.store.getLatestHeight = some b' →
    b.header = b'.header
  state : ∀ i j, (net i).node.store.SameState (net j).node.store

/-! ## The nodes know each other -/

section Known

variable {i j : Fin k} {c : Consensus} {b : Block}

/-- Every node has the key of every node. -/
theorem Net.Cooperates.signerKey (h : Net.Cooperates C cfg ids keys) (hid : c.nodeId = ids i)
    (hpeers : c.peers = (cfg i).peers) (j : Fin k) : c.signerKey (ids j) = some (ids j) := by
  have hmem : ids j ∈ c.allNodeIds := by
    rw [h.known.allNodeIds hid hpeers]
    exact (List.perm_insertionSort _ _).mem_iff.2 (List.mem_map_of_mem (List.mem_finRange j))
  obtain ⟨key, hkey⟩ := Option.isSome_iff_exists.1 (Consensus.signerKey_isSome.2 hmem)
  rw [hkey]
  unfold Consensus.signerKey at hkey
  split at hkey
  case isTrue hown => rw [← Option.some_inj.1 hkey, hown]
  case isFalse => rw [(h.known.peerKey hpeers hkey).2]

/-- What a node signs verifies on every node. -/
theorem Net.Cooperates.verifies (h : Net.Cooperates C cfg ids keys) (hid : c.nodeId = ids i)
    (hpeers : c.peers = (cfg i).peers) (b : Block) (j : Fin k) :
    c.verifyBlockSignature C b ⟨ids j, C.sign (serialize b.header) (keys j)⟩ := by
  unfold Consensus.verifyBlockSignature
  rw [h.signerKey hid hpeers j]
  exact h.signs j _

/-- One of the nodes leads, and everybody agrees on it. -/
theorem Net.Ready.leader (hc : Net.Cooperates C cfg ids keys) (h : net.Ready C cfg ids keys)
    (hk : 0 < k) (height : UInt64) :
    ∃ L, ∀ i, (net i).node.cons.leaderForHeight height = ids L := by
  have i₀ : Fin k := ⟨0, hk⟩
  have hmem := (net i₀).node.cons.leader_mem height 0
  rw [hc.known.allNodeIds (h.node i₀).nodeId (h.node i₀).peers,
    (List.perm_insertionSort _ _).mem_iff] at hmem
  obtain ⟨L, -, hL⟩ := List.mem_map.1 hmem
  refine ⟨L, ?_⟩
  intro i
  rw [Consensus.leaderForHeight, (h.node i).round, hL]
  exact hc.known.leader (h.node i).nodeId (h.node i).peers (h.node i₀).nodeId (h.node i₀).peers _ _

/-- The own signature alone is not enough. -/
theorem not_final_own {n : Node} {prev : Block} {t : Int64} (h : 2 ≤ n.cons.minSignatures) :
    ¬ n.cons.isFinalized C (n.block C P prev t) := by
  have hsub : n.cons.countedSigners C (n.block C P prev t) ⊆ {n.cons.nodeId} := by
    intro id hid
    obtain ⟨sig, hmem, heq, -⟩ := Consensus.mem_countedSigners.1 hid
    rw [List.mem_singleton.1 hmem] at heq
    exact Finset.mem_singleton.2 heq.symm
  have hcard := Finset.card_le_card hsub
  rw [Finset.card_singleton] at hcard
  rw [Consensus.isFinalized_iff]
  omega

/-- The signatures of a quorum of nodes are. -/
theorem Net.Cooperates.final (h : Net.Cooperates C cfg ids keys) (hid : c.nodeId = ids i)
    (hpeers : c.peers = (cfg i).peers) {signers : Finset (Fin k)}
    (henough : c.minSignatures ≤ signers.card)
    (hall : ∀ j ∈ signers, ⟨ids j, C.sign (serialize b.header) (keys j)⟩ ∈ b.signatures) :
    c.isFinalized C b := by
  have hsub : signers.image ids ⊆ c.validSigners C b := by
    intro id hmem
    obtain ⟨j, hj, rfl⟩ := Finset.mem_image.1 hmem
    exact Consensus.mem_validSigners.2 ⟨_, hall j hj, rfl, h.verifies hid hpeers b j⟩
  have hcard := Finset.card_le_card hsub
  rw [Finset.card_image_of_injective _ h.distinct] at hcard
  exact (final_of_validSigners (henough.trans hcard)).1

end Known

/-! ## Turns of several nodes -/

/-- What can be delivered now can be delivered in a run that drains nothing else. -/
theorem drains_of_deliverable {as : List (Fin k × Input)}
    (h : ∀ a ∈ as, ∀ msg ∈ a.2.msgs, net.Deliverable msg) :
    Runs.Along (Net.step C cfg) Net.Drains net as := by
  induction as generalizing net with
  | nil => trivial
  | cons a as ih =>
    refine ⟨h a List.mem_cons_self, ih ?_⟩
    exact fun a' ha' msg hmsg => (h a' (List.mem_cons_of_mem _ ha') msg hmsg).step a

/-- One iteration of each of several nodes. -/
theorem Net.run_each (inp : Fin k → Input) {js : List (Fin k)} (hnodup : js.Nodup) :
    Runs.run (Net.step C cfg) net (js.map fun j => (j, inp j)) =
      fun j => if j ∈ js then (net j).iterate C (cfg j) (inp j) else net j := by
  induction js generalizing net with
  | nil => simp
  | cons i js ih =>
    obtain ⟨hi, hnodup⟩ := List.nodup_cons.1 hnodup
    rw [List.map_cons, Runs.run_cons, ih hnodup]
    funext j
    by_cases hji : j = i
    · subst hji
      simp [hi, Net.step]
    · simp [hji, Net.step]

/-! ## One round -/

/-- A batch of signed transactions that all succeed, one after the other. -/
structure BatchOK (C : Crypto) (P : Params) (s : Store) (batch : List Transaction × Int64) :
    Prop where
  nonempty : batch.1 ≠ []
  signed : ∀ tx ∈ batch.1, verifyTxSignature C tx
  valid : validOf P batch.2 s batch.1 = batch.1

/-- A clock that stands still since the last block, but for the time of the next one. -/
def Clock.calm (n : Node) (t : Int64) : Clock :=
  { finalized := n.lastBlockTimeMs, age := t, elapsed := n.lastBlockTimeMs, viewChanged := t,
    block := t, produced := t }

section Round

variable {txs : List Transaction} {t : Int64} {L : Fin k} {prev : Block}

theorem Net.Cooperates.calm (hc : Net.Cooperates C cfg ids keys) {n n' : Node} (i : Fin k)
    (h : n'.lastBlockTimeMs = n.lastBlockTimeMs) : n'.Calm (cfg i) (.calm n t) := by
  unfold Node.Calm Clock.calm
  have hpatient := hc.patient i
  rw [h]
  simp only [Int64.sub_self]
  exact Int64.not_lt.2 hpatient

/-- The block that the leader builds from its batch. -/
def Node.batchBlock (C : Crypto) (P : Params) (n : Node) (txs : List Transaction) (prev : Block)
    (t : Int64) : Block :=
  (n.pooled txs).block C P prev t

theorem Node.batchBlock_transactions {n : Node}
    (h : validOf P t n.store txs = txs) : (n.batchBlock C P txs prev t).transactions = txs := by
  have htxs : (n.batchBlock C P txs prev t).transactions =
      (leaderExecute P t txs n.store).validTxs := rfl
  rw [htxs, leaderExecute_validTxs, h]

/-- What a follower's replay of the block makes of its store. -/
theorem replay_batchBlock {n : Node} {s : Store} (hb : BatchOK C P n.store (txs, t)) :
    (replayBlock C P (n.batchBlock C P txs prev t) s).store = runAll P t s txs := by
  unfold replayBlock
  rw [Node.batchBlock_transactions hb.valid]
  exact replay_verified { store := s } hb.signed

theorem rootAccepted_batchBlock {n : Node} {s : Store} (hs : s.SameState n.store)
    (hb : BatchOK C P n.store (txs, t)) : RootAccepted C P (n.batchBlock C P txs prev t) s := by
  right
  rw [(hs.replayBlock (C := C) (P := P) (n.batchBlock C P txs prev t)).root, replay_batchBlock hb,
    ← leaderExecute_store]
  rfl

/-- The followers vote for the block of the node that leads in their round. -/
theorem Net.Ready.votable (hc : Net.Cooperates C cfg ids keys) (h : net.Ready C cfg ids keys)
    (h0 : (net L).node.store.getLatestHeight + 1 ≠ 0)
    (hprev : (net L).node.store.getBlock (net L).node.store.getLatestHeight = some prev)
    {j : Fin k} {round : UInt32} (votes : UInt64 → UInt32 → Finset Id)
    (hL : (net j).node.cons.leaderForHeightRound ((net L).node.store.getLatestHeight + 1) round =
      ids L) :
    Votable C ((net j).node.turned round votes) ((net L).node.batchBlock C P txs prev t) := by
  have hheight := h.height j L
  obtain ⟨prev', hprev'⟩ := Option.isSome_iff_exists.1
    (((h.chain j).dense (net j).node.store.getLatestHeight).2 (UInt64.le_refl _))
  have hid : (net L).node.cons.nodeId = ids L := (h.node L).nodeId
  have hprivate : (net L).node.cons.privateKey = keys L := (h.node L).privateKey
  have hfree : (net j).node.store.getBlock ((net L).node.store.getLatestHeight + 1) = none := by
    refine (h.chain j).not_stored_next (hheight ▸ h0) _ ?_
    rw [hheight]
    exact UInt64.le_refl _
  have hbefore : (net j).node.store.getBlock ((net L).node.store.getLatestHeight + 1 - 1) =
      some prev' := by
    rw [UInt64.add_sub_cancel, ← hheight, hprev']
  have hhash : blockHeaderHash C prev.header = blockHeaderHash C prev'.header := by
    rw [h.tip L j prev prev' hprev hprev']
  have hlead : ((net j).node.turned round votes).cons.leaderForHeight
      ((net L).node.store.getLatestHeight + 1) = (net L).node.cons.nodeId := hL.trans hid.symm
  have hkey : ∀ key, (net j).node.cons.getPeerKey (net L).node.cons.nodeId = some key →
      ∀ data, C.verify data (C.sign data (net L).node.cons.privateKey) key := by
    intro key hpeer data
    rw [hid] at hpeer
    obtain ⟨-, rfl⟩ := hc.known.peerKey (h.node j).peers hpeer
    rw [hprivate]
    exact hc.signs L data
  exact votable_block h0 hfree hbefore hhash hlead hkey

/-- The nodes other than one. -/
def others (L : Fin k) : List (Fin k) := (List.finRange k).erase L

theorem nodup_others : (others L).Nodup := (List.nodup_finRange k).erase L

theorem mem_others {j : Fin k} : j ∈ others L ↔ j ≠ L := by
  unfold others
  rw [(List.nodup_finRange k).mem_erase_iff]
  simp

/-- The signatures of some nodes on a block. -/
def signaturesOf (C : Crypto) (ids : Fin k → Id) (keys : Fin k → BitVec 256) (js : List (Fin k))
    (b : Block) : List NodeSignature :=
  js.map fun j => ⟨ids j, C.sign (serialize b.header) (keys j)⟩

/-- The network after a round: the leader has stored its block with all signatures, the others
as it was proposed. -/
structure Net.Committed (C : Crypto) (cfg : Fin k → NodeConfig) (ids : Fin k → Id)
    (keys : Fin k → BitVec 256) (net : Net k) (L : Fin k) (txs : List Transaction) (t : Int64)
    (b : Block) (net' : Net k) : Prop where
  leader : (net' L).node = (net L).node.committed (runAll (cfg L).params t (net L).node.store txs)
    (b.cosigned (signaturesOf C ids keys (others L) b)) (net L).node.lastBlockTimeMs
  follower : ∀ j, j ≠ L → (net' j).node = (net j).node.followed C (cfg j).params b

/-! ### Three turns -/

theorem Net.Cooperates.peers_ne_nil (hc : Net.Cooperates C cfg ids keys) (i : Fin k) :
    (cfg i).peers ≠ [] := by
  intro hnil
  have hk := (hc.several i).trans (hc.enough i)
  have hlen := (hc.known.peers i).length_eq
  rw [hnil, List.length_map, List.length_map, List.length_erase_of_mem (List.mem_finRange i),
    List.length_finRange, List.length_nil] at hlen
  omega

/-- The leader proposes the batch that it has been sent. -/
theorem turn_lead (hc : Net.Cooperates C cfg ids keys) (h : net.Ready C cfg ids keys)
    (hL : (net L).node.cons.leaderForHeight ((net L).node.store.getLatestHeight + 1) = ids L)
    (hprev : (net L).node.store.getBlock (net L).node.store.getLatestHeight = some prev)
    (hb : BatchOK C (cfg L).params (net L).node.store (txs, t)) :
    ∃ es, (net L).iterate C (cfg L) ⟨[], txs.map .submitTx, .calm (net L).node t⟩ =
        { node := (net L).node.awaiting (runAll (cfg L).params t (net L).node.store txs)
            ((net L).node.batchBlock C (cfg L).params txs prev t)
          log := (net L).log ++ es } ∧
      .broadcast (.propose ((net L).node.batchBlock C (cfg L).params txs prev t)) ∈ es := by
  have hL' := h.node L
  refine iterate_lead (hc.peers_ne_nil L) hL'.toIdle (hc.calm L rfl) ?_ ?_ ?_ hb.nonempty
    hb.valid ?_
  · rw [Consensus.peerCount, hL'.peers]
    exact List.length_pos_iff.2 (hc.peers_ne_nil L)
  · unfold Consensus.isLeader
    rw [hL, hL'.nodeId]
    exact beq_self_eq_true _
  · rwa [UInt64.add_sub_cancel]
  · exact not_final_own (n := (net L).node.pooled txs) (hL'.minSignatures.symm ▸ hc.several L)

/-- A follower signs the block and stores it. -/
theorem turn_follow (hc : Net.Cooperates C cfg ids keys) (h : net.Ready C cfg ids keys)
    (h0 : (net L).node.store.getLatestHeight + 1 ≠ 0)
    (hL : ∀ i, (net i).node.cons.leaderForHeight ((net L).node.store.getLatestHeight + 1) = ids L)
    (hprev : (net L).node.store.getBlock (net L).node.store.getLatestHeight = some prev)
    (hb : BatchOK C (cfg L).params (net L).node.store (txs, t)) (j : Fin k) :
    (net j).iterate C (cfg j)
        ⟨[], [.propose ((net L).node.batchBlock C (cfg L).params txs prev t)],
          .calm (net j).node t⟩ =
      { node := (net j).node.followed C (cfg j).params
          ((net L).node.batchBlock C (cfg L).params txs prev t)
        log := (net j).log ++ (net j).node.followEffects C (cfg j).params
          ((net L).node.batchBlock C (cfg L).params txs prev t) } := by
  refine iterate_follow (hc.peers_ne_nil j) (h.node j).toIdle (hc.calm j rfl)
    (h.votable hc h0 hprev _ (hL j)) ?_
  rw [hc.known.params j L]
  exact rootAccepted_batchBlock (h.state j L) hb

/-- The leader has heard all followers, and stores the block. -/
theorem turn_commit (hc : Net.Cooperates C cfg ids keys) (h : net.Ready C cfg ids keys)
    {b : Block} (hown : (net L).node.cons.signHeader C b.header ∈ b.signatures)
    (log : List Effect) (s : Store) (t : Int64) :
    Process.iterate C (cfg L) { node := (net L).node.awaiting s b, log }
        ⟨[], (signaturesOf C ids keys (others L) b).map (.sign b.header.height),
          .calm (net L).node t⟩ =
      { node := (net L).node.committed s (b.cosigned (signaturesOf C ids keys (others L) b))
          (net L).node.lastBlockTimeMs
        log := log ++ [.stored (net L).node.cons
          (b.cosigned (signaturesOf C ids keys (others L) b))] } := by
  have hL := h.node L
  refine iterate_commit (hc.peers_ne_nil L) hL.toIdle (hc.calm L rfl) ?_ ?_
  · intro sig hsig
    obtain ⟨j, -, rfl⟩ := List.mem_map.1 hsig
    exact hc.verifies hL.nodeId hL.peers _ j
  · have henough : (net L).node.cons.minSignatures ≤ (Finset.univ : Finset (Fin k)).card := by
      rw [Finset.card_univ, Fintype.card_fin, hL.minSignatures]
      exact hc.enough L
    refine hc.final hL.nodeId hL.peers henough ?_
    intro j _
    refine List.mem_append.2 ?_
    by_cases hj : j = L
    -- the own signature is on the block from the start
    · left
      rw [Consensus.signHeader, hL.nodeId, hL.privateKey] at hown
      rwa [hj]
    · right
      exact List.mem_map.2 ⟨j, mem_others.2 hj, rfl⟩

/-- **A round**: the leader gets the batch, the followers get its block, and it gets their
signatures. -/
theorem round_run (hc : Net.Cooperates C cfg ids keys) (h : net.Ready C cfg ids keys)
    (h0 : (net L).node.store.getLatestHeight + 1 ≠ 0)
    (hL : ∀ i, (net i).node.cons.leaderForHeight ((net L).node.store.getLatestHeight + 1) = ids L)
    (hprev : (net L).node.store.getBlock (net L).node.store.getLatestHeight = some prev)
    (hb : BatchOK C (cfg L).params (net L).node.store (txs, t)) :
    ∃ as, Runs.Along (Net.step C cfg) Net.Drains net as ∧
      net.Committed C cfg ids keys L txs t
        ((net L).node.batchBlock C (cfg L).params txs prev t)
        (Runs.run (Net.step C cfg) net as) := by
  obtain ⟨es, hlead, hproposed⟩ := turn_lead hc h (hL L) hprev hb
  have hfollow := fun j => turn_follow hc h h0 hL hprev hb j
  have hown : (net L).node.cons.signHeader C
      ((net L).node.batchBlock C (cfg L).params txs prev t).header ∈
        ((net L).node.batchBlock C (cfg L).params txs prev t).signatures :=
    List.mem_singleton_self _
  have hcommit := turn_commit hc h hown ((net L).log ++ es)
    (runAll (cfg L).params t (net L).node.store txs) t
  generalize (net L).node.batchBlock C (cfg L).params txs prev t = b at *
  -- First turn: the block is sent.
  let first : Fin k × Input := (L, ⟨[], txs.map .submitTx, .calm (net L).node t⟩)
  have hfirst : net.Drains first := by
    intro msg hmsg
    obtain ⟨tx, -, rfl⟩ := List.mem_map.1 hmsg
    trivial
  let net₁ := net.step C cfg first
  have hfirstL : net₁ L = _ := (Function.update_self ..).trans hlead
  have hfirst_ne : ∀ j, j ≠ L → net₁ j = net j := fun j hj => Function.update_of_ne hj ..
  -- Second turn: it has reached the followers, one after the other.
  let second : List (Fin k × Input) :=
    (others L).map fun j => (j, ⟨[], [.propose b], .calm (net j).node t⟩)
  have hsecond : Runs.Along (Net.step C cfg) Net.Drains net₁ second := by
    refine drains_of_deliverable ?_
    intro a ha msg hmsg
    obtain ⟨j, -, rfl⟩ := List.mem_map.1 ha
    rw [List.mem_singleton.1 hmsg]
    refine ⟨L, mem_sentMessages.2 ⟨.broadcast (.propose b), ?_, rfl⟩⟩
    rw [hfirstL]
    exact List.mem_append_right _ hproposed
  let net₂ := Runs.run (Net.step C cfg) net₁ second
  have hnet₂ : ∀ j, net₂ j = if j ∈ others L then
      (net₁ j).iterate C (cfg j) ⟨[], [.propose b], .calm (net j).node t⟩ else net₁ j := by
    intro j
    exact congrFun (Net.run_each (fun j => ⟨[], [.propose b], .calm (net j).node t⟩)
      nodup_others) j
  have hnet₂_L : net₂ L = net₁ L := by
    rw [hnet₂, if_neg fun hmem => mem_others.1 hmem rfl]
  have hnet₂_ne : ∀ j, j ≠ L → net₂ j =
      { node := (net j).node.followed C (cfg j).params b
        log := (net j).log ++ (net j).node.followEffects C (cfg j).params b } := by
    intro j hj
    rw [hnet₂, if_pos (mem_others.2 hj), hfirst_ne j hj]
    exact hfollow j
  -- Third turn: the leader has got all signatures.
  let third : Fin k × Input :=
    (L, ⟨[], (signaturesOf C ids keys (others L) b).map (.sign b.header.height),
      .calm (net L).node t⟩)
  have hthird : net₂.Drains third := by
    intro msg hmsg
    obtain ⟨sig, hsig, rfl⟩ := List.mem_map.1 hmsg
    obtain ⟨j, hj, rfl⟩ := List.mem_map.1 hsig
    refine ⟨j, mem_sentMessages.2 ⟨.broadcast (.sign b.header.height _), ?_, rfl⟩⟩
    rw [hnet₂_ne j (mem_others.1 hj), ← (h.node j).nodeId, ← (h.node j).privateKey]
    refine List.mem_append_right _ ?_
    simp [Node.followEffects, Consensus.signHeader]
  refine ⟨first :: second ++ [third], ?_, ?_⟩
  · exact ⟨hfirst, Runs.along_append.2 ⟨hsecond, hthird, trivial⟩⟩
  · have hend : Runs.run (Net.step C cfg) net (first :: second ++ [third]) =
        net₂.step C cfg third := Runs.run_append _ _ second [third]
    rw [hend]
    refine ⟨?_, ?_⟩
    · have hL' : net₂.step C cfg third L = (net₂ L).iterate C (cfg L) third.2 :=
        Function.update_self ..
      rw [hL', hnet₂_L, hfirstL]
      exact congrArg Process.node hcommit
    · intro j hj
      have hj' : net₂.step C cfg third j = net₂ j := Function.update_of_ne hj ..
      rw [hj', hnet₂_ne j hj]

/-- The store has run the transactions and holds a block of them with the header `H`. -/
def Store.Gains (P : Params) (t : Int64) (txs : List Transaction) (H : BlockHeader)
    (s s' : Store) : Prop :=
  ∃ b, b.header = H ∧ b.transactions = txs ∧ s' = (runAll P t s txs).putBlock b

/-- All nodes gain the block. -/
theorem Net.Committed.gains {net' : Net k} (hc : Net.Cooperates C cfg ids keys)
    (hb : BatchOK C (cfg L).params (net L).node.store (txs, t))
    (h : net.Committed C cfg ids keys L txs t
      ((net L).node.batchBlock C (cfg L).params txs prev t) net') (i : Fin k) :
    (net i).node.store.Gains (cfg L).params t txs
      ((net L).node.batchBlock C (cfg L).params txs prev t).header (net' i).node.store := by
  have htxs : ((net L).node.batchBlock C (cfg L).params txs prev t).transactions = txs :=
    Node.batchBlock_transactions hb.valid
  by_cases hi : i = L
  · subst hi
    rw [h.leader]
    exact ⟨((net i).node.batchBlock C (cfg i).params txs prev t).cosigned
      (signaturesOf C ids keys (others i) ((net i).node.batchBlock C (cfg i).params txs prev t)),
      rfl, htxs, rfl⟩
  · rw [h.follower i hi]
    refine ⟨_, rfl, htxs, ?_⟩
    rw [Node.followed, hc.known.params i L, replay_batchBlock hb]

end Round

section Gains

variable {s s' : Store} {t : Int64} {txs : List Transaction} {H : BlockHeader}

theorem Store.Gains.sameState (h : s.Gains P t txs H s') :
    s'.SameState (runAll P t s txs) := by
  obtain ⟨b, -, -, rfl⟩ := h
  exact ⟨rfl, rfl⟩

theorem Store.Gains.getLatestHeight (h : s.Gains P t txs H s') : s'.getLatestHeight = H.height := by
  obtain ⟨b, rfl, -, rfl⟩ := h
  rfl

theorem Store.Gains.tip (h : s.Gains P t txs H s') {b : Block}
    (hb : s'.getBlock s'.getLatestHeight = some b) : b.header = H := by
  rw [h.getLatestHeight] at hb
  obtain ⟨b', rfl, -, rfl⟩ := h
  rw [Store.getBlock_putBlock_self, Option.some_inj] at hb
  rw [hb]

/-- The chain gains the block. -/
theorem Store.Gains.chain (h : s.Gains P t txs H s') (h0 : s.getLatestHeight + 1 ≠ 0)
    (hH : H.height = s.getLatestHeight + 1) :
    s'.chain.map (·.transactions) = s.chain.map (·.transactions) ++ [txs] := by
  obtain ⟨b, rfl, rfl, rfl⟩ := h
  have hsame : s.SameChain (runAll P t s b.transactions) := sameChain_runAll _ s
  have hchain := Store.chain_putBlock (hsame.getLatestHeight ▸ h0) (hsame.getLatestHeight ▸ hH)
  rw [hchain, ← hsame.chain, List.map_append, List.map_cons, List.map_nil]

theorem Store.Gains.chainOK {b : Block} (h : s.Gains P t txs b.header s') (hs : ChainOK C s)
    (h0 : s.getLatestHeight + 1 ≠ 0) (hH : b.header.height = s.getLatestHeight + 1)
    (hl : Linked C s b) : ChainOK C s' := by
  obtain ⟨b', hb', rfl, rfl⟩ := h
  have hl' : Linked C s b' := by
    unfold Linked at hl ⊢
    rwa [hb']
  refine (ChainOK.store hs (sameChain_runAll _ s) hl' ?_).1
  intro height b'' hle hb''
  rw [hb', hH] at hle
  rw [hs.not_stored_next h0 height hle] at hb''
  cases hb''

theorem sameState_runAll (h : s.SameState s') (txs : List Transaction) :
    (runAll P t s txs).SameState (runAll P t s' txs) := by
  unfold runAll
  refine Runs.sim_run (R := Store.SameState) ?_ h txs
  intro s s' tx hs
  exact hs.execute

theorem validOf_congr (h : s.SameState s') (txs : List Transaction) :
    validOf P t s txs = validOf P t s' txs := by
  induction txs generalizing s s' with
  | nil => rfl
  | cons tx txs ih =>
    have hok : EStateM.isOk (execute P tx t) s = EStateM.isOk (execute P tx t) s' := by
      rw [Bool.eq_iff_iff, isOk_execute, isOk_execute, Transaction.Fresh, Transaction.Fresh,
        h.getNonce, h.1]
    unfold validOf
    rw [hok, ih h.execute]

theorem BatchOK.congr {batch : List Transaction × Int64} (hb : BatchOK C P s batch)
    (h : s.SameState s') : BatchOK C P s' batch :=
  ⟨hb.nonempty, hb.signed, (validOf_congr h batch.1).symm.trans hb.valid⟩

end Gains

/-- **A round leads from one ready network to the next.** -/
theorem round_commits {txs : List Transaction} {t : Int64} (hc : Net.Cooperates C cfg ids keys)
    (h : net.Ready C cfg ids keys) (i : Fin k)
    (h0 : (net i).node.store.getLatestHeight + 1 ≠ 0)
    (hb : BatchOK C (cfg i).params (net i).node.store (txs, t)) :
    ∃ as, Runs.Along (Net.step C cfg) Net.Drains net as ∧
      (Runs.run (Net.step C cfg) net as).Ready C cfg ids keys ∧
      ∀ j, ∃ H : BlockHeader, H.height = (net j).node.store.getLatestHeight + 1 ∧
        (net j).node.store.Gains (cfg i).params t txs H
          (Runs.run (Net.step C cfg) net as j).node.store := by
  obtain ⟨L, hL⟩ := h.leader hc (Nat.zero_lt_of_lt i.isLt)
    ((net i).node.store.getLatestHeight + 1)
  rw [h.height i L] at h0 hL
  rw [hc.known.params i L] at hb ⊢
  have hb := hb.congr (h.state i L)
  obtain ⟨prev, hprev⟩ := Option.isSome_iff_exists.1
    (((h.chain L).dense (net L).node.store.getLatestHeight).2 (UInt64.le_refl _))
  obtain ⟨as, hdrains, hcommitted⟩ := round_run hc h h0 hL hprev hb
  refine ⟨as, hdrains, ?_⟩
  have hgains := hcommitted.gains hc hb
  have hvotable : ∀ j, Votable C (net j).node
      ((net L).node.batchBlock C (cfg L).params txs prev t) :=
    fun j => h.votable hc h0 hprev _ (hL j)
  have hH : ((net L).node.batchBlock C (cfg L).params txs prev t).header.height =
      (net L).node.store.getLatestHeight + 1 := rfl
  refine ⟨?_, fun j => ⟨_, hH.trans (by rw [h.height j L]), hgains j⟩⟩
  refine ⟨?_, ?_, ?_, ?_, ?_⟩
  · intro j
    have hj := h.node j
    by_cases hjL : j = L
    · subst hjL
      rw [hcommitted.leader]
      exact { hj with pending := rfl, round := rfl }
    · rw [hcommitted.follower j hjL]
      exact { hj with pending := hj.pending }
  · intro j
    have hheight := h.height j L
    exact (hgains j).chainOK (h.chain j) (hheight ▸ h0) (hH.trans (by rw [hheight]))
      (hvotable j).linked
  · intro j j'
    rw [(hgains j).getLatestHeight, (hgains j').getLatestHeight]
  · intro j j' b b' hb hb'
    rw [(hgains j).tip hb, (hgains j').tip hb']
  · intro j j'
    exact ((hgains j).sameState.trans (sameState_runAll (h.state j j') txs)).trans
      (hgains j').sameState.symm

/-- **The network commits every batch.** From a ready network, for any batches of transactions
that are valid one after the other, there is a run that drains only what was sent, after which
every node has stored a block for each batch, in order, and has the state that the batches lead
to. -/
theorem batches_commit {batches : List (List Transaction × Int64)}
    (hc : Net.Cooperates C cfg ids keys) (h : net.Ready C cfg ids keys) (i : Fin k)
    (hheight : (net i).node.store.getLatestHeight.toNat + batches.length < 2 ^ 64)
    (hvalid : Runs.Along (fun s batch => runAll (cfg i).params batch.2 s batch.1)
      (BatchOK C (cfg i).params) (net i).node.store batches) :
    ∃ as, Runs.Along (Net.step C cfg) Net.Drains net as ∧
      (Runs.run (Net.step C cfg) net as).Ready C cfg ids keys ∧
      ∀ j, (Runs.run (Net.step C cfg) net as j).node.store.chain.map (·.transactions) =
          (net j).node.store.chain.map (·.transactions) ++ batches.map (·.1) ∧
        (Runs.run (Net.step C cfg) net as j).node.store.SameState
          (Runs.run (fun s batch => runAll (cfg i).params batch.2 s batch.1)
            (net j).node.store batches) := by
  induction batches generalizing net with
  | nil =>
    refine ⟨[], trivial, h, fun j => ⟨?_, rfl, rfl⟩⟩
    rw [List.map_nil, List.append_nil]
    rfl
  | cons batch batches ih =>
    obtain ⟨txs, t⟩ := batch
    obtain ⟨hb, hrest⟩ := hvalid
    have h0 : (net i).node.store.getLatestHeight + 1 ≠ 0 := by
      rw [List.length_cons] at hheight
      rw [Ne, ← UInt64.toNat_inj, UInt64.toNat_add]
      simp only [UInt64.toNat_one, UInt64.toNat_zero]
      omega
    obtain ⟨as, hdrains, hready, hgains⟩ := round_commits hc h i h0 hb
    have hstep : ∀ (s s' : Store) (batch : List Transaction × Int64), s.SameState s' →
        (runAll (cfg i).params batch.2 s batch.1).SameState
          (runAll (cfg i).params batch.2 s' batch.1) :=
      fun s s' batch hs => sameState_runAll hs batch.1
    obtain ⟨H, hH, hi⟩ := hgains i
    have hheight' : (Runs.run (Net.step C cfg) net as i).node.store.getLatestHeight.toNat +
        batches.length < 2 ^ 64 := by
      rw [hi.getLatestHeight, hH, toNat_succ h0]
      rw [List.length_cons] at hheight
      omega
    have hvalid' := hrest.sim (E := BatchOK C (cfg i).params) hstep
      (fun _ _ _ hs hb => hb.congr hs) hi.sameState.symm
    obtain ⟨as', hdrains', hready', hall⟩ := ih hready hheight' hvalid'
    refine ⟨as ++ as', Runs.along_append.2 ⟨hdrains, hdrains'⟩, ?_⟩
    rw [Runs.run_append]
    refine ⟨hready', fun j => ?_⟩
    obtain ⟨H, hH, hj⟩ := hgains j
    obtain ⟨hchain, hstate⟩ := hall j
    refine ⟨?_, hstate.trans (Runs.sim_run hstep hj.sameState batches)⟩
    rw [hchain, hj.chain (h.height j i ▸ h0) hH, List.append_assoc]
    rfl

/-- A network is ready when it starts on one genesis block, in one state. -/
theorem Net.ready_start {stores : Fin k → Store} {now : Fin k → StartClock} {g : Block}
    (hc : Net.Cooperates C cfg ids keys) (h : Net.Setup C cfg ids keys stores now g)
    (hstate : ∀ i j, (stores i).SameState (stores j)) :
    (Net.start cfg ids keys stores now).Ready C cfg ids keys := by
  have hstore : ∀ i, (Net.start cfg ids keys stores now i).node.store = stores i := by
    intro i
    simp [Net.start, Process.start, startNode, h.genesis i]
  refine ⟨?_, ?_, ?_, ?_, ?_⟩
  · intro i
    have hmin : (Net.start cfg ids keys stores now i).node.cons.minSignatures =
        (cfg i).minSignatures := if_neg (mt List.length_eq_zero_iff.1 (hc.peers_ne_nil i))
    exact ⟨⟨rfl, rfl, rfl, rfl, rfl⟩, rfl, rfl, hmin, rfl, rfl⟩
  · intro i
    rw [hstore]
    exact h.chain i
  · intro i j
    rw [hstore, hstore, h.tip, h.tip]
  · intro i j b b' hb hb'
    rw [hstore, h.tip, h.genesis, Option.some_inj] at hb hb'
    rw [← hb, ← hb']
  · intro i j
    rw [hstore, hstore]
    exact hstate i j

theorem Net.cooperates_toy : Net.Cooperates .toy NodeConfig.toyNet ![1, 2, 3] ![1, 2, 3] where
  known := Net.matching_toy
  distinct := by decide +kernel
  signs _ _ := beq_self_eq_true _
  several := by decide +kernel
  enough := by decide +kernel
  patient := by decide +kernel

/-- Two registrations, a block each. -/
def toyBatches : List (List Transaction × Int64) := [([.toyRegister], 1000), ([.toyOther], 2000)]

/-- Three nodes commit both. -/
theorem batches_commit_toy : ∃ as, Runs.Along (Net.step .toy NodeConfig.toyNet) Net.Drains .toy as ∧
    (Runs.run (Net.step .toy NodeConfig.toyNet) .toy as).Ready .toy NodeConfig.toyNet ![1, 2, 3]
      ![1, 2, 3] ∧
    ∀ j, (Runs.run (Net.step .toy NodeConfig.toyNet) .toy as j).node.store.chain.map
          (·.transactions) =
        (Net.toy j).node.store.chain.map (·.transactions) ++ toyBatches.map (·.1) ∧
      (Runs.run (Net.step .toy NodeConfig.toyNet) .toy as j).node.store.SameState
        (Runs.run (fun s batch => runAll (NodeConfig.toyNet 0).params batch.2 s batch.1)
          (Net.toy j).node.store toyBatches) := by
  have hready : Net.toy.Ready .toy NodeConfig.toyNet ![1, 2, 3] ![1, 2, 3] :=
    Net.ready_start Net.cooperates_toy Net.setup_toy fun _ _ => ⟨rfl, rfl⟩
  refine batches_commit Net.cooperates_toy hready 0 (by decide +kernel) ⟨?_, ?_, trivial⟩
  · exact ⟨by decide, by decide +kernel, by decide +kernel⟩
  · exact ⟨by decide, by decide +kernel, by decide +kernel⟩

end RoutineChain
