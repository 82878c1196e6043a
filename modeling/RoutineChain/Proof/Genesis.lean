import Mathlib.Data.List.FinRange
import RoutineChain.Proof.Agreement
import RoutineChain.Proof.Codec

/-!
# A fresh network

A node that starts on an empty store makes its own genesis block, and writes its own id
and the time of its own clock into the header.

* `votable_block`, `rootAccepted_block`: a follower with the leader's store signs and applies
  the block of a leader whose transactions are signed and all succeed.
* `buildsOnGenesis_of_store`: so nodes that are given one genesis block can build on it.
* `buildsOnGenesis_iff`: nodes that make their own can only if they have one id and one
  start time. Between others nothing is signed (`handleProposal_other_genesis`).
-/

namespace RoutineChain

open Bincode

variable {C : Crypto} {P : Params} {t : Int64} {k : ℕ}

/-! ## A proposal between two nodes -/

section Proposal

variable {cfg : NodeConfig} {m f : Node} {b prev prev' : Block}

/-- The first proposal of a node that stores nothing but its genesis block is built on it. -/
theorem first_proposal {g : Block} {t' : Int64} (hg : m.store.getBlock 0 = some g)
    (htip : m.store.getLatestHeight = 0)
    (h : .broadcast (.propose b) ∈ (m.produce C cfg t t').2) :
    b = m.block C cfg.params g t ∧ m.store.getLatestHeight + 1 = 1 := by
  obtain ⟨prev, hp, rfl⟩ := produces_of_propose h
  have hprev := hp.prev
  rw [htip, show (0 : UInt64) + 1 - 1 = 0 from rfl, hg, Option.some_inj] at hprev
  rw [hprev, htip]
  exact ⟨rfl, rfl⟩

/-- What waits for signatures after the step was proposed. -/
theorem propose_of_pending {t' : Int64} (hidle : m.pendingBlock = none)
    (h : (m.produce C cfg t t').1.pendingBlock = some b) :
    .broadcast (.propose b) ∈ (m.produce C cfg t t').2 := by
  have hs : m.Step C cfg (.produce t t') (m.produce C cfg t t') := produce_step m t t'
  generalize m.produce C cfg t t' = out at hs h
  cases hs with
  | proposed _ hp hv hc hf =>
    cases h
    simp
  | idle => exact absurd (hidle.symm.trans h) (by simp)
  | rejectedAll _ hp hv => exact absurd h hp.not_pending
  | committed _ hp hv hc hf => exact absurd h hp.not_pending
  | solo _ hp hv hc => exact absurd h hp.not_pending

/-- A follower votes for the block of a leader that builds on the follower's tip, that the
follower takes for the leader, and whose signatures verify. -/
theorem votable_block (h0 : m.store.getLatestHeight + 1 ≠ 0)
    (hfree : f.store.getBlock (m.store.getLatestHeight + 1) = none)
    (hprev : f.store.getBlock (m.store.getLatestHeight + 1 - 1) = some prev')
    (hhash : blockHeaderHash C prev.header = blockHeaderHash C prev'.header)
    (hlead : f.cons.leaderForHeight (m.store.getLatestHeight + 1) = m.cons.nodeId)
    (hkey : ∀ key, f.cons.getPeerKey m.cons.nodeId = some key →
      ∀ data, C.verify data (C.sign data m.cons.privateKey) key) :
    Votable C f (m.block C P prev t) := by
  refine ⟨hfree, ⟨h0, prev', hprev, hhash⟩, ?_, ⟨_, rfl, ?_⟩, rfl⟩
  · exact beq_iff_eq.2 hlead.symm
  · intro key hk
    exact hkey key hk _

/-- If the whole pool is signed and succeeds, a follower in the leader's state computes
the leader's root. -/
theorem rootAccepted_block (hstore : f.store = m.store)
    (hsigned : ∀ tx ∈ m.cons.pendingTxs, verifyTxSignature C tx)
    (hall : (leaderExecute P t m.cons.pendingTxs m.store).validTxs = m.cons.pendingTxs) :
    RootAccepted C P (m.block C P prev t) f.store := by
  have hreplay : (replayBlock C P (m.block C P prev t) f.store).store =
      (leaderExecute P t m.cons.pendingTxs m.store).store := by
    have htxs : (m.block C P prev t).transactions = m.cons.pendingTxs := hall
    rw [replayBlock, htxs, leaderExecute_store, hstore]
    exact replay_verified _ hsigned
  right
  rw [hreplay]
  rfl

theorem handleProposal_applied (hv : Votable C f b) (hr : RootAccepted C cfg.params b f.store) :
    (f.handleProposal C cfg b).1.store.getBlock b.header.height = some b := by
  simp only [Node.handleProposal, signProposal_eq_some hv, applyBlock_accepted hr]
  exact Store.getBlock_putBlock_self _ _

/-- A proposal on top of another block is not even signed. -/
theorem signProposal_other (hprev : f.store.getBlock (b.header.height - 1) = some prev')
    (hhash : b.header.prevHash ≠ blockHeaderHash C prev'.header) :
    f.signProposal C b = none := by
  cases hs : f.signProposal C b with
  | none => rfl
  | some sig =>
    obtain ⟨-, prev, hp, hlink⟩ := (signProposal_spec hs).1.linked
    rw [hprev] at hp
    cases hp
    exact absurd hlink hhash

end Proposal

/-! ## Matching configurations -/

variable {cfg : Fin k → NodeConfig} {ids : Fin k → Id} {keys : Fin k → BitVec 256}

/-- The peers of each node are the other nodes, in any order and under their public keys,
and all nodes run the state machine with the same parameters. -/
structure Net.Matching (cfg : Fin k → NodeConfig) (ids : Fin k → Id) : Prop where
  params : ∀ i j, (cfg i).params = (cfg j).params
  peers : ∀ i, ((cfg i).peers.map (·.id)).Perm (((List.finRange k).erase i).map ids)
  keys : ∀ i, ∀ peer ∈ (cfg i).peers, peer.publicKey = peer.id

/-- A node with matching peers knows all nodes of the network. -/
theorem Net.Matching.allNodeIds (h : Net.Matching cfg ids) {i : Fin k} {c : Consensus}
    (hid : c.nodeId = ids i) (hpeers : c.peers = (cfg i).peers) :
    c.allNodeIds = ((List.finRange k).map ids).insertionSort (· ≤ ·) := by
  refine Consensus.allNodeIds_of_perm ?_
  have hcons := (List.perm_cons_erase (List.mem_finRange i)).map ids
  rw [List.map_cons] at hcons
  rw [hid, hpeers]
  exact ((h.peers i).cons _).trans hcons.symm

/-- So two such nodes agree on the leaders. -/
theorem Net.Matching.leader (h : Net.Matching cfg ids) {i j : Fin k} {c c' : Consensus}
    (hid : c.nodeId = ids i) (hpeers : c.peers = (cfg i).peers) (hid' : c'.nodeId = ids j)
    (hpeers' : c'.peers = (cfg j).peers) (height : UInt64) (round : UInt32) :
    c.leaderForHeightRound height round = c'.leaderForHeightRound height round :=
  Consensus.leader_congr ((h.allNodeIds hid hpeers).trans (h.allNodeIds hid' hpeers').symm)
    height round

/-- A node looks another one up under its id as key, and never itself. -/
theorem Net.Matching.peerKey (h : Net.Matching cfg ids) {i : Fin k} {c : Consensus} {id key : Id}
    (hpeers : c.peers = (cfg i).peers) (hk : c.getPeerKey id = some key) :
    id ≠ c.nodeId ∧ key = id := by
  unfold Consensus.getPeerKey at hk
  split at hk
  case isTrue => cases hk
  case isFalse hne =>
    obtain ⟨peer, hp, rfl⟩ := Option.map_eq_some_iff.1 hk
    have hid : peer.id = id := by simpa using List.find?_some hp
    refine ⟨hne, ?_⟩
    rw [h.keys i peer (hpeers ▸ List.mem_of_find?_eq_some hp), hid]

/-! ## Building on genesis -/

/-- A node has not stored a block since its start; its pool, its round and its votes are
whatever the messages of others have made of them. -/
structure Node.AtGenesis (start n : Node) : Prop where
  validator : start.cons.SameValidator n.cons
  peers : n.cons.peers = start.cons.peers
  store : n.store = start.store

/-- All nodes hold a block 0, with one hash. -/
def Net.SharesGenesis (C : Crypto) (net : Net k) : Prop :=
  ∃ hash, ∀ i, ∃ b, (net i).node.store.getBlock 0 = some b ∧ blockHeaderHash C b.header = hash

/-- A proposal on a follower's genesis passes the check of its previous hash, and is
applied. -/
structure Node.AppliesFirst (C : Crypto) (cfg : NodeConfig) (f : Node) (b : Block) : Prop where
  prevHash : ∃ prev, f.store.getBlock 0 = some prev ∧
    b.header.prevHash = blockHeaderHash C prev.header
  applied : (f.handleProposal C cfg b).1.store.getBlock 1 = some b

/-- **A network can build on its genesis**: the nodes share block 0, and what the leader of
height 1 proposes after a pool of signed transactions has succeeded is applied by every
other node in round 0. -/
structure Net.BuildsOnGenesis (C : Crypto) (cfg : Fin k → NodeConfig) (net : Net k) :
    Prop where
  shared : net.SharesGenesis C
  first : ∀ i j, i ≠ j → ∀ leader follower, (net i).node.AtGenesis leader →
    (net j).node.AtGenesis follower → follower.cons.round = 0 →
    leader.cons.leaderForHeightRound 1 0 = leader.cons.nodeId →
    ∀ t t', (∀ tx ∈ leader.cons.pendingTxs, verifyTxSignature C tx) →
    (leaderExecute (cfg i).params t leader.cons.pendingTxs leader.store).validTxs =
      leader.cons.pendingTxs →
    ∀ b, .broadcast (.propose b) ∈ (leader.produce C (cfg i) t t').2 →
      follower.AppliesFirst C (cfg j) b

section Start

variable {stores : Fin k → Store} {now : Fin k → StartClock}

/-- **Nodes that are given one genesis block can build on it**, if the key of a node that
the others know signs for its id. -/
theorem buildsOnGenesis_of_store {s : Store} (hcfg : Net.Matching cfg ids)
    (hkeys : ∀ i j, ids i ≠ ids j → ∀ data, C.verify data (C.sign data (keys i)) (ids i))
    (hchain : ChainOK C s) (htip : s.getLatestHeight = 0)
    (hstore : ∀ i, (Net.start cfg ids keys stores now i).node.store = s) :
    (Net.start cfg ids keys stores now).BuildsOnGenesis C cfg := by
  obtain ⟨g, hg⟩ : ∃ g, s.getBlock 0 = some g :=
    Option.isSome_iff_exists.1 ((hchain.dense 0).2 (htip ▸ UInt64.le_refl _))
  have hfree : s.getBlock 1 = none := by
    have hdense := hchain.dense 1
    rw [htip] at hdense
    exact Option.not_isSome_iff_eq_none.1 fun hsome => absurd (hdense.1 hsome) (by decide)
  refine ⟨⟨blockHeaderHash C g.header, ?_⟩, ?_⟩
  · intro i
    rw [hstore i]
    exact ⟨g, hg, rfl⟩
  intro i j _ leader follower hl hf hround hlead t t' hsigned hall b hb
  have hls : leader.store = s := hl.store.trans (hstore i)
  have hfs : follower.store = s := hf.store.trans (hstore j)
  obtain ⟨rfl, hnext⟩ := first_proposal (hls ▸ hg) (hls ▸ htip) hb
  have hv : Votable C follower (leader.block C (cfg i).params g t) := by
    have hagree : follower.cons.leaderForHeight 1 = leader.cons.nodeId := by
      rw [← hlead, Consensus.leaderForHeight, hround]
      exact hcfg.leader hf.validator.nodeId hf.peers hl.validator.nodeId hl.peers 1 0
    have hkey : ∀ key, follower.cons.getPeerKey leader.cons.nodeId = some key →
        ∀ data, C.verify data (C.sign data leader.cons.privateKey) key := by
      intro key hk data
      obtain ⟨hne, rfl⟩ := hcfg.peerKey hf.peers hk
      rw [hf.validator.nodeId, hl.validator.nodeId] at hne
      rw [hl.validator.privateKey, hl.validator.nodeId]
      exact hkeys i j hne data
    refine votable_block ?_ ?_ ?_ rfl ?_ hkey
    · rw [hnext]
      decide
    · rwa [hnext, hfs]
    · rwa [hnext, hfs]
    · rwa [hnext]
  have hr : RootAccepted C (cfg j).params (leader.block C (cfg i).params g t)
      follower.store := by
    rw [← hcfg.params i j]
    exact rootAccepted_block (hfs.trans hls.symm) hsigned hall
  refine ⟨⟨g, hfs ▸ hg, rfl⟩, ?_⟩
  have happlied := handleProposal_applied hv hr
  rwa [show (leader.block C (cfg i).params g t).header.height = 1 from hnext] at happlied

/-- The header of the genesis block that a node makes on an empty store. -/
def genesisHeader (ids : Fin k → Id) (now : Fin k → StartClock) (i : Fin k) : BlockHeader :=
  (Block.genesis (now i).genesis (ids i)).header

theorem store_start_empty (i : Fin k) :
    (Net.start cfg ids keys (fun _ => .empty) now i).node.store =
      Store.empty.putBlock (.genesis (now i).genesis (ids i)) := by
  simp [Net.start, Process.start, startNode, Store.getBlock, Store.empty]

theorem getBlock_start_empty (i : Fin k) :
    (Net.start cfg ids keys (fun _ => .empty) now i).node.store.getBlock 0 =
      some (.genesis (now i).genesis (ids i)) := by
  rw [store_start_empty]
  exact Store.getBlock_putBlock_self _ (.genesis _ _)

/-- **Between nodes whose genesis blocks differ nothing happens**: a follower does not sign
what a leader builds on its own. -/
theorem handleProposal_other_genesis {i j : Fin k} {leader follower : Node} {b : Block}
    {t' : Int64}
    (hl : (Net.start cfg ids keys (fun _ => .empty) now i).node.AtGenesis leader)
    (hf : (Net.start cfg ids keys (fun _ => .empty) now j).node.AtGenesis follower)
    (hne : blockHeaderHash C (genesisHeader ids now i) ≠
      blockHeaderHash C (genesisHeader ids now j))
    (hb : .broadcast (.propose b) ∈ (leader.produce C (cfg i) t t').2) :
    follower.handleProposal C (cfg j) b = (follower, []) := by
  have hg : leader.store.getBlock 0 = some (.genesis (now i).genesis (ids i)) := by
    rw [hl.store]
    exact getBlock_start_empty i
  have htip : leader.store.getLatestHeight = 0 := by
    rw [hl.store, store_start_empty]
    rfl
  obtain ⟨rfl, hnext⟩ := first_proposal hg htip hb
  have hbelow : follower.store.getBlock (leader.store.getLatestHeight + 1 - 1) =
      some (.genesis (now j).genesis (ids j)) := by
    rw [hnext, show (1 : UInt64) - 1 = 0 from rfl, hf.store]
    exact getBlock_start_empty j
  have hdeclined : follower.signProposal C (leader.block C (cfg i).params
      (.genesis (now i).genesis (ids i)) t) = none :=
    signProposal_other hbelow hne
  rw [Node.handleProposal, hdeclined]

/-- **A fresh network can build on its genesis exactly if all of its nodes have one id and
read one time when they make it**, provided that the hash does not collide on their
headers. -/
theorem buildsOnGenesis_iff (hcfg : Net.Matching cfg ids)
    (hhash : ∀ i j, C.hash (serialize (genesisHeader ids now i)) =
      C.hash (serialize (genesisHeader ids now j)) →
        serialize (genesisHeader ids now i) = serialize (genesisHeader ids now j)) :
    (Net.start cfg ids keys (fun _ => .empty) now).BuildsOnGenesis C cfg ↔
      ∀ i j, ids i = ids j ∧ (now i).genesis = (now j).genesis := by
  constructor
  · intro h i j
    obtain ⟨hash, hshared⟩ := h.shared
    have hgen : ∀ i, C.hash (serialize (genesisHeader ids now i)) = hash := by
      intro i
      obtain ⟨b, hb, rfl⟩ := hshared i
      rw [getBlock_start_empty] at hb
      cases hb
      rfl
    have heq := header_injective (hhash i j (by rw [hgen i, hgen j]))
    exact ⟨congrArg (·.proposer) heq, congrArg (·.timestamp) heq⟩
  · intro h
    obtain hk | ⟨⟨i₀⟩⟩ := isEmpty_or_nonempty (Fin k)
    · exact ⟨⟨0, fun i => hk.elim i⟩, fun i => hk.elim i⟩
    refine buildsOnGenesis_of_store hcfg ?_ (chainOK_genesis (now i₀).genesis (ids i₀)) rfl ?_
    -- nobody checks a signature of its own id
    · intro i j hne
      exact absurd (h i j).1 hne
    · intro i
      rw [store_start_empty, (h i i₀).1, (h i i₀).2]

end Start

/-! ## Three nodes -/

theorem Net.matching_toy : Net.Matching NodeConfig.toyNet ![1, 2, 3] where
  params := by
    have hdefault : ∀ i, (NodeConfig.toyNet i).params = .default
      | 0 | 1 | 2 => rfl
    intro i j
    rw [hdefault i, hdefault j]
  peers := by decide +kernel
  keys := by decide +kernel

/-- They are started on empty stores, a few milliseconds apart. -/
def StartClock.toy : Fin 3 → StartClock := ![⟨1000, 1000⟩, ⟨1003, 1003⟩, ⟨1007, 1007⟩]

/-- The nodes 1, 2 and 3, under the indices 0, 1 and 2. -/
abbrev Net.toyFresh : Net 3 :=
  .start NodeConfig.toyNet ![1, 2, 3] ![1, 2, 3] (fun _ => .empty) StartClock.toy

theorem buildsOnGenesis_iff_toy : Net.toyFresh.BuildsOnGenesis .toy NodeConfig.toyNet ↔
    ∀ i j, (![1, 2, 3] : Fin 3 → Id) i = (![1, 2, 3] : Fin 3 → Id) j ∧
      (StartClock.toy i).genesis = (StartClock.toy j).genesis :=
  buildsOnGenesis_iff Net.matching_toy (by decide +kernel)

/-- Node 2 leads height 1, and a registration is in its pool. -/
def Node.toyFirst : Node :=
  let n := (Process.start (.toy [1, 3]) 2 2 .empty ⟨1003, 1003⟩).node
  { n with cons := n.cons.pushTxs [.toyRegister] }

/-- The block that it proposes. -/
def Block.toyFirst : Block :=
  (Node.toyFirst.produce .toy (.toy [1, 3]) 2000 2000).1.pendingBlock.getD (.genesis 0 0)

/-- Node 1 does not store it. -/
theorem buildsOnGenesis_fails : ¬ Net.toyFresh.BuildsOnGenesis .toy NodeConfig.toyNet := by
  intro h
  have hb : (Node.toyFirst.produce .toy (NodeConfig.toyNet 1) 2000 2000).1.pendingBlock =
      some .toyFirst := by
    decide +kernel
  have happlied := (h.first 1 0 (by decide) .toyFirst (Net.toyFresh 0).node
    ⟨⟨rfl, rfl, rfl⟩, rfl, rfl⟩ ⟨⟨rfl, rfl, rfl⟩, rfl, rfl⟩ rfl (by decide +kernel) 2000 2000
    (by decide +kernel) (by decide +kernel) .toyFirst (propose_of_pending rfl hb)).applied
  revert happlied
  decide +kernel

end RoutineChain
