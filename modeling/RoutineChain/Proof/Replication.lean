import RoutineChain.Proof.ChainState
import RoutineChain.Proof.Genesis

/-!
# State machine replication

Nodes that agree on their blocks, and whose states are the replays of them, agree on the
state: what a node is ahead of another one are the blocks that the other one has yet to
replay.

* `hashed_step`: the blocks that a node stores or proposes carry the hash of their
  transactions, so equal headers mean equal transactions.
* `replicas_agree`: of two nodes, the one with the lower tip gets to the state of the other by
  replaying the blocks above its tip.
* `replicas_ahead`: the same for two moments of a run, which are `Net.Moment`s of it.
-/

namespace RoutineChain

variable {C : Crypto} {P : Params} {s s' : Store}

/-! ## Chains, block by block -/

/-- The part of a block that its replay reads, and its header. -/
def Block.unsigned (b : Block) : Block := { b with signatures := [] }

theorem replayChain_unsigned (s : Store) (bs : List Block) :
    replayChain C P s (bs.map Block.unsigned) = replayChain C P s bs := by
  unfold replayChain Runs.run
  rw [List.foldl_map]
  rfl

/-- The heights of a chain are stored, so none is left out. -/
theorem ChainOK.map_chain (hs : ChainOK C s) :
    s.chain.map some = (List.range s.getLatestHeight.toNat).map fun i =>
      s.getBlock (.ofNat (i + 1)) := by
  unfold Store.chain
  rw [List.map_filterMap_some_eq_filter_map_isSome, List.filter_eq_self]
  intro o ho
  obtain ⟨i, hi, rfl⟩ := List.mem_map.1 ho
  have hi := List.mem_range.1 hi
  have hlt := s.getLatestHeight.toNat_lt
  rw [hs.dense, UInt64.le_iff_toNat_le,
    UInt64.toNat_ofNat_of_lt' (by simp only [UInt64.size]; omega)]
  omega

theorem ChainOK.length_chain (hs : ChainOK C s) : s.chain.length = s.getLatestHeight.toNat := by
  have h := congrArg List.length hs.map_chain
  rwa [List.length_map, List.length_map, List.length_range] at h

/-- The block of a chain at an index is the stored one of the height above it. -/
theorem ChainOK.getElem?_chain (hs : ChainOK C s) {i : ℕ} {b : Block}
    (h : s.chain[i]? = some b) :
    i < s.getLatestHeight.toNat ∧ s.getBlock (.ofNat (i + 1)) = some b := by
  have hi : i < s.chain.length := (List.getElem?_eq_some_iff.1 h).1
  rw [hs.length_chain] at hi
  have hmap := congrArg (·[i]?) hs.map_chain
  simp only [List.getElem?_map, h, Option.map_some, List.getElem?_range hi] at hmap
  exact ⟨hi, (Option.some_inj.1 hmap).symm⟩

theorem ChainOK.mem_chain (hs : ChainOK C s) {h : UInt64} (h0 : h ≠ 0) {b : Block}
    (hb : s.getBlock h = some b) : b ∈ s.chain := by
  have hpred := toNat_pred h0
  have hle := UInt64.le_iff_toNat_le.1 ((hs.dense h).1 (by rw [hb]; rfl))
  have hh : UInt64.ofNat ((h - 1).toNat + 1) = h := by rw [hpred, UInt64.ofNat_toNat]
  refine List.mem_filterMap.2 ⟨(h - 1).toNat, List.mem_range.2 (by omega), ?_⟩
  rw [hh, hb]

/-- **Blocks that agree in a part at every height up to the lower tip make one chain a prefix of
the other** in that part. -/
theorem chain_prefix {α : Type} {f : Block → α} (hs : ChainOK C s) (hs' : ChainOK C s')
    (hle : s.getLatestHeight ≤ s'.getLatestHeight)
    (hagree : ∀ h ≠ 0, ∀ b b', s.getBlock h = some b → s'.getBlock h = some b' → f b = f b') :
    (s'.chain.take s.chain.length).map f = s.chain.map f := by
  have hle := UInt64.le_iff_toNat_le.1 hle
  refine List.ext_getElem? ?_
  intro i
  rw [List.getElem?_map, List.getElem?_map]
  by_cases hi : i < s.chain.length
  · rw [List.getElem?_take_of_lt hi]
    have hi' : i < s'.chain.length := by
      rw [hs'.length_chain]
      rw [hs.length_chain] at hi
      exact lt_of_lt_of_le hi hle
    have hget := List.getElem?_eq_getElem hi
    have hget' := List.getElem?_eq_getElem hi'
    obtain ⟨hlt, hb⟩ := hs.getElem?_chain hget
    obtain ⟨-, hb'⟩ := hs'.getElem?_chain hget'
    have h0 : UInt64.ofNat (i + 1) ≠ 0 := by
      have hmax := s.getLatestHeight.toNat_lt
      rw [Ne, ← UInt64.toNat_inj, UInt64.toNat_ofNat_of_lt' (by simp only [UInt64.size]; omega)]
      exact Nat.succ_ne_zero i
    rw [hget, hget', Option.map_some, Option.map_some, hagree _ h0 _ _ hb hb']
  · rw [List.getElem?_eq_none (Nat.not_lt.1 hi), List.getElem?_eq_none]
    rw [List.length_take]
    exact (Nat.min_le_left _ _).trans (Nat.not_lt.1 hi)

/-- **The state ahead of a chain is reached from the state of the chain.** -/
theorem replayed_ahead {s₀ s₀' : Store} {bs bs' ps : List Block}
    (hstart : s₀.SameState s₀') (hs : s.SameState (replayChain C P s₀ bs))
    (hs' : s'.SameState (replayChain C P s₀' (bs' ++ ps)))
    (hpre : (bs'.take bs.length).map Block.unsigned = bs.map Block.unsigned) :
    s'.SameState (replayChain C P s (bs'.drop bs.length ++ ps)) := by
  have hsplit : bs' ++ ps = bs'.take bs.length ++ (bs'.drop bs.length ++ ps) := by
    rw [← List.append_assoc, List.take_append_drop]
  rw [hsplit, replayChain_append] at hs'
  refine hs'.trans ((Store.SameState.trans ?_ hs.symm).replayChain _)
  rw [← replayChain_unsigned, hpre, replayChain_unsigned]
  exact hstart.symm.replayChain bs

/-! ## Blocks and the hash of their transactions -/

/-- The stored blocks above the genesis block and the pending block carry the hash of their
transactions. -/
structure TxHashed (C : Crypto) (n : Node) : Prop where
  stored : ∀ h b, n.store.getBlock h = some b → h ≠ 0 →
    computeTxHash C b.transactions = b.header.txHash
  pending : ∀ pb, n.pendingBlock = some pb → computeTxHash C pb.transactions = pb.header.txHash

section Steps

variable {cfg : NodeConfig} {n : Node}

theorem TxHashed.put (h : TxHashed C n) {b : Block} (hsame : n.store.SameChain s)
    (hb : computeTxHash C b.transactions = b.header.txHash) :
    ∀ height b', (s.putBlock b).getBlock height = some b' → height ≠ 0 →
      computeTxHash C b'.transactions = b'.header.txHash := by
  intro height b' hb' h0
  rcases getBlock_putBlock_cases hsame hb' with hb' | rfl
  · exact h.stored height b' hb' h0
  · exact hb

theorem TxHashed.of_sameChain {n' : Node} (h : TxHashed C n)
    (hsame : n.store.SameChain n'.store)
    (hp : ∀ pb, n'.pendingBlock = some pb → computeTxHash C pb.transactions = pb.header.txHash) :
    TxHashed C n' := by
  refine ⟨?_, hp⟩
  intro height b hb
  rw [← hsame.getBlock] at hb
  exact h.stored height b hb

/-- **A step stores and proposes only blocks with the hash of their transactions.** -/
theorem hashed_step {m : Micro} {out : Node × List Effect} (hs : n.Step C cfg m out)
    (h : TxHashed C n) : TxHashed C out.1 := by
  cases hs with
  | cosigned hp hv =>
    refine ⟨h.stored, ?_⟩
    intro pb hpb
    cases hpb
    have hown := h.pending _ hp
    exact hown
  | @finalized pb t t' hp hf =>
    refine ⟨h.put ⟨rfl, rfl⟩ (h.pending pb hp), ?_⟩
    exact fun pb hpb => by cases hpb
  | discarded t hp hf ht =>
    refine ⟨h.stored, ?_⟩
    exact fun pb hpb => by cases hpb
  | applied hp hs hr =>
    obtain ⟨hv, -⟩ := signProposal_spec hs
    exact ⟨h.put (sameChain_replayBlock _ _) hv.txHash, h.pending⟩
  | @diverged b rest sig hp hs hr =>
    exact h.of_sameChain (sameChain_replayBlock b n.store) h.pending
  | @rejectedAll prev t t' hp hv => exact h.of_sameChain (sameChain_ran _ n t) h.pending
  | @proposed prev t t' hp hv hc hf =>
    refine h.of_sameChain (sameChain_ran _ n t) ?_
    intro pb hpb
    cases hpb
    rfl
  | @committed prev t t' hp hv hc hf | @solo prev t t' hp hv hc =>
    exact ⟨h.put (sameChain_ran _ n t) rfl, h.pending⟩
  | _ => exact ⟨h.stored, h.pending⟩

end Steps

/-! ## A network of replicas -/

section Network

variable {k : ℕ} {cfg : Fin k → NodeConfig} {ids : Fin k → Id} {keys : Fin k → BitVec 256}
  {stores : Fin k → Store} {now : Fin k → StartClock} {g : Block}

/-- The hash tells the transactions of the blocks of the network apart. -/
def Net.TxHashesDistinct (C : Crypto) (net : Net k) : Prop :=
  ∀ i j, ∀ b ∈ (net i).node.store.chain, ∀ b' ∈ (net j).node.store.chain,
    computeTxHash C b.transactions = computeTxHash C b'.transactions →
      b.transactions = b'.transactions

instance (net : Net k) : Decidable (net.TxHashesDistinct C) :=
  inferInstanceAs (Decidable (∀ i j, ∀ b ∈ (net i).node.store.chain,
    ∀ b' ∈ (net j).node.store.chain, _ → _))

/-- A node of the network and its state, given who has voted for what, and who does in the
end. -/
structure Replica (C : Crypto) (cfg : NodeConfig) (ids : Fin k → Id) (keys : Fin k → BitVec 256)
    (g : BlockHeader) (s₀ : Store) (V F : Fin k → BlockHeader → Prop) (i : Fin k) (p : Process) :
    Prop where
  voter : Voter C ids keys g V F i p
  state : NodeState C cfg.params s₀ p.node
  hashed : TxHashed C p.node

/-- The conditions of a step: messages arrive as they were sent and are not forged, blocks are
stored safely, with a quorum of signatures in the end, and the state follows the chain. -/
structure Net.Replicates (C : Crypto) (cfg : Fin k → NodeConfig) (ids : Fin k → Id)
    (keys : Fin k → BitVec 256) (final net : Net k) (a : Fin k × Micro) : Prop where
  delivers : net.Delivers a
  unforged : net.Unforged C ids keys
  safe : Net.CommitsSafely C cfg final net a
  state : KeepsState C (cfg a.1) (net a.1).node a.2

theorem replicas_step {net final : Net k} {a : Fin k × Micro}
    (hall : ∀ j, Replica C (cfg j) ids keys g.header (stores j) net.Voted final.Voted j (net j))
    (ha : Net.Replicates C cfg ids keys final net a) (j : Fin k) :
    Replica C (cfg j) ids keys g.header (stores j) (net.micro C cfg a).Voted final.Voted j
      (net.micro C cfg a j) := by
  have hvoters := voters_step (fun j => (hall j).voter) ha.delivers ha.unforged ha.safe j
  obtain ⟨i, m⟩ := a
  refine ⟨hvoters, ?_, ?_⟩
  · by_cases hj : j = i
    · subst hj
      rw [Net.micro_self]
      exact nodeState_step (micro_step _ m) (hall j).state ha.state
    · rw [show net.micro C cfg (i, m) j = net j from Function.update_of_ne hj ..]
      exact (hall j).state
  · by_cases hj : j = i
    · subst hj
      rw [Net.micro_self]
      exact hashed_step (micro_step _ m) (hall j).hashed
    · rw [show net.micro C cfg (i, m) j = net j from Function.update_of_ne hj ..]
      exact (hall j).hashed

/-- At the start the chain is empty, and the state is that of the store. -/
theorem replicas_start (h : Net.Setup C cfg ids keys stores now g) (i : Fin k)
    (V F : Fin k → BlockHeader → Prop) :
    Replica C (cfg i) ids keys g.header (stores i) V F i
      (Net.start cfg ids keys stores now i) := by
  have hstore : (Net.start cfg ids keys stores now i).node.store = stores i := by
    simp [Net.start, Process.start, startNode, h.genesis i]
  have htip : (Net.start cfg ids keys stores now i).node.store.getLatestHeight = 0 := by
    rw [hstore]
    exact h.tip i
  refine ⟨voters_start h i V F, nodeState_start ?_ ?_, ⟨?_, fun pb hpb => by cases hpb⟩⟩
  · rw [show (Process.start (cfg i) (ids i) (keys i) (stores i) (now i)).node.store = stores i from
      hstore]
    exact h.chain i
  · have hnil : (Net.start cfg ids keys stores now i).node.store.chain = [] := by
      unfold Store.chain
      rw [htip]
      rfl
    rw [show (Process.start (cfg i) (ids i) (keys i) (stores i) (now i)).node.store.chain = [] from
      hnil]
    exact ⟨congrArg (·.records) hstore, congrArg (·.nonces) hstore⟩
  · intro height b hb h0
    have hle := ((h.chain i).dense height).1 (by rw [← hstore, hb]; rfl)
    rw [h.tip i] at hle
    exact absurd (UInt64.le_antisymm hle UInt64.zero_le) h0

section Moments

variable {net net' final : Net k} {i j : Fin k}
  (hall : ∀ j, Replica C (cfg j) ids keys g.header (stores j) net.Voted final.Voted j (net j))
  (hall' : ∀ j, Replica C (cfg j) ids keys g.header (stores j) net'.Voted final.Voted j (net' j))
  (honce : Quorum.VotesOnce final.Voted BlockHeader.height)
  (hvoted : ∀ j H, net.Voted j H → final.Voted j H)
  (hvoted' : ∀ j H, net'.Voted j H → final.Voted j H)
  (hhash : ∀ b ∈ (net i).node.store.chain, ∀ b' ∈ (net' j).node.store.chain,
    computeTxHash C b.transactions = computeTxHash C b'.transactions →
      b.transactions = b'.transactions)

include hall hall' honce hvoted hvoted' hhash

/-- Two replicas, one of them maybe later, hold the same blocks up to the lower tip. -/
theorem replicas_blocks {h : UInt64} (h0 : h ≠ 0) {b b' : Block}
    (hb : (net i).node.store.getBlock h = some b)
    (hb' : (net' j).node.store.getBlock h = some b') : b.unsigned = b'.unsigned := by
  have hheader : b.header = b'.header :=
    voters_agree (fun j => (hall j).voter) (fun j => (hall' j).voter) honce hvoted hvoted' i j h
      b b' hb hb'
  have htxs : b.transactions = b'.transactions := by
    refine hhash b ((hall i).state.chain.mem_chain h0 hb) b'
      ((hall' j).state.chain.mem_chain h0 hb') ?_
    rw [(hall i).hashed.stored h b hb h0, (hall' j).hashed.stored h b' hb' h0, hheader]
  unfold Block.unsigned
  rw [hheader, htxs]

/-- **A replica with the higher tip, maybe later, has the state that the blocks above the tip of
the other one lead to.** -/
theorem replicas_ahead (hparams : (cfg j).params = (cfg i).params)
    (hstart : (stores i).SameState (stores j)) (hidle : (net i).node.pendingBlock = none)
    (hle : (net i).node.store.getLatestHeight ≤ (net' j).node.store.getLatestHeight) :
    (net' j).node.store.SameState (replayChain C (cfg i).params (net i).node.store
      ((net' j).node.store.chain.drop (net i).node.store.chain.length ++
        (net' j).node.pendingBlock.toList)) := by
  have hs := (hall i).state.state
  have hs' := (hall' j).state.state
  rw [hidle, Option.toList_none, List.append_nil] at hs
  rw [hparams] at hs'
  refine replayed_ahead hstart hs hs' ?_
  refine chain_prefix (hall i).state.chain (hall' j).state.chain hle ?_
  intro height h0 b b' hb hb'
  exact replicas_blocks hall hall' honce hvoted hvoted' hhash h0 hb hb'

end Moments

/-- Every node of a run is a replica. -/
theorem replicas_run {final : Net k} {as : List (Fin k × Micro)}
    (h : Net.Setup C cfg ids keys stores now g)
    (hrun : Runs.Along (Net.micro C cfg) (Net.Replicates C cfg ids keys final)
      (.start cfg ids keys stores now) as) (j : Fin k) :
    Replica C (cfg j) ids keys g.header (stores j)
      (Runs.run (Net.micro C cfg) (.start cfg ids keys stores now) as).Voted final.Voted j
      (Runs.run (Net.micro C cfg) (.start cfg ids keys stores now) as j) :=
  Runs.inv_run
    (I := fun net => ∀ j, Replica C (cfg j) ids keys g.header (stores j) net.Voted final.Voted j
      (net j))
    (fun _ _ hall ha => replicas_step hall ha) (fun j => replicas_start h j _ _) hrun j

/-- A moment of a run that ends in `final`: the nodes are replicas, and vote once. -/
structure Net.Moment (C : Crypto) (cfg : Fin k → NodeConfig) (ids : Fin k → Id)
    (keys : Fin k → BitVec 256) (stores : Fin k → Store) (g : BlockHeader)
    (final net : Net k) : Prop where
  replicas : ∀ j, Replica C (cfg j) ids keys g (stores j) net.Voted final.Voted j (net j)
  voted : ∀ j H, net.Voted j H → final.Voted j H
  once : Quorum.VotesOnce final.Voted BlockHeader.height

theorem moment_run {final : Net k} {as as' : List (Fin k × Micro)}
    (h : Net.Setup C cfg ids keys stores now g)
    (hend : Runs.run (Net.micro C cfg) (.start cfg ids keys stores now) (as ++ as') = final)
    (hrun : Runs.Along (Net.micro C cfg) (Net.Replicates C cfg ids keys final)
      (.start cfg ids keys stores now) (as ++ as')) :
    Net.Moment C cfg ids keys stores g.header final
      (Runs.run (Net.micro C cfg) (.start cfg ids keys stores now) as) := by
  have hlast := replicas_run h hrun
  rw [hend] at hlast
  refine ⟨replicas_run h (hrun.initial (List.prefix_append _ _)), ?_, ?_⟩
  · intro j H hH
    rw [← hend]
    exact Net.voted_append as as' j H hH
  · intro v H H' hH hH'
    exact (hlast v).voter.unique H hH H' hH'

/-- **State machine replication.** At any moment of a run that keeps the states to the chains,
the node with the lower tip, if it has nothing pending, gets to the state of the other one by
replaying the blocks above its own tip; at the same tip the two states are equal, but for
what is pending. -/
theorem replicas_agree {as as' : List (Fin k × Micro)} {final : Net k}
    (h : Net.Setup C cfg ids keys stores now g)
    (hend : Runs.run (Net.micro C cfg) (.start cfg ids keys stores now) (as ++ as') = final)
    (hparams : ∀ i j, (cfg i).params = (cfg j).params)
    (hstart : ∀ i j, (stores i).SameState (stores j))
    (hrun : Runs.Along (Net.micro C cfg) (Net.Replicates C cfg ids keys final)
      (.start cfg ids keys stores now) (as ++ as'))
    (hhash : (Runs.run (Net.micro C cfg) (.start cfg ids keys stores now) as).TxHashesDistinct C)
    {i j : Fin k} {low high : Node}
    (hlow : (Runs.run (Net.micro C cfg) (.start cfg ids keys stores now) as i).node = low)
    (hhigh : (Runs.run (Net.micro C cfg) (.start cfg ids keys stores now) as j).node = high)
    (hidle : low.pendingBlock = none)
    (hle : low.store.getLatestHeight ≤ high.store.getLatestHeight) :
    high.store.SameState (replayChain C (cfg i).params low.store
      (high.store.chain.drop low.store.chain.length ++ high.pendingBlock.toList)) := by
  subst hlow hhigh
  have hmoment := moment_run h hend hrun
  exact replicas_ahead hmoment.replicas hmoment.replicas hmoment.once hmoment.voted hmoment.voted
    (hhash i j) (hparams j i) (hstart i j) hidle hle

end Network

/-- A proposal that is handled with nothing pending. -/
theorem keepsState_handleProposal {cfg : NodeConfig} {n : Node} {b : Block}
    (hp : n.proposals = [b]) (hidle : n.pendingBlock = none)
    (hroot : RootAccepted C cfg.params b n.store) : KeepsState C cfg n .handleProposal := by
  intro b' rest hp' _
  rw [hp, List.cons.injEq] at hp'
  rw [← hp'.1]
  exact ⟨hidle, hroot⟩

theorem NodeConfig.params_toyFour (i j : Fin 4) :
    (NodeConfig.toyFour i).params = (NodeConfig.toyFour j).params := by
  have hdefault : ∀ i, (NodeConfig.toyFour i).params = .default
    | 0 | 1 | 2 | 3 => rfl
  rw [hdefault i, hdefault j]

theorem keepsState_toyFour : Runs.Along (Net.micro .toy NodeConfig.toyFour)
    (fun net a => KeepsState .toy (NodeConfig.toyFour a.1) (net a.1).node a.2) .toyFour
    (Net.toyProposes 1 0 ++ Net.toyFollows 2 ++ Net.toyFollows 3) := by
  unfold Net.toyFour
  simp only [Net.toyProposes, Net.toyFollows, List.cons_append, List.nil_append, Runs.along_cons,
    Runs.along_nil, and_true]
  refine ⟨trivial, trivial, ⟨?_, ?_⟩, trivial, ?_, trivial, ?_, trivial, ?_⟩
  · decide +kernel
  · intro prev _
    exact ⟨by decide +kernel, cleanRejects_of_valid (by decide +kernel)⟩
  all_goals
    exact keepsState_handleProposal (b := .toyOwn) (by decide +kernel) (by decide +kernel)
      (by decide +kernel)

/-- Four nodes of which three have to sign: one proposes, and the others store its block one
after the other. -/
theorem replicates_toyFour {final : Net 4}
    (hend : Runs.run (Net.micro .toy NodeConfig.toyFour) .toyFour
      (Net.toyProposes 1 0 ++ Net.toyFollows 2 ++ Net.toyFollows 3) = final) :
    Runs.Along (Net.micro .toy NodeConfig.toyFour)
      (Net.Replicates .toy NodeConfig.toyFour ![1, 2, 3, 4] ![1, 2, 3, 4] final) .toyFour
      (Net.toyProposes 1 0 ++ Net.toyFollows 2 ++ Net.toyFollows 3) := by
  have hsafe := (commitsSafely_toyFour hend).and keepsState_toyFour
  refine (delivers_toyFour.and (unforged_toyFour.and hsafe)).mono ?_
  exact fun net a ha => ⟨ha.1, ha.2.1, ha.2.2.1, ha.2.2.2⟩

theorem hashes_toyFour : ∀ b ∈ (Runs.run (Net.micro .toy NodeConfig.toyFour) .toyFour
    (Net.toyProposes 1 0) 0).node.store.chain,
    ∀ b' ∈ (Runs.run (Net.micro .toy NodeConfig.toyFour) .toyFour
      (Net.toyProposes 1 0 ++ Net.toyFollows 2) 2).node.store.chain,
    computeTxHash .toy b.transactions = computeTxHash .toy b'.transactions →
      b.transactions = b'.transactions := by
  decide +kernel

/-- The last follower has yet to store the block, and gets to the state of the first one. -/
theorem replicas_agree_toy : ∃ low high,
    (Runs.run (Net.micro .toy NodeConfig.toyFour) .toyFour
      (Net.toyProposes 1 0 ++ Net.toyFollows 2) 3).node = low ∧
    (Runs.run (Net.micro .toy NodeConfig.toyFour) .toyFour
      (Net.toyProposes 1 0 ++ Net.toyFollows 2) 0).node = high ∧
    high.store.SameState (replayChain .toy .default low.store
      (high.store.chain.drop low.store.chain.length ++ high.pendingBlock.toList)) := by
  refine ⟨_, _, rfl, rfl, ?_⟩
  have hhash : (Runs.run (Net.micro .toy NodeConfig.toyFour) .toyFour
      (Net.toyProposes 1 0 ++ Net.toyFollows 2)).TxHashesDistinct .toy := by
    decide +kernel
  exact replicas_agree (C := .toy) (i := 3) (j := 0) Net.setup_toyFour rfl
    NodeConfig.params_toyFour (fun _ _ => ⟨rfl, rfl⟩) (replicates_toyFour rfl) hhash rfl rfl
    (by decide +kernel) (by decide +kernel)

end RoutineChain
