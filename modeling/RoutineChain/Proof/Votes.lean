import RoutineChain.Proof.Chain

/-!
# The votes of one node

A node signs the blocks it proposes and the proposals it accepts, and keeps no record of
either: the only guard is that nothing is stored yet at a proposal's height. So a signed
header has to be stored or pending until it is stored.

* `no_equivocation`: while that holds, the node signs one header per height.
* `attests_iff`: a follower signs before it executes, so its signature attests to the execution
  only of what a leader following the code has built from the follower's state.
-/

namespace RoutineChain

variable {C : Crypto} {cfg : NodeConfig} {n : Node} {b : Block}

@[simp] theorem mem_signedHeaders {log : List Effect} {H : BlockHeader} :
    H ∈ signedHeaders log ↔ .signed H ∈ log := by
  unfold signedHeaders
  rw [List.mem_filterMap]
  constructor
  · rintro ⟨e, he, hH⟩
    cases e <;> simp [Effect.header?] at hH
    exact hH ▸ he
  · exact fun h => ⟨_, h, rfl⟩

/-- The node has signed one header per height. -/
def SignsOnce (log : List Effect) : Prop :=
  ∀ H ∈ signedHeaders log, ∀ H' ∈ signedHeaders log, H.height = H'.height → H = H'

instance (log : List Effect) : Decidable (SignsOnce log) :=
  inferInstanceAs (Decidable (∀ H ∈ signedHeaders log, ∀ H' ∈ signedHeaders log, _ → _))

/-- The node still has what it signed: the header is stored at its height, or pending. -/
def Node.HasVote (n : Node) (H : BlockHeader) : Prop :=
  (∃ b, n.store.getBlock H.height = some b ∧ b.header = H) ∨
  ∃ pb, n.pendingBlock = some pb ∧ pb.header = H

/-- The step drops no vote and signs against none: a pending block times out only if its
header is stored, and a proposal that is signed passes the root check and is not another
block of the pending one's height. -/
def KeepsVotes (C : Crypto) (cfg : NodeConfig) (n : Node) : Micro → Prop
  | .finalize _ t => ∀ pb, n.pendingBlock = some pb → ¬ n.cons.isFinalized C pb →
      timedOut cfg t pb →
      ∃ b, n.store.getBlock pb.header.height = some b ∧ b.header = pb.header
  | .handleProposal => ∀ b rest, n.proposals = b :: rest → (n.signProposal C b).isSome →
      RootAccepted C cfg.params b n.store ∧
      ∀ pb, n.pendingBlock = some pb → pb.header.height = b.header.height →
        pb.header = b.header
  | _ => True

instance (C : Crypto) (cfg : NodeConfig) (n : Node) (m : Micro) :
    Decidable (KeepsVotes C cfg n m) := by
  unfold KeepsVotes
  split
  · exact inferInstanceAs (Decidable (∀ pb ∈ n.pendingBlock, _ → _ →
      ∃ b ∈ n.store.getBlock pb.header.height, b.header = pb.header))
  · exact inferInstanceAs (Decidable (∀ b rest, n.proposals = b :: rest →
      (n.signProposal C b).isSome → RootAccepted C cfg.params b n.store ∧
        ∀ pb ∈ n.pendingBlock, pb.header.height = b.header.height → pb.header = b.header))
  · infer_instance

/-- The node stores a chain, and nothing but its pending block at the height of that. -/
structure NodeVotes (C : Crypto) (n : Node) : Prop extends NodeChain C n where
  agree : ∀ pb, n.pendingBlock = some pb → ∀ b, n.store.getBlock pb.header.height = some b →
    b.header = pb.header

theorem NodeVotes.unique (h : NodeVotes C n) {H H' : BlockHeader} (hH : n.HasVote H)
    (hH' : n.HasVote H') (hheight : H.height = H'.height) : H = H' := by
  rcases hH with ⟨b, hb, rfl⟩ | ⟨pb, hpb, rfl⟩
  · rcases hH' with ⟨b', hb', rfl⟩ | ⟨pb', hpb', rfl⟩
    · rw [hheight, hb', Option.some_inj] at hb
      rw [hb]
    · exact h.agree pb' hpb' b (hheight ▸ hb)
  · rcases hH' with ⟨b', hb', rfl⟩ | ⟨pb', hpb', rfl⟩
    · exact (h.agree pb hpb b' (hheight ▸ hb')).symm
    · rw [hpb, Option.some_inj] at hpb'
      rw [hpb']

theorem Node.HasVote.stored {n' : Node} {H : BlockHeader} (hext : Extends n.store n'.store)
    (h : ∃ b, n.store.getBlock H.height = some b ∧ b.header = H) : n'.HasVote H := by
  obtain ⟨b, hb, rfl⟩ := h
  obtain ⟨b', hb', heq⟩ := hext.header _ b hb
  exact .inl ⟨b', hb', heq⟩

/-- A step that keeps the pending block keeps every vote. -/
theorem Node.HasVote.mono {n' : Node} {H : BlockHeader} (h : n.HasVote H)
    (hext : Extends n.store n'.store) (hp : n'.pendingBlock = n.pendingBlock) : n'.HasVote H := by
  rcases h with h | ⟨pb, hpb, hH⟩
  · exact .stored hext h
  · exact .inr ⟨pb, hp.trans hpb, hH⟩

theorem not_signed_ranEffects {P : Params} {t : Int64} {H : BlockHeader} :
    .signed H ∉ n.ranEffects P t := by
  simp [Node.ranEffects]

/-- With nothing pending, a vote is stored. -/
theorem Node.HasVote.of_idle {H : BlockHeader} (h : n.HasVote H) (hp : n.pendingBlock = none) :
    ∃ b, n.store.getBlock H.height = some b ∧ b.header = H := by
  rcases h with h | ⟨pb, hpb, -⟩
  · exact h
  · rw [hp] at hpb
    cases hpb

/-- A header that has just been stored. -/
theorem Node.HasVote.put {s : Store} {H : BlockHeader} (hs : n.store = s.putBlock b)
    (hH : b.header = H) : n.HasVote H := by
  subst hH
  exact .inl ⟨b, by rw [hs, Store.getBlock_putBlock_self], rfl⟩

/-- **One step stores nothing else at the height of the pending block.** -/
theorem nodeVotes_step {m : Micro} {out : Node × List Effect} (hs : n.Step C cfg m out)
    (h : NodeVotes C n) (hno : NoOverwrite C n m) (hkeep : KeepsVotes C cfg n m) :
    NodeVotes C out.1 := by
  refine ⟨(nodeChain_step hs h.toNodeChain hno).1, ?_⟩
  cases hs with
  | cosigned hp hv =>
    intro pb hpb
    cases hpb
    have hagree := h.agree _ hp
    exact hagree
  | finalized t t' hp hf => exact fun pb hpb => by cases hpb
  | discarded t hp hf ht => exact fun pb hpb => by cases hpb
  | @applied b rest sig hp hs hr =>
    have hclash := (hkeep b rest hp (by rw [hs]; rfl)).2
    intro pb hpb b' hb'
    rw [Store.getBlock_putBlock, ← (sameChain_replayBlock b n.store).getBlock] at hb'
    split at hb'
    case isTrue heq =>
      cases hb'
      exact (hclash pb hpb heq.symm).symm
    case isFalse => exact h.agree pb hpb b' hb'
  -- The follower has signed a header that it will not store.
  | diverged hp hs hr => exact absurd (hkeep _ _ hp (by rw [hs]; rfl)).1 hr
  | @proposed prev t t' hp hv hc hf =>
    -- The new pending block is above the tip, where nothing is stored.
    intro pb hpb b' hb'
    cases hpb
    rw [← (sameChain_ran cfg.params n t).getBlock] at hb'
    have hnone := h.chain.not_stored_next hno _ (UInt64.le_refl _)
    exact absurd (hnone.symm.trans hb') (by simp)
  | rejectedAll t' hp hv | committed t' hp hv hc hf | solo t' hp hv hc =>
    exact fun pb hpb => absurd hpb hp.not_pending
  | _ => exact h.agree

/-- **One step keeps the votes.** -/
theorem hasVote_step {m : Micro} {out : Node × List Effect} (hs : n.Step C cfg m out)
    (h : NodeVotes C n) (hno : NoOverwrite C n m) (hkeep : KeepsVotes C cfg n m)
    {H : BlockHeader} (hH : n.HasVote H) : out.1.HasVote H := by
  have hext : Extends n.store out.1.store := (nodeChain_step hs h.toNodeChain hno).2
  cases hs with
  | cosigned hp hv =>
    rcases hH with hH | ⟨pb, hpb, rfl⟩
    · exact .inl hH
    · rw [hp, Option.some_inj] at hpb
      exact .inr ⟨_, rfl, by rw [hpb]⟩
  | finalized t t' hp hf =>
    rcases hH with hH | ⟨pb, hpb, rfl⟩
    · exact .stored hext hH
    · rw [hp, Option.some_inj] at hpb
      exact .put rfl (by rw [hpb])
  | @discarded pb t t' hp hf ht =>
    rcases hH with hH | ⟨pb', hpb, rfl⟩
    · exact .inl hH
    -- The vote for the dropped block is kept by the stored copy of its header.
    · rw [hp, Option.some_inj] at hpb
      subst hpb
      exact .inl (hkeep pb hp hf ht)
  | proposed t' hp hv hc hf | committed t' hp hv hc hf | solo t' hp hv hc =>
    exact .stored hext (hH.of_idle hp.idle)
  | _ => exact hH.mono hext rfl

/-- **One step has the votes that it casts.** -/
theorem signed_step {m : Micro} {out : Node × List Effect} (hs : n.Step C cfg m out)
    (hkeep : KeepsVotes C cfg n m) {H : BlockHeader} (hH : .signed H ∈ out.2) :
    out.1.HasVote H := by
  cases hs with
  | @applied b rest sig hp hs hr =>
    have hH : H = b.header := by simpa using hH
    exact .put rfl hH.symm
  | diverged hp hs hr => exact absurd (hkeep _ _ hp (by rw [hs]; rfl)).1 hr
  | rejectedAll t' hp hv => exact absurd hH not_signed_ranEffects
  | @proposed prev t t' hp hv hc hf =>
    have hH : H = (n.block C cfg.params prev t).header := by
      simpa [not_signed_ranEffects] using hH
    exact .inr ⟨_, rfl, hH.symm⟩
  | @committed prev t t' hp hv hc hf | @solo prev t t' hp hv hc =>
    have hH : H = (n.block C cfg.params prev t).header := by
      simpa [not_signed_ranEffects] using hH
    exact .put rfl hH.symm
  | _ => simp at hH

/-! ## Runs -/

/-- The steps after which every vote is still stored or pending. -/
def VotesSafely (C : Crypto) (cfg : NodeConfig) (p : Process) (m : Micro) : Prop :=
  NoOverwrite C p.node m ∧ KeepsVotes C cfg p.node m

/-- A process whose votes are all stored or pending. -/
structure ProcessVotes (C : Crypto) (p : Process) : Prop where
  node : NodeVotes C p.node
  voted : ∀ H, .signed H ∈ p.log → p.node.HasVote H

theorem processVotes_step {p : Process} {m : Micro} (h : ProcessVotes C p)
    (hm : VotesSafely C cfg p m) : ProcessVotes C (p.micro C cfg m) := by
  have hs : p.node.Step C cfg m (p.node.micro C cfg m) := micro_step p.node m
  refine ⟨nodeVotes_step hs h.node hm.1 hm.2, ?_⟩
  intro H hH
  rcases List.mem_append.1 hH with hH | hH
  · exact hasVote_step hs h.node hm.1 hm.2 (h.voted H hH)
  · exact signed_step hs hm.2 hH

section Run

variable {id : Id} {key : BitVec 256} {store : Store} {now : StartClock} {ms : List Micro}

theorem processVotes_start (h : ChainOK C (Process.start cfg id key store now).node.store) :
    ProcessVotes C (Process.start cfg id key store now) := by
  refine ⟨⟨nodeChain_start h, fun pb hpb => by cases hpb⟩, ?_⟩
  intro H hH
  cases mem_log_start hH

theorem ProcessVotes.unique {p : Process} (h : ProcessVotes C p) : SignsOnce p.log := by
  intro H hH H' hH'
  exact h.node.unique (h.voted H (mem_signedHeaders.1 hH)) (h.voted H' (mem_signedHeaders.1 hH'))

/-- **No equivocation.** In a run that keeps its votes, a node signs one header per height. -/
theorem no_equivocation (hstart : ChainOK C (Process.start cfg id key store now).node.store)
    (h : Runs.Along (Process.micro C cfg) (VotesSafely C cfg)
      (Process.start cfg id key store now) ms) :
    SignsOnce (Runs.run (Process.micro C cfg) (Process.start cfg id key store now) ms).log :=
  (Runs.inv_run (fun _ _ hp hm => processVotes_step hp hm) (processVotes_start hstart) h).unique

end Run

/-- The block of height 2 that node 3 proposes on top of node 2's. -/
def Block.toyNext : Block :=
  (Runs.run (Process.iterate .toy (.toy [1, 2])) (.start (.toy [1, 2]) 3 3 .toyGenesis ⟨0, 0⟩)
    [⟨[], [.propose .toyOwn], .at 2500⟩, ⟨[], [.submitTx .toySettlement], .at 3000⟩]
    ).node.pendingBlock.getD (.genesis 0 0)

/-- It reaches node 2. -/
def Input.toyNext : Input := ⟨[], [.propose .toyNext], .at 3500⟩

theorem Input.toyNext_micros : microsOf [.toyNext] =
    [.recv (.propose .toyNext), .finalize 3500 3500, .handleProposal, .feed,
      .viewChange 3500 3500, .produce 3500 3500] := rfl

/-- Node 2 signs its own block, stores it with the signature of node 1, and signs the block
that node 3 has put on top of it. -/
theorem no_equivocation_toy : SignsOnce (Runs.run (Process.micro .toy (.toy [1, 3])) .toyLeader
    (microsOf [.toySubmit] ++ microsOf [.toyLate] ++ microsOf [.toyNext])).log := by
  have hkeeps : Runs.Along (Process.micro .toy (.toy [1, 3]))
      (fun p m => KeepsVotes .toy (.toy [1, 3]) p.node m) .toyLeader
      (microsOf [.toySubmit] ++ microsOf [.toyLate] ++ microsOf [.toyNext]) := by
    decide +kernel
  have hidle : (Runs.run (Process.micro .toy (.toy [1, 3]))
      (Runs.run (Process.micro .toy (.toy [1, 3])) .toyLeader
        (microsOf [.toySubmit] ++ microsOf [.toyLate]))
      [.recv (.propose .toyNext)]).node.pendingBlock = none := by
    decide +kernel
  have hnext : (Runs.run (Process.micro .toy (.toy [1, 3]))
      (Runs.run (Process.micro .toy (.toy [1, 3])) .toyLeader
        (microsOf [.toySubmit] ++ microsOf [.toyLate]))
      [.recv (.propose .toyNext), .finalize 3500 3500, .handleProposal, .feed,
        .viewChange 3500 3500]).node.store.getLatestHeight + 1 ≠ 0 := by
    decide +kernel
  have hfree : Runs.Along (Process.micro .toy (.toy [1, 3]))
      (fun p m => NoOverwrite .toy p.node m) .toyLeader
      (microsOf [.toySubmit] ++ microsOf [.toyLate] ++ microsOf [.toyNext]) := by
    refine Runs.along_append.2 ⟨noOverwrite_toyLate, ?_⟩
    rw [Input.toyNext_micros]
    refine ⟨trivial, ?_, trivial, trivial, trivial, hnext, trivial⟩
    intro pb hpb
    exact absurd (hidle.symm.trans hpb) (by simp)
  have hsafely := hfree.and hkeeps
  unfold Process.toyLeader at hsafely ⊢
  exact no_equivocation chainOK_toyLeader hsafely

/-- Node 2 signs the rival block while its own is pending. -/
theorem equivocation : ¬ ∀ inps,
    SignsOnce (Runs.run (Process.iterate .toy (.toy [1, 3])) .toyLeader inps).log := by
  intro h
  have hall := h [.toySubmit, .toyRace]
  revert hall
  decide +kernel

/-! ## What a follower's signature attests to -/

/-- A follower signs a block that passes these checks. -/
theorem signProposal_eq_some (h : Votable C n b) :
    n.signProposal C b = some (n.cons.signHeader C b.header) := by
  obtain ⟨hfree, ⟨h0, prev, hprev, hlink⟩, hprop, hsigned, htx⟩ := h
  have hgen : b.isGenesis = false := by simpa [Block.isGenesis] using h0
  simp only [Node.signProposal, hgen, hfree, hprev, Option.isSome_none, Bool.false_eq_true,
    if_false]
  exact verifyAndSign_eq_some.2 ⟨⟨hprop, hlink, hsigned, htx⟩, rfl⟩

theorem broadcast_of_votable (h : Votable C n b) :
    .broadcast (.sign b.header.height (n.cons.signHeader C b.header)) ∈
      (n.handleProposal C cfg b).2 := by
  simp only [Node.handleProposal, signProposal_eq_some h]
  -- signed and sent before the block is applied
  split <;> simp

/-- If a signature is broadcast, the block applies, its root is reproduced, and it is stored. -/
def Attests (C : Crypto) (cfg : NodeConfig) (n : Node) (b : Block) : Prop :=
  (∃ sig, .broadcast (.sign b.header.height sig) ∈ (n.handleProposal C cfg b).2) →
    (∃ events s', (applyBlock C cfg.params b).run n.store = .ok events s') ∧
    computeStateRoot C (replayBlock C cfg.params b n.store).store = b.header.stateRoot ∧
    (n.handleProposal C cfg b).1.store.getBlock b.header.height = some b

/-- A node that follows the code builds the block: on its turn it runs a signed pool, what it
rejects leaves nothing behind, and something succeeds. -/
structure Node.Builds (C : Crypto) (P : Params) (leader : Node) (b : Block) : Prop where
  built : ∃ prev, leader.Produces P prev b.header.timestamp ∧
    b.header = (leader.block C P prev b.header.timestamp).header ∧
    b.transactions = (leader.block C P prev b.header.timestamp).transactions
  success : b.transactions ≠ []
  signed : ∀ tx ∈ leader.cons.pendingTxs, verifyTxSignature C tx
  clean : CleanRejects P b.header.timestamp leader.store leader.cons.pendingTxs

/-- Such a node has built the block from the state that this node is in. -/
def BuiltInState (C : Crypto) (P : Params) (n : Node) (b : Block) : Prop :=
  ∃ leader : Node, leader.store.SameState n.store ∧ leader.Builds C P b

/-- The block is right above the tip, and its transactions are signed, counted, and succeed
one after the other; its state root is left open. -/
structure Executable (C : Crypto) (P : Params) (n : Node) (b : Block) : Prop where
  height : b.header.height = n.store.getLatestHeight + 1
  txCount : b.header.txCount = .ofNat b.transactions.length
  nonempty : b.transactions ≠ []
  signed : ∀ tx ∈ b.transactions, verifyTxSignature C tx
  succeed : (leaderExecute P b.header.timestamp b.transactions n.store).validTxs = b.transactions

/-- The follower reproduces the root of a block that was built from its state. -/
theorem BuiltInState.root {P : Params} (h : BuiltInState C P n b) :
    computeStateRoot C (replayBlock C P b n.store).store = b.header.stateRoot := by
  obtain ⟨leader, hstate, ⟨prev, -, hheader, htxs⟩, -, hsigned, hclean⟩ := h
  have hleader : (replayBlock C P b leader.store).store.SameState
      (leaderExecute P b.header.timestamp leader.cons.pendingTxs leader.store).store :=
    replay_clean hsigned hclean htxs
  rw [(hstate.symm.replayBlock b).root, hleader.root]
  exact (congrArg BlockHeader.stateRoot hheader).symm

/-- A node with the same validators, under the name of another one. -/
def Consensus.inNameOf (c : Consensus) (id : Id) : Consensus :=
  { c with
    nodeId := id
    peers := (c.allNodeIds.erase id).map fun x => { id := x, address := "", publicKey := x } }

theorem Consensus.allNodeIds_inNameOf {c : Consensus} {id : Id} (h : id ∈ c.allNodeIds) :
    (c.inNameOf id).allNodeIds = c.allNodeIds := by
  have hperm : ((c.inNameOf id).nodeId :: (c.inNameOf id).peers.map (·.id)).Perm
      c.allNodeIds := by
    unfold inNameOf
    simp only [List.map_map, Function.comp_def, List.map_id']
    exact (List.perm_cons_erase h).symm
  rw [allNodeIds_of_perm hperm]
  exact (List.pairwise_insertionSort (· ≤ ·) _).insertionSort_eq

/-- A block that could be built from the node's state, and has its root, is the block of its
proposer with these transactions in the pool. -/
theorem builtInState_of_root {P : Params} (hv : Votable C n b) (he : Executable C P n b)
    (hroot : computeStateRoot C (replayBlock C P b n.store).store = b.header.stateRoot) :
    BuiltInState C P n b := by
  obtain ⟨-, prev, hprev, hlink⟩ := hv.linked
  have hproposer : b.header.proposer = n.cons.leaderForHeight b.header.height :=
    beq_iff_eq.1 hv.proposer
  let leader : Node :=
    { n with
      cons := { n.cons.inNameOf b.header.proposer with pendingTxs := b.transactions }
      pendingBlock := none }
  have hids : leader.cons.allNodeIds = n.cons.allNodeIds :=
    Consensus.allNodeIds_inNameOf (hproposer ▸ Consensus.leader_mem _ _)
  have hlead : leader.cons.isLeader (leader.store.getLatestHeight + 1) := by
    refine beq_iff_eq.2 ?_
    show leader.cons.leaderForHeightRound (n.store.getLatestHeight + 1) n.cons.round =
      b.header.proposer
    rw [Consensus.leader_congr hids, ← he.height, hproposer]
    rfl
  have hreplay : (replayBlock C P b n.store).store =
      (leaderExecute P b.header.timestamp b.transactions n.store).store := by
    rw [leaderExecute_store]
    exact replay_verified { store := n.store } he.signed
  have hvalid := he.succeed
  refine ⟨leader, ⟨rfl, rfl⟩, ⟨prev, ⟨rfl, hlead, he.height ▸ hprev⟩, ?_, hvalid.symm⟩,
    he.nonempty, he.signed, ?_⟩
  -- field by field, the header is that of the leader's block
  · have hheader : (leader.block C P prev b.header.timestamp).header =
        { height := n.store.getLatestHeight + 1, prevHash := blockHeaderHash C prev.header,
          timestamp := b.header.timestamp, txCount := .ofNat b.transactions.length,
          txHash := computeTxHash C b.transactions,
          stateRoot := computeStateRoot C (replayBlock C P b n.store).store,
          proposer := b.header.proposer } := by
      unfold Node.block buildBlock
      rw [hreplay]
      show BlockHeader.mk _ _ _ (.ofNat (leaderExecute P b.header.timestamp b.transactions
        n.store).validTxs.length) (computeTxHash C (leaderExecute P b.header.timestamp
        b.transactions n.store).validTxs) _ _ = _
      rw [hvalid]
      rfl
    rw [hheader, ← he.height, ← hlink, ← he.txCount, hv.txHash, hroot]
  · refine cleanRejects_of_valid ?_
    rw [← leaderExecute_validTxs]
    exact hvalid

/-- A block that fails a check made before signing is not signed. -/
theorem attests_of_not_votable (h : ¬ Votable C n b) : Attests C cfg n b := by
  rintro ⟨sig, hsig⟩
  cases hs : n.signProposal C b with
  | none => simp [Node.handleProposal, hs] at hsig
  | some sig' => exact absurd (signProposal_spec hs).1 h

/-- A block whose root the follower reproduces is applied and stored. -/
theorem attests_of_root (hv : Votable C n b)
    (hroot : computeStateRoot C (replayBlock C cfg.params b n.store).store =
      b.header.stateRoot) : Attests C cfg n b := by
  intro _
  have hrun := applyBlock_accepted (.inr hroot : RootAccepted C cfg.params b n.store)
  refine ⟨⟨_, _, hrun⟩, hroot, ?_⟩
  simp only [Node.handleProposal, signProposal_eq_some hv, hrun]
  exact Store.getBlock_putBlock_self _ _

/-- **A follower's signature attests to the execution** of a block that fails a check made
before signing, or that a leader following the code has built from the follower's state; and
of the blocks with transactions that a leader could have built there, of these only. -/
theorem attests_iff :
    (¬ Votable C n b ∨ BuiltInState C cfg.params n b → Attests C cfg n b) ∧
    (Executable C cfg.params n b →
      (Attests C cfg n b ↔ ¬ Votable C n b ∨ BuiltInState C cfg.params n b)) := by
  have henough : ¬ Votable C n b ∨ BuiltInState C cfg.params n b → Attests C cfg n b := by
    intro h
    by_cases hv : Votable C n b
    · exact attests_of_root hv (h.resolve_left (not_not_intro hv)).root
    · exact attests_of_not_votable hv
  refine ⟨henough, ?_⟩
  intro he
  refine ⟨?_, henough⟩
  intro hatt
  by_cases hv : Votable C n b
  · exact .inr (builtInState_of_root hv he (hatt ⟨_, broadcast_of_votable hv⟩).2.1)
  · exact .inl hv

/-- Node 1, a follower. -/
abbrev Process.toyFollower : Process := .start (.toy [2, 3]) 1 1 .toyGenesis ⟨0, 0⟩

/-- Node 2 with the registration in its pool. -/
def Node.toyPooled : Node :=
  (Runs.run (Process.micro .toy (.toy [1, 3])) .toyLeader
    [.recv (.submitTx .toyRegister), .feed]).node

/-- Node 1 signs the block of node 2, which is in the same state. -/
theorem attests_iff_toy : Attests .toy (.toy [2, 3]) Process.toyFollower.node .toyOwn := by
  have hprev : Node.toyPooled.store.getBlock (Node.toyPooled.store.getLatestHeight + 1 - 1) =
      some (.genesis 0 1) := by
    decide +kernel
  have hproduces : Node.toyPooled.Produces .default (.genesis 0 1)
      Block.toyOwn.header.timestamp := ⟨rfl, by decide +kernel, hprev⟩
  refine attests_iff.1 (.inr ⟨.toyPooled, ⟨rfl, rfl⟩, ⟨_, hproduces, ?_, ?_⟩, ?_, ?_, ?_⟩)
  · decide +kernel
  · decide +kernel
  · decide +kernel
  · decide +kernel
  · exact cleanRejects_of_valid (by decide +kernel)

/-- Node 2's block with another state root, signed again. -/
def Block.toyWrongRoot : Block :=
  let header := { Block.toyOwn.header with stateRoot := 1 }
  { Block.toyOwn with header, signatures := [⟨2, Crypto.toy.sign (Bincode.serialize header) 2⟩] }

/-- Node 1 signs it, and cannot reproduce its root. -/
theorem attests_fails : ¬ ∀ b, Attests .toy (.toy [2, 3]) Process.toyFollower.node b := by
  intro h
  have hvotable : Votable .toy Process.toyFollower.node .toyWrongRoot := by
    have hsome : (Process.toyFollower.node.signProposal .toy .toyWrongRoot).isSome := by
      decide +kernel
    obtain ⟨sig, hsig⟩ := Option.isSome_iff_exists.1 hsome
    exact (signProposal_spec hsig).1
  have hroot : computeStateRoot .toy (replayBlock .toy (NodeConfig.toy [2, 3]).params
      .toyWrongRoot Process.toyFollower.node.store).store ≠
        Block.toyWrongRoot.header.stateRoot := by
    decide +kernel
  exact hroot (h .toyWrongRoot ⟨_, broadcast_of_votable hvotable⟩).2.1

end RoutineChain
