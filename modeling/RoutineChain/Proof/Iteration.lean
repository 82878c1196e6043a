import RoutineChain.Proof.ChainState
import RoutineChain.Proof.Genesis
import RoutineChain.Proof.Progress
import RoutineChain.Proof.Wire

/-!
# One iteration of a node that has nothing else to do

What the loop makes of the messages of a round, one iteration each, on a node that has nothing
pending, and at a clock that does not call for a view change.

* `iterate_lead`: a pool of valid transactions becomes the pending block.
* `iterate_follow`: a proposal is signed and stored.
* `iterate_commit`: the signatures make the pending block final.
-/

namespace RoutineChain

variable {C : Crypto} {cfg : NodeConfig} {n : Node} {b : Block} {p : Process} {clk : Clock}

/-- The clock of an iteration does not call for a view change. -/
def Node.Calm (cfg : NodeConfig) (n : Node) (clk : Clock) : Prop :=
  ¬ clk.elapsed - n.lastBlockTimeMs > cfg.viewChangeTimeoutMs.toInt64

/-- The node in another round, with other votes. -/
def Node.turned (n : Node) (round : UInt32) (votes : UInt64 → UInt32 → Finset Id) : Node :=
  { n with cons := { n.cons with round, viewChangeVotes := votes } }

/-- Nothing waits in the node. -/
structure Node.Idle (n : Node) : Prop where
  pending : n.pendingBlock = none
  incoming : n.incomingTxs = []
  proposals : n.proposals = []
  pool : n.cons.pendingTxs = []
  receiver : n.cons.txReceiver = []

theorem micro_finalize_idle (hp : n.pendingBlock = none) (t t' : Int64) :
    n.micro C cfg (.finalize t t') = (n, []) := by
  simp [Node.micro, Node.finalize, hp]

theorem micro_viewChange_calm (hcalm : n.Calm cfg clk) (t : Int64) :
    n.micro C cfg (.viewChange clk.elapsed t) = (n, []) := by
  unfold Node.Calm at hcalm
  simp [Node.micro, Node.viewChange, hcalm]

theorem micro_feed_idle (h : n.Idle) : n.micro C cfg .feed = (n, []) := by
  obtain ⟨⟨_, _, _, _, pool, receiver, _, _⟩, _, _, _, incoming, _⟩ := n
  obtain ⟨-, rfl, -, rfl, rfl⟩ : _ ∧ incoming = [] ∧ _ ∧ pool = [] ∧ receiver = [] :=
    ⟨h.pending, h.incoming, h.proposals, h.pool, h.receiver⟩
  rfl

theorem micro_produce_idle (hpool : n.cons.pendingTxs = []) (t t' : Int64) :
    n.micro C cfg (.produce t t') = (n, []) := by
  simp [Node.micro, Node.produce, Consensus.hasPendingTxs, hpool]

/-- A step of a run whose outcome is known. -/
theorem run_micro {m : Micro} {n' : Node} {log es : List Effect} (ms : List Micro)
    (h : n.micro C cfg m = (n', es)) :
    Runs.run (Process.micro C cfg) { node := n, log } (m :: ms) =
      Runs.run (Process.micro C cfg) { node := n', log := log ++ es } ms := by
  rw [Runs.run_cons, Process.micro, h]

/-- A step that does nothing. -/
theorem run_micro_idle {m : Micro} {log : List Effect} (ms : List Micro)
    (h : n.micro C cfg m = (n, [])) :
    Runs.run (Process.micro C cfg) { node := n, log } (m :: ms) =
      Runs.run (Process.micro C cfg) { node := n, log } ms := by
  rw [run_micro ms h, List.append_nil]

/-- **The end of an iteration changes nothing** in a node where nothing waits. -/
theorem run_tail {log : List Effect} (h : n.Idle) (hcalm : n.Calm cfg clk) :
    Runs.run (Process.micro C cfg) { node := n, log }
      [.feed, .viewChange clk.elapsed clk.viewChanged, .produce clk.block clk.produced] =
        { node := n, log } := by
  rw [run_micro_idle _ (micro_feed_idle h), run_micro_idle _ (micro_viewChange_calm hcalm _),
    run_micro_idle _ (micro_produce_idle h.pool _ _), Runs.run_nil]

/-! ## A proposal -/

/-- The node after it has stored a proposal. -/
def Node.followed (C : Crypto) (P : Params) (n : Node) (b : Block) : Node :=
  { n with store := (replayBlock C P b n.store).store.putBlock b }

/-- What a node does to store a proposal. -/
def Node.followEffects (C : Crypto) (P : Params) (n : Node) (b : Block) : List Effect :=
  [.signed b.header, .broadcast (.sign b.header.height (n.cons.signHeader C b.header))] ++
    (replayBlock C P b n.store).ran.map .executed ++ [.stored n.cons b]

theorem micros_propose (b : Block) (clk : Clock) : Input.micros ⟨[], [.propose b], clk⟩ =
    .recv (.propose b) :: .finalize clk.finalized clk.age :: .handleProposal ::
      [.feed, .viewChange clk.elapsed clk.viewChanged, .produce clk.block clk.produced] := rfl

theorem micro_recv_propose (hpeers : cfg.peers ≠ []) (h : n.Idle) (b : Block) :
    n.micro C cfg (.recv (.propose b)) = ({ n with proposals := [b] }, []) := by
  simp only [Node.micro, Node.recv]
  rw [if_neg (mt List.length_eq_zero_iff.1 hpeers), h.proposals]
  rfl

theorem micro_handle_votable (h : n.Idle) (hv : Votable C n b)
    (hr : RootAccepted C cfg.params b n.store) :
    ({ n with proposals := [b] } : Node).micro C cfg .handleProposal =
      (n.followed C cfg.params b, n.followEffects C cfg.params b) := by
  have hnil : ({ n with proposals := [] } : Node) = n := by rw [← h.proposals]
  show Node.handleProposal C cfg { n with proposals := [] } b = _
  rw [hnil, Node.handleProposal, signProposal_eq_some hv]
  simp only [applyBlock_accepted hr]
  rfl

/-- **A proposal is signed and stored.** -/
theorem iterate_follow {log : List Effect} (hpeers : cfg.peers ≠ []) (h : n.Idle)
    (hcalm : n.Calm cfg clk) (hv : Votable C n b) (hr : RootAccepted C cfg.params b n.store) :
    Process.iterate C cfg { node := n, log } ⟨[], [.propose b], clk⟩ =
      { node := n.followed C cfg.params b, log := log ++ n.followEffects C cfg.params b } := by
  have hfollowed : (n.followed C cfg.params b).Idle :=
    ⟨h.pending, h.incoming, h.proposals, h.pool, h.receiver⟩
  rw [Process.iterate, micros_propose, run_micro _ (micro_recv_propose hpeers h b), List.append_nil,
    run_micro_idle _ (micro_finalize_idle (n := { n with proposals := [b] }) h.pending _ _),
    run_micro _ (micro_handle_votable h hv hr)]
  exact run_tail hfollowed hcalm

/-! ## A block of the leader -/

section Lead

variable {txs : List Transaction} {prev : Block} {log : List Effect}

/-- The node with a pool. -/
def Node.pooled (n : Node) (txs : List Transaction) : Node :=
  { n with cons := { n.cons with pendingTxs := txs } }

/-- The node with the store `s`, waiting for signatures on `b`. -/
def Node.awaiting (n : Node) (s : Store) (b : Block) : Node :=
  { n with store := s, pendingBlock := some b }

theorem micros_submits (txs : List Transaction) (clk : Clock) :
    Input.micros ⟨[], txs.map .submitTx, clk⟩ =
      txs.map (.recv <| .submitTx ·) ++ .finalize clk.finalized clk.age ::
        [.feed, .viewChange clk.elapsed clk.viewChanged, .produce clk.block clk.produced] := by
  have hcountP : (txs.map ConsensusMessage.submitTx).countP (·.isPropose) = 0 := by
    simp [List.countP_eq_zero, ConsensusMessage.isPropose]
  simp [Input.micros, hcountP]

theorem run_submits (hpeers : cfg.peers ≠ []) (ms : List Micro) :
    Runs.run (Process.micro C cfg) { node := n, log } (txs.map (.recv <| .submitTx ·) ++ ms) =
      Runs.run (Process.micro C cfg)
        { node := { n with incomingTxs := n.incomingTxs ++ txs }, log } ms := by
  induction txs generalizing n with
  | nil =>
    rw [List.append_nil]
    rfl
  | cons tx txs ih =>
    have hrecv : n.micro C cfg (.recv (.submitTx tx)) =
        ({ n with incomingTxs := n.incomingTxs ++ [tx] }, []) := by
      simp only [Node.micro, Node.recv]
      rw [if_neg (mt List.length_eq_zero_iff.1 hpeers)]
    rw [List.map_cons, List.cons_append, run_micro _ hrecv, List.append_nil, ih]
    simp only [List.append_assoc, List.singleton_append]

theorem micro_feed_incoming (h : n.Idle) :
    ({ n with incomingTxs := txs } : Node).micro C cfg .feed =
      (n.pooled txs, txs.map .pooled) := by
  have hcons : (n.cons.pushTxs txs).collectPendingTxs = { n.cons with pendingTxs := txs } := by
    simp [Consensus.pushTxs, Consensus.collectPendingTxs, h.pool, h.receiver]
  simp only [Node.micro, Node.feed, hcons, h.receiver, List.append_nil, Node.pooled, h.incoming]

/-- **A leader proposes its pool** if all of it is valid, and waits for signatures. -/
theorem micro_produce_pooled {t : Int64} (t' : Int64) (h : n.Idle) (hpeers : 0 < n.cons.peerCount)
    (hlead : n.cons.isLeader (n.store.getLatestHeight + 1))
    (hprev : n.store.getBlock (n.store.getLatestHeight + 1 - 1) = some prev) (hne : txs ≠ [])
    (hvalid : validOf cfg.params t n.store txs = txs)
    (hf : ¬ n.cons.isFinalized C ((n.pooled txs).block C cfg.params prev t)) :
    ∃ es, (n.pooled txs).micro C cfg (.produce t t') =
        (n.awaiting (runAll cfg.params t n.store txs)
          ((n.pooled txs).block C cfg.params prev t), es) ∧
      .broadcast (.propose ((n.pooled txs).block C cfg.params prev t)) ∈ es := by
  have hp : (n.pooled txs).Produces cfg.params prev t := ⟨h.pending, hlead, hprev⟩
  have htxs : (leaderExecute cfg.params t txs n.store).validTxs = txs := by
    rw [leaderExecute_validTxs, hvalid]
  have hv : (leaderExecute cfg.params t (n.pooled txs).cons.pendingTxs
      (n.pooled txs).store).validTxs ≠ [] := ne_of_eq_of_ne htxs hne
  have hmem := propose_of_produces (C := C) t' hp hv hpeers
  have hs : (n.pooled txs).Step C cfg (.produce t t') ((n.pooled txs).produce C cfg t t') :=
    produce_step _ t t'
  show ∃ es, (n.pooled txs).produce C cfg t t' = _ ∧ _
  generalize (n.pooled txs).produce C cfg t t' = out at hs hmem ⊢
  -- Only a proposal sends the block, and this one is not final yet.
  cases hs with
  | idle => cases hmem
  | rejectedAll _ hp' hv' => exact absurd hv' hv
  | proposed _ hp' _ _ _ =>
    obtain rfl := Option.some_inj.1 (hp'.prev.symm.trans hprev)
    refine ⟨_, Prod.ext ?_ rfl, hmem⟩
    have hnil : ({ n.cons with pendingTxs := [] } : Consensus) = n.cons := by rw [← h.pool]
    unfold Node.ran Node.awaiting
    rw [leaderExecute_store]
    exact congrArg (fun c => ({ n with
      cons := c
      store := runAll cfg.params t n.store txs
      pendingBlock := some ((n.pooled txs).block C cfg.params _ t) } : Node)) hnil
  | committed _ hp' _ _ hf' =>
    obtain rfl := Option.some_inj.1 (hp'.prev.symm.trans hprev)
    exact absurd hf' hf
  | solo _ _ _ hc => exact absurd hc hpeers.ne'

/-- **A pool of valid transactions becomes the pending block**, and is sent. -/
theorem iterate_lead (hpeers : cfg.peers ≠ []) (h : n.Idle) (hcalm : n.Calm cfg clk)
    (hcount : 0 < n.cons.peerCount) (hlead : n.cons.isLeader (n.store.getLatestHeight + 1))
    (hprev : n.store.getBlock (n.store.getLatestHeight + 1 - 1) = some prev) (hne : txs ≠ [])
    (hvalid : validOf cfg.params clk.block n.store txs = txs)
    (hf : ¬ n.cons.isFinalized C ((n.pooled txs).block C cfg.params prev clk.block)) :
    ∃ es, Process.iterate C cfg { node := n, log } ⟨[], txs.map .submitTx, clk⟩ =
        { node := n.awaiting (runAll cfg.params clk.block n.store txs)
            ((n.pooled txs).block C cfg.params prev clk.block)
          log := log ++ es } ∧
      .broadcast (.propose ((n.pooled txs).block C cfg.params prev clk.block)) ∈ es := by
  obtain ⟨es, hproduce, hmem⟩ :=
    micro_produce_pooled clk.produced h hcount hlead hprev hne hvalid hf
  have hincoming : n.incomingTxs ++ txs = txs := by rw [h.incoming, List.nil_append]
  refine ⟨txs.map .pooled ++ es, ?_, List.mem_append_right _ hmem⟩
  rw [Process.iterate, micros_submits, run_submits hpeers, hincoming,
    run_micro_idle _ (micro_finalize_idle (n := { n with incomingTxs := txs }) h.pending _ _),
    run_micro _ (micro_feed_incoming h),
    run_micro_idle _ (micro_viewChange_calm (n := n.pooled txs) hcalm _),
    run_micro _ hproduce, Runs.run_nil, List.append_assoc]

end Lead

/-! ## The signatures of the followers -/

section Commit

variable {s : Store} {sigs : List NodeSignature} {log : List Effect}

/-- The block with more signatures. -/
def Block.cosigned (b : Block) (sigs : List NodeSignature) : Block :=
  { b with signatures := b.signatures ++ sigs }

/-- The node after it has stored `b` on top of `s`. -/
def Node.committed (n : Node) (s : Store) (b : Block) (t : Int64) : Node :=
  { n with
    store := s.putBlock b, lastBlockTimeMs := t, cons := n.cons.resetRound, pendingBlock := none }

theorem run_signs (hpeers : cfg.peers ≠ [])
    (hv : ∀ sig ∈ sigs, n.cons.verifyBlockSignature C b sig) (ms : List Micro) :
    Runs.run (Process.micro C cfg) { node := n.awaiting s b, log }
        (sigs.map (.recv <| .sign b.header.height ·) ++ ms) =
      Runs.run (Process.micro C cfg) { node := n.awaiting s (b.cosigned sigs), log } ms := by
  induction sigs generalizing b with
  | nil =>
    unfold Block.cosigned
    rw [List.append_nil]
    rfl
  | cons sig sigs ih =>
    have hrecv : (n.awaiting s b).micro C cfg (.recv (.sign b.header.height sig)) =
        (n.awaiting s (b.cosigned [sig]), []) :=
      recv_sign hpeers rfl rfl (hv sig List.mem_cons_self)
    have hrest : ∀ sig' ∈ sigs, n.cons.verifyBlockSignature C (b.cosigned [sig]) sig' :=
      fun sig' hm => hv sig' (List.mem_cons_of_mem _ hm)
    have hnext := ih hrest
    rw [List.map_cons, List.cons_append, run_micro _ hrecv, List.append_nil]
    refine hnext.trans ?_
    unfold Block.cosigned
    simp only [List.append_assoc, List.singleton_append]

/-- **Enough signatures make the pending block final**, and it is stored. -/
theorem iterate_commit (hpeers : cfg.peers ≠ []) (h : n.Idle)
    (hcalm : (n.committed s (b.cosigned sigs) clk.finalized).Calm cfg clk)
    (hv : ∀ sig ∈ sigs, n.cons.verifyBlockSignature C b sig)
    (hf : n.cons.isFinalized C (b.cosigned sigs)) :
    Process.iterate C cfg { node := n.awaiting s b, log }
        ⟨[], sigs.map (.sign b.header.height), clk⟩ =
      { node := n.committed s (b.cosigned sigs) clk.finalized
        log := log ++ [.stored n.cons (b.cosigned sigs)] } := by
  have hmicros : Input.micros ⟨[], sigs.map (.sign b.header.height), clk⟩ =
      sigs.map (.recv <| .sign b.header.height ·) ++ .finalize clk.finalized clk.age ::
        [.feed, .viewChange clk.elapsed clk.viewChanged, .produce clk.block clk.produced] := by
    have hcountP : (sigs.map (ConsensusMessage.sign b.header.height)).countP (·.isPropose) = 0 := by
      simp [List.countP_eq_zero, ConsensusMessage.isPropose]
    simp [Input.micros, hcountP]
  have hfinalize : (n.awaiting s (b.cosigned sigs)).micro C cfg
      (.finalize clk.finalized clk.age) =
        (n.committed s (b.cosigned sigs) clk.finalized, [.stored n.cons (b.cosigned sigs)]) := by
    have hf' : (n.awaiting s (b.cosigned sigs)).cons.isFinalized C (b.cosigned sigs) := hf
    exact if_pos hf'
  have hidle : (n.committed s (b.cosigned sigs) clk.finalized).Idle :=
    ⟨rfl, h.incoming, h.proposals, h.pool, h.receiver⟩
  rw [Process.iterate, hmicros, run_signs hpeers hv, run_micro _ hfinalize]
  exact run_tail hidle hcalm

end Commit

end RoutineChain
