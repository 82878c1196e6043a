import RoutineChain.Proof.Replay
import RoutineChain.Spec.Node

/-!
# What a step of the loop does

`Node.Step` lists the outcomes of one step with what holds when each happens, and
`micro_step` says that there are no others. Every invariant of a node is proved by cases
on it.
-/

namespace RoutineChain

/-- The node once it has run its pool at time `t`. -/
def Node.ran (P : Params) (n : Node) (t : Int64) : Node :=
  { n with
    cons := { n.cons with pendingTxs := [] }
    store := (leaderExecute P t n.cons.pendingTxs n.store).store }

/-- The effects of running the pool. -/
def Node.ranEffects (P : Params) (n : Node) (t : Int64) : List Effect :=
  n.cons.pendingTxs.map .executed ++
    (leaderExecute P t n.cons.pendingTxs n.store).rejected.map .rejected

/-- The block that the node builds on `prev` at time `t`. -/
def Node.block (C : Crypto) (P : Params) (n : Node) (prev : Block) (t : Int64) : Block :=
  buildBlock C n.cons prev (n.store.getLatestHeight + 1) t
    (leaderExecute P t n.cons.pendingTxs n.store).validTxs
    (computeStateRoot C (leaderExecute P t n.cons.pendingTxs n.store).store)

/-- The node runs its pool on top of `prev`: nothing is pending, and it leads. -/
structure Node.Produces (P : Params) (n : Node) (prev : Block) (t : Int64) : Prop where
  idle : n.pendingBlock = none
  leads : n.cons.isLeader (n.store.getLatestHeight + 1)
  prev : n.store.getBlock (n.store.getLatestHeight + 1 - 1) = some prev

theorem Node.Produces.not_pending {P : Params} {n : Node} {prev pb : Block} {t : Int64}
    (hp : n.Produces P prev t) : n.pendingBlock ≠ some pb := by
  rw [hp.idle]
  exact (Option.some_ne_none pb).symm

/-- **The outcomes of one step.** -/
inductive Node.Step (C : Crypto) (cfg : NodeConfig) (n : Node) :
    Micro → Node × List Effect → Prop
  -- Nothing to do, or a guard fails: in every phase.
  | idle (m) : Step C cfg n m (n, [])
  -- A transaction of a client or of a peer waits for the next tick.
  | submitted {req now tx} (h : submitTx C now req = .ok tx) :
    Step C cfg n (.rpc req now) ({ n with incomingTxs := n.incomingTxs ++ [tx] }, [])
  | gossiped (tx) :
    Step C cfg n (.recv (.submitTx tx)) ({ n with incomingTxs := n.incomingTxs ++ [tx] }, [])
  -- Messages of the peers.
  | queued (b) :
    Step C cfg n (.recv (.propose b)) ({ n with proposals := n.proposals ++ [b] }, [])
  | cosigned {pb sig} (hp : n.pendingBlock = some pb)
      (hv : n.cons.verifyBlockSignature C pb sig) :
    Step C cfg n (.recv (.sign pb.header.height sig))
      ({ n with pendingBlock := some { pb with signatures := pb.signatures ++ [sig] } }, [])
  | heardVote (height round voter) :
    Step C cfg n (.recv (.viewChange height round voter))
      ({ n with cons := (n.cons.receiveViewChange height round voter).2 }, [])
  | discovered {id key address cons} (h : n.cons.addPeer id key address = (true, cons)) :
    Step C cfg n (.recv (.handshake id key address))
      ({ n with cons },
        [.sentTo { id, address, publicKey := key }
          (.handshake n.cons.nodeId n.cons.nodeId cfg.listenAddress)])
  -- The leader's pending block has its signatures, or has waited too long.
  | finalized {pb} (t t') (hp : n.pendingBlock = some pb) (hf : n.cons.isFinalized C pb) :
    Step C cfg n (.finalize t t')
      ({ n with
         store := n.store.putBlock pb, lastBlockTimeMs := t, cons := n.cons.resetRound,
         pendingBlock := none },
       [.stored n.cons pb])
  | discarded {pb} (t) {t'} (hp : n.pendingBlock = some pb) (hf : ¬ n.cons.isFinalized C pb)
      (ht : timedOut cfg t' pb) :
    Step C cfg n (.finalize t t')
      ({ n with pendingBlock := none }, [.discarded pb { n with pendingBlock := none }])
  -- A proposal is signed before it is applied: one with a wrong root keeps its signature.
  | declined {b rest} (hp : n.proposals = b :: rest) (hs : n.signProposal C b = none) :
    Step C cfg n .handleProposal ({ n with proposals := rest }, [])
  | applied {b rest sig} (hp : n.proposals = b :: rest) (hs : n.signProposal C b = some sig)
      (hr : RootAccepted C cfg.params b n.store) :
    Step C cfg n .handleProposal
      ({ n with
         proposals := rest, store := (replayBlock C cfg.params b n.store).store.putBlock b },
       [.signed b.header, .broadcast (.sign b.header.height sig)] ++
         (replayBlock C cfg.params b n.store).ran.map .executed ++ [.stored n.cons b])
  | diverged {b rest sig} (hp : n.proposals = b :: rest) (hs : n.signProposal C b = some sig)
      (hr : ¬ RootAccepted C cfg.params b n.store) :
    Step C cfg n .handleProposal
      ({ n with proposals := rest, store := (replayBlock C cfg.params b n.store).store },
       [.signed b.header, .broadcast (.sign b.header.height sig)] ++
         (replayBlock C cfg.params b n.store).ran.map .executed)
  | fed :
    Step C cfg n .feed
      ({ n with cons := (n.cons.pushTxs n.incomingTxs).collectPendingTxs, incomingTxs := [] },
       (n.incomingTxs ++ n.cons.txReceiver).map .pooled)
  | calledVote {changed cons} (t t')
      (h : n.cons.requestViewChange (n.store.getLatestHeight + 1) = (changed, cons)) :
    Step C cfg n (.viewChange t t')
      ({ n with cons, lastBlockTimeMs := if changed then t' else n.lastBlockTimeMs },
       [.broadcast
         (.viewChange (n.store.getLatestHeight + 1) (n.cons.round + 1) n.cons.nodeId)])
  -- The pool has run on the store. Without a success there is no block; a block waits for
  -- signatures, unless its own is enough or there are no peers.
  | rejectedAll {prev} {t} (t') (hp : n.Produces cfg.params prev t)
      (hv : (leaderExecute cfg.params t n.cons.pendingTxs n.store).validTxs = []) :
    Step C cfg n (.produce t t') (n.ran cfg.params t, n.ranEffects cfg.params t)
  | proposed {prev} {t} (t') (hp : n.Produces cfg.params prev t)
      (hv : (leaderExecute cfg.params t n.cons.pendingTxs n.store).validTxs ≠ [])
      (hc : 0 < n.cons.peerCount) (hf : ¬ n.cons.isFinalized C (n.block C cfg.params prev t)) :
    Step C cfg n (.produce t t')
      ({ n.ran cfg.params t with pendingBlock := some (n.block C cfg.params prev t) },
       n.ranEffects cfg.params t ++
         [.signed (n.block C cfg.params prev t).header,
           .broadcast (.propose (n.block C cfg.params prev t)),
           .proposed n.store (n.block C cfg.params prev t)])
  | committed {prev} {t} (t') (hp : n.Produces cfg.params prev t)
      (hv : (leaderExecute cfg.params t n.cons.pendingTxs n.store).validTxs ≠ [])
      (hc : 0 < n.cons.peerCount) (hf : n.cons.isFinalized C (n.block C cfg.params prev t)) :
    Step C cfg n (.produce t t')
      ({ n.ran cfg.params t with
         store := (n.ran cfg.params t).store.putBlock (n.block C cfg.params prev t)
         lastBlockTimeMs := t'
         cons := (n.ran cfg.params t).cons.resetRound },
       n.ranEffects cfg.params t ++
         [.signed (n.block C cfg.params prev t).header,
           .broadcast (.propose (n.block C cfg.params prev t)),
           .stored (n.ran cfg.params t).cons (n.block C cfg.params prev t)])
  | solo {prev} {t} (t') (hp : n.Produces cfg.params prev t)
      (hv : (leaderExecute cfg.params t n.cons.pendingTxs n.store).validTxs ≠ [])
      (hc : n.cons.peerCount = 0) :
    Step C cfg n (.produce t t')
      ({ n.ran cfg.params t with
         store := (n.ran cfg.params t).store.putBlock (n.block C cfg.params prev t)
         lastBlockTimeMs := t' },
       n.ranEffects cfg.params t ++
         [.signed (n.block C cfg.params prev t).header,
           .stored (n.ran cfg.params t).cons (n.block C cfg.params prev t)])

variable {C : Crypto} {cfg : NodeConfig}

/-- A condition on the next proposal can be decided. -/
instance decidableNextProposal {p : Block → Prop} [DecidablePred p] :
    (l : List Block) → Decidable (∀ b rest, l = b :: rest → p b)
  | [] => .isTrue (by simp)
  | b :: rest => decidable_of_iff (p b) ⟨by rintro h b' rest' ⟨⟩; exact h, fun h => h b rest rfl⟩

/-! ## The consensus state

Votes and rounds touch nothing else, and peers are only added. -/

theorem receiveViewChange_eq (c : Consensus) (height : UInt64) (round : UInt32) (voter : Id) :
    ∃ round' votes, (c.receiveViewChange height round voter).2 =
      { c with round := round', viewChangeVotes := votes } := by
  unfold Consensus.receiveViewChange
  simp only
  split
  · exact ⟨_, _, rfl⟩
  · exact ⟨c.round, _, rfl⟩

theorem requestViewChange_eq {c c' : Consensus} {height : UInt64} {changed : Bool}
    (h : c.requestViewChange height = (changed, c')) :
    ∃ round votes, c' = { c with round, viewChangeVotes := votes } := by
  unfold Consensus.requestViewChange at h
  simp only at h
  split at h
  · exact ⟨_, _, (congrArg Prod.snd h).symm⟩
  · exact ⟨c.round, _, (congrArg Prod.snd h).symm⟩

theorem addPeer_eq {c c' : Consensus} {id key : Id} {address : String}
    (h : c.addPeer id key address = (true, c')) :
    id ≠ c.nodeId ∧ (∀ p ∈ c.peers, p.id ≠ id) ∧
      c' = { c with peers := c.peers ++ [{ id, address, publicKey := key }] } := by
  unfold Consensus.addPeer at h
  split at h
  case isTrue => cases h
  case isFalse hid =>
    split at h
    case isTrue => cases h
    case isFalse hnew =>
      cases h
      refine ⟨hid, fun p hp heq => hnew (List.any_eq_true.2 ⟨p, hp, ?_⟩), rfl⟩
      exact beq_iff_eq.2 heq

/-! ## Steps -/

variable (n : Node)

theorem recv_step (msg : ConsensusMessage) : n.Step C cfg (.recv msg) (n.recv C cfg msg) := by
  unfold Node.recv
  split
  case isTrue => exact .idle _
  case isFalse =>
    cases msg with
    | propose b => exact .queued b
    | submitTx tx => exact .gossiped tx
    | requestTxs => exact .idle _
    | viewChange height round voter => exact .heardVote height round voter
    | sign height sig =>
      cases hp : n.pendingBlock with
      | none => exact .idle _
      | some pb =>
        simp only
        split
        case isTrue h =>
          obtain ⟨rfl, hv⟩ := h
          exact .cosigned hp hv
        case isFalse => exact .idle _
    | handshake id key address =>
      simp only
      split
      case h_1 cons h => exact .discovered h
      case h_2 => exact .idle _

theorem finalize_step (t t' : Int64) :
    n.Step C cfg (.finalize t t') (n.finalize C cfg t t') := by
  unfold Node.finalize
  split
  case h_1 => exact .idle _
  case h_2 pb hp =>
    split
    case isTrue hf => exact .finalized t t' hp hf
    case isFalse hf =>
      split
      case isTrue ht => exact .discarded t hp hf ht
      case isFalse => exact .idle _

theorem nextProposal_step : n.Step C cfg .handleProposal (n.nextProposal C cfg) := by
  unfold Node.nextProposal
  split
  case h_1 => exact .idle _
  case h_2 b rest hp =>
    -- The decision does not read the queue.
    have hsame : Node.signProposal C { n with proposals := rest } b = n.signProposal C b := rfl
    unfold Node.handleProposal
    cases hs : n.signProposal C b with
    | none =>
      simp only [hsame, hs]
      exact .declined hp hs
    | some sig =>
      simp only [hsame, hs]
      by_cases hr : RootAccepted C cfg.params b n.store
      · simp only [applyBlock_accepted hr]
        exact .applied hp hs hr
      · obtain ⟨e, he⟩ := applyBlock_refused hr
        simp only [he]
        exact .diverged hp hs hr

theorem viewChange_step (t t' : Int64) :
    n.Step C cfg (.viewChange t t') (n.viewChange cfg t t') := by
  unfold Node.viewChange
  split
  case isTrue => exact .idle _
  split
  case isTrue => exact .idle _
  split
  case isTrue => exact .calledVote t t' rfl
  case isFalse => exact .idle _

theorem propose_step {prev : Block} {t : Int64} (t' : Int64)
    (hp : n.Produces cfg.params prev t)
    (hv : (leaderExecute cfg.params t n.cons.pendingTxs n.store).validTxs ≠ []) :
    n.Step C cfg (.produce t t')
      ((Node.propose C n (n.ran cfg.params t) (n.block C cfg.params prev t) t').1,
        n.ranEffects cfg.params t ++
          (Node.propose C n (n.ran cfg.params t) (n.block C cfg.params prev t) t').2) := by
  unfold Node.propose
  split
  case isTrue hc =>
    simp only
    split
    case isTrue hf => exact .committed t' hp hv hc hf
    case isFalse hf => exact .proposed t' hp hv hc hf
  case isFalse hc => exact .solo t' hp hv (Nat.eq_zero_of_not_pos hc)

theorem produce_step (t t' : Int64) :
    n.Step C cfg (.produce t t') (n.produce C cfg t t') := by
  unfold Node.produce
  simp only
  split
  case isTrue => exact .idle _
  case isFalse hidle =>
  split
  case isTrue => exact .idle _
  case isFalse hlead =>
  split
  case h_1 => exact .idle _
  case h_2 prev hprev =>
  -- Past the three guards the pool has run, whatever comes of it.
  simp only [Option.not_isSome_iff_eq_none] at hidle
  simp only [Bool.or_eq_true, Bool.not_eq_true', not_or, Bool.not_eq_false] at hlead
  have hp : n.Produces cfg.params prev t := ⟨hidle, hlead.1, hprev⟩
  by_cases hv : (leaderExecute cfg.params t n.cons.pendingTxs n.store).validTxs = []
  · simp only [Consensus.drainPendingTxs, hv, List.isEmpty_nil, if_true]
    exact .rejectedAll t' hp hv
  · simp only [Consensus.drainPendingTxs, List.isEmpty_iff, if_neg hv]
    exact propose_step n t' hp hv

/-- **Every step has one of these outcomes.** -/
theorem micro_step (m : Micro) : n.Step C cfg m (n.micro C cfg m) := by
  cases m with
  | rpc req now =>
    show n.Step C cfg (.rpc req now) (n.rpc C req now)
    unfold Node.rpc
    cases h : submitTx C now req with
    | ok tx => exact .submitted h
    | error e => exact .idle _
  | recv msg => exact recv_step n msg
  | finalize t t' => exact finalize_step n t t'
  | handleProposal => exact nextProposal_step n
  | feed => exact .fed
  | viewChange t t' => exact viewChange_step n t t'
  | produce t t' => exact produce_step n t t'

/-! ## Runs -/

/-- A node that has just been set up has sent its handshake, if it has peers. -/
theorem mem_log_start {id : Id} {key : BitVec 256} {store : Store} {now : StartClock}
    {e : Effect} (h : e ∈ (Process.start cfg id key store now).log) :
    e = .broadcast (.handshake id id cfg.listenAddress) := by
  simp only [Process.start, startNode] at h
  split at h
  · exact List.mem_singleton.1 h
  · cases h

/-- **Invariant rule of the loop.** If every step that meets `D` keeps `N`, and has the
effect `f x` only where `E x` holds, then so has every run of such steps. -/
theorem Process.inv_run {β : Type} {f : β → Effect} {N : Node → Prop} {E : β → Prop}
    {D : Node → Micro → Prop}
    (hstep : ∀ {n m out}, n.Step C cfg m out → N n → D n m → N out.1 ∧ ∀ x, f x ∈ out.2 → E x)
    {p : Process} {ms : List Micro} (hnode : N p.node) (hlog : ∀ x, f x ∈ p.log → E x)
    (h : Runs.Along (Process.micro C cfg) (fun p m => D p.node m) p ms) :
    N (Runs.run (Process.micro C cfg) p ms).node ∧
      ∀ x, f x ∈ (Runs.run (Process.micro C cfg) p ms).log → E x := by
  refine Runs.inv_run (I := fun p => N p.node ∧ ∀ x, f x ∈ p.log → E x) ?_ ⟨hnode, hlog⟩ h
  rintro p m ⟨hnode, hlog⟩ hm
  obtain ⟨hnode', hnew⟩ := hstep (micro_step p.node m) hnode hm
  refine ⟨hnode', ?_⟩
  intro x hx
  rcases List.mem_append.1 hx with hx | hx
  · exact hlog x hx
  · exact hnew x hx

end RoutineChain
