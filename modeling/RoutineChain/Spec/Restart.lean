import RoutineChain.Spec.Network

/-!
# Stops and restarts

A node can be stopped at any moment, also in the middle of a step, and started again on the
store that it leaves. What is not in the store is gone: the pending block, the pool, the
round and its votes, and the peers that have introduced themselves.

* `Transaction.CutIn`: the stores that a transaction can leave behind when it is cut off.
* `Node.StopsIn`: the same for a step, with what it has done until then.
* `Process.act`: a step of the loop, or a stop with the start after it.
* `Net.act`: the same for one node of a network.
-/

namespace RoutineChain

variable (C : Crypto) (cfg : NodeConfig)

/-- The checks that the leader makes before it runs its pool. -/
structure Node.RunsPool (n : Node) : Prop where
  idle : n.pendingBlock = none
  leads : n.cons.isLeader (n.store.getLatestHeight + 1)
  prev : (n.store.getBlock (n.store.getLatestHeight + 1 - 1)).isSome

/-- A store that a transaction leaves when it is cut off between two of its writes. The first
one is that of the nonce. Which of the writes to the records have been made after it is left
open: what holds of any records holds wherever the cut is. -/
def Transaction.CutIn (tx : Transaction) (s left : Store) : Prop :=
  s.getNonce tx.sender < tx.nonce ∧
    ∃ records, left = { s.setNonce tx.sender tx.nonce with records }

/-- The state of `apply_block` after the first `k` transactions of a block. -/
def replayFirst (k : ℕ) (b : Block) (s : Store) : Replay :=
  replayBlock C cfg.params { b with transactions := b.transactions.take k } s

/-- The step leaves this store, and has had these effects, when it is cut off. -/
inductive Node.StopsIn (n : Node) : Micro → Store → List Effect → Prop
  -- before it writes anything
  | idle (m) : StopsIn n m n.store []
  -- after it has signed a proposal, and maybe sent the signature
  | voting {b rest sig done} (hp : n.proposals = b :: rest) (hs : n.signProposal C b = some sig)
      (hd : done <+: [.signed b.header, .broadcast (.sign b.header.height sig)]) :
    StopsIn n .handleProposal n.store done
  -- after some transactions of a proposal, whose signature is out by then
  | applying {b rest sig} (k : ℕ) (hp : n.proposals = b :: rest)
      (hs : n.signProposal C b = some sig) :
    StopsIn n .handleProposal (replayFirst C cfg k b n.store).store
      ([.signed b.header, .broadcast (.sign b.header.height sig)] ++
        (replayFirst C cfg k b n.store).ran.map .executed)
  -- in the next one of them
  | applyingNext {b rest sig tx left} (k : ℕ) (hp : n.proposals = b :: rest)
      (hs : n.signProposal C b = some sig) (htx : b.transactions[k]? = some tx)
      (hv : verifyTxSignature C tx) (hcut : tx.CutIn (replayFirst C cfg k b n.store).store left) :
    StopsIn n .handleProposal left
      ([.signed b.header, .broadcast (.sign b.header.height sig)] ++
        ((replayFirst C cfg k b n.store).ran ++ [tx]).map .executed)
  -- after some transactions of the pool
  | running {t t'} (k : ℕ) (hp : n.RunsPool) :
    StopsIn n (.produce t t')
      (leaderExecute cfg.params t (n.cons.pendingTxs.take k) n.store).store
      ((n.cons.pendingTxs.take k).map .executed)
  -- in the next one of them
  | runningNext {t t' tx left} (k : ℕ) (hp : n.RunsPool) (htx : n.cons.pendingTxs[k]? = some tx)
      (hcut : tx.CutIn
        (leaderExecute cfg.params t (n.cons.pendingTxs.take k) n.store).store left) :
    StopsIn n (.produce t t') left ((n.cons.pendingTxs.take k ++ [tx]).map .executed)
  -- after the whole pool, with the own block signed and sent or not, before it is stored
  | proposing {t t'} (done : List Effect) (hp : n.RunsPool)
      (hd : done <+: (n.produce C cfg t t').2) (hs : ∀ c b, .stored c b ∉ done) :
    StopsIn n (.produce t t')
      (leaderExecute cfg.params t n.cons.pendingTxs n.store).store done
  -- between the two writes of `put_block`: the block is stored, the tip is the old one
  | storing {m} (hd : ((n.micro C cfg m).2.getLast?.bind Effect.stored?).isSome) :
    StopsIn n m { (n.micro C cfg m).1.store with latestHeight := n.store.latestHeight }
      (n.micro C cfg m).2.dropLast

/-- What happens to a process: a step of its loop, or a stop in one and a new start. -/
inductive Act where
  | step (m : Micro)
  | stop (m : Micro) (left : Store) (done : List Effect) (now : StartClock)

/-- The process is started again on a store, under its id and key and with its
configuration. -/
def Process.restart (p : Process) (store : Store) (done : List Effect) (now : StartClock) :
    Process :=
  let (node, log) := startNode cfg p.node.cons.nodeId p.node.cons.privateKey store now
  { node, log := p.log ++ done ++ log }

/-- One thing that happens to a process, recorded. -/
def Process.act (p : Process) : Act → Process
  | .step m => p.micro C cfg m
  | .stop _ left done now => p.restart cfg left done now

/-- A stop leaves a store that its step can leave. -/
def Process.Possible (p : Process) : Act → Prop
  | .step _ => True
  | .stop m left done _ => p.node.StopsIn C cfg m left done

/-- A step of one node, or its stop and new start. -/
def Net.act {k : ℕ} (cfg : Fin k → NodeConfig) (net : Net k) (a : Fin k × Act) : Net k :=
  Function.update net a.1 ((net a.1).act C (cfg a.1) a.2)

end RoutineChain
