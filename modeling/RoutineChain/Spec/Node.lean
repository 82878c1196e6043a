import RoutineChain.Lib.Runs
import RoutineChain.Spec.Consensus
import RoutineChain.Spec.Rpc

/-!
# The node (`rc-node/src/main.rs`)

`startNode` sets a node up, and one iteration of the block production loop is the list of
steps `Input.micros`: drain RPC and peer messages, finalize or drop the pending block,
handle the drained proposals, feed the pool, time out into a view change, and produce a
block. Everything that the loop does not determine itself is an `Input`: what the two
channels hold when they are drained, and each reading of the clock.

A step also returns `Effect`s, in order: what the node sends, signs, executes and stores.
They are a record of what it did; nothing reads them back.
-/

namespace RoutineChain

open Bincode

/-- The configuration of a node, with its peers already parsed. -/
structure NodeConfig where
  params : Params
  blockTimeMs : UInt64
  minSignatures : ℕ
  listenAddress : String
  viewChangeTimeoutMs : UInt64
  peers : List Peer

/-- A node between two steps of its loop. -/
structure Node where
  cons : Consensus
  store : Store
  /-- Pending block awaiting signatures. -/
  pendingBlock : Option Block
  lastBlockTimeMs : Int64
  /-- Transactions and proposals drained in this iteration. -/
  incomingTxs : List Transaction
  proposals : List Block

/-- What a step does that others can see, or that the results are about. -/
inductive Effect where
  /-- `StateMachine::execute` runs on the node's store. -/
  | executed (tx : Transaction)
  /-- The leader's execution of a drained transaction fails. -/
  | rejected (tx : Transaction)
  /-- A transaction enters the pool. -/
  | pooled (tx : Transaction)
  /-- The node signs a header. -/
  | signed (header : BlockHeader)
  /-- The node stores a block, in this consensus state. -/
  | stored (cons : Consensus) (block : Block)
  /-- An own block starts to wait for signatures; the store before it was executed. -/
  | proposed (before : Store) (block : Block)
  /-- The pending block is dropped, which leaves this node. -/
  | discarded (block : Block) (after : Node)
  | broadcast (msg : ConsensusMessage)
  | sentTo (peer : Peer) (msg : ConsensusMessage)

/-- The transaction that an effect executes. -/
def Effect.executed? : Effect → Option Transaction
  | .executed tx => some tx
  | _ => none

/-- The transactions that a node has executed, in order. -/
def executedTxs (log : List Effect) : List Transaction := log.filterMap Effect.executed?

/-- The header that an effect signs. -/
def Effect.header? : Effect → Option BlockHeader
  | .signed h => some h
  | _ => none

/-- The headers that a node has signed, in order. -/
def signedHeaders (log : List Effect) : List BlockHeader := log.filterMap Effect.header?

/-- The block that an effect stores, with the consensus state that stores it. -/
def Effect.stored? : Effect → Option (Consensus × Block)
  | .stored c b => some (c, b)
  | _ => none

/-- The blocks that a node has stored, in order. -/
def storedBlocks (log : List Effect) : List (Consensus × Block) := log.filterMap Effect.stored?

/-- The clock readings of one iteration, by the place that reads them. -/
structure Clock where
  finalized : Int64
  age : Int64
  elapsed : Int64
  viewChanged : Int64
  block : Int64
  produced : Int64

/-- What one iteration of the loop takes from outside. -/
structure Input where
  /-- The RPC requests behind the drained transactions, with the time of each. -/
  requests : List (SubmitTxRequest × Int64)
  msgs : List ConsensusMessage
  clock : Clock

/-- A step of the loop. -/
inductive Micro where
  | rpc (req : SubmitTxRequest) (now : Int64)
  | recv (msg : ConsensusMessage)
  | finalize (nowFinalized nowAge : Int64)
  | handleProposal
  | feed
  | viewChange (nowElapsed nowViewChanged : Int64)
  | produce (nowBlock nowProduced : Int64)

def ConsensusMessage.isPropose : ConsensusMessage → Bool
  | .propose _ => true
  | _ => false

/-- The steps of one iteration; each drained proposal is handled once. -/
def Input.micros (inp : Input) : List Micro :=
  inp.requests.map (fun r => .rpc r.1 r.2) ++ inp.msgs.map .recv ++
    [.finalize inp.clock.finalized inp.clock.age] ++
    List.replicate (inp.msgs.countP (·.isPropose)) .handleProposal ++
    [.feed, .viewChange inp.clock.elapsed inp.clock.viewChanged,
      .produce inp.clock.block inp.clock.produced]

variable (C : Crypto) (cfg : NodeConfig)

/-- The clock readings of a start: for the genesis block, and before the loop. -/
structure StartClock where
  genesis : Int64
  loop : Int64

/-- Set a node up on a store; the node is its public key. -/
def startNode (nodeId : Id) (privateKey : BitVec 256) (store : Store) (now : StartClock) :
    Node × List Effect :=
  let store :=
    if (store.getBlock 0).isNone then store.putBlock (.genesis now.genesis nodeId) else store
  -- a node without peers is final on its own
  let minSignatures := if cfg.peers.length = 0 then 1 else cfg.minSignatures
  ({ cons := .new nodeId privateKey cfg.peers minSignatures, store, pendingBlock := none,
     lastBlockTimeMs := now.loop, incomingTxs := [], proposals := [] },
   if cfg.peers.length > 0 then [.broadcast (.handshake nodeId nodeId cfg.listenAddress)] else [])

/-! ## Steps 1 and 2: drain transactions and messages -/

/-- An RPC request whose transaction the handler accepts. -/
def Node.rpc (n : Node) (req : SubmitTxRequest) (now : Int64) : Node × List Effect :=
  match submitTx C now req with
  | .ok tx => ({ n with incomingTxs := n.incomingTxs ++ [tx] }, [])
  | .error _ => (n, [])

/-- A drained peer message. Without configured peers there is no listener. -/
def Node.recv (n : Node) : ConsensusMessage → Node × List Effect := fun msg =>
  if cfg.peers.length = 0 then (n, []) else
  match msg with
  -- a peer's transaction is not verified here
  | .submitTx tx => ({ n with incomingTxs := n.incomingTxs ++ [tx] }, [])
  | .propose block => ({ n with proposals := n.proposals ++ [block] }, [])
  | .sign height sig =>
    match n.pendingBlock with
    | none => (n, [])
    | some pb =>
      -- a repeated signature is added again; `is_finalized` counts signers once
      if pb.header.height = height ∧ n.cons.verifyBlockSignature C pb sig then
        ({ n with pendingBlock := some { pb with signatures := pb.signatures ++ [sig] } }, [])
      else (n, [])
  | .requestTxs => (n, [])
  | .viewChange height round voter =>
    ({ n with cons := (n.cons.receiveViewChange height round voter).2 }, [])
  | .handshake peerId publicKey listenAddr =>
    match n.cons.addPeer peerId publicKey listenAddr with
    | (true, cons) =>
      -- the reply carries the own identity, so both sides know each other
      ({ n with cons },
       [.sentTo { id := peerId, address := listenAddr, publicKey }
          (.handshake n.cons.nodeId n.cons.nodeId cfg.listenAddress)])
    | (false, _) => (n, [])

/-! ## Step 3: finalize the pending block, or drop it -/

/-- The pending block is too old: over four times `signature_wait_ms`. -/
def timedOut (nowAge : Int64) (pb : Block) : Bool :=
  nowAge - pb.header.timestamp > (cfg.blockTimeMs / 2 * 4).toInt64

def Node.finalize (n : Node) (nowFinalized nowAge : Int64) : Node × List Effect :=
  match n.pendingBlock with
  | none => (n, [])
  | some pb =>
    -- whatever is stored at its height by now is overwritten
    if n.cons.isFinalized C pb then
      ({ n with
         store := n.store.putBlock pb, lastBlockTimeMs := nowFinalized,
         cons := n.cons.resetRound, pendingBlock := none },
       [.stored n.cons pb])
    -- neither the state nor the pool is restored
    else if timedOut cfg nowAge pb then
      ({ n with pendingBlock := none }, [.discarded pb { n with pendingBlock := none }])
    else (n, [])

/-! ## Step 4: handle the drained proposals -/

/-- The checks of `handle_proposal`, down to the signature of `verify_and_sign`. -/
def Node.signProposal (n : Node) (block : Block) : Option NodeSignature :=
  let height := block.header.height
  if block.isGenesis then none
  -- fork detection
  else if (n.store.getBlock height).isSome then none
  else match n.store.getBlock (height - 1) with
    | some prev => n.cons.verifyAndSign C block (blockHeaderHash C prev.header)
    | none => none

/-- Handle an incoming block proposal: sign it, send the signature, and apply it. -/
def Node.handleProposal (n : Node) (block : Block) : Node × List Effect :=
  match n.signProposal C block with
  | none => (n, [])
  | some sig =>
    let voted := [.signed block.header, .broadcast (.sign block.header.height sig)]
    let ran := (replayBlock C cfg.params block n.store).ran.map .executed
    -- the signature is out before the block is applied
    match (applyBlock C cfg.params block).run n.store with
    | .ok _ store => ({ n with store }, voted ++ ran ++ [.stored n.cons block])
    | .error _ store => ({ n with store }, voted ++ ran)

/-- The next drained proposal. -/
def Node.nextProposal (n : Node) : Node × List Effect :=
  match n.proposals with
  | [] => (n, [])
  | block :: rest => Node.handleProposal C cfg { n with proposals := rest } block

/-! ## Step 5: feed transactions to consensus -/

def Node.feed (n : Node) : Node × List Effect :=
  ({ n with cons := (n.cons.pushTxs n.incomingTxs).collectPendingTxs, incomingTxs := [] },
   (n.incomingTxs ++ n.cons.txReceiver).map .pooled)

/-! ## Step 6: view change timeout

Steps 6 to 8 are skipped while a block is pending. -/

def Node.viewChange (n : Node) (nowElapsed nowViewChanged : Int64) : Node × List Effect :=
  if n.pendingBlock.isSome then (n, [])
  else if cfg.peers.length = 0 then (n, [])
  else if nowElapsed - n.lastBlockTimeMs > cfg.viewChangeTimeoutMs.toInt64 then
    let height := n.store.getLatestHeight + 1
    let round := n.cons.round + 1
    let (changed, cons) := n.cons.requestViewChange height
    -- the vote is sent in any case
    ({ n with
       cons, lastBlockTimeMs := if changed then nowViewChanged else n.lastBlockTimeMs },
     [.broadcast (.viewChange height round n.cons.nodeId)])
  else (n, [])

/-! ## Steps 7 and 8: produce a block -/

/-- The block that the leader builds from the transactions that succeeded. -/
def buildBlock (c : Consensus) (prev : Block) (height : UInt64) (timestamp : Int64)
    (validTxs : List Transaction) (stateRoot : Hash) : Block :=
  let header : BlockHeader :=
    { height, prevHash := blockHeaderHash C prev.header, timestamp,
      txCount := .ofNat validTxs.length, txHash := computeTxHash C validTxs, stateRoot,
      proposer := c.nodeId }
  { header, transactions := validTxs, signatures := [c.signHeader C header] }

/-- Propose a built block: store it if it is final already, else wait for signatures.
`before` is the node before execution, `n` the node after it. -/
def Node.propose (before n : Node) (block : Block) (nowProduced : Int64) : Node × List Effect :=
  if n.cons.peerCount > 0 then
    let es := [.signed block.header, .broadcast (.propose block)]
    if n.cons.isFinalized C block then
      ({ n with
         store := n.store.putBlock block, lastBlockTimeMs := nowProduced,
         cons := n.cons.resetRound },
       es ++ [.stored n.cons block])
    else ({ n with pendingBlock := some block }, es ++ [.proposed before.store block])
  -- single node: finalize immediately
  else
    ({ n with store := n.store.putBlock block, lastBlockTimeMs := nowProduced },
     [.signed block.header, .stored n.cons block])

def Node.produce (n : Node) (nowBlock nowProduced : Int64) : Node × List Effect :=
  let height := n.store.getLatestHeight + 1
  if n.pendingBlock.isSome then (n, [])
  else if !n.cons.isLeader height || !n.cons.hasPendingTxs then (n, [])
  else match n.store.getBlock (height - 1) with
    | none => (n, [])
    | some prev =>
      let (txs, cons) := n.cons.drainPendingTxs
      let out := leaderExecute cfg.params nowBlock txs n.store
      let ran := txs.map .executed ++ out.rejected.map .rejected
      let n' := { n with cons, store := out.store }
      -- all failed: no block, but the store has run them
      if out.validTxs.isEmpty then (n', ran)
      else
        let block :=
          buildBlock C cons prev height nowBlock out.validTxs (computeStateRoot C out.store)
        let (n'', es) := Node.propose C n n' block nowProduced
        (n'', ran ++ es)

/-! ## The loop -/

/-- One step of the loop. -/
def Node.micro (n : Node) : Micro → Node × List Effect
  | .rpc req now => n.rpc C req now
  | .recv msg => n.recv C cfg msg
  | .finalize nowFinalized nowAge => n.finalize C cfg nowFinalized nowAge
  | .handleProposal => n.nextProposal C cfg
  | .feed => n.feed
  | .viewChange nowElapsed nowViewChanged => n.viewChange cfg nowElapsed nowViewChanged
  | .produce nowBlock nowProduced => n.produce C cfg nowBlock nowProduced

/-- A running node, with everything it has done so far. -/
structure Process where
  node : Node
  log : List Effect

/-- A node that has just been set up. -/
def Process.start (nodeId : Id) (privateKey : BitVec 256) (store : Store) (now : StartClock) :
    Process :=
  let (node, log) := startNode cfg nodeId privateKey store now
  { node, log }

/-- One step of the loop, recorded. -/
def Process.micro (p : Process) (m : Micro) : Process :=
  { node := (p.node.micro C cfg m).1, log := p.log ++ (p.node.micro C cfg m).2 }

/-- One iteration of the loop. -/
def Process.iterate (p : Process) (inp : Input) : Process :=
  Runs.run (Process.micro C cfg) p inp.micros

/-- The steps of a number of iterations. -/
def microsOf (inps : List Input) : List Micro := inps.flatMap Input.micros

theorem Process.run_iterate (p : Process) (inps : List Input) :
    Runs.run (Process.iterate C cfg) p inps =
      Runs.run (Process.micro C cfg) p (microsOf inps) :=
  Runs.run_flatMap _ _ _ _

end RoutineChain
