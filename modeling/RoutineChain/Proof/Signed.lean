import RoutineChain.Proof.Step

/-!
# Only signed transactions are executed

Transactions reach `execute` from the RPC channel, from peers through the pool, and in
proposed blocks. The RPC handler and `apply_block` check signatures. The pool does not, so
the invariant holds as long as peers submit signed transactions.
-/

namespace RoutineChain

variable {C : Crypto} {cfg : NodeConfig}

/-- A transaction that a peer submits in this step carries a valid signature. -/
def SubmitsSigned (C : Crypto) : Micro → Prop
  | .recv (.submitTx tx) => verifyTxSignature C tx
  | _ => True

/-- Every transaction on its way to the pool, or in it, carries a valid signature. -/
def Node.PoolSigned (C : Crypto) (n : Node) : Prop :=
  ∀ tx ∈ n.incomingTxs ++ n.cons.txReceiver ++ n.cons.pendingTxs, verifyTxSignature C tx

/-- Every executed transaction carries a valid signature. -/
def ExecutedSigned (C : Crypto) (log : List Effect) : Prop :=
  ∀ tx ∈ executedTxs log, verifyTxSignature C tx

instance (log : List Effect) : Decidable (ExecutedSigned C log) :=
  inferInstanceAs (Decidable (∀ tx ∈ executedTxs log, verifyTxSignature C tx))

@[simp] theorem mem_executedTxs {log : List Effect} {tx : Transaction} :
    tx ∈ executedTxs log ↔ .executed tx ∈ log := by
  unfold executedTxs
  rw [List.mem_filterMap]
  constructor
  · rintro ⟨e, he, htx⟩
    cases e <;> simp [Effect.executed?] at htx
    exact htx ▸ he
  · exact fun h => ⟨_, h, rfl⟩

/-- A replay runs verified transactions only. -/
theorem ran_verified {P : Params} {t : Int64} (txs : List Transaction) {st : Replay}
    (h : ∀ tx ∈ st.ran, verifyTxSignature C tx) :
    ∀ tx ∈ (txs.foldl (applyTx C P t) st).ran, verifyTxSignature C tx := by
  induction txs generalizing st with
  | nil => exact h
  | cons tx txs ih =>
    refine ih ?_
    rw [applyTx_ran]
    split
    case isTrue hv =>
      intro tx' hm
      rcases List.mem_append.1 hm with hm | hm
      · exact h tx' hm
      · rwa [List.mem_singleton.1 hm]
    case isFalse => exact h

/-- **One step keeps the pool signed, and executes signed transactions.** -/
theorem poolSigned_step {n : Node} {m : Micro} {out : Node × List Effect}
    (hs : n.Step C cfg m out) (h : n.PoolSigned C) (hm : SubmitsSigned C m) :
    out.1.PoolSigned C ∧ ∀ tx, .executed tx ∈ out.2 → verifyTxSignature C tx := by
  -- running the pool empties it
  have hran : ∀ t, (n.ran cfg.params t).PoolSigned C := by
    intro t tx hx
    have hx : tx ∈ n.incomingTxs ++ n.cons.txReceiver := by simpa [Node.ran] using hx
    exact h tx (List.mem_append_left _ hx)
  have hpool : ∀ tx ∈ n.cons.pendingTxs, verifyTxSignature C tx := by
    intro tx hx
    exact h tx (List.mem_append_right _ hx)
  have hblock : ∀ b, ∀ tx ∈ (replayBlock C cfg.params b n.store).ran,
      verifyTxSignature C tx := by
    intro b
    exact ran_verified b.transactions (by simp)
  -- a transaction that is admitted is signed: the handler has checked it, or the peer has
  have hadd : ∀ tx, verifyTxSignature C tx →
      Node.PoolSigned C { n with incomingTxs := n.incomingTxs ++ [tx] } := by
    intro tx hv tx' hx
    simp only [List.mem_append, List.mem_singleton] at hx
    rcases hx with ((hx | rfl) | hx) | hx
    · exact h tx' (by simp [hx])
    · exact hv
    · exact h tx' (by simp [hx])
    · exact h tx' (by simp [hx])
  cases hs with
  -- dropping a pending block returns nothing to the pool
  | idle | queued b | cosigned hp hv | finalized t t' hp hf | discarded t hp hf ht
  | declined hp hs =>
    exact ⟨h, by simp⟩
  | submitted hok => exact ⟨hadd _ (submitTx_verified hok), by simp⟩
  | gossiped tx => exact ⟨hadd tx hm, by simp⟩
  | heardVote height round voter =>
    obtain ⟨r, v, he⟩ := receiveViewChange_eq n.cons height round voter
    exact ⟨by rw [he]; exact h, by simp⟩
  | discovered hadd =>
    obtain ⟨-, -, rfl⟩ := addPeer_eq hadd
    exact ⟨h, by simp⟩
  | applied hp hs hr | diverged hp hs hr => exact ⟨h, by simpa using hblock _⟩
  | fed =>
    refine ⟨fun tx hx => h tx ?_, by simp⟩
    simp only [Consensus.pushTxs, Consensus.collectPendingTxs, List.nil_append] at hx
    simp only [List.mem_append] at hx ⊢
    tauto
  | calledVote t t' hreq =>
    obtain ⟨r, v, rfl⟩ := requestViewChange_eq hreq
    exact ⟨h, by simp⟩
  | @rejectedAll prev t t' hp hv | @proposed prev t t' hp hv hc hf
  | @committed prev t t' hp hv hc hf | @solo prev t t' hp hv hc =>
    exact ⟨hran t, by simpa [Node.ranEffects] using hpool⟩

/-- **Only signed transactions are executed.** In a run in which peers submit signed
transactions only, every transaction that `execute` runs on carries a valid signature. -/
theorem executed_signed {id : Id} {key : BitVec 256} {store : Store} {now : StartClock}
    {ms : List Micro}
    (h : Runs.Along (Process.micro C cfg) (fun _ m => SubmitsSigned C m)
      (Process.start cfg id key store now) ms) :
    ExecutedSigned C
      (Runs.run (Process.micro C cfg) (Process.start cfg id key store now) ms).log := by
  have hpool : (Process.start cfg id key store now).node.PoolSigned C := by
    simp [Process.start, startNode, Node.PoolSigned, Consensus.new]
  have hlog : ∀ tx, .executed tx ∈ (Process.start cfg id key store now).log →
      verifyTxSignature C tx := by
    intro tx hx
    cases mem_log_start hx
  have hrun := Process.inv_run (fun hs hn hm => poolSigned_step hs hn hm) hpool hlog h
  intro tx hx
  exact hrun.2 tx (mem_executedTxs.1 hx)

/-! ## Three nodes -/

/-- The configuration of a node with the given peers; each id is a public key. -/
def NodeConfig.toy (peers : List Id) : NodeConfig :=
  { params := .default, blockTimeMs := 1000, minSignatures := 2, listenAddress := "",
    viewChangeTimeoutMs := 5000,
    peers := peers.map fun id => { id, address := "", publicKey := id } }

/-- Nodes 1, 2 and 3 start with the same genesis block. -/
def Store.toyGenesis : Store := Store.empty.putBlock (.genesis 0 1)

/-- Node 2, the leader of height 1. -/
abbrev Process.toyLeader : Process := .start (.toy [1, 3]) 2 2 .toyGenesis ⟨0, 0⟩

/-- A clock that stands still during an iteration. -/
def Clock.at (t : Int64) : Clock :=
  { finalized := t, age := t, elapsed := t, viewChanged := t, block := t, produced := t }

/-- The leader executes a transaction that a peer has submitted. -/
theorem executed_signed_toy : ExecutedSigned .toy (Runs.run (Process.micro .toy (.toy [1, 3]))
    .toyLeader (microsOf [⟨[], [.submitTx .toyRegister], .at 1000⟩])).log := by
  have hsigned : verifyTxSignature .toy .toyRegister := by decide +kernel
  refine executed_signed (Runs.along_of_forall ?_ _)
  simp [microsOf, Input.micros, ConsensusMessage.isPropose, SubmitsSigned, hsigned]

/-- Nobody has signed this transaction of sender 1. -/
def Transaction.toyUnsigned : Transaction := { Transaction.toyRegister with signature := 0 }

/-- The leader executes it all the same. -/
theorem executed_unsigned : ¬ ∀ inps, ExecutedSigned .toy
    (Runs.run (Process.iterate .toy (.toy [1, 3])) .toyLeader inps).log := by
  intro h
  have hall := h [⟨[], [.submitTx .toyUnsigned], .at 1000⟩]
  revert hall
  decide +kernel

end RoutineChain
