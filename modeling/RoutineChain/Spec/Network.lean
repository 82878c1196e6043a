import RoutineChain.Spec.Node

/-!
# A network of nodes

Several nodes, each running the block production loop. A step is one iteration of one
node. A node reads its channels only at the start of an iteration, so an interleaving of
the nodes is an order of whole iterations. The messages drained are any messages sent so
far, in any order and number: a message can be lost, delayed, duplicated and reordered.
Clients send anybody any transaction.

`Net.micro` is finer: it lets the steps of the nodes interleave freely, so it has the runs
of `Net.step` among its own.
-/

namespace RoutineChain

/-- The message that an effect sends. -/
def Effect.message? : Effect → Option ConsensusMessage
  | .broadcast msg => some msg
  | .sentTo _ msg => some msg
  | _ => none

/-- The messages that a node has sent. -/
def sentMessages (log : List Effect) : List ConsensusMessage := log.filterMap Effect.message?

/-- The nodes of a network. -/
abbrev Net (n : ℕ) := Fin n → Process

variable (C : Crypto) {n : ℕ} (cfg : Fin n → NodeConfig)

/-- A message that can reach a node: a client's, or one that some node has sent. -/
def Net.Deliverable (net : Net n) : ConsensusMessage → Prop
  | .submitTx _ => True
  | .requestTxs => True
  | msg => ∃ i, msg ∈ sentMessages (net i).log

instance (net : Net n) : (msg : ConsensusMessage) → Decidable (net.Deliverable msg)
  | .submitTx _ => .isTrue trivial
  | .requestTxs => .isTrue trivial
  | .propose b => inferInstanceAs (Decidable (∃ i, .propose b ∈ sentMessages (net i).log))
  | .sign h sig => inferInstanceAs (Decidable (∃ i, .sign h sig ∈ sentMessages (net i).log))
  | .viewChange h r id =>
    inferInstanceAs (Decidable (∃ i, .viewChange h r id ∈ sentMessages (net i).log))
  | .handshake id key addr =>
    inferInstanceAs (Decidable (∃ i, .handshake id key addr ∈ sentMessages (net i).log))

/-- One step of one node. -/
def Net.micro (net : Net n) (a : Fin n × Micro) : Net n :=
  Function.update net a.1 ((net a.1).micro C (cfg a.1) a.2)

/-- One iteration of one node. -/
def Net.step (net : Net n) (a : Fin n × Input) : Net n :=
  Function.update net a.1 ((net a.1).iterate C (cfg a.1) a.2)

/-- The network delivers what a step takes from it. -/
def Net.Delivers (net : Net n) : Fin n × Micro → Prop
  | (_, .recv msg) => net.Deliverable msg
  | _ => True

/-- The network delivers what an iteration drains. -/
def Net.Drains (net : Net n) (a : Fin n × Input) : Prop := ∀ msg ∈ a.2.msgs, net.Deliverable msg

instance (net : Net n) : (a : Fin n × Micro) → Decidable (net.Delivers a)
  | (_, .recv msg) => inferInstanceAs (Decidable (net.Deliverable msg))
  | (_, .rpc _ _) | (_, .finalize _ _) | (_, .handleProposal) | (_, .feed)
  | (_, .viewChange _ _) | (_, .produce _ _) => .isTrue trivial

instance (net : Net n) (a : Fin n × Input) : Decidable (net.Drains a) :=
  inferInstanceAs (Decidable (∀ msg ∈ a.2.msgs, net.Deliverable msg))

/-- The nodes as they are set up. -/
def Net.start (ids : Fin n → Id) (keys : Fin n → BitVec 256) (stores : Fin n → Store)
    (now : Fin n → StartClock) : Net n :=
  fun i => .start (cfg i) (ids i) (keys i) (stores i) (now i)

theorem Net.run_micros_one (net : Net n) (i : Fin n) (ms : List Micro) :
    Runs.run (Net.micro C cfg) net (ms.map (i, ·)) =
      Function.update net i (Runs.run (Process.micro C (cfg i)) (net i) ms) := by
  induction ms generalizing net with
  | nil => simp
  | cons m ms ih => simp [ih, Net.micro]

/-- An iteration is its steps, one after the other. -/
theorem Net.step_eq : Net.step C cfg =
    fun net a => Runs.run (Net.micro C cfg) net (a.2.micros.map (a.1, ·)) := by
  funext net a
  exact (Net.run_micros_one C cfg net a.1 a.2.micros).symm

end RoutineChain
