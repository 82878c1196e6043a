import RoutineChain.Proof.Agreement

/-!
# Who leads

Every node takes the leader of a height from its own sorted list of the nodes, and a
handshake of anybody extends that list on the node that drains it.

* `allNodeIds_step`: nothing else changes the list.
* `leaders_agree`: nodes that hear from nodes of the list only agree on the leaders forever.
* `splits_of_unknown`: one handshake of a stranger, and they do not.
-/

namespace RoutineChain

variable {C : Crypto} {k : ℕ} {cfg : Fin k → NodeConfig} {net : Net k}

/-! ## One node -/

/-- The handshakes that a step drains are of nodes that the node has in its list. -/
def Node.HearsKnown (n : Node) : Micro → Prop
  | .recv (.handshake id _ _) => id ∈ n.cons.allNodeIds
  | _ => True

instance (n : Node) (m : Micro) : Decidable (n.HearsKnown m) := by
  unfold Node.HearsKnown
  induction m using Micro.casesOn with
  | recv msg =>
    induction msg using ConsensusMessage.casesOn with
    | handshake id =>
      exact decidable_of_iff (n.cons.allNodeIds.contains id) List.contains_iff_mem
    | _ => exact instDecidableTrue
  | _ => exact instDecidableTrue

theorem allNodeIds_eq {c c' : Consensus} (hid : c'.nodeId = c.nodeId)
    (hpeers : c'.peers = c.peers) : c'.allNodeIds = c.allNodeIds := by
  unfold Consensus.allNodeIds
  rw [hid, hpeers]

/-- **A step that hears from known nodes keeps the list.** -/
theorem allNodeIds_step {n : Node} {m : Micro} {out : Node × List Effect}
    {cfg : NodeConfig} (hs : n.Step C cfg m out) (hm : n.HearsKnown m) :
    out.1.cons.allNodeIds = n.cons.allNodeIds := by
  have hpeers : out.1.cons.peers = n.cons.peers := by
    obtain ⟨-, new, hnew, -⟩ := cons_step hs
    cases hs with
    | @discovered id key address cons hadd =>
      -- An id of the list is the node's own or a peer's, so it is not added again.
      obtain ⟨hown, hfresh, -⟩ := addPeer_eq hadd
      rcases Consensus.mem_allNodeIds.1 hm with h | ⟨p, hp, h⟩
      · exact absurd h hown
      · exact absurd h (hfresh p hp)
    | heardVote height round voter =>
      obtain ⟨r, v, he⟩ := receiveViewChange_eq n.cons height round voter
      rw [he]
    | calledVote t t' hreq =>
      obtain ⟨r, v, rfl⟩ := requestViewChange_eq hreq
      rfl
    | _ => rfl
  exact allNodeIds_eq (cons_step hs).1.nodeId hpeers

theorem length_allNodeIds (c : Consensus) : c.allNodeIds.length = c.peers.length + 1 := by
  simp [Consensus.allNodeIds]

/-- A node that listens adds whoever introduces itself. -/
theorem peers_recv {n : Node} {cfg : NodeConfig} {id key : Id} {address : String}
    (hlisten : cfg.peers ≠ []) (hnew : id ∉ n.cons.allNodeIds) :
    (n.recv C cfg (.handshake id key address)).1.cons.peers =
      n.cons.peers ++ [{ id, address, publicKey := key }] := by
  rw [Consensus.mem_allNodeIds, not_or, not_exists] at hnew
  have hlength : ¬ cfg.peers.length = 0 := mt List.length_eq_zero_iff.1 hlisten
  have hany : ¬ n.cons.peers.any (·.id == id) = true := by
    rw [List.any_eq_true]
    rintro ⟨p, hp, heq⟩
    exact hnew.2 p ⟨hp, beq_iff_eq.1 heq⟩
  have hadd : n.cons.addPeer id key address =
      (true, { n.cons with peers := n.cons.peers ++ [{ id, address, publicKey := key }] }) := by
    rw [Consensus.addPeer, if_neg hnew.1, if_neg hany]
  simp only [Node.recv, if_neg hlength, hadd]

/-! ## A network -/

/-- All nodes have the same list of nodes. -/
def Net.SameNodes (net : Net k) : Prop :=
  ∀ i j, (net i).node.cons.allNodeIds = (net j).node.cons.allNodeIds

/-- Two nodes in one round have the same list of nodes, and expect the same leaders. -/
def Net.AgreesOnLeaders (net : Net k) : Prop :=
  ∀ i j, (net i).node.cons.round = (net j).node.cons.round →
    (net i).node.cons.allNodeIds = (net j).node.cons.allNodeIds ∧
    ∀ height, (net i).node.cons.leaderForHeight height = (net j).node.cons.leaderForHeight height

instance (net : Net k) : Decidable net.SameNodes :=
  inferInstanceAs (Decidable (∀ i j,
    (net i).node.cons.allNodeIds = (net j).node.cons.allNodeIds))

theorem Net.SameNodes.agreesOnLeaders (h : net.SameNodes) : net.AgreesOnLeaders := by
  intro i j hround
  refine ⟨h i j, ?_⟩
  intro height
  unfold Consensus.leaderForHeight
  rw [hround]
  exact Consensus.leader_congr (h i j) height _

/-- A step of one node hears from known nodes. -/
def Net.HearsKnown (net : Net k) (a : Fin k × Micro) : Prop := (net a.1).node.HearsKnown a.2

instance (net : Net k) (a : Fin k × Micro) : Decidable (net.HearsKnown a) :=
  inferInstanceAs (Decidable ((net a.1).node.HearsKnown a.2))

theorem Net.SameNodes.micro (h : net.SameNodes) {a : Fin k × Micro} (ha : net.HearsKnown a) :
    (net.micro C cfg a).SameNodes := by
  have hkept : ∀ i, ((net.micro C cfg a) i).node.cons.allNodeIds =
      (net i).node.cons.allNodeIds := by
    intro i
    unfold Net.micro
    by_cases hi : i = a.1
    · subst hi
      rw [Function.update_self]
      exact allNodeIds_step (micro_step _ a.2) ha
    · rw [Function.update_of_ne hi]
  intro i j
  rw [hkept i, hkept j]
  exact h i j

/-- **Any two nodes agree on the leader**, at every moment of a run in which each drained
handshake is of a node that its receiver has in its list. -/
theorem leaders_agree {as : List (Fin k × Micro)} (hstart : net.SameNodes)
    (h : Runs.Along (Net.micro C cfg) Net.HearsKnown net as) :
    ∀ l, l <+: as → (Runs.run (Net.micro C cfg) net l).AgreesOnLeaders := by
  intro l hl
  have hrun : (Runs.run (Net.micro C cfg) net l).SameNodes :=
    Runs.inv_run (fun _ _ hn ha => hn.micro ha) hstart (h.initial hl)
  exact hrun.agreesOnLeaders

/-- **A stranger splits the nodes**: the list of the node that drains its handshake is not
that of any other. -/
theorem splits_of_unknown {i j : Fin k} {id key : Id} {address : String} (h : net.SameNodes)
    (hlisten : (cfg i).peers ≠ []) (hnew : id ∉ (net i).node.cons.allNodeIds) (hij : j ≠ i) :
    ((net.micro C cfg (i, .recv (.handshake id key address))) i).node.cons.allNodeIds ≠
      ((net.micro C cfg (i, .recv (.handshake id key address))) j).node.cons.allNodeIds := by
  have hj : (net.micro C cfg (i, .recv (.handshake id key address))) j = net j :=
    Function.update_of_ne hij _ _
  have hi : ((net.micro C cfg (i, .recv (.handshake id key address))) i).node.cons.peers =
      (net i).node.cons.peers ++ [{ id, address, publicKey := key }] := by
    rw [Net.micro, Function.update_self]
    exact peers_recv hlisten hnew
  intro heq
  rw [hj, ← h i j] at heq
  have hlen := congrArg List.length heq
  rw [length_allNodeIds, length_allNodeIds, hi, List.length_append] at hlen
  simp at hlen

/-- What reaches a node: a message that some node has sent, or a handshake of anybody. -/
def Net.Reaches (net : Net k) : Fin k × Micro → Prop
  | (_, .recv (.handshake _ _ _)) => True
  | a => net.Delivers a

/-- Node 1 hears from node 2, which it knows. -/
theorem leaders_agree_toy : (Runs.run (Net.micro .toy NodeConfig.toyNet) .toy
    [(0, .recv (.handshake 2 2 "b:1"))]).AgreesOnLeaders :=
  leaders_agree (by decide +kernel) (by decide +kernel) _ (List.prefix_refl _)

/-- Node 1 drains a handshake of node 9, which nobody else does. -/
theorem leaders_agree_fails : ¬ ∀ as, Runs.Along (Net.micro .toy NodeConfig.toyNet)
    Net.Reaches .toy as →
    ∀ l, l <+: as → (Runs.run (Net.micro .toy NodeConfig.toyNet) .toy l).AgreesOnLeaders := by
  intro h
  have hagree := (h [(0, .recv (.handshake 9 9 "x:1"))] ⟨trivial, trivial⟩ _ (List.prefix_refl _)
    0 1 (by decide +kernel)).1
  revert hagree
  decide +kernel

end RoutineChain
