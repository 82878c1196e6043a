import RoutineChain.Proof.RoundGrowth

/-!
# A majority moves a node on

`viewChange_majority` says who stands behind a round that a node enters. The other direction:
a node that hears a majority vote for a round enters it, in whatever order the votes and other
messages come, unless the votes are dropped on the way.

* `Node.Stays`: a step that drops no vote for the height.
* `counted_step`: every majority that a node counts is one that it has followed.
* `round_entered`: so a majority heard in a run moves the node to the round or beyond.
-/

namespace RoutineChain

variable {C : Crypto} {cfg : NodeConfig} {n : Node} {m : Micro} {out : Node × List Effect}
  {h : UInt64} {r : UInt32}

/-- The step calls no `reset_round`, hears of no greater height, asks for a round of no greater
height, and not for the round after the last. -/
structure Node.Stays (C : Crypto) (cfg : NodeConfig) (h : UInt64) (n : Node) (m : Micro) :
    Prop where
  kept : ¬ m.resets n (n.micro C cfg m).2
  hears : ∀ height round voter, m = .recv (.viewChange height round voter) → height ≤ h
  asks : ∀ t t', m = .viewChange t t' →
    n.store.getLatestHeight + 1 ≤ h ∧ n.cons.round.toNat ≠ 2 ^ 32 - 1

/-- A majority that the node counts for the round has moved it there or beyond. -/
def Consensus.Counted (c : Consensus) (h : UInt64) (r : UInt32) : Prop :=
  c.threshold ≤ (c.viewChangeVotes h r).card → r ≤ c.round

/-- No vote for the round is dropped, the round does not fall, and a majority counts. -/
structure Consensus.MovesOn (c : Consensus) (h : UInt64) (r : UInt32) (c' : Consensus) :
    Prop where
  votes : c.viewChangeVotes h r ⊆ c'.viewChangeVotes h r
  round : c.round ≤ c'.round
  counted : c.Counted h r → c'.Counted h r

/-! ## One call -/

theorem Consensus.MovesOn.refl (c : Consensus) : c.MovesOn h r c :=
  ⟨Finset.Subset.refl _, UInt32.le_refl _, id⟩

theorem subset_addVote (c : Consensus) (height : UInt64) (round : UInt32) (voter : Id) :
    c.viewChangeVotes h r ⊆ (c.addVote height round voter).viewChangeVotes h r := by
  intro id hid
  simp only [Consensus.addVote]
  split
  · exact Finset.mem_insert_of_mem hid
  · exact hid

theorem adoptRound_votes (c : Consensus) {height : UInt64} (round : UInt32) (hle : height ≤ h) :
    (c.adoptRound height round).viewChangeVotes h r = c.viewChangeVotes h r := by
  simp only [Consensus.adoptRound]
  exact if_pos hle

/-- A vote for another round, or one that completes no majority, moves nothing. -/
theorem addVote_movesOn {c : Consensus} {height : UInt64} {round : UInt32} {voter : Id}
    (hle : ¬ (c.threshold ≤ (c.votersWith height round voter).card ∧ c.round < round)) :
    c.MovesOn h r (c.addVote height round voter) := by
  refine ⟨subset_addVote c height round voter, UInt32.le_refl _, ?_⟩
  intro hc hcard
  by_cases heq : h = height ∧ r = round
  · obtain ⟨rfl, rfl⟩ := heq
    rw [addVote_votes] at hcard
    exact UInt32.not_lt.1 fun hlt => hle ⟨hcard, hlt⟩
  · refine hc ?_
    have hvotes : (c.addVote height round voter).viewChangeVotes h r = c.viewChangeVotes h r :=
      if_neg heq
    rwa [hvotes] at hcard

/-- A vote that completes a majority moves the node to its round. -/
theorem adopted_movesOn {c : Consensus} {height : UInt64} {round : UInt32} {voter : Id}
    (hle : height ≤ h) (hlt : c.round < round) :
    c.MovesOn h r ((c.addVote height round voter).adoptRound height round) := by
  have hvotes := adoptRound_votes (r := r) (c.addVote height round voter) round hle
  refine ⟨?_, UInt32.le_of_lt hlt, ?_⟩
  · rw [hvotes]
    exact subset_addVote c height round voter
  · intro hc hcard
    rw [hvotes] at hcard
    show r ≤ round
    by_cases heq : h = height ∧ r = round
    · exact heq.2 ▸ UInt32.le_refl _
    · have hold : (c.addVote height round voter).viewChangeVotes h r = c.viewChangeVotes h r :=
        if_neg heq
      rw [hold] at hcard
      exact UInt32.le_trans (hc hcard) (UInt32.le_of_lt hlt)

theorem receiveViewChange_movesOn (c : Consensus) {height : UInt64} (round : UInt32) (voter : Id)
    (hle : height ≤ h) : c.MovesOn h r (c.receiveViewChange height round voter).2 := by
  rcases receiveViewChange_cases c height round voter with ⟨-, hlt, he⟩ | ⟨hnot, he⟩
  · rw [he]
    exact adopted_movesOn hle hlt
  · rw [he]
    exact addVote_movesOn hnot

theorem requestViewChange_movesOn {c : Consensus} {height : UInt64} (hle : height ≤ h)
    (hnext : c.round.toNat ≠ 2 ^ 32 - 1) : c.MovesOn h r (c.requestViewChange height).2 := by
  have hlt : c.round < c.round + 1 := by
    rw [UInt32.lt_iff_toNat_lt, Consensus.toNat_round_succ hnext]
    exact Nat.lt_succ_self _
  rcases requestViewChange_cases c height with ⟨-, he⟩ | ⟨hnot, he⟩
  · rw [he]
    exact adopted_movesOn hle hlt
  · rw [he]
    exact addVote_movesOn fun hboth => hnot hboth.1

theorem addPeer_movesOn {c c' : Consensus} {id key : Id} {address : String}
    (hadd : c.addPeer id key address = (true, c')) : c.MovesOn h r c' := by
  obtain ⟨-, -, rfl⟩ := addPeer_eq hadd
  refine ⟨Finset.Subset.refl _, UInt32.le_refl _, ?_⟩
  intro hc hcard
  refine hc (le_trans ?_ hcard)
  -- one node more raises the threshold, or leaves it
  unfold Consensus.threshold
  rw [length_allNodeIds, length_allNodeIds, List.length_append, List.length_singleton]
  omega

/-! ## Steps and runs -/

theorem movesOn_step (hstays : n.Stays C cfg h m) :
    n.cons.MovesOn h r (n.micro C cfg m).1.cons := by
  have hkept := hstays.kept
  have hs : n.Step C cfg m (n.micro C cfg m) := micro_step n m
  generalize n.micro C cfg m = out at hs hkept
  cases hs with
  | heardVote height round voter =>
    exact receiveViewChange_movesOn n.cons round voter (hstays.hears height round voter rfl)
  | @calledVote changed cons t t' hreq =>
    obtain ⟨hle, hnext⟩ := hstays.asks t t' rfl
    have hmoves := requestViewChange_movesOn (r := r) hle hnext
    rwa [hreq] at hmoves
  | discovered hadd => exact addPeer_movesOn hadd
  | finalized t t' hp hf =>
    exact absurd (by simp [Micro.resets, storedBlocks, Effect.stored?]) hkept
  | committed t' hp hv hc hf =>
    refine absurd ?_ hkept
    rw [Micro.resets, storedBlocks_append, storedBlocks_ranEffects]
    simp [storedBlocks, Effect.stored?, hc]
  | _ => exact ⟨Finset.Subset.refl _, UInt32.le_refl _, id⟩

theorem Consensus.MovesOn.trans {c c' c'' : Consensus} (h₁ : c.MovesOn h r c')
    (h₂ : c'.MovesOn h r c'') : c.MovesOn h r c'' :=
  ⟨h₁.votes.trans h₂.votes, UInt32.le_trans h₁.round h₂.round, h₂.counted ∘ h₁.counted⟩

theorem movesOn_run {p : Process} {ms : List Micro}
    (hrun : Runs.Along (Process.micro C cfg) (fun p m => p.node.Stays C cfg h m) p ms) :
    p.node.cons.MovesOn h r (Runs.run (Process.micro C cfg) p ms).node.cons :=
  Runs.inv_run (I := fun q => p.node.cons.MovesOn h r q.node.cons)
    (fun _ _ hq hstays => hq.trans (movesOn_step hstays)) (.refl _) hrun

/-- A vote that is heard counts. -/
theorem mem_votes_recv (hpeers : cfg.peers ≠ []) (n : Node) (voter : Id) :
    voter ∈ (n.micro C cfg (.recv (.viewChange h r voter))).1.cons.viewChangeVotes h r := by
  have hmem : voter ∈ (n.cons.addVote h r voter).viewChangeVotes h r := by
    rw [addVote_votes]
    exact Finset.mem_insert_self _ _
  simp only [Node.micro, Node.recv]
  rw [if_neg (mt List.length_eq_zero_iff.1 hpeers)]
  rcases receiveViewChange_cases n.cons h r voter with ⟨-, -, he⟩ | ⟨-, he⟩
  · rw [he]
    show voter ∈ ((n.cons.addVote h r voter).adoptRound h r).viewChangeVotes h r
    rwa [adoptRound_votes _ _ (UInt64.le_refl h)]
  · rwa [he]

/-- **A majority that is heard moves the node on.** In any run that drops no votes for the
height, a node that has voted or hears votes for a round from as many nodes as the threshold
asks for is in that round or a later one at the end. -/
theorem round_entered {p : Process} {ms : List Micro} {V : Finset Id} (hpeers : cfg.peers ≠ [])
    (hstart : p.node.cons.Counted h r)
    (hrun : Runs.Along (Process.micro C cfg) (fun p m => p.node.Stays C cfg h m) p ms)
    (hheard : ∀ v ∈ V, .recv (.viewChange h r v) ∈ ms)
    (hmajority : (Runs.run (Process.micro C cfg) p ms).node.cons.threshold ≤
      (p.node.cons.viewChangeVotes h r ∪ V).card) :
    r ≤ (Runs.run (Process.micro C cfg) p ms).node.cons.round := by
  have hmoves : p.node.cons.MovesOn h r _ := movesOn_run hrun
  refine hmoves.counted hstart (hmajority.trans (Finset.card_le_card ?_))
  refine Finset.union_subset hmoves.votes ?_
  intro v hv
  -- the vote counts when it is heard, and is kept from then on
  obtain ⟨ms₁, ms₂, rfl⟩ := List.append_of_mem (hheard v hv)
  obtain ⟨-, -, hrun₂⟩ := Runs.along_append.1 hrun
  rw [Runs.run_append, Runs.run_cons]
  exact (movesOn_run hrun₂).votes (mem_votes_recv hpeers _ v)

/-- Votes of nodes 2 and 3, and a transaction in between. -/
def Micro.toyVotes : List Micro :=
  [.recv (.viewChange 1 1 2), .recv (.submitTx .toyRegister), .recv (.viewChange 1 1 3)]

/-- Node 1 enters round 1. -/
theorem round_entered_toy :
    1 ≤ (Runs.run (Process.micro .toy (.toy [2, 3])) .toyFollower
      Micro.toyVotes).node.cons.round := by
  have hvotes : Process.toyFollower.node.cons.viewChangeVotes 1 1 = ∅ := by decide +kernel
  have hmajority : (Runs.run (Process.micro .toy (.toy [2, 3])) .toyFollower
      Micro.toyVotes).node.cons.threshold ≤
        (Process.toyFollower.node.cons.viewChangeVotes 1 1 ∪ {2, 3}).card := by
    decide +kernel
  have hvote : ∀ (n : Node) voter,
      n.Stays .toy (.toy [2, 3]) 1 (.recv (.viewChange 1 1 voter)) := by
    intro n voter
    refine ⟨by simp [Micro.resets], ?_, fun t t' heq => by cases heq⟩
    intro height round voter' heq
    cases heq
    exact UInt64.le_refl 1
  refine round_entered (C := .toy) (V := {2, 3}) (by decide) ?_
    ⟨hvote _ 2, ⟨by simp [Micro.resets], ?_, ?_⟩, hvote _ 3, trivial⟩ ?_ hmajority
  · intro hcard
    rw [hvotes] at hcard
    exact absurd hcard (by decide)
  · exact fun height round voter heq => by cases heq
  · exact fun t t' heq => by cases heq
  · intro v hv
    rcases Finset.mem_insert.1 hv with rfl | hv
    · exact .head _
    · rw [Finset.mem_singleton.1 hv]
      exact .tail _ (.tail _ (.head _))

end RoutineChain
