import RoutineChain.Lib.Runs
import RoutineChain.Lib.Turns
import RoutineChain.Proof.Proposer
import RoutineChain.Proof.Step

/-!
# Fair rotation

The leader of a height in a round has turn `height + round` in the sorted list of the
nodes, as long as the sum is a word.

* `RotatesFairly`: every node leads once in as many heights, or rounds, as there are nodes.
* `rotation_fair`: the rotation is fair, and nodes with the same validators agree on it,
  whoever they are and in whatever order they have met their peers.
-/

namespace RoutineChain

open Turns

/-! ## The validators -/

/-- The nodes of the rotation: the node itself and its peers, in the order it met them. -/
def Consensus.validators (c : Consensus) : List Id := c.nodeId :: c.peers.map (·.id)

/-- Add peers that have been discovered, one after another. -/
def Consensus.addPeers (c : Consensus) (peers : List Peer) : Consensus :=
  Runs.run (fun c p => (c.addPeer p.id p.publicKey p.address).2) c peers

namespace Consensus

theorem allNodeIds_perm (c : Consensus) : c.allNodeIds.Perm c.validators :=
  (List.perm_insertionSort _ _).trans (List.perm_append_singleton _ _)

/-- A peer that is added is not a validator yet. -/
theorem nodup_addPeer {c : Consensus} (h : c.validators.Nodup) (id key : Id) (address : String) :
    (c.addPeer id key address).2.validators.Nodup := by
  unfold addPeer
  split
  case isTrue => exact h
  case isFalse hid =>
    split
    case isTrue => exact h
    case isFalse hnew =>
      have hfresh : id ∉ c.validators := by
        rw [validators, List.mem_cons, List.mem_map]
        rintro (hown | ⟨p, hp, heq⟩)
        · exact hid hown
        · exact hnew (List.any_eq_true.2 ⟨p, hp, beq_iff_eq.2 heq⟩)
      have hperm : (id :: c.validators).Perm (c.nodeId :: (c.peers.map (·.id) ++ [id])) :=
        (List.Perm.swap _ _ _).trans ((List.perm_append_singleton _ _).symm.cons _)
      simpa [validators] using hperm.nodup (h.cons hfresh)

theorem nodup_addPeers {c : Consensus} (h : c.validators.Nodup) (peers : List Peer) :
    (c.addPeers peers).validators.Nodup :=
  Runs.inv_run (I := fun c => c.validators.Nodup) (fun _ p hc _ => nodup_addPeer hc p.id _ _) h
    (Runs.along_true c peers)

/-- **Nodes with the same validators have the same leaders.** -/
theorem leader_validators {c c' : Consensus} (h : c.validators.Nodup) (h' : c'.validators.Nodup)
    (hsame : ∀ v, v ∈ c.validators ↔ v ∈ c'.validators) (height : UInt64) (round : UInt32) :
    c.leaderForHeightRound height round = c'.leaderForHeightRound height round := by
  have hperm : c.validators.Perm c'.validators := (List.perm_ext_iff_of_nodup h h').2 hsame
  refine leader_congr ?_ height round
  rw [allNodeIds_of_perm hperm]
  exact (allNodeIds_of_perm (List.Perm.refl _)).symm

/-! ## Turns -/

/-- The leader's turn is the sum of height and round. -/
theorem turn_leader (c : Consensus) {height : UInt64} {round : UInt32}
    (h : height.toNat + round.toNat < 2 ^ 64) :
    turn c.allNodeIds (height.toNat + round.toNat) =
      some (c.leaderForHeightRound height round) := by
  have hsum : (height + round.toUInt64).toNat = height.toNat + round.toNat := by
    rw [UInt64.toNat_add, UInt32.toNat_toUInt64, Nat.mod_eq_of_lt h]
  rw [← c.leader_eq height round, hsum]
  rfl

/-- Everybody leads once in as many consecutive turns as there are validators. -/
theorem count_leader {c : Consensus} (h : c.validators.Nodup) {k : ℕ}
    (hbound : k + c.validators.length ≤ 2 ^ 64) {ts : List (UInt64 × UInt32)}
    (hts : ts.map (fun t => t.1.toNat + t.2.toNat) = List.range' k c.validators.length) {v : Id}
    (hv : v ∈ c.validators) : (ts.map fun t => c.leaderForHeightRound t.1 t.2).count v = 1 := by
  have hperm := c.allNodeIds_perm
  have hturn : ∀ t ∈ ts, turn c.allNodeIds (t.1.toNat + t.2.toNat) =
      some (c.leaderForHeightRound t.1 t.2) := by
    intro t ht
    have hmem := List.mem_map_of_mem (f := fun t => t.1.toNat + t.2.toNat) ht
    rw [hts, List.mem_range'_1] at hmem
    exact c.turn_leader (by omega)
  rw [← hperm.length_eq] at hts
  exact count_eq_one (hperm.symm.nodup h) hts hturn (hperm.mem_iff.2 hv)

/-- A height further is a round further. -/
theorem leader_succ (c : Consensus) {height : UInt64} {round next : UInt32}
    (h : height.toNat + round.toNat + 1 < 2 ^ 64) (hnext : next.toNat = round.toNat + 1) :
    c.leaderForHeightRound (height + 1) round = c.leaderForHeightRound height next := by
  have hheight : (height + 1).toNat = height.toNat + 1 := by
    rw [UInt64.toNat_add, UInt64.toNat_one]
    omega
  have hfirst : turn c.allNodeIds ((height + 1).toNat + round.toNat) =
      some (c.leaderForHeightRound (height + 1) round) := c.turn_leader (by omega)
  have hsecond : turn c.allNodeIds (height.toNat + next.toNat) =
      some (c.leaderForHeightRound height next) := c.turn_leader (by omega)
  have hsum : (height + 1).toNat + round.toNat = height.toNat + next.toNat := by omega
  rw [hsum, hsecond, Option.some_inj] at hfirst
  exact hfirst.symm

end Consensus

/-! ## Fairness -/

/-- The rotation from a height and a round on: in as many consecutive heights as there are
validators every one of them leads once, likewise in as many rounds, and a height counts as
much as a round. -/
structure Consensus.RotatesFairly (c : Consensus) (height : UInt64) (round : UInt32) : Prop where
  heights : ∀ hs : List UInt64,
    hs.map (·.toNat) = List.range' height.toNat c.validators.length →
    ∀ v ∈ c.validators, (hs.map (c.leaderForHeightRound · round)).count v = 1
  rounds : ∀ rs : List UInt32,
    rs.map (·.toNat) = List.range' round.toNat c.validators.length →
    ∀ v ∈ c.validators, (rs.map (c.leaderForHeightRound height ·)).count v = 1
  exchange : ∀ next : UInt32, next.toNat = round.toNat + 1 →
    c.leaderForHeightRound (height + 1) round = c.leaderForHeightRound height next

theorem Consensus.rotatesFairly {c : Consensus} (h : c.validators.Nodup) {height : UInt64}
    {round : UInt32}
    (hbound : height.toNat + round.toNat + c.validators.length < 2 ^ 64) :
    c.RotatesFairly height round := by
  refine ⟨?_, ?_, ?_⟩
  case refine_1 =>
    intro hs hcons v hv
    have hturns : (hs.map (·, round)).map (fun t => t.1.toNat + t.2.toNat) =
        List.range' (height.toNat + round.toNat) c.validators.length := by
      rw [Nat.add_comm, ← List.map_add_range', ← hcons, List.map_map, List.map_map]
      exact List.map_congr_left fun x _ => Nat.add_comm _ _
    simpa [Function.comp_def] using count_leader h hbound.le hturns hv
  case refine_2 =>
    intro rs hcons v hv
    have hturns : (rs.map (height, ·)).map (fun t => t.1.toNat + t.2.toNat) =
        List.range' (height.toNat + round.toNat) c.validators.length := by
      rw [← List.map_add_range', ← hcons, List.map_map, List.map_map]
      rfl
    simpa [Function.comp_def] using count_leader h hbound.le hturns hv
  case refine_3 =>
    intro next hnext
    have hpos : 0 < c.validators.length := Nat.succ_pos _
    exact c.leader_succ (by omega) hnext

/-- **Leader rotation is a fair round-robin over the validators**, which the node's peers,
configured or added, and the node itself make up; and it is the same rotation for every
node that has these validators. -/
theorem rotation_fair {c : Consensus} (hc : c.validators.Nodup) (peers : List Peer) :
    (∀ height round,
      height.toNat + round.toNat + (c.addPeers peers).validators.length < 2 ^ 64 →
      (c.addPeers peers).RotatesFairly height round) ∧
    ∀ (c' : Consensus) (peers' : List Peer), c'.validators.Nodup →
      (∀ v, v ∈ (c.addPeers peers).validators ↔ v ∈ (c'.addPeers peers').validators) →
      ∀ height round, (c.addPeers peers).leaderForHeightRound height round =
        (c'.addPeers peers').leaderForHeightRound height round := by
  have hnodup := Consensus.nodup_addPeers hc peers
  refine ⟨fun height round => Consensus.rotatesFairly hnodup, ?_⟩
  intro c' peers' hc' hsame height round
  exact Consensus.leader_validators hnodup (Consensus.nodup_addPeers hc' peers') hsame height round

/-- Node 1 knows node 2 and discovers node 3; node 3 knows both, the other way around. -/
theorem rotation_fair_toy :
    ((Consensus.new 1 1 [⟨2, "", 2⟩] 2).addPeers [⟨3, "", 3⟩]).RotatesFairly 5 1 ∧
    ((Consensus.new 1 1 [⟨2, "", 2⟩] 2).addPeers [⟨3, "", 3⟩]).leaderForHeightRound 5 1 =
      ((Consensus.new 3 3 [⟨2, "", 2⟩, ⟨1, "", 1⟩] 2).addPeers []).leaderForHeightRound 5 1 := by
  have h := rotation_fair (c := .new 1 1 [⟨2, "", 2⟩] 2) (by decide +kernel) [⟨3, "", 3⟩]
  have hperm : ((Consensus.new 1 1 [⟨2, "", 2⟩] 2).addPeers [⟨3, "", 3⟩]).validators.Perm
      ((Consensus.new 3 3 [⟨2, "", 2⟩, ⟨1, "", 1⟩] 2).addPeers []).validators := by
    decide +kernel
  exact ⟨h.1 5 1 (by decide +kernel), h.2 _ [] (by decide +kernel) (fun _ => hperm.mem_iff) 5 1⟩

end RoutineChain
