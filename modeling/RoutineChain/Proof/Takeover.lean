import RoutineChain.Proof.Iteration
import RoutineChain.Proof.RoundEntry

/-!
# One iteration of a node past its timeout

What the loop makes of a leader that is silent, on a node that has nothing pending and whose
clock is past the timeout: it calls for the next round in every iteration.

* `iterate_call`: a node that hears nothing votes for the next round, and stays in its own.
* `iterate_takeover`: with a majority for a round that it leads, it proposes its pool there.
* `iterate_accept`: with a majority for a round, it stores the proposal of that round's leader.
-/

namespace RoutineChain

variable {C : Crypto} {cfg : NodeConfig} {n : Node} {b : Block} {t : Int64} {h : UInt64}
  {r : UInt32} {voters : List Id} {log : List Effect}

/-- A clock that stands still. -/
def Clock.still (t : Int64) : Clock :=
  { finalized := t, age := t, elapsed := t, viewChanged := t, block := t, produced := t }

/-- At this time the node has waited too long for a block. -/
def Node.Late (cfg : NodeConfig) (n : Node) (t : Int64) : Prop :=
  t - n.lastBlockTimeMs > cfg.viewChangeTimeoutMs.toInt64

theorem Node.Late.waitedTooLong (hlate : n.Late cfg t) (hpeers : cfg.peers ≠ [])
    (hp : n.pendingBlock = none) : n.waitedTooLong cfg t := by
  unfold Node.Late at hlate
  unfold Node.waitedTooLong
  simp [hp, hpeers, hlate]

theorem Node.Idle.turned (h : n.Idle) (round : UInt32) (votes : UInt64 → UInt32 → Finset Id) :
    (n.turned round votes).Idle :=
  ⟨h.pending, h.incoming, h.proposals, h.pool, h.receiver⟩

/-! ## Votes -/

/-- The votes of others for a round, one after the other. -/
def Consensus.hear (c : Consensus) (height : UInt64) (round : UInt32) (voters : List Id) :
    Consensus :=
  Runs.run (fun c voter => (c.receiveViewChange height round voter).2) c voters

theorem run_votes (hpeers : cfg.peers ≠ []) (ms : List Micro) :
    Runs.run (Process.micro C cfg) { node := n, log }
        (voters.map (.recv <| .viewChange h r ·) ++ ms) =
      Runs.run (Process.micro C cfg) { node := { n with cons := n.cons.hear h r voters }, log }
        ms := by
  induction voters generalizing n with
  | nil => rfl
  | cons voter voters ih =>
    have hrecv : n.micro C cfg (.recv (.viewChange h r voter)) =
        ({ n with cons := (n.cons.receiveViewChange h r voter).2 }, []) := by
      simp only [Node.micro, Node.recv]
      rw [if_neg (mt List.length_eq_zero_iff.1 hpeers)]
    rw [List.map_cons, List.cons_append, run_micro _ hrecv, List.append_nil, ih]
    rfl

theorem micros_votes (msgs : List ConsensusMessage) (clk : Clock) :
    Input.micros ⟨[], voters.map (.viewChange h r ·) ++ msgs, clk⟩ =
      voters.map (.recv <| .viewChange h r ·) ++ Input.micros ⟨[], msgs, clk⟩ := by
  have hcountP : (voters.map (ConsensusMessage.viewChange h r ·)).countP (·.isPropose) = 0 := by
    simp [List.countP_eq_zero, ConsensusMessage.isPropose]
  simp [Input.micros, hcountP]

/-- A vote for a round from below leaves the other rounds of the height alone. -/
theorem receiveViewChange_turned {c : Consensus} (hround : c.round ≤ r) (voter : Id) :
    ∃ round votes, (c.receiveViewChange h r voter).2 =
        { c with round, viewChangeVotes := votes } ∧
      round ≤ r ∧ c.votersWith h r voter ⊆ votes h r ∧
      ∀ r', r' ≠ r → votes h r' = c.viewChangeVotes h r' := by
  have hadd : ∀ r', r' ≠ r →
      (c.addVote h r voter).viewChangeVotes h r' = c.viewChangeVotes h r' :=
    fun r' hne => if_neg fun heq => hne heq.2
  have hself := addVote_votes c h r voter
  rcases receiveViewChange_cases c h r voter with ⟨-, -, he⟩ | ⟨-, he⟩
  · refine ⟨r, ((c.addVote h r voter).adoptRound h r).viewChangeVotes, by rw [he]; rfl,
      UInt32.le_refl r, ?_, ?_⟩
    · rw [adoptRound_votes _ _ (UInt64.le_refl h), hself]
    · intro r' hne
      rw [adoptRound_votes _ _ (UInt64.le_refl h), hadd r' hne]
  · refine ⟨c.round, (c.addVote h r voter).viewChangeVotes, by rw [he]; rfl, hround, ?_, hadd⟩
    rw [hself]

/-- **A majority turns the node to the round.** -/
theorem hear_turned {c : Consensus} (hround : c.round ≤ r) (hcounted : c.Counted h r)
    (hmajority : c.threshold ≤ (c.viewChangeVotes h r ∪ voters.toFinset).card) :
    ∃ votes, c.hear h r voters = { c with round := r, viewChangeVotes := votes } ∧
      ∀ r', r' ≠ r → votes h r' = c.viewChangeVotes h r' := by
  induction voters generalizing c with
  | nil =>
    rw [List.toFinset_nil, Finset.union_empty] at hmajority
    have hr : c.round = r := UInt32.le_antisymm hround (hcounted hmajority)
    exact ⟨c.viewChangeVotes, by rw [← hr]; rfl, fun _ _ => rfl⟩
  | cons voter voters ih =>
    obtain ⟨round, votes, heq, hround', hvotes, hother⟩ :=
      receiveViewChange_turned (h := h) hround voter
    have hcounted' :=
      (receiveViewChange_movesOn c r voter (UInt64.le_refl h)).counted hcounted
    rw [heq] at hcounted'
    have hsub : c.viewChangeVotes h r ∪ (voter :: voters).toFinset ⊆
        votes h r ∪ voters.toFinset := by
      rw [List.toFinset_cons, Finset.union_insert, ← Finset.insert_union]
      exact Finset.union_subset_union_left hvotes
    obtain ⟨votes', hhear, hother'⟩ := ih (c := { c with round, viewChangeVotes := votes })
      hround' hcounted' (hmajority.trans (Finset.card_le_card hsub))
    refine ⟨votes', ?_, fun r' hne => (hother' r' hne).trans (hother r' hne)⟩
    rw [Consensus.hear, Runs.run_cons, heq]
    exact hhear

/-! ## The own vote -/

/-- The votes of a node that has called for the next round of its next height. -/
def Node.calledVotes (n : Node) : UInt64 → UInt32 → Finset Id :=
  (n.cons.addVote (n.store.getLatestHeight + 1) (n.cons.round + 1) n.cons.nodeId).viewChangeVotes

/-- What a node sends to call for the next round. -/
def Node.callEffects (n : Node) : List Effect :=
  [.broadcast (.viewChange (n.store.getLatestHeight + 1) (n.cons.round + 1) n.cons.nodeId)]

/-- **The own vote alone moves nothing**: the node stays in its round. -/
theorem micro_viewChange_call (hpeers : cfg.peers ≠ []) (hp : n.pendingBlock = none)
    (hlate : n.Late cfg t) (hthreshold : 2 ≤ n.cons.threshold)
    (hfresh : n.cons.viewChangeVotes (n.store.getLatestHeight + 1) (n.cons.round + 1) = ∅)
    (t' : Int64) : n.micro C cfg (.viewChange t t') =
      (n.turned n.cons.round n.calledVotes, n.callEffects) := by
  have hcard : (n.cons.votersWith (n.store.getLatestHeight + 1) (n.cons.round + 1)
      n.cons.nodeId).card = 1 := by
    rw [Consensus.votersWith, hfresh]
    rfl
  show n.viewChange cfg t t' = _
  rw [viewChange_eq, if_pos (hlate.waitedTooLong hpeers hp)]
  rcases requestViewChange_cases n.cons (n.store.getLatestHeight + 1) with ⟨hle, -⟩ | ⟨-, he⟩
  · omega
  · rw [he]
    rfl

/-- A call for the next round touches neither the store nor the pool. -/
theorem micro_viewChange_any (C : Crypto) (cfg : NodeConfig) (n : Node) (t t' : Int64) :
    ∃ n' es, n.micro C cfg (.viewChange t t') = (n', es) ∧ n'.store = n.store ∧
      n'.cons.pendingTxs = n.cons.pendingTxs := by
  have heq : n.micro C cfg (.viewChange t t') = n.viewChange cfg t t' := rfl
  rw [heq, viewChange_eq]
  split
  · refine ⟨_, _, rfl, rfl, ?_⟩
    obtain ⟨round, votes, he⟩ := requestViewChange_eq
      (Prod.mk.eta (p := n.cons.requestViewChange (n.store.getLatestHeight + 1))).symm
    show (n.cons.requestViewChange (n.store.getLatestHeight + 1)).2.pendingTxs = _
    rw [he]
  · exact ⟨n, [], rfl, rfl, rfl⟩

/-- **A node that hears nothing calls for the next round.** -/
theorem iterate_call (hpeers : cfg.peers ≠ []) (h : n.Idle) (hlate : n.Late cfg t)
    (hthreshold : 2 ≤ n.cons.threshold)
    (hfresh : n.cons.viewChangeVotes (n.store.getLatestHeight + 1) (n.cons.round + 1) = ∅) :
    Process.iterate C cfg { node := n, log } ⟨[], [], .still t⟩ =
      { node := n.turned n.cons.round n.calledVotes, log := log ++ n.callEffects } := by
  have hmicros : Input.micros ⟨[], [], .still t⟩ =
      [.finalize t t, .feed, .viewChange t t, .produce t t] := rfl
  rw [Process.iterate, hmicros, run_micro_idle _ (micro_finalize_idle h.pending _ _),
    run_micro_idle _ (micro_feed_idle h),
    run_micro _ (micro_viewChange_call hpeers h.pending hlate hthreshold hfresh t),
    run_micro_idle _ (micro_produce_idle (n := n.turned n.cons.round n.calledVotes) h.pool _ _),
    Runs.run_nil]

/-! ## The next leader -/

section Turned

variable {txs : List Transaction} {prev : Block}

/-- What a node knows that is about to enter the round: it has counted no majority for it that
it did not follow, and has one now. -/
structure Node.Turns (n : Node) (r : UInt32) (voters : List Id) : Prop where
  round : n.cons.round ≤ r
  counted : n.cons.Counted (n.store.getLatestHeight + 1) r
  majority : n.cons.threshold ≤
    (n.cons.viewChangeVotes (n.store.getLatestHeight + 1) r ∪ voters.toFinset).card

/-- **The next leader proposes its pool in its round.** -/
theorem iterate_takeover (hpeers : cfg.peers ≠ []) (h : n.Idle) (hlate : n.Late cfg t)
    (hturns : n.Turns r voters) (hthreshold : 2 ≤ n.cons.threshold)
    (hfresh : n.cons.viewChangeVotes (n.store.getLatestHeight + 1) (r + 1) = ∅)
    (hcount : 0 < n.cons.peerCount)
    (hlead : n.cons.leaderForHeightRound (n.store.getLatestHeight + 1) r = n.cons.nodeId)
    (hprev : n.store.getBlock (n.store.getLatestHeight + 1 - 1) = some prev) (hne : txs ≠ [])
    (hvalid : validOf cfg.params t n.store txs = txs)
    (hf : ¬ n.cons.isFinalized C ((n.pooled txs).block C cfg.params prev t)) :
    ∃ votes es, Process.iterate C cfg { node := n, log }
          ⟨[], voters.map (.viewChange (n.store.getLatestHeight + 1) r ·) ++
            txs.map .submitTx, .still t⟩ =
        { node := (n.turned r votes).awaiting (runAll cfg.params t n.store txs)
            ((n.pooled txs).block C cfg.params prev t)
          log := log ++ es } ∧
      .broadcast (.propose ((n.pooled txs).block C cfg.params prev t)) ∈ es := by
  obtain ⟨votes, hhear, hother⟩ := hear_turned hturns.round hturns.counted hturns.majority
  have hheard : ({ n with cons := n.cons.hear (n.store.getLatestHeight + 1) r voters } : Node) =
      n.turned r votes := by
    rw [hhear]
    rfl
  have hidle := h.turned r votes
  have hnext : r + 1 ≠ r := by
    have hlt := r.toNat_lt
    rw [Ne, ← UInt32.toNat_inj, UInt32.toNat_add, UInt32.toNat_one]
    omega
  have hfresh' : ((n.turned r votes).pooled txs).cons.viewChangeVotes
      ((n.turned r votes).store.getLatestHeight + 1) (r + 1) = ∅ :=
    (hother _ hnext).trans hfresh
  -- it calls for the round after that, which moves nothing
  obtain ⟨votes', hcall⟩ : ∃ votes',
      ((n.turned r votes).pooled txs).micro C cfg (.viewChange t t) =
        ((n.turned r votes').pooled txs, ((n.turned r votes).pooled txs).callEffects) :=
    ⟨_, micro_viewChange_call (n := (n.turned r votes).pooled txs) hpeers h.pending hlate
      hthreshold hfresh' t⟩
  have hleads : (n.turned r votes').cons.isLeader
      ((n.turned r votes').store.getLatestHeight + 1) := beq_iff_eq.2 hlead
  obtain ⟨es, hproduce, hmem⟩ := micro_produce_pooled (C := C) (n := n.turned r votes') t
    (h.turned r votes') hcount hleads hprev hne hvalid hf
  have hincoming : (n.turned r votes).incomingTxs ++ txs = txs := by
    rw [hidle.incoming, List.nil_append]
  refine ⟨votes', txs.map .pooled ++ (((n.turned r votes).pooled txs).callEffects ++ es), ?_,
    List.mem_append_right _ (List.mem_append_right _ hmem)⟩
  rw [Process.iterate, micros_votes, run_votes hpeers, hheard, micros_submits,
    run_submits hpeers, hincoming,
    run_micro_idle _ (micro_finalize_idle
      (n := { n.turned r votes with incomingTxs := txs }) h.pending _ _),
    run_micro _ (micro_feed_incoming hidle)]
  simp only [Clock.still]
  rw [run_micro _ hcall, run_micro _ hproduce, Runs.run_nil]
  simp only [List.append_assoc]
  rfl

/-- **A follower of the next leader stores its proposal.** -/
theorem iterate_accept (hpeers : cfg.peers ≠ []) (h : n.Idle) (hturns : n.Turns r voters)
    (hv : ∀ votes, Votable C (n.turned r votes) b) (hr : RootAccepted C cfg.params b n.store) :
    ∃ n' es, Process.iterate C cfg { node := n, log }
          ⟨[], voters.map (.viewChange (n.store.getLatestHeight + 1) r ·) ++ [.propose b],
            .still t⟩ = { node := n', log := log ++ es } ∧
      n'.store = (n.followed C cfg.params b).store ∧
      .broadcast (.sign b.header.height (n.cons.signHeader C b.header)) ∈ es := by
  obtain ⟨votes, hhear, -⟩ := hear_turned hturns.round hturns.counted hturns.majority
  have hheard : ({ n with cons := n.cons.hear (n.store.getLatestHeight + 1) r voters } : Node) =
      n.turned r votes := by
    rw [hhear]
    rfl
  have hidle := h.turned r votes
  have hfollowed : ((n.turned r votes).followed C cfg.params b).Idle :=
    ⟨h.pending, h.incoming, h.proposals, h.pool, h.receiver⟩
  obtain ⟨n', es, hcall, hstore, hpool⟩ :=
    micro_viewChange_any C cfg ((n.turned r votes).followed C cfg.params b) t t
  refine ⟨n', (n.turned r votes).followEffects C cfg.params b ++ es, ?_, hstore, ?_⟩
  · rw [Process.iterate, micros_votes, run_votes hpeers, hheard, micros_propose,
      run_micro _ (micro_recv_propose hpeers hidle b), List.append_nil,
      run_micro_idle _ (micro_finalize_idle
        (n := { n.turned r votes with proposals := [b] }) h.pending _ _),
      run_micro _ (micro_handle_votable hidle (hv votes) hr),
      run_micro_idle _ (micro_feed_idle hfollowed)]
    simp only [Clock.still]
    rw [run_micro _ hcall, run_micro_idle _ (micro_produce_idle (hpool.trans h.pool) _ _),
      Runs.run_nil, List.append_assoc]
  · refine List.mem_append_left _ ?_
    simp [Node.followEffects, Consensus.signHeader, Node.turned]

end Turned

end RoutineChain
