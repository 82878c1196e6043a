import RoutineChain.Proof.RoundRobin
import RoutineChain.Proof.Rounds
import RoutineChain.Proof.Takeover

/-!
# A leader that is down

`batches_commit` needs every node. Without the leader of the next height the others are past
their timeouts at some time, and can still commit: they vote for the next round, and its
leader proposes.

* `Net.Stalled`: a ready network whose leader is down, at a time past all timeouts.
* `turn_call`, `turn_takeover`, `turn_accept`, `turn_close`: the turns of the others.
* `leader_replaced`: all others store a block of the batch, and the one that is down takes no
  step.
-/

namespace RoutineChain

open Bincode Turns

variable {C : Crypto} {P : Params} {k : ℕ} {cfg : Fin k → NodeConfig} {ids : Fin k → Id}
  {keys : Fin k → BitVec 256} {net : Net k} {d L j : Fin k} {t : Int64}

/-- The leader of the next height is down: nobody has voted for a round, all timeouts are over,
and a quorum and a majority are left without it. -/
structure Net.Stalled (cfg : Fin k → NodeConfig) (ids : Fin k → Id) (net : Net k) (d : Fin k)
    (t : Int64) : Prop where
  many : 3 ≤ k
  quorum : ∀ i, (cfg i).minSignatures < k
  quiet : ∀ i height round, (net i).node.cons.viewChangeVotes height round = ∅
  leads : (net d).node.cons.leaderForHeight ((net d).node.store.getLatestHeight + 1) = ids d
  late : ∀ i, (net i).node.Late (cfg i) t

/-! ## Leaders -/

/-- **The next round has another leader.** -/
theorem leader_next_ne {c : Consensus} (hnodup : c.validators.Nodup)
    (hlen : 2 ≤ c.validators.length) {height : UInt64} (hheight : height.toNat + 1 < 2 ^ 64) :
    c.leaderForHeightRound height 0 ≠ c.leaderForHeightRound height 1 := by
  have hperm := c.allNodeIds_perm
  have hids : c.allNodeIds.Nodup := hperm.symm.nodup hnodup
  have hlen' : 2 ≤ c.allNodeIds.length := hperm.length_eq ▸ hlen
  have hturn : ∀ r : UInt32, height.toNat + r.toNat < 2 ^ 64 →
      turn c.allNodeIds (height.toNat + r.toNat) = some (c.leaderForHeightRound height r) :=
    fun r => c.turn_leader
  have h₀ := hturn 0 (Nat.lt_of_succ_lt hheight)
  have h₁ := hturn 1 hheight
  intro heq
  exact turn_succ_ne hids hlen' height.toNat (h₁.trans (heq ▸ h₀.symm))

section Stalled

variable {txs : List Transaction} {prev : Block}

theorem Net.Ready.validators (hc : Net.Cooperates C cfg ids keys) (h : net.Ready C cfg ids keys)
    (i : Fin k) : (net i).node.cons.validators.Perm ((List.finRange k).map ids) := by
  refine (net i).node.cons.allNodeIds_perm.symm.trans ?_
  rw [hc.known.allNodeIds (h.node i).nodeId (h.node i).peers]
  exact List.perm_insertionSort _ _

theorem Net.Ready.threshold (hc : Net.Cooperates C cfg ids keys) (h : net.Ready C cfg ids keys)
    (i : Fin k) : (net i).node.cons.threshold = k / 2 + 1 := by
  rw [Consensus.threshold, (net i).node.cons.allNodeIds_perm.length_eq,
    (h.validators hc i).length_eq, List.length_map, List.length_finRange]

/-- Somebody else leads the next round, and everybody agrees on it. -/
theorem Net.Stalled.nextLeader (hs : net.Stalled cfg ids d t) (hc : Net.Cooperates C cfg ids keys)
    (h : net.Ready C cfg ids keys)
    (hheight : (net d).node.store.getLatestHeight.toNat + 2 < 2 ^ 64) :
    ∃ L, L ≠ d ∧ ∀ i, (net i).node.cons.leaderForHeightRound
      ((net d).node.store.getLatestHeight + 1) 1 = ids L := by
  have hperm := h.validators hc d
  have hnodup : (net d).node.cons.validators.Nodup :=
    hperm.symm.nodup ((List.nodup_finRange k).map hc.distinct)
  have hlen : 2 ≤ (net d).node.cons.validators.length := by
    have hmany := hs.many
    rw [hperm.length_eq, List.length_map, List.length_finRange]
    omega
  have hmem := (net d).node.cons.leader_mem ((net d).node.store.getLatestHeight + 1) 1
  rw [hc.known.allNodeIds (h.node d).nodeId (h.node d).peers,
    (List.perm_insertionSort _ _).mem_iff] at hmem
  obtain ⟨L, -, hL⟩ := List.mem_map.1 hmem
  refine ⟨L, ?_, ?_⟩
  · rintro rfl
    have hleads := hs.leads
    rw [Consensus.leaderForHeight, (h.node L).round, hL] at hleads
    refine leader_next_ne hnodup hlen ?_ hleads
    rw [UInt64.toNat_add, UInt64.toNat_one]
    omega
  · intro i
    rw [hL]
    exact hc.known.leader (h.node i).nodeId (h.node i).peers (h.node d).nodeId (h.node d).peers _ _

/-! ## Four turns -/

/-- The node once it has called for round 1. -/
def Net.called (net : Net k) (j : Fin k) : Node :=
  (net j).node.turned 0 (net j).node.calledVotes

theorem length_others (d : Fin k) : (others d).length = k - 1 := by
  rw [others, List.length_erase_of_mem (List.mem_finRange d), List.length_finRange]

theorem Net.Stalled.calledVotes (hs : net.Stalled cfg ids d t) (h : net.Ready C cfg ids keys)
    (j : Fin k) : (net j).node.calledVotes ((net j).node.store.getLatestHeight + 1) 1 = {ids j} ∧
      (net j).node.calledVotes ((net j).node.store.getLatestHeight + 1) (1 + 1) = ∅ := by
  have hround : (net j).node.cons.round + 1 = 1 := by
    rw [(h.node j).round]
    rfl
  unfold Node.calledVotes
  rw [hround]
  constructor
  · rw [addVote_votes, Consensus.votersWith, hs.quiet, (h.node j).nodeId]
    rfl
  · have hne : ¬ ((net j).node.store.getLatestHeight + 1 =
        (net j).node.store.getLatestHeight + 1 ∧ (1 + 1 : UInt32) = 1) := by
      simp
    exact (if_neg hne).trans (hs.quiet j _ _)

/-- With the votes of all others that are up, a node turns to round 1. -/
theorem Net.Stalled.turns (hs : net.Stalled cfg ids d t) (hc : Net.Cooperates C cfg ids keys)
    (h : net.Ready C cfg ids keys) (hj : j ≠ d) :
    (net.called j).Turns 1 (((others d).erase j).map ids) := by
  have hmany := hs.many
  have hthreshold : (net.called j).cons.threshold = k / 2 + 1 := h.threshold hc j
  have hvotes : (net.called j).cons.viewChangeVotes ((net.called j).store.getLatestHeight + 1) 1 =
      {ids j} := (hs.calledVotes h j).1
  refine ⟨(by decide : (0 : UInt32) ≤ 1), ?_, ?_⟩
  · intro hcard
    rw [hthreshold, hvotes, Finset.card_singleton] at hcard
    omega
  · have hperm := (List.perm_cons_erase (mem_others.2 hj)).map ids
    rw [List.map_cons] at hperm
    have hnodup : ((others d).map ids).Nodup := nodup_others.map hc.distinct
    rw [hthreshold, hvotes, ← Finset.insert_eq, ← List.toFinset_cons,
      ← List.toFinset_eq_of_perm _ _ hperm, List.toFinset_card_of_nodup hnodup, List.length_map,
      length_others]
    omega

/-- A node that hears nothing calls for round 1. -/
theorem turn_call (hs : net.Stalled cfg ids d t) (hc : Net.Cooperates C cfg ids keys)
    (h : net.Ready C cfg ids keys) (j : Fin k) :
    (net j).iterate C (cfg j) ⟨[], [], .still t⟩ =
      { node := net.called j
        log := (net j).log ++
          [.broadcast (.viewChange ((net j).node.store.getLatestHeight + 1) 1 (ids j))] } := by
  have hmany := hs.many
  have hthreshold : 2 ≤ (net j).node.cons.threshold := by
    rw [h.threshold hc j]
    omega
  have hcall : (net j).iterate C (cfg j) ⟨[], [], .still t⟩ =
      { node := (net j).node.turned (net j).node.cons.round (net j).node.calledVotes
        log := (net j).log ++ (net j).node.callEffects } :=
    iterate_call (hc.peers_ne_nil j) (h.node j).toIdle (hs.late j) hthreshold (hs.quiet j _ _)
  unfold Node.callEffects at hcall
  rw [(h.node j).round, (h.node j).nodeId] at hcall
  exact hcall

/-- The next leader proposes the batch in round 1. -/
theorem turn_takeover (hs : net.Stalled cfg ids d t) (hc : Net.Cooperates C cfg ids keys)
    (h : net.Ready C cfg ids keys) (hLd : L ≠ d)
    (hL : (net L).node.cons.leaderForHeightRound
      ((net L).node.store.getLatestHeight + 1) 1 = ids L)
    (hprev : (net L).node.store.getBlock (net L).node.store.getLatestHeight = some prev)
    (hb : BatchOK C (cfg L).params (net L).node.store (txs, t)) (log : List Effect) :
    ∃ votes es, Process.iterate C (cfg L) { node := net.called L, log }
          ⟨[], (((others d).erase L).map ids).map
              (.viewChange ((net L).node.store.getLatestHeight + 1) 1 ·) ++ txs.map .submitTx,
            .still t⟩ =
        { node := ((net L).node.turned 1 votes).awaiting
            (runAll (cfg L).params t (net L).node.store txs)
            ((net L).node.batchBlock C (cfg L).params txs prev t)
          log := log ++ es } ∧
      .broadcast (.propose ((net L).node.batchBlock C (cfg L).params txs prev t)) ∈ es := by
  have hmany := hs.many
  have hready := h.node L
  have hthreshold : 2 ≤ (net.called L).cons.threshold := by
    have heq : (net.called L).cons.threshold = k / 2 + 1 := h.threshold hc L
    rw [heq]
    omega
  have hcount : 0 < (net L).node.cons.peerCount := by
    rw [Consensus.peerCount, hready.peers]
    exact List.length_pos_iff.2 (hc.peers_ne_nil L)
  have hprev' : (net L).node.store.getBlock ((net L).node.store.getLatestHeight + 1 - 1) =
      some prev := by
    rwa [UInt64.add_sub_cancel]
  exact iterate_takeover (hc.peers_ne_nil L) (hready.toIdle.turned 0 _) (hs.late L)
    (hs.turns hc h hLd) hthreshold (hs.calledVotes h L).2 hcount (hL.trans hready.nodeId.symm)
    hprev' hb.nonempty hb.valid
    (not_final_own (n := (net L).node.pooled txs) (hready.minSignatures.symm ▸ hc.several L))

/-- A follower stores the block of round 1. -/
theorem turn_accept (hs : net.Stalled cfg ids d t) (hc : Net.Cooperates C cfg ids keys)
    (h : net.Ready C cfg ids keys) (hj : j ≠ d)
    (h0 : (net L).node.store.getLatestHeight + 1 ≠ 0)
    (hL : (net j).node.cons.leaderForHeightRound
      ((net L).node.store.getLatestHeight + 1) 1 = ids L)
    (hprev : (net L).node.store.getBlock (net L).node.store.getLatestHeight = some prev)
    (hb : BatchOK C (cfg L).params (net L).node.store (txs, t)) (log : List Effect) :
    ∃ n' es, Process.iterate C (cfg j) { node := net.called j, log }
          ⟨[], (((others d).erase j).map ids).map
              (.viewChange ((net j).node.store.getLatestHeight + 1) 1 ·) ++
            [.propose ((net L).node.batchBlock C (cfg L).params txs prev t)], .still t⟩ =
        { node := n', log := log ++ es } ∧
      n'.store = ((net j).node.followed C (cfg j).params
        ((net L).node.batchBlock C (cfg L).params txs prev t)).store ∧
      .broadcast (.sign ((net L).node.batchBlock C (cfg L).params txs prev t).header.height
        ⟨ids j, C.sign (serialize ((net L).node.batchBlock C (cfg L).params txs prev t).header)
          (keys j)⟩) ∈ es := by
  have hroot : RootAccepted C (cfg j).params
      ((net L).node.batchBlock C (cfg L).params txs prev t) (net j).node.store := by
    rw [hc.known.params j L]
    exact rootAccepted_batchBlock (h.state j L) hb
  have hsign : ∀ H, (net.called j).cons.signHeader C H =
      ⟨ids j, C.sign (serialize H) (keys j)⟩ := by
    intro H
    show (net j).node.cons.signHeader C H = _
    rw [Consensus.signHeader, (h.node j).nodeId, (h.node j).privateKey]
  have hvotable : ∀ votes, Votable C ((net.called j).turned 1 votes)
      ((net L).node.batchBlock C (cfg L).params txs prev t) :=
    fun votes => h.votable hc h0 hprev votes hL
  rw [← hsign]
  exact iterate_accept (hc.peers_ne_nil j) ((h.node j).toIdle.turned 0 _) (hs.turns hc h hj)
    hvotable hroot

/-- The next leader has heard all others that are up, and stores the block. -/
theorem turn_close (hs : net.Stalled cfg ids d t) (hc : Net.Cooperates C cfg ids keys)
    (h : net.Ready C cfg ids keys) {b : Block}
    (hown : (net L).node.cons.signHeader C b.header ∈ b.signatures)
    (votes : UInt64 → UInt32 → Finset Id) (log : List Effect) (s : Store) :
    Process.iterate C (cfg L) { node := ((net L).node.turned 1 votes).awaiting s b, log }
        ⟨[], (signaturesOf C ids keys ((others d).erase L) b).map (.sign b.header.height),
          .still t⟩ =
      { node := ((net L).node.turned 1 votes).committed s
          (b.cosigned (signaturesOf C ids keys ((others d).erase L) b)) t
        log := log ++ [.stored ((net L).node.turned 1 votes).cons
          (b.cosigned (signaturesOf C ids keys ((others d).erase L) b))] } := by
  have hL := h.node L
  have hcalm : (((net L).node.turned 1 votes).committed s
      (b.cosigned (signaturesOf C ids keys ((others d).erase L) b)) t).Calm (cfg L)
        (.still t) := by
    have hpatient := hc.patient L
    unfold Node.Calm Clock.still Node.committed
    simp only [Int64.sub_self]
    exact Int64.not_lt.2 hpatient
  refine iterate_commit (hc.peers_ne_nil L) (hL.toIdle.turned 1 votes) hcalm ?_ ?_
  · intro sig hsig
    obtain ⟨j, -, rfl⟩ := List.mem_map.1 hsig
    exact hc.verifies hL.nodeId hL.peers _ j
  · have henough : (net L).node.cons.minSignatures ≤ (others d).toFinset.card := by
      have hquorum := hs.quorum L
      rw [List.toFinset_card_of_nodup nodup_others, length_others, hL.minSignatures]
      omega
    refine hc.final (c := ((net L).node.turned 1 votes).cons) hL.nodeId hL.peers henough ?_
    intro j hj
    refine List.mem_append.2 ?_
    by_cases hjL : j = L
    · left
      rw [Consensus.signHeader, hL.nodeId, hL.privateKey] at hown
      rwa [hjL]
    · right
      exact List.mem_map.2 ⟨j, (List.mem_erase_of_ne hjL).2 (List.mem_toFinset.1 hj), rfl⟩

/-! ## The run -/

/-- All nodes but one have called for round 1. -/
structure Net.Called (ids : Fin k → Id) (net : Net k) (d : Fin k) (net₁ : Net k) : Prop where
  process : ∀ j, j ≠ d → ∃ log, net₁ j = { node := net.called j, log }
  votes : ∀ j, j ≠ d → ∀ i, net₁.Deliverable
    (.viewChange ((net i).node.store.getLatestHeight + 1) 1 (ids j))

/-- One turn of each is enough for it. -/
theorem run_calls (hs : net.Stalled cfg ids d t) (hc : Net.Cooperates C cfg ids keys)
    (h : net.Ready C cfg ids keys) :
    net.Called ids d (Runs.run (Net.step C cfg) net
      ((others d).map fun j => (j, ⟨[], [], .still t⟩))) := by
  have hrun : ∀ j, j ≠ d → Runs.run (Net.step C cfg) net
      ((others d).map fun j => (j, ⟨[], [], .still t⟩)) j =
        { node := net.called j
          log := (net j).log ++
            [.broadcast (.viewChange ((net j).node.store.getLatestHeight + 1) 1 (ids j))] } := by
    intro j hj
    have hrun : _ = if j ∈ others d then (net j).iterate C (cfg j) ⟨[], [], .still t⟩ else net j :=
      congrFun (Net.run_each (fun _ => ⟨[], [], .still t⟩) nodup_others) j
    rw [if_pos (mem_others.2 hj), turn_call hs hc h j] at hrun
    exact hrun
  refine ⟨fun j hj => ⟨_, hrun j hj⟩, ?_⟩
  intro j hj i
  rw [h.height i j]
  refine ⟨j, mem_sentMessages.2 ⟨.broadcast
    (.viewChange ((net j).node.store.getLatestHeight + 1) 1 (ids j)), ?_, rfl⟩⟩
  rw [hrun j hj]
  exact List.mem_append_right _ (List.mem_singleton_self _)

/-- What a node drains of the others' votes has been sent. -/
theorem Net.Called.drains {net₁ : Net k} (h : net.Called ids d net₁) {i j : Fin k}
    {msg : ConsensusMessage} (hmsg : msg ∈ (((others d).erase j).map ids).map
      (.viewChange ((net i).node.store.getLatestHeight + 1) 1 ·)) : net₁.Deliverable msg := by
  obtain ⟨id, hid, rfl⟩ := List.mem_map.1 hmsg
  obtain ⟨j', hj', rfl⟩ := List.mem_map.1 hid
  exact h.votes j' (mem_others.1 (List.mem_of_mem_erase hj')) i

/-- **The next leader commits its block** with the others that have called. -/
theorem run_takeover {net₁ : Net k} (hcalled : net.Called ids d net₁)
    (hs : net.Stalled cfg ids d t) (hc : Net.Cooperates C cfg ids keys)
    (h : net.Ready C cfg ids keys) (hLd : L ≠ d)
    (h0 : (net L).node.store.getLatestHeight + 1 ≠ 0)
    (hL : ∀ i, (net i).node.cons.leaderForHeightRound
      ((net L).node.store.getLatestHeight + 1) 1 = ids L)
    (hprev : (net L).node.store.getBlock (net L).node.store.getLatestHeight = some prev)
    (hb : BatchOK C (cfg L).params (net L).node.store (txs, t)) :
    ∃ as, (∀ a ∈ as, a.1 ≠ d ∧ a.2.clock = .still t) ∧
      Runs.Along (Net.step C cfg) Net.Drains net₁ as ∧
      ∃ H : BlockHeader, H.height = (net L).node.store.getLatestHeight + 1 ∧
        ∀ j, j ≠ d → (net j).node.store.Gains (cfg L).params t txs H
          (Runs.run (Net.step C cfg) net₁ as j).node.store := by
  have hlead := turn_takeover hs hc h hLd (hL L) hprev hb
  have hfollow := fun j hj => turn_accept hs hc h hj h0 (hL j) hprev hb
  have hclose := turn_close hs hc h
    (b := (net L).node.batchBlock C (cfg L).params txs prev t) (List.mem_singleton_self _)
  have htxs : ((net L).node.batchBlock C (cfg L).params txs prev t).transactions = txs :=
    Node.batchBlock_transactions hb.valid
  have hH : ((net L).node.batchBlock C (cfg L).params txs prev t).header.height =
      (net L).node.store.getLatestHeight + 1 := rfl
  have hreplay : ∀ s : Store, (replayBlock C (cfg L).params
      ((net L).node.batchBlock C (cfg L).params txs prev t) s).store =
        runAll (cfg L).params t s txs := fun s => replay_batchBlock hb
  generalize (net L).node.batchBlock C (cfg L).params txs prev t = b at *
  have hmem : ∀ {j}, j ∈ (others d).erase L ↔ j ≠ L ∧ j ≠ d := by
    intro j
    rw [nodup_others.mem_erase_iff, mem_others]
  -- First turn: the next leader has got the votes and the batch.
  let first : Fin k × Input :=
    (L, ⟨[], (((others d).erase L).map ids).map
        (.viewChange ((net L).node.store.getLatestHeight + 1) 1 ·) ++ txs.map .submitTx, .still t⟩)
  have hfirst : net₁.Drains first := by
    intro msg hmsg
    rcases List.mem_append.1 hmsg with hmsg | hmsg
    · exact hcalled.drains hmsg
    · obtain ⟨tx, -, rfl⟩ := List.mem_map.1 hmsg
      trivial
  let net₂ := net₁.step C cfg first
  obtain ⟨log, hlog⟩ := hcalled.process L hLd
  obtain ⟨votes, es, hlead, hproposed⟩ := hlead log
  have hnet₂_L : net₂ L =
      { node := ((net L).node.turned 1 votes).awaiting
          (runAll (cfg L).params t (net L).node.store txs) b
        log := log ++ es } := by
    have hstep : net₂ L = (net₁ L).iterate C (cfg L) first.2 := Function.update_self ..
    rw [hlog] at hstep
    exact hstep.trans hlead
  have hnet₂_ne : ∀ j, j ≠ L → net₂ j = net₁ j := fun j hj => Function.update_of_ne hj ..
  have hsent : net₂.Deliverable (.propose b) := by
    refine ⟨L, mem_sentMessages.2 ⟨.broadcast (.propose b), ?_, rfl⟩⟩
    rw [hnet₂_L]
    exact List.mem_append_right _ hproposed
  -- Second turn: the others have got the votes and the block.
  let heard : Fin k → Input := fun j =>
    ⟨[], (((others d).erase j).map ids).map
        (.viewChange ((net j).node.store.getLatestHeight + 1) 1 ·) ++ [.propose b], .still t⟩
  let second : List (Fin k × Input) := ((others d).erase L).map fun j => (j, heard j)
  have hsecond : Runs.Along (Net.step C cfg) Net.Drains net₂ second := by
    refine drains_of_deliverable ?_
    intro a ha msg hmsg
    obtain ⟨j, -, rfl⟩ := List.mem_map.1 ha
    rcases List.mem_append.1 hmsg with hmsg | hmsg
    · exact (hcalled.drains hmsg).step first
    · rw [List.mem_singleton.1 hmsg]
      exact hsent
  let net₃ := Runs.run (Net.step C cfg) net₂ second
  have hnet₃ : ∀ j, net₃ j = if j ∈ (others d).erase L then
      (net₂ j).iterate C (cfg j) (heard j) else net₂ j := by
    intro j
    exact congrFun (Net.run_each heard (nodup_others.erase L)) j
  have hnet₃_L : net₃ L = net₂ L := by
    rw [hnet₃, if_neg fun hL' => (hmem.1 hL').1 rfl]
  have hnet₃_ne : ∀ j, j ≠ L → j ≠ d →
      (net₃ j).node.store = ((net j).node.followed C (cfg j).params b).store ∧
      net₃.Deliverable (.sign b.header.height
        ⟨ids j, C.sign (serialize b.header) (keys j)⟩) := by
    intro j hjL hjd
    obtain ⟨log, hlog⟩ := hcalled.process j hjd
    obtain ⟨n', es, hiterate, hstore, hsigned⟩ := hfollow j hjd log
    have hj : net₃ j = { node := n', log := log ++ es } := by
      rw [hnet₃, if_pos (hmem.2 ⟨hjL, hjd⟩), hnet₂_ne j hjL, hlog, ← hiterate]
    refine ⟨by rw [hj, hstore], j, mem_sentMessages.2 ⟨.broadcast (.sign b.header.height
      ⟨ids j, C.sign (serialize b.header) (keys j)⟩), ?_, rfl⟩⟩
    rw [hj]
    exact List.mem_append_right _ hsigned
  -- Third turn: the next leader has got all signatures.
  let third : Fin k × Input :=
    (L, ⟨[], (signaturesOf C ids keys ((others d).erase L) b).map (.sign b.header.height),
      .still t⟩)
  have hthird : net₃.Drains third := by
    intro msg hmsg
    obtain ⟨sig, hsig, rfl⟩ := List.mem_map.1 hmsg
    obtain ⟨j, hj, rfl⟩ := List.mem_map.1 hsig
    exact (hnet₃_ne j (hmem.1 hj).1 (hmem.1 hj).2).2
  refine ⟨first :: second ++ [third], ?_, ?_, b.header, hH, ?_⟩
  · intro a ha
    simp only [second, List.mem_append, List.mem_cons, List.mem_map, List.not_mem_nil,
      or_false] at ha
    obtain (rfl | ⟨j, hj, rfl⟩) | rfl := ha
    · exact ⟨hLd, rfl⟩
    · exact ⟨(hmem.1 hj).2, rfl⟩
    · exact ⟨hLd, rfl⟩
  · exact ⟨hfirst, Runs.along_append.2 ⟨hsecond, hthird, trivial⟩⟩
  · have hend : Runs.run (Net.step C cfg) net₁ (first :: second ++ [third]) =
        net₃.step C cfg third := Runs.run_append _ _ second [third]
    intro j hjd
    rw [hend]
    by_cases hjL : j = L
    · have hL' : net₃.step C cfg third L = (net₃ L).iterate C (cfg L) third.2 :=
        Function.update_self ..
      rw [hjL, hL', hnet₃_L, hnet₂_L, hclose]
      exact ⟨b.cosigned (signaturesOf C ids keys ((others d).erase L) b), rfl, htxs, rfl⟩
    · have hj' : net₃.step C cfg third j = net₃ j := Function.update_of_ne hjL ..
      rw [hj', (hnet₃_ne j hjL hjd).1]
      refine ⟨b, rfl, htxs, ?_⟩
      rw [Node.followed, hc.known.params j L, hreplay]

/-- **A leader that is down is replaced.** In a stalled network there is a run of the other
nodes, with messages that they have sent and at one time, after which each of them has stored a
block of the batch. -/
theorem leader_replaced (hs : net.Stalled cfg ids d t) (hc : Net.Cooperates C cfg ids keys)
    (h : net.Ready C cfg ids keys)
    (hheight : (net d).node.store.getLatestHeight.toNat + 2 < 2 ^ 64)
    (hb : BatchOK C (cfg d).params (net d).node.store (txs, t)) :
    ∃ as, (∀ a ∈ as, a.1 ≠ d ∧ a.2.clock = .still t) ∧
      Runs.Along (Net.step C cfg) Net.Drains net as ∧
      ∃ H : BlockHeader, H.height = (net d).node.store.getLatestHeight + 1 ∧
        ∀ j, j ≠ d → (net j).node.store.Gains (cfg d).params t txs H
          (Runs.run (Net.step C cfg) net as j).node.store := by
  obtain ⟨L, hLd, hL⟩ := hs.nextLeader hc h hheight
  rw [h.height d L] at hheight hL ⊢
  rw [hc.known.params d L] at hb ⊢
  have hb := hb.congr (h.state d L)
  have h0 : (net L).node.store.getLatestHeight + 1 ≠ 0 := by
    rw [Ne, ← UInt64.toNat_inj, UInt64.toNat_add]
    simp only [UInt64.toNat_one, UInt64.toNat_zero]
    omega
  obtain ⟨prev, hprev⟩ := Option.isSome_iff_exists.1
    (((h.chain L).dense (net L).node.store.getLatestHeight).2 (UInt64.le_refl _))
  let calls : List (Fin k × Input) := (others d).map fun j => (j, ⟨[], [], .still t⟩)
  have hcalls : Runs.Along (Net.step C cfg) Net.Drains net calls := by
    refine drains_of_deliverable ?_
    intro a ha msg hmsg
    obtain ⟨j, -, rfl⟩ := List.mem_map.1 ha
    cases hmsg
  obtain ⟨as, hactors, hdrains, hgains⟩ :=
    run_takeover (run_calls hs hc h) hs hc h hLd h0 hL hprev hb
  refine ⟨calls ++ as, ?_, Runs.along_append.2 ⟨hcalls, hdrains⟩, ?_⟩
  · intro a ha
    rcases List.mem_append.1 ha with ha | ha
    · obtain ⟨j, hj, rfl⟩ := List.mem_map.1 ha
      exact ⟨mem_others.1 hj, rfl⟩
    · exact hactors a ha
  · rw [Runs.run_append]
    exact hgains

/-- Node 2 leads height 1 and is down: nodes 1 and 3 commit without it. -/
theorem leader_replaced_toy : ∃ as, (∀ a ∈ as, a.1 ≠ 1 ∧ a.2.clock = .still 100000) ∧
    Runs.Along (Net.step .toy NodeConfig.toyNet) Net.Drains .toy as ∧
    ∃ H : BlockHeader, H.height = (Net.toy 1).node.store.getLatestHeight + 1 ∧
      ∀ j, j ≠ 1 → (Net.toy j).node.store.Gains (NodeConfig.toyNet 1).params 100000
        [.toyRegister] H (Runs.run (Net.step .toy NodeConfig.toyNet) .toy as j).node.store := by
  have hready : Net.toy.Ready .toy NodeConfig.toyNet ![1, 2, 3] ![1, 2, 3] :=
    Net.ready_start Net.cooperates_toy Net.setup_toy fun _ _ => ⟨rfl, rfl⟩
  have hlate : ∀ i, (Net.toy i).node.Late (NodeConfig.toyNet i) 100000 := by
    unfold Node.Late
    decide +kernel
  have hstalled : Net.toy.Stalled NodeConfig.toyNet ![1, 2, 3] 1 100000 :=
    ⟨by decide, by decide +kernel, fun _ _ _ => rfl, by decide +kernel, hlate⟩
  exact leader_replaced hstalled Net.cooperates_toy hready (by decide +kernel)
    ⟨by decide, by decide +kernel, by decide +kernel⟩

end Stalled

end RoutineChain
