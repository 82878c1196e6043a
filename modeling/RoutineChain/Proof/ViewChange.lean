import RoutineChain.Proof.Rotation

/-!
# View changes

A node adopts a round when the votes that it has collected for it reach a simple majority.
The votes are kept by height and round, under whatever id their message names, and the round
that they make is one for all heights.

* `Poll`: a node together with the votes cast since its last reset.
* `viewChange_majority`: as long as every majority that a node sees is one of its own nodes,
  for its next height, a majority of its nodes stands behind each round that it enters.
-/

namespace RoutineChain

variable {C : Crypto} {cfg : NodeConfig} {n : Node} {m : Micro} {out : Node × List Effect}

/-! ## Votes cast -/

/-- A vote: the height and round that it is for, and the voter. -/
abbrev Vote := UInt64 × UInt32 × Id

/-- The vote that an effect casts. -/
def Effect.vote? : Effect → Option Vote
  | .broadcast (.viewChange height round voter) => some (height, round, voter)
  | _ => none

/-- The votes cast in a step: one of another node as it is drained, the own one as it is
sent. -/
def Micro.votes (m : Micro) (es : List Effect) : List Vote :=
  (match m with
    | .recv (.viewChange height round voter) => [(height, round, voter)]
    | _ => []) ++ es.filterMap Effect.vote?

/-- The step calls `reset_round`: the pending block is final, or the own block at once. -/
def Micro.resets (n : Node) (m : Micro) (es : List Effect) : Bool :=
  match m with
  | .finalize _ _ => !(storedBlocks es).isEmpty
  | .produce _ _ => 0 < n.cons.peerCount && !(storedBlocks es).isEmpty
  | _ => false

/-- A process, with the votes cast since the last reset. -/
structure Poll where
  process : Process
  cast : List Vote := []

/-- One step of the loop. -/
def Poll.micro (C : Crypto) (cfg : NodeConfig) (q : Poll) (m : Micro) : Poll where
  process := q.process.micro C cfg m
  cast :=
    let es := (q.process.node.micro C cfg m).2
    if m.resets q.process.node es then [] else q.cast ++ m.votes es

/-- More than half of the nodes have voted for a round of a height. -/
def Poll.Majority (q : Poll) (height : UInt64) (round : UInt32) : Prop :=
  q.process.node.cons.allNodeIds.length < 2 *
    (q.process.node.cons.allNodeIds.toFinset.filter fun id => (height, round, id) ∈ q.cast).card

instance (q : Poll) (height : UInt64) (round : UInt32) : Decidable (q.Majority height round) :=
  inferInstanceAs (Decidable (_ < _))

/-- **A view change needs a majority of the nodes.** A round that the node enters has one
for its next height, and a vote of a stranger or for another height does not change the
leader that the node expects. -/
structure Poll.ChangesViewByMajority (C : Crypto) (cfg : NodeConfig) (q : Poll) (m : Micro) :
    Prop where
  majority : (q.micro C cfg m).process.node.cons.round ≠ q.process.node.cons.round →
    (q.micro C cfg m).process.node.cons.round > 0 →
    (q.micro C cfg m).Majority ((q.micro C cfg m).process.node.store.getLatestHeight + 1)
      (q.micro C cfg m).process.node.cons.round
  stray : ∀ height round voter, m = .recv (.viewChange height round voter) →
    height ≠ q.process.node.store.getLatestHeight + 1 ∨
      voter ∉ q.process.node.cons.allNodeIds →
    (q.micro C cfg m).process.node.cons.leaderForHeight
        (q.process.node.store.getLatestHeight + 1) =
      q.process.node.cons.leaderForHeight (q.process.node.store.getLatestHeight + 1)

/-! ## One call -/

/-- The voters for a round of a height, once `voter` has voted. -/
def Consensus.votersWith (c : Consensus) (height : UInt64) (round : UInt32) (voter : Id) :
    Finset Id :=
  insert voter (c.viewChangeVotes height round)

theorem addVote_votes (c : Consensus) (height : UInt64) (round : UInt32) (voter : Id) :
    (c.addVote height round voter).viewChangeVotes height round =
      c.votersWith height round voter := by
  simp [Consensus.addVote, Consensus.votersWith]

theorem mem_addVote {c : Consensus} {height h : UInt64} {round r : UInt32} {voter id : Id}
    (hid : id ∈ (c.addVote height round voter).viewChangeVotes h r) :
    id ∈ c.viewChangeVotes h r ∨ (h, r, id) = (height, round, voter) := by
  simp only [Consensus.addVote] at hid
  split at hid
  case isTrue heq =>
    obtain ⟨rfl, rfl⟩ := heq
    rcases Finset.mem_insert.1 hid with rfl | hid
    · exact .inr rfl
    · exact .inl hid
  case isFalse => exact .inl hid

theorem mem_adoptRound {c : Consensus} {height h : UInt64} {round r : UInt32} {id : Id}
    (hid : id ∈ (c.adoptRound height round).viewChangeVotes h r) :
    id ∈ c.viewChangeVotes h r := by
  simp only [Consensus.adoptRound] at hid
  split at hid
  · exact hid
  · cases hid

/-- **A vote is counted, and adopts its round or not.** -/
theorem receiveViewChange_cases (c : Consensus) (height : UInt64) (round : UInt32) (voter : Id) :
    (c.threshold ≤ (c.votersWith height round voter).card ∧ c.round < round ∧
      c.receiveViewChange height round voter =
        (true, (c.addVote height round voter).adoptRound height round)) ∨
    (¬ (c.threshold ≤ (c.votersWith height round voter).card ∧ c.round < round) ∧
      c.receiveViewChange height round voter = (false, c.addVote height round voter)) := by
  unfold Consensus.receiveViewChange
  simp only [addVote_votes]
  split
  case isTrue h => exact .inl ⟨h.1, h.2, rfl⟩
  case isFalse h => exact .inr ⟨h, rfl⟩

theorem requestViewChange_cases (c : Consensus) (height : UInt64) :
    (c.threshold ≤ (c.votersWith height (c.round + 1) c.nodeId).card ∧
      c.requestViewChange height =
        (true, (c.addVote height (c.round + 1) c.nodeId).adoptRound height (c.round + 1))) ∨
    (¬ c.threshold ≤ (c.votersWith height (c.round + 1) c.nodeId).card ∧
      c.requestViewChange height = (false, c.addVote height (c.round + 1) c.nodeId)) := by
  unfold Consensus.requestViewChange
  simp only [addVote_votes]
  split
  case isTrue h => exact .inl ⟨h, rfl⟩
  case isFalse h => exact .inr ⟨h, rfl⟩

/-! ## Votes counted -/

/-- Every vote that the node counts has been cast since the last reset. -/
def Poll.Recorded (q : Poll) : Prop :=
  ∀ height round id, id ∈ q.process.node.cons.viewChangeVotes height round →
    (height, round, id) ∈ q.cast

theorem storedBlocks_append (es es' : List Effect) :
    storedBlocks (es ++ es') = storedBlocks es ++ storedBlocks es' :=
  List.filterMap_append

/-- Running the pool stores no block. -/
theorem storedBlocks_ranEffects (P : Params) (n : Node) (t : Int64) :
    storedBlocks (n.ranEffects P t) = [] := by
  simp [storedBlocks, Node.ranEffects, Effect.stored?, Function.comp_def]

/-- What a step adds to the votes counted it adds to the votes cast, unless it resets both. -/
theorem votes_step (hs : n.Step C cfg m out) :
    (m.resets n out.2 ∧ ∀ height round, out.1.cons.viewChangeVotes height round = ∅) ∨
    (¬ m.resets n out.2 ∧
      ∀ height round id, id ∈ out.1.cons.viewChangeVotes height round →
        id ∈ n.cons.viewChangeVotes height round ∨ (height, round, id) ∈ m.votes out.2) := by
  have hkept : ∀ es, ∀ height round id, id ∈ n.cons.viewChangeVotes height round →
      id ∈ n.cons.viewChangeVotes height round ∨ (height, round, id) ∈ m.votes es :=
    fun es height round id hid => .inl hid
  cases hs with
  | idle m => cases m <;> exact .inr ⟨by simp [Micro.resets, storedBlocks], hkept _⟩
  | heardVote height round voter =>
    refine .inr ⟨by simp [Micro.resets], ?_⟩
    intro h r id hid
    have hadd : id ∈ (n.cons.addVote height round voter).viewChangeVotes h r := by
      rcases receiveViewChange_cases n.cons height round voter with ⟨-, -, he⟩ | ⟨-, he⟩
      · rw [he] at hid
        exact mem_adoptRound hid
      · rw [he] at hid
        exact hid
    rcases mem_addVote hadd with hold | hnew
    · exact .inl hold
    · exact .inr (List.mem_append_left _ (List.mem_singleton.2 hnew))
  | @calledVote changed cons t t' hreq =>
    refine .inr ⟨by simp [Micro.resets], ?_⟩
    intro h r id hid
    have hadd : id ∈ (n.cons.addVote (n.store.getLatestHeight + 1) (n.cons.round + 1)
        n.cons.nodeId).viewChangeVotes h r := by
      rcases requestViewChange_cases n.cons (n.store.getLatestHeight + 1) with ⟨-, he⟩ | ⟨-, he⟩
      · rw [hreq, Prod.mk.injEq] at he
        exact mem_adoptRound (he.2 ▸ hid)
      · rw [hreq, Prod.mk.injEq] at he
        exact he.2 ▸ hid
    rcases mem_addVote hadd with hold | hnew
    · exact .inl hold
    -- the own vote is broadcast
    · exact .inr (List.mem_append_right _ (List.mem_singleton.2 hnew))
  | finalized t t' hp hf =>
    exact .inl ⟨by simp [Micro.resets, storedBlocks, Effect.stored?], fun _ _ => rfl⟩
  | committed t' hp hv hc hf =>
    refine .inl ⟨?_, fun _ _ => rfl⟩
    rw [Micro.resets, storedBlocks_append, storedBlocks_ranEffects]
    simp [storedBlocks, Effect.stored?, hc]
  | discarded t hp hf ht =>
    exact .inr ⟨by simp [Micro.resets, storedBlocks, Effect.stored?], hkept _⟩
  | solo t' hp hv hc => exact .inr ⟨by simp [Micro.resets, hc], hkept _⟩
  | rejectedAll t' hp hv =>
    exact .inr ⟨by simp [Micro.resets, storedBlocks_ranEffects], hkept _⟩
  | proposed t' hp hv hc hf =>
    refine .inr ⟨?_, hkept _⟩
    rw [Micro.resets, storedBlocks_append, storedBlocks_ranEffects]
    simp [storedBlocks, Effect.stored?]
  | discovered hadd =>
    obtain ⟨-, -, rfl⟩ := addPeer_eq hadd
    exact .inr ⟨by simp [Micro.resets], hkept _⟩
  | _ => exact .inr ⟨by simp [Micro.resets], hkept _⟩

/-- **Every step keeps the votes recorded.** -/
theorem Poll.Recorded.micro {q : Poll} (h : q.Recorded) : (q.micro C cfg m).Recorded := by
  intro height round id hid
  unfold Poll.micro
  simp only
  have hs : q.process.node.Step C cfg m (q.process.node.micro C cfg m) := micro_step _ m
  rcases votes_step hs with
    ⟨hreset, hempty⟩ | ⟨hreset, hvotes⟩
  · have hid : id ∈ (q.process.node.micro C cfg m).1.cons.viewChangeVotes height round := hid
    rw [hempty] at hid
    cases hid
  · rw [if_neg hreset]
    rcases hvotes height round id hid with hold | hnew
    · exact List.mem_append_left _ (h height round id hold)
    · exact List.mem_append_right _ hnew

/-! ## Majorities -/

/-- The node has waited too long for a block. -/
def Node.waitedTooLong (cfg : NodeConfig) (n : Node) (now : Int64) : Bool :=
  n.pendingBlock.isNone && cfg.peers.length ≠ 0 &&
    now - n.lastBlockTimeMs > cfg.viewChangeTimeoutMs.toInt64

theorem viewChange_eq (cfg : NodeConfig) (n : Node) (t t' : Int64) : n.viewChange cfg t t' =
    if n.waitedTooLong cfg t then
      ({ n with
         cons := (n.cons.requestViewChange (n.store.getLatestHeight + 1)).2,
         lastBlockTimeMs :=
           if (n.cons.requestViewChange (n.store.getLatestHeight + 1)).1 then t'
           else n.lastBlockTimeMs },
       [.broadcast
         (.viewChange (n.store.getLatestHeight + 1) (n.cons.round + 1) n.cons.nodeId)])
    else (n, []) := by
  unfold Node.viewChange Node.waitedTooLong
  cases hp : n.pendingBlock with
  | some pb => simp
  | none =>
    by_cases hl : cfg.peers.length = 0
    · simp [hl]
    · by_cases ht : t - n.lastBlockTimeMs > cfg.viewChangeTimeoutMs.toInt64
      · simp [hl, ht]
      · simp [hl, ht]

/-- A majority that a vote completes, for a round above the node's, is for the next height
and made up of the node's validators. -/
def Node.CountsFairly (cfg : NodeConfig) (n : Node) : Micro → Prop
  | .recv (.viewChange height round voter) =>
    n.cons.threshold ≤ (n.cons.votersWith height round voter).card → n.cons.round < round →
      height = n.store.getLatestHeight + 1 ∧
        n.cons.votersWith height round voter ⊆ n.cons.allNodeIds.toFinset
  | .viewChange now _ =>
    n.waitedTooLong cfg now →
      n.cons.threshold ≤ (n.cons.votersWith (n.store.getLatestHeight + 1) (n.cons.round + 1)
        n.cons.nodeId).card →
      n.cons.votersWith (n.store.getLatestHeight + 1) (n.cons.round + 1) n.cons.nodeId ⊆
        n.cons.allNodeIds.toFinset
  | _ => True

/-! ## Steps and runs -/

/-- **A round that is adopted has its majority**: the voters that the node counts, all of
them its nodes, have voted since the last reset. -/
theorem Poll.Recorded.majority {q q' : Poll} {height : UInt64} {round : UInt32} {voter : Id}
    {votes : List Vote} (h : q.Recorded)
    (hcons : q'.process.node.cons =
      (q.process.node.cons.addVote height round voter).adoptRound height round)
    (hcast : q'.cast = q.cast ++ votes) (hvote : (height, round, voter) ∈ votes)
    (hcard : q.process.node.cons.threshold ≤
      (q.process.node.cons.votersWith height round voter).card)
    (hnodes : q.process.node.cons.votersWith height round voter ⊆
      q.process.node.cons.allNodeIds.toFinset) : q'.Majority height round := by
  have hids : q'.process.node.cons.allNodeIds = q.process.node.cons.allNodeIds := by
    rw [hcons]
    rfl
  have hsub : q.process.node.cons.votersWith height round voter ⊆
      q.process.node.cons.allNodeIds.toFinset.filter
        fun id => (height, round, id) ∈ q'.cast := by
    intro id hid
    refine Finset.mem_filter.2 ⟨hnodes hid, ?_⟩
    rw [hcast]
    rcases Finset.mem_insert.1 hid with rfl | hid
    · exact List.mem_append_right _ hvote
    · exact List.mem_append_left _ (h height round id hid)
  have hle := Finset.card_le_card hsub
  unfold Consensus.threshold at hcard
  unfold Majority
  rw [hids]
  omega

/-- **A vote of another node.** -/
theorem Poll.changesView_recv {q : Poll} {height : UInt64} {round : UInt32} {voter : Id}
    (h : q.Recorded)
    (hfair : q.process.node.CountsFairly cfg (.recv (.viewChange height round voter))) :
    q.ChangesViewByMajority C cfg (.recv (.viewChange height round voter)) := by
  by_cases hlisten : cfg.peers.length = 0
  · have hnode : (q.micro C cfg (.recv (.viewChange height round voter))).process.node =
        q.process.node := by
      simp only [Poll.micro, Process.micro, Node.micro, Node.recv, if_pos hlisten]
    exact ⟨fun hne => absurd (by rw [hnode]) hne, fun _ _ _ _ _ => by rw [hnode]⟩
  have hnode : (q.micro C cfg (.recv (.viewChange height round voter))).process.node =
      { q.process.node with
        cons := (q.process.node.cons.receiveViewChange height round voter).2 } := by
    simp only [Poll.micro, Process.micro, Node.micro, Node.recv, if_neg hlisten]
  rcases receiveViewChange_cases q.process.node.cons height round voter with
    ⟨hcard, hround, he⟩ | ⟨-, he⟩
  · obtain ⟨hheight, hnodes⟩ := hfair hcard hround
    rw [he] at hnode
    refine ⟨?_, ?_⟩
    · intro _ _
      have hmaj : (q.micro C cfg (.recv (.viewChange height round voter))).Majority height round :=
        h.majority (by rw [hnode]) rfl (List.mem_append_left _ (List.mem_singleton.2 rfl)) hcard
          hnodes
      rw [hnode]
      exact hheight ▸ hmaj
    · intro height' round' voter' heq hstray
      cases heq
      rcases hstray with hother | hstranger
      · exact absurd hheight hother
      · exact absurd (List.mem_toFinset.1 (hnodes (Finset.mem_insert_self _ _))) hstranger
  -- A vote that completes no majority changes no round.
  · rw [he] at hnode
    exact ⟨fun hne => absurd (by rw [hnode]; rfl) hne, fun _ _ _ _ _ => by rw [hnode]; rfl⟩

/-- **The node's own vote.** -/
theorem Poll.changesView_viewChange {q : Poll} {t t' : Int64} (h : q.Recorded)
    (hfair : q.process.node.CountsFairly cfg (.viewChange t t')) :
    q.ChangesViewByMajority C cfg (.viewChange t t') := by
  refine ⟨?_, fun _ _ _ heq => by cases heq⟩
  by_cases hlong : q.process.node.waitedTooLong cfg t
  case neg =>
    have hnode : (q.micro C cfg (.viewChange t t')).process.node = q.process.node := by
      simp only [Poll.micro, Process.micro, Node.micro, viewChange_eq, if_neg hlong]
    exact fun hne => absurd (by rw [hnode]) hne
  have hout := viewChange_eq cfg q.process.node t t'
  rw [if_pos hlong] at hout
  have hcons : (q.micro C cfg (.viewChange t t')).process.node.cons =
      (q.process.node.cons.requestViewChange (q.process.node.store.getLatestHeight + 1)).2 := by
    simp only [Poll.micro, Process.micro, Node.micro, hout]
  rcases requestViewChange_cases q.process.node.cons (q.process.node.store.getLatestHeight + 1)
    with ⟨hcard, he⟩ | ⟨-, he⟩
  · intro _ _
    have hstore : (q.micro C cfg (.viewChange t t')).process.node.store = q.process.node.store := by
      simp only [Poll.micro, Process.micro, Node.micro, hout]
    have hvote : (q.process.node.store.getLatestHeight + 1, q.process.node.cons.round + 1,
        q.process.node.cons.nodeId) ∈ Micro.votes (.viewChange t t')
          (q.process.node.micro C cfg (.viewChange t t')).2 := by
      simp only [Node.micro, hout]
      exact List.mem_singleton.2 rfl
    rw [he] at hcons
    rw [hstore, hcons]
    exact h.majority hcons rfl hvote hcard (hfair hlong hcard)
  · rw [he] at hcons
    exact fun hne => absurd (by rw [hcons]; rfl) hne

/-- No other step enters a round above zero. -/
theorem round_step (hs : n.Step C cfg m out) : out.1.cons.round = n.cons.round ∨
    out.1.cons.round = 0 ∨ (∃ height round voter, m = .recv (.viewChange height round voter)) ∨
    ∃ t t', m = .viewChange t t' := by
  cases hs with
  | heardVote height round voter => exact .inr (.inr (.inl ⟨height, round, voter, rfl⟩))
  | calledVote t t' hreq => exact .inr (.inr (.inr ⟨t, t', rfl⟩))
  | finalized t t' hp hf => exact .inr (.inl rfl)
  | committed t' hp hv hc hf => exact .inr (.inl rfl)
  | discovered hadd =>
    obtain ⟨-, -, rfl⟩ := addPeer_eq hadd
    exact .inl rfl
  | _ => exact .inl rfl

/-- **One step.** -/
theorem Poll.Recorded.changesView {q : Poll} (h : q.Recorded)
    (hfair : q.process.node.CountsFairly cfg m) : q.ChangesViewByMajority C cfg m := by
  by_cases hrecv : ∃ height round voter, m = .recv (.viewChange height round voter)
  · obtain ⟨height, round, voter, rfl⟩ := hrecv
    exact Poll.changesView_recv h hfair
  by_cases hown : ∃ t t', m = .viewChange t t'
  · obtain ⟨t, t', rfl⟩ := hown
    exact Poll.changesView_viewChange h hfair
  refine ⟨?_, fun height round voter heq => absurd ⟨height, round, voter, heq⟩ hrecv⟩
  intro hne hpos
  have hs : q.process.node.Step C cfg m (q.process.node.micro C cfg m) := micro_step _ m
  rcases round_step hs with
    hsame | hzero | hvote | hvote
  · exact absurd hsame hne
  · exact absurd hzero (UInt32.ne_of_lt hpos).symm
  · exact absurd hvote hrecv
  · exact absurd hvote hown

/-- **View changes need a majority of the node's validators**, in every run of the loop in
which each majority of votes that the node sees is of its validators and for its next height. -/
theorem viewChange_majority {id : Id} {key : BitVec 256} {store : Store} {now : StartClock}
    {ms : List Micro}
    (h : Runs.Along (Poll.micro C cfg) (fun q m => q.process.node.CountsFairly cfg m)
      { process := .start cfg id key store now } ms) :
    Runs.Along (Poll.micro C cfg) (Poll.ChangesViewByMajority C cfg)
      { process := .start cfg id key store now } ms := by
  have hstart : Poll.Recorded { process := .start cfg id key store now } := by
    intro height round id hid
    cases hid
  exact Runs.along_of_inv (fun _ _ hq _ => hq.micro) (fun _ _ hq hm => hq.changesView hm)
    hstart h

/-- Node 2 enters round 1 with the votes of nodes 1 and 3. -/
theorem viewChange_majority_toy : Runs.Along (Poll.micro .toy (.toy [1, 3]))
    (Poll.ChangesViewByMajority .toy (.toy [1, 3])) { process := .toyLeader }
    [.recv (.viewChange 1 1 1), .recv (.viewChange 1 1 3)] := by
  unfold Process.toyLeader
  refine viewChange_majority ?_
  simp only [Runs.along_cons, Runs.along_nil, Node.CountsFairly]
  decide +kernel

/-- It enters round 1 with the votes of two strangers. -/
theorem viewChange_majority_fails : ¬ ∀ ms, Runs.Along (Poll.micro .toy (.toy [1, 3]))
    (Poll.ChangesViewByMajority .toy (.toy [1, 3])) { process := .toyLeader } ms := by
  intro h
  have hlast := (h [.recv (.viewChange 1 1 8), .recv (.viewChange 1 1 9)]).2.1.stray 1 1 9 rfl
    (.inr (by decide +kernel))
  revert hlast
  decide +kernel

end RoutineChain
