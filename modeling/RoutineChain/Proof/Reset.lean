import RoutineChain.Proof.ViewChange

/-!
# What a stored block does to the view

A leader that finalizes a block calls `reset_round` and notes the time. A follower that
applies a proposal does neither: its round, its votes and its timer stay as they were.

* `reset_step`: so a step that stores a block resets the view, unless it applies a proposal
  on a view that is not reset already.
* `patient_of_reset`: after a reset the node waits for its full timeout.
* `quiet_run`: after a reset the round stays zero until somebody else votes.
-/

namespace RoutineChain

variable {C : Crypto} {cfg : NodeConfig} {n : Node} {m : Micro} {out : Node × List Effect}

/-! ## Time -/

/-- A step of the loop, with the time at its end. -/
abbrev Tick := Micro × Int64

/-- The clock readings of a step. -/
def Micro.readings : Micro → List Int64
  | .rpc _ now => [now]
  | .finalize t t' | .viewChange t t' | .produce t t' => [t, t']
  | .recv _ | .handleProposal | .feed => []

/-- The clock reading that a step takes when it stores a block; `handle_proposal` takes none. -/
def Micro.storedAt : Micro → Option Int64
  | .finalize nowFinalized _ => some nowFinalized
  | .produce _ nowProduced => some nowProduced
  | .rpc _ _ | .recv _ | .handleProposal | .feed | .viewChange _ _ => none

/-- The clock counts from the epoch, and does not go back. -/
structure ClockOK (as : List Tick) : Prop where
  storedAt : ∀ a ∈ as, ∀ t, a.1.storedAt = some t → t = a.2
  epoch : ∀ a ∈ as, 0 ≤ a.2 ∧ ∀ t ∈ a.1.readings, 0 ≤ t
  forward : as.Pairwise fun a b => ∀ t ∈ b.1.readings, a.2 ≤ t

/-- One step of the loop. -/
def Process.tick (C : Crypto) (cfg : NodeConfig) (p : Process) (a : Tick) : Process :=
  p.micro C cfg a.1

/-! ## The reset -/

/-- The step stores a block. -/
def Node.Stores (C : Crypto) (cfg : NodeConfig) (n : Node) (m : Micro) : Prop :=
  storedBlocks (n.micro C cfg m).2 ≠ []

/-- The view starts afresh: round zero, no votes, and a timer that has just been set. -/
structure Node.ViewReset (n : Node) (now : Int64) : Prop where
  round : n.cons.round = 0
  votes : n.cons.viewChangeVotes = fun _ _ => ∅
  time : n.lastBlockTimeMs = now

/-- A proposal is applied only when the view is as after a reset. -/
def Node.AppliesAfresh (C : Crypto) (cfg : NodeConfig) (n : Node) : Tick → Prop
  | (.handleProposal, now) => ∀ b rest, n.proposals = b :: rest → (n.signProposal C b).isSome →
      RootAccepted C cfg.params b n.store → n.ViewReset now
  | _ => True

/-- What `handle_proposal` makes of a proposal that it applies. -/
theorem nextProposal_applied {b : Block} {rest : List Block} {sig : NodeSignature}
    (hp : n.proposals = b :: rest) (hs : n.signProposal C b = some sig)
    (hr : RootAccepted C cfg.params b n.store) : n.nextProposal C cfg =
      ({ n with
         proposals := rest, store := (replayBlock C cfg.params b n.store).store.putBlock b },
       [.signed b.header, .broadcast (.sign b.header.height sig)] ++
         (replayBlock C cfg.params b n.store).ran.map .executed ++ [.stored n.cons b]) := by
  have hs' : Node.signProposal C { n with proposals := rest } b = some sig := hs
  simp only [Node.nextProposal, hp, Node.handleProposal, hs', applyBlock_accepted hr]

theorem mem_storedBlocks_ne {es : List Effect} {c : Consensus} {b : Block}
    (h : .stored c b ∈ es) : storedBlocks es ≠ [] :=
  List.ne_nil_of_mem (mem_storedBlocks.2 h)

/-- **A step that stores a block resets the view** if and only if it does not apply a
proposal on another view. -/
theorem reset_step {a : Tick} (hpeers : n.cons.peers ≠ [])
    (hclock : ∀ t, a.1.storedAt = some t → t = a.2) :
    (n.Stores C cfg a.1 → (n.micro C cfg a.1).1.ViewReset a.2) ↔ n.AppliesAfresh C cfg a := by
  obtain ⟨m, now⟩ := a
  simp only at hclock ⊢
  constructor
  · intro h
    cases m with
    | handleProposal =>
      intro b rest hp hs hr
      obtain ⟨sig, hs⟩ := Option.isSome_iff_exists.1 hs
      have hnext := nextProposal_applied hp hs hr
      have hreset : (n.nextProposal C cfg).1.ViewReset now := by
        refine h ?_
        show storedBlocks (n.nextProposal C cfg).2 ≠ []
        rw [hnext]
        exact mem_storedBlocks_ne (c := n.cons) (b := b) (by simp)
      rw [hnext] at hreset
      exact ⟨hreset.round, hreset.votes, hreset.time⟩
    | _ => trivial
  · intro h hstores
    have hs : n.Step C cfg m (n.micro C cfg m) := micro_step n m
    unfold Node.Stores at hstores
    generalize n.micro C cfg m = out at hs hstores
    cases hs with
    | finalized t t' hp hf => exact ⟨rfl, rfl, hclock t rfl⟩
    | committed t' hp hv hc hf => exact ⟨rfl, rfl, hclock t' rfl⟩
    | solo t' hp hv hc => exact absurd (List.length_eq_zero_iff.1 hc) hpeers
    -- The proposal changes the store and nothing of the view.
    | @applied b rest sig hp hs hr =>
      obtain ⟨hround, hvotes, htime⟩ := h b rest hp (by rw [hs]; rfl) hr
      exact ⟨hround, hvotes, htime⟩
    | rejectedAll t' hp hv => exact absurd (storedBlocks_ranEffects _ _ _) hstores
    | proposed t' hp hv hc hf =>
      rw [storedBlocks_append, storedBlocks_ranEffects] at hstores
      exact absurd rfl hstores
    | diverged hp hs hr =>
      simp [storedBlocks, Effect.stored?] at hstores
    | fed => simp [storedBlocks, Effect.stored?] at hstores
    | _ => exact absurd rfl hstores

/-! ## Patience -/

/-- A step leaves the timer, or sets it to a time that it reads. -/
theorem time_step (hs : n.Step C cfg m out) :
    out.1.lastBlockTimeMs = n.lastBlockTimeMs ∨ out.1.lastBlockTimeMs ∈ m.readings := by
  cases hs with
  | finalized t t' hp hf => exact .inr (by simp [Micro.readings])
  | committed t' hp hv hc hf => exact .inr (by simp [Micro.readings])
  | solo t' hp hv hc => exact .inr (by simp [Micro.readings])
  | @calledVote changed cons t t' hreq =>
    cases changed with
    | true => exact .inr (by simp [Micro.readings])
    | false => exact .inl rfl
  | _ => exact .inl rfl

/-- A timer that has been set does not go back. -/
theorem timer_run {p : Process} {since : Int64} {as : List Tick}
    (hlast : since ≤ p.node.lastBlockTimeMs)
    (hreads : ∀ a ∈ as, ∀ t ∈ a.1.readings, since ≤ t) :
    since ≤ (Runs.run (Process.tick C cfg) p as).node.lastBlockTimeMs := by
  refine Runs.inv_run (I := fun p : Process => since ≤ p.node.lastBlockTimeMs) ?_ hlast
    (Runs.along_of_forall hreads p)
  intro p a hp ha
  have hs : p.node.Step C cfg a.1 (p.node.micro C cfg a.1) := micro_step p.node a.1
  rcases time_step hs with hsame | hread
  · exact le_of_le_of_eq hp hsame.symm
  · exact ha _ hread

theorem toInt_toInt64 {t : UInt64} (h : t.toNat < 2 ^ 63) : t.toInt64.toInt = t.toNat := by
  show t.toBitVec.toInt = t.toNat
  rw [BitVec.toInt_eq_toNat_of_lt]
  · rfl
  · show 2 * t.toNat < 2 ^ 64
    omega

/-- **A node that has waited too long has waited for its timeout** since any time at which
its timer was set or before. -/
theorem timeout_lt {since now : Int64} (h : n.waitedTooLong cfg now) (h0 : 0 ≤ since)
    (hnow : 0 ≤ now) (hlast : since ≤ n.lastBlockTimeMs)
    (hcfg : cfg.viewChangeTimeoutMs.toNat < 2 ^ 63) :
    (cfg.viewChangeTimeoutMs.toNat : ℤ) < now.toInt - since.toInt := by
  have hlong : cfg.viewChangeTimeoutMs.toInt64 < now - n.lastBlockTimeMs := by
    simp only [Node.waitedTooLong, Bool.and_eq_true, decide_eq_true_eq] at h
    exact h.2
  rw [Int64.lt_iff_toInt_lt, toInt_toInt64 hcfg, Int64.toInt_sub] at hlong
  rw [Int64.le_iff_toInt_le] at h0 hnow hlast
  rw [Int64.toInt_zero] at h0 hnow
  have hmax := now.toInt_lt
  have hmax' := n.lastBlockTimeMs.toInt_lt
  -- Both times are on one side of the epoch, so the difference does not overflow.
  rw [Int.bmod_eq_of_le (by omega) (by omega)] at hlong
  omega

/-! ## Quiet -/

/-- The node is in round zero, and nobody else has voted. -/
structure Node.Quiet (n : Node) : Prop where
  round : n.cons.round = 0
  votes : ∀ height round, n.cons.viewChangeVotes height round ⊆ {n.cons.nodeId}
  peers : n.cons.peers ≠ []

theorem Node.ViewReset.quiet {now : Int64} (h : n.ViewReset now) (hpeers : n.cons.peers ≠ []) :
    n.Quiet := by
  refine ⟨h.round, ?_, hpeers⟩
  intro height round
  rw [h.votes]
  exact Finset.empty_subset _

/-- The step is not a vote of another node. -/
def Micro.NoVote (m : Micro) : Prop :=
  ∀ height round voter, m ≠ .recv (.viewChange height round voter)

/-- **A step without a vote of another node keeps quiet**: the own vote is no majority. -/
theorem quiet_step (hs : n.Step C cfg m out) (h : n.Quiet) (hm : m.NoVote) : out.1.Quiet := by
  cases hs with
  | heardVote height round voter => exact absurd rfl (hm height round voter)
  | discovered hadd =>
    obtain ⟨-, -, rfl⟩ := addPeer_eq hadd
    exact ⟨h.round, h.votes, by simp⟩
  | finalized t t' hp hf => exact ⟨rfl, fun _ _ => Finset.empty_subset _, h.peers⟩
  | committed t' hp hv hc hf => exact ⟨rfl, fun _ _ => Finset.empty_subset _, h.peers⟩
  | @calledVote changed cons t t' hreq =>
    have hvoters : n.cons.votersWith (n.store.getLatestHeight + 1) (n.cons.round + 1)
        n.cons.nodeId ⊆ {n.cons.nodeId} :=
      Finset.insert_subset (Finset.mem_singleton_self _) (h.votes _ _)
    have hcard := Finset.card_le_card hvoters
    have hthreshold : 1 < n.cons.threshold := by
      have hlength := List.length_pos_of_ne_nil h.peers
      rw [Consensus.threshold, length_allNodeIds]
      omega
    rw [Finset.card_singleton] at hcard
    rcases requestViewChange_cases n.cons (n.store.getLatestHeight + 1) with ⟨hle, -⟩ | ⟨-, he⟩
    · omega
    · rw [hreq, Prod.mk.injEq] at he
      obtain ⟨-, rfl⟩ := he
      refine ⟨h.round, ?_, h.peers⟩
      intro height round id hid
      rcases mem_addVote hid with hold | hnew
      · exact h.votes _ _ hold
      · simp only [Prod.mk.injEq] at hnew
        exact Finset.mem_singleton.2 hnew.2.2
  | _ => exact ⟨h.round, h.votes, h.peers⟩

theorem quiet_run {p : Process} {as : List Tick} (h : p.node.Quiet)
    (hm : ∀ a ∈ as, a.1.NoVote) : (Runs.run (Process.tick C cfg) p as).node.Quiet :=
  Runs.inv_run (I := fun p : Process => p.node.Quiet)
    (fun p a hp ha => quiet_step (micro_step p.node a.1) hp ha) h (Runs.along_of_forall hm p)

/-! ## Runs -/

/-- **What a stored block does to the view of a node**, over a run: it resets the view, and
the node does not ask for another view until its timeout has passed. -/
structure ViewKept (C : Crypto) (cfg : NodeConfig) (p : Process) (as : List Tick) : Prop where
  resets : Runs.Along (Process.tick C cfg) (fun p a => p.node.Stores C cfg a.1 →
    (p.tick C cfg a).node.ViewReset a.2) p as
  patient : ∀ l a l' t t' now, l ++ a :: l' ++ [(.viewChange t t', now)] <+: as →
    (Runs.run (Process.tick C cfg) p l).node.Stores C cfg a.1 →
    ∀ height round id, .broadcast (.viewChange height round id) ∈
      ((Runs.run (Process.tick C cfg) p (l ++ a :: l')).node.micro C cfg (.viewChange t t')).2 →
    (cfg.viewChangeTimeoutMs.toNat : ℤ) < t.toInt - a.2.toInt

/-- **Two nodes that have stored a block expect the same leaders** until somebody else
votes, if their lists of nodes are the same. -/
def SameLeadersAfter (C : Crypto) (cfg cfg' : NodeConfig) (p p' : Process)
    (as as' : List Tick) : Prop :=
  ∀ l a l' k b k', l ++ a :: l' <+: as → k ++ b :: k' <+: as' →
    (Runs.run (Process.tick C cfg) p l).node.Stores C cfg a.1 →
    (Runs.run (Process.tick C cfg') p' k).node.Stores C cfg' b.1 →
    (∀ c ∈ l', c.1.NoVote) → (∀ c ∈ k', c.1.NoVote) →
    (Runs.run (Process.tick C cfg) p (l ++ a :: l')).node.cons.allNodeIds =
      (Runs.run (Process.tick C cfg') p' (k ++ b :: k')).node.cons.allNodeIds →
    ∀ height,
      (Runs.run (Process.tick C cfg) p (l ++ a :: l')).node.cons.leaderForHeight height =
        (Runs.run (Process.tick C cfg') p' (k ++ b :: k')).node.cons.leaderForHeight height

section Run

variable {p : Process} {as : List Tick}

theorem peers_tick {p : Process} (h : p.node.cons.peers ≠ []) (a : Tick) :
    (p.tick C cfg a).node.cons.peers ≠ [] := by
  have hs : p.node.Step C cfg a.1 (p.node.micro C cfg a.1) := micro_step p.node a.1
  obtain ⟨-, new, hnew, -⟩ := cons_step hs
  have hpeers : (p.tick C cfg a).node.cons.peers = p.node.cons.peers ++ new := hnew
  rw [hpeers]
  exact List.append_ne_nil_of_left_ne_nil h new

theorem peers_run (h : p.node.cons.peers ≠ []) (as : List Tick) :
    (Runs.run (Process.tick C cfg) p as).node.cons.peers ≠ [] :=
  Runs.inv_run (I := fun p : Process => p.node.cons.peers ≠ []) (fun _ a hp _ => peers_tick hp a) h
    (Runs.along_true p as)

/-- The view is reset right after a block that the run stores. -/
theorem ViewKept.reset {l l' : List Tick} {a : Tick} (h : ViewKept C cfg p as)
    (hl : l ++ a :: l' <+: as)
    (hstores : (Runs.run (Process.tick C cfg) p l).node.Stores C cfg a.1) :
    ((Runs.run (Process.tick C cfg) p l).tick C cfg a).node.ViewReset a.2 :=
  (Runs.along_append.1 (h.resets.initial hl)).2.1 hstores

/-- **A run resets the view with every block** if and only if it applies no proposal on
another view. -/
theorem along_reset_iff (hpeers : p.node.cons.peers ≠ []) (hclock : ClockOK as) :
    Runs.Along (Process.tick C cfg) (fun p a => p.node.Stores C cfg a.1 →
      (p.tick C cfg a).node.ViewReset a.2) p as ↔
    Runs.Along (Process.tick C cfg) (fun p a => p.node.AppliesAfresh C cfg a) p as := by
  have htimes : Runs.Along (Process.tick C cfg)
      (fun _ a => ∀ t, a.1.storedAt = some t → t = a.2) p as :=
    Runs.along_of_forall hclock.storedAt p
  have hkeeps : ∀ (p : Process) (a : Tick), p.node.cons.peers ≠ [] →
      (p.tick C cfg a).node.cons.peers ≠ [] := fun p a hp => peers_tick hp a
  constructor
  · intro h
    exact Runs.along_of_inv (fun p a hp _ => hkeeps p a hp)
      (fun p a hp hc => (reset_step hp hc.2).1 hc.1) hpeers (h.and htimes)
  · intro h
    exact Runs.along_of_inv (fun p a hp _ => hkeeps p a hp)
      (fun p a hp hc => (reset_step hp hc.2).2 hc.1) hpeers (h.and htimes)

/-- **Resets make a node patient.** -/
theorem patient_of_reset (hclock : ClockOK as) (hcfg : cfg.viewChangeTimeoutMs.toNat < 2 ^ 63)
    (h : Runs.Along (Process.tick C cfg) (fun p a => p.node.Stores C cfg a.1 →
      (p.tick C cfg a).node.ViewReset a.2) p as) : ViewKept C cfg p as := by
  refine ⟨h, ?_⟩
  intro l a l' t t' now hl hstores height round id hmsg
  have hl' : l ++ a :: l' <+: as := (List.prefix_append _ _).trans hl
  have hreset := (Runs.along_append.1 (h.initial hl')).2.1 hstores
  -- Everything that is read after `a` is read at the time of `a` or later.
  obtain ⟨r, hr⟩ := hl
  have hforward := hclock.forward
  rw [← hr, List.append_assoc, List.append_assoc, List.cons_append, List.pairwise_append,
    List.pairwise_cons] at hforward
  have hafter := hforward.2.1.1
  have hlast : a ∈ as := hl'.subset (by simp)
  have htick : (.viewChange t t', now) ∈ as := hr ▸ (by simp)
  have htimer : a.2 ≤ (Runs.run (Process.tick C cfg)
      ((Runs.run (Process.tick C cfg) p l).tick C cfg a) l').node.lastBlockTimeMs :=
    timer_run (Int64.le_of_eq hreset.time.symm) fun b hb => hafter b (by simp [hb])
  rw [← Runs.run_cons, ← Runs.run_append] at htimer
  have hlong : (Runs.run (Process.tick C cfg) p (l ++ a :: l')).node.waitedTooLong cfg t := by
    by_contra hshort
    have hmsg : .broadcast (.viewChange height round id) ∈
      ((Runs.run (Process.tick C cfg) p (l ++ a :: l')).node.viewChange cfg t t').2 := hmsg
    rw [viewChange_eq, if_neg hshort] at hmsg
    cases hmsg
  exact timeout_lt hlong (hclock.epoch a hlast).1
    ((hclock.epoch _ htick).2 t (by simp [Micro.readings])) htimer hcfg

end Run

/-- **And it makes nodes agree on the leader.** -/
theorem sameLeadersAfter_of_viewKept {cfg' : NodeConfig} {p p' : Process} {as as' : List Tick}
    (hpeers : p.node.cons.peers ≠ []) (hpeers' : p'.node.cons.peers ≠ [])
    (h : ViewKept C cfg p as) (h' : ViewKept C cfg' p' as') :
    SameLeadersAfter C cfg cfg' p p' as as' := by
  have hround : ∀ {cfg : NodeConfig} {p : Process} {as l l' : List Tick} {a : Tick},
      p.node.cons.peers ≠ [] → ViewKept C cfg p as → l ++ a :: l' <+: as →
      (Runs.run (Process.tick C cfg) p l).node.Stores C cfg a.1 → (∀ c ∈ l', c.1.NoVote) →
      (Runs.run (Process.tick C cfg) p (l ++ a :: l')).node.cons.round = 0 := by
    intro cfg p as l l' a hpeers h hl hstores hquiet
    rw [Runs.run_append, Runs.run_cons]
    exact (quiet_run ((h.reset hl hstores).quiet (peers_tick (peers_run hpeers l) a)) hquiet).round
  intro l a l' k b k' hl hk ha hb hquiet hquiet' hids height
  unfold Consensus.leaderForHeight
  rw [hround hpeers h hl ha hquiet, hround hpeers' h' hk hb hquiet']
  exact Consensus.leader_congr hids height 0

/-- **Every commit path resets the view**, of two nodes with peers, if and only if neither
applies a proposal on a view that is not reset already. -/
theorem view_reset_iff {cfg' : NodeConfig} {p p' : Process} {as as' : List Tick}
    (hpeers : p.node.cons.peers ≠ []) (hpeers' : p'.node.cons.peers ≠ [])
    (hclock : ClockOK as) (hclock' : ClockOK as')
    (hcfg : cfg.viewChangeTimeoutMs.toNat < 2 ^ 63)
    (hcfg' : cfg'.viewChangeTimeoutMs.toNat < 2 ^ 63) :
    ViewKept C cfg p as ∧ ViewKept C cfg' p' as' ∧ SameLeadersAfter C cfg cfg' p p' as as' ↔
      Runs.Along (Process.tick C cfg) (fun p a => p.node.AppliesAfresh C cfg a) p as ∧
      Runs.Along (Process.tick C cfg') (fun p a => p.node.AppliesAfresh C cfg' a) p' as' := by
  rw [← along_reset_iff hpeers hclock, ← along_reset_iff hpeers' hclock']
  constructor
  · rintro ⟨h, h', -⟩
    exact ⟨h.resets, h'.resets⟩
  · rintro ⟨h, h'⟩
    have hkept := patient_of_reset hclock hcfg h
    have hkept' := patient_of_reset hclock' hcfg' h'
    exact ⟨hkept, hkept', sameLeadersAfter_of_viewKept hpeers hpeers' hkept hkept'⟩

/-- Node 2 proposes a block and stores it once node 1 has signed. -/
def Tick.toyLeader : List Tick :=
  [(.recv (.submitTx .toyRegister), 1000), (.feed, 1000), (.produce 1000 1000, 1000),
    (.recv (.sign 1 ⟨1, Crypto.toy.sign (Bincode.serialize Block.toyOwn.header) 1⟩), 2000),
    (.finalize 2000 2000, 2000)]

/-- Node 1 drains the votes of the other nodes for round 1, and applies the block of node 3. -/
def Tick.toyFollower : List Tick :=
  [(.recv (.viewChange 1 1 2), 500), (.recv (.viewChange 1 1 3), 500),
    (.recv (.propose .toyRival), 1000), (.handleProposal, 1000)]

theorem clockOK_toyLeader : ClockOK Tick.toyLeader where
  storedAt := by simp [Tick.toyLeader, Micro.storedAt]
  epoch := by simp [Tick.toyLeader, Micro.readings]
  forward := by simp [Tick.toyLeader, Micro.readings]

theorem clockOK_toyFollower : ClockOK Tick.toyFollower where
  storedAt := by simp [Tick.toyFollower, Micro.storedAt]
  epoch := by simp [Tick.toyFollower, Micro.readings]
  forward := by simp [Tick.toyFollower, Micro.readings]

theorem view_reset_iff_toy :
    ViewKept .toy (.toy [1, 3]) .toyLeader Tick.toyLeader ∧
      ViewKept .toy (.toy [2, 3]) .toyFollower Tick.toyFollower ∧
      SameLeadersAfter .toy (.toy [1, 3]) (.toy [2, 3]) .toyLeader .toyFollower Tick.toyLeader
        Tick.toyFollower ↔
    Runs.Along (Process.tick .toy (.toy [1, 3]))
        (fun p a => p.node.AppliesAfresh .toy (.toy [1, 3]) a) .toyLeader Tick.toyLeader ∧
      Runs.Along (Process.tick .toy (.toy [2, 3]))
        (fun p a => p.node.AppliesAfresh .toy (.toy [2, 3]) a) .toyFollower Tick.toyFollower :=
  view_reset_iff (by decide) (by decide) clockOK_toyLeader clockOK_toyFollower (by decide)
    (by decide)

/-- Node 1 is in round 1 still when it has stored the block. -/
theorem view_reset_fails : ¬ ∀ as, ClockOK as →
    ViewKept .toy (.toy [2, 3]) .toyFollower as := by
  intro h
  have hreset := (h _ clockOK_toyFollower).resets.2.2.2.1
    (mt List.isEmpty_iff.2 (by decide +kernel))
  exact absurd hreset.round (by decide +kernel)

end RoutineChain
