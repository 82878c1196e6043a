import RoutineChain.Proof.Votes
import RoutineChain.Spec.Restart

/-!
# What survives a restart

The store survives, and with it the chain and the nonces; the own votes do not.

* `lives_on`: over any number of stops and restarts, the chain is kept and what has been
  executed is stale for good, as long as no stop falls between the two writes of `put_block`.
* `stop_forks`: after such a stop the stored block is above the tip, and the node builds
  another one in its place.
* `votes_once`: the node signs one header per height if, at each stop, what it has signed is
  stored.
-/

namespace RoutineChain

open EStateM

variable {C : Crypto} {P : Params} {cfg : NodeConfig} {n : Node} {s s' : Store}

/-! ## Executed transactions are stale -/

/-- No transaction of the list gets past the nonce check again. -/
def AllStale (s : Store) (txs : List Transaction) : Prop := ∀ tx ∈ txs, ¬ tx.Fresh s

/-- Nonces only grow. -/
def Store.NoncesGrow (s s' : Store) : Prop := ∀ a, s.getNonce a ≤ s'.getNonce a

theorem AllStale.mono {txs : List Transaction} (h : AllStale s txs) (hs : s.NoncesGrow s') :
    AllStale s' txs := by
  intro tx htx hf
  exact h tx htx (UInt64.lt_of_le_of_lt (hs tx.sender) hf)

theorem allStale_replay {t : Int64} (txs : List Transaction) {st : Replay}
    (h : AllStale st.store st.ran) :
    AllStale (txs.foldl (applyTx C P t) st).store (txs.foldl (applyTx C P t) st).ran := by
  refine Runs.inv_run (I := fun st : Replay => AllStale st.store st.ran) ?_ h
    (Runs.along_true st txs)
  intro st tx h _
  have hgrow : st.store.NoncesGrow (applyTx C P t st tx).store :=
    fun a => getNonce_le_applyTx a st tx
  have hold := h.mono hgrow
  rw [applyTx_ran]
  split
  case isTrue hv =>
    intro tx' htx'
    rcases List.mem_append.1 htx' with htx' | htx'
    · exact hold tx' htx'
    · rw [List.mem_singleton.1 htx', applyTx_store, if_pos hv]
      exact not_fresh_execute
  case isFalse => exact hold

theorem allStale_runAll {t : Int64} (txs : List Transaction) (s : Store) :
    AllStale (runAll P t s txs) txs := by
  induction txs generalizing s with
  | nil => exact fun tx htx => by cases htx
  | cons tx txs ih =>
    intro tx' htx'
    rcases List.mem_cons.1 htx' with rfl | htx'
    · intro hf
      exact not_fresh_execute (UInt64.lt_of_le_of_lt (getNonce_le_runAll txs _ _) hf)
    · exact ih _ tx' htx'

theorem Store.NoncesGrow.refl (s : Store) : s.NoncesGrow s := fun _ => UInt64.le_refl _

theorem noncesGrow_replayBlock (b : Block) (s : Store) :
    s.NoncesGrow (replayBlock C P b s).store :=
  fun a => getNonce_le_replay a { store := s } b.transactions

theorem noncesGrow_leaderExecute {t : Int64} (txs : List Transaction) (s : Store) :
    s.NoncesGrow (leaderExecute P t txs s).store := by
  rw [leaderExecute_store]
  exact getNonce_le_runAll txs s

theorem allStale_replayBlock (b : Block) (s : Store) :
    AllStale (replayBlock C P b s).store (replayBlock C P b s).ran :=
  allStale_replay b.transactions fun tx htx => by cases htx

theorem allStale_leaderExecute {t : Int64} (txs : List Transaction) (s : Store) :
    AllStale (leaderExecute P t txs s).store txs := by
  rw [leaderExecute_store]
  exact allStale_runAll txs s

/-- The leader executes its pool and nothing else. -/
theorem executed_produce {t t' : Int64} {tx : Transaction}
    (h : .executed tx ∈ (n.produce C cfg t t').2) : tx ∈ n.cons.pendingTxs := by
  have hs : n.Step C cfg (.produce t t') (n.produce C cfg t t') := produce_step n t t'
  generalize n.produce C cfg t t' = out at hs h
  cases hs with
  | idle => cases h
  | rejectedAll t' hp hv | proposed t' hp hv hc hf | committed t' hp hv hc hf | solo t' hp hv hc =>
    simpa [Node.ranEffects] using h

/-- **One step lowers no nonce, and what it executes is stale after it.** -/
theorem nonces_step {m : Micro} {out : Node × List Effect} (hs : n.Step C cfg m out) :
    n.store.NoncesGrow out.1.store ∧ ∀ tx, .executed tx ∈ out.2 → ¬ tx.Fresh out.1.store := by
  cases hs with
  | @applied b rest sig hp hs hr =>
    refine ⟨noncesGrow_replayBlock b n.store, ?_⟩
    intro tx htx
    exact allStale_replayBlock b n.store tx (by simpa using htx)
  | @diverged b rest sig hp hs hr =>
    refine ⟨noncesGrow_replayBlock b n.store, ?_⟩
    intro tx htx
    exact allStale_replayBlock b n.store tx (by simpa using htx)
  | @rejectedAll prev t t' hp hv | @proposed prev t t' hp hv hc hf
  | @committed prev t t' hp hv hc hf | @solo prev t t' hp hv hc =>
    refine ⟨noncesGrow_leaderExecute n.cons.pendingTxs n.store, ?_⟩
    intro tx htx
    exact allStale_leaderExecute n.cons.pendingTxs n.store tx
      (by simpa [Node.ranEffects] using htx)
  | _ => exact ⟨Store.NoncesGrow.refl _, by simp⟩

/-- A transaction that is cut off has written its nonce. -/
theorem nonces_cut {tx : Transaction} {left : Store} (h : tx.CutIn s left) :
    s.NoncesGrow left ∧ ¬ tx.Fresh left := by
  obtain ⟨hfresh, records, rfl⟩ := h
  have hget : ∀ a, Store.getNonce { s.setNonce tx.sender tx.nonce with records } a =
      if tx.sender = a then tx.nonce else s.getNonce a :=
    fun a => s.getNonce_setNonce tx.sender a tx.nonce
  refine ⟨?_, ?_⟩
  · intro a
    rw [hget]
    split
    case isTrue ha => exact ha ▸ UInt64.le_of_lt hfresh
    case isFalse => exact UInt64.le_refl _
  · unfold Transaction.Fresh
    rw [hget, if_pos rfl]
    exact UInt64.lt_irrefl _

/-- What has run before it is as stale as it is. -/
theorem AllStale.cut {txs : List Transaction} {tx : Transaction} {left : Store}
    (h : AllStale s txs) (hcut : tx.CutIn s left) : AllStale left (txs ++ [tx]) := by
  obtain ⟨hgrow, hstale⟩ := nonces_cut hcut
  intro tx' htx'
  rcases List.mem_append.1 htx' with htx' | htx'
  · exact h.mono hgrow tx' htx'
  · rw [List.mem_singleton.1 htx']
    exact hstale

theorem Store.NoncesGrow.trans {s'' : Store} (h : s.NoncesGrow s') (h' : s'.NoncesGrow s'') :
    s.NoncesGrow s'' :=
  fun a => UInt64.le_trans (h a) (h' a)

/-- **Nor does a step that is cut off.** -/
theorem nonces_stop {m : Micro} {left : Store} {done : List Effect}
    (h : n.StopsIn C cfg m left done) :
    n.store.NoncesGrow left ∧ ∀ tx, .executed tx ∈ done → ¬ tx.Fresh left := by
  cases h with
  | idle => exact ⟨Store.NoncesGrow.refl _, by simp⟩
  | voting hp hs hd =>
    refine ⟨Store.NoncesGrow.refl _, ?_⟩
    intro tx htx
    simpa using hd.subset htx
  | @applying b rest sig k hp hs =>
    refine ⟨noncesGrow_replayBlock _ n.store, ?_⟩
    intro tx htx
    have hran : AllStale (replayFirst C cfg k b n.store).store
        (replayFirst C cfg k b n.store).ran := allStale_replayBlock _ n.store
    exact hran tx (by simpa using htx)
  | @applyingNext b rest sig tx left k hp hs htx hv hcut =>
    have hbefore : n.store.NoncesGrow (replayFirst C cfg k b n.store).store :=
      noncesGrow_replayBlock _ n.store
    refine ⟨hbefore.trans (nonces_cut hcut).1, ?_⟩
    intro tx' htx'
    have hran : AllStale (replayFirst C cfg k b n.store).store
        (replayFirst C cfg k b n.store).ran := allStale_replayBlock _ n.store
    exact hran.cut hcut tx' (by simpa using htx')
  | @runningNext t t' tx left k hp htx hcut =>
    refine ⟨(noncesGrow_leaderExecute _ n.store).trans (nonces_cut hcut).1, ?_⟩
    intro tx' htx'
    obtain ⟨tx'', htx'', heq⟩ := List.mem_map.1 htx'
    cases heq
    exact (allStale_leaderExecute _ n.store).cut hcut tx' htx''
  | running k hp =>
    refine ⟨noncesGrow_leaderExecute _ n.store, ?_⟩
    intro tx htx
    obtain ⟨tx', htx', heq⟩ := List.mem_map.1 htx
    cases heq
    exact allStale_leaderExecute _ n.store tx htx'
  | proposing done hp hd hs =>
    refine ⟨noncesGrow_leaderExecute _ n.store, ?_⟩
    intro tx htx
    exact allStale_leaderExecute _ n.store tx (executed_produce (hd.subset htx))
  | storing hd =>
    have hstep : n.Step C cfg m (n.micro C cfg m) := micro_step n m
    obtain ⟨hgrow, hstale⟩ := nonces_step hstep
    refine ⟨hgrow, ?_⟩
    intro tx htx
    exact hstale tx (List.dropLast_subset _ htx)

/-! ## The chain and the nonces -/

theorem Store.SameChain.refl (s : Store) : s.SameChain s := ⟨rfl, rfl⟩

/-- A step overwrites no block, and a stop does not fall between the two writes of
`put_block`: it leaves the blocks and the tip as they were. -/
structure Process.LivesOn (C : Crypto) (cfg : NodeConfig) (p : Process) (a : Act) : Prop where
  possible : p.Possible C cfg a
  step : ∀ m, a = .step m → NoOverwrite C p.node m
  stop : ∀ m left done now, a = .stop m left done now → p.node.store.SameChain left

/-- A step of the loop is no stop. -/
theorem livesOn_step {p : Process} {m : Micro} (h : NoOverwrite C p.node m) :
    p.LivesOn C cfg (.step m) := by
  refine ⟨trivial, ?_, ?_⟩
  · intro m' heq
    cases heq
    exact h
  · intro m left done now heq
    cases heq

/-- The store holds a chain, and what was executed is stale. -/
structure Survives (C : Crypto) (p : Process) : Prop where
  node : NodeChain C p.node
  stale : ∀ tx, .executed tx ∈ p.log → ¬ tx.Fresh p.node.store

/-- What a later store has kept of an earlier one: the chain and the nonces. -/
structure Store.KeptBy (s s' : Store) : Prop extends Extends s s' where
  nonces : s.NoncesGrow s'

/-- A chain has a genesis block, so a start on it makes no other. -/
theorem start_store (hs : ChainOK C s) (id : Id) (key : BitVec 256) (now : StartClock) :
    (startNode cfg id key s now).1.store = s := by
  have hsome : (s.getBlock 0).isSome := (hs.dense 0).2 UInt64.zero_le
  have hgen : (s.getBlock 0).isNone = false := by
    rw [← Option.not_isSome, hsome]
    rfl
  simp [startNode, hgen]

/-- A restart adds its handshake, and what was done before the stop. -/
theorem mem_log_restart {p : Process} {done : List Effect} {now : StartClock} {e : Effect}
    (h : e ∈ (p.restart cfg s done now).log) : e ∈ p.log ∨ e ∈ done ∨
      e = .broadcast (.handshake p.node.cons.nodeId p.node.cons.nodeId cfg.listenAddress) := by
  rcases List.mem_append.1 h with h | h
  · exact (List.mem_append.1 h).imp_right .inl
  · have hstart : e ∈ (Process.start cfg p.node.cons.nodeId p.node.cons.privateKey s now).log := h
    exact .inr (.inr (mem_log_start hstart))

theorem survives_act {p : Process} {a : Act} (h : Survives C p) (ha : p.LivesOn C cfg a) :
    Survives C (p.act C cfg a) ∧ p.node.store.KeptBy (p.act C cfg a).node.store := by
  cases a with
  | step m =>
    have hs : p.node.Step C cfg m (p.node.micro C cfg m) := micro_step p.node m
    obtain ⟨hchain, hext⟩ := nodeChain_step hs h.node (ha.step m rfl)
    obtain ⟨hgrow, hstale⟩ := nonces_step hs
    refine ⟨⟨hchain, ?_⟩, { hext with nonces := hgrow }⟩
    intro tx htx
    rcases List.mem_append.1 htx with htx | htx
    · exact fun hf => h.stale tx htx (UInt64.lt_of_le_of_lt (hgrow tx.sender) hf)
    · exact hstale tx htx
  | stop m left done now =>
    have hsame := ha.stop m left done now rfl
    have hchain : ChainOK C left := h.node.chain.of_sameChain hsame
    have hstore : (p.restart cfg left done now).node.store = left := start_store hchain _ _ _
    obtain ⟨hgrow, hstale⟩ := nonces_stop ha.possible
    have hkept : p.node.store.KeptBy left := { Extends.of_sameChain hsame with nonces := hgrow }
    refine ⟨⟨⟨?_, fun pb hpb => by cases hpb⟩, ?_⟩, ?_⟩
    · exact hstore.symm ▸ hchain
    · intro tx htx
      rw [show (p.act C cfg (.stop m left done now)).node.store = left from hstore]
      rcases mem_log_restart htx with htx | htx | htx
      · exact fun hf => h.stale tx htx (UInt64.lt_of_le_of_lt (hgrow tx.sender) hf)
      · exact hstale tx htx
      · cases htx
    · rw [show (p.act C cfg (.stop m left done now)).node.store = left from hstore]
      exact hkept

/-! ## Lives -/

section Life

variable {id : Id} {key : BitVec 256} {store : Store} {now : StartClock} {acts acts' : List Act}

theorem Store.KeptBy.trans {s'' : Store} (h : s.KeptBy s') (h' : s'.KeptBy s'') : s.KeptBy s'' :=
  { h.toExtends.trans h'.toExtends with
    nonces := fun a => UInt64.le_trans (h.nonces a) (h'.nonces a) }

theorem survives_run {p : Process} (hp : Survives C p)
    (h : Runs.Along (Process.act C cfg) (Process.LivesOn C cfg) p acts) :
    Survives C (Runs.run (Process.act C cfg) p acts) ∧
      p.node.store.KeptBy (Runs.run (Process.act C cfg) p acts).node.store := by
  let I : Process → Prop := fun p' => Survives C p' ∧ p.node.store.KeptBy p'.node.store
  have hstep : ∀ p' a, I p' → p'.LivesOn C cfg a → I (p'.act C cfg a) := by
    rintro p' a ⟨hp', hkept⟩ ha
    obtain ⟨hnext, hkept'⟩ := survives_act hp' ha
    exact ⟨hnext, hkept.trans hkept'⟩
  exact Runs.inv_run hstep
    (show I p from ⟨hp, { Extends.refl _ with nonces := .refl _ }⟩) h

/-- **What survives.** Between any two moments of a life with any number of stops and
restarts, the tip does not fall, stored headers stay, and nonces do not fall; the store holds
a chain, and no transaction that was executed before any of the stops is executed again with
effect. -/
theorem lives_on (hstart : ChainOK C (Process.start cfg id key store now).node.store)
    (h : Runs.Along (Process.act C cfg) (Process.LivesOn C cfg)
      (.start cfg id key store now) (acts ++ acts')) :
    (Runs.run (Process.act C cfg) (.start cfg id key store now) acts).node.store.KeptBy
      (Runs.run (Process.act C cfg) (.start cfg id key store now) (acts ++ acts')).node.store ∧
    ChainOK C
      (Runs.run (Process.act C cfg) (.start cfg id key store now) (acts ++ acts')).node.store ∧
    AllStale
      (Runs.run (Process.act C cfg) (.start cfg id key store now) (acts ++ acts')).node.store
      (executedTxs
        (Runs.run (Process.act C cfg) (.start cfg id key store now) (acts ++ acts')).log) := by
  have hp : Survives C (Process.start cfg id key store now) := by
    refine ⟨nodeChain_start hstart, ?_⟩
    intro tx htx
    cases mem_log_start htx
  obtain ⟨h₁, h₂⟩ := Runs.along_append.1 h
  have hmid := (survives_run hp h₁).1
  obtain ⟨hend, hkept⟩ := survives_run hmid h₂
  rw [← Runs.run_append] at hend hkept
  exact ⟨hkept, hend.node.chain, fun tx htx => hend.stale tx (mem_executedTxs.1 htx)⟩

end Life

/-! ## The votes -/

/-- A step keeps the votes; and at a stop what the node has signed is stored, its pending
block as well as what it signs in the step that is cut off. -/
structure Process.VotesOn (C : Crypto) (cfg : NodeConfig) (p : Process) (a : Act) : Prop where
  lives : p.LivesOn C cfg a
  step : ∀ m, a = .step m → KeepsVotes C cfg p.node m
  stop : ∀ m left done now, a = .stop m left done now →
    (∀ pb, p.node.pendingBlock = some pb →
      ∃ b, p.node.store.getBlock pb.header.height = some b ∧ b.header = pb.header) ∧
    ∀ H, .signed H ∈ done → ∃ b, left.getBlock H.height = some b ∧ b.header = H

theorem votesOn_step {p : Process} {m : Micro} (hno : NoOverwrite C p.node m)
    (hkeep : KeepsVotes C cfg p.node m) : p.VotesOn C cfg (.step m) := by
  refine ⟨livesOn_step hno, ?_, ?_⟩
  · intro m' heq
    cases heq
    exact hkeep
  · intro m left done now heq
    cases heq

/-- A stop between two steps with nothing pending. -/
theorem votesOn_idle {p : Process} {m : Micro} {now : StartClock}
    (hidle : p.node.pendingBlock = none) :
    p.VotesOn C cfg (.stop m p.node.store [] now) := by
  refine ⟨⟨.idle m, ?_, ?_⟩, ?_, ?_⟩
  · exact fun m' heq => by cases heq
  · intro m' left done now' heq
    cases heq
    exact .refl _
  · exact fun m' heq => by cases heq
  · intro m' left done now' heq
    cases heq
    refine ⟨?_, fun H hH => by cases hH⟩
    intro pb hpb
    rw [hidle] at hpb
    cases hpb

theorem processVotes_act {p : Process} {a : Act} (h : ProcessVotes C p)
    (ha : p.VotesOn C cfg a) : ProcessVotes C (p.act C cfg a) := by
  cases a with
  | step m => exact processVotes_step h ⟨ha.lives.step m rfl, ha.step m rfl⟩
  | stop m left done now =>
    have hsame := ha.lives.stop m left done now rfl
    obtain ⟨hpending, hdone⟩ := ha.stop m left done now rfl
    have hchain : ChainOK C left := h.node.chain.of_sameChain hsame
    have hstore : (p.restart cfg left done now).node.store = left := start_store hchain _ _ _
    have hstored : ∀ H, p.node.HasVote H →
        ∃ b, left.getBlock H.height = some b ∧ b.header = H := by
      rintro H (hH | ⟨pb, hpb, rfl⟩)
      · rwa [← hsame.getBlock]
      · rw [← hsame.getBlock]
        exact hpending pb hpb
    have hvote : ∀ H, (∃ b, left.getBlock H.height = some b ∧ b.header = H) →
        (p.act C cfg (.stop m left done now)).node.HasVote H := by
      intro H hH
      left
      rwa [show (p.act C cfg (.stop m left done now)).node.store = left from hstore]
    refine ⟨⟨⟨?_, fun pb hpb => by cases hpb⟩, fun pb hpb => by cases hpb⟩, ?_⟩
    · exact hstore.symm ▸ hchain
    · intro H hH
      rcases mem_log_restart hH with hH | hH | hH
      · exact hvote H (hstored H (h.voted H hH))
      · exact hvote H (hdone H hH)
      · cases hH

/-- **A node signs one header per height over all of its restarts**, if at each stop what it
has signed is stored. -/
theorem votes_once {id : Id} {key : BitVec 256} {store : Store} {now : StartClock}
    {acts : List Act} (hstart : ChainOK C (Process.start cfg id key store now).node.store)
    (h : Runs.Along (Process.act C cfg) (Process.VotesOn C cfg)
      (.start cfg id key store now) acts) :
    SignsOnce (Runs.run (Process.act C cfg) (.start cfg id key store now) acts).log :=
  (Runs.inv_run (fun _ _ hp ha => processVotes_act hp ha) (processVotes_start hstart) h).unique

/-! ## A follower that is cut off -/

/-- Node 1 has the proposal of node 2 in its queue. -/
abbrev Process.toyQueued : Process :=
  Process.toyFollower.micro .toy (.toy [2, 3]) (.recv (.propose .toyOwn))

/-- Node 1 is cut off when it has run the transaction of the proposal. -/
def Act.toyCut : Act :=
  .stop .handleProposal
    (replayBlock .toy .default
      { Block.toyOwn with transactions := Block.toyOwn.transactions.take 1 }
      Process.toyQueued.node.store).store
    ([.signed Block.toyOwn.header, .broadcast (.sign Block.toyOwn.header.height
        (Process.toyQueued.node.cons.signHeader .toy Block.toyOwn.header))] ++
      (replayBlock .toy .default
        { Block.toyOwn with transactions := Block.toyOwn.transactions.take 1 }
        Process.toyQueued.node.store).ran.map .executed)
    ⟨2000, 2000⟩

theorem livesOn_toyCut : Process.toyQueued.LivesOn .toy (.toy [2, 3]) .toyCut where
  possible := by
    have hqueued : Process.toyQueued.node.proposals = [.toyOwn] := by decide +kernel
    exact .applying 1 hqueued (by decide +kernel)
  step := fun m hm => by cases hm
  stop := by
    intro m left done now heq
    cases heq
    exact sameChain_replayBlock _ _

/-- Node 1 is started again, gets the proposal once more, and stores it: what it has run
already is stale. -/
theorem lives_on_toy : ∃ p p',
    Runs.run (Process.act .toy (.toy [2, 3])) .toyFollower
      [.step (.recv (.propose .toyOwn)), .toyCut] = p ∧
    Runs.run (Process.act .toy (.toy [2, 3])) .toyFollower
      ([.step (.recv (.propose .toyOwn)), .toyCut] ++
        [.step (.recv (.propose .toyOwn)), .step .handleProposal]) = p' ∧
    p.node.store.KeptBy p'.node.store ∧ ChainOK .toy p'.node.store ∧
    AllStale p'.node.store (executedTxs p'.log) := by
  refine ⟨_, _, rfl, rfl, ?_⟩
  unfold Process.toyFollower
  refine lives_on (chainOK_genesis 0 1) ?_
  simp only [List.cons_append, List.nil_append, Runs.along_cons, Runs.along_nil, and_true]
  exact ⟨livesOn_step trivial, livesOn_toyCut, livesOn_step trivial, livesOn_step trivial⟩

/-- Node 1 has stored the proposal. -/
abbrev Process.toyStored : Process :=
  (Process.toyFollower.act .toy (.toy [2, 3]) (.step (.recv (.propose .toyOwn)))).act .toy
    (.toy [2, 3]) (.step .handleProposal)

/-- Node 1 has stored the proposal before it stops. -/
theorem votes_once_toy : SignsOnce (Runs.run (Process.act .toy (.toy [2, 3])) .toyFollower
    [.step (.recv (.propose .toyOwn)), .step .handleProposal,
      .stop .feed Process.toyStored.node.store [] ⟨2000, 2000⟩]).log := by
  have hkeep : KeepsVotes .toy (.toy [2, 3]) Process.toyQueued.node .handleProposal := by
    intro b rest hp hs
    have hb : Process.toyQueued.node.proposals = [.toyOwn] := by decide +kernel
    have hnone : Process.toyQueued.node.pendingBlock = none := by decide +kernel
    rw [hb, List.cons.injEq] at hp
    rw [← hp.1]
    exact ⟨by decide +kernel, fun pb hpb => absurd (hnone.symm.trans hpb) (by simp)⟩
  have hidle : Process.toyStored.node.pendingBlock = none := by decide +kernel
  have hstop : Process.toyStored.VotesOn .toy (.toy [2, 3])
      (.stop .feed Process.toyStored.node.store [] ⟨2000, 2000⟩) :=
    votesOn_idle hidle
  refine votes_once (chainOK_genesis 0 1) ?_
  exact ⟨votesOn_step trivial trivial, votesOn_step trivial hkeep, hstop, trivial⟩

/-! ## A stop between two writes -/

/-- Node 2, which asks for no signature but its own. -/
def NodeConfig.toyAlone : NodeConfig := { NodeConfig.toy [1, 3] with minSignatures := 1 }

abbrev Process.toyAlone : Process := .start .toyAlone 2 2 .toyGenesis ⟨0, 0⟩

/-- A transaction is in its pool. -/
abbrev Process.toyFed : Process :=
  (Process.toyAlone.micro .toy .toyAlone (.recv (.submitTx .toyRegister))).micro .toy .toyAlone
    .feed

/-- It is cut off while it stores its block: the block is written, the tip is not. -/
def Act.toyHalf : List Act :=
  [.step (.recv (.submitTx .toyRegister)), .step .feed,
    .stop (.produce 1000 1000)
      { (Process.toyFed.node.micro .toy .toyAlone (.produce 1000 1000)).1.store with
        latestHeight := Process.toyFed.node.store.latestHeight }
      (Process.toyFed.node.micro .toy .toyAlone (.produce 1000 1000)).2.dropLast ⟨2000, 2000⟩]

/-- After the restart it gets another transaction. -/
def Act.toyAgain : List Act :=
  [.step (.recv (.submitTx (.toy 2 1 (.registerParticipant 2 .seller "")))), .step .feed,
    .step (.produce 3000 3000)]

/-- **A stop between the two writes of `put_block` loses the block**: it is stored, and after
the restart the node builds another one of the same height over it. -/
theorem stop_forks : ¬ ∀ acts acts',
    Runs.Along (Process.act .toy .toyAlone) (fun p a => p.Possible .toy .toyAlone a ∧
      ∀ m, a = .step m → NoOverwrite .toy p.node m) .toyAlone (acts ++ acts') →
    Extends (Runs.run (Process.act .toy .toyAlone) .toyAlone acts).node.store
      (Runs.run (Process.act .toy .toyAlone) .toyAlone (acts ++ acts')).node.store := by
  intro h
  have hhalf : Process.toyFed.node.StopsIn .toy .toyAlone (.produce 1000 1000)
      { (Process.toyFed.node.micro .toy .toyAlone (.produce 1000 1000)).1.store with
        latestHeight := Process.toyFed.node.store.latestHeight }
      (Process.toyFed.node.micro .toy .toyAlone (.produce 1000 1000)).2.dropLast :=
    .storing (by decide +kernel)
  have hsteps : Runs.Along (Process.act .toy .toyAlone) (fun p a => p.Possible .toy .toyAlone a ∧
      ∀ m, a = .step m → NoOverwrite .toy p.node m) .toyAlone (Act.toyHalf ++ Act.toyAgain) := by
    simp only [Act.toyHalf, Act.toyAgain, List.cons_append, List.nil_append, Runs.along_cons,
      Runs.along_nil, and_true]
    refine ⟨⟨trivial, ?_⟩, ⟨trivial, ?_⟩, ⟨hhalf, ?_⟩, ⟨trivial, ?_⟩,
      ⟨trivial, ?_⟩, ⟨trivial, ?_⟩⟩
    all_goals
      intro m hm
      cases hm
    · trivial
    · trivial
    · trivial
    · trivial
    · unfold NoOverwrite
      decide +kernel
  have hsome : ((Runs.run (Process.act .toy .toyAlone) .toyAlone
      Act.toyHalf).node.store.getBlock 1).isSome := by
    decide +kernel
  have hne : ((Runs.run (Process.act .toy .toyAlone) .toyAlone
        (Act.toyHalf ++ Act.toyAgain)).node.store.getBlock 1).map (·.header) ≠
      ((Runs.run (Process.act .toy .toyAlone) .toyAlone
        Act.toyHalf).node.store.getBlock 1).map (·.header) := by
    decide +kernel
  obtain ⟨b, hb⟩ := Option.isSome_iff_exists.1 hsome
  obtain ⟨b', hb', heq⟩ := (h Act.toyHalf Act.toyAgain hsteps).header 1 b hb
  rw [hb, hb', Option.map_some, Option.map_some, heq] at hne
  exact hne rfl

end RoutineChain
