import RoutineChain.Proof.Voter

/-!
# The state of a node is the replay of its chain

The store holds blocks and state side by side, and nothing ties the two together: the state
is whatever `execute` has made of it.

* `replayChain`: the state that the blocks of a chain lead to, one after the other.
* `state_replayed`: while no proposed block is dropped, a follower stores what it signs, and
  what the leader rejects leaves nothing behind, the state is the replay of the stored chain
  and the pending block.
-/

namespace RoutineChain

open EStateM

variable {C : Crypto} {P : Params} {cfg : NodeConfig} {s s' : Store} {b : Block}

/-! ## Replaying a chain -/

/-- The store after replaying blocks one after the other; the blocks are not stored. -/
def replayChain (C : Crypto) (P : Params) (s : Store) (bs : List Block) : Store :=
  Runs.run (fun s b => (replayBlock C P b s).store) s bs

/-- The stored blocks from height one up to the tip. -/
def Store.chain (s : Store) : List Block :=
  (List.range s.getLatestHeight.toNat).filterMap fun i => s.getBlock (.ofNat (i + 1))

theorem Store.SameState.replayChain (h : s.SameState s') (bs : List Block) :
    (replayChain C P s bs).SameState (RoutineChain.replayChain C P s' bs) :=
  Runs.sim_run (R := Store.SameState) (fun _ _ b h => h.replayBlock b) h bs

theorem replayChain_append (s : Store) (bs bs' : List Block) :
    replayChain C P s (bs ++ bs') = replayChain C P (replayChain C P s bs) bs' :=
  Runs.run_append _ _ _ _

/-- A store with the state of a chain has the state of the longer chain after one block more. -/
theorem replayed_concat {s₀ : Store} {bs : List Block}
    (h : s.SameState (replayChain C P s₀ bs)) (b : Block) :
    (replayBlock C P b s).store.SameState (replayChain C P s₀ (bs ++ [b])) := by
  rw [replayChain_append]
  exact h.replayBlock b

/-! ## The chain of a store -/

theorem Store.SameChain.chain (h : s.SameChain s') : s.chain = s'.chain := by
  unfold Store.chain
  rw [h.getLatestHeight, h.getBlock]

/-- **A block stored right above the tip ends the chain.** -/
theorem Store.chain_putBlock (h0 : s.getLatestHeight + 1 ≠ 0)
    (hb : b.header.height = s.getLatestHeight + 1) :
    (s.putBlock b).chain = s.chain ++ [b] := by
  have hsucc := toNat_succ h0
  have htip : UInt64.ofNat (s.getLatestHeight.toNat + 1) = s.getLatestHeight + 1 := by
    rw [← hsucc, UInt64.ofNat_toNat]
  unfold Store.chain
  rw [Store.putBlock_latest, hb, hsucc, List.range_succ, List.filterMap_append]
  congr 1
  -- below the tip nothing changes
  · refine List.filterMap_congr ?_
    intro i hi
    rw [Store.getBlock_putBlock, if_neg]
    rw [hb, ← htip, ← UInt64.toNat_inj]
    have hlt := s.getLatestHeight.toNat_lt
    have hi := List.mem_range.1 hi
    have hmax := (s.getLatestHeight + 1).toNat_lt
    rw [UInt64.toNat_ofNat_of_lt' (by rw [hsucc] at hmax; exact hmax),
      UInt64.toNat_ofNat_of_lt' (by simp only [UInt64.size]; omega)]
    omega
  · rw [List.filterMap_cons, htip, ← hb, Store.getBlock_putBlock_self]
    rfl

/-! ## One step -/

/-- The step leaves nothing in the state that the chain does not account for: a pending block
is not dropped; a proposal that is signed passes the root check, and comes while no own block
is pending; and what the leader rejects from a signed pool leaves nothing behind. -/
def KeepsState (C : Crypto) (cfg : NodeConfig) (n : Node) : Micro → Prop
  | .finalize _ t => ∀ pb, n.pendingBlock = some pb → n.cons.isFinalized C pb ∨
      ¬ timedOut cfg t pb
  | .handleProposal => ∀ b rest, n.proposals = b :: rest → (n.signProposal C b).isSome →
      n.pendingBlock = none ∧ RootAccepted C cfg.params b n.store
  | .produce t _ => n.store.getLatestHeight + 1 ≠ 0 ∧ ∀ prev, n.Produces cfg.params prev t →
      (∀ tx ∈ n.cons.pendingTxs, verifyTxSignature C tx) ∧
      CleanRejects cfg.params t n.store n.cons.pendingTxs
  | _ => True

/-- The node stores a chain, its pending block continues it, and the state is the replay of
both from the state of `s₀`. -/
structure NodeState (C : Crypto) (P : Params) (s₀ : Store) (n : Node) : Prop extends
    NodeChain C n where
  next : ∀ pb, n.pendingBlock = some pb → pb.header.height = n.store.getLatestHeight + 1
  state : n.store.SameState (replayChain C P s₀ (n.store.chain ++ n.pendingBlock.toList))

section Steps

variable {n : Node} {s₀ : Store} {t t' : Int64} {prev : Block}

/-- A clean pool leads the leader to the state that its block leads a follower to. -/
theorem replayed_block (hsigned : ∀ tx ∈ n.cons.pendingTxs, verifyTxSignature C tx)
    (hclean : CleanRejects P t n.store n.cons.pendingTxs) :
    (n.ran P t).store.SameState (replayBlock C P (n.block C P prev t) n.store).store :=
  (replay_clean (b := n.block C P prev t) hsigned hclean rfl).symm

/-- A clean pool without a success leaves the state alone. -/
theorem ran_sameState (hclean : CleanRejects P t n.store n.cons.pendingTxs)
    (hv : (leaderExecute P t n.cons.pendingTxs n.store).validTxs = []) :
    (n.ran P t).store.SameState n.store := by
  have hbehind : Behind n.store n.store := ⟨rfl, fun _ => UInt64.le_refl _⟩
  have hsame := CatchesUp.sameState hbehind (fun _ => .inl rfl) hclean
  rw [leaderExecute_validTxs] at hv
  rw [hv, runAll_nil] at hsame
  unfold Node.ran
  rw [leaderExecute_store]
  exact hsame.symm

/-- The block above the tip is not stored, so it overwrites nothing. -/
theorem NodeState.noOverwrite (h : NodeState C cfg.params s₀ n) {m : Micro}
    (hm : KeepsState C cfg n m) : NoOverwrite C n m := by
  cases m with
  | finalize t t' =>
    refine noOverwrite_finalize h.chain ?_ t t'
    intro pb hpb
    have h0 : n.store.getLatestHeight + 1 ≠ 0 := h.next pb hpb ▸ (h.pending pb hpb).1
    rw [h.next pb hpb]
    exact lt_next h0 (UInt64.le_refl _)
  | produce t t' => exact hm.1
  | _ => trivial

/-- A proposal that a follower signs goes right above the tip. -/
theorem Votable.next (hv : Votable C n b) (hs : ChainOK C n.store) :
    b.header.height = n.store.getLatestHeight + 1 := by
  obtain ⟨h0, prev, hprev, -⟩ := hv.linked
  have hlow : b.header.height - 1 ≤ n.store.getLatestHeight :=
    (hs.dense _).1 (by rw [hprev]; rfl)
  have hhigh : n.store.getLatestHeight < b.header.height := by
    rw [← UInt64.not_le, ← hs.dense, hv.free]
    exact Bool.false_ne_true
  have hpred := toNat_pred h0
  rw [UInt64.le_iff_toNat_le] at hlow
  rw [UInt64.lt_iff_toNat_lt] at hhigh
  have heq : b.header.height - 1 = n.store.getLatestHeight := by
    rw [← UInt64.toNat_inj]
    omega
  rw [← heq, UInt64.sub_add_cancel]

/-- What the state is after a block above the tip has been replayed and stored. -/
theorem replayed_putBlock (h0 : n.store.getLatestHeight + 1 ≠ 0)
    (hb : b.header.height = n.store.getLatestHeight + 1)
    (hstate : n.store.SameState (replayChain C P s₀ n.store.chain)) (hsame : n.store.SameChain s')
    (hs' : s'.SameState (replayBlock C P b n.store).store) :
    (s'.putBlock b).SameState (replayChain C P s₀ ((s'.putBlock b).chain ++ [])) := by
  rw [List.append_nil, Store.chain_putBlock (hsame.getLatestHeight ▸ h0)
    (hsame.getLatestHeight ▸ hb), ← hsame.chain]
  exact hs'.trans (replayed_concat hstate b)

/-- **One step keeps the pending block right above the tip.** -/
theorem next_step {m : Micro} {out : Node × List Effect} (hs : n.Step C cfg m out)
    (h : NodeState C cfg.params s₀ n) (hm : KeepsState C cfg n m) {pb : Block}
    (hpb : out.1.pendingBlock = some pb) :
    pb.header.height = out.1.store.getLatestHeight + 1 := by
  cases hs with
  | cosigned hp hv =>
    cases hpb
    have hnext := h.next _ hp
    exact hnext
  | finalized | discarded => cases hpb
  | applied hp hs hr | diverged hp hs hr =>
    rw [(hm _ _ hp (by rw [hs]; rfl)).1] at hpb
    cases hpb
  | @proposed prev t t' hp hv hc hf =>
    cases hpb
    rw [show (n.ran cfg.params t).store.getLatestHeight = _ from
      (sameChain_ran cfg.params n t).getLatestHeight.symm]
    rfl
  | rejectedAll t' hp hv | committed t' hp hv hc hf | solo t' hp hv hc =>
    exact absurd hpb hp.not_pending
  | _ => exact h.next pb hpb

/-- A block that the leader stores at once. -/
theorem replayed_own (hp : n.Produces cfg.params prev t) (h : NodeState C cfg.params s₀ n)
    (hm : KeepsState C cfg n (.produce t t')) :
    ((n.ran cfg.params t).store.putBlock (n.block C cfg.params prev t)).SameState
      (replayChain C cfg.params s₀
        (((n.ran cfg.params t).store.putBlock (n.block C cfg.params prev t)).chain ++ [])) := by
  obtain ⟨hsigned, hclean⟩ := hm.2 prev hp
  refine replayed_putBlock hm.1 rfl ?_ (sameChain_ran cfg.params n t)
    (replayed_block hsigned hclean)
  have hstate := h.state
  rwa [hp.idle, Option.toList_none, List.append_nil] at hstate

/-- **One step keeps the state the replay of the chain and the pending block.** -/
theorem state_step {m : Micro} {out : Node × List Effect} (hs : n.Step C cfg m out)
    (h : NodeState C cfg.params s₀ n) (hm : KeepsState C cfg n m) :
    out.1.store.SameState
      (replayChain C cfg.params s₀ (out.1.store.chain ++ out.1.pendingBlock.toList)) := by
  have hidle : n.pendingBlock = none →
      n.store.SameState (replayChain C cfg.params s₀ n.store.chain) := by
    intro hnone
    have hstate := h.state
    rwa [hnone, Option.toList_none, List.append_nil] at hstate
  cases hs with
  -- The signatures of a block have no influence on its replay.
  | cosigned hp hv =>
    have hstate := h.state
    rw [hp, Option.toList_some, replayChain_append] at hstate
    rw [Option.toList_some, replayChain_append]
    exact hstate
  | @finalized pb t t' hp hf =>
    have hstate := h.state
    have hnext := h.next pb hp
    rw [hp, Option.toList_some] at hstate
    rw [Option.toList_none, List.append_nil,
      Store.chain_putBlock (hnext ▸ (h.pending pb hp).1) hnext]
    exact hstate
  | discarded t hp hf ht =>
    rcases hm _ hp with hf' | ht'
    · exact absurd hf' hf
    · exact absurd ht ht'
  | @applied b rest sig hp hs hr =>
    have hnone := (hm _ _ hp (by rw [hs]; rfl)).1
    obtain ⟨hv, -⟩ := signProposal_spec hs
    have hnext := hv.next h.chain
    rw [hnone, Option.toList_none]
    exact replayed_putBlock (hnext ▸ hv.linked.1) hnext (hidle hnone)
      (sameChain_replayBlock b n.store) ⟨rfl, rfl⟩
  | diverged hp hs hr => exact absurd (hm _ _ hp (by rw [hs]; rfl)).2 hr
  | @rejectedAll prev t t' hp hv =>
    have hnone : (n.ran cfg.params t).pendingBlock = none := hp.idle
    rw [hnone, Option.toList_none, List.append_nil, ← (sameChain_ran cfg.params n t).chain]
    exact (ran_sameState (hm.2 prev hp).2 hv).trans (hidle hp.idle)
  | @proposed prev t t' hp hv hc hf =>
    obtain ⟨hsigned, hclean⟩ := hm.2 prev hp
    rw [Option.toList_some, ← (sameChain_ran cfg.params n t).chain]
    exact (replayed_block hsigned hclean).trans (replayed_concat (hidle hp.idle) _)
  | @committed prev t t' hp hv hc hf | @solo prev t t' hp hv hc =>
    have hnone : (n.ran cfg.params t).pendingBlock = none := hp.idle
    rw [hnone, Option.toList_none]
    exact replayed_own hp h hm
  | _ => exact h.state

theorem nodeState_step {m : Micro} {out : Node × List Effect} (hs : n.Step C cfg m out)
    (h : NodeState C cfg.params s₀ n) (hm : KeepsState C cfg n m) :
    NodeState C cfg.params s₀ out.1 :=
  { (nodeChain_step hs h.toNodeChain (h.noOverwrite hm)).1 with
    next := fun _ hpb => next_step hs h hm hpb
    state := state_step hs h hm }

end Steps

/-! ## Runs -/

section Run

variable {id : Id} {key : BitVec 256} {store s₀ : Store} {now : StartClock} {ms : List Micro}

theorem nodeState_start (hchain : ChainOK C (Process.start cfg id key store now).node.store)
    (hstate : (Process.start cfg id key store now).node.store.SameState
      (replayChain C P s₀ (Process.start cfg id key store now).node.store.chain)) :
    NodeState C P s₀ (Process.start cfg id key store now).node := by
  refine { nodeChain_start hchain with next := ?_, state := ?_ }
  · exact fun pb hpb => by cases hpb
  · have hnone : (Process.start cfg id key store now).node.pendingBlock = none := rfl
    rwa [hnone, Option.toList_none, List.append_nil]

theorem nodeState_run {p : Process} (hp : NodeState C cfg.params s₀ p.node)
    (h : Runs.Along (Process.micro C cfg) (fun p m => KeepsState C cfg p.node m) p ms) :
    NodeState C cfg.params s₀ (Runs.run (Process.micro C cfg) p ms).node :=
  Runs.inv_run (I := fun p => NodeState C cfg.params s₀ p.node)
    (fun p m hp hm => nodeState_step (micro_step p.node m) hp hm) hp h

/-- **The state of a node is the replay of its chain and its pending block**, at every moment
of a run that keeps it so. -/
theorem state_replayed (hchain : ChainOK C (Process.start cfg id key store now).node.store)
    (hstate : (Process.start cfg id key store now).node.store.SameState
      (replayChain C cfg.params s₀ (Process.start cfg id key store now).node.store.chain))
    (h : Runs.Along (Process.micro C cfg) (fun p m => KeepsState C cfg p.node m)
      (.start cfg id key store now) ms) :
    (Runs.run (Process.micro C cfg) (.start cfg id key store now) ms).node.store.SameState
      (replayChain C cfg.params s₀
        ((Runs.run (Process.micro C cfg) (.start cfg id key store now) ms).node.store.chain ++
          (Runs.run (Process.micro C cfg)
            (.start cfg id key store now) ms).node.pendingBlock.toList)) :=
  (nodeState_run (nodeState_start hchain hstate) h).state

end Run

/-- Node 2 proposes the registration that it was sent. -/
theorem state_replayed_toy : (Runs.run (Process.micro .toy (.toy [1, 3])) .toyLeader
      (microsOf [.toySubmit])).node.store.SameState
    (replayChain .toy .default .toyGenesis
      ((Runs.run (Process.micro .toy (.toy [1, 3])) .toyLeader
          (microsOf [.toySubmit])).node.store.chain ++
        (Runs.run (Process.micro .toy (.toy [1, 3])) .toyLeader
          (microsOf [.toySubmit])).node.pendingBlock.toList)) := by
  unfold Process.toyLeader
  refine @state_replayed .toy (.toy [1, 3]) _ _ _ _ _ _ chainOK_toyLeader ⟨rfl, rfl⟩ ?_
  rw [Input.toySubmit_micros]
  simp only [Runs.along_cons, Runs.along_nil, KeepsState]
  refine ⟨trivial, (fun pb hpb => by cases hpb), trivial, trivial, ⟨by decide +kernel, ?_⟩, trivial⟩
  intro prev _
  exact ⟨by decide +kernel, cleanRejects_of_valid (by decide +kernel)⟩

end RoutineChain
