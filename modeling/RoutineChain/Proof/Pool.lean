import RoutineChain.Proof.Votes

/-!
# What happens to a pooled transaction

A leader drains its pool and executes it before it knows whether its block will be final.
Dropping the pending block restores neither the state nor the pool.

* `pool_accounted`: as long as no pending block is dropped, a pooled transaction is in the
  pool, in the pending block or in a stored block, or it was rejected.
* The blocks that the node has stored itself lie below its pending block, so nothing
  overwrites them, whatever happens to the blocks of others.
-/

namespace RoutineChain

open EStateM

variable {C : Crypto} {cfg : NodeConfig} {n : Node} {b : Block} {tx : Transaction}

/-! ## Dropped blocks -/

/-- Every dropped block leaves the state from before its execution, with the blocks stored in
between applied to it, and its transactions back in the pool. The first argument is that
state, while a block is pending. -/
def DiscardsUndo (C : Crypto) (P : Params) : Option Store → List Effect → Prop
  | _, [] => True
  | _, .proposed before _ :: log => DiscardsUndo C P (some before) log
  | st, .stored _ b :: log => DiscardsUndo C P (st.map fun s => (replayBlock C P b s).store) log
  | st, .discarded b after :: log =>
    (∀ s, st = some s → after.store.SameState s) ∧
    (∀ tx ∈ b.transactions, tx ∈ after.cons.pendingTxs) ∧ DiscardsUndo C P none log
  | st, _ :: log => DiscardsUndo C P st log

/-- A run that drops no block has nothing to undo. -/
theorem discardsUndo_of_none {P : Params} {log : List Effect}
    (h : ∀ b after, .discarded b after ∉ log) (st : Option Store) : DiscardsUndo C P st log := by
  induction log generalizing st with
  | nil => trivial
  | cons e log ih =>
    have htail : ∀ b after, .discarded b after ∉ log := fun b after hm => h b after (.tail _ hm)
    cases e with
    | discarded b after => exact absurd List.mem_cons_self (h b after)
    | _ => exact ih htail _

/-- A dropped block with the node after it. -/
def Effect.discarded? : Effect → Option (Block × Node)
  | .discarded b after => some (b, after)
  | _ => none

/-- The blocks that a node has dropped, in order, each with the node after it. -/
def discards (log : List Effect) : List (Block × Node) := log.filterMap Effect.discarded?

/-- The transactions of a dropped block are back in the pool. -/
theorem DiscardsUndo.returned {P : Params} {log : List Effect} {st : Option Store}
    (h : DiscardsUndo C P st log) :
    ∀ d ∈ discards log, ∀ tx ∈ d.1.transactions, tx ∈ d.2.cons.pendingTxs := by
  induction log generalizing st with
  | nil => simp [discards]
  | cons e log ih =>
    cases e with
    | discarded b after =>
      intro d hd
      rcases List.mem_cons.1 hd with rfl | hd
      · exact h.2.1
      · exact ih h.2.2 d hd
    | _ => exact ih h

/-- A transaction that succeeds raises the nonce of its sender. -/
theorem getNonce_lt_runAll {P : Params} {t : Int64} {txs : List Transaction} {s : Store}
    (h : tx ∈ validOf P t s txs) :
    s.getNonce tx.sender < (runAll P t s txs).getNonce tx.sender := by
  induction txs generalizing s with
  | nil => cases h
  | cons tx' txs ih =>
    have hmono : s.getNonce tx.sender ≤ (after (execute P tx' t) s).getNonce tx.sender :=
      getNonce_le_execute tx.sender
    unfold validOf at h
    split at h
    case isFalse => exact UInt64.lt_of_le_of_lt hmono (ih h)
    case isTrue hok =>
      rcases List.mem_cons.1 h with rfl | h
      · have hfresh := (isOk_execute.1 hok).1
        have hrest := getNonce_le_runAll (P := P) (t := t) txs (after (execute P tx t) s) tx.sender
        rw [getNonce_execute, if_pos ⟨hfresh, rfl⟩] at hrest
        exact UInt64.lt_of_lt_of_le hfresh hrest
      · exact UInt64.lt_of_le_of_lt hmono (ih h)

/-- **Proposing a block moves the state**, so dropping it at once does not undo it. -/
theorem proposed_moves {P : Params} {t : Int64} {txs : List Transaction} {s : Store}
    (h : (leaderExecute P t txs s).validTxs ≠ []) :
    ¬ (leaderExecute P t txs s).store.SameState s := by
  rw [leaderExecute_validTxs] at h
  rw [leaderExecute_store]
  rintro ⟨-, hnonces⟩
  obtain ⟨tx, htx⟩ := List.exists_mem_of_ne_nil _ h
  have hlt := getNonce_lt_runAll htx
  unfold Store.getNonce at hlt
  rw [hnonces] at hlt
  exact UInt64.lt_irrefl _ hlt

/-! ## Where a transaction is -/

/-- A pooled transaction is in the pool, in the pending block, or in a stored block. -/
def Node.Holds (n : Node) (tx : Transaction) : Prop :=
  tx ∈ n.cons.pendingTxs ∨ (∃ pb, n.pendingBlock = some pb ∧ tx ∈ pb.transactions) ∨
  ∃ h b, n.store.getBlock h = some b ∧ tx ∈ b.transactions

/-- A transaction is in a stored block that is no higher than the tip, and below the pending
block. -/
def Node.KeepsStored (n : Node) (tx : Transaction) : Prop :=
  ∃ h b, n.store.getBlock h = some b ∧ tx ∈ b.transactions ∧ h ≤ n.store.getLatestHeight ∧
    ∀ pb, n.pendingBlock = some pb → h < pb.header.height

/-- `Holds`, with a stored block that nothing will overwrite. -/
def Node.Keeps (n : Node) (tx : Transaction) : Prop :=
  tx ∈ n.cons.pendingTxs ∨ (∃ pb, n.pendingBlock = some pb ∧ tx ∈ pb.transactions) ∨
  n.KeepsStored tx

theorem Node.Keeps.holds (h : n.Keeps tx) : n.Holds tx := by
  rcases h with h | h | ⟨height, b, hb, htx, -⟩
  · exact .inl h
  · exact .inr (.inl h)
  · exact .inr (.inr ⟨height, b, hb, htx⟩)

/-- Blocks are stored exactly up to some height, which the tip and the block below the
pending one do not exceed. -/
structure Heights (n : Node) (top : UInt64) : Prop where
  dense : ∀ h, (n.store.getBlock h).isSome ↔ h ≤ top
  tip : n.store.getLatestHeight ≤ top
  pending : ∀ pb, n.pendingBlock = some pb → pb.header.height ≠ 0 ∧ pb.header.height - 1 ≤ top

/-- The step drops no pending block, and builds only while the next height is not zero. -/
def DropsNothing (C : Crypto) (cfg : NodeConfig) (n : Node) : Micro → Prop
  | .finalize _ t => ∀ pb, n.pendingBlock = some pb → ¬ n.cons.isFinalized C pb →
      ¬ timedOut cfg t pb
  | .produce _ _ => n.store.getLatestHeight + 1 ≠ 0
  | _ => True

instance (C : Crypto) (cfg : NodeConfig) (n : Node) (m : Micro) :
    Decidable (DropsNothing C cfg n m) := by
  unfold DropsNothing
  induction m using Micro.casesOn with
  | finalize => exact inferInstanceAs (Decidable (∀ pb ∈ n.pendingBlock, _))
  | produce => infer_instance
  | _ => exact instDecidableTrue

/-- A block that goes on top of stored blocks keeps them dense. -/
theorem dense_putBlock {s : Store} {top : UInt64} (hd : ∀ h, (s.getBlock h).isSome ↔ h ≤ top)
    (h0 : b.header.height ≠ 0) (hle : b.header.height - 1 ≤ top) :
    ∃ top', top ≤ top' ∧ b.header.height ≤ top' ∧
      ∀ h, ((s.putBlock b).getBlock h).isSome ↔ h ≤ top' := by
  have hpred := toNat_pred h0
  rw [UInt64.le_iff_toNat_le] at hle
  by_cases hb : b.header.height ≤ top
  -- It overwrites, or it goes right above the top.
  · refine ⟨top, UInt64.le_refl _, hb, ?_⟩
    intro h
    rw [Store.getBlock_putBlock]
    split
    case isTrue heq => simp [← heq, hb]
    case isFalse => exact hd h
  · rw [UInt64.not_le, UInt64.lt_iff_toNat_lt] at hb
    refine ⟨b.header.height, UInt64.le_iff_toNat_le.2 hb.le, UInt64.le_refl _, ?_⟩
    intro h
    rw [Store.getBlock_putBlock]
    split
    case isTrue heq => simp [heq]
    case isFalse hne =>
      rw [hd h]
      rw [← UInt64.toNat_inj] at hne
      simp only [UInt64.le_iff_toNat_le]
      omega

theorem mem_foldl_produceTx {P : Params} {t : Int64} {txs : List Transaction}
    (st : Production) (h : tx ∈ txs ∨ tx ∈ st.validTxs ∨ tx ∈ st.rejected) :
    tx ∈ (txs.foldl (produceTx P t) st).validTxs ∨
      tx ∈ (txs.foldl (produceTx P t) st).rejected := by
  induction txs generalizing st with
  | nil => simpa using h
  | cons tx' txs ih =>
    refine ih _ ?_
    rw [produceTx_validTxs, produceTx_rejected]
    split <;>
      simp only [List.mem_cons, List.mem_append, List.not_mem_nil, or_false] at h ⊢ <;> tauto

/-- A transaction of the pool is in the block that the node builds, or rejected. -/
theorem mem_block_or_rejected (P : Params) (prev : Block) (t : Int64)
    (h : tx ∈ n.cons.pendingTxs) :
    tx ∈ (n.block C P prev t).transactions ∨ .rejected tx ∈ n.ranEffects P t := by
  rcases mem_foldl_produceTx (P := P) (t := t) { store := n.store } (.inl h) with h | h
  · exact .inl h
  · exact .inr (List.mem_append_right _ (List.mem_map_of_mem h))

section Steps

variable {n' : Node} {s : Store} {top : UInt64}

theorem Heights.of_sameChain (h : Heights n top) (hs : n.store.SameChain n'.store)
    (hp : n'.pendingBlock = n.pendingBlock) : Heights n' top :=
  ⟨hs.getBlock ▸ h.dense, hs.getLatestHeight ▸ h.tip, fun pb hpb => h.pending pb (hp ▸ hpb)⟩

theorem Heights.put (h : Heights n top) (hsame : n.store.SameChain s)
    (hs : n'.store = s.putBlock b) (h0 : b.header.height ≠ 0) (hle : b.header.height - 1 ≤ top)
    (hp : n'.pendingBlock = none ∨ n'.pendingBlock = n.pendingBlock) :
    ∃ top', Heights n' top' := by
  have hd : ∀ height, (s.getBlock height).isSome ↔ height ≤ top := hsame.getBlock ▸ h.dense
  obtain ⟨top', htop, hb, hd'⟩ := dense_putBlock hd h0 hle
  refine ⟨top', by rwa [hs], by rwa [hs, Store.putBlock_latest], ?_⟩
  intro pb hpb
  rcases hp with hp | hp
  · rw [hp] at hpb
    cases hpb
  · obtain ⟨hpb0, hpble⟩ := h.pending pb (hp ▸ hpb)
    exact ⟨hpb0, UInt64.le_trans hpble htop⟩

/-- The block below the next one is stored. -/
theorem Node.Produces.prev_le {P : Params} {prev : Block} {t : Int64} (hp : n.Produces P prev t)
    (h : Heights n top) : (n.block C P prev t).header.height - 1 ≤ top := by
  rw [← h.dense, show (n.block C P prev t).header.height - 1 =
    n.store.getLatestHeight + 1 - 1 from rfl, hp.prev]
  rfl

/-- The height that the node builds at is above everything that it has stored itself. -/
theorem Node.KeepsStored.put (h : n.KeepsStored tx) (hsame : n.store.SameChain s)
    (hs : n'.store = s.putBlock b)
    (hlt : ∀ height, height ≤ n.store.getLatestHeight →
      (∀ pb, n.pendingBlock = some pb → height < pb.header.height) → height < b.header.height)
    (hp : n'.pendingBlock = none ∨ n'.pendingBlock = n.pendingBlock) : n'.KeepsStored tx := by
  obtain ⟨height, b', hb', htx, htip, hpend⟩ := h
  have hb := hlt height htip hpend
  refine ⟨height, b', ?_, htx, ?_, ?_⟩
  · rw [hs, Store.getBlock_putBlock, if_neg (UInt64.ne_of_lt hb).symm, ← hsame.getBlock]
    exact hb'
  · rw [hs, Store.putBlock_latest]
    exact UInt64.le_of_lt hb
  · intro pb hpb
    rcases hp with hp | hp
    · rw [hp] at hpb
      cases hpb
    · exact hpend pb (hp ▸ hpb)

theorem Node.KeepsStored.of_sameChain (h : n.KeepsStored tx) (hs : n.store.SameChain n'.store)
    (hp : n'.pendingBlock = n.pendingBlock) : n'.KeepsStored tx := by
  unfold Node.KeepsStored
  rwa [hp, ← hs.getBlock, ← hs.getLatestHeight]

/-- When the node builds a block, a kept transaction is in the pool or stored. -/
theorem Node.Keeps.of_idle (h : n.Keeps tx) (hp : n.pendingBlock = none) :
    tx ∈ n.cons.pendingTxs ∨ n.KeepsStored tx := by
  rcases h with h | ⟨pb, hpb, -⟩ | h
  · exact .inl h
  · rw [hp] at hpb
    cases hpb
  · exact .inr h

/-- A transaction of a block that has just been stored, with nothing pending. -/
theorem Node.KeepsStored.new (hs : n.store = s.putBlock b) (htx : tx ∈ b.transactions)
    (hp : n.pendingBlock = none) : n.KeepsStored tx := by
  refine ⟨b.header.height, b, by rw [hs, Store.getBlock_putBlock_self], htx, ?_, ?_⟩
  · rw [hs, Store.putBlock_latest]
    exact UInt64.le_refl _
  · intro pb hpb
    rw [hp] at hpb
    cases hpb

/-- A proposal that is signed has a free height right above the stored blocks. -/
theorem Heights.signed (h : Heights n top) {sig : NodeSignature}
    (hs : n.signProposal C b = some sig) :
    b.header.height ≠ 0 ∧ b.header.height - 1 ≤ top ∧ top < b.header.height := by
  obtain ⟨⟨hfree, ⟨h0, prev, hprev, -⟩, -, -, -⟩, -⟩ := signProposal_spec hs
  refine ⟨h0, (h.dense _).1 (by rw [hprev]; rfl), ?_⟩
  rw [← UInt64.not_le, ← h.dense, hfree]
  exact Bool.false_ne_true

/-- **One step keeps the stored blocks dense.** -/
theorem heights_step {m : Micro} {out : Node × List Effect} (hs : n.Step C cfg m out)
    (h : Heights n top) (hm : DropsNothing C cfg n m) : ∃ top', Heights out.1 top' := by
  have hran : ∀ t, Heights (n.ran cfg.params t) top :=
    fun t => h.of_sameChain (sameChain_ran _ n t) rfl
  cases hs with
  | cosigned hp hv =>
    refine ⟨top, h.dense, h.tip, ?_⟩
    intro pb hpb
    cases hpb
    have hpend := h.pending _ hp
    exact hpend
  | finalized t t' hp hf =>
    obtain ⟨h0, hle⟩ := h.pending _ hp
    exact h.put ⟨rfl, rfl⟩ rfl h0 hle (.inl rfl)
  | discarded t hp hf ht => exact absurd ht (hm _ hp hf)
  | @applied b rest sig hp hs hr =>
    obtain ⟨h0, hle, -⟩ := h.signed hs
    exact h.put (sameChain_replayBlock b n.store) rfl h0 hle (.inr rfl)
  | @diverged b rest sig hp hs hr =>
    exact ⟨top, h.of_sameChain (sameChain_replayBlock (C := C) b n.store) rfl⟩
  | rejectedAll t' hp hv => exact ⟨top, hran _⟩
  | @proposed prev t t' hp hv hc hf =>
    refine ⟨top, (hran t).dense, (hran t).tip, ?_⟩
    intro pb hpb
    cases hpb
    exact ⟨hm, hp.prev_le h⟩
  | committed t' hp hv hc hf | solo t' hp hv hc =>
    exact h.put (sameChain_ran _ n _) rfl hm (hp.prev_le h) (.inl hp.idle)
  | _ => exact ⟨top, h.dense, h.tip, h.pending⟩

/-- When the node has built a block, a kept transaction is in it, rejected, or stored. -/
theorem Node.Keeps.of_produces {prev : Block} {t : Int64} (h : n.Keeps tx)
    (hp : n.Produces cfg.params prev t) :
    tx ∈ (n.block C cfg.params prev t).transactions ∨ .rejected tx ∈ n.ranEffects cfg.params t ∨
      n.KeepsStored tx := by
  rcases h.of_idle hp.idle with hx | hx
  · exact (mem_block_or_rejected cfg.params prev t hx).imp_right .inl
  · exact .inr (.inr hx)

/-- **One step keeps every pooled transaction, or rejects it.** -/
theorem keeps_step {m : Micro} {out : Node × List Effect} (hs : n.Step C cfg m out)
    (h : Heights n top) (hm : DropsNothing C cfg n m)
    (hx : n.Keeps tx ∨ .pooled tx ∈ out.2) : out.1.Keeps tx ∨ .rejected tx ∈ out.2 := by
  cases hs with
  | fed =>
    left
    rcases hx with (hx | hx | hx) | hx
    · exact .inl (by simp [Consensus.pushTxs, Consensus.collectPendingTxs, hx])
    · exact .inr (.inl hx)
    · exact .inr (.inr hx)
    · have hx : tx ∈ n.incomingTxs ∨ tx ∈ n.cons.txReceiver := by simpa using hx
      exact .inl (by simpa [Consensus.pushTxs, Consensus.collectPendingTxs] using .inr hx)
  | idle | submitted hok | gossiped tx | queued b | declined hp hs =>
    exact .inl (hx.resolve_right List.not_mem_nil)
  | cosigned hp hv =>
    left
    rcases hx.resolve_right List.not_mem_nil with hx | ⟨pb, hpb, hx⟩ |
      ⟨height, b, hb, hx, htip, hlt⟩
    · exact .inl hx
    · rw [hp, Option.some_inj] at hpb
      exact .inr (.inl ⟨_, rfl, hpb ▸ hx⟩)
    · refine .inr (.inr ⟨height, b, hb, hx, htip, ?_⟩)
      intro pb hpb
      cases hpb
      have hbelow := hlt _ hp
      exact hbelow
  | heardVote height round voter =>
    obtain ⟨r, v, he⟩ := receiveViewChange_eq n.cons height round voter
    exact .inl (he ▸ hx.resolve_right List.not_mem_nil)
  | discovered hadd =>
    obtain ⟨-, -, rfl⟩ := addPeer_eq hadd
    exact .inl (hx.resolve_right (by simp))
  | calledVote t t' hreq =>
    obtain ⟨r, v, rfl⟩ := requestViewChange_eq hreq
    exact .inl (hx.resolve_right (by simp))
  | finalized t t' hp hf =>
    left
    rcases hx.resolve_right (by simp) with hx | ⟨pb, hpb, hx⟩ | hx
    · exact .inl hx
    · rw [hp, Option.some_inj] at hpb
      exact .inr (.inr (.new rfl (hpb ▸ hx) rfl))
    -- The kept blocks lie below the pending one, so storing it overwrites none of them.
    · exact .inr (.inr (hx.put ⟨rfl, rfl⟩ rfl (fun _ _ hlt => hlt _ hp) (.inl rfl)))
  | discarded t hp hf ht => exact absurd ht (hm _ hp hf)
  | @applied b rest sig hp hs hr =>
    left
    obtain ⟨-, -, habove⟩ := h.signed hs
    rcases hx.resolve_right (by simp) with hx | hx | hx
    · exact .inl hx
    · exact .inr (.inl hx)
    · exact .inr (.inr (hx.put (sameChain_replayBlock b n.store) rfl
        (fun _ htip _ => UInt64.lt_of_le_of_lt (UInt64.le_trans htip h.tip) habove) (.inr rfl)))
  | @diverged b rest sig hp hs hr =>
    left
    rcases hx.resolve_right (by simp) with hx | hx | hx
    · exact .inl hx
    · exact .inr (.inl hx)
    · exact .inr (.inr (hx.of_sameChain (sameChain_replayBlock b n.store) rfl))
  -- Without a block every transaction of the pool was rejected.
  | @rejectedAll prev t t' hp hv =>
    rcases (hx.resolve_right (by simp [Node.ranEffects])).of_produces (C := C) hp with
      hx | hx | hx
    · rw [Node.block, buildBlock, hv] at hx
      cases hx
    · exact .inr hx
    · exact .inl (.inr (.inr (hx.of_sameChain (sameChain_ran _ n t) rfl)))
  | @proposed prev t t' hp hv hc hf =>
    rcases (hx.resolve_right (by simp [Node.ranEffects])).of_produces (C := C) hp with
      hx | hx | hx
    · exact .inl (.inr (.inl ⟨_, rfl, hx⟩))
    · exact .inr (List.mem_append_left _ hx)
    · have hran : (n.ran cfg.params t).KeepsStored tx :=
        hx.of_sameChain (sameChain_ran _ n t) rfl
      obtain ⟨height, b, hb, hx, htip, -⟩ := hran
      refine .inl (.inr (.inr ⟨height, b, hb, hx, htip, ?_⟩))
      intro pb hpb
      cases hpb
      rw [← (sameChain_ran cfg.params n t).getLatestHeight] at htip
      exact lt_next hm htip
  | @committed prev t t' hp hv hc hf | @solo prev t t' hp hv hc =>
    rcases (hx.resolve_right (by simp [Node.ranEffects])).of_produces (C := C) hp with
      hx | hx | hx
    · exact .inl (.inr (.inr (.new rfl hx hp.idle)))
    · exact .inr (List.mem_append_left _ hx)
    · exact .inl (.inr (.inr (hx.put (sameChain_ran _ n t) rfl
        (fun _ htip _ => lt_next hm htip) (.inl hp.idle))))

/-- A step that drops no pending block reports none. -/
theorem not_discarded_step {m : Micro} {out : Node × List Effect} (hs : n.Step C cfg m out)
    (hm : DropsNothing C cfg n m) (b : Block) (after : Node) : .discarded b after ∉ out.2 := by
  cases hs with
  | discarded t hp hf ht => exact absurd ht (hm _ hp hf)
  | _ => simp [Node.ranEffects]

end Steps

/-! ## Runs -/

/-- What the pool owes to a run: dropped blocks are undone, and every pooled transaction is
in the pool, in the pending block or in a stored block, or was rejected. -/
structure PoolAccounted (C : Crypto) (cfg : NodeConfig) (p : Process) : Prop where
  undone : DiscardsUndo C cfg.params none p.log
  held : ∀ tx, .pooled tx ∈ p.log → p.node.Holds tx ∨ .rejected tx ∈ p.log

theorem PoolAccounted.returned {p : Process} (h : PoolAccounted C cfg p) :
    ∀ d ∈ discards p.log, ∀ tx ∈ d.1.transactions, tx ∈ d.2.cons.pendingTxs :=
  h.undone.returned

/-- **The pool is accounted for** in every run that drops no pending block. -/
theorem pool_accounted {id : Id} {key : BitVec 256} {store : Store} {now : StartClock}
    {ms : List Micro} (hstart : ChainOK C (Process.start cfg id key store now).node.store)
    (h : Runs.Along (Process.micro C cfg) (fun p m => DropsNothing C cfg p.node m)
      (Process.start cfg id key store now) ms) :
    PoolAccounted C cfg
      (Runs.run (Process.micro C cfg) (Process.start cfg id key store now) ms) := by
  -- `Keeps` and not `Holds`, which a finalized block could end by overwriting another.
  let I : Process → Prop := fun p => (∃ top, Heights p.node top) ∧
    (∀ tx, .pooled tx ∈ p.log → p.node.Keeps tx ∨ .rejected tx ∈ p.log) ∧
    ∀ b after, .discarded b after ∉ p.log
  have hstep : ∀ p m, I p → DropsNothing C cfg p.node m → I (p.micro C cfg m) := by
    rintro p m ⟨⟨top, hheights⟩, hkeeps, hdrops⟩ hm
    have hs : p.node.Step C cfg m (p.node.micro C cfg m) := micro_step p.node m
    refine ⟨heights_step hs hheights hm, ?_, ?_⟩
    · intro tx hx
      have hnew : p.node.Keeps tx ∨ .pooled tx ∈ (p.node.micro C cfg m).2 →
          (p.micro C cfg m).node.Keeps tx ∨ .rejected tx ∈ (p.micro C cfg m).log := by
        intro hx
        exact (keeps_step hs hheights hm hx).imp_right (List.mem_append_right _)
      rcases List.mem_append.1 hx with hx | hx
      · rcases hkeeps tx hx with hx | hx
        · exact hnew (.inl hx)
        · exact .inr (List.mem_append_left _ hx)
      · exact hnew (.inr hx)
    · intro b after hx
      rcases List.mem_append.1 hx with hx | hx
      · exact hdrops b after hx
      · exact not_discarded_step hs hm b after hx
  have hinit : I (Process.start cfg id key store now) := by
    refine ⟨⟨_, hstart.dense, UInt64.le_refl _, fun pb hpb => by cases hpb⟩, ?_, ?_⟩
    · intro tx hx
      cases mem_log_start hx
    · intro b after hx
      cases mem_log_start hx
  obtain ⟨-, hkeeps, hdrops⟩ := Runs.inv_run hstep hinit h
  refine ⟨discardsUndo_of_none hdrops none, ?_⟩
  intro tx hx
  exact (hkeeps tx hx).imp_left Node.Keeps.holds

/-- Node 2 proposes a block, which waits for a signature and is stored with it. -/
theorem pool_accounted_toy : PoolAccounted .toy (.toy [1, 3])
    (Runs.run (Process.micro .toy (.toy [1, 3])) .toyLeader
      (microsOf [.toySubmit, .toyLate])) := by
  have hdrops : Runs.Along (Process.micro .toy (.toy [1, 3]))
      (fun p m => DropsNothing .toy (.toy [1, 3]) p.node m) .toyLeader
      (microsOf [.toySubmit, .toyLate]) := by
    decide +kernel
  unfold Process.toyLeader at hdrops ⊢
  exact pool_accounted chainOK_toyLeader hdrops

/-- Nothing arrives for eight seconds. -/
def Input.toyTimeout : Input := ⟨[], [], .at 9000⟩

/-- No signature arrives, and the block of node 2 times out: its transaction is gone. -/
theorem pool_lost : ¬ ∀ inps, PoolAccounted .toy (.toy [1, 3])
    (Runs.run (Process.iterate .toy (.toy [1, 3])) .toyLeader inps) := by
  intro h
  have hreturned := (h [.toySubmit, .toyTimeout]).returned
  revert hreturned
  decide +kernel

end RoutineChain
