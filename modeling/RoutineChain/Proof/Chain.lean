import RoutineChain.Proof.Leader
import RoutineChain.Proof.Proposer
import RoutineChain.Proof.Signed

/-!
# The committed chain of one node

`put_block` overwrites, and moves the tip to whatever height it is given. Stored blocks
form a chain up to the tip for as long as the node stores an own block only where nothing
else is stored at its height or above.

* `ChainOK`: the blocks of a store are a chain.
* `Extends`: a later store keeps the headers, and its tip is no lower.
-/

namespace RoutineChain

variable {C : Crypto} {cfg : NodeConfig} {s s' : Store} {b : Block}

/-- A block points to the stored block below it. -/
def Linked (C : Crypto) (s : Store) (b : Block) : Prop :=
  b.header.height ≠ 0 ∧ ∃ prev, s.getBlock (b.header.height - 1) = some prev ∧
    b.header.prevHash = blockHeaderHash C prev.header

/-- The blocks of a store are a chain from height zero to the tip. -/
structure ChainOK (C : Crypto) (s : Store) : Prop where
  height : ∀ h b, s.getBlock h = some b → b.header.height = h
  dense : ∀ h, (s.getBlock h).isSome ↔ h ≤ s.getLatestHeight
  linked : ∀ h b, s.getBlock h = some b → h ≠ 0 → Linked C s b

/-- The tip is no lower, and every stored block still has its header. -/
structure Extends (s s' : Store) : Prop where
  tip : s.getLatestHeight ≤ s'.getLatestHeight
  header : ∀ h b, s.getBlock h = some b → ∃ b', s'.getBlock h = some b' ∧ b'.header = b.header

theorem Extends.refl (s : Store) : Extends s s :=
  ⟨UInt64.le_refl _, fun _ b h => ⟨b, h, rfl⟩⟩

theorem Extends.trans {s'' : Store} (h : Extends s s') (h' : Extends s' s'') :
    Extends s s'' := by
  refine ⟨UInt64.le_trans h.tip h'.tip, ?_⟩
  intro height b hb
  obtain ⟨b', hb', heq⟩ := h.header height b hb
  obtain ⟨b'', hb'', heq'⟩ := h'.header height b' hb'
  exact ⟨b'', hb'', heq'.trans heq⟩

theorem Linked.mono (h : Linked C s b) (he : Extends s s') : Linked C s' b := by
  obtain ⟨h0, prev, hprev, hlink⟩ := h
  obtain ⟨prev', hprev', heq⟩ := he.header _ _ hprev
  exact ⟨h0, prev', hprev', by rw [hlink, heq]⟩

/-- A height that can be built on is one above the height below it. -/
theorem toNat_pred {h : UInt64} (h0 : h ≠ 0) : (h - 1).toNat + 1 = h.toNat := by
  have hpos : h.toNat ≠ 0 := fun h' => h0 (UInt64.toNat_inj.1 h')
  have hle : (1 : UInt64) ≤ h := by
    rw [UInt64.le_iff_toNat_le]
    exact Nat.one_le_iff_ne_zero.2 hpos
  rw [UInt64.toNat_sub_of_le _ _ hle]
  exact Nat.succ_pred hpos

theorem toNat_succ {h : UInt64} (h0 : h + 1 ≠ 0) : (h + 1).toNat = h.toNat + 1 := by
  rw [← toNat_pred h0, UInt64.add_sub_cancel]

theorem lt_next {top h : UInt64} (h0 : top + 1 ≠ 0) (hle : h ≤ top) : h < top + 1 := by
  have hsucc := toNat_succ h0
  rw [UInt64.le_iff_toNat_le] at hle
  rw [UInt64.lt_iff_toNat_lt]
  omega

/-- **Storing a linked block keeps the chain**, if what is stored at its height or above has
the same header. -/
theorem ChainOK.putBlock (hs : ChainOK C s) (hl : Linked C s b)
    (hfree : ∀ h b', b.header.height ≤ h → s.getBlock h = some b' → b'.header = b.header) :
    ChainOK C (s.putBlock b) ∧ Extends s (s.putBlock b) := by
  obtain ⟨h0, prev, hprev, hlink⟩ := hl
  have hpred := toNat_pred h0
  have hlow : b.header.height - 1 ≤ s.getLatestHeight :=
    (hs.dense _).1 (by rw [hprev]; rfl)
  -- Were the tip above `b`, the top block would have its height.
  have htip : s.getLatestHeight ≤ b.header.height := by
    by_contra hlt
    rw [UInt64.not_le] at hlt
    obtain ⟨top, htop⟩ := Option.isSome_iff_exists.1 ((hs.dense _).2 (UInt64.le_refl _))
    have heq := hfree _ top (UInt64.le_of_lt hlt) htop
    rw [← hs.height _ _ htop, heq] at hlt
    exact absurd hlt (UInt64.lt_irrefl _)
  have hext : Extends s (s.putBlock b) := by
    refine ⟨htip, ?_⟩
    intro h b' hb'
    rw [Store.getBlock_putBlock]
    split
    case isTrue heq => exact ⟨b, rfl, (hfree h b' (heq ▸ UInt64.le_refl _) hb').symm⟩
    case isFalse => exact ⟨b', hb', rfl⟩
  refine ⟨⟨?_, ?_, ?_⟩, hext⟩
  · intro h b' hb'
    rw [Store.getBlock_putBlock] at hb'
    split at hb'
    case isTrue heq =>
      cases hb'
      exact heq
    case isFalse => exact hs.height h b' hb'
  -- `b` goes at the tip or right above it, so there is no gap.
  · intro h
    rw [Store.getBlock_putBlock, Store.putBlock_latest]
    split
    case isTrue heq => simp [heq]
    case isFalse hne =>
      rw [hs.dense h]
      rw [← UInt64.toNat_inj] at hne
      simp only [UInt64.le_iff_toNat_le] at hlow htip ⊢
      omega
  · intro h b' hb' hne
    rw [Store.getBlock_putBlock] at hb'
    split at hb'
    case isTrue heq =>
      cases hb'
      obtain ⟨prev', hprev', heq'⟩ := hext.header _ _ hprev
      exact ⟨h0, prev', hprev', by rw [hlink, heq']⟩
    case isFalse => exact (hs.linked h b' hb' hne).mono hext

/-- Nothing is stored above the tip. -/
theorem ChainOK.above (hs : ChainOK C s) {h : UInt64} (hlt : s.getLatestHeight < h) :
    s.getBlock h = none := by
  rw [← Option.not_isSome_iff_eq_none, hs.dense, UInt64.not_le]
  exact hlt

/-! ## Executing transactions leaves the chain alone -/

/-- Two stores hold the same blocks and the same tip. -/
def Store.SameChain (s s' : Store) : Prop :=
  s.blocks = s'.blocks ∧ s.latestHeight = s'.latestHeight

theorem Store.SameChain.getBlock (h : s.SameChain s') : s.getBlock = s'.getBlock := by
  funext height
  unfold Store.getBlock
  rw [h.1]

theorem Store.SameChain.getLatestHeight (h : s.SameChain s') :
    s.getLatestHeight = s'.getLatestHeight := by
  unfold Store.getLatestHeight
  rw [h.2]

theorem ChainOK.of_sameChain (hs : ChainOK C s) (h : s.SameChain s') : ChainOK C s' := by
  obtain ⟨hheight, hdense, hlinked⟩ := hs
  unfold Linked at hlinked
  rw [h.getBlock] at hheight hdense hlinked
  rw [h.getLatestHeight] at hdense
  exact ⟨hheight, hdense, hlinked⟩

theorem Extends.of_sameChain (h : s.SameChain s') : Extends s s' := by
  refine ⟨h.getLatestHeight ▸ UInt64.le_refl _, fun height b hb => ⟨b, ?_, rfl⟩⟩
  rwa [← h.getBlock]

theorem sameChain_replay {P : Params} {t : Int64} (txs : List Transaction) (st : Replay) :
    st.store.SameChain (txs.foldl (applyTx C P t) st).store := by
  induction txs generalizing st with
  | nil => exact ⟨rfl, rfl⟩
  | cons tx txs ih =>
    obtain ⟨hblocks, hlatest⟩ := ih (applyTx C P t st tx)
    rw [applyTx_store] at hblocks hlatest
    rw [List.foldl_cons, Store.SameChain, ← hblocks, ← hlatest]
    split <;> simp

theorem sameChain_replayBlock {P : Params} (b : Block) (s : Store) :
    s.SameChain (replayBlock C P b s).store :=
  sameChain_replay b.transactions { store := s }

theorem sameChain_runAll {P : Params} {t : Int64} (txs : List Transaction) (s : Store) :
    s.SameChain (runAll P t s txs) := by
  induction txs generalizing s with
  | nil => exact ⟨rfl, rfl⟩
  | cons tx txs ih =>
    obtain ⟨hblocks, hlatest⟩ := ih (EStateM.after (execute P tx t) s)
    rw [runAll_cons, Store.SameChain, ← hblocks, ← hlatest]
    simp

theorem sameChain_ran (P : Params) (n : Node) (t : Int64) :
    n.store.SameChain (n.ran P t).store := by
  unfold Node.ran
  rw [leaderExecute_store]
  exact sameChain_runAll _ _

/-! ## Voting on a proposal -/

/-- What a follower has checked when it signs a proposal. -/
structure Votable (C : Crypto) (n : Node) (b : Block) : Prop where
  free : n.store.getBlock b.header.height = none
  linked : Linked C n.store b
  proposer : n.cons.isValidProposer b
  /-- The first signature verifies, if it is a known peer's. -/
  signed : ∃ sig, b.signatures.head? = some sig ∧
    ∀ key, n.cons.getPeerKey sig.nodeId = some key →
      C.verify (Bincode.serialize b.header) sig.signature key
  txHash : computeTxHash C b.transactions = b.header.txHash

theorem signProposal_spec {n : Node} {sig : NodeSignature}
    (h : n.signProposal C b = some sig) :
    Votable C n b ∧ sig = n.cons.signHeader C b.header := by
  unfold Node.signProposal at h
  simp only at h
  split at h
  case isTrue => cases h
  case isFalse hgen =>
  split at h
  case isTrue => cases h
  case isFalse hfree =>
  split at h
  case h_2 => cases h
  case h_1 prev hprev =>
  -- The guards are past; what is left are the checks of `verify_and_sign`.
  have h0 : b.header.height ≠ 0 := by simpa [Block.isGenesis] using hgen
  obtain ⟨hver, hsig⟩ := verifyAndSign_eq_some.1 h
  exact ⟨⟨Option.not_isSome_iff_eq_none.1 hfree, ⟨h0, prev, hprev, hver.prevHash⟩, hver.proposer,
    hver.signed, hver.txHash⟩, hsig⟩

/-! ## The invariant of a node -/

/-- The node stores a chain, and its pending block is linked to it. -/
structure NodeChain (C : Crypto) (n : Node) : Prop where
  chain : ChainOK C n.store
  pending : ∀ pb, n.pendingBlock = some pb → Linked C n.store pb

/-- The step does not overwrite: a pending block is finalized only if no other block is
stored at its height or above, and a block is built only while the next height is not zero. -/
def NoOverwrite (C : Crypto) (n : Node) : Micro → Prop
  | .finalize _ _ => ∀ pb, n.pendingBlock = some pb → n.cons.isFinalized C pb →
      ∀ h b, pb.header.height ≤ h → n.store.getBlock h = some b → b.header = pb.header
  | .produce _ _ => n.store.getLatestHeight + 1 ≠ 0
  | _ => True

section Steps

variable {n : Node}

theorem Votable.not_stored (hv : Votable C n b) (hs : ChainOK C n.store) :
    ∀ h b', b.header.height ≤ h → n.store.getBlock h = some b' → b'.header = b.header := by
  intro h b' hle hb'
  have htip : n.store.getLatestHeight < b.header.height := by
    rw [← UInt64.not_le, ← hs.dense, hv.free]
    exact Bool.false_ne_true
  rw [hs.above (UInt64.lt_of_lt_of_le htip hle)] at hb'
  cases hb'

theorem Node.Produces.linked {P : Params} {prev : Block} {t : Int64} (hp : n.Produces P prev t)
    (h0 : n.store.getLatestHeight + 1 ≠ 0) : Linked C n.store (n.block C P prev t) :=
  ⟨h0, prev, hp.prev, rfl⟩

theorem ChainOK.not_stored_next (hs : ChainOK C s) (h0 : s.getLatestHeight + 1 ≠ 0) :
    ∀ h, s.getLatestHeight + 1 ≤ h → s.getBlock h = none := by
  intro h hle
  exact hs.above (UInt64.lt_of_lt_of_le (lt_next h0 (UInt64.le_refl _)) hle)

/-- A pending block above the tip overwrites nothing. -/
theorem noOverwrite_finalize (hs : ChainOK C n.store)
    (hpb : ∀ pb, n.pendingBlock = some pb → n.store.getLatestHeight < pb.header.height)
    (t t' : Int64) : NoOverwrite C n (.finalize t t') := by
  intro pb hp _ h b hle hb
  rw [hs.above (UInt64.lt_of_lt_of_le (hpb pb hp) hle)] at hb
  cases hb

theorem NodeChain.of_sameChain {n' : Node} (h : NodeChain C n)
    (hs : n.store.SameChain n'.store) (hp : n'.pendingBlock = n.pendingBlock) :
    NodeChain C n' := by
  refine ⟨h.chain.of_sameChain hs, ?_⟩
  intro pb hpb
  rw [hp] at hpb
  exact (h.pending pb hpb).mono (.of_sameChain hs)

/-- A linked block is stored after transactions have run. -/
theorem ChainOK.store (hs : ChainOK C s) (hsame : s.SameChain s') (hl : Linked C s b)
    (hfree : ∀ h b', b.header.height ≤ h → s.getBlock h = some b' → b'.header = b.header) :
    ChainOK C (s'.putBlock b) ∧ Extends s (s'.putBlock b) := by
  have hput := (hs.of_sameChain hsame).putBlock (hl.mono (.of_sameChain hsame))
    (hsame.getBlock ▸ hfree)
  exact ⟨hput.1, (Extends.of_sameChain hsame).trans hput.2⟩

theorem Node.Produces.store {prev : Block} {t : Int64} (hp : n.Produces cfg.params prev t)
    (h : NodeChain C n) (h0 : n.store.getLatestHeight + 1 ≠ 0) :
    ChainOK C ((n.ran cfg.params t).store.putBlock (n.block C cfg.params prev t)) ∧
      Extends n.store ((n.ran cfg.params t).store.putBlock (n.block C cfg.params prev t)) := by
  refine h.chain.store (sameChain_ran _ n t) (hp.linked h0) ?_
  intro height b' hle hb'
  rw [h.chain.not_stored_next h0 height hle] at hb'
  cases hb'

/-- **A step that does not overwrite keeps the chain and extends the store.** -/
theorem nodeChain_step {m : Micro} {out : Node × List Effect} (hs : n.Step C cfg m out)
    (h : NodeChain C n) (hm : NoOverwrite C n m) :
    NodeChain C out.1 ∧ Extends n.store out.1.store := by
  cases hs with
  | idle | submitted hok | gossiped tx | queued b | heardVote height round voter
  | discovered hadd | declined hp hs | fed | calledVote t t' hreq =>
    exact ⟨⟨h.chain, h.pending⟩, .refl _⟩
  -- A signature more leaves the header as it is.
  | cosigned hp hv =>
    refine ⟨⟨h.chain, ?_⟩, .refl _⟩
    intro pb hpb
    cases hpb
    have hlinked := h.pending _ hp
    exact hlinked
  | finalized t t' hp hf =>
    obtain ⟨hchain, hext⟩ := h.chain.putBlock (h.pending _ hp) (hm _ hp hf)
    exact ⟨⟨hchain, fun pb hpb => by cases hpb⟩, hext⟩
  | discarded t hp hf ht => exact ⟨⟨h.chain, fun pb hpb => by cases hpb⟩, .refl _⟩
  -- A signed proposal has a free height, and everything from there on is free too.
  | applied hp hs hr =>
    obtain ⟨hv, -⟩ := signProposal_spec hs
    obtain ⟨hchain, hext⟩ := ChainOK.store h.chain (sameChain_replayBlock _ _)
      hv.linked (hv.not_stored h.chain)
    exact ⟨⟨hchain, fun pb hpb => (h.pending pb hpb).mono hext⟩, hext⟩
  | @diverged b rest sig hp hs hr =>
    have hsame := sameChain_replayBlock (C := C) (P := cfg.params) b n.store
    exact ⟨h.of_sameChain hsame rfl, .of_sameChain hsame⟩
  | @rejectedAll prev t t' hp hv =>
    have hsame := sameChain_ran cfg.params n t
    exact ⟨h.of_sameChain hsame rfl, .of_sameChain hsame⟩
  | @proposed prev t t' hp hv hc hf =>
    have hext := Extends.of_sameChain (sameChain_ran cfg.params n t)
    refine ⟨⟨h.chain.of_sameChain (sameChain_ran _ n t), ?_⟩, hext⟩
    intro pb hpb
    cases hpb
    exact (hp.linked hm).mono hext
  | @committed prev t t' hp hv hc hf | @solo prev t t' hp hv hc =>
    obtain ⟨hchain, hext⟩ := hp.store h hm
    exact ⟨⟨hchain, fun pb hpb => absurd hpb hp.not_pending⟩, hext⟩

end Steps

/-! ## Runs -/

section Run

variable {id : Id} {key : BitVec 256} {store : Store} {now : StartClock} {ms ms' : List Micro}

theorem nodeChain_start (h : ChainOK C (Process.start cfg id key store now).node.store) :
    NodeChain C (Process.start cfg id key store now).node :=
  ⟨h, fun pb hpb => by cases hpb⟩

theorem nodeChain_run {p : Process} (hp : NodeChain C p.node)
    (h : Runs.Along (Process.micro C cfg) (fun p m => NoOverwrite C p.node m) p ms) :
    NodeChain C (Runs.run (Process.micro C cfg) p ms).node ∧
      Extends p.node.store (Runs.run (Process.micro C cfg) p ms).node.store := by
  let I : Process → Prop := fun p' => NodeChain C p'.node ∧ Extends p.node.store p'.node.store
  have hstep : ∀ p' m, I p' → NoOverwrite C p'.node m → I (p'.micro C cfg m) := by
    rintro p' m ⟨hchain, hext⟩ hm
    obtain ⟨hchain', hext'⟩ := nodeChain_step (micro_step p'.node m) hchain hm
    exact ⟨hchain', hext.trans hext'⟩
  exact Runs.inv_run hstep (show I p from ⟨hp, .refl _⟩) h

/-- The chain at two moments: the tip is no lower, stored headers stay, and at every height
from one up to the tip there is a block that points to the block below it. -/
structure ChainKept (C : Crypto) (s s' : Store) : Prop extends Extends s s' where
  linked : ∀ h, 1 ≤ h → h ≤ s.getLatestHeight → ∃ b prev, s.getBlock h = some b ∧
    b.header.height = h ∧ s.getBlock (h - 1) = some prev ∧
    b.header.prevHash = blockHeaderHash C prev.header

/-- **The committed chain.** A run that never overwrites keeps it between any two moments. -/
theorem chain_kept (hstart : ChainOK C (Process.start cfg id key store now).node.store)
    (h : Runs.Along (Process.micro C cfg) (fun p m => NoOverwrite C p.node m)
      (Process.start cfg id key store now) (ms ++ ms')) :
    ChainKept C
      (Runs.run (Process.micro C cfg) (Process.start cfg id key store now) ms).node.store
      (Runs.run (Process.micro C cfg) (Process.start cfg id key store now)
        (ms ++ ms')).node.store := by
  obtain ⟨h₁, h₂⟩ := Runs.along_append.1 h
  -- The first moment gives the chain, the steps from there to the second the extension.
  have hms := (nodeChain_run (nodeChain_start hstart) h₁).1
  have hext := (nodeChain_run hms h₂).2
  rw [← Runs.run_append] at hext
  refine ⟨hext, ?_⟩
  intro height h1 hle
  obtain ⟨b, hb⟩ := Option.isSome_iff_exists.1 ((hms.chain.dense height).2 hle)
  have h0 : height ≠ 0 := by
    rintro rfl
    exact absurd h1 (by decide)
  obtain ⟨-, prev, hprev, hlink⟩ := hms.chain.linked height b hb h0
  rw [hms.chain.height height b hb] at hprev
  exact ⟨b, prev, hb, hms.chain.height height b hb, hprev, hlink⟩

end Run

/-- A genesis block alone is a chain. -/
theorem chainOK_genesis (t : Int64) (proposer : Id) :
    ChainOK C (Store.empty.putBlock (.genesis t proposer)) := by
  have hempty : ∀ h, Store.empty.getBlock h = none := fun h => by
    simp [Store.getBlock, Store.empty]
  have hget : ∀ h, (Store.empty.putBlock (.genesis t proposer)).getBlock h =
      if h = 0 then some (.genesis t proposer) else none := by
    intro h
    rw [Store.getBlock_putBlock, hempty]
    simp only [Block.genesis, eq_comm]
  refine ⟨?_, ?_, ?_⟩
  · intro h b hb
    rw [hget] at hb
    split at hb <;> simp at hb
    case isTrue heq => rw [← hb, heq]; rfl
  · intro h
    rw [hget, Store.putBlock_latest]
    split
    case isTrue heq => simp [heq, Block.genesis]
    case isFalse hne =>
      simp only [Block.genesis, Option.isSome_none, Bool.false_eq_true, false_iff]
      exact fun hle => hne (UInt64.le_antisymm hle (UInt64.zero_le))
  · intro h b hb h0
    rw [hget, if_neg h0] at hb
    cases hb

/-! ## Two blocks of height 1 -/

/-- Node 2 leads height 1. A registration reaches it, and it proposes a block. -/
def Input.toySubmit : Input := ⟨[], [.submitTx .toyRegister], .at 1000⟩

theorem Input.toySubmit_micros : microsOf [.toySubmit] =
    [.recv (.submitTx .toyRegister), .finalize 1000 1000, .feed, .viewChange 1000 1000,
      .produce 1000 1000] := rfl

/-- The block that node 2 proposes. -/
def Block.toyOwn : Block :=
  (Process.toyLeader.iterate .toy (.toy [1, 3]) .toySubmit).node.pendingBlock.getD (.genesis 0 0)

/-- The block that node 3 proposes in round 1, after the votes of nodes 1 and 2. -/
def Block.toyRival : Block :=
  (Process.iterate .toy (.toy [1, 2]) (.start (.toy [1, 2]) 3 3 .toyGenesis ⟨0, 0⟩)
    ⟨[], [.viewChange 1 1 1, .viewChange 1 1 2, .submitTx .toyRegister], .at 1000⟩
    ).node.pendingBlock.getD (.genesis 0 0)

/-- The view change reaches node 2 with the rival block, while its own is pending. -/
def Input.toyRace : Input :=
  ⟨[], [.viewChange 1 1 1, .viewChange 1 1 3, .propose .toyRival], .at 1500⟩

/-- Node 1 has signed the block of node 2, and its signature arrives late. -/
def Input.toyLate : Input :=
  ⟨[], [.sign 1 ⟨1, Crypto.toy.sign (Bincode.serialize Block.toyOwn.header) 1⟩], .at 2000⟩

theorem chainOK_toyLeader : ChainOK .toy Process.toyLeader.node.store := by
  have hstore : Process.toyLeader.node.store = Store.toyGenesis := by
    have hgen : (Store.toyGenesis.getBlock 0).isNone = false := by decide +kernel
    simp only [Process.toyLeader, Process.start, startNode, hgen]
    rfl
  rw [hstore]
  exact chainOK_genesis 0 1

/-- The signature arrives. -/
def Micro.toyCosign : Micro :=
  .recv (.sign 1 ⟨1, Crypto.toy.sign (Bincode.serialize Block.toyOwn.header) 1⟩)

/-- Node 2 proposes a block and stores it with the signature of node 1: it overwrites nothing. -/
theorem noOverwrite_toyLate : Runs.Along (Process.micro .toy (.toy [1, 3]))
    (fun p m => NoOverwrite .toy p.node m) .toyLeader
    (microsOf [.toySubmit] ++ microsOf [.toyLate]) := by
  have hcosigned : Runs.Along (Process.micro .toy (.toy [1, 3]))
      (fun p m => NoOverwrite .toy p.node m) .toyLeader
      (microsOf [.toySubmit] ++ [.toyCosign]) := by
    rw [Input.toySubmit_micros]
    simp only [Runs.along_append, Runs.along_cons, Runs.along_nil, NoOverwrite]
    exact ⟨⟨trivial, (fun pb hpb => by cases hpb), trivial, trivial, by decide +kernel, trivial⟩,
      trivial, trivial⟩
  have hsplit : microsOf [.toySubmit] ++ microsOf [.toyLate] =
      microsOf [.toySubmit] ++ [.toyCosign] ++
        [.finalize 2000 2000, .feed, .viewChange 2000 2000, .produce 2000 2000] := rfl
  have hstart : NodeChain .toy Process.toyLeader.node :=
    ⟨chainOK_toyLeader, fun pb hpb => by cases hpb⟩
  have hchain := (nodeChain_run hstart hcosigned).1.chain
  have habove : (Runs.run (Process.micro .toy (.toy [1, 3])) .toyLeader
        (microsOf [.toySubmit] ++ [.toyCosign])).node.pendingBlock.all fun pb =>
      (Runs.run (Process.micro .toy (.toy [1, 3])) .toyLeader
        (microsOf [.toySubmit] ++ [.toyCosign])).node.store.getLatestHeight < pb.header.height := by
    decide +kernel
  have hnext : (Runs.run (Process.micro .toy (.toy [1, 3]))
      (Runs.run (Process.micro .toy (.toy [1, 3])) .toyLeader
        (microsOf [.toySubmit] ++ [.toyCosign]))
      [.finalize 2000 2000, .feed, .viewChange 2000 2000]).node.store.getLatestHeight + 1 ≠ 0 := by
    decide +kernel
  rw [hsplit]
  refine Runs.along_append.2 ⟨hcosigned, noOverwrite_finalize hchain ?_ _ _, trivial, trivial,
    hnext, trivial⟩
  intro pb hpb
  rw [hpb] at habove
  simpa using habove

/-- Node 2 stores what it has proposed, and overwrites nothing. -/
theorem chain_kept_toy : ChainKept .toy
    (Runs.run (Process.micro .toy (.toy [1, 3])) .toyLeader
      (microsOf [.toySubmit])).node.store
    (Runs.run (Process.micro .toy (.toy [1, 3])) .toyLeader
      (microsOf [.toySubmit] ++ microsOf [.toyLate])).node.store := by
  have hrun := noOverwrite_toyLate
  unfold Process.toyLeader at hrun ⊢
  exact chain_kept chainOK_toyLeader hrun

/-- **A late signature overwrites the rival block.** -/
theorem chain_overwritten : ¬ ∀ inps inps', ChainKept .toy
    (Runs.run (Process.iterate .toy (.toy [1, 3])) .toyLeader inps).node.store
    (Runs.run (Process.iterate .toy (.toy [1, 3])) .toyLeader (inps ++ inps')).node.store := by
  intro h
  have hrival : (((Runs.run (Process.iterate .toy (.toy [1, 3])) .toyLeader
      [.toySubmit, .toyRace]).node.store.getBlock 1).map (·.header)) =
        some Block.toyRival.header := by
    decide +kernel
  have hown : (((Runs.run (Process.iterate .toy (.toy [1, 3])) .toyLeader
      [.toySubmit, .toyRace, .toyLate]).node.store.getBlock 1).map (·.header)) =
        some Block.toyOwn.header := by
    decide +kernel
  have hne : Block.toyRival.header ≠ Block.toyOwn.header := by decide +kernel
  obtain ⟨b, hb, hbr⟩ := Option.map_eq_some_iff.1 hrival
  obtain ⟨b', hb', heq⟩ := (h [.toySubmit, .toyRace] [.toyLate]).header 1 b hb
  rw [List.cons_append, List.cons_append, List.nil_append] at hb'
  rw [hb', Option.map_some, heq, hbr, Option.some_inj] at hown
  exact hne hown

end RoutineChain
