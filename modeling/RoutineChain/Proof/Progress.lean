import RoutineChain.Proof.Voter

/-!
# A pending block goes through

* `pending_step_kept`: while the leader does not give up, its pending block keeps what it is and
  the signatures that it has, or it is stored with them.
* `pending_finalized`: once enough validators have been heard, in any order and between any
  other messages, the next look at the pending block stores it.
-/

namespace RoutineChain

variable {C : Crypto} {cfg : NodeConfig} {n : Node} {m : Micro} {out : Node × List Effect}
  {pb b : Block}

/-- The same block, with the same signatures or more. -/
structure Block.Gains (b b' : Block) : Prop where
  header : b'.header = b.header
  transactions : b'.transactions = b.transactions
  signatures : b.signatures ⊆ b'.signatures

theorem Block.Gains.refl (b : Block) : b.Gains b := ⟨rfl, rfl, List.Subset.refl _⟩

theorem Block.Gains.trans {b' b'' : Block} (h : b.Gains b') (h' : b'.Gains b'') : b.Gains b'' :=
  ⟨h'.header.trans h.header, h'.transactions.trans h.transactions,
    List.Subset.trans h.signatures h'.signatures⟩

theorem Block.Gains.cosigned (b : Block) (sig : NodeSignature) :
    b.Gains { b with signatures := b.signatures ++ [sig] } :=
  ⟨rfl, rfl, List.subset_append_left _ _⟩

/-- The same validator with at least the same keys. -/
structure Consensus.Knows (c c' : Consensus) : Prop extends c.SameValidator c' where
  key : ∀ id k, c.signerKey id = some k → c'.signerKey id = some k

theorem Consensus.Knows.refl (c : Consensus) : c.Knows c :=
  { nodeId := rfl, privateKey := rfl, minSignatures := rfl, key := fun _ _ h => h }

theorem Consensus.Knows.trans {c c' c'' : Consensus} (h : c.Knows c') (h' : c'.Knows c'') :
    c.Knows c'' :=
  { nodeId := h'.nodeId.trans h.nodeId
    privateKey := h'.privateKey.trans h.privateKey
    minSignatures := h'.minSignatures.trans h.minSignatures
    key := fun id k hk => h'.key id k (h.key id k hk) }

/-- A signature that verifies goes on to verify, on every block with the header. -/
theorem Consensus.Knows.verifies {c c' : Consensus} {sig : NodeSignature} (h : c.Knows c')
    (hb : b.header = pb.header) (hv : c.verifyBlockSignature C pb sig) :
    c'.verifyBlockSignature C b sig := by
  unfold Consensus.verifyBlockSignature at hv ⊢
  cases hk : c.signerKey sig.nodeId with
  | none => simp [hk] at hv
  | some key =>
    rw [h.key _ _ hk, hb]
    simpa [hk] using hv

theorem knows_step (hs : n.Step C cfg m out) : n.cons.Knows out.1.cons := by
  obtain ⟨hsame, new, hpeers, -⟩ := cons_step hs
  refine { hsame with key := ?_ }
  intro id k hk
  unfold Consensus.signerKey Consensus.getPeerKey at hk ⊢
  rw [hsame.nodeId, hpeers]
  by_cases hid : id = n.cons.nodeId
  · rwa [if_pos hid] at hk ⊢
  · rw [if_neg hid, if_neg hid, Option.map_eq_some_iff] at hk ⊢
    obtain ⟨p, hp, rfl⟩ := hk
    exact ⟨p, by rw [List.find?_append, hp, Option.some_or], rfl⟩

/-- The step does not give the pending block up. -/
def NotDropped (C : Crypto) (cfg : NodeConfig) (n : Node) : Micro → Prop
  | .finalize _ t => ∀ pb, n.pendingBlock = some pb → n.cons.isFinalized C pb ∨
      ¬ timedOut cfg t pb
  | _ => True

/-- The block is pending, or the step has stored it. -/
def Gained (pb : Block) (n : Node) (es : List Effect) : Prop :=
  (∃ b, n.pendingBlock = some b ∧ pb.Gains b) ∨ ∃ c b, .stored c b ∈ es ∧ pb.Gains b

/-- **One step keeps the pending block**, or it stores it. -/
theorem pending_step_kept (hs : n.Step C cfg m out) (hp : n.pendingBlock = some pb)
    (hm : NotDropped C cfg n m) : Gained pb out.1 out.2 := by
  cases hs with
  | @cosigned pb' sig hp' hv =>
    rw [hp] at hp'
    cases hp'
    exact .inl ⟨_, rfl, .cosigned pb sig⟩
  | finalized t t' hp' hf =>
    rw [hp] at hp'
    cases hp'
    exact .inr ⟨n.cons, pb, List.mem_singleton_self _, .refl pb⟩
  | discarded t hp' hf ht =>
    rcases hm _ hp' with hf' | ht'
    · exact absurd hf' hf
    · exact absurd ht ht'
  | rejectedAll _ hp' _ | proposed _ hp' _ _ _ | committed _ hp' _ _ _ | solo _ hp' _ _ =>
    exact absurd hp hp'.not_pending
  | _ => exact .inl ⟨pb, hp, .refl pb⟩

section Run

variable {ms : List Micro}

/-- The node of a process goes on from `n`, with the block pending or stored. -/
structure Process.Awaits (n : Node) (pb : Block) (p : Process) : Prop where
  knows : n.cons.Knows p.node.cons
  gained : Gained pb p.node p.log

theorem awaits_step {p : Process} (h : p.Awaits n pb) (hm : NotDropped C cfg p.node m) :
    (p.micro C cfg m).Awaits n pb := by
  have hs : p.node.Step C cfg m (p.node.micro C cfg m) := micro_step p.node m
  refine ⟨h.knows.trans (knows_step hs), ?_⟩
  unfold Process.micro
  rcases h.gained with ⟨b, hb, hg⟩ | ⟨c, b, hmem, hg⟩
  · rcases pending_step_kept hs hb hm with ⟨b', hb', hg'⟩ | ⟨c, b', hmem, hg'⟩
    · exact .inl ⟨b', hb', hg.trans hg'⟩
    · exact .inr ⟨c, b', List.mem_append_right _ hmem, hg.trans hg'⟩
  · exact .inr ⟨c, b, List.mem_append_left _ hmem, hg⟩

theorem awaits_run {p : Process} (h : p.Awaits n pb)
    (hrun : Runs.Along (Process.micro C cfg) (fun p m => NotDropped C cfg p.node m) p ms) :
    (Runs.run (Process.micro C cfg) p ms).Awaits n pb :=
  Runs.inv_run (I := fun p => p.Awaits n pb) (fun _ _ hp hm => awaits_step hp hm) h hrun

/-- The process has stored the block. -/
def Process.Stored (p : Process) (pb : Block) : Prop := ∃ c b, .stored c b ∈ p.log ∧ pb.Gains b

theorem Process.Stored.run {p : Process} (h : p.Stored pb) (ms : List Micro) :
    (Runs.run (Process.micro C cfg) p ms).Stored pb := by
  refine Runs.inv_run (I := fun p => p.Stored pb) ?_ h (Runs.along_true p ms)
  rintro p m ⟨c, b, hmem, hg⟩ _
  exact ⟨c, b, List.mem_append_left _ hmem, hg⟩

/-- A signature that verifies is added to the pending block. -/
theorem recv_sign {sig : NodeSignature} {height : UInt64} (hpeers : cfg.peers ≠ [])
    (hp : n.pendingBlock = some b) (hheight : b.header.height = height)
    (hv : n.cons.verifyBlockSignature C b sig) :
    n.recv C cfg (.sign height sig) =
      ({ n with pendingBlock := some { b with signatures := b.signatures ++ [sig] } }, []) := by
  unfold Node.recv
  rw [if_neg (mt List.length_eq_zero_iff.1 hpeers)]
  simp [hp, hheight, hv]

/-- **A signature that is heard stays**: it is on the pending block, or the block has been
stored. -/
theorem signature_kept {p : Process} {sig : NodeSignature} (hpeers : cfg.peers ≠ [])
    (h : p.Awaits n pb) (hv : n.cons.verifyBlockSignature C pb sig)
    (hsig : .recv (.sign pb.header.height sig) ∈ ms)
    (hrun : Runs.Along (Process.micro C cfg) (fun p m => NotDropped C cfg p.node m) p ms) :
    (∃ b, (Runs.run (Process.micro C cfg) p ms).node.pendingBlock = some b ∧
      sig ∈ b.signatures) ∨
    (Runs.run (Process.micro C cfg) p ms).Stored pb := by
  obtain ⟨ms₁, ms₂, rfl⟩ := List.append_of_mem hsig
  obtain ⟨hrun₁, hm, hrun₂⟩ := Runs.along_append.1 hrun
  have hmid := awaits_run h hrun₁
  rw [Runs.run_append, Runs.run_cons]
  generalize Runs.run (Process.micro C cfg) p ms₁ = q at hmid hm hrun₂ ⊢
  have hnext := awaits_step hmid hm
  rcases hmid.gained with ⟨b, hb, hg⟩ | ⟨c, b, hmem, hg⟩
  -- It is heard while the block is pending, and from then on it is on the block.
  · have hrecv := recv_sign hpeers hb (congrArg (·.height) hg.header)
      (hmid.knows.verifies hg.header hv)
    have hawaits : (q.micro C cfg (.recv (.sign pb.header.height sig))).Awaits n
        { b with signatures := b.signatures ++ [sig] } := by
      refine ⟨hnext.knows, .inl ⟨{ b with signatures := b.signatures ++ [sig] }, ?_, .refl _⟩⟩
      exact congrArg (·.1.pendingBlock) hrecv
    rcases (awaits_run hawaits hrun₂).gained with ⟨b', hb', hg'⟩ | ⟨c, b', hmem, hg'⟩
    · exact .inl ⟨b', hb', hg'.signatures (by simp)⟩
    · exact .inr ⟨c, b', hmem, hg.trans ((Block.Gains.cosigned b sig).trans hg')⟩
  · have hstored : (q.micro C cfg (.recv (.sign pb.header.height sig))).Stored pb :=
      ⟨c, b, List.mem_append_left _ hmem, hg⟩
    exact .inr (hstored.run ms₂)

/-- The validators of `V` have been heard, each with a signature that verifies. -/
def Heard (C : Crypto) (c : Consensus) (pb : Block) (V : Finset Id) (ms : List Micro) : Prop :=
  ∀ id ∈ V, ∃ sig : NodeSignature, .recv (.sign pb.header.height sig) ∈ ms ∧ sig.nodeId = id ∧
    c.verifyBlockSignature C pb sig

/-- **A pending block is stored once enough validators have been heard**: in any run, with any
other messages between the signatures, in which the leader does not give up. -/
theorem pending_finalized {V : Finset Id} {t t' : Int64} (hpeers : cfg.peers ≠ [])
    (hp : n.pendingBlock = some pb)
    (henough : n.cons.minSignatures ≤ (n.cons.validSigners C pb ∪ V).card)
    (hheard : Heard C n.cons pb V ms)
    (hrun : Runs.Along (Process.micro C cfg) (fun p m => NotDropped C cfg p.node m)
      { node := n, log := [] } ms) :
    (Runs.run (Process.micro C cfg) { node := n, log := [] } (ms ++ [.finalize t t'])).Stored
      pb := by
  have hstart : Process.Awaits n pb { node := n, log := [] } :=
    ⟨.refl _, .inl ⟨pb, hp, .refl pb⟩⟩
  have hend := awaits_run hstart hrun
  rw [Runs.run_append, Runs.run_cons, Runs.run_nil]
  have hkept : ∀ sig : NodeSignature, n.cons.verifyBlockSignature C pb sig →
      .recv (.sign pb.header.height sig) ∈ ms → _ :=
    fun _ hv hsig => signature_kept hpeers hstart hv hsig hrun
  generalize Runs.run (Process.micro C cfg) { node := n, log := [] } ms = q at hend hkept ⊢
  by_cases hstored : q.Stored pb
  · exact hstored.run [.finalize t t']
  -- The block is still pending, with a signature of each that was heard.
  obtain ⟨b, hb, hg⟩ := hend.gained.resolve_right hstored
  have hsigners : n.cons.validSigners C pb ∪ V ⊆ q.node.cons.validSigners C b := by
    intro id hid
    rcases Finset.mem_union.1 hid with hid | hid
    · obtain ⟨sig, hmem, heq, hv⟩ := Consensus.mem_validSigners.1 hid
      exact Consensus.mem_validSigners.2
        ⟨sig, hg.signatures hmem, heq, hend.knows.verifies hg.header hv⟩
    · obtain ⟨sig, hsig, heq, hv⟩ := hheard id hid
      obtain ⟨b', hb', hmem⟩ := (hkept sig hv hsig).resolve_right hstored
      rw [hb, Option.some_inj] at hb'
      subst hb'
      exact Consensus.mem_validSigners.2 ⟨sig, hmem, heq, hend.knows.verifies hg.header hv⟩
  have hfinal : q.node.cons.isFinalized C b := by
    refine (final_of_validSigners ?_).1
    rw [hend.knows.minSignatures]
    exact henough.trans (Finset.card_le_card hsigners)
  refine ⟨q.node.cons, b, List.mem_append_right _ ?_, hg⟩
  simp [Node.micro, Node.finalize, hb, hfinal]

end Run

/-- Node 2 waits for signatures. -/
def Node.toyPending : Node := (Process.toyLeader.iterate .toy (.toy [1, 3]) .toySubmit).node

/-- The signature of node 1. -/
def NodeSignature.toyOne : NodeSignature :=
  ⟨1, Crypto.toy.sign (Bincode.serialize Block.toyOwn.header) 1⟩

/-- A vote of node 3, and the signature of node 1. -/
def toyHeard : List Micro := [.recv (.viewChange 1 1 3), .recv (.sign 1 .toyOne)]

/-- The block of node 2 is stored once node 1 is heard. -/
theorem pending_finalized_toy : (Runs.run (Process.micro .toy (.toy [1, 3]))
    { node := .toyPending, log := [] } (toyHeard ++ [.finalize 2000 2000])).Stored .toyOwn := by
  have hpending : Node.toyPending.pendingBlock = some .toyOwn := by decide +kernel
  have henough : Node.toyPending.cons.minSignatures ≤
      (Node.toyPending.cons.validSigners .toy .toyOwn ∪ {1}).card := by decide +kernel
  refine pending_finalized (V := {1}) (by decide) hpending henough ?_ ⟨trivial, trivial, trivial⟩
  intro id hid
  rw [Finset.mem_singleton.1 hid]
  refine ⟨.toyOne, ?_, rfl, by decide +kernel⟩
  rw [show Block.toyOwn.header.height = 1 by decide +kernel]
  exact .tail _ (.head _)

end RoutineChain
