import Mathlib.Data.Finset.Dedup
import Mathlib.Data.Finset.SDiff
import RoutineChain.Proof.Votes

/-!
# What the node stores is final

`is_finalized` counts unique signers. A signer that is not known is counted without a check,
so the count is right only for blocks whose signers are all known.

* A pending block has no other signers: its own signature, and those that were verified. So
  every block that a node stores as a leader is final.
* A follower stores a proposal without asking for a quorum, and a proposal comes with one
  signature: what a node stores as a follower is not final.
-/

namespace RoutineChain

variable {C : Crypto} {cfg : NodeConfig} {n : Node} {b : Block}

/-! ## Counting signers -/

namespace Consensus

variable (c : Consensus)

/-- The validators with a valid signature on a block. -/
def validSigners (C : Crypto) (b : Block) : Finset Id :=
  ((b.signatures.filter (c.verifyBlockSignature C b)).map (·.nodeId)).toFinset

/-- The signers that `is_finalized` counts. -/
def countedSigners (C : Crypto) (b : Block) : Finset Id :=
  b.signatures.foldl (c.countSigner C b.header) ∅

/-- Every signer of the block is the node itself or a peer. -/
def KnowsSigners (b : Block) : Prop := ∀ sig ∈ b.signatures, (c.signerKey sig.nodeId).isSome

variable {c}

theorem isFinalized_iff : c.isFinalized C b ↔ c.minSignatures ≤ (c.countedSigners C b).card := by
  simp [isFinalized, countedSigners]

theorem mem_validSigners {id : Id} : id ∈ c.validSigners C b ↔
    ∃ sig ∈ b.signatures, sig.nodeId = id ∧ c.verifyBlockSignature C b sig := by
  simp only [validSigners, List.mem_toFinset, List.mem_map, List.mem_filter]
  constructor
  · rintro ⟨sig, ⟨hm, hv⟩, rfl⟩
    exact ⟨sig, hm, rfl, hv⟩
  · rintro ⟨sig, hm, rfl, hv⟩
    exact ⟨sig, ⟨hm, hv⟩, rfl⟩

/-- A signature adds its signer, unless it fails under a known key. -/
theorem mem_countSigner {id : Id} {S : Finset Id} (sig : NodeSignature) :
    id ∈ c.countSigner C b.header S sig ↔ id ∈ S ∨
      sig.nodeId = id ∧ (c.signerKey sig.nodeId = none ∨ c.verifyBlockSignature C b sig) := by
  unfold countSigner verifyBlockSignature
  by_cases hS : sig.nodeId ∈ S
  · rw [if_pos hS]
    refine ⟨.inl, ?_⟩
    rintro (h | ⟨rfl, -⟩)
    · exact h
    · exact hS
  rw [if_neg hS]
  cases hk : c.signerKey sig.nodeId with
  | none => simp [eq_comm, or_comm]
  | some key =>
    by_cases hv : C.verify (Bincode.serialize b.header) sig.signature key = true
    · simp [hv, eq_comm, or_comm]
    -- inserted and removed again
    · simp [hv, Finset.erase_insert hS]

theorem mem_foldl_countSigner {id : Id} (sigs : List NodeSignature) (S : Finset Id) :
    id ∈ sigs.foldl (c.countSigner C b.header) S ↔ id ∈ S ∨ ∃ sig ∈ sigs, sig.nodeId = id ∧
      (c.signerKey sig.nodeId = none ∨ c.verifyBlockSignature C b sig) := by
  induction sigs generalizing S with
  | nil => simp
  | cons sig sigs ih =>
    rw [List.foldl_cons, ih, mem_countSigner, or_assoc]
    simp only [List.exists_mem_cons_iff]

theorem mem_countedSigners {id : Id} : id ∈ c.countedSigners C b ↔ ∃ sig ∈ b.signatures,
    sig.nodeId = id ∧ (c.signerKey sig.nodeId = none ∨ c.verifyBlockSignature C b sig) := by
  unfold countedSigners
  rw [mem_foldl_countSigner]
  simp

theorem validSigners_subset : c.validSigners C b ⊆ c.countedSigners C b := by
  intro id h
  obtain ⟨sig, hm, hid, hv⟩ := mem_validSigners.1 h
  exact mem_countedSigners.2 ⟨sig, hm, hid, .inr hv⟩

/-- **With known signers only, the count is right.** -/
theorem countedSigners_eq (h : c.KnowsSigners b) : c.countedSigners C b = c.validSigners C b := by
  refine (Finset.Subset.antisymm validSigners_subset ?_).symm
  intro id hid
  obtain ⟨sig, hm, hid, hs⟩ := mem_countedSigners.1 hid
  -- only a signer without a key is counted without a check
  refine mem_validSigners.2 ⟨sig, hm, hid, hs.resolve_left ?_⟩
  intro hnone
  simpa [hnone] using h sig hm

theorem knows_own : (c.signerKey c.nodeId).isSome := by
  simp [signerKey]

theorem knows_verified {sig : NodeSignature} (h : c.verifyBlockSignature C b sig) :
    (c.signerKey sig.nodeId).isSome := by
  unfold verifyBlockSignature at h
  cases hk : c.signerKey sig.nodeId with
  | none => simp [hk] at h
  | some key => rfl

/-- A new peer changes no key. -/
theorem signerKey_addPeer {c' : Consensus} {id key : Id} {address : String}
    (h : c.addPeer id key address = (true, c')) {x k : Id} (hx : c.signerKey x = some k) :
    c'.signerKey x = some k := by
  obtain ⟨-, -, rfl⟩ := addPeer_eq h
  unfold signerKey getPeerKey at hx ⊢
  simp only at hx ⊢
  by_cases hne : x = c.nodeId
  · rwa [if_pos hne] at hx ⊢
  · rw [if_neg hne, if_neg hne, Option.map_eq_some_iff] at hx ⊢
    obtain ⟨p, hp, rfl⟩ := hx
    exact ⟨p, by rw [List.find?_append, hp, Option.some_or], rfl⟩

theorem KnowsSigners.addPeer {c' : Consensus} {id key : Id} {address : String}
    (h : c.KnowsSigners b) (hadd : c.addPeer id key address = (true, c')) :
    c'.KnowsSigners b := by
  intro sig hm
  obtain ⟨k, hk⟩ := Option.isSome_iff_exists.1 (h sig hm)
  exact Option.isSome_iff_exists.2 ⟨k, signerKey_addPeer hadd hk⟩

theorem KnowsSigners.append {sig : NodeSignature} (h : c.KnowsSigners b)
    (hv : c.verifyBlockSignature C b sig) :
    c.KnowsSigners { b with signatures := b.signatures ++ [sig] } := by
  intro sig' hm
  rcases List.mem_append.1 hm with hm | hm
  · exact h sig' hm
  · rw [List.mem_singleton.1 hm]
    exact knows_verified hv

end Consensus

/-! ## What is counted too much -/

namespace Consensus

variable (c : Consensus)

/-- The validators that have signed a block: the node itself and its peers, with an entry
that verifies under the key of each. -/
def signedValidators (C : Crypto) (b : Block) : Finset Id :=
  c.allNodeIds.toFinset.filter fun id => ∃ sig ∈ b.signatures, sig.nodeId = id ∧
    (c.signerKey id).any (C.verify (Bincode.serialize b.header) sig.signature)

/-- The ids in the signature list that are neither the node's nor a peer's. -/
def unknownSigners (b : Block) : Finset Id :=
  (b.signatures.map (·.nodeId)).toFinset \ c.allNodeIds.toFinset

variable {c}

/-- The nodes with a key are the node itself and its peers. -/
theorem signerKey_isSome {id : Id} : (c.signerKey id).isSome ↔ id ∈ c.allNodeIds := by
  rw [mem_allNodeIds]
  unfold signerKey getPeerKey
  by_cases h : id = c.nodeId
  · simp [h]
  · simp [h]

theorem signedValidators_eq : c.signedValidators C b = c.validSigners C b := by
  ext id
  rw [mem_validSigners, signedValidators, Finset.mem_filter, List.mem_toFinset, ← signerKey_isSome]
  constructor
  · rintro ⟨-, sig, hm, rfl, hv⟩
    refine ⟨sig, hm, rfl, ?_⟩
    unfold verifyBlockSignature
    cases hk : c.signerKey sig.nodeId with
    | none => simp [hk] at hv
    | some key => simpa [hk] using hv
  · rintro ⟨sig, hm, rfl, hv⟩
    refine ⟨knows_verified hv, sig, hm, rfl, ?_⟩
    unfold verifyBlockSignature at hv
    cases hk : c.signerKey sig.nodeId with
    | none => simp [hk] at hv
    | some key => simpa [hk] using hv

/-- `is_finalized` counts the validators that have signed, and every unknown signer. -/
theorem card_countedSigners : (c.countedSigners C b).card =
    (c.signedValidators C b).card + (c.unknownSigners b).card := by
  have hdisj : Disjoint (c.signedValidators C b) (c.unknownSigners b) := by
    rw [Finset.disjoint_left]
    intro id hs hu
    simp only [signedValidators, Finset.mem_filter, List.mem_toFinset] at hs
    simp only [unknownSigners, Finset.mem_sdiff, List.mem_toFinset] at hu
    exact hu.2 hs.1
  rw [← Finset.card_union_of_disjoint hdisj]
  congr 1
  ext id
  rw [mem_countedSigners, Finset.mem_union, signedValidators_eq, mem_validSigners]
  simp only [unknownSigners, Finset.mem_sdiff, List.mem_toFinset, List.mem_map]
  rw [← signerKey_isSome, Option.not_isSome_iff_eq_none]
  constructor
  · rintro ⟨sig, hm, rfl, hnone | hv⟩
    · exact .inr ⟨⟨sig, hm, rfl⟩, hnone⟩
    · exact .inl ⟨sig, hm, rfl, hv⟩
  · rintro (⟨sig, hm, rfl, hv⟩ | ⟨⟨sig, hm, rfl⟩, hnone⟩)
    · exact ⟨sig, hm, rfl, .inr hv⟩
    · exact ⟨sig, hm, rfl, .inl hnone⟩

/-- A block is finalized if and only if enough validators have signed it. -/
def CountsValidators (C : Crypto) (c : Consensus) (b : Block) : Prop :=
  c.isFinalized C b ↔ c.minSignatures ≤ (c.signedValidators C b).card

/-- **Finalization counts exactly the valid validators** if and only if the unknown signers
make no difference: the validators are enough, or too few even with them. -/
theorem countsValidators_iff : CountsValidators C c b ↔
    c.minSignatures ≤ (c.signedValidators C b).card ∨
    (c.signedValidators C b).card + (c.unknownSigners b).card < c.minSignatures := by
  unfold CountsValidators
  rw [isFinalized_iff, card_countedSigners]
  omega

/-- Node 2 takes the name of a node that it does not know for a second signature. -/
theorem countsValidators_fails : ¬ ∀ b, CountsValidators .toy Process.toyLeader.node.cons b := by
  intro h
  have hfinal := (h { Block.toyOwn with signatures := Block.toyOwn.signatures ++ [⟨9, 0⟩] }).1
    (by decide +kernel)
  revert hfinal
  decide +kernel

end Consensus

/-! ## Storing a block -/

/-- The block is final under the consensus state: enough distinct validators have signed it. -/
def Final (C : Crypto) (c : Consensus) (b : Block) : Prop :=
  c.isFinalized C b ∧ c.minSignatures ≤ (c.validSigners C b).card

instance (c : Consensus) : Decidable (Final C c b) := inferInstanceAs (Decidable (_ ∧ _))

theorem final_of_finalized {c : Consensus} (h : c.KnowsSigners b) (hf : c.isFinalized C b) :
    Final C c b :=
  ⟨hf, Consensus.countedSigners_eq (C := C) h ▸ Consensus.isFinalized_iff.1 hf⟩

theorem final_of_validSigners {c : Consensus}
    (h : c.minSignatures ≤ (c.validSigners C b).card) : Final C c b :=
  ⟨Consensus.isFinalized_iff.2 (h.trans (Finset.card_le_card Consensus.validSigners_subset)), h⟩

theorem Consensus.card_validSigners_le {c : Consensus} :
    (c.validSigners C b).card ≤ b.signatures.length := by
  unfold validSigners
  calc _ ≤ ((b.signatures.filter (c.verifyBlockSignature C b)).map (·.nodeId)).length :=
        List.toFinset_card_le _
    _ = (b.signatures.filter (c.verifyBlockSignature C b)).length := List.length_map _
    _ ≤ b.signatures.length := List.length_filter_le _ _

/-- Every signer has a signature of its own. -/
theorem Final.le_length {c : Consensus} (h : Final C c b) :
    c.minSignatures ≤ b.signatures.length :=
  h.2.trans Consensus.card_validSigners_le

/-- The step stores no proposal: the next one fails a check made before signing, or the root
check. -/
def StoresNoProposal (C : Crypto) (cfg : NodeConfig) (n : Node) : Micro → Prop
  | .handleProposal => ∀ b rest, n.proposals = b :: rest → (n.signProposal C b).isSome →
      ¬ RootAccepted C cfg.params b n.store
  | _ => True

instance (C : Crypto) (cfg : NodeConfig) (n : Node) (m : Micro) :
    Decidable (StoresNoProposal C cfg n m) := by
  unfold StoresNoProposal
  split <;> infer_instance

/-- The next proposal carries fewer signatures than `min_signatures`. -/
def FewSigned (n : Node) : Micro → Prop
  | .handleProposal => ∀ b rest, n.proposals = b :: rest →
      b.signatures.length < n.cons.minSignatures
  | _ => True

instance (n : Node) (m : Micro) : Decidable (FewSigned n m) := by
  unfold FewSigned
  split <;> infer_instance

/-- The node has peers, and knows the signers of its pending block. -/
structure NodeQuorum (n : Node) : Prop where
  peers : n.cons.peers ≠ []
  pending : ∀ pb, n.pendingBlock = some pb → n.cons.KnowsSigners pb

theorem knowsSigners_block {P : Params} {prev : Block} {t : Int64} :
    n.cons.KnowsSigners (n.block C P prev t) := by
  intro sig hm
  rw [List.mem_singleton.1 hm]
  exact Consensus.knows_own

theorem not_stored_ranEffects {P : Params} {t : Int64} {c : Consensus} :
    .stored c b ∉ n.ranEffects P t := by
  simp [Node.ranEffects]

/-- **One step stores final blocks only.** -/
theorem nodeQuorum_step {m : Micro} {out : Node × List Effect} (hs : n.Step C cfg m out)
    (h : NodeQuorum n) (hm : StoresNoProposal C cfg n m) :
    NodeQuorum out.1 ∧ ∀ c b, .stored c b ∈ out.2 → Final C c b := by
  have hkeep : ∀ r v, NodeQuorum
      { n with cons := { n.cons with round := r, viewChangeVotes := v } } := fun r v =>
    ⟨h.peers, h.pending⟩
  cases hs with
  | idle | submitted hok | gossiped tx | queued b | declined hp hs | diverged hp hs hr | fed =>
    exact ⟨⟨h.peers, h.pending⟩, by simp⟩
  | cosigned hp hv =>
    refine ⟨⟨h.peers, ?_⟩, by simp⟩
    intro pb hpb
    cases hpb
    exact (h.pending _ hp).append hv
  | heardVote height round voter =>
    obtain ⟨r, v, he⟩ := receiveViewChange_eq n.cons height round voter
    exact ⟨he ▸ hkeep r v, by simp⟩
  | discovered hadd =>
    refine ⟨⟨?_, fun pb hpb => (h.pending pb hpb).addPeer hadd⟩, by simp⟩
    obtain ⟨-, -, rfl⟩ := addPeer_eq hadd
    simp
  -- A pending block has known signers, so what `is_finalized` counts are valid signatures.
  | finalized t t' hp hf =>
    refine ⟨⟨h.peers, fun pb hpb => by cases hpb⟩, ?_⟩
    intro c b hcb
    simp only [List.mem_singleton, Effect.stored.injEq] at hcb
    obtain ⟨rfl, rfl⟩ := hcb
    exact final_of_finalized (h.pending _ hp) hf
  | discarded t hp hf ht => exact ⟨⟨h.peers, fun pb hpb => by cases hpb⟩, by simp⟩
  -- A proposal would be stored without a count.
  | @applied b' rest sig hp hs hr => exact absurd hr (hm b' rest hp (by rw [hs]; rfl))
  | calledVote t t' hreq =>
    obtain ⟨r, v, rfl⟩ := requestViewChange_eq hreq
    exact ⟨⟨h.peers, h.pending⟩, by simp⟩
  | @rejectedAll prev t t' hp hv =>
    exact ⟨⟨h.peers, h.pending⟩, fun c b hcb => absurd hcb not_stored_ranEffects⟩
  | @proposed prev t t' hp hv hc hf =>
    refine ⟨⟨h.peers, ?_⟩, by simp [not_stored_ranEffects]⟩
    intro pb hpb
    cases hpb
    have hknows : n.cons.KnowsSigners (n.block C cfg.params prev t) := knowsSigners_block
    exact hknows
  | @committed prev t t' hp hv hc hf =>
    refine ⟨⟨h.peers, h.pending⟩, ?_⟩
    intro c b hcb
    have hcb : c = (n.ran cfg.params t).cons ∧ b = n.block C cfg.params prev t := by
      simpa [not_stored_ranEffects] using hcb
    obtain ⟨rfl, rfl⟩ := hcb
    exact final_of_finalized knowsSigners_block hf
  | solo t' hp hv hc => exact absurd (List.length_eq_zero_iff.1 hc) h.peers

@[simp] theorem mem_storedBlocks {log : List Effect} {c : Consensus} :
    (c, b) ∈ storedBlocks log ↔ .stored c b ∈ log := by
  unfold storedBlocks
  rw [List.mem_filterMap]
  constructor
  · rintro ⟨e, he, hcb⟩
    cases e <;> simp [Effect.stored?] at hcb
    obtain ⟨rfl, rfl⟩ := hcb
    exact he
  · exact fun h => ⟨_, h, rfl⟩

/-- Every block was final when it was stored. -/
def StoresFinal (C : Crypto) (log : List Effect) : Prop :=
  ∀ cb ∈ storedBlocks log, Final C cb.1 cb.2

instance (log : List Effect) : Decidable (StoresFinal C log) :=
  inferInstanceAs (Decidable (∀ cb ∈ storedBlocks log, Final C cb.1 cb.2))

/-- A proposal that a node sends has the node's signature alone. -/
theorem propose_signatures {m : Micro} {out : Node × List Effect} (hs : n.Step C cfg m out)
    (h : .broadcast (.propose b) ∈ out.2) : b.signatures = [n.cons.signHeader C b.header] := by
  cases hs with
  | @proposed prev t t' hp hv hc hf | @committed prev t t' hp hv hc hf =>
    have hb : b = n.block C cfg.params prev t := by simpa [Node.ranEffects] using h
    rw [hb]
    rfl
  | rejectedAll | solo => simp [Node.ranEffects] at h
  | _ => simp at h

/-- A proposal that passes all checks is stored, with the signatures that it came with. -/
theorem stored_of_accepted {rest : List Block} (hp : n.proposals = b :: rest)
    (hsome : (n.signProposal C b).isSome) (hr : RootAccepted C cfg.params b n.store) :
    .stored n.cons b ∈ (n.micro C cfg .handleProposal).2 := by
  obtain ⟨sig, hsig⟩ := Option.isSome_iff_exists.1 hsome
  have hsame : Node.signProposal C { n with proposals := rest } b = n.signProposal C b := rfl
  show .stored n.cons b ∈ (n.nextProposal C cfg).2
  simp only [Node.nextProposal, hp, Node.handleProposal, hsame, hsig, applyBlock_accepted hr]
  simp

/-- What a process has done stays in its log. -/
theorem Process.mem_log_run {p : Process} {e : Effect} (h : e ∈ p.log) (ms : List Micro) :
    e ∈ (Runs.run (Process.micro C cfg) p ms).log :=
  Runs.inv_run (I := fun p => e ∈ p.log) (fun _ _ h _ => List.mem_append_left _ h) h
    (Runs.along_true p ms)

/-- **Of proposals with too few signatures none is stored**, if every stored block is final. -/
theorem storesNoProposal_of_final {p : Process} {ms : List Micro}
    (hfew : Runs.Along (Process.micro C cfg) (fun p m => FewSigned p.node m) p ms)
    (h : StoresFinal C (Runs.run (Process.micro C cfg) p ms).log) :
    Runs.Along (Process.micro C cfg) (fun p m => StoresNoProposal C cfg p.node m) p ms := by
  refine Runs.along_iff_prefix.2 ?_
  intro ms₁ m hpre
  have hcount := Runs.along_iff_prefix.1 hfew ms₁ m hpre
  obtain ⟨ms₂, rfl⟩ := hpre
  cases m with
  | handleProposal =>
    intro b rest hp hsome hr
    -- the step stores the proposal, and the log keeps what was stored
    have hlog : .stored _ b ∈ (Runs.run (Process.micro C cfg)
        ((Runs.run (Process.micro C cfg) p ms₁).micro C cfg .handleProposal) ms₂).log :=
      Process.mem_log_run (List.mem_append_right _ (stored_of_accepted hp hsome hr)) ms₂
    have hfinal := h _ (mem_storedBlocks.2 (by rwa [Runs.run_append, Runs.run_append]))
    exact absurd hfinal.le_length (Nat.not_le.2 (hcount b rest hp))
  | _ => trivial

/-- **A node commits finalized blocks only**, in a run in which it stores no proposal; and if
no proposal that it handles carries `min_signatures` signatures, in no other run. -/
theorem stored_final {id : Id} {key : BitVec 256} {store : Store} {now : StartClock}
    {ms : List Micro} (hpeers : cfg.peers ≠ []) :
    (Runs.Along (Process.micro C cfg) (fun p m => StoresNoProposal C cfg p.node m)
        (Process.start cfg id key store now) ms →
      StoresFinal C
        (Runs.run (Process.micro C cfg) (Process.start cfg id key store now) ms).log) ∧
    (Runs.Along (Process.micro C cfg) (fun p m => FewSigned p.node m)
        (Process.start cfg id key store now) ms →
      StoresFinal C
        (Runs.run (Process.micro C cfg) (Process.start cfg id key store now) ms).log →
      Runs.Along (Process.micro C cfg) (fun p m => StoresNoProposal C cfg p.node m)
        (Process.start cfg id key store now) ms) := by
  refine ⟨?_, storesNoProposal_of_final⟩
  intro h
  have hnode : NodeQuorum (Process.start cfg id key store now).node :=
    ⟨hpeers, fun pb hpb => by cases hpb⟩
  have hlog : ∀ cb : Consensus × Block,
      .stored cb.1 cb.2 ∈ (Process.start cfg id key store now).log → Final C cb.1 cb.2 := by
    intro cb hcb
    cases mem_log_start hcb
  have hstep : ∀ {n m out}, n.Step C cfg m out → NodeQuorum n → StoresNoProposal C cfg n m →
      NodeQuorum out.1 ∧
        ∀ cb : Consensus × Block, .stored cb.1 cb.2 ∈ out.2 → Final C cb.1 cb.2 := by
    intro n m out hs hn hm
    obtain ⟨hn', hout⟩ := nodeQuorum_step hs hn hm
    exact ⟨hn', fun cb => hout cb.1 cb.2⟩
  have hrun := Process.inv_run hstep hnode hlog h
  intro cb hcb
  exact hrun.2 cb (mem_storedBlocks.1 hcb)

/-- A block in the name of node 2, with a root that no execution gives. -/
def Input.toyForged : Input := ⟨[], [.propose .toyWrongRoot], .at 1500⟩

/-- Node 2 signs a forged proposal but does not store it, and then stores its own block with
the signature of node 1; the rival block it stores with one signature. -/
theorem stored_final_toy :
    StoresFinal .toy (Runs.run (Process.micro .toy (.toy [1, 3])) .toyLeader
      (microsOf [.toySubmit, .toyForged, .toyLate])).log ∧
    ¬ StoresFinal .toy (Runs.run (Process.micro .toy (.toy [1, 3])) .toyLeader
      (microsOf [.toySubmit, .toyRace])).log := by
  have hnone : Runs.Along (Process.micro .toy (.toy [1, 3]))
      (fun p m => StoresNoProposal .toy (.toy [1, 3]) p.node m) .toyLeader
      (microsOf [.toySubmit, .toyForged, .toyLate]) := by
    decide +kernel
  have hfew : Runs.Along (Process.micro .toy (.toy [1, 3])) (fun p m => FewSigned p.node m)
      .toyLeader (microsOf [.toySubmit, .toyRace]) := by
    decide +kernel
  have hrival : ¬ Runs.Along (Process.micro .toy (.toy [1, 3]))
      (fun p m => StoresNoProposal .toy (.toy [1, 3]) p.node m) .toyLeader
      (microsOf [.toySubmit, .toyRace]) := by
    decide +kernel
  unfold Process.toyLeader at hnone hfew hrival ⊢
  exact ⟨(stored_final (by decide)).1 hnone,
    fun hfinal => hrival ((stored_final (by decide)).2 hfew hfinal)⟩

/-- Node 2 stores the rival block with one signature. -/
theorem stored_not_final : ¬ ∀ inps, StoresFinal .toy
    (Runs.run (Process.iterate .toy (.toy [1, 3])) .toyLeader inps).log := by
  intro h
  have hall := h [.toySubmit, .toyRace]
  revert hall
  decide +kernel

end RoutineChain
