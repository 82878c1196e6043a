import Mathlib.Data.Fin.VecNotation
import RoutineChain.Proof.Voter

/-!
# Agreement

Nodes that follow the code, over a network that loses, delays, duplicates and reorders
messages. Two quorums of more than half of the nodes share a node, which votes once per
height: so it is enough that every held block gets a quorum of votes, sooner or later.

* `Voter`: what holds of one node, given who has voted for what, and who does in the end.
* `agreement`: while nodes keep their votes, and every proposal that a follower stores is signed
  by a quorum in the end, no two nodes hold different blocks at one height.
-/

namespace RoutineChain

open Quorum

variable {C : Crypto} {k : ℕ} {cfg : Fin k → NodeConfig} {ids : Fin k → Id}
  {keys : Fin k → BitVec 256} {g : BlockHeader}

/-- Node `i` has signed a header. -/
def Net.Voted (net : Net k) (i : Fin k) (H : BlockHeader) : Prop :=
  H ∈ signedHeaders (net i).log

/-- No signature of the run passes for one on another header of the run. -/
def Net.Unforged (C : Crypto) (ids : Fin k → Id) (keys : Fin k → BitVec 256) (net : Net k) :
    Prop :=
  ∀ i j, ∀ H ∈ signedHeaders (net i).log, ∀ H' ∈ signedHeaders (net j).log,
    C.verify (Bincode.serialize H) (C.sign (Bincode.serialize H') (keys j)) (ids j) → H = H'

instance (net : Net k) : Decidable (net.Unforged C ids keys) :=
  inferInstanceAs (Decidable (∀ i j, ∀ H ∈ signedHeaders (net i).log,
    ∀ H' ∈ signedHeaders (net j).log,
    C.verify (Bincode.serialize H) (C.sign (Bincode.serialize H') (keys j)) (ids j) → H = H'))

/-- A proposal is stored only if a quorum has signed it in the end, when the network is `final`.
What the follower stores may be signed by others after it. -/
def Net.QuorumSigns (C : Crypto) (cfg : Fin k → NodeConfig) (final net : Net k) :
    Fin k × Micro → Prop
  | (i, .handleProposal) => ∀ b rest, (net i).node.proposals = b :: rest →
      ((net i).node.signProposal C b).isSome →
      RootAccepted C (cfg i).params b (net i).node.store →
      Certified final.Voted (net i).node.cons.minSignatures b.header
  | _ => True

/-- The steps after which every held block still has a quorum of votes, now or in the end. -/
def Net.CommitsSafely (C : Crypto) (cfg : Fin k → NodeConfig) (final net : Net k)
    (a : Fin k × Micro) : Prop :=
  VotesSafely C (cfg a.1) (net a.1) a.2 ∧ Net.QuorumSigns C cfg final net a

/-- What holds of node `i`, when the nodes have voted as `V` says, and in the end as `F`. -/
structure Voter (C : Crypto) (ids : Fin k → Id) (keys : Fin k → BitVec 256) (g : BlockHeader)
    (V F : Fin k → BlockHeader → Prop) (i : Fin k) (p : Process) : Prop extends
    ProcessVotes C p where
  nodeId : p.node.cons.nodeId = ids i
  privateKey : p.node.cons.privateKey = keys i
  majority : k < 2 * p.node.cons.minSignatures
  alone : p.node.cons.peers = [] → p.node.cons.minSignatures ≤ 1
  peers : ∀ peer ∈ p.node.cons.peers, peer.publicKey = peer.id
  authentic : ∀ msg ∈ sentMessages p.log, p.node.cons.Authentic C p.log msg
  pending : ∀ pb, p.node.pendingBlock = some pb → V i pb.header ∧
    ∀ sig ∈ pb.signatures, ∃ j, ids j = sig.nodeId ∧ V j pb.header
  genesis : ∃ b, p.node.store.getBlock 0 = some b ∧ b.header = g
  held : ∀ h b, p.node.store.getBlock h = some b → h ≠ 0 →
    Certified V p.node.cons.minSignatures b.header ∨
      Certified F p.node.cons.minSignatures b.header

theorem Voter.mono {V V' F : Fin k → BlockHeader → Prop} {i : Fin k} {p : Process}
    (h : Voter C ids keys g V F i p) (hV : ∀ j H, V j H → V' j H) :
    Voter C ids keys g V' F i p := by
  refine { h with pending := ?_, held := ?_ }
  · intro pb hpb
    obtain ⟨hown, hsigs⟩ := h.pending pb hpb
    refine ⟨hV _ _ hown, ?_⟩
    intro sig hm
    obtain ⟨j, hj, hv⟩ := hsigs sig hm
    exact ⟨j, hj, hV _ _ hv⟩
  · intro height b hb h0
    exact (h.held height b hb h0).imp_left fun hcert => hcert.mono hV

/-- What a node holds has a quorum in the end. -/
theorem Voter.final {V F : Fin k → BlockHeader → Prop} {i : Fin k} {p : Process}
    (h : Voter C ids keys g V F i p) (hV : ∀ j H, V j H → F j H) {height : UInt64} {b : Block}
    (hb : p.node.store.getBlock height = some b) (h0 : height ≠ 0) :
    Certified F p.node.cons.minSignatures b.header :=
  (h.held height b hb h0).elim (fun hcert => hcert.mono hV) id

/-! ## One step -/

/-- The counted signers of a block are voters, if its signatures come from voters. -/
theorem certified_of_finalized {W : Type*} [Fintype W] {names : W → Id}
    {V : W → BlockHeader → Prop} {c : Consensus} {b : Block}
    (hsigs : ∀ sig ∈ b.signatures, ∃ j, names j = sig.nodeId ∧ V j b.header)
    (hf : c.isFinalized C b) : Certified V c.minSignatures b.header := by
  refine certified_of_names names (Consensus.isFinalized_iff.1 hf) ?_
  intro id hid
  obtain ⟨sig, hm, rfl, -⟩ := Consensus.mem_countedSigners.1 hid
  exact hsigs sig hm

/-- Where a peer's id is its key, a signature is checked under the id of its signer. -/
theorem verify_of_verifyBlockSignature {c : Consensus} {b : Block} {sig : NodeSignature}
    (hpeers : ∀ peer ∈ c.peers, peer.publicKey = peer.id) (hv : c.verifyBlockSignature C b sig) :
    C.verify (Bincode.serialize b.header) sig.signature sig.nodeId := by
  unfold Consensus.verifyBlockSignature Consensus.signerKey Consensus.getPeerKey at hv
  by_cases hown : sig.nodeId = c.nodeId
  · rw [if_pos hown, ← hown] at hv
    exact hv
  · rw [if_neg hown, if_neg hown] at hv
    cases hp : c.peers.find? (·.id == sig.nodeId) with
    | none => simp [hp] at hv
    | some peer =>
      have hid : peer.id = sig.nodeId := by simpa using List.find?_some hp
      rw [hp, Option.map_some, hpeers peer (List.mem_of_find?_eq_some hp), hid] at hv
      exact hv

section Step

variable {net final : Net k} {i : Fin k} {m : Micro}

/-- Only the node that takes the step changes. -/
theorem Net.micro_self : net.micro C cfg (i, m) i = (net i).micro C (cfg i) m :=
  Function.update_self ..

/-- Nothing that a node has done is undone. -/
theorem Net.log_micro (a : Fin k × Micro) (j : Fin k) :
    (net j).log ⊆ (net.micro C cfg a j).log := by
  obtain ⟨i, m⟩ := a
  by_cases hj : j = i
  · subst hj
    rw [Net.micro_self]
    exact List.subset_append_left _ _
  · rw [show net.micro C cfg (i, m) j = net j from Function.update_of_ne hj ..]
    exact List.Subset.refl _

theorem Net.voted_micro (a : Fin k × Micro) {j : Fin k} {H : BlockHeader} (h : net.Voted j H) :
    (net.micro C cfg a).Voted j H :=
  mem_signedHeaders.2 (Net.log_micro a j (mem_signedHeaders.1 h))

theorem Net.voted_of_signed {H : BlockHeader}
    (hH : H ∈ signedHeaders ((net i).node.micro C (cfg i) m).2) :
    (net.micro C cfg (i, m)).Voted i H := by
  unfold Net.Voted
  rw [Net.micro_self, mem_signedHeaders] at *
  exact List.mem_append_right _ hH

/-- A signature that is delivered is one of the voters', on what it has signed. -/
theorem delivered_sign (hall : ∀ j, Voter C ids keys g net.Voted final.Voted j (net j))
    {height : UInt64} {sig : NodeSignature} (hd : net.Deliverable (.sign height sig)) :
    ∃ j, ∃ H ∈ signedHeaders (net j).log, sig = ⟨ids j, C.sign (Bincode.serialize H) (keys j)⟩ := by
  obtain ⟨j, hj⟩ := hd
  obtain ⟨H, hH, hsig⟩ := (hall j).authentic _ hj
  refine ⟨j, H, hH, ?_⟩
  rw [hsig, Consensus.signHeader, (hall j).nodeId, (hall j).privateKey]

/-- **A signature that the node adds to its pending block is a vote for it.** -/
theorem cosigner_voted (hall : ∀ j, Voter C ids keys g net.Voted final.Voted j (net j))
    (hu : net.Unforged C ids keys) {pb : Block} {sig : NodeSignature}
    (hpb : (net i).node.pendingBlock = some pb)
    (hd : net.Deliverable (.sign pb.header.height sig))
    (hv : (net i).node.cons.verifyBlockSignature C pb sig) :
    ∃ j, ids j = sig.nodeId ∧ net.Voted j pb.header := by
  obtain ⟨j, H, hH, rfl⟩ := delivered_sign hall hd
  have hver := verify_of_verifyBlockSignature (hall i).peers hv
  have heq := hu i j pb.header ((hall i).pending pb hpb).1 H hH hver
  exact ⟨j, rfl, heq ▸ hH⟩

/-- **A block that the step stores has a quorum of votes.** -/
theorem commit_certified (hall : ∀ j, Voter C ids keys g net.Voted final.Voted j (net j))
    (hs : Net.CommitsSafely C cfg final net (i, m)) {b : Block}
    (hb : (net i).node.Commits C m ((net i).node.micro C (cfg i) m).2 b) :
    Certified (net.micro C cfg (i, m)).Voted (net i).node.cons.minSignatures b.header ∨
      Certified final.Voted (net i).node.cons.minSignatures b.header := by
  cases hb with
  | pending hp hf =>
    left
    exact (certified_of_finalized ((hall i).pending b hp).2 hf).mono fun _ _ hv =>
      Net.voted_micro (i, m) hv
  -- The quorum that signs the proposal, maybe later than this node.
  | proposal hm hp hsome hsigned =>
    subst hm
    right
    exact hs.2 b _ hp hsome (hs.1.2 b _ hp hsome).1
  | own hsigned hown hf =>
    left
    have hvoted := Net.voted_of_signed hsigned
    rcases hf with hf | hnil
    · have hsigs : ∀ sig ∈ b.signatures, ∃ j, ids j = sig.nodeId ∧
          (net.micro C cfg (i, m)).Voted j b.header := by
        intro sig hm
        refine ⟨i, ?_, hvoted⟩
        rw [hown sig hm, (hall i).nodeId]
      exact certified_of_finalized hsigs hf
    · exact certified_one hvoted ((hall i).alone hnil)

/-- **One step keeps what holds of the node that takes it.** -/
theorem voter_step (hall : ∀ j, Voter C ids keys g net.Voted final.Voted j (net j))
    (hd : net.Delivers (i, m)) (hu : net.Unforged C ids keys)
    (hs : Net.CommitsSafely C cfg final net (i, m)) :
    Voter C ids keys g (net.micro C cfg (i, m)).Voted final.Voted i
      ((net i).micro C (cfg i) m) := by
  have hstep : (net i).node.Step C (cfg i) m ((net i).node.micro C (cfg i) m) :=
    micro_step (net i).node m
  have hi : Voter C ids keys g (net.micro C cfg (i, m)).Voted final.Voted i (net i) :=
    (hall i).mono fun _ _ => Net.voted_micro (i, m)
  obtain ⟨hsame, new, hpeers, hnew⟩ := cons_step hstep
  refine
    { processVotes_step (hall i).toProcessVotes hs.1 with
      nodeId := hsame.nodeId.trans hi.nodeId
      privateKey := hsame.privateKey.trans hi.privateKey
      majority := hsame.minSignatures ▸ hi.majority
      alone := fun hnil => ?alone
      peers := fun peer hp => ?peers
      authentic := fun msg hmsg => ?authentic
      pending := fun b hb => ?pending
      genesis := ?genesis
      held := fun h b hb h0 => ?held }
  case alone =>
    rw [show ((net i).micro C (cfg i) m).node.cons.minSignatures = _ from hsame.minSignatures]
    exact hi.alone (List.append_eq_nil_iff.1 (hpeers.symm.trans hnil)).1
  case peers =>
    rcases List.mem_append.1 (hpeers ▸ hp) with hp | hp
    · exact hi.peers peer hp
    -- Its handshake comes from one of the nodes, and these say that the key is the id.
    · obtain ⟨address, rfl⟩ := hnew peer hp
      obtain ⟨j, hj⟩ := hd
      exact (hall j).authentic _ hj
  case authentic =>
    rw [Process.micro, sentMessages_append] at hmsg
    rcases List.mem_append.1 hmsg with hmsg | hmsg
    · exact (hi.authentic msg hmsg).mono hsame (List.subset_append_left _ _)
    · exact (authentic_step hstep msg hmsg).mono hsame (List.subset_append_right _ _)
  case pending =>
    rcases pending_step hstep hb with hb | ⟨pb, sig, hpb, rfl, hv, rfl⟩ | ⟨hsigned, hown⟩
    · exact hi.pending b hb
    · obtain ⟨hown, hsigs⟩ := hi.pending pb hpb
      refine ⟨hown, ?_⟩
      intro sig' hm
      rcases List.mem_append.1 hm with hm | hm
      · exact hsigs sig' hm
      -- The signature verifies on this header, so its signer has voted for this one.
      · rw [List.mem_singleton.1 hm]
        obtain ⟨j, hj, hvote⟩ := cosigner_voted hall hu hpb hd hv
        exact ⟨j, hj, Net.voted_micro _ hvote⟩
    · have hvoted := Net.voted_of_signed hsigned
      refine ⟨hvoted, fun sig hm => ⟨i, ?_, hvoted⟩⟩
      rw [hown sig hm, hi.nodeId]
  case genesis =>
    obtain ⟨b, hb, hg⟩ := hi.genesis
    obtain ⟨-, hext⟩ := nodeChain_step hstep hi.node.toNodeChain hs.1.1
    obtain ⟨b', hb', heq⟩ := hext.header 0 b hb
    exact ⟨b', hb', heq.trans hg⟩
  case held =>
    rw [show ((net i).micro C (cfg i) m).node.cons.minSignatures = _ from hsame.minSignatures]
    rcases held_step hstep hb with hb | hcommit
    · exact hi.held h b hb h0
    · exact commit_certified hall hs hcommit

/-- **One step keeps what holds of every node.** -/
theorem voters_step {a : Fin k × Micro}
    (hall : ∀ j, Voter C ids keys g net.Voted final.Voted j (net j)) (hd : net.Delivers a)
    (hu : net.Unforged C ids keys) (hs : Net.CommitsSafely C cfg final net a) :
    ∀ j, Voter C ids keys g (net.micro C cfg a).Voted final.Voted j (net.micro C cfg a j) := by
  intro j
  obtain ⟨i, m⟩ := a
  by_cases hj : j = i
  · subst hj
    rw [Net.micro_self]
    exact voter_step hall hd hu hs
  · have hkeep : net.micro C cfg (i, m) j = net j := Function.update_of_ne hj ..
    rw [hkeep]
    exact (hall j).mono fun _ _ => Net.voted_micro (i, m)

end Step

/-! ## Runs -/

theorem Net.Deliverable.micro {net : Net k} {msg : ConsensusMessage} (h : net.Deliverable msg)
    (a : Fin k × Micro) : (net.micro C cfg a).Deliverable msg := by
  have hsent : ∀ {msg}, (∃ j, msg ∈ sentMessages (net j).log) →
      ∃ j, msg ∈ sentMessages (net.micro C cfg a j).log := by
    rintro msg ⟨j, hj⟩
    exact ⟨j, List.filterMap_subset _ (Net.log_micro a j) hj⟩
  cases msg with
  | submitTx tx => trivial
  | requestTxs => trivial
  | _ => exact hsent h

theorem Net.Deliverable.step {net : Net k} {msg : ConsensusMessage} (h : net.Deliverable msg)
    (a : Fin k × Input) : (net.step C cfg a).Deliverable msg := by
  rw [Net.step_eq]
  exact Runs.inv_run (I := fun net => net.Deliverable msg) (fun _ am hnet _ => hnet.micro am) h
    (Runs.along_true net _)

/-- No block of the first network disagrees with one of the second at its height. -/
def Net.Agrees (net net' : Net k) : Prop :=
  ∀ i j h b b', (net i).node.store.getBlock h = some b →
    (net' j).node.store.getBlock h = some b' → b.header = b'.header

theorem Net.voted_run {net : Net k} (as : List (Fin k × Micro)) {i : Fin k} {H : BlockHeader}
    (h : net.Voted i H) : (Runs.run (Net.micro C cfg) net as).Voted i H :=
  Runs.inv_run (I := fun net => net.Voted i H) (fun _ a hv _ => Net.voted_micro a hv) h
    (Runs.along_true net as)

/-- Who has voted has voted later on. -/
theorem Net.voted_append {net : Net k} (as as' : List (Fin k × Micro)) (i : Fin k)
    (H : BlockHeader) (h : (Runs.run (Net.micro C cfg) net as).Voted i H) :
    (Runs.run (Net.micro C cfg) net (as ++ as')).Voted i H := by
  rw [Runs.run_append]
  exact Net.voted_run as' h

/-- Nodes agree on what quorums of them have voted for in the end, if they vote once. -/
theorem voters_agree {net net' final : Net k}
    (hall : ∀ j, Voter C ids keys g net.Voted final.Voted j (net j))
    (hall' : ∀ j, Voter C ids keys g net'.Voted final.Voted j (net' j))
    (honce : VotesOnce final.Voted BlockHeader.height)
    (hvoted : ∀ j H, net.Voted j H → final.Voted j H)
    (hvoted' : ∀ j H, net'.Voted j H → final.Voted j H) : net.Agrees net' := by
  intro i j h b b' hb hb'
  by_cases h0 : h = 0
  · subst h0
    obtain ⟨b₀, hb₀, hg⟩ := (hall i).genesis
    obtain ⟨b₀', hb₀', hg'⟩ := (hall' j).genesis
    rw [hb₀, Option.some_inj] at hb
    rw [hb₀', Option.some_inj] at hb'
    rw [← hb, ← hb', hg, hg']
  · have hcert := (hall i).final hvoted hb h0
    have hcert' := (hall' j).final hvoted' hb' h0
    refine hcert.unique honce hcert' ?_ ?_
    · have hq := (hall i).majority
      have hq' := (hall' j).majority
      rw [Fintype.card_fin]
      omega
    · rw [(hall i).node.chain.height h b hb, (hall' j).node.chain.height h b' hb']

/-- The nodes start on one genesis block, under keys that are their ids, and each asks for
signatures of more than half of them. -/
structure Net.Setup (C : Crypto) (cfg : Fin k → NodeConfig) (ids : Fin k → Id)
    (keys : Fin k → BitVec 256) (stores : Fin k → Store) (now : Fin k → StartClock) (g : Block) :
    Prop where
  chain : ∀ i, ChainOK C (stores i)
  tip : ∀ i, (stores i).getLatestHeight = 0
  genesis : ∀ i, (stores i).getBlock 0 = some g
  peers : ∀ i, ∀ peer ∈ (cfg i).peers, peer.publicKey = peer.id
  majority : ∀ i, k < 2 * (Net.start cfg ids keys stores now i).node.cons.minSignatures

section Run

variable {stores : Fin k → Store} {now : Fin k → StartClock} {b : Block}

theorem voters_start (h : Net.Setup C cfg ids keys stores now b) (i : Fin k)
    (V F : Fin k → BlockHeader → Prop) :
    Voter C ids keys b.header V F i (Net.start cfg ids keys stores now i) := by
  have hstore : (Net.start cfg ids keys stores now i).node.store = stores i := by
    simp [Net.start, Process.start, startNode, h.genesis i]
  have hchain : ChainOK C (Net.start cfg ids keys stores now i).node.store := by
    rw [hstore]
    exact h.chain i
  refine
    { processVotes_start hchain with
      nodeId := rfl
      privateKey := rfl
      majority := h.majority i
      alone := fun hnil => ?_
      peers := h.peers i
      authentic := fun msg hmsg => ?_
      pending := fun pb hpb => by cases hpb
      genesis := ⟨b, hstore ▸ h.genesis i, rfl⟩
      held := fun height b' hb' h0 => ?_ }
  · have hnil : (cfg i).peers = [] := hnil
    simp [Net.start, Process.start, startNode, Consensus.new, hnil]
  · obtain ⟨e, he, hmsg⟩ := mem_sentMessages.1 hmsg
    rw [mem_log_start he] at hmsg
    cases hmsg
    rfl
  -- Nothing above the genesis block is held yet.
  · have hle := ((h.chain i).dense height).1 (by rw [← hstore, hb']; rfl)
    rw [h.tip i] at hle
    exact absurd (UInt64.le_antisymm hle UInt64.zero_le) h0

/-- **Agreement.** In a run that commits safely, no two nodes hold blocks with different
headers at one height, at any two moments up to its end. -/
theorem agreement {as as' as'' : List (Fin k × Micro)} {final : Net k}
    (h : Net.Setup C cfg ids keys stores now b)
    (hend : Runs.run (Net.micro C cfg) (.start cfg ids keys stores now) (as ++ as' ++ as'') = final)
    (hdelivers : Runs.Along (Net.micro C cfg) Net.Delivers
      (.start cfg ids keys stores now) (as ++ as' ++ as''))
    (hunforged : Runs.Along (Net.micro C cfg) (fun net _ => net.Unforged C ids keys)
      (.start cfg ids keys stores now) (as ++ as' ++ as''))
    (hsafe : Runs.Along (Net.micro C cfg) (Net.CommitsSafely C cfg final)
      (.start cfg ids keys stores now) (as ++ as' ++ as'')) :
    Net.Agrees (Runs.run (Net.micro C cfg) (.start cfg ids keys stores now) as)
      (Runs.run (Net.micro C cfg) (.start cfg ids keys stores now) (as ++ as')) := by
  -- All three moments are ends of runs, each of a part of the last one.
  have hrun : ∀ l, l <+: as ++ as' ++ as'' → ∀ j, Voter C ids keys b.header
      (Runs.run (Net.micro C cfg) (.start cfg ids keys stores now) l).Voted final.Voted j
      (Runs.run (Net.micro C cfg) (.start cfg ids keys stores now) l j) := by
    intro l hl
    exact Runs.inv_run
      (I := fun net => ∀ j, Voter C ids keys b.header net.Voted final.Voted j (net j))
      (fun net a hall ha => voters_step hall ha.1 ha.2.1 ha.2.2) (fun j => voters_start h j _ _)
      ((hdelivers.and (hunforged.and hsafe)).initial hl)
  have hlast := hrun _ (List.prefix_refl _)
  rw [hend] at hlast
  have hfirst : as <+: as ++ as' ++ as'' := by
    rw [List.append_assoc]
    exact List.prefix_append _ _
  refine voters_agree (hrun as hfirst) (hrun _ (List.prefix_append _ _)) ?_ ?_ ?_
  · intro v H H' hH hH'
    exact (hlast v).unique H hH H' hH'
  · intro j H hH
    rw [← hend, List.append_assoc]
    exact Net.voted_append as _ j H hH
  · intro j H hH
    rw [← hend]
    exact Net.voted_append _ as'' j H hH

end Run

/-! ## Two blocks of height 1 on two nodes -/

/-- Three nodes, each with the other two as peers. -/
def NodeConfig.toyNet : Fin 3 → NodeConfig := ![.toy [2, 3], .toy [1, 3], .toy [1, 2]]

/-- The nodes 1, 2 and 3 as they start, under the indices 0, 1 and 2. -/
abbrev Net.toy : Net 3 :=
  .start NodeConfig.toyNet ![1, 2, 3] ![1, 2, 3] (fun _ => .toyGenesis) (fun _ => ⟨0, 0⟩)

theorem Net.setup_toy : Net.Setup .toy NodeConfig.toyNet ![1, 2, 3] ![1, 2, 3]
    (fun _ => .toyGenesis) (fun _ => ⟨0, 0⟩) (.genesis 0 1) where
  chain _ := chainOK_genesis 0 1
  tip _ := rfl
  genesis _ := by decide +kernel
  peers := by decide +kernel
  majority := by decide +kernel

/-- A proposal that is handled with nothing pending, and that enough nodes sign. -/
theorem commitsSafely_handleProposal {net final : Net k} {i : Fin k} {b : Block}
    (hp : (net i).node.proposals = [b]) (hidle : (net i).node.pendingBlock = none)
    (hroot : RootAccepted C (cfg i).params b (net i).node.store) (S : Finset (Fin k))
    (hS : ∀ j ∈ S, b.header ∈ signedHeaders (final j).log)
    (hcard : (net i).node.cons.minSignatures ≤ S.card) :
    Net.CommitsSafely C cfg final net (i, .handleProposal) := by
  refine ⟨⟨trivial, ?_⟩, ?_⟩
  · intro b' rest hp' hs
    rw [hp, List.cons.injEq] at hp'
    rw [← hp'.1]
    exact ⟨hroot, fun pb hpb => by rw [hidle] at hpb; cases hpb⟩
  · intro b' rest hp' hs hr
    rw [hp, List.cons.injEq] at hp'
    rw [← hp'.1]
    exact ⟨S, hcard, hS⟩

/-- Four nodes that know each other and ask for three signatures. -/
def NodeConfig.toyFour : Fin 4 → NodeConfig :=
  ![{ NodeConfig.toy [2, 3, 4] with minSignatures := 3 },
    { NodeConfig.toy [1, 3, 4] with minSignatures := 3 },
    { NodeConfig.toy [1, 2, 4] with minSignatures := 3 },
    { NodeConfig.toy [1, 2, 3] with minSignatures := 3 }]

/-- The nodes 1 to 4 as they start. -/
abbrev Net.toyFour : Net 4 :=
  .start NodeConfig.toyFour ![1, 2, 3, 4] ![1, 2, 3, 4] (fun _ => .toyGenesis) (fun _ => ⟨0, 0⟩)

theorem Net.setup_toyFour : Net.Setup .toy NodeConfig.toyFour ![1, 2, 3, 4] ![1, 2, 3, 4]
    (fun _ => .toyGenesis) (fun _ => ⟨0, 0⟩) (.genesis 0 1) where
  chain _ := chainOK_genesis 0 1
  tip _ := rfl
  genesis _ := by decide +kernel
  peers := by decide +kernel
  majority := by decide +kernel

/-- The leader proposes a block, and the first follower stores it. -/
def Net.toyProposes (leader first : Fin 4) : List (Fin 4 × Micro) :=
  [(leader, .recv (.submitTx .toyRegister)), (leader, .feed), (leader, .produce 1000 1000),
    (first, .recv (.propose .toyOwn)), (first, .handleProposal)]

/-- Another follower stores the block. -/
def Net.toyFollows (follower : Fin 4) : List (Fin 4 × Micro) :=
  [(follower, .recv (.propose .toyOwn)), (follower, .handleProposal)]

/-- Node 2 proposes a block; node 1 stores it, then node 3, and then node 4. -/
theorem commitsSafely_toyFour {final : Net 4}
    (hend : Runs.run (Net.micro .toy NodeConfig.toyFour) .toyFour
      (Net.toyProposes 1 0 ++ Net.toyFollows 2 ++ Net.toyFollows 3) = final) :
    Runs.Along (Net.micro .toy NodeConfig.toyFour)
      (Net.CommitsSafely .toy NodeConfig.toyFour final) .toyFour
      (Net.toyProposes 1 0 ++ Net.toyFollows 2 ++ Net.toyFollows 3) := by
  have hsigned : ∀ j ∈ ({0, 1, 2} : Finset (Fin 4)),
      Block.toyOwn.header ∈ signedHeaders (final j).log := by
    rw [← hend]
    decide +kernel
  unfold Net.toyFour
  simp only [Net.toyProposes, Net.toyFollows, List.cons_append, List.nil_append, Runs.along_cons,
    Runs.along_nil, and_true]
  have hquiet : ∀ net : Net 4, ∀ i msg,
      Net.CommitsSafely .toy NodeConfig.toyFour final net (i, .recv msg) :=
    fun _ _ _ => ⟨⟨trivial, trivial⟩, trivial⟩
  refine ⟨hquiet _ _ _, ⟨⟨trivial, trivial⟩, trivial⟩, ⟨⟨?_, trivial⟩, trivial⟩, hquiet _ _ _, ?_,
    hquiet _ _ _, ?_, hquiet _ _ _, ?_⟩
  · unfold NoOverwrite
    decide +kernel
  all_goals
    exact commitsSafely_handleProposal (b := .toyOwn) (by decide +kernel) (by decide +kernel)
      (by decide +kernel) {0, 1, 2} hsigned (by decide +kernel)

theorem delivers_toyFour : Runs.Along (Net.micro .toy NodeConfig.toyFour) Net.Delivers .toyFour
    (Net.toyProposes 1 0 ++ Net.toyFollows 2 ++ Net.toyFollows 3) := by
  decide +kernel

theorem unforged_toyFour : Runs.Along (Net.micro .toy NodeConfig.toyFour)
    (fun net _ => net.Unforged .toy ![1, 2, 3, 4] ![1, 2, 3, 4]) .toyFour
    (Net.toyProposes 1 0 ++ Net.toyFollows 2 ++ Net.toyFollows 3) := by
  decide +kernel

/-- The first follower and the second one, when only three nodes have signed. -/
theorem agreement_toy : Net.Agrees
    (Runs.run (Net.micro .toy NodeConfig.toyFour) .toyFour (Net.toyProposes 1 0))
    (Runs.run (Net.micro .toy NodeConfig.toyFour) .toyFour
      (Net.toyProposes 1 0 ++ Net.toyFollows 2)) :=
  agreement Net.setup_toyFour rfl delivers_toyFour unforged_toyFour (commitsSafely_toyFour rfl)

/-- Sender 2 registers. -/
def Transaction.toyOther : Transaction := .toy 2 1 (.registerParticipant 2 .seller "")

/-- Node 2 gets another transaction when its block has timed out. -/
def Input.toyRetry : Input := ⟨[], [.submitTx .toyOther], .at 9000⟩

/-- The block that node 2 proposes then. -/
def Block.toySecond : Block :=
  (Runs.run (Process.iterate .toy (.toy [1, 3])) .toyLeader
    [.toySubmit, .toyRetry]).node.pendingBlock.getD (.genesis 0 0)

/-- Node 1 stores the first block of node 2, and its signature is lost. Node 3 signs the
second block. -/
def Input.toyFork : List (Fin 3 × Input) :=
  [(1, .toySubmit), (0, ⟨[], [.propose .toyOwn], .at 1500⟩), (1, .toyRetry),
    (2, ⟨[], [.propose .toySecond], .at 9500⟩),
    (1, ⟨[], [.sign 1 ⟨3, Crypto.toy.sign (Bincode.serialize Block.toySecond.header) 3⟩],
      .at 9900⟩)]

/-- **A lost signature forks the network.** -/
theorem agreement_fails : ¬ ∀ as,
    Runs.Along (Net.step .toy NodeConfig.toyNet) Net.Drains .toy as →
    (Runs.run (Net.step .toy NodeConfig.toyNet) .toy as).Unforged .toy ![1, 2, 3] ![1, 2, 3] →
    Net.Agrees (Runs.run (Net.step .toy NodeConfig.toyNet) .toy as)
      (Runs.run (Net.step .toy NodeConfig.toyNet) .toy as) := by
  intro h
  have hfirst : (((Runs.run (Net.step .toy NodeConfig.toyNet) .toy
      Input.toyFork) 0).node.store.getBlock 1).map (·.header) = some Block.toyOwn.header := by
    decide +kernel
  have hsecond : (((Runs.run (Net.step .toy NodeConfig.toyNet) .toy
      Input.toyFork) 1).node.store.getBlock 1).map (·.header) = some Block.toySecond.header := by
    decide +kernel
  have hne : Block.toyOwn.header ≠ Block.toySecond.header := by decide +kernel
  obtain ⟨b, hb, hbo⟩ := Option.map_eq_some_iff.1 hfirst
  obtain ⟨b', hb', hbs⟩ := Option.map_eq_some_iff.1 hsecond
  have heq := h Input.toyFork (by decide +kernel) (by decide +kernel) 0 1 1 b b' hb hb'
  exact hne (hbo.symm.trans (heq.trans hbs))

end RoutineChain
