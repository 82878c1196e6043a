import Mathlib.Data.Fintype.Sum
import RoutineChain.Proof.Agreement
import RoutineChain.Proof.Restart

/-!
# Agreement with crashes, and with validators that do not follow the code

`agreement` is about nodes that follow the code and never stop. Here some validators send
anything to anybody and sign anything with their keys, so two quorums must share a node beyond
them; and the nodes stop and start again, so a vote must be stored to last.

* `Net.Admits`: what an adversary without the keys of the nodes can let reach them.
* `Loyal`: what holds of one node, whatever the others do.
* `agreement_byzantine`: no two nodes hold different blocks at one height.
-/

namespace RoutineChain

open Quorum

variable {C : Crypto} {k f : ℕ} {cfg : Fin k → NodeConfig} {ids : Fin k → Id}
  {byz : Fin f → Id} {keys : Fin k → BitVec 256} {g : BlockHeader} {net : Net k}

/-- The validators: the nodes, and those that need not follow the code. -/
def validator (ids : Fin k → Id) (byz : Fin f → Id) : Fin k ⊕ Fin f → Id := Sum.elim ids byz

/-- A validator may have signed a header: a node has, the others always may. -/
def Net.Backs (net : Net k) : Fin k ⊕ Fin f → BlockHeader → Prop
  | .inl j, H => net.Voted j H
  | .inr _, _ => True

instance (net : Net k) : (v : Fin k ⊕ Fin f) → (H : BlockHeader) → Decidable (net.Backs v H)
  | .inl j, H => inferInstanceAs (Decidable (H ∈ signedHeaders (net j).log))
  | .inr _, _ => .isTrue trivial

/-- What an adversary without the keys of the nodes can let reach a node: any message, but no
signature that passes for one of a node on a header that it has not signed, and no greeting of
a stranger. -/
def Net.Admits (C : Crypto) (ids : Fin k → Id) (byz : Fin f → Id) (net : Net k) :
    Fin k × Micro → Prop
  | (i, .recv (.sign _ sig)) => ∀ pb, (net i).node.pendingBlock = some pb →
      ∀ j, sig.nodeId = ids j → C.verify (Bincode.serialize pb.header) sig.signature (ids j) →
        net.Voted j pb.header
  | (_, .recv (.handshake id _ _)) => ∃ v, validator ids byz v = id
  | _ => True

/-- A proposal is stored only if a quorum is behind it in the end, when the network is `final`. -/
def Net.QuorumBacks (f : ℕ) (C : Crypto) (cfg : Fin k → NodeConfig) (final net : Net k) :
    Fin k × Micro → Prop
  | (i, .handleProposal) => ∀ b rest, (net i).node.proposals = b :: rest →
      ((net i).node.signProposal C b).isSome →
      RootAccepted C (cfg i).params b (net i).node.store →
      Certified (final.Backs (f := f)) (net i).node.cons.minSignatures b.header
  | _ => True

/-- The steps that the adversary can bring about, after which a node still has its votes and
every held block still has a quorum behind it, now or in the end. -/
structure Net.Withstands (C : Crypto) (cfg : Fin k → NodeConfig) (ids : Fin k → Id)
    (byz : Fin f → Id) (final net : Net k) (a : Fin k × Micro) : Prop where
  admits : net.Admits C ids byz a
  votes : VotesSafely C (cfg a.1) (net a.1) a.2
  quorum : Net.QuorumBacks f C cfg final net a

/-- The steps as before, and stops at which all that the node has signed is stored. -/
def Net.Endures (C : Crypto) (cfg : Fin k → NodeConfig) (ids : Fin k → Id) (byz : Fin f → Id)
    (final net : Net k) : Fin k × Act → Prop
  | (i, .step m) => Net.Withstands C cfg ids byz final net (i, m)
  | (i, .stop m left done now) => (net i).VotesOn C (cfg i) (.stop m left done now)

/-- The number of signatures that a node asks for, its own included. -/
def NodeConfig.asksFor (cfg : NodeConfig) : ℕ :=
  if cfg.peers.length = 0 then 1 else cfg.minSignatures

/-- What holds of node `i`, when validators may have signed as `V` says, and in the end as `F`. -/
structure Loyal (C : Crypto) (ids : Fin k → Id) (byz : Fin f → Id) (g : BlockHeader)
    (V F : Fin k ⊕ Fin f → BlockHeader → Prop) (i : Fin k) (p : Process) : Prop extends
    ProcessVotes C p where
  nodeId : p.node.cons.nodeId = ids i
  majority : k + 2 * f < 2 * p.node.cons.minSignatures
  alone : p.node.cons.peers = [] → p.node.cons.minSignatures ≤ 1
  peers : ∀ peer ∈ p.node.cons.peers,
    peer.publicKey = peer.id ∧ ∃ v, validator ids byz v = peer.id
  known : ∀ v, validator ids byz v ∈ p.node.cons.allNodeIds
  pending : ∀ pb, p.node.pendingBlock = some pb → V (.inl i) pb.header ∧
    ∀ sig ∈ pb.signatures, ∃ v, validator ids byz v = sig.nodeId ∧ V v pb.header
  genesis : ∃ b, p.node.store.getBlock 0 = some b ∧ b.header = g
  held : ∀ h b, p.node.store.getBlock h = some b → h ≠ 0 →
    Certified V p.node.cons.minSignatures b.header ∨
      Certified F p.node.cons.minSignatures b.header

theorem Loyal.mono {V V' F : Fin k ⊕ Fin f → BlockHeader → Prop} {i : Fin k} {p : Process}
    (h : Loyal C ids byz g V F i p) (hV : ∀ v H, V v H → V' v H) :
    Loyal C ids byz g V' F i p := by
  refine { h with pending := ?_, held := ?_ }
  · intro pb hpb
    obtain ⟨hown, hsigs⟩ := h.pending pb hpb
    refine ⟨hV _ _ hown, ?_⟩
    intro sig hm
    obtain ⟨v, hv, hback⟩ := hsigs sig hm
    exact ⟨v, hv, hV _ _ hback⟩
  · intro height b hb h0
    exact (h.held height b hb h0).imp_left fun hcert => hcert.mono hV

/-- What a node holds has a quorum behind it in the end. -/
theorem Loyal.final {V F : Fin k ⊕ Fin f → BlockHeader → Prop} {i : Fin k} {p : Process}
    (h : Loyal C ids byz g V F i p) (hV : ∀ v H, V v H → F v H) {height : UInt64} {b : Block}
    (hb : p.node.store.getBlock height = some b) (h0 : height ≠ 0) :
    Certified F p.node.cons.minSignatures b.header :=
  (h.held height b hb h0).elim (fun hcert => hcert.mono hV) id

theorem Net.backs_mono {net' : Net k} (h : ∀ j H, net.Voted j H → net'.Voted j H)
    (v : Fin k ⊕ Fin f) (H : BlockHeader) (hv : net.Backs v H) : net'.Backs v H := by
  cases v with
  | inl j => exact h j H hv
  | inr j => trivial

/-! ## One step -/

section Step

variable {final : Net k} {i : Fin k} {m : Micro}

theorem Net.backs_micro (a : Fin k × Micro) (v : Fin k ⊕ Fin f) (H : BlockHeader)
    (h : net.Backs v H) : (net.micro C cfg a).Backs v H :=
  Net.backs_mono (fun _ _ hv => Net.voted_micro a hv) v H h

/-- **Nobody new introduces itself**: the node knows all validators. -/
theorem peers_kept (hall : Loyal C ids byz g net.Backs final.Backs i (net i))
    (hadmits : net.Admits C ids byz (i, m)) :
    ((net i).micro C (cfg i) m).node.cons.peers = (net i).node.cons.peers := by
  have hstep : (net i).node.Step C (cfg i) m ((net i).node.micro C (cfg i) m) :=
    micro_step (net i).node m
  show ((net i).node.micro C (cfg i) m).1.cons.peers = _
  generalize (net i).node.micro C (cfg i) m = out at hstep ⊢
  cases hstep with
  | heardVote height round voter =>
    obtain ⟨r, v, he⟩ := receiveViewChange_eq (net i).node.cons height round voter
    rw [he]
  | calledVote t t' hreq =>
    obtain ⟨r, v, rfl⟩ := requestViewChange_eq hreq
    rfl
  | discovered hadd =>
    obtain ⟨v, hv⟩ := hadmits
    obtain ⟨hne, hnew, -⟩ := addPeer_eq hadd
    have hmem := hall.known v
    rw [hv, Consensus.mem_allNodeIds] at hmem
    rcases hmem with heq | ⟨peer, hp, heq⟩
    · exact absurd heq hne
    · exact absurd heq (hnew peer hp)
  | _ => rfl

/-- **A signature that the node adds to its pending block has its validator behind it.** -/
theorem cosigner_backs (hall : Loyal C ids byz g net.Backs final.Backs i (net i)) {height : UInt64}
    {pb : Block} {sig : NodeSignature}
    (hadmits : net.Admits C ids byz (i, .recv (.sign height sig)))
    (hpb : (net i).node.pendingBlock = some pb)
    (hv : (net i).node.cons.verifyBlockSignature C pb sig) :
    ∃ v, validator ids byz v = sig.nodeId ∧ net.Backs v pb.header := by
  have hver := verify_of_verifyBlockSignature (fun peer hp => (hall.peers peer hp).1) hv
  have hmem : sig.nodeId ∈ (net i).node.cons.allNodeIds := by
    refine Consensus.signerKey_isSome.1 ?_
    unfold Consensus.verifyBlockSignature at hv
    cases hkey : (net i).node.cons.signerKey sig.nodeId with
    | none => simp [hkey] at hv
    | some key => rfl
  rw [Consensus.mem_allNodeIds] at hmem
  obtain ⟨v, hname⟩ : ∃ v, validator ids byz v = sig.nodeId := by
    rcases hmem with hown | ⟨peer, hp, hid⟩
    · exact ⟨.inl i, hall.nodeId.symm.trans hown.symm⟩
    · rw [← hid]
      exact (hall.peers peer hp).2
  refine ⟨v, hname, ?_⟩
  cases v with
  | inl j =>
    have hid : sig.nodeId = ids j := hname.symm
    exact hadmits pb hpb j hid (hid ▸ hver)
  | inr j => trivial

/-- **A block that the step stores has a quorum behind it.** -/
theorem commit_backed (hall : Loyal C ids byz g net.Backs final.Backs i (net i))
    (hquorum : Net.QuorumBacks f C cfg final net (i, m))
    (hvotes : VotesSafely C (cfg i) (net i) m)
    {b : Block} (hb : (net i).node.Commits C m ((net i).node.micro C (cfg i) m).2 b) :
    Certified ((net.micro C cfg (i, m)).Backs (f := f)) (net i).node.cons.minSignatures
        b.header ∨
      Certified (final.Backs (f := f)) (net i).node.cons.minSignatures b.header := by
  cases hb with
  | pending hp hf =>
    left
    exact (certified_of_finalized (hall.pending b hp).2 hf).mono (Net.backs_micro (i, m))
  -- The quorum behind the proposal, maybe later than this node.
  | proposal hm hp hsome hsigned =>
    subst hm
    right
    exact hquorum b _ hp hsome (hvotes.2 b _ hp hsome).1
  | own hsigned hown hf =>
    left
    have hvoted : (net.micro C cfg (i, m)).Voted i b.header := Net.voted_of_signed hsigned
    rcases hf with hf | hnil
    · have hsigs : ∀ sig ∈ b.signatures, ∃ v, validator ids byz v = sig.nodeId ∧
          (net.micro C cfg (i, m)).Backs v b.header := by
        intro sig hm
        refine ⟨.inl i, ?_, hvoted⟩
        rw [hown sig hm, hall.nodeId]
        rfl
      exact certified_of_finalized hsigs hf
    · exact certified_one (v := .inl i) hvoted (hall.alone hnil)

/-- **One step keeps what holds of the node that takes it.** -/
theorem loyal_step (hall : Loyal C ids byz g net.Backs final.Backs i (net i))
    (hs : Net.Withstands C cfg ids byz final net (i, m)) :
    Loyal C ids byz g (net.micro C cfg (i, m)).Backs final.Backs i
      ((net i).micro C (cfg i) m) := by
  have hstep : (net i).node.Step C (cfg i) m ((net i).node.micro C (cfg i) m) :=
    micro_step (net i).node m
  have hi : Loyal C ids byz g (net.micro C cfg (i, m)).Backs final.Backs i (net i) :=
    hall.mono (Net.backs_micro (i, m))
  obtain ⟨hsame, -⟩ := cons_step hstep
  have hpeers : ((net i).micro C (cfg i) m).node.cons.peers = (net i).node.cons.peers :=
    peers_kept hall hs.admits
  have hmin : ((net i).micro C (cfg i) m).node.cons.minSignatures =
      (net i).node.cons.minSignatures := hsame.minSignatures
  refine
    { processVotes_step hall.toProcessVotes hs.votes with
      nodeId := hsame.nodeId.trans hi.nodeId
      majority := hmin ▸ hi.majority
      alone := fun hnil => hmin ▸ hi.alone (hpeers.symm.trans hnil)
      peers := hpeers ▸ hi.peers
      known := fun v => ?known
      pending := fun b hb => ?pending
      genesis := ?genesis
      held := fun h b hb h0 => ?held }
  case known =>
    have hmem := hi.known v
    rw [Consensus.mem_allNodeIds] at hmem ⊢
    rw [hpeers]
    exact hmem.imp_left fun heq => heq.trans hsame.nodeId.symm
  case pending =>
    rcases pending_step hstep hb with hb | ⟨pb, sig, hpb, rfl, hv, rfl⟩ | ⟨hsigned, hown⟩
    · exact hi.pending b hb
    · obtain ⟨hown, hsigs⟩ := hi.pending pb hpb
      refine ⟨hown, ?_⟩
      intro sig' hm
      rcases List.mem_append.1 hm with hm | hm
      · exact hsigs sig' hm
      · rw [List.mem_singleton.1 hm]
        obtain ⟨v, hname, hback⟩ := cosigner_backs hall hs.admits hpb hv
        exact ⟨v, hname, Net.backs_micro _ v _ hback⟩
    · have hvoted : (net.micro C cfg (i, m)).Voted i b.header := Net.voted_of_signed hsigned
      refine ⟨hvoted, fun sig hm => ⟨.inl i, ?_, hvoted⟩⟩
      rw [hown sig hm, hi.nodeId]
      rfl
  case genesis =>
    obtain ⟨b, hb, hg⟩ := hi.genesis
    obtain ⟨-, hext⟩ := nodeChain_step hstep hi.node.toNodeChain hs.votes.1
    obtain ⟨b', hb', heq⟩ := hext.header 0 b hb
    exact ⟨b', hb', heq.trans hg⟩
  case held =>
    rw [hmin]
    rcases held_step hstep hb with hb | hcommit
    · exact hi.held h b hb h0
    · exact commit_backed hall hs.quorum hs.votes hcommit

/-- **One step keeps what holds of every node.** -/
theorem loyals_step {a : Fin k × Micro}
    (hall : ∀ j, Loyal C ids byz g net.Backs final.Backs j (net j))
    (hs : Net.Withstands C cfg ids byz final net a) :
    ∀ j, Loyal C ids byz g (net.micro C cfg a).Backs final.Backs j (net.micro C cfg a j) := by
  intro j
  obtain ⟨i, m⟩ := a
  by_cases hj : j = i
  · subst hj
    rw [Net.micro_self]
    exact loyal_step (hall j) hs
  · have hkeep : net.micro C cfg (i, m) j = net j := Function.update_of_ne hj ..
    rw [hkeep]
    exact (hall j).mono (Net.backs_micro (i, m))

end Step

/-! ## Agreement of loyal nodes -/

/-- Nodes agree on what has quorums behind it in the end, if they vote once. -/
theorem loyals_agree {net net' final : Net k}
    (hall : ∀ j, Loyal C ids byz g net.Backs final.Backs j (net j))
    (hall' : ∀ j, Loyal C ids byz g net'.Backs final.Backs j (net' j))
    (hunique : ∀ j, SignsOnce (final j).log)
    (hvoted : ∀ j H, net.Voted j H → final.Voted j H)
    (hvoted' : ∀ j H, net'.Voted j H → final.Voted j H) : net.Agrees net' := by
  classical
  intro i j h b b' hb hb'
  by_cases h0 : h = 0
  · subst h0
    obtain ⟨b₀, hb₀, hg⟩ := (hall i).genesis
    obtain ⟨b₀', hb₀', hg'⟩ := (hall' j).genesis
    rw [hb₀, Option.some_inj] at hb
    rw [hb₀', Option.some_inj] at hb'
    rw [← hb, ← hb', hg, hg']
  · have hcert := (hall i).final (Net.backs_mono hvoted) hb h0
    have hcert' := (hall' j).final (Net.backs_mono hvoted') hb' h0
    let faulty : Finset (Fin k ⊕ Fin f) := Finset.univ.map ⟨Sum.inr, Sum.inr_injective⟩
    have hcard : faulty.card = f := by simp [faulty]
    have honce : ∀ v ∉ faulty, ∀ H H', final.Backs v H → final.Backs v H' →
        H.height = H'.height → H = H' := by
      intro v hv H H' hH hH'
      cases v with
      | inl j => exact hunique j H hH H' hH'
      | inr j => exact absurd (by simp [faulty]) hv
    refine hcert.unique_of_faulty honce hcert' ?_ ?_
    · have hq := (hall i).majority
      have hq' := (hall' j).majority
      rw [hcard, Fintype.card_sum, Fintype.card_fin, Fintype.card_fin]
      omega
    · rw [(hall i).node.chain.height h b hb, (hall' j).node.chain.height h b' hb']

/-- The nodes know all validators and nobody else, and two quorums are more than all of them
and those that do not follow the code together. -/
structure Net.Besieged (C : Crypto) (cfg : Fin k → NodeConfig) (ids : Fin k → Id)
    (byz : Fin f → Id) (keys : Fin k → BitVec 256) (stores : Fin k → Store)
    (now : Fin k → StartClock) (g : Block) : Prop extends
    Net.Setup C cfg ids keys stores now g where
  known : ∀ i v, validator ids byz v ∈ (Net.start cfg ids keys stores now i).node.cons.allNodeIds
  validators : ∀ i, ∀ peer ∈ (cfg i).peers, ∃ v, validator ids byz v = peer.id
  quorum : ∀ i, k + 2 * f < 2 * (Net.start cfg ids keys stores now i).node.cons.minSignatures

/-! ## Stops -/

section Run

variable {stores : Fin k → Store} {now : Fin k → StartClock} {b : Block}

theorem loyals_start (h : Net.Besieged C cfg ids byz keys stores now b) (i : Fin k)
    (V F : Fin k ⊕ Fin f → BlockHeader → Prop) :
    Loyal C ids byz b.header V F i (Net.start cfg ids keys stores now i) := by
  have hstart := voters_start h.toSetup i (fun _ _ => True) fun _ _ => True
  refine
    { hstart.toProcessVotes with
      nodeId := hstart.nodeId
      majority := h.quorum i
      alone := hstart.alone
      peers := fun peer hp => ⟨hstart.peers peer hp, h.validators i peer hp⟩
      known := h.known i
      pending := fun pb hpb => by cases hpb
      genesis := hstart.genesis
      held := fun height b' hb' h0 => ?_ }
  -- Nothing above the genesis block is held yet.
  have hstore : (Net.start cfg ids keys stores now i).node.store = stores i := by
    simp [Net.start, Process.start, startNode, h.genesis i]
  have hle := ((h.chain i).dense height).1 (by rw [← hstore, hb']; rfl)
  rw [h.tip i] at hle
  exact absurd (UInt64.le_antisymm hle UInt64.zero_le) h0

/-- A loyal node that asks for the signatures that its configuration says. -/
structure Steady (C : Crypto) (cfg : NodeConfig) (ids : Fin k → Id) (byz : Fin f → Id)
    (g : BlockHeader) (V F : Fin k ⊕ Fin f → BlockHeader → Prop) (i : Fin k) (p : Process) :
    Prop extends Loyal C ids byz g V F i p where
  asks : p.node.cons.minSignatures = cfg.asksFor

/-- What has happened once has happened after a stop. -/
theorem Net.log_act (a : Fin k × Act) (j : Fin k) : (net j).log ⊆ (net.act C cfg a j).log := by
  obtain ⟨i, act⟩ := a
  by_cases hj : j = i
  · subst hj
    rw [show net.act C cfg (j, act) j = (net j).act C (cfg j) act from Function.update_self ..]
    cases act with
    | step m => exact List.subset_append_left _ _
    | stop m left done now =>
      exact List.Subset.trans (List.subset_append_left _ _) (List.subset_append_left _ _)
  · rw [show net.act C cfg (i, act) j = net j from Function.update_of_ne hj ..]
    exact List.Subset.refl _

theorem Net.voted_act (a : Fin k × Act) {j : Fin k} {H : BlockHeader} (h : net.Voted j H) :
    (net.act C cfg a).Voted j H :=
  mem_signedHeaders.2 (Net.log_act a j (mem_signedHeaders.1 h))

theorem Net.backs_act (a : Fin k × Act) (v : Fin k ⊕ Fin f) (H : BlockHeader)
    (h : net.Backs v H) : (net.act C cfg a).Backs v H :=
  Net.backs_mono (fun _ _ hv => Net.voted_act a hv) v H h

theorem Net.voted_acts {net : Net k} (as as' : List (Fin k × Act)) (j : Fin k) (H : BlockHeader)
    (h : (Runs.run (Net.act C cfg) net as).Voted j H) :
    (Runs.run (Net.act C cfg) net (as ++ as')).Voted j H := by
  rw [Runs.run_append]
  exact Runs.inv_run (I := fun net : Net k => net.Voted j H)
    (fun _ a hv _ => Net.voted_act a hv) h (Runs.along_true _ as')

/-- **A node that is started again has what its configuration and its store say.** -/
theorem steady_restart (h : Net.Besieged C cfg ids byz keys stores now b) {i : Fin k}
    {V F : Fin k ⊕ Fin f → BlockHeader → Prop} {p : Process} {m : Micro} {left : Store}
    {done : List Effect} {t : StartClock} (hp : Steady C (cfg i) ids byz b.header V F i p)
    (hs : p.VotesOn C (cfg i) (.stop m left done t)) :
    Steady C (cfg i) ids byz b.header V F i (p.act C (cfg i) (.stop m left done t)) := by
  have hsame := hs.lives.stop m left done t rfl
  have hchain : ChainOK C left := hp.node.chain.of_sameChain hsame
  have hstore : (p.restart (cfg i) left done t).node.store = left := start_store hchain _ _ _
  have hget : (p.act C (cfg i) (.stop m left done t)).node.store.getBlock =
      p.node.store.getBlock := by
    rw [show (p.act C (cfg i) (.stop m left done t)).node.store = left from hstore, hsame.getBlock]
  have hfirst := loyals_start h i V F
  refine
    { processVotes_act hp.toProcessVotes hs with
      nodeId := hp.nodeId
      majority := hfirst.majority
      alone := hfirst.alone
      peers := hfirst.peers
      known := fun v => ?known
      pending := fun pb hpb => by cases hpb
      genesis := ?genesis
      held := fun height b' hb' h0 => ?held
      asks := rfl }
  case known =>
    have hmem := hfirst.known v
    rw [Consensus.mem_allNodeIds] at hmem ⊢
    exact hmem.imp_left fun heq => heq.trans hp.nodeId.symm
  case genesis =>
    rw [hget]
    exact hp.genesis
  case held =>
    rw [hget] at hb'
    have hcert := hp.held height b' hb' h0
    rwa [hp.asks] at hcert

/-- **A step or a stop keeps what holds of every node.** -/
theorem steady_act (h : Net.Besieged C cfg ids byz keys stores now b) {final : Net k}
    {a : Fin k × Act}
    (hall : ∀ j, Steady C (cfg j) ids byz b.header net.Backs final.Backs j (net j))
    (hs : Net.Endures C cfg ids byz final net a) (j : Fin k) :
    Steady C (cfg j) ids byz b.header (net.act C cfg a).Backs final.Backs j
      (net.act C cfg a j) := by
  obtain ⟨i, act⟩ := a
  by_cases hj : j = i
  · subst hj
    cases act with
    | step m =>
      have hloyal := loyals_step (fun j => (hall j).toLoyal) hs j
      have hmin : ((net j).micro C (cfg j) m).node.cons.minSignatures =
          (net j).node.cons.minSignatures :=
        (cons_step (micro_step (C := C) (net j).node m)).1.minSignatures
      refine ⟨hloyal, ?_⟩
      rw [show net.act C cfg (j, .step m) j = (net j).micro C (cfg j) m from
        Function.update_self .., hmin]
      exact (hall j).asks
    | stop m left done t =>
      have hkept : Steady C (cfg j) ids byz b.header
          (net.act C cfg (j, .stop m left done t)).Backs final.Backs j (net j) :=
        { (hall j).toLoyal.mono (Net.backs_act _) with asks := (hall j).asks }
      rw [show net.act C cfg (j, .stop m left done t) j = _ from Function.update_self ..]
      exact steady_restart h hkept hs
  · rw [show net.act C cfg (i, act) j = net j from Function.update_of_ne hj ..]
    exact { (hall j).toLoyal.mono (Net.backs_act _) with asks := (hall j).asks }

/-- Every node of a run is loyal. -/
theorem steady_run {as : List (Fin k × Act)} {final : Net k}
    (h : Net.Besieged C cfg ids byz keys stores now b)
    (hrun : Runs.Along (Net.act C cfg) (Net.Endures C cfg ids byz final)
      (.start cfg ids keys stores now) as) (j : Fin k) :
    Steady C (cfg j) ids byz b.header
      (Runs.run (Net.act C cfg) (.start cfg ids keys stores now) as).Backs final.Backs j
      (Runs.run (Net.act C cfg) (.start cfg ids keys stores now) as j) :=
  Runs.inv_run
    (I := fun net => ∀ j, Steady C (cfg j) ids byz b.header net.Backs final.Backs j (net j))
    (fun _ _ hall ha => steady_act h hall ha)
    (fun j => { loyals_start h j _ _ with asks := rfl }) hrun j

/-- **Agreement with crashes, and with `f` validators that do not follow the code.** Whatever
these send and whenever the nodes stop, no two nodes hold blocks with different headers at one
height, at any two moments of a run in which the nodes keep their votes, store no proposal that
stays without a quorum behind it, and stop only with their votes stored. -/
theorem agreement_byzantine {as as' as'' : List (Fin k × Act)} {final : Net k}
    (h : Net.Besieged C cfg ids byz keys stores now b)
    (hend : Runs.run (Net.act C cfg) (.start cfg ids keys stores now) (as ++ as' ++ as'') = final)
    (hrun : Runs.Along (Net.act C cfg) (Net.Endures C cfg ids byz final)
      (.start cfg ids keys stores now) (as ++ as' ++ as'')) :
    Net.Agrees (Runs.run (Net.act C cfg) (.start cfg ids keys stores now) as)
      (Runs.run (Net.act C cfg) (.start cfg ids keys stores now) (as ++ as')) := by
  have hlast := steady_run h hrun
  rw [hend] at hlast
  have hsecond := steady_run h (hrun.initial (List.prefix_append _ _))
  rw [List.append_assoc] at hend hrun
  have hfirst := steady_run h (hrun.initial (List.prefix_append _ _))
  refine loyals_agree (fun j => (hfirst j).toLoyal) (fun j => (hsecond j).toLoyal)
    (fun j => (hlast j).unique) ?_ ?_
  · intro j H hH
    rw [← hend]
    exact Net.voted_acts as _ j H hH
  · intro j H hH
    rw [← hend, ← List.append_assoc]
    exact Net.voted_acts _ as'' j H hH

end Run

/-! ## Four nodes and validator 4 -/

/-- Four nodes that know each other and validator 4, and ask for four signatures. -/
def NodeConfig.toySiege : Fin 4 → NodeConfig :=
  ![{ NodeConfig.toy [2, 3, 5, 4] with minSignatures := 4 },
    { NodeConfig.toy [1, 3, 5, 4] with minSignatures := 4 },
    { NodeConfig.toy [1, 2, 5, 4] with minSignatures := 4 },
    { NodeConfig.toy [1, 2, 3, 4] with minSignatures := 4 }]

/-- The nodes 1, 2, 3 and 5 as they start. -/
abbrev Net.toySiege : Net 4 :=
  .start NodeConfig.toySiege ![1, 2, 3, 5] ![1, 2, 3, 5] (fun _ => .toyGenesis) (fun _ => ⟨0, 0⟩)

theorem Net.besieged_toy : Net.Besieged .toy NodeConfig.toySiege ![1, 2, 3, 5] ![4] ![1, 2, 3, 5]
    (fun _ => .toyGenesis) (fun _ => ⟨0, 0⟩) (.genesis 0 1) where
  chain _ := chainOK_genesis 0 1
  tip _ := rfl
  genesis _ := by decide +kernel
  peers := by decide +kernel
  majority := by decide +kernel
  known := by decide +kernel
  validators := by decide +kernel
  quorum := by decide +kernel

/-- A proposal that is handled with nothing pending, and that gets a quorum behind it if it is
signed. -/
theorem endures_handleProposal {final : Net k} {i : Fin k} {b : Block}
    (hp : (net i).node.proposals = [b]) (hidle : (net i).node.pendingBlock = none)
    (S : Finset (Fin k ⊕ Fin f))
    (hsigned : ((net i).node.signProposal C b).isSome →
      RootAccepted C (cfg i).params b (net i).node.store ∧
      (net i).node.cons.minSignatures ≤ S.card ∧ ∀ v ∈ S, final.Backs v b.header) :
    Net.Endures C cfg ids byz final net (i, .step .handleProposal) := by
  refine Net.Withstands.mk trivial ⟨trivial, ?_⟩ ?_
  · intro b' rest hp' hsome
    rw [hp, List.cons.injEq] at hp'
    rw [← hp'.1] at hsome ⊢
    exact ⟨(hsigned hsome).1, fun pb hpb => by rw [hidle] at hpb; cases hpb⟩
  · intro b' rest hp' hsome _
    rw [hp, List.cons.injEq] at hp'
    rw [← hp'.1] at hsome ⊢
    exact ⟨S, (hsigned hsome).2⟩

/-- A signature that passes for that of no node. -/
theorem endures_sign {final : Net k} {i : Fin k} {height : UInt64} {sig : NodeSignature} {b : Block}
    (hp : (net i).node.pendingBlock = some b)
    (hforged : ∀ j, sig.nodeId = ids j →
      ¬ C.verify (Bincode.serialize b.header) sig.signature (ids j)) :
    Net.Endures C cfg ids byz final net (i, .step (.recv (.sign height sig))) := by
  refine Net.Withstands.mk ?_ ⟨trivial, trivial⟩ trivial
  intro pb' hpb' j hid hver
  rw [hp, Option.some_inj] at hpb'
  rw [← hpb'] at hver
  exact absurd hver (hforged j hid)

/-- The leader builds a block. -/
def Net.toyBuild (leader : Fin 4) : List (Fin 4 × Act) :=
  [(leader, .step (.recv (.submitTx .toyRegister))), (leader, .step .feed),
    (leader, .step (.produce 1000 1000))]

/-- The index of node 2, the leader at height 1. -/
def Net.toyBuilder : Fin 4 := (Fin.last 1).castSucc.castSucc

/-- Its block. -/
def Block.toySiege : Block :=
  (Runs.run (Net.act .toy NodeConfig.toySiege) .toySiege (Net.toyBuild Net.toyBuilder)
    Net.toyBuilder).node.pendingBlock.getD (.genesis 0 0)

/-- Validator 4 changes the block and does not sign it. -/
def Block.toyForged : Block :=
  { Block.toySiege with
    header := { Block.toySiege.header with timestamp := 0 }, signatures := [⟨4, 0⟩] }

/-- The signature of validator 4 on the block. -/
def NodeSignature.toyTraitor : NodeSignature :=
  ⟨4, Crypto.toy.sign (Bincode.serialize Block.toySiege.header) 4⟩

/-- The leader builds its block, and another node stores it. -/
def Net.toyStores (leader first : Fin 4) : List (Fin 4 × Act) :=
  Net.toyBuild leader ++
    [(first, .step (.recv (.propose .toySiege))), (first, .step .handleProposal)]

/-- The follower stops and is started again. Validator 4 signs the block, passes a signature for
that of the last node, and sends another block to that one, before it hears of the first one. -/
def Net.toyBetrays (leader first last : Fin 4) : List (Fin 4 × Act) :=
  [(first, .stop .feed (Runs.run (Net.act .toy NodeConfig.toySiege) .toySiege
      (Net.toyStores leader first) first).node.store [] ⟨2000, 2000⟩),
    (leader, .step (.recv (.sign 1 .toyTraitor))), (leader, .step (.recv (.sign 1 ⟨3, 0⟩))),
    (last, .step (.recv (.propose .toyForged))), (last, .step .handleProposal),
    (last, .step (.recv (.propose .toySiege))), (last, .step .handleProposal)]

theorem endures_toyBetrays {final : Net 4}
    (hend : Runs.run (Net.act .toy NodeConfig.toySiege) .toySiege
      (Net.toyStores 1 0 ++ Net.toyBetrays 1 0 2) = final) :
    Runs.Along (Net.act .toy NodeConfig.toySiege)
      (Net.Endures .toy NodeConfig.toySiege ![1, 2, 3, 5] ![4] final) .toySiege
      (Net.toyStores 1 0 ++ Net.toyBetrays 1 0 2) := by
  have hbacked : ∀ v ∈ ({.inl 0, .inl 1, .inl 2, .inr 0} : Finset (Fin 4 ⊕ Fin 1)),
      final.Backs v Block.toySiege.header := by
    rw [← hend]
    decide +kernel
  unfold Net.toySiege
  refine Runs.along_append.2 ⟨?_, ?_⟩
  · simp only [Net.toyStores, Net.toyBuild, List.cons_append, List.nil_append, Runs.along_cons,
      Runs.along_nil, and_true]
    refine ⟨.mk trivial ⟨trivial, trivial⟩ trivial, .mk trivial ⟨trivial, trivial⟩ trivial,
      .mk trivial ⟨?_, trivial⟩ trivial, .mk trivial ⟨trivial, trivial⟩ trivial, ?_⟩
    · unfold NoOverwrite
      decide +kernel
    · exact endures_handleProposal (b := .toySiege) (by decide +kernel) (by decide +kernel)
        _ fun _ => ⟨by decide +kernel, by decide +kernel, hbacked⟩
  · simp only [Net.toyBetrays, Net.toySiege, Runs.along_cons, Runs.along_nil, and_true]
    refine ⟨votesOn_idle (by decide +kernel), ?_, ?_, .mk trivial ⟨trivial, trivial⟩ trivial, ?_,
      .mk trivial ⟨trivial, trivial⟩ trivial, ?_⟩
    · exact endures_sign (b := .toySiege) (by decide +kernel) (by decide +kernel)
    · exact endures_sign
        (b := { Block.toySiege with signatures := Block.toySiege.signatures ++ [.toyTraitor] })
        (by decide +kernel) (by decide +kernel)
    · exact endures_handleProposal (b := .toyForged) (by decide +kernel) (by decide +kernel)
        ∅ fun hsome => absurd hsome (by decide +kernel)
    · exact endures_handleProposal (b := .toySiege) (by decide +kernel) (by decide +kernel)
        _ fun _ => ⟨by decide +kernel, by decide +kernel, hbacked⟩

/-- Whatever validator 4 sends, the last node stores the block that the first one has stored
before its stop. -/
theorem agreement_byzantine_toy : Net.Agrees
    (Runs.run (Net.act .toy NodeConfig.toySiege) .toySiege (Net.toyStores 1 0))
    (Runs.run (Net.act .toy NodeConfig.toySiege) .toySiege
      (Net.toyStores 1 0 ++ Net.toyBetrays 1 0 2)) := by
  obtain ⟨final, hend⟩ : ∃ final, Runs.run (Net.act .toy NodeConfig.toySiege) .toySiege
      (Net.toyStores 1 0 ++ Net.toyBetrays 1 0 2) = final := ⟨_, rfl⟩
  have hrun := endures_toyBetrays hend
  rw [← List.append_nil (Net.toyStores 1 0 ++ Net.toyBetrays 1 0 2)] at hend hrun
  exact agreement_byzantine Net.besieged_toy hend hrun

end RoutineChain
