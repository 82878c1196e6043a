import RoutineChain.Lib.Quorum
import RoutineChain.Proof.Finality
import RoutineChain.Spec.Network

/-!
# One voter of a network

What the other nodes can rely on, step by step, from a node that follows the code.

* `cons_step`: its id, its key and the quorum that it asks for are fixed, and it adds only
  peers that have introduced themselves.
* `authentic_step`: it sends only signatures on headers that it has signed.
* `pending_step`, `held_step`: how a block comes to be pending, and how it comes to be held.
-/

namespace RoutineChain

variable {C : Crypto} {cfg : NodeConfig} {n : Node} {m : Micro} {out : Node × List Effect}

/-- The same validator, asking for the same quorum. -/
structure Consensus.SameValidator (c c' : Consensus) : Prop where
  nodeId : c'.nodeId = c.nodeId
  privateKey : c'.privateKey = c.privateKey
  minSignatures : c'.minSignatures = c.minSignatures

theorem Consensus.SameValidator.signHeader {c c' : Consensus} (h : c.SameValidator c')
    (H : BlockHeader) : c'.signHeader C H = c.signHeader C H := by
  unfold Consensus.signHeader
  rw [h.nodeId, h.privateKey]

/-- **A step changes neither the validator nor the peers that it has**; a new peer has
introduced itself. -/
theorem cons_step (hs : n.Step C cfg m out) : n.cons.SameValidator out.1.cons ∧
    ∃ new, out.1.cons.peers = n.cons.peers ++ new ∧
      ∀ peer ∈ new, ∃ address, m = .recv (.handshake peer.id peer.publicKey address) := by
  have hnone : n.cons.peers = n.cons.peers ++ [] := (List.append_nil _).symm
  cases hs with
  | heardVote height round voter =>
    obtain ⟨r, v, he⟩ := receiveViewChange_eq n.cons height round voter
    rw [he]
    exact ⟨⟨rfl, rfl, rfl⟩, [], hnone, by simp⟩
  | @discovered id key address cons hadd =>
    obtain ⟨-, -, rfl⟩ := addPeer_eq hadd
    refine ⟨⟨rfl, rfl, rfl⟩, [{ id, address, publicKey := key }], rfl, ?_⟩
    intro peer hp
    rw [List.mem_singleton.1 hp]
    exact ⟨address, rfl⟩
  | calledVote t t' hreq =>
    obtain ⟨r, v, rfl⟩ := requestViewChange_eq hreq
    exact ⟨⟨rfl, rfl, rfl⟩, [], hnone, by simp⟩
  | _ => exact ⟨⟨rfl, rfl, rfl⟩, [], hnone, by simp⟩

/-! ## Messages -/

/-- A message is the node's own: a signature is on a header that it has signed, and it is
known under its id as key. -/
def Consensus.Authentic (C : Crypto) (c : Consensus) (log : List Effect) :
    ConsensusMessage → Prop
  | .sign _ sig => ∃ H ∈ signedHeaders log, sig = c.signHeader C H
  | .handshake id key _ => key = id
  | _ => True

theorem mem_sentMessages {log : List Effect} {msg : ConsensusMessage} :
    msg ∈ sentMessages log ↔ ∃ e ∈ log, e.message? = some msg :=
  List.mem_filterMap

theorem sentMessages_append (log log' : List Effect) :
    sentMessages (log ++ log') = sentMessages log ++ sentMessages log' :=
  List.filterMap_append

theorem Consensus.Authentic.mono {c c' : Consensus} {log log' : List Effect}
    {msg : ConsensusMessage} (h : c.Authentic C log msg) (hc : c.SameValidator c')
    (hlog : log ⊆ log') : c'.Authentic C log' msg := by
  cases msg with
  | sign height sig =>
    obtain ⟨H, hH, rfl⟩ := h
    exact ⟨H, mem_signedHeaders.2 (hlog (mem_signedHeaders.1 hH)), (hc.signHeader H).symm⟩
  | _ => exact h

/-- What a node sends, in a step with the effects `es`. -/
inductive Node.Sends (C : Crypto) (cfg : NodeConfig) (n : Node) (es : List Effect) :
    ConsensusMessage → Prop
  | signature {b : Block} (h : .signed b.header ∈ es) :
    Sends C cfg n es (.sign b.header.height (n.cons.signHeader C b.header))
  | greeting :
    Sends C cfg n es (.handshake n.cons.nodeId n.cons.nodeId cfg.listenAddress)
  | vote (height round) : Sends C cfg n es (.viewChange height round n.cons.nodeId)
  | proposal {prev t} (hp : n.Produces cfg.params prev t) :
    Sends C cfg n es (.propose (n.block C cfg.params prev t))

/-- **A step sends nothing else.** -/
theorem sends_step (hs : n.Step C cfg m out) :
    ∀ msg ∈ sentMessages out.2, n.Sends C cfg out.2 msg := by
  have hran : ∀ t, sentMessages (n.ranEffects cfg.params t) = [] := fun t => by
    simp [sentMessages, Node.ranEffects, Effect.message?, Function.comp_def]
  intro msg hmsg
  cases hs with
  -- The signature goes out with the header it is on, whether or not the block applies.
  | @applied b rest sig hp hs hr | @diverged b rest sig hp hs hr =>
    have hmsg : .sign b.header.height sig = msg := by
      simpa [sentMessages, Effect.message?, Function.comp_def] using hmsg
    rw [← hmsg, (signProposal_spec hs).2]
    exact .signature (by simp)
  | discovered hadd =>
    rw [List.mem_singleton.1 hmsg]
    exact .greeting
  | calledVote t t' hreq =>
    rw [List.mem_singleton.1 hmsg]
    exact .vote _ _
  | proposed t' hp hv hc hf | committed t' hp hv hc hf =>
    rw [sentMessages_append, hran] at hmsg
    rw [List.mem_singleton.1 hmsg]
    exact .proposal hp
  | rejectedAll t' hp hv =>
    rw [hran] at hmsg
    cases hmsg
  | solo t' hp hv hc =>
    rw [sentMessages_append, hran] at hmsg
    simp [sentMessages, Effect.message?] at hmsg
  | _ => simp [sentMessages, Effect.message?, Function.comp_def] at hmsg

/-- What a leader proposes is the block it has built from its pool. -/
theorem produces_of_propose {b : Block} {t t' : Int64}
    (h : .broadcast (.propose b) ∈ (n.produce C cfg t t').2) :
    ∃ prev, n.Produces cfg.params prev t ∧ b = n.block C cfg.params prev t := by
  have hran : ∀ tail : List Effect,
      .broadcast (.propose b) ∈ n.ranEffects cfg.params t ++ tail →
        .broadcast (.propose b) ∈ tail := by
    intro tail hm
    simpa [Node.ranEffects] using hm
  have hs : n.Step C cfg (.produce t t') (n.produce C cfg t t') := produce_step n t t'
  generalize n.produce C cfg t t' = out at hs h
  cases hs with
  | idle => cases h
  | rejectedAll _ hp hv => simp [Node.ranEffects] at h
  | proposed _ hp hv hc hf => exact ⟨_, hp, by simpa using hran _ h⟩
  | committed _ hp hv hc hf => exact ⟨_, hp, by simpa using hran _ h⟩
  | solo _ hp hv hc => simpa using hran _ h

/-- **A node sends authentic messages only.** -/
theorem authentic_step (hs : n.Step C cfg m out) :
    ∀ msg ∈ sentMessages out.2, n.cons.Authentic C out.2 msg := by
  intro msg hmsg
  cases sends_step hs msg hmsg with
  | @signature b h => exact ⟨b.header, mem_signedHeaders.2 h, rfl⟩
  | greeting => rfl
  | vote => trivial
  | proposal => trivial

/-! ## Blocks -/

/-- The only signature on the block is the node's own. -/
def Consensus.OwnSigned (c : Consensus) (b : Block) : Prop :=
  ∀ sig ∈ b.signatures, sig.nodeId = c.nodeId

theorem ownSigned_block {P : Params} {prev : Block} {t : Int64} :
    n.cons.OwnSigned (n.block C P prev t) :=
  fun _ hm => by rw [List.mem_singleton.1 hm]; rfl

/-- **How a block comes to be pending**: it was already, with a verified signature less, or
the node has just built it. -/
theorem pending_step (hs : n.Step C cfg m out) {b : Block} (hb : out.1.pendingBlock = some b) :
    n.pendingBlock = some b ∨
    (∃ pb sig, n.pendingBlock = some pb ∧ m = .recv (.sign pb.header.height sig) ∧
      n.cons.verifyBlockSignature C pb sig ∧
      b = { pb with signatures := pb.signatures ++ [sig] }) ∨
    b.header ∈ signedHeaders out.2 ∧ n.cons.OwnSigned b := by
  cases hs with
  | cosigned hp hv =>
    cases hb
    exact .inr (.inl ⟨_, _, hp, rfl, hv, rfl⟩)
  | proposed t' hp hv hc hf =>
    cases hb
    exact .inr (.inr ⟨by simp, ownSigned_block⟩)
  | finalized => cases hb
  | discarded => cases hb
  | _ => exact .inl hb

/-- The step stores a block. -/
inductive Node.Commits (C : Crypto) (n : Node) (m : Micro) (es : List Effect) (b : Block) : Prop
  | pending (hp : n.pendingBlock = some b) (hf : n.cons.isFinalized C b)
  | proposal {rest} (hm : m = .handleProposal) (hp : n.proposals = b :: rest)
    (hs : (n.signProposal C b).isSome) (hsigned : b.header ∈ signedHeaders es)
  | own (hsigned : b.header ∈ signedHeaders es) (hown : n.cons.OwnSigned b)
    (hf : n.cons.isFinalized C b ∨ n.cons.peers = [])

theorem getBlock_putBlock_cases {s s' : Store} {b b' : Block} {h : UInt64}
    (hsame : s.SameChain s') (hb : (s'.putBlock b').getBlock h = some b) :
    s.getBlock h = some b ∨ b = b' := by
  rw [Store.getBlock_putBlock, ← hsame.getBlock] at hb
  split at hb
  case isTrue => exact .inr (Option.some_inj.1 hb).symm
  case isFalse => exact .inl hb

/-- **How a block comes to be held.** -/
theorem held_step (hs : n.Step C cfg m out) {h : UInt64} {b : Block}
    (hb : out.1.store.getBlock h = some b) :
    n.store.getBlock h = some b ∨ n.Commits C m out.2 b := by
  cases hs with
  | finalized t t' hp hf =>
    rcases getBlock_putBlock_cases ⟨rfl, rfl⟩ hb with hb | rfl
    · exact .inl hb
    · exact .inr (.pending hp hf)
  | applied hp hs hr =>
    rcases getBlock_putBlock_cases (sameChain_replayBlock _ _) hb with hb | rfl
    · exact .inl hb
    · exact .inr (.proposal rfl hp (by rw [hs]; rfl) (by simp))
  | @diverged b' rest sig hp hs hr =>
    rw [(sameChain_replayBlock (C := C) (P := cfg.params) b' n.store).getBlock]
    exact .inl hb
  | @rejectedAll prev t t' hp hv | @proposed prev t t' hp hv hc hf =>
    rw [(sameChain_ran cfg.params n t).getBlock]
    exact .inl hb
  | @committed prev t t' hp hv hc hf =>
    rcases getBlock_putBlock_cases (sameChain_ran cfg.params n t) hb with hb | rfl
    · exact .inl hb
    · exact .inr (.own (by simp) ownSigned_block (.inl hf))
  | @solo prev t t' hp hv hc =>
    rcases getBlock_putBlock_cases (sameChain_ran cfg.params n t) hb with hb | rfl
    · exact .inl hb
    · exact .inr (.own (by simp) ownSigned_block (.inr (List.length_eq_zero_iff.1 hc)))
  | _ => exact .inl hb

end RoutineChain
