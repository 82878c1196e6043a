import RoutineChain.Spec.Consensus

/-!
# What a follower has checked when it signs

`verify_and_sign` looks at the first signature only, under the name that it carries. It
compares that name with no one's: a name without a known key is not verified at all.

* `verifyAndSign_eq_some`: the checks, and the signature if they pass.
* `authenticProposer_iff`: a follower signs only what its leader has made, as long as the first
  signature is in the proposer's name.
-/

namespace RoutineChain

open Bincode

variable {C : Crypto} {c : Consensus} {b : Block} {prev : Hash}

namespace Consensus

theorem mem_allNodeIds {id : Id} :
    id ∈ c.allNodeIds ↔ id = c.nodeId ∨ ∃ p ∈ c.peers, p.id = id := by
  simp [allNodeIds, or_comm]

/-- The list is sorted, so it does not depend on the order in which the nodes are known. -/
theorem allNodeIds_of_perm {ids : List Id} (h : (c.nodeId :: c.peers.map (·.id)).Perm ids) :
    c.allNodeIds = ids.insertionSort (· ≤ ·) := by
  have hperm : (c.peers.map (·.id) ++ [c.nodeId]).Perm ids :=
    (List.perm_append_singleton _ _).trans h
  refine List.Perm.eq_of_pairwise' (r := (· ≤ ·)) (List.pairwise_insertionSort _ _)
    (List.pairwise_insertionSort _ _) ?_
  exact (List.perm_insertionSort _ _).trans (hperm.trans (List.perm_insertionSort _ _).symm)

theorem getPeerKey_isSome {id : Id} :
    (c.getPeerKey id).isSome ↔ id ≠ c.nodeId ∧ id ∈ c.allNodeIds := by
  rw [mem_allNodeIds]
  unfold getPeerKey
  by_cases h : id = c.nodeId
  · simp [h]
  · simp [h]

/-- The leader is an entry of the sorted list of the nodes. -/
theorem leader_eq (c : Consensus) (height : UInt64) (round : UInt32) :
    c.allNodeIds[(height + round.toUInt64).toNat % c.allNodeIds.length]? =
      some (c.leaderForHeightRound height round) := by
  have hown : c.nodeId ∈ c.allNodeIds := mem_allNodeIds.2 (.inl rfl)
  have hne : ¬ c.allNodeIds.isEmpty := by
    rw [List.isEmpty_iff]
    exact List.ne_nil_of_mem hown
  have hlt := Nat.mod_lt (height + round.toUInt64).toNat (List.length_pos_of_mem hown)
  simp only [leaderForHeightRound, if_neg hne]
  rw [List.getD_eq_getElem?_getD, List.getElem?_eq_getElem hlt, Option.getD_some]

theorem leader_mem (height : UInt64) (round : UInt32) :
    c.leaderForHeightRound height round ∈ c.allNodeIds :=
  List.mem_of_getElem? (c.leader_eq height round)

/-- The leader depends on the list of the nodes only. -/
theorem leader_congr {c' : Consensus} (h : c.allNodeIds = c'.allNodeIds) (height : UInt64)
    (round : UInt32) :
    c.leaderForHeightRound height round = c'.leaderForHeightRound height round := by
  have hc := c.leader_eq height round
  rw [h, c'.leader_eq height round, Option.some_inj] at hc
  exact hc.symm

end Consensus

/-- The own id has no peer key, so asking for it first changes nothing. -/
theorem proposerKey_eq (c : Consensus) (id : Id) :
    (if id = c.nodeId then none else c.getPeerKey id) = c.getPeerKey id := by
  unfold Consensus.getPeerKey
  split <;> rfl

/-- The checks of `verify_and_sign`. -/
structure Verified (C : Crypto) (c : Consensus) (b : Block) (prev : Hash) : Prop where
  proposer : c.isValidProposer b
  prevHash : b.header.prevHash = prev
  /-- The first signature verifies, if it is a known peer's. -/
  signed : ∃ sig, b.signatures.head? = some sig ∧
    ∀ key, c.getPeerKey sig.nodeId = some key →
      C.verify (serialize b.header) sig.signature key
  txHash : computeTxHash C b.transactions = b.header.txHash

/-- **A follower signs exactly what passes the checks**, and its signature is its own. -/
theorem verifyAndSign_eq_some {sig : NodeSignature} :
    c.verifyAndSign C b prev = some sig ↔ Verified C c b prev ∧ sig = c.signHeader C b.header := by
  unfold Consensus.verifyAndSign
  simp only [Option.bind_eq_bind, Option.bind_eq_some_iff, Option.guard_eq_some', proposerKey_eq]
  constructor
  · rintro ⟨-, hprop, -, hprev, psig, hpsig, h⟩
    -- A proposer that is not a known peer passes without a check.
    split at h
    case h_1 key hkey =>
      simp only [Option.bind_eq_some_iff, Option.guard_eq_some'] at h
      obtain ⟨-, hv, -, htx, h⟩ := h
      cases h
      refine ⟨⟨hprop, hprev, ⟨psig, hpsig, ?_⟩, htx⟩, rfl⟩
      intro key' hkey'
      rw [hkey] at hkey'
      cases hkey'
      exact hv
    case h_2 hnone =>
      simp only [Option.bind_eq_some_iff, Option.guard_eq_some'] at h
      obtain ⟨-, htx, h⟩ := h
      cases h
      exact ⟨⟨hprop, hprev, ⟨psig, hpsig, fun key hkey => absurd hkey (hnone key)⟩, htx⟩, rfl⟩
  · rintro ⟨⟨hprop, hprev, ⟨psig, hpsig, hv⟩, htx⟩, rfl⟩
    refine ⟨(), hprop, (), hprev, psig, hpsig, ?_⟩
    split
    case h_1 key hkey =>
      simp only [Option.bind_eq_some_iff, Option.guard_eq_some']
      exact ⟨(), hv key hkey, (), htx, rfl⟩
    case h_2 =>
      simp only [Option.bind_eq_some_iff, Option.guard_eq_some']
      exact ⟨(), htx, rfl⟩

/-! ## The proposer of a signed block -/

/-- The signature is one of the header's proposer, under the key that the node holds for it. -/
def ProposerSig (C : Crypto) (c : Consensus) (b : Block) (sig : NodeSignature) : Prop :=
  sig.nodeId = b.header.proposer ∧ ∃ key, c.getPeerKey b.header.proposer = some key ∧
    C.verify (serialize b.header) sig.signature key

/-- Signatures cannot be forged: who holds a key has created every header that verifies
under it. -/
def Unforgeable (C : Crypto) (created : Id → BlockHeader → Prop) : Prop :=
  ∀ h sig key, C.verify (serialize h) sig key → created key h

/-- **Proposer authenticity** of what the node signs. -/
structure LeaderMade (C : Crypto) (c : Consensus) (b : Block) (prev : Hash) : Prop where
  proposer : b.header.proposer = c.leaderForHeightRound b.header.height c.round
  prevHash : b.header.prevHash = prev
  txHash : b.header.txHash = computeTxHash C b.transactions
  signed : ∃ sig ∈ b.signatures, ProposerSig C c b sig
  created : ∀ created, Unforgeable C created →
    ∃ key, c.getPeerKey b.header.proposer = some key ∧ created key b.header

/-- The first signature is in the name of the header's proposer. -/
def FirstByProposer (b : Block) : Prop :=
  ∀ sig, b.signatures.head? = some sig → sig.nodeId = b.header.proposer

/-- A first signature in the name of the leader has been verified. -/
theorem Verified.proposerSig (h : Verified C c b prev)
    (hleader : c.leaderForHeightRound b.header.height c.round ≠ c.nodeId)
    {sig : NodeSignature} (hhead : b.signatures.head? = some sig)
    (hname : sig.nodeId = b.header.proposer) : ProposerSig C c b sig := by
  have hprop : b.header.proposer = c.leaderForHeightRound b.header.height c.round :=
    beq_iff_eq.1 h.proposer
  -- The leader is another node, so it is a peer with a key.
  have hkey : (c.getPeerKey b.header.proposer).isSome := by
    rw [Consensus.getPeerKey_isSome, hprop]
    exact ⟨hleader, Consensus.leader_mem _ _⟩
  obtain ⟨key, hkey⟩ := Option.isSome_iff_exists.1 hkey
  obtain ⟨sig', hhead', hv⟩ := h.signed
  rw [hhead, Option.some_inj] at hhead'
  subst hhead'
  exact ⟨hname, key, hkey, hv key (hname ▸ hkey)⟩

/-- **Proposer authenticity** for one block: the node signs it only if its leader has made it. -/
def AuthenticProposer (C : Crypto) (c : Consensus) (b : Block) (prev : Hash) : Prop :=
  (c.verifyAndSign C b prev).isSome → LeaderMade C c b prev

/-- A block whose first signature is in the proposer's name is signed only if the leader has
made it, whatever else it carries. -/
theorem authenticProposer_of_first
    (hleader : c.leaderForHeightRound b.header.height c.round ≠ c.nodeId)
    (hfirst : FirstByProposer b) : AuthenticProposer C c b prev := by
  intro hsome
  obtain ⟨sig, hsig⟩ := Option.isSome_iff_exists.1 hsome
  have hver := (verifyAndSign_eq_some.1 hsig).1
  obtain ⟨psig, hhead, -⟩ := hver.signed
  have hproposer := hver.proposerSig hleader hhead (hfirst psig hhead)
  refine ⟨beq_iff_eq.1 hver.proposer, hver.prevHash, hver.txHash.symm,
    ⟨psig, List.mem_of_head? hhead, hproposer⟩, ?_⟩
  intro created hforge
  obtain ⟨-, key, hkey, hv⟩ := hproposer
  exact ⟨key, hkey, hforge _ _ _ hv⟩

/-- With no further signature there is no other one that could be the proposer's. -/
theorem LeaderMade.first {sig : NodeSignature} (h : LeaderMade C c b prev)
    (hone : b.signatures = [sig]) : FirstByProposer b := by
  obtain ⟨psig, hm, hname, -⟩ := h.signed
  rw [hone, List.mem_singleton] at hm
  subst hm
  intro sig hhead
  rw [hone, List.head?_cons, Option.some_inj] at hhead
  rw [← hhead]
  exact hname

/-- **A follower signs only what its leader has made** if the first signature is in the
proposer's name; and of the blocks with one signature that it signs, as a proposal of the code
has one, the leader has made exactly these. -/
theorem authenticProposer_iff
    (hleader : c.leaderForHeightRound b.header.height c.round ≠ c.nodeId) :
    (FirstByProposer b → AuthenticProposer C c b prev) ∧
    (∀ sig, b.signatures = [sig] → (c.verifyAndSign C b prev).isSome →
      (AuthenticProposer C c b prev ↔ FirstByProposer b)) := by
  refine ⟨authenticProposer_of_first hleader, ?_⟩
  intro sig hone hsome
  refine ⟨?_, authenticProposer_of_first hleader⟩
  intro hauth
  exact (hauth hsome).first hone

/-- Node 1, with the peers 2 and 3. -/
def Consensus.toyFollower : Consensus := .new 1 1 [⟨2, "", 2⟩, ⟨3, "", 3⟩] 2

/-- An empty block of height 1 in the name of node 2, with these signatures. -/
def Block.toyUnder (signatures : List NodeSignature) : Block :=
  { header :=
      { height := 1, prevHash := 7, timestamp := 0, txCount := 0, txHash := emptyHash,
        stateRoot := emptyHash, proposer := 2 },
    transactions := [], signatures }

/-- The block of `toyUnder` with the signature of node 2. -/
def Block.toySigned : Block :=
  .toyUnder [⟨2, Crypto.toy.sign (serialize (Block.toyUnder []).header) 2⟩]

/-- Node 1 signs what node 2 has signed first, and what is signed in no node's name. -/
theorem authenticProposer_iff_toy : AuthenticProposer .toy .toyFollower .toySigned 7 ∧
    ¬ AuthenticProposer .toy .toyFollower (.toyUnder [⟨9, 0⟩]) 7 := by
  have hfirst : FirstByProposer .toySigned := by
    intro sig hhead
    rw [← Option.some_inj.1 hhead]
    rfl
  refine ⟨(authenticProposer_iff (by decide +kernel)).1 hfirst, ?_⟩
  intro hauth
  have hname := ((authenticProposer_iff (by decide +kernel)).2 ⟨9, 0⟩ rfl (by decide +kernel)).1
    hauth ⟨9, 0⟩ rfl
  exact absurd hname (by decide)

/-- Nobody has: its one signature is in the name of a node that does not exist. -/
theorem authenticProposer_fails : ¬ ∀ b,
    Consensus.toyFollower.leaderForHeightRound b.header.height 0 ≠ 1 →
    AuthenticProposer .toy .toyFollower b 7 := by
  intro h
  obtain ⟨sig, hm, hname, -⟩ := (h (.toyUnder [⟨9, 0⟩]) (by decide +kernel)
    (by decide +kernel)).signed
  rw [List.mem_singleton.1 hm] at hname
  exact absurd hname (by decide)

end RoutineChain
