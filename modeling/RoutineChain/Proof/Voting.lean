import RoutineChain.Proof.Disputes

/-!
# Votes on a dispute

Each vote is by another registered arbiter, the votes are counted against the threshold in
every phase, and a resolved dispute is decided as the majority of its votes says. A split
vote counts for both sides, so it decides nothing.
-/

namespace RoutineChain

open Std

/-! ## The tally -/

/-- The number of votes for a decision. -/
def votesFor (dec : DisputeDecision) (votes : List DisputeVote) : ℕ :=
  votes.countP (·.decision = dec.toU8)

/-- What the votes decide: the side with more votes of its own, or a split. -/
def majority (votes : List DisputeVote) : DisputeDecision :=
  if votesFor .favorSeller votes < votesFor .favorBuyer votes then .favorBuyer
  else if votesFor .favorBuyer votes < votesFor .favorSeller votes then .favorSeller
  else .split

theorem votesFor_cons (dec : DisputeDecision) (v : DisputeVote) (votes : List DisputeVote) :
    votesFor dec (v :: votes) = votesFor dec [v] + votesFor dec votes := by
  show votesFor dec ([v] ++ votes) = _
  exact List.countP_append

/-- A split vote is not one for a side. -/
theorem votesFor_singleton_le (v : DisputeVote) (dec : DisputeDecision) (hdec : dec ≠ .split) :
    votesFor dec [v] + votesFor .split [v] ≤ 1 := by
  by_cases h2 : v.decision = 2
  · have hside : votesFor dec [v] = 0 := by
      cases dec with
      | favorBuyer | favorSeller => simp [votesFor, DisputeDecision.toU8, h2]
      | split => exact absurd rfl hdec
    have hle : votesFor .split [v] ≤ 1 := List.countP_le_length
    omega
  · have hsplit : votesFor .split [v] = 0 := by
      simp [votesFor, DisputeDecision.toU8, h2]
    have hle : votesFor dec [v] ≤ 1 := List.countP_le_length
    omega

/-- One vote, where the counters do not overflow. -/
theorem tallyVote_toNat (v : DisputeVote) {b s : UInt32} (hb : b.toNat + 1 < 2 ^ 32)
    (hs : s.toNat + 1 < 2 ^ 32) :
    (tallyVote (b, s) v).1.toNat = b.toNat + votesFor .favorBuyer [v] + votesFor .split [v] ∧
    (tallyVote (b, s) v).2.toNat = s.toNat + votesFor .favorSeller [v] + votesFor .split [v] := by
  have hadd : ∀ n : UInt32, n.toNat + 1 < 2 ^ 32 → (n + 1).toNat = n.toNat + 1 := by
    intro n hn
    rw [UInt32.toNat_add, UInt32.toNat_one]
    omega
  have hb₁ := hadd b hb
  have hs₁ := hadd s hs
  by_cases h0 : v.decision = 0
  · simp [tallyVote, votesFor, DisputeDecision.toU8, h0, hb₁]
  by_cases h1 : v.decision = 1
  · simp [tallyVote, votesFor, DisputeDecision.toU8, h1, hs₁]
  by_cases h2 : v.decision = 2
  · simp [tallyVote, votesFor, DisputeDecision.toU8, h2, hb₁, hs₁]
  · simp [tallyVote, votesFor, DisputeDecision.toU8, h0, h1, h2]

/-- Both counters of the tally, as long as they do not overflow. -/
theorem foldl_tallyVote (votes : List DisputeVote) (b s : UInt32)
    (hb : b.toNat + votes.length < 2 ^ 32) (hs : s.toNat + votes.length < 2 ^ 32) :
    (votes.foldl tallyVote (b, s)).1.toNat =
      b.toNat + votesFor .favorBuyer votes + votesFor .split votes ∧
    (votes.foldl tallyVote (b, s)).2.toNat =
      s.toNat + votesFor .favorSeller votes + votesFor .split votes := by
  induction votes generalizing b s with
  | nil => simp [votesFor]
  | cons v votes ih =>
    rw [List.length_cons] at hb hs
    obtain ⟨hb₁, hs₁⟩ := tallyVote_toNat v (b := b) (s := s) (by omega) (by omega)
    have hbuyer := votesFor_singleton_le v .favorBuyer (by decide)
    have hseller := votesFor_singleton_le v .favorSeller (by decide)
    obtain ⟨hb₂, hs₂⟩ := ih (tallyVote (b, s) v).1 (tallyVote (b, s) v).2 (by omega) (by omega)
    rw [List.foldl_cons, votesFor_cons .favorBuyer, votesFor_cons .favorSeller,
      votesFor_cons .split]
    refine ⟨?_, ?_⟩
    · rw [hb₂, hb₁]
      omega
    · rw [hs₂, hs₁]
      omega

/-- **The resolution is the majority.** -/
theorem resolutionOf_eq {votes : List DisputeVote} (h : votes.length < 2 ^ 32) :
    resolutionOf votes = (majority votes).toU8 := by
  obtain ⟨hb, hs⟩ := foldl_tallyVote votes 0 0 (by simpa using h) (by simpa using h)
  have hzero : (0 : UInt32).toNat = 0 := rfl
  unfold resolutionOf majority
  simp only [UInt32.lt_iff_toNat_lt, gt_iff_lt, hb, hs]
  by_cases hbuyer : votesFor .favorSeller votes < votesFor .favorBuyer votes
  · rw [if_pos (by omega), if_pos hbuyer]
    rfl
  by_cases hseller : votesFor .favorBuyer votes < votesFor .favorSeller votes
  · rw [if_neg (by omega), if_pos (by omega), if_neg hbuyer, if_pos hseller]
    rfl
  · rw [if_neg (by omega), if_neg (by omega), if_neg hbuyer, if_neg hseller]
    rfl

/-! ## The voting invariant -/

/-- **What holds of every stored dispute**, at the threshold `T`. -/
structure Dispute.VotesOK (T : ℕ) (r : Records) (dis : Dispute) : Prop where
  voters : (dis.votes.map (·.voter)).Nodup
  arbiters : ∀ v ∈ dis.votes, ∃ p, r.participants[v.voter]? = some p ∧
    p.pType = ParticipantType.arbiter.toU8
  early : dis.state = .raised ∨ dis.state = .evidence → dis.votes = []
  voting : dis.state = .voting → 1 ≤ dis.votes.length ∧ dis.votes.length < T
  resolved : dis.state = .resolved ↔ dis.votes.length = max 1 T
  resolution : dis.resolution.isSome ↔ dis.state = .resolved
  resolvedAt : dis.resolvedAt.isSome ↔ dis.state = .resolved
  majority : dis.state = .resolved → dis.resolution = some (majority dis.votes).toU8

section VotesOK

variable {P : Params} {T : ℕ} {a : Id} {t : Int64} {r r' : Records} {p : TxPayload} {d : Id}
  {dis : Dispute} {dec : DisputeDecision}

/-- Arbiters stay registered as arbiters. -/
theorem Dispute.VotesOK.mono (h : dis.VotesOK T r) (hk : r.KeepsOthers a r') :
    dis.VotesOK T r' := by
  refine ⟨h.voters, ?_, h.early, h.voting, h.resolved, h.resolution, h.resolvedAt, h.majority⟩
  intro v hv
  obtain ⟨p, hp, hty⟩ := h.arbiters v hv
  obtain ⟨p', hp', hsame, -⟩ := hk.kept v.voter p hp
  exact ⟨p', hp', hsame.pType.trans hty⟩

/-- Before it is resolved, a dispute misses at least one vote. -/
theorem Dispute.VotesOK.length_lt (h : dis.VotesOK T r) (hs : dis.state ≠ .resolved) :
    dis.votes.length < max 1 T := by
  cases hstate : dis.state with
  | raised => simp [h.early (.inl hstate)]
  | evidence => simp [h.early (.inr hstate)]
  | voting =>
    have := h.voting hstate
    omega
  | resolved => exact absurd hstate hs

theorem Dispute.length_voted : (dis.voted a dec t).votes.length = dis.votes.length + 1 := by
  simp [Dispute.voted]

/-- A new voter joins the others. -/
theorem Dispute.VotesOK.voters_voted (h : dis.VotesOK T r) (hv : ∀ v ∈ dis.votes, v.voter ≠ a) :
    ((dis.voted a dec t).votes.map (·.voter)).Nodup := by
  simp only [Dispute.voted, List.map_append, List.map_cons, List.map_nil]
  refine List.Nodup.append h.voters (List.nodup_singleton a) ?_
  intro x hx hxa
  obtain ⟨v, hmem, rfl⟩ := List.mem_map.1 hx
  exact hv v hmem (List.mem_singleton.1 hxa)

theorem Dispute.VotesOK.arbiters_voted (h : dis.VotesOK T r) {q : Participant}
    (hq : r.participants[a]? = some q) (ha : q.pType = ParticipantType.arbiter.toU8) :
    ∀ v ∈ (dis.voted a dec t).votes, ∃ p, r.participants[v.voter]? = some p ∧
      p.pType = ParticipantType.arbiter.toU8 := by
  intro v hv
  rcases List.mem_append.1 hv with hold | hnew
  · exact h.arbiters v hold
  · rw [List.mem_singleton.1 hnew]
    exact ⟨q, hq, ha⟩

theorem Dispute.VotesOK.unresolved (h : dis.VotesOK T r) (hs : dis.state ≠ .resolved) :
    dis.resolution = none ∧ dis.resolvedAt = none := by
  have h₁ := mt h.resolution.1 hs
  have h₂ := mt h.resolvedAt.1 hs
  exact ⟨Option.not_isSome_iff_eq_none.1 h₁, Option.not_isSome_iff_eq_none.1 h₂⟩

/-- A dispute that is not decided has fewer votes than it takes, and no resolution. -/
theorem Dispute.VotesOK.of_open (hs : dis.state ≠ .resolved) (hlt : dis.votes.length < max 1 T)
    (hres : dis.resolution = none) (hat : dis.resolvedAt = none)
    (hvoters : (dis.votes.map (·.voter)).Nodup)
    (harbiters : ∀ v ∈ dis.votes, ∃ p, r.participants[v.voter]? = some p ∧
      p.pType = ParticipantType.arbiter.toU8)
    (hearly : dis.state = .raised ∨ dis.state = .evidence → dis.votes = [])
    (hvoting : dis.state = .voting → 1 ≤ dis.votes.length ∧ dis.votes.length < T) :
    dis.VotesOK T r := by
  refine ⟨hvoters, harbiters, hearly, hvoting, ?_, ?_, ?_, fun h => absurd h hs⟩
  · refine ⟨fun h => absurd h hs, ?_⟩
    intro hlen
    omega
  · simp [hres, hs]
  · simp [hat, hs]

theorem DisputeChange.votesOK {o : Option Dispute} {dis' : Dispute}
    (h : DisputeChange P r a t p d o (some dis')) (hT : P.disputeVoteThreshold < 2 ^ 32)
    (ho : ∀ dis : Dispute, o = some dis → dis.VotesOK P.disputeVoteThreshold r) :
    dis'.VotesOK P.disputeVoteThreshold r := by
  cases h with
  | same => exact ho dis' rfl
  | raised _ _ _ _ _ =>
    refine .of_open ?_ ?_ rfl rfl List.nodup_nil ?_ ?_ ?_
    · simp [Dispute.new]
    · simp only [Dispute.new, List.length_nil]
      omega
    · simp [Dispute.new]
    · intro _
      rfl
    · simp [Dispute.new]
  | @evidence ev dis _ hs =>
    have hok := ho dis rfl
    have hopen : dis.state ≠ .resolved := by rcases hs with hs | hs <;> simp [hs]
    obtain ⟨hres, hat⟩ := hok.unresolved hopen
    refine .of_open ?_ (hok.length_lt hopen) hres hat hok.voters hok.arbiters ?_ ?_
    · simp
    · intro _
      exact hok.early hs
    · simp
  | @voted dec dis q _ hq ha hs hv hm =>
    have hok := ho dis rfl
    obtain ⟨hres, hat⟩ := hok.unresolved hs
    have hlt : (dis.voted a dec t).votes.length < max 1 P.disputeVoteThreshold := by omega
    refine .of_open ?_ hlt hres hat (hok.voters_voted hv) (hok.arbiters_voted hq ha) ?_ ?_
    · simp [Dispute.voted]
    · simp [Dispute.voted]
    · intro _
      rw [Dispute.length_voted] at hm ⊢
      omega
  | @decided dec dis q _ hq ha hs hv hm =>
    have hok := ho dis rfl
    have hlt := hok.length_lt hs
    -- the last vote brings the votes to the threshold, and not above it
    have hlen : (dis.voted a dec t).votes.length = max 1 P.disputeVoteThreshold := by
      rw [Dispute.length_voted] at hm ⊢
      omega
    have hmajority : some (resolutionOf (dis.voted a dec t).votes) =
        some (majority (dis.voted a dec t).votes).toU8 := by
      have hbound : (dis.voted a dec t).votes.length < 2 ^ 32 := by omega
      exact congrArg some (resolutionOf_eq hbound)
    refine ⟨hok.voters_voted hv, hok.arbiters_voted hq ha, ?_, ?_, ?_, ?_, ?_, ?_⟩
    · simp [Dispute.resolved]
    · simp [Dispute.resolved]
    · simpa [Dispute.resolved] using hlen
    · simp [Dispute.resolved]
    · simp [Dispute.resolved]
    · intro _
      exact hmajority

end VotesOK

/-- **The voting invariant** of every reachable state. -/
theorem executeAll_votesOK (P : Params) (hT : P.disputeVoteThreshold < 2 ^ 32) (l : List Timed)
    (d : Id) (dis : Dispute) (hd : (executeAll P l).store.records.disputes[d]? = some dis) :
    dis.VotesOK P.disputeVoteThreshold (executeAll P l).store.records := by
  refine executeAll_inv (P := P) (C := fun _ _ => True)
    (I := fun r _ => ∀ (d : Id) (dis : Dispute), r.disputes[d]? = some dis →
      dis.VotesOK P.disputeVoteThreshold r) ?_ ?_ (Runs.along_true _ l) d dis hd
  · intro d dis hd
    simp [Records.empty] at hd
  · intro x tx t es r' hI _ _ hout d dis' hd'
    have hchange := hout.disputeChange d
    rw [hd'] at hchange
    have hok := hchange.votesOK hT fun dis hdis => hI d dis hdis
    exact hok.mono hout.keepsOthers

/-- The dispute of the example run, decided by one vote. -/
theorem executeAll_votesOK_toy : ∃ dis,
    (executeAll .toyOneVote toyDecided).store.records.disputes[(8 : Id)]? = some dis ∧
      dis.VotesOK 1 (executeAll .toyOneVote toyDecided).store.records := by
  have hsome : ((executeAll .toyOneVote toyDecided).store.records.disputes[(8 : Id)]?).isSome := by
    decide +kernel
  obtain ⟨dis, hd⟩ := Option.isSome_iff_exists.1 hsome
  exact ⟨dis, hd, executeAll_votesOK .toyOneVote (by decide) toyDecided 8 dis hd⟩

end RoutineChain
