import Mathlib.Data.Finset.Card
import Mathlib.Data.Fintype.Card

/-!
# Votes and quorums

Voters cast votes for ballots, and each ballot belongs to a slot. A ballot is certified by a
quorum of voters. If every voter votes for one ballot per slot and two quorums are more
than all voters together, at most one ballot of a slot is certified. Faulty voters, who vote for
any ballots, count twice.
-/

namespace Quorum

variable {V B K : Type*} (voted : V → B → Prop) (slot : B → K)

/-- No voter votes for two ballots of one slot. -/
def VotesOnce : Prop := ∀ v b b', voted v b → voted v b' → slot b = slot b' → b = b'

/-- At least `q` voters have voted for a ballot. -/
def Certified (q : ℕ) (b : B) : Prop := ∃ S : Finset V, q ≤ S.card ∧ ∀ v ∈ S, voted v b

variable {voted slot} {voted' : V → B → Prop} {q q' : ℕ} {b b' : B}

/-- Votes are not taken back. -/
theorem Certified.mono (h : Certified voted q b) (hv : ∀ v b, voted v b → voted' v b) :
    Certified voted' q b := by
  obtain ⟨S, hcard, hS⟩ := h
  exact ⟨S, hcard, fun v hm => hv v b (hS v hm)⟩

/-- One vote certifies a ballot if no more are asked for. -/
theorem certified_one {v : V} (h : voted v b) (hq : q ≤ 1) : Certified voted q b := by
  refine ⟨{v}, by simpa using hq, fun w hw => ?_⟩
  rwa [Finset.mem_singleton.1 hw]

/-- A quorum given by names of voters. -/
theorem certified_of_names {N : Type*} [DecidableEq N] [Fintype V] (name : V → N) {T : Finset N}
    (hq : q ≤ T.card) (hT : ∀ x ∈ T, ∃ v, name v = x ∧ voted v b) : Certified voted q b := by
  classical
  let S := Finset.univ.filter fun v => voted v b
  have hsub : T ⊆ S.image name := by
    intro x hx
    obtain ⟨v, rfl, hv⟩ := hT x hx
    exact Finset.mem_image_of_mem name (Finset.mem_filter.2 ⟨Finset.mem_univ v, hv⟩)
  exact ⟨S, hq.trans ((Finset.card_le_card hsub).trans Finset.card_image_le),
    fun v hm => (Finset.mem_filter.1 hm).2⟩

/-- **Two certified ballots of one slot are the same**, whatever some faulty voters do, if two
quorums are more than all voters and the faulty ones together. -/
theorem Certified.unique_of_faulty [Fintype V] {faulty : Finset V}
    (honce : ∀ v ∉ faulty, ∀ b b', voted v b → voted v b' → slot b = slot b' → b = b')
    (h : Certified voted q b) (h' : Certified voted q' b')
    (hq : Fintype.card V + faulty.card < q + q') (hslot : slot b = slot b') : b = b' := by
  classical
  obtain ⟨S, hS, hvS⟩ := h
  obtain ⟨T, hT, hvT⟩ := h'
  have hunion : (S ∪ T).card ≤ Fintype.card V := Finset.card_le_univ _
  have hinter : faulty.card < (S ∩ T).card := by
    have hsum := Finset.card_union_add_card_inter S T
    omega
  obtain ⟨v, hv, hsound⟩ := Finset.exists_mem_notMem_of_card_lt_card hinter
  rw [Finset.mem_inter] at hv
  exact honce v hsound b b' (hvS v hv.1) (hvT v hv.2) hslot

/-- **Two certified ballots of one slot are the same.** -/
theorem Certified.unique [Fintype V] (honce : VotesOnce voted slot)
    (h : Certified voted q b) (h' : Certified voted q' b') (hq : Fintype.card V < q + q')
    (hslot : slot b = slot b') : b = b' := by
  have hq' : Fintype.card V + (∅ : Finset V).card < q + q' := by rwa [Finset.card_empty]
  exact h.unique_of_faulty (fun v _ => honce v) h' hq' hslot

end Quorum
