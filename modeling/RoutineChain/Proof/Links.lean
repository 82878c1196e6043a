import RoutineChain.Proof.Disputes

/-!
# Escrows and their disputes

Escrows and disputes are linked one to one as long as a raise takes an escrow without a
dispute and an id without a dispute, or raises the dispute of the escrow again. Any other
raise that passes leaves a dispute without its escrow (`linked_iff`).
-/

namespace RoutineChain

open Std

/-- **Escrows and disputes point to each other.** -/
structure Records.Linked (r : Records) : Prop where
  disputed_iff : ∀ (e : Id) (esc : Escrow), r.escrows[e]? = some esc →
    (esc.state = .disputed ↔ esc.disputeId.isSome)
  dispute_of : ∀ (e : Id) (esc : Escrow) (d : Id), r.escrows[e]? = some esc →
    esc.disputeId = some d → ∃ dis, r.disputes[d]? = some dis ∧ dis.escrowId = e
  escrow_of : ∀ (d : Id) (dis : Dispute), r.disputes[d]? = some dis →
    ∃ esc, r.escrows[dis.escrowId]? = some esc ∧ esc.state = .disputed ∧ esc.disputeId = some d

/-- At most one dispute is stored for an escrow. -/
def Records.OneDispute (r : Records) : Prop :=
  ∀ (d d' : Id) (dis dis' : Dispute), r.disputes[d]? = some dis → r.disputes[d']? = some dis' →
    dis.escrowId = dis'.escrowId → d = d'

/-- A raise that passes takes an escrow without a dispute and an id without a dispute, or it
raises the dispute of the escrow again. -/
def RaisesLinked (x : Execution) (act : Timed) : Prop :=
  match act.1.payload with
  | .raiseDispute d e _ _ =>
    x.store.AllowsRaise act.1 e → ∀ esc ∈ x.store.records.escrows[e]?,
      esc.disputeId = some d ∨ (esc.disputeId = none ∧ x.store.records.disputes[d]? = none)
  | _ => True

instance (x : Execution) (act : Timed) : Decidable (RaisesLinked x act) := by
  unfold RaisesLinked
  induction act.1.payload using TxPayload.casesOn with
  | raiseDispute => infer_instance
  | _ => exact instDecidableTrue

section Linked

variable {P : Params} {a e d : Id} {t : Int64} {r r' : Records} {p : TxPayload} {es : List Event}
  {esc : Escrow} {dis : Dispute}

theorem Records.Linked.oneDispute (h : r.Linked) : r.OneDispute := by
  intro d d' dis dis' hd hd' heq
  obtain ⟨esc, he, -, hid⟩ := h.escrow_of d dis hd
  obtain ⟨esc', he', -, hid'⟩ := h.escrow_of d' dis' hd'
  rw [← heq, he, Option.some_inj] at he'
  subst he'
  exact Option.some_inj.1 (hid.symm.trans hid')

namespace Records.Linked

theorem of_eq (h : r.Linked) (he : r'.escrows = r.escrows) (hd : r'.disputes = r.disputes) :
    r'.Linked := by
  refine ⟨?_, ?_, ?_⟩
  · rw [he]
    exact h.disputed_iff
  · rw [he, hd]
    exact h.dispute_of
  · rw [he, hd]
    exact h.escrow_of

/-- An escrow is written that has no dispute, before or after. -/
theorem putEscrow (h : r.Linked)
    (hold : ∀ old : Escrow, r.escrows[e]? = some old → old.state ≠ .disputed)
    (hstate : esc.state ≠ .disputed) (hid : esc.disputeId = none) :
    (r.putEscrow e esc).Linked := by
  refine ⟨?_, ?_, ?_⟩
  · intro e' esc' he'
    rw [Records.putEscrow_escrows, Table.get_insert] at he'
    split at he'
    · rw [← Option.some_inj.1 he', hid]
      simpa using hstate
    · exact h.disputed_iff e' esc' he'
  · intro e' esc' d he' hd'
    rw [Records.putEscrow_escrows, Table.get_insert] at he'
    split at he'
    · rw [← Option.some_inj.1 he', hid] at hd'
      cases hd'
    · exact h.dispute_of e' esc' d he' hd'
  · intro d dis hd
    obtain ⟨esc', he', hs', hid'⟩ := h.escrow_of d dis hd
    refine ⟨esc', ?_, hs', hid'⟩
    -- the escrow of a dispute is disputed, so another one
    have hne : e ≠ dis.escrowId := by
      rintro rfl
      exact hold esc' he' hs'
    rw [Records.putEscrow_escrows, Table.get_insert, if_neg hne]
    exact he'

/-- A dispute is written that keeps its escrow. -/
theorem putDispute {old : Dispute} (h : r.Linked) (hd : r.disputes[d]? = some old)
    (heq : dis.escrowId = old.escrowId) : (r.putDispute d dis).Linked := by
  refine ⟨h.disputed_iff, ?_, ?_⟩
  · intro e esc d' he hid
    obtain ⟨dis', hd', hesc⟩ := h.dispute_of e esc d' he hid
    rw [Records.putDispute_disputes, Table.get_insert]
    by_cases hdd : d = d'
    · subst hdd
      rw [hd, Option.some_inj] at hd'
      subst hd'
      exact ⟨dis, by rw [if_pos rfl], heq.trans hesc⟩
    · rw [if_neg hdd]
      exact ⟨dis', hd', hesc⟩
  · intro d' dis' hd'
    rw [Records.putDispute_disputes, Table.get_insert] at hd'
    split at hd'
    next hdd =>
      subst hdd
      rw [← Option.some_inj.1 hd', heq]
      exact h.escrow_of d old hd
    · exact h.escrow_of d' dis' hd'

/-- A dispute `d` over `e` is written with a pointer to it: `e` had no other dispute, and `d`
no other escrow. -/
theorem raise (h : r.Linked) (dis : Dispute) (he : r.escrows[e]? = some esc)
    (hesc : ∀ d', esc.disputeId = some d' → d' = d)
    (hdis : ∀ old : Dispute, r.disputes[d]? = some old → old.escrowId = e)
    (hnew : dis.escrowId = e) (hr' : r'.escrows = r.escrows.insert e
      { esc with state := .disputed, disputeId := some d })
    (hd' : r'.disputes = r.disputes.insert d dis) : r'.Linked := by
  refine ⟨?_, ?_, ?_⟩
  · intro e' esc' he'
    rw [hr', Table.get_insert] at he'
    split at he'
    · rw [← Option.some_inj.1 he']
      simp
    · exact h.disputed_iff e' esc' he'
  · intro e' esc' d' he' hid
    rw [hr', Table.get_insert] at he'
    rw [hd', Table.get_insert]
    split at he'
    next hee =>
      rw [← Option.some_inj.1 he', Option.some_inj] at hid
      rw [if_pos hid]
      exact ⟨dis, rfl, hnew.trans hee⟩
    next hee =>
      obtain ⟨dis', hdis', hesc'⟩ := h.dispute_of e' esc' d' he' hid
      have hne : d ≠ d' := by
        rintro rfl
        exact hee ((hdis dis' hdis').symm.trans hesc')
      rw [if_neg hne]
      exact ⟨dis', hdis', hesc'⟩
  · intro d' dis' hdis'
    rw [hd', Table.get_insert] at hdis'
    rw [hr', Table.get_insert]
    split at hdis'
    next hdd =>
      subst hdd
      rw [← Option.some_inj.1 hdis', hnew, if_pos rfl]
      exact ⟨_, rfl, rfl, rfl⟩
    next hdd =>
      obtain ⟨esc', he', hs', hid'⟩ := h.escrow_of d' dis' hdis'
      have hne : e ≠ dis'.escrowId := by
        rintro rfl
        rw [he, Option.some_inj] at he'
        subst he'
        exact hdd (hesc d' hid').symm
      rw [if_neg hne]
      exact ⟨esc', he', hs', hid'⟩

end Records.Linked

theorem Escrow.state_ne_disputed (h : esc.state = .created ∨ esc.state = .funded) :
    esc.state ≠ .disputed := by
  rcases h with h | h <;> simp [h]

theorem Records.Linked.no_dispute (h : r.Linked) (he : r.escrows[e]? = some esc)
    (hs : esc.state ≠ .disputed) : esc.disputeId = none := by
  rw [← Option.not_isSome_iff_eq_none, ← h.disputed_iff e esc he]
  exact hs

/-- An open escrow is written and does not become disputed. -/
theorem Records.Linked.putOpen (h : r.Linked) (he : r.escrows[e]? = some esc)
    (hopen : esc.state = .created ∨ esc.state = .funded) (esc' : Escrow)
    (hstate : esc'.state ≠ .disputed) (hid : esc'.disputeId = esc.disputeId) :
    (r.putEscrow e esc').Linked := by
  have hne := Escrow.state_ne_disputed hopen
  refine h.putEscrow ?_ hstate (hid.trans (h.no_dispute he hne))
  intro old hold
  rw [he, Option.some_inj] at hold
  exact hold ▸ hne

/-- A payload keeps the links, as long as a raise does. -/
theorem TxPayload.Outcome.linked (h : p.Outcome P a t r es r') (hr : r.Linked)
    (hraise : ∀ d e reason ev esc, p = .raiseDispute d e reason ev → r.escrows[e]? = some esc →
      (a = esc.buyer ∨ a = esc.seller) → ¬ esc.Settled →
      esc.disputeId = some d ∨ (esc.disputeId = none ∧ r.disputes[d]? = none)) :
    r'.Linked := by
  cases h with
  | registered _ | updated _ | deactivated _ | transferred _ _ | spent _ _ | anchored _ _ =>
    exact hr.of_eq rfl rfl
  | settled _ => exact hr.of_eq (by simp) (by simp)
  | rated _ => exact hr.of_eq (by simp) (by simp)
  | created hnew _ _ =>
    refine hr.putEscrow ?_ nofun rfl
    intro old hold
    rw [hnew] at hold
    cases hold
  | @released e ev esc b s he _ hopen _ _ _ =>
    have hput := hr.putOpen he hopen { esc with state := .released, evidenceHash := some ev }
      nofun rfl
    exact hput.of_eq (by simp) (by simp)
  | @refunded e esc s he _ hopen _ =>
    exact (hr.putOpen he hopen { esc with state := .refunded } nofun rfl).of_eq rfl rfl
  | @raised d e reason ev esc he ha hs =>
    have hcond := hraise d e reason ev esc rfl he ha hs
    refine hr.raise (d := d) (.new d e a reason ev t) he ?_ ?_ rfl (by simp) (by simp)
    · intro d' hd'
      rcases hcond with hsame | ⟨hnone, -⟩
      · rw [hsame, Option.some_inj] at hd'
        exact hd'.symm
      · rw [hnone] at hd'
        cases hd'
    · intro old hold
      rcases hcond with hsame | ⟨-, hnone⟩
      · obtain ⟨dis, hdis, heq⟩ := hr.dispute_of e esc d he hsame
        rw [hold, Option.some_inj] at hdis
        exact hdis ▸ heq
      · rw [hnone] at hold
        cases hold
  | evidence hd _ _ _ => exact hr.putDispute hd rfl
  | voted hd _ _ _ _ _ => exact hr.putDispute hd rfl
  | @decided d dec dis p esc hd _ _ _ _ _ _ =>
    set res := resolutionOf (dis.voted a dec t).votes
    have hres : (r.resolve esc dis.raisedBy res P.rewards.disputeWon).Linked :=
      hr.of_eq (by simp) (by simp)
    have hstored : (r.resolve esc dis.raisedBy res P.rewards.disputeWon).disputes[d]? =
        some dis := by
      rw [Records.resolve_disputes, hd]
    exact hres.putDispute hstored rfl

theorem executeAll_linked {l : List Timed}
    (h : Runs.Along (Execution.execute P) RaisesLinked { store := .empty } l) :
    (executeAll P l).store.records.Linked := by
  refine executeAll_inv (I := fun r _ => r.Linked) ?_ ?_ h
  · refine ⟨?_, ?_, ?_⟩
    · intro e esc he
      simp [Records.empty] at he
    · intro e esc d he
      simp [Records.empty] at he
    · intro d dis hd
      simp [Records.empty] at hd
  · intro x tx t es r' hI hC hf hout
    refine hout.linked hI ?_
    intro d e reason ev esc hp he ha hs
    simp only [RaisesLinked, hp] at hC
    exact hC ⟨hf, esc, he, ha, hs⟩ esc he

/-- A raise that leaves the links in place had a place for its own. -/
theorem raisesLinked_of_linked {x : Execution} {act : Timed} (hx : x.store.records.Linked)
    (hx' : (x.execute P act).store.records.Linked) : RaisesLinked x act := by
  unfold RaisesLinked
  split
  case h_2 => trivial
  case h_1 d e reason ev hp =>
    intro hallow esc he
    obtain ⟨hdis, esc', he', hesc⟩ := Execution.execute_raise (P := P) hp hallow
    have heq : esc' = esc := Option.some_inj.1 (he'.symm.trans he)
    subst heq
    cases hid : esc'.disputeId with
    | some d₀ =>
      -- the escrow points to the new dispute only, so the old one is it
      left
      obtain ⟨dis₀, hd₀, he₀⟩ := hx.dispute_of e esc' d₀ he hid
      by_contra hne
      have hd₀' : (x.execute P act).store.records.disputes[d₀]? = some dis₀ := by
        rw [hdis, Table.get_insert, if_neg (fun h => hne (congrArg some h.symm)), hd₀]
      obtain ⟨esc₀, hesc₀, -, hid₀⟩ := hx'.escrow_of d₀ dis₀ hd₀'
      rw [hesc, Table.get_insert, if_pos he₀.symm, Option.some_inj] at hesc₀
      rw [← hesc₀] at hid₀
      exact hne hid₀.symm
    | none =>
      refine .inr ⟨rfl, ?_⟩
      by_contra hsome
      obtain ⟨dis, hd⟩ := Option.ne_none_iff_exists'.1 hsome
      -- the dispute of `d` was about another escrow, which still points to it
      obtain ⟨esc₁, he₁, -, hid₁⟩ := hx.escrow_of d dis hd
      have hne : e ≠ dis.escrowId := by
        rintro rfl
        rw [he', Option.some_inj] at he₁
        rw [he₁, hid₁] at hid
        cases hid
      have he₁' : (x.execute P act).store.records.escrows[dis.escrowId]? = some esc₁ := by
        rw [hesc, Table.get_insert, if_neg hne, he₁]
      obtain ⟨dis', hd', heq⟩ := hx'.dispute_of dis.escrowId esc₁ d he₁' hid₁
      rw [hdis, Table.get_insert, if_pos rfl, Option.some_inj] at hd'
      rw [← hd'] at heq
      exact hne heq

end Linked

/-- **Escrows and disputes stay linked one to one exactly as long as every raise has a place
for its link**: an escrow without a dispute and a new id, or the dispute of the escrow. -/
theorem linked_iff (P : Params) (l : List Timed) :
    (∀ l₁, l₁ <+: l → (executeAll P l₁).store.records.Linked ∧
      (executeAll P l₁).store.records.OneDispute) ↔
    Runs.Along (Execution.execute P) RaisesLinked { store := .empty } l := by
  refine ⟨?_, ?_⟩
  · intro h
    refine Runs.along_iff_prefix.2 fun l₁ act hpre => ?_
    have hbefore := (h l₁ ((List.prefix_append _ _).trans hpre)).1
    have hafter := (h (l₁ ++ [act]) hpre).1
    rw [executeAll_append_one] at hafter
    exact raisesLinked_of_linked hbefore hafter
  · intro h l₁ hpre
    have hlinked := executeAll_linked (h.initial hpre)
    exact ⟨hlinked, hlinked.oneDispute⟩

/-- The seller raises another dispute over the escrow: the first one is left without it. -/
def Timed.toySecondDispute : Timed := (.toy 2 2 (.raiseDispute 9 7 .other 1), 30)

/-- Two disputes are stored for one escrow. -/
theorem linked_fails : ¬ ∀ P l, (executeAll P l).store.records.Linked ∧
    (executeAll P l).store.records.OneDispute := by
  intro hall
  have hone := (hall .toyOneVote (toyDecided ++ [.toySecondDispute])).2
  have hescrow : ∀ d : Id, d = 8 ∨ d = 9 →
      (disputeAfter .toyOneVote .empty d (toyDecided ++ [.toySecondDispute])).map (·.escrowId) =
        some 7 := by
    rintro d (rfl | rfl) <;> decide +kernel
  obtain ⟨dis, hd, he⟩ := Option.map_eq_some_iff.1 (hescrow 8 (.inl rfl))
  obtain ⟨dis', hd', he'⟩ := Option.map_eq_some_iff.1 (hescrow 9 (.inr rfl))
  have heq := hone 8 9 dis dis' hd hd' (he.trans he'.symm)
  exact absurd heq (by decide)

end RoutineChain
