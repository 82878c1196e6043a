import Mathlib.Algebra.Order.BigOperators.Group.List
import Mathlib.Algebra.Order.Group.Nat
import RoutineChain.Proof.Counters
import RoutineChain.Proof.Disputes

/-!
# The docket

Each raise that goes through is a case, against the party of the escrow that did not raise it,
and the vote that resolves its record decides it. The docket lists the cases of a run, the
latest first, read off the events; a case whose record is replaced stays undecided.

`dispute_accounting`: the counters of a participant are those of the docket. One is added when
a case is raised, taken back from a winner that was accused, and made up to two for a loser,
so what is taken back was there.
-/

namespace RoutineChain

open EStateM Std

/-! ## Cases -/

/-- **A case**: a raise that has gone through, with the parties of its escrow. -/
structure Case where
  disputeId : Id
  buyer : Id
  seller : Id
  raisedBy : Id
  /-- The resolution, once the case is decided. -/
  decision : Option UInt8 := none

namespace Case

/-- The case that `a` raises over an escrow. -/
def new (disputeId : Id) (esc : Escrow) (a : Id) : Case :=
  { disputeId, buyer := esc.buyer, seller := esc.seller, raisedBy := a }

/-- The party that has not raised the case. -/
def against (c : Case) : Id := if c.raisedBy = c.buyer then c.seller else c.buyer

/-- The case is undecided, or decided as a split. -/
def Pending (c : Case) : Prop := c.decision = none ∨ c.decision = some DisputeDecision.split.toU8

instance (c : Case) : Decidable c.Pending := inferInstanceAs (Decidable (_ ∨ _))

/-- The party that the case is decided for. -/
def winner (c : Case) : Option Id :=
  if c.decision = some 0 then some c.buyer
  else if c.decision = some 1 then some c.seller else none

/-- The party that the case is decided against. -/
def loser (c : Case) : Option Id :=
  if c.decision = some 0 then some c.seller
  else if c.decision = some 1 then some c.buyer else none

end Case

/-- The latest case of the dispute `d` is decided. -/
def decideCase (d : Id) (res : UInt8) : List Case → List Case
  | [] => []
  | c :: cs =>
    if c.disputeId = d then { c with decision := some res } :: cs else c :: decideCase d res cs

/-- The latest case of the dispute `d`. -/
def latestCase (d : Id) (cs : List Case) : Option Case := cs.find? (·.disputeId = d)

/-- What an event of a transaction of `a` on the records `r` does to the docket. -/
def docketEvent (r : Records) (a : Id) (cs : List Case) : Event → List Case
  | .disputeRaised d e =>
    match r.escrows[e]? with
    | some esc => .new d esc a :: cs
    | none => cs
  | .disputeResolved d res => decideCase d res cs
  | _ => cs

/-- The events that a transaction returns. -/
def Execution.returned (P : Params) (x : Execution) (act : Timed) : List Event :=
  match (RoutineChain.execute P act.1 act.2).run x.store with
  | .ok events _ => events
  | .error _ _ => []

/-- A run with its docket. -/
structure Court where
  execution : Execution
  docket : List Case := []

/-- Execute one transaction, and enter its events in the docket. -/
def Court.execute (P : Params) (c : Court) (act : Timed) : Court where
  execution := c.execution.execute P act
  docket := (c.execution.returned P act).foldl
    (docketEvent c.execution.store.records act.1.sender) c.docket

/-- The docket of a run on the empty store. -/
def docketOf (P : Params) (l : List Timed) : List Case :=
  (Runs.run (Court.execute P) { execution := { store := .empty } } l).docket

section Docket

variable {P : Params} {d d' : Id} {res : UInt8} {c : Case} {cs : List Case}

theorem Execution.events_returned (P : Params) (x : Execution) (act : Timed) :
    (x.execute P act).events = x.events ++ x.returned P act := by
  unfold Execution.execute Execution.returned
  cases (RoutineChain.execute P act.1 act.2).run x.store <;> simp

theorem docketOf_append_one (P : Params) (l : List Timed) (act : Timed) :
    docketOf P (l ++ [act]) = ((executeAll P l).returned P act).foldl
      (docketEvent (executeAll P l).store.records act.1.sender) (docketOf P l) := by
  have hrun : (Runs.run (Court.execute P) { execution := { store := .empty } } l).execution =
      executeAll P l := by
    have hstep : ∀ (ct : Court) (x : Execution) (act : Timed), ct.execution = x →
        (ct.execute P act).execution = x.execute P act := by
      rintro ct _ act rfl
      rfl
    exact Runs.sim_run (R := fun (ct : Court) x => ct.execution = x) hstep rfl l
  unfold docketOf
  rw [Runs.run_append, ← hrun]
  rfl

/-- A decision replaces what the latest case adds to a sum. -/
theorem sum_decideCase (res : UInt8) (f : Case → ℕ) (h : latestCase d cs = some c) :
    ((decideCase d res cs).map f).sum + f c =
      (cs.map f).sum + f { c with decision := some res } := by
  induction cs with
  | nil => cases h
  | cons c₀ cs ih =>
    unfold latestCase at h ih
    by_cases hd : c₀.disputeId = d
    · rw [List.find?_cons_of_pos (by simpa using hd), Option.some_inj] at h
      subst h
      rw [decideCase, if_pos hd]
      simp only [List.map_cons, List.sum_cons]
      omega
    · rw [List.find?_cons_of_neg (by simpa using hd)] at h
      have hsum := ih h
      rw [decideCase, if_neg hd]
      simp only [List.map_cons, List.sum_cons]
      omega

theorem latestCase_decideCase (hne : d' ≠ d) :
    latestCase d' (decideCase d res cs) = latestCase d' cs := by
  induction cs with
  | nil => rfl
  | cons c₀ cs ih =>
    unfold latestCase at ih ⊢
    by_cases hd : c₀.disputeId = d
    · have hd' : ¬ c₀.disputeId = d' := fun h => hne (h.symm.trans hd)
      rw [decideCase, if_pos hd, List.find?_cons_of_neg (by simpa using hd'),
        List.find?_cons_of_neg (by simpa using hd')]
    · rw [decideCase, if_neg hd, List.find?_cons, List.find?_cons, ih]

/-- Decided cases keep their parties. -/
theorem mem_decideCase (h : c ∈ decideCase d res cs) :
    c ∈ cs ∨ ∃ c₀ ∈ cs, c = { c₀ with decision := some res } := by
  induction cs with
  | nil => cases h
  | cons c₀ cs ih =>
    by_cases hd : c₀.disputeId = d
    · rw [decideCase, if_pos hd] at h
      rcases List.mem_cons.1 h with rfl | h
      · exact .inr ⟨c₀, List.mem_cons_self, rfl⟩
      · exact .inl (.tail _ h)
    · rw [decideCase, if_neg hd] at h
      rcases List.mem_cons.1 h with rfl | h
      · exact .inl List.mem_cons_self
      · rcases ih h with h | ⟨c₁, hc₁, heq⟩
        · exact .inl (.tail _ h)
        · exact .inr ⟨c₁, .tail _ hc₁, heq⟩

theorem length_decideCase : (decideCase d res cs).length = cs.length := by
  induction cs with
  | nil => rfl
  | cons c₀ cs ih =>
    unfold decideCase
    split
    · rfl
    · rw [List.length_cons, List.length_cons, ih]

/-- Rewards are not entered. -/
theorem foldl_docket_reward (r : Records) (a b : Id) (n : UInt64) (reason : String) :
    (rewardEvents b n reason).foldl (docketEvent r a) cs = cs := by
  unfold rewardEvents
  split <;> rfl

theorem foldl_docket_resolve (r : Records) (a : Id) (esc : Escrow) (n : UInt64) :
    (resolveEvents esc res n).foldl (docketEvent r a) cs = cs := by
  unfold resolveEvents
  split
  · rfl
  · exact foldl_docket_reward r a _ n _

end Docket

/-! ## What the counters count -/

/-- What a case adds to the disputes that are counted for `x`: one as long as it is pending
against `x`, and two once it is lost. A party that is on both sides of the escrow keeps the
one. -/
def Case.weight (x : Id) (c : Case) : ℕ :=
  (if c.against = x ∧ (c.winner = none ∨ c.buyer = c.seller) then 1 else 0) +
    if c.loser = some x then 2 else 0

/-- What a case adds to the disputes that `x` has won. -/
def Case.credit (x : Id) (c : Case) : ℕ := if c.winner = some x then 1 else 0

/-- **The records follow the docket.** -/
structure Records.Docketed (r : Records) (cs : List Case) : Prop where
  parties : ∀ c ∈ cs, (∃ (e : Id) (esc : Escrow), r.escrows[e]? = some esc ∧
    c.buyer = esc.buyer ∧ c.seller = esc.seller) ∧ (c.raisedBy = c.buyer ∨ c.raisedBy = c.seller)
  decided : ∀ c ∈ cs, c.decision = none ∨ ∃ dec : DisputeDecision, c.decision = some dec.toU8
  filed : ∀ (d : Id) (dis : Dispute), r.disputes[d]? = some dis → dis.state ≠ .resolved →
    ∃ c esc, latestCase d cs = some c ∧ c.decision = none ∧ c.raisedBy = dis.raisedBy ∧
      r.escrows[dis.escrowId]? = some esc ∧ c.buyer = esc.buyer ∧ c.seller = esc.seller
  counted : ∀ (x : Id) (q : Participant), r.participants[x]? = some q →
    q.disputeCount.toNat = (cs.map (Case.weight x)).sum ∧
    q.disputeWon.toNat = (cs.map (Case.credit x)).sum

/-- No dispute is counted that was not, apart from a new participant without any. -/
def Records.SameDisputes (r r' : Records) : Prop :=
  ∀ (x : Id) (q' : Participant), r'.participants[x]? = some q' →
    (∃ q, r.participants[x]? = some q ∧ q'.disputeCount = q.disputeCount ∧
      q'.disputeWon = q.disputeWon) ∨
    (r.participants[x]? = none ∧ q'.disputeCount = 0 ∧ q'.disputeWon = 0)

section Docketed

variable {P : Params} {a x d : Id} {t : Int64} {r r' : Records} {p : TxPayload}
  {es : List Event} {c : Case} {cs : List Case} {res : UInt8}

theorem Case.weight_le (x : Id) (c : Case) : c.weight x ≤ 3 := by
  unfold weight
  split_ifs <;> omega

theorem sum_weight_le (x : Id) (cs : List Case) :
    (cs.map (Case.weight x)).sum ≤ 3 * cs.length := by
  induction cs with
  | nil => exact Nat.le_refl _
  | cons c cs ih =>
    have hc := c.weight_le x
    rw [List.map_cons, List.sum_cons, List.length_cons]
    omega

theorem sum_credit_le (x : Id) (cs : List Case) :
    (cs.map (Case.credit x)).sum ≤ cs.length := by
  induction cs with
  | nil => exact Nat.le_refl _
  | cons c cs ih =>
    have hc : c.credit x ≤ 1 := by
      unfold Case.credit
      split_ifs <;> omega
    rw [List.map_cons, List.sum_cons, List.length_cons]
    omega

theorem Records.docketed_empty : Records.empty.Docketed [] := by
  refine ⟨nofun, nofun, ?_, ?_⟩
  · intro d dis hd
    simp [Records.empty] at hd
  · intro x q hq
    simp [Records.empty] at hq

/-- Who is not registered is no party of a case. -/
theorem Records.Docketed.sum_eq_zero (h : r.Docketed cs) (hregistered : r.PartiesRegistered)
    (hx : r.participants[x]? = none) :
    (cs.map (Case.weight x)).sum = 0 ∧ (cs.map (Case.credit x)).sum = 0 := by
  have hno : ∀ c ∈ cs, c.buyer ≠ x ∧ c.seller ≠ x := by
    intro c hc
    obtain ⟨⟨e, esc, he, hb, hs⟩, -⟩ := h.parties c hc
    obtain ⟨hb', hs'⟩ := hregistered e esc he
    refine ⟨?_, ?_⟩
    · rintro rfl
      rw [← hb, hx] at hb'
      cases hb'
    · rintro rfl
      rw [← hs, hx] at hs'
      cases hs'
  refine ⟨List.sum_eq_zero ?_, List.sum_eq_zero ?_⟩
  · intro n hn
    obtain ⟨c, hc, rfl⟩ := List.mem_map.1 hn
    obtain ⟨hb, hs⟩ := hno c hc
    unfold Case.weight Case.against Case.loser
    split_ifs <;> simp_all
  · intro n hn
    obtain ⟨c, hc, rfl⟩ := List.mem_map.1 hn
    obtain ⟨hb, hs⟩ := hno c hc
    unfold Case.credit Case.winner
    split_ifs <;> simp_all

/-- Counters that stay are still those of the docket. -/
theorem Records.Docketed.counted_same (h : r.Docketed cs) (hregistered : r.PartiesRegistered)
    (hsame : r.SameDisputes r') (x : Id) (q' : Participant)
    (hq' : r'.participants[x]? = some q') :
    q'.disputeCount.toNat = (cs.map (Case.weight x)).sum ∧
      q'.disputeWon.toNat = (cs.map (Case.credit x)).sum := by
  rcases hsame x q' hq' with ⟨q, hq, hcount, hwon⟩ | ⟨hnone, hcount, hwon⟩
  · rw [hcount, hwon]
    exact h.counted x q hq
  · obtain ⟨hweight, hcredit⟩ := h.sum_eq_zero hregistered hnone
    rw [hcount, hwon, hweight, hcredit]
    exact ⟨rfl, rfl⟩

/-- Only disputes move their counters. -/
theorem Participant.Update.sameDisputes {q q' : Participant} (h : q.Update p t q')
    (hraise : ∀ d e reason ev, p ≠ .raiseDispute d e reason ev)
    (hvote : ∀ d dec, p ≠ .voteDispute d dec) :
    q'.disputeCount = q.disputeCount ∧ q'.disputeWon = q.disputeWon := by
  cases h with
  | disputed hp => exact absurd hp (hraise _ _ _ _)
  | won hp | lost hp => exact absurd hp (hvote _ _)
  | @rated id n ok _ =>
    unfold Participant.rated
    by_cases hn : n > 0 ∧ n ≤ 500 <;> cases ok <;> simp [hn]
  | _ => exact ⟨rfl, rfl⟩

theorem TxPayload.Outcome.sameDisputes (h : p.Outcome P a t r es r')
    (hraise : ∀ d e reason ev, p ≠ .raiseDispute d e reason ev)
    (hvote : ∀ d dec, p ≠ .voteDispute d dec) : r.SameDisputes r' := by
  intro x q' hq'
  rcases h.participants with hupd | ⟨ty, md, hnew, hins⟩
  · have hx := hupd x
    rw [hq'] at hx
    generalize r.participants[x]? = o at hx
    cases hx with
    | @some q _ hu =>
      refine .inl ⟨q, rfl, ?_⟩
      refine hu.inv (I := fun q' => q'.disputeCount = q.disputeCount ∧
        q'.disputeWon = q.disputeWon) ?_ ⟨rfl, rfl⟩
      intro q₁ q₂ hstep hq₁
      obtain ⟨hcount, hwon⟩ := hstep.sameDisputes hraise hvote
      exact ⟨hcount.trans hq₁.1, hwon.trans hq₁.2⟩
  · rw [hins, Table.get_insert] at hq'
    by_cases hax : a = x
    · subst hax
      rw [if_pos rfl, Option.some_inj] at hq'
      subst hq'
      exact .inr ⟨hnew, rfl, rfl⟩
    · rw [if_neg hax] at hq'
      exact .inl ⟨q', hq', rfl, rfl⟩

/-- A dispute that is still open was open before, unless it has just been raised. -/
theorem DisputeChange.was_open {o : Option Dispute} {dis' : Dispute}
    (h : DisputeChange P r a t p d o (some dis')) (hs : dis'.state ≠ .resolved) :
    (∃ e reason ev, p = .raiseDispute d e reason ev) ∨
    ∃ dis, o = some dis ∧ dis.state ≠ .resolved ∧ dis.raisedBy = dis'.raisedBy ∧
      dis.escrowId = dis'.escrowId := by
  cases h with
  | same => exact .inr ⟨dis', rfl, hs, rfl, rfl⟩
  | raised _ hp _ _ _ => exact .inl ⟨_, _, _, hp⟩
  | @evidence ev dis _ hopen =>
    refine .inr ⟨dis, rfl, ?_, rfl, rfl⟩
    rcases hopen with hopen | hopen <;> simp [hopen]
  | @voted dec dis q _ _ _ hopen _ _ => exact .inr ⟨dis, rfl, hopen, rfl, rfl⟩
  | decided _ _ _ _ _ _ => exact absurd rfl hs

theorem Records.Docketed.parties_kept (h : r.Docketed cs) (hout : p.Outcome P a t r es r') :
    ∀ c ∈ cs, (∃ (e : Id) (esc : Escrow), r'.escrows[e]? = some esc ∧
      c.buyer = esc.buyer ∧ c.seller = esc.seller) ∧
      (c.raisedBy = c.buyer ∨ c.raisedBy = c.seller) := by
  intro c hc
  obtain ⟨⟨e, esc, he, hb, hs⟩, hraised⟩ := h.parties c hc
  obtain ⟨esc', he', hterms⟩ := hout.escrow_kept he
  refine ⟨⟨e, esc', he', ?_, ?_⟩, hraised⟩
  · rw [hb, hterms.buyer]
  · rw [hs, hterms.seller]

/-- An open dispute that has not just been raised is filed as before. -/
theorem Records.Docketed.filed_kept (h : r.Docketed cs) (hout : p.Outcome P a t r es r')
    {dis' : Dispute} (hd : r'.disputes[d]? = some dis') (hs : dis'.state ≠ .resolved)
    (hraise : ∀ e reason ev, p ≠ .raiseDispute d e reason ev) :
    ∃ c esc, latestCase d cs = some c ∧ c.decision = none ∧ c.raisedBy = dis'.raisedBy ∧
      r'.escrows[dis'.escrowId]? = some esc ∧ c.buyer = esc.buyer ∧ c.seller = esc.seller := by
  have hchange := hout.disputeChange d
  rw [hd] at hchange
  rcases hchange.was_open hs with ⟨e, reason, ev, hp⟩ | ⟨dis, ho, hopen, hraised, hescrow⟩
  · exact absurd hp (hraise e reason ev)
  · obtain ⟨c, esc, hlatest, hnone, hc, he, hb, hs⟩ := h.filed d dis ho hopen
    obtain ⟨esc', he', hterms⟩ := hout.escrow_kept he
    refine ⟨c, esc', hlatest, hnone, hc.trans hraised, hescrow ▸ he', ?_, ?_⟩
    · rw [hb, hterms.buyer]
    · rw [hs, hterms.seller]

/-- A payload that raises nothing and counts no dispute keeps the docket. -/
theorem Records.Docketed.other (h : r.Docketed cs) (hout : p.Outcome P a t r es r')
    (hregistered : r.PartiesRegistered)
    (hraise : ∀ d e reason ev, p ≠ .raiseDispute d e reason ev) (hsame : r.SameDisputes r') :
    r'.Docketed cs :=
  ⟨h.parties_kept hout, h.decided, fun _ _ hd hs => h.filed_kept hout hd hs (hraise _),
    h.counted_same hregistered hsame⟩

/-- **A raise** opens a case against the other party. -/
theorem Records.Docketed.raise {e : Id} {reason : DisputeReason} {ev : Hash} {esc : Escrow}
    (h : r.Docketed cs) (hout : (TxPayload.raiseDispute d e reason ev).Outcome P a t r es r')
    (he : r.escrows[e]? = some esc) (ha : a = esc.buyer ∨ a = esc.seller)
    (hlen : 3 * cs.length < 2 ^ 64 - 1)
    (hdisputes : r'.disputes = r.disputes.insert d (.new d e a reason ev t))
    (hparticipants : ∀ x : Id, r'.participants[x]? =
      if (if a = esc.buyer then esc.seller else esc.buyer) = x
      then r.participants[x]?.map Participant.disputed else r.participants[x]?) :
    r'.Docketed (.new d esc a :: cs) := by
  refine ⟨?_, ?_, ?_, ?_⟩
  · intro c hc
    rcases List.mem_cons.1 hc with rfl | hc
    · obtain ⟨esc', he', hterms⟩ := hout.escrow_kept he
      exact ⟨⟨e, esc', he', hterms.buyer.symm, hterms.seller.symm⟩, ha⟩
    · exact h.parties_kept hout c hc
  · intro c hc
    rcases List.mem_cons.1 hc with rfl | hc
    · exact .inl rfl
    · exact h.decided c hc
  · intro d' dis' hd' hs
    by_cases hdd : d = d'
    · subst hdd
      rw [hdisputes, Table.get_insert, if_pos rfl, Option.some_inj] at hd'
      subst hd'
      obtain ⟨esc', he', hterms⟩ := hout.escrow_kept he
      refine ⟨.new d esc a, esc', List.find?_cons_of_pos (by simp [Case.new]), rfl, rfl, he',
        hterms.buyer.symm, hterms.seller.symm⟩
    · have hfiled := h.filed_kept hout hd' hs (by
        intro e' reason' ev' heq
        cases heq
        exact hdd rfl)
      unfold latestCase at hfiled ⊢
      rwa [List.find?_cons_of_neg (by simp [Case.new, hdd])]
  · intro x q' hq'
    rw [List.map_cons, List.sum_cons, List.map_cons, List.sum_cons]
    have hcredit : (Case.new d esc a).credit x = 0 := by
      simp [Case.new, Case.credit, Case.winner]
    have hweight : (Case.new d esc a).weight x =
        if (if a = esc.buyer then esc.seller else esc.buyer) = x then 1 else 0 := by
      simp only [Case.new, Case.weight, Case.winner, Case.loser, Case.against]
      split_ifs <;> simp_all
    rw [hcredit, hweight, Nat.zero_add]
    rw [hparticipants] at hq'
    by_cases hx : (if a = esc.buyer then esc.seller else esc.buyer) = x
    · rw [if_pos hx] at hq' ⊢
      obtain ⟨q, hq, rfl⟩ := Option.map_eq_some_iff.1 hq'
      obtain ⟨hcount, hwon⟩ := h.counted x q hq
      have hbound := sum_weight_le x cs
      have hadd : (satAdd q.disputeCount 1).toNat = q.disputeCount.toNat + 1 :=
        toNat_satAdd_one (by omega)
      have hdisputed : q.disputed.disputeCount = satAdd q.disputeCount 1 := rfl
      refine ⟨?_, hwon⟩
      rw [hdisputed]
      omega
    · rw [if_neg hx] at hq' ⊢
      rw [Nat.zero_add]
      exact h.counted x q' hq'

/-! ### A decision -/

theorem exists_decision (votes : List DisputeVote) :
    ∃ dec : DisputeDecision, resolutionOf votes = dec.toU8 := by
  unfold resolutionOf
  simp only
  split_ifs
  · exact ⟨.favorBuyer, rfl⟩
  · exact ⟨.favorSeller, rfl⟩
  · exact ⟨.split, rfl⟩

/-- The sides of a case that `won` wins and `lost` loses. -/
structure Case.Sides (c : Case) (res : UInt8) (won lost : Id) : Prop where
  favor : (res = 0 ∧ won = c.buyer ∧ lost = c.seller) ∨ (res = 1 ∧ won = c.seller ∧ lost = c.buyer)
  isOpen : c.decision = none
  raised : c.raisedBy = c.buyer ∨ c.raisedBy = c.seller

section Sides

variable {won lost : Id}

theorem Case.Sides.against (h : c.Sides res won lost) :
    (c.raisedBy = won ∧ c.against = lost) ∨ (c.raisedBy = lost ∧ c.against = won) := by
  unfold Case.against
  rcases h.favor with ⟨-, rfl, rfl⟩ | ⟨-, rfl, rfl⟩ <;> rcases h.raised with hr | hr <;>
    by_cases hself : c.buyer = c.seller <;> simp_all

theorem Case.Sides.weight_open (h : c.Sides res won lost) (x : Id) :
    c.weight x = if c.against = x then 1 else 0 := by
  simp [Case.weight, Case.winner, Case.loser, h.isOpen]

theorem Case.Sides.weight_decided (h : c.Sides res won lost) (x : Id) :
    Case.weight x { c with decision := some res } =
      (if c.against = x ∧ won = lost then 1 else 0) + if lost = x then 2 else 0 := by
  have hagainst : Case.against { c with decision := some res } = c.against := rfl
  unfold Case.weight
  rw [hagainst]
  rcases h.favor with ⟨rfl, rfl, rfl⟩ | ⟨rfl, rfl, rfl⟩
  · simp [Case.winner, Case.loser]
  · simp [Case.winner, Case.loser, eq_comm (a := c.seller)]

theorem Case.Sides.credit_open (h : c.Sides res won lost) (x : Id) : c.credit x = 0 := by
  simp [Case.credit, Case.winner, h.isOpen]

theorem Case.Sides.credit_decided (h : c.Sides res won lost) (x : Id) :
    Case.credit x { c with decision := some res } = if won = x then 1 else 0 := by
  rcases h.favor with ⟨rfl, rfl, rfl⟩ | ⟨rfl, rfl, rfl⟩ <;> simp [Case.credit, Case.winner]

end Sides

/-- The counters of `x` after a decision. -/
def Participant.decided (q : Participant) (x won lost raisedBy : Id) : Participant :=
  let q := if won = x then q.won (raisedBy = won) else q
  if lost = x then q.lost (raisedBy = lost) else q

theorem Records.resolve_get (esc : Escrow) (y : Id) (w : UInt64) (hres : res ≠ 2) :
    (r.resolve esc y res w).participants[x]? = r.participants[x]?.map fun q =>
      q.decided x (if res = 0 then esc.buyer else esc.seller)
        (if res = 0 then esc.seller else esc.buyer) y := by
  unfold Records.resolve Participant.decided
  rw [if_neg hres]
  simp only [Records.reward_participants, Records.modifyParticipant_get]
  generalize (if res = 0 then esc.buyer else esc.seller) = won
  generalize (if res = 0 then esc.seller else esc.buyer) = lost
  cases r.participants[x]? with
  | none => split_ifs <;> rfl
  | some q => split_ifs <;> rfl

section Decided

variable {q : Participant} {won lost y : Id}

theorem Participant.toNat_decided_count (hhigh : q.disputeCount.toNat < 2 ^ 63) :
    (q.decided x won lost y).disputeCount.toNat =
      (q.disputeCount.toNat - if won = x ∧ y ≠ won then 1 else 0) +
        if lost = x then (if y = lost then 2 else 1) else 0 := by
  have hafter : (q.decided x won lost y).disputeCount =
      let n := if won = x ∧ y ≠ won then satSub q.disputeCount 1 else q.disputeCount
      if lost = x then satAdd n (if y = lost then 2 else 1) else n := by
    unfold Participant.decided Participant.won Participant.lost
    by_cases hw : won = x <;> by_cases hl : lost = x <;> by_cases hy : y = won <;> simp [hw, hl, hy]
  have hback : (if won = x ∧ y ≠ won then satSub q.disputeCount 1 else q.disputeCount).toNat =
      q.disputeCount.toNat - if won = x ∧ y ≠ won then 1 else 0 := by
    split
    · exact toNat_satSub _ _
    · rfl
  rw [hafter, ← hback]
  have hfit : (if won = x ∧ y ≠ won then satSub q.disputeCount 1
      else q.disputeCount).toNat < 2 ^ 63 := by
    omega
  generalize (if won = x ∧ y ≠ won then satSub q.disputeCount 1 else q.disputeCount) = n at hfit ⊢
  have h1 : (1 : UInt64).toNat = 1 := rfl
  have h2 : (2 : UInt64).toNat = 2 := rfl
  by_cases hl : lost = x
  · rw [if_pos hl, if_pos hl, toNat_satAdd]
    split <;> omega
  · rw [if_neg hl, if_neg hl, Nat.add_zero]

theorem Participant.toNat_decided_won (hwon : q.disputeWon.toNat < 2 ^ 63) :
    (q.decided x won lost y).disputeWon.toNat =
      q.disputeWon.toNat + if won = x then 1 else 0 := by
  have hafter : (q.decided x won lost y).disputeWon =
      if won = x then satAdd q.disputeWon 1 else q.disputeWon := by
    unfold Participant.decided
    by_cases hw : won = x <;> by_cases hl : lost = x <;>
      simp [hw, hl, Participant.won, Participant.lost]
  rw [hafter]
  split
  · exact toNat_satAdd_one (by omega)
  · rfl

/-- **A decision moves the counters as it moves the weights**, and takes back only what was
counted. -/
theorem Case.Sides.decided (h : c.Sides res won lost) (hlow : c.weight x ≤ q.disputeCount.toNat)
    (hhigh : q.disputeCount.toNat < 2 ^ 63) (hwon : q.disputeWon.toNat < 2 ^ 63) :
    (q.decided x won lost c.raisedBy).disputeCount.toNat + c.weight x =
        q.disputeCount.toNat + Case.weight x { c with decision := some res } ∧
      (q.decided x won lost c.raisedBy).disputeWon.toNat + c.credit x =
        q.disputeWon.toNat + Case.credit x { c with decision := some res } := by
  rw [h.weight_open] at hlow ⊢
  rw [h.weight_decided, h.credit_decided, h.credit_open, Participant.toNat_decided_count hhigh,
    Participant.toNat_decided_won hwon]
  refine ⟨?_, rfl⟩
  by_cases hself : won = lost
  -- The same party on both sides: it has raised the case, and nothing is taken back.
  · subst hself
    rcases h.against with ⟨hr, ha⟩ | ⟨hr, ha⟩
    · rw [hr, ha]
      by_cases hx : won = x <;> simp [hx]
    · rw [hr, ha]
      by_cases hx : won = x <;> simp [hx]
  · have hself' : ¬ lost = won := fun heq => hself heq.symm
    rcases h.against with ⟨hr, ha⟩ | ⟨hr, ha⟩
    · rw [hr, ha]
      simp only [ne_eq, not_true, and_false, hself, if_false, Nat.sub_zero]
      split <;> omega
    · rw [ha] at hlow
      rw [hr, ha]
      simp only [ne_eq, not_false_iff, and_true, and_false, hself, hself', if_false, if_true]
      by_cases hw : won = x
      · have hl : ¬ lost = x := fun heq => hself (hw.trans heq.symm)
        rw [if_pos hw] at hlow
        rw [if_pos hw, if_neg hl]
        omega
      · rw [if_neg hw]
        omega

end Decided

/-- The latest case of an open dispute, with its sides. -/
theorem Records.Docketed.sides {dis : Dispute} {esc : Escrow} (h : r.Docketed cs)
    (hd : r.disputes[d]? = some dis) (hs : dis.state ≠ .resolved)
    (he : r.escrows[dis.escrowId]? = some esc) : ∃ c, latestCase d cs = some c ∧
      c.raisedBy = dis.raisedBy ∧ c.decision = none ∧ ∀ res, res = 0 ∨ res = 1 →
        c.Sides res (if res = 0 then esc.buyer else esc.seller)
          (if res = 0 then esc.seller else esc.buyer) := by
  obtain ⟨c, esc', hlatest, hnone, hraised, he', hb, hs'⟩ := h.filed d dis hd hs
  rw [he, Option.some_inj] at he'
  subst he'
  refine ⟨c, hlatest, hraised, hnone, ?_⟩
  intro res hres
  refine ⟨?_, hnone, (h.parties c (List.mem_of_find?_eq_some hlatest)).2⟩
  rcases hres with rfl | rfl
  · exact .inl ⟨rfl, hb.symm, hs'.symm⟩
  · exact .inr ⟨rfl, hs'.symm, hb.symm⟩

/-- What a case counts for a registered participant has been counted. -/
theorem Records.Docketed.weight_le {q : Participant} (h : r.Docketed cs)
    (hq : r.participants[x]? = some q) (hc : latestCase d cs = some c) :
    c.weight x ≤ q.disputeCount.toNat := by
  rw [(h.counted x q hq).1]
  exact List.single_le_sum (fun _ _ => Nat.zero_le _) _
    (List.mem_map_of_mem (List.mem_of_find?_eq_some hc))

/-- **A vote that resolves a dispute** decides its latest case. -/
theorem Records.Docketed.decide {dec : DisputeDecision} {dis dis' : Dispute} {esc : Escrow}
    {w : UInt64} (h : r.Docketed cs) (hout : (TxPayload.voteDispute d dec).Outcome P a t r es r')
    (hd : r.disputes[d]? = some dis) (hs : dis.state ≠ .resolved)
    (he : r.escrows[dis.escrowId]? = some esc) (hres : ∃ dec : DisputeDecision, res = dec.toU8)
    (hlen : 3 * cs.length < 2 ^ 63) (hresolved : dis'.state = .resolved)
    (hdisputes : r'.disputes = r.disputes.insert d dis')
    (hparticipants : r'.participants = (r.resolve esc dis.raisedBy res w).participants) :
    r'.Docketed (decideCase d res cs) := by
  obtain ⟨c, hlatest, hraised, hnone, hsides⟩ := h.sides hd hs he
  refine ⟨?_, ?_, ?_, ?_⟩
  · intro c' hc'
    rcases mem_decideCase hc' with hc' | ⟨c₀, hc₀, rfl⟩
    · exact h.parties_kept hout c' hc'
    · exact h.parties_kept hout c₀ hc₀
  · intro c' hc'
    rcases mem_decideCase hc' with hc' | ⟨c₀, hc₀, rfl⟩
    · exact h.decided c' hc'
    · obtain ⟨dec', rfl⟩ := hres
      exact .inr ⟨dec', rfl⟩
  · intro d' dis₁ hd₁ hopen
    have hne : d' ≠ d := by
      rintro rfl
      rw [hdisputes, Table.get_insert, if_pos rfl, Option.some_inj] at hd₁
      subst hd₁
      exact hopen hresolved
    rw [latestCase_decideCase hne]
    exact h.filed_kept hout hd₁ hopen (fun _ _ _ heq => nomatch heq)
  · intro x q' hq'
    have hweight := sum_decideCase res (Case.weight x) hlatest
    have hcredit := sum_decideCase res (Case.credit x) hlatest
    rw [hparticipants] at hq'
    by_cases h2 : res = 2
    -- A split counts like an open case, and moves no counter.
    · subst h2
      have hsame : Case.weight x { c with decision := some 2 } = c.weight x ∧
          Case.credit x { c with decision := some 2 } = c.credit x := by
        simp [Case.weight, Case.credit, Case.winner, Case.loser, Case.against, hnone]
      have hkept := h.counted x q' hq'
      omega
    · have h01 : res = 0 ∨ res = 1 := by
        obtain ⟨dec', rfl⟩ := hres
        cases dec' <;> simp_all [DisputeDecision.toU8]
      rw [Records.resolve_get _ _ _ h2] at hq'
      obtain ⟨q, hq, rfl⟩ := Option.map_eq_some_iff.1 hq'
      obtain ⟨hcount, hwon⟩ := h.counted x q hq
      have hle := sum_weight_le x cs
      have hle' := sum_credit_le x cs
      have hmoved := (hsides res h01).decided (q := q) (x := x) (h.weight_le hq hlatest)
        (by omega) (by omega)
      rw [← hraised]
      omega

theorem Records.SameDisputes.of_eq (h : r'.participants = r.participants) :
    r.SameDisputes r' := by
  intro x q' hq'
  rw [h] at hq'
  exact .inl ⟨q', hq', rfl, rfl⟩

/-- **Every payload keeps the docket.** -/
theorem Records.Docketed.step (h : r.Docketed cs) (hout : p.Outcome P a t r es r')
    (hregistered : r.PartiesRegistered) (hlen : 3 * cs.length < 2 ^ 63) :
    r'.Docketed (es.foldl (docketEvent r a) cs) := by
  have hall := hout
  cases hout with
  | raised he ha hs =>
    have hraise := h.raise hall he ha (by omega) (by simp) fun x =>
      Records.modifyParticipant_get _ _ x _
    simpa only [List.foldl_cons, List.foldl_nil, docketEvent, he] using hraise
  | @decided d dec dis q esc hd hp ha hs hv hm he =>
    have hresolved : ((dis.voted a dec t).resolved t).state = .resolved := rfl
    rw [List.foldl_append, foldl_docket_resolve]
    exact h.decide hall hd hs he (exists_decision _) hlen hresolved (by simp) rfl
  | voted => exact h.other hall hregistered nofun (.of_eq rfl)
  | settled | rated =>
    rw [List.foldl_cons, foldl_docket_reward]
    exact h.other hall hregistered nofun (hall.sameDisputes nofun nofun)
  | released =>
    rw [List.foldl_cons, List.foldl_append, foldl_docket_reward, foldl_docket_reward]
    exact h.other hall hregistered nofun (hall.sameDisputes nofun nofun)
  | _ => exact h.other hall hregistered nofun (hall.sameDisputes nofun nofun)

/-- At most one case is opened. -/
theorem TxPayload.Outcome.length_docket (h : p.Outcome P a t r es r') (cs : List Case) :
    (es.foldl (docketEvent r a) cs).length ≤ cs.length + 1 := by
  cases h with
  | raised he ha hs => simp [docketEvent, he]
  | decided hd hp ha hs hv hm he =>
    rw [List.foldl_append, foldl_docket_resolve]
    exact length_decideCase.le.trans (Nat.le_succ _)
  | settled | rated =>
    rw [List.foldl_cons, foldl_docket_reward]
    exact Nat.le_succ _
  | released =>
    rw [List.foldl_cons, List.foldl_append, foldl_docket_reward, foldl_docket_reward]
    exact Nat.le_succ _
  | _ => exact Nat.le_succ _

/-- **The records follow the docket in every reachable state.** -/
theorem executeAll_docketed (P : Params) {l : List Timed} (hl : l.length < 2 ^ 60) :
    (executeAll P l).store.records.Docketed (docketOf P l) ∧
      (docketOf P l).length ≤ l.length := by
  induction l using List.reverseRecOn with
  | nil => exact ⟨Records.docketed_empty, Nat.le_refl _⟩
  | append_singleton l act ih =>
    rw [List.length_append, List.length_singleton] at hl ⊢
    obtain ⟨hdocket, hlen⟩ := ih (by omega)
    have hevents := (executeAll P l).events_returned P act
    rw [← executeAll_append_one] at hevents
    rw [docketOf_append_one]
    rcases executeAll_step P l act with ⟨-, hsame, hnone⟩ | ⟨-, es, hout, hes⟩
    · rw [hnone] at hevents
      rw [List.self_eq_append_right.1 hevents, hsame]
      exact ⟨hdocket, hlen.trans (Nat.le_succ _)⟩
    · rw [hes] at hevents
      rw [← List.append_cancel_left hevents]
      have hshort := hout.length_docket (docketOf P l)
      exact ⟨hdocket.step hout (executeAll_partiesRegistered P l) (by omega), by omega⟩

/-- Without a party on both sides, the weights count the pending and the lost cases. -/
theorem Records.Docketed.sum_weight_eq (h : r.Docketed cs)
    (hself : ∀ (e : Id) (esc : Escrow), r.escrows[e]? = some esc →
      ¬ (esc.buyer = x ∧ esc.seller = x)) :
    (cs.map (Case.weight x)).sum =
      cs.countP (fun c => c.Pending ∧ c.against = x) + 2 * cs.countP (·.loser = some x) := by
  have hone : ∀ c ∈ cs, c.weight x =
      (if c.Pending ∧ c.against = x then 1 else 0) + if c.loser = some x then 2 else 0 := by
    intro c hc
    obtain ⟨⟨e, esc, he, hb, hs⟩, -⟩ := h.parties c hc
    have hpending : c.Pending ↔ c.winner = none := by
      unfold Case.Pending Case.winner
      rcases h.decided c hc with hnone | ⟨dec, hdec⟩
      · simp [hnone]
      · rw [hdec]
        cases dec <;> simp [DisputeDecision.toU8]
    have hcounted : (c.against = x ∧ (c.winner = none ∨ c.buyer = c.seller)) ↔
        (c.Pending ∧ c.against = x) := by
      rw [hpending]
      refine ⟨?_, fun hc => ⟨hc.2, .inl hc.1⟩⟩
      rintro ⟨hx, hw | heq⟩
      · exact ⟨hw, hx⟩
      · refine absurd ⟨?_, ?_⟩ (hself e esc he)
        · rw [← hx, ← hb, Case.against, heq, ite_self]
        · rw [← hx, ← hs, Case.against, heq, ite_self]
    unfold Case.weight
    rw [if_congr hcounted rfl rfl]
  clear h hself
  induction cs with
  | nil => rfl
  | cons c cs ih =>
    have hsum := ih fun c' hc' => hone c' (.tail _ hc')
    rw [List.map_cons, List.sum_cons, hone c List.mem_cons_self, hsum, List.countP_cons,
      List.countP_cons]
    simp only [decide_eq_true_eq]
    split_ifs <;> omega

theorem sum_credit_eq (x : Id) (cs : List Case) :
    (cs.map (Case.credit x)).sum = cs.countP (·.winner = some x) := by
  induction cs with
  | nil => rfl
  | cons c cs ih =>
    rw [List.map_cons, List.sum_cons, ih, List.countP_cons, Case.credit, Nat.add_comm]
    simp only [decide_eq_true_eq]

/-- **Whom an open dispute accuses has a dispute counted.** -/
theorem Records.Docketed.accused {dis : Dispute} {esc : Escrow} {q : Participant}
    (h : r.Docketed cs) (hd : r.disputes[d]? = some dis) (hs : dis.state ≠ .resolved)
    (he : r.escrows[dis.escrowId]? = some esc) (hx : x = esc.buyer ∨ x = esc.seller)
    (hraised : dis.raisedBy ≠ x) (hq : r.participants[x]? = some q) :
    0 < q.disputeCount.toNat := by
  obtain ⟨c, hlatest, hc, -, hsides⟩ := h.sides hd hs he
  have hle := h.weight_le hq hlatest
  have hagainst : c.against = x := by
    have hsides := hsides 0 (.inl rfl)
    rw [if_pos rfl, if_pos rfl] at hsides
    rcases hsides.against with ⟨hb, hs⟩ | ⟨hs, hb⟩
    · exact hs.trans (hx.resolve_left fun heq => hraised (by rw [← hc, hb, heq])).symm
    · exact hb.trans (hx.resolve_right fun heq => hraised (by rw [← hc, hs, heq])).symm
  rw [(hsides 0 (.inl rfl)).weight_open, if_pos hagainst] at hle
  exact hle

end Docketed

/-! ## The counters of a run -/

/-- **The dispute counters of the run `l` are those of its docket.** -/
structure DisputeAccounting (P : Params) (l : List Timed) : Prop where
  /-- For everybody that is not buyer and seller of one escrow. -/
  count : ∀ (a : Id) (q : Participant),
    (executeAll P l).store.records.participants[a]? = some q →
    (∀ (e : Id) (esc : Escrow), (executeAll P l).store.records.escrows[e]? = some esc →
      ¬ (esc.buyer = a ∧ esc.seller = a)) →
    q.disputeCount.toNat = (docketOf P l).countP (fun c => c.Pending ∧ c.against = a) +
      2 * (docketOf P l).countP (·.loser = some a)
  won : ∀ (a : Id) (q : Participant),
    (executeAll P l).store.records.participants[a]? = some q →
    q.disputeWon.toNat = (docketOf P l).countP (·.winner = some a)
  /-- What a vote on an open dispute takes back from a party that has not raised it is there. -/
  covered : ∀ l₁, l₁ <+: l → ∀ (d : Id) (dis : Dispute) (esc : Escrow) (a : Id) (q : Participant),
    (executeAll P l₁).store.records.disputes[d]? = some dis → dis.state ≠ .resolved →
    (executeAll P l₁).store.records.escrows[dis.escrowId]? = some esc →
    a = esc.buyer ∨ a = esc.seller → dis.raisedBy ≠ a →
    (executeAll P l₁).store.records.participants[a]? = some q →
    (satSub q.disputeCount 1).toNat + 1 = q.disputeCount.toNat

/-- **Disputes are accounted for** in every run of fewer than `2 ^ 60` transactions. -/
theorem dispute_accounting (P : Params) (l : List Timed) (hl : l.length < 2 ^ 60) :
    DisputeAccounting P l := by
  obtain ⟨hdocket, -⟩ := executeAll_docketed P hl
  refine ⟨?_, ?_, ?_⟩
  · intro a q hq hself
    rw [(hdocket.counted a q hq).1, hdocket.sum_weight_eq hself]
  · intro a q hq
    rw [(hdocket.counted a q hq).2, sum_credit_eq]
  · intro l₁ hpre d dis esc a q hd hs he ha hraised hq
    obtain ⟨hdocket₁, -⟩ := executeAll_docketed P (hpre.length_le.trans_lt hl)
    have hpos := hdocket₁.accused hd hs he ha hraised hq
    have hone : (1 : UInt64).toNat = 1 := rfl
    rw [toNat_satSub, hone]
    omega

theorem dispute_accounting_toy : DisputeAccounting .toyOneVote toyDecided :=
  dispute_accounting .toyOneVote toyDecided (by decide)

end RoutineChain
