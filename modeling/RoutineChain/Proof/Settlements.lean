import RoutineChain.Proof.Counters

/-!
# Settlement records and their totals

`record` stores a settlement under an id that the client chooses, and adds its net amount to
the participant's total. It does not look whether the id is taken: a record stored there is
replaced, and the total keeps what the replaced one had added.

`settlementsKept_iff`: as long as settlements take new ids, no record changes and every total
is the sum of the stored records, and only then.
-/

namespace RoutineChain

open EStateM Std

/-- What a record settles for `a`. -/
def SettlementRecord.netFor (a : Id) (rec : SettlementRecord) : ℕ :=
  if rec.participantId = a then rec.netAmount.toNat else 0

/-- What the stored records settle for `a`. -/
def Records.settledFor (r : Records) (a : Id) : ℕ :=
  MapSum.total (SettlementRecord.netFor a) r.settlements

/-- The largest total. -/
abbrev fullTotal : ℕ := 2 ^ 64 - 1

/-- **Settlement records are written once and the totals match them**, in the run `l`. -/
structure SettlementsKept (P : Params) (l : List Timed) : Prop where
  kept : ∀ l₁ l₂, l₁ ++ l₂ <+: l → ∀ (id : Id) (rec : SettlementRecord),
    (executeAll P l₁).store.records.settlements[id]? = some rec →
    (executeAll P (l₁ ++ l₂)).store.records.settlements[id]? = some rec
  totals : ∀ l₁, l₁ <+: l → ∀ (a : Id) (p : Participant),
    (executeAll P l₁).store.records.participants[a]? = some p →
    p.totalSettled.toNat = min ((executeAll P l₁).store.records.settledFor a) fullTotal

/-- A settlement of `tx` for `a` passes: the transaction is fresh, and its sender is `a` and
registered. -/
def Store.AllowsSettlement (s : Store) (tx : Transaction) (a : Id) : Prop :=
  tx.Fresh s ∧ tx.sender = a ∧ s.records.participants[a]?.isSome

instance (s : Store) (tx : Transaction) (a : Id) : Decidable (s.AllowsSettlement tx a) :=
  inferInstanceAs (Decidable (_ ∧ _))

/-- A settlement that passes takes an id under which nothing is stored, or it stores the very
record again, with nothing to add to the total. -/
def SettlesNewIds (x : Execution) (act : Timed) : Prop :=
  match act.1.payload with
  | .recordSettlement a d => x.store.AllowsSettlement act.1 a →
      ∀ rec ∈ x.store.records.settlements[d.recordId]?, rec = .new a d act.2 ∧
        (d.netAmount = 0 ∨
          ∀ p ∈ x.store.records.participants[a]?, p.totalSettled.toNat = fullTotal)
  | _ => True

instance (x : Execution) (act : Timed) : Decidable (SettlesNewIds x act) := by
  unfold SettlesNewIds
  generalize act.1.payload = p
  induction p using TxPayload.casesOn with
  | recordSettlement => infer_instance
  | _ => exact instDecidableTrue

section Step

variable {P : Params} {a : Id} {t : Int64} {r r' : Records} {p : TxPayload} {es : List Event}

/-- **A payload records a settlement of its sender, or leaves settlements and totals alone.** -/
theorem TxPayload.Outcome.settlements (h : p.Outcome P a t r es r') :
    (∃ d q, p = .recordSettlement a d ∧ r.participants[a]? = some q ∧
      r'.settlements = r.settlements.insert d.recordId (.new a d t) ∧
      r'.participants = r.participants.insert a (q.settled d t)) ∨
    (r'.settlements = r.settlements ∧ ∀ a' d, p ≠ .recordSettlement a' d) := by
  cases h with
  | @settled d q hq =>
    left
    refine ⟨d, q, rfl, hq, ?_, ?_⟩
    · rw [Records.reward_settlements]
      rfl
    · rw [Records.reward_participants]
      rfl
  | rated _ | released _ _ _ _ _ _ | raised _ _ _ | decided _ _ _ _ _ _ _ =>
    exact .inr ⟨by simp, nofun⟩
  | _ => exact .inr ⟨rfl, nofun⟩

theorem TxPayload.Failure.settlements (h : p.Failure a t r r') :
    r'.settlements = r.settlements := by
  cases h with
  | clean => rfl
  | released he ha hopen ht hmissing hr => rcases hr with rfl | ⟨b, rfl⟩ <;> rfl
  | refunded he ha hopen hmissing => rfl

/-- Only a settlement moves a total. -/
theorem Participant.Update.totalSettled {q q' : Participant} (h : q.Update p t q')
    (hp : ∀ a d, p ≠ .recordSettlement a d) : q'.totalSettled = q.totalSettled := by
  cases h with
  | settled hs => exact absurd hs (hp _ _)
  | rated _ => exact (q.sameProfile_rated _ _ t).totalSettled
  | _ => rfl

/-! ## Totals -/

/-- Every total is that of the stored records, and nothing is stored for an account that is
not registered. -/
structure Records.TotalsMatch (r : Records) : Prop where
  registered : ∀ (a : Id) (q : Participant), r.participants[a]? = some q →
    q.totalSettled.toNat = min (r.settledFor a) fullTotal
  unregistered : ∀ a : Id, r.participants[a]? = none → r.settledFor a = 0

theorem Records.totalsMatch_empty : Records.empty.TotalsMatch := by
  refine ⟨?_, ?_⟩
  · intro a q hq
    simp [Records.empty] at hq
  · intro a _
    exact MapSum.total_empty

/-- Without a settlement, only a registration matters. -/
theorem Records.TotalsMatch.of_same (hr : r.TotalsMatch) (h : p.Outcome P a t r es r')
    (hsame : r'.settlements = r.settlements) (hp : ∀ a' d, p ≠ .recordSettlement a' d) :
    r'.TotalsMatch := by
  have hfor : ∀ x, r'.settledFor x = r.settledFor x := by
    intro x
    rw [Records.settledFor, hsame, Records.settledFor]
  rcases h.participants with hupd | ⟨ty, md, hnew, hins⟩
  · refine ⟨?_, ?_⟩
    · intro x q' hq'
      have hx := hupd x
      rw [hq'] at hx
      generalize ho : r.participants[x]? = o at hx
      cases hx with
      | @some q _ hu =>
        have htotal : q'.totalSettled = q.totalSettled :=
          hu.inv (I := fun q' => q'.totalSettled = q.totalSettled)
            (fun _ _ hstep hq => (hstep.totalSettled hp).trans hq) rfl
        rw [htotal, hfor]
        exact hr.registered x q ho
    · intro x hx
      have hrel := hupd x
      rw [hx] at hrel
      generalize ho : r.participants[x]? = o at hrel
      cases hrel
      rw [hfor]
      exact hr.unregistered x ho
  · refine ⟨?_, ?_⟩
    · intro x q' hq'
      rw [hfor]
      rw [hins, Table.get_insert] at hq'
      by_cases hax : a = x
      · subst hax
        rw [if_pos rfl, Option.some_inj] at hq'
        rw [← hq', hr.unregistered a hnew]
        rfl
      · rw [if_neg hax] at hq'
        exact hr.registered x q' hq'
    · intro x hx
      rw [hfor]
      rw [hins, Table.get_insert] at hx
      by_cases hax : a = x
      · rw [if_pos hax] at hx
        cases hx
      · rw [if_neg hax] at hx
        exact hr.unregistered x hx

theorem SettlementRecord.netFor_new (x : Id) (d : SettlementData) :
    (SettlementRecord.new a d t).netFor x = if a = x then d.netAmount.toNat else 0 := rfl

/-- A settlement under a new id adds its net amount. -/
theorem Records.settledFor_insert {d : SettlementData}
    (hins : r'.settlements = r.settlements.insert d.recordId (.new a d t))
    (hnew : r.settlements[d.recordId]? = none) (x : Id) :
    r'.settledFor x = r.settledFor x + if a = x then d.netAmount.toNat else 0 := by
  rw [Records.settledFor, hins, MapSum.total_insert_new hnew, SettlementRecord.netFor_new]
  rfl

/-- A record that is stored again changes no sum. -/
theorem Records.settledFor_again {d : SettlementData}
    (hins : r'.settlements = r.settlements.insert d.recordId (.new a d t))
    (hsame : r.settlements[d.recordId]? = some (.new a d t)) (x : Id) :
    r'.settledFor x = r.settledFor x := by
  have hsum := MapSum.total_insert_old (f := SettlementRecord.netFor x) (v := .new a d t) hsame
  rw [Records.settledFor, hins, Records.settledFor]
  omega

/-- **A settlement keeps the totals right** if its id is new, or if it adds nothing. -/
theorem Records.TotalsMatch.settle (hr : r.TotalsMatch) {d : SettlementData} {q : Participant}
    (hq : r.participants[a]? = some q)
    (hsettle : r'.settlements = r.settlements.insert d.recordId (.new a d t))
    (hpart : r'.participants = r.participants.insert a (q.settled d t))
    (hnew : ∀ rec ∈ r.settlements[d.recordId]?, rec = .new a d t ∧
      (d.netAmount = 0 ∨ q.totalSettled.toNat = fullTotal)) : r'.TotalsMatch := by
  have hold := hr.registered a q hq
  have hsat := toNat_satAdd q.totalSettled d.netAmount
  unfold fullTotal at *
  have hsum : (∀ x, a ≠ x → r'.settledFor x = r.settledFor x) ∧
      (satAdd q.totalSettled d.netAmount).toNat = min (r'.settledFor a) (2 ^ 64 - 1) := by
    cases hrec : r.settlements[d.recordId]? with
    | none =>
      have hadd := Records.settledFor_insert hsettle hrec
      refine ⟨?_, ?_⟩
      · intro x hx
        rw [hadd x, if_neg hx, Nat.add_zero]
      · rw [hadd a, if_pos rfl, hsat, hold]
        omega
    | some rec =>
      obtain ⟨rfl, hzero⟩ := hnew rec hrec
      have hkeep := Records.settledFor_again hsettle hrec
      refine ⟨fun x _ => hkeep x, ?_⟩
      rw [hkeep a, hsat]
      rcases hzero with hzero | hfull
      · rw [hzero, UInt64.toNat_zero]
        omega
      · omega
  refine ⟨?_, ?_⟩
  · intro x q' hq'
    rw [hpart, Table.get_insert] at hq'
    by_cases hax : a = x
    · subst hax
      rw [if_pos rfl, Option.some_inj] at hq'
      subst hq'
      exact hsum.2
    · rw [if_neg hax] at hq'
      rw [hsum.1 x hax]
      exact hr.registered x q' hq'
  · intro x hx
    rw [hpart, Table.get_insert] at hx
    by_cases hax : a = x
    · rw [if_pos hax] at hx
      cases hx
    · rw [if_neg hax] at hx
      rw [hsum.1 x hax]
      exact hr.unregistered x hx

end Step

/-! ## Runs -/

section Run

variable {P : Params} {a : Id} {d : SettlementData}

/-- A settlement that passes is stored and counted. -/
theorem Execution.execute_settlement {x : Execution} {act : Timed}
    (hp : act.1.payload = .recordSettlement a d) (h : x.store.AllowsSettlement act.1 a) :
    ∃ q, x.store.records.participants[a]? = some q ∧
      (x.execute P act).store.records.settlements =
        x.store.records.settlements.insert d.recordId (.new a d act.2) ∧
      (x.execute P act).store.records.participants =
        x.store.records.participants.insert a (q.settled d act.2) := by
  obtain ⟨hf, hsender, hreg⟩ := h
  obtain ⟨q, hq⟩ := Option.isSome_iff_exists.1 hreg
  have hrun := Settlement.record_run hq d act.2 P.rewards.settlementRecorded
  have hrec := Execution.execute_records (P := P) hf
  simp only [hp, hsender, runPayload, EStateM.after_ok hrun] at hrec
  refine ⟨q, hq, ?_, ?_⟩
  · rw [hrec, Records.reward_settlements]
    rfl
  · rw [hrec, Records.reward_participants]
    rfl

/-- **One transaction** records a settlement that passes, or it leaves the records of
settlements alone. -/
theorem Execution.Step.settlements {t : Int64} {x x' : Execution} {tx : Transaction}
    (h : x.Step P tx t x') :
    (∃ a d, tx.payload = .recordSettlement a d ∧ x.store.AllowsSettlement tx a ∧
      x'.store.records.settlements =
        x.store.records.settlements.insert d.recordId (.new a d t)) ∨
    x'.store.records.settlements = x.store.records.settlements := by
  cases h with
  | stale _ => exact .inr rfl
  | failed _ hout => exact .inr hout.settlements
  | succeeded hf hout =>
    rcases hout.settlements with ⟨d, q, hp, hq, hins, -⟩ | ⟨hsame, -⟩
    · exact .inl ⟨_, d, hp, ⟨hf, rfl, Option.isSome_iff_exists.2 ⟨q, hq⟩⟩, hins⟩
    · exact .inr hsame

/-- A stored record stays if settlements take new ids. -/
theorem Execution.settlement_kept {x : Execution} {act : Timed} {k : Id} {rec : SettlementRecord}
    (hrec : x.store.records.settlements[k]? = some rec) (hnew : SettlesNewIds x act) :
    (x.execute P act).store.records.settlements[k]? = some rec := by
  rcases (execution_step P x act).settlements with ⟨a, d, hp, hallow, hins⟩ | hsame
  · simp only [SettlesNewIds, hp] at hnew
    rw [hins, Table.get_insert]
    by_cases hk : d.recordId = k
    · subst hk
      rw [if_pos rfl, (hnew hallow rec hrec).1]
    · rw [if_neg hk, hrec]
  · rw [hsame, hrec]

/-- **The totals match in every run whose settlements take new ids.** -/
theorem executeAll_totalsMatch {l : List Timed}
    (h : Runs.Along (Execution.execute P) SettlesNewIds { store := .empty } l) :
    (executeAll P l).store.records.TotalsMatch := by
  refine executeAll_inv (P := P) (C := SettlesNewIds) (I := fun r _ => r.TotalsMatch)
    Records.totalsMatch_empty ?_ h
  intro x tx t es r' hr hnew hf hout
  rcases hout.settlements with ⟨d, q, hp, hq, hset, hpart⟩ | ⟨hsame, hp⟩
  · simp only [SettlesNewIds, hp] at hnew
    refine hr.settle hq hset hpart ?_
    intro rec hrec
    obtain ⟨heq, hzero⟩ := hnew ⟨hf, rfl, Option.isSome_iff_exists.2 ⟨q, hq⟩⟩ rec hrec
    exact ⟨heq, hzero.imp_right fun hfull => hfull q hq⟩
  · exact hr.of_same hout hsame hp

theorem settlementsKept_of_along {l : List Timed}
    (h : Runs.Along (Execution.execute P) SettlesNewIds { store := .empty } l) :
    SettlementsKept P l := by
  refine ⟨?_, ?_⟩
  · intro l₁ l₂ hpre k rec hrec
    have h₂ := (Runs.along_append.1 (h.initial hpre)).2
    obtain ⟨rec', hrec', rfl⟩ := Runs.persists_run (R := Eq)
      (fun x : Execution => x.store.records.settlements[k]?) (fun _ => rfl)
      (fun _ _ _ => Eq.trans)
      (fun x act rec hrec hnew => ⟨rec, Execution.settlement_kept (P := P) hrec hnew, rfl⟩) hrec h₂
    unfold executeAll
    rw [Runs.run_append]
    exact hrec'
  · intro l₁ hpre
    exact (executeAll_totalsMatch (h.initial hpre)).registered

/-- Where records stay and totals match, a settlement that finds its id taken stores the same
record again, and the total that it adds to is full or gains nothing. -/
theorem along_of_settlementsKept {l : List Timed} (h : SettlementsKept P l) :
    Runs.Along (Execution.execute P) SettlesNewIds { store := .empty } l := by
  refine Runs.along_iff_prefix.2 fun l₁ act hpre => ?_
  show SettlesNewIds (executeAll P l₁) act
  unfold SettlesNewIds
  split
  case h_2 => trivial
  case h_1 a d hp =>
    intro hallow rec hrec
    obtain ⟨q, hq, hset, hpart⟩ := Execution.execute_settlement (P := P) hp hallow
    rw [← executeAll_append_one] at hset hpart
    have hkept := h.kept l₁ [act] hpre d.recordId rec hrec
    rw [hset, Table.get_insert, if_pos rfl, Option.some_inj] at hkept
    refine ⟨hkept.symm, ?_⟩
    have hbefore := h.totals l₁ ((List.prefix_append _ _).trans hpre) a q hq
    have hafter := h.totals (l₁ ++ [act]) hpre a (q.settled d act.2) (by
      rw [hpart, Table.get_insert, if_pos rfl])
    rw [Records.settledFor_again hset (hkept ▸ hrec)] at hafter
    have hsat := toNat_satAdd q.totalSettled d.netAmount
    have htotal : (q.settled d act.2).totalSettled = satAdd q.totalSettled d.netAmount := rfl
    rw [htotal] at hafter
    unfold fullTotal at *
    by_cases hzero : d.netAmount.toNat = 0
    · exact .inl (UInt64.toNat_inj.1 hzero)
    · right
      intro q' hq'
      rw [Option.mem_def, hq, Option.some_inj] at hq'
      subst hq'
      omega

end Run

/-- **Settlement records are written once, and the totals match them, in just the runs whose
settlements take new ids.** -/
theorem settlementsKept_iff (P : Params) (l : List Timed) : SettlementsKept P l ↔
    Runs.Along (Execution.execute P) SettlesNewIds { store := .empty } l :=
  ⟨along_of_settlementsKept, settlementsKept_of_along⟩

/-- Two sellers register, and the first settles 90 as record 9. -/
def toySettled : List Timed :=
  [(.toy 1 1 (.registerParticipant 1 .seller ""), 0),
    (.toy 2 1 (.registerParticipant 2 .seller ""), 0),
    (.toy 1 2 (.recordSettlement 1
      { recordId := 9, grossAmount := 100, platformFee := 10, netAmount := 90, currency := 0,
        settledAt := 0 }), 10)]

/-- The second seller settles nothing as record 9. -/
def Timed.toyResettle : Timed :=
  (.toy 2 2 (.recordSettlement 2
    { recordId := 9, grossAmount := 0, platformFee := 0, netAmount := 0, currency := 0,
      settledAt := 0 }), 20)

/-- The record of the first seller is lost. -/
theorem settlementsKept_fails : ¬ ∀ P l, SettlementsKept P l := by
  intro hall
  have hfirst : ((executeAll .default toySettled).store.records.settlements[(9 : Id)]?).map
      (·.participantId) = some 1 := by
    decide +kernel
  have hsecond : ((executeAll .default (toySettled ++ [.toyResettle])).store.records.settlements[
      (9 : Id)]?).map (·.participantId) = some 2 := by
    decide +kernel
  obtain ⟨rec, hrec, hone⟩ := Option.map_eq_some_iff.1 hfirst
  have hkept := (hall .default (toySettled ++ [.toyResettle])).kept toySettled [.toyResettle]
    List.prefix_rfl 9 rec hrec
  rw [hkept, Option.map_some, hone] at hsecond
  revert hsecond
  decide

end RoutineChain
