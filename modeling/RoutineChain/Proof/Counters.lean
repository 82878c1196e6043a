import RoutineChain.Proof.Escrows

/-!
# The counters of a participant

`Update` lists the single writes to a stored participant. A transaction registers its sender,
or it makes at most two of them to any participant (`TxPayload.Outcome.participants`): two
where a trade or a dispute has the same party on both sides.

Each update counts one transaction or one rating at most, so the counters stay far from
`2 ^ 64`, successes stay below transactions, and the ratings sum to what their number allows.
-/

namespace RoutineChain

/-- **One write to a participant** by a transaction with payload `p` at time `t`. -/
inductive Participant.Update (p : TxPayload) (t : Int64) : Participant → Participant → Prop
  | updated {q md} : Update p t q { q with metadata := md, lastActivityAt := t }
  | deactivated {q} : Update p t q { q with isActive := false }
  | settled {q id d} (hp : p = .recordSettlement id d) : Update p t q (q.settled d t)
  | rated {q id n ok} (hp : p = .recordRating id n ok) : Update p t q (q.rated n ok t)
  | released {q} : Update p t q (q.released t)
  | sold {q n} : Update p t q (q.sold n t)
  | refunded {q} : Update p t q { q with totalTx := satAdd q.totalTx 1, lastActivityAt := t }
  | disputed {q d e reason ev} (hp : p = .raiseDispute d e reason ev) : Update p t q q.disputed
  | won {q raised d dec} (hp : p = .voteDispute d dec) : Update p t q (q.won raised)
  | lost {q raised d dec} (hp : p = .voteDispute d dec) : Update p t q (q.lost raised)

/-- At most `n` writes. -/
inductive Participant.Updates (p : TxPayload) (t : Int64) :
    ℕ → Participant → Participant → Prop
  | refl (n q) : Updates p t n q q
  | step {n q q₁ q'} (h : Update p t q q₁) (h' : Updates p t n q₁ q') : Updates p t (n + 1) q q'

section OptionRel

variable {α : Type*} {R S T : α → α → Prop}

theorem optionRel_refl (h : ∀ a, R a a) (o : Option α) : Option.Rel R o o := by
  cases o with
  | none => exact .none
  | some a => exact .some (h a)

theorem optionRel_mono (h : ∀ a b, R a b → S a b) {o o' : Option α} (hR : Option.Rel R o o') :
    Option.Rel S o o' := by
  cases hR with
  | none => exact .none
  | some hab => exact .some (h _ _ hab)

theorem optionRel_isSome {o o' : Option α} (hR : Option.Rel R o o') : o.isSome = o'.isSome := by
  cases hR with
  | none => rfl
  | some _ => rfl

theorem optionRel_trans (h : ∀ a b c, R a b → S b c → T a c) {o o' o'' : Option α}
    (hR : Option.Rel R o o') (hS : Option.Rel S o' o'') : Option.Rel T o o'' := by
  cases hR with
  | none =>
    cases hS
    exact .none
  | some hab =>
    cases hS with
    | some hbc => exact .some (h _ _ _ hab hbc)

end OptionRel

/-- Every participant is written at most `n` times, and none is added or removed. -/
def Records.Updated (p : TxPayload) (t : Int64) (n : ℕ) (r r' : Records) : Prop :=
  ∀ x : Id, Option.Rel (Participant.Updates p t n) r.participants[x]? r'.participants[x]?

section Updates

variable {p : TxPayload} {t : Int64} {m n : ℕ} {q q₁ q' : Participant}

theorem Participant.Updates.trans (h : Updates p t m q q₁) (h' : Updates p t n q₁ q') :
    Updates p t (m + n) q q' := by
  induction h with
  | refl m q =>
    induction h' with
    | refl => exact .refl _ _
    | step h _ ih => exact .step h ih
  | @step m q q₂ q₁ h _ ih =>
    rw [Nat.add_right_comm]
    exact .step h (ih h')

theorem Participant.Updates.mono (h : Updates p t m q q') (hmn : m ≤ n) :
    Updates p t n q q' := by
  obtain ⟨k, rfl⟩ := Nat.exists_eq_add_of_le hmn
  exact h.trans (.refl k q')

/-- **Invariant rule**: what every update keeps, several keep. -/
theorem Participant.Updates.inv {I : Participant → Prop}
    (hstep : ∀ q q', Update p t q q' → I q → I q') (h : Updates p t n q q') (hq : I q) :
    I q' := by
  induction h with
  | refl => exact hq
  | step h _ ih => exact ih (hstep _ _ h hq)

end Updates

namespace Records.Updated

variable {p : TxPayload} {t : Int64} {m n : ℕ} {r r' r'' : Records} {x : Id} {q q' : Participant}

theorem of_eq (h : r'.participants = r.participants) : r.Updated p t n r' := by
  intro y
  rw [h]
  exact optionRel_refl (.refl n) _

theorem reward {w : UInt64} : r.Updated p t 0 (r.reward x w) :=
  of_eq (reward_participants x w)

theorem trans (h : r.Updated p t m r') (h' : r'.Updated p t n r'') :
    r.Updated p t (m + n) r'' :=
  fun y => optionRel_trans (fun _ _ _ => .trans) (h y) (h' y)

theorem mono (h : r.Updated p t m r') (hmn : m ≤ n) : r.Updated p t n r' :=
  fun y => optionRel_mono (fun _ _ hu => hu.mono hmn) (h y)

/-- A participant is written that was registered. -/
theorem put (hq : r.participants[x]? = some q) (h : q.Update p t q') :
    r.Updated p t 1 (r.putParticipant x q') := by
  intro y
  refine Table.rel_insert (R := Option.Rel (Participant.Updates p t 1))
    (Records.putParticipant_participants r x q') (optionRel_refl (.refl 1)) ?_
  rintro rfl
  rw [hq]
  exact .some (.step h (.refl 0 q'))

theorem modify {f : Participant → Participant} (hf : ∀ q : Participant, q.Update p t (f q)) :
    r.Updated p t 1 (r.modifyParticipant x f) := by
  unfold Records.modifyParticipant
  split
  case h_1 q hq => exact put hq (hf q)
  case h_2 => exact of_eq rfl

theorem resolve {esc : Escrow} {y : Id} {res : UInt8} {w : UInt64} {d : Id}
    {dec : DisputeDecision} (hp : p = .voteDispute d dec) :
    r.Updated p t 2 (r.resolve esc y res w) := by
  unfold Records.resolve
  split
  · exact of_eq rfl
  · have hwon : ∀ a : Id, r.Updated p t 1 (r.modifyParticipant a (·.won (y = a))) :=
      fun a => modify fun _ => .won hp
    have hlost : ∀ (r' : Records) (b : Id),
        r'.Updated p t 1 (r'.modifyParticipant b (·.lost (y = b))) :=
      fun _ b => modify fun _ => .lost hp
    exact ((hwon _).trans (hlost _ _)).trans reward

end Records.Updated

section Outcome

variable {P : Params} {a : Id} {t : Int64} {r r' : Records} {p : TxPayload} {es : List Event}

/-- **A payload registers its sender, or writes each participant at most twice.** -/
theorem TxPayload.Outcome.participants (h : p.Outcome P a t r es r') :
    r.Updated p t 2 r' ∨
    ∃ ty md, r.participants[a]? = none ∧
      r'.participants = r.participants.insert a (.new a ty md t) := by
  cases h with
  | registered hnew => exact .inr ⟨_, _, hnew, rfl⟩
  | updated hq => exact .inl ((Records.Updated.put hq .updated).mono (by decide))
  | deactivated hq => exact .inl ((Records.Updated.put hq .deactivated).mono (by decide))
  | @settled d q hq =>
    have hrec : r.Updated (.recordSettlement a d) t 0 (r.putSettlement d.recordId (.new a d t)) :=
      .of_eq rfl
    have hput : (r.putSettlement d.recordId (.new a d t)).Updated (.recordSettlement a d) t 1
        ((r.putSettlement d.recordId (.new a d t)).putParticipant a (q.settled d t)) :=
      .put hq (.settled rfl)
    exact .inl (((hrec.trans hput).trans .reward).mono (by decide))
  | @rated id n ok q hq =>
    have hput : r.Updated (.recordRating id n ok) t 1 (r.putParticipant id (q.rated n ok t)) :=
      .put hq (.rated rfl)
    exact .inl ((hput.trans .reward).mono (by decide))
  | @released e ev esc b s he ha hopen ht hb hs =>
    -- the parties one after the other, as they can be the same participant
    set r₁ := r.putEscrow e { esc with state := .released, evidenceHash := some ev }
    have he₁ : r.Updated (.releaseEscrow e ev) t 0 r₁ := .of_eq rfl
    have hb₁ : r₁.Updated (.releaseEscrow e ev) t 1
        (r₁.putParticipant esc.buyer (b.released t)) := .put hb .released
    have hs₁ : (r₁.putParticipant esc.buyer (b.released t)).Updated (.releaseEscrow e ev) t 1
        ((r₁.putParticipant esc.buyer (b.released t)).putParticipant esc.seller
          (s.sold esc.amount t)) := .put hs .sold
    exact .inl ((((he₁.trans hb₁).trans hs₁).trans .reward).trans .reward)
  | @refunded e esc s he ha hopen hs =>
    have he₁ : r.Updated (.refundEscrow e) t 0 (r.putEscrow e { esc with state := .refunded }) :=
      .of_eq rfl
    have hput : (r.putEscrow e { esc with state := .refunded }).Updated (.refundEscrow e) t 1
        ((r.putEscrow e { esc with state := .refunded }).putParticipant esc.seller
          { s with totalTx := satAdd s.totalTx 1, lastActivityAt := t }) := .put hs .refunded
    exact .inl ((he₁.trans hput).mono (by decide))
  | @raised d e reason ev esc he ha hs =>
    have hput : r.Updated (.raiseDispute d e reason ev) t 0 ((r.putEscrow e { esc with
        state := .disputed, disputeId := some d }).putDispute d (.new d e a reason ev t)) :=
      .of_eq rfl
    exact .inl ((hput.trans (.modify fun _ => .disputed rfl)).mono (by decide))
  | decided hd hp ha hs hv hm he =>
    exact .inl ((Records.Updated.resolve rfl).trans (n := 0) (.of_eq rfl))
  | created _ _ _ | evidence _ _ _ _ | voted _ _ _ _ _ _ | transferred _ _ | spent _ _
  | anchored _ _ => exact .inl (.of_eq rfl)

end Outcome

/-! ## Saturating arithmetic -/

theorem toNat_satAdd (a b : UInt64) :
    (satAdd a b).toNat = min (a.toNat + b.toNat) (2 ^ 64 - 1) := by
  rw [satAdd, UInt64.toNat_ofNat_of_lt']
  exact (Nat.min_le_right _ _).trans_lt (by decide)

theorem toNat_satSub (a b : UInt64) : (satSub a b).toNat = a.toNat - b.toNat := by
  rw [satSub, UInt64.toNat_ofNat_of_lt']
  exact (Nat.sub_le _ _).trans_lt a.toNat_lt

/-- A counter that is not full counts one more. -/
theorem toNat_satAdd_one {a : UInt64} (h : a.toNat < 2 ^ 64 - 1) :
    (satAdd a 1).toNat = a.toNat + 1 := by
  rw [toNat_satAdd, UInt64.toNat_one]
  omega

theorem toNat_add_one {a : UInt64} (h : a.toNat < 2 ^ 64 - 1) :
    (a + 1).toNat = a.toNat + 1 := by
  rw [UInt64.toNat_add, UInt64.toNat_one]
  omega

/-! ## Bounds -/

/-- The rating is stored, and no higher than `B`, or it is not stored. -/
def TxPayload.RatesUpTo (B : ℕ) : TxPayload → Prop
  | .recordRating _ n _ => n > 0 ∧ n ≤ 500 → n.toNat ≤ B
  | _ => True

instance (B : ℕ) (p : TxPayload) : Decidable (p.RatesUpTo B) := by
  unfold TxPayload.RatesUpTo
  induction p using TxPayload.casesOn with
  | recordRating => infer_instance
  | _ => exact instDecidableTrue

theorem TxPayload.RatesUpTo.mono {B B' : ℕ} {p : TxPayload} (h : p.RatesUpTo B) (hB : B ≤ B') :
    p.RatesUpTo B' := by
  cases p with
  | recordRating => exact fun hstored => (h hstored).trans hB
  | _ => trivial

/-- The counters after at most `k` updates, with no rating above `B`. -/
structure Participant.Counted (B k : ℕ) (q : Participant) : Prop where
  success : q.successTx.toNat ≤ q.totalTx.toNat
  total : q.totalTx.toNat ≤ k
  count : q.ratingCount.toNat ≤ k
  low : q.ratingCount.toNat ≤ q.ratingSum.toNat
  sum : q.ratingSum.toNat ≤ B * q.ratingCount.toNat

section Counted

variable {B k : ℕ} {p : TxPayload} {t : Int64} {q q' : Participant}

theorem Participant.Counted.mono {k' : ℕ} (h : q.Counted B k) (hk : k ≤ k') :
    q.Counted B k' :=
  ⟨h.success, h.total.trans hk, h.count.trans hk, h.low, h.sum⟩

theorem Participant.counted_new (id : Id) (ty : ParticipantType) (md : String) :
    (Participant.new id ty md t).Counted B k :=
  ⟨Nat.le_refl _, Nat.zero_le _, Nat.zero_le _, Nat.le_refl _, Nat.zero_le _⟩

/-- One more transaction, successful or not. -/
theorem Participant.Counted.of_traded (h : q.Counted B k) (hk : k < 2 ^ 63)
    (htotal : q'.totalTx = satAdd q.totalTx 1)
    (hsuccess : q'.successTx = satAdd q.successTx 1 ∨ q'.successTx = q.successTx)
    (hcount : q'.ratingCount = q.ratingCount) (hsum : q'.ratingSum = q.ratingSum) :
    q'.Counted B (k + 1) := by
  have hs := h.success
  have ht := h.total
  have htotal' : q'.totalTx.toNat = q.totalTx.toNat + 1 := by
    rw [htotal, toNat_satAdd_one (by omega)]
  refine ⟨?_, ?_, ?_, ?_, ?_⟩
  · rcases hsuccess with hsuccess | hsuccess
    · rw [hsuccess, toNat_satAdd_one (by omega)]
      omega
    · rw [hsuccess]
      omega
  · omega
  · rw [hcount]
    exact h.count.trans (Nat.le_succ k)
  · rw [hcount, hsum]
    exact h.low
  · rw [hcount, hsum]
    exact h.sum

/-- The other counters are of no concern. -/
theorem Participant.Counted.of_same (h : q.Counted B k) (htotal : q'.totalTx = q.totalTx)
    (hsuccess : q'.successTx = q.successTx) (hcount : q'.ratingCount = q.ratingCount)
    (hsum : q'.ratingSum = q.ratingSum) : q'.Counted B (k + 1) := by
  refine Participant.Counted.mono ⟨?_, ?_, ?_, ?_, ?_⟩ (Nat.le_succ k)
  · rw [hsuccess, htotal]
    exact h.success
  · rw [htotal]
    exact h.total
  · rw [hcount]
    exact h.count
  · rw [hcount, hsum]
    exact h.low
  · rw [hcount, hsum]
    exact h.sum

/-- A failure counts one more transaction, a stored rating one more rating. -/
theorem Participant.rated_counters (q : Participant) (n : UInt16) (ok : Bool) :
    (q.rated n ok t).successTx = q.successTx ∧
    (q.rated n ok t).totalTx = (if ok then q.totalTx else q.totalTx + 1) ∧
    (q.rated n ok t).ratingSum =
      (if n > 0 ∧ n ≤ 500 then q.ratingSum + n.toUInt64 else q.ratingSum) ∧
    (q.rated n ok t).ratingCount =
      (if n > 0 ∧ n ≤ 500 then q.ratingCount + 1 else q.ratingCount) := by
  unfold Participant.rated
  by_cases hn : n > 0 ∧ n ≤ 500 <;> cases ok <;> simp [hn]

theorem Participant.Counted.rated {n : UInt16} {ok : Bool} (h : q.Counted B k) (hk : k < 2 ^ 51)
    (hB : B ≤ 500) (hn : n > 0 ∧ n ≤ 500 → n.toNat ≤ B) : (q.rated n ok t).Counted B (k + 1) := by
  obtain ⟨hsuccess, htotal, hsum, hcount⟩ := q.rated_counters (t := t) n ok
  have hk' := h.total
  have hs := h.success
  have hc := h.count
  have hl := h.low
  have hm := h.sum
  have htotal' : q.totalTx.toNat ≤ (q.rated n ok t).totalTx.toNat ∧
      (q.rated n ok t).totalTx.toNat ≤ k + 1 := by
    rw [htotal]
    cases ok with
    | true => simp only [if_true]; omega
    | false =>
      rw [if_neg Bool.false_ne_true, toNat_add_one (by omega)]
      omega
  have hfit : q.ratingSum.toNat ≤ 500 * k := hm.trans (Nat.mul_le_mul hB hc)
  suffices hrating : (q.rated n ok t).ratingCount.toNat ≤ k + 1 ∧
      (q.rated n ok t).ratingCount.toNat ≤ (q.rated n ok t).ratingSum.toNat ∧
      (q.rated n ok t).ratingSum.toNat ≤ B * (q.rated n ok t).ratingCount.toNat by
    refine ⟨?_, htotal'.2, hrating.1, hrating.2.1, hrating.2.2⟩
    rw [hsuccess]
    exact hs.trans htotal'.1
  rw [hsum, hcount]
  by_cases hstored : n > 0 ∧ n ≤ 500
  · have hpos : 0 < n.toNat := UInt16.lt_iff_toNat_lt.1 hstored.1
    have hle := hn hstored
    have hsum' : (q.ratingSum + n.toUInt64).toNat = q.ratingSum.toNat + n.toNat := by
      rw [UInt64.toNat_add, UInt16.toNat_toUInt64]
      omega
    rw [if_pos hstored, if_pos hstored, hsum', toNat_add_one (by omega), Nat.mul_succ]
    exact ⟨by omega, by omega, by omega⟩
  · rw [if_neg hstored, if_neg hstored]
    exact ⟨by omega, hl, hm⟩

/-- **An update counts one at most.** -/
theorem Participant.Update.counted (h : q.Update p t q') (hk : k < 2 ^ 51) (hB : B ≤ 500)
    (hp : p.RatesUpTo B) (hq : q.Counted B k) : q'.Counted B (k + 1) := by
  cases h with
  | updated | deactivated | disputed | won | lost => exact hq.of_same rfl rfl rfl rfl
  | rated hr =>
    subst hr
    exact hq.rated hk hB hp
  | settled | released | sold =>
    exact hq.of_traded (by omega) rfl (.inl rfl) rfl rfl
  | refunded => exact hq.of_traded (by omega) rfl (.inr rfl) rfl rfl

theorem Participant.Updates.counted {n : ℕ} (h : q.Updates p t n q') (hk : k + n ≤ 2 ^ 51)
    (hB : B ≤ 500) (hp : p.RatesUpTo B) (hq : q.Counted B k) : q'.Counted B (k + n) := by
  induction h generalizing k with
  | refl n q => exact hq.mono (Nat.le_add_right k n)
  | @step n q q₁ q' h _ ih =>
    have hq₁ := h.counted (by omega) hB hp hq
    have hq' := ih (by omega) hq₁
    exact hq'.mono (by omega)

end Counted

/-! ## Runs -/

/-- **Induction on a run from the empty store**, one transaction at a time. -/
theorem executeAll_induct {P : Params} {I : List Timed → Records → Prop} (hinit : I [] .empty)
    (hsame : ∀ l act, I l (executeAll P l).store.records →
      I (l ++ [act]) (executeAll P l).store.records)
    (hstep : ∀ l act es r', I l (executeAll P l).store.records →
      (executeAll P l).Succeeds P act →
      act.1.payload.Outcome P act.1.sender act.2 (executeAll P l).store.records es r' →
      I (l ++ [act]) r')
    (l : List Timed) : I l (executeAll P l).store.records := by
  induction l using List.reverseRecOn with
  | nil => exact hinit
  | append_singleton l act ih =>
    rcases executeAll_step P l act with ⟨-, hsame', -⟩ | ⟨hs, es, hout, -⟩
    · rw [hsame']
      exact hsame l act ih
    · exact hstep l act es _ ih hs hout

/-- The counters of every participant are bounded. -/
def Records.Counted (B k : ℕ) (r : Records) : Prop :=
  ∀ (a : Id) (q : Participant), r.participants[a]? = some q → q.Counted B k

theorem TxPayload.Outcome.counted {P : Params} {a : Id} {t : Int64} {r r' : Records}
    {p : TxPayload} {es : List Event} {B k : ℕ} (h : p.Outcome P a t r es r')
    (hk : k + 2 ≤ 2 ^ 51) (hB : B ≤ 500) (hp : p.RatesUpTo B) (hr : r.Counted B k) :
    r'.Counted B (k + 2) := by
  intro x q' hq'
  rcases h.participants with hupd | ⟨ty, md, hnew, hins⟩
  · have hx := hupd x
    rw [hq'] at hx
    generalize ho : r.participants[x]? = o at hx
    cases hx with
    | some hu => exact hu.counted hk hB hp (hr x _ ho)
  · rw [hins, Table.get_insert] at hq'
    by_cases hax : a = x
    · rw [if_pos hax, Option.some_inj] at hq'
      subst hq'
      exact Participant.counted_new _ _ _
    · rw [if_neg hax] at hq'
      exact (hr x q' hq').mono (by omega)

/-- A transaction that succeeds stores no rating above `B`. -/
def StoresRatesUpTo (P : Params) (B : ℕ) (x : Execution) (act : Timed) : Prop :=
  x.Succeeds P act → act.1.payload.RatesUpTo B

instance (P : Params) (B : ℕ) (x : Execution) (act : Timed) :
    Decidable (StoresRatesUpTo P B x act) :=
  inferInstanceAs (Decidable (_ → _))

/-- **The counters in every reachable state**, if no rating of the run above `B` is stored. -/
theorem executeAll_counted {P : Params} {B : ℕ} (hB : B ≤ 500) {l : List Timed}
    (hl : l.length < 2 ^ 50)
    (h : Runs.Along (Execution.execute P) (StoresRatesUpTo P B) { store := .empty } l) :
    (executeAll P l).store.records.Counted B (2 * l.length) := by
  refine executeAll_induct (P := P) (I := fun l r => l.length < 2 ^ 50 →
    Runs.Along (Execution.execute P) (StoresRatesUpTo P B) { store := .empty } l →
    r.Counted B (2 * l.length)) ?_ ?_ ?_ l hl h
  · intro _ _ a q hq
    simp [Records.empty] at hq
  · intro l act hI hl h
    rw [List.length_append, List.length_singleton] at hl ⊢
    intro a q hq
    exact (hI (by omega) (Runs.along_append.1 h).1 a q hq).mono (by omega)
  · intro l act es r' hI hs hout hl h
    rw [List.length_append, List.length_singleton] at hl ⊢
    obtain ⟨hbefore, hact, -⟩ := Runs.along_append.1 h
    have hcounted := hI (by omega) hbefore
    have hafter := hout.counted (k := 2 * l.length) (by omega) hB (hact hs) hcounted
    exact hafter

/-- A rating that is stored is at most 500. -/
theorem TxPayload.ratesUpTo_max (p : TxPayload) : p.RatesUpTo 500 := by
  unfold TxPayload.RatesUpTo
  split
  · exact fun h => UInt16.le_iff_toNat_le.1 h.2
  · trivial

/-- **The counters in every reachable state**, whatever is rated. -/
theorem executeAll_counted_max (P : Params) {l : List Timed} (hl : l.length < 2 ^ 50) :
    (executeAll P l).store.records.Counted 500 (2 * l.length) := by
  have hrates : Runs.Along (Execution.execute P) (StoresRatesUpTo P 500) { store := .empty } l :=
    (Runs.along_true _ l).mono fun _ act _ _ => act.1.payload.ratesUpTo_max
  exact executeAll_counted (Nat.le_refl 500) hl hrates

end RoutineChain
