import RoutineChain.Proof.ScoreOrder

/-!
# Longevity

Blocks carry milliseconds, and `registered_at` and `last_activity_at` are copies of them. The
score divides their difference by the seconds of a day.

* `executeAll_remembers`: the two fields are the times of the registration and of the last
  activity of the run.
* `longevity_iff`: the tier is that of the days between them if and only if they are less
  than three quarters of an hour, or more than a year, apart.
-/

namespace RoutineChain

/-! ## The history of a participant -/

/-- The payload registers `x`. -/
def TxPayload.Registers (x : Id) : TxPayload → Prop
  | .registerParticipant id _ _ => id = x
  | _ => False

/-- The payload counts as an activity of `x`: it registers or updates it, records a
settlement or a rating of it, or ends a trade of it; a refund is one of the seller alone. -/
def TxPayload.ActivityOf (r : Records) (x : Id) : TxPayload → Prop
  | .registerParticipant id _ _ | .updateParticipant id _ | .recordSettlement id _
  | .recordRating id _ _ => id = x
  | .releaseEscrow e _ => ∃ esc ∈ r.escrows[e]?, esc.buyer = x ∨ esc.seller = x
  | .refundEscrow e => ∃ esc ∈ r.escrows[e]?, esc.seller = x
  | _ => False

instance (x : Id) (p : TxPayload) : Decidable (p.Registers x) := by
  unfold TxPayload.Registers
  induction p using TxPayload.casesOn with
  | registerParticipant => infer_instance
  | _ => exact instDecidableFalse

instance (r : Records) (x : Id) (p : TxPayload) : Decidable (p.ActivityOf r x) := by
  unfold TxPayload.ActivityOf
  induction p using TxPayload.casesOn with
  | registerParticipant | updateParticipant | recordSettlement | recordRating | releaseEscrow
  | refundEscrow => infer_instance
  | _ => exact instDecidableFalse

theorem TxPayload.Registers.activityOf {x : Id} {p : TxPayload} (h : p.Registers x)
    (r : Records) : p.ActivityOf r x := by
  cases p with
  | registerParticipant => exact h
  | _ => exact h.elim

/-- The participant after a transaction at time `t` that counts as an activity of it or not. -/
structure Participant.Clocked (t : Int64) (active : Prop) (q q' : Participant) : Prop where
  registered : q'.registeredAt = q.registeredAt
  ticks : active → q'.lastActivityAt = t
  rests : ¬ active → q'.lastActivityAt = q.lastActivityAt

theorem Participant.Clocked.of_active {t : Int64} {q q' : Participant}
    (hreg : q'.registeredAt = q.registeredAt) (hlast : q'.lastActivityAt = t) :
    q.Clocked t True q' :=
  ⟨hreg, fun _ => hlast, fun h => absurd trivial h⟩

theorem Participant.Clocked.of_idle {t : Int64} {q q' : Participant}
    (hreg : q'.registeredAt = q.registeredAt) (hlast : q'.lastActivityAt = q.lastActivityAt) :
    q.Clocked t False q' :=
  ⟨hreg, False.elim, fun _ => hlast⟩

/-- None is added or removed, and exactly those in `A` are active at `t`. -/
def Records.Clocked (t : Int64) (A : Id → Prop) (r r' : Records) : Prop :=
  ∀ x : Id, Option.Rel (Participant.Clocked t (A x)) r.participants[x]? r'.participants[x]?

namespace Records.Clocked

variable {t : Int64} {A A' : Id → Prop} {r r' r'' : Records} {x : Id} {q q' : Participant}

theorem of_eq (h : r'.participants = r.participants) : r.Clocked t (fun _ => False) r' := by
  intro y
  rw [h]
  exact optionRel_refl (fun q => .of_idle rfl rfl) _

theorem reward {w : UInt64} : r.Clocked t (fun _ => False) (r.reward x w) :=
  of_eq (reward_participants x w)

theorem congr (h : r.Clocked t A r') (hA : ∀ y, A y ↔ A' y) : r.Clocked t A' r' := by
  have heq : A = A' := funext fun y => propext (hA y)
  exact heq ▸ h

theorem trans (h : r.Clocked t A r') (h' : r'.Clocked t A' r'') :
    r.Clocked t (fun y => A y ∨ A' y) r'' := by
  intro y
  refine optionRel_trans ?_ (h y) (h' y)
  intro q₁ q₂ q₃ h₁ h₂
  refine ⟨h₂.registered.trans h₁.registered, ?_, ?_⟩
  · intro hor
    by_cases hA' : A' y
    · exact h₂.ticks hA'
    · exact (h₂.rests hA').trans (h₁.ticks (hor.resolve_right hA'))
  · intro hnot
    rw [not_or] at hnot
    exact (h₂.rests hnot.2).trans (h₁.rests hnot.1)

/-- A participant is written, and its clock or not. -/
theorem put {active : Prop} (hq : r.participants[x]? = some q) (h : q.Clocked t active q') :
    r.Clocked t (fun y => x = y ∧ active) (r.putParticipant x q') := by
  intro y
  rw [Records.putParticipant_participants, Table.get_insert]
  by_cases hxy : x = y
  · subst hxy
    rw [if_pos rfl, hq]
    exact .some ⟨h.registered, fun hA => h.ticks hA.2, fun hA => h.rests fun ha => hA ⟨rfl, ha⟩⟩
  · rw [if_neg hxy]
    exact optionRel_refl (fun q => ⟨rfl, fun hA => absurd hA.1 hxy, fun _ => rfl⟩) _

theorem modify {f : Participant → Participant} (hf : ∀ q : Participant, q.Clocked t False (f q)) :
    r.Clocked t (fun _ => False) (r.modifyParticipant x f) := by
  unfold Records.modifyParticipant
  split
  case h_1 q hq => exact (put hq (hf q)).congr fun _ => and_iff_right_of_imp False.elim
  case h_2 => exact of_eq rfl

theorem resolve (esc : Escrow) (y : Id) (res : UInt8) (w : UInt64) :
    r.Clocked t (fun _ => False) (r.resolve esc y res w) := by
  unfold Records.resolve
  split
  · exact of_eq rfl
  · have hwon : ∀ a : Id, r.Clocked t (fun _ => False) (r.modifyParticipant a (·.won (y = a))) :=
      fun a => modify fun _ => .of_idle rfl rfl
    have hlost : ∀ (r' : Records) (b : Id),
        r'.Clocked t (fun _ => False) (r'.modifyParticipant b (·.lost (y = b))) :=
      fun _ b => modify fun _ => .of_idle rfl rfl
    refine (((hwon _).trans (hlost _ _)).trans reward).congr fun _ => ?_
    simp only [or_false]

end Records.Clocked

section Outcome

variable {P : Params} {a : Id} {t : Int64} {r r' : Records} {p : TxPayload} {es : List Event}

/-- **A payload registers its sender, or it sets the clock of those that it is an activity
of.** -/
theorem TxPayload.Outcome.clocked (h : p.Outcome P a t r es r') :
    (∃ ty md, p = .registerParticipant a ty md ∧ r.participants[a]? = none ∧
      r'.participants = r.participants.insert a (.new a ty md t)) ∨
    ((∀ x, ¬ p.Registers x) ∧ r.Clocked t (p.ActivityOf r) r') := by
  cases h with
  | registered hnew => exact .inl ⟨_, _, rfl, hnew, rfl⟩
  | updated hq =>
    refine .inr ⟨fun _ => id, .congr (.put hq (.of_active rfl rfl)) fun x => ?_⟩
    simp [TxPayload.ActivityOf]
  | deactivated hq =>
    refine .inr ⟨fun _ => id, .congr (.put hq (.of_idle rfl rfl)) fun x => ?_⟩
    simp [TxPayload.ActivityOf]
  | @settled d q hq =>
    set r₁ := r.putSettlement d.recordId (.new a d t)
    have hr₁ : r.Clocked t (fun _ => False) r₁ := .of_eq rfl
    have hput : r₁.Clocked t (fun x => a = x ∧ True) (r₁.putParticipant a (q.settled d t)) :=
      .put hq (.of_active rfl rfl)
    refine .inr ⟨fun _ => id, ((hr₁.trans hput).trans .reward).congr fun x => ?_⟩
    simp [TxPayload.ActivityOf]
  | @rated id n ok q hq =>
    have hput : r.Clocked t (fun x => id = x ∧ True) (r.putParticipant id (q.rated n ok t)) :=
      .put hq (.of_active (q.sameProfile_rated n ok t).registeredAt rfl)
    refine .inr ⟨fun _ h => h, (hput.trans .reward).congr fun x => ?_⟩
    simp [TxPayload.ActivityOf]
  | @released e ev esc b s he ha hopen ht hb hs =>
    -- the parties one after the other, as they can be the same participant
    set r₁ := r.putEscrow e { esc with state := .released, evidenceHash := some ev }
    set r₂ := r₁.putParticipant esc.buyer (b.released t)
    have hr₁ : r.Clocked t (fun _ => False) r₁ := .of_eq rfl
    have hbuyer : r₁.Clocked t (fun x => esc.buyer = x ∧ True) r₂ :=
      .put hb (.of_active rfl rfl)
    have hseller : r₂.Clocked t (fun x => esc.seller = x ∧ True)
        (r₂.putParticipant esc.seller (s.sold esc.amount t)) := .put hs (.of_active rfl rfl)
    refine .inr ⟨fun _ => id,
      ((((hr₁.trans hbuyer).trans hseller).trans .reward).trans .reward).congr fun x => ?_⟩
    simp [TxPayload.ActivityOf, he]
  | @refunded e esc s he ha hopen hs =>
    set r₁ := r.putEscrow e { esc with state := .refunded }
    have hr₁ : r.Clocked t (fun _ => False) r₁ := .of_eq rfl
    have hput : r₁.Clocked t (fun x => esc.seller = x ∧ True) (r₁.putParticipant esc.seller
        { s with totalTx := satAdd s.totalTx 1, lastActivityAt := t }) :=
      .put hs (.of_active rfl rfl)
    refine .inr ⟨fun _ => id, (hr₁.trans hput).congr fun x => ?_⟩
    simp [TxPayload.ActivityOf, he]
  | @raised d e reason ev esc he ha hs =>
    set r₁ := (r.putEscrow e { esc with state := .disputed, disputeId := some d }).putDispute d
      (.new d e a reason ev t)
    have hr₁ : r.Clocked t (fun _ => False) r₁ := .of_eq rfl
    have hmodify : r₁.Clocked t (fun _ => False) (r₁.modifyParticipant
        (if a = esc.buyer then esc.seller else esc.buyer) Participant.disputed) :=
      .modify fun _ => .of_idle rfl rfl
    exact .inr ⟨fun _ => id, (hr₁.trans hmodify).congr fun _ => or_self_iff⟩
  | @decided d dec dis q esc hd hp ha hs hv hm he =>
    have hresolve : r.Clocked t (fun _ => False) (r.resolve esc dis.raisedBy
        (resolutionOf (dis.voted a dec t).votes) P.rewards.disputeWon) := .resolve _ _ _ _
    exact .inr ⟨fun _ => id, (hresolve.trans (.of_eq rfl)).congr fun _ => or_self_iff⟩
  | created _ _ _ | evidence _ _ _ _ | voted _ _ _ _ _ _ | transferred _ _ | spent _ _
  | anchored _ _ => exact .inr ⟨fun _ => id, .of_eq rfl⟩

end Outcome

/-! ## Runs -/

/-- The transaction that registers `a` in a run. -/
def registration (P : Params) (l : List Timed) (a : Id) : Option Timed :=
  Runs.last (Execution.execute P) (fun x act => x.Succeeds P act ∧ act.1.payload.Registers a)
    { store := .empty } l

/-- The last activity of `a` in a run. -/
def lastActivity (P : Params) (l : List Timed) (a : Id) : Option Timed :=
  Runs.last (Execution.execute P)
    (fun x act => x.Succeeds P act ∧ act.1.payload.ActivityOf x.store.records a)
    { store := .empty } l

theorem registration_concat (P : Params) (l : List Timed) (act : Timed) (a : Id) :
    registration P (l ++ [act]) a =
      if (executeAll P l).Succeeds P act ∧ act.1.payload.Registers a then some act
      else registration P l a :=
  Runs.last_concat _ l act

theorem lastActivity_concat (P : Params) (l : List Timed) (act : Timed) (a : Id) :
    lastActivity P (l ++ [act]) a =
      if (executeAll P l).Succeeds P act ∧
        act.1.payload.ActivityOf (executeAll P l).store.records a then some act
      else lastActivity P l a :=
  Runs.last_concat _ l act

/-- The clock of a participant is its history. -/
structure Participant.Remembers (P : Params) (l : List Timed) (a : Id) (p : Participant)
    (reg act : Timed) : Prop where
  registration : registration P l a = some reg
  lastActivity : lastActivity P l a = some act
  registeredAt : p.registeredAt = reg.2
  lastActivityAt : p.lastActivityAt = act.2

/-- A transaction that is no activity of the participant is not remembered. -/
theorem Participant.Remembers.kept {P : Params} {l : List Timed} {a : Id} {p : Participant}
    {reg last act : Timed} (h : p.Remembers P l a reg last)
    (hnot : ¬ ((executeAll P l).Succeeds P act ∧
      act.1.payload.ActivityOf (executeAll P l).store.records a)) :
    p.Remembers P (l ++ [act]) a reg last := by
  refine ⟨?_, ?_, h.registeredAt, h.lastActivityAt⟩
  · rw [registration_concat, if_neg fun hreg => hnot ⟨hreg.1, hreg.2.activityOf _⟩,
      h.registration]
  · rw [lastActivity_concat, if_neg hnot, h.lastActivity]

/-- **In every reachable state** the clock of each participant has the time of its registration
and that of its last activity. -/
theorem executeAll_remembers (P : Params) (l : List Timed) (a : Id) (p : Participant)
    (hp : (executeAll P l).store.records.participants[a]? = some p) :
    ∃ reg act, p.Remembers P l a reg act := by
  induction l using List.reverseRecOn generalizing p with
  | nil => simp [executeAll, Runs.run, Store.empty, Records.empty] at hp
  | append_singleton l act ih =>
    rcases executeAll_step P l act with ⟨hfail, hsame, -⟩ | ⟨hok, es, hout, -⟩
    · rw [hsame] at hp
      obtain ⟨reg, last, h⟩ := ih p hp
      exact ⟨reg, last, h.kept (mt And.left hfail)⟩
    rcases hout.clocked with ⟨ty, md, hpayload, -, hins⟩ | ⟨hreg, hclock⟩
    · rw [hins, Table.get_insert] at hp
      by_cases ha : act.1.sender = a
      · rw [if_pos ha, Option.some_inj] at hp
        subst hp
        have hregisters : act.1.payload.Registers a := by rw [hpayload]; exact ha
        refine ⟨act, act, ?_, ?_, rfl, rfl⟩
        · rw [registration_concat, if_pos ⟨hok, hregisters⟩]
        · rw [lastActivity_concat, if_pos ⟨hok, hregisters.activityOf _⟩]
      · rw [if_neg ha] at hp
        obtain ⟨reg, last, h⟩ := ih p hp
        refine ⟨reg, last, h.kept ?_⟩
        rw [hpayload]
        exact fun hactive => ha hactive.2
    · have hrel := hclock a
      rw [hp] at hrel
      generalize hq : (executeAll P l).store.records.participants[a]? = o at hrel
      cases hrel with
      | some hstep =>
        obtain ⟨reg, last, h⟩ := ih _ hq
        by_cases hactive : act.1.payload.ActivityOf (executeAll P l).store.records a
        · refine ⟨reg, act, ?_, ?_, hstep.registered.trans h.registeredAt, hstep.ticks hactive⟩
          · rw [registration_concat, if_neg (mt And.right (hreg a)), h.registration]
          · rw [lastActivity_concat, if_pos ⟨hok, hactive⟩]
        · have h' : Participant.Remembers P (l ++ [act]) a _ reg last :=
            h.kept (mt And.right hactive)
          exact ⟨reg, last, h'.registration, h'.lastActivity,
            hstep.registered.trans h.registeredAt, (hstep.rests hactive).trans h.lastActivityAt⟩

/-! ## The tier -/

/-- The whole days between two times in milliseconds. -/
def daysBetween (t₀ t₁ : Int64) : ℕ := (t₁.toInt - t₀.toInt).toNat / 86400000

/-- Times in milliseconds that the score puts into the tier of their days: less than
`31 * 86400` apart, which are 45 minutes, or at least 366 days, unless the clock wraps. -/
def SameTier (t₀ t₁ : Int64) : Prop :=
  t₁.toInt - t₀.toInt < 31 * 86400 ∨
    366 * 86400000 ≤ t₁.toInt - t₀.toInt ∧ t₁.toInt - t₀.toInt ≤ 2 ^ 64 - 86400

theorem longevityScore_eq_days_iff (p : Participant) :
    p.longevityScore = longevityTier (daysBetween p.registeredAt p.lastActivityAt) ↔
      SameTier p.registeredAt p.lastActivityAt := by
  have hdays : daysBetween p.registeredAt p.lastActivityAt = p.activeTime.toNat / 86400000 := rfl
  have hsame : SameTier p.registeredAt p.lastActivityAt ↔ p.activeTime < 31 * 86400 ∨
      366 * 86400000 ≤ p.activeTime ∧ p.activeTime ≤ 2 ^ 64 - 86400 := Iff.rfl
  rw [hdays, hsame]
  by_cases hfits : p.ClockFits
  · rw [longevityScore_eq hfits]
    unfold Participant.ClockFits at hfits
    unfold longevityTier
    split_ifs <;> omega
  · rw [longevityScore_of_not_fits hfits]
    unfold Participant.ClockFits at hfits
    unfold longevityTier
    split_ifs <;> omega

/-- Every participant that has transactions at the end of the run, with the times of its
registration and of its last activity, meets `Q`. -/
def ForTraders (P : Params) (l : List Timed) (Q : Participant → Int64 → Int64 → Prop) : Prop :=
  ∀ (a : Id) (p : Participant), (executeAll P l).store.records.participants[a]? = some p →
    p.totalTx ≠ 0 →
    ∃ reg act, registration P l a = some reg ∧ lastActivity P l a = some act ∧ Q p reg.2 act.2

/-- **Longevity follows the chain's clock** if and only if no participant that has
transactions was last active three quarters of an hour to a year after its registration. -/
theorem longevity_iff (P : Params) (l : List Timed) :
    ForTraders P l (fun p t₀ t₁ => p.longevityScore = longevityTier (daysBetween t₀ t₁)) ↔
      ForTraders P l fun _ t₀ t₁ => SameTier t₀ t₁ := by
  unfold ForTraders
  refine forall₄_congr fun a p hp _ => exists₂_congr fun reg act => ?_
  refine and_congr_right fun hreg => and_congr_right fun hact => ?_
  obtain ⟨reg', act', h⟩ := executeAll_remembers P l a p hp
  rw [h.registration, Option.some_inj] at hreg
  rw [h.lastActivity, Option.some_inj] at hact
  rw [← hreg, ← hact, ← h.registeredAt, ← h.lastActivityAt]
  exact longevityScore_eq_days_iff p

/-- Participant 1 registers, and settles a payment 45 minutes later. -/
def toyHour : List Timed :=
  [(.toyRegister, 1700000000000), (.toySettlement, 1700000000000 + 31 * 86400)]

/-- On the same day it counts as active for a month. -/
theorem longevity_fails : ¬ ForTraders .default toyHour fun p t₀ t₁ =>
    p.longevityScore = longevityTier (daysBetween t₀ t₁) := by
  intro h
  have hscore : (executeAll .default toyHour).store.records.participants[(1 : Id)]?.map
      (fun p => (p.totalTx, p.longevityScore)) = some (1, 4000) := by
    decide +kernel
  obtain ⟨p, hp, heq⟩ := Option.map_eq_some_iff.1 hscore
  obtain ⟨htotal, hlong⟩ := Prod.mk.inj heq
  have hne : p.totalTx ≠ 0 := by
    rw [htotal]
    decide
  obtain ⟨reg, act, hreg, hact, htier⟩ := h 1 p hp hne
  have htime₀ : (registration .default toyHour 1).map (·.2) = some 1700000000000 := by
    decide +kernel
  have htime₁ : (lastActivity .default toyHour 1).map (·.2) = some 1700002678400 := by
    decide +kernel
  rw [hreg, Option.map_some, Option.some_inj] at htime₀
  rw [hact, Option.map_some, Option.some_inj] at htime₁
  rw [hlong, htime₀, htime₁] at htier
  revert htier
  decide

end RoutineChain
