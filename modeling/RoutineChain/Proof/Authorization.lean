import RoutineChain.Proof.Tokens

/-!
# What a transaction may touch

A transaction leaves the accounts of others alone, up to what they are given: rewards,
transfers, and the counters of trades, ratings and disputes. It touches escrows of its sender
only, unless it refunds one that has expired, and it anchors only with a platform key.
-/

namespace RoutineChain

/-- **What the transaction `act` leaves alone** after the run `l`. -/
structure AuthorizationFrame (P : Params) (l : List Timed) (act : Timed) : Prop where
  /-- No other account is registered, and the profiles of others do not change. -/
  participants : (executeAll P l).store.records.KeepsOthers act.1.sender
    (executeAll P (l ++ [act])).store.records
  nonces : ∀ a, a ≠ act.1.sender →
    (executeAll P (l ++ [act])).store.getNonce a = (executeAll P l).store.getNonce a
  balances : tally Event.minted (executeAll P (l ++ [act])).events < 2 ^ 64 →
    ∀ a, a ≠ act.1.sender → (executeAll P l).store.records.holding a ≤
      (executeAll P (l ++ [act])).store.records.holding a
  escrows : ∀ (e : Id) (esc : Escrow), (executeAll P l).store.records.escrows[e]? = some esc →
    act.1.sender ≠ esc.buyer → act.1.sender ≠ esc.seller →
    (executeAll P (l ++ [act])).store.records.escrows[e]? = some esc ∨
      (act.1.payload = .refundEscrow e ∧ act.2 > esc.expiresAt)
  created : ∀ (e : Id) (esc : Escrow), (executeAll P l).store.records.escrows[e]? = none →
    (executeAll P (l ++ [act])).store.records.escrows[e]? = some esc → act.1.sender = esc.buyer
  anchors : ∀ (b : Id) (anc : AnchorRecord),
    (executeAll P l).store.records.anchors[b]? = some anc →
    (executeAll P (l ++ [act])).store.records.anchors[b]? = some anc
  anchored : ∀ b : Id, (executeAll P l).store.records.anchors[b]? = none →
    (executeAll P (l ++ [act])).store.records.anchors[b]? ≠ none →
    act.1.sender ∈ P.platformKeys

section Outcome

variable {P : Params} {a : Id} {t : Int64} {r r' : Records} {p : TxPayload} {es : List Event}

/-- Anchors are added, under new ids and by platform keys. -/
theorem TxPayload.Outcome.anchors (h : p.Outcome P a t r es r') :
    r'.anchors = r.anchors ∨
    ∃ b anc, a ∈ P.platformKeys ∧ r.anchors[b]? = none ∧ r'.anchors = r.anchors.insert b anc := by
  cases h with
  | anchored ha hnew => exact .inr ⟨_, _, ha, hnew, rfl⟩
  | settled _ | rated _ | released _ _ _ _ _ _ | raised _ _ _ | decided _ _ _ _ _ _ _ =>
    left
    simp
  | _ => exact .inl rfl

/-- The escrow of others is refunded after its expiry, or left alone. -/
theorem EscrowChange.of_stranger {e : Id} {esc : Escrow} {o : Option Escrow}
    (h : EscrowChange r a t p e (some esc) o) (hb : a ≠ esc.buyer) (hs : a ≠ esc.seller) :
    o = some esc ∨ (p = .refundEscrow e ∧ t > esc.expiresAt) := by
  cases h with
  | same => exact .inl rfl
  | released _ ha _ _ => exact absurd ha hb
  | refunded hp ha _ => exact .inr ⟨hp, ha.resolve_left hb⟩
  | disputed _ ha _ => exact absurd ha (not_or_intro hb hs)

end Outcome

section Runs

variable {P : Params} {l : List Timed} {act : Timed}

theorem executeAll_escrowChange (P : Params) (l : List Timed) (act : Timed) (e : Id) :
    EscrowChange (executeAll P l).store.records act.1.sender act.2 act.1.payload e
      (executeAll P l).store.records.escrows[e]?
      (executeAll P (l ++ [act])).store.records.escrows[e]? :=
  escrowAfter_append P .empty e l act

theorem executeAll_keepsOthers (P : Params) (l : List Timed) (act : Timed) :
    (executeAll P l).store.records.KeepsOthers act.1.sender
      (executeAll P (l ++ [act])).store.records := by
  rcases executeAll_step P l act with ⟨-, hsame, -⟩ | ⟨-, es, hout, -⟩
  · exact .of_eq (congrArg Records.participants hsame)
  · exact hout.keepsOthers

theorem executeAll_getNonce {a : Id} (ha : a ≠ act.1.sender) :
    (executeAll P (l ++ [act])).store.getNonce a = (executeAll P l).store.getNonce a := by
  have hstep := execution_step P (executeAll P l) act
  rw [executeAll_append_one]
  generalize (executeAll P l).execute P act = x' at hstep ⊢
  cases hstep with
  | stale _ => rfl
  | failed _ _ => rw [Store.getNonce_afterTx, if_neg ha.symm]
  | succeeded _ _ => rw [Store.getNonce_afterTx, if_neg ha.symm]

theorem executeAll_anchors (P : Params) (l : List Timed) (act : Timed) (b : Id) :
    (executeAll P (l ++ [act])).store.records.anchors[b]? =
      (executeAll P l).store.records.anchors[b]? ∨
    (act.1.sender ∈ P.platformKeys ∧ (executeAll P l).store.records.anchors[b]? = none) := by
  rcases executeAll_step P l act with ⟨-, hsame, -⟩ | ⟨-, es, hout, -⟩
  · left
    rw [hsame]
  · rcases hout.anchors with hsame | ⟨b', anc, ha, hnew, hins⟩
    · left
      rw [hsame]
    · rw [hins, Table.get_insert]
      by_cases hb : b' = b
      · exact .inr ⟨ha, hb ▸ hnew⟩
      · rw [if_neg hb]
        exact .inl rfl

theorem authorizationFrame (P : Params) (l : List Timed) (act : Timed) :
    AuthorizationFrame P l act := by
  refine ⟨executeAll_keepsOthers P l act, ?_, ?_, ?_, ?_, ?_, ?_⟩
  · intro a ha
    exact executeAll_getNonce ha
  · intro hfit a ha
    exact executeAll_holding_le hfit ha.symm
  · intro e esc he hb hs
    have hchange := executeAll_escrowChange P l act e
    rw [he] at hchange
    exact hchange.of_stranger hb hs
  · intro e esc hnone he
    have hchange := executeAll_escrowChange P l act e
    rw [hnone, he] at hchange
    cases hchange with
    | created _ _ _ => rfl
  · intro b anc hb
    rcases executeAll_anchors P l act b with hsame | ⟨-, hnone⟩
    · rw [hsame, hb]
    · rw [hb] at hnone
      cases hnone
  · intro b hnone hsome
    rcases executeAll_anchors P l act b with hsame | ⟨ha, -⟩
    · rw [hsame] at hsome
      exact absurd hnone hsome
    · exact ha

/-- What is fixed at registration stays so over whole runs. -/
theorem executeAll_sameIdentity (P : Params) (l l' : List Timed) (a : Id) (p : Participant)
    (hp : (executeAll P l).store.records.participants[a]? = some p) :
    ∃ p', (executeAll P (l ++ l')).store.records.participants[a]? = some p' ∧
      p.SameIdentity p' := by
  induction l' using List.reverseRecOn with
  | nil =>
    rw [List.append_nil]
    exact ⟨p, hp, .refl p⟩
  | append_singleton l' act ih =>
    obtain ⟨p₁, hp₁, hsame₁⟩ := ih
    obtain ⟨p₂, hp₂, hsame₂, -⟩ := (executeAll_keepsOthers P (l ++ l') act).kept a p₁ hp₁
    rw [List.append_assoc] at hp₂
    exact ⟨p₂, hp₂, hsame₁.trans hsame₂⟩

end Runs

/-- **Authorization**: every transaction in a reachable state leaves alone what is not its
sender's, and what is fixed at registration never changes. -/
theorem authorization (P : Params) :
    (∀ l act, AuthorizationFrame P l act) ∧
    ∀ (l l' : List Timed) (a : Id) (p : Participant),
      (executeAll P l).store.records.participants[a]? = some p →
      ∃ p', (executeAll P (l ++ l')).store.records.participants[a]? = some p' ∧
        p.SameIdentity p' :=
  ⟨authorizationFrame P, executeAll_sameIdentity P⟩

/-- A stranger refunds the escrow of the trade after it has expired. -/
theorem authorization_toy :
    AuthorizationFrame .default toyTrade (.toy 3 1 (.refundEscrow 7), 60) :=
  (authorization .default).1 toyTrade _

end RoutineChain
