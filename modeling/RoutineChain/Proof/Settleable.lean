import RoutineChain.Proof.Disputes

/-!
# Which escrows can still be settled

* A dispute takes its escrow out of reach of `release` and `refund`, and nothing puts it
  back: not even the resolution, which only pays the winner.
* An escrow that is not disputed can be refunded, as long as somebody that may refund it has
  not used the last nonce.

Together they say exactly which escrows can still be settled (`canSettle_iff`).
-/

namespace RoutineChain

open EStateM

/-- `a` has not used the last nonce, so it can send another transaction. -/
def Store.CanSend (s : Store) (a : Id) : Prop := (s.getNonce a).toNat < 2 ^ 64 - 1

/-- Somebody can still send a refund of the escrow that passes the guard on the sender: its
buyer, or anybody after it has expired. -/
def Escrow.Refundable (esc : Escrow) (s : Store) : Prop :=
  s.CanSend esc.buyer ∨ (esc.expiresAt < Int64.maxValue ∧ ∃ a, s.CanSend a)

/-- Some continuation of the run, at timestamps from `now` on, settles the escrow `id`. -/
def CanSettle (P : Params) (l : List Timed) (now : Int64) (id : Id) : Prop :=
  ∃ l', (∀ act ∈ l', now ≤ act.2) ∧ (executeAll P (l ++ l')).store.records.SettledAt id

section Nonces

variable {P : Params} {s : Store} {a b : Id} {tx : Transaction} {t : Int64}

theorem Store.canSend_iff : s.CanSend a ↔ ∃ n, s.getNonce a < n := by
  unfold Store.CanSend
  refine ⟨?_, ?_⟩
  · intro h
    refine ⟨.ofNat (2 ^ 64 - 1), ?_⟩
    rw [UInt64.lt_iff_toNat_lt]
    exact h
  · rintro ⟨n, hn⟩
    rw [UInt64.lt_iff_toNat_lt] at hn
    have hmax := n.toNat_lt
    omega

/-- Who sends a fresh transaction could send one. -/
theorem Transaction.Fresh.canSend (h : tx.Fresh s) : s.CanSend tx.sender :=
  Store.canSend_iff.2 ⟨tx.nonce, h⟩

theorem Store.CanSend.of_afterTx {r' : Records} (hf : tx.Fresh s)
    (h : (s.afterTx tx r').CanSend b) : s.CanSend b := by
  obtain ⟨n, hn⟩ := Store.canSend_iff.1 h
  rw [Store.getNonce_afterTx] at hn
  by_cases hb : tx.sender = b
  · rw [← hb]
    exact hf.canSend
  · rw [if_neg hb] at hn
    exact Store.canSend_iff.2 ⟨n, hn⟩

end Nonces

/-! ## An escrow out of reach -/

/-- The escrow is not settled, and it is disputed or nobody can send a refund. -/
def Escrow.OutOfReach (esc : Escrow) (s : Store) : Prop :=
  ¬ esc.Settled ∧ (esc.state = .disputed ∨ ¬ esc.Refundable s)

/-- The escrow `id` is stored and out of reach. -/
def Store.OutOfReach (s : Store) (id : Id) : Prop :=
  ∃ esc, s.records.escrows[id]? = some esc ∧ esc.OutOfReach s

section OutOfReach

variable {P : Params} {s s' : Store} {a : Id} {t : Int64} {r : Records} {p : TxPayload} {id : Id}

/-- Nonces only grow, so what is out of reach stays so as long as the escrow is not moved. -/
theorem EscrowChange.outOfReach {esc : Escrow} {o : Option Escrow}
    (h : EscrowChange r a t p id (some esc) o) (ha : s.CanSend a)
    (hsend : ∀ b, s'.CanSend b → s.CanSend b) (hesc : esc.OutOfReach s) :
    ∃ esc', o = some esc' ∧ esc'.OutOfReach s' := by
  obtain ⟨hopen, hdead⟩ := hesc
  have hstate : esc.state = .created ∨ esc.state = .funded → ¬ esc.Refundable s := by
    rintro (hc | hc) <;> simpa [hc] using hdead
  cases h with
  | same =>
    refine ⟨esc, rfl, hopen, hdead.imp_right ?_⟩
    rintro hno (hb | ⟨hx, b, hb⟩)
    · exact hno (.inl (hsend _ hb))
    · exact hno (.inr ⟨hx, b, hsend b hb⟩)
  | released _ hbuyer hc _ => exact absurd (.inl (hbuyer ▸ ha)) (hstate hc)
  | refunded _ hwho hc =>
    rcases hwho with hbuyer | ht
    · exact absurd (.inl (hbuyer ▸ ha)) (hstate hc)
    · have hx : esc.expiresAt < Int64.maxValue := Int64.lt_of_lt_of_le ht (Int64.le_maxValue t)
      exact absurd (.inr ⟨hx, a, ha⟩) (hstate hc)
  | disputed _ _ _ => exact ⟨_, rfl, by simp [Escrow.Settled], .inl rfl⟩

theorem Execution.Step.outOfReach {x x' : Execution} {tx : Transaction}
    (h : x.Step P tx t x') (hx : x.store.OutOfReach id) : x'.store.OutOfReach id := by
  obtain ⟨esc, he, hesc⟩ := hx
  have hchange := h.escrowChange id
  rw [he] at hchange
  cases h with
  | stale _ => exact ⟨esc, he, hesc⟩
  | failed hf hout => exact hchange.outOfReach hf.canSend (fun _ => .of_afterTx hf) hesc
  | succeeded hf hout => exact hchange.outOfReach hf.canSend (fun _ => .of_afterTx hf) hesc

/-- **An escrow out of reach is never settled.** -/
theorem not_canSettle_of_outOfReach {l : List Timed} {now : Int64}
    (h : (executeAll P l).store.OutOfReach id) : ¬ CanSettle P l now id := by
  rintro ⟨l', -, esc, he, hs⟩
  have hstep : ∀ (x : Execution) (act : Timed), x.store.OutOfReach id → True →
      (x.execute P act).store.OutOfReach id := by
    intro x act hx _
    exact (execution_step P x act).outOfReach hx
  have hend : (executeAll P (l ++ l')).store.OutOfReach id := by
    unfold executeAll
    rw [Runs.run_append]
    exact Runs.inv_run hstep h (Runs.along_true _ l')
  obtain ⟨esc', he', hopen, -⟩ := hend
  rw [he, Option.some_inj] at he'
  exact hopen (he' ▸ hs)

end OutOfReach

/-! ## A refund -/

section Refund

variable {P : Params} {s : Store} {a : Id} {t : Int64} {r : Records} {id : Id} {esc : Escrow}

/-- A refund of an open escrow settles it, whether or not the seller is registered. -/
theorem Escrow.refund_settles (he : r.escrows[id]? = some esc)
    (ha : a = esc.buyer ∨ t > esc.expiresAt)
    (hopen : esc.state = .created ∨ esc.state = .funded) :
    (after (Escrow.refund a id t) r).SettledAt id := by
  have ha' : ¬ (¬ a = esc.buyer ∧ t ≤ esc.expiresAt) := by
    rw [← Int64.not_lt]
    tauto
  have hopen' : ¬ (esc.state ≠ .created ∧ esc.state ≠ .funded) := by tauto
  refine ⟨{ esc with state := .refunded }, ?_, .inr rfl⟩
  cases hp : r.participants[esc.seller]? <;>
    simp [after, Escrow.refund, he, ha', hopen', hp]

/-- Who may refund an open escrow and can send a transaction settles it. -/
theorem canSettle_of_sender {l : List Timed} {now : Int64}
    (he : (executeAll P l).store.records.escrows[id]? = some esc)
    (hopen : esc.state = .created ∨ esc.state = .funded)
    (hsend : (executeAll P l).store.CanSend a) (ht : now ≤ t)
    (ha : a = esc.buyer ∨ t > esc.expiresAt) : CanSettle P l now id := by
  obtain ⟨n, hn⟩ := Store.canSend_iff.1 hsend
  set tx : Transaction :=
    { payload := .refundEscrow id, sender := a, signature := 0, timestamp := t, nonce := n }
  have hf : tx.Fresh (executeAll P l).store := hn
  refine ⟨[(tx, t)], ?_, ?_⟩
  · intro act hact
    rw [List.mem_singleton.1 hact]
    exact ht
  · rw [executeAll_append_one, Execution.execute_records hf]
    exact Escrow.refund_settles he ha hopen

/-- **An unsettled escrow can be settled if and only if it is not disputed and somebody can
send its refund.** -/
theorem canSettle_iff (P : Params) (l : List Timed) (now : Int64) (id : Id) (esc : Escrow)
    (he : (executeAll P l).store.records.escrows[id]? = some esc) (hs : ¬ esc.Settled) :
    CanSettle P l now id ↔
      esc.state ≠ .disputed ∧ esc.Refundable (executeAll P l).store := by
  refine ⟨?_, ?_⟩
  · intro hcan
    by_contra hno
    have hdead : esc.state = .disputed ∨ ¬ esc.Refundable (executeAll P l).store := by tauto
    exact not_canSettle_of_outOfReach ⟨esc, he, hs, hdead⟩ hcan
  · rintro ⟨hstate, hrefund⟩
    have hopen : esc.state = .created ∨ esc.state = .funded := by
      unfold Escrow.Settled at hs
      cases hcase : esc.state <;> simp_all
    rcases hrefund with hbuyer | ⟨hx, a, ha⟩
    · exact canSettle_of_sender he hopen hbuyer (Int64.le_refl now) (.inl rfl)
    -- the last timestamp is after the expiry
    · exact canSettle_of_sender he hopen ha (Int64.le_maxValue now) (.inr hx)

end Refund

/-- The escrow of the trade is open, and its buyer can still send. -/
theorem canSettle_iff_toy : CanSettle .default toyTrade 0 7 ↔
    (Escrow.new 7 1 2 100 50 0).state ≠ .disputed ∧
      (Escrow.new 7 1 2 100 50 0).Refundable (executeAll .default toyTrade).store :=
  canSettle_iff .default toyTrade 0 7 _ (by decide +kernel) (by decide)

/-- The escrow of the trade once its dispute is decided. -/
def Escrow.toyDisputed : Escrow :=
  { Escrow.new 7 1 2 100 50 0 with state := .disputed, disputeId := some 8 }

/-- The dispute is resolved, and its escrow can never be settled. -/
theorem canSettle_fails : ¬ ∀ (P : Params) (l : List Timed) (id : Id) (esc : Escrow),
    1 ≤ P.disputeVoteThreshold → (executeAll P l).store.records.escrows[id]? = some esc →
    ¬ esc.Settled → ∃ now, CanSettle P l now id := by
  intro hall
  have he : (executeAll .toyOneVote toyDecided).store.records.escrows[(7 : Id)]? =
      some Escrow.toyDisputed := by
    decide +kernel
  have hs : ¬ Escrow.toyDisputed.Settled := by decide
  obtain ⟨now, hcan⟩ := hall .toyOneVote toyDecided 7 _ (by decide) he hs
  exact not_canSettle_of_outOfReach ⟨_, he, hs, .inl rfl⟩ hcan

example : ((executeAll .toyOneVote toyDecided).store.records.disputes[(8 : Id)]?.map
    (·.state)) = some .resolved := by decide +kernel

end RoutineChain
