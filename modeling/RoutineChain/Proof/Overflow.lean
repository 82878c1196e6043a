import RoutineChain.Proof.DebugBuild
import RoutineChain.Proof.PaymentOrder
import RoutineChain.Proof.Voting

/-!
# Where arithmetic can wrap

Every operator of `execute` is checked in a debug build, so an operation that exceeds its type
is one where the debug build panics. In a reachable state few can: what is added to a balance,
the time since registration, and the tally of a dispute (`TxPayload.InRange`). The others are out
of reach: all tokens are earned, and the counters stay far from full.

`buildsAgree_iff`: the two builds agree in just the runs whose transactions fit.
-/

namespace RoutineChain

open EStateM Std

/-! ## What an operation needs -/

/-- `a` can take `n` tokens more. -/
def Records.HasRoom (r : Records) (a : Id) (n : ℕ) : Prop := r.holding a + n < 2 ^ 64

instance (r : Records) (a : Id) (n : ℕ) : Decidable (r.HasRoom a n) :=
  inferInstanceAs (Decidable (_ < _))

/-- The votes that count for a side: its own and the split ones. -/
def favors (dec : DisputeDecision) (votes : List DisputeVote) : ℕ :=
  votesFor dec votes + votesFor .split votes

/-! ### Accounts of earned tokens only -/

section Unpurchased

variable {r : Records} (hr : r.Unpurchased) (a b : Id) (n : UInt64)

include hr

theorem Records.Unpurchased.holding_eq : r.holding a = (r.balance a).earned.toNat := by
  unfold Records.holding RCWBalance.holding
  rw [hr a, UInt64.toNat_zero, Nat.add_zero]

theorem Records.Unpurchased.holding_lt : r.holding a < 2 ^ 64 := by
  rw [hr.holding_eq]
  exact (r.balance a).earned.toNat_lt

theorem Records.Unpurchased.hasRoom_iff {n : ℕ} :
    r.HasRoom a n ↔ (r.balance a).earned.toNat + n < 2 ^ 64 := by
  rw [Records.HasRoom, hr.holding_eq]

theorem Records.Unpurchased.hasRoom_zero : r.HasRoom a 0 := hr.holding_lt a

theorem Records.Unpurchased.covers_iff : ¬ (r.balance a).total < n ↔ n.toNat ≤ r.holding a := by
  rw [UInt64.lt_iff_toNat_lt, RCWBalance.total_toNat (hr.holding_lt a), Nat.not_lt]
  rfl

/-- What the receiver of a transfer is given fits if the receiver is the sender: the tokens
have just been taken. -/
theorem Records.Unpurchased.hasRoom_deduct (hle : n.toNat ≤ r.holding a) :
    (r.putBalance a ((r.balance a).deduct n)).HasRoom b n.toNat ↔
      (b ≠ a → r.HasRoom b n.toNat) := by
  have hlt := hr.holding_lt a
  have hded := Records.holding_deduct (x := b) hlt ((hr.covers_iff a n).2 hle)
  unfold Records.HasRoom
  by_cases hb : b = a
  · subst hb
    rw [if_pos rfl] at hded
    rw [hded]
    exact iff_of_true hlt fun hne => absurd rfl hne
  · rw [if_neg (Ne.symm hb), Nat.add_zero] at hded
    rw [hded]
    exact (imp_iff_right hb).symm

end Unpurchased

theorem Records.hasRoom_of_balances {r r' : Records} (h : r'.balances = r.balances) {a : Id}
    {n : ℕ} : r'.HasRoom a n ↔ r.HasRoom a n := by
  unfold Records.HasRoom Records.holding Records.balance
  rw [h]

namespace Debug

variable {r : Records} {α : Type}

theorem avoids_liftBind {β : Type} {y : Exec α} {f : α → DebugExec β} {a : α} {r' : Records}
    (hy : y.run r = .ok a r') :
    Avoids .overflow ((liftM y : DebugExec α) >>= f) r ↔ Avoids .overflow (f a) r' := by
  rw [(checks_lift y).avoids_bind hy]
  exact and_iff_right (avoids_adaptExcept nofun y)

theorem failed_ne (text : String) : Halt.failed text ≠ .overflow := nofun

/-- A check of the source is in both builds. -/
theorem avoids_failed {γ : Type} {c : Prop} [Decidable c] {text : String} {f : γ → DebugExec α}
    {x : DebugExec α} :
    Avoids .overflow (if c then (throw (.failed text) : DebugExec γ) >>= f else x) r ↔
      (¬ c → Avoids .overflow x r) :=
  avoids_guard (failed_ne text)

theorem avoids_needParticipant {id : Id} {err : String} {f : Participant → DebugExec α} :
    Avoids .overflow ((getParticipant id : DebugExec _) >>= fun o =>
      match o with | some p => f p | _ => throw (.failed err)) r ↔
      ∀ p, r.participants[id]? = some p → Avoids .overflow (f p) r := by
  rw [avoids_liftBind (getParticipant_run id)]
  cases r.participants[id]? with
  | none => simp
  | some p => simp

theorem avoids_foundParticipant {id : Id} {err : String} {f : Participant → DebugExec α}
    {p : Participant} (hp : r.participants[id]? = some p) :
    Avoids .overflow ((getParticipant id : DebugExec _) >>= fun o =>
      match o with | some p => f p | _ => throw (.failed err)) r ↔ Avoids .overflow (f p) r := by
  rw [avoids_needParticipant, hp]
  simp

theorem avoids_needEscrow {id : Id} {err : String} {f : Escrow → DebugExec α} :
    Avoids .overflow ((getEscrow id : DebugExec _) >>= fun o =>
      match o with | some e => f e | _ => throw (.failed err)) r ↔
      ∀ e, r.escrows[id]? = some e → Avoids .overflow (f e) r := by
  rw [avoids_liftBind (getEscrow_run id)]
  cases r.escrows[id]? with
  | none => simp
  | some e => simp

theorem avoids_mayWrite {id : Id} {f : Participant → Participant} {x : DebugExec α} :
    Avoids .overflow ((getParticipant id : DebugExec _) >>= fun o =>
      match o with
      | some p => (setParticipant id (f p) : DebugExec _) >>= fun _ => x
      | _ => x) r ↔ Avoids .overflow x (r.modifyParticipant id f) := by
  rw [avoids_liftBind (getParticipant_run id)]
  unfold Records.modifyParticipant
  cases r.participants[id]? with
  | none => rfl
  | some p => exact avoids_liftBind (setParticipant_run id (f p))

section Tokens

variable (hr : r.Unpurchased) (a b : Id) (n : UInt64)

include hr

theorem Token.mint_avoids (reason : String) :
    Avoids .overflow (Token.mint a n reason) r ↔ r.HasRoom a n.toNat := by
  unfold Token.mint addU64
  rw [avoids_liftBind (getBalance_run a), avoids_checkBind,
    avoids_liftBind (setBalance_run a _), hr.hasRoom_iff]
  exact and_iff_left avoids_pure

/-- After a minting. -/
theorem Token.mintBind_avoids (reason : String) {f : List Event → DebugExec α} :
    Avoids .overflow (Token.mint a n reason >>= f) r ↔
      r.HasRoom a n.toNat ∧ Avoids .overflow (f [.rcwMinted a n reason]) (r.mint a n) := by
  rw [(Token.mint_checks a n reason).avoids_bind (RoutineChain.Token.mint_run a n reason),
    mint_avoids hr]

/-- A reward, after writes elsewhere. One of zero is not minted, and would fit. -/
theorem rewarded_avoids {r' : Records} (hbal : r'.balances = r.balances) {x : DebugExec α} {y : α}
    (hx : Avoids .overflow x r' ↔ r'.HasRoom a n.toNat) :
    Avoids .overflow (if n > 0 then x else pure y) r' ↔ r.HasRoom a n.toNat := by
  rw [avoids_ite, hx, Records.hasRoom_of_balances hbal]
  by_cases hn : n > 0
  · simp [hn]
  · have hzero : n = 0 := by simpa using hn
    subst hzero
    have hroom := hr.hasRoom_zero a
    simpa using hroom

theorem reward_avoids {r' : Records} (hbal : r'.balances = r.balances) (reason : String)
    (events : List Event) :
    Avoids .overflow
      (do
        if n > 0 then return events ++ (← Token.mint a n reason)
        return events) r' ↔ r.HasRoom a n.toNat := by
  refine rewarded_avoids hr a n hbal ?_
  rw [Token.mintBind_avoids (hr.of_eq hbal)]
  exact and_iff_left avoids_pure

/-- A balance is all earned, so its total fits, and what is taken from it is there. -/
theorem RCWBalance.total_avoids : Avoids .overflow (RCWBalance.total (r.balance a)) r := by
  unfold RCWBalance.total addU64
  rw [avoids_check, hr a, UInt64.toNat_zero, Nat.add_zero]
  exact (r.balance a).earned.toNat_lt

theorem RCWBalance.deduct_avoids (hn : ¬ (r.balance a).total < n) :
    Avoids .overflow (RCWBalance.deduct (r.balance a) n) r := by
  have hearned : (r.balance a).earned ≥ n := by
    rw [RoutineChain.RCWBalance.total, hr a, UInt64.add_zero] at hn
    exact UInt64.not_lt.1 hn
  unfold RCWBalance.deduct subU64
  rw [avoids_ite]
  refine ⟨fun _ => ?_, fun hne => absurd hearned hne⟩
  rw [avoids_checkBind]
  exact ⟨UInt64.le_iff_toNat_le.1 hearned, avoids_pure⟩

/-- What a payment does with a balance that covers it, after the checks that both payments
share. -/
theorem covered_avoids {x : RCWBalance → DebugExec α} {y : UInt64 → DebugExec α}
    (hy : ∀ total, Avoids .overflow (y total) r) :
    Avoids .overflow
      ((getBalance a : DebugExec _) >>= fun balance =>
        RCWBalance.total balance >>= fun total =>
          if total < n then RCWBalance.total balance >>= y
          else RCWBalance.deduct balance n >>= x) r ↔
      (n.toNat ≤ r.holding a → Avoids .overflow (x ((r.balance a).deduct n)) r) := by
  have htotal := Debug.RCWBalance.total_avoids hr a
  rw [avoids_liftBind (getBalance_run a), (RCWBalance.total_checks _).avoids_bind rfl,
    and_iff_right htotal, avoids_ite, (RCWBalance.total_checks _).avoids_bind rfl,
    and_iff_right fun _ => ⟨htotal, hy _⟩, hr.covers_iff]
  refine imp_congr_right fun hle => ?_
  rw [(RCWBalance.deduct_checks _ n).avoids_bind rfl, and_iff_right]
  exact RCWBalance.deduct_avoids hr a n ((hr.covers_iff a n).2 hle)

theorem Token.transfer_avoids (memo : String) :
    Avoids .overflow (Token.transfer a b n memo) r ↔
      (n ≠ 0 → n.toNat ≤ r.holding a → b ≠ a → r.HasRoom b n.toNat) := by
  refine avoids_failed.trans (imp_congr_right fun _ => (covered_avoids hr a n ?_).trans ?_)
  · exact fun _ _ => nofun
  refine imp_congr_right fun hle => ?_
  have hcovers := (hr.covers_iff a n).2 hle
  have hr₁ := hr.put (a := a) (RCWBalance.purchased_deduct (hr a) hcovers)
  unfold addU64
  rw [avoids_liftBind (setBalance_run a _), avoids_liftBind (getBalance_run b), avoids_checkBind,
    avoids_liftBind (setBalance_run b _), ← hr₁.hasRoom_iff,
    hr.hasRoom_deduct a b n hle]
  exact and_iff_left avoids_pure

theorem Token.spend_avoids (purpose : String) :
    Avoids .overflow (Token.spend a n purpose) r := by
  refine avoids_failed.2 fun _ => (covered_avoids hr a n ?_).2 fun hle => ?_
  · exact fun _ _ => nofun
  rw [avoids_liftBind (setBalance_run a _)]
  exact avoids_pure

theorem Settlement.record_avoids (id : Id) (d : SettlementData) (t : Int64) :
    Avoids .overflow (Settlement.record a id d t n) r ↔
      (a = id → r.participants[id]?.isSome → r.HasRoom id n.toNat) := by
  refine avoids_failed.trans ?_
  rw [not_not]
  refine imp_congr_right fun _ => avoids_needParticipant.trans ?_
  rw [Option.isSome_iff_exists, forall_exists_index]
  refine forall_congr' fun p => imp_congr_right fun hp => ?_
  refine (avoids_liftBind (setSettlement_run d.recordId _)).trans ?_
  refine (avoids_liftBind (setParticipant_run id _)).trans ?_
  refine reward_avoids hr id n ?_ "settlement_reward" _
  rfl

end Tokens

/-! ### Scores -/

/-- An intermediate value of the score is in range. -/
theorem avoids_u128 {n : ℕ} (hn : n < 2 ^ 128) {f : ℕ → DebugExec α} :
    Avoids .overflow (u128 n >>= f) r ↔ Avoids .overflow (f n) r :=
  avoids_checkBind.trans (and_iff_right hn)

theorem disputeScore_avoids (p : Participant) : Avoids .overflow (disputeScore p) r := by
  have hcount := p.disputeCount.toNat_lt
  have hrate : p.disputeCount.toNat * 10000 / p.totalTx.toNat ≤ p.disputeCount.toNat * 10000 :=
    Nat.div_le_self _ _
  refine avoids_ite.2 ⟨fun _ => ?_, fun _ => avoids_pure⟩
  refine (avoids_u128 (by omega)).2 ((avoids_u128 (by omega)).2 avoids_pure)

theorem ratingScore_avoids (p : Participant) : Avoids .overflow (ratingScore p) r := by
  have hsum := p.ratingSum.toNat_lt
  refine avoids_ite.2 ⟨fun _ => ?_, fun _ => avoids_pure⟩
  exact (avoids_u128 (by omega)).2 avoids_pure

theorem activeDays_avoids (p : Participant) : Avoids .overflow (activeDays p) r ↔
    p.lastActivityAt.toInt - p.registeredAt.toInt < 2 ^ 63 := by
  refine avoids_ite.trans ?_
  rw [and_iff_left fun _ => avoids_pure, subI64, avoids_checkBind, and_iff_left avoids_pure]
  have hlow := p.lastActivityAt.le_toInt
  have hhigh := p.registeredAt.toInt_lt
  rw [gt_iff_lt, Int64.lt_iff_toInt_lt]
  omega

/-- The weighted sum of components in range is in range. -/
theorem weighted_avoids {success dispute rating volume longevity maturity : ℕ}
    (hs : success < 2 ^ 64 * 10000) (hd : dispute ≤ 10000) (hr : rating < 2 ^ 64 * 2000)
    (hv : volume ≤ 10000) (hl : longevity ≤ 10000) (hm : maturity ≤ 10000) :
    Avoids .overflow
      (do
        let success ← u128 (success * 35)
        let dispute ← u128 (dispute * 25)
        let rating ← u128 (rating * 20)
        let volume ← u128 (volume * 10)
        let longevity ← u128 (longevity * 10)
        let rawTotal ← u128 ((← u128 ((← u128 ((← u128 (success + dispute)) + rating)) + volume)) +
          longevity)
        return UInt16.ofNat ((← u128 (rawTotal * maturity)) / 10000 / 100)) r := by
  have htotal : (success * 35 + dispute * 25 + rating * 20 + volume * 10 + longevity * 10) *
      maturity ≤ (success * 35 + dispute * 25 + rating * 20 + volume * 10 + longevity * 10) *
        10000 := Nat.mul_le_mul_left _ hm
  refine (avoids_u128 (by omega)).2 ((avoids_u128 (by omega)).2 ((avoids_u128 (by omega)).2 ?_))
  refine (avoids_u128 (by omega)).2 ((avoids_u128 (by omega)).2 ((avoids_u128 (by omega)).2 ?_))
  refine (avoids_u128 (by omega)).2 ((avoids_u128 (by omega)).2 ((avoids_u128 (by omega)).2 ?_))
  exact (avoids_u128 (by omega)).2 avoids_pure

theorem computeTrustScore_avoids (p : Participant) :
    Avoids .overflow (computeTrustScore p) r ↔
      (p.totalTx ≠ 0 → p.lastActivityAt.toInt - p.registeredAt.toInt < 2 ^ 63) := by
  have hsuccess := p.successTx.toNat_lt
  have hsum := p.ratingSum.toNat_lt
  refine avoids_ite.trans ?_
  rw [and_iff_right fun _ => avoids_pure]
  refine imp_congr_right fun _ => (avoids_u128 (by omega)).trans ?_
  rw [(disputeScore_checks p).avoids_bind rfl, and_iff_right (disputeScore_avoids p),
    (ratingScore_checks p).avoids_bind rfl, and_iff_right (ratingScore_avoids p),
    (activeDays_checks p).avoids_bind rfl, activeDays_avoids]
  refine and_iff_left (weighted_avoids ?_ ?_ ?_ ?_ ?_ ?_)
  · exact (Nat.div_le_self _ _).trans_lt (by omega)
  · split <;> omega
  · split
    · exact (Nat.div_le_self _ _).trans_lt (by omega)
    · decide
  · split_ifs <;> decide
  · exact longevityScore_le (p := p)
  · split_ifs <;> decide

/-- The counters of a reachable participant are far from full. -/
theorem Participant.rated_avoids {p : Participant} {k : ℕ} (hp : p.Counted 500 k)
    (hk : k < 2 ^ 51) (n : UInt16) (ok : Bool) (t : Int64) :
    Avoids .overflow (Participant.rated p n ok t) r := by
  have htotal := hp.total
  have hcount := hp.count
  have hsum : p.ratingSum.toNat ≤ 500 * k := hp.sum.trans (Nat.mul_le_mul_left _ hcount)
  have hn := n.toNat_lt
  have hone : (1 : UInt64).toNat = 1 := rfl
  unfold Participant.rated
  by_cases hr : n > 0 ∧ n ≤ 500
  · simp only [if_pos hr]
    refine avoids_checkBind.2 ⟨?_, avoids_checkBind.2 ⟨by omega, ?_⟩⟩
    · rw [UInt16.toNat_toUInt64]
      omega
    · cases ok with
      | true => exact avoids_pure
      | false => exact avoids_checkBind.2 ⟨by omega, avoids_pure⟩
  · simp only [if_neg hr]
    cases ok with
    | true => exact avoids_pure
    | false => exact avoids_checkBind.2 ⟨by omega, avoids_pure⟩

/-- A rating: the clock and the reward are all that can exceed. -/
theorem Settlement.recordRating_avoids (hr : r.Unpurchased) {k : ℕ} (hc : r.Counted 500 k)
    (hk : k < 2 ^ 51) (id : Id) (n : UInt16) (ok : Bool) (t : Int64) (w : UInt64) :
    Avoids .overflow (Settlement.recordRating id n ok t w) r ↔
      ∀ p, r.participants[id]? = some p →
        (p.totalTx ≠ 0 ∨ ok = false → t.toInt - p.registeredAt.toInt < 2 ^ 63) ∧
          r.HasRoom id w.toNat := by
  refine avoids_needParticipant.trans (forall_congr' fun p => imp_congr_right fun hp => ?_)
  have hcounted := hc id p hp
  rw [(Participant.rated_checks p n ok t).avoids_bind rfl,
    and_iff_right (Participant.rated_avoids hcounted hk n ok t),
    avoids_liftBind (setParticipant_run id _), (computeTrustScore_checks _).avoids_bind rfl,
    computeTrustScore_avoids]
  have htraded : (p.rated n ok t).totalTx ≠ 0 ↔ p.totalTx ≠ 0 ∨ ok = false := by
    have htotal := hcounted.total
    rw [(p.rated_counters (t := t) n ok).2.1]
    cases ok with
    | true => simp
    | false =>
      refine iff_of_true ?_ (.inr rfl)
      intro hzero
      have hone := toNat_add_one (a := p.totalTx) (by omega)
      rw [if_neg Bool.false_ne_true] at hzero
      rw [hzero, UInt64.toNat_zero] at hone
      omega
  have htime : (p.rated n ok t).lastActivityAt = t := rfl
  have hregistered := (p.sameProfile_rated n ok t).registeredAt
  rw [htraded, htime, hregistered]
  refine and_congr_right fun _ => reward_avoids hr id w ?_ "rating_reward" _
  rfl

/-- Two rewards, one after the other. -/
theorem Records.HasRoom.mint_iff {a : Id} {n : UInt64} (h : r.HasRoom a n.toNat) (b : Id) :
    (r.mint a n).HasRoom b n.toNat ↔
      r.HasRoom b (if a = b then 2 * n.toNat else n.toNat) := by
  have hmint := Records.holding_mint (x := b) h
  unfold RoutineChain.Records.HasRoom at h ⊢
  rw [hmint]
  split <;> omega

theorem Escrow.release_avoids (hr : r.Unpurchased) (hp : r.PartiesRegistered) (a e : Id)
    (ev : Hash) (t : Int64) (w : UInt64) :
    Avoids .overflow (Escrow.release a e ev t w) r ↔
      ∀ esc, r.escrows[e]? = some esc → a = esc.buyer →
        (esc.state = .created ∨ esc.state = .funded) → ¬ t > esc.expiresAt →
        r.HasRoom esc.buyer w.toNat ∧
          r.HasRoom esc.seller (if esc.buyer = esc.seller then 2 * w.toNat else w.toNat) := by
  refine avoids_needEscrow.trans (forall_congr' fun esc => imp_congr_right fun he => ?_)
  refine avoids_failed.trans ?_
  rw [not_not]
  refine imp_congr_right fun _ => avoids_failed.trans ?_
  rw [not_and_or, not_not, not_not]
  refine imp_congr_right fun _ => avoids_failed.trans (imp_congr_right fun _ => ?_)
  refine (avoids_liftBind (setEscrow_run e _)).trans ?_
  obtain ⟨hb, hs⟩ := hp e esc he
  obtain ⟨b, hb⟩ := Option.isSome_iff_exists.1 hb
  set r₁ := r.putEscrow e { esc with state := .released, evidenceHash := some ev }
  have hb₁ : r₁.participants[esc.buyer]? = some b := hb
  refine (avoids_foundParticipant hb₁).trans ?_
  refine (avoids_liftBind (setParticipant_run esc.buyer _)).trans ?_
  set r₂ := r₁.putParticipant esc.buyer { b with
    totalTx := satAdd b.totalTx 1, successTx := satAdd b.successTx 1, lastActivityAt := t }
  obtain ⟨s, hs₂⟩ : ∃ s, r₂.participants[esc.seller]? = some s := by
    rw [Records.putParticipant_participants, Table.get_insert]
    split
    · exact ⟨_, rfl⟩
    · exact Option.isSome_iff_exists.1 hs
  refine (avoids_foundParticipant hs₂).trans ?_
  refine (avoids_liftBind (setParticipant_run esc.seller _)).trans ?_
  -- the participants are written; what follows reads and writes balances
  generalize hr₃ : r₂.putParticipant esc.seller _ = r₃
  have hbal : r₃.balances = r.balances := by
    rw [← hr₃]
    rfl
  refine avoids_ite.trans ?_
  by_cases hw : w > 0
  · rw [and_iff_left fun hne => absurd hw hne, imp_iff_right hw,
      Token.mintBind_avoids (hr.of_eq hbal), Token.mintBind_avoids (hr.of_eq hbal).mint,
      and_iff_left avoids_pure, ← Records.hasRoom_of_balances hbal,
      ← Records.hasRoom_of_balances hbal]
    exact and_congr_right fun hroom => Records.HasRoom.mint_iff hroom esc.seller
  · have hzero : w = 0 := by simpa using hw
    subst hzero
    refine iff_of_true ⟨fun hpos => absurd hpos hw, fun _ => avoids_pure⟩ ⟨?_, ?_⟩
    · exact hr.hasRoom_zero esc.buyer
    · split <;> exact hr.hasRoom_zero esc.seller

/-! ### Votes -/

/-- One vote: which sides count it. -/
theorem favors_singleton (v : DisputeVote) :
    favors .favorBuyer [v] = (if v.decision = 0 ∨ v.decision = 2 then 1 else 0) ∧
    favors .favorSeller [v] = (if v.decision = 1 ∨ v.decision = 2 then 1 else 0) := by
  by_cases h0 : v.decision = 0
  · simp [favors, votesFor, DisputeDecision.toU8, h0]
  by_cases h1 : v.decision = 1
  · simp [favors, votesFor, DisputeDecision.toU8, h1]
  by_cases h2 : v.decision = 2
  · simp [favors, votesFor, DisputeDecision.toU8, h2]
  · simp [favors, votesFor, DisputeDecision.toU8, h0, h1, h2]

theorem favors_cons (dec : DisputeDecision) (v : DisputeVote) (votes : List DisputeVote) :
    favors dec (v :: votes) = favors dec [v] + favors dec votes := by
  unfold favors
  rw [votesFor_cons dec, votesFor_cons .split]
  omega

/-- One vote fits if it does on each side that counts it. -/
theorem tallyVote_avoids (b s : UInt32) (v : DisputeVote) :
    Avoids .overflow (tallyVote (b, s) v) r ↔
      b.toNat + favors .favorBuyer [v] < 2 ^ 32 ∧ s.toNat + favors .favorSeller [v] < 2 ^ 32 := by
  have hb := b.toNat_lt
  have hs := s.toNat_lt
  have hone : (1 : UInt32).toNat = 1 := rfl
  rw [(favors_singleton v).1, (favors_singleton v).2]
  unfold tallyVote addU32
  dsimp only
  by_cases h0 : v.decision = 0
  · rw [h0]
    refine avoids_checkBind.trans ?_
    simp
    omega
  by_cases h1 : v.decision = 1
  · rw [h1]
    refine avoids_checkBind.trans ?_
    simp
    omega
  by_cases h2 : v.decision = 2
  · rw [h2]
    refine avoids_checkBind.trans ((and_congr_right fun _ => avoids_checkBind).trans ?_)
    simp
  · simp only [h0, h1, h2, or_self, if_false]
    exact iff_of_true avoids_pure ⟨hb, hs⟩

/-- A vote that fits is counted. -/
theorem tallyVote_counts {b s : UInt32} {v : DisputeVote}
    (hb : b.toNat + favors .favorBuyer [v] < 2 ^ 32)
    (hs : s.toNat + favors .favorSeller [v] < 2 ^ 32) :
    (RoutineChain.tallyVote (b, s) v).1.toNat = b.toNat + favors .favorBuyer [v] ∧
    (RoutineChain.tallyVote (b, s) v).2.toNat = s.toNat + favors .favorSeller [v] := by
  have hadd : ∀ n : UInt32, n.toNat + 1 < 2 ^ 32 → (n + 1).toNat = n.toNat + 1 := by
    intro n hn
    rw [UInt32.toNat_add, UInt32.toNat_one]
    omega
  rw [(favors_singleton v).1] at hb ⊢
  rw [(favors_singleton v).2] at hs ⊢
  by_cases h0 : v.decision = 0
  · simp only [h0, true_or, if_true] at hb
    simp [RoutineChain.tallyVote, h0, hadd b hb]
  by_cases h1 : v.decision = 1
  · simp only [h1, true_or, if_true] at hs
    simp [RoutineChain.tallyVote, h1, hadd s hs]
  by_cases h2 : v.decision = 2
  · simp only [h2, or_true, if_true] at hb hs
    simp [RoutineChain.tallyVote, h2, hadd b hb, hadd s hs]
  · simp [RoutineChain.tallyVote, h0, h1, h2]

/-- **A tally fits if each side does.** -/
theorem foldlM_tallyVote_avoids (votes : List DisputeVote) (b s : UInt32) :
    Avoids .overflow (votes.foldlM tallyVote (b, s)) r ↔
      b.toNat + favors .favorBuyer votes < 2 ^ 32 ∧
        s.toNat + favors .favorSeller votes < 2 ^ 32 := by
  induction votes generalizing b s with
  | nil =>
    refine iff_of_true avoids_pure ⟨?_, ?_⟩
    · simpa [favors, votesFor] using b.toNat_lt
    · simpa [favors, votesFor] using s.toNat_lt
  | cons v votes ih =>
    rw [List.foldlM_cons, (tallyVote_checks (b, s) v).avoids_bind rfl, tallyVote_avoids,
      favors_cons .favorBuyer v votes, favors_cons .favorSeller v votes]
    have hih := ih (RoutineChain.tallyVote (b, s) v).1 (RoutineChain.tallyVote (b, s) v).2
    constructor
    · rintro ⟨⟨hb, hs⟩, hrest⟩
      obtain ⟨hb₁, hs₁⟩ := tallyVote_counts hb hs
      have hih := hih.1 hrest
      rw [hb₁, hs₁] at hih
      exact ⟨by omega, by omega⟩
    · rintro ⟨hb, hs⟩
      obtain ⟨hb₁, hs₁⟩ := tallyVote_counts (b := b) (s := s) (v := v) (by omega) (by omega)
      refine ⟨⟨by omega, by omega⟩, hih.2 ?_⟩
      rw [hb₁, hs₁]
      exact ⟨by omega, by omega⟩

theorem resolutionOf_avoids (votes : List DisputeVote) :
    Avoids .overflow (resolutionOf votes) r ↔
      favors .favorBuyer votes < 2 ^ 32 ∧ favors .favorSeller votes < 2 ^ 32 := by
  unfold resolutionOf
  rw [(foldlM_tallyVote_checks votes (0, 0)).avoids_bind rfl, foldlM_tallyVote_avoids,
    UInt32.toNat_zero, Nat.zero_add, Nat.zero_add]
  exact and_iff_left avoids_pure

/-- The winner of a dispute is rewarded. -/
theorem Dispute.resolve_avoids (hr : r.Unpurchased) (dis : RoutineChain.Dispute) (res : UInt8)
    (w : UInt64) :
    Avoids .overflow (Dispute.resolve dis res w) r ↔
      ∀ esc, r.escrows[dis.escrowId]? = some esc → res ≠ 2 →
        r.HasRoom (if res = 0 then esc.buyer else esc.seller) w.toNat := by
  refine avoids_needEscrow.trans (forall_congr' fun esc => imp_congr_right fun he => ?_)
  refine avoids_ite.trans ?_
  rw [and_iff_right fun _ => avoids_pure]
  refine imp_congr_right fun _ => (avoids_mayWrite.trans avoids_mayWrite).trans ?_
  generalize hr₁ : Records.modifyParticipant _ _ _ = r₁
  have hbal : r₁.balances = r.balances := by
    rw [← hr₁, Records.modifyParticipant_balances, Records.modifyParticipant_balances]
  exact rewarded_avoids hr _ w hbal (Token.mint_avoids (hr.of_eq hbal) _ w _)

/-- A vote: the tally of one that decides, and the reward. -/
theorem Dispute.vote_avoids (hr : r.Unpurchased) (d a : Id) (dec : DisputeDecision) (t : Int64)
    (w : UInt64) (m : ℕ) :
    Avoids .overflow (Dispute.vote d a dec t w m) r ↔
      ∀ dis, r.disputes[d]? = some dis → ∀ p, r.participants[a]? = some p →
        p.pType = ParticipantType.arbiter.toU8 → dis.state ≠ .resolved →
        (∀ v ∈ dis.votes, v.voter ≠ a) → m ≤ (dis.voted a dec t).votes.length →
        (favors .favorBuyer (dis.voted a dec t).votes < 2 ^ 32 ∧
          favors .favorSeller (dis.voted a dec t).votes < 2 ^ 32) ∧
        ∀ esc, r.escrows[dis.escrowId]? = some esc →
          RoutineChain.resolutionOf (dis.voted a dec t).votes ≠ 2 →
          r.HasRoom (if RoutineChain.resolutionOf (dis.voted a dec t).votes = 0 then esc.buyer
            else esc.seller) w.toNat := by
  unfold Dispute.vote
  rw [avoids_liftBind (getDispute_run d)]
  cases hd : r.disputes[d]? with
  | none => simp
  | some dis =>
    simp only [Option.some.injEq, forall_eq']
    refine avoids_needParticipant.trans (forall_congr' fun p => imp_congr_right fun _ => ?_)
    refine avoids_failed.trans ?_
    rw [not_not]
    refine imp_congr_right fun _ => avoids_failed.trans ?_
    have hstate : ¬ (if dis.state = .raised ∨ dis.state = .evidence then DisputeState.voting
        else dis.state) ≠ .voting ↔ dis.state ≠ .resolved := by
      cases dis.state <;> decide
    rw [hstate]
    refine imp_congr_right fun _ => avoids_failed.trans ?_
    have hany : ¬ (dis.votes.any fun v => v.voter = a) = true ↔
        ∀ v ∈ dis.votes, v.voter ≠ a := by
      simp
    rw [hany]
    refine imp_congr_right fun _ => avoids_ite.trans ?_
    -- below the threshold nothing is computed
    refine (and_iff_left ?_).trans (imp_congr_right fun _ => ?_)
    · exact fun _ => (avoids_liftBind (setDispute_run d _)).2 avoids_pure
    rw [(resolutionOf_checks _).avoids_bind rfl, resolutionOf_avoids, EStateM.avoids_bind,
      Dispute.resolve_avoids hr]
    refine and_congr_right fun _ => and_iff_left ?_
    exact fun es r' _ => (avoids_liftBind (setDispute_run d _)).2 avoids_pure

end Debug

/-! ## Payloads -/

/-- **What can exceed its type fits**: an account that is credited has room, a participant is
rated less than `2 ^ 63` after its registration, and each side of a dispute that is decided has
fewer than `2 ^ 32` votes. -/
def TxPayload.InRange (P : Params) (a : Id) (t : Int64) (r : Records) : TxPayload → Prop
  | .recordSettlement id _ =>
    a = id → r.participants[id]?.isSome → r.HasRoom id P.rewards.settlementRecorded.toNat
  -- the score of a participant without transactions does not look at the clock
  | .recordRating id _ ok => ∀ p, r.participants[id]? = some p →
    (p.totalTx ≠ 0 ∨ ok = false → t.toInt - p.registeredAt.toInt < 2 ^ 63) ∧
      r.HasRoom id P.rewards.ratingSubmitted.toNat
  | .releaseEscrow e _ => ∀ esc, r.escrows[e]? = some esc → a = esc.buyer →
    (esc.state = .created ∨ esc.state = .funded) → ¬ t > esc.expiresAt →
    r.HasRoom esc.buyer P.rewards.escrowCompleted.toNat ∧
      r.HasRoom esc.seller (if esc.buyer = esc.seller then 2 * P.rewards.escrowCompleted.toNat
        else P.rewards.escrowCompleted.toNat)
  | .voteDispute d dec => ∀ dis, r.disputes[d]? = some dis →
    ∀ p, r.participants[a]? = some p → p.pType = ParticipantType.arbiter.toU8 →
    dis.state ≠ .resolved → (∀ v ∈ dis.votes, v.voter ≠ a) →
    P.disputeVoteThreshold ≤ (dis.voted a dec t).votes.length →
    (favors .favorBuyer (dis.voted a dec t).votes < 2 ^ 32 ∧
      favors .favorSeller (dis.voted a dec t).votes < 2 ^ 32) ∧
    ∀ esc, r.escrows[dis.escrowId]? = some esc →
      resolutionOf (dis.voted a dec t).votes ≠ 2 →
      r.HasRoom (if resolutionOf (dis.voted a dec t).votes = 0 then esc.buyer else esc.seller)
        P.rewards.disputeWon.toNat
  | .transferRCW b n _ => n ≠ 0 → n.toNat ≤ r.holding a → b ≠ a → r.HasRoom b n.toNat
  | _ => True

/-- The transaction fits, if its payload runs. -/
def Execution.InRange (P : Params) (x : Execution) (act : Timed) : Prop :=
  act.1.Fresh x.store → act.1.payload.InRange P act.1.sender act.2 x.store.records

section Run

variable {P : Params} {r : Records}

/-- **A payload panics just where it does not fit.** -/
theorem runPayload_avoids (hr : r.Unpurchased) (hp : r.PartiesRegistered) {k : ℕ}
    (hc : r.Counted 500 k) (hk : k < 2 ^ 51) (a : Id) (t : Int64) (p : TxPayload) :
    Avoids .overflow (Debug.runPayload P a t p) r ↔ p.InRange P a t r := by
  cases p with
  | recordSettlement id d => exact Debug.Settlement.record_avoids hr a _ id d t
  | recordRating id n ok => exact Debug.Settlement.recordRating_avoids hr hc hk id n ok t _
  | releaseEscrow e ev => exact Debug.Escrow.release_avoids hr hp a e ev t _
  | voteDispute d dec => exact Debug.Dispute.vote_avoids hr d a dec t _ _
  | transferRCW b n memo => exact Debug.Token.transfer_avoids hr a b n memo
  | spendRCW n purpose => exact iff_of_true (Debug.Token.spend_avoids hr a n purpose) trivial
  -- nothing is computed
  | _ => exact iff_of_true (avoids_adaptExcept nofun _) trivial

theorem avoids_onRecords {α : Type} (x : DebugExec α) (s : Store) :
    Avoids .overflow (Debug.onRecords x) s ↔ Avoids .overflow x s.records := by
  unfold Avoids
  rw [Debug.onRecords_run]
  cases x.run s.records with
  | ok a r => simp
  | error e r => simp

theorem checkAndUpdateNonce_run (tx : Transaction) (s : Store) :
    (¬ tx.Fresh s ∧ ∃ e, (checkAndUpdateNonce tx).run s = .error e s) ∨
    (tx.Fresh s ∧ (checkAndUpdateNonce tx).run s = .ok () (s.setNonce tx.sender tx.nonce)) := by
  by_cases hf : tx.Fresh s
  · have hlt : ¬ tx.nonce ≤ s.getNonce tx.sender := fun hle => UInt64.not_lt.2 hle hf
    exact .inr ⟨hf, by simp [checkAndUpdateNonce, hlt]⟩
  · have hle : tx.nonce ≤ s.getNonce tx.sender := UInt64.not_lt.1 hf
    exact .inl ⟨hf, by simp [checkAndUpdateNonce, hle]⟩

/-- **A transaction panics just where it does not fit.** -/
theorem execute_avoids {x : Execution} (hr : x.store.records.Unpurchased)
    (hp : x.store.records.PartiesRegistered) {k : ℕ} (hc : x.store.records.Counted 500 k)
    (hk : k < 2 ^ 51) (act : Timed) :
    Avoids .overflow (Debug.execute P act.1 act.2) x.store ↔ x.InRange P act := by
  have hnonce : Avoids .overflow
      (liftM (checkAndUpdateNonce act.1) : EStateM Halt Store Unit) x.store :=
    avoids_adaptExcept nofun _
  rcases checkAndUpdateNonce_run act.1 x.store with ⟨hf, e, he⟩ | ⟨hf, hok⟩
  · refine iff_of_true ?_ fun hf' => absurd hf' hf
    refine EStateM.avoids_bind.2 ⟨hnonce, fun u s' hok => ?_⟩
    have hrun : EStateM.run ((checkAndUpdateNonce act.1).adaptExcept Halt.failed) x.store =
      .ok u s' := hok
    rw [run_adaptExcept, he] at hrun
    cases hrun
  · unfold Debug.execute
    rw [(Debug.checks_lift _).avoids_bind hok, and_iff_right hnonce, avoids_onRecords]
    exact (runPayload_avoids hr hp hc hk _ _ _).trans (imp_iff_right hf).symm

end Run

/-- **The builds agree** in the run `l`: no operation of a transaction exceeds its type, and the
debug build does what the release build does. -/
structure BuildsAgree (P : Params) (l : List Timed) : Prop where
  fits : ∀ l₁ act, l₁ ++ [act] <+: l →
    Avoids .overflow (Debug.execute P act.1 act.2) (executeAll P l₁).store
  agree : ∀ l₁ act, l₁ ++ [act] <+: l →
    (Debug.execute P act.1 act.2).run (executeAll P l₁).store =
      EStateM.run ((execute P act.1 act.2).adaptExcept .failed) (executeAll P l₁).store

/-- **The builds agree in just the runs whose transactions fit.** -/
theorem buildsAgree_iff (P : Params) (l : List Timed) (hl : l.length < 2 ^ 50) :
    BuildsAgree P l ↔
      Runs.Along (Execution.execute P) (Execution.InRange P) { store := .empty } l := by
  have hfits : ∀ l₁ act, l₁ ++ [act] <+: l →
      (Avoids .overflow (Debug.execute P act.1 act.2) (executeAll P l₁).store ↔
        (executeAll P l₁).InRange P act) := by
    intro l₁ act hpre
    have hlen : l₁.length < l.length := by
      have := hpre.length_le
      rw [List.length_append, List.length_singleton] at this
      omega
    exact execute_avoids (executeAll_unpurchased P l₁) (executeAll_partiesRegistered P l₁)
      (executeAll_counted_max P (by omega)) (by omega) act
  rw [Runs.along_iff_prefix]
  refine ⟨fun h l₁ act hpre => (hfits l₁ act hpre).1 (h.fits l₁ act hpre), fun h => ?_⟩
  have hall : ∀ l₁ act, l₁ ++ [act] <+: l →
      Avoids .overflow (Debug.execute P act.1 act.2) (executeAll P l₁).store :=
    fun l₁ act hpre => (hfits l₁ act hpre).2 (h l₁ act hpre)
  exact ⟨hall, fun l₁ act hpre =>
    ((Debug.execute_checks P act.1 act.2).run_eq_iff Debug.failed_ne).2 (hall l₁ act hpre)⟩

/-- A reward that fills an account at once. -/
def Params.toyRich : Params :=
  { Params.default with
    rewards := { RewardConfig.default with settlementRecorded := .ofNat (2 ^ 64 - 1) } }

/-- A seller settles twice. -/
def toySettledTwice : List Timed :=
  [(.toy 1 1 (.registerParticipant 1 .seller ""), 0),
    (.toy 1 2 (.recordSettlement 1
      { recordId := 9, grossAmount := 100, platformFee := 10, netAmount := 90, currency := 0,
        settledAt := 0 }), 10),
    (.toy 1 3 (.recordSettlement 1
      { recordId := 10, grossAmount := 100, platformFee := 10, netAmount := 90, currency := 0,
        settledAt := 0 }), 20)]

theorem buildsAgree_iff_toy : BuildsAgree .default toySettledTwice ↔
    Runs.Along (Execution.execute .default) (Execution.InRange .default) { store := .empty }
      toySettledTwice :=
  buildsAgree_iff .default toySettledTwice (by decide)

/-- The second reward exceeds the balance. -/
theorem buildsAgree_fails : ¬ ∀ (P : Params) (l : List Timed), l.length < 2 ^ 50 →
    BuildsAgree P l := by
  intro hall
  have hagree := hall .toyRich toySettledTwice (by decide)
  have hpanic : ¬ Avoids .overflow
      (Debug.execute .toyRich (toySettledTwice.get ⟨2, by decide⟩).1 20)
      (executeAll .toyRich (toySettledTwice.take 2)).store := by
    decide +kernel
  exact hpanic (hagree.fits (toySettledTwice.take 2) (toySettledTwice.get ⟨2, by decide⟩)
    List.prefix_rfl)

end RoutineChain
