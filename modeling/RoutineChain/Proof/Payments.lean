import RoutineChain.Proof.Tokens

/-!
# What a transfer and a spend move

As long as all balances together stay below `2 ^ 64`, a transfer and a spend go through if
the sender has what they take. Then they move just that: from the earned tokens of the sender
first, then from the purchased ones, to the earned tokens of the receiver. The receiver may be
the sender, which is read again after its deduction.
-/

namespace RoutineChain

open EStateM

/-- `n` tokens have gone from `a` to `receiver`, or to nobody. -/
structure Records.Paid (r : Records) (a : Id) (n : UInt64) (receiver : Option Id)
    (r' : Records) : Prop where
  earned : ∀ x, (r'.balance x).earned.toNat +
      (if a = x then min (r.balance a).earned.toNat n.toNat else 0) =
    (r.balance x).earned.toNat + (if receiver = some x then n.toNat else 0)
  purchased : ∀ x, (r'.balance x).purchased.toNat +
      (if a = x then n.toNat - (r.balance a).earned.toNat else 0) =
    (r.balance x).purchased.toNat
  /-- A payment to oneself changes no total. -/
  own : receiver = some a → r'.holding a = r.holding a
  /-- The stored balance of nobody else is written, and no owner changes. -/
  balances : ∀ x : Id, a ≠ x → receiver ≠ some x → r'.balances[x]? = r.balances[x]?
  stored : ∀ x : Id, r'.balances[x]?.isSome ↔
    r.balances[x]?.isSome ∨ a = x ∨ receiver = some x
  owner : ∀ x, (r'.balance x).owner = (r.balance x).owner
  supply : r'.supply + (if receiver.isSome then 0 else n.toNat) = r.supply
  others : r' = { r with balances := r'.balances }

/-- A payment of `n` by `a` is **exact**: it goes through if the balance of `a` covers it, and
fails without a trace otherwise. -/
structure Exec.PaysExactly (x : Exec (List Event)) (r : Records) (a : Id) (n : UInt64)
    (receiver : Option Id) : Prop where
  ok_iff : isOk x r ↔ 0 < n.toNat ∧
    n.toNat ≤ (r.balance a).earned.toNat + (r.balance a).purchased.toNat
  paid : isOk x r → r.Paid a n receiver (after x r)
  unpaid : ¬ isOk x r → after x r = r

section Payments

variable {r : Records} {a b x : Id} {n : UInt64}

/-- The guard of both operations. -/
theorem Records.covers_iff (h : r.supply < 2 ^ 64) :
    (n ≠ 0 ∧ ¬ (r.balance a).total < n) ↔ 0 < n.toNat ∧
      n.toNat ≤ (r.balance a).earned.toNat + (r.balance a).purchased.toNat := by
  have hle : r.holding a ≤ r.supply := Records.holding_le_supply
  have hzero : n ≠ 0 ↔ 0 < n.toNat := by
    rw [Nat.pos_iff_ne_zero, ne_eq, ne_eq, ← UInt64.toNat_inj, UInt64.toNat_zero]
  rw [hzero, UInt64.lt_iff_toNat_lt, RCWBalance.total_toNat (hle.trans_lt h), Nat.not_lt]
  rfl

/-- **What a spend does to the records.** -/
theorem Records.paid_spend (h : r.supply < 2 ^ 64) (hn : ¬ (r.balance a).total < n) :
    r.Paid a n none (r.putBalance a ((r.balance a).deduct n)) := by
  have hle : r.holding a ≤ r.supply := Records.holding_le_supply
  obtain ⟨hearned, hpurchased⟩ := RCWBalance.parts_deduct (b := r.balance a) (hle.trans_lt h) hn
  refine ⟨?_, ?_, nofun, ?_, ?_, ?_, supply_deduct (hle.trans_lt h) hn, rfl⟩
  · intro x
    rw [balance_putBalance]
    by_cases hax : a = x
    · subst hax
      simpa using hearned
    · simp [hax]
  · intro x
    rw [balance_putBalance]
    by_cases hax : a = x
    · subst hax
      simpa using hpurchased
    · simp [hax]
  · intro x hax _
    rw [putBalance_balances, Table.get_insert, if_neg hax]
  · intro x
    rw [putBalance_balances, Table.get_insert]
    by_cases hax : a = x
    · simp [hax]
    · simp [hax]
  · intro x
    rw [balance_putBalance]
    split
    next hax => rw [RCWBalance.owner_deduct, hax]
    next => rfl

/-- A mint that fits pays the receiver, after the sender has paid. -/
theorem Records.Paid.mint {r₁ : Records} (h : r.Paid a n none r₁)
    (hfit : r₁.holding b + n.toNat < 2 ^ 64) (hown : a = b → r₁.holding a + n.toNat = r.holding a) :
    r.Paid a n (some b) (r₁.mint b n) := by
  have hadd : ((r₁.balance b).earned + n).toNat = (r₁.balance b).earned.toNat + n.toNat := by
    unfold holding RCWBalance.holding at hfit
    rw [UInt64.toNat_add]
    omega
  have hbalance : ∀ x, (r₁.mint b n).balance x =
      if b = x then { r₁.balance b with earned := (r₁.balance b).earned + n }
      else r₁.balance x := by
    intro x
    unfold Records.mint
    exact balance_putBalance _
  refine ⟨?_, ?_, ?_, ?_, ?_, ?_, ?_, ?_⟩
  · intro x
    have hx := h.earned x
    rw [hbalance]
    by_cases hbx : b = x
    · subst hbx
      simp only [reduceCtorEq, if_false, if_true, hadd] at hx ⊢
      omega
    · simpa [hbx] using hx
  · intro x
    have hx := h.purchased x
    rw [hbalance]
    by_cases hbx : b = x
    · subst hbx
      rw [if_pos rfl]
      exact hx
    · rw [if_neg hbx]
      exact hx
  · intro hab
    rw [Option.some_inj] at hab
    rw [holding_mint hfit, if_pos hab]
    exact hown hab.symm
  · intro x hax hbx
    have hne : ¬ b = x := fun hb => hbx (congrArg some hb)
    rw [Records.mint, putBalance_balances, Table.get_insert, if_neg hne]
    exact h.balances x hax (Option.some_ne_none x).symm
  · intro x
    have hx := h.stored x
    rw [Records.mint, putBalance_balances, Table.get_insert]
    by_cases hbx : b = x
    · simp [hbx]
    · simpa [hbx] using hx
  · intro x
    rw [hbalance]
    split
    next hbx => rw [← h.owner x, hbx]
    next => exact h.owner x
  · have hsupply := h.supply
    rw [supply_mint hfit]
    simpa using hsupply
  · rw [Records.mint, putBalance, h.others]

/-- **What a transfer does to the records**, also one to the sender itself. -/
theorem Records.paid_transfer (h : r.supply < 2 ^ 64) (hn : ¬ (r.balance a).total < n) :
    r.Paid a n (some b) ((r.putBalance a ((r.balance a).deduct n)).mint b n) := by
  have hle : r.holding a ≤ r.supply := Records.holding_le_supply
  have hsupply := Records.supply_deduct (hle.trans_lt h) hn
  have hleb : (r.putBalance a ((r.balance a).deduct n)).holding b ≤
      (r.putBalance a ((r.balance a).deduct n)).supply := Records.holding_le_supply
  have hholding := Records.holding_deduct (x := a) (hle.trans_lt h) hn
  rw [if_pos rfl] at hholding
  exact (Records.paid_spend h hn).mint (by omega) fun _ => hholding

/-- An operation that pays if its guard holds, and fails otherwise, pays exactly. -/
theorem Exec.paysExactly_of_cases {op : Exec (List Event)} {receiver : Option Id}
    {es : List Event} {r' : Records} (h : r.supply < 2 ^ 64)
    (hrun : n ≠ 0 → ¬ (r.balance a).total < n → op.run r = .ok es r')
    (hcases : (∃ e, op.run r = .error e r) ∨
      (n ≠ 0 ∧ ¬ (r.balance a).total < n ∧ op.run r = .ok es r'))
    (hpaid : ¬ (r.balance a).total < n → r.Paid a n receiver r') :
    op.PaysExactly r a n receiver := by
  have hguard := Records.covers_iff (a := a) (n := n) h
  by_cases hn : n ≠ 0 ∧ ¬ (r.balance a).total < n
  · have hok := hrun hn.1 hn.2
    have hisOk : isOk op r := by simp [isOk, hok]
    refine ⟨iff_of_true hisOk (hguard.1 hn), ?_, fun hfail => absurd hisOk hfail⟩
    intro _
    rw [after_ok hok]
    exact hpaid hn.2
  · obtain ⟨e, herr⟩ := hcases.resolve_right fun hok => hn ⟨hok.1, hok.2.1⟩
    have hfail : ¬ isOk op r := by simp [isOk, herr]
    exact ⟨iff_of_false hfail fun hle => hn (hguard.2 hle), fun hok => absurd hok hfail,
      fun _ => after_error herr⟩

end Payments

theorem Token.transfer_exact {r : Records} (h : r.supply < 2 ^ 64) (a b : Id) (n : UInt64)
    (memo : String) : (Token.transfer a b n memo).PaysExactly r a n (some b) :=
  Exec.paysExactly_of_cases h (fun h0 ht => Token.transfer_run h0 ht b memo)
    (Token.transfer_cases a b n memo) (Records.paid_transfer h)

theorem Token.spend_exact {r : Records} (h : r.supply < 2 ^ 64) (a : Id) (n : UInt64)
    (purpose : String) : (Token.spend a n purpose).PaysExactly r a n none :=
  Exec.paysExactly_of_cases h (fun h0 ht => Token.spend_run h0 ht purpose)
    (Token.spend_cases a n purpose) (Records.paid_spend h)

/-- **Transfers and spends are exact** as long as all balances stay below `2 ^ 64`. -/
theorem payments_exact (r : Records) (h : r.supply < 2 ^ 64) (a b : Id) (n : UInt64)
    (memo purpose : String) :
    (Token.transfer a b n memo).PaysExactly r a n (some b) ∧
      (Token.spend a n purpose).PaysExactly r a n none :=
  ⟨Token.transfer_exact h a b n memo, Token.spend_exact h a n purpose⟩

/-- Account 1 has earned 5 and purchased 10 tokens. -/
def Records.toyRich : Records :=
  Records.empty.putBalance 1 { owner := 1, earned := 5, purchased := 10 }

theorem payments_exact_toy :
    (Token.transfer 1 1 8 "").PaysExactly .toyRich 1 8 (some 1) ∧
      (Token.spend 1 8 "").PaysExactly .toyRich 1 8 none :=
  payments_exact .toyRich (by decide +kernel) 1 1 8 "" ""

end RoutineChain
