import RoutineChain.Lib.Commute
import RoutineChain.Proof.Payments

/-!
# Payments in any order

No token is ever purchased, so a payment takes earned tokens only, and what it takes and gives
does not depend on the other payments: payments of different senders are independent
(`payments_independent`). A block may hold them in any order (`payments_commute`).
-/

namespace RoutineChain

open EStateM Std

/-- What a payment takes, and who receives it. -/
def TxPayload.payment : TxPayload → Option (UInt64 × Option Id)
  | .transferRCW receiver n _ => some (n, some receiver)
  | .spendRCW n _ => some (n, none)
  | _ => none

/-! ## All tokens are earned -/

/-- No token is purchased. -/
def Records.Unpurchased (r : Records) : Prop := ∀ x, (r.balance x).purchased = 0

section Unpurchased

variable {P : Params} {a : Id} {t : Int64} {r r' : Records} {p : TxPayload} {es : List Event}
  {n : UInt64}

theorem Records.Unpurchased.of_eq (hr : r.Unpurchased) (h : r'.balances = r.balances) :
    r'.Unpurchased := by
  intro x
  rw [Records.balance, h]
  exact hr x

theorem Records.Unpurchased.put (hr : r.Unpurchased) {v : RCWBalance} (hv : v.purchased = 0) :
    (r.putBalance a v).Unpurchased := by
  intro x
  rw [balance_putBalance]
  split
  · exact hv
  · exact hr x

theorem Records.Unpurchased.mint (hr : r.Unpurchased) : (r.mint a n).Unpurchased := by
  unfold Records.mint
  exact hr.put (hr a)

theorem Records.Unpurchased.reward (hr : r.Unpurchased) : (r.reward a n).Unpurchased := by
  unfold Records.reward
  split
  · exact hr.mint
  · exact hr

theorem Records.Unpurchased.resolve (hr : r.Unpurchased) {esc : Escrow} {y : Id} {res : UInt8} :
    (r.resolve esc y res n).Unpurchased := by
  unfold Records.resolve
  split
  · exact hr
  · exact Records.Unpurchased.reward (hr.of_eq (by simp))

/-- A balance that covers `n` without purchased tokens has earned it. -/
theorem RCWBalance.purchased_deduct {v : RCWBalance} (hv : v.purchased = 0)
    (hn : ¬ v.total < n) : (v.deduct n).purchased = 0 := by
  have hearned : v.earned ≥ n := by
    rw [RCWBalance.total, hv, UInt64.add_zero] at hn
    exact UInt64.not_lt.1 hn
  rw [RCWBalance.deduct, if_pos hearned]
  exact hv

theorem TxPayload.Outcome.unpurchased (h : p.Outcome P a t r es r') (hr : r.Unpurchased) :
    r'.Unpurchased := by
  cases h with
  | settled | rated => exact Records.Unpurchased.reward hr
  | released => exact Records.Unpurchased.reward (Records.Unpurchased.reward hr)
  | raised => exact hr.of_eq (by simp)
  | decided => exact Records.Unpurchased.resolve hr
  | transferred _ ht =>
    exact Records.Unpurchased.mint (hr.put (RCWBalance.purchased_deduct (hr _) ht))
  | spent _ ht => exact hr.put (RCWBalance.purchased_deduct (hr _) ht)
  | _ => exact hr

/-- **No token is purchased in a reachable state.** -/
theorem executeAll_unpurchased (P : Params) (l : List Timed) :
    (executeAll P l).store.records.Unpurchased := by
  refine executeAll_inv (P := P) (C := fun _ _ => True) (I := fun r _ => r.Unpurchased)
    ?_ ?_ (Runs.along_true _ l)
  · intro x
    simp [Records.balance, Records.empty]
  · intro x tx t es r' hr _ _ hout
    exact hout.unpurchased hr

end Unpurchased

/-! ## Two payments -/

section Commute

variable {r r' r₁ r₂ r₁₂ r₂₁ : Records} {a c : Id} {n m : UInt64} {u v : Option Id}

/-- The stored balances are determined by the balances and by whether they are stored. -/
theorem Records.balances_ext (hstored : ∀ x : Id, r.balances[x]?.isSome ↔ r'.balances[x]?.isSome)
    (hbalance : ∀ x, r.balance x = r'.balance x) : r.balances = r'.balances := by
  refine ExtTreeMap.ext_getElem? ?_
  intro x
  have hs := hstored x
  have hb := hbalance x
  unfold Records.balance at hb
  cases hx : r.balances[x]? with
  | none =>
    cases hx' : r'.balances[x]? with
    | none => rfl
    | some b' => simp [hx, hx'] at hs
  | some b =>
    cases hx' : r'.balances[x]? with
    | none => simp [hx, hx'] at hs
    | some b' =>
      rw [hx, hx', Option.getD_some, Option.getD_some] at hb
      rw [hb]

/-- Earned tokens that cover the payment are all that it takes. -/
theorem Records.Paid.of_covered (h : r.Paid a n u r')
    (hn : n.toNat ≤ (r.balance a).earned.toNat) (x : Id) :
    (r'.balance x).earned.toNat + (if a = x then n.toNat else 0) =
        (r.balance x).earned.toNat + (if u = some x then n.toNat else 0) ∧
      (r'.balance x).purchased = (r.balance x).purchased := by
  have hearned := h.earned x
  have hpurchased := h.purchased x
  rw [Nat.min_eq_right hn] at hearned
  rw [Nat.sub_eq_zero_of_le hn, ite_self, Nat.add_zero] at hpurchased
  exact ⟨hearned, UInt64.toNat_inj.1 hpurchased⟩

/-- What covers a payment still does after a payment of somebody else. -/
theorem Records.Paid.still_covers (h : r.Paid a n u r')
    (hn : n.toNat ≤ (r.balance a).earned.toNat) (hac : a ≠ c) :
    (r.balance c).earned.toNat ≤ (r'.balance c).earned.toNat := by
  have hc := (h.of_covered hn c).1
  rw [if_neg hac] at hc
  omega

/-- **Two payments of different senders commute.** -/
theorem Records.Paid.comm (hac : a ≠ c) (hn : n.toNat ≤ (r.balance a).earned.toNat)
    (hm : m.toNat ≤ (r.balance c).earned.toNat) (h₁ : r.Paid a n u r₁) (h₁₂ : r₁.Paid c m v r₁₂)
    (h₂ : r.Paid c m v r₂) (h₂₁ : r₂.Paid a n u r₂₁) : r₁₂ = r₂₁ := by
  have hbalances : r₁₂.balances = r₂₁.balances := by
    refine Records.balances_ext ?_ ?_
    · intro x
      rw [h₁₂.stored x, h₁.stored x, h₂₁.stored x, h₂.stored x]
      tauto
    · intro x
      obtain ⟨he₁, hp₁⟩ := h₁.of_covered hn x
      obtain ⟨he₂, hp₂⟩ := h₂.of_covered hm x
      obtain ⟨he₁₂, hp₁₂⟩ := h₁₂.of_covered (hm.trans (h₁.still_covers hn hac)) x
      obtain ⟨he₂₁, hp₂₁⟩ := h₂₁.of_covered (hn.trans (h₂.still_covers hm hac.symm)) x
      have hearned : (r₁₂.balance x).earned = (r₂₁.balance x).earned := by
        refine UInt64.toNat_inj.1 ?_
        omega
      have hpurchased : (r₁₂.balance x).purchased = (r₂₁.balance x).purchased := by
        rw [hp₁₂, hp₁, hp₂₁, hp₂]
      have howner : (r₁₂.balance x).owner = (r₂₁.balance x).owner := by
        rw [h₁₂.owner x, h₁.owner x, h₂₁.owner x, h₂.owner x]
      generalize r₁₂.balance x = b at hearned hpurchased howner ⊢
      generalize r₂₁.balance x = b' at hearned hpurchased howner ⊢
      cases b
      cases b'
      simp only at hearned hpurchased howner
      rw [hearned, hpurchased, howner]
  rw [h₁₂.others, h₁.others, h₂₁.others, h₂.others, hbalances]

end Commute

/-! ## Payments of transactions -/

section Transactions

variable {P : Params} {tx tx' : Transaction} {t t' : Int64} {s : Store} {n : UInt64}
  {u : Option Id}

theorem runPayload_payment {p : TxPayload} (hp : p.payment = some (n, u)) {r : Records}
    (h : r.supply < 2 ^ 64) (a : Id) : (runPayload P a t p).PaysExactly r a n u := by
  cases p with
  | transferRCW b n' memo =>
    cases hp
    exact Token.transfer_exact h a b n memo
  | spendRCW n' purpose =>
    cases hp
    exact Token.spend_exact h a n purpose
  | _ => cases hp

/-- A payment does not look at the time. -/
theorem execute_payment_time (hp : tx.payload.payment.isSome) :
    execute P tx t = execute P tx t' := by
  obtain ⟨p, a, sig, tm, k⟩ := tx
  cases p with
  | transferRCW | spendRCW => rfl
  | _ => cases hp

/-- The states in which payments are independent. -/
structure Store.Payable (s : Store) : Prop where
  supply : s.records.supply < 2 ^ 64
  unpurchased : s.records.Unpurchased

/-- Execute a payment. -/
def Store.pay (P : Params) (s : Store) (tx : Transaction) : Store := after (execute P tx 0) s

/-- The transaction is a payment that succeeds. -/
def Store.Pays (P : Params) (s : Store) (tx : Transaction) : Prop :=
  tx.payload.payment.isSome ∧ isOk (execute P tx 0) s

/-- **When a payment succeeds, and what it does.** -/
theorem Store.pays_iff (hs : s.Payable) (hp : tx.payload.payment = some (n, u)) :
    (s.Pays P tx ↔ tx.Fresh s ∧ 0 < n.toNat ∧
      n.toNat ≤ (s.records.balance tx.sender).earned.toNat) ∧
    (s.Pays P tx → ∃ r', s.pay P tx = s.afterTx tx r' ∧
      s.records.Paid tx.sender n u r') := by
  have hexact : (tx.exec P 0).PaysExactly s.records tx.sender n u :=
    runPayload_payment hp hs.supply tx.sender
  have hok := hexact.ok_iff
  rw [hs.unpurchased tx.sender, UInt64.toNat_zero, Nat.add_zero] at hok
  refine ⟨?_, ?_⟩
  · rw [Store.Pays, hp, isOk_execute, hok]
    simp
  · rintro ⟨-, hrun⟩
    obtain ⟨hf, hrun⟩ := isOk_execute.1 hrun
    refine ⟨_, ?_, hexact.paid hrun⟩
    rw [Store.pay, after_execute, if_pos hf]
    rfl

/-- A payment that succeeds, with all that is known of it. -/
theorem Store.Pays.covered (h : s.Pays P tx) (hs : s.Payable) :
    ∃ n u r', tx.payload.payment = some (n, u) ∧ tx.Fresh s ∧
      n.toNat ≤ (s.records.balance tx.sender).earned.toNat ∧ s.pay P tx = s.afterTx tx r' ∧
      s.records.Paid tx.sender n u r' := by
  obtain ⟨⟨n, u⟩, hp⟩ := Option.isSome_iff_exists.1 h.1
  obtain ⟨hiff, hpaid⟩ := Store.pays_iff (P := P) hs hp
  obtain ⟨hf, -, hn⟩ := hiff.1 h
  obtain ⟨r', hpay, hr'⟩ := hpaid h
  exact ⟨n, u, r', hp, hf, hn, hpay, hr'⟩

theorem Store.Payable.pay (hs : s.Payable) (h : s.Pays P tx) : (s.pay P tx).Payable := by
  obtain ⟨n, u, r', -, -, hn, hpay, hr'⟩ := h.covered hs
  rw [hpay]
  refine ⟨?_, ?_⟩
  · have hsupply := hr'.supply
    have hfit := hs.supply
    rw [Store.afterTx_records]
    omega
  · intro x
    rw [Store.afterTx_records, (hr'.of_covered hn x).2]
    exact hs.unpurchased x

/-- A payment of somebody else takes nothing that a payment needs. -/
theorem Store.Pays.keeps (h : s.Pays P tx) (h' : s.Pays P tx') (hs : s.Payable)
    (hne : tx.sender ≠ tx'.sender) : (s.pay P tx).Pays P tx' := by
  obtain ⟨n, u, r', -, -, hn, hpay, hr'⟩ := h.covered hs
  obtain ⟨⟨m, v⟩, hp'⟩ := Option.isSome_iff_exists.1 h'.1
  obtain ⟨hf', hpos, hm⟩ := (Store.pays_iff (P := P) hs hp').1.1 h'
  refine (Store.pays_iff (hs.pay h) hp').1.2 ⟨?_, hpos, ?_⟩
  · rw [Transaction.Fresh, hpay, Store.getNonce_afterTx, if_neg hne]
    exact hf'
  · rw [hpay, Store.afterTx_records]
    exact hm.trans (hr'.still_covers hn hne)

/-- **Payments of different senders are independent.** -/
theorem payments_independent (P : Params) : Runs.Independent (Store.pay P) Store.Payable
    (Store.Pays P) fun tx tx' => tx.sender ≠ tx'.sender := by
  refine ⟨Ne.symm, fun hs h => hs.pay h, fun hs hne h h' => h.keeps h' hs hne, ?_⟩
  intro s tx tx' hs hne h h'
  obtain ⟨n, u, r₁, hp, -, hn, hpay, hr₁⟩ := h.covered hs
  obtain ⟨m, v, r₂, hp', -, hm, hpay', hr₂⟩ := h'.covered hs
  obtain ⟨m', v', r₁₂, hp₁₂, -, -, hpay₁₂, hr₁₂⟩ := (h.keeps h' hs hne).covered (hs.pay h)
  obtain ⟨n', u', r₂₁, hp₂₁, -, -, hpay₂₁, hr₂₁⟩ :=
    (h'.keeps h hs (Ne.symm hne)).covered (hs.pay h')
  rw [hp'] at hp₁₂
  rw [hp] at hp₂₁
  cases hp₁₂
  cases hp₂₁
  rw [hpay, Store.afterTx_records] at hr₁₂
  rw [hpay', Store.afterTx_records] at hr₂₁
  rw [hpay₁₂, hpay₂₁, hpay, hpay', Records.Paid.comm hne hn hm hr₁ hr₁₂ hr₂ hr₂₁]
  exact Store.afterTx_comm hne r₁ r₂ r₂₁

end Transactions

/-! ## Blocks of payments -/

section Runs

variable {P : Params} {x : Execution}

/-- The store after payments that succeed, whenever they are executed. -/
theorem run_payments {acts : List Timed}
    (h : Runs.Along (Store.pay P) (Store.Pays P) x.store (acts.map Prod.fst)) :
    Runs.Along (Execution.execute P) (Execution.Succeeds P) x acts ∧
      (Runs.run (Execution.execute P) x acts).store =
        Runs.run (Store.pay P) x.store (acts.map Prod.fst) := by
  induction acts generalizing x with
  | nil => exact ⟨trivial, rfl⟩
  | cons act acts ih =>
    obtain ⟨⟨hp, hok⟩, hrest⟩ := h
    have htime : execute P act.1 act.2 = execute P act.1 0 := execute_payment_time hp
    have hstore : (x.execute P act).store = x.store.pay P act.1 := by
      rw [Execution.execute_store, htime, Store.pay]
    obtain ⟨halong, hrun⟩ := ih (x := x.execute P act) (hstore ▸ hrest)
    refine ⟨⟨?_, halong⟩, ?_⟩
    · rw [Execution.Succeeds, htime]
      exact hok
    · rw [Runs.run_cons, hrun, hstore]
      rfl

end Runs

/-- **Payments of different senders can be executed in any order**, and at any times: if each
of them would succeed first, then all of them succeed, and the store is the same. -/
theorem payments_commute (P : Params) (l : List Timed)
    (hfit : tally Event.minted (executeAll P l).events < 2 ^ 64) (txs txs' : List Timed)
    (hpay : ∀ act ∈ txs, act.1.payload.payment.isSome)
    (hsenders : (txs.map (·.1.sender)).Nodup)
    (hok : ∀ act ∈ txs, (executeAll P l).Succeeds P act)
    (hperm : (txs.map Prod.fst).Perm (txs'.map Prod.fst)) :
    Runs.Along (Execution.execute P) (Execution.Succeeds P) (executeAll P l) txs' ∧
      (executeAll P (l ++ txs')).store = (executeAll P (l ++ txs)).store := by
  have hs : (executeAll P l).store.Payable := by
    have hsupply := executeAll_supply hfit
    exact ⟨by omega, executeAll_unpurchased P l⟩
  have hdistinct : (txs.map Prod.fst).Pairwise fun tx tx' => tx.sender ≠ tx'.sender := by
    rw [List.Nodup, List.pairwise_map] at hsenders
    rwa [List.pairwise_map]
  have hpays : ∀ tx ∈ txs.map Prod.fst, (executeAll P l).store.Pays P tx := by
    intro tx htx
    obtain ⟨act, hact, rfl⟩ := List.mem_map.1 htx
    have hsucceeds := hok act hact
    have htime : execute P act.1 act.2 = execute P act.1 0 := execute_payment_time (hpay act hact)
    rw [Execution.Succeeds, htime] at hsucceeds
    exact ⟨hpay act hact, hsucceeds⟩
  have hind := payments_independent P
  have hpaid : Runs.Along (Store.pay P) (Store.Pays P) (executeAll P l).store
      (txs.map Prod.fst) := hind.along hs hdistinct hpays
  have hpaid' : Runs.Along (Store.pay P) (Store.Pays P) (executeAll P l).store
      (txs'.map Prod.fst) :=
    hind.along hs (hperm.pairwise hdistinct Ne.symm) fun tx htx =>
      hpays tx (hperm.mem_iff.2 htx)
  obtain ⟨-, hrun⟩ := run_payments hpaid
  obtain ⟨halong', hrun'⟩ := run_payments hpaid'
  refine ⟨halong', ?_⟩
  unfold executeAll at hrun hrun' ⊢
  rw [Runs.run_append, Runs.run_append, hrun, hrun']
  exact (hind.run_perm hperm hs hdistinct hpays).symm

/-- After the trade and its payments, the buyer sends 5 to the seller, and the seller sends 20
to itself. -/
def toyBlock : List Timed :=
  [(.toy 1 4 (.transferRCW 2 5 ""), 50), (.toy 2 5 (.transferRCW 2 20 ""), 50)]

theorem payments_commute_toy :
    Runs.Along (Execution.execute .default) (Execution.Succeeds .default)
        (executeAll .default toyPayments) toyBlock.reverse ∧
      (executeAll .default (toyPayments ++ toyBlock.reverse)).store =
        (executeAll .default (toyPayments ++ toyBlock)).store :=
  payments_commute .default toyPayments (by decide +kernel) toyBlock toyBlock.reverse
    (by decide) (by decide) (by decide +kernel)
    ((List.reverse_perm toyBlock).symm.map Prod.fst)

end RoutineChain
