import RoutineChain.Proof.Escrows

/-!
# The token ledger

As long as less than `2 ^ 64` is minted, no balance wraps around. Then what an account holds
is what the events say: minted and received, less sent and spent (`token_ledger`). The sum of
all balances follows, and that only its owner takes from a balance.
-/

namespace RoutineChain

open Std

/-! ## One balance -/

namespace RCWBalance

variable {b : RCWBalance} {n : UInt64}

theorem total_toNat (h : b.holding < 2 ^ 64) : b.total.toNat = b.holding := by
  unfold holding at h ⊢
  rw [total, UInt64.toNat_add]
  omega

/-- Minting to a balance that does not wrap. -/
theorem holding_mint (h : b.holding + n.toNat < 2 ^ 64) :
    RCWBalance.holding { b with earned := b.earned + n } = b.holding + n.toNat := by
  unfold holding at h ⊢
  simp only [UInt64.toNat_add]
  omega

/-- What is taken from a balance that covers it: from the earned part first. -/
theorem parts_deduct (h : b.holding < 2 ^ 64) (hn : ¬ b.total < n) :
    (b.deduct n).earned.toNat + min b.earned.toNat n.toNat = b.earned.toNat ∧
      (b.deduct n).purchased.toNat + (n.toNat - b.earned.toNat) = b.purchased.toNat := by
  rw [UInt64.lt_iff_toNat_lt, total_toNat h] at hn
  unfold holding at h hn
  unfold deduct
  by_cases he : b.earned ≥ n
  · have hle : n.toNat ≤ b.earned.toNat := UInt64.le_iff_toNat_le.1 he
    rw [if_pos he]
    simp only [UInt64.toNat_sub_of_le _ _ he]
    omega
  · have hlt : b.earned.toNat < n.toNat := UInt64.lt_iff_toNat_lt.1 (UInt64.not_le.1 he)
    have hrest : (n - b.earned).toNat = n.toNat - b.earned.toNat :=
      UInt64.toNat_sub_of_le _ _ (UInt64.le_of_lt (UInt64.not_le.1 he))
    have hle : n - b.earned ≤ b.purchased := by
      rw [UInt64.le_iff_toNat_le, hrest]
      omega
    rw [if_neg he]
    simp only [UInt64.toNat_zero, UInt64.toNat_sub_of_le _ _ hle, hrest]
    omega

theorem holding_deduct (h : b.holding < 2 ^ 64) (hn : ¬ b.total < n) :
    (b.deduct n).holding + n.toNat = b.holding := by
  obtain ⟨hearned, hpurchased⟩ := parts_deduct h hn
  unfold holding
  omega

theorem owner_deduct : (b.deduct n).owner = b.owner := by
  unfold deduct
  split <;> rfl

end RCWBalance

/-! ## All balances -/

namespace Records

variable {r r' : Records} {a b x : Id} {n : UInt64}

theorem balance_putBalance (v : RCWBalance) :
    (r.putBalance a v).balance x = if a = x then v else r.balance x := by
  unfold balance
  rw [putBalance_balances, Table.get_insert]
  split <;> rfl

theorem holding_putBalance (v : RCWBalance) :
    (r.putBalance a v).holding x = if a = x then v.holding else r.holding x := by
  unfold holding
  rw [balance_putBalance]
  split <;> rfl

/-- A balance that was never written counts as nothing. -/
theorem share_balances : MapSum.share RCWBalance.holding r.balances a = r.holding a := by
  unfold MapSum.share holding balance
  cases r.balances[a]? <;> simp [RCWBalance.holding]

theorem supply_putBalance (v : RCWBalance) :
    (r.putBalance a v).supply + r.holding a = r.supply + v.holding := by
  have hins := MapSum.total_insert RCWBalance.holding r.balances a v
  rw [share_balances] at hins
  exact hins

theorem holding_le_supply : r.holding a ≤ r.supply := by
  rw [← share_balances]
  exact MapSum.share_le_total

theorem holding_mint (h : r.holding b + n.toNat < 2 ^ 64) :
    (r.mint b n).holding x = r.holding x + if b = x then n.toNat else 0 := by
  unfold mint
  rw [holding_putBalance, RCWBalance.holding_mint h]
  split
  next hx =>
    rw [← hx]
    rfl
  next => rfl

theorem supply_mint (h : r.holding b + n.toNat < 2 ^ 64) :
    (r.mint b n).supply = r.supply + n.toNat := by
  have hput := supply_putBalance (r := r) (a := b)
    { r.balance b with earned := (r.balance b).earned + n }
  rw [RCWBalance.holding_mint h] at hput
  have hb : (r.balance b).holding = r.holding b := rfl
  unfold mint
  omega

theorem holding_deduct (h : r.holding a < 2 ^ 64) (hn : ¬ (r.balance a).total < n) :
    (r.putBalance a ((r.balance a).deduct n)).holding x + (if a = x then n.toNat else 0) =
      r.holding x := by
  have hded := RCWBalance.holding_deduct h hn
  rw [holding_putBalance]
  split
  next hx =>
    rw [← hx]
    exact hded
  next => rfl

theorem supply_deduct (h : r.holding a < 2 ^ 64) (hn : ¬ (r.balance a).total < n) :
    (r.putBalance a ((r.balance a).deduct n)).supply + n.toNat = r.supply := by
  have hded := RCWBalance.holding_deduct h hn
  have hput := supply_putBalance (r := r) (a := a) ((r.balance a).deduct n)
  have ha : (r.balance a).holding = r.holding a := rfl
  omega

end Records

/-! ## Events and balances in step -/

theorem tally_append (f : Event → ℕ) (es es' : List Event) :
    tally f (es ++ es') = tally f es + tally f es' := by
  simp [tally]

theorem tally_cons (f : Event → ℕ) (e : Event) (es : List Event) :
    tally f (e :: es) = f e + tally f es := by
  simp [tally]

/-- The event moves no tokens. -/
def Event.Silent : Event → Prop
  | .rcwMinted .. | .rcwTransferred .. | .rcwSpent .. => False
  | _ => True

theorem Event.Silent.tallies {e : Event} (h : e.Silent) :
    (∀ x, e.mintedTo x = 0) ∧ (∀ x, e.receivedBy x = 0) ∧ (∀ x, e.sentBy x = 0) ∧
      (∀ x, e.spentBy x = 0) ∧ e.minted = 0 ∧ e.spent = 0 := by
  cases e with
  | rcwMinted | rcwTransferred | rcwSpent => exact h.elim
  | _ => exact ⟨fun _ => rfl, fun _ => rfl, fun _ => rfl, fun _ => rfl, rfl, rfl⟩

@[simp] theorem tally_minted_reward (a : Id) (n : UInt64) (reason : String) :
    tally Event.minted (rewardEvents a n reason) = n.toNat := by
  unfold rewardEvents
  split
  next => simp [tally, Event.minted]
  next h =>
    have hzero : n = 0 := by simpa using h
    simp [tally, hzero]

@[simp] theorem tally_spent_reward (a : Id) (n : UInt64) (reason : String) :
    tally Event.spent (rewardEvents a n reason) = 0 := by
  unfold rewardEvents
  split <;> simp [tally, Event.spent]

/-- The event takes tokens from `x`. -/
def Event.TakesFrom (x : Id) : Event → Prop
  | .rcwTransferred sender _ _ => sender = x
  | .rcwSpent sender _ _ => sender = x
  | _ => False

theorem tally_eq_zero {x : Id} {es : List Event} (h : ∀ e ∈ es, ¬ e.TakesFrom x) :
    tally (·.sentBy x) es = 0 ∧ tally (·.spentBy x) es = 0 := by
  have hzero : ∀ e ∈ es, e.sentBy x = 0 ∧ e.spentBy x = 0 := by
    intro e he
    have hno := h e he
    cases e with
    | rcwTransferred | rcwSpent =>
      simp only [Event.TakesFrom] at hno
      simp [Event.sentBy, Event.spentBy, hno]
    | _ => exact ⟨rfl, rfl⟩
  refine ⟨?_, ?_⟩
  · refine List.sum_eq_zero ?_
    rintro n hn
    obtain ⟨e, he, rfl⟩ := List.mem_map.1 hn
    exact (hzero e he).1
  · refine List.sum_eq_zero ?_
    rintro n hn
    obtain ⟨e, he, rfl⟩ := List.mem_map.1 hn
    exact (hzero e he).2

/-- **The events account for the change of every balance and of their sum.** -/
structure Records.Balanced (r : Records) (es : List Event) (r' : Records) : Prop where
  account : ∀ x, r'.holding x + tally (·.sentBy x) es + tally (·.spentBy x) es =
    r.holding x + tally (·.mintedTo x) es + tally (·.receivedBy x) es
  supply : r'.supply + tally Event.spent es = r.supply + tally Event.minted es

namespace Records.Balanced

variable {r r' r'' : Records} {es es' : List Event} {a b : Id} {n : UInt64} {reason : String}

theorem of_eq (h : r'.balances = r.balances) : r.Balanced [] r' := by
  refine ⟨?_, ?_⟩
  · intro x
    simp [tally, Records.holding, Records.balance, h]
  · simp [tally, Records.supply, h]

theorem trans (h : r.Balanced es r') (h' : r'.Balanced es' r'') : r.Balanced (es ++ es') r'' := by
  refine ⟨?_, ?_⟩
  · intro x
    have hx := h.account x
    have hx' := h'.account x
    simp only [tally_append]
    omega
  · have hs := h.supply
    have hs' := h'.supply
    simp only [tally_append]
    omega

theorem silent {e : Event} (h : r.Balanced es r') (he : e.Silent) : r.Balanced (e :: es) r' := by
  obtain ⟨hmint, hrec, hsent, hspent, hm, hs⟩ := he.tallies
  refine ⟨?_, ?_⟩
  · intro x
    simp only [tally_cons, hmint, hrec, hsent, hspent, Nat.zero_add]
    exact h.account x
  · simp only [tally_cons, hm, hs, Nat.zero_add]
    exact h.supply

theorem mint (h : r.supply + n.toNat < 2 ^ 64) :
    r.Balanced [.rcwMinted b n reason] (r.mint b n) := by
  have hle : r.holding b ≤ r.supply := Records.holding_le_supply
  have hfit : r.holding b + n.toNat < 2 ^ 64 := by omega
  refine ⟨?_, ?_⟩
  · intro x
    simp [tally, Event.sentBy, Event.spentBy, Event.mintedTo, Event.receivedBy,
      Records.holding_mint hfit]
  · simp [tally, Event.spent, Event.minted, Records.supply_mint hfit]

/-- A reward, once other records have been written. -/
theorem reward (hr' : r'.balances = r.balances) (h : r.supply + n.toNat < 2 ^ 64) :
    r.Balanced (rewardEvents b n reason) (r'.reward b n) := by
  have hsame : r.Balanced [] r' := of_eq hr'
  have hsupply : r'.supply = r.supply := by
    rw [Records.supply, hr', Records.supply]
  unfold rewardEvents Records.reward
  split
  · exact hsame.trans (mint (hsupply ▸ h))
  · exact hsame

theorem resolve {esc : Escrow} {y : Id} {res : UInt8}
    (h : r.supply + tally Event.minted (resolveEvents esc res n) < 2 ^ 64) :
    r.Balanced (resolveEvents esc res n) (r.resolve esc y res n) := by
  unfold resolveEvents at h ⊢
  unfold Records.resolve
  split
  next => exact of_eq rfl
  next hres =>
    rw [if_neg hres, tally_minted_reward] at h
    exact reward (by simp) h

theorem spend (h : r.supply < 2 ^ 64) (hn : ¬ (r.balance a).total < n) :
    r.Balanced [.rcwSpent a n reason] (r.putBalance a ((r.balance a).deduct n)) := by
  have hle : r.holding a ≤ r.supply := Records.holding_le_supply
  refine ⟨?_, ?_⟩
  · intro x
    have hded := Records.holding_deduct (x := x) (by omega) hn
    simp only [tally, Event.sentBy, Event.spentBy, Event.mintedTo, Event.receivedBy,
      List.map_cons, List.map_nil, List.sum_cons, List.sum_nil]
    omega
  · have hded := Records.supply_deduct (by omega) hn
    simp only [tally, Event.spent, Event.minted, List.map_cons, List.map_nil, List.sum_cons,
      List.sum_nil]
    omega

/-- A transfer, also one to the sender itself: the receiver is read after the sender has been
written. -/
theorem transfer (h : r.supply < 2 ^ 64) (hn : ¬ (r.balance a).total < n) :
    r.Balanced [.rcwTransferred a b n]
      ((r.putBalance a ((r.balance a).deduct n)).mint b n) := by
  have hle : r.holding a ≤ r.supply := Records.holding_le_supply
  have hsupply := Records.supply_deduct (by omega) hn
  have hleb : (r.putBalance a ((r.balance a).deduct n)).holding b ≤
      (r.putBalance a ((r.balance a).deduct n)).supply := Records.holding_le_supply
  refine ⟨?_, ?_⟩
  · intro x
    have hded := Records.holding_deduct (x := x) (by omega) hn
    have hmint := Records.holding_mint (x := x) (n := n)
      (r := r.putBalance a ((r.balance a).deduct n)) (b := b) (by omega)
    simp only [tally, Event.sentBy, Event.spentBy, Event.mintedTo, Event.receivedBy,
      List.map_cons, List.map_nil, List.sum_cons, List.sum_nil]
    omega
  · have hmint := Records.supply_mint (n := n)
      (r := r.putBalance a ((r.balance a).deduct n)) (b := b) (by omega)
    simp only [tally, Event.spent, Event.minted, List.map_cons, List.map_nil, List.sum_cons,
      List.sum_nil]
    omega

end Records.Balanced

section Outcome

variable {P : Params} {a x : Id} {t : Int64} {r r' : Records} {p : TxPayload} {es : List Event}

/-- **The events of a payload account for what it does to the balances**, as long as its
mints leave the supply below `2 ^ 64`. -/
theorem TxPayload.Outcome.balanced (h : p.Outcome P a t r es r')
    (hfit : r.supply + tally Event.minted es < 2 ^ 64) : r.Balanced es r' := by
  cases h with
  | registered _ | updated _ | deactivated _ | created _ _ _ | refunded _ _ _ _ | anchored _ _ =>
    exact .silent (.of_eq rfl) trivial
  | raised _ _ _ => exact .silent (.of_eq (by simp)) trivial
  | evidence _ _ _ _ | voted _ _ _ _ _ _ => exact .of_eq rfl
  | settled _ | rated _ =>
    rw [tally_cons, tally_minted_reward] at hfit
    exact .silent (.reward rfl (by omega)) trivial
  | @released e ev esc b s _ _ _ _ _ _ =>
    rw [tally_cons, tally_append, tally_minted_reward, tally_minted_reward] at hfit
    set r₁ := ((r.putEscrow e
      { esc with state := .released, evidenceHash := some ev }).putParticipant esc.buyer
        (b.released t)).putParticipant esc.seller (s.sold esc.amount t)
    -- the second reward is paid from the supply after the first
    have hbuyer : r.Balanced (rewardEvents esc.buyer P.rewards.escrowCompleted "escrow_complete")
        (r₁.reward esc.buyer P.rewards.escrowCompleted) := .reward rfl (by omega)
    have hsupply := hbuyer.supply
    rw [tally_minted_reward, tally_spent_reward] at hsupply
    have hseller : (r₁.reward esc.buyer P.rewards.escrowCompleted).Balanced
        (rewardEvents esc.seller P.rewards.escrowCompleted "escrow_complete")
        ((r₁.reward esc.buyer P.rewards.escrowCompleted).reward esc.seller
          P.rewards.escrowCompleted) := .reward rfl (by omega)
    exact (hbuyer.trans hseller).silent trivial
  | decided _ _ _ _ _ _ _ =>
    rw [tally_append] at hfit
    refine Records.Balanced.trans (.resolve ?_) (.silent (.of_eq rfl) trivial)
    omega
  | transferred _ ht => exact .transfer (by omega) ht
  | spent _ ht => exact .spend (by omega) ht

/-- Tokens leave the account of the sender only. -/
theorem TxPayload.Outcome.not_takesFrom (h : p.Outcome P a t r es r') (hx : a ≠ x) :
    ∀ e ∈ es, ¬ e.TakesFrom x := by
  have hreward : ∀ (e : Event) (b : Id) (n : UInt64) (reason : String),
      e ∈ rewardEvents b n reason → ¬ e.TakesFrom x := by
    intro e b n reason he
    unfold rewardEvents at he
    split at he
    · rw [List.mem_singleton.1 he]
      exact id
    · cases he
  cases h with
  | settled _ | rated _ =>
    rintro e (_ | ⟨_, he⟩)
    · exact id
    · exact hreward e _ _ _ he
  | released _ _ _ _ _ _ =>
    rintro e (_ | ⟨_, he⟩)
    · exact id
    · rcases List.mem_append.1 he with he | he
      · exact hreward e _ _ _ he
      · exact hreward e _ _ _ he
  | decided _ _ _ _ _ _ _ =>
    intro e he
    rcases List.mem_append.1 he with he | he
    · unfold resolveEvents at he
      split at he
      · cases he
      · exact hreward e _ _ _ he
    · rw [List.mem_singleton.1 he]
      exact id
  | evidence _ _ _ _ | voted _ _ _ _ _ _ => exact nofun
  | transferred _ _ | spent _ _ =>
    intro e he
    rw [List.mem_singleton.1 he]
    exact hx
  | _ =>
    intro e he
    rw [List.mem_singleton.1 he]
    exact id

/-- **A payload takes nothing from other accounts.** -/
theorem TxPayload.Outcome.holding_le (h : p.Outcome P a t r es r')
    (hfit : r.supply + tally Event.minted es < 2 ^ 64) (hx : a ≠ x) :
    r.holding x ≤ r'.holding x := by
  have hbal := (h.balanced hfit).account x
  obtain ⟨hsent, hspent⟩ := tally_eq_zero (h.not_takesFrom hx)
  omega

end Outcome

/-! ## Runs -/

/-- **The token ledger** of the run `l`. -/
structure TokenLedger (P : Params) (l : List Timed) : Prop where
  account : ∀ a, ((executeAll P l).store.records.holding a : ℤ) =
    tally (·.mintedTo a) (executeAll P l).events + tally (·.receivedBy a) (executeAll P l).events -
      tally (·.sentBy a) (executeAll P l).events - tally (·.spentBy a) (executeAll P l).events
  supply : ((executeAll P l).store.records.supply : ℤ) =
    tally Event.minted (executeAll P l).events - tally Event.spent (executeAll P l).events
  /-- Only a transaction of its owner takes from a balance. -/
  owner : ∀ l₁ act l₂, l = l₁ ++ act :: l₂ → ∀ a,
    (executeAll P (l₁ ++ [act])).store.records.holding a <
      (executeAll P l₁).store.records.holding a → act.1.sender = a

section Runs

variable {P : Params} {l : List Timed}

/-- What the events of a run account for, from nothing. -/
theorem executeAll_balanced (hfit : tally Event.minted (executeAll P l).events < 2 ^ 64) :
    Records.empty.Balanced (executeAll P l).events (executeAll P l).store.records := by
  refine executeAll_inv (P := P) (C := fun _ _ => True)
    (I := fun r es => tally Event.minted es < 2 ^ 64 → Records.empty.Balanced es r)
    ?_ ?_ (Runs.along_true _ l) hfit
  · intro _
    exact .of_eq rfl
  · intro x tx t es r' hI _ _ hout hfit
    rw [tally_append] at hfit
    have hbefore := hI (by omega)
    have hsupply := hbefore.supply
    have hempty : Records.empty.supply = 0 := MapSum.total_empty
    exact hbefore.trans (hout.balanced (by omega))

/-- Events are only added. -/
theorem Execution.events_execute (x : Execution) (act : Timed) :
    x.events <+: (x.execute P act).events := by
  unfold Execution.execute
  split
  · exact List.prefix_append _ _
  · exact List.prefix_rfl

theorem executeAll_events_append (P : Params) (l l' : List Timed) :
    (executeAll P l).events <+: (executeAll P (l ++ l')).events := by
  unfold executeAll
  rw [Runs.run_append]
  have hstep : ∀ (x : Execution) (act : Timed),
      (executeAll P l).events <+: x.events → True →
        (executeAll P l).events <+: (x.execute P act).events := by
    intro x act hx _
    exact hx.trans (x.events_execute act)
  exact Runs.inv_run hstep List.prefix_rfl (Runs.along_true _ l')

theorem tally_mono {f : Event → ℕ} {es es' : List Event} (h : es <+: es') :
    tally f es ≤ tally f es' := by
  obtain ⟨rest, rfl⟩ := h
  rw [tally_append]
  exact Nat.le_add_right _ _

theorem executeAll_supply (hfit : tally Event.minted (executeAll P l).events < 2 ^ 64) :
    (executeAll P l).store.records.supply + tally Event.spent (executeAll P l).events =
      tally Event.minted (executeAll P l).events := by
  have hsupply := (executeAll_balanced hfit).supply
  have hempty : Records.empty.supply = 0 := MapSum.total_empty
  omega

/-- **One transaction takes nothing from other accounts.** -/
theorem executeAll_holding_le {act : Timed} {a : Id}
    (hfit : tally Event.minted (executeAll P (l ++ [act])).events < 2 ^ 64)
    (ha : act.1.sender ≠ a) :
    (executeAll P l).store.records.holding a ≤
      (executeAll P (l ++ [act])).store.records.holding a := by
  have hbefore := executeAll_supply (P := P) (l := l)
    ((tally_mono (executeAll_events_append P l [act])).trans_lt hfit)
  rcases executeAll_step P l act with ⟨-, hsame, -⟩ | ⟨-, es, hout, hevents⟩
  · rw [hsame]
  · rw [hevents, tally_append] at hfit
    exact hout.holding_le (by omega) ha

/-- **The token ledger** holds as long as the mints of the run sum to less than `2 ^ 64`. -/
theorem token_ledger (P : Params) (l : List Timed)
    (hfit : tally Event.minted (executeAll P l).events < 2 ^ 64) : TokenLedger P l := by
  refine ⟨?_, ?_, ?_⟩
  · intro a
    have haccount := (executeAll_balanced hfit).account a
    have hempty : Records.empty.holding a = 0 := by
      simp [Records.holding, Records.balance, Records.empty, RCWBalance.holding]
    omega
  · have hsupply := executeAll_supply hfit
    omega
  · intro l₁ act l₂ hl a hlt
    by_contra hne
    subst hl
    have hpre : (executeAll P (l₁ ++ [act])).events <+:
        (executeAll P (l₁ ++ act :: l₂)).events := by
      have happ := executeAll_events_append P (l₁ ++ [act]) l₂
      rwa [List.append_assoc] at happ
    have hle := executeAll_holding_le ((tally_mono hpre).trans_lt hfit) hne
    omega

end Runs

/-- The seller settles a payment and the buyer releases the escrow; then the seller sends 3
to itself, and spends 4. -/
def toyPayments : List Timed :=
  toyTrade ++ [(.toy 2 2 (.recordSettlement 2
      { recordId := 9, grossAmount := 100, platformFee := 10, netAmount := 90, currency := 0,
        settledAt := 0 }), 10),
    (.toy 1 3 (.releaseEscrow 7 0), 20), (.toy 2 3 (.transferRCW 2 3 ""), 30),
    (.toy 2 4 (.spendRCW 4 ""), 40)]

theorem token_ledger_toy : TokenLedger .default toyPayments :=
  token_ledger .default toyPayments (by decide +kernel)

end RoutineChain
