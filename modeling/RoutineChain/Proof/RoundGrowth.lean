import RoutineChain.Proof.ViewChange

/-!
# Rounds between resets

`receive_view_change` adopts a round only above the node's own. `request_view_change` adopts
the next one, whatever it is: after the last round of the type comes round 0.

* `growsRound_iff`: a call grows the round unless it asks for the round after the last.
* `round_grows_iff`: so does every call of a sequence.
* `hasNextRound_of_named`: a node that hears of low rounds does not get to the last one.
-/

namespace RoutineChain

/-- A call that may change the round of a node between resets. -/
inductive ViewCall
  | request (height : UInt64)
  | receive (height : UInt64) (round : UInt32) (voter : Id)
  deriving DecidableEq

namespace Consensus

/-- The result of a call, and the state after it. -/
def call (c : Consensus) : ViewCall → Bool × Consensus
  | .request height => c.requestViewChange height
  | .receive height round voter => c.receiveViewChange height round voter

/-- The state after a call. -/
def afterCall (c : Consensus) (a : ViewCall) : Consensus := (c.call a).2

/-- **The round grows**: it never decreases, the call returns true exactly when it
increases, and the addition of the call is exact. -/
structure GrowsRound (c : Consensus) (a : ViewCall) : Prop where
  mono : c.round ≤ (c.afterCall a).round
  returns : (c.call a).1 = true ↔ c.round < (c.afterCall a).round
  adds : ∀ height, a = .request height → (c.round + 1).toNat = c.round.toNat + 1

/-- There is a round after the node's, if the call asks for it. -/
def HasNextRound (c : Consensus) : ViewCall → Prop
  | .request _ => c.round.toNat ≠ 2 ^ 32 - 1
  | .receive _ _ _ => True

instance (c : Consensus) : (a : ViewCall) → Decidable (c.HasNextRound a)
  | .request _ => inferInstanceAs (Decidable (_ ≠ _))
  | .receive _ _ _ => .isTrue trivial

variable {c : Consensus} {a : ViewCall}

/-! ## One call -/

/-- The round that a call votes for. -/
def votedRound (c : Consensus) : ViewCall → UInt32
  | .request _ => c.round + 1
  | .receive _ round _ => round

/-- The next round is above the node's unless the node's is the last. -/
theorem toNat_round_succ (h : c.round.toNat ≠ 2 ^ 32 - 1) :
    (c.round + 1).toNat = c.round.toNat + 1 := by
  have hlt := c.round.toNat_lt
  rw [UInt32.toNat_add, UInt32.toNat_one]
  omega

/-- **A call that returns true enters the round voted for**, and one that returns false stays. -/
theorem call_cases (c : Consensus) (a : ViewCall) :
    ((c.call a).1 = true ∧ (c.afterCall a).round = c.votedRound a ∧
      (c.HasNextRound a → c.round < c.votedRound a)) ∨
    ((c.call a).1 = false ∧ (c.afterCall a).round = c.round) := by
  cases a with
  | request height =>
    unfold afterCall
    simp only [call]
    rcases requestViewChange_cases c height with ⟨-, he⟩ | ⟨-, he⟩
    · refine .inl ⟨by rw [he], by rw [he]; rfl, ?_⟩
      intro h
      rw [UInt32.lt_iff_toNat_lt, votedRound, toNat_round_succ h]
      exact Nat.lt_succ_self _
    · exact .inr ⟨by rw [he], by rw [he]; rfl⟩
  | receive height round voter =>
    unfold afterCall
    simp only [call]
    rcases receiveViewChange_cases c height round voter with ⟨-, hlt, he⟩ | ⟨-, he⟩
    · exact .inl ⟨by rw [he], by rw [he]; rfl, fun _ => hlt⟩
    · exact .inr ⟨by rw [he], by rw [he]; rfl⟩

/-- **A call grows the round unless it asks for the round after the last.** -/
theorem growsRound_iff : c.GrowsRound a ↔ c.HasNextRound a := by
  constructor
  case mp =>
    intro h
    cases a with
    | request height =>
      intro hmax
      have hadds := h.adds height rfl
      have hlt := (c.round + 1).toNat_lt
      omega
    | receive => trivial
  case mpr =>
    intro h
    have hadds : ∀ height, a = .request height → (c.round + 1).toNat = c.round.toNat + 1 := by
      rintro height rfl
      exact toNat_round_succ h
    rcases call_cases c a with ⟨hres, hround, habove⟩ | ⟨hres, hround⟩
    · have hlt : c.round < (c.afterCall a).round := hround ▸ habove h
      exact ⟨UInt32.le_of_lt hlt, iff_of_true hres hlt, hadds⟩
    · have hnot : ¬ c.round < (c.afterCall a).round := hround ▸ UInt32.lt_irrefl _
      exact ⟨hround ▸ UInt32.le_refl _, iff_of_false (hres ▸ Bool.false_ne_true) hnot, hadds⟩

/-! ## Sequences of calls -/

/-- **The round only grows between resets** if and only if the node is not asked for the
round after the last. -/
theorem round_grows_iff (c : Consensus) (calls : List ViewCall) :
    Runs.Along afterCall GrowsRound c calls ↔ Runs.Along afterCall HasNextRound c calls :=
  ⟨fun h => h.mono fun _ _ => growsRound_iff.1, fun h => h.mono fun _ _ => growsRound_iff.2⟩

/-- The round after a call is the node's, the next one, or the one that the call names. -/
theorem round_afterCall_le {b : ℕ} (hc : c.round.toNat ≤ b)
    (ha : ∀ height round voter, a = .receive height round voter → round.toNat ≤ b) :
    (c.afterCall a).round.toNat ≤ b + 1 := by
  rcases call_cases c a with ⟨-, hround, -⟩ | ⟨-, hround⟩
  · rw [hround]
    cases a with
    | request height =>
      rw [votedRound, UInt32.toNat_add]
      exact (Nat.mod_le _ _).trans (Nat.succ_le_succ hc)
    | receive height round voter => exact (ha _ _ _ rfl).trans (Nat.le_succ _)
  · rw [hround]
    exact hc.trans (Nat.le_succ _)

/-- **Low rounds stay clear of the last one**: a node that starts at most at round `b`, and
hears of no round above, has a next round for `2 ^ 32 - 1 - b` calls. -/
theorem hasNextRound_of_named {b : ℕ} {calls : List ViewCall} (hc : c.round.toNat ≤ b)
    (hcalls : ∀ height round voter, .receive height round voter ∈ calls → round.toNat ≤ b)
    (hlen : b + calls.length < 2 ^ 32) : Runs.Along afterCall HasNextRound c calls := by
  induction calls generalizing c b with
  | nil => trivial
  | cons a calls ih =>
    rw [List.length_cons] at hlen
    refine ⟨?_, ih (b := b + 1) ?_ ?_ (by omega)⟩
    · cases a with
      | request height =>
        have hne : c.round.toNat ≠ 2 ^ 32 - 1 := by omega
        exact hne
      | receive height round voter => trivial
    · refine round_afterCall_le hc ?_
      rintro height round voter rfl
      exact hcalls _ _ _ List.mem_cons_self
    · intro height round voter hm
      exact (hcalls _ _ _ (.tail _ hm)).trans (Nat.le_succ _)

/-- Node 1 is voted into the last round by nodes 2 and 3, and asked for the next one: with a
vote for round 0 that it has kept, it returns to round 0. -/
theorem round_grows_fails : ¬ Runs.Along afterCall GrowsRound toyFollower
    [.receive 1 (.ofNat (2 ^ 32 - 1)) 2, .receive 1 (.ofNat (2 ^ 32 - 1)) 3, .receive 1 0 2,
      .request 1] := by
  intro h
  have hlast := h.2.2.2.1.mono
  revert hlast
  decide +kernel

end Consensus

end RoutineChain
