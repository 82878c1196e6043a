import RoutineChain.Proof.Counters

/-!
# The trust score

The score weighs five components, each on a scale of up to 10000, and is narrowed to 16 bits
at the end. `record_rating` stores ratings of up to 500, hundredths of a star, and the score
counts them as stars: a rating above 5 takes the rating component off its scale.

* `computeTrustScore_eq`: the score is the weighted sum of its components, narrowed.
* `scores_in_range`: with stored ratings of up to 5 every score is at most 10000, and no higher
  bound on them will do.
-/

namespace RoutineChain

open Std

/-! ## Components -/

/-- What the days of activity count. -/
def longevityTier (days : ℕ) : ℕ :=
  if days ≤ 30 then 2000 else if days ≤ 90 then 4000 else if days ≤ 180 then 6000
  else if days ≤ 365 then 8000 else 10000

/-- What the volume counts. -/
def volumeTier (volume : ℕ) : ℕ :=
  if volume = 0 then 0 else if volume ≤ 100000 then 2500 else if volume ≤ 1000000 then 5000
  else if volume ≤ 10000000 then 7500 else 10000

/-- The factor for the number of transactions. -/
def maturityTier (totalTx : ℕ) : ℕ :=
  if totalTx ≤ 9 then 3000 else if totalTx ≤ 49 then 6000 else if totalTx ≤ 99 then 8000
  else 10000

namespace Participant

variable (p : Participant)

def successScore : ℕ := p.successTx.toNat * 10000 / p.totalTx.toNat

def disputeScore : ℕ := 10000 - p.disputeCount.toNat * 10000 / p.totalTx.toNat * 3

def ratingScore : ℕ := p.ratingSum.toNat * 2000 / p.ratingCount.toNat

/-- The days of activity, on the wrapping clock. -/
def activeDays : Int64 :=
  if p.lastActivityAt > p.registeredAt then (p.lastActivityAt - p.registeredAt) / 86400 else 0

def longevityScore : ℕ :=
  if 0 ≤ p.activeDays ∧ p.activeDays ≤ 30 then 2000
  else if 31 ≤ p.activeDays ∧ p.activeDays ≤ 90 then 4000
  else if 91 ≤ p.activeDays ∧ p.activeDays ≤ 180 then 6000
  else if 181 ≤ p.activeDays ∧ p.activeDays ≤ 365 then 8000
  else 10000

/-- The weighted sum. -/
def rawTotal : ℕ :=
  p.successScore * 35 + p.disputeScore * 25 + p.ratingScore * 20 +
    volumeTier p.totalVolume.toNat * 10 + p.longevityScore * 10

/-- The weighted sum without the ratings. -/
def baseTotal : ℕ :=
  p.successScore * 35 + p.disputeScore * 25 + volumeTier p.totalVolume.toNat * 10 +
    p.longevityScore * 10

/-- **The score before it is narrowed to 16 bits.** -/
def wideScore : ℕ :=
  if p.totalTx = 0 then 0 else p.rawTotal * maturityTier p.totalTx.toNat / 10000 / 100

end Participant

section Components

variable {p : Participant}

theorem volumeTier_eq (v : UInt64) : volumeTier v.toNat =
    if v = 0 then 0 else if v ≤ 100000 then 2500 else if v ≤ 1000000 then 5000
    else if v ≤ 10000000 then 7500 else 10000 := by
  unfold volumeTier
  simp only [UInt64.le_iff_toNat_le, ← UInt64.toNat_inj, UInt64.toNat_ofNat,
    Nat.reducePow, Nat.reduceMod]

theorem maturityTier_eq (n : UInt64) : maturityTier n.toNat =
    if n ≤ 9 then 3000 else if n ≤ 49 then 6000 else if n ≤ 99 then 8000 else 10000 := by
  unfold maturityTier
  simp only [UInt64.le_iff_toNat_le, UInt64.toNat_ofNat, Nat.reducePow, Nat.reduceMod]

/-- A count of zero gives nothing to divide by: the component is as without the test. -/
theorem disputeScore_eq : p.disputeScore =
    if p.disputeCount > 0 then 10000 - p.disputeCount.toNat * 10000 / p.totalTx.toNat * 3
    else 10000 := by
  unfold Participant.disputeScore
  split
  · rfl
  next h =>
    have hzero : p.disputeCount = 0 := by simpa using h
    simp [hzero]

theorem ratingScore_eq : p.ratingScore =
    if p.ratingCount > 0 then p.ratingSum.toNat * 2000 / p.ratingCount.toNat else 0 := by
  unfold Participant.ratingScore
  split
  · rfl
  next h =>
    have hzero : p.ratingCount = 0 := by simpa using h
    simp [hzero]

/-- **The score is the weighted sum of its components, narrowed.** -/
theorem computeTrustScore_eq (p : Participant) : computeTrustScore p = .ofNat p.wideScore := by
  unfold computeTrustScore Participant.wideScore Participant.rawTotal
  rw [disputeScore_eq, ratingScore_eq, volumeTier_eq, maturityTier_eq]
  by_cases h : p.totalTx = 0
  · rw [if_pos h, if_pos h]
    rfl
  · rw [if_neg h, if_neg h]
    rfl

/-- A score that fits is not changed by the narrowing. -/
theorem toNat_computeTrustScore (h : p.wideScore < 2 ^ 16) :
    (computeTrustScore p).toNat = p.wideScore := by
  rw [computeTrustScore_eq, UInt16.toNat_ofNat_of_lt' h]

theorem volumeTier_le (v : ℕ) : volumeTier v ≤ 10000 := by
  unfold volumeTier
  split_ifs <;> omega

theorem maturityTier_le (n : ℕ) : maturityTier n ≤ 10000 := by
  unfold maturityTier
  split_ifs <;> omega

theorem longevityScore_le : p.longevityScore ≤ 10000 := by
  unfold Participant.longevityScore
  split_ifs <;> omega

theorem successScore_le (h : p.successTx.toNat ≤ p.totalTx.toNat) : p.successScore ≤ 10000 :=
  Nat.div_le_of_le_mul (Nat.mul_le_mul_right 10000 h)

/-- Ratings of up to `B` give a component of up to `2000 * B`. -/
theorem ratingScore_le {B : ℕ} (h : p.ratingSum.toNat ≤ B * p.ratingCount.toNat) :
    p.ratingScore ≤ 2000 * B := by
  refine Nat.div_le_of_le_mul ?_
  calc p.ratingSum.toNat * 2000 ≤ B * p.ratingCount.toNat * 2000 := Nat.mul_le_mul_right _ h
    _ = p.ratingCount.toNat * (2000 * B) := by
      rw [Nat.mul_comm B, Nat.mul_assoc, Nat.mul_comm B]

theorem rawTotal_eq : p.rawTotal = p.baseTotal + p.ratingScore * 20 := by
  unfold Participant.rawTotal Participant.baseTotal
  omega

theorem wideScore_eq (h : p.totalTx ≠ 0) : p.wideScore =
    (p.baseTotal + p.ratingScore * 20) * maturityTier p.totalTx.toNat / 1000000 := by
  rw [Participant.wideScore, if_neg h, rawTotal_eq, Nat.div_div_eq_div_mul]

theorem baseTotal_le (h : p.successTx.toNat ≤ p.totalTx.toNat) : p.baseTotal ≤ 800000 := by
  have hs := successScore_le h
  have hd : p.disputeScore ≤ 10000 := Nat.sub_le _ _
  have hv := volumeTier_le p.totalVolume.toNat
  have hl := longevityScore_le (p := p)
  unfold Participant.baseTotal
  omega

/-- The score when the rating component is at most `c`. -/
theorem wideScore_le {c : ℕ} (h : p.successTx.toNat ≤ p.totalTx.toNat) (hc : p.ratingScore ≤ c) :
    p.wideScore ≤ (800000 + c * 20) * maturityTier p.totalTx.toNat / 1000000 := by
  have hbase := baseTotal_le h
  by_cases htotal : p.totalTx = 0
  · rw [Participant.wideScore, if_pos htotal]
    exact Nat.zero_le _
  · rw [wideScore_eq htotal]
    exact Nat.div_le_div_right (Nat.mul_le_mul_right _ (by omega))

/-- **With ratings of up to 5 the score keeps its scale.** -/
theorem Participant.Counted.wideScore_le {k : ℕ} (h : p.Counted 5 k) : p.wideScore ≤ 10000 := by
  have hle := RoutineChain.wideScore_le h.success (ratingScore_le h.sum)
  have hm := Nat.mul_le_mul_left (800000 + 2000 * 5 * 20) (maturityTier_le p.totalTx.toNat)
  omega

end Components

/-! ## The range of the score -/

/-- In every state of the run every score is at most 10000 before it is narrowed. -/
def ScoresInRange (P : Params) (l : List Timed) : Prop :=
  ∀ l₁, l₁ <+: l → ∀ (a : Id) (p : Participant),
    (executeAll P l₁).store.records.participants[a]? = some p → p.wideScore ≤ 10000

/-- Participant 1 settles a hundred payments, over more than a year of the score's clock. -/
def toyVeteran : List Timed :=
  (.toy 1 1 (.registerParticipant 1 .seller ""), 0) :: (List.range 100).map fun i =>
    (.toy 1 (.ofNat (i + 2)) (.recordSettlement 1
      { recordId := .ofNat 256 i, grossAmount := 1000000, platformFee := 0, netAmount := 0,
        currency := 0, settledAt := 0 }), 86400 * 366)

/-- What has been recorded of participant 1. -/
def Participant.toyVeteran : Participant :=
  { id := 1, pType := 1, metadata := "", totalTx := 100, successTx := 100, disputeCount := 0,
    disputeWon := 0, ratingSum := 0, ratingCount := 0, totalVolume := 100000000,
    totalSettled := 0, registeredAt := 0, lastActivityAt := 86400 * 366, isActive := true }

theorem executeAll_toyVeteran :
    (executeAll .default toyVeteran).store.records.participants[(1 : Id)]? =
      some .toyVeteran := by
  decide +kernel

/-- Another account rates the veteran. -/
def Timed.toyRating (n : UInt16) : Timed := (.toy 2 1 (.recordRating 1 n true), 86400 * 366)

/-- The veteran with one rating. -/
def Participant.toyRated (n : UInt16) : Participant :=
  { Participant.toyVeteran with ratingSum := n.toUInt64, ratingCount := 1 }

theorem rated_toyVeteran {n : UInt16} (h0 : n > 0) (h500 : n ≤ 500) :
    Participant.toyVeteran.rated n true (86400 * 366) = .toyRated n := by
  simp [Participant.rated, h0, h500, Participant.toyRated, Participant.toyVeteran]

/-- **A single rating above 5 takes the best score off the scale.** -/
theorem wideScore_toyRated {n : UInt16} (h5 : 5 < n.toNat) :
    10000 < (Participant.toyRated n).wideScore := by
  have htotal : (Participant.toyRated n).totalTx ≠ 0 := by
    show (100 : UInt64) ≠ 0
    decide
  have hbase : (Participant.toyRated n).baseTotal = 800000 := by
    show Participant.toyVeteran.baseTotal = 800000
    decide
  have hrating : (Participant.toyRated n).ratingScore = n.toNat * 2000 := by
    simp [Participant.ratingScore, Participant.toyRated]
  rw [wideScore_eq htotal, hbase, hrating]
  show 10000 < (800000 + n.toNat * 2000 * 20) * 10000 / 1000000
  omega

/-- The rating of the veteran is stored. -/
theorem executeAll_toyRating (n : UInt16) :
    (executeAll .default (toyVeteran ++ [.toyRating n])).store.records.participants[(1 : Id)]? =
      some (Participant.toyVeteran.rated n true (86400 * 366)) := by
  have hfresh : (Timed.toyRating n).1.Fresh (executeAll .default toyVeteran).store := by
    show (executeAll .default toyVeteran).store.getNonce 2 < 1
    decide +kernel
  have hrun := Settlement.recordRating_run executeAll_toyVeteran n true (86400 * 366)
    Params.default.rewards.ratingSubmitted
  rw [executeAll_append_one, Execution.execute_records hfresh]
  show (EStateM.after (Settlement.recordRating 1 n true (86400 * 366)
    Params.default.rewards.ratingSubmitted) _).participants[(1 : Id)]? = _
  rw [EStateM.after_ok hrun, Records.reward_participants, Records.putParticipant_participants,
    Table.get_insert, if_pos rfl]

theorem toyVeteran_ratesUpTo (B : ℕ) : ∀ act ∈ toyVeteran, act.1.payload.RatesUpTo B := by
  intro act hact
  rcases List.mem_cons.1 hact with rfl | hact
  · trivial
  · obtain ⟨i, -, rfl⟩ := List.mem_map.1 hact
    trivial

/-- A run without higher ratings stores none. -/
theorem along_of_ratesUpTo {P : Params} {B : ℕ} {l : List Timed}
    (h : ∀ act ∈ l, act.1.payload.RatesUpTo B) :
    Runs.Along (Execution.execute P) (StoresRatesUpTo P B) { store := .empty } l :=
  (Runs.along_of_forall h _).mono fun _ _ hact _ => hact

/-- Any stored rating above 5 takes a score off the scale in some run with no other rating. -/
theorem toyRating_leaves_range {n : UInt16} (h5 : 5 < n.toNat) (h500 : n ≤ 500) :
    ¬ ScoresInRange .default (toyVeteran ++ [.toyRating n]) := by
  intro hrange
  have hle := hrange _ List.prefix_rfl 1 _ (executeAll_toyRating n)
  have hpos : n > 0 := UInt16.lt_iff_toNat_lt.2 (Nat.lt_of_le_of_lt (Nat.zero_le 5) h5)
  rw [rated_toyVeteran hpos h500] at hle
  exact absurd hle (Nat.not_le.2 (wideScore_toyRated h5))

/-- **Every score is at most 10000, in all runs that store no rating above 5**, and no higher
bound on the stored ratings will do. -/
theorem scores_in_range (B : ℕ) :
    (∀ P l, l.length < 2 ^ 50 →
      Runs.Along (Execution.execute P) (StoresRatesUpTo P B) { store := .empty } l →
      ScoresInRange P l) ↔ B ≤ 5 := by
  constructor
  · intro hall
    by_contra hB
    have hrates : ∀ act ∈ toyVeteran ++ [Timed.toyRating 6], act.1.payload.RatesUpTo B := by
      intro act hact
      rcases List.mem_append.1 hact with hact | hact
      · exact toyVeteran_ratesUpTo B act hact
      · rw [List.mem_singleton.1 hact]
        exact fun _ => Nat.lt_of_not_le hB
    have hlen : (toyVeteran ++ [Timed.toyRating 6]).length < 2 ^ 50 := by
      show toyVeteran.length + 1 < 2 ^ 50
      decide
    exact toyRating_leaves_range (by decide) (by decide)
      (hall .default _ hlen (along_of_ratesUpTo hrates))
  · intro hB P l hl hrates l₁ hpre a p hp
    have hlen : l₁.length < 2 ^ 50 := hpre.length_le.trans_lt hl
    have hfive : Runs.Along (Execution.execute P) (StoresRatesUpTo P 5) { store := .empty } l₁ :=
      (hrates.initial hpre).mono fun x act hact hs => (hact hs).mono hB
    exact (executeAll_counted (by decide : 5 ≤ 500) hlen hfive a p hp).wideScore_le

/-- Participant 1 settles one payment and is rated with `n`. -/
def toyRated (n : UInt16) : List Timed :=
  [(.toyRegister, 0), (.toySettlement, 0), (.toy 2 1 (.recordRating 1 n true), 0)]

/-- The highest rating comes twice and is refused: before the participant has registered, and
with the nonce of the rating that is stored. -/
theorem scores_in_range_toy : ScoresInRange .default ((.toy 3 1 (.recordRating 1 500 true), 0) ::
    toyRated 5 ++ [(.toy 2 1 (.recordRating 1 500 true), 0)]) :=
  (scores_in_range 5).2 le_rfl .default _ (by decide) (by decide +kernel)

/-- The highest rating gives a score above six times the scale. -/
theorem scores_in_range_fails : ¬ ∀ P l, l.length < 2 ^ 50 → ScoresInRange P l := by
  intro hall
  have hscore : (executeAll .default (toyRated 500)).store.records.participants[(1 : Id)]?.map
      (·.wideScore) = some 61935 := by
    decide +kernel
  obtain ⟨p, hp, hwide⟩ := Option.map_eq_some_iff.1 hscore
  have hle := hall .default (toyRated 500) (by decide) _ List.prefix_rfl 1 p hp
  omega

end RoutineChain
