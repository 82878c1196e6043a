import Mathlib.Logic.Relation
import RoutineChain.Proof.TrustScore

/-!
# The order of trust scores

Better behaviour should not lower the score. Before it is narrowed the score is monotone in
each of its arguments, as long as the activity of a participant can be counted in days
(`Improves.wideScore_le`). Two things break this: the narrowing, once the ratings take the
score past `2 ^ 16`, and the clock, once the activity spans all but a day of the 64 bits.

`score_monotone_iff` says that nothing else does.
-/

namespace RoutineChain

/-! ## The clock -/

/-- The time from registration to the last activity. -/
def Participant.activeTime (p : Participant) : ℤ := p.lastActivityAt.toInt - p.registeredAt.toInt

/-- The activity spans at most all but a day of the 64 bits. -/
def Participant.ClockFits (p : Participant) : Prop := p.activeTime ≤ 2 ^ 64 - 86400

instance (p : Participant) : Decidable p.ClockFits := inferInstanceAs (Decidable (_ ≤ _))

section Clock

variable {p : Participant}

/-- The days of activity, as they are counted. From `2 ^ 63` on the difference is negative. -/
theorem toInt_activeDays (p : Participant) : p.activeDays.toInt =
    if p.activeTime ≤ 0 then 0
    else if p.activeTime < 2 ^ 63 then p.activeTime / 86400
    else -((2 ^ 64 - p.activeTime) / 86400) := by
  have hlo := p.lastActivityAt.le_toInt
  have hhi := p.lastActivityAt.toInt_lt
  have hlo' := p.registeredAt.le_toInt
  have hhi' := p.registeredAt.toInt_lt
  unfold Participant.activeDays Participant.activeTime
  simp only [gt_iff_lt, Int64.lt_iff_toInt_lt]
  by_cases hlt : p.registeredAt.toInt < p.lastActivityAt.toInt
  · rw [if_pos hlt, if_neg (by omega), Int64.toInt_div_of_ne_right _ _ (by decide), Int64.toInt_sub]
    show Int.tdiv _ 86400 = _
    by_cases hfit : p.lastActivityAt.toInt - p.registeredAt.toInt < 2 ^ 63
    · rw [if_pos hfit, Int.bmod_eq_of_le (by omega) (by omega)]
      exact Int.tdiv_eq_ediv_of_nonneg (by omega)
    · have hwrap : (p.lastActivityAt.toInt - p.registeredAt.toInt).bmod (2 ^ 64) =
          -(2 ^ 64 - (p.lastActivityAt.toInt - p.registeredAt.toInt)) := by
        rw [Int.bmod_eq_iff (by decide)]
        omega
      rw [if_neg hfit, hwrap, Int.neg_tdiv, Int.tdiv_eq_ediv_of_nonneg (by omega)]
  · rw [if_neg hlt, if_pos (by omega)]
    rfl

theorem longevityScore_eq_days (p : Participant) : p.longevityScore =
    if 0 ≤ p.activeDays.toInt then longevityTier p.activeDays.toInt.toNat else 10000 := by
  have h30 : (30 : Int64).toInt = 30 := rfl
  have h31 : (31 : Int64).toInt = 31 := rfl
  have h90 : (90 : Int64).toInt = 90 := rfl
  have h91 : (91 : Int64).toInt = 91 := rfl
  have h180 : (180 : Int64).toInt = 180 := rfl
  have h181 : (181 : Int64).toInt = 181 := rfl
  have h365 : (365 : Int64).toInt = 365 := rfl
  unfold Participant.longevityScore longevityTier
  simp only [Int64.le_iff_toInt_le, Int64.toInt_zero, h30, h31, h90, h91, h180, h181, h365]
  split_ifs <;> omega

/-- **As long as the clock fits, the tier is that of the whole days of activity.** -/
theorem longevityScore_eq (h : p.ClockFits) :
    p.longevityScore = longevityTier (p.activeTime.toNat / 86400) := by
  unfold Participant.ClockFits at h
  rw [longevityScore_eq_days, toInt_activeDays]
  by_cases hle : p.activeTime ≤ 0
  · rw [if_pos hle, if_pos (by omega), Int.toNat_of_nonpos hle]
    rfl
  rw [if_neg hle]
  by_cases hfit : p.activeTime < 2 ^ 63
  · rw [if_pos hfit, if_pos (by omega)]
    congr 1
    omega
  -- The count is negative and falls to the last tier, which is the right one.
  · rw [if_neg hfit, if_neg (by omega), longevityTier, if_neg (by omega), if_neg (by omega),
      if_neg (by omega), if_neg (by omega)]

/-- Where the clock does not fit, the longest activity counts as none. -/
theorem longevityScore_of_not_fits (h : ¬ p.ClockFits) : p.longevityScore = 2000 := by
  have hlo := p.registeredAt.le_toInt
  have hhi := p.lastActivityAt.toInt_lt
  unfold Participant.ClockFits at h
  have htime : p.activeTime < 2 ^ 64 := by
    unfold Participant.activeTime
    omega
  have hzero : p.activeDays.toInt = 0 := by
    rw [toInt_activeDays, if_neg (by omega), if_neg (by omega)]
    omega
  rw [longevityScore_eq_days, hzero]
  rfl

theorem longevityTier_mono {d d' : ℕ} (h : d ≤ d') : longevityTier d ≤ longevityTier d' := by
  unfold longevityTier
  split_ifs <;> omega

theorem volumeTier_mono {v v' : ℕ} (h : v ≤ v') : volumeTier v ≤ volumeTier v' := by
  unfold volumeTier
  split_ifs <;> omega

theorem maturityTier_mono {n n' : ℕ} (h : n ≤ n') : maturityTier n ≤ maturityTier n' := by
  unfold maturityTier
  split_ifs <;> omega

end Clock

/-! ## Better records -/

/-- The records that the law is about. -/
structure Participant.Sound (p : Participant) : Prop where
  traded : 0 < p.totalTx.toNat
  success : p.successTx.toNat ≤ p.totalTx.toNat
  rating : p.ratingSum.toNat ≤ 500 * p.ratingCount.toNat

/-- **One record is better than another in one respect**, and equal in all others. -/
inductive Participant.Improves : Participant → Participant → Prop
  | success {p n} (h : p.successTx ≤ n) : Improves p { p with successTx := n }
  | rating {p n} (h : p.ratingSum ≤ n) : Improves p { p with ratingSum := n }
  | volume {p n} (h : p.totalVolume ≤ n) : Improves p { p with totalVolume := n }
  | activity {p t} (h : p.lastActivityAt ≤ t) : Improves p { p with lastActivityAt := t }
  | dispute {p n} (h : n ≤ p.disputeCount) : Improves p { p with disputeCount := n }
  | scaled {p} {k : ℕ} (hk : 0 < k) (hd : p.disputeCount = 0)
      (htotal : k * p.totalTx.toNat < 2 ^ 64) (hsuccess : k * p.successTx.toNat < 2 ^ 64) :
    Improves p { p with
      totalTx := .ofNat (k * p.totalTx.toNat), successTx := .ofNat (k * p.successTx.toNat) }

section Improves

variable {p p' q : Participant}

theorem Participant.Sound.totalTx_ne (h : p.Sound) : p.totalTx ≠ 0 := by
  intro hzero
  have hpos := h.traded
  rw [hzero] at hpos
  exact absurd hpos (by decide)

/-- The score grows with its parts. -/
theorem wideScore_mono (h0 : p.totalTx ≠ 0 → p'.totalTx ≠ 0) (hbase : p.baseTotal ≤ p'.baseTotal)
    (hrating : p.ratingScore ≤ p'.ratingScore) (htotal : p.totalTx.toNat ≤ p'.totalTx.toNat) :
    p.wideScore ≤ p'.wideScore := by
  by_cases h : p.totalTx = 0
  · rw [Participant.wideScore, if_pos h]
    exact Nat.zero_le _
  · rw [wideScore_eq h, wideScore_eq (h0 h)]
    exact Nat.div_le_div_right (Nat.mul_le_mul (by omega) (maturityTier_mono htotal))

/-- The part of the score without ratings grows with its components. -/
theorem baseTotal_mono (hs : p.successScore ≤ p'.successScore)
    (hd : p.disputeScore ≤ p'.disputeScore) (hv : p.totalVolume.toNat ≤ p'.totalVolume.toNat)
    (hl : p.longevityScore ≤ p'.longevityScore) : p.baseTotal ≤ p'.baseTotal := by
  have hv' := volumeTier_mono hv
  unfold Participant.baseTotal
  omega

/-- **A better record has no lower score before it is narrowed**, as long as its clock fits. -/
theorem Participant.Improves.wideScore_le (h : p.Improves p') (hclock : p'.ClockFits) :
    p.wideScore ≤ p'.wideScore := by
  cases h with
  | success h =>
    have hs : p.successTx.toNat ≤ _ := UInt64.le_iff_toNat_le.1 h
    refine wideScore_mono (fun h0 => h0)
      (baseTotal_mono ?_ (Nat.le_refl _) (Nat.le_refl _) (Nat.le_refl _))
      (Nat.le_refl _) (Nat.le_refl _)
    exact Nat.div_le_div_right (Nat.mul_le_mul_right _ hs)
  | rating h =>
    have hr : p.ratingSum.toNat ≤ _ := UInt64.le_iff_toNat_le.1 h
    refine wideScore_mono (fun h0 => h0) (Nat.le_refl _) ?_ (Nat.le_refl _)
    exact Nat.div_le_div_right (Nat.mul_le_mul_right _ hr)
  | volume h =>
    exact wideScore_mono (fun h0 => h0) (baseTotal_mono (Nat.le_refl _) (Nat.le_refl _)
      (UInt64.le_iff_toNat_le.1 h) (Nat.le_refl _)) (Nat.le_refl _) (Nat.le_refl _)
  | @activity t h =>
    have ht : p.activeTime ≤ ({ p with lastActivityAt := t } : Participant).activeTime :=
      Int.sub_le_sub_right (Int64.le_iff_toInt_le.1 h) _
    refine wideScore_mono (fun h0 => h0)
      (baseTotal_mono (Nat.le_refl _) (Nat.le_refl _) (Nat.le_refl _) ?_)
      (Nat.le_refl _) (Nat.le_refl _)
    rw [longevityScore_eq (ht.trans hclock), longevityScore_eq hclock]
    exact longevityTier_mono (Nat.div_le_div_right (Int.toNat_le_toNat ht))
  | @dispute n h =>
    have hd : n.toNat * 10000 / p.totalTx.toNat ≤
        p.disputeCount.toNat * 10000 / p.totalTx.toNat :=
      Nat.div_le_div_right (Nat.mul_le_mul_right _ (UInt64.le_iff_toNat_le.1 h))
    refine wideScore_mono (fun h0 => h0)
      (baseTotal_mono (Nat.le_refl _) ?_ (Nat.le_refl _) (Nat.le_refl _))
      (Nat.le_refl _) (Nat.le_refl _)
    exact Nat.sub_le_sub_left (Nat.mul_le_mul_right _ hd) _
  | @scaled k hk hd htotal hsuccess =>
    have ht : (UInt64.ofNat (k * p.totalTx.toNat)).toNat = k * p.totalTx.toNat :=
      UInt64.toNat_ofNat_of_lt' htotal
    have hs : (UInt64.ofNat (k * p.successTx.toNat)).toNat = k * p.successTx.toNat :=
      UInt64.toNat_ofNat_of_lt' hsuccess
    refine wideScore_mono ?_ (baseTotal_mono ?_ ?_ (Nat.le_refl _) (Nat.le_refl _))
      (Nat.le_refl _) ?_
    · intro h0 hzero
      have hzero' := congrArg UInt64.toNat hzero
      rw [ht, UInt64.toNat_zero, Nat.mul_eq_zero] at hzero'
      exact h0 (UInt64.toNat_inj.1 (hzero'.resolve_left hk.ne'))
    -- the rate of success stays
    · simp only [Participant.successScore, ht, hs, Nat.mul_assoc]
      rw [Nat.mul_div_mul_left _ _ hk]
    · simp [Participant.disputeScore, hd]
    · show p.totalTx.toNat ≤ (UInt64.ofNat (k * p.totalTx.toNat)).toNat
      rw [ht]
      exact Nat.le_mul_of_pos_left _ hk

/-- The clock of a worse record fits as well. -/
theorem Participant.Improves.clockFits (h : p.Improves p') (hclock : p'.ClockFits) :
    p.ClockFits := by
  cases h with
  | activity h =>
    exact (Int.sub_le_sub_right (Int64.le_iff_toInt_le.1 h) _).trans hclock
  | _ => exact hclock

/-- The record is worse in any number of respects. -/
abbrev Participant.Below : Participant → Participant → Prop :=
  Relation.ReflTransGen Participant.Improves

theorem Participant.Below.wideScore_le (h : p.Below q) (hclock : q.ClockFits) :
    p.ClockFits ∧ p.wideScore ≤ q.wideScore := by
  induction h using Relation.ReflTransGen.head_induction_on with
  | refl => exact ⟨hclock, Nat.le_refl _⟩
  | head h _ ih => exact ⟨h.clockFits ih.1, (h.wideScore_le ih.1).trans ih.2⟩

/-- **The score is monotone up to `q`**: it does not drop from one record to a better one, for
all of the records that are no better than `q`. -/
def MonotoneUpTo (q : Participant) : Prop :=
  ∀ p p', p.Sound → p'.Sound → p'.Below q → p.Improves p' →
    computeTrustScore p ≤ computeTrustScore p'

theorem monotoneUpTo_of_fits (hfit : q.wideScore < 2 ^ 16) (hclock : q.ClockFits) :
    MonotoneUpTo q := by
  intro p p' _ _ hbelow himp
  obtain ⟨hclock', hle'⟩ := hbelow.wideScore_le hclock
  have hle := himp.wideScore_le hclock'
  rw [UInt16.le_iff_toNat_le, toNat_computeTrustScore (by omega),
    toNat_computeTrustScore (by omega)]
  exact hle

end Improves

/-! ## Where the order breaks -/

section Breaks

variable {q : Participant} {n : ℕ}

/-- The record with another sum of ratings. -/
def Participant.withRatings (q : Participant) (n : ℕ) : Participant :=
  { q with ratingSum := .ofNat n }

theorem Participant.withRatings_self (q : Participant) :
    q.withRatings q.ratingSum.toNat = q := by
  rw [withRatings, UInt64.ofNat_toNat]

theorem wideScore_withRatings (h0 : q.totalTx ≠ 0) (hn : n < 2 ^ 64) :
    (q.withRatings n).wideScore =
      (q.baseTotal + n * 2000 / q.ratingCount.toNat * 20) * maturityTier q.totalTx.toNat /
        1000000 := by
  have hrating : (q.withRatings n).ratingScore = n * 2000 / q.ratingCount.toNat := by
    rw [Participant.ratingScore, Participant.withRatings, UInt64.toNat_ofNat_of_lt' hn]
  have htotal : (q.withRatings n).totalTx ≠ 0 := h0
  rw [wideScore_eq htotal, hrating]
  rfl

/-- One more in the sum of ratings moves the score by at most 400. -/
theorem wideScore_withRatings_succ (h0 : q.totalTx ≠ 0) (hn : n + 1 < 2 ^ 64) :
    (q.withRatings (n + 1)).wideScore ≤ (q.withRatings n).wideScore + 400 := by
  have hrating : (n + 1) * 2000 / q.ratingCount.toNat ≤ n * 2000 / q.ratingCount.toNat + 2000 := by
    rcases Nat.eq_zero_or_pos q.ratingCount.toNat with hzero | hpos
    · simp [hzero]
    · rw [← Nat.add_mul_div_right _ _ hpos, Nat.succ_mul]
      exact Nat.div_le_div_right (Nat.add_le_add_left (Nat.le_mul_of_pos_right _ hpos) _)
  have hm := Nat.mul_le_mul_left 40000 (maturityTier_le q.totalTx.toNat)
  have hraw : (q.baseTotal + (n + 1) * 2000 / q.ratingCount.toNat * 20) *
        maturityTier q.totalTx.toNat ≤
      (q.baseTotal + n * 2000 / q.ratingCount.toNat * 20) * maturityTier q.totalTx.toNat +
        40000 * maturityTier q.totalTx.toNat := by
    rw [← Nat.add_mul]
    exact Nat.mul_le_mul_right _ (by omega)
  rw [wideScore_withRatings h0 hn, wideScore_withRatings h0 (by omega)]
  omega

/-- A sequence that passes `c` does so from one index to the next. -/
theorem exists_crossing {f : ℕ → ℕ} {c s : ℕ} (h0 : f 0 < c) (hs : c ≤ f s) :
    ∃ n < s, f n < c ∧ c ≤ f (n + 1) := by
  induction s with
  | zero => omega
  | succ s ih =>
    by_cases h : c ≤ f s
    · obtain ⟨n, hn, hlt, hle⟩ := ih h
      exact ⟨n, by omega, hlt, hle⟩
    · exact ⟨s, by omega, by omega, hs⟩

/-- **Once the score passes `2 ^ 16` it drops somewhere on the way up**, where one more in the
sum of ratings takes it past the narrowing. -/
theorem not_monotoneUpTo_of_wide (h : q.Sound) (hwide : 2 ^ 16 ≤ q.wideScore) :
    ¬ MonotoneUpTo q := by
  have h0 := h.totalTx_ne
  have hlow : (q.withRatings 0).wideScore < 2 ^ 16 := by
    have hbase := baseTotal_le h.success
    have hm := Nat.mul_le_mul hbase (maturityTier_le q.totalTx.toNat)
    rw [wideScore_withRatings h0 (by decide), Nat.zero_mul, Nat.zero_div, Nat.zero_mul,
      Nat.add_zero]
    omega
  have hhigh : 2 ^ 16 ≤ (q.withRatings q.ratingSum.toNat).wideScore := by
    rw [q.withRatings_self]
    exact hwide
  obtain ⟨n, hn, hlt, hle⟩ :=
    exists_crossing (f := fun n => (q.withRatings n).wideScore) hlow hhigh
  have hs64 := q.ratingSum.toNat_lt
  have hstep := wideScore_withRatings_succ (n := n) h0 (by omega)
  have hsum : ∀ m, m < 2 ^ 64 → (q.withRatings m).ratingSum.toNat = m :=
    fun m hm => UInt64.toNat_ofNat_of_lt' hm
  have hsound : ∀ m, m ≤ q.ratingSum.toNat → (q.withRatings m).Sound := by
    intro m hm
    refine ⟨h.traded, h.success, ?_⟩
    rw [hsum m (by omega)]
    exact hm.trans h.rating
  intro hmono
  have himp : (q.withRatings n).Improves (q.withRatings (n + 1)) := by
    refine Participant.Improves.rating (p := q.withRatings n) ?_
    show (q.withRatings n).ratingSum ≤ (q.withRatings (n + 1)).ratingSum
    rw [UInt64.le_iff_toNat_le, hsum n (by omega), hsum (n + 1) (by omega)]
    omega
  have hbelow : (q.withRatings (n + 1)).Below q := by
    refine .single (Participant.Improves.rating (p := q.withRatings (n + 1)) ?_)
    rw [UInt64.le_iff_toNat_le, hsum (n + 1) (by omega)]
    omega
  have hscore := hmono _ _ (hsound n (by omega)) (hsound (n + 1) (by omega)) hbelow himp
  rw [UInt16.le_iff_toNat_le, toNat_computeTrustScore hlt, computeTrustScore_eq,
    UInt16.toNat_ofNat'] at hscore
  omega

/-- The record, had its last activity been at time zero. -/
def Participant.atZero (q : Participant) : Participant := { q with lastActivityAt := 0 }

theorem activeTime_atZero (q : Participant) : q.atZero.activeTime = -q.registeredAt.toInt := by
  have hzero : q.atZero.lastActivityAt.toInt = 0 := Int64.toInt_zero
  have hreg : q.atZero.registeredAt = q.registeredAt := rfl
  rw [Participant.activeTime, hzero, hreg, Int.zero_sub]

/-- Where the clock does not fit, the time at zero is half of the range or more. -/
theorem activeTime_of_not_fits (hclock : ¬ q.ClockFits) :
    2 ^ 63 - 86400 < q.atZero.activeTime ∧ 0 < q.lastActivityAt.toInt := by
  have hlo := q.registeredAt.le_toInt
  have hhi := q.lastActivityAt.toInt_lt
  unfold Participant.ClockFits Participant.activeTime at hclock
  rw [activeTime_atZero]
  omega

theorem clockFits_atZero (q : Participant) : q.atZero.ClockFits := by
  have hlo := q.registeredAt.le_toInt
  rw [Participant.ClockFits, activeTime_atZero]
  omega

theorem improves_atZero (hclock : ¬ q.ClockFits) : q.atZero.Improves q := by
  refine Participant.Improves.activity (p := q.atZero) ?_
  have hzero : q.atZero.lastActivityAt.toInt = 0 := Int64.toInt_zero
  rw [Int64.le_iff_toInt_le, hzero]
  exact (activeTime_of_not_fits hclock).2.le

theorem baseTotal_atZero (hclock : ¬ q.ClockFits) :
    q.atZero.baseTotal = q.baseTotal + 80000 := by
  have htime := (activeTime_of_not_fits hclock).1
  have hlong : q.atZero.longevityScore = 10000 := by
    rw [longevityScore_eq (clockFits_atZero q), longevityTier, if_neg (by omega),
      if_neg (by omega), if_neg (by omega), if_neg (by omega)]
  have hsuccess : q.atZero.successScore = q.successScore := rfl
  have hdispute : q.atZero.disputeScore = q.disputeScore := rfl
  have hvolume : q.atZero.totalVolume = q.totalVolume := rfl
  have hshort := longevityScore_of_not_fits hclock
  unfold Participant.baseTotal
  rw [hsuccess, hdispute, hvolume]
  omega

theorem wideScore_lt_atZero (h0 : q.totalTx ≠ 0) (hclock : ¬ q.ClockFits) :
    q.wideScore < q.atZero.wideScore := by
  have h0' : q.atZero.totalTx ≠ 0 := h0
  have hrating : q.atZero.ratingScore = q.ratingScore := rfl
  have htotal : q.atZero.totalTx = q.totalTx := rfl
  have hm : 3000 ≤ maturityTier q.totalTx.toNat := by
    unfold maturityTier
    split_ifs <;> omega
  have hgain := Nat.mul_le_mul_left 80000 hm
  have hsplit : (q.baseTotal + 80000 + q.ratingScore * 20) * maturityTier q.totalTx.toNat =
      (q.baseTotal + q.ratingScore * 20) * maturityTier q.totalTx.toNat +
        80000 * maturityTier q.totalTx.toNat := by
    rw [← Nat.add_mul, Nat.add_right_comm]
  rw [wideScore_eq h0', baseTotal_atZero hclock, hrating, htotal, wideScore_eq h0, hsplit]
  omega

/-- **Where the clock does not fit, the latest activity lowers the score.** -/
theorem not_monotoneUpTo_of_clock (h : q.Sound) (hclock : ¬ q.ClockFits) : ¬ MonotoneUpTo q := by
  have himp := improves_atZero hclock
  have hsound : q.atZero.Sound := ⟨h.traded, h.success, h.rating⟩
  intro hmono
  by_cases hwide : 2 ^ 16 ≤ q.atZero.wideScore
  · refine not_monotoneUpTo_of_wide hsound hwide fun p₁ p₂ h₁ h₂ hbelow => ?_
    exact hmono p₁ p₂ h₁ h₂ (hbelow.tail himp)
  · have hlt := wideScore_lt_atZero h.totalTx_ne hclock
    have hscore := hmono q.atZero q hsound h .refl himp
    rw [UInt16.le_iff_toNat_le, toNat_computeTrustScore (by omega),
      toNat_computeTrustScore (by omega)] at hscore
    omega

end Breaks

/-! ## The room for ratings -/

/-- The rating component that the other fields of the record leave room for. -/
def Participant.ratingRoom (p : Participant) : ℕ :=
  ((2 ^ 16 * 1000000 - 1) / maturityTier p.totalTx.toNat - p.baseTotal) / 20

/-- **The mean rating stays within the room** that the other fields leave. -/
def Participant.RatingsFit (p : Participant) : Prop :=
  p.ratingSum.toNat * 2000 / p.ratingCount.toNat ≤ p.ratingRoom

instance (p : Participant) : Decidable p.RatingsFit := inferInstanceAs (Decidable (_ ≤ _))

section Room

variable {q : Participant}

theorem ratingsFit_iff (h : q.Sound) : q.RatingsFit ↔ q.wideScore < 2 ^ 16 := by
  have hpos : 0 < maturityTier q.totalTx.toNat := by
    unfold maturityTier
    split_ifs <;> omega
  have hbase : q.baseTotal ≤ (2 ^ 16 * 1000000 - 1) / maturityTier q.totalTx.toNat := by
    rw [Nat.le_div_iff_mul_le hpos]
    have hm := Nat.mul_le_mul (baseTotal_le h.success) (maturityTier_le q.totalTx.toNat)
    omega
  have hraw : q.baseTotal + q.ratingScore * 20 ≤
        (2 ^ 16 * 1000000 - 1) / maturityTier q.totalTx.toNat ↔
      (q.baseTotal + q.ratingScore * 20) * maturityTier q.totalTx.toNat ≤ 2 ^ 16 * 1000000 - 1 :=
    Nat.le_div_iff_mul_le hpos
  have hrating : q.ratingSum.toNat * 2000 / q.ratingCount.toNat = q.ratingScore := rfl
  rw [Participant.RatingsFit, Participant.ratingRoom, Nat.le_div_iff_mul_le (by decide), hrating,
    wideScore_eq h.totalTx_ne, Nat.div_lt_iff_lt_mul (by decide)]
  omega

/-- A mean rating of 143 or less always fits. -/
theorem ratingsFit_of_mean (h : q.Sound)
    (hmean : q.ratingSum.toNat ≤ 143 * q.ratingCount.toNat) : q.RatingsFit := by
  have hle := wideScore_le h.success (ratingScore_le hmean)
  have hm := Nat.mul_le_mul_left (800000 + 2000 * 143 * 20) (maturityTier_le q.totalTx.toNat)
  rw [ratingsFit_iff h]
  omega

/-- So does every rating of a participant with fewer than ten transactions. -/
theorem ratingsFit_of_young (h : q.Sound) (hyoung : q.totalTx.toNat ≤ 9) : q.RatingsFit := by
  have hle := wideScore_le h.success (ratingScore_le h.rating)
  rw [maturityTier, if_pos hyoung] at hle
  rw [ratingsFit_iff h]
  omega

end Room

/-- **The score is monotone up to a record** exactly if that record's mean rating stays within
the room that its other fields leave, and its activity can be counted in days. -/
theorem score_monotone_iff {q : Participant} (h : q.Sound) :
    MonotoneUpTo q ↔ q.RatingsFit ∧ q.ClockFits := by
  rw [ratingsFit_iff h]
  constructor
  · intro hmono
    refine ⟨?_, ?_⟩
    · by_contra hwide
      exact not_monotoneUpTo_of_wide h (Nat.not_lt.1 hwide) hmono
    · by_contra hclock
      exact not_monotoneUpTo_of_clock h hclock hmono
  · rintro ⟨hfit, hclock⟩
    exact monotoneUpTo_of_fits hfit hclock

/-- Up to the veteran with a mean rating of 5 the score is monotone. -/
theorem score_monotone_iff_toy : MonotoneUpTo (.toyRated 5) :=
  (score_monotone_iff ⟨by decide, by decide, by decide⟩).2 ⟨by decide, by decide⟩

/-- With a rating of 144 the veteran's score is below what it is with 143. -/
theorem score_monotone_fails : ¬ ∀ p p' : Participant, p.Sound → p'.Sound → p.Improves p' →
    computeTrustScore p ≤ computeTrustScore p' := by
  intro hall
  have himp : (Participant.toyRated 143).Improves (.toyRated 144) :=
    Participant.Improves.rating (p := .toyRated 143) (by decide)
  have hle := hall (.toyRated 143) (.toyRated 144) ⟨by decide, by decide, by decide⟩
    ⟨by decide, by decide, by decide⟩ himp
  exact absurd hle (by decide)

end RoutineChain
