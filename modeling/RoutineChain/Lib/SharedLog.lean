import Mathlib.Data.List.FinRange
import Mathlib.Data.List.Infix
import Mathlib.Logic.Function.Basic
import RoutineChain.Lib.Runs

/-!
# A log that many share

One log, to which entries are appended, and readers, each of which has seen a part of it from
the start. A reader reads the next entry, or appends one if it has seen all of them.

* `SharedLog.Extends`: what any number of steps leaves: the log is extended, and nobody has
  seen less. So what two readers see, at any two moments, is the same as far as it goes
  (`Extends.comparable`).
* `SharedLog.ofViews`: the log that lists are views of, if of any two of them one is a part of
  the other.
* `step_ofViews`: if one of these lists gets one entry more, that is a step of their log.
-/

/-- The log, and how much of it each reader has seen. -/
structure SharedLog (ι α : Type*) where
  log : List α
  seen : ι → ℕ
  le : ∀ i, seen i ≤ log.length

namespace SharedLog

variable {ι α : Type*} {s s' s'' : SharedLog ι α} {i j : ι}

/-- What a reader has seen. -/
def view (s : SharedLog ι α) (i : ι) : List α := s.log.take (s.seen i)

section Steps

variable [DecidableEq ι]

/-- A reader reads the next entry. -/
def read (s : SharedLog ι α) (i : ι) (h : s.seen i < s.log.length) : SharedLog ι α where
  log := s.log
  seen := Function.update s.seen i (s.seen i + 1)
  le j := by
    by_cases hj : j = i
    · subst hj
      rw [Function.update_self]
      exact h
    · rw [Function.update_of_ne hj]
      exact s.le j

/-- A reader appends an entry, and has seen it. -/
def write (s : SharedLog ι α) (i : ι) (a : α) : SharedLog ι α where
  log := s.log ++ [a]
  seen := Function.update s.seen i (s.seen i + 1)
  le j := by
    have hj := s.le j
    have hi := s.le i
    rw [List.length_append, List.length_singleton]
    by_cases h : j = i
    · subst h
      rw [Function.update_self]
      omega
    · rw [Function.update_of_ne h]
      omega

/-- **What one reader can do.** -/
inductive Step (i : ι) (s : SharedLog ι α) : SharedLog ι α → Prop
  | idle : Step i s s
  | read (h : s.seen i < s.log.length) : Step i s (s.read i h)
  | write (a : α) (h : s.seen i = s.log.length) : Step i s (s.write i a)

end Steps

/-- The log is extended, and nobody has seen less. -/
structure Extends (s s' : SharedLog ι α) : Prop where
  log : s.log <+: s'.log
  seen : ∀ i, s.seen i ≤ s'.seen i

theorem Extends.refl (s : SharedLog ι α) : s.Extends s := ⟨List.prefix_rfl, fun _ => le_rfl⟩

theorem Extends.trans (h : s.Extends s') (h' : s'.Extends s'') : s.Extends s'' :=
  ⟨h.log.trans h'.log, fun i => (h.seen i).trans (h'.seen i)⟩

theorem Step.extends [DecidableEq ι] (h : Step i s s') : s.Extends s' := by
  have hseen : ∀ j, s.seen j ≤ Function.update s.seen i (s.seen i + 1) j := by
    intro j
    by_cases hj : j = i
    · subst hj
      rw [Function.update_self]
      exact Nat.le_succ _
    · rw [Function.update_of_ne hj]
  cases h with
  | idle => exact .refl s
  | read h => exact ⟨List.prefix_rfl, hseen⟩
  | write a h => exact ⟨List.prefix_append _ _, hseen⟩

/-- **Any number of steps extends the log.** -/
theorem extends_run [DecidableEq ι] {σ β : Type*} {step : σ → β → σ} {f : σ → SharedLog ι α}
    {who : β → ι} {x : σ} {l : List β}
    (h : Runs.Along step (fun x b => Step (who b) (f x) (f (step x b))) x l) :
    (f x).Extends (f (Runs.run step x l)) :=
  Runs.inv_run (I := fun y => (f x).Extends (f y)) (fun _ _ hy hs => hy.trans hs.extends)
    (.refl _) h

/-- **What two readers see, at any two moments, is the same as far as it goes.** -/
theorem Extends.comparable (h : s.Extends s') (i j : ι) :
    s.view i <+: s'.view j ∨ s'.view j <+: s.view i := by
  have hi : s.view i <+: s'.log := (List.take_prefix _ _).trans h.log
  exact List.prefix_or_prefix_of_prefix hi (List.take_prefix _ _)

/-! ## The log of some views -/

/-- A list that no other one is longer than. -/
def longest (ls : List (List α)) : List α :=
  ls.foldr (fun l best => if best.length < l.length then l else best) []

theorem longest_mem (ls : List (List α)) : longest ls = [] ∨ longest ls ∈ ls := by
  induction ls with
  | nil => exact .inl rfl
  | cons l ls ih =>
    unfold longest at ih ⊢
    rw [List.foldr_cons]
    split
    · exact .inr List.mem_cons_self
    · exact ih.imp_right (List.mem_cons_of_mem l)

theorem length_le_longest {l : List α} {ls : List (List α)} (h : l ∈ ls) :
    l.length ≤ (longest ls).length := by
  induction ls with
  | nil => cases h
  | cons l' ls ih =>
    unfold longest at ih ⊢
    rw [List.foldr_cons]
    rcases List.mem_cons.1 h with rfl | h
    · split <;> omega
    · have hle := ih h
      split <;> omega

/-- Of any two lists one is a part of the other. -/
def Consistent (views : ι → List α) : Prop :=
  ∀ i j, views i <+: views j ∨ views j <+: views i

section Views

variable {k : ℕ} {views views' : Fin k → List α} {i : Fin k}

theorem length_le_log (views : Fin k → List α) (i : Fin k) :
    (views i).length ≤ (longest ((List.finRange k).map views)).length :=
  length_le_longest (List.mem_map.2 ⟨i, List.mem_finRange i, rfl⟩)

/-- The log is the longest of the views. -/
def ofViews (views : Fin k → List α) : SharedLog (Fin k) α where
  log := longest ((List.finRange k).map views)
  seen i := (views i).length
  le := length_le_log views

theorem ext_of {s s' : SharedLog ι α} (hlog : s.log = s'.log) (hseen : s.seen = s'.seen) :
    s = s' := by
  cases s
  cases s'
  subst hlog hseen
  rfl

/-- The log is nobody's only if it is empty. -/
theorem log_ofViews (views : Fin k → List α) :
    (ofViews views).log = [] ∨ ∃ j, (ofViews views).log = views j := by
  refine (longest_mem _).imp_right fun hmem => ?_
  obtain ⟨j, -, hj⟩ := List.mem_map.1 hmem
  exact ⟨j, hj.symm⟩

/-- Consistent views are parts of the log. -/
theorem Consistent.prefix_log (h : Consistent views) (i : Fin k) :
    views i <+: (ofViews views).log := by
  have hle : (views i).length ≤ (ofViews views).log.length := length_le_log views i
  rcases log_ofViews views with hnil | ⟨j, hj⟩
  · rw [hnil, List.length_nil, Nat.le_zero, List.length_eq_zero_iff] at hle
    rw [hle]
    exact List.nil_prefix
  · rw [hj] at hle ⊢
    rcases h i j with hij | hji
    · exact hij
    · rw [hji.eq_of_length_le hle]

theorem Consistent.view (h : Consistent views) (i : Fin k) :
    (ofViews views).view i = views i :=
  (List.prefix_iff_eq_take.1 (h.prefix_log i)).symm

/-- The log is a list of its length that the views are parts of. -/
theorem log_eq {l : List α} (hviews : ∀ j, views j <+: l) (hi : views i = l) :
    (ofViews views).log = l := by
  have hle := length_le_log views i
  rw [hi] at hle
  rcases log_ofViews views with hnil | ⟨j, hj⟩
  · have hlog : longest ((List.finRange k).map views) = [] := hnil
    rw [hlog, List.length_nil, Nat.le_zero, List.length_eq_zero_iff] at hle
    rw [hnil, hle]
  · have hlog : longest ((List.finRange k).map views) = views j := hj
    rw [hlog] at hle
    rw [hj]
    exact (hviews j).eq_of_length_le hle

/-- **A view that gets one entry more is a step of the log.** -/
theorem step_ofViews (h : Consistent views) (h' : Consistent views')
    (hothers : ∀ j, j ≠ i → views' j = views j)
    (hone : views' i = views i ∨ ∃ a, views' i = views i ++ [a]) :
    Step i (ofViews views) (ofViews views') := by
  rcases hone with hsame | ⟨a, happ⟩
  · have heq : views' = views := by
      funext j
      by_cases hj : j = i
      · rw [hj, hsame]
      · exact hothers j hj
    rw [heq]
    exact .idle
  have hlen : (views' i).length = (views i).length + 1 := by
    rw [happ, List.length_append, List.length_singleton]
  have hseen : (ofViews views').seen =
      Function.update (ofViews views).seen i ((ofViews views).seen i + 1) := by
    funext j
    by_cases hj : j = i
    · subst hj
      rw [Function.update_self]
      exact hlen
    · rw [Function.update_of_ne hj]
      exact congrArg List.length (hothers j hj)
  have hold := h.prefix_log i
  rcases Nat.lt_or_ge (views i).length (ofViews views).log.length with hlt | hge
  -- somebody has seen more, and the new entry is the next one of what that has seen
  · obtain ⟨j, hj⟩ : ∃ j, (ofViews views).log = views j := by
      rcases log_ofViews views with hnil | hmem
      · rw [hnil] at hlt
        exact absurd hlt (Nat.not_lt_zero _)
      · exact hmem
    have hji : j ≠ i := by
      rintro rfl
      rw [hj] at hlt
      exact absurd hlt (lt_irrefl _)
    have hj' : views' j = (ofViews views).log := (hothers j hji).trans hj.symm
    have hall : ∀ m, views' m <+: (ofViews views).log := by
      intro m
      by_cases hm : m = i
      · subst hm
        rcases h' m j with hpre | hpre
        · rwa [hj'] at hpre
        · rw [hj'] at hpre
          rw [hpre.eq_of_length_le (by rw [hlen]; exact hlt)]
      · rw [hothers m hm]
        exact h.prefix_log m
    have hread : ofViews views' = (ofViews views).read i hlt :=
      ext_of (log_eq hall hj') hseen
    rw [hread]
    exact .read hlt
  -- it has seen everything
  · have hlog : views i = (ofViews views).log := hold.eq_of_length_le hge
    have hall : ∀ m, views' m <+: (ofViews views).log ++ [a] := by
      intro m
      by_cases hm : m = i
      · rw [hm, happ, hlog]
      · rw [hothers m hm]
        exact (h.prefix_log m).trans (List.prefix_append _ _)
    have hwrite : ofViews views' = (ofViews views).write i a := by
      have hnew : views' i = (ofViews views).log ++ [a] := by rw [happ, hlog]
      exact ext_of (log_eq hall hnew) hseen
    rw [hwrite]
    exact .write a (congrArg List.length hlog)

end Views

end SharedLog
