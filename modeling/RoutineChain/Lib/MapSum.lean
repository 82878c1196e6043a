import Mathlib.Algebra.BigOperators.Group.List.Basic
import Mathlib.Algebra.GroupWithZero.Nat
import Mathlib.Data.List.Nodup
import Std.Data.ExtTreeMap
import Std.Data.ExtTreeMap.Lemmas

/-!
# Sums over the values of a finite map

`total f t` adds up `f v` over the entries of a map, and `count p t` counts the values with
a property. Inserting a value changes a sum by what it adds minus what it replaces
(`total_insert`); all other facts about sums follow from this one.
-/

namespace MapSum

open Std

variable {α β : Type*} {cmp : α → α → Ordering}

/-- The sum of `f` over the values of a map. -/
def total (f : β → ℕ) (t : ExtTreeMap α β cmp) [TransCmp cmp] : ℕ :=
  (t.toList.map fun e => f e.2).sum

/-- What the entry of `k` adds to the sum. -/
def share (f : β → ℕ) (t : ExtTreeMap α β cmp) [TransCmp cmp] (k : α) : ℕ := t[k]?.elim 0 f

/-- The number of values with a property. -/
def count (p : β → Prop) [DecidablePred p] (t : ExtTreeMap α β cmp) [TransCmp cmp] : ℕ :=
  total (fun v => if p v then 1 else 0) t

variable [TransCmp cmp] {f : β → ℕ} {t : ExtTreeMap α β cmp} {k : α} {v : β}

theorem total_empty : total f (∅ : ExtTreeMap α β cmp) = 0 := by
  have h : (∅ : ExtTreeMap α β cmp).toList = [] := ExtTreeMap.toList_eq_nil_iff.2 rfl
  rw [total, h]
  rfl

theorem count_empty {p : β → Prop} [DecidablePred p] :
    count p (∅ : ExtTreeMap α β cmp) = 0 :=
  total_empty

theorem nodup_toList : t.toList.Nodup := by
  refine ExtTreeMap.distinct_keys_toList.imp ?_
  intro a b h hab
  rw [hab] at h
  exact h ReflCmp.compare_self

variable [LawfulEqCmp cmp] [DecidableEq α]

/-- The entries of a map are the one of `k`, if there is one, and the others. -/
theorem total_eq (f : β → ℕ) (t : ExtTreeMap α β cmp) (k : α) :
    total f t = share f t k + ((t.toList.filter fun e => e.1 ≠ k).map fun e => f e.2).sum := by
  unfold total share
  cases h : t[k]? with
  | none =>
    have hall : t.toList.filter (fun e => e.1 ≠ k) = t.toList := by
      refine List.filter_eq_self.2 ?_
      rintro ⟨k', v'⟩ he
      rw [ExtTreeMap.mem_toList_iff_getElem?_eq_some] at he
      simp only [decide_eq_true_eq]
      rintro rfl
      rw [h] at he
      cases he
    rw [hall, Option.elim_none, Nat.zero_add]
  | some v =>
    have hperm : t.toList.Perm ((k, v) :: t.toList.filter fun e => e.1 ≠ k) := by
      refine (List.perm_ext_iff_of_nodup nodup_toList ?_).2 ?_
      · refine List.nodup_cons.2 ⟨?_, nodup_toList.filter _⟩
        simp
      · rintro ⟨k', v'⟩
        simp only [List.mem_cons, Prod.mk.injEq, List.mem_filter, decide_eq_true_eq]
        by_cases hk : k' = k
        · subst hk
          rw [ExtTreeMap.mem_toList_iff_getElem?_eq_some, h]
          simp [eq_comm]
        · simp [hk]
    rw [(hperm.map _).sum_eq, List.map_cons, List.sum_cons, Option.elim_some]

/-- **An insertion changes the sum by the new value minus the replaced one.** -/
theorem total_insert (f : β → ℕ) (t : ExtTreeMap α β cmp) (k : α) (v : β) :
    total f (t.insert k v) + share f t k = total f t + f v := by
  have hnew : share f (t.insert k v) k = f v := by
    simp [share]
  have hrest : ((t.insert k v).toList.filter fun e => e.1 ≠ k).Perm
      (t.toList.filter fun e => e.1 ≠ k) := by
    refine (List.perm_ext_iff_of_nodup (nodup_toList.filter _) (nodup_toList.filter _)).2 ?_
    rintro ⟨k', v'⟩
    simp only [List.mem_filter, decide_eq_true_eq, and_congr_left_iff,
      ExtTreeMap.mem_toList_iff_getElem?_eq_some]
    intro hk
    rw [ExtTreeMap.getElem?_insert, if_neg]
    rw [LawfulEqCmp.compare_eq_iff_eq]
    exact fun h => hk h.symm
  rw [total_eq f (t.insert k v) k, total_eq f t k, hnew, (hrest.map _).sum_eq]
  omega

/-- An insertion where nothing was stored. -/
theorem total_insert_new (h : t[k]? = none) : total f (t.insert k v) = total f t + f v := by
  have hins := total_insert f t k v
  rwa [share, h, Option.elim_none, Nat.add_zero] at hins

/-- An insertion over another value. -/
theorem total_insert_old {w : β} (h : t[k]? = some w) :
    total f (t.insert k v) + f w = total f t + f v := by
  have hins := total_insert f t k v
  rwa [share, h, Option.elim_some] at hins

theorem count_insert_new {p : β → Prop} [DecidablePred p] (h : t[k]? = none) :
    count p (t.insert k v) = count p t + if p v then 1 else 0 :=
  total_insert_new h

theorem count_insert_old {p : β → Prop} [DecidablePred p] {w : β} (h : t[k]? = some w) :
    count p (t.insert k v) + (if p w then 1 else 0) = count p t + if p v then 1 else 0 :=
  total_insert_old h

/-- One entry is no more than the sum. -/
theorem share_le_total : share f t k ≤ total f t := by
  rw [total_eq f t k]
  exact Nat.le_add_right _ _

end MapSum
