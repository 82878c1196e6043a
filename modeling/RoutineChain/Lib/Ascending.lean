import Mathlib.Data.List.Perm.Subperm
import Mathlib.Order.Lattice

/-!
# Lists that ascend within an interval

`Ascending lo l hi` says that `l` increases strictly, above `lo` and up to `hi`. Pieces
over adjacent intervals join, and an ascending list that takes its values from another
list is no longer than that list.
-/

variable {α : Type*} [LinearOrder α]

/-- `l` increases strictly, above `lo` and up to `hi`. -/
structure Ascending (lo : α) (l : List α) (hi : α) : Prop where
  sorted : l.Pairwise (· < ·)
  above : ∀ x ∈ l, lo < x
  below : ∀ x ∈ l, x ≤ hi

namespace Ascending

variable {lo mid hi x : α} {l l' : List α}

theorem nil (lo hi : α) : Ascending lo [] hi :=
  ⟨.nil, by simp, by simp⟩

theorem mono (h : Ascending lo l mid) (hle : mid ≤ hi) : Ascending lo l hi :=
  ⟨h.sorted, h.above, fun x hx => (h.below x hx).trans hle⟩

/-- Pieces over adjacent intervals join. -/
theorem append (h : Ascending lo l mid) (h' : Ascending mid l' hi) (hlo : lo ≤ mid)
    (hhi : mid ≤ hi) : Ascending lo (l ++ l') hi where
  sorted := List.pairwise_append.2
    ⟨h.sorted, h'.sorted, fun x hx y hy => (h.below x hx).trans_lt (h'.above y hy)⟩
  above x hx := by
    rcases List.mem_append.1 hx with hx | hx
    · exact h.above x hx
    · exact hlo.trans_lt (h'.above x hx)
  below x hx := by
    rcases List.mem_append.1 hx with hx | hx
    · exact (h.below x hx).trans hhi
    · exact h'.below x hx

theorem singleton (h : lo < x) : Ascending lo [x] x :=
  ⟨List.pairwise_singleton _ _, by simpa using h, by simp⟩

theorem sublist (h : Ascending lo l hi) (hsub : l'.Sublist l) : Ascending lo l' hi :=
  ⟨h.sorted.sublist hsub, fun x hx => h.above x (hsub.subset hx),
    fun x hx => h.below x (hsub.subset hx)⟩

/-- **Values taken from another list.** -/
theorem length_le (h : Ascending lo l hi) (hsub : l ⊆ l') : l.length ≤ l'.length := by
  have hnodup : l.Nodup := h.sorted.imp fun hlt => ne_of_lt hlt
  exact (hnodup.subperm hsub).length_le

end Ascending
