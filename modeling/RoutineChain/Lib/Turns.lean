import Mathlib.Data.List.Rotate

/-!
# Taking turns

Turn `k` of a list is the entry at `k` modulo its length. Turns in a row, as many as the
list has entries, go through the list once, wherever they start.

The turns may be numbered by words of any type: `num` reads a word as a number, and `f`
tells whose turn it is.
-/

namespace Turns

variable {α β : Type*} {xs : List α} {k : ℕ}

/-- The entry that has turn `k`. -/
def turn (xs : List α) (k : ℕ) : Option α := xs[k % xs.length]?

theorem getElem?_rotate {i : ℕ} (hi : i < xs.length) : (xs.rotate k)[i]? = turn xs (k + i) := by
  rw [List.getElem?_rotate hi, Nat.add_comm]
  rfl

/-- **Nobody has two turns in a row.** -/
theorem turn_succ_ne (hxs : xs.Nodup) (hlen : 2 ≤ xs.length) (k : ℕ) :
    turn xs (k + 1) ≠ turn xs k := by
  intro h
  have hlt : (k + 1) % xs.length < xs.length := Nat.mod_lt _ (by omega)
  have hmod : (k + 1) % xs.length = k % xs.length := (List.getElem?_inj hlt hxs).1 h
  have hone : (k + 1 - k) % xs.length = 0 := Nat.sub_mod_eq_zero_of_mod_eq hmod
  rw [Nat.add_sub_cancel_left, Nat.mod_eq_of_lt hlen] at hone
  cases hone

variable {bs : List β} {num : β → ℕ} {f : β → α}

/-- **A round of turns is the list, rotated.** -/
theorem map_eq_rotate (hnum : bs.map num = List.range' k xs.length)
    (hf : ∀ b ∈ bs, turn xs (num b) = some (f b)) : bs.map f = xs.rotate k := by
  have hlen : bs.length = xs.length := by simpa using congrArg List.length hnum
  refine List.ext_getElem? ?_
  intro i
  by_cases hi : i < xs.length
  case pos =>
    have hib : i < bs.length := hlen ▸ hi
    have hword : num bs[i] = k + i := by
      have h := congrArg (·[i]?) hnum
      simpa [hib, hi] using h
    rw [getElem?_rotate hi, ← hword, hf _ (List.getElem_mem hib), List.getElem?_map,
      List.getElem?_eq_getElem hib]
    rfl
  case neg =>
    rw [List.getElem?_eq_none (by simpa [hlen] using hi),
      List.getElem?_eq_none (by simpa using hi)]

/-- **Everybody has one turn in a round.** -/
theorem count_eq_one [DecidableEq α] (hxs : xs.Nodup)
    (hnum : bs.map num = List.range' k xs.length)
    (hf : ∀ b ∈ bs, turn xs (num b) = some (f b)) {x : α} (hx : x ∈ xs) :
    (bs.map f).count x = 1 := by
  rw [map_eq_rotate hnum hf, (List.rotate_perm xs k).count_eq]
  exact List.count_eq_one_of_mem hxs hx

end Turns
