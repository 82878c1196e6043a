import Mathlib.Data.List.Infix

/-!
# Bounded channels

A `Channel` is a first-in first-out queue that never holds more than its capacity.

* `send?`: at the back, if there is room. `recv?`: from the front.
* `Carried`: what has come out, followed by what is still inside, is what went in. Both
  operations keep it (`Carried.send`, `Carried.recv`).
-/

/-- A queue within its capacity. -/
structure Channel (α : Type*) (capacity : ℕ) where
  queue : List α
  bounded : queue.length ≤ capacity

namespace Channel

variable {α β : Type*} {capacity : ℕ} {c c' : Channel α capacity} {a : α}

def empty : Channel α capacity := ⟨[], Nat.zero_le _⟩

/-- Add at the back; none if the channel is full. -/
def send? (c : Channel α capacity) (a : α) : Option (Channel α capacity) :=
  if h : c.queue.length < capacity then
    some ⟨c.queue ++ [a], by rw [List.length_append, List.length_singleton]; omega⟩
  else none

/-- Take from the front; none if the channel is empty. -/
def recv? (c : Channel α capacity) : Option (α × Channel α capacity) :=
  match c with
  | ⟨[], _⟩ => none
  | ⟨a :: queue, h⟩ => some (a, ⟨queue, Nat.le_of_succ_le h⟩)

@[simp] theorem queue_empty : (empty : Channel α capacity).queue = [] := rfl

theorem send?_queue (h : c.send? a = some c') : c'.queue = c.queue ++ [a] := by
  unfold send? at h
  split at h
  · rw [← Option.some_inj.1 h]
  · cases h

theorem recv?_queue (h : c.recv? = some (a, c')) : c.queue = a :: c'.queue := by
  obtain ⟨queue, hbounded⟩ := c
  cases queue with
  | nil => cases h
  | cons b queue =>
    obtain ⟨rfl, rfl⟩ := Prod.mk.inj (Option.some_inj.1 h)
    rfl

/-- What has come out, followed by what is inside, is what went in. -/
def Carried (c : Channel α capacity) (received sent : List α) : Prop :=
  received ++ c.queue = sent

variable {received sent : List α}

theorem carried_empty : (empty : Channel α capacity).Carried [] [] := rfl

theorem Carried.send (h : c.Carried received sent) (hc : c.send? a = some c') :
    c'.Carried received (sent ++ [a]) := by
  unfold Carried at h ⊢
  rw [send?_queue hc, ← List.append_assoc, h]

theorem Carried.recv (h : c.Carried received sent) (hc : c.recv? = some (a, c')) :
    c'.Carried (received ++ [a]) sent := by
  unfold Carried at h ⊢
  rw [recv?_queue hc] at h
  rw [← h, List.append_assoc, List.singleton_append]

end Channel
