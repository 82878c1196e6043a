import Mathlib.Data.Nat.Notation

/-!
# Computations that fail and keep their state

Facts about `EStateM ε σ`, where a failure keeps the state reached so far: how `run`
meets `throw` and `map`, the state in which a run ends, failing or not (`after`), and what it
returns (`answer`).
-/

namespace EStateM

variable {ε σ α β : Type}

/-! Two rules for `simp`: with them, and a rule for each call of its own, a development lets
`simp` run a computation to its end. -/

@[simp] theorem run_throw_any (e : ε) (s : σ) :
    EStateM.run (throw e : EStateM ε σ α) s = .error e s := rfl

@[simp] theorem run_map_match (f : α → β) (x : EStateM ε σ α) (s : σ) :
    EStateM.run (f <$> x) s =
      match EStateM.run x s with
      | .ok a s => .ok (f a) s
      | .error e s => .error e s := rfl

/-- The state in which a run ends. -/
def after (x : EStateM ε σ α) (s : σ) : σ :=
  match x.run s with
  | .ok _ s' => s'
  | .error _ s' => s'

/-- The run does not fail. -/
def isOk (x : EStateM ε σ α) (s : σ) : Bool :=
  match x.run s with
  | .ok _ _ => true
  | .error _ _ => false

/-- What a run returns. -/
def answer (x : EStateM ε σ α) (s : σ) : Except ε α :=
  match x.run s with
  | .ok a _ => .ok a
  | .error e _ => .error e

theorem after_ok {x : EStateM ε σ α} {s s' : σ} {a : α} (h : x.run s = .ok a s') :
    after x s = s' := by
  simp [after, h]

theorem after_error {x : EStateM ε σ α} {s s' : σ} {e : ε} (h : x.run s = .error e s') :
    after x s = s' := by
  simp [after, h]

theorem exists_error {x : EStateM ε σ α} {s : σ} (h : ¬ isOk x s) :
    ∃ e s', x.run s = .error e s' := by
  cases hx : x.run s with
  | ok a s' => simp [isOk, hx] at h
  | error e s' => exact ⟨e, s', rfl⟩

end EStateM
