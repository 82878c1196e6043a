import RoutineChain.Lib.StateError

/-!
# Two computations side by side

`Sim R V x y`: from states related by `R`, either `x` and `y` both return, with values related
by `V`, or both fail with the same error, and in any case the states they end in are related.
The rules follow the constructs of a `do` block, so a proof walks down the two blocks together.
With `x` and `y` the same computation, `Sim R Eq x x` says that `x` does not see what `R`
leaves open.
-/

namespace EStateM

variable {ε σ α β γ δ : Type}

/-- `x` and `y` end alike from related states. -/
def Sim (R : σ → σ → Prop) (V : α → β → Prop) (x : EStateM ε σ α) (y : EStateM ε σ β) : Prop :=
  ∀ s t, R s t → match x.run s, y.run t with
    | .ok a s', .ok b t' => V a b ∧ R s' t'
    | .error e s', .error e' t' => e = e' ∧ R s' t'
    | _, _ => False

namespace Sim

variable {R : σ → σ → Prop} {V : α → β → Prop} {W : γ → δ → Prop}
  {x x' : EStateM ε σ α} {y y' : EStateM ε σ β}

protected theorem pure {a : α} {b : β} (h : V a b) :
    Sim (ε := ε) R V (pure a) (pure b) :=
  fun _ _ hR => ⟨h, hR⟩

protected theorem throw {e : ε} :
    Sim R V (throw e : EStateM ε σ α) (throw e : EStateM ε σ β) :=
  fun _ _ hR => ⟨rfl, hR⟩

protected theorem bind {f : α → EStateM ε σ γ} {g : β → EStateM ε σ δ} (h : Sim R V x y)
    (hf : ∀ a b, V a b → Sim R W (f a) (g b)) : Sim R W (x >>= f) (y >>= g) := by
  intro s t hR
  have hx := h s t hR
  rw [EStateM.run_bind, EStateM.run_bind]
  cases hs : x.run s <;> cases ht : y.run t <;> simp only [hs, ht] at hx ⊢
  · exact hf _ _ hx.1 _ _ hx.2
  · exact hx

/-- What follows a failure does not run. -/
theorem throwBind {e : ε} {f : α → EStateM ε σ γ} {g : β → EStateM ε σ δ} :
    Sim R W ((throw e : EStateM ε σ α) >>= f) ((throw e : EStateM ε σ β) >>= g) :=
  fun _ _ hR => ⟨rfl, hR⟩

/-- Both sides test the same condition. -/
protected theorem ite {c : Prop} [Decidable c] (ht : c → Sim R V x y)
    (hf : ¬ c → Sim R V x' y') : Sim R V (if c then x else x') (if c then y else y') := by
  by_cases h : c
  · rw [if_pos h, if_pos h]
    exact ht h
  · rw [if_neg h, if_neg h]
    exact hf h

/-- Both sides check the same condition, and go on if it does not fail. -/
theorem guard {c : Prop} [Decidable c] {e : ε} {f : γ → EStateM ε σ α} {g : δ → EStateM ε σ β}
    (h : ¬ c → Sim R V x y) :
    Sim R V (if c then (throw e : EStateM ε σ γ) >>= f else x)
      (if c then (throw e : EStateM ε σ δ) >>= g else y) :=
  .ite (fun _ => throwBind) h

protected theorem get : Sim (ε := ε) R R get get := fun _ _ hR => ⟨hR, hR⟩

theorem modify {f g : σ → σ} (h : ∀ s t, R s t → R (f s) (g t)) :
    Sim (ε := ε) R Eq (modify f) (modify g) :=
  fun s t hR => ⟨rfl, h s t hR⟩

/-- A value is read off the state. -/
theorem reads {f : σ → α} {g : σ → β} (h : ∀ s t, R s t → V (f s) (g t)) :
    Sim (ε := ε) R V (do return f (← get)) (do return g (← get)) :=
  fun s t hR => ⟨h s t hR, hR⟩

/-- The end states are related. -/
theorem after {s t : σ} (h : Sim R V x y) (hR : R s t) : R (x.after s) (y.after t) := by
  have hx := h s t hR
  unfold EStateM.after
  cases hs : x.run s <;> cases ht : y.run t <;> simp only [hs, ht] at hx ⊢
  · exact hx.2
  · exact hx.2

/-- Both sides return the same. -/
theorem answer {s t : σ} {x y : EStateM ε σ α} (h : Sim R Eq x y) (hR : R s t) :
    x.answer s = y.answer t := by
  have hx := h s t hR
  unfold EStateM.answer
  cases hs : x.run s <;> cases ht : y.run t <;> simp only [hs, ht] at hx ⊢
  · rw [hx.1]
  · rw [hx.1]

/-- One side fails when the other does. -/
theorem isOk {s t : σ} (h : Sim R V x y) (hR : R s t) : x.isOk s = y.isOk t := by
  have hx := h s t hR
  unfold EStateM.isOk
  cases hs : x.run s <;> cases ht : y.run t <;> simp only [hs, ht] at hx ⊢

end Sim

end EStateM
