import RoutineChain.Lib.StateError

/-!
# A computation with checks and the one without

`Follows φ h x y`: `x` stops with `h`, or it ends as `y` does, with the errors of `y` read
through `φ`. So `x` is `y` with checks that stop it with `h`, and the two agree on every run of
`x` that avoids `h`. The rules follow the constructs of a `do` block: `Follows` is walked down
the two blocks together, `Avoids` down the one with the checks.
-/

namespace EStateM

variable {ε ε' σ α β : Type} {h : ε'} {φ : ε → ε'} {s : σ}

/-- The run does not stop with `h`. -/
def Avoids (h : ε') (x : EStateM ε' σ α) (s : σ) : Prop := ∀ s', x.run s ≠ .error h s'

instance [DecidableEq ε'] (h : ε') (x : EStateM ε' σ α) (s : σ) : Decidable (Avoids h x s) :=
  match hx : x.run s with
  | .ok _ _ => .isTrue (by simp [Avoids, hx])
  | .error e _ => decidable_of_iff (e ≠ h) (by simp [Avoids, hx])

/-- `x` stops with `h`, or ends as `y` does. -/
def Follows (φ : ε → ε') (h : ε') (x : EStateM ε' σ α) (y : EStateM ε σ α) : Prop :=
  ∀ s, (∃ s', x.run s = .error h s') ∨ x.run s = EStateM.run (y.adaptExcept φ) s

/-! ## Avoiding an error -/

@[simp] theorem avoids_pure {a : α} : Avoids h (pure a) s := fun _ => nofun

@[simp] theorem avoids_throw {e : ε'} : Avoids h (throw e : EStateM ε' σ α) s ↔ e ≠ h := by
  refine ⟨?_, ?_⟩
  · rintro ha rfl
    exact ha s rfl
  · intro hne s' heq
    cases heq
    exact hne rfl

@[simp] theorem avoids_check {c : Prop} [Decidable c] {a : α} :
    Avoids (σ := σ) h (if c then pure a else throw h) s ↔ c := by
  by_cases hc : c
  · simp [hc]
  · simp [hc]

theorem avoids_bind {x : EStateM ε' σ α} {f : α → EStateM ε' σ β} :
    Avoids h (x >>= f) s ↔
      Avoids h x s ∧ ∀ a s', x.run s = .ok a s' → Avoids h (f a) s' := by
  unfold Avoids
  rw [EStateM.run_bind]
  cases hx : x.run s with
  | ok a s' => simp
  | error e s' => simp

theorem avoids_ite {c : Prop} [Decidable c] {x y : EStateM ε' σ α} :
    Avoids h (if c then x else y) s ↔ (c → Avoids h x s) ∧ (¬ c → Avoids h y s) := by
  by_cases hc : c
  · simp [hc]
  · simp [hc]

@[simp] theorem avoids_checkBind {c : Prop} [Decidable c] {a : α} {f : α → EStateM ε' σ β} :
    Avoids h ((if c then pure a else throw h) >>= f) s ↔ c ∧ Avoids h (f a) s := by
  by_cases hc : c
  · rw [if_pos hc]
    exact (and_iff_right hc).symm
  · rw [if_neg hc]
    exact iff_of_false (fun ha => ha s rfl) fun ha => hc ha.1

/-- What follows a failure does not run. -/
theorem avoids_throwBind {e : ε'} (he : e ≠ h) {f : α → EStateM ε' σ β} :
    Avoids h ((throw e : EStateM ε' σ α) >>= f) s := by
  intro s' heq
  cases heq
  exact he rfl

/-- What follows a check that returns an error. -/
theorem avoids_guard {c : Prop} [Decidable c] {e : ε'} (he : e ≠ h) {f : α → EStateM ε' σ β}
    {x : EStateM ε' σ β} :
    Avoids h (if c then (throw e : EStateM ε' σ α) >>= f else x) s ↔ (¬ c → Avoids h x s) := by
  rw [avoids_ite]
  exact ⟨And.right, fun hx => ⟨fun _ => avoids_throwBind he, hx⟩⟩

theorem avoids_adaptExcept (hφ : ∀ e, φ e ≠ h) (y : EStateM ε σ α) :
    Avoids h (y.adaptExcept φ) s := by
  intro s' heq
  rw [run_adaptExcept] at heq
  cases hy : y.run s with
  | ok a s' => simp [hy] at heq
  | error e s' =>
    rw [hy] at heq
    cases heq
    exact hφ e rfl

/-! ## Following -/

namespace Follows

variable {x x' : EStateM ε' σ α} {y y' : EStateM ε σ α}

/-- **The two agree on a run that avoids `h`**, and only there if no error of `y` reads `h`. -/
theorem run_eq_iff (hf : Follows φ h x y) (hφ : ∀ e, φ e ≠ h) :
    x.run s = EStateM.run (y.adaptExcept φ) s ↔ Avoids h x s := by
  refine ⟨?_, ?_⟩
  · intro heq s' hx
    exact avoids_adaptExcept hφ y s' (heq.symm.trans hx)
  · intro ha
    rcases hf s with ⟨s', hx⟩ | heq
    · exact absurd hx (ha s')
    · exact heq

protected theorem adaptExcept : Follows φ h (y.adaptExcept φ) y := fun _ => .inr rfl

protected theorem pure {a : α} : Follows (σ := σ) φ h (pure a) (pure a) := fun _ => .inr rfl

protected theorem throw {e : ε} :
    Follows (σ := σ) φ h (throw (φ e) : EStateM ε' σ α) (throw e) := fun _ => .inr rfl

protected theorem bind {f : α → EStateM ε' σ β} {g : α → EStateM ε σ β} (hx : Follows φ h x y)
    (hf : ∀ a, Follows φ h (f a) (g a)) : Follows φ h (x >>= f) (y >>= g) := by
  intro s
  rw [EStateM.run_bind, run_adaptExcept, EStateM.run_bind]
  rcases hx s with ⟨s', hs⟩ | hs
  · rw [hs]
    exact .inl ⟨s', rfl⟩
  · rw [hs, run_adaptExcept]
    cases y.run s with
    | ok a s' => simpa using hf a s'
    | error e s' => exact .inr rfl

/-- What follows a failure does not run. -/
theorem throwBind {γ γ' : Type} {e : ε} {f : γ → EStateM ε' σ α} {g : γ' → EStateM ε σ α} :
    Follows φ h ((throw (φ e) : EStateM ε' σ γ) >>= f) ((throw e : EStateM ε σ γ') >>= g) :=
  fun _ => .inr rfl

/-- Both sides test the same condition. -/
protected theorem ite {c : Prop} [Decidable c] (ht : Follows φ h x y) (hf : Follows φ h x' y') :
    Follows φ h (if c then x else x') (if c then y else y') := by
  by_cases hc : c
  · rw [if_pos hc, if_pos hc]
    exact ht
  · rw [if_neg hc, if_neg hc]
    exact hf

/-- Both sides check the same condition, and go on if it does not fail. -/
theorem guard {γ γ' : Type} {c : Prop} [Decidable c] {e : ε} {f : γ → EStateM ε' σ α}
    {g : γ' → EStateM ε σ α} (hxy : Follows φ h x y) :
    Follows φ h (if c then (throw (φ e) : EStateM ε' σ γ) >>= f else x)
      (if c then (throw e : EStateM ε σ γ') >>= g else y) :=
  .ite throwBind hxy

/-- A check on a value. -/
theorem check {c : Prop} [Decidable c] {a : α} :
    Follows (σ := σ) φ h (if c then pure a else throw h) (pure a) := by
  by_cases hc : c
  · rw [if_pos hc]
    exact .pure
  · rw [if_neg hc]
    exact fun s => .inl ⟨s, rfl⟩

/-- The side without checks has the value already. -/
theorem pureBind {γ : Type} {x : EStateM ε' σ γ} {a : γ} {f : γ → EStateM ε' σ α}
    (hx : Follows φ h x (pure a)) (hf : Follows φ h (f a) y) : Follows φ h (x >>= f) y := by
  intro s
  rw [EStateM.run_bind]
  rcases hx s with ⟨s', hs⟩ | hs
  · rw [hs]
    exact .inl ⟨s', rfl⟩
  · rw [hs]
    exact hf s

/-- The two branches have their values already. -/
theorem itePure {c : Prop} [Decidable c] {a a' : α} (ht : c → Follows φ h x (pure a))
    (hf : ¬ c → Follows φ h x' (pure a')) :
    Follows φ h (if c then x else x') (pure (if c then a else a')) := by
  by_cases hc : c
  · rw [if_pos hc, if_pos hc]
    exact ht hc
  · rw [if_neg hc, if_neg hc]
    exact hf hc

/-- **A block avoids `h` if its first step does, and the rest does on what the side without
checks returns.** -/
theorem avoids_bind {f : α → EStateM ε' σ β} {a : α} {s' : σ} (hx : Follows φ h x y)
    (hy : y.run s = .ok a s') :
    Avoids h (x >>= f) s ↔ Avoids h x s ∧ Avoids h (f a) s' := by
  rw [EStateM.avoids_bind]
  refine and_congr_right fun ha => ?_
  rcases hx s with ⟨s₁, hs⟩ | hs
  · exact absurd hs (ha s₁)
  · rw [hs, run_adaptExcept, hy]
    simp

end Follows

end EStateM
