import Mathlib.Data.List.Infix

/-!
# Runs of a deterministic machine

A machine is a step function `σ → α → σ` driven by a list of inputs. `Along step C s l`
says that every step of the run from `s` over `l` meets the condition `C` on the state
before it and its input.

* `inv_run`: an invariant that every step meeting `C` preserves holds at the end.
* `sim_run`: a relation to another machine that every input keeps holds at the end, and
  `Along.sim`: what it transfers holds along the other run.
* `persists_run`: a value that every step keeps, up to a preorder, is kept by a run.
* `along_of_inv`: what the invariant gives at each step holds along the run.
* `Along.initial`, `along_iff_prefix`: the condition holds along every prefix, so both apply
  to each state that the run passes through.
* `last`: the last input of a run that meets a condition.
-/

namespace Runs

variable {σ α : Type*} (step : σ → α → σ)

/-- The state after a list of inputs. -/
def run (s : σ) (l : List α) : σ := l.foldl step s

/-- Every step of the run meets `C`. -/
def Along (C : σ → α → Prop) : σ → List α → Prop
  | _, [] => True
  | s, a :: l => C s a ∧ Along C (step s a) l

@[simp] theorem run_nil (s : σ) : run step s [] = s := rfl

@[simp] theorem run_cons (s : σ) (a : α) (l : List α) :
    run step s (a :: l) = run step (step s a) l := rfl

theorem run_append (s : σ) (l l' : List α) :
    run step s (l ++ l') = run step (run step s l) l' := by
  simp [run]

/-- A run over grouped inputs is a run over the inputs. -/
theorem run_flatMap {β : Type*} (f : β → List α) (s : σ) (l : List β) :
    run (fun s b => run step s (f b)) s l = run step s (l.flatMap f) := by
  simp [run, List.foldl_flatMap]

variable {step} {C D : σ → α → Prop}

@[simp] theorem along_nil {s : σ} : Along step C s [] := trivial

@[simp] theorem along_cons {s : σ} {a : α} {l : List α} :
    Along step C s (a :: l) ↔ C s a ∧ Along step C (step s a) l := Iff.rfl

theorem along_append {s : σ} {l l' : List α} :
    Along step C s (l ++ l') ↔ Along step C s l ∧ Along step C (run step s l) l' := by
  induction l generalizing s with
  | nil => simp
  | cons a l ih => simp [ih, and_assoc]

/-- **The condition holds along a run if it does before each input.** -/
theorem along_iff_prefix {s : σ} {l : List α} :
    Along step C s l ↔ ∀ l₁ a, l₁ ++ [a] <+: l → C (run step s l₁) a := by
  induction l using List.reverseRecOn with
  | nil => exact iff_of_true trivial fun l₁ a hp => by simp at hp
  | append_singleton l b ih =>
    rw [along_append, ih, along_cons, and_iff_left along_nil]
    refine ⟨?_, ?_⟩
    · rintro ⟨hl, hb⟩ l₁ a hp
      rcases List.prefix_concat_iff.1 hp with heq | hp
      · obtain ⟨rfl, rfl⟩ := List.append_singleton_inj.1 heq
        exact hb
      · exact hl l₁ a hp
    · intro hall
      exact ⟨fun l₁ a hp => hall l₁ a (hp.trans (List.prefix_append l [b])),
        hall l b List.prefix_rfl⟩

theorem Along.initial {s : σ} {l l' : List α} (h : Along step C s l') (hp : l <+: l') :
    Along step C s l := by
  obtain ⟨r, rfl⟩ := hp
  exact (along_append.1 h).1

theorem Along.mono {s : σ} {l : List α} (h : Along step C s l) (hCD : ∀ s a, C s a → D s a) :
    Along step D s l := by
  induction l generalizing s with
  | nil => trivial
  | cons a l ih => exact ⟨hCD _ _ h.1, ih h.2⟩

theorem Along.and {s : σ} {l : List α} (h : Along step C s l) (h' : Along step D s l) :
    Along step (fun s a => C s a ∧ D s a) s l := by
  induction l generalizing s with
  | nil => trivial
  | cons a l ih => exact ⟨⟨h.1, h'.1⟩, ih h.2 h'.2⟩

/-- A condition that can be decided at each step can be decided along a run. -/
instance decidableAlong [∀ s a, Decidable (C s a)] :
    (s : σ) → (l : List α) → Decidable (Along step C s l)
  | _, [] => .isTrue trivial
  | s, a :: l =>
    have := decidableAlong (step s a) l
    inferInstanceAs (Decidable (C s a ∧ Along step C (step s a) l))

/-- The last input of the run that meets `C`. -/
def last (step : σ → α → σ) (C : σ → α → Prop) [∀ s a, Decidable (C s a)] : σ → List α → Option α
  | _, [] => none
  | s, a :: l => (last step C (step s a) l).or (if C s a then some a else none)

/-- **One more input** is the last one if it meets the condition. -/
theorem last_concat [∀ s a, Decidable (C s a)] (s : σ) (l : List α) (a : α) :
    last step C s (l ++ [a]) = if C (run step s l) a then some a else last step C s l := by
  induction l generalizing s with
  | nil => rfl
  | cons b l ih =>
    rw [List.cons_append, last, ih, run_cons, last]
    split <;> rfl

/-- **Invariant rule.** -/
theorem inv_run {I : σ → Prop} (hstep : ∀ s a, I s → C s a → I (step s a)) {s : σ} {l : List α}
    (hs : I s) (h : Along step C s l) : I (run step s l) := by
  induction l generalizing s with
  | nil => exact hs
  | cons a l ih => exact ih (hstep s a hs h.1) h.2

/-- **Simulation rule.** Two machines that each input keeps related are related after a run. -/
theorem sim_run {τ : Type*} {step' : τ → α → τ} {R : σ → τ → Prop}
    (hstep : ∀ s t a, R s t → R (step s a) (step' t a)) {s : σ} {t : τ} (h : R s t) (l : List α) :
    R (run step s l) (run step' t l) := by
  induction l generalizing s t with
  | nil => exact h
  | cons a l ih => exact ih (hstep s t a h)

/-- **Simulation rule for conditions.** A condition that related states share holds along both
runs. -/
theorem Along.sim {τ : Type*} {step' : τ → α → τ} {R : σ → τ → Prop} {E : τ → α → Prop}
    (hstep : ∀ s t a, R s t → R (step s a) (step' t a)) (hE : ∀ s t a, R s t → C s a → E t a)
    {s : σ} {t : τ} (h : R s t) {l : List α} (hrun : Along step C s l) : Along step' E t l := by
  induction l generalizing s t with
  | nil => trivial
  | cons a l ih => exact ⟨hE s t a h hrun.1, ih (hstep s t a h) hrun.2⟩

/-- **Persistence rule.** -/
theorem persists_run {β : Type*} (get : σ → Option β) {R : β → β → Prop} (hrefl : ∀ b, R b b)
    (htrans : ∀ b b' b'', R b b' → R b' b'' → R b b'')
    (hstep : ∀ s a b, get s = some b → C s a → ∃ b', get (step s a) = some b' ∧ R b b')
    {s : σ} {b : β} {l : List α} (hb : get s = some b) (h : Along step C s l) :
    ∃ b', get (run step s l) = some b' ∧ R b b' := by
  refine inv_run (I := fun s => ∃ b', get s = some b' ∧ R b b') ?_ ⟨b, hb, hrefl b⟩ h
  rintro s a ⟨b', hb', hr⟩ hC
  obtain ⟨b'', hb'', hr'⟩ := hstep s a b' hb' hC
  exact ⟨b'', hb'', htrans b b' b'' hr hr'⟩

/-- **What an invariant gives at each step holds along the run.** -/
theorem along_of_inv {I : σ → Prop} (hstep : ∀ s a, I s → C s a → I (step s a))
    (hD : ∀ s a, I s → C s a → D s a) {s : σ} {l : List α} (hs : I s)
    (h : Along step C s l) : Along step D s l := by
  induction l generalizing s with
  | nil => trivial
  | cons a l ih => exact ⟨hD s a hs h.1, ih (hstep s a hs h.1) h.2⟩

/-- A condition on the inputs alone. -/
theorem along_of_forall {D : α → Prop} {l : List α} (h : ∀ a ∈ l, D a) (s : σ) :
    Along step (fun _ a => D a) s l := by
  induction l generalizing s with
  | nil => trivial
  | cons a l ih => exact ⟨h a List.mem_cons_self, ih (fun b hb => h b (.tail _ hb)) _⟩

/-- The trivial condition. -/
theorem along_true (s : σ) (l : List α) : Along step (fun _ _ => True) s l :=
  along_of_forall (fun _ _ => trivial) s

end Runs
