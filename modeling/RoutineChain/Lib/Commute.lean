import RoutineChain.Lib.Runs

/-!
# Inputs in any order

Two inputs of a machine are independent if each leaves the other enabled and both orders lead
to the same state. Inputs that are enabled and pairwise independent stay enabled in any order
(`Independent.along`) and lead to the same state (`Independent.run_perm`).
-/

namespace Runs

variable {σ α : Type*}

/-- **Inputs related by `R` are independent** in the states of the invariant `I`. -/
structure Independent (step : σ → α → σ) (I : σ → Prop) (enabled : σ → α → Prop)
    (R : α → α → Prop) : Prop where
  symm : ∀ {a b}, R a b → R b a
  inv : ∀ {s a}, I s → enabled s a → I (step s a)
  keeps : ∀ {s a b}, I s → R a b → enabled s a → enabled s b → enabled (step s a) b
  comm : ∀ {s a b}, I s → R a b → enabled s a → enabled s b →
    step (step s a) b = step (step s b) a

variable {step : σ → α → σ} {I : σ → Prop} {enabled : σ → α → Prop} {R : α → α → Prop}

/-- What is enabled and independent of the first input is enabled after it. -/
theorem Independent.after_head (h : Independent step I enabled R) {s : σ} {a : α} {l : List α}
    (hs : I s) (hl : (a :: l).Pairwise R) (hen : ∀ b ∈ a :: l, enabled s b) :
    I (step s a) ∧ ∀ b ∈ l, enabled (step s a) b := by
  have ha := hen a List.mem_cons_self
  refine ⟨h.inv hs ha, ?_⟩
  intro b hb
  exact h.keeps hs ((List.pairwise_cons.1 hl).1 b hb) ha (hen b (.tail _ hb))

theorem Independent.along (h : Independent step I enabled R) {s : σ} {l : List α} (hs : I s)
    (hl : l.Pairwise R) (hen : ∀ a ∈ l, enabled s a) : Along step enabled s l := by
  induction l generalizing s with
  | nil => trivial
  | cons a l ih =>
    obtain ⟨hs', hen'⟩ := h.after_head hs hl hen
    exact ⟨hen a List.mem_cons_self, ih hs' (List.pairwise_cons.1 hl).2 hen'⟩

/-- **Independent inputs lead to the same state in any order.** -/
theorem Independent.run_perm (h : Independent step I enabled R) {s : σ} {l l' : List α}
    (hp : l.Perm l') (hs : I s) (hl : l.Pairwise R) (hen : ∀ a ∈ l, enabled s a) :
    run step s l = run step s l' := by
  induction hp generalizing s with
  | nil => rfl
  | cons a _ ih =>
    obtain ⟨hs', hen'⟩ := h.after_head hs hl hen
    exact ih hs' (List.pairwise_cons.1 hl).2 hen'
  | swap a b l =>
    have hab := (List.pairwise_cons.1 hl).1 a List.mem_cons_self
    rw [run_cons, run_cons, run_cons, run_cons,
      h.comm hs hab (hen b List.mem_cons_self) (hen a (.tail _ List.mem_cons_self))]
  | trans hp _ ih ih' =>
    rw [ih hs hl hen]
    exact ih' hs (hp.pairwise hl h.symm) fun a ha => hen a (hp.mem_iff.2 ha)

end Runs
