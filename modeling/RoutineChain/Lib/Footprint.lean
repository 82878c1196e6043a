import Mathlib.Data.Set.Lattice
import Mathlib.Order.CompletePartialOrder
import RoutineChain.Lib.Commute

/-!
# Inputs that touch disjoint parts of the state

A state is what it holds under each key. An input has a footprint, the keys that it touches in a
state: nothing else changes, and what is under them determines the footprint itself, the answer
and what is left under them. Inputs with disjoint footprints then commute (`Local.comm`), and
any number of them lead to the same state in any order, each with the answer that it would have
got first (`Local.run_perm`, `Local.answers`).
-/

namespace Footprint

variable {σ α ρ κ : Type*} {ν : κ → Type*}

/-- Two states hold the same under the keys of `F`. -/
def AgreeOn (view : σ → ∀ k, ν k) (F : Set κ) (s t : σ) : Prop := ∀ k ∈ F, view s k = view t k

/-- The footprint of an input bounds what it reads and writes. -/
structure Local (view : σ → ∀ k, ν k) (step : σ → α → σ) (answer : σ → α → ρ)
    (touches : σ → α → Set κ) : Prop where
  ext : ∀ {s t}, (∀ k, view s k = view t k) → s = t
  frame : ∀ {s a k}, k ∉ touches s a → view (step s a) k = view s k
  footprint : ∀ {s t a}, AgreeOn view (touches s a) s t → touches t a = touches s a
  answer : ∀ {s t a}, AgreeOn view (touches s a) s t → answer t a = answer s a
  writes : ∀ {s t a}, AgreeOn view (touches s a) s t →
    AgreeOn view (touches s a) (step s a) (step t a)

variable {view : σ → ∀ k, ν k} {step : σ → α → σ} {answer : σ → α → ρ}
  {touches : σ → α → Set κ} {s : σ} {a b : α}

/-- The states `s` and `t` hold the same under the keys of `F`, and differ from `s₀` and `t₀`
there at most. -/
structure Within (view : σ → ∀ k, ν k) (F : Set κ) (s₀ t₀ s t : σ) : Prop where
  agree : AgreeOn view F s t
  left : ∀ k ∉ F, view s k = view s₀ k
  right : ∀ k ∉ F, view t k = view t₀ k

/-- The same value is written under one key of `F`. -/
theorem Within.write {F : Set κ} {s₀ t₀ s t s' t' : σ} {k : κ} (h : Within view F s₀ t₀ s t)
    (hk : k ∈ F) (hs : ∀ k', k' ≠ k → view s' k' = view s k')
    (ht : ∀ k', k' ≠ k → view t' k' = view t k') (heq : view s' k = view t' k) :
    Within view F s₀ t₀ s' t' := by
  refine ⟨?_, ?_, ?_⟩
  · intro k' hk'
    by_cases hkk : k' = k
    · subst hkk
      exact heq
    · rw [hs k' hkk, ht k' hkk]
      exact h.agree k' hk'
  · intro k' hk'
    rw [hs k' fun hkk => hk' (hkk ▸ hk)]
    exact h.left k' hk'
  · intro k' hk'
    rw [ht k' fun hkk => hk' (hkk ▸ hk)]
    exact h.right k' hk'

/-- An input with a disjoint footprint leaves the keys alone. -/
theorem Local.agree (h : Local view step answer touches)
    (hd : Disjoint (touches s a) (touches s b)) : AgreeOn view (touches s b) s (step s a) := by
  intro k hk
  exact (h.frame (Set.disjoint_right.1 hd hk)).symm

/-- **Inputs with disjoint footprints commute.** -/
theorem Local.comm (h : Local view step answer touches)
    (hd : Disjoint (touches s a) (touches s b)) :
    step (step s a) b = step (step s b) a := by
  have hb := h.agree hd
  have ha := h.agree hd.symm
  refine h.ext ?_
  intro k
  by_cases hka : k ∈ touches s a
  · have hkb : k ∉ touches (step s a) b := by
      rw [h.footprint hb]
      exact Set.disjoint_left.1 hd hka
    rw [h.frame hkb]
    exact h.writes ha k hka
  · have hka' : k ∉ touches (step s b) a := by rwa [h.footprint ha]
    rw [h.frame hka']
    by_cases hkb : k ∈ touches s b
    · exact (h.writes hb k hkb).symm
    · have hkb' : k ∉ touches (step s a) b := by rwa [h.footprint hb]
      rw [h.frame hkb', h.frame hka, h.frame hkb]

/-- Inputs, each with its footprint, are independent if these are disjoint. -/
theorem Local.independent (h : Local view step answer touches) :
    Runs.Independent (fun s (a : α × Set κ) => step s a.1) (fun _ => True)
      (fun s a => touches s a.1 = a.2) fun a b => Disjoint a.2 b.2 := by
  refine ⟨fun hd => hd.symm, fun _ _ => trivial, ?_, ?_⟩
  · intro s a b _ hd ha hb
    rw [← ha, ← hb] at hd
    rw [h.footprint (h.agree hd), hb]
  · intro s a b _ hd ha hb
    rw [← ha, ← hb] at hd
    exact h.comm hd

section Runs

variable {l l' : List α}

/-- The inputs with their footprints. -/
def tagged (touches : σ → α → Set κ) (s : σ) (l : List α) : List (α × Set κ) :=
  l.map fun a => (a, touches s a)

theorem run_tagged (step : σ → α → σ) (touches : σ → α → Set κ) (s₀ s : σ) (l : List α) :
    Runs.run (fun s (a : α × Set κ) => step s a.1) s (tagged touches s₀ l) =
      Runs.run step s l := by
  induction l generalizing s with
  | nil => rfl
  | cons a l ih => exact ih (step s a)

/-- **Inputs with disjoint footprints lead to the same state in any order.** -/
theorem Local.run_perm (h : Local view step answer touches) (hp : l.Perm l')
    (hd : l.Pairwise fun a b => Disjoint (touches s a) (touches s b)) :
    Runs.run step s l = Runs.run step s l' := by
  have htagged : (tagged touches s l).Pairwise fun a b => Disjoint a.2 b.2 :=
    List.pairwise_map.2 hd
  have henabled : ∀ a ∈ tagged touches s l, touches s a.1 = a.2 := by
    intro a ha
    obtain ⟨b, -, rfl⟩ := List.mem_map.1 ha
    rfl
  rw [← run_tagged step touches s s l, ← run_tagged step touches s s l']
  exact h.independent.run_perm (hp.map _) trivial htagged henabled

/-- **Each of them gets the answer that it would have got first.** -/
theorem Local.answers (h : Local view step answer touches)
    (hd : l.Pairwise fun a b => Disjoint (touches s a) (touches s b)) :
    Runs.Along step (fun t a => answer t a = answer s a) s l := by
  suffices hrun : ∀ t, (∀ a ∈ l, AgreeOn view (touches s a) s t) →
      Runs.Along step (fun t a => answer t a = answer s a) t l from
    hrun s fun _ _ _ _ => rfl
  induction l with
  | nil => exact fun _ _ => trivial
  | cons a l ih =>
    intro t ht
    obtain ⟨hda, hdl⟩ := List.pairwise_cons.1 hd
    refine ⟨h.answer (ht a List.mem_cons_self), ih hdl _ ?_⟩
    intro b hb k hk
    have hka : k ∉ touches t a := by
      rw [h.footprint (ht a List.mem_cons_self)]
      exact Set.disjoint_right.1 (hda b hb) hk
    rw [h.frame hka]
    exact ht b (.tail _ hb) k hk

end Runs

end Footprint
