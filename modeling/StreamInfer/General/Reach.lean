import Mathlib

/-! Runs of a transition system: initial states, a step relation, and the rule
that what holds initially and is kept by every step holds in every state a run
reaches. -/

namespace StreamInfer.General

open Relation

variable {σ : Type*}

/-- The states that runs from an initial state reach. -/
def Reach (init : σ → Prop) (step : σ → σ → Prop) (s : σ) : Prop :=
  ∃ s₀, init s₀ ∧ ReflTransGen step s₀ s

namespace Reach

variable {init : σ → Prop} {step : σ → σ → Prop}

theorem start {s : σ} (h : init s) : Reach init step s := ⟨s, h, .refl⟩

theorem next {s s' : σ} (h : Reach init step s) (hs : step s s') : Reach init step s' := by
  obtain ⟨s₀, h₀, hr⟩ := h
  exact ⟨s₀, h₀, hr.tail hs⟩

/-- Runs of one system are runs of a system with more steps. -/
theorem mono {step' : σ → σ → Prop} (hsub : ∀ s s', step s s' → step' s s') {s : σ}
    (h : Reach init step s) : Reach init step' s := by
  obtain ⟨s₀, h₀, hr⟩ := h
  exact ⟨s₀, h₀, ReflTransGen.mono hsub _ _ hr⟩

/-- The invariant rule. -/
theorem invariant {I : σ → Prop} (h₀ : ∀ s, init s → I s)
    (hstep : ∀ s s', I s → step s s' → I s') {s : σ} (h : Reach init step s) : I s := by
  obtain ⟨s₀, hi, hr⟩ := h
  induction hr with
  | refl => exact h₀ _ hi
  | tail _ hs ih => exact hstep _ _ ih hs

end Reach

end StreamInfer.General
