import Mathlib

/-! Two machines on one sequence of calls. A machine follows an abstract one when
each of its steps takes a state that stands for an abstract state to one that
stands for the next abstract state. -/

namespace StreamInfer.General

variable {Λ σ X : Type*}

/-- The states that a sequence of calls leads through. -/
def RunsTo (step : Λ → σ → σ → Prop) : List Λ → σ → σ → Prop
  | [], s, s' => s' = s
  | c :: calls, s, s' => ∃ t, step c s t ∧ RunsTo step calls t s'

/-- The abstract state after the calls stands for the state they lead to. -/
theorem RunsTo.follows {step : Λ → σ → σ → Prop} {next : X → Λ → X} {I : X → σ → Prop}
    (hstep : ∀ c x s s', I x s → step c s s' → I (next x c) s') {calls : List Λ} {x : X}
    {s s' : σ} (h : I x s) (hrun : RunsTo step calls s s') : I (calls.foldl next x) s' := by
  induction calls generalizing x s with
  | nil =>
    obtain rfl : s' = s := hrun
    exact h
  | cons c calls ih =>
    obtain ⟨t, hs, hrest⟩ := hrun
    exact ih (hstep c x s t h hs) hrest

end StreamInfer.General
