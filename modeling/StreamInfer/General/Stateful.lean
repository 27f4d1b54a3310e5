import Mathlib

/-! Operations on a state that may fail, keeping what was done before the
failure. A sequence succeeds when each part does, in the state the part before
it left; a loop over a list succeeds through a chain of states, which an
invariant follows. -/

namespace StreamInfer.General

variable {ε σ τ α β : Type}

namespace Stateful

theorem bind_ok_iff {x : EStateM ε σ α} {f : α → EStateM ε σ β} {s s'' : σ} {b : β} :
    (x >>= f) s = .ok b s'' ↔ ∃ a s', x s = .ok a s' ∧ f a s' = .ok b s'' := by
  change EStateM.bind x f s = .ok b s'' ↔ _
  unfold EStateM.bind
  cases h : x s with
  | ok a s' => simp
  | error e s' => simp

theorem bind_of_ok {x : EStateM ε σ α} {f : α → EStateM ε σ β} {s s' : σ} {a : α}
    (h : x s = .ok a s') : (x >>= f) s = f a s' := by
  change EStateM.bind x f s = _
  rw [EStateM.bind, h]

theorem bind_of_error {x : EStateM ε σ α} {f : α → EStateM ε σ β} {s s' : σ} {e : ε}
    (h : x s = .error e s') : (x >>= f) s = .error e s' := by
  change EStateM.bind x f s = _
  rw [EStateM.bind, h]

@[simp] theorem pure_ok_iff {s s' : σ} {a b : α} :
    (pure a : EStateM ε σ α) s = .ok b s' ↔ b = a ∧ s' = s := by
  change EStateM.Result.ok a s = .ok b s' ↔ _
  simp [eq_comm]

@[simp] theorem throw_ne_ok {s s' : σ} {e : ε} {a : α} :
    (throw e : EStateM ε σ α) s ≠ .ok a s' := by
  change EStateM.Result.error e s ≠ .ok a s'
  simp

@[simp] theorem set_ok_iff {s s' t : σ} {u : PUnit} :
    (set t : EStateM ε σ PUnit) s = .ok u s' ↔ s' = t := by
  change EStateM.Result.ok ⟨⟩ t = .ok u s' ↔ _
  simp [eq_comm]

@[simp] theorem modify_ok_iff {s s' : σ} {g : σ → σ} {u : PUnit} :
    (modify g : EStateM ε σ PUnit) s = .ok u s' ↔ s' = g s := by
  change EStateM.Result.ok ⟨⟩ (g s) = .ok u s' ↔ _
  simp [eq_comm]

theorem get_bind {f : σ → EStateM ε σ β} {s : σ} : ((get : EStateM ε σ σ) >>= f) s = f s s := rfl

/-- A test that a call returns a value and leaves a state with a property. -/
def leaves [DecidableEq α] (x : EStateM ε σ α) (s : σ) (a : α) (P : σ → Prop) [DecidablePred P] : Bool :=
  match x s with
  | .ok b t => decide (b = a ∧ P t)
  | .error _ _ => false

theorem exists_of_leaves [DecidableEq α] {x : EStateM ε σ α} {s : σ} {a : α} {P : σ → Prop}
    [DecidablePred P] (h : leaves x s a P = true) : ∃ s', x s = .ok a s' ∧ P s' := by
  unfold leaves at h
  cases hx : x s with
  | ok b t =>
    rw [hx] at h
    obtain ⟨rfl, hP⟩ := of_decide_eq_true h
    exact ⟨t, rfl, hP⟩
  | error e t => simp [hx] at h

/-- Run an operation of a component of the state. -/
def onPart (part : σ → τ) (put : σ → τ → σ) (x : EStateM ε τ α) : EStateM ε σ α := fun s =>
  match x (part s) with
  | .ok a t => .ok a (put s t)
  | .error e t => .error e (put s t)

theorem onPart_ok_iff {part : σ → τ} {put : σ → τ → σ} {x : EStateM ε τ α} {s s' : σ} {a : α} :
    onPart part put x s = .ok a s' ↔ ∃ t, x (part s) = .ok a t ∧ s' = put s t := by
  unfold onPart
  cases h : x (part s) with
  | ok b t => simp [eq_comm]
  | error e t => simp

/-- A loop over indices that reads one entry of a list in each pass. -/
theorem forM_range {f : ℕ → EStateM ε σ PUnit} {g : α → EStateM ε σ PUnit} {l : List α}
    (h : ∀ i (hi : i < l.length), f i = g l[i]) :
    (forM (List.range l.length) f : EStateM ε σ PUnit) = forM l g := by
  induction l generalizing f with
  | nil => rfl
  | cons a l ih =>
    rw [List.length_cons, List.range_succ_eq_map, List.forM_cons, List.forM_cons, List.forM_map,
      h 0 (by simp), ih fun i hi => h (i + 1) (by simpa using hi)]
    rfl

/-- The loop rule: what each successful pass keeps holds after the loop. -/
theorem forM_keeps {f : α → EStateM ε σ PUnit} {I : σ → Prop} {as : List α}
    (h : ∀ a ∈ as, ∀ s s', I s → f a s = .ok ⟨⟩ s' → I s') {s s' : σ} (hI : I s)
    (hs : (forM as f : EStateM ε σ PUnit) s = .ok ⟨⟩ s') : I s' := by
  induction as generalizing s with
  | nil => cases hs; exact hI
  | cons a as ih =>
    rw [List.forM_cons, bind_ok_iff] at hs
    obtain ⟨⟨⟩, s₁, h₁, h₂⟩ := hs
    exact ih (fun b hb => h b (by simp [hb])) (h a (by simp) s s₁ hI h₁) h₂

/-- The loop rule for returning: a loop returns when every pass does. -/
theorem exists_forM_ok {f : α → EStateM ε σ PUnit} {I : σ → Prop} {as : List α}
    (h : ∀ a ∈ as, ∀ s, I s → ∃ s', f a s = .ok ⟨⟩ s' ∧ I s') {s : σ} (hI : I s) :
    ∃ s', (forM as f : EStateM ε σ PUnit) s = .ok ⟨⟩ s' ∧ I s' := by
  induction as generalizing s with
  | nil => exact ⟨s, rfl, hI⟩
  | cons a as ih =>
    obtain ⟨s₁, h₁, hI₁⟩ := h a (by simp) s hI
    obtain ⟨s₂, h₂, hI₂⟩ := ih (fun b hb => h b (by simp [hb])) hI₁
    refine ⟨s₂, ?_, hI₂⟩
    rw [List.forM_cons, bind_of_ok h₁]
    exact h₂

end Stateful

end StreamInfer.General
