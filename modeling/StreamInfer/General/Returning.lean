import StreamInfer.General.Stateful

/-! Rules for operations that return: what holds of the value and of the state
they leave. A sequence returns when its parts do, one after the other. -/

namespace StreamInfer.General

variable {ε σ α β : Type}

/-- The operation returns, with a value and a state in `Q`. -/
def Returns (x : EStateM ε σ α) (s : σ) (Q : α → σ → Prop) : Prop :=
  ∃ a s', x s = .ok a s' ∧ Q a s'

namespace Returns

variable {x : EStateM ε σ α} {f : α → EStateM ε σ β} {s s' : σ} {a : α} {P Q : α → σ → Prop}
  {T : β → σ → Prop}

theorem of_ok (h : x s = .ok a s') (hQ : Q a s') : Returns x s Q := ⟨a, s', h, hQ⟩

theorem mono (h : Returns x s P) (hPQ : ∀ a s', P a s' → Q a s') : Returns x s Q := by
  obtain ⟨a, s', hok, hP⟩ := h
  exact ⟨a, s', hok, hPQ a s' hP⟩

theorem pure (h : Q a s) : Returns (pure a : EStateM ε σ α) s Q := ⟨a, s, rfl, h⟩

theorem bind (hx : Returns x s P) (hf : ∀ a s', P a s' → Returns (f a) s' T) :
    Returns (x >>= f) s T := by
  obtain ⟨a, s', hok, hP⟩ := hx
  obtain ⟨b, s'', hok', hT⟩ := hf a s' hP
  exact ⟨b, s'', Stateful.bind_ok_iff.mpr ⟨a, s', hok, hok'⟩, hT⟩

/-- The first part runs as computed. -/
theorem step (hx : x s = .ok a s') (hf : Returns (f a) s' T) : Returns (x >>= f) s T :=
  (of_ok (Q := fun b t => b = a ∧ t = s') hx ⟨rfl, rfl⟩).bind fun _ _ h => by
    obtain ⟨rfl, rfl⟩ := h
    exact hf

end Returns

end StreamInfer.General
