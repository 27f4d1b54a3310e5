import StreamInfer.General.Stateful

/-! Operations that end with a failure. A sequence fails in one of its parts, and
a loop in one of its passes, after the passes before it; what every part keeps,
however it ends, the whole keeps. An operation is atomic when a failure leaves
the state as it was. -/

namespace StreamInfer.General

variable {ε σ τ α β : Type}

namespace Stateful

theorem bind_error_iff {x : EStateM ε σ α} {f : α → EStateM ε σ β} {s s'' : σ} {e : ε} :
    (x >>= f) s = .error e s'' ↔
      x s = .error e s'' ∨ ∃ a s', x s = .ok a s' ∧ f a s' = .error e s'' := by
  change EStateM.bind x f s = .error e s'' ↔ _
  unfold EStateM.bind
  cases h : x s with
  | ok a s' => simp
  | error e' s' => simp

@[simp] theorem pure_ne_error {s s' : σ} {a : α} {e : ε} :
    (pure a : EStateM ε σ α) s ≠ .error e s' := by
  change EStateM.Result.ok a s ≠ .error e s'
  simp

@[simp] theorem throw_error_iff {s s' : σ} {e e' : ε} :
    (throw e : EStateM ε σ α) s = .error e' s' ↔ e' = e ∧ s' = s := by
  change EStateM.Result.error e s = .error e' s' ↔ _
  simp [eq_comm]

@[simp] theorem modify_ne_error {s s' : σ} {g : σ → σ} {e : ε} :
    (modify g : EStateM ε σ PUnit) s ≠ .error e s' := by
  change EStateM.Result.ok PUnit.unit (g s) ≠ .error e s'
  simp

theorem onPart_error_iff {part : σ → τ} {put : σ → τ → σ} {x : EStateM ε τ α} {s s' : σ} {e : ε} :
    onPart part put x s = .error e s' ↔ ∃ t, x (part s) = .error e t ∧ s' = put s t := by
  unfold onPart
  cases h : x (part s) with
  | ok b t => simp
  | error e' t => simp [eq_comm, and_comm]

/-! ### Atomic operations -/

/-- A call that fails in a state leaves that state. -/
def AtomicAt (x : EStateM ε σ α) (s : σ) : Prop := ∀ e s', x s = .error e s' → s' = s

/-- A failing call leaves the state as it was. -/
def Atomic (x : EStateM ε σ α) : Prop := ∀ s, AtomicAt x s

/-- A call that returns only reads the state. -/
def Reads (x : EStateM ε σ α) : Prop := ∀ s a s', x s = .ok a s' → s' = s

theorem atomicAt_of_ok {x : EStateM ε σ α} {s s' : σ} {a : α} (h : x s = .ok a s') :
    AtomicAt x s := by
  intro e s'' he
  rw [h] at he
  simp at he

/-- Reading before an atomic operation. -/
theorem AtomicAt.bind {x : EStateM ε σ α} {f : α → EStateM ε σ β} {s : σ} (hx : AtomicAt x s)
    (hr : Reads x) (hf : ∀ a, x s = .ok a s → AtomicAt (f a) s) : AtomicAt (x >>= f) s := by
  intro e s'' h
  rcases bind_error_iff.mp h with h | ⟨a, s', h₁, h₂⟩
  · exact hx e s'' h
  · have hs := hr s a s' h₁
    subst hs
    exact hf a h₁ e s'' h₂

theorem AtomicAt.get_bind {f : σ → EStateM ε σ β} {s : σ} (hf : AtomicAt (f s) s) :
    AtomicAt (get >>= f) s := hf

/-- The loop rule for failures: a failing loop of atomic passes leaves what the
passes before the failing one left. -/
theorem forM_error {f : α → EStateM ε σ PUnit} (hf : ∀ a, Atomic (f a)) {as : List α}
    {s s' : σ} {e : ε} (h : (forM as f : EStateM ε σ PUnit) s = .error e s') :
    ∃ done a rest, as = done ++ a :: rest ∧ (forM done f : EStateM ε σ PUnit) s = .ok ⟨⟩ s' ∧
      f a s' = .error e s' := by
  induction as generalizing s with
  | nil => simp at h
  | cons a as ih =>
    rw [List.forM_cons, bind_error_iff] at h
    rcases h with h | ⟨⟨⟩, s₁, h₁, h₂⟩
    · have hs := hf a s e s' h
      subst hs
      exact ⟨[], a, as, rfl, rfl, h⟩
    · obtain ⟨done, b, rest, rfl, hdone, hb⟩ := ih h₂
      refine ⟨a :: done, b, rest, rfl, ?_, hb⟩
      rw [List.forM_cons, bind_of_ok h₁]
      exact hdone

/-- The same for a loop over the indices below a bound. -/
theorem forM_range_error {f : ℕ → EStateM ε σ PUnit} (hf : ∀ i, Atomic (f i)) {n : ℕ}
    {s s' : σ} {e : ε} (h : (forM (List.range n) f : EStateM ε σ PUnit) s = .error e s') :
    ∃ i < n, (forM (List.range i) f : EStateM ε σ PUnit) s = .ok ⟨⟩ s' ∧ f i s' = .error e s' := by
  obtain ⟨done, i, rest, hsplit, hdone, hi⟩ := forM_error hf h
  have hlen : done.length + (rest.length + 1) = n := by
    simpa using (congrArg List.length hsplit).symm
  have hat : (List.range n)[done.length]? = some i := by rw [hsplit]; simp
  have hpre : done = List.range done.length := by
    have htake := congrArg (List.take done.length) hsplit
    rw [List.take_range, List.take_left, Nat.min_eq_left (by omega)] at htake
    exact htake.symm
  rw [List.getElem?_range (by omega), Option.some_inj] at hat
  subst hat
  exact ⟨done.length, by omega, hpre ▸ hdone, hi⟩

/-! ### What an operation keeps, however it ends -/

/-- A property that holds after the call when it held before. -/
def Keeps (I : σ → Prop) (x : EStateM ε σ α) : Prop :=
  ∀ s, I s → (∀ a s', x s = .ok a s' → I s') ∧ ∀ e s', x s = .error e s' → I s'

/-- The state a call leaves, whether it returns or fails. -/
def Ends (x : EStateM ε σ α) (s s' : σ) : Prop :=
  (∃ a, x s = .ok a s') ∨ ∃ e, x s = .error e s'

theorem Keeps.ends {I : σ → Prop} {x : EStateM ε σ α} (hx : Keeps I x) {s s' : σ} (hI : I s)
    (h : Ends x s s') : I s' := by
  rcases h with ⟨a, h⟩ | ⟨e, h⟩
  · exact (hx s hI).1 a s' h
  · exact (hx s hI).2 e s' h

/-- An atomic operation keeps what its successes keep. -/
theorem Atomic.keeps {I : σ → Prop} {x : EStateM ε σ α} (hx : Atomic x)
    (hok : ∀ s a s', I s → x s = .ok a s' → I s') : Keeps I x := by
  intro s hI
  refine ⟨fun a s' h => hok s a s' hI h, fun e s' h => ?_⟩
  rw [hx s e s' h]
  exact hI

theorem Keeps.pure (I : σ → Prop) (a : α) : Keeps I (pure a : EStateM ε σ α) :=
  Atomic.keeps (fun _ => atomicAt_of_ok rfl) fun s b s' hI h => by
    obtain ⟨-, rfl⟩ := pure_ok_iff.mp h
    exact hI

theorem Keeps.throw (I : σ → Prop) (e : ε) : Keeps I (throw e : EStateM ε σ α) :=
  fun _ hI => ⟨fun _ _ h => absurd h throw_ne_ok, fun _ _ h => (throw_error_iff.mp h).2 ▸ hI⟩

theorem Keeps.bind {I : σ → Prop} {x : EStateM ε σ α} {f : α → EStateM ε σ β} (hx : Keeps I x)
    (hf : ∀ a, Keeps I (f a)) : Keeps I (x >>= f) := by
  intro s hI
  constructor
  · intro b s'' h
    obtain ⟨a, s', h₁, h₂⟩ := bind_ok_iff.mp h
    exact (hf a s' ((hx s hI).1 a s' h₁)).1 b s'' h₂
  · intro e s'' h
    rcases bind_error_iff.mp h with h | ⟨a, s', h₁, h₂⟩
    · exact (hx s hI).2 e s'' h
    · exact (hf a s' ((hx s hI).1 a s' h₁)).2 e s'' h₂

theorem Keeps.forM {I : σ → Prop} {f : α → EStateM ε σ PUnit} {as : List α}
    (hf : ∀ a ∈ as, Keeps I (f a)) : Keeps I (forM as f : EStateM ε σ PUnit) := by
  induction as with
  | nil => exact Keeps.pure I _
  | cons a as ih =>
    rw [List.forM_cons]
    exact (hf a (by simp)).bind fun _ => ih fun b hb => hf b (by simp [hb])

end Stateful

end StreamInfer.General
