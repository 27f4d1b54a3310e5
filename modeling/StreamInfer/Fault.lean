import StreamInfer.General.Failing

/-! How a call ends without returning, and the checks that end it so. -/

namespace StreamInfer

open General.Stateful

/-- An assertion or a library call that throws, or an access the language leaves
undefined. -/
inductive Fault where
  | assertion (condition : String)
  | outOfRange (access : String)
  deriving DecidableEq, Repr

variable {σ α : Type}

/-- `ASSERT`. -/
def ensure (p : Prop) [Decidable p] (condition : String) : EStateM Fault σ Unit :=
  if p then pure () else throw (.assertion condition)

/-- `xs[i]`. -/
def readAt (access : String) (xs : List α) (i : ℕ) : EStateM Fault σ α :=
  match xs[i]? with
  | some x => pure x
  | none => throw (.outOfRange access)

/-- `std::optional::value` and a dictionary access. -/
def valueOf (access : String) (x : Option α) : EStateM Fault σ α :=
  match x with
  | some a => pure a
  | none => throw (.outOfRange access)

theorem ensure_ok_iff {p : Prop} [Decidable p] {condition : String} {s s' : σ} {u : Unit} :
    ensure p condition s = .ok u s' ↔ p ∧ s' = s := by
  unfold ensure
  split_ifs with h <;> simp [h]

theorem ensure_bind {p : Prop} [Decidable p] {condition : String} {β : Type}
    {f : Unit → EStateM Fault σ β} {s : σ} (h : p) : (ensure p condition >>= f) s = f () s := by
  rw [ensure, if_pos h]
  rfl

theorem readAt_eq {access : String} {xs : List α} {i : ℕ} (hi : i < xs.length) :
    (readAt access xs i : EStateM Fault σ α) = pure xs[i] := by
  rw [readAt, List.getElem?_eq_getElem hi]

theorem readAt_ok_iff {access : String} {xs : List α} {i : ℕ} {s s' : σ} {x : α} :
    readAt access xs i s = .ok x s' ↔ xs[i]? = some x ∧ s' = s := by
  unfold readAt
  cases h : xs[i]? with
  | none => simp
  | some y => simp [eq_comm]

theorem valueOf_ok_iff {access : String} {x : Option α} {s s' : σ} {a : α} :
    valueOf access x s = .ok a s' ↔ x = some a ∧ s' = s := by
  cases x with
  | none => simp [valueOf]
  | some b =>
    rw [valueOf, pure_ok_iff, Option.some_inj]
    exact and_congr_left fun _ => eq_comm

/-- Reading a list of entries of the state leaves it as it is. -/
theorem mapM_valueOf_ok_iff {κ : Type} {access : String} {f : κ → Option α} {ks : List κ}
    {s s' : σ} {as : List α} :
    (ks.mapM fun k => (valueOf access (f k) : EStateM Fault σ α)) s = .ok as s' ↔
      ks.map f = as.map some ∧ s' = s := by
  induction ks generalizing as with
  | nil => cases as <;> simp
  | cons k ks ih =>
    simp only [List.mapM_cons, bind_ok_iff, valueOf_ok_iff, pure_ok_iff, List.map_cons]
    constructor
    · rintro ⟨a, _, ⟨ha, rfl⟩, as', _, has, rfl, rfl⟩
      obtain ⟨has', rfl⟩ := ih.mp has
      exact ⟨by rw [ha, has', List.map_cons], rfl⟩
    · rintro ⟨hmap, rfl⟩
      cases as with
      | nil => simp at hmap
      | cons a as =>
        obtain ⟨ha, has⟩ := List.cons.inj hmap
        exact ⟨a, s', ⟨ha, rfl⟩, as, s', ih.mpr ⟨has, rfl⟩, rfl, rfl⟩

/-! ### Failing checks -/

theorem ensure_error_iff {p : Prop} [Decidable p] {condition : String} {s s' : σ} {e : Fault} :
    ensure p condition s = .error e s' ↔ ¬ p ∧ e = .assertion condition ∧ s' = s := by
  unfold ensure
  split_ifs with h <;> simp [h]

/-- A check before an atomic operation. -/
theorem atomicAt_ensure {p : Prop} [Decidable p] {condition : String} {β : Type} {s : σ}
    {f : Unit → EStateM Fault σ β} (h : p → AtomicAt (f ()) s) :
    AtomicAt (ensure p condition >>= f) s := by
  refine AtomicAt.bind ?_ ?_ ?_
  · intro e s' he
    exact (ensure_error_iff.mp he).2.2
  · intro s₁ a s' hok
    exact (ensure_ok_iff.mp hok).2
  · intro a hok
    exact h (ensure_ok_iff.mp hok).1

/-- An access before an atomic operation. -/
theorem atomicAt_readAt {access : String} {xs : List α} {i : ℕ} {β : Type} {s : σ}
    {f : α → EStateM Fault σ β} (h : ∀ a, xs[i]? = some a → AtomicAt (f a) s) :
    AtomicAt (readAt access xs i >>= f) s := by
  cases hx : xs[i]? with
  | none =>
    intro e s' he
    simp [readAt, hx, bind_error_iff] at he
    exact he.2
  | some a =>
    rw [readAt, hx, pure_bind]
    exact h a hx

theorem atomicAt_valueOf {access : String} {x : Option α} {β : Type} {s : σ}
    {f : α → EStateM Fault σ β} (h : ∀ a, x = some a → AtomicAt (f a) s) :
    AtomicAt (valueOf access x >>= f) s := by
  cases x with
  | none =>
    intro e s' he
    simp [valueOf, bind_error_iff] at he
    exact he.2
  | some a =>
    rw [valueOf, pure_bind]
    exact h a rfl

theorem mapM_valueOf_atomicAt {κ : Type} (access : String) (f : κ → Option α) (ks : List κ) (s : σ) :
    AtomicAt (ks.mapM fun k => (valueOf access (f k) : EStateM Fault σ α)) s := by
  induction ks with
  | nil => exact atomicAt_of_ok rfl
  | cons k ks ih =>
    rw [List.mapM_cons]
    refine atomicAt_valueOf fun a _ => AtomicAt.bind ih ?_ fun as _ => atomicAt_of_ok rfl
    intro s₁ as s₂ h
    exact (mapM_valueOf_ok_iff.mp h).2

theorem valueOf_keeps (I : σ → Prop) (access : String) (x : Option α) :
    Keeps I (valueOf access x : EStateM Fault σ α) := by
  cases x with
  | none => exact Keeps.throw I _
  | some a => exact Keeps.pure I a

end StreamInfer
