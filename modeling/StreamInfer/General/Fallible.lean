import Mathlib

/-! Calls that may fail, and maps of such calls over a list: the map succeeds exactly
when every call does, with the list of the values. -/

namespace StreamInfer.General

variable {α β ε : Type}

theorem bind_eq_ok_iff {x : Except ε α} {f : α → Except ε β} {b : β} :
    (x >>= f) = .ok b ↔ ∃ a, x = .ok a ∧ f a = .ok b := by
  cases x with
  | error e => simp [bind, Except.bind]
  | ok a => simp [bind, Except.bind]

theorem mapM_eq_ok_iff {f : α → Except ε β} {as : List α} {bs : List β} :
    as.mapM f = .ok bs ↔ List.Forall₂ (fun a b => f a = .ok b) as bs := by
  induction as generalizing bs with
  | nil =>
    rw [List.mapM_nil, List.forall₂_nil_left_iff]
    exact ⟨fun h => (Except.ok.inj h).symm, fun h => h ▸ rfl⟩
  | cons a as ih =>
    rw [List.mapM_cons, List.forall₂_cons_left_iff]
    constructor
    · intro h
      cases ha : f a with
      | error e => rw [ha] at h; cases h
      | ok b =>
        cases has : as.mapM f with
        | error e => rw [ha, has] at h; cases h
        | ok bs' =>
          rw [ha, has] at h
          cases h
          exact ⟨b, bs', rfl, ih.mp has, rfl⟩
    · rintro ⟨b, bs', ha, has, rfl⟩
      rw [ha, ih.mpr has]
      rfl

/-- A list of values related to those of a list, one by one. -/
theorem exists_forall₂ {R : α → β → Prop} {as : List α} (h : ∀ a ∈ as, ∃ b, R a b) :
    ∃ bs, List.Forall₂ R as bs := by
  induction as with
  | nil => exact ⟨[], .nil⟩
  | cons a as ih =>
    obtain ⟨b, hb⟩ := h a (by simp)
    obtain ⟨bs, hbs⟩ := ih fun a' ha' => h a' (by simp [ha'])
    exact ⟨b :: bs, .cons hb hbs⟩

/-- Values that are determined one by one form the mapped list. -/
theorem eq_map_of_forall₂ {R : α → β → Prop} {f : α → β} (hf : ∀ a b, R a b → b = f a)
    {as : List α} {bs : List β} (h : List.Forall₂ R as bs) : bs = as.map f := by
  induction h with
  | nil => rfl
  | cons hab _ ih => rw [List.map_cons, ← hf _ _ hab, ← ih]

/-- A map succeeds when each call does. -/
theorem exists_mapM_ok_iff {f : α → Except ε β} {as : List α} :
    (∃ bs, as.mapM f = .ok bs) ↔ ∀ a ∈ as, ∃ b, f a = .ok b := by
  simp only [mapM_eq_ok_iff]
  constructor
  · rintro ⟨bs, h⟩
    induction h with
    | nil => simp
    | cons hab _ ih => exact List.forall_mem_cons.mpr ⟨⟨_, hab⟩, ih⟩
  · exact fun h => exists_forall₂ h

/-- Pointwise success over a range of indices. -/
theorem mapM_range_ok {f : ℕ → Except ε β} {l : List β}
    (h : ∀ i (hi : i < l.length), f i = .ok l[i]) :
    (List.range l.length).mapM f = .ok l := by
  rw [mapM_eq_ok_iff, List.forall₂_iff_get]
  refine ⟨by simp, fun i h₁ h₂ => ?_⟩
  simpa using h i h₂

/-- The loop rule: an accumulating loop returns when every pass does, with what
the passes keep. -/
theorem exists_foldlM_range_ok {f : β → ℕ → Except ε β} {I : ℕ → β → Prop} {n : ℕ} {b : β}
    (h₀ : I 0 b) (hstep : ∀ i < n, ∀ b, I i b → ∃ b', f b i = .ok b' ∧ I (i + 1) b') :
    ∃ b', (List.range n).foldlM f b = .ok b' ∧ I n b' := by
  induction n with
  | zero => exact ⟨b, rfl, h₀⟩
  | succ n ih =>
    obtain ⟨b₁, h₁, hI⟩ := ih fun i hi => hstep i (Nat.lt_succ_of_lt hi)
    obtain ⟨b₂, h₂, hI'⟩ := hstep n (Nat.lt_succ_self n) b₁ hI
    refine ⟨b₂, ?_, hI'⟩
    rw [List.range_succ, List.foldlM_append, h₁]
    show (f b₁ n >>= pure) = .ok b₂
    rw [h₂]
    rfl

/-- What a loop that returned had in each of its passes. -/
theorem foldlM_range_ok {f : β → ℕ → Except ε β} {I : ℕ → β → Prop} {n : ℕ} {b b' : β}
    (h₀ : I 0 b) (hstep : ∀ i < n, ∀ b b', I i b → f b i = .ok b' → I (i + 1) b')
    (h : (List.range n).foldlM f b = .ok b') : I n b' := by
  induction n generalizing b' with
  | zero =>
    obtain rfl := Except.ok.inj h
    exact h₀
  | succ n ih =>
    rw [List.range_succ, List.foldlM_append, bind_eq_ok_iff] at h
    obtain ⟨b₁, h₁, h₂⟩ := h
    have hI := ih (fun i hi => hstep i (Nat.lt_succ_of_lt hi)) h₁
    refine hstep n (Nat.lt_succ_self n) b₁ b' hI ?_
    rw [List.foldlM_cons, bind_eq_ok_iff] at h₂
    obtain ⟨b₂, h₂, h₃⟩ := h₂
    obtain rfl := Except.ok.inj h₃
    exact h₂

end StreamInfer.General
