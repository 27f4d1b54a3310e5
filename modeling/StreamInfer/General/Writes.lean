import Mathlib

/-! Memory after a list of writes. When all writes to an address carry one value, the
memory holds it afterwards, in whatever order the writes took place. -/

namespace StreamInfer.General

variable {A α : Type} [DecidableEq A]

/-- Carry out the writes from left to right. -/
def store (writes : List (A × α)) (mem : A → α) : A → α :=
  writes.foldl (fun mem w => Function.update mem w.1 w.2) mem

/-- Addresses that are not written keep their value. -/
theorem store_of_not_mem {writes : List (A × α)} {a : A} (h : ∀ w ∈ writes, w.1 ≠ a)
    (mem : A → α) : store writes mem a = mem a := by
  induction writes generalizing mem with
  | nil => rfl
  | cons w writes ih =>
    obtain ⟨hw, hws⟩ := List.forall_mem_cons.mp h
    have hrest := ih hws (Function.update mem w.1 w.2)
    rw [Function.update_of_ne hw.symm] at hrest
    exact hrest

/-- An address that is written with one value only holds it. -/
theorem store_of_mem {writes : List (A × α)} {a : A} {v : α} (hmem : ∃ w ∈ writes, w.1 = a)
    (hsame : ∀ w ∈ writes, w.1 = a → w.2 = v) (mem : A → α) : store writes mem a = v := by
  induction writes generalizing mem with
  | nil =>
    obtain ⟨w, hw, -⟩ := hmem
    exact absurd hw List.not_mem_nil
  | cons w writes ih =>
    by_cases hlater : ∃ w ∈ writes, w.1 = a
    · exact ih hlater (fun w hw => hsame w (List.mem_cons_of_mem _ hw)) _
    · have hfirst : w.1 = a := by
        obtain ⟨w', hw', ha⟩ := hmem
        rcases List.mem_cons.mp hw' with rfl | hw'
        · exact ha
        · exact absurd ⟨w', hw', ha⟩ hlater
      have hrest : ∀ w ∈ writes, w.1 ≠ a := fun w hw ha => hlater ⟨w, hw, ha⟩
      show store writes (Function.update mem w.1 w.2) a = v
      rw [store_of_not_mem hrest, hfirst, Function.update_self]
      exact hsame w List.mem_cons_self hfirst

/-- The outcome of writes that are carried out in any order. -/
def StoredInSomeOrder (writes : List (A × α)) (mem mem' : A → α) : Prop :=
  ∃ order, order.Perm writes ∧ mem' = store order mem

theorem StoredInSomeOrder.eq_of_mem {writes : List (A × α)} {mem mem' : A → α} {a : A} {v : α}
    (h : StoredInSomeOrder writes mem mem') (hmem : ∃ w ∈ writes, w.1 = a)
    (hsame : ∀ w ∈ writes, w.1 = a → w.2 = v) : mem' a = v := by
  obtain ⟨order, hperm, rfl⟩ := h
  apply store_of_mem
  · obtain ⟨w, hw, ha⟩ := hmem
    exact ⟨w, hperm.mem_iff.mpr hw, ha⟩
  · exact fun w hw => hsame w (hperm.mem_iff.mp hw)

theorem StoredInSomeOrder.eq_of_not_mem {writes : List (A × α)} {mem mem' : A → α} {a : A}
    (h : StoredInSomeOrder writes mem mem') (hnot : ∀ w ∈ writes, w.1 ≠ a) : mem' a = mem a := by
  obtain ⟨order, hperm, rfl⟩ := h
  exact store_of_not_mem (fun w hw => hnot w (hperm.mem_iff.mp hw)) mem

/-- A row-major address has one row and one column. -/
theorem rowMajor_inj {cols i i' j j' : ℕ} (hj : j < cols) (hj' : j' < cols)
    (h : i * cols + j = i' * cols + j') : i = i' ∧ j = j' := by
  have hpos : 0 < cols := by omega
  have hrow : i = i' := by
    have hdiv := congrArg (· / cols) h
    simpa only [Nat.mul_comm _ cols, Nat.mul_add_div hpos, Nat.div_eq_of_lt hj,
      Nat.div_eq_of_lt hj', Nat.add_zero] using hdiv
  subst hrow
  exact ⟨rfl, Nat.add_left_cancel h⟩

end StreamInfer.General
