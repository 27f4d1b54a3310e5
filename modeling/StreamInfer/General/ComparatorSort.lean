import Mathlib

/-! Sorting by a comparator that says "strictly before". The comparator has to
be a strict weak order on the range; the result is then a rearrangement in which
no entry is before an earlier one. Entries that compare equal may come out in
any order, so `ComparatorSort` ranges over every such algorithm, and `insertion`
is one of them. -/

namespace StreamInfer.General

variable {α β : Type}

/-- The comparator requirements on the entries of a range. -/
structure StrictWeakOrder (lt : α → α → Bool) (xs : List α) : Prop where
  irrefl : ∀ a ∈ xs, lt a a = false
  trans : ∀ a ∈ xs, ∀ b ∈ xs, ∀ c ∈ xs, lt a b = true → lt b c = true → lt a c = true
  incomparable : ∀ a ∈ xs, ∀ b ∈ xs, ∀ c ∈ xs, lt a b = false → lt b a = false →
    lt b c = false → lt c b = false → lt a c = false ∧ lt c a = false

namespace StrictWeakOrder

variable {lt : α → α → Bool} {xs : List α}

theorem asymm (h : StrictWeakOrder lt xs) {a b : α} (ha : a ∈ xs) (hb : b ∈ xs)
    (hab : lt a b = true) : lt b a = false := by
  by_contra hba
  rw [Bool.not_eq_false] at hba
  have hirr := h.irrefl a ha
  rw [h.trans a ha b hb a ha hab hba] at hirr
  contradiction

/-- "Not after" is transitive. -/
theorem not_after_trans (h : StrictWeakOrder lt xs) {a b c : α} (ha : a ∈ xs) (hb : b ∈ xs)
    (hc : c ∈ xs) (hba : lt b a = false) (hcb : lt c b = false) : lt c a = false := by
  by_contra hca
  rw [Bool.not_eq_false] at hca
  by_cases hab : lt a b = true
  · rw [h.trans c hc a ha b hb hca hab] at hcb
    contradiction
  · by_cases hbc : lt b c = true
    · rw [h.trans b hb c hc a ha hbc hca] at hba
      contradiction
    · rw [Bool.not_eq_true] at hab hbc
      have := (h.incomparable a ha b hb c hc hab hba hbc hcb).2
      rw [this] at hca
      contradiction

/-- Comparing keys of a linear order. -/
theorem of_key {κ : Type} [LinearOrder κ] (key : α → κ)
    (h : ∀ a ∈ xs, ∀ b ∈ xs, lt a b = true ↔ key a < key b) : StrictWeakOrder lt xs where
  irrefl a ha := by
    rw [← Bool.not_eq_true, h a ha a ha]
    exact lt_irrefl _
  trans a ha b hb c hc hab hbc := by
    rw [h a ha b hb] at hab
    rw [h b hb c hc] at hbc
    exact (h a ha c hc).mpr (hab.trans hbc)
  incomparable a ha b hb c hc hab hba hbc hcb := by
    rw [← Bool.not_eq_true] at hab hba hbc hcb ⊢
    rw [h a ha b hb, not_lt] at hab
    rw [h b hb a ha, not_lt] at hba
    rw [h b hb c hc, not_lt] at hbc
    rw [h c hc b hb, not_lt] at hcb
    rw [h a ha c hc, ← Bool.not_eq_true, h c hc a ha, not_lt, not_lt]
    exact ⟨hbc.trans hab, hba.trans hcb⟩

end StrictWeakOrder

/-- A sorting algorithm for comparators. -/
structure ComparatorSort where
  sort : {α : Type} → (α → α → Bool) → List α → List α
  perm : ∀ {α : Type} (lt : α → α → Bool) (xs : List α), (sort lt xs).Perm xs
  sorted : ∀ {α : Type} (lt : α → α → Bool) (xs : List α), StrictWeakOrder lt xs →
    (sort lt xs).Pairwise (fun a b => lt b a = false)

namespace ComparatorSort

variable (S : ComparatorSort)

@[simp] theorem mem_sort (lt : α → α → Bool) (xs : List α) {a : α} :
    a ∈ S.sort lt xs ↔ a ∈ xs := (S.perm lt xs).mem_iff

/-- Insert before the first entry that comes strictly after. -/
def insertBefore (lt : α → α → Bool) (a : α) : List α → List α
  | [] => [a]
  | b :: bs => if lt a b then a :: b :: bs else b :: insertBefore lt a bs

def insertAll (lt : α → α → Bool) (xs : List α) : List α :=
  xs.foldl (fun sorted a => insertBefore lt a sorted) []

theorem insertBefore_perm (lt : α → α → Bool) (a : α) (xs : List α) :
    (insertBefore lt a xs).Perm (a :: xs) := by
  induction xs with
  | nil => exact List.Perm.refl _
  | cons b bs ih =>
    simp only [insertBefore]
    split_ifs
    · exact List.Perm.refl _
    · exact (ih.cons b).trans (List.Perm.swap a b bs)

theorem foldl_insertBefore_perm (lt : α → α → Bool) (xs acc : List α) :
    (xs.foldl (fun sorted a => insertBefore lt a sorted) acc).Perm (acc ++ xs) := by
  induction xs generalizing acc with
  | nil => simp
  | cons a xs ih =>
    refine (ih _).trans ?_
    refine ((insertBefore_perm lt a acc).append_right xs).trans ?_
    exact List.perm_middle.symm

theorem insertBefore_pairwise {lt : α → α → Bool} {ys : List α} (h : StrictWeakOrder lt ys)
    {a : α} (ha : a ∈ ys) {xs : List α} (hxs : ∀ x ∈ xs, x ∈ ys)
    (hs : xs.Pairwise (fun a b => lt b a = false)) :
    (insertBefore lt a xs).Pairwise (fun a b => lt b a = false) := by
  induction xs with
  | nil => simp [insertBefore]
  | cons b bs ih =>
    have hb : b ∈ ys := hxs b (by simp)
    have hbs : ∀ x ∈ bs, x ∈ ys := fun x hx => hxs x (by simp [hx])
    rw [List.pairwise_cons] at hs
    simp only [insertBefore]
    split_ifs with hab
    · rw [List.pairwise_cons, List.pairwise_cons]
      refine ⟨?_, hs⟩
      intro c hc
      rcases List.mem_cons.mp hc with rfl | hc
      · exact h.asymm ha hb hab
      · exact h.not_after_trans ha hb (hbs c hc) (h.asymm ha hb hab) (hs.1 c hc)
    · rw [List.pairwise_cons]
      refine ⟨?_, ih hbs hs.2⟩
      intro c hc
      rcases List.mem_cons.mp ((insertBefore_perm lt a bs).mem_iff.mp hc) with rfl | hc
      · simpa using hab
      · exact hs.1 c hc

theorem foldl_insertBefore_pairwise {lt : α → α → Bool} {ys : List α} (h : StrictWeakOrder lt ys)
    (xs acc : List α) (hxs : ∀ x ∈ xs, x ∈ ys) (hacc : ∀ x ∈ acc, x ∈ ys)
    (hs : acc.Pairwise (fun a b => lt b a = false)) :
    (xs.foldl (fun sorted a => insertBefore lt a sorted) acc).Pairwise
      (fun a b => lt b a = false) := by
  induction xs generalizing acc with
  | nil => exact hs
  | cons a xs ih =>
    have ha : a ∈ ys := hxs a (by simp)
    refine ih _ (fun x hx => hxs x (by simp [hx])) ?_ (insertBefore_pairwise h ha hacc hs)
    intro x hx
    rcases List.mem_cons.mp ((insertBefore_perm lt a acc).mem_iff.mp hx) with rfl | hx
    · exact ha
    · exact hacc x hx

/-- Insertion sort, which keeps entries that compare equal in order. -/
def insertion : ComparatorSort where
  sort := insertAll
  perm lt xs := by simpa [insertAll] using foldl_insertBefore_perm lt xs []
  sorted lt xs h := foldl_insertBefore_pairwise h xs [] (fun _ hx => hx) (by simp) (by simp)

end ComparatorSort

end StreamInfer.General
