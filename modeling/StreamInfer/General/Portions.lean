import Mathlib

/-! Tokens under keys, counted as a multiset. A step exchanges some tokens for others and
keeps the rest. When what it takes of each key is all there is of that key, no key is taken
twice, and afterwards the portion of a taken key is what the step put there. -/

namespace StreamInfer.General

variable {κ α β : Type}

/-- Some tokens are exchanged for others; the rest stays. -/
def Exchange (taken put m m' : Multiset α) : Prop := ∃ rest, m = taken + rest ∧ m' = put + rest

namespace Exchange

variable {taken put m m' : Multiset α}

theorem refl (m : Multiset α) : Exchange 0 0 m m := ⟨m, by simp, by simp⟩

theorem add_right (h : Exchange taken put m m') (other : Multiset α) :
    Exchange taken put (m + other) (m' + other) := by
  obtain ⟨rest, rfl, rfl⟩ := h
  exact ⟨rest + other, add_assoc _ _ _, add_assoc _ _ _⟩

/-- Tokens that move from one part to another. -/
theorem move {part part' : Multiset α} (h : Exchange 0 put part part') (h' : Exchange taken 0 m m') :
    Exchange taken put (part + m) (part' + m') := by
  obtain ⟨rest, rfl, rfl⟩ := h
  obtain ⟨rest', rfl, rfl⟩ := h'
  refine ⟨rest + rest', ?_, ?_⟩
  · rw [zero_add, add_left_comm]
  · rw [zero_add, add_assoc]

theorem map (f : α → β) (h : Exchange taken put m m') :
    Exchange (taken.map f) (put.map f) (m.map f) (m'.map f) := by
  obtain ⟨rest, rfl, rfl⟩ := h
  exact ⟨rest.map f, Multiset.map_add _ _ _, Multiset.map_add _ _ _⟩

theorem forall_mem {P : α → Prop} (h : Exchange taken put m m') (hm : ∀ a ∈ m, P a)
    (hput : ∀ a ∈ put, P a) : ∀ a ∈ m', P a := by
  obtain ⟨rest, rfl, rfl⟩ := h
  intro a ha
  rcases Multiset.mem_add.mp ha with ha | ha
  · exact hput a ha
  · exact hm a (Multiset.mem_add.mpr (.inr ha))

theorem taken_le (h : Exchange taken put m m') : taken ≤ m := by
  obtain ⟨rest, rfl, rfl⟩ := h
  exact Multiset.le_add_right _ _

theorem eq_of_eq (h : Exchange taken put m m') (heq : taken = put) : m' = m := by
  obtain ⟨rest, rfl, rfl⟩ := h
  rw [heq]

/-- One of many parts changes, taking in some tokens. -/
theorem add_sum_range {more : Multiset α} {f g : ℕ → Multiset α} {i n : ℕ} (hi : i < n)
    (hother : ∀ j < n, j ≠ i → g j = f j) (h : Exchange taken put (more + f i) (g i)) :
    Exchange taken put (more + ∑ j ∈ Finset.range n, f j) (∑ j ∈ Finset.range n, g j) := by
  have hmem : i ∈ Finset.range n := Finset.mem_range.mpr hi
  rw [← Finset.add_sum_erase _ f hmem, ← Finset.add_sum_erase _ g hmem,
    Finset.sum_congr rfl fun j hj => hother j (Finset.mem_range.mp (Finset.mem_of_mem_erase hj))
      (Finset.ne_of_mem_erase hj), ← add_assoc]
  exact h.add_right _

/-- One of many parts changes. -/
theorem sum_range {f g : ℕ → Multiset α} {i n : ℕ} (hi : i < n) (hother : ∀ j < n, j ≠ i → g j = f j)
    (h : Exchange taken put (f i) (g i)) :
    Exchange taken put (∑ j ∈ Finset.range n, f j) (∑ j ∈ Finset.range n, g j) := by
  rw [← zero_add (f i)] at h
  have hsum := add_sum_range hi hother h
  rwa [zero_add] at hsum

end Exchange

/-! ### Repeated tokens -/

/-- One element apart from the others. -/
theorem sum_map_of_perm_cons {a : κ} {as rest : List κ} (h : as.Perm (a :: rest)) (f : κ → Multiset α) :
    (as.map f).sum = f a + (rest.map f).sum := by
  rw [(h.map f).sum_eq, List.map_cons, List.sum_cons]

theorem coe_flatten_replicate (n : ℕ) (as : List α) :
    ((List.replicate n as).flatten : Multiset α) = n • (as : Multiset α) := by
  induction n with
  | zero => simp
  | succ n ih => rw [List.replicate_succ, List.flatten_cons, ← Multiset.coe_add, ih, succ_nsmul']

theorem coe_flatMap_replicate (n : ℕ) (f : κ → α) (ks : List κ) :
    ((ks.flatMap fun k => List.replicate n (f k) : List α) : Multiset α) =
      n • (ks.map f : Multiset α) := by
  induction ks with
  | nil => simp
  | cons k ks ih =>
    rw [List.flatMap_cons, ← Multiset.coe_add, ih, List.map_cons, ← Multiset.cons_coe,
      ← Multiset.singleton_add, nsmul_add, Multiset.nsmul_singleton, Multiset.coe_replicate]

theorem sum_map_nsmul_singleton (n : ℕ) (f : κ → α) (ks : List κ) :
    (ks.map fun k => n • ({f k} : Multiset α)).sum = n • (ks.map f : Multiset α) := by
  induction ks with
  | nil => simp
  | cons k ks ih =>
    rw [List.map_cons, List.sum_cons, ih, List.map_cons, ← Multiset.cons_coe, ← Multiset.singleton_add,
      nsmul_add]

/-! ### Portions -/

variable [DecidableEq κ] {key : α → κ} {k : κ} {ks : List κ} {F G : κ → Multiset α} {m m' : Multiset α}

def portion (key : α → κ) (k : κ) (m : Multiset α) : Multiset α := m.filter (key · = k)

@[simp] theorem portion_zero : portion key k 0 = 0 := rfl

@[simp] theorem portion_add (m m' : Multiset α) :
    portion key k (m + m') = portion key k m + portion key k m' := Multiset.filter_add _ _ _

/-- Tokens under one key. -/
def Keyed (key : α → κ) (k : κ) (m : Multiset α) : Prop := ∀ a ∈ m, key a = k

theorem Keyed.portion_eq {k' : κ} (h : Keyed key k m) : portion key k' m = if k' = k then m else 0 := by
  split_ifs with hk
  · exact Multiset.filter_eq_self.mpr fun a ha => (h a ha).trans hk.symm
  · exact Multiset.filter_eq_nil.mpr fun a ha hkey => hk (hkey.symm.trans (h a ha))

theorem portion_sum (hF : ∀ k' ∈ ks, Keyed key k' (F k')) :
    portion key k (ks.map F).sum = ks.count k • F k := by
  induction ks with
  | nil => simp
  | cons k' ks ih =>
    obtain ⟨hk', hks⟩ := List.forall_mem_cons.mp hF
    rw [List.map_cons, List.sum_cons, portion_add, hk'.portion_eq, ih hks, List.count_cons]
    by_cases hk : k = k'
    · subst hk
      simp [add_nsmul, add_comm]
    · simp [hk, Ne.symm hk]

/-- What is taken of each key is all of it. -/
structure TakesAll (key : α → κ) (ks : List κ) (F : κ → Multiset α) (m : Multiset α) : Prop where
  keyed : ∀ k ∈ ks, Keyed key k (F k)
  nonempty : ∀ k ∈ ks, F k ≠ 0
  all : ∀ k ∈ ks, portion key k m ≤ F k

/-- No key is taken twice, and nothing of a taken key is left. -/
theorem TakesAll.nodup {rest : Multiset α} (h : TakesAll key ks F m) (hm : m = (ks.map F).sum + rest) :
    ks.Nodup ∧ ∀ k ∈ ks, portion key k rest = 0 := by
  have hcount : ∀ k ∈ ks, ks.count k = 1 ∧ portion key k rest = 0 := by
    intro k hk
    have hle := Multiset.card_le_card (h.all k hk)
    rw [hm, portion_add, portion_sum h.keyed, Multiset.card_add, Multiset.card_nsmul] at hle
    have hpos : 0 < (F k).card := Multiset.card_pos.mpr (h.nonempty k hk)
    have hmem : 0 < ks.count k := List.count_pos_iff.mpr hk
    have hone : ks.count k ≤ 1 := by
      by_contra hmore
      have hmul : 2 * (F k).card ≤ ks.count k * (F k).card := Nat.mul_le_mul_right _ (by omega)
      omega
    have heq : ks.count k = 1 := by omega
    rw [heq, Nat.one_mul] at hle
    exact ⟨heq, Multiset.card_eq_zero.mp (by omega)⟩
  refine ⟨List.nodup_iff_count_le_one.mpr fun k => ?_, fun k hk => (hcount k hk).2⟩
  by_cases hk : k ∈ ks
  · exact (hcount k hk).1.le
  · rw [List.count_eq_zero_of_not_mem hk]
    exact Nat.zero_le 1

/-- The portions after an exchange that takes all of its keys. -/
theorem TakesAll.portion_eq (h : TakesAll key ks F m) (hG : ∀ k ∈ ks, Keyed key k (G k))
    (hx : Exchange (ks.map F).sum (ks.map G).sum m m') :
    ks.Nodup ∧ ∀ k, portion key k m' = if k ∈ ks then G k else portion key k m := by
  obtain ⟨rest, hm, rfl⟩ := hx
  obtain ⟨hnodup, hrest⟩ := h.nodup hm
  refine ⟨hnodup, fun k => ?_⟩
  rw [portion_add, portion_sum hG]
  split_ifs with hk
  · rw [List.count_eq_one_of_mem hnodup hk, one_smul, hrest k hk, add_zero]
  · rw [hm, portion_add, portion_sum h.keyed, List.count_eq_zero_of_not_mem hk, zero_nsmul, zero_nsmul]

end StreamInfer.General
