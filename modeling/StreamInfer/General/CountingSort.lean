import StreamInfer.General.Scatter

/-! Counting sort of records with natural-number keys below a bound. `buckets`
lists the records bucket by bucket; `countingPositions` sends an entry to the
number of smaller keys plus the number of equal keys before it. Scattering any
payload along these destinations is the bucket order, so it is a stable sort. -/

namespace StreamInfer.General

variable {α β : Type*}

/-- The records of bucket `0`, then bucket `1`, up to bucket `bound - 1`. -/
def buckets (bound : ℕ) (key : α → ℕ) (xs : List α) : List α :=
  (List.range bound).flatMap (fun k => xs.filter (fun x => key x == k))

/-- Smaller keys, plus equal keys at earlier entries. -/
def countingPositions (keys : List ℕ) : List ℕ :=
  (List.range keys.length).map (fun i =>
    keys.countP (· < keys.getD i 0) + (keys.take i).countP (· == keys.getD i 0))

/-! ### The bucket order -/

theorem buckets_succ (bound : ℕ) (key : α → ℕ) (xs : List α) :
    buckets (bound + 1) key xs = buckets bound key xs ++ xs.filter (fun x => key x == bound) := by
  simp [buckets, List.range_succ]

theorem buckets_perm_filter (bound : ℕ) (key : α → ℕ) (xs : List α) :
    (buckets bound key xs).Perm (xs.filter (fun x => key x < bound)) := by
  induction bound with
  | zero => simp [buckets]
  | succ k ih =>
    rw [buckets_succ]
    refine (ih.append_right _).trans ?_
    have hsplit := List.filter_append_perm (fun x => decide (key x < k))
      (xs.filter (fun x => key x < k + 1))
    simp only [List.filter_filter] at hsplit
    have h₁ : ∀ x, (decide (key x < k) && decide (key x < k + 1)) = decide (key x < k) := by
      intro x; by_cases h : key x < k <;> simp [h]; omega
    have h₂ : ∀ x, ((!decide (key x < k)) && decide (key x < k + 1)) = (key x == k) := by
      intro x; rw [Bool.eq_iff_iff]; simp; omega
    simpa only [h₁, h₂] using hsplit

theorem buckets_perm {bound : ℕ} {key : α → ℕ} {xs : List α} (h : ∀ x ∈ xs, key x < bound) :
    (buckets bound key xs).Perm xs := by
  have hp := buckets_perm_filter bound key xs
  rwa [List.filter_eq_self.mpr (by simpa using h)] at hp

theorem length_buckets (bound : ℕ) (key : α → ℕ) (xs : List α) :
    (buckets bound key xs).length = xs.countP (fun x => key x < bound) := by
  rw [(buckets_perm_filter bound key xs).length_eq, List.countP_eq_length_filter]

theorem mem_buckets {bound : ℕ} {key : α → ℕ} {xs : List α} {x : α} :
    x ∈ buckets bound key xs ↔ x ∈ xs ∧ key x < bound := by
  simpa using (buckets_perm_filter bound key xs).mem_iff (a := x)

/-- The bucket order is sorted by key. -/
theorem buckets_pairwise (bound : ℕ) (key : α → ℕ) (xs : List α) :
    (buckets bound key xs).Pairwise (fun x y => key x ≤ key y) := by
  induction bound with
  | zero => simp [buckets]
  | succ k ih =>
    rw [buckets_succ, List.pairwise_append]
    refine ⟨ih, ?_, ?_⟩
    · apply List.pairwise_of_forall_mem_list
      intro x hx y hy
      simp only [List.mem_filter, beq_iff_eq] at hx hy
      omega
    · intro x hx y hy
      have hx' := (mem_buckets.mp hx).2
      simp only [List.mem_filter, beq_iff_eq] at hy
      omega

theorem buckets_map (bound : ℕ) (key : β → ℕ) (f : α → β) (xs : List α) :
    buckets bound key (xs.map f) = (buckets bound (fun x => key (f x)) xs).map f := by
  simp [buckets, List.filter_map, List.map_flatMap, Function.comp_def]

/-! ### The destinations -/

@[simp] theorem length_countingPositions (keys : List ℕ) :
    (countingPositions keys).length = keys.length := by
  simp [countingPositions]

/-- Entry `i` is entry number `countP p (take i)` of the entries satisfying `p`. -/
theorem getElem?_filter_countP (p : α → Bool) (xs : List α) {i : ℕ} (hi : i < xs.length)
    (hp : p xs[i] = true) : (xs.filter p)[(xs.take i).countP p]? = some xs[i] := by
  have hsplit : xs.filter p = (xs.take i).filter p ++ xs[i] :: (xs.drop (i + 1)).filter p := by
    conv_lhs => rw [← List.take_append_drop i xs, List.drop_eq_getElem_cons hi]
    rw [List.filter_append, List.filter_cons_of_pos hp]
  rw [hsplit, List.countP_eq_length_filter, List.getElem?_append_right le_rfl]
  simp

theorem getElem?_buckets_add {bound k : ℕ} (hk : k < bound) (key : α → ℕ) (xs : List α) {c : ℕ}
    (hc : c < (xs.filter (fun x => key x == k)).length) :
    (buckets bound key xs)[xs.countP (fun x => key x < k) + c]? =
      (xs.filter (fun x => key x == k))[c]? := by
  induction bound with
  | zero => omega
  | succ b ih =>
    rw [buckets_succ]
    by_cases hkb : k < b
    · have h := ih hkb
      rw [List.getElem?_eq_getElem hc] at h ⊢
      obtain ⟨hlt, hval⟩ := List.getElem?_eq_some_iff.mp h
      rw [List.getElem?_append_left hlt, List.getElem?_eq_getElem hlt, hval]
    · have hb : k = b := by omega
      subst hb
      rw [List.getElem?_append_right (by rw [length_buckets]; omega), length_buckets]
      congr 1
      omega

/-- The bucket order stores each entry at its counting position. -/
theorem getElem?_buckets {bound : ℕ} {key : α → ℕ} {xs : List α} (h : ∀ x ∈ xs, key x < bound)
    (i : ℕ) (hi : i < (countingPositions (xs.map key)).length) :
    (buckets bound key xs)[(countingPositions (xs.map key))[i]]? = xs[i]? := by
  have hx : i < xs.length := by simpa using hi
  have hpos : (countingPositions (xs.map key))[i] =
      xs.countP (fun x => key x < key xs[i]) +
        (xs.take i).countP (fun x => key x == key xs[i]) := by
    simp [countingPositions, List.countP_map, Function.comp_def, ← List.map_take, hx]
  have hget := getElem?_filter_countP (fun x => key x == key xs[i]) xs hx (by simp)
  rw [hpos, getElem?_buckets_add (h _ (List.getElem_mem hx)) key xs
    (List.getElem?_eq_some_iff.mp hget).1, hget, List.getElem?_eq_getElem hx]

theorem countingPositions_positions (keys : List ℕ) :
    Positions keys.length (countingPositions keys) := by
  obtain ⟨bound, hb⟩ : ∃ bound, ∀ k ∈ keys, k < bound :=
    ⟨keys.sum + 1, fun k hk => Nat.lt_succ_of_le (List.single_le_sum (by simp) k hk)⟩
  have hkeys : (List.range keys.length).map (fun i => keys.getD i 0) = keys := by
    simpa [gather] using gather_range 0 keys
  have hlt : ∀ i ∈ List.range keys.length, keys.getD i 0 < bound := by
    intro i hi
    have hmem := List.mem_map_of_mem (f := fun i => keys.getD i 0) hi
    rw [hkeys] at hmem
    exact hb _ hmem
  have hget := fun i hi => getElem?_buckets hlt i hi
  rw [hkeys] at hget
  refine Positions.of_index (by simp) ((buckets_perm hlt).length_eq.trans (by simp)) ?_
  intro i hi
  rw [hget i hi]
  exact List.getElem?_range (by simpa using hi)

/-- Scattering along the counting positions sorts stably. -/
theorem scatter_countingPositions (d : α) {bound : ℕ} {key : α → ℕ} {xs : List α}
    (h : ∀ x ∈ xs, key x < bound) :
    scatter d xs (countingPositions (xs.map key)) = buckets bound key xs := by
  apply scatter_eq d (by simpa using countingPositions_positions (xs.map key))
    (buckets_perm h).length_eq
  exact getElem?_buckets h

end StreamInfer.General
