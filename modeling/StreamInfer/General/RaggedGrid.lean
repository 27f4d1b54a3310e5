import StreamInfer.General.Scatter
import StreamInfer.General.ComparatorSort

/-! Keys of three levels, where the length of the last level depends on the second.
The keys in lexicographic order stand at the sum of a block, of the lengths before
and of the last index; records with each key once, sorted by key, stand in that
order. -/

namespace StreamInfer.General

variable {α β : Type}

/-- Three indices in lexicographic order. -/
abbrev GridKey := ℕ ×ₗ ℕ ×ₗ ℕ

def gridKey (l r t : ℕ) : GridKey := toLex (l, toLex (r, t))

theorem gridKey_lt {l r t l' r' t' : ℕ} :
    gridKey l r t < gridKey l' r' t' ↔ l < l' ∨ l = l' ∧ (r < r' ∨ r = r' ∧ t < t') := by
  rw [gridKey, gridKey, Prod.Lex.toLex_lt_toLex, Prod.Lex.toLex_lt_toLex]

theorem gridKey_inj {l r t l' r' t' : ℕ} :
    gridKey l r t = gridKey l' r' t' ↔ l = l' ∧ r = r' ∧ t = t' := by
  rw [gridKey, gridKey, EmbeddingLike.apply_eq_iff_eq, Prod.mk.injEq, EmbeddingLike.apply_eq_iff_eq,
    Prod.mk.injEq]

/-- The keys of one block, in order. -/
def gridBlock (R : ℕ) (len : ℕ → ℕ) (l : ℕ) : List GridKey :=
  (List.range R).flatMap fun r => (List.range (len r)).map fun t => gridKey l r t

/-- The keys of the blocks, in order. -/
def grid (ls : List ℕ) (R : ℕ) (len : ℕ → ℕ) : List GridKey := ls.flatMap (gridBlock R len)

variable {ls : List ℕ} {R : ℕ} {len : ℕ → ℕ}

theorem mem_gridBlock {l : ℕ} {k : GridKey} :
    k ∈ gridBlock R len l ↔ ∃ r < R, ∃ t < len r, k = gridKey l r t := by
  simp only [gridBlock, List.mem_flatMap, List.mem_range, List.mem_map, eq_comm]

theorem mem_grid {k : GridKey} :
    k ∈ grid ls R len ↔ ∃ l ∈ ls, ∃ r < R, ∃ t < len r, k = gridKey l r t := by
  simp only [grid, List.mem_flatMap, mem_gridBlock]

theorem gridBlock_pairwise (l : ℕ) : (gridBlock R len l).Pairwise (· < ·) := by
  rw [gridBlock, List.pairwise_flatMap]
  refine ⟨fun r _ => ?_, List.Pairwise.imp ?_ List.pairwise_lt_range⟩
  · rw [List.pairwise_map]
    exact List.Pairwise.imp (fun h => gridKey_lt.mpr (.inr ⟨rfl, .inr ⟨rfl, h⟩⟩)) List.pairwise_lt_range
  · intro r r' hr k hk k' hk'
    obtain ⟨t, -, rfl⟩ := List.mem_map.mp hk
    obtain ⟨t', -, rfl⟩ := List.mem_map.mp hk'
    exact gridKey_lt.mpr (.inr ⟨rfl, .inl hr⟩)

theorem grid_pairwise (hls : ls.Pairwise (· < ·)) : (grid ls R len).Pairwise (· < ·) := by
  rw [grid, List.pairwise_flatMap]
  refine ⟨fun l _ => gridBlock_pairwise l, hls.imp fun {l l'} hl k hk k' hk' => ?_⟩
  obtain ⟨r, -, t, -, rfl⟩ := mem_gridBlock.mp hk
  obtain ⟨r', -, t', -, rfl⟩ := mem_gridBlock.mp hk'
  exact gridKey_lt.mpr (.inl hl)

/-! ### Positions -/

/-- Entry `j` of list `k` of a concatenation stands after the lists before. -/
theorem getElem?_flatMap_range (f : ℕ → List β) {n k j : ℕ} (hk : k < n) (hj : j < (f k).length) :
    ((List.range n).flatMap f)[(∑ i ∈ Finset.range k, (f i).length) + j]? = (f k)[j]? := by
  have hlen : ∀ n, ((List.range n).flatMap f).length = ∑ i ∈ Finset.range n, (f i).length := by
    intro n
    induction n with
    | zero => rfl
    | succ n ih =>
      rw [List.range_succ, List.flatMap_append, List.length_append, ih, Finset.sum_range_succ,
        List.flatMap_singleton]
  obtain ⟨m, rfl⟩ : ∃ m, n = k + (m + 1) := ⟨n - k - 1, by omega⟩
  rw [List.range_add, List.flatMap_append, List.getElem?_append_right (by rw [hlen]; omega), hlen,
    Nat.add_sub_cancel_left, List.range_succ_eq_map, List.map_cons, List.flatMap_cons, Nat.add_zero,
    List.getElem?_append_left hj]

theorem length_gridBlock (l : ℕ) : (gridBlock R len l).length = ∑ r ∈ Finset.range R, len r := by
  induction R with
  | zero => rfl
  | succ R ih =>
    rw [gridBlock] at ih ⊢
    rw [List.range_succ, List.flatMap_append, List.length_append, ih, Finset.sum_range_succ,
      List.flatMap_singleton, List.length_map, List.length_range]

/-- A key stands at its block, after the lengths before its second index. -/
theorem getElem?_grid {p l r t : ℕ} (hl : ls[p]? = some l) (hr : r < R) (ht : t < len r) :
    (grid ls R len)[p * (∑ i ∈ Finset.range R, len i) + ((∑ i ∈ Finset.range r, len i) + t)]? =
      some (gridKey l r t) := by
  have hlens : ∀ i, ((List.range (len i)).map fun t => gridKey l i t).length = len i := by simp
  have hblock : (gridBlock R len l)[(∑ i ∈ Finset.range r, len i) + t]? = some (gridKey l r t) := by
    have hat := getElem?_flatMap_range (fun r => (List.range (len r)).map fun t => gridKey l r t) hr
      (j := t) (by rw [hlens]; exact ht)
    simp only [hlens] at hat
    rw [gridBlock, hat, List.getElem?_map, List.getElem?_range ht, Option.map_some]
  have hlt : (∑ i ∈ Finset.range r, len i) + t < ∑ i ∈ Finset.range R, len i := by
    have hlen : (gridBlock R len l).length = ∑ i ∈ Finset.range R, len i := length_gridBlock l
    rw [← hlen]
    exact (List.getElem?_eq_some_iff.mp hblock).1
  rw [grid, getElem?_flatMap_uniform (gridBlock R len) _ ls (fun l _ => length_gridBlock l) hlt, hl,
    Option.bind_some, hblock]

/-! ### Records sorted by key -/

/-- Records that have each key of a grid once, sorted by key, stand as the keys do. -/
theorem sort_eq_grid (S : ComparatorSort) {before : α → α → Bool} {key : α → GridKey} {xs : List α}
    (hbefore : ∀ a b, before a b = true ↔ key a < key b) (hls : ls.Pairwise (· < ·))
    (hmem : ∀ x ∈ xs, key x ∈ grid ls R len)
    (honce : ∀ k ∈ grid ls R len, (xs.map key).count k = 1) :
    (S.sort before xs).map key = grid ls R len := by
  have horder : StrictWeakOrder before xs := StrictWeakOrder.of_key key fun a _ b _ => hbefore a b
  have hincreasing : (grid ls R len).Pairwise (· < ·) := grid_pairwise hls
  have hsorted : ((S.sort before xs).map key).Pairwise (· ≤ ·) := by
    rw [List.pairwise_map]
    refine (S.sorted before xs horder).imp fun {a b} hab => ?_
    rw [← Bool.not_eq_true, hbefore, not_lt] at hab
    exact hab
  have hperm : (xs.map key).Perm (grid ls R len) := by
    rw [List.perm_iff_count]
    intro k
    by_cases hk : k ∈ grid ls R len
    · have hnodup := hincreasing.imp fun {a b} (hab : a < b) => hab.ne
      rw [honce k hk, List.count_eq_one_of_mem hnodup hk]
    · rw [List.count_eq_zero_of_not_mem hk, List.count_eq_zero_of_not_mem]
      intro hmem'
      obtain ⟨x, hx, rfl⟩ := List.mem_map.mp hmem'
      exact hk (hmem x hx)
  exact List.Perm.eq_of_pairwise' hsorted (hincreasing.imp fun {a b} (hab : a < b) => hab.le)
    (((S.perm before xs).map key).trans hperm)

end StreamInfer.General
