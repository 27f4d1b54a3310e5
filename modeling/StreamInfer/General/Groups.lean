import Mathlib

/-! A list cut into consecutive groups of `k` entries, with the entries that do
not fill a group. Appending an entry either lengthens the leftover or completes
it to one more group. -/

namespace StreamInfer.General

variable {α β : Type}

/-- The full groups of `k` consecutive entries. -/
def groups (k : ℕ) (xs : List α) : List (List α) :=
  (List.range (xs.length / k)).map fun i => (xs.drop (i * k)).take k

/-- The entries after the last full group. -/
def leftover (k : ℕ) (xs : List α) : List α := xs.drop (xs.length / k * k)

@[simp] theorem groups_nil (k : ℕ) : groups k ([] : List α) = [] := by simp [groups]

@[simp] theorem leftover_nil (k : ℕ) : leftover k ([] : List α) = [] := by simp [leftover]

theorem length_leftover (k : ℕ) (xs : List α) : (leftover k xs).length = xs.length % k := by
  have := Nat.div_add_mod' xs.length k
  rw [leftover, List.length_drop]
  omega

theorem length_leftover_lt {k : ℕ} (hk : 0 < k) (xs : List α) : (leftover k xs).length < k := by
  rw [length_leftover]
  exact Nat.mod_lt _ hk

theorem flatten_take_groups (k : ℕ) (xs : List α) (n : ℕ) :
    ((List.range n).map fun i => (xs.drop (i * k)).take k).flatten = xs.take (n * k) := by
  induction n with
  | zero => simp
  | succ n ih =>
    rw [List.range_succ, List.map_append, List.flatten_append, ih, List.map_singleton,
      List.flatten_singleton, ← List.take_add, Nat.succ_mul]

/-- The groups and the leftover are the list. -/
theorem groups_append_leftover (k : ℕ) (xs : List α) :
    (groups k xs).flatten ++ leftover k xs = xs := by
  rw [groups, flatten_take_groups, leftover, List.take_append_drop]

section Concat

variable {k : ℕ} {xs : List α} {x : α}

theorem take_drop_concat {i : ℕ} (hi : i < xs.length / k) :
    ((xs ++ [x]).drop (i * k)).take k = (xs.drop (i * k)).take k := by
  have hle : (i + 1) * k ≤ xs.length / k * k := Nat.mul_le_mul_right k hi
  have hdiv := Nat.div_mul_le_self xs.length k
  rw [Nat.add_mul] at hle
  rw [List.drop_append_of_le_length (by omega), List.take_append_of_le_length]
  rw [List.length_drop]
  omega

theorem drop_concat_leftover :
    (xs ++ [x]).drop (xs.length / k * k) = leftover k xs ++ [x] := by
  rw [List.drop_append_of_le_length (Nat.div_mul_le_self _ _), leftover]

theorem groups_concat_of_short (h : (leftover k xs).length + 1 < k) :
    groups k (xs ++ [x]) = groups k xs ∧ leftover k (xs ++ [x]) = leftover k xs ++ [x] := by
  rw [length_leftover] at h
  have hdiv : (xs ++ [x]).length / k = xs.length / k := by
    rw [List.length_append, List.length_singleton, Nat.div_eq_iff (by omega)]
    have := Nat.div_add_mod' xs.length k
    omega
  refine ⟨?_, by rw [leftover, hdiv, drop_concat_leftover]⟩
  rw [groups, groups, hdiv]
  exact List.map_congr_left fun i hi => take_drop_concat (List.mem_range.mp hi)

theorem groups_concat_of_full (h : (leftover k xs).length + 1 = k) :
    groups k (xs ++ [x]) = groups k xs ++ [leftover k xs ++ [x]] ∧ leftover k (xs ++ [x]) = [] := by
  have hlen := h
  rw [length_leftover] at h
  have hdiv : (xs ++ [x]).length / k = xs.length / k + 1 := by
    rw [List.length_append, List.length_singleton, Nat.div_eq_iff (by omega), Nat.succ_mul]
    have := Nat.div_add_mod' xs.length k
    omega
  constructor
  · rw [groups, groups, hdiv, List.range_succ, List.map_append, List.map_singleton,
      drop_concat_leftover]
    congr 1
    · exact List.map_congr_left fun i hi => take_drop_concat (List.mem_range.mp hi)
    · rw [List.take_of_length_le (by simp [hlen])]
  · rw [leftover, hdiv, List.drop_eq_nil_iff, List.length_append, List.length_singleton,
      Nat.succ_mul]
    have := Nat.div_add_mod' xs.length k
    omega

end Concat

end StreamInfer.General
