import Mathlib

/-! The last entries of a log, kept as a queue with a running sum: a push drops the front of
a full window. The first largest positive value of a list of indices, by one pass. -/

namespace StreamInfer.General

/-- The last `n` entries. -/
def window {α : Type*} (n : ℕ) (log : List α) : List α := log.drop (log.length - n)

section Window

variable {α β : Type*} {n : ℕ}

@[simp] theorem length_window (log : List α) : (window n log).length = min n log.length := by
  rw [window, List.length_drop]
  omega

theorem map_window (f : α → β) (log : List α) : window n (log.map f) = (window n log).map f := by
  rw [window, window, List.length_map, List.map_drop]

theorem mem_of_mem_window {log : List α} {x : α} (h : x ∈ window n log) : x ∈ log := List.mem_of_mem_drop h

/-- A push on a full window drops the front. -/
theorem window_concat (hn : 0 < n) (log : List α) (x : α) :
    window n (log ++ [x]) =
      (if n ≤ (window n log).length then (window n log).tail else window n log) ++ [x] := by
  by_cases hfull : n ≤ log.length
  · have hlen : (log ++ [x]).length - n = log.length - n + 1 := by
      rw [List.length_append, List.length_singleton]
      omega
    rw [if_pos (by rw [length_window]; omega), window, hlen, window, List.tail_drop,
      List.drop_append_of_le_length (by omega)]
  · have hlen : (log ++ [x]).length - n = 0 := by
      rw [List.length_append, List.length_singleton]
      omega
    have hlen' : log.length - n = 0 := by omega
    rw [if_neg (by rw [length_window]; omega), window, hlen, window, hlen', List.drop_zero, List.drop_zero]

end Window

theorem sum_tail {w : List ℤ} (h : w ≠ []) : w.tail.sum = w.sum - w.headD 0 := by
  cases w with
  | nil => exact absurd rfl h
  | cons a w => simp

/-- The running sum of a window under a push. -/
theorem sum_window_concat {n : ℕ} (hn : 0 < n) (log : List ℤ) (x : ℤ) :
    (window n (log ++ [x])).sum =
      (if n ≤ (window n log).length then (window n log).sum - (window n log).headD 0
        else (window n log).sum) + x := by
  rw [window_concat hn, List.sum_append, List.sum_singleton]
  split_ifs with hfull
  · have hne : window n log ≠ [] := by
      intro hnil
      rw [hnil] at hfull
      simp at hfull
      omega
    rw [sum_tail hne]
  · rfl

/-! ### The first largest value -/

section FirstLargest

variable {α : Type*} [LinearOrder α]

/-- The pass from `zero` on finds the first index of the largest value above `zero`, or no
index. -/
theorem foldl_firstLargest (score : ℕ → α) (zero : α) (n : ℕ) :
    let best := (List.range n).foldl
      (fun best i => if score i > best.1 then (score i, (i : ℤ)) else best) (zero, -1)
    (best = (zero, -1) ∧ ∀ i < n, score i ≤ zero) ∨
      ∃ i < n, best = (score i, (i : ℤ)) ∧ zero < score i ∧ (∀ j < n, score j ≤ score i) ∧
        ∀ j < i, score j < score i := by
  induction n with
  | zero => exact .inl ⟨rfl, by simp⟩
  | succ n ih =>
    rw [List.range_succ, List.foldl_append]
    simp only [List.foldl_cons, List.foldl_nil] at ih ⊢
    rcases ih with ⟨hbest, hall⟩ | ⟨i, hi, hbest, hpos, hmax, hfirst⟩
    · rw [hbest]
      by_cases hn : score n > zero
      · refine .inr ⟨n, Nat.lt_succ_self n, if_pos hn, hn, fun j hj => ?_,
          fun j hj => (hall j hj).trans_lt hn⟩
        rcases Nat.lt_succ_iff_lt_or_eq.mp hj with hj | rfl
        · exact (hall j hj).trans hn.le
        · exact le_rfl
      · refine .inl ⟨if_neg hn, fun j hj => ?_⟩
        rcases Nat.lt_succ_iff_lt_or_eq.mp hj with hj | rfl
        · exact hall j hj
        · exact not_lt.mp hn
    · rw [hbest]
      by_cases hn : score n > score i
      · refine .inr ⟨n, Nat.lt_succ_self n, if_pos hn, hpos.trans hn, fun j hj => ?_,
          fun j hj => (hmax j hj).trans_lt hn⟩
        rcases Nat.lt_succ_iff_lt_or_eq.mp hj with hj | rfl
        · exact (hmax j hj).trans hn.le
        · exact le_rfl
      · refine .inr ⟨i, Nat.lt_succ_of_lt hi, if_neg hn, hpos, fun j hj => ?_, hfirst⟩
        rcases Nat.lt_succ_iff_lt_or_eq.mp hj with hj | rfl
        · exact hmax j hj
        · exact not_lt.mp hn

end FirstLargest

end StreamInfer.General
