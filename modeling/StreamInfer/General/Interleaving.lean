import Mathlib

/-! Interleavings of threads, each a list of operations. What happens at a place that only
one thread touches happens in the order of that thread. -/

namespace StreamInfer.General

variable {ι β : Type} [DecidableEq ι]

/-- The operations of all threads in some order that keeps the order of each thread. -/
def Interleaves (threads : ι → List β) (order : List β) : Prop :=
  ∃ tagged : List (ι × β), order = tagged.map Prod.snd ∧
    ∀ j, (tagged.filter (·.1 = j)).map Prod.snd = threads j

/-- The operations that only thread `j` has come in its order. -/
theorem Interleaves.filter_eq {threads : ι → List β} {order : List β}
    (h : Interleaves threads order) {p : β → Bool} {j : ι}
    (hother : ∀ i, i ≠ j → ∀ x ∈ threads i, p x = false) :
    order.filter p = (threads j).filter p := by
  obtain ⟨tagged, rfl, hthreads⟩ := h
  rw [← hthreads j, List.filter_map, List.filter_map, List.filter_filter]
  congr 1
  refine List.filter_congr fun w hw => ?_
  by_cases hj : w.1 = j
  · simp [hj]
  · have hmem : w.2 ∈ threads w.1 := by
      rw [← hthreads w.1]
      exact List.mem_map_of_mem (List.mem_filter.mpr ⟨hw, decide_eq_true rfl⟩)
    simp [hj, hother w.1 hj w.2 hmem]

/-- A fold of updates of single places acts on each place alone. -/
theorem foldl_update_apply {A α : Type} [DecidableEq A] (place : β → A) (act : β → α → α)
    (ops : List β) (mem : A → α) (a : A) :
    ops.foldl (fun mem op => Function.update mem (place op) (act op (mem (place op)))) mem a =
      (ops.filter (place · = a)).foldl (fun v op => act op v) (mem a) := by
  induction ops generalizing mem with
  | nil => rfl
  | cons op ops ih =>
    rw [List.foldl_cons, ih]
    by_cases hop : place op = a
    · subst hop
      simp
    · rw [List.filter_cons_of_neg (by simpa using hop), Function.update_of_ne (Ne.symm hop)]

end StreamInfer.General
