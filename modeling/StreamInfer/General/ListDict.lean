import Mathlib

/-! Dictionaries of lists: the keys in the order they were made, and a list for each.
A list is extended only under a key that is there. How often an element stands in
the list of a key is counted over the extensions. -/

namespace StreamInfer.General

structure ListDict (κ α : Type) where
  keys : List κ
  lists : κ → List α

namespace ListDict

variable {κ α : Type} [DecidableEq κ]

/-- Empty lists for the given keys. -/
def ofKeys (keys : List κ) : ListDict κ α := ⟨keys, fun _ => []⟩

/-- `none` is a key that is not there. -/
def extend (d : ListDict κ α) (k : κ) (xs : List α) : Option (ListDict κ α) :=
  if k ∈ d.keys then some ⟨d.keys, Function.update d.lists k (d.lists k ++ xs)⟩ else none

def extendAll : ListDict κ α → List (κ × List α) → Option (ListDict κ α)
  | d, [] => some d
  | d, p :: ps => (d.extend p.1 p.2).bind fun d' => d'.extendAll ps

def items (d : ListDict κ α) : List (κ × List α) := d.keys.map fun k => (k, d.lists k)

variable {d d' : ListDict κ α} {k : κ} {xs : List α}

/-- How often extensions put an element under a key. -/
def timesIn [BEq α] (ps : List (κ × List α)) (k : κ) (x : α) : ℕ :=
  (ps.map fun p => if p.1 = k then p.2.count x else 0).sum

variable [BEq α]

theorem timesIn_cons (p : κ × List α) (ps : List (κ × List α)) (k : κ) (x : α) :
    timesIn (p :: ps) k x = (if p.1 = k then p.2.count x else 0) + timesIn ps k x := by
  rw [timesIn, timesIn, List.map_cons, List.sum_cons]

theorem count_update (lists : κ → List α) (k' : κ) (x : α) :
    (Function.update lists k (lists k ++ xs) k').count x =
      (lists k').count x + if k = k' then xs.count x else 0 := by
  by_cases hk : k = k'
  · subst hk
    rw [Function.update_self, List.count_append, if_pos rfl]
  · rw [Function.update_of_ne (Ne.symm hk), if_neg hk, Nat.add_zero]

/-- Extensions under keys that are there succeed and keep the keys. -/
theorem extendAll_ok {ps : List (κ × List α)} (h : ∀ p ∈ ps, p.1 ∈ d.keys) :
    ∃ d', d.extendAll ps = some d' ∧ d'.keys = d.keys ∧
      ∀ k x, (d'.lists k).count x = (d.lists k).count x + timesIn ps k x := by
  induction ps generalizing d with
  | nil => exact ⟨d, rfl, rfl, fun k x => rfl⟩
  | cons p ps ih =>
    obtain ⟨hp, hps⟩ := List.forall_mem_cons.mp h
    obtain ⟨d', hok, hkeys, hcount⟩ :=
      ih (d := ⟨d.keys, Function.update d.lists p.1 (d.lists p.1 ++ p.2)⟩) hps
    refine ⟨d', ?_, hkeys, fun k x => ?_⟩
    · rw [extendAll, extend, if_pos hp, Option.bind_some]
      exact hok
    · rw [hcount, count_update, timesIn_cons, Nat.add_assoc]

/-! ### Extensions made by loops -/

theorem timesIn_append (ps qs : List (κ × List α)) (k : κ) (x : α) :
    timesIn (ps ++ qs) k x = timesIn ps k x + timesIn qs k x := by
  rw [timesIn, timesIn, timesIn, List.map_append, List.sum_append]

/-- A loop over a range makes the extensions of each of its passes. -/
theorem timesIn_flatMap_range (n : ℕ) (f : ℕ → List (κ × List α)) (k : κ) (x : α) :
    timesIn ((List.range n).flatMap f) k x = ∑ i ∈ Finset.range n, timesIn (f i) k x := by
  induction n with
  | zero => rfl
  | succ n ih =>
    rw [List.range_succ, List.flatMap_append, timesIn_append, ih, Finset.sum_range_succ,
      List.flatMap_singleton]

theorem timesIn_map_range (n : ℕ) (f : ℕ → κ × List α) (k : κ) (x : α) :
    timesIn ((List.range n).map f) k x =
      ∑ i ∈ Finset.range n, if (f i).1 = k then (f i).2.count x else 0 := by
  rw [← List.flatMap_singleton' ((List.range n).map f), List.flatMap_map, timesIn_flatMap_range]
  refine Finset.sum_congr rfl fun i _ => ?_
  rw [timesIn, List.map_singleton, List.sum_singleton]

/-- Putting the elements of a list one by one under one key. -/
theorem timesIn_map_single {β : Type} (k' : κ) (g : β → α) (ys : List β) (k : κ)
    (x : α) : timesIn (ys.map fun y => (k', [g y])) k x = if k' = k then (ys.map g).count x else 0 := by
  induction ys with
  | nil => simp [timesIn]
  | cons y ys ih =>
    rw [List.map_cons, timesIn_cons, ih, List.map_cons]
    split_ifs
    · rw [List.count_singleton, List.count_cons, Nat.add_comm]
    · rfl

end ListDict

end StreamInfer.General
