import Mathlib

/-! Lists whose entries satisfying a predicate come first. `front` and `rest` cut
a list at the number of such entries, and `frontMerge` joins several lists, all
fronts before all rests. When every list has its entries in front, so has the
merged one. -/

namespace StreamInfer.General

variable {α β : Type*}

/-- As many entries as satisfy the predicate. -/
def front (p : α → Bool) (xs : List α) : List α := xs.take (xs.countP p)

def rest (p : α → Bool) (xs : List α) : List α := xs.drop (xs.countP p)

/-- No entry satisfying the predicate follows one that does not. -/
def FrontFirst (p : α → Bool) (xs : List α) : Prop :=
  xs.Pairwise fun a b => p b = true → p a = true

/-- All fronts of the lists, then all rests. -/
def frontMerge (p : α → Bool) (xss : List (List α)) : List α :=
  xss.flatMap (front p) ++ xss.flatMap (rest p)

theorem front_append_rest (p : α → Bool) (xs : List α) : front p xs ++ rest p xs = xs :=
  List.take_append_drop _ _

@[simp] theorem length_front (p : α → Bool) (xs : List α) :
    (front p xs).length = xs.countP p := by
  rw [front, List.length_take, Nat.min_eq_left List.countP_le_length]

@[simp] theorem length_rest (p : α → Bool) (xs : List α) :
    (rest p xs).length = xs.length - xs.countP p := List.length_drop

theorem front_map (p : β → Bool) (f : α → β) (xs : List α) :
    front p (xs.map f) = (front (p ∘ f) xs).map f := by
  simp [front, List.countP_map, List.map_take]

theorem rest_map (p : β → Bool) (f : α → β) (xs : List α) :
    rest p (xs.map f) = (rest (p ∘ f) xs).map f := by
  simp [rest, List.countP_map, List.map_drop]

namespace FrontFirst

variable {p : α → Bool} {xs ys : List α}

/-- The front consists of the entries that satisfy the predicate. -/
theorem split (h : FrontFirst p xs) :
    (∀ a ∈ front p xs, p a = true) ∧ ∀ a ∈ rest p xs, p a = false := by
  induction xs with
  | nil => simp [front, rest]
  | cons x xs ih =>
    obtain ⟨hx, hxs⟩ := List.pairwise_cons.mp h
    by_cases hp : p x = true
    · have hcount : (x :: xs).countP p = xs.countP p + 1 := by simp [hp]
      simp only [front, rest, hcount, List.take_succ_cons, List.drop_succ_cons]
      exact ⟨List.forall_mem_cons.mpr ⟨hp, (ih hxs).1⟩, (ih hxs).2⟩
    · have hnone : ∀ a ∈ x :: xs, p a = false := by
        rw [List.forall_mem_cons]
        exact ⟨by simpa using hp, fun a ha => by simpa using fun h' => hp (hx a ha h')⟩
      have hcount : (x :: xs).countP p = 0 := by
        rw [List.countP_eq_zero]
        intro a ha
        simp [hnone a ha]
      simp only [front, rest, hcount, List.take_zero, List.drop_zero]
      exact ⟨by simp, hnone⟩

theorem append (hx : ∀ a ∈ xs, p a = true) (hy : ∀ a ∈ ys, p a = false) :
    FrontFirst p (xs ++ ys) := by
  refine List.pairwise_append.mpr ⟨?_, ?_, fun a h b _ _ => hx a h⟩
  · exact List.pairwise_of_forall_mem_list fun a h b _ _ => hx a h
  · exact List.pairwise_of_forall_mem_list fun a _ b h hf => by simp [hy b h] at hf

theorem sublist (h : FrontFirst p xs) (hs : ys.Sublist xs) : FrontFirst p ys :=
  List.Pairwise.sublist hs h

theorem map_iff {f : β → α} {zs : List β} :
    FrontFirst p (zs.map f) ↔ FrontFirst (p ∘ f) zs := by
  simp [FrontFirst, List.pairwise_map]

end FrontFirst

theorem frontMerge_perm (p : α → Bool) (xss : List (List α)) :
    (frontMerge p xss).Perm xss.flatten := by
  induction xss with
  | nil => rfl
  | cons xs xss ih =>
    simp only [frontMerge, List.flatMap_cons, List.flatten_cons]
    conv_rhs => rw [← front_append_rest p xs]
    refine List.Perm.trans ?_ (List.Perm.append_left _ ih)
    rw [List.append_assoc, List.append_assoc, frontMerge]
    exact List.Perm.append_left _ (List.perm_append_comm_assoc _ _ _)

theorem frontMerge_map (p : β → Bool) (f : α → β) (xss : List (List α)) :
    frontMerge p (xss.map (List.map f)) = (frontMerge (p ∘ f) xss).map f := by
  simp only [frontMerge, List.map_append, List.map_flatMap, List.flatMap_map, front_map, rest_map]

theorem countP_frontMerge (p : α → Bool) (xss : List (List α)) :
    (frontMerge p xss).countP p = (xss.map (List.countP p)).sum := by
  rw [(frontMerge_perm p xss).countP_eq, List.countP_flatten]

theorem length_frontMerge_sub (p : α → Bool) (xss : List (List α)) :
    (frontMerge p xss).length - (frontMerge p xss).countP p =
      (xss.map fun xs => xs.length - xs.countP p).sum := by
  rw [countP_frontMerge, frontMerge, List.length_append, List.length_flatMap, List.length_flatMap]
  simp

theorem frontMerge_frontFirst {p : α → Bool} {xss : List (List α)}
    (h : ∀ xs ∈ xss, FrontFirst p xs) : FrontFirst p (frontMerge p xss) := by
  refine FrontFirst.append (fun a ha => ?_) (fun a ha => ?_)
  · obtain ⟨xs, hxs, ha⟩ := List.mem_flatMap.mp ha
    exact (h xs hxs).split.1 a ha
  · obtain ⟨xs, hxs, ha⟩ := List.mem_flatMap.mp ha
    exact (h xs hxs).split.2 a ha

end StreamInfer.General
