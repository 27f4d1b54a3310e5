import StreamInfer.General.FrontFirst

/-! Lists cut by their keys. The runs of equal keys cut a list into pieces of one
key each. In a sorted list the entries of each key are consecutive, and prefix
sums of the counts of the keys, in ascending order, say where they lie. -/

namespace StreamInfer.General

variable {α κ : Type}

/-! ### Runs of equal keys -/

theorem sublist_of_mem_splitLengths {sizes : List ℕ} {xs ys : List α}
    (h : ys ∈ sizes.splitLengths xs) : ys.Sublist xs := by
  induction sizes generalizing xs with
  | nil => simp at h
  | cons n sizes ih =>
    rw [List.splitLengths_cons, List.mem_cons] at h
    rcases h with rfl | h
    · exact List.take_sublist _ _
    · exact (ih h).trans (List.drop_sublist _ _)

section Runs

variable [DecidableEq κ]

/-- The lengths of the runs, the first one of key `k` with `n` entries so far. -/
def runLengthsFrom (k : κ) (n : ℕ) : List κ → List ℕ
  | [] => [n]
  | k' :: ks => if k' = k then runLengthsFrom k (n + 1) ks else n :: runLengthsFrom k' 1 ks

def runLengths : List κ → List ℕ
  | [] => []
  | k :: ks => runLengthsFrom k 1 ks

theorem sum_runLengthsFrom (k : κ) (n : ℕ) (ks : List κ) :
    (runLengthsFrom k n ks).sum = n + ks.length := by
  induction ks generalizing k n with
  | nil => simp [runLengthsFrom]
  | cons k' ks ih =>
    rw [runLengthsFrom]
    split_ifs
    · rw [ih, List.length_cons]
      omega
    · rw [List.sum_cons, ih, List.length_cons]
      omega

@[simp] theorem sum_runLengths (ks : List κ) : (runLengths ks).sum = ks.length := by
  cases ks with
  | nil => rfl
  | cons k ks =>
    rw [runLengths, sum_runLengthsFrom, List.length_cons]
    omega

theorem runLengthsFrom_pieces {key : α → κ} (k : κ) (pre : List α) {xs : List α} (hne : pre ≠ [])
    (hpre : ∀ x ∈ pre, key x = k) :
    ∀ ys ∈ (runLengthsFrom k pre.length (xs.map key)).splitLengths (pre ++ xs),
      ys ≠ [] ∧ ∃ k', ∀ y ∈ ys, key y = k' := by
  induction xs generalizing k pre with
  | nil => simpa [runLengthsFrom] using ⟨hne, k, hpre⟩
  | cons x xs ih =>
    rw [List.map_cons, runLengthsFrom]
    split_ifs with hk
    · have hrun := ih k (pre ++ [x]) (by simp) (by
        rw [List.forall_mem_append]
        exact ⟨hpre, by simpa using hk⟩)
      rwa [List.append_assoc, List.singleton_append, List.length_append] at hrun
    · rw [List.splitLengths_cons, List.forall_mem_cons, List.take_left, List.drop_left]
      exact ⟨⟨hne, k, hpre⟩, ih (key x) [x] (by simp) (by simp)⟩

/-- Every piece of a list cut at its runs has entries, all of one key. -/
theorem runLengths_pieces (key : α → κ) (xs : List α) :
    ∀ ys ∈ (runLengths (xs.map key)).splitLengths xs, ys ≠ [] ∧ ∃ k, ∀ y ∈ ys, key y = k := by
  cases xs with
  | nil => simp [runLengths]
  | cons x xs => exact runLengthsFrom_pieces (key x) [x] (by simp) (by simp)

theorem runLengthsFrom_adjacent {key : α → κ} (k : κ) (pre : List α) {xs : List α}
    (hpre : ∀ x ∈ pre, key x = k) :
    ((runLengthsFrom k pre.length (xs.map key)).splitLengths (pre ++ xs)).IsChain
        (fun p q => ∀ a ∈ p, ∀ b ∈ q, key a ≠ key b) ∧
      ∀ p ∈ ((runLengthsFrom k pre.length (xs.map key)).splitLengths (pre ++ xs)).head?,
        ∀ a ∈ p, key a = k := by
  induction xs generalizing k pre with
  | nil => simpa [runLengthsFrom] using hpre
  | cons x xs ih =>
    rw [List.map_cons, runLengthsFrom]
    split_ifs with hk
    · have hrun := ih k (pre ++ [x]) (by
        rw [List.forall_mem_append]
        exact ⟨hpre, by simpa using hk⟩)
      rwa [List.append_assoc, List.singleton_append, List.length_append] at hrun
    · obtain ⟨hchain, hhead⟩ := ih (key x) [x] (by simp)
      rw [List.splitLengths_cons, List.take_left, List.drop_left, List.isChain_cons]
      refine ⟨⟨fun p hp a ha b hb => ?_, hchain⟩, by simpa using hpre⟩
      rw [hpre a ha, hhead p hp b hb]
      exact Ne.symm hk

/-- Neighbouring pieces of a list cut at its runs have different keys. -/
theorem runLengths_adjacent (key : α → κ) (xs : List α) :
    ((runLengths (xs.map key)).splitLengths xs).IsChain
      fun p q => ∀ a ∈ p, ∀ b ∈ q, key a ≠ key b := by
  cases xs with
  | nil => simp [runLengths]
  | cons x xs => exact (runLengthsFrom_adjacent (key x) [x] (by simp)).1

end Runs

/-! ### Segments of a sorted list -/

/-- Where each count starts, and the count. -/
def segments (offset : ℕ) : List ℕ → List (ℕ × ℕ)
  | [] => []
  | m :: ms => (offset, m) :: segments (offset + m) ms

theorem getElem?_segments (offset : ℕ) (ms : List ℕ) (e : ℕ) :
    (segments offset ms)[e]? = ms[e]?.map fun m => (offset + (ms.take e).sum, m) := by
  induction ms generalizing offset e with
  | nil => simp [segments]
  | cons m ms ih =>
    cases e with
    | zero => simp [segments]
    | succ e => simp [segments, ih, Nat.add_assoc]

theorem FrontFirst.lt_countP_iff {p : α → Bool} {xs : List α} (h : FrontFirst p xs) {r : ℕ}
    (hr : r < xs.length) : r < xs.countP p ↔ p xs[r] = true := by
  constructor
  · intro hlt
    refine h.split.1 _ ?_
    rw [front, List.mem_take_iff_getElem]
    exact ⟨r, by omega, rfl⟩
  · intro hp
    by_contra hge
    have hrest := h.split.2 xs[r] (by
      rw [rest, List.mem_drop_iff_getElem]
      exact ⟨r - xs.countP p, by omega, by congr 1; omega⟩)
    rw [hp] at hrest
    contradiction

/-- Counting the entries with a key of a list, key by key. -/
theorem sum_count_eq_countP [DecidableEq κ] (xs : List κ) {keys : List κ} (h : keys.Nodup) :
    (keys.map fun k => xs.count k).sum = xs.countP (· ∈ keys) := by
  induction keys with
  | nil => simp
  | cons k keys ih =>
    obtain ⟨hk, hnodup⟩ := List.nodup_cons.mp h
    rw [List.map_cons, List.sum_cons, ih hnodup]
    clear ih
    induction xs with
    | nil => rfl
    | cons x xs ih =>
      simp only [List.mem_cons, List.count_cons, List.countP_cons, beq_iff_eq] at ih ⊢
      by_cases hx : x = k
      · subst hx
        simp only [hk, true_or, decide_true, decide_false, Bool.false_eq_true, ↓reduceIte] at ih ⊢
        omega
      · simp only [hx, false_or, ↓reduceIte] at ih ⊢
        omega

/-- In a sorted list the segments of the ascending keys hold their entries. -/
theorem mem_segment_iff {xs keys : List ℕ} (hsorted : xs.Pairwise (· ≤ ·))
    (hkeys : keys.Pairwise (· < ·)) (hmem : ∀ x ∈ xs, x ∈ keys) {e : ℕ} (he : e < keys.length)
    {r : ℕ} (hr : r < xs.length) :
    ∃ segment, (segments 0 (keys.map fun k => xs.count k))[e]? = some segment ∧
      (segment.1 ≤ r ∧ r < segment.1 + segment.2 ↔ xs[r] = keys[e]) := by
  have hfront : ∀ p : ℕ → Bool, (∀ a b, a ≤ b → p b = true → p a = true) → FrontFirst p xs :=
    fun p hp => hsorted.imp fun {a b} hab => hp a b hab
  have hbefore : ((keys.map fun k => xs.count k).take e).sum = xs.countP (· < keys[e]) := by
    rw [← List.map_take, sum_count_eq_countP xs
      ((hkeys.imp fun h => Nat.ne_of_lt h).sublist (List.take_sublist _ _))]
    refine List.countP_congr fun x hx => ?_
    simp only [decide_eq_true_eq]
    obtain ⟨i, hi, rfl⟩ := List.getElem_of_mem (hmem x hx)
    rw [List.mem_take_iff_getElem]
    constructor
    · rintro ⟨j, hj, heq⟩
      rw [← heq]
      exact List.pairwise_iff_getElem.mp hkeys j e _ he (by omega)
    · intro hlt
      have hie : i < e := by
        by_contra hge
        rcases Nat.lt_or_eq_of_le (not_lt.mp hge) with hlt' | rfl
        · have := List.pairwise_iff_getElem.mp hkeys e i he hi hlt'
          omega
        · omega
      exact ⟨i, by omega, rfl⟩
  have hupto : xs.countP (· < keys[e]) + xs.count keys[e] = xs.countP (· ≤ keys[e]) := by
    clear hbefore hfront hsorted hmem hr
    induction xs with
    | nil => rfl
    | cons x xs ih =>
      rcases lt_trichotomy x keys[e] with hx | hx | hx
      · simp [hx, hx.ne, hx.le] at ih ⊢
        omega
      · simp [hx] at ih ⊢
        omega
      · simp [hx.ne', not_lt.mpr hx.le, not_le.mpr hx] at ih ⊢
        omega
  refine ⟨_, by rw [getElem?_segments, List.getElem?_map, List.getElem?_eq_getElem he]; rfl, ?_⟩
  dsimp only
  rw [Nat.zero_add, hbefore, hupto,
    (hfront (· ≤ keys[e]) fun a b hab hb => by simp at hb ⊢; omega).lt_countP_iff hr,
    ← Nat.not_lt,
    (hfront (· < keys[e]) fun a b hab hb => by simp at hb ⊢; omega).lt_countP_iff hr]
  simp only [decide_eq_true_eq]
  omega

end StreamInfer.General
