import Mathlib

/-! Moving the entries of a list along a list of destinations. `scatter` writes
entry `i` to index `pos i`; `gather` reads entry `idx j` into index `j`. When
the destinations are a rearrangement of `0 .. n - 1` the scattered list is
determined by its values at the destinations, is a permutation of the source,
commutes with mapping, and is the gather along the inverse rearrangement. -/

namespace StreamInfer.General

variable {α β : Type*}

/-- Write `xs i` at index `pos i`, over a list of default values. -/
def scatter (d : α) (xs : List α) (pos : List ℕ) : List α :=
  (pos.zip xs).foldl (fun out p => out.set p.1 p.2) (List.replicate xs.length d)

/-- Read the entries at the listed indices. -/
def gather (d : α) (xs : List α) (idx : List ℕ) : List α :=
  idx.map (fun i => xs.getD i d)

/-- The destinations of `n` entries: each index below `n` exactly once. -/
def Positions (n : ℕ) (pos : List ℕ) : Prop := pos.Perm (List.range n)

namespace Positions

variable {n : ℕ} {pos : List ℕ}

theorem length (h : Positions n pos) : pos.length = n := by
  simpa using h.length_eq

theorem nodup (h : Positions n pos) : pos.Nodup := h.nodup_iff.mpr List.nodup_range

theorem lt (h : Positions n pos) {i : ℕ} (hi : i ∈ pos) : i < n :=
  List.mem_range.mp (h.mem_iff.mp hi)

theorem getElem_lt (h : Positions n pos) {i : ℕ} (hi : i < pos.length) : pos[i] < n :=
  h.lt (List.getElem_mem hi)

/-- Every index below `n` is the destination of some entry. -/
theorem exists_getElem (h : Positions n pos) {j : ℕ} (hj : j < n) :
    ∃ i, ∃ hi : i < pos.length, pos[i] = j :=
  List.mem_iff_getElem.mp (h.mem_iff.mpr (List.mem_range.mpr hj))

/-- In-range destinations without repetition, one for each index. -/
theorem of_nodup (hl : pos.length = n) (hnd : pos.Nodup) (hlt : ∀ i ∈ pos, i < n) :
    Positions n pos := by
  have hsub : pos ⊆ List.range n := fun i hi => List.mem_range.mpr (hlt i hi)
  exact (List.subperm_of_subset hnd hsub).perm_of_length_le (by simp [hl])

/-- Destinations at which some list of length `n` stores the entry indices. -/
theorem of_index (hl : pos.length = n) {ys : List ℕ} (hy : ys.length = n)
    (h : ∀ i (hi : i < pos.length), ys[pos[i]]? = some i) : Positions n pos := by
  refine of_nodup hl ?_ ?_
  · rw [List.nodup_iff_injective_getElem]
    intro i j hij
    have hi := h i i.2
    have hj := h j j.2
    simp only at hij
    rw [hij, hj] at hi
    exact Fin.ext (by simpa using hi.symm)
  · intro i hi
    obtain ⟨k, hk, rfl⟩ := List.mem_iff_getElem.mp hi
    obtain ⟨hlt, -⟩ := List.getElem?_eq_some_iff.mp (h k hk)
    omega

end Positions

/-- The entries of `xs` are those of `ys`, at their destinations. -/
structure Moved (pos : List ℕ) (xs ys : List α) : Prop where
  length : ys.length = xs.length
  getElem? : ∀ i (hi : i < pos.length), ys[pos[i]]? = xs[i]?

/-! ### Scatter -/

theorem length_foldl_set (ps : List (ℕ × α)) (init : List α) :
    (ps.foldl (fun out p => out.set p.1 p.2) init).length = init.length := by
  induction ps generalizing init with
  | nil => rfl
  | cons p ps ih => simp [ih]

theorem getElem?_foldl_set_of_notMem (ps : List (ℕ × α)) (init : List α) {j : ℕ}
    (hj : j ∉ ps.map Prod.fst) :
    (ps.foldl (fun out p => out.set p.1 p.2) init)[j]? = init[j]? := by
  induction ps generalizing init with
  | nil => rfl
  | cons p ps ih =>
    simp only [List.map_cons, List.mem_cons, not_or] at hj
    rw [List.foldl_cons, ih _ hj.2, List.getElem?_set_ne (Ne.symm hj.1)]

/-- Writes at distinct indices are all read back. -/
theorem getElem?_foldl_set (ps : List (ℕ × α)) (init : List α)
    (hnd : (ps.map Prod.fst).Nodup) (hlt : ∀ p ∈ ps, p.1 < init.length) {p : ℕ × α}
    (hp : p ∈ ps) : (ps.foldl (fun out p => out.set p.1 p.2) init)[p.1]? = some p.2 := by
  induction ps generalizing init with
  | nil => simp at hp
  | cons q ps ih =>
    simp only [List.map_cons, List.nodup_cons] at hnd
    rw [List.foldl_cons]
    rcases List.mem_cons.mp hp with rfl | hp
    · rw [getElem?_foldl_set_of_notMem _ _ hnd.1]
      exact List.getElem?_set_self (hlt _ (by simp))
    · exact ih _ hnd.2 (fun r hr => by simpa using hlt r (by simp [hr])) hp

@[simp] theorem length_scatter (d : α) (xs : List α) (pos : List ℕ) :
    (scatter d xs pos).length = xs.length := by
  simp [scatter, length_foldl_set]

theorem getElem?_scatter (d : α) {xs : List α} {pos : List ℕ} (h : Positions xs.length pos)
    (i : ℕ) (hi : i < pos.length) : (scatter d xs pos)[pos[i]]? = xs[i]? := by
  have hx : i < xs.length := h.length ▸ hi
  have hmem : (pos[i], xs[i]) ∈ pos.zip xs := by
    rw [List.mem_iff_getElem]
    exact ⟨i, by rw [List.length_zip]; omega, by simp⟩
  have hfst : (pos.zip xs).map Prod.fst = pos := List.map_fst_zip h.length.le
  rw [List.getElem?_eq_getElem hx]
  refine getElem?_foldl_set (pos.zip xs) (List.replicate xs.length d) ?_ ?_ hmem
  · rw [hfst]; exact h.nodup
  · intro p hp
    have hp1 : p.1 ∈ pos := by
      rw [← hfst]; exact List.mem_map_of_mem hp
    simpa using h.lt hp1

theorem moved_scatter (d : α) {xs : List α} {pos : List ℕ} (h : Positions xs.length pos) :
    Moved pos xs (scatter d xs pos) :=
  ⟨length_scatter d xs pos, getElem?_scatter d h⟩

theorem Moved.map {xs ys : List α} {pos : List ℕ} (h : Moved pos xs ys) (f : α → β) :
    Moved pos (xs.map f) (ys.map f) where
  length := by rw [List.length_map, List.length_map, h.length]
  getElem? i hi := by rw [List.getElem?_map, List.getElem?_map, h.getElem? i hi]

/-- The scattered list is the one list with the right entry at each destination. -/
theorem scatter_eq (d : α) {xs ys : List α} {pos : List ℕ} (h : Positions xs.length pos)
    (hl : ys.length = xs.length) (hy : ∀ i (hi : i < pos.length), ys[pos[i]]? = xs[i]?) :
    scatter d xs pos = ys := by
  apply List.ext_getElem?
  intro j
  by_cases hj : j < xs.length
  · obtain ⟨i, hi, rfl⟩ := h.exists_getElem hj
    rw [getElem?_scatter d h i hi, hy i hi]
  · rw [List.getElem?_eq_none (by simpa using hj), List.getElem?_eq_none (by omega)]

theorem scatter_map (d : α) (e : β) (f : α → β) {xs : List α} {pos : List ℕ}
    (h : Positions xs.length pos) :
    scatter e (xs.map f) pos = (scatter d xs pos).map f := by
  apply scatter_eq e (by simpa using h) (by simp)
  intro i hi
  simp only [List.getElem?_map, getElem?_scatter d h i hi]

theorem scatter_perm (d : α) {xs : List α} {pos : List ℕ} (h : Positions xs.length pos) :
    (scatter d xs pos).Perm xs := by
  have hread : pos.map (fun j => (scatter d xs pos)[j]?) = xs.map some := by
    apply List.ext_getElem
    · simp [h.length]
    · intro i h₁ h₂
      have hx : i < xs.length := by simpa using h₂
      simp only [List.getElem_map]
      rw [getElem?_scatter d h i (by simpa using h₁), List.getElem?_eq_getElem hx]
  have hrange : (List.range xs.length).map (fun j => (scatter d xs pos)[j]?) =
      (scatter d xs pos).map some := by
    apply List.ext_getElem
    · simp
    · intro i h₁ h₂
      have hx : i < (scatter d xs pos).length := by simpa using h₂
      simp [List.getElem?_eq_getElem hx]
  have hperm := List.Perm.map (fun j => (scatter d xs pos)[j]?) h
  rw [hread, hrange] at hperm
  exact ((List.map_perm_map_iff (Option.some_injective α)).mp hperm).symm

/-! ### Gather -/

@[simp] theorem length_gather (d : α) (xs : List α) (idx : List ℕ) :
    (gather d xs idx).length = idx.length := by
  simp [gather]

theorem gather_map (d : α) (e : β) (f : α → β) (xs : List α) {idx : List ℕ}
    (h : ∀ i ∈ idx, i < xs.length) : gather e (xs.map f) idx = (gather d xs idx).map f := by
  simp only [gather, List.map_map]
  apply List.map_congr_left
  intro i hi
  have hx := h i hi
  simp [List.getD_eq_getElem?_getD, List.getElem?_eq_getElem hx]

theorem gather_range (d : α) (xs : List α) : gather d xs (List.range xs.length) = xs := by
  apply List.ext_getElem
  · simp
  · intro i h₁ h₂
    simp [gather, List.getElem?_eq_getElem h₂]

theorem gather_perm (d : α) {xs : List α} {idx : List ℕ} (h : Positions xs.length idx) :
    (gather d xs idx).Perm xs := by
  have := h.map (fun i => xs.getD i d)
  rwa [show (List.range xs.length).map (fun i => xs.getD i d) = xs from gather_range d xs] at this

/-! ### Inverse rearrangements -/

/-- `positions[rank[i]] = i`: the destinations that the order `rank` prescribes. -/
def inversePositions (rank : List ℕ) : List ℕ := scatter 0 (List.range rank.length) rank

theorem inversePositions_positions {n : ℕ} {rank : List ℕ} (h : Positions n rank) :
    Positions n (inversePositions rank) := by
  have hr : Positions (List.range rank.length).length rank := by simpa [h.length] using h
  have hp : (inversePositions rank).Perm (List.range rank.length) := scatter_perm 0 hr
  rwa [h.length] at hp

theorem getElem?_inversePositions {n : ℕ} {rank : List ℕ} (h : Positions n rank) {i : ℕ}
    (hi : i < rank.length) : (inversePositions rank)[rank[i]]? = some i := by
  have hr : Positions (List.range rank.length).length rank := by simpa [h.length] using h
  rw [inversePositions, getElem?_scatter 0 hr i hi]
  simp [hi]

/-- Scattering to the inverse positions reads the source in the order `rank`. -/
theorem scatter_inversePositions (d : α) {xs : List α} {rank : List ℕ}
    (h : Positions xs.length rank) :
    scatter d xs (inversePositions rank) = gather d xs rank := by
  apply scatter_eq d (inversePositions_positions h) (by simp [h.length])
  intro j hj
  have hjn : j < xs.length := (inversePositions_positions h).length ▸ hj
  obtain ⟨i, hi, rfl⟩ := h.exists_getElem hjn
  have hpos := getElem?_inversePositions h hi
  rw [List.getElem?_eq_getElem hj, Option.some_inj] at hpos
  rw [hpos]
  simp [gather, List.getElem?_eq_getElem hi, List.getElem?_eq_getElem hjn]

/-! ### Blocks of one length -/

/-- Entry `j` of block `i` of a concatenation of lists of one length. -/
theorem getElem?_flatMap_uniform (f : α → List β) (k : ℕ) (as : List α)
    (hf : ∀ a ∈ as, (f a).length = k) {i j : ℕ} (hj : j < k) :
    (as.flatMap f)[i * k + j]? = as[i]?.bind fun a => (f a)[j]? := by
  induction as generalizing i with
  | nil => simp
  | cons a as ih =>
    have ha : (f a).length = k := hf a (by simp)
    rw [List.flatMap_cons]
    cases i with
    | zero => rw [List.getElem?_append_left (by omega)]; simp
    | succ i =>
      rw [List.getElem?_append_right (by rw [ha, Nat.succ_mul]; omega), ha,
        show (i + 1) * k + j - k = i * k + j by rw [Nat.succ_mul]; omega]
      exact ih fun a h => hf a (by simp [h])

theorem length_flatMap_uniform (f : α → List β) (k : ℕ) (as : List α)
    (hf : ∀ a ∈ as, (f a).length = k) : (as.flatMap f).length = as.length * k := by
  rw [List.length_flatMap, List.map_congr_left hf, List.map_const', List.sum_replicate_nat]

/-- A list repeated `k` times. -/
theorem getElem?_flatten_replicate (as : List α) {k j : ℕ} (hj : j < k * as.length) :
    (List.replicate k as).flatten[j]? = as[j % as.length]? := by
  have hlen : 0 < as.length := Nat.pos_of_ne_zero fun h => by simp [h] at hj
  have hmod := Nat.mod_lt j hlen
  have hdiv : j / as.length < k := Nat.div_lt_of_lt_mul (by rwa [Nat.mul_comm])
  have hblock := getElem?_flatMap_uniform (fun _ : ℕ => as) as.length (List.range k)
    (fun _ _ => rfl) (i := j / as.length) hmod
  rw [Nat.div_add_mod' j as.length, List.getElem?_range hdiv] at hblock
  rwa [List.flatMap_def, List.map_const', List.length_range] at hblock

end StreamInfer.General
