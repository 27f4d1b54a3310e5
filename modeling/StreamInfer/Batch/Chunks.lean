import StreamInfer.Batch.Rows

/-! Batches cut where the expert changes. The chunks of a batch are the longest runs of
one expert id, so a cut batch has its tokens in order, and each piece goes to one
expert. -/

namespace StreamInfer.Batch

open General BatchMetadata

variable {W R : Type}

/-- One index of the loop of `get_chunk_sizes`, with the chunks that are closed and the
start of the open one. -/
def chunkStep (indexVec : List ℕ) (state : List ℕ × ℕ) (i : ℕ) : Except Fault (List ℕ × ℕ) :=
  match indexVec[i]?, indexVec[i - 1]? with
  | some index, some before =>
    .ok (if index ≠ before then (state.1 ++ [i - state.2], i) else state)
  | _, _ => .error (.outOfRange "index_vec[i]")

def BatchMetadata.getChunkSizes (m : BatchMetadata W) : Except Fault (List ℕ) := do
  let indexVec := if m.isExpert then m.expIds else m.attnDpRanks
  let state ← (List.range (m.numTokens - 1)).foldlM
    (fun state i => chunkStep indexVec state (i + 1)) ([], 0)
  return state.1 ++ [m.numTokens - state.2]

def TokenBatch.splitByExpert (b : TokenBatch W R) : Except Fault (List (TokenBatch W R)) := do
  let chunkSizes ← b.metadata.getChunkSizes
  b.splitWithSizes chunkSizes

/-! ### Runs of one index -/

/-- One index, once or more. -/
def OneIndex (piece : List ℕ) : Prop := ∃ index n, piece = List.replicate (n + 1) index

/-- Closed runs with these lengths, and an open one behind them. -/
def Chunked (indexVec : List ℕ) (k : ℕ) (state : List ℕ × ℕ) : Prop :=
  ∃ (pieces : List (List ℕ)) (index n : ℕ), (∀ piece ∈ pieces, OneIndex piece) ∧ pieces.map List.length = state.1 ∧
    pieces.flatten.length = state.2 ∧
    pieces.flatten ++ List.replicate (n + 1) index = indexVec.take (k + 1)

theorem Chunked.step {indexVec : List ℕ} {k : ℕ} {state : List ℕ × ℕ} (h : Chunked indexVec k state)
    (hk : k + 1 < indexVec.length) :
    ∃ state', chunkStep indexVec state (k + 1) = .ok state' ∧ Chunked indexVec (k + 1) state' := by
  obtain ⟨pieces, index, n, hpieces, hlens, hlast, htake⟩ := h
  have hlen : pieces.flatten.length + (n + 1) = k + 1 := by
    have := congrArg List.length htake
    rw [List.length_append, List.length_replicate, List.length_take] at this
    omega
  have hbefore : indexVec[k]? = some index := by
    have hat : (indexVec.take (k + 1))[k]? = indexVec[k]? := List.getElem?_take_of_lt (Nat.lt_succ_self k)
    rw [← hat, ← htake, List.getElem?_append_right (by omega),
      List.getElem?_replicate_of_lt (by omega)]
  have hnext : indexVec.take (k + 2) = indexVec.take (k + 1) ++ [indexVec[k + 1]] :=
    List.take_succ_eq_append_getElem hk
  rw [chunkStep, List.getElem?_eq_getElem hk, Nat.add_sub_cancel, hbefore]
  refine ⟨_, rfl, ?_⟩
  split_ifs with hne
  · refine ⟨pieces ++ [List.replicate (n + 1) index], indexVec[k + 1], 0, ?_, ?_, ?_, ?_⟩
    · intro piece hpiece
      rcases List.mem_append.mp hpiece with hpiece | hpiece
      · exact hpieces piece hpiece
      · exact ⟨index, n, List.mem_singleton.mp hpiece⟩
    · rw [List.map_append, hlens, List.map_singleton, List.length_replicate, ← hlast]
      congr
      omega
    · rw [List.flatten_append, List.flatten_singleton, List.length_append, List.length_replicate]
      exact hlen
    · rw [List.flatten_append, List.flatten_singleton, htake, hnext]
      rfl
  · have hsame : indexVec[k + 1] = index := not_not.mp hne
    refine ⟨pieces, index, n + 1, hpieces, hlens, hlast, ?_⟩
    rw [hnext, ← htake, hsame, List.append_assoc, ← List.replicate_succ']

/-- The chunks of a batch are runs of one index, in order. -/
theorem BatchMetadata.getChunkSizes_ok {m : BatchMetadata W} (hm : m.isExpert = true)
    (hids : m.expIds.length = m.numTokens) (hpos : 0 < m.numTokens) :
    ∃ pieces : List (List ℕ), m.getChunkSizes = .ok (pieces.map List.length) ∧ pieces.flatten = m.expIds ∧
      ∀ piece ∈ pieces, OneIndex piece := by
  have hstart : Chunked m.expIds 0 ([], 0) := by
    refine ⟨[], m.expIds[0], 0, by simp, rfl, rfl, ?_⟩
    rw [List.take_succ_eq_append_getElem (by omega)]
    rfl
  obtain ⟨state, hrun, pieces, index, n, hpieces, hlens, hlast, htake⟩ :=
    exists_foldlM_range_ok (I := Chunked m.expIds) hstart (n := m.numTokens - 1)
      fun i hi state h => h.step (by omega)
  have hall : m.expIds.take (m.numTokens - 1 + 1) = m.expIds := List.take_of_length_le (by omega)
  rw [hall] at htake
  refine ⟨pieces ++ [List.replicate (n + 1) index], ?_, ?_, ?_⟩
  · have hopen : m.numTokens - state.2 = n + 1 := by
      rw [← hids, ← htake, List.length_append, List.length_replicate]
      omega
    simp only [getChunkSizes, hm, ↓reduceIte, hrun, bind, Except.bind, pure, Except.pure, hopen,
      List.map_append, hlens, List.map_singleton, List.length_replicate]
  · rw [List.flatten_append, List.flatten_singleton, htake]
  · intro piece hpiece
    rcases List.mem_append.mp hpiece with hpiece | hpiece
    · exact hpieces piece hpiece
    · exact ⟨index, n, List.mem_singleton.mp hpiece⟩

theorem splitLengths_flatten {α : Type} (pieces : List (List α)) :
    (pieces.map List.length).splitLengths pieces.flatten = pieces := by
  induction pieces with
  | nil => rfl
  | cons piece pieces ih =>
    rw [List.map_cons, List.flatten_cons, List.splitLengths_cons, List.take_left, List.drop_left, ih]

/-- The pieces of a batch have tokens of one expert each. -/
theorem Carries.getChunkSizes {b : TokenBatch W R} {xs : List (TokenMetadata W × R)}
    (h : Carries .routing b xs) (htag : b.metadata.isExpert = true) (hne : xs ≠ []) :
    ∃ sizes, b.metadata.getChunkSizes = .ok sizes ∧ sizes.sum = xs.length ∧
      ∀ piece ∈ sizes.splitLengths xs, ∃ x rest, piece = x :: rest ∧
        ∀ y ∈ piece, y.1.expId = x.1.expId := by
  have hids : b.metadata.expIds = xs.map (·.1.expId) := by
    rw [h.lists.expIds rfl, List.map_map]
    rfl
  have hlen : b.metadata.expIds.length = b.metadata.numTokens := by
    rw [hids, List.length_map, h.numTokens]
  obtain ⟨pieces, hok, hflat, hpieces⟩ :=
    getChunkSizes_ok htag hlen (h.numTokens ▸ List.length_pos_of_ne_nil hne)
  have hsum : (pieces.map List.length).sum = xs.length := by
    rw [← List.length_flatten, hflat, hids, List.length_map]
  refine ⟨_, hok, hsum, fun piece hpiece => ?_⟩
  have hmem : piece.map (·.1.expId) ∈ pieces := by
    rw [← splitLengths_flatten pieces, hflat, hids, map_splitLengths]
    exact List.mem_map_of_mem hpiece
  obtain ⟨index, n, hindex⟩ := hpieces _ hmem
  cases piece with
  | nil => exact absurd (congrArg List.length hindex) (by simp)
  | cons x rest =>
    have hall : ∀ y ∈ x :: rest, y.1.expId = index := by
      intro y hy
      have hmap : y.1.expId ∈ (x :: rest).map (·.1.expId) := List.mem_map.mpr ⟨y, hy, rfl⟩
      rw [hindex] at hmap
      exact List.eq_of_mem_replicate hmap
    exact ⟨x, rest, rfl, fun y hy => (hall y hy).trans (hall x List.mem_cons_self).symm⟩

end StreamInfer.Batch
