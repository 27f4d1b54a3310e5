import StreamInfer.Fault

/-! The batch sizes for which graphs are captured, and the graph that a batch runs in:
the first that is large enough. The largest size is captured, so a batch within the
limit finds one. -/

namespace StreamInfer.Overlap

/-- `range(start, stop, step)`. -/
def rangeStep (start stop step : ℕ) : List ℕ :=
  (List.range ((stop - start + step - 1) / step)).map fun i => start + i * step

/-- The stages of `CUDAGraphAttnExecutor.get_graph_batch_sizes` from a bound on. -/
def graphStages (graphMaxBatchSize prev : ℕ) : List (ℕ × ℕ) → List ℕ → List ℕ
  | [], sizes => sizes
  | (stage, inc) :: stages, sizes =>
    if graphMaxBatchSize > stage then
      graphStages graphMaxBatchSize stage stages (sizes ++ rangeStep prev stage inc)
    else
      let sizes := sizes ++ rangeStep prev graphMaxBatchSize inc
      if sizes.getLast? = some graphMaxBatchSize then sizes else sizes ++ [graphMaxBatchSize]

def attnGraphBatchSizes (graphMaxBatchSize : ℕ) : List ℕ :=
  graphStages graphMaxBatchSize 8 [(128, 32), (256, 64), (512, 128), (1024, 256)] [1]

/-- `_get_bucket_by_num_tokens`: the first captured size that is large enough. -/
def getBucketByNumTokens (graphBatchSizes : List ℕ) (batchSize : ℕ) : Except Fault ℕ :=
  match graphBatchSizes.find? fun size => decide (size ≥ batchSize) with
  | some size => .ok size
  | none => .error (.assertion "No available graph for batch size")

/-- `CUDAGraphExpertsExecutor.get_graph_batch_sizes` from a size on. -/
def doublingSizes (graphMaxBatchSize bsz : ℕ) (h : 0 < bsz) : List ℕ :=
  if bsz < graphMaxBatchSize then
    bsz :: doublingSizes graphMaxBatchSize (bsz * 2) (by omega)
  else [bsz]
termination_by graphMaxBatchSize - bsz

def expertGraphBatchSizes (graphMaxBatchSize : ℕ) : List ℕ :=
  if graphMaxBatchSize ≤ 128 then [graphMaxBatchSize]
  else doublingSizes graphMaxBatchSize 128 (by decide)

/-! ### A batch within the limit -/

theorem getBucketByNumTokens_ok {sizes : List ℕ} {limit n : ℕ} (hmem : ∃ size ∈ sizes, limit ≤ size)
    (hn : n ≤ limit) : ∃ bucket, getBucketByNumTokens sizes n = .ok bucket ∧ n ≤ bucket := by
  obtain ⟨size, hsize, hle⟩ := hmem
  have hsome : (sizes.find? fun size => decide (size ≥ n)).isSome = true := by
    rw [List.find?_isSome]
    exact ⟨size, hsize, decide_eq_true (hn.trans hle)⟩
  obtain ⟨bucket, hfind⟩ := Option.isSome_iff_exists.mp hsome
  refine ⟨bucket, ?_, ?_⟩
  · rw [getBucketByNumTokens, hfind]
  · simpa using List.find?_some hfind

/-- The loop over the stages ends with the limit, when a stage reaches it. -/
theorem mem_graphStages {limit : ℕ} {stages : List (ℕ × ℕ)} (h : ∃ stage ∈ stages, limit ≤ stage.1)
    (prev : ℕ) (sizes : List ℕ) : limit ∈ graphStages limit prev stages sizes := by
  induction stages generalizing prev sizes with
  | nil => simp at h
  | cons stage stages ih =>
    obtain ⟨bound, inc⟩ := stage
    unfold graphStages
    dsimp only
    split_ifs with hgt hlast
    · apply ih
      obtain ⟨stage, hmem, hle⟩ := h
      rcases List.mem_cons.mp hmem with rfl | hmem
      · omega
      · exact ⟨stage, hmem, hle⟩
    · exact List.mem_of_getLast? hlast
    · exact List.mem_append_right _ (List.mem_singleton_self limit)

/-- `assert graph_max_batch_size <= 1024`. -/
theorem mem_attnGraphBatchSizes {limit : ℕ} (h : limit ≤ 1024) : limit ∈ attnGraphBatchSizes limit :=
  mem_graphStages ⟨(1024, 256), by simp, h⟩ _ _

theorem exists_mem_doublingSizes (limit bsz : ℕ) (h : 0 < bsz) :
    ∃ size ∈ doublingSizes limit bsz h, limit ≤ size := by
  induction bsz, h using doublingSizes.induct limit with
  | case1 bsz h hlt ih =>
    obtain ⟨size, hmem, hle⟩ := ih
    unfold doublingSizes
    rw [if_pos hlt]
    exact ⟨size, List.mem_cons_of_mem bsz hmem, hle⟩
  | case2 bsz h hge =>
    unfold doublingSizes
    rw [if_neg hge]
    exact ⟨bsz, List.mem_singleton_self bsz, Nat.le_of_not_lt hge⟩

theorem exists_mem_expertGraphBatchSizes (limit : ℕ) :
    ∃ size ∈ expertGraphBatchSizes limit, limit ≤ size := by
  unfold expertGraphBatchSizes
  split_ifs
  · exact ⟨limit, List.mem_singleton_self limit, le_rfl⟩
  · exact exists_mem_doublingSizes limit 128 _

end StreamInfer.Overlap
