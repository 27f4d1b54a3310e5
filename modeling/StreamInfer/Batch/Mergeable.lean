import StreamInfer.Batch.Rows

/-! Which batches `merge` accepts and which tokens `pack_topk_tokens` accepts. A lone
batch is merged as it is; several are, when each has the rows and the columns that its
counts announce. Tokens are packed when none has fewer rows than the first in order. -/

namespace StreamInfer.Batch

open General BatchMetadata

variable {W R : Type}

namespace TokenBatch

/-- The tokens that `pack_topk_tokens` accepts: the first in order has a row, and none
has fewer than that one. -/
def Packable (S : ComparatorSort) (tokens : List (TokenTopKInfo R)) : Prop :=
  ∃ first, (S.sort TokenTopKInfo.before tokens).head? = some first ∧ 0 < first.count ∧
    ∀ t ∈ tokens, first.count ≤ t.count

/-- The kernel reads `topk` rows of each token. -/
theorem gatherAndSumTokens_ok_iff [Row R] {tokens : List (TokenTopKInfo R)} (hne : tokens ≠ [])
    {topk : ℕ} : (∃ rows, gatherAndSumTokens (topkPointers tokens topk) tokens.length topk =
      .ok rows) ↔ 0 < topk ∧ ∀ t ∈ tokens, topk ≤ t.count := by
  have hpointer : ∀ i (hi : i < tokens.length), ∀ k < topk,
      (topkPointers tokens topk).getD (i * topk + k) none = tokens[i].topkTensors[k]? := by
    intro i hi k hk
    have hget := getElem?_flatMap_uniform
      (fun t : TokenTopKInfo R => (List.range topk).map fun k => t.topkTensors[k]?) topk tokens
      (fun t _ => by simp) (i := i) hk
    rw [List.getD_eq_getElem?_getD, topkPointers, hget, List.getElem?_eq_getElem hi]
    simp [hk]
  have hone : ∀ i (hi : i < tokens.length), (∃ row, (do
      let rows ← gatherTokens ((List.range topk).map fun k =>
        (topkPointers tokens topk).getD (i * topk + k) none)
      sumRows rows) = .ok row) ↔ 0 < topk ∧ topk ≤ tokens[i].count := by
    intro i hi
    have hrows : ((List.range topk).map fun k =>
        (topkPointers tokens topk).getD (i * topk + k) none) =
        (List.range topk).map fun k => tokens[i].topkTensors[k]? :=
      List.map_congr_left fun k hk => hpointer i hi k (List.mem_range.mp hk)
    simp only [hrows, bind_eq_ok_iff, gatherTokens, readRows_eq_ok_iff]
    constructor
    · rintro ⟨row, rows, hread, hsum⟩
      have hlen := congrArg List.length hread
      simp only [List.length_map, List.length_range] at hlen
      have hpos : 0 < topk := by
        cases rows with
        | nil => exact absurd hsum (by simp [sumRows])
        | cons first rows => simp [hlen]
      refine ⟨hpos, ?_⟩
      by_contra hlt
      have hlast := congrArg (·[tokens[i].count]?) hread
      simp [TokenTopKInfo.count] at hlast hlt
      simp [hlt] at hlast
    · rintro ⟨hpos, hle⟩
      have hread : (List.range topk).map (fun k => tokens[i].topkTensors[k]?) =
          (tokens[i].topkTensors.take topk).map some := by
        apply List.ext_getElem
        · rw [List.length_map, List.length_map, List.length_range, List.length_take]
          exact (min_eq_left hle).symm
        · intro k h₁ h₂
          simp only [List.length_map, List.length_range] at h₁
          have hk : k < tokens[i].topkTensors.length := h₁.trans_le hle
          simp [hk]
      obtain ⟨first, rest, htake⟩ : ∃ first rest, tokens[i].topkTensors.take topk = first :: rest := by
        apply List.exists_cons_of_ne_nil
        rw [← List.length_pos_iff, List.length_take]
        exact lt_min hpos (hpos.trans_le hle)
      exact ⟨_, _, hread.trans (by rw [htake]), rfl⟩
  unfold gatherAndSumTokens
  rw [exists_mapM_ok_iff]
  constructor
  · intro h
    have hfirst := (hone 0 (List.length_pos_iff.mpr hne)).mp
      (h 0 (List.mem_range.mpr (List.length_pos_iff.mpr hne)))
    refine ⟨hfirst.1, fun t ht => ?_⟩
    obtain ⟨i, hi, rfl⟩ := List.getElem_of_mem ht
    exact ((hone i hi).mp (h i (List.mem_range.mpr hi))).2
  · rintro ⟨hpos, hle⟩ i hi
    rw [List.mem_range] at hi
    exact (hone i hi).mpr ⟨hpos, hle _ (List.getElem_mem hi)⟩

theorem packTopkTokens_ok_iff [Row R] {S : ComparatorSort} {layerId : ℕ}
    {tokens : List (TokenTopKInfo R)} :
    (∃ b : TokenBatch W R, packTopkTokens S layerId tokens = .ok b) ↔ Packable S tokens := by
  have hperm := S.perm TokenTopKInfo.before tokens
  unfold packTopkTokens Packable
  generalize S.sort TokenTopKInfo.before tokens = sorted at hperm
  cases sorted with
  | nil => exact ⟨nofun, nofun⟩
  | cons first rest =>
    have hcounts : (∀ t ∈ tokens, first.count ≤ t.count) ↔
        ∀ t ∈ first :: rest, first.count ≤ t.count :=
      forall_congr' fun t => by rw [hperm.mem_iff]
    simp only [List.head?_cons, Option.some.injEq, exists_eq_left', hcounts]
    rw [← gatherAndSumTokens_ok_iff (List.cons_ne_nil first rest)]
    simp only [bind_eq_ok_iff]
    constructor
    · rintro ⟨b, packed, -, hrest⟩
      split_ifs at hrest with hnum
      obtain ⟨rows, hsum, -⟩ := bind_eq_ok_iff.mp hrest
      exact ⟨rows, hsum⟩
    · rintro ⟨rows, hsum⟩
      have hpos := ((gatherAndSumTokens_ok_iff (List.cons_ne_nil first rest)).mp ⟨rows, hsum⟩).1
      obtain ⟨tensor, others, htensors⟩ := List.exists_cons_of_length_pos hpos
      refine ⟨⟨rows, packedMetadata layerId (Row.size tensor) (first :: rest)⟩,
        packedMetadata layerId (Row.size tensor) (first :: rest), ?_, ?_⟩
      · simp only [packMetadata, htensors]
      · have hnum : (packedMetadata layerId (Row.size tensor) (first :: rest) :
            BatchMetadata W).numTokens = (first :: rest).length := rfl
        rw [if_pos hnum, hsum]
        rfl

end TokenBatch

end StreamInfer.Batch
