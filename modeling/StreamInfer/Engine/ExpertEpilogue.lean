import StreamInfer.Batch.AttentionSort

/-! What the engine does with a finished expert batch: the metadata is sorted for
the attention dispatch and the rows are weighted and moved along. Sorting moves
the weight column as well. The direct-copy branch passes the weights it read
before the sort, the other branch reads them again after it, so the branches
agree exactly when the sort leaves the weight column as it was. -/

namespace StreamInfer.Engine

open General Batch BatchMetadata

variable {W R : Type} [Zero W]

/-- `apply_weights_and_permute_tokens`: row `i` goes to row `mappings[i]`. `scale` stands for
what the kernel makes of a row and its weight. -/
def applyWeightsAndPermuteTokens (scale : W → R → R) (tokens : List R) (weights : List W)
    (mappings : List ℕ) : Except Fault (List R) :=
  let scaled := (List.range tokens.length).map fun i =>
    weights[i]?.bind fun w => tokens[i]?.map (scale w)
  readRows "out[p]" (scatter none scaled mappings)

/-- The epilogue of `execute_batch_expert` on the experts' outputs. -/
def executeBatchExpert (useGdrcopyOptimization : Bool) (S : ComparatorSort) (scale : W → R → R)
    (metaC : BatchMetadata W) (hiddens : List R) : Except Fault (TokenBatch W R) := do
  let topkWeights := metaC.topkWeights
  let (sorted, newMappings) ← metaC.sortByAttention S
  let expertWeights := if useGdrcopyOptimization then topkWeights else sorted.topkWeights
  let permutedTokens ← applyWeightsAndPermuteTokens scale hiddens expertWeights newMappings
  return ⟨permutedTokens, { sorted with expIds := [], topkWeights := [] }.stepLayer⟩

/-- Row `i` is scaled by its own weight and follows its token's metadata. -/
def RowsScaled (scale : W → R → R) (metaC : BatchMetadata W) (hiddens : List R)
    (positions : List ℕ) (rows : List R) : Prop :=
  rows.length = hiddens.length ∧ ∀ i (hi : i < positions.length),
    rows[positions[i]]? = metaC.topkWeights[i]?.bind fun w => hiddens[i]?.map (scale w)

/-- Both branches return the rows scaled and moved with the metadata. -/
def BranchesAgree (S : ComparatorSort) (metaC : BatchMetadata W) : Prop :=
  ∀ (R : Type) (scale : W → R → R) (hiddens : List R), hiddens.length = metaC.numTokens →
    ∃ sorted positions, metaC.sortByAttention S = .ok (sorted, positions) ∧
      ∀ useGdrcopyOptimization, ∃ out,
        executeBatchExpert useGdrcopyOptimization S scale metaC hiddens = .ok out ∧
        RowsScaled scale metaC hiddens positions out.data

/-- The order of the attention dispatch leaves the weight column as it is. -/
def WeightsFixed (S : ComparatorSort) (metaC : BatchMetadata W) : Prop :=
  ∀ i < metaC.numTokens,
    metaC.topkWeights[(metaC.attentionRank S).getD i 0]? = metaC.topkWeights[i]?

instance [DecidableEq W] (S : ComparatorSort) (metaC : BatchMetadata W) :
    Decidable (WeightsFixed S metaC) := by
  unfold WeightsFixed
  infer_instance

omit [Zero W] in
theorem applyWeightsAndPermuteTokens_ok (scale : W → R → R) {tokens : List R} {weights : List W}
    {mappings : List ℕ} (hw : weights.length = tokens.length)
    (hm : Positions tokens.length mappings) :
    ∃ rows, applyWeightsAndPermuteTokens scale tokens weights mappings = .ok rows ∧
      rows.length = tokens.length ∧ ∀ i (hi : i < mappings.length),
        rows[mappings[i]]? = weights[i]?.bind fun w => tokens[i]?.map (scale w) := by
  have hsome : ∀ row ∈ (List.range tokens.length).map fun i =>
      weights[i]?.bind fun w => tokens[i]?.map (scale w), row.isSome = true := by
    rw [List.forall_mem_map]
    intro i hi
    have hi' : i < tokens.length := by simpa using hi
    simp [List.getElem?_eq_getElem hi', List.getElem?_eq_getElem (hw ▸ hi')]
  have hpos : Positions ((List.range tokens.length).map fun i =>
      weights[i]?.bind fun w => tokens[i]?.map (scale w)).length mappings := by
    rwa [List.length_map, List.length_range]
  obtain ⟨rows, hrows, hlen, hread⟩ := readRows_scatter "out[p]" hpos hsome
  refine ⟨rows, hrows, by simpa using hlen, fun i hi => ?_⟩
  have hlt : i < tokens.length := hm.length ▸ hi
  rw [hread i hi, List.getElem?_map, List.getElem?_range hlt]
  rfl

section Branches

variable {S : ComparatorSort} {metaC : BatchMetadata W}

/-- The weights after the sort are those of the dispatch order. -/
theorem sortByAttention_weights (h : Aligned .routing metaC) :
    ∃ sorted, metaC.sortByAttention S = .ok (sorted, inversePositions (metaC.attentionRank S)) ∧
      sorted.topkWeights = gather 0 metaC.topkWeights (metaC.attentionRank S) ∧
      Positions metaC.numTokens (metaC.attentionRank S) := by
  obtain ⟨ts, hts⟩ := h.exists_lists
  have hrank := attentionRank_positions S hts
  obtain ⟨sorted, hok, -, hl⟩ := sortByAttention_lists S hts
  refine ⟨sorted, hok, ?_, by rwa [hts.numTokens]⟩
  rw [hl.topkWeights rfl, hts.topkWeights rfl]
  exact (gather_map default 0 _ ts fun i hi => hrank.lt hi).symm

theorem executeBatchExpert_rows (h : Aligned .routing metaC) (useGdrcopyOptimization : Bool)
    (scale : W → R → R) {hiddens : List R} (hn : hiddens.length = metaC.numTokens) :
    ∃ out, executeBatchExpert useGdrcopyOptimization S scale metaC hiddens = .ok out ∧
      out.data.length = hiddens.length ∧
      ∀ i (hi : i < (inversePositions (metaC.attentionRank S)).length),
        out.data[(inversePositions (metaC.attentionRank S))[i]]? =
          (if useGdrcopyOptimization then metaC.topkWeights
            else gather 0 metaC.topkWeights (metaC.attentionRank S))[i]?.bind fun w =>
              hiddens[i]?.map (scale w) := by
  obtain ⟨sorted, hok, hweights, hrank⟩ := sortByAttention_weights (S := S) h
  have hlen : (if useGdrcopyOptimization then metaC.topkWeights
      else gather 0 metaC.topkWeights (metaC.attentionRank S)).length = hiddens.length := by
    split_ifs
    · rw [hn, h.topkWeights rfl]
    · rw [length_gather, hrank.length, hn]
  obtain ⟨rows, hrows, hl, hread⟩ := applyWeightsAndPermuteTokens_ok scale hlen
    (hn ▸ inversePositions_positions hrank)
  refine ⟨⟨rows, ({ sorted with expIds := [], topkWeights := [] } : BatchMetadata W).stepLayer⟩, ?_,
    hl, hread⟩
  simp only [executeBatchExpert, hok, hweights, hrows, bind, Except.bind]
  rfl

/-- The result holds the tokens of the batch as the sort reads them. -/
theorem executeBatchExpert_gathered (h : Aligned .routing metaC) {useGdrcopyOptimization : Bool}
    {scale : W → R → R} {hiddens : List R} (hn : hiddens.length = metaC.numTokens)
    {out : TokenBatch W R}
    (hok : executeBatchExpert useGdrcopyOptimization S scale metaC hiddens = .ok out) :
    ∃ ts xs, Lists .routing metaC ts ∧ xs.map Prod.fst = gather default ts (metaC.attentionRank S) ∧
      Carries .returning out xs ∧ out.metadata.batchTag = metaC.batchTag ∧
      out.metadata.layerId = metaC.layerId + 1 := by
  obtain ⟨ts, hts⟩ := h.exists_lists
  obtain ⟨sorted, hsort, hheader, hlists⟩ := sortByAttention_lists S hts
  obtain ⟨out', hok', hlen, -⟩ := executeBatchExpert_rows (S := S) h useGdrcopyOptimization scale hn
  obtain rfl := Except.ok.inj (hok.symm.trans hok')
  obtain ⟨htag, hnum, hlayer⟩ := header_eq hheader
  have hmeta : out.metadata =
      ({ sorted with expIds := [], topkWeights := [] } : BatchMetadata W).stepLayer := by
    simp only [executeBatchExpert, hsort, bind, Except.bind] at hok
    split at hok
    · cases hok
    · cases hok
      rfl
  have hret : Lists .returning out.metadata (gather default ts (metaC.attentionRank S)) := by
    rw [hmeta]
    exact ⟨hlists.numTokens, hlists.reqIds, hlists.initPrefillLens, fun _ => hlists.attnDpRanks rfl,
      by simp [View.returning], by simp [View.returning]⟩
  obtain ⟨xs, hxs, hcarries⟩ := exists_carries hret (by
    rw [hlen, hn, ← hnum, hmeta]
    rfl)
  refine ⟨ts, xs, hts, hxs, hcarries, ?_, ?_⟩
  · rw [hmeta, ← htag]
    rfl
  · rw [hmeta, ← hlayer]
    rfl

/-- The result holds the tokens of the batch in the order of the attention dispatch. -/
theorem executeBatchExpert_sorted (h : Aligned .routing metaC) {useGdrcopyOptimization : Bool}
    {scale : W → R → R} {hiddens : List R} (hn : hiddens.length = metaC.numTokens)
    {out : TokenBatch W R}
    (hok : executeBatchExpert useGdrcopyOptimization S scale metaC hiddens = .ok out)
    (hl : ∀ l ∈ metaC.initPrefillLens, PrefillLen l) :
    ∃ xs, Carries .returning out xs ∧
      ((xs.map Prod.fst).Pairwise fun a b => TokenMetadata.before b a = false) ∧
      (∀ x ∈ xs, PrefillLen x.1.initPrefillLen) ∧ out.metadata.batchTag = metaC.batchTag ∧
      out.metadata.layerId = metaC.layerId + 1 := by
  obtain ⟨ts, xs, hts, hxs, hcarries, htag, hlayer⟩ := executeBatchExpert_gathered h hn hok
  have hlens : ∀ t ∈ ts, PrefillLen t.initPrefillLen := by
    intro t ht
    refine hl _ ?_
    rw [hts.initPrefillLens]
    exact List.mem_map_of_mem ht
  refine ⟨xs, hcarries, ?_, fun x hx => ?_, htag, hlayer⟩
  · rw [hxs]
    exact attentionRank_sorted S hts rfl fun t ht => (hlens t ht).neg_one_le
  · have hmem : x.1 ∈ gather default ts (metaC.attentionRank S) := hxs ▸ List.mem_map_of_mem hx
    exact hlens _ ((gather_perm default (attentionRank_positions S hts)).mem_iff.mp hmem)

theorem weightsFixed_iff (h : Aligned .routing metaC) :
    WeightsFixed S metaC ↔ gather 0 metaC.topkWeights (metaC.attentionRank S) = metaC.topkWeights := by
  obtain ⟨-, -, -, hrank⟩ := sortByAttention_weights (S := S) h
  have hw := h.topkWeights rfl
  have hget : ∀ i < metaC.numTokens, (gather 0 metaC.topkWeights (metaC.attentionRank S))[i]? =
      metaC.topkWeights[(metaC.attentionRank S).getD i 0]? := by
    intro i hi
    have hir : i < (metaC.attentionRank S).length := hrank.length.symm ▸ hi
    have hlt : (metaC.attentionRank S)[i] < metaC.topkWeights.length := hw ▸ hrank.getElem_lt hir
    simp [gather, hir, List.getElem?_eq_getElem hlt]
  constructor
  · intro hfix
    apply List.ext_getElem?
    intro i
    by_cases hi : i < metaC.numTokens
    · rw [hget i hi, hfix i hi]
    · rw [List.getElem?_eq_none (by rw [length_gather, hrank.length]; omega),
        List.getElem?_eq_none (by omega)]
  · intro heq i hi
    rw [← hget i hi, heq]

/-- The branches agree, and place every row under its own weight, exactly when the
dispatch order leaves the weight column as it is. -/
theorem branchesAgree_iff (h : Aligned .routing metaC) :
    BranchesAgree S metaC ↔ WeightsFixed S metaC := by
  obtain ⟨sorted, hsort, -, hrank⟩ := sortByAttention_weights (S := S) h
  have hposlen := (inversePositions_positions hrank).length
  constructor
  · intro hagree i hi
    -- rows that show the weight they were scaled by and the token they come from
    let hiddens : List (W × ℕ) := (List.range metaC.numTokens).map fun i => (0, i)
    have hn : hiddens.length = metaC.numTokens := by simp [hiddens]
    obtain ⟨sorted', positions, hsort', hbranch⟩ :=
      hagree (W × ℕ) (fun w x => (w, x.2)) hiddens hn
    obtain ⟨out, hok, -, hrow⟩ := hbranch false
    obtain ⟨out', hok', -, hrow'⟩ :=
      executeBatchExpert_rows (S := S) h false (fun w x => (w, x.2)) hn
    obtain ⟨-, rfl⟩ := Prod.mk.inj (Except.ok.inj (hsort.symm.trans hsort'))
    obtain rfl := Except.ok.inj (hok.symm.trans hok')
    have hir : i < (metaC.attentionRank S).length := hrank.length.symm ▸ hi
    have hip : i < (inversePositions (metaC.attentionRank S)).length := hposlen.symm ▸ hi
    have hboth := (hrow' i hip).symm.trans (hrow i hip)
    have hrlt : (metaC.attentionRank S)[i] < metaC.topkWeights.length :=
      h.topkWeights rfl ▸ hrank.getElem_lt hir
    have hwlt : i < metaC.topkWeights.length := (h.topkWeights rfl).symm ▸ hi
    simp [hiddens, gather, hi, hir, hrlt, hwlt] at hboth
    simp [hir, hrlt, hwlt, hboth]
  · intro hfix R scale hiddens hn
    refine ⟨sorted, _, hsort, fun useGdrcopyOptimization => ?_⟩
    obtain ⟨out, hok, hlen, hrow⟩ :=
      executeBatchExpert_rows (S := S) h useGdrcopyOptimization scale hn
    rw [(weightsFixed_iff h).mp hfix, ite_self] at hrow
    exact ⟨out, hok, hlen, hrow⟩

end Branches

/-- Two expert outputs of weights 3 and 5, for attention ranks 1 and 0. -/
def swappedRanks : BatchMetadata ℕ where
  batchTag := .expert
  shape := (2, 1)
  dtype := "bf16"
  layerId := 0
  reqIds := [7, 8]
  expIds := [0, 0]
  topkWeights := [3, 5]
  attnDpRanks := [1, 0]
  initPrefillLens := [-1, -1]

/-- The same outputs for attention ranks 0 and 1. -/
def sortedRanks : BatchMetadata ℕ := { swappedRanks with attnDpRanks := [0, 1] }

theorem branchesAgree_sortedRanks : BranchesAgree .insertion sortedRanks :=
  (branchesAgree_iff ⟨rfl, rfl, fun _ => rfl, fun _ => rfl, fun _ => rfl⟩).mpr (by decide)

/-- Without direct copies the outputs of weights 3 and 5 are scaled by 5 and 3. -/
theorem not_branchesAgree_swappedRanks :
    Aligned .routing swappedRanks ∧ ¬ BranchesAgree .insertion swappedRanks := by
  refine ⟨⟨rfl, rfl, fun _ => rfl, fun _ => rfl, fun _ => rfl⟩, fun hagree => ?_⟩
  obtain ⟨sorted, positions, hsort, hbranch⟩ := hagree ℕ (· * ·) [1, 1] rfl
  obtain ⟨out, hok, -, hrow⟩ := hbranch false
  have hpositions : positions = [1, 0] := by
    have hrun : (swappedRanks.sortByAttention .insertion).map Prod.snd = .ok [1, 0] := by decide
    rw [hsort] at hrun
    exact Except.ok.inj hrun
  have hdata : out.data = [3, 5] := by
    have hrun : (executeBatchExpert false .insertion (· * ·) swappedRanks [1, 1]).map
        TokenBatch.data = .ok [3, 5] := by decide
    rw [hok] at hrun
    exact Except.ok.inj hrun
  subst hpositions
  have hfirst := hrow 0 (by decide)
  rw [hdata] at hfirst
  exact absurd hfirst (by decide)

end StreamInfer.Engine
