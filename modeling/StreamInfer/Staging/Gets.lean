import StreamInfer.Staging.Buffers
import StreamInfer.Pool.Serving

/-! The copies of a get. Several batches are merged with one pointer for every
token, and packed tokens have a pointer for every expert output, so a get within
its threshold copies at most that many, or `top_k` times as many, pointers. -/

namespace StreamInfer.Staging

open General General.Stateful Batch BatchMetadata Pool UnifiedPool GdrContext

variable {W R : Type} [Zero W]

theorem mergeByExpert_metadata {batches : List (TokenBatch W R)} {merged : TokenBatch W R}
    (hok : TokenBatch.mergeByExpert batches = .ok merged) :
    ∃ positions, BatchMetadata.mergeByExpert (batches.map (·.metadata)) =
      .ok (merged.metadata, positions) := by
  simp only [TokenBatch.mergeByExpert, bind, Except.bind] at hok
  split at hok
  · cases hok
  · next merge hmerge =>
    split at hok
    · cases hok
    · cases hok
      exact ⟨merge.2, hmerge⟩

omit [Zero W] in
theorem mergeByAttention_metadata {batches : List (TokenBatch W R)} {merged : TokenBatch W R}
    (hok : TokenBatch.mergeByAttention batches = .ok merged) :
    BatchMetadata.mergeByAttention (batches.map (·.metadata)) = .ok merged.metadata := by
  simp only [TokenBatch.mergeByAttention, bind, Except.bind] at hok
  split at hok
  · cases hok
  · next merge hmerge =>
    split_ifs at hok
    · split at hok
      · cases hok
      · cases hok
        exact hmerge

/-- Two batches or more are gathered, one pointer for every merged token. -/
theorem stageMerge_eq {batches : List (TokenBatch W R)} {merged : TokenBatch W R}
    (hok : TokenBatch.merge batches = .ok (some merged)) (hlen : 2 ≤ batches.length)
    (b : StagingBuffers) :
    stageMerge batches b = b.gatherSrcPtrs.copyFromHost merged.metadata.numTokens 8 := by
  match batches, hlen with
  | b₁ :: b₂ :: bs, _ =>
    simp only [TokenBatch.merge] at hok
    split_ifs at hok with he ha
    · cases hmerge : TokenBatch.mergeByExpert (b₁ :: b₂ :: bs) with
      | error e => simp [hmerge, Functor.map, Except.map] at hok
      | ok merged' =>
        obtain rfl : merged' = merged := by simpa [hmerge, Functor.map, Except.map] using hok
        obtain ⟨positions, hmeta⟩ := mergeByExpert_metadata hmerge
        simp only [stageMerge, he, ↓reduceIte, hmeta]
        rfl
    · cases hmerge : TokenBatch.mergeByAttention (b₁ :: b₂ :: bs) with
      | error e => simp [hmerge, Functor.map, Except.map] at hok
      | ok merged' =>
        obtain rfl : merged' = merged := by simpa [hmerge, Functor.map, Except.map] using hok
        simp only [stageMerge, he, ha, ↓reduceIte, mergeByAttention_metadata hmerge]
        rfl

/-- At most one batch is handed out as it is. -/
theorem stageMerge_of_short {batches : List (TokenBatch W R)} (hlen : batches.length < 2)
    (b : StagingBuffers) : stageMerge batches b = .ok () := by
  match batches, hlen with
  | [], _ => rfl
  | [_], _ => rfl

omit [Zero W] in
/-- Tokens of `top_k` expert outputs each are gathered with `top_k` pointers each. -/
theorem stagePack_eq (S : ComparatorSort) {tokens : List (TokenTopKInfo R)} (hne : tokens ≠ [])
    {topk : ℕ} (hcount : ∀ t ∈ tokens, t.count = topk) (b : StagingBuffers) :
    stagePack S tokens b = b.gatherAndSumSrcPtrs.copyFromHost (tokens.length * topk) 8 := by
  have hperm := S.perm TokenTopKInfo.before tokens
  unfold stagePack
  cases hsort : S.sort TokenTopKInfo.before tokens with
  | nil =>
    rw [hsort] at hperm
    exact absurd hperm.symm.eq_nil hne
  | cons first rest =>
    rw [hsort] at hperm
    have hfirst : first.count = topk := hcount first (hperm.subset List.mem_cons_self)
    show b.gatherAndSumSrcPtrs.copyFromHost ((first :: rest).length * first.count) 8 = _
    rw [hperm.length_eq, hfirst]

variable {K : ℕ → BatchKind W R} {p : UnifiedPool W R} {c : Contents W R} {i : ℕ}

/-- The copies of a get from a layer of batches. -/
theorem stageGet_batches (S : ComparatorSort) (hi : i < p.layerScheduler.numLayers)
    (hq : p.layerScheduler.layerUsesTokenQueue i = false) {l l' : UnifiedLayer W R}
    (hl : p.layerScheduler.layers[i]? = some l) {batches : List (TokenBatch W R)}
    (hget : UnifiedLayer.getBatchesRestricted (p.thresholdAt i) l = .ok batches l')
    (b : StagingBuffers) : stageGet S i p b = stageMerge batches b := by
  have hrange : ¬ ((i : ℤ) < 0 ∨ (i : ℤ) ≥
      ((p.layerScheduler.numAttnLayers + p.layerScheduler.numExpertLayers : ℕ) : ℤ)) := by
    have : i < p.layerScheduler.numAttnLayers + p.layerScheduler.numExpertLayers := hi
    omega
  rw [thresholdAt] at hget
  simp only [stageGet, if_neg hrange, Int.toNat_natCast, hl, hq, Bool.false_eq_true, ↓reduceIte, hget]

/-- The copies of a get from a layer of tokens. -/
theorem stageGet_tokens (S : ComparatorSort) (hi : i < p.layerScheduler.numLayers)
    (hq : p.layerScheduler.layerUsesTokenQueue i = true) {l l' : UnifiedLayer W R}
    (hl : p.layerScheduler.layers[i]? = some l) {tokens : List (TokenTopKInfo R)}
    (hget : UnifiedLayer.getTokensRestricted (p.thresholdAt i) l = .ok tokens l')
    (b : StagingBuffers) : stageGet S i p b = stagePack S tokens b := by
  have hrange : ¬ ((i : ℤ) < 0 ∨ (i : ℤ) ≥
      ((p.layerScheduler.numAttnLayers + p.layerScheduler.numExpertLayers : ℕ) : ℤ)) := by
    have : i < p.layerScheduler.numAttnLayers + p.layerScheduler.numExpertLayers := hi
    omega
  rw [thresholdAt] at hget
  simp only [stageGet, if_neg hrange, Int.toNat_natCast, hl, hq, ↓reduceIte, hget]

/-- A get copies within the threshold of its layer. -/
theorem stageGet_within (hk : LayerScheduler.Keeps K p.layerScheduler c) (S : ComparatorSort)
    (hi : i < p.layerScheduler.numLayers) (hheld : 0 < p.layerScheduler.held i)
    (ht : 1 ≤ p.thresholdAt i) (b : StagingBuffers) :
    stageGet S i p b = .ok () ∨
    (∃ n : ℕ, (n : ℤ) ≤ p.thresholdAt i ∧ stageGet S i p b = b.gatherSrcPtrs.copyFromHost n 8) ∨
    (p.layerScheduler.layerUsesTokenQueue i = true ∧ ∃ n : ℕ, (n : ℤ) ≤ p.thresholdAt i ∧
      stageGet S i p b = b.gatherAndSumSrcPtrs.copyFromHost (n * p.layerScheduler.topK) 8) := by
  have hcount := hk.held_eq hi
  cases hq : p.layerScheduler.layerUsesTokenQueue i with
  | false =>
    obtain ⟨l, hl, -, hholds⟩ := hk.holds hi hq
    have hne : c.batches i ≠ [] := by
      rintro hnil
      rw [hq, hnil] at hcount
      exact hheld.ne' hcount
    obtain ⟨bs, yss, l', hget, hbne, hbs, htake, -, -⟩ := hholds.getBatchesRestricted hne ht
    obtain ⟨merged, hmerge, hgood⟩ := (K i).merges hbne hbs
    have hnum : merged.metadata.numTokens = ((c.batches i).take (p.thresholdAt i).toNat).length := by
      rw [(K i).numTokens hgood, ((K i).arrange_perm hbs).length_eq, htake]
    rw [stageGet_batches S hi hq hl hget]
    by_cases hlen : 2 ≤ bs.length
    · refine .inr (.inl ⟨merged.metadata.numTokens, ?_, stageMerge_eq hmerge hlen b⟩)
      rw [List.length_take] at hnum
      omega
    · exact .inl (stageMerge_of_short (Nat.lt_of_not_le hlen) b)
  | true =>
    obtain ⟨l, hl, -, hholds⟩ := hk.holdsTokens hi hq
    have hne : (c.tokens i).take (p.thresholdAt i).toNat ≠ [] := by
      intro hnil
      have hlen := congrArg List.length hnil
      rw [hq] at hcount
      simp only [List.length_take, List.length_nil, ↓reduceIte] at hlen hcount
      omega
    obtain ⟨l', hget, -, -⟩ := hholds.getTokensRestricted (p.thresholdAt i)
    refine .inr (.inr ⟨rfl, ((c.tokens i).take (p.thresholdAt i).toNat).length, ?_, ?_⟩)
    · rw [List.length_take]
      omega
    · rw [stageGet_tokens S hi hq hl hget]
      exact stagePack_eq S hne (fun t ht => hholds.counts t (List.mem_of_mem_take ht)) b

/-! ### No copy overflows -/

/-- The pool of a device with the thresholds of its configuration. -/
def servingStart (c : StagingConfig) (numLayers numGroups : ℕ) (defrag : Option (ℕ × ℕ × ℚ)) :
    Serving W R :=
  .start numLayers numGroups c.topK defrag c.maxBatchSizeAttn c.maxBatchSizeExpert

/-- With at most as many pointers as the regions have, gets do not overflow. -/
theorem stageGet_fits {cfg : StagingConfig} {numLayers numGroups : ℕ} {defrag : Option (ℕ × ℕ × ℚ)}
    {lens : ℤ → Prop} {t : Serving W R}
    (h : Serving.Consistent lens K (servingStart cfg numLayers numGroups defrag).pool t)
    (S : ComparatorSort) (hA : 1 ≤ cfg.maxBatchSizeAttn) (hE : 1 ≤ cfg.maxBatchSizeExpert)
    (hk : 1 ≤ cfg.topK) (hattn : cfg.maxBatchSizeAttn * cfg.topK ≤ maxGatherTokens)
    (hexpert : cfg.maxBatchSizeExpert ≤ maxGatherTokens) {id : ℤ} (hp : t.pending = some id) :
    stageGet S id t.pool (.new cfg) ≠ .error overflow := by
  rcases h.pending id hp with rfl | ⟨i, hi, rfl, hheld⟩
  · rw [stageGet]
    simp
  have hthr : t.pool.thresholdAt i =
      if (i : ℤ) < numLayers + 1 then (cfg.maxBatchSizeAttn : ℤ) else cfg.maxBatchSizeExpert := by
    rw [h.settings.thresholdAt_eq]
    exact Serving.thresholdAt_start i
  have hone : 1 ≤ t.pool.thresholdAt i := by
    rw [hthr]
    split_ifs <;> omega
  have hattn₁ : cfg.maxBatchSizeAttn ≤ maxGatherTokens :=
    (Nat.le_mul_of_pos_right _ hk).trans hattn
  obtain ⟨c, hkeep, -⟩ := h.keeps
  rcases stageGet_within hkeep S hi hheld hone (.new cfg) with hok | ⟨n, hn, hcopy⟩ | ⟨hq, n, hn, hcopy⟩
  · rw [hok]
    simp
  · rw [hcopy]
    apply copyFromHost_ne_overflow
    rw [hthr] at hn
    split_ifs at hn <;> omega
  · rw [hcopy]
    apply copyFromHost_ne_overflow
    rw [h.wired.layerUsesTokenQueue, decide_eq_true_iff] at hq
    have htop : t.pool.layerScheduler.topK = cfg.topK :=
      (h.wired.topK hq.1).trans h.settings.topK
    have hlt : (i : ℤ) < numLayers + 1 := by
      have hlayers : t.pool.layerScheduler.numAttnLayers = numLayers + 1 :=
        h.settings.shape.numAttnLayers.trans Serving.start_layers.1
      have := hq.2.1
      omega
    rw [hthr, if_pos hlt] at hn
    rw [htop]
    refine (Nat.mul_le_mul_right _ ?_).trans hattn
    omega

end StreamInfer.Staging
