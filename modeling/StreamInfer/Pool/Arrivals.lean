import StreamInfer.Batch.Entries
import StreamInfer.Pool.UnifiedPool

/-! What reaches the layers. A received batch ends in one of three ways: labelled
and added to an attention layer, labelled and added to an expert layer, or
collected, with the tokens it completes added to a token queue. The first part
inverts `process_batch`; the second describes adds by the tokens they bring. -/

namespace StreamInfer.Pool

open General General.Stateful Batch BatchMetadata

variable {W R : Type}

namespace UnifiedPool

/-! ### Received batches -/

theorem onScheduler_ok_iff {α : Type} {x : LayerScheduler.SchedulerM W R α} {p p' : UnifiedPool W R}
    {a : α} : onScheduler x p = .ok a p' ↔
      ∃ s', x p.layerScheduler = .ok a s' ∧ p' = { p with layerScheduler := s' } := onPart_ok_iff

theorem onTopkPool_ok_iff {α : Type} {i : ℕ} {x : TokenTopKPool.TopKM R α} {p p' : UnifiedPool W R}
    {a : α} : onTopkPool i x p = .ok a p' ↔ ∃ t t', p.topkPools[i]? = some t ∧ x t = .ok a t' ∧
      p' = { p with topkPools := p.topkPools.set i t' } := by
  unfold onTopkPool
  cases hi : p.topkPools[i]? with
  | none => simp
  | some t =>
    cases hx : x t with
    | ok b t' => simp [hx, eq_comm]
    | error e t' => simp [hx]

/-- Goes to an attention layer as a batch. -/
def ToAttention (p : UnifiedPool W R) (metaC : BatchMetadata W) : Prop :=
  metaC.batchTag = .tokenizer ∨ metaC.batchTag = .expert ∧ ¬ (1 < p.topK ∧ 0 < metaC.layerId)

/-- Goes copy by copy to the pool that collects expert outputs. -/
def ToCollect (p : UnifiedPool W R) (metaC : BatchMetadata W) : Prop :=
  metaC.batchTag = .expert ∧ 1 < p.topK ∧ 0 < metaC.layerId

theorem ToAttention.tag_ne {p : UnifiedPool W R} {metaC : BatchMetadata W} (h : ToAttention p metaC) :
    metaC.batchTag ≠ .attention := by
  rcases h with h | ⟨h, -⟩ <;> simp [h]

theorem processAttnBatch_ok {tensor : List R} {metaC : BatchMetadata W} {p p' : UnifiedPool W R}
    (h : processAttnBatch tensor metaC p = .ok ⟨⟩ p') :
    ∃ s', LayerScheduler.addBatch ⟨tensor, attnMeta metaC⟩ p.layerScheduler = .ok ⟨⟩ s' ∧
      p' = { p with layerScheduler := s' } := by
  unfold processAttnBatch at h
  split_ifs at h
  · exact onScheduler_ok_iff.mp h
  · simp at h

theorem processExpertBatch_ok {tensor : List R} {metaC : BatchMetadata W} {p p' : UnifiedPool W R}
    (h : processExpertBatch tensor metaC p = .ok ⟨⟩ p') :
    ∃ s', LayerScheduler.addBatch ⟨tensor, expertMeta metaC⟩ p.layerScheduler = .ok ⟨⟩ s' ∧
      p' = { p with layerScheduler := s' } := by
  rw [processExpertBatch, get_bind] at h
  split_ifs at h
  · simp at h
  · exact onScheduler_ok_iff.mp h

/-- Collecting a batch: its tokens that became ready, if any, join the queue. -/
structure Collected [Row R] (tensor : List R) (metaC : BatchMetadata W) (p p' : UnifiedPool W R)
    (t : TokenTopKPool R) : Prop where
  pool : p.topkPools[metaC.layerId]? = some t
  shape : metaC.numTokens = metaC.reqIds.length ∧ metaC.numTokens = metaC.attnDpRanks.length ∧
    metaC.numTokens = metaC.initPrefillLens.length ∧ tensor.length = metaC.numTokens
  pools : p'.topkPools = p.topkPools.set metaC.layerId
    { (TokenTopKPool.copies (⟨tensor, metaC⟩ : TokenBatch W R)).foldl TokenTopKPool.putToken t with
      readyTokens := [] }
  same : p'.topK = p.topK ∧ p'.numGroups = p.numGroups ∧
    p'.attnScheduleTokenThreshold = p.attnScheduleTokenThreshold ∧
    p'.expertScheduleTokenThreshold = p.expertScheduleTokenThreshold
  ready : ∃ ready, ready =
      ((TokenTopKPool.copies (⟨tensor, metaC⟩ : TokenBatch W R)).foldl
        TokenTopKPool.putToken t).readyTokens ∧
    if ready = [] then p'.layerScheduler = p.layerScheduler
    else LayerScheduler.attnAddTokens metaC.layerId ready p.layerScheduler =
      .ok ⟨⟩ p'.layerScheduler

theorem processAttnBatchTopk_ok [Row R] {tensor : List R} {metaC : BatchMetadata W}
    {p p' : UnifiedPool W R} (h : processAttnBatchTopk tensor metaC p = .ok ⟨⟩ p') :
    ∃ t, Collected tensor metaC p p' t := by
  rw [processAttnBatchTopk, bind_ok_iff] at h
  obtain ⟨⟨⟩, p₁, hput, h⟩ := h
  rw [bind_ok_iff] at h
  obtain ⟨ready, p₂, hfetch, h⟩ := h
  obtain ⟨t, t₁, ht, hput', rfl⟩ := onTopkPool_ok_iff.mp hput
  obtain ⟨⟨hdata, -, hreq, hrank, hlen⟩, rfl⟩ := TokenTopKPool.putBatch_ok_iff.mp hput'
  obtain ⟨t₁, t₂, ht₁, hfetch', rfl⟩ := onTopkPool_ok_iff.mp hfetch
  obtain ⟨rfl, rfl⟩ := TokenTopKPool.fetchReadyTokens_ok_iff.mp hfetch'
  have hlt := (List.getElem?_eq_some_iff.mp ht).1
  rw [List.getElem?_set_self hlt, Option.some_inj] at ht₁
  subst ht₁
  rw [List.set_set] at h
  split_ifs at h with hempty
  · obtain ⟨-, rfl⟩ := pure_ok_iff.mp h
    refine ⟨t, ht, ⟨hreq, hrank, hlen, hdata⟩, rfl, ⟨rfl, rfl, rfl, rfl⟩, _, rfl, ?_⟩
    rw [if_pos (List.length_eq_zero_iff.mp hempty)]
  · obtain ⟨s', hadd, rfl⟩ := onScheduler_ok_iff.mp h
    refine ⟨t, ht, ⟨hreq, hrank, hlen, hdata⟩, rfl, ⟨rfl, rfl, rfl, rfl⟩, _, rfl, ?_⟩
    rw [if_neg (fun he => hempty (List.length_eq_zero_iff.mpr he))]
    exact hadd

/-- How a received batch ends. -/
theorem processBatch_ok [Row R] {tensor : List R} {metaC : BatchMetadata W} {p p' : UnifiedPool W R}
    (h : processBatch tensor metaC p = .ok ⟨⟩ p') :
    (ToAttention p metaC ∧
      ∃ s', LayerScheduler.addBatch ⟨tensor, attnMeta metaC⟩ p.layerScheduler = .ok ⟨⟩ s' ∧
        p' = { p with layerScheduler := s' }) ∨
    (ToCollect p metaC ∧ ∃ t, Collected tensor metaC p p' t) ∨
    (metaC.batchTag = .attention ∧
      ∃ s', LayerScheduler.addBatch ⟨tensor, expertMeta metaC⟩ p.layerScheduler = .ok ⟨⟩ s' ∧
        p' = { p with layerScheduler := s' }) := by
  rw [processBatch, get_bind] at h
  cases htag : metaC.batchTag with
  | tokenizer =>
    simp only [isTokenizer, htag, beq_self_eq_true, ↓reduceIte] at h
    exact .inl ⟨.inl htag, processAttnBatch_ok h⟩
  | expert =>
    simp only [isTokenizer, isExpert, htag, beq_self_eq_true, ↓reduceIte, beq_iff_eq,
      reduceCtorEq] at h
    split_ifs at h with hcollect
    · exact .inr (.inl ⟨⟨htag, hcollect⟩, processAttnBatchTopk_ok h⟩)
    · exact .inl ⟨.inr ⟨htag, hcollect⟩, processAttnBatch_ok h⟩
  | attention =>
    simp only [isTokenizer, isExpert, isAttention, htag, beq_self_eq_true, ↓reduceIte, beq_iff_eq,
      reduceCtorEq] at h
    exact .inr (.inr ⟨rfl, processExpertBatch_ok h⟩)

/-! ### What the layers hold afterwards -/

/-- The parts of the pool agree on `top_k`, and no ready token waits. -/
structure Wired (lens : ℤ → Prop) (p : UnifiedPool W R) : Prop where
  tokenQueue : p.layerScheduler.attnUseTokenQueue = decide (1 < p.topK)
  topK : 1 < p.topK → p.layerScheduler.topK = p.topK
  pools : ∀ t ∈ p.topkPools, t.topK = p.topK ∧ t.WellFormed lens ∧ t.readyTokens = []

theorem wired_new (lens : ℤ → Prop) (numLayers numGroups topK : ℕ) (defrag : Option (ℕ × ℕ × ℚ)) :
    Wired lens (new numLayers numGroups topK defrag : UnifiedPool W R) := by
  have hpools : ∀ t ∈ (new numLayers numGroups topK defrag : UnifiedPool W R).topkPools,
      t = TokenTopKPool.new topK := by
    intro t ht
    simp only [new] at ht
    split_ifs at ht
    · exact (List.mem_replicate.mp ht).2
    · simp at ht
  refine ⟨?_, fun h => ?_, fun t ht => ?_⟩
  · rcases defrag with _ | ⟨lookback, lookahead, decay⟩ <;> rfl
  · have h' : 0 < topK := Nat.lt_trans Nat.one_pos h
    rcases defrag with _ | ⟨lookback, lookahead, decay⟩ <;>
      simp [new, schedulerFor, LayerScheduler.newDefrag, LayerScheduler.new, h']
  · rw [hpools t ht]
    exact ⟨rfl, TokenTopKPool.wellFormed_new _ _, rfl⟩

/-- The settings of the pool, which no operation changes. -/
structure SameSettings (p p' : UnifiedPool W R) : Prop where
  topK : p'.topK = p.topK
  numGroups : p'.numGroups = p.numGroups
  attnThreshold : p'.attnScheduleTokenThreshold = p.attnScheduleTokenThreshold
  expertThreshold : p'.expertScheduleTokenThreshold = p.expertScheduleTokenThreshold
  shape : LayerScheduler.SameShape p.layerScheduler p'.layerScheduler

theorem SameSettings.trans {p p' p'' : UnifiedPool W R} (h : SameSettings p p')
    (h' : SameSettings p' p'') : SameSettings p p'' :=
  ⟨h'.1.trans h.1, h'.2.trans h.2, h'.3.trans h.3, h'.4.trans h.4, h.5.trans h'.5⟩

theorem Wired.ofScheduler {lens : ℤ → Prop} {p : UnifiedPool W R} (h : Wired lens p)
    {s' : LayerScheduler W R} (hs : LayerScheduler.SameShape p.layerScheduler s') :
    Wired lens { p with layerScheduler := s' } :=
  ⟨hs.attnUseTokenQueue.trans h.tokenQueue, fun hk => hs.topK.trans (h.topK hk), h.pools⟩

theorem SameSettings.ofScheduler {p : UnifiedPool W R} {s' : LayerScheduler W R}
    (hs : LayerScheduler.SameShape p.layerScheduler s') :
    SameSettings p { p with layerScheduler := s' } := ⟨rfl, rfl, rfl, rfl, hs⟩

/-- The tokens after an arrival. -/
inductive Arrived (lens : ℤ → Prop) (p : UnifiedPool W R) (tensor : List R) (metaC : BatchMetadata W)
    (ys : List (TokenMetadata W × R)) (c c' : Contents W R) : Prop
  | attention (h : ToAttention p metaC) (hl : metaC.layerId < p.layerScheduler.numAttnLayers)
      (hc : c' = c.setBatches metaC.layerId (c.batches metaC.layerId ++ ys))
  | expert (h : metaC.batchTag = .attention)
      (hl : metaC.layerId < p.layerScheduler.numExpertLayers)
      (hc : c' = c.setBatches (p.layerScheduler.numAttnLayers + metaC.layerId)
        (c.batches (p.layerScheduler.numAttnLayers + metaC.layerId) ++ ys))
  | collect (h : ToCollect p metaC) (t : TokenTopKPool R) (ht : p.topkPools[metaC.layerId]? = some t)
      (hlen : ∀ u ∈ ((TokenTopKPool.copies (⟨tensor, metaC⟩ : TokenBatch W R)).foldl
        TokenTopKPool.putToken t).readyTokens, lens u.initPrefillLen)
      (hc : c' = c.setTokens metaC.layerId (c.tokens metaC.layerId ++
        ((TokenTopKPool.copies (⟨tensor, metaC⟩ : TokenBatch W R)).foldl
          TokenTopKPool.putToken t).readyTokens))

/-- Arrivals only append. -/
theorem Arrived.appends {lens : ℤ → Prop} {p : UnifiedPool W R} {tensor : List R} {metaC : BatchMetadata W}
    {ys : List (TokenMetadata W × R)} {c c' : Contents W R} (h : Arrived lens p tensor metaC ys c c')
    (i : ℕ) : c.batches i <+: c'.batches i ∧ c.tokens i <+: c'.tokens i := by
  have hset : ∀ {α : Type} (f : ℕ → List α) (j : ℕ) (xs : List α),
      f i <+: Function.update f j (f j ++ xs) i := by
    intro α f j xs
    by_cases hij : i = j
    · subst hij
      simp
    · simp only [Function.update_of_ne hij, List.prefix_rfl]
  cases h with
  | attention _ _ hc => subst hc; exact ⟨hset _ _ _, List.prefix_rfl⟩
  | expert _ _ hc => subst hc; exact ⟨hset _ _ _, List.prefix_rfl⟩
  | collect _ _ _ _ hc => subst hc; exact ⟨List.prefix_rfl, hset _ _ _⟩

/-- Queued tokens keep to the prefill lengths. -/
theorem Arrived.lens {lens : ℤ → Prop} {p : UnifiedPool W R} {tensor : List R}
    {metaC : BatchMetadata W} {ys : List (TokenMetadata W × R)} {c c' : Contents W R}
    (h : Arrived lens p tensor metaC ys c c') (hc : ∀ i, ∀ u ∈ c.tokens i, lens u.initPrefillLen) :
    ∀ i, ∀ u ∈ c'.tokens i, lens u.initPrefillLen := by
  cases h with
  | attention _ _ hc' => subst hc'; exact hc
  | expert _ _ hc' => subst hc'; exact hc
  | collect _ t _ hlen hc' =>
    subst hc'
    intro i u hu
    by_cases hi : i = metaC.layerId
    · subst hi
      rw [Contents.setTokens_self, List.mem_append] at hu
      exact hu.elim (hc _ u) (hlen u)
    · rw [Contents.setTokens_of_ne _ hi] at hu
      exact hc i u hu

variable {lens : ℤ → Prop} {p p' : UnifiedPool W R}

theorem lt_of_onAttnLayer {α : Type} {i : ℕ} {x : UnifiedLayer.LayerM W R α} {a : α}
    {s s' : LayerScheduler W R} (h : LayerScheduler.onAttnLayer i x s = .ok a s') :
    i < s.numAttnLayers := by
  rw [LayerScheduler.onAttnLayer, get_bind] at h
  by_contra hi
  rw [if_neg hi] at h
  simp at h

theorem lt_of_onExpertLayer {α : Type} {i : ℕ} {x : UnifiedLayer.LayerM W R α} {a : α}
    {s s' : LayerScheduler W R} (h : LayerScheduler.onExpertLayer i x s = .ok a s') :
    i < s.numExpertLayers := by
  rw [LayerScheduler.onExpertLayer, get_bind] at h
  by_contra hi
  rw [if_neg hi] at h
  simp at h

theorem Wired.layerUsesTokenQueue (hw : Wired lens p) (i : ℕ) :
    p.layerScheduler.layerUsesTokenQueue i =
      decide (1 < p.topK ∧ i < p.layerScheduler.numAttnLayers ∧ 0 < i) := by
  simp [LayerScheduler.layerUsesTokenQueue, LayerScheduler.isAttnLayer, hw.tokenQueue,
    Bool.and_assoc]

/-- Collecting keeps the pools in order, and what becomes ready has `top_k` rows. -/
theorem Wired.collected [Row R] (hw : Wired lens p) {tensor : List R} {metaC : BatchMetadata W}
    {t : TokenTopKPool R} (h : Collected tensor metaC p p' t) (hk : 1 < p.topK)
    (hlen : ∀ l ∈ metaC.initPrefillLens, lens l) :
    (∀ u ∈ p'.topkPools, u.topK = p.topK ∧ u.WellFormed lens ∧ u.readyTokens = []) ∧
      ∀ u ∈ ((TokenTopKPool.copies (⟨tensor, metaC⟩ : TokenBatch W R)).foldl
        TokenTopKPool.putToken t).readyTokens, u.count = p.topK ∧ lens u.initPrefillLen := by
  obtain ⟨htop, hwf, -⟩ := hw.pools t (List.mem_of_getElem? h.pool)
  have hcopies : ∀ c ∈ TokenTopKPool.copies (⟨tensor, metaC⟩ : TokenBatch W R),
      lens c.initPrefillLen := fun c hc => hlen _
    (TokenTopKPool.initPrefillLen_of_mem_copies (h.shape.2.2.2.trans h.shape.2.2.1) hc)
  obtain ⟨hwf', htop'⟩ := hwf.foldl_putToken (by rwa [htop]) hcopies
  refine ⟨fun u hu => ?_, fun u hu => ?_⟩
  rotate_left
  · obtain ⟨hcount, hl⟩ := hwf'.ready u hu
    exact ⟨hcount.trans (htop'.trans htop), hl⟩
  rw [h.pools] at hu
  rcases List.mem_or_eq_of_mem_set hu with hu | rfl
  · exact hw.pools u hu
  · exact ⟨htop'.trans htop, ⟨hwf'.keyed, by simp⟩, rfl⟩

section Keeps

variable [Zero W]

/-- A received batch that the layers can take, with its tokens. -/
structure Suits (lens : ℤ → Prop) (K : ℕ → BatchKind W R) (p : UnifiedPool W R) (tensor : List R)
    (metaC : BatchMetadata W) (ys : List (TokenMetadata W × R)) : Prop where
  first : metaC.batchTag = .tokenizer → metaC.layerId = 0
  attention : ToAttention p metaC → metaC.layerId < p.layerScheduler.numAttnLayers →
    (K metaC.layerId).Good ⟨tensor, attnMeta metaC⟩ ys
  expert : metaC.batchTag = .attention →
    (K (p.layerScheduler.numAttnLayers + metaC.layerId)).Good ⟨tensor, expertMeta metaC⟩ ys
  collect : ToCollect p metaC → ∀ l ∈ metaC.initPrefillLens, lens l

variable {K : ℕ → BatchKind W R} {c : Contents W R}

/-- What a received batch brings joins its layer. -/
theorem Wired.processBatch [Row R] (hw : Wired lens p) (hk : LayerScheduler.Keeps K p.layerScheduler c)
    {tensor : List R} {metaC : BatchMetadata W} {ys : List (TokenMetadata W × R)}
    (hs : Suits lens K p tensor metaC ys) (h : UnifiedPool.processBatch tensor metaC p = .ok ⟨⟩ p') :
    Wired lens p' ∧ SameSettings p p' ∧ p'.layerScheduler.defrag = p.layerScheduler.defrag ∧
      ∃ c', LayerScheduler.Keeps K p'.layerScheduler c' ∧ Arrived lens p tensor metaC ys c c' := by
  rcases processBatch_ok h with ⟨hto, s', hadd, rfl⟩ | ⟨hto, t, hcol⟩ | ⟨htag, s', hadd, rfl⟩
  · have hl : metaC.layerId < p.layerScheduler.numAttnLayers := by
      rw [LayerScheduler.addBatch, if_pos (by simp [isAttention, attnMeta])] at hadd
      exact lt_of_onAttnLayer hadd
    have hq : p.layerScheduler.layerUsesTokenQueue metaC.layerId = false := by
      rw [hw.layerUsesTokenQueue, decide_eq_false_iff_not]
      rintro ⟨htop, -, hpos⟩
      rcases hto with htok | ⟨-, hno⟩
      · exact hpos.ne' (hs.first htok)
      · exact hno ⟨htop, hpos⟩
    obtain ⟨s₁, hok, hshape, hdefrag, hkeep⟩ :=
      hk.addBatch_attention hl hq (hs.attention hto hl) rfl rfl
    obtain rfl : s₁ = s' := by simpa [hadd] using hok.symm
    exact ⟨hw.ofScheduler hshape, .ofScheduler hshape, hdefrag, _, hkeep, .attention hto hl rfl⟩
  · obtain ⟨ready, rfl, hready⟩ := hcol.ready
    obtain ⟨hpools, hcount⟩ := hw.collected hcol hto.2.1 (hs.collect hto)
    obtain ⟨hsame, hsame₁, hsame₂, hsame₃⟩ := hcol.same
    split_ifs at hready with hnil
    · refine ⟨⟨by rw [hready, hw.tokenQueue, hsame], ?_, by rwa [hsame]⟩,
        ⟨hsame, hsame₁, hsame₂, hsame₃, hready ▸ .refl _⟩, by rw [hready], c, hready ▸ hk,
        .collect hto t hcol.pool (fun u hu => (hcount u hu).2) ?_⟩
      · rw [hready, hsame]
        exact hw.topK
      · simp [Contents.setTokens, hnil]
    · have hl := lt_of_onAttnLayer hready
      obtain ⟨s', hok, hshape, hdefrag, hkeep⟩ := hk.attnAddTokens hl
        (by rw [hw.layerUsesTokenQueue, decide_eq_true_iff]; exact ⟨hto.2.1, hl, hto.2.2⟩)
        (fun u hu => by rw [hw.topK hto.2.1]; exact (hcount u hu).1)
      obtain rfl : s' = p'.layerScheduler := by simpa [hready] using hok.symm
      refine ⟨⟨?_, ?_, by rwa [hsame]⟩, ⟨hsame, hsame₁, hsame₂, hsame₃, hshape⟩, hdefrag, _, hkeep,
        .collect hto t hcol.pool (fun u hu => (hcount u hu).2) rfl⟩
      · rw [hshape.attnUseTokenQueue, hsame, hw.tokenQueue]
      · rw [hshape.topK, hsame]
        exact hw.topK
  · have hl : metaC.layerId < p.layerScheduler.numExpertLayers := by
      rw [LayerScheduler.addBatch, if_neg (by simp [isAttention, expertMeta]),
        if_pos (by simp [isExpert, expertMeta])] at hadd
      exact lt_of_onExpertLayer hadd
    obtain ⟨s₁, hok, hshape, hdefrag, hkeep⟩ := hk.addBatch_expert hl (hs.expert htag) rfl rfl
    obtain rfl : s₁ = s' := by simpa [hadd] using hok.symm
    exact ⟨hw.ofScheduler hshape, .ofScheduler hshape, hdefrag, _, hkeep, .expert htag hl rfl⟩

end Keeps

end UnifiedPool

end StreamInfer.Pool
