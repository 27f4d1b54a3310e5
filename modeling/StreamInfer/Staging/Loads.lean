import StreamInfer.Staging.Gets

/-! Full queues of a device with one layer pair. New requests arrive one by one and
are merged in the first attention layer; routed tokens arrive one by one and are
merged in the expert layer; expert outputs of one token after the other fill the
token queue of the second attention layer. A get that drains such a queue copies
as many pointers as its threshold allows. -/

namespace StreamInfer.Staging

open General General.Stateful Batch BatchMetadata Pool UnifiedPool GdrContext Relation

variable {W R : Type} [Zero W] [Row R] [Inhabited R]

/-- A device with one layer pair and the given layers. -/
def loaded (c : StagingConfig) (l₀ l₁ l₂ : UnifiedLayer W R) : Serving W R where
  pool := { (servingStart c 1 1 none : Serving W R).pool with
    layerScheduler := { (LayerScheduler.new 2 1 c.topK none : LayerScheduler W R) with
      layers := [l₀, l₁, l₂] } }
  pending := none

/-- One token of request `j`. -/
def oneToken (tag : BatchTag) (j : ℕ) : BatchMetadata W where
  batchTag := tag
  shape := (1, Row.size (default : R))
  dtype := "bf16"
  layerId := 0
  reqIds := [(j : ℤ)]
  expIds := [0]
  topkWeights := [0]
  attnDpRanks := [0]
  initPrefillLens := [1]

/-- A layer with `n` batches of one token. -/
def batchLoad (layerId : ℕ) (f : ℕ → BatchMetadata W) (n : ℕ) : UnifiedLayer W R :=
  ⟨layerId, n, (List.range n).map fun j => ⟨[default], f j⟩, []⟩

omit [Zero W] [Row R] in
theorem batchLoad_succ (layerId : ℕ) (f : ℕ → BatchMetadata W) (n : ℕ) :
    (⟨layerId, (n : ℤ) + 1, (batchLoad (R := R) layerId f n).batchQueue ++ [⟨[default], f n⟩], []⟩ :
      UnifiedLayer W R) = batchLoad layerId f (n + 1) := by
  simp [batchLoad, List.range_succ]

variable {c : StagingConfig} {S : ComparatorSort}

/-- `n` new requests in the first attention layer. -/
theorem reach_attention (c : StagingConfig) (S : ComparatorSort) (n : ℕ) :
    ReflTransGen (Serving.Step S Serving.WellFormed) (servingStart c 1 1 none : Serving W R)
      (loaded c (batchLoad 0 (fun j => attnMeta (oneToken (R := R) .tokenizer j)) n) (.create 1)
        (.create 0)) := by
  induction n with
  | zero => exact .refl
  | succ n ih =>
    have hr : Serving.WellFormed [(default : R)] (oneToken (W := W) (R := R) .tokenizer n) :=
      ⟨rfl, fun _ => rfl, fun _ => ⟨rfl, rfl, by simp [View.attention], by simp [View.attention],
        by simp [View.attention]⟩, nofun⟩
    refine ih.tail (.receive [default] (oneToken (R := R) .tokenizer n) hr ?_ rfl)
    rw [← batchLoad_succ]
    rfl

/-- `n` routed tokens in the expert layer. -/
theorem reach_expert (c : StagingConfig) (S : ComparatorSort) (n : ℕ) :
    ReflTransGen (Serving.Step S Serving.WellFormed) (servingStart c 1 1 none : Serving W R)
      (loaded c (.create 0) (.create 1)
        (batchLoad 0 (fun j => expertMeta (oneToken (R := R) .attention j)) n)) := by
  induction n with
  | zero => exact .refl
  | succ n ih =>
    have hr : Serving.WellFormed [(default : R)] (oneToken (W := W) (R := R) .attention n) :=
      ⟨rfl, nofun, fun h => absurd rfl h, fun _ => ⟨⟨rfl, rfl, fun _ => rfl, fun _ => rfl,
        fun _ => rfl⟩, by simp [oneToken, maxNumExperts]⟩⟩
    refine ih.tail (.receive [default] (oneToken (R := R) .attention n) hr ?_ rfl)
    rw [← batchLoad_succ]
    rfl

/-! ### The token queue -/

/-- The `top_k` expert outputs of request `j` in one batch. -/
def allOutputs (topK j : ℕ) : BatchMetadata W where
  batchTag := .expert
  shape := (topK, Row.size (default : R))
  dtype := "bf16"
  layerId := 1
  reqIds := List.replicate topK (j : ℤ)
  expIds := []
  topkWeights := []
  attnDpRanks := List.replicate topK 0
  initPrefillLens := List.replicate topK 1

/-- The token of request `j` with `k` expert outputs. -/
def outputs (k j : ℕ) : TokenTopKInfo R := ⟨j, 1, 0, List.replicate k default⟩

def tokenLoad (topK n : ℕ) : UnifiedLayer W R :=
  ⟨1, n, [], (List.range n).map fun j => outputs topK j⟩

omit [Zero W] [Row R] in
theorem tokenLoad_succ (topK n : ℕ) :
    (⟨1, (n : ℤ) + 1, [], (tokenLoad (W := W) (R := R) topK n).tokenQueue ++ [outputs topK n]⟩ :
      UnifiedLayer W R) = tokenLoad topK (n + 1) := by
  simp [tokenLoad, List.range_succ]

omit [Zero W] [Row R] in
theorem appendTensor_outputs (k j : ℕ) :
    (outputs k j : TokenTopKInfo R).appendTensor default = outputs (k + 1) j := by
  simp [outputs, TokenTopKInfo.appendTensor, List.replicate_succ']

/-- The pool while `k` outputs of request `j` wait in it. -/
def waiting (topK k j : ℕ) : TokenTopKPool R :=
  { TokenTopKPool.new topK with pool := AList.insert (j : ℤ) (outputs k j) ∅ }

/-- One output of request `j`. -/
def outputOf (j : ℕ) : TokenTopKPool.TokenCopy R := ⟨j, 1, 0, default⟩

omit [Row R] in
theorem putToken_waiting (topK k j : ℕ) :
    (waiting topK k j : TokenTopKPool R).putToken (outputOf j) =
      if k + 1 = topK then { TokenTopKPool.new topK with readyTokens := [outputs (k + 1) j] }
      else waiting topK (k + 1) j := by
  have hlookup : (waiting topK k j : TokenTopKPool R).pool.lookup (outputOf (R := R) j).reqId =
      some (outputs k j) := AList.lookup_insert _
  have hcount : (outputs (k + 1) j : TokenTopKInfo R).count = k + 1 := by
    simp [outputs, TokenTopKInfo.count]
  simp only [TokenTopKPool.putToken, hlookup]
  have happend : (outputs k j : TokenTopKInfo R).appendTensor (outputOf (R := R) j).row =
      outputs (k + 1) j := appendTensor_outputs k j
  rw [happend, hcount]
  by_cases hk : k + 1 = topK
  · have htop : k + 1 = (waiting topK k j : TokenTopKPool R).topK := hk
    have hempty : (AList.insert (j : ℤ) (outputs k j : TokenTopKInfo R)
        (∅ : AList fun _ : ℤ => TokenTopKInfo R)).erase (j : ℤ) = ∅ := by
      apply AList.ext
      rw [AList.insert_empty]
      simp [AList.erase, AList.singleton]
    rw [if_pos hk, if_pos htop]
    simp only [waiting, outputOf, hempty, TokenTopKPool.new, List.nil_append]
  · have htop : k + 1 ≠ (waiting topK k j : TokenTopKPool R).topK := hk
    rw [if_neg hk, if_neg htop]
    simp only [waiting, outputOf, AList.insert_insert]

omit [Row R] in
/-- The last output makes the token ready and leaves the pool empty. -/
theorem foldl_putToken_waiting {topK m k : ℕ} (j : ℕ) (hk : m + (k + 1) = topK) :
    (List.replicate (k + 1) (outputOf (R := R) j)).foldl TokenTopKPool.putToken (waiting topK m j) =
      { TokenTopKPool.new topK with readyTokens := [outputs topK j] } := by
  induction k generalizing m with
  | zero =>
    rw [List.replicate_one, List.foldl_cons, List.foldl_nil, putToken_waiting, if_pos hk, hk]
  | succ k ih =>
    rw [List.replicate_succ, List.foldl_cons, putToken_waiting, if_neg (by omega)]
    exact ih (by omega)

omit [Row R] in
theorem foldl_putToken_outputs {topK : ℕ} (hk : 1 < topK) (j : ℕ) :
    (List.replicate topK (outputOf (R := R) j)).foldl TokenTopKPool.putToken (.new topK) =
      { TokenTopKPool.new topK with readyTokens := [outputs topK j] } := by
  obtain ⟨k, rfl⟩ : ∃ k, topK = k + 1 + 1 := ⟨topK - 2, by omega⟩
  rw [List.replicate_succ, List.foldl_cons]
  exact foldl_putToken_waiting (m := 1) j (by omega)

omit [Zero W] in
/-- The outputs of one request pass through the pool. -/
theorem putBatch_outputs {topK : ℕ} (hk : 1 < topK) (j : ℕ) :
    TokenTopKPool.putBatch (⟨List.replicate topK default, allOutputs (R := R) topK j⟩ : TokenBatch W R)
        (.new topK) =
      .ok ⟨⟩ { TokenTopKPool.new topK with readyTokens := [outputs topK j] } := by
  have hcopies : TokenTopKPool.copies
      (⟨List.replicate topK default, allOutputs (R := R) topK j⟩ : TokenBatch W R) =
        List.replicate topK (outputOf j) := by
    apply List.ext_getElem
    · simp [TokenTopKPool.copies]
    · intro i h₁ h₂
      have hi : i < topK := by simpa using h₂
      simp [TokenTopKPool.copies, allOutputs, outputOf, hi]
  refine TokenTopKPool.putBatch_ok_iff.mpr ⟨⟨?_, ?_, ?_, ?_, ?_⟩, ?_⟩
  · simp [allOutputs, numTokens]
  · intro row hrow
    rw [List.eq_of_mem_replicate hrow]
    rfl
  · simp [allOutputs, numTokens]
  · simp [allOutputs, numTokens]
  · simp [allOutputs, numTokens]
  · rw [hcopies, foldl_putToken_outputs hk]

omit [Zero W] in
theorem processBatch_outputs {p : UnifiedPool W R} {topK : ℕ} (hk : 1 < topK) (htop : p.topK = topK)
    (hpool : p.topkPools[1]? = some (.new topK)) (j : ℕ) :
    processBatch (List.replicate topK default) (allOutputs (R := R) topK j) p =
      onScheduler (LayerScheduler.attnAddTokens 1 [outputs topK j]) p := by
  set ready : TokenTopKPool R := { TokenTopKPool.new topK with readyTokens := [outputs topK j] } with hready
  obtain ⟨hlt, hget⟩ := List.getElem?_eq_some_iff.mp hpool
  have hput : onTopkPool 1 (TokenTopKPool.putBatch
      (⟨List.replicate topK default, allOutputs (R := R) topK j⟩ : TokenBatch W R)) p =
        .ok ⟨⟩ { p with topkPools := p.topkPools.set 1 ready } := by
    rw [onTopkPool, hpool]
    simp only [putBatch_outputs hk]
    rfl
  have hfetch : onTopkPool 1 TokenTopKPool.fetchReadyTokens
      { p with topkPools := p.topkPools.set 1 ready } = .ok [outputs topK j] p := by
    have hback : (p.topkPools.set 1 ready).set 1 (.new topK) = p.topkPools := by
      rw [List.set_set, ← hget]
      exact List.set_getElem_self hlt
    simp only [onTopkPool, List.getElem?_set_self hlt]
    show EStateM.Result.ok [outputs topK j]
      { p with topkPools := (p.topkPools.set 1 ready).set 1 (.new topK) } = _
    rw [hback]
  have hcollect : (1 < p.topK ∧ 0 < (allOutputs (W := W) (R := R) topK j).layerId) :=
    ⟨htop ▸ hk, Nat.one_pos⟩
  rw [processBatch, get_bind]
  have htok : (allOutputs (W := W) (R := R) topK j).isTokenizer = false := rfl
  have hexp : (allOutputs (W := W) (R := R) topK j).isExpert = true := rfl
  rw [htok, hexp, if_neg (by decide), if_pos rfl, if_pos hcollect, processAttnBatchTopk]
  exact (bind_of_ok hput).trans (bind_of_ok hfetch)

/-- `n` tokens with all their expert outputs in the second attention layer. -/
theorem reach_tokens {c : StagingConfig} (hk : 1 < c.topK) (S : ComparatorSort) (n : ℕ) :
    ReflTransGen (Serving.Step S Serving.WellFormed) (servingStart c 1 1 none : Serving W R)
      (loaded c (.create 0) (tokenLoad c.topK n) (.create 0)) := by
  induction n with
  | zero => exact .refl
  | succ n ih =>
    have hr : Serving.WellFormed (List.replicate c.topK (default : R))
        (allOutputs (W := W) (R := R) c.topK n) :=
      ⟨by simp [allOutputs, numTokens], nofun,
        fun _ => ⟨by simp [allOutputs, numTokens], by simp [allOutputs, numTokens],
          by simp [View.attention], by simp [View.attention],
          by simp [View.attention, allOutputs, numTokens]⟩, nofun⟩
    refine ih.tail (.receive _ (allOutputs (R := R) c.topK n) hr ?_ rfl)
    have hpool : (loaded c (.create 0) (tokenLoad (R := R) c.topK n) (.create 0) :
        Serving W R).pool.topkPools[1]? = some (.new c.topK) := by
      simp [loaded, servingStart, Serving.start, UnifiedPool.new, hk]
    rw [processBatch_outputs hk rfl hpool, ← tokenLoad_succ]
    rfl

/-! ### The gets that overflow -/

omit [Zero W] [Row R] [Inhabited R] in
/-- A queue within the threshold is taken whole. -/
theorem takeBatches_all {tokenThreshold : ℤ} {queue : List (TokenBatch W R)}
    (h : ∀ b ∈ queue, b.metadata.numTokens = 1) (total : ℤ) (ht : total + queue.length ≤ tokenThreshold)
    (l : UnifiedLayer W R) (hl : l.batchQueue = queue) :
    UnifiedLayer.takeBatches tokenThreshold queue total l =
      .ok (queue, total + queue.length) { l with batchQueue := [] } := by
  induction queue generalizing total l with
  | nil =>
    obtain ⟨layerId, numTokens, batchQueue, tokenQueue⟩ := l
    obtain rfl := hl
    simp [UnifiedLayer.takeBatches, pure, EStateM.pure]
  | cons b queue ih =>
    obtain ⟨hb, hq⟩ := List.forall_mem_cons.mp h
    rw [List.length_cons] at ht
    have hrest := ih hq (total + 1) (by omega) { l with batchQueue := queue } rfl
    have hlt : total < tokenThreshold := by omega
    have hcut : ¬ total + (1 : ℕ) > tokenThreshold := by omega
    have hlen : total + ((b :: queue).length : ℤ) = total + 1 + queue.length := by
      rw [List.length_cons, Nat.cast_add, Nat.cast_one]
      omega
    rw [UnifiedLayer.takeBatches, if_pos hlt, hb, if_neg hcut, hlen]
    exact (bind_of_ok rfl).trans ((bind_of_ok hrest).trans rfl)

omit [Zero W] [Row R] [Inhabited R] in
theorem getBatchesRestricted_all {tokenThreshold : ℤ} {l : UnifiedLayer W R}
    (h : ∀ b ∈ l.batchQueue, b.metadata.numTokens = 1) (hne : l.batchQueue ≠ [])
    (ht : l.batchQueue.length ≤ tokenThreshold) :
    ∃ l', UnifiedLayer.getBatchesRestricted tokenThreshold l = .ok l.batchQueue l' := by
  have ht' : 0 + (l.batchQueue.length : ℤ) ≤ tokenThreshold := by omega
  have htake := takeBatches_all h 0 ht' l rfl
  have hpos : 0 < 0 + (l.batchQueue.length : ℤ) := by
    have := List.length_pos_iff.mpr hne
    omega
  refine ⟨{ l with batchQueue := [], numTokens := l.numTokens - (0 + l.batchQueue.length) }, ?_⟩
  rw [UnifiedLayer.getBatchesRestricted, get_bind, bind_of_ok htake]
  refine (bind_of_ok rfl).trans ?_
  rw [if_pos ⟨hpos, hne⟩]
  rfl

section Overflow

variable {t : Serving W R}

/-- A reached state in which layer `i` is picked. -/
structure Picked (c : StagingConfig) (S : ComparatorSort) (i : ℕ) (t : Serving W R) : Prop where
  reach : ReflTransGen (Serving.Step S Serving.WellFormed) (servingStart c 1 1 none : Serving W R) t
  pending : t.pending = some (i : ℤ)

omit [Inhabited R] in
theorem consistent_of_reach {c : StagingConfig} {S : ComparatorSort} (hA : 1 ≤ c.maxBatchSizeAttn)
    (hE : 1 ≤ c.maxBatchSizeExpert)
    (h : ReflTransGen (Serving.Step S Serving.WellFormed) (servingStart c 1 1 none) t) :
    Serving.Consistent (fun _ => True) (layerKind 2) (servingStart c 1 1 none : Serving W R).pool t :=
  (Serving.consistent_of_run (fun _ => True) (layerKind 2) (fun _ h => by cases h) (by omega)
    (by omega) (fun p tensor metaC hn hr => by
      have hs := hr.suits p
      rwa [hn] at hs) h).1

omit [Inhabited R] in
/-- The schedule picks the only layer that holds tokens. -/
theorem exists_picked {c : StagingConfig} {S : ComparatorSort} (hA : 1 ≤ c.maxBatchSizeAttn)
    (hE : 1 ≤ c.maxBatchSizeExpert) {i : ℕ}
    (h : ReflTransGen (Serving.Step S Serving.WellFormed) (servingStart c 1 1 none) t)
    (hp : t.pending = none) (hheld : ∀ j < 3, 0 < t.pool.layerScheduler.held j ↔ j = i) (hi : i < 3) :
    ∃ t' : Serving W R, Picked c S i t' ∧
      t'.pool.layerScheduler.layers = t.pool.layerScheduler.layers := by
  have hcons := consistent_of_reach hA hE h
  have hlayers : t.pool.layerScheduler.numLayers = 3 := hcons.settings.shape.numLayers
  obtain ⟨contents, hk, -⟩ := hcons.keeps
  obtain ⟨id, s', hok, hpick, hsame, -⟩ := hk.schedule (by
    rw [hcons.settings.shape.numExpertLayers, hcons.settings.shape.numAttnLayers]
    exact Nat.le_succ 1) hcons.decay
  obtain rfl : id = (i : ℤ) := by
    rcases hpick with ⟨-, hnone⟩ | ⟨j, hj, rfl, hpos⟩
    · have hpos := (hheld i hi).mpr rfl
      rw [hnone i (by rwa [hlayers])] at hpos
      exact absurd hpos (Nat.lt_irrefl 0)
    · rw [(hheld j (by rwa [← hlayers])).mp hpos]
  refine ⟨⟨{ t.pool with layerScheduler := s' }, some (i : ℤ)⟩, ⟨?_, rfl⟩, hsame⟩
  exact h.tail (.schedule _ hp (onScheduler_ok_iff.mpr ⟨s', hok, rfl⟩) rfl)

/-- A queue of more one-token batches than the region has pointers overflows it. -/
theorem batches_overflow {c : StagingConfig} {S : ComparatorSort} (hA : 1 ≤ c.maxBatchSizeAttn)
    (hE : 1 ≤ c.maxBatchSizeExpert) {i layerId n : ℕ} {f : ℕ → BatchMetadata W} (ht : Picked c S i t)
    (hi : i < 3) (hq : t.pool.layerScheduler.layerUsesTokenQueue i = false)
    (hl : t.pool.layerScheduler.layers[i]? = some (batchLoad (R := R) layerId f n))
    (hf : ∀ j, (f j).numTokens = 1) (hn : (n : ℤ) ≤ t.pool.thresholdAt i) (hmany : maxGatherTokens < n) :
    stageGet S i t.pool (.new c) = .error overflow := by
  have hcons := consistent_of_reach hA hE ht.reach
  have hi' : i < t.pool.layerScheduler.numLayers := by
    rw [hcons.settings.shape.numLayers]
    exact hi
  obtain ⟨contents, hk, -⟩ := hcons.keeps
  obtain ⟨l, hl', -, hholds⟩ := hk.holds hi' hq
  obtain rfl := Option.some.inj (hl.symm.trans hl')
  obtain ⟨xss, hgood, hxs⟩ := hholds.batches
  have hlen : (batchLoad (R := R) layerId f n).batchQueue.length = n := by
    simp [batchLoad]
  have hone : ∀ b ∈ (batchLoad (R := R) layerId f n).batchQueue, b.metadata.numTokens = 1 := by
    intro b hb
    obtain ⟨j, -, rfl⟩ := List.mem_map.mp hb
    exact hf j
  have hbig : 2 ≤ n := by
    rw [maxGatherTokens] at hmany
    omega
  have hne : (batchLoad (R := R) layerId f n).batchQueue ≠ [] := by
    rw [← List.length_pos_iff, hlen]
    omega
  have hwhole : ((batchLoad (R := R) layerId f n).batchQueue.length : ℤ) ≤ t.pool.thresholdAt i := by
    rwa [hlen]
  obtain ⟨l', hget⟩ := getBatchesRestricted_all hone hne hwhole
  obtain ⟨merged, hmerge, hgood'⟩ := (layerKind 2 i).merges hne hgood
  have hnum : merged.metadata.numTokens = n := by
    have hcounter : (n : ℤ) = (contents.batches i).length := hholds.counter
    rw [(layerKind 2 i).numTokens hgood', ((layerKind 2 i).arrange_perm hgood).length_eq, hxs]
    omega
  rw [stageGet_batches S hi' hq hl hget, stageMerge_eq hmerge (by rwa [hlen]), hnum]
  exact copyFromHost_overflow hmany (by decide)

/-- So do queued tokens with more expert outputs than that. -/
theorem tokens_overflow {c : StagingConfig} {S : ComparatorSort} (hA : 1 ≤ c.maxBatchSizeAttn)
    (hE : 1 ≤ c.maxBatchSizeExpert) {i n : ℕ} (ht : Picked c S i t)
    (hi : i < 3) (hq : t.pool.layerScheduler.layerUsesTokenQueue i = true)
    (hl : t.pool.layerScheduler.layers[i]? = some (tokenLoad (R := R) c.topK n))
    (hn : (n : ℤ) ≤ t.pool.thresholdAt i) (hmany : maxGatherTokens < n * c.topK) :
    stageGet S i t.pool (.new c) = .error overflow := by
  have hcons := consistent_of_reach hA hE ht.reach
  have hi' : i < t.pool.layerScheduler.numLayers := by
    rw [hcons.settings.shape.numLayers]
    exact hi
  obtain ⟨contents, hk, -⟩ := hcons.keeps
  obtain ⟨l, hl', -, hholds⟩ := hk.holdsTokens hi' hq
  obtain rfl := Option.some.inj (hl.symm.trans hl')
  obtain ⟨l', hget, -, -⟩ := hholds.getTokensRestricted (t.pool.thresholdAt i)
  have htokens : contents.tokens i = (List.range n).map fun j => outputs c.topK j := hholds.tokens.symm
  have hall : (contents.tokens i).take (t.pool.thresholdAt i).toNat = contents.tokens i := by
    apply List.take_of_length_le
    rw [htokens, List.length_map, List.length_range]
    omega
  have hcount : ∀ u ∈ contents.tokens i, u.count = c.topK := by
    intro u hu
    rw [htokens] at hu
    obtain ⟨j, -, rfl⟩ := List.mem_map.mp hu
    simp [outputs, TokenTopKInfo.count]
  have hne : contents.tokens i ≠ [] := by
    have hpos : 0 < n := by
      by_contra hzero
      obtain rfl : n = 0 := by omega
      simp at hmany
    rw [htokens, ← List.length_pos_iff, List.length_map, List.length_range]
    exact hpos
  rw [hall] at hget
  rw [stageGet_tokens S hi' hq hl hget, stagePack_eq S hne hcount, htokens, List.length_map,
    List.length_range]
  exact copyFromHost_overflow hmany (by decide)

/-- A picked layer whose get overflows. -/
def Overflows (c : StagingConfig) (S : ComparatorSort) (t : Serving W R) : Prop :=
  ∃ i, Picked c S i t ∧ stageGet S i t.pool (.new c) = .error overflow

theorem attention_overflows (c : StagingConfig) (S : ComparatorSort) (hE : 1 ≤ c.maxBatchSizeExpert)
    (hmany : maxGatherTokens < c.maxBatchSizeAttn) : ∃ t : Serving W R, Overflows c S t := by
  have hA : 1 ≤ c.maxBatchSizeAttn := Nat.one_le_of_lt hmany
  have hreach := reach_attention (W := W) (R := R) c S c.maxBatchSizeAttn
  obtain ⟨t, ht, hsame⟩ := exists_picked hA hE hreach rfl (i := 0) (by
    intro j hj
    interval_cases j <;>
      simp [LayerScheduler.held, LayerScheduler.queuedBatches, LayerScheduler.queuedTokens, loaded,
        batchLoad, UnifiedLayer.create, attnMeta, oneToken, numTokens, Function.comp_def]
    omega)
    (by decide)
  have hcons := consistent_of_reach hA hE ht.reach
  refine ⟨t, 0, ht, batches_overflow hA hE ht (by decide) ?_ (by rw [hsame]; rfl) (fun _ => rfl) ?_ hmany⟩
  · rw [hcons.wired.layerUsesTokenQueue]
    simp
  · rw [hcons.settings.thresholdAt_eq, servingStart, Serving.thresholdAt_start]
    simp

theorem expert_overflows (c : StagingConfig) (S : ComparatorSort) (hA : 1 ≤ c.maxBatchSizeAttn)
    (hmany : maxGatherTokens < c.maxBatchSizeExpert) : ∃ t : Serving W R, Overflows c S t := by
  have hE : 1 ≤ c.maxBatchSizeExpert := Nat.one_le_of_lt hmany
  have hreach := reach_expert (W := W) (R := R) c S c.maxBatchSizeExpert
  obtain ⟨t, ht, hsame⟩ := exists_picked hA hE hreach rfl (i := 2) (by
    intro j hj
    interval_cases j <;>
      simp [LayerScheduler.held, LayerScheduler.queuedBatches, LayerScheduler.queuedTokens, loaded,
        batchLoad, UnifiedLayer.create, expertMeta, oneToken, numTokens, Function.comp_def]
    omega)
    (by decide)
  have hcons := consistent_of_reach hA hE ht.reach
  refine ⟨t, 2, ht, batches_overflow hA hE ht (by decide) ?_ (by rw [hsame]; rfl) (fun _ => rfl) ?_ hmany⟩
  · have hattn : t.pool.layerScheduler.numAttnLayers = 2 := hcons.settings.shape.numAttnLayers
    rw [hcons.wired.layerUsesTokenQueue, hattn]
    simp
  · rw [hcons.settings.thresholdAt_eq, servingStart, Serving.thresholdAt_start]
    simp

theorem tokenQueue_overflows (c : StagingConfig) (S : ComparatorSort) (hA : 1 ≤ c.maxBatchSizeAttn)
    (hE : 1 ≤ c.maxBatchSizeExpert) (hk : 1 < c.topK)
    (hmany : maxGatherTokens < c.maxBatchSizeAttn * c.topK) : ∃ t : Serving W R, Overflows c S t := by
  have hreach := reach_tokens (W := W) (R := R) hk S c.maxBatchSizeAttn
  obtain ⟨t, ht, hsame⟩ := exists_picked hA hE hreach rfl (i := 1) (by
    intro j hj
    interval_cases j <;>
      simp [LayerScheduler.held, LayerScheduler.queuedBatches, LayerScheduler.queuedTokens, loaded,
        tokenLoad, UnifiedLayer.create]
    omega)
    (by decide)
  have hcons := consistent_of_reach hA hE ht.reach
  refine ⟨t, 1, ht, tokens_overflow hA hE ht (by decide) ?_ (by rw [hsame]; rfl) ?_ hmany⟩
  · have hattn : t.pool.layerScheduler.numAttnLayers = 2 := hcons.settings.shape.numAttnLayers
    have htop : t.pool.topK = c.topK := hcons.settings.topK
    rw [hcons.wired.layerUsesTokenQueue, hattn, htop]
    simpa using hk
  · rw [hcons.settings.thresholdAt_eq, servingStart, Serving.thresholdAt_start]
    simp

end Overflow

end StreamInfer.Staging
