import StreamInfer.Pool.Contents
import StreamInfer.Pool.TokenTopKPool

/-! The pool of a device: received batches are labelled by their tag and go to the
attention layers, to the expert layers or, copy by copy, to the pool that
collects expert outputs. -/

namespace StreamInfer.Pool

open General General.Stateful Batch BatchMetadata

variable {W R : Type}

structure UnifiedPool (W R : Type) where
  topK : ℕ
  numGroups : ℕ
  attnScheduleTokenThreshold : ℤ
  expertScheduleTokenThreshold : ℤ
  topkPools : List (TokenTopKPool R)
  layerScheduler : LayerScheduler W R
  deriving DecidableEq

namespace UnifiedPool

abbrev PoolM (W R : Type) := EStateM Fault (UnifiedPool W R)

/-- The scheduler of a pool of `numLayers` layers; with `lookback`, `lookahead` and a
decay it is the defragging one. -/
def schedulerFor (numLayers topK : ℕ) (defrag : Option (ℕ × ℕ × ℚ)) : LayerScheduler W R :=
  match defrag with
  | none => LayerScheduler.new (numLayers + 1) numLayers topK none
  | some (lookback, lookahead, decay) =>
    LayerScheduler.newDefrag (numLayers + 1) numLayers topK lookback lookahead decay

def new (numLayers numGroups topK : ℕ) (defrag : Option (ℕ × ℕ × ℚ)) : UnifiedPool W R where
  topK := topK
  numGroups := numGroups
  attnScheduleTokenThreshold := -1
  expertScheduleTokenThreshold := -1
  topkPools := if 1 < topK then List.replicate (numLayers + 1) (TokenTopKPool.new topK) else []
  layerScheduler := schedulerFor numLayers topK defrag

def onScheduler {α : Type} (x : LayerScheduler.SchedulerM W R α) : PoolM W R α :=
  onPart layerScheduler (fun p s => { p with layerScheduler := s }) x

/-- An operation of `topk_pools[i]`. -/
def onTopkPool {α : Type} (i : ℕ) (x : TokenTopKPool.TopKM R α) : PoolM W R α := fun p =>
  match p.topkPools[i]? with
  | none => .error (.outOfRange "topk_pools[i]") p
  | some t =>
    match x t with
    | .ok a t' => .ok a { p with topkPools := p.topkPools.set i t' }
    | .error e t' => .error e { p with topkPools := p.topkPools.set i t' }

def processAttnBatchTopk [Row R] (tensor : List R) (metaC : BatchMetadata W) : PoolM W R Unit := do
  onTopkPool metaC.layerId (TokenTopKPool.putBatch (W := W) ⟨tensor, metaC⟩)
  let readyTokens ← onTopkPool metaC.layerId TokenTopKPool.fetchReadyTokens
  if readyTokens.length = 0 then return ()
  else onScheduler (LayerScheduler.attnAddTokens metaC.layerId readyTokens)

/-- The label and the counts of an attention batch. -/
def attnMeta (metaC : BatchMetadata W) : BatchMetadata W :=
  let lens := metaC.initPrefillLens.take metaC.reqIds.length
  { metaC with
    batchTag := .attention
    numPrefillSeqs := some (lens.countP (· ≠ -1))
    numPrefillTokens := some (lens.countP (· ≠ -1))
    numDecodeTokens := some (lens.countP (· = -1)) }

def processAttnBatch (tensor : List R) (metaC : BatchMetadata W) : PoolM W R Unit :=
  if metaC.reqIds.length ≤ metaC.initPrefillLens.length then
    onScheduler (LayerScheduler.addBatch ⟨tensor, attnMeta metaC⟩)
  else throw (.outOfRange "init_prefill_lens[i]")

def expertMeta (metaC : BatchMetadata W) : BatchMetadata W := { metaC with batchTag := .expert }

def processExpertBatch (tensor : List R) (metaC : BatchMetadata W) : PoolM W R Unit := do
  if 1 < (← get).numGroups then
    throw (.assertion "Expert pool does not support multiple groups at this time")
  else onScheduler (LayerScheduler.addBatch ⟨tensor, expertMeta metaC⟩)

def processBatch [Row R] (tensor : List R) (metaC : BatchMetadata W) : PoolM W R Unit := do
  let p ← get
  if metaC.isTokenizer then processAttnBatch tensor metaC
  else if metaC.isExpert then
    if 1 < p.topK ∧ 0 < metaC.layerId then processAttnBatchTopk tensor metaC
    else processAttnBatch tensor metaC
  else if metaC.isAttention then processExpertBatch tensor metaC
  else throw (.assertion "Invalid batch metadata")

/-- `MuPool::put_batch`, for batches of the first attention layer. -/
def putBatch [Row R] (batch : TokenBatch W R) : PoolM W R Unit :=
  processBatch batch.data { batch.metadata with batchTag := .tokenizer }

def getBatchFromLayer [Zero W] [Row R] (S : ComparatorSort) (layerId : ℤ) :
    PoolM W R (Option (TokenBatch W R)) := do
  let p ← get
  let tokenThreshold := if p.layerScheduler.isAttnLayer layerId then p.attnScheduleTokenThreshold
    else p.expertScheduleTokenThreshold
  onScheduler (LayerScheduler.getBatchFromLayerRestricted S layerId tokenThreshold)

/-! ### Labelled batches -/

theorem countP_not_add (lens : List ℤ) :
    lens.countP (· = -1) = lens.length - lens.countP (· ≠ -1) := by
  rw [List.length_eq_countP_add_countP (l := lens) (· = -1)]
  simp

/-- The labels leave the columns. -/
theorem attnMeta_lists {v : View} {metaC : BatchMetadata W} {ts : List (TokenMetadata W)}
    (h : metaC.Lists v ts) : (attnMeta metaC).Lists v ts ∧ (attnMeta metaC).Counted ts := by
  have hl : (attnMeta metaC).Lists v ts := h.congr rfl rfl rfl rfl rfl rfl
  have htake : metaC.initPrefillLens.take metaC.reqIds.length = metaC.initPrefillLens := by
    rw [List.take_of_length_le]
    simp [h.reqIds, h.initPrefillLens]
  have hcount : metaC.initPrefillLens.countP (· ≠ -1) = ts.countP TokenMetadata.isFirst :=
    hl.countPrefill_eq
  have hlen : metaC.initPrefillLens.length = ts.length := by simp [h.initPrefillLens]
  refine ⟨hl, ?_, ?_, ?_⟩
  · simp only [attnMeta, htake, hcount]
  · simp only [attnMeta, htake, hcount]
  · simp only [attnMeta, htake, countP_not_add, hcount, hlen]

/-- A labelled batch is an attention batch of its layer. -/
theorem attnMeta_attentionBatch {tensor : List R} {metaC : BatchMetadata W}
    {xs : List (TokenMetadata W × R)} (h : Carries .attention ⟨tensor, metaC⟩ xs) :
    BatchKind.AttentionBatch metaC.layerId (⟨tensor, attnMeta metaC⟩ : TokenBatch W R) xs where
  lists := (attnMeta_lists h.lists).1
  data := h.data
  counted := (attnMeta_lists h.lists).2
  tag := rfl
  layer := rfl

theorem expertMeta_expertBatch {tensor : List R} {metaC : BatchMetadata W}
    {xs : List (TokenMetadata W × R)} (h : Carries .routing ⟨tensor, metaC⟩ xs)
    (hid : ∀ x ∈ xs, x.1.expId < maxNumExperts) :
    BatchKind.ExpertBatch metaC.layerId (⟨tensor, expertMeta metaC⟩ : TokenBatch W R) xs where
  lists := h.lists.congr rfl rfl rfl rfl rfl rfl
  data := h.data
  tag := rfl
  layer := rfl
  bounded := hid

end UnifiedPool

end StreamInfer.Pool
