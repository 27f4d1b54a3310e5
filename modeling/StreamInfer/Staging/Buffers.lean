import StreamInfer.Engine.AttentionEpilogue
import StreamInfer.Engine.ExpertEpilogue
import StreamInfer.Kv.Slots
import StreamInfer.Pool.UnifiedPool
import StreamInfer.Staging.GdrContext

/-! The staging buffers of a device and the copies into them. A copy that does not
fit into the registered region is refused. The buffers are built from the
configuration in four places; what is copied depends on the batch, on the block
lists of its requests and on how many batches or tokens a get joins. -/

namespace StreamInfer.Staging

open General General.Stateful Batch BatchMetadata Kv Pool

variable {W R : Type}

/-- What the buffers are sized from. -/
structure StagingConfig where
  maxBatchSizeAttn : ℕ
  maxBatchSizeExpert : ℕ
  topK : ℕ
  blockSize : ℕ
  maxSeqLen : ℕ

open GdrContext

/-- A sequence overflows in its first part or in the rest. -/
theorem bind_ne_overflow {α β : Type} {x : Except Fault α} {f : α → Except Fault β}
    (hx : x ≠ .error overflow) (hf : ∀ a, f a ≠ .error overflow) :
    (x >>= f) ≠ .error overflow := by
  cases x with
  | error e => exact fun h => hx (congrArg Except.error (Except.error.inj h))
  | ok a => exact hf a

theorem bind_overflow {α β : Type} {x : Except Fault α} (hx : x = .error overflow)
    (f : α → Except Fault β) : (x >>= f) = .error overflow := by
  rw [hx]
  rfl

/-! ### The buffers -/

/-- Both halves have these sizes. -/
structure BatchTensorBuffer where
  blockTable : GdrContext
  slotMapping : GdrContext
  seqLens : GdrContext
  contextLens : GdrContext
  seqStartLoc : GdrContext

def BatchTensorBuffer.new (maxBatchSize maxNumPages : ℕ) : BatchTensorBuffer where
  blockTable := ofTensor (maxBatchSize * maxNumPages) 4
  slotMapping := ofTensor maxBatchSize 8
  seqLens := ofTensor maxBatchSize 4
  contextLens := ofTensor maxBatchSize 4
  seqStartLoc := ofTensor (maxBatchSize + 1) 4

/-- One of the two buffers of each kind; the other has the same size. -/
structure StagingBuffers where
  batchTensorBuffer : BatchTensorBuffer
  gatherSrcPtrs : GdrContext
  gatherAndSumSrcPtrs : GdrContext
  attnTokenMapping : GdrContext
  expertTokenMapping : GdrContext
  expertTokenWeights : GdrContext

def StagingBuffers.new (c : StagingConfig) : StagingBuffers where
  batchTensorBuffer := .new c.maxBatchSizeAttn (c.maxSeqLen / c.blockSize)
  gatherSrcPtrs := ofTensor maxGatherTokens 8
  gatherAndSumSrcPtrs := ofTensor maxGatherTokens 8
  attnTokenMapping := ofTensor (c.maxBatchSizeAttn * c.topK) 4
  expertTokenMapping := ofTensor c.maxBatchSizeExpert 4
  expertTokenWeights := ofTensor c.maxBatchSizeExpert 4

/-! ### The copies of an attention batch -/

/-- `prepare_block_table_gdr` with its copies. -/
def prepareBlockTableGdr (m : BlockManager) (metaC : BatchMetadata W) (decodeSeqLens : List ℤ)
    (b : BatchTensorBuffer) : Except Fault ℕ := do
  let (blockTable, slotMapping, width) ← m.prepareBlockTableGdr metaC decodeSeqLens
  b.blockTable.copyFromHost blockTable.length 4
  b.slotMapping.copyFromHost slotMapping.length 8
  return width

/-- `prepare_seq_info_gdr` with its copies. -/
def prepareSeqInfoGdr (metaC : BatchMetadata W) (decodeSeqLens : List ℤ) (b : BatchTensorBuffer) :
    Except Fault Unit := do
  let numSeqs := metaC.numTokens
  if numSeqs ≤ decodeSeqLens.length then
    let contextLens := (decodeSeqLens.take numSeqs).map (· - 1)
    let seqStartLoc := (decodeSeqLens.take numSeqs).scanl (· + ·) 0
    b.seqLens.copyFromHost numSeqs 4
    b.contextLens.copyFromHost contextLens.length 4
    b.seqStartLoc.copyFromHost seqStartLoc.length 4
  else throw (.outOfRange "decode_seq_lens[i]")

/-- The mapping that `postprocess_batch_attn` copies for the gate's choices. -/
def stageTokenMapping [Zero W] (topK : ℕ) (metaC : BatchMetadata W) (expertIds : List ℕ)
    (expertWeights : List W) (b : StagingBuffers) : Except Fault Unit := do
  let routed := { metaC.duplicateTopk topK with expIds := expertIds, topkWeights := expertWeights }
  let (_, expMappings) ← routed.sortByExpert
  b.attnTokenMapping.copyFromHost expMappings.length 4

/-- The weights and the mapping that `execute_batch_expert` copies. -/
def stageExpertEpilogue [Zero W] (S : ComparatorSort) (metaC : BatchMetadata W) (b : StagingBuffers) :
    Except Fault Unit := do
  let topkWeights := metaC.topkWeights
  let (_, newMappings) ← metaC.sortByAttention S
  b.expertTokenWeights.copyFromHost topkWeights.length 4
  b.expertTokenMapping.copyFromHost newMappings.length 4

/-! ### The copies of a get -/

/-- `merge` copies a pointer for every merged token; one batch is not merged. -/
def stageMerge [Zero W] (batches : List (TokenBatch W R)) (b : StagingBuffers) : Except Fault Unit :=
  match batches with
  | [] => .ok ()
  | [_] => .ok ()
  | first :: _ =>
    if first.metadata.isExpert then do
      let (mergedMeta, _) ← BatchMetadata.mergeByExpert (batches.map (·.metadata))
      b.gatherSrcPtrs.copyFromHost mergedMeta.numTokens 8
    else if first.metadata.isAttention then do
      let mergedMeta ← BatchMetadata.mergeByAttention (batches.map (·.metadata))
      b.gatherSrcPtrs.copyFromHost mergedMeta.numTokens 8
    else .error (.assertion "Invalid batch metadata")

/-- `pack_topk_tokens` copies a pointer for every expert output. -/
def stagePack (S : ComparatorSort) (tokens : List (TokenTopKInfo R)) (b : StagingBuffers) :
    Except Fault Unit :=
  match S.sort TokenTopKInfo.before tokens with
  | [] => .error (.outOfRange "tokens[0]")
  | first :: rest =>
    b.gatherAndSumSrcPtrs.copyFromHost ((first :: rest).length * first.count) 8

/-- The copies of `get_batch_from_layer`. -/
def stageGet [Zero W] (S : ComparatorSort) (layerId : ℤ) (p : UnifiedPool W R) (b : StagingBuffers) :
    Except Fault Unit :=
  let s := p.layerScheduler
  let threshold := if s.isAttnLayer layerId then p.attnScheduleTokenThreshold
    else p.expertScheduleTokenThreshold
  if layerId < 0 ∨ layerId ≥ (s.numAttnLayers + s.numExpertLayers : ℕ) then .ok ()
  else
    match s.layers[layerId.toNat]? with
    | none => .error (.outOfRange "layers[i]")
    | some l =>
      if s.layerUsesTokenQueue layerId then
        match UnifiedLayer.getTokensRestricted threshold l with
        | .ok tokens _ => stagePack S tokens b
        | .error e _ => .error e
      else
        match UnifiedLayer.getBatchesRestricted threshold l with
        | .ok batches _ => stageMerge batches b
        | .error e _ => .error e

end StreamInfer.Staging
