import StreamInfer.Pool.MuPool
import StreamInfer.Pool.TokenTopKPool
import StreamInfer.Staging.GdrContext

/-! The attention pool of a disaggregated engine, after `muhelper.cpp`. It inherits the
queues of batches of `MuAttentionPool` and adds queues of tokens. A batch of layer 0
goes to the former, the tokens that later layers complete go to the latter, and a get
drains the latter. `MuAttentionPool` adds a layer to those it is given, so the queues
of tokens are one fewer than the other containers. -/

namespace StreamInfer.Pool

open General General.Stateful Batch Staging

variable {W R : Type}

structure MuAttentionTopKPool (W R : Type) extends MuPool W R where
  layerIdV2P : List ℕ
  attnTokenQueues : List (List (TokenTopKInfo R))
  topkPools : List (TokenTopKPool R)
  deriving DecidableEq

namespace MuAttentionTopKPool

abbrev MuM (W R : Type) := EStateM Fault (MuAttentionTopKPool W R)

def new (layerIds : List ℕ) (topK : ℕ) : MuAttentionTopKPool W R :=
  let layers := MuAttentionPool.poolLayers layerIds
  { MuPool.new layers 1 with
    layerIdV2P := layers
    attnTokenQueues := List.replicate layerIds.length []
    topkPools := List.replicate layers.length (.new topK) }

/-- A call of the pool of queues of batches. -/
def inherited {α : Type} (x : MuPool.PoolM W R α) : MuM W R α :=
  onPart toMuPool (fun p pool => { p with toMuPool := pool }) x

/-! ### Arrivals -/

/-- Put a batch into the pool of a layer and fetch what is ready. -/
def collectTokens [Row R] (lid : ℕ) (batch : TokenBatch W R) : MuM W R (List (TokenTopKInfo R)) := do
  let p ← get
  let pool ← readAt "topk_pools[lid]" p.topkPools lid
  onPart (fun _ => pool) (fun p pool => { p with topkPools := p.topkPools.set lid pool }) do
    TokenTopKPool.putBatch batch
    TokenTopKPool.fetchReadyTokens

/-- The counters of a layer that some tokens are added to. -/
def countTokens (layerId batchedTokens : ℕ) : MuM W R Unit := do
  let p ← get
  let numBatches ← readAt "num_batches_per_layer_[lid]" p.numBatchesPerLayer layerId
  let tokens ← readAt "tokens_per_layer_[lid]" p.tokensPerLayer layerId
  let tokensCurLayer := tokens + batchedTokens
  let grows := p.largestBatchSize < tokensCurLayer
  set { p with
    numBatchesPerLayer := p.numBatchesPerLayer.set layerId (numBatches + 1)
    tokensPerLayer := p.tokensPerLayer.set layerId tokensCurLayer
    largestBatchSize := if grows then tokensCurLayer else p.largestBatchSize
    largestBatchLayerId := if grows then layerId else p.largestBatchLayerId }

/-- The end of `process_batch`, under the lock. -/
def queueTokens (lid : ℕ) (readyTokens : List (TokenTopKInfo R)) : MuM W R Unit := do
  countTokens lid readyTokens.length
  let p ← get
  let queue ← readAt "attn_token_queues[lid]" p.attnTokenQueues lid
  set { p with attnTokenQueues := p.attnTokenQueues.set lid (queue ++ readyTokens) }

def processBatch [Row R] (tensor : List R) (metaC : BatchMetadata W) : MuM W R Unit := do
  let p ← get
  let lid ← readAt "layer_id_P2V[meta->layer_id]" p.layerIdP2V metaC.layerId
  let metaC := { metaC with batchTag := .attention }
  if metaC.layerId = 0 then
    inherited do
      let attnBatch ← MuAttentionPool.packAttnBatch tensor metaC
      MuAttentionPool.putBatchToAttnQueue lid attnBatch
  else
    let readyTokens ← collectTokens lid ⟨tensor, metaC⟩
    if readyTokens.length = 0 then return
    queueTokens lid readyTokens

/-! ### Gets -/

/-- The source pointers of `pack_topk_tokens`: the rows of the first token for each. -/
def numSrcPtrs (S : ComparatorSort) (tokens : List (TokenTopKInfo R)) : ℕ :=
  tokens.length * (S.sort TokenTopKInfo.before tokens).head?.elim 0 TokenTopKInfo.count

/-- `pack_topk_tokens`. With `KERNEL_USE_GDRCOPY` the source pointers of the gather are
copied into a region for `MAX_GATHER_TOKENS` of them. -/
def packTopkTokens [Row R] (S : ComparatorSort) (gdr : Bool) (layerId : ℕ)
    (tokens : List (TokenTopKInfo R)) : Except Fault (TokenBatch W R) := do
  let batch ← TokenBatch.packTopkTokens S layerId tokens
  if gdr then (GdrContext.ofTensor maxGatherTokens 8).copyFromHost (numSrcPtrs S tokens) 8
  return batch

/-- `none` is `TokenBatch {}`. -/
def getBatchFromLayer [Row R] (S : ComparatorSort) (gdr : Bool) (layerId : ℤ) :
    MuM W R (Option (TokenBatch W R)) := do
  let p ← get
  if p.largestBatchSize = 0 then return none
  if layerId < 0 ∨ (p.attnTokenQueues.length : ℤ) ≤ layerId then return none
  let i := layerId.toNat
  inherited (modify (MuPool.resetAt i))
  let physical ← readAt "layer_id_V2P[layer_id]" p.layerIdV2P i
  let tokens ← readAt "attn_token_queues[layer_id]" p.attnTokenQueues i
  match packTopkTokens S gdr physical tokens with
  | .ok batch =>
    modify fun p => { p with attnTokenQueues := p.attnTokenQueues.set i [] }
    return some batch
  | .error e => throw e

end MuAttentionTopKPool

end StreamInfer.Pool
