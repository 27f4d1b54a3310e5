import StreamInfer.Engine.ExpertsExecutor
import StreamInfer.Overlap.Device
import StreamInfer.Overlap.GraphSizes

/-! The overlapped engine loop: an iteration launches the next batch before it
reads the results of the last one. What the scheduler returns, what the sampler
keeps and what the device computes are inputs of an iteration. Registering memory,
the hidden rows of the inputs, tracing and the pool behind a sampled batch are left
out; what is kept of them is which halves are overwritten and read. -/

namespace StreamInfer.Overlap

open General Batch

structure LoopConfig where
  modelTotalNumLayers : ℕ
  topK : ℕ
  attnDpRank : ℕ
  enableCudaGraphAttn : Bool
  maxAttnGraphBsz : ℕ
  enableCudaGraphExpert : Bool
  maxBatchSizeExpert : ℕ
  expertCls : Engine.ExpertClass

/-- How a get joined the rows of a batch. -/
inductive Load where
  | one | gather | gatherAndSum
  deriving DecidableEq, Repr

structure Scheduled (W R : Type) where
  load : Load
  metaC : BatchMetadata W
  continueIds : List ℕ
  /-- What the device computes for the batch. -/
  out : Outputs W R

structure AttentionForwardBatch (W : Type) where
  layerId : ℕ
  numTokens : ℕ
  metaC : BatchMetadata W
  batchTensors : Half
  useCudaGraph : Bool
  expertIdsBuffer : Half
  expertWeightsBuffer : Half

structure ExpertForwardBatch (W : Type) where
  layerId : ℕ
  numTokens : ℕ
  metaC : BatchMetadata W
  /-- The half of the batch sizes or of the row indices, unless experts run one by one. -/
  sizes : Option Half

inductive ForwardBatch (W : Type) where
  | attention (batch : AttentionForwardBatch W)
  | expert (batch : ExpertForwardBatch W)

/-- The tensor of the rows, which eager attention shares with its choices, and the
event after the kernels that fill it. -/
structure ForwardResult where
  hiddens : ℕ
  syncEvent : Option ℕ

structure Loop (W R : Type) where
  stream : Stream (Kernel W R) (Staging W) (Memory W R)
  /-- The half handed out last. -/
  index : Region → Bool
  nextTensor : ℕ
  resultQueue : List (ForwardBatch W × ForwardResult)
  lastBatch : Option (ForwardBatch W)
  dispatched : List (TokenBatch W R)
  /-- The halves that were overwritten while a kernel that reads them might run. -/
  overwritten : List Half

abbrev LoopM (W R : Type) := EStateM Fault (Loop W R)

variable {W R : Type} [Zero W] (cfg : LoopConfig) (S : ComparatorSort) (scale : W → R → R)

def liftFault {σ α : Type} : Except Fault α → EStateM Fault σ α
  | .ok a => pure a
  | .error e => throw e

/-! ### Operations on the device -/

def launch (k : Kernel W R) : LoopM W R Unit :=
  modify fun s => { s with stream := s.stream.launch (run scale) k }

def record : LoopM W R ℕ := do return (← get).stream.record

def syncEvent (e : ℕ) : LoopM W R Unit :=
  modify fun s => { s with stream := s.stream.wait (run scale) e }

/-- What the host reads from device memory. -/
def copyToHost {α : Type} (f : Memory W R → α) : LoopM W R α := do
  modify fun s => { s with stream := s.stream.tick (run scale) }
  return f (← get).stream.memory

/-- `GdrDoubleBuffer.get_one_handle`, `swap_batch_tensor_buffer` and the two
alternating source pointer regions. -/
def getOneHandle (r : Region) : LoopM W R Half := do
  let s ← get
  let index := !s.index r
  set { s with index := Function.update s.index r index }
  return ⟨r, index⟩

/-- A kernel that reads the half might run, as far as the host knows. -/
def inUse (s : Loop W R) (half : Half) : Bool := s.stream.unknown.any (half ∈ ·.reads)

def copyFromHost (half : Half) (g : Staging W → Staging W) : LoopM W R Unit :=
  modify fun s => { s with
    stream := s.stream.write (run scale) g
    overwritten := if inUse s half then s.overwritten ++ [half] else s.overwritten }

def newTensor : LoopM W R ℕ := do
  let s ← get
  set { s with nextTensor := s.nextTensor + 1 }
  return s.nextTensor

/-! ### Scheduling -/

def schedule (load : Load) : LoopM W R Unit := do
  match load with
  | .one => pure ()
  | .gather =>
    let src ← getOneHandle .gatherSrcPtrs
    copyFromHost scale src id
    launch scale (.gather src)
  | .gatherAndSum =>
    let src ← getOneHandle .gatherAndSumSrcPtrs
    copyFromHost scale src id
    launch scale (.gather src)

/-! ### Attention -/

def sampleResults (continueIds : List ℕ) : LoopM W R Unit := do
  if continueIds.length ≠ 0 then
    let idx ← getOneHandle .sampleContinueIds
    copyFromHost scale idx id
    launch scale (.indexSelect idx)

def preprocessBatchAttn (b : Scheduled W R) : LoopM W R (Option (AttentionForwardBatch W)) := do
  if b.metaC.layerId = cfg.modelTotalNumLayers then
    sampleResults scale b.continueIds
    return none
  else
    let batchTensors ← getOneHandle .batchTensorBuffer
    let numDecodeTokens ← valueOf "num_decode_tokens" b.metaC.numDecodeTokens
    let numPrefillTokens ← valueOf "num_prefill_tokens" b.metaC.numPrefillTokens
    copyFromHost scale batchTensors id
    launch scale (.positions batchTensors)
    let expertIdsBuffer ← getOneHandle .attnTopkIds
    let expertWeightsBuffer ← getOneHandle .attnTopkWeights
    return some
      { layerId := b.metaC.layerId
        numTokens := numDecodeTokens + numPrefillTokens
        metaC := b.metaC
        batchTensors
        useCudaGraph := false
        expertIdsBuffer
        expertWeightsBuffer }

def executeGraph (out : Outputs W R) (b : AttentionForwardBatch W) :
    LoopM W R (AttentionForwardBatch W × ForwardResult) := do
  let bucket ← liftFault (getBucketByNumTokens (attnGraphBatchSizes cfg.maxAttnGraphBsz)
    b.metaC.numTokens)
  launch scale (.graphPreprocess (some b.batchTensors))
  launch scale (.attnReplay bucket b.layerId out)
  let outputs ← newTensor
  launch scale (.copyGraphResults bucket b.layerId b.numTokens outputs b.expertIdsBuffer.index
    b.expertWeightsBuffer.index)
  return ({ b with useCudaGraph := true }, ⟨outputs, none⟩)

def executeNormal (out : Outputs W R) (b : AttentionForwardBatch W) :
    LoopM W R (AttentionForwardBatch W × ForwardResult) := do
  let outputs ← newTensor
  launch scale (.attnForward b.batchTensors out outputs)
  return (b, ⟨outputs, none⟩)

/-- The size that decides is that of the packed metadata. -/
def executeBatchAttn (out : Outputs W R) (b : AttentionForwardBatch W) :
    LoopM W R (AttentionForwardBatch W × ForwardResult) := do
  let (b, result) ←
    if cfg.enableCudaGraphAttn && decide (b.numTokens ≤ cfg.maxAttnGraphBsz) then
      executeGraph cfg scale out b
    else executeNormal scale out b
  return (b, { result with syncEvent := some (← record) })

/-- The expert ids and weights of a finished batch. -/
def readChoices (b : AttentionForwardBatch W) (result : ForwardResult) :
    LoopM W R (List ℕ × List W) := do
  let topkExpandedNumTokens := b.numTokens * cfg.topK
  if b.useCudaGraph then
    let expertIds ← copyToHost scale fun m =>
      (m.topkIds b.expertIdsBuffer.index).take topkExpandedNumTokens
    let expertWeights ← copyToHost scale fun m =>
      (m.topkWeights b.expertWeightsBuffer.index).take topkExpandedNumTokens
    return (expertIds, expertWeights)
  else
    let expertIds ← copyToHost scale fun m => (m.expertIds result.hiddens).flatten
    let expertWeights ← copyToHost scale fun m => (m.expertWeights result.hiddens).flatten
    return (expertIds, expertWeights)

def syncResult (result : ForwardResult) : LoopM W R ForwardResult := do
  match result.syncEvent with
  | some e =>
    syncEvent scale e
    return { result with syncEvent := none }
  | none => return result

def postprocessBatchAttn (b : AttentionForwardBatch W) (result : ForwardResult) :
    LoopM W R (ℕ × BatchMetadata W × ForwardResult) := do
  let result ← syncResult scale result
  let newMetaC := b.metaC.duplicateTopk cfg.topK
  let (expertIds, expertWeights) ← readChoices cfg scale b result
  let routed := { newMetaC with expIds := expertIds, topkWeights := expertWeights }
  let (sorted, expMappings) ← liftFault routed.sortByExpert
  let mapping ← getOneHandle .attnTokenMapping
  copyFromHost scale mapping fun h => { h with
    attnTokenMapping := Function.update h.attnTokenMapping mapping.index
      (copyTo expMappings (h.attnTokenMapping mapping.index)) }
  let hiddens ← newTensor
  launch scale (.permuteTokens mapping.index expMappings.length result.hiddens hiddens)
  return (hiddens, { sorted with attnDpRanks := List.replicate expertIds.length cfg.attnDpRank },
    { result with syncEvent := some (← record) })

/-! ### Experts -/

def prepareBszAndIndices : LoopM W R (Option Half) := do
  match cfg.expertCls with
  | .serial => return none
  | .cutlass | .cutlassFp8 =>
    let batchSizes ← getOneHandle .batchSizes
    copyFromHost scale batchSizes id
    return some batchSizes
  | .deepGemmBf16 | .deepGemmFp8 =>
    let mIndices ← getOneHandle .tokenMIndices
    copyFromHost scale mIndices id
    return some mIndices

def preprocessBatchExpert (b : Scheduled W R) : LoopM W R (ExpertForwardBatch W) := do
  let sizes ← prepareBszAndIndices cfg scale
  return { layerId := b.metaC.layerId, numTokens := b.metaC.numTokens, metaC := b.metaC, sizes }

/-- `ExpertsExecutor.execute`. -/
def executeExperts (out : List R) (b : ExpertForwardBatch W) : LoopM W R Hiddens := do
  ensure (b.numTokens ≤ cfg.maxBatchSizeExpert) "batch size exceeds max batch size"
  if cfg.expertCls ≠ .serial ∧ cfg.enableCudaGraphExpert = true then
    let bucket ← liftFault (getBucketByNumTokens (expertGraphBatchSizes cfg.maxBatchSizeExpert)
      b.numTokens)
    launch scale (.graphPreprocess b.sizes)
    launch scale (.expertReplay bucket b.layerId out)
    return .graph bucket b.layerId b.numTokens
  else
    let outputs ← newTensor
    launch scale (.expertForward b.sizes out outputs)
    return .tensor outputs

def executeBatchExpert (out : List R) (b : ExpertForwardBatch W) :
    LoopM W R (ExpertForwardBatch W × ForwardResult) := do
  let hiddens ← executeExperts cfg scale out b
  let topkWeights := b.metaC.topkWeights
  let (sorted, newMappings) ← liftFault (b.metaC.sortByAttention S)
  let weights ← getOneHandle .expertTokenWeights
  let mapping ← getOneHandle .expertTokenMapping
  copyFromHost scale weights fun h => { h with
    expertTokenWeights := Function.update h.expertTokenWeights weights.index
      (copyTo topkWeights (h.expertTokenWeights weights.index)) }
  copyFromHost scale mapping fun h => { h with
    expertTokenMapping := Function.update h.expertTokenMapping mapping.index
      (copyTo newMappings (h.expertTokenMapping mapping.index)) }
  let permuted ← newTensor
  launch scale (.applyWeights weights.index mapping.index hiddens permuted)
  return ({ b with metaC := { sorted with expIds := [], topkWeights := [] }.stepLayer },
    ⟨permuted, some (← record)⟩)

/-! ### The loop -/

def preprocessBatch (b : Scheduled W R) : LoopM W R (Option (ForwardBatch W)) := do
  if b.metaC.isAttention then
    return (← preprocessBatchAttn cfg scale b).map .attention
  else if b.metaC.isExpert then
    return some (.expert (← preprocessBatchExpert cfg scale b))
  else throw (.assertion "Invalid batch metadata")

/-- `proc_func`. -/
def execute (out : Outputs W R) (b : ForwardBatch W) : LoopM W R (ForwardBatch W × ForwardResult) := do
  match b with
  | .attention b =>
    let (b, result) ← executeBatchAttn cfg scale out b
    return (.attention b, result)
  | .expert b =>
    let (b, result) ← executeBatchExpert cfg S scale out.hiddens b
    return (.expert b, result)

/-- `post_proc_func`: the tensor of the rows, their labels and the result. -/
def postprocessBatch (b : ForwardBatch W) (result : ForwardResult) :
    LoopM W R (ℕ × BatchMetadata W × ForwardResult) := do
  match b with
  | .attention b => postprocessBatchAttn cfg scale b result
  | .expert b =>
    let result ← syncResult scale result
    return (result.hiddens, b.metaC, result)

/-- `post_process`: the batch goes to the dispatcher. -/
def postProcess (hiddens : ℕ) (metaC : BatchMetadata W) (event : Option ℕ) : LoopM W R Unit := do
  if let some e := event then
    syncEvent scale e
  let rows ← copyToHost scale fun m => m.hiddens hiddens
  let data ← liftFault rows
  modify fun s => { s with dispatched := s.dispatched ++ [⟨data, metaC⟩] }

/-- `result_queue.popleft()`. -/
def popleft : LoopM W R (ForwardBatch W × ForwardResult) := do
  let s ← get
  match s.resultQueue with
  | [] => throw (.outOfRange "pop from an empty deque")
  | entry :: rest =>
    set { s with resultQueue := rest }
    return entry

/-- The scheduled batch is preprocessed and launched. -/
def startBatch (b : Scheduled W R) : LoopM W R (Option (ForwardBatch W)) := do
  schedule scale b.load
  match ← preprocessBatch cfg scale b with
  | none => return none
  | some forwardBatch =>
    let (forwardBatch, result) ← execute cfg S scale b.out forwardBatch
    modify fun s => { s with resultQueue := s.resultQueue ++ [(forwardBatch, result)] }
    return some forwardBatch

/-- The batch of the last iteration is post-processed and dispatched. -/
def finishBatch : LoopM W R Unit := do
  let (tmpBatch, tmpResult) ← popleft
  let tmpResult ← syncResult scale tmpResult
  let (hiddens, metaC, tmpResult) ← postprocessBatch cfg scale tmpBatch tmpResult
  postProcess scale hiddens metaC tmpResult.syncEvent

/-- One iteration of `single_module_loop_overlap`; without a batch the scheduler found
none. -/
def iteration (b : Option (Scheduled W R)) : LoopM W R Unit := do
  let forwardBatch ← match b with
    | none => pure none
    | some b => startBatch cfg S scale b
  if (← get).lastBatch.isSome then
    finishBatch cfg scale
  modify fun s => { s with lastBatch := forwardBatch }

/-- A run of the loop. -/
def runLoop (batches : List (Option (Scheduled W R))) : LoopM W R Unit :=
  batches.forM (iteration cfg S scale)

/-- The loop before its first iteration. -/
def Loop.start (pace : ℕ → ℕ) (host : Staging W) (memory : Memory W R) : Loop W R where
  stream := .start pace host memory
  index := fun _ => false
  nextTensor := 0
  resultQueue := []
  lastBatch := none
  dispatched := []
  overwritten := []

end StreamInfer.Overlap
