import StreamInfer.Batch.Metadata
import StreamInfer.General.Stateful

/-! The block manager of an attention worker that keeps its tables on the device, at
block size 1. A request has a row of `req_to_token`; column `q` holds the slot of its
position `q`. Rows and slots are handed out from the front of their free lists. The
visit of the first layer lists the rows with the running requests first and the
lengths in batch order; a release pairs all the ids with the rows of the live ones.
Negative stops count from the end, as in the source; torch's broadcasting of a single
entry is left out, and a scatter writes in list order. -/

namespace StreamInfer.Kv

open General General.Stateful Batch BatchMetadata

/-- The entries of `xs[:stop]`. -/
def stopAt (length : ℕ) (stop : ℤ) : ℕ :=
  if 0 ≤ stop then min stop.toNat length else (length + stop).toNat

/-- The entry that `xs[index]` names. -/
def tensorIndex (length : ℕ) (index : ℤ) : Option ℕ :=
  if 0 ≤ index then if index < length then some index.toNat else none
  else if 0 ≤ length + index then some (length + index).toNat else none

/-! ### Rows -/

structure ReqToTokenPool where
  size : ℕ
  maxContextLen : ℕ
  reqToToken : List (List ℕ)
  freeSlots : List ℕ
  deriving DecidableEq

namespace ReqToTokenPool

abbrev PoolM := EStateM Fault ReqToTokenPool

def new (size maxContextLen : ℕ) : ReqToTokenPool where
  size := size
  maxContextLen := maxContextLen
  reqToToken := List.replicate size (List.replicate maxContextLen 0)
  freeSlots := List.range size

def alloc (needSize : ℕ) : PoolM (Option (List ℕ)) := do
  let p ← get
  if p.freeSlots.length < needSize then return none
  else
    set { p with freeSlots := p.freeSlots.drop needSize }
    return some (p.freeSlots.take needSize)

def free (p : ReqToTokenPool) (freeIndex : List ℕ) : ReqToTokenPool :=
  { p with freeSlots := p.freeSlots ++ freeIndex }

/-- `req_to_token[index, 0 : stop] = values`. -/
def write (index : ℕ) (stop : ℤ) (values : List ℕ) : PoolM Unit := do
  let p ← get
  let row ← readAt "req_to_token[index]" p.reqToToken index
  ensure (values.length = stopAt row.length stop) "len(values) == len(req_to_token[indices])"
  set { p with reqToToken := p.reqToToken.set index (values ++ row.drop values.length) }

/-- One entry of `write_loc`. -/
def writeOne (index : ℕ) (seqLen : ℤ) (value : ℕ) : PoolM Unit := do
  let p ← get
  let row ← readAt "req_to_token[index]" p.reqToToken index
  let column ← valueOf "req_to_token[index, seq_len]" (tensorIndex row.length seqLen)
  set { p with reqToToken := p.reqToToken.set index (row.set column value) }

/-- `req_to_token[req_ids, seq_lens] = values`. -/
def writeLoc (reqIds : List ℕ) (seqLens : List ℤ) (values : List ℕ) : PoolM Unit := do
  ensure (seqLens.length = reqIds.length ∧ values.length = reqIds.length)
    "req_ids.shape == seq_lens.shape == values.shape"
  forM (reqIds.zip (seqLens.zip values)) fun e => writeOne e.1 e.2.1 e.2.2

/-- `req_to_token[req_ids, : max_seq_len]`, with all columns for `None`. -/
def getBlockTable (p : ReqToTokenPool) (reqIds : List ℕ) (maxSeqLen : Option ℤ) :
    Except Fault (List (List ℕ)) :=
  reqIds.mapM fun index =>
    match p.reqToToken[index]? with
    | none => .error (.outOfRange "req_to_token[req_ids]")
    | some row => .ok (row.take ((maxSeqLen.map (stopAt row.length)).getD row.length))

/-- `req_to_token[index, column]`. -/
def readOne (p : ReqToTokenPool) (index : ℕ) (column : ℤ) : Except Fault ℕ :=
  match p.reqToToken[index]? with
  | none => .error (.outOfRange "req_to_token[index]")
  | some row =>
    match (tensorIndex row.length column).bind (row[·]?) with
    | none => .error (.outOfRange "req_to_token[index, column]")
    | some value => .ok value

end ReqToTokenPool

/-! ### Slots -/

structure TokenToKVPoolAllocator where
  size : ℕ
  needSort : Bool
  freePages : List ℕ
  releasePages : List ℕ
  isNotInFreeGroup : Bool
  freeGroup : List (List ℕ)
  deriving DecidableEq

namespace TokenToKVPoolAllocator

abbrev AllocM := EStateM Fault TokenToKVPoolAllocator

/-- Slot 0 is for padding. -/
def new (size : ℕ) (needSort : Bool) : TokenToKVPoolAllocator where
  size := size
  needSort := needSort
  freePages := List.range' 1 size
  releasePages := []
  isNotInFreeGroup := true
  freeGroup := []

def mergeAndSortFree (a : TokenToKVPoolAllocator) : TokenToKVPoolAllocator :=
  if 0 < a.releasePages.length then
    { a with
      freePages := (a.freePages ++ a.releasePages).mergeSort (· ≤ ·)
      releasePages := [] }
  else a

def alloc (needSize : ℤ) : AllocM (Option (List ℕ)) := do
  modify fun a =>
    if a.needSort = true ∧ (a.freePages.length : ℤ) < needSize then a.mergeAndSortFree else a
  let a ← get
  if (a.freePages.length : ℤ) < needSize then return none
  else
    let stop := stopAt a.freePages.length needSize
    set { a with freePages := a.freePages.drop stop }
    return some (a.freePages.take stop)

def free (a : TokenToKVPoolAllocator) (freeIndex : List ℕ) : TokenToKVPoolAllocator :=
  if freeIndex.length = 0 then a
  else if a.isNotInFreeGroup then
    if a.needSort then { a with releasePages := a.releasePages ++ freeIndex }
    else { a with freePages := a.freePages ++ freeIndex }
  else { a with freeGroup := a.freeGroup ++ [freeIndex] }

def freeGroupBegin (a : TokenToKVPoolAllocator) : TokenToKVPoolAllocator :=
  { a with
    isNotInFreeGroup := false
    freeGroup := [] }

def freeGroupEnd (a : TokenToKVPoolAllocator) : TokenToKVPoolAllocator :=
  let a := { a with isNotInFreeGroup := true }
  if 0 < a.freeGroup.length then a.free a.freeGroup.flatten else a

end TokenToKVPoolAllocator

/-! ### The manager -/

structure GPUBlockManager where
  reqToIndice : AList fun _ : ℤ => ℕ
  decodeSeqLens : AList fun _ : ℤ => ℤ
  /-- On the device, one entry per row. -/
  reqSeqLens : List ℤ
  reqToTokenPool : ReqToTokenPool
  tokenAllocator : TokenToKVPoolAllocator
  deriving DecidableEq

/-- What a call of `update_block_table` leaves in the batch. -/
structure ScheduledLens where
  seqLens : List (Option ℤ)
  seqLensTensor : List ℤ
  reqIndices : List ℕ
  deriving DecidableEq

structure FlashAttentionMetadata where
  numDecodeTokens : ℕ
  slotMapping : List ℤ
  seqLens : List (Option ℤ)
  seqLensTensor : List ℤ
  maxDecodeSeqLen : Option ℤ
  queryStartLoc : List ℕ
  seqStartLoc : List ℤ
  contextLensTensor : List ℤ
  blockTables : List (List ℤ)
  deriving DecidableEq

/-- `max(seq_lens) if len(seq_lens) > 0 else 0`. -/
def maxSeqLen : List (Option ℤ) → Except Fault (Option ℤ)
  | [] => .ok (some 0)
  | seqLen :: seqLens => seqLens.foldlM (fun longest seqLen =>
      match longest, seqLen with
      | some a, some b => .ok (some (max a b))
      | _, _ => .error (.assertion "seq_len is not None")) seqLen

namespace GPUBlockManager

variable {W : Type}

abbrev GpuM := EStateM Fault GPUBlockManager

/-- `req_seq_lens` is not initialized. -/
def new (numGpuBlocks maxRunningReqs maxSeqLen : ℕ) (reqSeqLens : List ℤ) : GPUBlockManager where
  reqToIndice := ∅
  decodeSeqLens := ∅
  reqSeqLens := reqSeqLens
  reqToTokenPool := .new maxRunningReqs maxSeqLen
  tokenAllocator := .new numGpuBlocks false

def onPool {α : Type} (x : ReqToTokenPool.PoolM α) : GpuM α :=
  onPart reqToTokenPool (fun g p => { g with reqToTokenPool := p }) x

def onAllocator {α : Type} (x : TokenToKVPoolAllocator.AllocM α) : GpuM α :=
  onPart tokenAllocator (fun g a => { g with tokenAllocator := a }) x

/-- A row and the prompt's slots for a new request. -/
def admitReq (reqId : ℤ) (reqIndice : ℕ) (initPrefillLen : ℤ) : GpuM Unit := do
  modify fun g => { g with reqToIndice := g.reqToIndice.insert reqId reqIndice }
  let prefillKvLocs ← valueOf "prefill_kv_locs"
    (← onAllocator (TokenToKVPoolAllocator.alloc initPrefillLen))
  onPool (ReqToTokenPool.write reqIndice initPrefillLen prefillKvLocs)
  modify fun g => { g with decodeSeqLens := g.decodeSeqLens.insert reqId initPrefillLen }

/-- The recorded rows; a tensor of them has no place for `None`. -/
def rowsOf (reqIds : List ℤ) : GpuM (List ℕ) := do
  let g ← get
  reqIds.mapM fun reqId => valueOf "req_to_indice.get(req_id)" (g.reqToIndice.lookup reqId)

def lensOf (reqIds : List ℤ) : GpuM (List ℤ) := do
  let g ← get
  reqIds.mapM fun reqId => valueOf "decode_seq_lens.get(req_id)" (g.decodeSeqLens.lookup reqId)

/-- `decode_seq_lens[req_id] += 1`. -/
def countOne (reqId : ℤ) : GpuM Unit := do
  let g ← get
  let seqLen ← valueOf "decode_seq_lens[req_id]" (g.decodeSeqLens.lookup reqId)
  set { g with decodeSeqLens := g.decodeSeqLens.insert reqId (seqLen + 1) }

/-- `req_seq_lens[index] = seq_len`. -/
def recordOne (index : ℕ) (seqLen : ℤ) : GpuM Unit := do
  let g ← get
  let _ ← readAt "req_seq_lens[index]" g.reqSeqLens index
  set { g with reqSeqLens := g.reqSeqLens.set index seqLen }

/-- One slot more for every request, written behind its length to the listed rows. -/
def growBatch (reqIds : List ℤ) (batchReqIndices : List ℕ) (numTokens : ℕ) :
    GpuM ScheduledLens := do
  let seqLens ← lensOf reqIds
  forM reqIds countOne
  let incrementLocs ← valueOf "increment_locs"
    (← onAllocator (TokenToKVPoolAllocator.alloc numTokens))
  onPool (ReqToTokenPool.writeLoc batchReqIndices seqLens incrementLocs)
  forM (batchReqIndices.zip (seqLens.map (· + 1))) fun e => recordOne e.1 e.2
  return ⟨seqLens.map fun l => some (l + 1), seqLens.map (· + 1), batchReqIndices⟩

def updateBlockTable (metaC : BatchMetadata W) : GpuM ScheduledLens := do
  let initReqIds := metaC.reqIds.take (metaC.numPrefillSeqs.getD metaC.reqIds.length)
  let runningSeqIds := metaC.reqIds.drop (metaC.numPrefillSeqs.getD 0)
  let numDecodeTokens ← valueOf "num_decode_tokens" metaC.numDecodeTokens
  let numPrefillTokens ← valueOf "num_prefill_tokens" metaC.numPrefillTokens
  let numTokens := numDecodeTokens + numPrefillTokens
  if metaC.layerId = 0 then
    let numPrefillSeqs ← valueOf "num_prefill_seqs" metaC.numPrefillSeqs
    let newReqIndices ← valueOf "new_req_indices" (← onPool (ReqToTokenPool.alloc numPrefillSeqs))
    forM (List.range initReqIds.length) fun i => do
      let reqId ← readAt "init_req_ids[i]" initReqIds i
      let reqIndice ← readAt "new_req_indices[i]" newReqIndices i
      let initPrefillLen ← readAt "batch.init_prefill_lens[i]" metaC.initPrefillLens i
      admitReq reqId reqIndice initPrefillLen
    let runningReqIndices ← rowsOf runningSeqIds
    growBatch metaC.reqIds (runningReqIndices ++ newReqIndices) numTokens
  else
    let g ← get
    let batchReqIndices ← rowsOf metaC.reqIds
    let seqLensTensor ← batchReqIndices.mapM (readAt "req_seq_lens[index]" g.reqSeqLens)
    return ⟨metaC.reqIds.map g.decodeSeqLens.lookup, seqLensTensor, batchReqIndices⟩

def packFlashAttnMetadata (g : GPUBlockManager) (metaC : BatchMetadata W) (batch : ScheduledLens) :
    Except Fault FlashAttentionMetadata := do
  let numTokens := metaC.numDecodeTokens.getD 0 + metaC.numPrefillTokens.getD 0
  let contextLens := batch.seqLensTensor.map (· - 1)
  let maxDecodeSeqLen ← maxSeqLen batch.seqLens
  let blockTable ← g.reqToTokenPool.getBlockTable batch.reqIndices maxDecodeSeqLen
  let slotMapping ← (batch.reqIndices.zip contextLens).mapM fun e =>
    g.reqToTokenPool.readOne e.1 e.2
  return {
    numDecodeTokens := numTokens
    slotMapping := slotMapping.map Nat.cast
    seqLens := batch.seqLens
    seqLensTensor := batch.seqLensTensor
    maxDecodeSeqLen := maxDecodeSeqLen
    queryStartLoc := List.range (numTokens + 1)
    seqStartLoc := batch.seqLensTensor.scanl (· + ·) 0
    contextLensTensor := contextLens
    blockTables := blockTable.map fun row => row.map Nat.cast }

/-- Give the slots of one request back and forget its length. -/
def releaseOne (reqId : ℤ) (reqIndice : ℕ) : GpuM Unit := do
  let g ← get
  let seqLen ← valueOf "decode_seq_lens[req_id]" (g.decodeSeqLens.lookup reqId)
  let row ← readAt "req_to_token[req_indice]" g.reqToTokenPool.reqToToken reqIndice
  set { g with
    tokenAllocator := g.tokenAllocator.free (row.take (stopAt row.length seqLen))
    decodeSeqLens := g.decodeSeqLens.erase reqId }

def releaseSeqs (reqIds : List ℤ) : GpuM Unit := do
  let g ← get
  let reqIndices ← rowsOf (reqIds.filter fun reqId => reqId ∈ g.decodeSeqLens)
  modify fun g => { g with reqToTokenPool := g.reqToTokenPool.free reqIndices }
  modify fun g => { g with tokenAllocator := g.tokenAllocator.freeGroupBegin }
  forM (reqIds.zip reqIndices) fun e => releaseOne e.1 e.2
  modify fun g => { g with tokenAllocator := g.tokenAllocator.freeGroupEnd }

end GPUBlockManager

end StreamInfer.Kv
