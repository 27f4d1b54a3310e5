import StreamInfer.Batch.Chunks
import StreamInfer.Fault
import StreamInfer.General.Window

/-! The pools of queues of a disaggregated engine, after `muhelper.cpp`. An expert pool
has a queue for each layer and group of experts, and cuts a batch by expert when there
is more than one group; an attention pool has a queue for each layer and one more. Both
count the tokens of each queue and remember the largest count. -/

namespace StreamInfer.Pool

open General General.Stateful Batch

variable {W R : Type}

structure MuPool (W R : Type) where
  numGroups : ℕ
  layerIdP2V : List ℕ
  tokensPerLayer : List ℕ
  numBatchesPerLayer : List ℕ
  largestBatchSize : ℕ
  largestBatchLayerId : ℤ
  /-- `data_queue` of an expert pool, `attn_data_queue` of an attention pool. -/
  dataQueue : List (List (TokenBatch W R))
  deriving DecidableEq

namespace MuPool

abbrev PoolM (W R : Type) := EStateM Fault (MuPool W R)

/-- `layer_id_P2V`: the index of each layer id, zero for the others. -/
def indexLayers (layers : List ℕ) : List ℕ :=
  layers.zipIdx.foldl (fun v layer => v.set layer.1 layer.2)
    (List.replicate (layers.foldl max 0 + 1) 0)

def new (layers : List ℕ) (numGroups : ℕ) : MuPool W R where
  numGroups := numGroups
  layerIdP2V := indexLayers layers
  tokensPerLayer := List.replicate (layers.length * numGroups) 0
  numBatchesPerLayer := List.replicate (layers.length * numGroups) 0
  largestBatchSize := 0
  largestBatchLayerId := -1
  dataQueue := List.replicate (layers.length * numGroups) []

/-- A batch goes to the end of a queue and is counted there. -/
def enqueue (qid numTokens : ℕ) (batch : TokenBatch W R) : PoolM W R Unit := do
  let p ← get
  let queue ← readAt "data_queue[qid]" p.dataQueue qid
  let numBatches ← readAt "num_batches_per_layer_[qid]" p.numBatchesPerLayer qid
  let tokens ← readAt "tokens_per_layer_[qid]" p.tokensPerLayer qid
  let tokensCurLayer := tokens + numTokens
  let grows := p.largestBatchSize < tokensCurLayer
  set { p with
    dataQueue := p.dataQueue.set qid (queue ++ [batch])
    numBatchesPerLayer := p.numBatchesPerLayer.set qid (numBatches + 1)
    tokensPerLayer := p.tokensPerLayer.set qid tokensCurLayer
    largestBatchSize := if grows then tokensCurLayer else p.largestBatchSize
    largestBatchLayerId := if grows then qid else p.largestBatchLayerId }

/-- The largest count and the first queue with it. -/
def largestOf (tokensPerLayer : List ℕ) : ℕ × ℤ :=
  tokensPerLayer.zipIdx.foldl (fun largest layer =>
    if largest.1 < layer.1 then (layer.1, (layer.2 : ℤ)) else largest) (0, -1)

def maintainLargestBatch (p : MuPool W R) : MuPool W R :=
  { p with
    largestBatchSize := (largestOf p.tokensPerLayer).1
    largestBatchLayerId := (largestOf p.tokensPerLayer).2 }

/-- The counters of a queue that a get takes. -/
def resetAt (i : ℕ) (p : MuPool W R) : MuPool W R :=
  maintainLargestBatch { p with
    tokensPerLayer := p.tokensPerLayer.set i 0
    numBatchesPerLayer := p.numBatchesPerLayer.set i 0 }

/-- The end of a get: the counters, the swap and the merge. -/
def takeQueue [Zero W] (i : ℕ) (queue : List (TokenBatch W R)) : PoolM W R (Option (TokenBatch W R)) := do
  modify (resetAt i)
  modify fun p => { p with dataQueue := p.dataQueue.set i [] }
  match TokenBatch.merge queue with
  | .ok batch => return batch
  | .error e => throw e

end MuPool

namespace MuExpertPool

open MuPool

def addOneBatch (qid : ℕ) (batch : TokenBatch W R) : PoolM W R Unit :=
  enqueue qid batch.metadata.numTokens batch

/-- The queue of a piece: its layer's, and the group of its first token's expert. -/
def addPiece (layerId numGroups : ℕ) (batch : TokenBatch W R) : PoolM W R Unit := do
  let expertId ← readAt "exp_ids[0]" batch.metadata.expIds 0
  addOneBatch (layerId * numGroups + expertId % numGroups) batch

def processBatch (tensor : List R) (metaC : BatchMetadata W) : PoolM W R Unit := do
  let p ← get
  let layerId ← readAt "layer_id_P2V[meta->layer_id]" p.layerIdP2V metaC.layerId
  let recvBatch : TokenBatch W R := ⟨tensor, { metaC with batchTag := .expert }⟩
  if 1 < p.numGroups then
    match recvBatch.splitByExpert with
    | .ok batches => batches.forM (addPiece layerId p.numGroups)
    | .error e => throw e
  else addOneBatch layerId recvBatch

/-- `none` is `TokenBatch {}`. -/
def getBatchFromLayer [Zero W] (layerId : ℤ) : PoolM W R (Option (TokenBatch W R)) := do
  let p ← get
  if p.largestBatchSize = 0 then return none
  if layerId < 0 ∨ (p.dataQueue.length : ℤ) ≤ layerId then return none
  let tokens ← readAt "tokens_per_layer_[layer_id]" p.tokensPerLayer layerId.toNat
  let queue ← readAt "data_queue[layer_id]" p.dataQueue layerId.toNat
  if tokens = 0 ∨ queue.isEmpty then return none
  takeQueue layerId.toNat queue

end MuExpertPool

namespace MuAttentionPool

open MuPool

/-- The layers that the pool is given, with the one that it adds. -/
def poolLayers (layerIds : List ℕ) : List ℕ := layerIds ++ [layerIds.getLastD 0 + 1]

/-- A token of prefill has a prefill length. -/
def packAttnBatch (tensor : List R) (metaC : BatchMetadata W) : PoolM W R (TokenBatch W R) := do
  let lens ← (List.range metaC.reqIds.length).mapM
    (readAt "meta->init_prefill_lens[i]" metaC.initPrefillLens)
  return ⟨tensor, { metaC with
    numPrefillSeqs := some (lens.countP (· ≠ -1))
    numPrefillTokens := some (lens.countP (· ≠ -1))
    numDecodeTokens := some (lens.countP (· = -1)) }⟩

def putBatchToAttnQueue (layerId : ℕ) (attnBatch : TokenBatch W R) : PoolM W R Unit := do
  let decode ← valueOf "num_decode_tokens.value()" attnBatch.metadata.numDecodeTokens
  let prefill ← valueOf "num_prefill_tokens.value()" attnBatch.metadata.numPrefillTokens
  enqueue layerId (decode + prefill) attnBatch

def processBatch (tensor : List R) (metaC : BatchMetadata W) : PoolM W R Unit := do
  let p ← get
  let lid ← readAt "layer_id_P2V[meta->layer_id]" p.layerIdP2V metaC.layerId
  let attnBatch ← packAttnBatch tensor { metaC with batchTag := .attention }
  putBatchToAttnQueue lid attnBatch

def getBatchFromLayer [Zero W] (layerId : ℤ) : PoolM W R (Option (TokenBatch W R)) := do
  let p ← get
  if p.largestBatchSize = 0 then return none
  if layerId < 0 ∨ (p.dataQueue.length : ℤ) ≤ layerId then return none
  let queue ← readAt "attn_data_queue[layer_id]" p.dataQueue layerId.toNat
  if queue.isEmpty then
    modify (resetAt layerId.toNat)
    return none
  takeQueue layerId.toNat queue

end MuAttentionPool

namespace MuPool

/-! ### The largest count -/

/-- The largest of some counts, and where it is positive a queue that has it. -/
structure Largest (counts : List ℕ) (size : ℕ) (qid : ℤ) : Prop where
  bound : ∀ n ∈ counts, n ≤ size
  attained : 0 < size → ∃ q : ℕ, qid = q ∧ counts[q]? = some size

theorem largest_replicate (n : ℕ) : Largest (List.replicate n 0) 0 (-1) where
  bound _ hm := (List.eq_of_mem_replicate hm).le
  attained h := absurd h (lt_irrefl 0)

theorem largestOf_eq (counts : List ℕ) :
    largestOf counts = (List.range counts.length).foldl (fun best i =>
      if counts.getD i 0 > best.1 then (counts.getD i 0, (i : ℤ)) else best) (0, -1) := by
  have hzip : counts.zipIdx = (List.range counts.length).map fun i => (counts.getD i 0, i) := by
    refine List.ext_getElem (by simp) fun i hi hi' => ?_
    simp [List.getElem?_eq_getElem (show i < counts.length by simpa using hi)]
  rw [largestOf, hzip, List.foldl_map]

/-- The scan of `maintain_largest_batch`. -/
theorem largest_largestOf (counts : List ℕ) :
    Largest counts (largestOf counts).1 (largestOf counts).2 := by
  have hat : ∀ i < counts.length, counts[i]? = some (counts.getD i 0) := fun i hi => by
    rw [List.getD_eq_getElem _ _ hi, List.getElem?_eq_getElem hi]
  have hmem : ∀ n ∈ counts, ∃ i < counts.length, counts.getD i 0 = n := fun n hn => by
    obtain ⟨i, hi, rfl⟩ := List.getElem_of_mem hn
    exact ⟨i, hi, List.getD_eq_getElem _ _ hi⟩
  rw [largestOf_eq]
  rcases foldl_firstLargest (fun i => counts.getD i 0) 0 counts.length with
    ⟨hbest, hall⟩ | ⟨i, hi, hbest, -, hmax, -⟩
  · rw [hbest]
    refine ⟨fun n hn => ?_, fun h => absurd h (lt_irrefl 0)⟩
    obtain ⟨i, hi, rfl⟩ := hmem n hn
    exact hall i hi
  · rw [hbest]
    refine ⟨fun n hn => ?_, fun _ => ⟨i, rfl, hat i hi⟩⟩
    obtain ⟨j, hj, rfl⟩ := hmem n hn
    exact hmax j hj

/-- The largest count is zero where all are. -/
theorem Largest.eq_zero_iff {counts : List ℕ} {size : ℕ} {qid : ℤ} (h : Largest counts size qid) :
    size = 0 ↔ ∀ n ∈ counts, n = 0 := by
  refine ⟨fun hz n hn => Nat.le_zero.mp (hz ▸ h.bound n hn), fun hall => ?_⟩
  by_contra hne
  obtain ⟨q, -, hat⟩ := h.attained (Nat.pos_of_ne_zero hne)
  exact hne (hall size (List.mem_of_getElem? hat))

theorem enqueue_ok {p : MuPool W R} {qid : ℕ} (hd : qid < p.dataQueue.length)
    (hn : qid < p.numBatchesPerLayer.length) (ht : qid < p.tokensPerLayer.length) (numTokens : ℕ)
    (batch : TokenBatch W R) :
    enqueue qid numTokens batch p = .ok ⟨⟩ { p with
      dataQueue := p.dataQueue.set qid (p.dataQueue[qid] ++ [batch])
      numBatchesPerLayer := p.numBatchesPerLayer.set qid (p.numBatchesPerLayer[qid] + 1)
      tokensPerLayer := p.tokensPerLayer.set qid (p.tokensPerLayer[qid] + numTokens)
      largestBatchSize := if p.largestBatchSize < p.tokensPerLayer[qid] + numTokens then
        p.tokensPerLayer[qid] + numTokens else p.largestBatchSize
      largestBatchLayerId := if p.largestBatchSize < p.tokensPerLayer[qid] + numTokens then
        qid else p.largestBatchLayerId } := by
  rw [enqueue, get_bind, readAt_eq hd, readAt_eq hn, readAt_eq ht]
  rfl

/-- One count is raised. -/
theorem Largest.raise {counts : List ℕ} {size : ℕ} {qid : ℤ} (h : Largest counts size qid) {q n : ℕ}
    (hq : counts[q]? = some n) (k : ℕ) :
    Largest (counts.set q (n + k)) (if size < n + k then n + k else size)
      (if size < n + k then q else qid) := by
  have hlt : q < counts.length := (List.getElem?_eq_some_iff.mp hq).1
  have hself : (counts.set q (n + k))[q]? = some (n + k) := List.getElem?_set_self hlt
  have hbound : ∀ m ∈ counts.set q (n + k), m ≤ size ∨ m = n + k := fun m hm => by
    rcases List.mem_or_eq_of_mem_set hm with hm | hm
    · exact .inl (h.bound m hm)
    · exact .inr hm
  split_ifs with hgrows
  · refine ⟨fun m hm => ?_, fun _ => ⟨q, rfl, hself⟩⟩
    have := hbound m hm
    omega
  · refine ⟨fun m hm => ?_, fun hpos => ?_⟩
    · have := hbound m hm
      omega
    · obtain ⟨q', hq', hat⟩ := h.attained hpos
      refine ⟨q', hq', ?_⟩
      by_cases hsame : q = q'
      · subst hsame
        have hn : n = size := Option.some.inj (hq.symm.trans hat)
        have hk : k = 0 := by omega
        rw [hself, hn, hk, Nat.add_zero]
      · rw [List.getElem?_set_ne hsame, hat]

/-! ### The index of a layer -/

theorem le_foldl_max {l : List ℕ} {m x : ℕ} (h : x ≤ m ∨ x ∈ l) : x ≤ l.foldl max m := by
  induction l generalizing m with
  | nil => exact h.resolve_right List.not_mem_nil
  | cons t l ih =>
    refine ih ?_
    rcases h with h | h
    · exact .inl (h.trans (le_max_left m t))
    · rcases List.mem_cons.mp h with rfl | h
      · exact .inl (le_max_right m x)
      · exact .inr h

theorem length_foldl_set (ps : List (ℕ × ℕ)) (v : List ℕ) :
    (ps.foldl (fun v layer => v.set layer.1 layer.2) v).length = v.length := by
  induction ps generalizing v with
  | nil => rfl
  | cons y ps ih => exact (ih _).trans List.length_set

theorem length_indexLayers (layers : List ℕ) :
    (indexLayers layers).length = layers.foldl max 0 + 1 := by
  rw [indexLayers, length_foldl_set, List.length_replicate]

theorem getElem?_foldl_set {ps : List (ℕ × ℕ)} {v : List ℕ} {a : ℕ} (ha : a < v.length)
    (h : a ∈ ps.map Prod.fst) :
    ∃ i, (a, i) ∈ ps ∧ (ps.foldl (fun v layer => v.set layer.1 layer.2) v)[a]? = some i := by
  induction ps using List.reverseRecOn with
  | nil => exact absurd h List.not_mem_nil
  | append_singleton ps x ih =>
    rw [List.foldl_append, List.foldl_cons, List.foldl_nil]
    by_cases hx : x.1 = a
    · exact ⟨x.2, List.mem_append_right _ (List.mem_singleton.mpr (Prod.ext hx.symm rfl)),
        hx ▸ List.getElem?_set_self (length_foldl_set ps v ▸ hx ▸ ha)⟩
    · rw [List.map_append, List.mem_append, List.map_singleton, List.mem_singleton] at h
      obtain ⟨i, hi, hat⟩ := ih (h.resolve_right (Ne.symm hx))
      exact ⟨i, List.mem_append_left _ hi, (List.getElem?_set_ne hx).trans hat⟩

/-- A layer of a pool has an index, which is a place of it in the layers. -/
theorem exists_index {layers : List ℕ} {layer : ℕ} (h : layer ∈ layers) :
    ∃ lid, (indexLayers layers)[layer]? = some lid ∧ layers[lid]? = some layer := by
  have hlt : layer < (List.replicate (layers.foldl max 0 + 1) 0).length := by
    rw [List.length_replicate]
    exact Nat.lt_succ_of_le (le_foldl_max (.inr h))
  have hfst : layer ∈ layers.zipIdx.map Prod.fst := by rwa [List.zipIdx_map_fst]
  obtain ⟨lid, hmem, hat⟩ := getElem?_foldl_set hlt hfst
  exact ⟨lid, hat, List.mem_zipIdx_iff_getElem?.mp hmem⟩

theorem lt_of_mem_indexLayers {layers : List ℕ} (hpos : 0 < layers.length) {lid : ℕ}
    (h : lid ∈ indexLayers layers) : lid < layers.length := by
  have hset : ∀ (ps : List (ℕ × ℕ)) (v : List ℕ), (∀ x ∈ ps, x.2 < layers.length) →
      (∀ x ∈ v, x < layers.length) →
      ∀ x ∈ ps.foldl (fun v layer => v.set layer.1 layer.2) v, x < layers.length := by
    intro ps
    induction ps with
    | nil => exact fun _ _ hv => hv
    | cons y ps ih =>
      intro v hps hv
      obtain ⟨hy, hps⟩ := List.forall_mem_cons.mp hps
      refine ih _ hps fun x hx => ?_
      rcases List.mem_or_eq_of_mem_set hx with hx | rfl
      · exact hv x hx
      · exact hy
  refine hset _ _ (fun x hx => ?_) (fun x hx => ?_) lid h
  · have hlt := List.snd_lt_of_mem_zipIdx hx
    omega
  · rw [List.eq_of_mem_replicate hx]
    exact hpos

end MuPool

end StreamInfer.Pool
