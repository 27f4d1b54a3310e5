import StreamInfer.Batch.Entries
import StreamInfer.General.Reach
import StreamInfer.Pool.MuCalls

/-! Runs of the attention pool of a disaggregated engine. A token is filed under the
layer of the batch that brought it, and a returned one under the layer of the batch it
is in; in between it is in the queue of an index that the pool looks up. As long as no
token enters at layer 0 or completes at a layer that the lookup gets wrong or that has
no queue of tokens, and a get names a layer with tokens, every token that completes at a
layer is returned by one get of the layer, and the counters are the tokens that wait. A
batch of layer 0 is never returned, since no get reads its queue. -/

namespace StreamInfer.Pool

open General General.Stateful Batch Staging

variable {W R : Type}

namespace MuAttentionTopKPool

/-! ### The counters and the queues -/

/-- Counting tokens changes the counters only. -/
theorem countTokens_keeps {n : ℕ} {p : MuAttentionTopKPool W R} (hn : p.numBatchesPerLayer.length = n)
    (ht : p.tokensPerLayer.length = n)
    (hg : MuPool.Largest p.tokensPerLayer p.largestBatchSize p.largestBatchLayerId) {lid : ℕ}
    (hl : lid < n) (k : ℕ) :
    ∃ numBatches old size id, countTokens lid k p = .ok ⟨⟩ { p with
        numBatchesPerLayer := numBatches
        tokensPerLayer := p.tokensPerLayer.set lid (old + k)
        largestBatchSize := size
        largestBatchLayerId := id } ∧
      numBatches.length = n ∧ p.tokensPerLayer[lid]? = some old ∧
      MuPool.Largest (p.tokensPerLayer.set lid (old + k)) size id := by
  have hn' : lid < p.numBatchesPerLayer.length := hn ▸ hl
  have ht' : lid < p.tokensPerLayer.length := ht ▸ hl
  have hold := List.getElem?_eq_getElem ht'
  exact ⟨_, _, _, _, countTokens_ok hn' ht' k, List.length_set.trans hn, hold, hg.raise hold k⟩

/-- The index of a layer that the lookup gets right. -/
def queueOf (p : MuAttentionTopKPool W R) (layer : ℕ) : Option ℕ :=
  p.layerIdP2V[layer]?.filter fun lid => p.layerIdV2P[lid]? = some layer

/-- The tokens that wait for a get of a layer. -/
def queued (p : MuAttentionTopKPool W R) (layer : ℕ) : List (TokenTopKInfo R) :=
  (p.queueOf layer).elim [] fun lid => p.attnTokenQueues.getD lid []

theorem queueOf_eq_some_iff {p : MuAttentionTopKPool W R} {layer lid : ℕ} :
    p.queueOf layer = some lid ↔ p.layerIdP2V[layer]? = some lid ∧ p.layerIdV2P[lid]? = some layer := by
  simp [queueOf, Option.filter_eq_some_iff]

/-- Two layers have different indices. -/
theorem queueOf_injective {p : MuAttentionTopKPool W R} {layer layer' lid : ℕ}
    (h : p.queueOf layer = some lid) (h' : p.queueOf layer' = some lid) : layer = layer' :=
  Option.some.inj ((queueOf_eq_some_iff.mp h).2.symm.trans (queueOf_eq_some_iff.mp h').2)

/-- Changing the queue of one layer leaves those of the others. -/
theorem queued_set {p p' : MuAttentionTopKPool W R} {layer lid : ℕ} {tokens : List (TokenTopKInfo R)}
    (hlid : p.queueOf layer = some lid) (hlt : lid < p.attnTokenQueues.length)
    (h₁ : p'.layerIdP2V = p.layerIdP2V) (h₂ : p'.layerIdV2P = p.layerIdV2P)
    (h₃ : p'.attnTokenQueues = p.attnTokenQueues.set lid tokens) (layer' : ℕ) :
    p'.queued layer' = if layer' = layer then tokens else p.queued layer' := by
  have hsame : p'.queueOf layer' = p.queueOf layer' := by rw [queueOf, queueOf, h₁, h₂]
  rw [queued, queued, hsame, h₃]
  split_ifs with heq
  · rw [heq, hlid, Option.elim_some, List.getD_eq_getElem?_getD, List.getElem?_set_self hlt]
    rfl
  · cases hlid' : p.queueOf layer' with
    | none => rfl
    | some lid' =>
      have hne : lid ≠ lid' := fun h => heq (queueOf_injective hlid' (h ▸ hlid))
      rw [Option.elim_some, Option.elim_some, List.getD_eq_getElem?_getD, List.getElem?_set_ne hne,
        ← List.getD_eq_getElem?_getD]

/-! ### Runs -/

/-- A token as a get returns it: its columns and the sum of its rows. -/
def total [Zero W] [Row R] (t : TokenTopKInfo R) : TokenMetadata W × Option R :=
  (t.metadata, (sumRows t.topkTensors).toOption)

/-- The tokens of a batch as it is. -/
def rowsOf [Zero W] (b : TokenBatch W R) : List (TokenMetadata W × Option R) :=
  (b.entries .returning).map fun x => (x.1, some x.2)

/-- A pool, the tokens that became ready at each layer, and those that its gets returned. -/
structure Ledger (W R : Type) where
  pool : MuAttentionTopKPool W R
  ready : ℕ → List (TokenMetadata W × Option R)
  returned : ℕ → List (TokenMetadata W × Option R)

namespace Ledger

variable [Zero W] [Row R]

def start (layerIds : List ℕ) (topK : ℕ) : Ledger W R := ⟨.new layerIds topK, fun _ => [], fun _ => []⟩

/-- The tokens that a batch makes ready: its own at layer 0, and else those that the pool it
is put into completes. -/
def madeReady (tensor : List R) (metaC : BatchMetadata W) (p : MuAttentionTopKPool W R) :
    List (TokenMetadata W × Option R) :=
  if metaC.layerId = 0 then rowsOf ⟨tensor, metaC⟩
  else ((p.layerIdP2V[metaC.layerId]?.bind (p.topkPools[·]?)).elim [] fun pool =>
    (putCopies pool tensor metaC).readyTokens).map total

/-- More tokens of a layer. -/
def more (xs : ℕ → List (TokenMetadata W × Option R)) (layer : ℕ)
    (ys : List (TokenMetadata W × Option R)) : ℕ → List (TokenMetadata W × Option R) :=
  Function.update xs layer (xs layer ++ ys)

inductive Call (W R : Type) where
  | processBatch (tensor : List R) (metaC : BatchMetadata W)
  | getBatchFromLayer (layerId : ℤ)

/-- A call that returns. The tokens of a batch are those of its layer. -/
inductive Step (S : ComparatorSort) (gdr : Bool) : Call W R → Ledger W R → Ledger W R → Prop
  | processBatch {s : Ledger W R} {p : MuAttentionTopKPool W R} {tensor : List R}
      {metaC : BatchMetadata W} (h : processBatch tensor metaC s.pool = .ok ⟨⟩ p) :
      Step S gdr (.processBatch tensor metaC) s { s with
        pool := p
        ready := more s.ready metaC.layerId (madeReady tensor metaC s.pool) }
  | getBatchFromLayer {s : Ledger W R} {p : MuAttentionTopKPool W R} {b : Option (TokenBatch W R)}
      {layerId : ℤ} (h : getBatchFromLayer S gdr layerId s.pool = .ok b p) :
      Step S gdr (.getBatchFromLayer layerId) s { s with
        pool := p
        returned := b.elim s.returned fun b => more s.returned b.metadata.layerId (rowsOf b) }

/-- No token enters at layer 0, none completes where the lookup is wrong or without a queue of
tokens, and a get names a layer with tokens, whose rows a copy takes, unless no layer of the
pool has one or it names none. -/
def Call.Careful (gdr : Bool) : Call W R → MuAttentionTopKPool W R → Prop
  | .processBatch tensor metaC, p =>
    if metaC.layerId = 0 then tensor = [] ∧ metaC.reqIds = []
    else ∀ lid pool, p.layerIdP2V[metaC.layerId]? = some lid →
      p.layerIdV2P[lid]? ≠ some metaC.layerId ∨ p.attnTokenQueues.length ≤ lid →
      p.topkPools[lid]? = some pool → ∀ r, pool.rowsOf r +
        (TokenTopKPool.copies (⟨tensor, metaC⟩ : TokenBatch W R)).countP (·.reqId = r) < pool.topK
  | .getBatchFromLayer layerId, p =>
    layerId < 0 ∨ (p.attnTokenQueues.length : ℤ) ≤ layerId ∨
      (∀ queue ∈ p.attnTokenQueues, queue = []) ∨
      ∃ queue, p.attnTokenQueues[layerId.toNat]? = some queue ∧ queue ≠ [] ∧
        (gdr = true → (queue.map TokenTopKInfo.count).sum ≤ maxGatherTokens)

def Run (S : ComparatorSort) (gdr : Bool) (layerIds : List ℕ) (topK : ℕ) : Ledger W R → Prop :=
  Reach (· = start layerIds topK) fun s s' => ∃ call, Step S gdr call s s'

/-- A run of careful calls. -/
def CarefulRun (S : ComparatorSort) (gdr : Bool) (layerIds : List ℕ) (topK : ℕ) : Ledger W R → Prop :=
  Reach (· = start layerIds topK) fun s s' => ∃ call, Step S gdr call s s' ∧ call.Careful gdr s.pool

/-! ### What the calls keep -/

/-- The queues hold the tokens that are ready and not returned, and the counters count them. -/
structure Sound (layerIds : List ℕ) (topK : ℕ) (s : Ledger W R) : Prop where
  queues : s.pool.attnTokenQueues.length = layerIds.length
  counts : s.pool.tokensPerLayer = s.pool.attnTokenQueues.map List.length ++ [0]
  numBatches : s.pool.numBatchesPerLayer.length = layerIds.length + 1
  dataQueue : s.pool.dataQueue.length = layerIds.length + 1
  physical : s.pool.layerIdV2P = MuAttentionPool.poolLayers layerIds
  indices : s.pool.layerIdP2V = MuPool.indexLayers (MuAttentionPool.poolLayers layerIds)
  pools : s.pool.topkPools.length = layerIds.length + 1
  collects : ∀ pool ∈ s.pool.topkPools,
    pool.WellFormed (fun _ => True) ∧ pool.topK = topK ∧ pool.readyTokens = []
  largest : MuPool.Largest s.pool.tokensPerLayer s.pool.largestBatchSize s.pool.largestBatchLayerId
  full : ∀ queue ∈ s.pool.attnTokenQueues, ∀ t ∈ queue, t.count = topK
  placed : ∀ i queue, s.pool.attnTokenQueues[i]? = some queue → queue ≠ [] →
    ∃ layer, s.pool.queueOf layer = some i
  moved : ∀ layer, (s.ready layer).Perm (s.returned layer ++ (s.pool.queued layer).map total)

variable {layerIds : List ℕ} {topK : ℕ} {s : Ledger W R}

theorem length_poolLayers (layerIds : List ℕ) :
    (MuAttentionPool.poolLayers layerIds).length = layerIds.length + 1 := List.length_append

theorem Sound.length_tokensPerLayer (h : Sound layerIds topK s) :
    s.pool.tokensPerLayer.length = layerIds.length + 1 := by
  rw [h.counts, List.length_append, List.length_map, h.queues]
  rfl

theorem Sound.lid_lt (h : Sound layerIds topK s) {layer lid : ℕ}
    (hl : s.pool.layerIdP2V[layer]? = some lid) : lid < layerIds.length + 1 := by
  rw [h.indices] at hl
  rw [← length_poolLayers layerIds]
  exact MuPool.lt_of_mem_indexLayers (by rw [length_poolLayers]; omega) (List.mem_of_getElem? hl)

theorem sound_start (layerIds : List ℕ) (topK : ℕ) :
    Sound layerIds topK (start layerIds topK : Ledger W R) := by
  have hlen : (MuAttentionPool.poolLayers layerIds).length * 1 = layerIds.length + 1 := by
    rw [Nat.mul_one, length_poolLayers]
  have hnil : ∀ queue ∈ (List.replicate layerIds.length [] : List (List (TokenTopKInfo R))),
      queue = [] := fun queue hq => List.eq_of_mem_replicate hq
  refine ⟨List.length_replicate, ?_, List.length_replicate.trans hlen,
    List.length_replicate.trans hlen, rfl, rfl,
    List.length_replicate.trans (length_poolLayers layerIds), ?_, MuPool.largest_replicate _, ?_, ?_, ?_⟩
  · show List.replicate _ 0 = _
    rw [hlen, List.replicate_succ']
    simp [start, new]
  · intro pool hpool
    rw [List.eq_of_mem_replicate hpool]
    exact ⟨TokenTopKPool.wellFormed_new _ topK, rfl, rfl⟩
  · intro queue hq t ht
    rw [hnil queue hq] at ht
    exact absurd ht List.not_mem_nil
  · intro i queue hq hne
    exact absurd (hnil queue (List.mem_of_getElem? hq)) hne
  · intro layer
    have hqueued : (new layerIds topK : MuAttentionTopKPool W R).queued layer = [] := by
      rw [queued]
      cases (new layerIds topK : MuAttentionTopKPool W R).queueOf layer with
      | none => rfl
      | some lid =>
        show (List.replicate layerIds.length []).getD lid [] = []
        rw [List.getD_eq_getElem?_getD, List.getElem?_replicate]
        split_ifs <;> rfl
    show List.Perm [] ([] ++ ((new layerIds topK : MuAttentionTopKPool W R).queued layer).map total)
    rw [hqueued]
    exact .refl _

omit [Zero W] [Row R] in
theorem more_nil (xs : ℕ → List (TokenMetadata W × Option R)) (layer : ℕ) : more xs layer [] = xs := by
  rw [more, List.append_nil, Function.update_eq_self]

/-- A batch without tokens at layer 0. -/
theorem Sound.processEmpty (h : Sound layerIds topK s) {tensor : List R} {metaC : BatchMetadata W}
    {lid : ℕ} (hl : s.pool.layerIdP2V[metaC.layerId]? = some lid) (h0 : metaC.layerId = 0)
    (ht : tensor = []) (hr : metaC.reqIds = []) :
    ∃ p, MuAttentionTopKPool.processBatch tensor metaC s.pool = .ok ⟨⟩ p ∧
      Sound layerIds topK { s with
        pool := p
        ready := more s.ready metaC.layerId (madeReady tensor metaC s.pool) } := by
  have hlid := h.lid_lt hl
  have hn : lid < s.pool.numBatchesPerLayer.length := h.numBatches.symm ▸ hlid
  have htokens : lid < s.pool.tokensPerLayer.length := h.length_tokensPerLayer.symm ▸ hlid
  have hq : lid < s.pool.dataQueue.length := h.dataQueue.symm ▸ hlid
  refine ⟨_, processBatch_empty h0 hr hl (MuPool.enqueue_ok hq hn htokens 0 _), ?_⟩
  have hready : more s.ready metaC.layerId (madeReady tensor metaC s.pool) = s.ready := by
    have hnil : madeReady tensor metaC s.pool = [] := by
      rw [madeReady, if_pos h0, ht]
      rfl
    rw [hnil, more_nil]
  have hsame : s.pool.tokensPerLayer.set lid (s.pool.tokensPerLayer[lid] + 0) = s.pool.tokensPerLayer :=
    List.set_getElem_self htokens
  have hlargest := h.largest.raise (List.getElem?_eq_getElem htokens) 0
  rw [hsame] at hlargest
  rw [hready]
  simp only [hsame]
  exact { h with
    numBatches := List.length_set.trans h.numBatches
    dataQueue := List.length_set.trans h.dataQueue
    largest := hlargest }

omit [Zero W] [Row R] in
/-- A careful call completes tokens at the queue of their layer only. -/
theorem queueOf_of_careful {gdr : Bool} {tensor : List R} {metaC : BatchMetadata W} {lid : ℕ}
    {pool : TokenTopKPool R} (hready : pool.readyTokens = []) (h0 : metaC.layerId ≠ 0)
    (hl : s.pool.layerIdP2V[metaC.layerId]? = some lid) (hpool : s.pool.topkPools[lid]? = some pool)
    (hc : (Call.processBatch tensor metaC : Call W R).Careful gdr s.pool)
    (hsome : (putCopies pool tensor metaC).readyTokens ≠ []) :
    s.pool.queueOf metaC.layerId = some lid ∧ lid < s.pool.attnTokenQueues.length := by
  simp only [Call.Careful, if_neg h0] at hc
  by_contra hnot
  have hwrong : s.pool.layerIdV2P[lid]? ≠ some metaC.layerId ∨ s.pool.attnTokenQueues.length ≤ lid := by
    rw [queueOf_eq_some_iff] at hnot
    by_contra hor
    obtain ⟨hright, hlt⟩ := not_or.mp hor
    exact hnot ⟨⟨hl, not_not.mp hright⟩, not_le.mp hlt⟩
  exact hsome ((TokenTopKPool.readyTokens_foldl_putToken (hc lid pool hl hwrong hpool)).trans hready)

/-- A batch of a later layer. -/
theorem Sound.processLater (h : Sound layerIds topK s) (hk : 2 ≤ topK) {gdr : Bool} {tensor : List R}
    {metaC : BatchMetadata W} {lid : ℕ} (hl : s.pool.layerIdP2V[metaC.layerId]? = some lid)
    (h0 : metaC.layerId ≠ 0) (hfits : Fits tensor metaC)
    (hc : (Call.processBatch tensor metaC : Call W R).Careful gdr s.pool) :
    ∃ p, MuAttentionTopKPool.processBatch tensor metaC s.pool = .ok ⟨⟩ p ∧
      Sound layerIds topK { s with
        pool := p
        ready := more s.ready metaC.layerId (madeReady tensor metaC s.pool) } := by
  have hlid := h.lid_lt hl
  have hlt : lid < s.pool.topkPools.length := h.pools.symm ▸ hlid
  obtain ⟨pool, hpool⟩ : ∃ pool, s.pool.topkPools[lid]? = some pool :=
    ⟨_, List.getElem?_eq_getElem hlt⟩
  obtain ⟨hwf, htop, hnil⟩ := h.collects pool (List.mem_of_getElem? hpool)
  obtain ⟨hwf', htop'⟩ : (putCopies pool tensor metaC).WellFormed (fun _ => True) ∧
      (putCopies pool tensor metaC).topK = pool.topK :=
    hwf.foldl_putToken (by omega) fun _ _ => trivial
  have hcollects : ∀ pool' ∈ (fetchedAt lid (putCopies pool tensor metaC) s.pool).topkPools,
      pool'.WellFormed (fun _ => True) ∧ pool'.topK = topK ∧ pool'.readyTokens = [] := by
    intro pool' hmem
    rcases List.mem_or_eq_of_mem_set hmem with hmem | rfl
    · exact h.collects pool' hmem
    · exact ⟨⟨hwf'.keyed, fun t ht => absurd ht List.not_mem_nil⟩, htop'.trans htop, rfl⟩
  have hpools : (fetchedAt lid (putCopies pool tensor metaC) s.pool).topkPools.length = layerIds.length + 1 :=
    List.length_set.trans h.pools
  have hmade : madeReady tensor metaC s.pool =
      (putCopies pool tensor metaC).readyTokens.map total := by
    rw [madeReady, if_neg h0, hl, Option.bind_some, hpool]
    rfl
  rw [hmade]
  by_cases hnone : (putCopies pool tensor metaC).readyTokens = []
  · refine ⟨fetchedAt lid (putCopies pool tensor metaC) s.pool, (processBatch_later_iff h0).mpr
      ⟨lid, pool, hl, hpool, hfits, (if_pos hnone).mpr rfl⟩, ?_⟩
    rw [hnone, List.map_nil, more_nil]
    exact { h with
      pools := hpools
      collects := hcollects }
  · obtain ⟨hown, hqueue⟩ := queueOf_of_careful hnil h0 hl hpool hc hnone
    obtain ⟨queue, hq⟩ : ∃ queue, s.pool.attnTokenQueues[lid]? = some queue :=
      ⟨_, List.getElem?_eq_getElem hqueue⟩
    obtain ⟨numBatches, old, size, id, hcount, hnum, hold, hlargest⟩ :=
      countTokens_keeps (p := fetchedAt lid (putCopies pool tensor metaC) s.pool) h.numBatches
        h.length_tokensPerLayer h.largest hlid (putCopies pool tensor metaC).readyTokens.length
    have hcounter : old = queue.length := by
      have hread : s.pool.tokensPerLayer[lid]? = some queue.length := by
        rw [h.counts, List.getElem?_append_left (by simpa using hqueue), List.getElem?_map, hq]
        rfl
      exact Option.some.inj (hold.symm.trans hread)
    have hqueued := queueTokens_ok_iff.mpr ⟨_, queue, hcount, hq, rfl⟩
    refine ⟨_, (processBatch_later_iff h0).mpr
      ⟨lid, pool, hl, hpool, hfits, (if_neg hnone).mpr hqueued⟩, ?_⟩
    refine ⟨List.length_set.trans h.queues, ?_, hnum, h.dataQueue, h.physical, h.indices, hpools,
      hcollects, hlargest, ?_, ?_, ?_⟩
    · show s.pool.tokensPerLayer.set lid (old + (putCopies pool tensor metaC).readyTokens.length) =
        (s.pool.attnTokenQueues.set lid
          (queue ++ (putCopies pool tensor metaC).readyTokens)).map List.length ++ [0]
      rw [h.counts, hcounter, List.set_append_left _ _ (by simpa using hqueue), List.map_set,
        List.length_append]
    · intro queue' hmem t ht
      rcases List.mem_or_eq_of_mem_set hmem with hmem | rfl
      · exact h.full queue' hmem t ht
      · rcases List.mem_append.mp ht with ht | ht
        · exact h.full queue (List.mem_of_getElem? hq) t ht
        · exact (hwf'.ready t ht).1.trans (htop'.trans htop)
    · intro i queue' hq' hne
      by_cases hi : lid = i
      · exact ⟨metaC.layerId, hi ▸ hown⟩
      · exact h.placed i queue' ((List.getElem?_set_ne hi).symm.trans hq') hne
    · intro layer
      have hset : queued { fetchedAt lid (putCopies pool tensor metaC) s.pool with
          attnTokenQueues := s.pool.attnTokenQueues.set lid
            (queue ++ (putCopies pool tensor metaC).readyTokens) } layer =
          if layer = metaC.layerId then queue ++ (putCopies pool tensor metaC).readyTokens
          else s.pool.queued layer := by
        apply queued_set hown hqueue <;> rfl
      have hmoved := h.moved layer
      refine List.Perm.trans ?_ (.append_left _ (List.Perm.of_eq (congrArg (List.map total) hset.symm)))
      show (more s.ready metaC.layerId _ layer).Perm _
      rcases eq_or_ne layer metaC.layerId with rfl | hne
      · have hold : s.pool.queued metaC.layerId = queue := by
          rw [queued, hown, Option.elim_some, List.getD_eq_getElem?_getD, hq]
          rfl
        rw [hold] at hmoved
        rw [if_pos rfl, more, Function.update_self, List.map_append, ← List.append_assoc]
        exact hmoved.append_right _
      · rw [if_neg hne, more, Function.update_of_ne hne]
        exact hmoved

/-- A packed batch has the totals of its tokens. -/
theorem rowsOf_pack (S : ComparatorSort) {gdr : Bool} (layerId : ℕ) {tokens : List (TokenTopKInfo R)}
    (hne : tokens ≠ []) (hk : 0 < topK) (hcount : ∀ t ∈ tokens, t.count = topK)
    (hcopy : gdr = true → (tokens.map TokenTopKInfo.count).sum ≤ maxGatherTokens) :
    ∃ b : TokenBatch W R, packTopkTokens S gdr layerId tokens = .ok b ∧
      b.metadata.layerId = layerId ∧ (rowsOf b).Perm (tokens.map total) := by
  obtain ⟨b, hpack, -, hlayer, xs, hsum, hcarries, -⟩ :=
    packTopkTokens_carries (W := W) S layerId hne hk hcount
  have hptrs : numSrcPtrs S tokens = (tokens.map TokenTopKInfo.count).sum := by
    rw [numSrcPtrs_eq S hne hcount, List.map_congr_left hcount, List.map_const', List.sum_replicate,
      smul_eq_mul]
  have hpos : numSrcPtrs S tokens ≠ 0 := by
    rw [numSrcPtrs_eq S hne hcount]
    exact (Nat.mul_pos (List.length_pos_of_ne_nil hne) hk).ne'
  refine ⟨b, packTopkTokens_ok_iff.mpr ⟨hpack, fun hg => ⟨hpos, hptrs ▸ hcopy hg⟩⟩, hlayer, ?_⟩
  have hrows : rowsOf b = (S.sort TokenTopKInfo.before tokens).map total := by
    rw [rowsOf, hcarries.entries_eq, List.map_map]
    clear hcarries hpack
    generalize S.sort TokenTopKInfo.before tokens = sorted at hsum
    induction hsum with
    | nil => rfl
    | cons hx _ ih =>
      rw [List.map_cons, List.map_cons, ih]
      congr 1
      simp only [Function.comp, total, hx.metadata, hx.row]
      rfl
  rw [hrows]
  exact (S.perm _ _).map _

theorem Sound.all_empty (h : Sound layerIds topK s) :
    s.pool.largestBatchSize = 0 ↔ ∀ queue ∈ s.pool.attnTokenQueues, queue = [] := by
  rw [h.largest.eq_zero_iff, h.counts]
  simp [or_imp]

/-- A get that names no layer, or comes when no layer has a token. -/
theorem Sound.getNone (h : Sound layerIds topK s) (S : ComparatorSort) (gdr : Bool) {layerId : ℤ}
    (hn : s.pool.largestBatchSize = 0 ∨ layerId < 0 ∨ (layerIds.length : ℤ) ≤ layerId) :
    MuAttentionTopKPool.getBatchFromLayer S gdr layerId s.pool = .ok none s.pool := by
  rw [← h.queues] at hn
  exact getBatchFromLayer_none S gdr hn

/-- A get of a layer with tokens returns all of them. -/
theorem Sound.getSome (h : Sound layerIds topK s) (hk : 2 ≤ topK) (S : ComparatorSort) {gdr : Bool}
    {i : ℕ} {queue : List (TokenTopKInfo R)} (hq : s.pool.attnTokenQueues[i]? = some queue)
    (hne : queue ≠ []) (hcopy : gdr = true → (queue.map TokenTopKInfo.count).sum ≤ maxGatherTokens) :
    ∃ b p, MuAttentionTopKPool.getBatchFromLayer S gdr (i : ℤ) s.pool = .ok (some b) p ∧
      s.pool.layerIdV2P[i]? = some b.metadata.layerId ∧ p.tokensPerLayer.getD i 0 = 0 ∧
      Sound layerIds topK { s with
        pool := p
        returned := more s.returned b.metadata.layerId (rowsOf b) } := by
  obtain ⟨hi, rfl⟩ := List.getElem?_eq_some_iff.mp hq
  have hsize : s.pool.largestBatchSize ≠ 0 := fun hz =>
    hne (h.all_empty.mp hz _ (List.getElem_mem hi))
  obtain ⟨layer, hown⟩ := h.placed i _ hq hne
  have hphysical := (queueOf_eq_some_iff.mp hown).2
  obtain ⟨b, hpack, rfl, hrows⟩ := rowsOf_pack (W := W) S layer hne (by omega : 0 < topK)
    (h.full _ (List.getElem_mem hi)) hcopy
  have htokens : i < s.pool.tokensPerLayer.length := by
    rw [h.length_tokensPerLayer, ← h.queues]
    omega
  refine ⟨b, _, (getBatchFromLayer_ok_iff S gdr hsize hi).mpr
    ⟨_, _, b, hphysical, hq, hpack, rfl, rfl⟩, hphysical, ?_, ?_⟩
  · show (s.pool.tokensPerLayer.set i 0).getD i 0 = 0
    rw [List.getD_eq_getElem?_getD, List.getElem?_set_self htokens]
    rfl
  refine ⟨List.length_set.trans h.queues, ?_, List.length_set.trans h.numBatches, h.dataQueue,
    h.physical, h.indices, h.pools, h.collects, MuPool.largest_largestOf _, ?_, ?_, ?_⟩
  · show s.pool.tokensPerLayer.set i 0 = (s.pool.attnTokenQueues.set i []).map List.length ++ [0]
    rw [h.counts, List.set_append_left _ _ (by simpa using hi), List.map_set]
    rfl
  · intro queue' hmem t ht
    rcases List.mem_or_eq_of_mem_set hmem with hmem | rfl
    · exact h.full queue' hmem t ht
    · exact absurd ht List.not_mem_nil
  · intro j queue' hq' hne'
    by_cases hj : i = j
    · subst hj
      exact absurd (Option.some.inj ((List.getElem?_set_self hi).symm.trans hq')).symm hne'
    · exact h.placed j queue' ((List.getElem?_set_ne hj).symm.trans hq') hne'
  · intro layer'
    have hset : queued { drainedAt i s.pool with attnTokenQueues := s.pool.attnTokenQueues.set i [] }
        layer' = if layer' = b.metadata.layerId then [] else s.pool.queued layer' := by
      apply queued_set hown hi <;> rfl
    have hmoved := h.moved layer'
    refine List.Perm.trans ?_ (.append_left _ (List.Perm.of_eq (congrArg (List.map total) hset.symm)))
    show (s.ready layer').Perm (more s.returned b.metadata.layerId (rowsOf b) layer' ++ _)
    rcases eq_or_ne layer' b.metadata.layerId with rfl | hne'
    · have hold : s.pool.queued b.metadata.layerId = s.pool.attnTokenQueues[i] := by
        rw [queued, hown, Option.elim_some, List.getD_eq_getElem?_getD, hq]
        rfl
      rw [hold] at hmoved
      rw [if_pos rfl, more, Function.update_self, List.map_nil, List.append_nil]
      exact hmoved.trans (hrows.symm.append_left _)
    · rw [if_neg hne', more, Function.update_of_ne hne']
      exact hmoved

/-- A careful get either finds no token in the pool or its layer, or a queue with tokens. -/
theorem Sound.get_cases (h : Sound layerIds topK s) {gdr : Bool} {layerId : ℤ}
    (hc : (Call.getBatchFromLayer layerId : Call W R).Careful gdr s.pool) :
    (s.pool.largestBatchSize = 0 ∨ layerId < 0 ∨ (layerIds.length : ℤ) ≤ layerId) ∨
      ∃ i queue, layerId = (i : ℕ) ∧ s.pool.attnTokenQueues[i]? = some queue ∧ queue ≠ [] ∧
        (gdr = true → (queue.map TokenTopKInfo.count).sum ≤ maxGatherTokens) := by
  simp only [Call.Careful, h.queues, ← h.all_empty] at hc
  rcases hc with hneg | hge | hz | ⟨queue, hq, hne, hcopy⟩
  · exact .inl (.inr (.inl hneg))
  · exact .inl (.inr (.inr hge))
  · exact .inl (.inl hz)
  · by_cases hneg : layerId < 0
    · exact .inl (.inr (.inl hneg))
    · exact .inr ⟨layerId.toNat, queue, by omega, hq, hne, hcopy⟩

theorem Sound.step (h : Sound layerIds topK s) (hk : 2 ≤ topK) {S : ComparatorSort} {gdr : Bool}
    {s' : Ledger W R} {call : Call W R} (hs : Step S gdr call s s') (hc : call.Careful gdr s.pool) :
    Sound layerIds topK s' := by
  cases hs with
  | @processBatch _ p tensor metaC hp =>
    by_cases h0 : metaC.layerId = 0
    · have hempty := hc
      simp only [Call.Careful, if_pos h0] at hempty
      obtain ⟨lid, hl⟩ := layer_of_processBatch hp
      obtain ⟨p', hp', hsound⟩ := h.processEmpty hl h0 hempty.1 hempty.2
      obtain ⟨-, rfl⟩ := EStateM.Result.ok.inj (hp.symm.trans hp')
      exact hsound
    · obtain ⟨lid, _, hl, _, hfits, -⟩ := (processBatch_later_iff h0).mp hp
      obtain ⟨p', hp', hsound⟩ := h.processLater hk hl h0 hfits hc
      obtain ⟨-, rfl⟩ := EStateM.Result.ok.inj (hp.symm.trans hp')
      exact hsound
  | @getBatchFromLayer _ p b layerId hp =>
    rcases h.get_cases hc with hnone | ⟨i, queue, rfl, hq, hne, hcopy⟩
    · obtain ⟨rfl, rfl⟩ := EStateM.Result.ok.inj (hp.symm.trans (h.getNone S gdr hnone))
      exact h
    · obtain ⟨b', p', hget, -, -, hsound⟩ := h.getSome hk S hq hne hcopy
      obtain ⟨rfl, rfl⟩ := EStateM.Result.ok.inj (hp.symm.trans hget)
      exact hsound

theorem CarefulRun.sound {S : ComparatorSort} {gdr : Bool} (hk : 2 ≤ topK)
    (h : CarefulRun S gdr layerIds topK s) : Sound layerIds topK s := by
  refine Reach.invariant (fun s hs => hs ▸ sound_start layerIds topK) ?_ h
  rintro s s' hI ⟨call, hs, hc⟩
  exact hI.step hk hs hc

/-! ### No token is lost -/

/-- The tokens of a layer that wait: the counter of its index. -/
def waiting (s : Ledger W R) (layer : ℕ) : ℕ :=
  (s.pool.queueOf layer).elim 0 fun lid => s.pool.tokensPerLayer.getD lid 0

/-- The tokens that became ready at a layer were returned, once each, but for those that its
counter counts, and every counter is of a layer; a batch that fits is processed; and a get
returns a batch of its layer, or nothing if the layer has no token, and leaves none. -/
structure Conserves (S : ComparatorSort) (gdr : Bool) (layerIds : List ℕ) (s : Ledger W R) : Prop where
  ready : ∀ layer, ∃ rest, (s.ready layer).Perm (s.returned layer ++ rest) ∧
    rest.length = s.waiting layer
  counted : ∀ lid, s.pool.tokensPerLayer.getD lid 0 ≠ 0 → ∃ layer, s.pool.queueOf layer = some lid
  process : ∀ tensor metaC, (Call.processBatch tensor metaC : Call W R).Careful gdr s.pool →
    (∃ layer ∈ MuAttentionPool.poolLayers layerIds, metaC.layerId ≤ layer) →
    (metaC.layerId ≠ 0 → Fits tensor metaC) →
    ∃ p, MuAttentionTopKPool.processBatch tensor metaC s.pool = .ok ⟨⟩ p
  get : ∀ layerId : ℤ, (Call.getBatchFromLayer layerId : Call W R).Careful gdr s.pool →
    ∃ b p, MuAttentionTopKPool.getBatchFromLayer S gdr layerId s.pool = .ok b p ∧
      (b = none ↔ layerId < 0 ∨ s.pool.tokensPerLayer.getD layerId.toNat 0 = 0) ∧
      (∀ batch ∈ b, s.pool.layerIdV2P[layerId.toNat]? = some batch.metadata.layerId) ∧
      (0 ≤ layerId → p.tokensPerLayer.getD layerId.toNat 0 = 0)

theorem Sound.counter_eq (h : Sound layerIds topK s) (i : ℕ) :
    s.pool.tokensPerLayer.getD i 0 = (s.pool.attnTokenQueues.getD i []).length := by
  rw [h.counts, List.getD_eq_getElem?_getD, List.getD_eq_getElem?_getD]
  rcases lt_or_ge i s.pool.attnTokenQueues.length with hi | hi
  · rw [List.getElem?_append_left (by simpa using hi), List.getElem?_map,
      List.getElem?_eq_getElem hi]
    rfl
  · rw [List.getElem?_append_right (by simpa using hi), List.getElem?_eq_none hi]
    cases i - (s.pool.attnTokenQueues.map List.length).length <;> rfl

theorem Sound.waiting_eq (h : Sound layerIds topK s) (layer : ℕ) :
    s.waiting layer = (s.pool.queued layer).length := by
  rw [waiting, queued]
  cases s.pool.queueOf layer with
  | none => rfl
  | some lid => exact h.counter_eq lid

theorem Sound.balanced (h : Sound layerIds topK s) (hk : 2 ≤ topK) (S : ComparatorSort) (gdr : Bool) :
    Conserves S gdr layerIds s where
  ready layer := ⟨_, h.moved layer, by rw [List.length_map, h.waiting_eq]⟩
  counted lid hne := by
    rw [h.counter_eq, List.getD_eq_getElem?_getD] at hne
    cases hq : s.pool.attnTokenQueues[lid]? with
    | none => simp [hq] at hne
    | some queue =>
      refine h.placed lid queue hq fun hnil => ?_
      simp [hq, hnil] at hne
  process tensor metaC hc hlayer hfits := by
    obtain ⟨layer, hmem, hle⟩ := hlayer
    have hmax : layer ≤ (MuAttentionPool.poolLayers layerIds).foldl max 0 :=
      MuPool.le_foldl_max (.inr hmem)
    have hlt : metaC.layerId < s.pool.layerIdP2V.length := by
      rw [h.indices, MuPool.length_indexLayers]
      omega
    have hl := List.getElem?_eq_getElem hlt
    by_cases h0 : metaC.layerId = 0
    · have hempty := hc
      simp only [Call.Careful, if_pos h0] at hempty
      obtain ⟨p, hp, -⟩ := h.processEmpty hl h0 hempty.1 hempty.2
      exact ⟨p, hp⟩
    · obtain ⟨p, hp, -⟩ := h.processLater hk hl h0 (hfits h0) hc
      exact ⟨p, hp⟩
  get layerId hc := by
    rcases h.get_cases hc with hnone | ⟨i, queue, rfl, hq, hne, hcopy⟩
    · have hzero : 0 ≤ layerId → s.pool.tokensPerLayer.getD layerId.toNat 0 = 0 := by
        intro hpos
        rw [h.counter_eq, List.getD_eq_getElem?_getD, List.length_eq_zero_iff]
        cases hq : s.pool.attnTokenQueues[layerId.toNat]? with
        | none => rfl
        | some queue =>
          obtain ⟨hlt, -⟩ := List.getElem?_eq_some_iff.mp hq
          rw [h.queues] at hlt
          have hz : s.pool.largestBatchSize = 0 := hnone.resolve_right (by omega)
          exact h.all_empty.mp hz queue (List.mem_of_getElem? hq)
      refine ⟨none, s.pool, h.getNone S gdr hnone, ⟨fun _ => ?_, fun _ => rfl⟩, by simp, hzero⟩
      rcases lt_or_ge layerId 0 with hneg | hpos
      · exact .inl hneg
      · exact .inr (hzero hpos)
    · obtain ⟨b, p, hget, hphysical, hdrained, -⟩ := h.getSome hk S hq hne hcopy
      refine ⟨some b, p, hget, ⟨fun hb => by simp at hb, fun hor => ?_⟩, ?_, fun _ => hdrained⟩
      · have hzero := hor.resolve_left (by omega)
        rw [Int.toNat_natCast, h.counter_eq, List.getD_eq_getElem?_getD, hq] at hzero
        exact absurd (List.length_eq_zero_iff.mp hzero) hne
      · rintro batch hbatch
        obtain rfl := Option.mem_some_iff.mp hbatch
        exact hphysical

/-- In a run of careful calls no token is lost. -/
theorem loses_no_token (S : ComparatorSort) (gdr : Bool) (hk : 2 ≤ topK)
    (h : CarefulRun S gdr layerIds topK s) : Conserves S gdr layerIds s :=
  (h.sound hk).balanced hk S gdr

/-! ### Pools of two layers -/

/-- The copies of some requests at a layer. -/
def copiesOf (layerId : ℕ) (reqIds : List ℤ) : BatchMetadata ℕ where
  batchTag := .attention
  shape := (reqIds.length, 1)
  dtype := "bf16"
  layerId := layerId
  reqIds := reqIds
  expIds := []
  topkWeights := []
  attnDpRanks := reqIds.map fun _ => 0
  initPrefillLens := reqIds.map fun _ => 5

/-- A token that completes at layer 2, the second of the pool, is returned by the get of its
index. -/
theorem loses_no_token_oneCompleted :
    ∃ s : Ledger ℕ (List ℕ), CarefulRun .insertion true [0, 2] 2 s ∧
      s.ready 2 = [(⟨7, 0, 0, 5, 0⟩, some [3])] ∧ s.returned 2 = s.ready 2 ∧
      Conserves .insertion true [0, 2] s := by
  have hstart : CarefulRun .insertion true [0, 2] 2 (start [0, 2] 2 : Ledger ℕ (List ℕ)) := .start rfl
  have hput : (Call.processBatch [[1], [2]] (copiesOf 2 [7, 7])).Careful true
      (start [0, 2] 2 : Ledger ℕ (List ℕ)).pool := by
    intro lid pool hl hwrong
    obtain rfl : 1 = lid := Option.some.inj hl
    exact absurd hwrong (by decide)
  have hready := hstart.next ⟨_, .processBatch rfl, hput⟩
  have hserved := hready.next ⟨.getBatchFromLayer 1, .getBatchFromLayer rfl,
    .inr (.inr (.inr ⟨_, rfl, by decide, fun _ => by decide⟩))⟩
  exact ⟨_, hserved, rfl, rfl, loses_no_token _ _ le_rfl hserved⟩

/-- A batch of layer 0 waits in a queue that no get reads: the get of the layer reads the
first of no tokens. A token that completes at the layer after the last finds no queue, and
one of a layer between those of the pool is returned as a token of layer 0. -/
theorem some_layers_fail :
    (∃ (s : Ledger ℕ (List ℕ)) (p : MuAttentionTopKPool ℕ (List ℕ)),
      Run .insertion true [0, 1] 2 s ∧
      (s.pool.dataQueue.map List.length, s.waiting 0) = ([1, 0, 0], 1) ∧
      MuAttentionTopKPool.getBatchFromLayer .insertion true 0 s.pool =
        .error (.outOfRange "tokens[0]") p) ∧
    (∃ p, MuAttentionTopKPool.processBatch [[1], [2]] (copiesOf 2 [7, 7])
      (start [0, 1] 2 : Ledger ℕ (List ℕ)).pool = .error (.outOfRange "attn_token_queues[lid]") p) ∧
    ∃ s : Ledger ℕ (List ℕ), Run .insertion true [0, 2] 2 s ∧
      ((s.ready 1).length, s.returned 1, (s.returned 0).length) = (1, [], 1) ∧
      s.pool.tokensPerLayer = [0, 0, 0] := by
  have hstart : ∀ layerIds : List ℕ,
      Run .insertion true layerIds 2 (start layerIds 2 : Ledger ℕ (List ℕ)) := fun _ => .start rfl
  have hfirst := (hstart [0, 1]).next ⟨.processBatch [[4]] (copiesOf 0 [9]), .processBatch rfl⟩
  have hunlisted := (hstart [0, 2]).next
    ⟨.processBatch [[1], [2]] (copiesOf 1 [7, 7]), .processBatch rfl⟩
  have hserved := hunlisted.next ⟨.getBatchFromLayer 0, .getBatchFromLayer rfl⟩
  exact ⟨⟨_, _, hfirst, rfl, rfl⟩, ⟨_, rfl⟩, _, hserved, rfl, rfl⟩

end Ledger

end MuAttentionTopKPool

end StreamInfer.Pool
