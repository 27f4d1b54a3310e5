import StreamInfer.Pool.MuAttention

/-! What the calls of the attention pool of a disaggregated engine do when they return.
A get drains the queue of tokens of its layer; with none there, it reads the first
token of an empty list. -/

namespace StreamInfer.Pool

open General General.Stateful Batch Staging

variable {W R : Type}

namespace TokenTopKPool

/-- The rows that wait for a request. -/
def rowsOf (p : TokenTopKPool R) (r : ℤ) : ℕ := (p.pool.lookup r).elim 0 TokenTopKInfo.count

/-- A batch that brings each request fewer rows than it lacks completes no token. -/
theorem readyTokens_foldl_putToken {cs : List (TokenCopy R)} {p : TokenTopKPool R}
    (h : ∀ r, p.rowsOf r + cs.countP (·.reqId = r) < p.topK) :
    (cs.foldl putToken p).readyTokens = p.readyTokens := by
  induction cs generalizing p with
  | nil => rfl
  | cons c cs ih =>
    have hc := h c.reqId
    rw [List.countP_cons_of_pos (by simp)] at hc
    have hput : (p.putToken c).readyTokens = p.readyTokens ∧
        ∀ r, (p.putToken c).rowsOf r = p.rowsOf r + if c.reqId = r then 1 else 0 := by
      unfold putToken
      cases hl : p.pool.lookup c.reqId with
      | none =>
        refine ⟨rfl, fun r => ?_⟩
        by_cases hr : c.reqId = r
        · subst hr
          simp [rowsOf, hl, TokenCopy.token, TokenTopKInfo.count]
        · simp [rowsOf, AList.lookup_insert_ne (Ne.symm hr), hr]
      | some token =>
        have hcount := count_appendTensor token c.row
        have hrows : p.rowsOf c.reqId = token.count := by simp [rowsOf, hl]
        have hfull : (token.appendTensor c.row).count ≠ p.topK := by omega
        simp only [hfull, if_false]
        refine ⟨trivial, fun r => ?_⟩
        by_cases hr : c.reqId = r
        · subst hr
          simp [rowsOf, hl, hcount]
        · simp [rowsOf, AList.lookup_insert_ne (Ne.symm hr), hr]
    rw [List.foldl_cons, ih, hput.1]
    intro r
    have hr := h r
    rw [hput.2, topK_putToken]
    rw [List.countP_cons] at hr
    simp only [decide_eq_true_eq] at hr
    omega

end TokenTopKPool

namespace MuAttentionTopKPool

/-! ### The calls -/

section

variable {p p' : MuAttentionTopKPool W R} {lid : ℕ}

theorem countTokens_ok (hn : lid < p.numBatchesPerLayer.length) (ht : lid < p.tokensPerLayer.length)
    (batchedTokens : ℕ) :
    countTokens lid batchedTokens p = .ok ⟨⟩ { p with
      numBatchesPerLayer := p.numBatchesPerLayer.set lid (p.numBatchesPerLayer[lid] + 1)
      tokensPerLayer := p.tokensPerLayer.set lid (p.tokensPerLayer[lid] + batchedTokens)
      largestBatchSize := if p.largestBatchSize < p.tokensPerLayer[lid] + batchedTokens then
        p.tokensPerLayer[lid] + batchedTokens else p.largestBatchSize
      largestBatchLayerId := if p.largestBatchSize < p.tokensPerLayer[lid] + batchedTokens then
        lid else p.largestBatchLayerId } := by
  rw [countTokens, get_bind, readAt_eq hn, readAt_eq ht]
  rfl

/-- A batch that is processed has a layer with an index. -/
theorem layer_of_processBatch [Row R] {metaC : BatchMetadata W} {tensor : List R}
    (h : processBatch tensor metaC p = .ok ⟨⟩ p') : ∃ lid, p.layerIdP2V[metaC.layerId]? = some lid := by
  rw [processBatch, get_bind] at h
  obtain ⟨lid, _, hread, -⟩ := bind_ok_iff.mp h
  exact ⟨lid, (readAt_ok_iff.mp hread).1⟩

/-- A batch without requests, packed. -/
def packedEmpty (tensor : List R) (metaC : BatchMetadata W) : TokenBatch W R :=
  ⟨tensor, { metaC with
    batchTag := .attention
    numPrefillSeqs := some 0
    numPrefillTokens := some 0
    numDecodeTokens := some 0 }⟩

/-- A batch without requests at layer 0 is queued with the batches. -/
theorem processBatch_empty [Row R] {metaC : BatchMetadata W} {tensor : List R} {pool : MuPool W R}
    (h0 : metaC.layerId = 0) (hr : metaC.reqIds = []) (hl : p.layerIdP2V[metaC.layerId]? = some lid)
    (hput : MuPool.enqueue lid 0 (packedEmpty tensor metaC) p.toMuPool = .ok ⟨⟩ pool) :
    processBatch tensor metaC p = .ok ⟨⟩ { p with toMuPool := pool } := by
  have hpack : MuAttentionPool.packAttnBatch tensor { metaC with batchTag := .attention } p.toMuPool =
      .ok (packedEmpty tensor metaC) p.toMuPool := by
    simp only [MuAttentionPool.packAttnBatch, packedEmpty, hr]
    rfl
  rw [processBatch, get_bind, readAt, hl, pure_bind]
  simp only [if_pos h0]
  refine onPart_ok_iff.mpr ⟨pool, ?_, rfl⟩
  rw [bind_of_ok hpack]
  exact hput

/-- The shapes that `put_batch` asserts. -/
def Fits [Row R] (tensor : List R) (metaC : BatchMetadata W) : Prop :=
  tensor.length = metaC.numTokens ∧ (∀ row ∈ tensor, Row.size row = metaC.tokenHiddenDim) ∧
    metaC.numTokens = metaC.reqIds.length ∧ metaC.numTokens = metaC.attnDpRanks.length ∧
    metaC.numTokens = metaC.initPrefillLens.length

/-- The pool of a layer after the rows of a batch. -/
def putCopies (pool : TokenTopKPool R) (tensor : List R) (metaC : BatchMetadata W) :
    TokenTopKPool R :=
  (TokenTopKPool.copies (⟨tensor, metaC⟩ : TokenBatch W R)).foldl TokenTopKPool.putToken pool

/-- A pool of the layer from which what is ready was fetched. -/
def fetchedAt (lid : ℕ) (pool : TokenTopKPool R) (p : MuAttentionTopKPool W R) :
    MuAttentionTopKPool W R :=
  { p with topkPools := p.topkPools.set lid { pool with readyTokens := [] } }

theorem collectTokens_ok_iff [Row R] {metaC : BatchMetadata W} {tensor : List R}
    {ts : List (TokenTopKInfo R)} :
    collectTokens lid ⟨tensor, metaC⟩ p = .ok ts p' ↔ ∃ pool, p.topkPools[lid]? = some pool ∧
      Fits tensor metaC ∧ ts = (putCopies pool tensor metaC).readyTokens ∧
      p' = fetchedAt lid (putCopies pool tensor metaC) p := by
  rw [collectTokens, get_bind]
  simp only [bind_ok_iff, readAt_ok_iff, onPart_ok_iff, TokenTopKPool.putBatch_ok_iff,
    TokenTopKPool.fetchReadyTokens_ok_iff]
  constructor
  · rintro ⟨pool, _, ⟨hpool, rfl⟩, _, ⟨⟨⟩, _, ⟨hfits, rfl⟩, rfl, rfl⟩, rfl⟩
    exact ⟨pool, hpool, hfits, rfl, rfl⟩
  · rintro ⟨pool, hpool, hfits, rfl, rfl⟩
    exact ⟨pool, p, ⟨hpool, rfl⟩, _, ⟨⟨⟩, _, ⟨hfits, rfl⟩, rfl, rfl⟩, rfl⟩

theorem queueTokens_ok_iff {ts : List (TokenTopKInfo R)} :
    queueTokens lid ts p = .ok ⟨⟩ p' ↔ ∃ p₁ queue, countTokens lid ts.length p = .ok ⟨⟩ p₁ ∧
      p₁.attnTokenQueues[lid]? = some queue ∧
      p' = { p₁ with attnTokenQueues := p₁.attnTokenQueues.set lid (queue ++ ts) } := by
  simp only [queueTokens, bind_ok_iff, get_bind, readAt_ok_iff, set_ok_iff]
  constructor
  · rintro ⟨⟨⟩, _, hcount, queue, _, ⟨hq, rfl⟩, rfl⟩
    exact ⟨_, queue, hcount, hq, rfl⟩
  · rintro ⟨p₁, queue, hcount, hq, rfl⟩
    exact ⟨⟨⟩, p₁, hcount, queue, _, ⟨hq, rfl⟩, rfl⟩

/-- A batch of a later layer. -/
theorem processBatch_later_iff [Row R] {metaC : BatchMetadata W} {tensor : List R}
    (h0 : metaC.layerId ≠ 0) :
    processBatch tensor metaC p = .ok ⟨⟩ p' ↔
      ∃ lid pool, p.layerIdP2V[metaC.layerId]? = some lid ∧ p.topkPools[lid]? = some pool ∧
        Fits tensor metaC ∧
        if (putCopies pool tensor metaC).readyTokens = [] then
          p' = fetchedAt lid (putCopies pool tensor metaC) p
        else
          queueTokens lid (putCopies pool tensor metaC).readyTokens
            (fetchedAt lid (putCopies pool tensor metaC) p) = .ok ⟨⟩ p' := by
  rw [processBatch, get_bind]
  simp only [bind_ok_iff, readAt_ok_iff, if_neg h0]
  have hcollect : ∀ lid ts p₁,
      collectTokens lid ⟨tensor, { metaC with batchTag := .attention }⟩ p = .ok ts p₁ ↔
        ∃ pool, p.topkPools[lid]? = some pool ∧ Fits tensor metaC ∧
          ts = (putCopies pool tensor metaC).readyTokens ∧
          p₁ = fetchedAt lid (putCopies pool tensor metaC) p :=
    fun _ _ _ => collectTokens_ok_iff
  constructor
  · rintro ⟨lid, _, ⟨hl, rfl⟩, ts, p₁, hc, hrest⟩
    obtain ⟨pool, hpool, hfits, rfl, rfl⟩ := (hcollect lid ts p₁).mp hc
    refine ⟨lid, pool, hl, hpool, hfits, ?_⟩
    by_cases hnil : (putCopies pool tensor metaC).readyTokens = []
    · rw [if_pos (List.length_eq_zero_iff.mpr hnil)] at hrest
      rw [if_pos hnil]
      exact (pure_ok_iff.mp hrest).2
    · rw [if_neg (mt List.length_eq_zero_iff.mp hnil)] at hrest
      rw [if_neg hnil]
      exact hrest
  · rintro ⟨lid, pool, hl, hpool, hfits, hrest⟩
    refine ⟨lid, p, ⟨hl, rfl⟩, _, _, (hcollect lid _ _).mpr ⟨pool, hpool, hfits, rfl, rfl⟩, ?_⟩
    by_cases hnil : (putCopies pool tensor metaC).readyTokens = []
    · rw [if_pos hnil] at hrest
      rw [if_pos (List.length_eq_zero_iff.mpr hnil)]
      exact pure_ok_iff.mpr ⟨rfl, hrest⟩
    · rw [if_neg hnil] at hrest
      rw [if_neg (mt List.length_eq_zero_iff.mp hnil)]
      exact hrest

/-- The counters of a layer that is drained. -/
def drainedAt (i : ℕ) (p : MuAttentionTopKPool W R) : MuAttentionTopKPool W R :=
  { p with toMuPool := MuPool.resetAt i p.toMuPool }

theorem packTopkTokens_ok_iff [Row R] {S : ComparatorSort} {gdr : Bool} {layerId : ℕ}
    {tokens : List (TokenTopKInfo R)} {b : TokenBatch W R} :
    packTopkTokens S gdr layerId tokens = .ok b ↔ TokenBatch.packTopkTokens S layerId tokens = .ok b ∧
      (gdr = true → numSrcPtrs S tokens ≠ 0 ∧ numSrcPtrs S tokens ≤ maxGatherTokens) := by
  rw [← GdrContext.copyFromHost_ok_iff (show 0 < 8 by decide), packTopkTokens, bind_eq_ok_iff]
  cases gdr with
  | false => simp [pure, Except.pure]
  | true =>
    simp only [if_true, forall_const, bind_eq_ok_iff]
    constructor
    · rintro ⟨b', hb, ⟨⟩, hcopy, hpure⟩
      obtain rfl := Except.ok.inj hpure
      exact ⟨hb, hcopy⟩
    · rintro ⟨hb, hcopy⟩
      exact ⟨b, hb, ⟨⟩, hcopy, rfl⟩

/-- Tokens with as many rows each have that many source pointers. -/
theorem numSrcPtrs_eq (S : ComparatorSort) {tokens : List (TokenTopKInfo R)} (hne : tokens ≠ [])
    {topK : ℕ} (hcount : ∀ t ∈ tokens, t.count = topK) :
    numSrcPtrs S tokens = tokens.length * topK := by
  have hperm := S.perm TokenTopKInfo.before tokens
  rw [numSrcPtrs]
  cases hsort : S.sort TokenTopKInfo.before tokens with
  | nil => exact absurd (hsort ▸ hperm).symm.eq_nil hne
  | cons first others =>
    rw [hsort] at hperm
    rw [List.head?_cons, Option.elim_some, hcount first (hperm.mem_iff.mp List.mem_cons_self)]

theorem getBatchFromLayer_none [Row R] (S : ComparatorSort) (gdr : Bool) {layerId : ℤ}
    (h : p.largestBatchSize = 0 ∨ layerId < 0 ∨ (p.attnTokenQueues.length : ℤ) ≤ layerId) :
    (getBatchFromLayer S gdr layerId : MuM W R _) p = .ok none p := by
  rw [getBatchFromLayer, get_bind]
  by_cases hz : p.largestBatchSize = 0
  · rw [if_pos hz]
    rfl
  · rw [if_neg hz, if_pos (h.resolve_left hz)]
    rfl

theorem getBatchFromLayer_ok_iff [Row R] (S : ComparatorSort) (gdr : Bool) (hz : p.largestBatchSize ≠ 0)
    {i : ℕ} (hi : i < p.attnTokenQueues.length) {b : Option (TokenBatch W R)} :
    getBatchFromLayer S gdr i p = .ok b p' ↔ ∃ physical queue batch,
      p.layerIdV2P[i]? = some physical ∧ p.attnTokenQueues[i]? = some queue ∧
      packTopkTokens S gdr physical queue = .ok batch ∧ b = some batch ∧
      p' = { drainedAt i p with attnTokenQueues := p.attnTokenQueues.set i [] } := by
  have hrange : ¬ ((i : ℤ) < 0 ∨ (p.attnTokenQueues.length : ℤ) ≤ i) := by omega
  have hreset : (inherited (modify (MuPool.resetAt i)) : MuM W R PUnit) p = .ok ⟨⟩ (drainedAt i p) := rfl
  rw [getBatchFromLayer, get_bind, if_neg hz, if_neg hrange, Int.toNat_natCast, bind_of_ok hreset]
  simp only [bind_ok_iff, readAt_ok_iff]
  constructor
  · rintro ⟨physical, _, ⟨hphysical, rfl⟩, queue, _, ⟨hqueue, rfl⟩, hrest⟩
    cases hpack : packTopkTokens (W := W) S gdr physical queue with
    | error e =>
      rw [hpack] at hrest
      exact absurd hrest throw_ne_ok
    | ok batch =>
      rw [hpack] at hrest
      obtain ⟨_, _, hmodify, hb⟩ := bind_ok_iff.mp hrest
      obtain rfl := modify_ok_iff.mp hmodify
      obtain ⟨rfl, rfl⟩ := pure_ok_iff.mp hb
      exact ⟨physical, queue, batch, hphysical, hqueue, hpack, rfl, rfl⟩
  · rintro ⟨physical, queue, batch, hphysical, hqueue, hpack, rfl, rfl⟩
    refine ⟨physical, _, ⟨hphysical, rfl⟩, queue, _, ⟨hqueue, rfl⟩, ?_⟩
    rw [hpack]
    rfl

end

end MuAttentionTopKPool

end StreamInfer.Pool
