import StreamInfer.General.Reach
import StreamInfer.Pool.Conservation
import StreamInfer.Pool.MuPool

/-! Runs of the two pools of a disaggregated engine. In every state the counters are the
tokens of the queues, the largest count is known with a queue that has it, and each
token that was put is in the queue of its own layer and group or was returned by one
get of that queue. -/

namespace StreamInfer.Pool

open General General.Stateful Batch BatchMetadata

variable {W R : Type}

/-- An expert pool and its groups, or an attention pool. -/
inductive PoolKind where
  | expert (numGroups : ℕ)
  | attention

namespace PoolKind

open MuPool

def numGroups : PoolKind → ℕ
  | .expert numGroups => numGroups
  | .attention => 1

/-- The layers of a pool that is built for some. -/
def layers : PoolKind → List ℕ → List ℕ
  | .expert _, layerIds => layerIds
  | .attention, layerIds => MuAttentionPool.poolLayers layerIds

def view : PoolKind → View
  | .expert _ => .routing
  | .attention => .attention

def processBatch : PoolKind → List R → BatchMetadata W → PoolM W R Unit
  | .expert _ => MuExpertPool.processBatch
  | .attention => MuAttentionPool.processBatch

def getBatchFromLayer [Zero W] : PoolKind → ℤ → PoolM W R (Option (TokenBatch W R))
  | .expert _ => MuExpertPool.getBatchFromLayer
  | .attention => MuAttentionPool.getBatchFromLayer

variable [Zero W]

/-- The batches in the queues of a layer. -/
def batches : PoolKind → ℕ → BatchKind W R
  | .expert _, layer => .expert layer
  | .attention, layer =>
    (BatchKind.attention layer).restrict (Masked .attention) masked_cut (masked_arrange layer)

/-- A batch of the pool's layers with a row and an entry of each column for each token, and
expert ids inside the count array. -/
structure Accepts (k : PoolKind) (layerIds : List ℕ) (tensor : List R) (metaC : BatchMetadata W) : Prop where
  layer : metaC.layerId ∈ k.layers layerIds
  rows : tensor.length = metaC.numTokens
  aligned : metaC.Aligned k.view
  bounded : k.view.routed = true → ∀ e ∈ metaC.expIds, e < maxNumExperts

variable {k : PoolKind} {layer : ℕ} {b : TokenBatch W R} {xs : List (TokenMetadata W × R)}

theorem entries_of_good (h : (k.batches layer).Good b xs) :
    b.metadata.layerId = layer ∧ b.entries k.view = xs := by
  cases k with
  | expert n => exact ⟨h.layer, h.toCarries.entries_of_masked (masked_routing xs)⟩
  | attention => exact ⟨h.1.layer, h.1.toCarries.entries_of_masked h.2⟩

end PoolKind

/-- A token and the layer it is for. -/
abbrev Labelled (W R : Type) := ℕ × (TokenMetadata W × R)

def TokenBatch.labelled [Zero W] (v : View) (b : TokenBatch W R) : List (Labelled W R) :=
  (b.entries v).map fun x => (b.metadata.layerId, x)

/-- The queue of a token: that of its layer and of the group of its expert. -/
def ownQueue (layers : List ℕ) (numGroups : ℕ) (t : Labelled W R) : ℕ :=
  (MuPool.indexLayers layers).getD t.1 0 * numGroups + t.2.1.expId % numGroups

/-- A pool, the tokens that were put, and those that the gets of each queue returned. -/
structure PoolLedger (W R : Type) where
  pool : MuPool W R
  put : List (Labelled W R)
  delivered : ℕ → List (Labelled W R)

namespace PoolLedger

variable [Zero W]

def start (k : PoolKind) (layerIds : List ℕ) : PoolLedger W R :=
  ⟨.new (k.layers layerIds) k.numGroups, [], fun _ => []⟩

/-- A call that returns. -/
inductive Step (k : PoolKind) (layerIds : List ℕ) : PoolLedger W R → PoolLedger W R → Prop
  | processBatch {s : PoolLedger W R} {p : MuPool W R} {tensor : List R} {metaC : BatchMetadata W}
      (hb : k.Accepts layerIds tensor metaC) (h : k.processBatch tensor metaC s.pool = .ok ⟨⟩ p) :
      Step k layerIds s { s with
        pool := p
        put := s.put ++ TokenBatch.labelled k.view ⟨tensor, metaC⟩ }
  | getBatchFromLayer {s : PoolLedger W R} {p : MuPool W R} {b : Option (TokenBatch W R)} {layerId : ℤ}
      (h : k.getBatchFromLayer layerId s.pool = .ok b p) :
      Step k layerIds s { s with
        pool := p
        delivered := Function.update s.delivered layerId.toNat
          (s.delivered layerId.toNat ++ b.elim [] (TokenBatch.labelled k.view)) }

def Run (k : PoolKind) (layerIds : List ℕ) : PoolLedger W R → Prop :=
  Reach (· = start k layerIds) (Step k layerIds)

/-- The tokens in a queue. -/
def queued (v : View) (p : MuPool W R) (q : ℕ) : List (Labelled W R) :=
  (p.dataQueue.getD q []).flatMap (TokenBatch.labelled v)

/-- The queues hold batches of their layers, the counters count them, and a token is queued or
delivered where it belongs. -/
structure Sound (k : PoolKind) (layerIds : List ℕ) (s : PoolLedger W R) : Prop where
  numGroups : s.pool.numGroups = k.numGroups
  indices : s.pool.layerIdP2V = MuPool.indexLayers (k.layers layerIds)
  numQueues : s.pool.dataQueue.length = (k.layers layerIds).length * k.numGroups
  numBatches : s.pool.numBatchesPerLayer.length = (k.layers layerIds).length * k.numGroups
  queues : ∀ q queue, s.pool.dataQueue[q]? = some queue →
    ∃ layer xss, (k.layers layerIds)[q / k.numGroups]? = some layer ∧
      List.Forall₂ (k.batches layer).Good queue xss
  counts : s.pool.tokensPerLayer =
    s.pool.dataQueue.map fun queue => (queue.map (·.metadata.numTokens)).sum
  largest : MuPool.Largest s.pool.tokensPerLayer s.pool.largestBatchSize s.pool.largestBatchLayerId
  moved : ∀ q, (s.put.filter (ownQueue (k.layers layerIds) k.numGroups · = q)).Perm
    (s.delivered q ++ queued k.view s.pool q)

variable {k : PoolKind} {layerIds : List ℕ} {s : PoolLedger W R}

theorem sound_start (k : PoolKind) (layerIds : List ℕ) :
    Sound k layerIds (start k layerIds : PoolLedger W R) where
  numGroups := rfl
  indices := rfl
  numQueues := List.length_replicate
  numBatches := List.length_replicate
  queues q queue hq := by
    obtain ⟨hlt, hqueue⟩ := List.getElem?_eq_some_iff.mp hq
    have hlt : q < (k.layers layerIds).length * k.numGroups := hlt.trans_eq List.length_replicate
    have hnil : queue = [] := hqueue ▸ List.getElem_replicate _
    have hlayer : q / k.numGroups < (k.layers layerIds).length :=
      Nat.div_lt_of_lt_mul (hlt.trans_eq (Nat.mul_comm _ _))
    subst hnil
    exact ⟨_, [], List.getElem?_eq_getElem hlayer, .nil⟩
  counts := by simp [start, MuPool.new]
  largest := MuPool.largest_replicate _
  moved q := by
    have hnil : queued k.view (start k layerIds : PoolLedger W R).pool q = [] := by
      rw [queued, start, MuPool.new, List.getD_eq_getElem?_getD, List.getElem?_replicate]
      split_ifs <;> rfl
    rw [hnil]
    exact .refl _

/-! ### Adding -/

theorem labelled_of_good {layer : ℕ} {b : TokenBatch W R} {xs : List (TokenMetadata W × R)}
    (h : (k.batches layer).Good b xs) :
    TokenBatch.labelled k.view b = xs.map fun x => (layer, x) := by
  obtain ⟨hlayer, hentries⟩ := k.entries_of_good h
  rw [TokenBatch.labelled, hlayer, hentries]

/-- One batch goes to a queue of its layer. -/
theorem Sound.enqueue (h : Sound k layerIds s) {q layer : ℕ}
    (hq : q < (k.layers layerIds).length * k.numGroups)
    (hlayer : (k.layers layerIds)[q / k.numGroups]? = some layer) {b : TokenBatch W R}
    {xs : List (TokenMetadata W × R)} (hb : (k.batches layer).Good b xs)
    (hown : ∀ x ∈ xs, ownQueue (k.layers layerIds) k.numGroups (layer, x) = q) :
    ∃ p, MuPool.enqueue q b.metadata.numTokens b s.pool = .ok ⟨⟩ p ∧
      Sound k layerIds { s with
        pool := p
        put := s.put ++ TokenBatch.labelled k.view b } := by
  have hdata : q < s.pool.dataQueue.length := h.numQueues ▸ hq
  have hcount : s.pool.tokensPerLayer[q]? =
      some ((s.pool.dataQueue[q].map (·.metadata.numTokens)).sum) := by
    rw [h.counts, List.getElem?_map, List.getElem?_eq_getElem hdata]
    rfl
  obtain ⟨hlt, hcount'⟩ := List.getElem?_eq_some_iff.mp hcount
  have hnum : q < s.pool.numBatchesPerLayer.length := h.numBatches ▸ hq
  refine ⟨_, MuPool.enqueue_ok hdata hnum hlt _ b, ?_⟩
  refine ⟨h.numGroups, h.indices, List.length_set.trans h.numQueues,
    List.length_set.trans h.numBatches, fun q' queue hqueue => ?_, ?_,
    h.largest.raise (List.getElem?_eq_getElem hlt) _, fun q' => ?_⟩
  · by_cases hsame : q = q'
    · subst hsame
      rw [List.getElem?_set_self hdata, Option.some_inj] at hqueue
      obtain ⟨layer', xss, hlayer', hall⟩ := h.queues q _ (List.getElem?_eq_getElem hdata)
      obtain rfl : layer' = layer := Option.some.inj (hlayer'.symm.trans hlayer)
      exact ⟨layer', xss ++ [xs], hlayer, hqueue ▸ List.rel_append hall (.cons hb .nil)⟩
    · rw [List.getElem?_set_ne hsame] at hqueue
      exact h.queues q' queue hqueue
  · dsimp only
    rw [List.map_set, ← h.counts, List.map_append, List.sum_append, List.map_singleton,
      List.sum_singleton, hcount']
  · have hlabelled := labelled_of_good hb
    rw [List.filter_append]
    by_cases hsame : q = q'
    · subst hsame
      have hall : (TokenBatch.labelled k.view b).filter
          (ownQueue (k.layers layerIds) k.numGroups · = q) = TokenBatch.labelled k.view b := by
        rw [List.filter_eq_self, hlabelled]
        intro t ht
        obtain ⟨x, hx, rfl⟩ := List.mem_map.mp ht
        exact decide_eq_true (hown x hx)
      have hqueued : queued k.view { s.pool with
          dataQueue := s.pool.dataQueue.set q (s.pool.dataQueue[q] ++ [b]) } q =
            queued k.view s.pool q ++ TokenBatch.labelled k.view b := by
        simp [queued, List.getD_eq_getElem?_getD, hdata]
      rw [hall]
      refine ((h.moved q).append_right _).trans ?_
      rw [List.append_assoc, ← hqueued]
      exact .refl _
    · have hnone : (TokenBatch.labelled k.view b).filter
          (ownQueue (k.layers layerIds) k.numGroups · = q') = [] := by
        rw [List.filter_eq_nil_iff, hlabelled]
        intro t ht
        obtain ⟨x, hx, rfl⟩ := List.mem_map.mp ht
        rw [hown x hx]
        simpa using hsame
      have hqueued : queued k.view { s.pool with
          dataQueue := s.pool.dataQueue.set q (s.pool.dataQueue[q] ++ [b]) } q' =
            queued k.view s.pool q' := by
        rw [queued, List.getD_eq_getElem?_getD, List.getElem?_set_ne hsame, ←
          List.getD_eq_getElem?_getD]
        rfl
      rw [hnone, List.append_nil]
      refine (h.moved q').trans ?_
      rw [← hqueued]
      exact .refl _

/-! ### The queue of a layer -/

/-- The queue of a group of a layer. -/
theorem queue_of_group {layers : List ℕ} {numGroups lid layer : ℕ} (hG : 0 < numGroups)
    (hlid : layers[lid]? = some layer) (group : ℕ) :
    lid * numGroups + group % numGroups < layers.length * numGroups ∧
      layers[(lid * numGroups + group % numGroups) / numGroups]? = some layer := by
  have hlt : lid < layers.length := (List.getElem?_eq_some_iff.mp hlid).1
  have hmod : group % numGroups < numGroups := Nat.mod_lt _ hG
  constructor
  · exact (Nat.add_lt_add_left hmod _).trans_le
      ((Nat.succ_mul lid numGroups).symm.trans_le (Nat.mul_le_mul_right _ hlt))
  · rw [Nat.add_comm, Nat.add_mul_div_right _ _ hG, Nat.div_eq_of_lt hmod, Nat.zero_add, hlid]

omit [Zero W] in
/-- With one group the queue of a token is that of its layer. -/
theorem ownQueue_one {layers : List ℕ} {layer lid : ℕ}
    (hindex : (MuPool.indexLayers layers)[layer]? = some lid) (x : TokenMetadata W × R) :
    ownQueue layers 1 (layer, x) = lid := by
  rw [ownQueue, List.getD_eq_getElem?_getD, hindex, Option.getD_some, Nat.mul_one, Nat.mod_one,
    Nat.add_zero]

/-! ### Expert batches -/

theorem Sound.addPiece {n : ℕ} (h : Sound (.expert n) layerIds s) (hG : 0 < n) {layer lid : ℕ}
    (hindex : (MuPool.indexLayers layerIds)[layer]? = some lid)
    (hlid : layerIds[lid]? = some layer) {b : TokenBatch W R} {piece : List (TokenMetadata W × R)}
    (hb : BatchKind.ExpertBatch layer b piece)
    (hone : ∃ x rest, piece = x :: rest ∧ ∀ y ∈ piece, y.1.expId = x.1.expId) :
    ∃ p, MuExpertPool.addPiece lid n b s.pool = .ok ⟨⟩ p ∧
      Sound (.expert n) layerIds { s with
        pool := p
        put := s.put ++ TokenBatch.labelled .routing b } := by
  obtain ⟨x, rest, rfl, hsame⟩ := hone
  obtain ⟨hq, hlayer⟩ := queue_of_group hG hlid x.1.expId
  have hfirst : b.metadata.expIds[0]? = some x.1.expId := by
    rw [hb.lists.expIds rfl]
    rfl
  have hread : MuExpertPool.addPiece lid n b s.pool =
      MuPool.enqueue (lid * n + x.1.expId % n) b.metadata.numTokens b s.pool := by
    rw [MuExpertPool.addPiece, readAt, hfirst]
    rfl
  rw [hread]
  refine h.enqueue (k := .expert n) hq hlayer hb fun y hy => ?_
  rw [ownQueue, PoolKind.layers, List.getD_eq_getElem?_getD, hindex, hsame y hy]
  rfl

theorem Sound.addPieces {n : ℕ} (hG : 0 < n) {layer lid : ℕ}
    (hindex : (MuPool.indexLayers layerIds)[layer]? = some lid)
    (hlid : layerIds[lid]? = some layer) {bs : List (TokenBatch W R)}
    {pieces : List (List (TokenMetadata W × R))}
    (hbs : List.Forall₂ (BatchKind.ExpertBatch layer) bs pieces)
    (hone : ∀ piece ∈ pieces, ∃ x rest, piece = x :: rest ∧ ∀ y ∈ piece, y.1.expId = x.1.expId)
    {s : PoolLedger W R} (h : Sound (.expert n) layerIds s) :
    ∃ p, bs.forM (MuExpertPool.addPiece lid n) s.pool = .ok ⟨⟩ p ∧
      Sound (.expert n) layerIds { s with
        pool := p
        put := s.put ++ bs.flatMap (TokenBatch.labelled .routing) } := by
  induction hbs generalizing s with
  | nil => exact ⟨s.pool, rfl, by simpa using h⟩
  | @cons b piece bs pieces hb hbs ih =>
    obtain ⟨hpiece, hpieces⟩ := List.forall_mem_cons.mp hone
    obtain ⟨p, hok, hp⟩ := h.addPiece hG hindex hlid hb hpiece
    obtain ⟨p', hok', hp'⟩ := ih hpieces hp
    refine ⟨p', ?_, ?_⟩
    · show (MuExpertPool.addPiece lid n b >>= fun _ => bs.forM (MuExpertPool.addPiece lid n)) s.pool = _
      rw [bind_of_ok hok]
      exact hok'
    · rw [List.flatMap_cons, ← List.append_assoc]
      exact hp'

theorem expertBatch_of_accepts {n : ℕ} {tensor : List R} {metaC : BatchMetadata W}
    (hb : (PoolKind.expert n).Accepts layerIds tensor metaC) :
    BatchKind.ExpertBatch metaC.layerId ⟨tensor, { metaC with batchTag := .expert }⟩
      (TokenBatch.entries .routing ⟨tensor, metaC⟩) := by
  have haligned : ({ metaC with batchTag := .expert } : BatchMetadata W).Aligned .routing :=
    ⟨hb.aligned.reqIds, hb.aligned.initPrefillLens, hb.aligned.attnDpRanks, hb.aligned.expIds,
      hb.aligned.topkWeights⟩
  have hcarries : Carries .routing (⟨tensor, { metaC with batchTag := .expert }⟩ : TokenBatch W R)
      (TokenBatch.entries .routing ⟨tensor, metaC⟩) := carries_entries_of_aligned haligned hb.rows
  exact ⟨hcarries, rfl, rfl, hcarries.expId_lt rfl (hb.bounded rfl)⟩

theorem Sound.expert {n : ℕ} (h : Sound (.expert n) layerIds s) (hG : 0 < n) {tensor : List R}
    {metaC : BatchMetadata W} (hb : (PoolKind.expert n).Accepts layerIds tensor metaC)
    (hne : n = 1 ∨ tensor ≠ []) :
    ∃ p, MuExpertPool.processBatch tensor metaC s.pool = .ok ⟨⟩ p ∧
      Sound (.expert n) layerIds { s with
        pool := p
        put := s.put ++ TokenBatch.labelled .routing ⟨tensor, metaC⟩ } := by
  obtain ⟨lid, hindex, hlid⟩ := MuPool.exists_index hb.layer
  have hbatch := expertBatch_of_accepts hb
  have hread : s.pool.layerIdP2V[metaC.layerId]? = some lid := by rw [h.indices]; exact hindex
  have hgroups : s.pool.numGroups = n := h.numGroups
  set whole : TokenBatch W R := ⟨tensor, { metaC with batchTag := .expert }⟩ with hwhole
  have hlabelled : TokenBatch.labelled .routing (⟨tensor, metaC⟩ : TokenBatch W R) =
      TokenBatch.labelled .routing whole := rfl
  rw [hlabelled]
  simp only [MuExpertPool.processBatch, get_bind, readAt, hread, pure_bind, hgroups]
  by_cases hone : 1 < n
  · rw [if_pos hone]
    have hxs : TokenBatch.entries .routing (⟨tensor, metaC⟩ : TokenBatch W R) ≠ [] := by
      refine List.ne_nil_of_length_pos ?_
      rw [TokenBatch.entries, List.length_map, List.length_zipIdx]
      exact List.length_pos_of_ne_nil (hne.resolve_left (by omega))
    obtain ⟨sizes, hsizes, hsum, hpieces⟩ := hbatch.toCarries.getChunkSizes rfl hxs
    obtain ⟨bs, hsplit, hbs⟩ := hbatch.splits hsum
    have hall : TokenBatch.splitByExpert whole = .ok bs := by
      rw [TokenBatch.splitByExpert, hsizes]
      exact hsplit
    obtain ⟨p, hok, hp⟩ := Sound.addPieces hG hindex hlid hbs hpieces h
    have hput : bs.flatMap (TokenBatch.labelled .routing) = TokenBatch.labelled .routing whole := by
      have hflat := flatMap_eq_of_forall₂ hbs fun b xs hb => labelled_of_good (k := .expert n) hb
      have hwholeEq := labelled_of_good (k := .expert n) hbatch
      refine hflat.trans (Eq.trans ?_ hwholeEq.symm)
      rw [List.flatMap_def, ← List.map_flatten, List.flatten_splitLengths _ _ hsum.ge]
    rw [hall]
    exact ⟨p, hok, hput ▸ hp⟩
  · have hn : n = 1 := by omega
    subst hn
    obtain ⟨hq, hlayer⟩ := queue_of_group Nat.one_pos hlid 0
    rw [Nat.mul_one, Nat.mod_one, Nat.add_zero] at hq hlayer
    rw [if_neg hone]
    exact h.enqueue (k := .expert 1) hq hlayer hbatch fun x _ => ownQueue_one hindex x

omit [Zero W] in
/-- A batch without rows has no expert for its group. -/
theorem processBatch_nil_ne_ok {p p' : MuPool W R} (hn : 1 < p.numGroups)
    {metaC : BatchMetadata W} (h0 : metaC.numTokens = 0) :
    MuExpertPool.processBatch ([] : List R) metaC p ≠ .ok ⟨⟩ p' := by
  intro h
  rw [MuExpertPool.processBatch, get_bind, bind_ok_iff] at h
  obtain ⟨lid, p₁, hread, h⟩ := h
  obtain ⟨-, rfl⟩ := readAt_ok_iff.mp hread
  set m : BatchMetadata W := { metaC with batchTag := .expert } with hm
  have hchunks : m.getChunkSizes = .ok [0] := by
    have hm0 : m.numTokens = 0 := h0
    rw [BatchMetadata.getChunkSizes, hm0]
    rfl
  obtain ⟨piece, hsplit, hpiece⟩ : ∃ piece : BatchMetadata W,
      TokenBatch.splitByExpert (⟨[], m⟩ : TokenBatch W R) = .ok [⟨[], piece⟩] ∧ piece.expIds = [] := by
    have hattn : m.isAttention = false := rfl
    have hcut : TokenBatch.splitByExpert (⟨[], m⟩ : TokenBatch W R) =
        TokenBatch.splitWithSizes ⟨[], m⟩ [0] := by
      rw [TokenBatch.splitByExpert, hchunks]
      rfl
    rw [hcut]
    simp [TokenBatch.splitWithSizes, TokenBatch.splitTensorBySize, BatchMetadata.splitWithSizes,
      splitVectorBySize_eq, bind, Except.bind, pure, Except.pure, hattn]
  simp only [if_pos hn, hsplit] at h
  obtain ⟨_, _, hadd, -⟩ := bind_ok_iff.mp h
  obtain ⟨_, _, hid, -⟩ := bind_ok_iff.mp hadd
  have hnone := (readAt_ok_iff.mp hid).1
  rw [hpiece] at hnone
  cases hnone

/-! ### Attention batches -/

/-- Reading all entries of a column, one by one. -/
theorem mapM_readAt_range {σ α : Type} (access : String) (xs : List α) (t : σ) :
    ((List.range xs.length).mapM (readAt access xs)) t = .ok xs t := by
  have hvalue : (readAt access xs : ℕ → EStateM Fault σ α) = fun i => valueOf access xs[i]? := by
    funext i
    unfold readAt valueOf
    rfl
  rw [hvalue, mapM_valueOf_ok_iff]
  refine ⟨List.ext_getElem (by simp) fun i hi hi' => ?_, rfl⟩
  rw [List.getElem_map, List.getElem_range, List.getElem_map]
  exact List.getElem?_eq_getElem (by simpa using hi')

/-- A batch that is packed, with the counts of its prefill lengths. -/
def packedBatch (tensor : List R) (metaC : BatchMetadata W) : TokenBatch W R :=
  ⟨tensor, { metaC with
    batchTag := .attention
    numPrefillSeqs := some (countPrefill metaC.initPrefillLens)
    numPrefillTokens := some (countPrefill metaC.initPrefillLens)
    numDecodeTokens := some (metaC.initPrefillLens.countP (· = -1)) }⟩

omit [Zero W] in
theorem packAttnBatch_ok {p : MuPool W R} {tensor : List R} {metaC : BatchMetadata W}
    (hlen : metaC.initPrefillLens.length = metaC.reqIds.length) :
    MuAttentionPool.packAttnBatch tensor { metaC with batchTag := .attention } p =
      .ok (packedBatch tensor metaC) p := by
  have hread : ((List.range metaC.reqIds.length).mapM
      (readAt "meta->init_prefill_lens[i]" metaC.initPrefillLens)) p = .ok metaC.initPrefillLens p := by
    rw [← hlen]
    exact mapM_readAt_range _ _ _
  rw [MuAttentionPool.packAttnBatch, bind_of_ok hread]
  rfl

/-- A token is of prefill or of decoding. -/
theorem countPrefill_add (lens : List ℤ) : lens.countP (· = -1) + countPrefill lens = lens.length := by
  induction lens with
  | nil => rfl
  | cons l lens ih =>
    rw [countPrefill] at ih ⊢
    by_cases hl : l = -1
    · rw [List.countP_cons_of_pos (by simpa using hl), List.countP_cons_of_neg (by simpa using hl),
        List.length_cons]
      omega
    · rw [List.countP_cons_of_neg (by simpa using hl), List.countP_cons_of_pos (by simpa using hl),
        List.length_cons]
      omega

/-- A packed batch is an attention batch of its layer. -/
theorem attentionBatch_of_accepts {tensor : List R} {metaC : BatchMetadata W}
    (hb : PoolKind.attention.Accepts layerIds tensor metaC) :
    (PoolKind.attention.batches metaC.layerId).Good (packedBatch tensor metaC)
      (TokenBatch.entries .attention ⟨tensor, metaC⟩) := by
  have haligned : (packedBatch tensor metaC).metadata.Aligned .attention :=
    ⟨hb.aligned.reqIds, hb.aligned.initPrefillLens, nofun, nofun, nofun⟩
  have hcarries : Carries .attention (packedBatch tensor metaC)
      (TokenBatch.entries .attention ⟨tensor, metaC⟩) := carries_entries_of_aligned haligned hb.rows
  have hdecode : metaC.initPrefillLens.countP (· = -1) =
      metaC.numTokens - countPrefill metaC.initPrefillLens := by
    have hcount := countPrefill_add metaC.initPrefillLens
    have hlen := hb.aligned.initPrefillLens
    omega
  exact ⟨⟨⟨hcarries, hcarries.lists.counted ⟨rfl, rfl, congrArg some hdecode⟩⟩, rfl, rfl⟩,
    masked_entries _⟩

theorem Sound.attention (h : Sound .attention layerIds s) {tensor : List R} {metaC : BatchMetadata W}
    (hb : PoolKind.attention.Accepts layerIds tensor metaC) :
    ∃ p, MuAttentionPool.processBatch tensor metaC s.pool = .ok ⟨⟩ p ∧
      Sound .attention layerIds { s with
        pool := p
        put := s.put ++ TokenBatch.labelled .attention ⟨tensor, metaC⟩ } := by
  obtain ⟨lid, hindex, hlid⟩ := MuPool.exists_index hb.layer
  have hread : s.pool.layerIdP2V[metaC.layerId]? = some lid := by rw [h.indices]; exact hindex
  have hpack : MuAttentionPool.packAttnBatch tensor { metaC with batchTag := .attention } s.pool =
      .ok (packedBatch tensor metaC) s.pool :=
    packAttnBatch_ok (hb.aligned.initPrefillLens.trans hb.aligned.reqIds.symm)
  have hcount : metaC.initPrefillLens.countP (· = -1) + countPrefill metaC.initPrefillLens =
      metaC.numTokens := (countPrefill_add _).trans hb.aligned.initPrefillLens
  have hrun : MuAttentionPool.processBatch tensor metaC s.pool =
      MuPool.enqueue lid metaC.numTokens (packedBatch tensor metaC) s.pool := by
    rw [MuAttentionPool.processBatch, get_bind, readAt, hread, pure_bind, bind_of_ok hpack, ← hcount]
    rfl
  obtain ⟨hq, hlayer⟩ := queue_of_group Nat.one_pos hlid 0
  rw [Nat.mul_one, Nat.mod_one, Nat.add_zero] at hq hlayer
  rw [hrun]
  exact h.enqueue (k := .attention) hq hlayer (attentionBatch_of_accepts hb)
    fun x _ => ownQueue_one hindex x

/-- Every accepted batch is put, except one without tokens in a pool with several groups. -/
theorem Sound.process (h : Sound k layerIds s) (hG : 0 < k.numGroups) {tensor : List R}
    {metaC : BatchMetadata W} (hb : k.Accepts layerIds tensor metaC)
    (hne : k.numGroups = 1 ∨ tensor ≠ []) :
    ∃ p, k.processBatch tensor metaC s.pool = .ok ⟨⟩ p ∧
      Sound k layerIds { s with
        pool := p
        put := s.put ++ TokenBatch.labelled k.view ⟨tensor, metaC⟩ } := by
  cases k with
  | expert n => exact h.expert hG hb hne
  | attention => exact h.attention hb

/-! ### Gets -/

theorem Sound.count (h : Sound k layerIds s) {q : ℕ} (hq : q < s.pool.dataQueue.length) :
    s.pool.tokensPerLayer[q]? = some ((s.pool.dataQueue[q].map (·.metadata.numTokens)).sum) := by
  rw [h.counts, List.getElem?_map, List.getElem?_eq_getElem hq]
  rfl

/-- A get that returns nothing. -/
theorem Sound.getNone (h : Sound k layerIds s) (layerId : ℤ) :
    Sound k layerIds { s with
      delivered := Function.update s.delivered layerId.toNat
        (s.delivered layerId.toNat ++ (none : Option (TokenBatch W R)).elim []
          (TokenBatch.labelled k.view)) } := by
  rw [Option.elim_none, List.append_nil, Function.update_eq_self]
  exact h

/-- Resetting the counters of an empty queue. -/
theorem Sound.resetAt (h : Sound k layerIds s) {q : ℕ} (hempty : s.pool.dataQueue[q]? = some []) :
    Sound k layerIds { s with pool := MuPool.resetAt q s.pool } := by
  obtain ⟨hq, hnil⟩ := List.getElem?_eq_some_iff.mp hempty
  have hsame : s.pool.tokensPerLayer.set q 0 = s.pool.tokensPerLayer := by
    obtain ⟨hlt, hcount⟩ := List.getElem?_eq_some_iff.mp (h.count hq)
    rw [hnil] at hcount
    have hself := List.set_getElem_self hlt
    rwa [hcount] at hself
  refine ⟨h.numGroups, h.indices, h.numQueues, List.length_set.trans h.numBatches, h.queues, ?_,
    MuPool.largest_largestOf _, h.moved⟩
  exact hsame.trans h.counts

/-- A queue with batches is merged and emptied. -/
theorem Sound.takeQueue (h : Sound k layerIds s) {q : ℕ} {queue : List (TokenBatch W R)}
    (hqueue : s.pool.dataQueue[q]? = some queue) (hne : queue ≠ []) :
    ∃ b p, MuPool.takeQueue q queue s.pool = .ok b p ∧
      Sound k layerIds { s with
        pool := p
        delivered := Function.update s.delivered q
          (s.delivered q ++ b.elim [] (TokenBatch.labelled k.view)) } := by
  obtain ⟨hq, hat⟩ := List.getElem?_eq_some_iff.mp hqueue
  obtain ⟨layer, xss, hlayer, hall⟩ := h.queues q queue hqueue
  obtain ⟨b, hmerge, hgood⟩ := (k.batches layer).merges hne hall
  refine ⟨some b, { MuPool.resetAt q s.pool with
    dataQueue := s.pool.dataQueue.set q [] }, ?_, ?_⟩
  · rw [MuPool.takeQueue, hmerge]
    rfl
  · refine ⟨h.numGroups, h.indices, List.length_set.trans h.numQueues,
      List.length_set.trans h.numBatches, fun q' queue' hqueue' => ?_, ?_,
      MuPool.largest_largestOf _, fun q' => ?_⟩
    · by_cases hsame : q = q'
      · subst hsame
        rw [List.getElem?_set_self hq, Option.some_inj] at hqueue'
        exact ⟨layer, [], hlayer, hqueue' ▸ .nil⟩
      · rw [List.getElem?_set_ne hsame] at hqueue'
        exact h.queues q' queue' hqueue'
    · show s.pool.tokensPerLayer.set q 0 = _
      rw [List.map_set, ← h.counts]
      rfl
    · by_cases hsame : q = q'
      · subst hsame
        have hbefore : queued k.view s.pool q = xss.flatten.map fun x => (layer, x) := by
          rw [queued, List.getD_eq_getElem?_getD, hqueue, Option.getD_some,
            flatMap_eq_of_forall₂ hall fun b xs hb => labelled_of_good hb, List.flatMap_def,
            ← List.map_flatten]
        have hafter : queued k.view { MuPool.resetAt q s.pool with
            dataQueue := s.pool.dataQueue.set q [] } q = [] := by
          simp [queued, List.getD_eq_getElem?_getD, hq]
        have hmoved := h.moved q
        rw [hbefore] at hmoved
        rw [hafter, List.append_nil]
        dsimp only
        rw [Function.update_self, Option.elim_some, labelled_of_good hgood]
        exact hmoved.trans
          ((((k.batches layer).arrange_perm hall).symm.map fun x => (layer, x)).append_left _)
      · have hafter : queued k.view { MuPool.resetAt q s.pool with
            dataQueue := s.pool.dataQueue.set q [] } q' = queued k.view s.pool q' := by
          rw [queued, List.getD_eq_getElem?_getD, List.getElem?_set_ne hsame, ←
            List.getD_eq_getElem?_getD]
          rfl
        rw [hafter]
        dsimp only
        rw [Function.update_of_ne (Ne.symm hsame)]
        exact h.moved q'

theorem Sound.get (h : Sound k layerIds s) (layerId : ℤ) :
    ∃ b p, k.getBatchFromLayer layerId s.pool = .ok b p ∧
      Sound k layerIds { s with
        pool := p
        delivered := Function.update s.delivered layerId.toNat
          (s.delivered layerId.toNat ++ b.elim [] (TokenBatch.labelled k.view)) } := by
  by_cases hzero : s.pool.largestBatchSize = 0
  · refine ⟨none, s.pool, ?_, h.getNone layerId⟩
    cases k <;> simp only [PoolKind.getBatchFromLayer, MuExpertPool.getBatchFromLayer,
      MuAttentionPool.getBatchFromLayer, get_bind, if_pos hzero] <;> rfl
  by_cases hrange : layerId < 0 ∨ (s.pool.dataQueue.length : ℤ) ≤ layerId
  · refine ⟨none, s.pool, ?_, h.getNone layerId⟩
    cases k <;> simp only [PoolKind.getBatchFromLayer, MuExpertPool.getBatchFromLayer,
      MuAttentionPool.getBatchFromLayer, get_bind, if_neg hzero, if_pos hrange] <;> rfl
  obtain ⟨q, rfl⟩ := Int.eq_ofNat_of_zero_le (not_lt.mp (not_or.mp hrange).1)
  have hq : q < s.pool.dataQueue.length := by omega
  have hqueue := List.getElem?_eq_getElem hq
  have hcount := h.count hq
  cases k with
  | expert n =>
    have hread : MuExpertPool.getBatchFromLayer (q : ℤ) s.pool =
        (if (s.pool.dataQueue[q].map (·.metadata.numTokens)).sum = 0 ∨ s.pool.dataQueue[q].isEmpty then
          pure none else MuPool.takeQueue q s.pool.dataQueue[q] : MuPool.PoolM W R _) s.pool := by
      rw [MuExpertPool.getBatchFromLayer, get_bind, if_neg hzero, if_neg hrange, Int.toNat_natCast,
        readAt, hcount, readAt, hqueue]
      rfl
    rw [PoolKind.getBatchFromLayer, hread]
    split_ifs with hnone
    · exact ⟨none, s.pool, rfl, h.getNone q⟩
    · exact h.takeQueue hqueue fun hnil => hnone (.inr (by rw [hnil]; rfl))
  | attention =>
    have hread : MuAttentionPool.getBatchFromLayer (q : ℤ) s.pool =
        (if s.pool.dataQueue[q].isEmpty then
          modify (MuPool.resetAt q) >>= fun _ => pure none
          else MuPool.takeQueue q s.pool.dataQueue[q] : MuPool.PoolM W R _) s.pool := by
      rw [MuAttentionPool.getBatchFromLayer, get_bind, if_neg hzero, if_neg hrange,
        Int.toNat_natCast, readAt, hqueue]
      rfl
    rw [PoolKind.getBatchFromLayer, hread]
    split_ifs with hnone
    · have hnil : s.pool.dataQueue[q] = [] := List.isEmpty_iff.mp hnone
      exact ⟨none, MuPool.resetAt q s.pool, rfl, (h.resetAt (hnil ▸ hqueue)).getNone q⟩
    · exact h.takeQueue hqueue fun hnil => hnone (by rw [hnil]; rfl)

/-! ### Runs -/

theorem Sound.step (h : Sound k layerIds s) (hG : 0 < k.numGroups) {s' : PoolLedger W R}
    (hs : Step k layerIds s s') : Sound k layerIds s' := by
  cases hs with
  | @processBatch p tensor metaC hb hp =>
    by_cases hne : k.numGroups = 1 ∨ tensor ≠ []
    · obtain ⟨p', hok, hsound⟩ := h.process hG hb hne
      obtain ⟨-, rfl⟩ := EStateM.Result.ok.inj (hok.symm.trans hp)
      exact hsound
    · obtain ⟨hone, hnil⟩ := not_or.mp hne
      rw [not_not] at hnil
      subst hnil
      cases k with
      | expert n =>
        have hgroups : s.pool.numGroups = n := h.numGroups
        have hone : n ≠ 1 := hone
        have hG : 0 < n := hG
        exact absurd hp (processBatch_nil_ne_ok (by omega) hb.rows.symm)
      | attention => exact absurd rfl hone
  | @getBatchFromLayer p b layerId hp =>
    obtain ⟨b', p', hok, hsound⟩ := h.get layerId
    obtain ⟨rfl, rfl⟩ := EStateM.Result.ok.inj (hok.symm.trans hp)
    exact hsound

theorem Run.sound (hG : 0 < k.numGroups) (h : Run k layerIds s) : Sound k layerIds s := by
  refine h.invariant (fun s hs => ?_) fun s s' hsound hs => hsound.step hG hs
  rw [hs]
  exact sound_start k layerIds

/-- Three tokens of layer 5, two of them for expert 4. -/
def threeTokens : BatchMetadata ℚ where
  batchTag := .expert
  shape := (3, 1)
  dtype := "bf16"
  layerId := 5
  reqIds := [0, 1, 2]
  expIds := [4, 4, 7]
  topkWeights := [1, 1, 1]
  attnDpRanks := [0, 0, 0]
  initPrefillLens := [-1, 3, -1]

end PoolLedger

end StreamInfer.Pool
