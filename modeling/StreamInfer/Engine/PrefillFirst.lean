import StreamInfer.Engine.Dispatcher
import StreamInfer.Engine.ExpertEpilogue
import StreamInfer.Kv.BlockManager
import StreamInfer.Pool.Serving

/-! Attention batches have their first tokens in front. The pool never sorts what
it gets: the order comes from the expert device, which sorts by rank and then
first tokens before later ones, and from the cut by rank. A threshold cut keeps
it, a merge takes the fronts of all batches before the rests, and packing sorts
on its own. The block manager, which allocates for a prefix of the batch, so
allocates for the new requests. -/

namespace StreamInfer.Engine

open General Batch BatchMetadata Pool Pool.Serving Pool.UnifiedPool Kv Relation

variable {W R : Type}

/-- First tokens in front, and counts that say how many. -/
structure PrefillFirst (m : BatchMetadata W) : Prop where
  seqs : m.numPrefillSeqs = m.numPrefillTokens
  counts : ∃ k d, m.numPrefillTokens = some k ∧ m.numDecodeTokens = some d ∧
    k + d = m.numTokens ∧ (∀ l ∈ m.initPrefillLens.take k, l ≠ -1) ∧
    ∀ l ∈ m.initPrefillLens.drop k, l = -1
  reqIds : m.reqIds.length = m.numTokens
  initPrefillLens : m.initPrefillLens.length = m.numTokens

/-- The new requests of a batch with their prefill lengths. -/
def newRequests (m : BatchMetadata W) : List (ℤ × ℤ) :=
  (m.reqIds.zip m.initPrefillLens).filter fun p => p.2 ≠ -1

theorem prefillFirst_of_frontFirst {b : TokenBatch W R} {xs : List (TokenMetadata W × R)}
    (h : CarriesAttention b xs) (hf : FrontFirst isFirstEntry xs) : PrefillFirst b.metadata where
  seqs := by rw [h.counted.numPrefillSeqs, h.counted.numPrefillTokens]
  counts := by
    have hlens : b.metadata.initPrefillLens = xs.map fun x => x.1.initPrefillLen := by
      rw [h.lists.initPrefillLens, List.map_map]
      rfl
    refine ⟨_, _, h.counted.numPrefillTokens, h.counted.numDecodeTokens, ?_, ?_, ?_⟩
    · have hle : (xs.map Prod.fst).countP TokenMetadata.isFirst ≤ (xs.map Prod.fst).length :=
        List.countP_le_length
      rw [h.lists.numTokens]
      omega
    · rw [Carries.countP_isFirst, hlens, ← List.map_take, List.forall_mem_map]
      intro x hx
      simpa [isFirstEntry, TokenMetadata.isFirst] using hf.split.1 x hx
    · rw [Carries.countP_isFirst, hlens, ← List.map_drop, List.forall_mem_map]
      intro x hx
      simpa [isFirstEntry, TokenMetadata.isFirst] using hf.split.2 x hx
  reqIds := by rw [h.lists.reqIds, List.length_map, h.lists.numTokens]
  initPrefillLens := by rw [h.lists.initPrefillLens, List.length_map, h.lists.numTokens]

/-- The prefix that the block manager allocates for holds the new requests. -/
theorem PrefillFirst.updateBlockTable_eq {m : BatchMetadata W} (h : PrefillFirst m)
    {contextLens : List ℤ} (hc : contextLens.length = m.numTokens) :
    BlockManager.updateBlockTable m contextLens =
      (do BlockManager.allocateAll (newRequests m)
          BlockManager.appendAll (m.reqIds.zip contextLens)) := by
  obtain ⟨k, d, hk, hd, hsum, hfirst, hrest⟩ := h.counts
  rw [BlockManager.updateBlockTable_eq hk hd h.reqIds h.initPrefillLens hc (by omega)]
  congr 2
  have hsnd : (m.reqIds.zip m.initPrefillLens).map Prod.snd = m.initPrefillLens :=
    List.map_snd_zip (by rw [h.reqIds, h.initPrefillLens])
  rw [newRequests, ← List.take_append_drop k (m.reqIds.zip m.initPrefillLens), List.filter_append,
    List.filter_eq_self.mpr, List.filter_eq_nil_iff.mpr, List.append_nil,
    List.take_append_drop]
  · intro p hp
    have hmem := List.mem_map_of_mem (f := Prod.snd) hp
    rw [List.map_drop, hsnd] at hmem
    simp [hrest _ hmem]
  · intro p hp
    have hmem := List.mem_map_of_mem (f := Prod.snd) hp
    rw [List.map_take, hsnd] at hmem
    simpa using hfirst _ hmem

/-! ### What arrives -/

theorem frontFirst_cut (xs : List (TokenMetadata W × R)) (n : ℕ) (h : FrontFirst isFirstEntry xs) :
    FrontFirst isFirstEntry (xs.take n) ∧ FrontFirst isFirstEntry (xs.drop n) :=
  ⟨h.sublist (List.take_sublist _ _), h.sublist (List.drop_sublist _ _)⟩

theorem frontFirst_of_lens {b : TokenBatch W R} {xs : List (TokenMetadata W × R)} {v : View}
    (h : Carries v b xs) (hl : b.metadata.initPrefillLens.length ≤ 1 ∨
      ∀ l ∈ b.metadata.initPrefillLens, l = -1) : FrontFirst isFirstEntry xs := by
  rw [h.lists.initPrefillLens, List.map_map] at hl
  rcases hl with hl | hl
  · match xs, hl with
    | [], _ => exact .nil
    | [x], _ => exact List.pairwise_singleton _ _
  · refine List.pairwise_of_forall_mem_list fun a _ b hb hfirst => ?_
    have hlen := hl _ (List.mem_map_of_mem hb)
    simp [isFirstEntry, TokenMetadata.isFirst] at hfirst hlen
    exact absurd hlen hfirst

section Arrivals

variable [Zero W]

/-- New requests come one at a time, continued ones decode, and expert devices send
sorted batches cut by rank. -/
inductive Received (S : ComparatorSort) (tensor : List R) (metaC : BatchMetadata W) : Prop
  | request (htag : metaC.batchTag = .tokenizer) (hlayer : metaC.layerId = 0)
      (hd : tensor.length = metaC.numTokens) (ha : metaC.Aligned .attention) (len : ℤ)
      (hlens : metaC.initPrefillLens = [len]) (hlen : 1 ≤ len)
  | continuation (htag : metaC.batchTag = .tokenizer) (hlayer : metaC.layerId = 0)
      (hd : tensor.length = metaC.numTokens) (ha : metaC.Aligned .attention)
      (hlens : ∀ l ∈ metaC.initPrefillLens, l = -1)
  | returned (useGdrcopyOptimization : Bool) (scale : W → R → R) (m : BatchMetadata W)
      (hiddens : List R) (out : TokenBatch W R) (d : UnifiedDispatcher)
      (sent : List (ℤ × TokenBatch W R)) (channel : ℤ) (htag : m.batchTag = .expert)
      (ha : m.Aligned .routing) (hlens : ∀ l ∈ m.initPrefillLens, PrefillLen l)
      (hd : hiddens.length = m.numTokens)
      (hout : executeBatchExpert useGdrcopyOptimization S scale m hiddens = .ok out)
      (hsent : d.sendToAttnOnce out = .ok sent) (hmem : (channel, ⟨tensor, metaC⟩) ∈ sent)
  | routed (htag : metaC.batchTag = .attention) (hd : tensor.length = metaC.numTokens)
      (ha : metaC.Aligned .routing) (hid : ∀ e ∈ metaC.expIds, e < maxNumExperts)

theorem frontFirst_arrange (layerId : ℕ) (xss : List (List (TokenMetadata W × R)))
    (h : ∀ xs ∈ xss, FrontFirst isFirstEntry xs) :
    FrontFirst isFirstEntry ((BatchKind.attention (W := W) (R := R) layerId).arrange xss) := by
  change FrontFirst _ (BatchKind.arrangeWith _ xss)
  unfold BatchKind.arrangeWith
  split
  · exact h _ (by simp)
  · exact frontMerge_frontFirst h

/-- Attention layers hold batches with their first tokens in front. -/
def prefillKind (numAttnLayers i : ℕ) : BatchKind W R :=
  if i < numAttnLayers then
    (BatchKind.attention i).restrict (FrontFirst isFirstEntry) frontFirst_cut (frontFirst_arrange i)
  else BatchKind.expert (i - numAttnLayers)

/-- A piece of a sorted expert batch, with its tokens. -/
theorem Received.returned_piece {S : ComparatorSort} {useGdrcopyOptimization : Bool}
    {scale : W → R → R} {m : BatchMetadata W} {hiddens : List R} {out : TokenBatch W R}
    {d : UnifiedDispatcher} {sent : List (ℤ × TokenBatch W R)} {p : ℤ × TokenBatch W R}
    (htag : m.batchTag = .expert) (ha : m.Aligned .routing)
    (hlens : ∀ l ∈ m.initPrefillLens, PrefillLen l) (hd : hiddens.length = m.numTokens)
    (hout : executeBatchExpert useGdrcopyOptimization S scale m hiddens = .ok out)
    (hsent : d.sendToAttnOnce out = .ok sent) (hmem : p ∈ sent) :
    ∃ ys, Carries .returning p.2 ys ∧ p.2.metadata.batchTag = .expert ∧
      FrontFirst isFirstEntry ys ∧ ∀ y ∈ ys, PrefillLen y.1.initPrefillLen := by
  obtain ⟨xs, hc, hsorted, hl, htag', -⟩ := executeBatchExpert_sorted ha hd hout hlens
  obtain ⟨ys, hp⟩ := UnifiedDispatcher.sendToAttnOnce_pieces hc rfl hsent hmem
  obtain ⟨rank, hrank⟩ := hp.oneKey
  have hlen : ∀ y ∈ ys, PrefillLen y.1.initPrefillLen := fun y hy => hl y (hp.sublist.subset hy)
  refine ⟨ys, hp.carries, by rw [hp.tag, htag', htag], ?_, hlen⟩
  have hfront := TokenMetadata.frontFirst_of_before rank
    (List.forall_mem_map.mpr fun y hy => (hlen y hy).neg_one_le) (List.forall_mem_map.mpr hrank)
    (hsorted.sublist (hp.sublist.map Prod.fst))
  exact FrontFirst.map_iff.mp hfront

theorem Received.suits {S : ComparatorSort} {tensor : List R} {metaC : BatchMetadata W}
    (h : Received S tensor metaC) (p : UnifiedPool W R) :
    ∃ ys, Suits PrefillLen (prefillKind p.layerScheduler.numAttnLayers) p tensor metaC ys := by
  have hattn : ∀ {v : View} {ys : List (TokenMetadata W × R)},
      Carries v (⟨tensor, metaC⟩ : TokenBatch W R) ys → FrontFirst isFirstEntry ys →
      metaC.layerId < p.layerScheduler.numAttnLayers →
      (prefillKind p.layerScheduler.numAttnLayers metaC.layerId).Good ⟨tensor, attnMeta metaC⟩ ys := by
    intro v ys hc hf hl
    rw [prefillKind, if_pos hl]
    exact ⟨attnMeta_attentionBatch hc.toAttention, hf⟩
  cases h with
  | request htag hlayer hd ha len hlens hlen =>
    have hc := carries_entries_of_aligned (b := (⟨tensor, metaC⟩ : TokenBatch W R)) ha hd
    refine ⟨_, fun _ => hlayer, fun _ hl => hattn hc (frontFirst_of_lens hc (.inl ?_)) hl,
      fun hexp => by simp [htag] at hexp, fun hto => by simp [ToCollect, htag] at hto⟩
    simp [hlens]
  | continuation htag hlayer hd ha hlens =>
    have hc := carries_entries_of_aligned (b := (⟨tensor, metaC⟩ : TokenBatch W R)) ha hd
    exact ⟨_, fun _ => hlayer, fun _ hl => hattn hc (frontFirst_of_lens hc (.inr hlens)) hl,
      fun hexp => by simp [htag] at hexp, fun hto => by simp [ToCollect, htag] at hto⟩
  | returned useGdrcopyOptimization scale m hiddens out d sent channel htag ha hlens hd hout hsent hmem =>
    obtain ⟨ys, hc, htag', hf, hlen⟩ := returned_piece htag ha hlens hd hout hsent hmem
    dsimp only at hc htag'
    refine ⟨ys, fun htok => ?_, fun _ hl => hattn hc hf hl, fun hexp => ?_, fun _ l hl => ?_⟩
    · simp [htag'] at htok
    · simp [htag'] at hexp
    · rw [hc.lists.initPrefillLens, List.map_map] at hl
      obtain ⟨y, hy, rfl⟩ := List.mem_map.mp hl
      exact hlen y hy
  | routed htag hd ha hid =>
    have hc := carries_entries_of_aligned (b := (⟨tensor, metaC⟩ : TokenBatch W R)) ha hd
    refine ⟨(⟨tensor, metaC⟩ : TokenBatch W R).entries .routing, fun htok => by simp [htag] at htok,
      fun hto => absurd htag hto.tag_ne, fun _ => ?_, fun hto => by simp [ToCollect, htag] at hto⟩
    rw [prefillKind, if_neg (by omega), Nat.add_sub_cancel_left]
    exact expertMeta_expertBatch hc (hc.expId_lt rfl hid)

/-- Every attention batch handed to the engine has its first tokens in front, so
the block manager allocates for its new requests with their own lengths. -/
theorem prefill_first [Row R] (S : ComparatorSort) {numLayers numGroups topK : ℕ}
    {defrag : Option (ℕ × ℕ × ℚ)} (hd : ∀ d, defrag = some d → 0 ≤ d.2.2)
    {attnThreshold expertThreshold : ℤ} (ha : 1 ≤ attnThreshold) (he : 1 ≤ expertThreshold)
    {t : Serving W R} (h : ReflTransGen (Step S (Received S))
      (start numLayers numGroups topK defrag attnThreshold expertThreshold) t) {i : ℕ}
    (hi : i < numLayers + 1) (hp : t.pending = some (i : ℤ)) :
    ∃ b p', getBatchFromLayer S i t.pool = .ok (some b) p' ∧ b.metadata.batchTag = .attention ∧
      PrefillFirst b.metadata ∧ ∀ contextLens : List ℤ, contextLens.length = b.metadata.numTokens →
        BlockManager.updateBlockTable b.metadata contextLens =
          (do BlockManager.allocateAll (newRequests b.metadata)
              BlockManager.appendAll (b.metadata.reqIds.zip contextLens)) := by
  obtain ⟨hcons, hattn, -⟩ := consistent_of_run PrefillLen (prefillKind (numLayers + 1)) hd ha he (fun p tensor metaC hn hr => hn ▸ hr.suits p) h
  obtain ⟨-, b, ys, p', hok, hb, -⟩ :=
    hcons.getBatchFromLayer S hp (one_le_thresholdAt_start ha he)
  have hfront : b.metadata.batchTag = .attention ∧ CarriesAttention b ys ∧
      FrontFirst isFirstEntry ys := by
    cases hb with
    | batches hq hgood =>
      rw [prefillKind, if_pos hi] at hgood
      exact ⟨hgood.1.tag, hgood.1.toCarriesAttention, hgood.2⟩
    | packed hq htag hlayer ts hlen hs hr hcounted =>
      refine ⟨htag, hcounted, ?_⟩
      have hsorted := TokenTopKInfo.frontFirst_sort S fun t ht => (hlen t ht).neg_one_le
      have hmeta : ys.map Prod.fst = (S.sort TokenTopKInfo.before ts).map TokenTopKInfo.metadata :=
        (map_eq_of_forall₂ hs fun t x hx => hx.metadata.symm).symm
      have hfst : FrontFirst TokenMetadata.isFirst (ys.map Prod.fst) := by
        rw [hmeta]
        exact FrontFirst.map_iff.mpr hsorted
      exact FrontFirst.map_iff.mp hfst
  have hprefill := prefillFirst_of_frontFirst hfront.2.1 hfront.2.2
  exact ⟨b, p', hok, hfront.1, hprefill, fun contextLens hc => hprefill.updateBlockTable_eq hc⟩

/-- Two continued requests, and then a new one. -/
def continuedRequests : BatchMetadata ℕ where
  batchTag := .tokenizer
  shape := (2, 1)
  dtype := "bfloat16"
  layerId := 0
  reqIds := [8, 9]
  expIds := [0, 0]
  topkWeights := [1, 1]
  attnDpRanks := [0, 0]
  initPrefillLens := [-1, -1]

def newRequest : BatchMetadata ℕ where
  batchTag := .tokenizer
  shape := (1, 1)
  dtype := "bfloat16"
  layerId := 0
  reqIds := [7]
  expIds := [0]
  topkWeights := [1]
  attnDpRanks := [0]
  initPrefillLens := [5]

/-- One layer pair whose first attention layer holds the batches. -/
def withQueue (numTokens : ℕ) (batches : List (TokenBatch ℕ (List ℕ))) : UnifiedPool ℕ (List ℕ) :=
  { (start 1 1 2 none 4 4 : Serving ℕ (List ℕ)).pool with
    layerScheduler := { (LayerScheduler.new 2 1 2 none : LayerScheduler ℕ (List ℕ)) with
      layers := [⟨0, numTokens, batches, []⟩, .create 1, .create 0] } }

/-- The continued requests arrived before the new one, and their layer was picked. -/
def mixedPicked : Serving ℕ (List ℕ) where
  pool := withQueue 3 [⟨[[1], [2]], attnMeta continuedRequests⟩, ⟨[[3]], attnMeta newRequest⟩]
  pending := some 0

def metadataOf : EStateM.Result Fault (UnifiedPool ℕ (List ℕ)) (Option (TokenBatch ℕ (List ℕ))) →
    Option (BatchMetadata ℕ)
  | .ok b _ => b.map TokenBatch.metadata
  | .error _ _ => none

/-- The new request comes out in front of the two that arrived before it. -/
theorem prefill_first_mixedPicked : ∃ b p',
    getBatchFromLayer .insertion 0 mixedPicked.pool = .ok (some b) p' ∧ PrefillFirst b.metadata ∧
      b.metadata.reqIds = [7, 8, 9] ∧
      BlockManager.updateBlockTable b.metadata [5, 6, 6] =
        (do BlockManager.allocateAll [(7, 5)]
            BlockManager.appendAll [(7, 5), (8, 6), (9, 6)]) := by
  have hrequest : Received .insertion [[3]] newRequest :=
    .request rfl rfl rfl ⟨rfl, rfl, by simp [View.attention], by simp [View.attention],
      by simp [View.attention]⟩ 5 rfl (by decide)
  have hcontinued : Received .insertion [[1], [2]] continuedRequests :=
    .continuation rfl rfl rfl ⟨rfl, rfl, by simp [View.attention], by simp [View.attention],
      by simp [View.attention]⟩ (by decide)
  have hfirst : Step .insertion (Received .insertion) (start 1 1 2 none 4 4)
      ⟨withQueue 2 [⟨[[1], [2]], attnMeta continuedRequests⟩], none⟩ :=
    .receive [[1], [2]] continuedRequests hcontinued rfl rfl
  have hsecond : Step .insertion (Received .insertion)
      ⟨withQueue 2 [⟨[[1], [2]], attnMeta continuedRequests⟩], none⟩ ⟨mixedPicked.pool, none⟩ :=
    .receive [[3]] newRequest hrequest rfl rfl
  have hrun : ReflTransGen (Step .insertion (Received .insertion)) (start 1 1 2 none 4 4)
      mixedPicked :=
    ((ReflTransGen.single hfirst).tail hsecond).tail (.schedule 0 rfl rfl rfl)
  obtain ⟨b, p', hok, -, hb, hcalls⟩ := prefill_first .insertion (by simp) (by decide) (by decide)
    hrun (i := 0) (by decide) rfl
  have hok : getBatchFromLayer .insertion 0 mixedPicked.pool = .ok (some b) p' := hok
  have hmeta : metadataOf (getBatchFromLayer .insertion 0 mixedPicked.pool) = some b.metadata := by
    rw [hok]
    rfl
  have hreqIds : some [7, 8, 9] = some b.metadata.reqIds := congrArg (Option.map BatchMetadata.reqIds) hmeta
  have hlens : some [5, -1, -1] = some b.metadata.initPrefillLens :=
    congrArg (Option.map BatchMetadata.initPrefillLens) hmeta
  have hcount : some 3 = some b.metadata.numTokens := congrArg (Option.map BatchMetadata.numTokens) hmeta
  have hupdate := hcalls [5, 6, 6] (Option.some.inj hcount)
  rw [newRequests, ← Option.some.inj hreqIds, ← Option.some.inj hlens] at hupdate
  exact ⟨b, p', hok, hb, (Option.some.inj hreqIds).symm, hupdate⟩

end Arrivals

end StreamInfer.Engine
