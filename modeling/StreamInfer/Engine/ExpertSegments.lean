import StreamInfer.Engine.AttentionEpilogue
import StreamInfer.Engine.Dispatcher
import StreamInfer.Engine.ExpertsExecutor
import StreamInfer.Pool.Serving

/-! Expert batches are grouped by expert. Attention devices sort by expert before
they send, the dispatcher cuts consecutive pieces, a threshold cuts again, and a
merge of several batches sorts; so a batch handed to the executor has its rows
in the order of the expert ids, whichever way it came, and the executor's two
views of it agree. -/

namespace StreamInfer.Engine

open General Batch BatchMetadata Pool Pool.Serving Pool.UnifiedPool Relation

variable {W R : Type}

/-! ### What arrives -/

/-- Rows in the order of their experts, all of them local. -/
def Grouped (localExperts : List ℕ) (xs : List (TokenMetadata W × R)) : Prop :=
  (xs.Pairwise fun x y => x.1.expId ≤ y.1.expId) ∧ ∀ x ∈ xs, x.1.expId ∈ localExperts

theorem Grouped.sublist {localExperts : List ℕ} {xs ys : List (TokenMetadata W × R)}
    (h : Grouped localExperts xs) (hs : ys.Sublist xs) : Grouped localExperts ys :=
  ⟨h.1.sublist hs, fun y hy => h.2 y (hs.subset hy)⟩

theorem grouped_cut {localExperts : List ℕ} (xs : List (TokenMetadata W × R)) (n : ℕ)
    (h : Grouped localExperts xs) :
    Grouped localExperts (xs.take n) ∧ Grouped localExperts (xs.drop n) :=
  ⟨h.sublist (List.take_sublist _ _), h.sublist (List.drop_sublist _ _)⟩

variable [Zero W]

theorem grouped_arrange {localExperts : List ℕ} (layerId : ℕ)
    (xss : List (List (TokenMetadata W × R))) (h : ∀ xs ∈ xss, Grouped localExperts xs) :
    Grouped localExperts ((BatchKind.expert (W := W) (R := R) layerId).arrange xss) := by
  change Grouped _ (BatchKind.arrangeWith _ xss)
  unfold BatchKind.arrangeWith
  split
  · exact h _ (by simp)
  · refine ⟨buckets_pairwise _ _ _, fun x hx => ?_⟩
    obtain ⟨xs, hxs, hx⟩ := List.mem_flatten.mp (mem_buckets.mp hx).1
    exact (h xs hxs).2 x hx

/-- Expert layers hold batches grouped by local expert. -/
def groupedKind (localExperts : List ℕ) (numAttnLayers i : ℕ) : BatchKind W R :=
  if i < numAttnLayers then BatchKind.attention i
  else (BatchKind.expert (i - numAttnLayers)).restrict (Grouped localExperts) grouped_cut
    (grouped_arrange (i - numAttnLayers))

/-- Attention devices send sorted batches cut by channel, whose experts are local to
this device; the other batches are bound for attention. -/
inductive Routed (localExperts : List ℕ) (tensor : List R) (metaC : BatchMetadata W) : Prop
  | attention (htag : metaC.batchTag ≠ .attention)
      (hfirst : metaC.batchTag = .tokenizer → metaC.layerId = 0)
      (hd : tensor.length = metaC.numTokens) (ha : metaC.Aligned .attention)
  | sent (topK attnDpRank : ℕ) (m : BatchMetadata W) (hiddens : List R)
      (expertIds : List (List ℕ)) (expertWeights : List (List W)) (out : TokenBatch W R)
      (d : UnifiedDispatcher) (sent : List (ℤ × TokenBatch W R)) (channel : ℤ)
      (htag : m.batchTag = .attention) (hg : GatedBatch topK m expertIds expertWeights)
      (hd : hiddens.length = m.numTokens)
      (hout : postprocessBatchAttn topK attnDpRank m hiddens expertIds expertWeights = .ok out)
      (hsent : d.sendToExpertOnce out = .ok sent) (hmem : (channel, ⟨tensor, metaC⟩) ∈ sent)
      (hlocal : ∀ g ∈ metaC.expIds, g ∈ localExperts)

theorem Routed.suits {localExperts : List ℕ} {tensor : List R} {metaC : BatchMetadata W}
    (h : Routed localExperts tensor metaC) (p : UnifiedPool W R) :
    ∃ ys, Suits (fun _ => True) (groupedKind localExperts p.layerScheduler.numAttnLayers) p tensor
      metaC ys := by
  cases h with
  | attention htag hfirst hd ha =>
    have hc := carries_entries_of_aligned (b := (⟨tensor, metaC⟩ : TokenBatch W R)) ha hd
    refine ⟨(⟨tensor, metaC⟩ : TokenBatch W R).entries .attention, hfirst, fun _ hl => ?_,
      fun hexp => absurd hexp htag, fun _ _ _ => trivial⟩
    rw [groupedKind, if_pos hl]
    exact attnMeta_attentionBatch hc
  | sent topK attnDpRank m hiddens expertIds expertWeights out d sent channel htag hg hd hout hsent
      hmem hlocal =>
    obtain ⟨xs, hc, hsorted, hbound, htag', -⟩ := postprocessBatchAttn_sorted hg hd hout
    obtain ⟨ys, hp⟩ := UnifiedDispatcher.sendToExpertOnce_pieces hc rfl hsent hmem
    have hptag : metaC.batchTag = .attention := by rw [← htag, ← htag']; exact hp.tag
    refine ⟨ys, fun htok => by simp [hptag] at htok, fun hto => absurd hptag hto.tag_ne, fun _ => ?_,
      fun _ _ _ => trivial⟩
    rw [groupedKind, if_neg (by omega), Nat.add_sub_cancel_left]
    refine ⟨expertMeta_expertBatch hp.carries fun y hy => hbound y (hp.sublist.subset hy),
      hsorted.sublist hp.sublist, fun y hy => hlocal _ ?_⟩
    have hids : metaC.expIds = (ys.map Prod.fst).map (·.expId) := hp.carries.lists.expIds rfl
    rw [hids, List.map_map]
    exact List.mem_map_of_mem hy

/-! ### Every expert batch -/

/-- Every expert batch handed to the engine is grouped by expert, and the segment of
a local expert holds exactly the rows routed to it. -/
theorem expert_segments [Row R] (S : ComparatorSort) {numLayers numGroups topK : ℕ}
    {defrag : Option (ℕ × ℕ × ℚ)} (hd : ∀ d, defrag = some d → 0 ≤ d.2.2)
    {attnThreshold expertThreshold : ℤ} (ha : 1 ≤ attnThreshold) (he : 1 ≤ expertThreshold)
    {expertCls : ExpertClass} {numExperts numExpertsPerRank rankInGroup : ℕ}
    {localExpertIds : List ℕ} {e : ExpertsExecutor}
    (hbuild : ExpertsExecutor.build expertCls numExperts numExpertsPerRank rankInGroup
      localExpertIds = .ok e) (hasc : e.localToGlobalExpertRank.Pairwise (· < ·))
    {t : Serving W R} (h : ReflTransGen (Step S (Routed e.localToGlobalExpertRank))
      (start numLayers numGroups topK defrag attnThreshold expertThreshold) t) {i : ℕ}
    (hi : numLayers + 1 ≤ i) (hp : t.pending = some (i : ℤ)) :
    ∃ b p' sizes indices, getBatchFromLayer S i t.pool = .ok (some b) p' ∧
      b.metadata.batchTag = .expert ∧ b.data.length = b.metadata.numTokens ∧
      b.metadata.expIds.Pairwise (· ≤ ·) ∧ e.Prepared b.metadata sizes indices := by
  obtain ⟨hcons, hattn, -⟩ := consistent_of_run (fun _ => True)
    (groupedKind e.localToGlobalExpertRank (numLayers + 1)) hd ha he
    (fun p tensor metaC hn hr => hn ▸ hr.suits p) h
  obtain ⟨-, b, ys, p', hok, hb, hlen, -⟩ :=
    hcons.getBatchFromLayer S hp (one_le_thresholdAt_start ha he)
  have hq : t.pool.layerScheduler.layerUsesTokenQueue i = false := by
    rw [hcons.wired.layerUsesTokenQueue, hattn, decide_eq_false_iff_not]
    omega
  cases hb with
  | packed hq' => simp [hq] at hq'
  | batches _ hgood =>
    rw [groupedKind, if_neg (by omega)] at hgood
    obtain ⟨hexpert, hsorted, hlocal⟩ := hgood
    have hids : b.metadata.expIds = ys.map fun y => y.1.expId := by
      rw [hexpert.lists.expIds rfl, List.map_map]
      rfl
    have hnum : b.metadata.numTokens = ys.length := hexpert.numTokens
    have hpairwise : b.metadata.expIds.Pairwise (· ≤ ·) := by
      rw [hids, List.pairwise_map]
      exact hsorted
    obtain ⟨sizes, indices, hprep⟩ := (ExpertsExecutor.build_ascending hbuild hasc).prepared
      (m := b.metadata) (by rw [hids, List.length_map, hnum]) (by omega) hpairwise (by
        rw [hids, List.forall_mem_map]
        exact hlocal)
    exact ⟨b, p', sizes, indices, hok, hexpert.tag, by rw [hexpert.data, List.length_map, hnum],
      hpairwise, hprep⟩

/-- Two tokens, routed to the experts 5 and 3 of one device, in one piece. -/
def routedPiece : TokenBatch ℕ (List ℕ) where
  data := [[2], [1]]
  metadata :=
    { twoRequests with
      reqIds := [8, 7]
      expIds := [3, 5]
      topkWeights := [20, 10]
      attnDpRanks := [0, 0]
      initPrefillLens := [-1, 5]
      numPrefillSeqs := some 1
      numPrefillTokens := some 1
      numDecodeTokens := some 1 }

/-- A device of four layer pairs with the piece in expert layer 3, which was picked. -/
def routedPicked : Serving ℕ (List ℕ) where
  pool :=
    { (start 4 1 1 none 4 4 : Serving ℕ (List ℕ)).pool with
      layerScheduler := { (LayerScheduler.new 5 4 1 none : LayerScheduler ℕ (List ℕ)) with
        layers := (List.range 5).map UnifiedLayer.create ++ (List.range 3).map UnifiedLayer.create ++
          [⟨3, 2, [⟨routedPiece.data, expertMeta routedPiece.metadata⟩], []⟩] } }
  pending := some 8

theorem expert_segments_routedPicked :
    ∃ b p', getBatchFromLayer .insertion 8 routedPicked.pool = .ok (some b) p' ∧
      b.metadata.expIds.Pairwise (· ≤ ·) := by
  have hreceived : Routed [3, 5] routedPiece.data routedPiece.metadata :=
    .sent 1 0 twoRequests [[1], [2]] [[5], [3]] [[10], [20]]
      ⟨[[2], [1]], { routedPiece.metadata with
        numPrefillSeqs := none, numPrefillTokens := none, numDecodeTokens := none }⟩
      ⟨List.replicate 8 0, [0]⟩ [(0, routedPiece)] 0 rfl
      (twoRequests_gated (by decide) rfl (by decide) rfl (by decide)) rfl (by decide +kernel) (by decide)
      (by simp) (by decide)
  have hreceive : Step .insertion (Routed [3, 5]) (start 4 1 1 none 4 4) ⟨routedPicked.pool, none⟩ :=
    .receive routedPiece.data routedPiece.metadata hreceived rfl rfl
  have hrun : ReflTransGen (Step .insertion (Routed [3, 5])) (start 4 1 1 none 4 4) routedPicked :=
    .tail (.single hreceive) (.schedule 8 rfl rfl rfl)
  have hbuild : ExpertsExecutor.build .cutlass 8 2 0 [3, 5] =
      .ok ⟨.cutlass, 8, [3, 5], [-1, -1, -1, 0, -1, 1, -1, -1]⟩ := rfl
  obtain ⟨b, p', -, -, hok, -, -, hsorted, -⟩ := expert_segments .insertion (by simp) (by decide)
    (by decide) hbuild (by decide) hrun (i := 8) (by decide) rfl
  exact ⟨b, p', hok, hsorted⟩

end StreamInfer.Engine
