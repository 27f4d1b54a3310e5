import StreamInfer.Batch.TokenBatch

/-! Batches as lists of tokens with their rows. `Carries v b xs` says that the
records of the metadata and the rows of the tensor are those of `xs`, index by
index. Splits cut the list and merges rearrange it, so a row never leaves its
token. -/

namespace StreamInfer.Batch

open General BatchMetadata

variable {W R : Type} {v : View}

/-- The first token of its request. -/
def isFirstEntry : TokenMetadata W × R → Bool := TokenMetadata.isFirst ∘ Prod.fst

/-- The batch holds these tokens with these rows. -/
structure Carries (v : View) (b : TokenBatch W R) (xs : List (TokenMetadata W × R)) : Prop where
  lists : b.metadata.Lists v (xs.map Prod.fst)
  data : b.data = xs.map Prod.snd

/-- An attention batch and its counts. -/
structure CarriesAttention (b : TokenBatch W R) (xs : List (TokenMetadata W × R)) : Prop
    extends Carries .attention b xs where
  counted : b.metadata.Counted (xs.map Prod.fst)

theorem exists_carries {b : TokenBatch W R} {ts : List (TokenMetadata W)}
    (h : b.metadata.Lists v ts) (hd : b.data.length = b.metadata.numTokens) :
    ∃ xs, xs.map Prod.fst = ts ∧ Carries v b xs := by
  have hl : ts.length = b.data.length := by rw [hd, h.numTokens]
  have hfst : (ts.zip b.data).map Prod.fst = ts := List.map_fst_zip hl.le
  exact ⟨ts.zip b.data, hfst, by rwa [hfst], (List.map_snd_zip hl.ge).symm⟩

namespace Carries

variable {b : TokenBatch W R} {xs : List (TokenMetadata W × R)}

theorem numTokens (h : Carries v b xs) : b.metadata.numTokens = xs.length := by
  rw [h.lists.numTokens, List.length_map]

theorem expId_lt (h : Carries v b xs) (hv : v.routed = true) {n : ℕ}
    (hid : ∀ e ∈ b.metadata.expIds, e < n) : ∀ x ∈ xs, x.1.expId < n := by
  intro x hx
  refine hid _ ?_
  rw [h.lists.expIds hv]
  exact List.mem_map_of_mem (f := fun t : TokenMetadata W => t.expId)
    (List.mem_map_of_mem (f := Prod.fst) hx)

theorem toAttention (h : Carries v b xs) : Carries .attention b xs := ⟨h.lists.toAttention, h.data⟩

theorem rowPointers_eq (h : Carries v b xs) {n : ℕ} (hn : n = xs.length) :
    b.rowPointers n = xs.map (some ∘ Prod.snd) := by
  subst hn
  apply List.ext_getElem
  · simp [TokenBatch.rowPointers]
  · intro i h₁ h₂
    have hi : i < xs.length := by simpa using h₂
    simp [TokenBatch.rowPointers, h.data, hi]

theorem countP_isFirst (xs : List (TokenMetadata W × R)) :
    (xs.map Prod.fst).countP TokenMetadata.isFirst = xs.countP isFirstEntry := List.countP_map

/-! ### Splitting -/

theorem splitWithSizes (h : Carries v b xs) {sizes : List ℕ} (hs : sizes.sum = xs.length) :
    ∃ bs, b.splitWithSizes sizes = .ok bs ∧ bs.map (·.metadata) = b.metadata.splitWithSizes sizes ∧
      List.Forall₂ (Carries v) bs (sizes.splitLengths xs) := by
  have hsum : sizes.sum ≤ (xs.map Prod.fst).length := by simp [hs]
  have hmeta := splitWithSizes_lists h.lists hsum
  have hdata : TokenBatch.splitTensorBySize b.data sizes = .ok (sizes.splitLengths b.data) :=
    if_pos (by rw [hs, h.data, List.length_map])
  refine ⟨List.zipWith TokenBatch.mk (sizes.splitLengths b.data) (b.metadata.splitWithSizes sizes),
    by simp only [TokenBatch.splitWithSizes, hdata]; rfl, ?_, ?_⟩
  · apply List.ext_getElem
    · simp [length_splitWithSizes]
    · intro i h₁ h₂
      simp
  · rw [List.forall₂_iff_get] at hmeta ⊢
    refine ⟨by simp [length_splitWithSizes], fun i h₁ h₂ => ?_⟩
    have hi : i < sizes.length := by simpa using h₂
    have hlist := hmeta.2 i (by simpa [length_splitWithSizes] using hi) (by simpa using hi)
    simp only [List.get_eq_getElem, List.getElem_zipWith, map_splitLengths,
      List.getElem_map] at hlist ⊢
    exact ⟨hlist, by simp [h.data, map_splitLengths]⟩

end Carries

theorem CarriesAttention.attentionCounts_eq {b : TokenBatch W R}
    {xs : List (TokenMetadata W × R)} (h : CarriesAttention b xs) :
    b.attentionCounts = ((front isFirstEntry xs).length, (rest isFirstEntry xs).length) := by
  have hc := h.counted
  rw [TokenBatch.attentionCounts, hc.numPrefillTokens, hc.numDecodeTokens, Carries.countP_isFirst,
    length_front, length_rest, List.length_map]
  rfl

theorem CarriesAttention.splitWithSizes {b : TokenBatch W R} {xs : List (TokenMetadata W × R)}
    (h : CarriesAttention b xs) (hb : b.metadata.isAttention = true) {sizes : List ℕ}
    (hs : sizes.sum = xs.length) :
    ∃ bs, b.splitWithSizes sizes = .ok bs ∧ bs.map (·.metadata) = b.metadata.splitWithSizes sizes ∧
      List.Forall₂ CarriesAttention bs (sizes.splitLengths xs) := by
  obtain ⟨bs, hok, hmeta, hall⟩ := h.toCarries.splitWithSizes hs
  refine ⟨bs, hok, hmeta, ?_⟩
  rw [List.forall₂_iff_zip] at hall ⊢
  refine ⟨hall.1, fun {p ys} hp => ⟨hall.2 hp, ?_⟩⟩
  have hmem : p.metadata ∈ b.metadata.splitWithSizes sizes := by
    rw [← hmeta]
    exact List.mem_map_of_mem (List.of_mem_zip hp).1
  exact (hall.2 hp).lists.counted (splitWithSizes_counts _ _ hb hmem)

/-! ### Merging -/

/-- Merged expert batches are a stable sort by expert id of their tokens. -/
theorem mergeByExpert_carries [Zero W] {batches : List (TokenBatch W R)}
    {xss : List (List (TokenMetadata W × R))} (h : List.Forall₂ (Carries .routing) batches xss)
    {first : TokenBatch W R} (hf : batches.head? = some first)
    (hid : ∀ x ∈ xss.flatten, x.1.expId < maxNumExperts) :
    ∃ b', TokenBatch.mergeByExpert batches = .ok b' ∧ b'.metadata.batchTag = .expert ∧
      b'.metadata.layerId = first.metadata.layerId ∧
      Carries .routing b' (buckets maxNumExperts (·.1.expId) xss.flatten) := by
  have hlists : List.Forall₂ (Lists .routing) (batches.map (·.metadata))
      (xss.map (List.map Prod.fst)) := by
    rw [List.forall₂_map_left_iff, List.forall₂_map_right_iff]
    exact h.imp fun b xs hb => hb.lists
  have hflat : (xss.map (List.map Prod.fst)).flatten = xss.flatten.map Prod.fst :=
    List.map_flatten.symm
  obtain ⟨m', hm, htag, hlayer, hl⟩ := mergeByExpert_lists hlists
    (by rw [List.head?_map, hf]; rfl) (by rw [hflat, List.forall_mem_map]; exact hid)
  rw [hflat, buckets_map] at hl
  rw [hflat, List.map_map] at hm
  have hptr : batches.flatMap (fun b => b.rowPointers b.metadata.numTokens) =
      xss.flatten.map (some ∘ Prod.snd) := by
    rw [flatMap_eq_of_forall₂ h fun b xs hb => hb.rowPointers_eq hb.numTokens, List.map_flatten,
      List.flatMap_def]
  have hsort : scatter none (xss.flatten.map (some ∘ Prod.snd))
      (countingPositions (xss.flatten.map fun x => x.1.expId)) =
      ((buckets maxNumExperts (fun x => x.1.expId) xss.flatten).map Prod.snd).map some := by
    rw [List.map_map]
    apply scatter_eq none
    · simpa only [List.length_map] using
        countingPositions_positions (xss.flatten.map fun x => x.1.expId)
    · rw [List.length_map, List.length_map, (buckets_perm hid).length_eq]
    · intro i hi
      rw [List.getElem?_map, List.getElem?_map, getElem?_buckets hid i hi]
  refine ⟨⟨(buckets maxNumExperts (fun x => x.1.expId) xss.flatten).map Prod.snd, m'⟩, ?_, htag,
    hlayer, hl, rfl⟩
  simp only [TokenBatch.mergeByExpert, hm, hptr, bind, Except.bind, Function.comp_def] at hsort ⊢
  rw [hsort, gatherTokens, readRows_eq_ok_iff.mpr rfl]
  rfl

/-- The destinations of fronts and rests joined batch by batch. -/
theorem map_attentionPositions {α : Type} (g : ℕ → Option α) (p d : ℕ)
    (parts : List (List α × List α))
    (hp : (List.range' p (parts.flatMap (·.1)).length).map g = (parts.flatMap (·.1)).map some)
    (hd : (List.range' d (parts.flatMap (·.2)).length).map g = (parts.flatMap (·.2)).map some) :
    (TokenBatch.attentionPositions p d (parts.map fun q => (q.1.length, q.2.length))).map g =
      (parts.flatMap fun q => q.1 ++ q.2).map some := by
  induction parts generalizing p d with
  | nil => rfl
  | cons q parts ih =>
    simp only [List.flatMap_cons, List.length_append, ← List.range'_append_1,
      List.map_append] at hp hd
    obtain ⟨hp₁, hp₂⟩ := List.append_inj hp (by simp)
    obtain ⟨hd₁, hd₂⟩ := List.append_inj hd (by simp)
    simp only [List.map_cons, TokenBatch.attentionPositions, List.map_append, List.flatMap_cons,
      hp₁, hd₁, ih _ _ hp₂ hd₂]

theorem attentionPositions_perm (p d : ℕ) (counts : List (ℕ × ℕ)) :
    (TokenBatch.attentionPositions p d counts).Perm
      (List.range' p (counts.map (·.1)).sum ++ List.range' d (counts.map (·.2)).sum) := by
  induction counts generalizing p d with
  | nil => simp [TokenBatch.attentionPositions]
  | cons c counts ih =>
    simp only [TokenBatch.attentionPositions, List.map_cons, List.sum_cons, ← List.range'_append_1]
    refine (List.Perm.append_left _ (ih _ _)).trans ?_
    rw [List.append_assoc, List.append_assoc]
    exact List.Perm.append_left _ (List.perm_append_comm_assoc _ _ _)

/-- The kernel reads the fronts of the batches and then their rests. -/
theorem scatter_attentionPositions {α : Type} (parts : List (List α × List α)) :
    scatter none ((parts.flatMap fun q => q.1 ++ q.2).map some)
      (TokenBatch.attentionPositions 0 (parts.flatMap (·.1)).length
        (parts.map fun q => (q.1.length, q.2.length))) =
      (parts.flatMap (·.1) ++ parts.flatMap (·.2)).map some := by
  have hsum : ∀ f : List α × List α → List α,
      (parts.map fun q => (f q).length).sum = (parts.flatMap f).length := by
    intro f
    rw [List.length_flatMap]
  have hlen : (parts.flatMap fun q => q.1 ++ q.2).length =
      (parts.flatMap (·.1)).length + (parts.flatMap (·.2)).length := by
    simp [List.length_flatMap, List.sum_map_add]
  have hperm := attentionPositions_perm 0 (parts.flatMap (·.1)).length
    (parts.map fun q => (q.1.length, q.2.length))
  simp only [List.map_map, Function.comp_def, hsum (·.1), hsum (·.2)] at hperm
  have hread := map_attentionPositions
    (fun j => (parts.flatMap (·.1) ++ parts.flatMap (·.2))[j]?) 0 (parts.flatMap (·.1)).length parts
    ?_ ?_
  · apply scatter_eq none
    · rw [Positions, List.length_map, hlen]
      refine hperm.trans ?_
      rw [List.range_eq_range', ← List.range'_append_1, Nat.zero_add]
    · rw [List.length_map, List.length_map, List.length_append, hlen]
    · intro i hi
      have hi' : i < (parts.flatMap fun q => q.1 ++ q.2).length := by
        rw [← List.length_map (f := some), ← hread, List.length_map]
        exact hi
      have hval := congrArg (·[i]?) hread
      simp only [List.getElem?_map, List.getElem?_eq_getElem hi, List.getElem?_eq_getElem hi',
        Option.map_some, Option.some_inj] at hval
      rw [List.getElem?_map, List.getElem?_map, hval, List.getElem?_eq_getElem hi']
  · apply List.ext_getElem
    · simp
    · intro j h₁ h₂
      have hj : j < (parts.flatMap (·.1)).length := by simpa using h₂
      simp [List.getElem?_append_left hj]
  · apply List.ext_getElem
    · simp
    · intro j h₁ h₂
      simp [List.getElem?_append_right]

/-- Merged attention batches hold all first tokens, then all others. -/
theorem mergeByAttention_carries {batches : List (TokenBatch W R)}
    {xss : List (List (TokenMetadata W × R))} (h : List.Forall₂ CarriesAttention batches xss)
    {first : TokenBatch W R} (hf : batches.head? = some first) :
    ∃ b', TokenBatch.mergeByAttention batches = .ok b' ∧ b'.metadata.batchTag = .attention ∧
      b'.metadata.layerId = first.metadata.layerId ∧
      CarriesAttention b' (frontMerge isFirstEntry xss) := by
  have hlists : List.Forall₂ (fun m ts => Lists .attention m ts ∧ Counted m ts)
      (batches.map (·.metadata)) (xss.map (List.map Prod.fst)) := by
    rw [List.forall₂_map_left_iff, List.forall₂_map_right_iff]
    exact h.imp fun b xs hb => ⟨hb.lists, hb.counted⟩
  obtain ⟨m', hm, htag, hlayer, hl, hc⟩ := mergeByAttention_lists hlists
    (by rw [List.head?_map, hf]; rfl)
  rw [frontMerge_map] at hl hc
  set parts := xss.map fun xs =>
    ((front isFirstEntry xs).map Prod.snd, (rest isFirstEntry xs).map Prod.snd) with hparts
  have hcounts : batches.map TokenBatch.attentionCounts =
      parts.map fun q => (q.1.length, q.2.length) := by
    rw [map_eq_of_forall₂ h fun b xs hb => hb.attentionCounts_eq, hparts, List.map_map]
    simp [Function.comp_def]
  have hptr : batches.flatMap (fun b => b.rowPointers (b.attentionCounts.1 + b.attentionCounts.2)) =
      (parts.flatMap fun q => q.1 ++ q.2).map some := by
    have hrow : ∀ (b : TokenBatch W R) xs, CarriesAttention b xs →
        b.rowPointers (b.attentionCounts.1 + b.attentionCounts.2) = xs.map (some ∘ Prod.snd) := by
      intro b xs hb
      refine hb.rowPointers_eq ?_
      rw [hb.attentionCounts_eq, ← List.length_append, front_append_rest]
    rw [flatMap_eq_of_forall₂ h hrow, hparts, List.flatMap_map, List.map_flatMap]
    simp only [← List.map_append, front_append_rest, List.map_map]
  have hrows : parts.flatMap (·.1) ++ parts.flatMap (·.2) =
      (frontMerge isFirstEntry xss).map Prod.snd := by
    rw [hparts, List.flatMap_map, List.flatMap_map, frontMerge, List.map_append, List.map_flatMap,
      List.map_flatMap]
  have hprefill : m'.numPrefillTokens.getD 0 = (parts.flatMap (·.1)).length := by
    rw [hc.numPrefillTokens, Option.getD_some, Carries.countP_isFirst]
    refine (countP_frontMerge isFirstEntry xss).trans ?_
    rw [hparts, List.flatMap_map, List.length_flatMap]
    simp
  have hlen : ((parts.flatMap fun q => q.1 ++ q.2).map some).length = m'.numTokens := by
    have hperm := (frontMerge_perm isFirstEntry xss).length_eq
    rw [hl.numTokens, List.length_map, List.length_map]
    refine Eq.trans ?_ hperm.symm
    rw [hparts, List.flatMap_map, List.length_flatMap, List.length_flatten]
    simp only [← List.map_append, front_append_rest, List.length_map]
  refine ⟨⟨(frontMerge isFirstEntry xss).map Prod.snd, m'⟩, ?_, htag, hlayer, ⟨hl, rfl⟩, hc⟩
  simp only [TokenBatch.mergeByAttention, hm, bind, Except.bind, hptr, hcounts, hprefill, hlen,
    ↓reduceIte, scatter_attentionPositions, hrows,
    gatherTokens, readRows_eq_ok_iff.mpr rfl]
  rfl

/-! ### Packing -/

section Packing

variable [Row R]

/-- A queued token and the token with the sum of its expert outputs. -/
structure Summed [Zero W] (t : TokenTopKInfo R) (x : TokenMetadata W × R) : Prop where
  metadata : x.1 = t.metadata
  row : sumRows t.topkTensors = .ok x.2

theorem exists_summed [Zero W] {tokens : List (TokenTopKInfo R)} (h : ∀ t ∈ tokens, 0 < t.count) :
    ∃ xs : List (TokenMetadata W × R), List.Forall₂ Summed tokens xs := by
  induction tokens with
  | nil => exact ⟨[], .nil⟩
  | cons t tokens ih =>
    obtain ⟨xs, hxs⟩ := ih fun s hs => h s (by simp [hs])
    have ht := h t (by simp)
    rcases htt : t.topkTensors with _ | ⟨first, others⟩
    · simp [TokenTopKInfo.count, htt] at ht
    · exact ⟨(t.metadata, others.foldl (fun acc src => Row.add src acc) first) :: xs,
        .cons ⟨rfl, by rw [htt]; rfl⟩ hxs⟩

/-- The kernel sums the expert outputs of each token. -/
theorem gatherAndSumTokens_ok [Zero W] {tokens : List (TokenTopKInfo R)} {topk : ℕ}
    (hc : ∀ t ∈ tokens, t.count = topk) {xs : List (TokenMetadata W × R)}
    (h : List.Forall₂ Summed tokens xs) :
    gatherAndSumTokens (TokenBatch.topkPointers tokens topk) tokens.length topk =
      .ok (xs.map Prod.snd) := by
  have hl : tokens.length = (xs.map Prod.snd).length := by rw [List.length_map, h.length_eq]
  rw [gatherAndSumTokens, hl]
  apply mapM_range_ok
  intro i hi
  have hti : i < tokens.length := by omega
  have hxi : i < xs.length := by simpa using hi
  have hcount : tokens[i].topkTensors.length = topk := hc _ (List.getElem_mem hti)
  have hsum : sumRows tokens[i].topkTensors = .ok xs[i].2 := (h.get hti hxi).row
  have hread : ((List.range topk).map fun k =>
      (TokenBatch.topkPointers tokens topk).getD (i * topk + k) none) =
      tokens[i].topkTensors.map some := by
    apply List.ext_getElem
    · simp [hcount]
    · intro k h₁ h₂
      have hk : k < topk := by simpa using h₁
      have hget := getElem?_flatMap_uniform
        (fun t : TokenTopKInfo R => (List.range topk).map fun k => t.topkTensors[k]?) topk tokens
        (fun t _ => by simp) (i := i) hk
      simp only [List.getElem_map, List.getElem_range, List.getD_eq_getElem?_getD,
        TokenBatch.topkPointers, hget]
      simp [hti, hk]
  rw [hread, gatherTokens, readRows_eq_ok_iff.mpr rfl]
  simpa [bind, Except.bind] using hsum

theorem packedMetadata_lists [Zero W] (layerId width : ℕ) {tokens : List (TokenTopKInfo R)}
    {xs : List (TokenMetadata W × R)} (h : List.Forall₂ Summed tokens xs) :
    Lists .returning (TokenBatch.packedMetadata layerId width tokens) (xs.map Prod.fst) ∧
      Counted (TokenBatch.packedMetadata layerId width tokens) (xs.map Prod.fst) := by
  have hts : xs.map Prod.fst = tokens.map TokenTopKInfo.metadata :=
    (map_eq_of_forall₂ h fun t x hx => hx.metadata.symm).symm
  have hcount : (xs.map Prod.fst).countP TokenMetadata.isFirst =
      tokens.countP (·.initPrefillLen ≠ -1) := by
    rw [hts, List.countP_map]
    rfl
  refine ⟨⟨by simp [hts, TokenBatch.packedMetadata, BatchMetadata.numTokens], by simp [hts]; rfl,
    by simp [hts]; rfl, fun _ => by simp [hts]; rfl, by simp [View.returning],
    by simp [View.returning]⟩, ?_⟩
  refine ⟨congrArg some hcount.symm, congrArg some hcount.symm, congrArg some ?_⟩
  rw [hcount, hts, List.length_map,
    List.length_eq_countP_add_countP (l := tokens) (·.initPrefillLen = -1)]
  simp

/-- Packed tokens keep their request, prefill length and rank; their row is the
sum of their expert outputs. -/
theorem packTopkTokens_carries [Zero W] (S : ComparatorSort) (layerId : ℕ)
    {tokens : List (TokenTopKInfo R)} (hne : tokens ≠ []) {topk : ℕ} (hk : 0 < topk)
    (hc : ∀ t ∈ tokens, t.count = topk) :
    ∃ b' : TokenBatch W R, TokenBatch.packTopkTokens S layerId tokens = .ok b' ∧
      b'.metadata.batchTag = .attention ∧ b'.metadata.layerId = layerId ∧
      ∃ xs, List.Forall₂ Summed (S.sort TokenTopKInfo.before tokens) xs ∧
        Carries .returning b' xs ∧ CarriesAttention b' xs := by
  have hperm := S.perm TokenTopKInfo.before tokens
  generalize hsort : S.sort TokenTopKInfo.before tokens = sorted at hperm
  have hcs : ∀ t ∈ sorted, t.count = topk := fun t ht => hc t (hperm.mem_iff.mp ht)
  obtain ⟨xs, hxs⟩ := exists_summed (W := W) fun t ht => by rw [hcs t ht]; exact hk
  obtain ⟨first, others, rfl⟩ : ∃ first others, sorted = first :: others := by
    cases sorted with
    | nil => exact absurd hperm.symm.eq_nil hne
    | cons first others => exact ⟨first, others, rfl⟩
  have hfirst : first.count = topk := hcs first (by simp)
  obtain ⟨tensor, tensors, htensor⟩ : ∃ tensor tensors, first.topkTensors = tensor :: tensors := by
    cases htt : first.topkTensors with
    | nil => simp [TokenTopKInfo.count, htt] at hfirst; omega
    | cons tensor tensors => exact ⟨tensor, tensors, rfl⟩
  have hsum := gatherAndSumTokens_ok hcs hxs
  rw [← hfirst] at hsum
  obtain ⟨hlists, hcounted⟩ := packedMetadata_lists layerId (Row.size tensor) hxs
  have hcarries : Carries .returning (⟨xs.map Prod.snd,
      TokenBatch.packedMetadata layerId (Row.size tensor) (first :: others)⟩ : TokenBatch W R) xs :=
    ⟨hlists, rfl⟩
  refine ⟨_, ?_, rfl, rfl, xs, hxs, hcarries, hcarries.toAttention, hcounted⟩
  simp only [TokenBatch.packTopkTokens, hsort, TokenBatch.packMetadata, htensor, hsum, bind,
    Except.bind]
  exact if_pos rfl

end Packing

end StreamInfer.Batch
