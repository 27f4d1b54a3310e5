import StreamInfer.Batch.Mergeable
import StreamInfer.Colocated.Census
import StreamInfer.General.Holdings
import StreamInfer.Pool.FailedGets

/-! What the operations of a pool do to its tokens. A decision leaves them, a get hands the
executing batch exactly what it takes, an arrival adds what it brings; when the last copies of
tokens are collected, their copies turn into attention tokens. -/

namespace StreamInfer.Colocated

open General General.Stateful Batch BatchMetadata Pool UnifiedPool

variable {W R : Type} [Zero W]

/-! ### Layers -/

section Layers

variable {s s' : LayerScheduler W R} {c c' : Contents W R} {i : ℕ}

theorem layerTokens_batches (d : ℕ) (h : LayerScheduler.Keeps (layerKind s.numAttnLayers) s c)
    (hi : i < s.numLayers) (hq : s.layerUsesTokenQueue i = false) :
    layerTokens d s i = ((c.batches i).map (entryToken d s.numAttnLayers i) : List Token) := by
  obtain ⟨l, hl, -, hholds⟩ := h.holds hi hq
  have hnone : s.queuedTokens i = [] := by
    rw [LayerScheduler.queuedTokens, hl]
    exact hholds.noTokens
  rw [layerTokens, (h.queuedEntries_eq hi hq).1, hnone, List.map_nil, Multiset.coe_nil, add_zero]

theorem layerTokens_tokens (d : ℕ) (h : LayerScheduler.Keeps (layerKind s.numAttnLayers) s c)
    (hi : i < s.numLayers) (hq : s.layerUsesTokenQueue i = true) :
    layerTokens d s i = ((c.tokens i).map fun t => attentionToken d i t.seqId : List Token) := by
  obtain ⟨l, hl, -, hholds⟩ := h.holdsTokens hi hq
  have hnone : s.queuedEntries i = [] := by
    rw [LayerScheduler.queuedEntries, LayerScheduler.queuedBatches, hl]
    simp [hholds.noBatches]
  rw [layerTokens, hnone, (h.queuedTokens_eq hi hq).1, List.map_nil, Multiset.coe_nil, zero_add]

/-- The tokens of a layer are told by its contents. -/
theorem layerTokens_congr (d : ℕ) (h : LayerScheduler.Keeps (layerKind s.numAttnLayers) s c)
    (h' : LayerScheduler.Keeps (layerKind s.numAttnLayers) s' c')
    (hshape : LayerScheduler.SameShape s s') (hi : i < s.numLayers)
    (hb : c'.batches i = c.batches i) (ht : c'.tokens i = c.tokens i) :
    layerTokens d s' i = layerTokens d s i := by
  have hi' : i < s'.numLayers := by rwa [hshape.numLayers]
  rw [← hshape.numAttnLayers] at h'
  cases hq : s.layerUsesTokenQueue i with
  | false =>
    rw [layerTokens_batches d h hi hq, layerTokens_batches d h' hi' (by rw [hshape.layerUsesTokenQueue, hq]),
      hshape.numAttnLayers, hb]
  | true =>
    rw [layerTokens_tokens d h hi hq, layerTokens_tokens d h' hi' (by rw [hshape.layerUsesTokenQueue, hq]),
      ht]

/-- A change of the tokens of one layer. -/
theorem exchange_layer (d : ℕ) {taken put : Multiset Token}
    (h : LayerScheduler.Keeps (layerKind s.numAttnLayers) s c)
    (h' : LayerScheduler.Keeps (layerKind s.numAttnLayers) s' c')
    (hshape : LayerScheduler.SameShape s s') (hi : i < s.numLayers)
    (hb : ∀ j ≠ i, c'.batches j = c.batches j) (ht : ∀ j ≠ i, c'.tokens j = c.tokens j)
    (hx : Exchange taken put (layerTokens d s i) (layerTokens d s' i)) :
    Exchange taken put (∑ j ∈ Finset.range s.numLayers, layerTokens d s j)
      (∑ j ∈ Finset.range s'.numLayers, layerTokens d s' j) := by
  rw [hshape.numLayers]
  exact hx.sum_range hi fun j hj hji => layerTokens_congr d h h' hshape hj (hb j hji) (ht j hji)

/-- Other entries of a layer of batches. -/
theorem exchange_batches (d : ℕ) {xs : List (TokenMetadata W × R)} {taken put : Multiset Token}
    (h : LayerScheduler.Keeps (layerKind s.numAttnLayers) s c)
    (h' : LayerScheduler.Keeps (layerKind s.numAttnLayers) s' (c.setBatches i xs))
    (hshape : LayerScheduler.SameShape s s') (hi : i < s.numLayers)
    (hq : s.layerUsesTokenQueue i = false)
    (hx : Exchange taken put ((c.batches i).map (entryToken d s.numAttnLayers i) : List Token)
      (xs.map (entryToken d s.numAttnLayers i) : List Token)) :
    Exchange taken put (∑ j ∈ Finset.range s.numLayers, layerTokens d s j)
      (∑ j ∈ Finset.range s'.numLayers, layerTokens d s' j) := by
  refine exchange_layer d h h' hshape hi (fun j hj => Contents.setBatches_of_ne _ hj _)
    (fun j _ => rfl) ?_
  have hq' : s'.layerUsesTokenQueue i = false := by rw [hshape.layerUsesTokenQueue, hq]
  rw [← hshape.numAttnLayers] at h'
  rw [layerTokens_batches d h hi hq, layerTokens_batches d h' (by rwa [hshape.numLayers]) hq',
    Contents.setBatches_self, hshape.numAttnLayers]
  exact hx

/-- Other tokens of a layer of tokens. -/
theorem exchange_tokens (d : ℕ) {ts : List (TokenTopKInfo R)} {taken put : Multiset Token}
    (h : LayerScheduler.Keeps (layerKind s.numAttnLayers) s c)
    (h' : LayerScheduler.Keeps (layerKind s.numAttnLayers) s' (c.setTokens i ts))
    (hshape : LayerScheduler.SameShape s s') (hi : i < s.numLayers)
    (hq : s.layerUsesTokenQueue i = true)
    (hx : Exchange taken put ((c.tokens i).map fun t => attentionToken d i t.seqId : List Token)
      (ts.map fun t => attentionToken d i t.seqId : List Token)) :
    Exchange taken put (∑ j ∈ Finset.range s.numLayers, layerTokens d s j)
      (∑ j ∈ Finset.range s'.numLayers, layerTokens d s' j) := by
  refine exchange_layer d h h' hshape hi (fun j _ => rfl)
    (fun j hj => Contents.setTokens_of_ne _ hj _) ?_
  have hq' : s'.layerUsesTokenQueue i = true := by rw [hshape.layerUsesTokenQueue, hq]
  rw [← hshape.numAttnLayers] at h'
  rw [layerTokens_tokens d h hi hq, layerTokens_tokens d h' (by rwa [hshape.numLayers]) hq',
    Contents.setTokens_self]
  exact hx

/-- The front of a list is taken, up to its order. -/
theorem exchange_take {α β : Type} (f : α → β) (xs : List α) (n : ℕ) {ys : List β}
    (h : ys.Perm ((xs.take n).map f)) :
    Exchange (ys : Multiset β) 0 (xs.map f : List β) ((xs.drop n).map f : List β) := by
  refine ⟨((xs.drop n).map f : List β), ?_, (zero_add _).symm⟩
  rw [Multiset.coe_eq_coe.mpr h, Multiset.coe_add, ← List.map_append, List.take_append_drop]

theorem exchange_append {α β : Type} (f : α → β) (xs ys : List α) :
    Exchange 0 (ys.map f : Multiset β) (xs.map f : List β) ((xs ++ ys).map f : List β) := by
  refine ⟨(xs.map f : List β), (zero_add _).symm, ?_⟩
  rw [List.map_append, ← Multiset.coe_add, add_comm]

end Layers

/-! ### Decisions -/

variable {cfg : Config} {p p' : UnifiedPool W R}

omit [Zero W] in
/-- A decision changes at most the history that it scores with. -/
theorem onScheduler_schedule {id : ℤ} (hok : onScheduler LayerScheduler.schedule p = .ok id p') :
    ∃ defrag, p' = { p with layerScheduler := { p.layerScheduler with defrag } } := by
  obtain ⟨s', hs, rfl⟩ := onScheduler_ok_iff.mp hok
  suffices h : ∃ defrag, s' = { p.layerScheduler with defrag } by
    obtain ⟨defrag, rfl⟩ := h
    exact ⟨defrag, rfl⟩
  rw [LayerScheduler.schedule, get_bind] at hs
  cases hdefrag : p.layerScheduler.defrag with
  | none =>
    simp only [hdefrag] at hs
    obtain ⟨-, rfl⟩ := pure_ok_iff.mp hs
    exact ⟨none, by rw [← hdefrag]⟩
  | some defrag =>
    simp only [hdefrag] at hs
    split_ifs at hs
    · obtain ⟨-, rfl⟩ := pure_ok_iff.mp hs
      exact ⟨some defrag, by rw [← hdefrag]⟩
    · cases hs
      exact ⟨_, rfl⟩

theorem PoolSound.schedule (h : PoolSound cfg p) {id : ℤ}
    (hok : onScheduler LayerScheduler.schedule p = .ok id p') :
    PoolSound cfg p' ∧ ∀ d, poolTokens d p' = poolTokens d p := by
  obtain ⟨defrag, rfl⟩ := onScheduler_schedule hok
  obtain ⟨c, hk⟩ := h.keeps
  refine ⟨⟨h.topK, h.attnLayers, h.expertLayers, h.wired.ofScheduler ⟨rfl, rfl, rfl, rfl⟩, h.rows,
    c, ?_⟩,
    fun d => rfl⟩
  exact ⟨hk.length, hk.topK, hk.layer⟩

/-! ### Gets -/

/-- A batch of a layer's kind has the layer's tokens. -/
theorem executable_of_good (d : ℕ) {numLayers i : ℕ} (hi : i < 2 * numLayers + 1) {b : TokenBatch W R}
    {ys : List (TokenMetadata W × R)} (h : (layerKind (numLayers + 1) i).Good b ys) :
    Executable numLayers b ∧
      executingTokens d b = (ys.map (entryToken d (numLayers + 1) i) : List Token) := by
  obtain ⟨hb, hentries⟩ := layerKind_entries h
  unfold layerView at hb hentries
  unfold layerKind at h
  by_cases ha : i < numLayers + 1
  · rw [if_pos ha] at hb hentries h
    have htag : b.metadata.batchTag = .attention := h.1.tag
    have hlayer : b.metadata.layerId = i := h.1.layer
    refine ⟨.attention htag (by omega) (by rwa [hentries]), ?_⟩
    rw [executingTokens, if_pos (by simp [isAttention, htag]), hentries, hlayer, entryToken_attention d ha]
  · rw [if_neg ha] at hb hentries h
    have htag : b.metadata.batchTag = .expert := h.tag
    have hlayer : b.metadata.layerId = i - (numLayers + 1) := h.layer
    refine ⟨.expert htag (by omega) (by rwa [hentries]), ?_⟩
    rw [executingTokens, if_neg (by simp [isAttention, htag]), hentries, hlayer, entryToken_expert d ha]

/-- Packed tokens are attention tokens of their layer. -/
theorem executable_of_summed [Row R] (d : ℕ) {numLayers i : ℕ} (hi : i ≤ numLayers) {b : TokenBatch W R}
    (htag : b.metadata.batchTag = .attention) (hlayer : b.metadata.layerId = i)
    {ts : List (TokenTopKInfo R)} {ys : List (TokenMetadata W × R)} (hs : List.Forall₂ Summed ts ys)
    (hb : Carries .attention b ys) :
    Executable numLayers b ∧
      executingTokens d b = (ts.map fun t => attentionToken d i t.seqId : List Token) := by
  refine ⟨.attention htag (by omega) hb.carries_entries, ?_⟩
  rw [executingTokens, if_pos (by simp [isAttention, htag]), hb.entries_eq, hlayer, List.map_map]
  congr 1
  refine (map_eq_of_forall₂ hs fun t y ht => ?_).symm
  have hid : y.1.reqId = t.seqId := by
    rw [ht.metadata]
    rfl
  change _ = attentionToken d i y.1.reqId
  rw [hid]

theorem ne_nil_of_getBatchesRestricted {K : BatchKind W R} {l l' : UnifiedLayer W R}
    {xs : List (TokenMetadata W × R)} (h : l.Holds K xs) {tokenThreshold : ℤ}
    {bs : List (TokenBatch W R)}
    (hok : UnifiedLayer.getBatchesRestricted tokenThreshold l = .ok bs l') :
    xs ≠ [] ∧ 1 ≤ tokenThreshold := by
  obtain ⟨xss, hall, rfl⟩ := h.batches
  obtain ⟨bs', rest, yss, rss, htake, -, -, hyss, -⟩ :=
    UnifiedLayer.takeBatches_ok tokenThreshold hall 0 (rfl : l.batchQueue = l.batchQueue)
  rw [UnifiedLayer.getBatchesRestricted, get_bind, bind_of_ok htake] at hok
  simp only [bind_ok_iff, modify_ok_iff] at hok
  obtain ⟨⟨⟩, l₁, rfl, hok⟩ := hok
  have hpos : 0 < yss.flatten.length := by
    by_contra hnot
    rw [if_neg (fun hboth => hnot (by omega)), get_bind] at hok
    split_ifs at hok <;> exact absurd hok throw_ne_ok
  rw [hyss, List.length_take, Int.sub_zero] at hpos
  exact ⟨fun hnil => by simp [hnil] at hpos, by omega⟩

omit [Zero W] in
theorem ne_nil_of_packTopkTokens [Row R] {S : ComparatorSort} {layerId n : ℕ}
    {ts : List (TokenTopKInfo R)} {b : TokenBatch W R}
    (hok : TokenBatch.packTopkTokens S layerId (ts.take n) = .ok b) : ts ≠ [] ∧ 1 ≤ n := by
  obtain ⟨first, hfirst, -⟩ := TokenBatch.packTopkTokens_ok_iff.mp ⟨b, hok⟩
  have hpos : 0 < (ts.take n).length := by
    rw [← (S.perm TokenTopKInfo.before _).length_eq, List.length_pos_iff]
    rintro hnil
    rw [hnil] at hfirst
    cases hfirst
  rw [List.length_take] at hpos
  exact ⟨fun hnil => by simp [hnil] at hpos, by omega⟩

section Found

variable [Row R] {K : ℕ → BatchKind W R} {s s' : LayerScheduler W R} {c : Contents W R} {i : ℕ}
  {S : ComparatorSort} {tokenThreshold : ℤ} {b : Option (TokenBatch W R)}

/-- A get that succeeds found tokens. -/
theorem batches_ne_nil (h : LayerScheduler.Keeps K s c) (hi : i < s.numLayers)
    (hq : s.layerUsesTokenQueue i = false)
    (hok : LayerScheduler.getBatchFromLayerRestricted S i tokenThreshold s = .ok b s') :
    c.batches i ≠ [] ∧ 1 ≤ tokenThreshold := by
  rw [LayerScheduler.getBatchFromLayerRestricted_eq S hi hq, bind_ok_iff] at hok
  obtain ⟨bs, s₁, hget, -⟩ := hok
  obtain ⟨l, hl, -, hholds⟩ := h.holds hi hq
  simp only [LayerScheduler.onLayer, hl] at hget
  cases hbs : UnifiedLayer.getBatchesRestricted tokenThreshold l with
  | error e l' => simp [hbs] at hget
  | ok bs' l' => exact ne_nil_of_getBatchesRestricted hholds hbs

theorem tokens_ne_nil (h : LayerScheduler.Keeps K s c) (hi : i < s.numLayers)
    (hq : s.layerUsesTokenQueue i = true)
    (hok : LayerScheduler.getBatchFromLayerRestricted S i tokenThreshold s = .ok b s') :
    c.tokens i ≠ [] ∧ 1 ≤ tokenThreshold := by
  obtain ⟨l, hl, -, hholds⟩ := h.holdsTokens hi hq
  obtain ⟨l', hts, -⟩ := hholds.getTokensRestricted tokenThreshold
  rw [LayerScheduler.getBatchFromLayerRestricted, get_bind, if_neg (LayerScheduler.inRange hi), if_pos hq,
    Int.toNat_natCast, bind_of_ok (LayerScheduler.onLayer_ok hl hts), bind_ok_iff] at hok
  obtain ⟨b', s₂, hpack, -⟩ := hok
  cases hpacked : TokenBatch.packTopkTokens S i ((c.tokens i).take tokenThreshold.toNat) with
  | error e =>
    rw [hpacked] at hpack
    exact absurd hpack throw_ne_ok
  | ok b'' =>
    obtain ⟨hne, hpos⟩ := ne_nil_of_packTopkTokens hpacked
    exact ⟨hne, by omega⟩

end Found

omit [Zero W] in
theorem PoolSound.numLayers_eq [Zero W] (h : PoolSound cfg p) :
    p.layerScheduler.numLayers = 2 * cfg.model.numLayers + 1 := by
  rw [LayerScheduler.numLayers, h.attnLayers, h.expertLayers]
  omega

theorem PoolSound.ofScheduler (h : PoolSound cfg p) {s' : LayerScheduler W R} {c' : Contents W R}
    (hs : LayerScheduler.SameShape p.layerScheduler s')
    (hk : LayerScheduler.Keeps (layerKind (cfg.model.numLayers + 1)) s' c') :
    PoolSound cfg { p with layerScheduler := s' } :=
  ⟨h.topK, hs.numAttnLayers.trans h.attnLayers, hs.numExpertLayers.trans h.expertLayers,
    h.wired.ofScheduler hs, h.rows, c', hk⟩

/-- A get takes what it hands to the engine. -/
theorem PoolSound.getBatchFromLayer [Row R] (h : PoolSound cfg p) {S : ComparatorSort} {id : ℤ}
    {b : Option (TokenBatch W R)} (hok : UnifiedPool.getBatchFromLayer S id p = .ok b p') :
    PoolSound cfg p' ∧ (∀ b' ∈ b.toList, Executable cfg.model.numLayers b') ∧
      ∀ d, Exchange (b.toList.map (executingTokens d)).sum 0 (poolTokens d p) (poolTokens d p') := by
  obtain ⟨c, hk⟩ := h.keeps
  have hK : LayerScheduler.Keeps (layerKind p.layerScheduler.numAttnLayers) p.layerScheduler c := by
    rwa [h.attnLayers]
  by_cases hid : id < 0 ∨ id ≥ (p.layerScheduler.numAttnLayers + p.layerScheduler.numExpertLayers : ℕ)
  · rw [UnifiedPool.getBatchFromLayer, get_bind] at hok
    obtain ⟨s', hs, rfl⟩ := onScheduler_ok_iff.mp hok
    rw [LayerScheduler.getBatchFromLayerRestricted, get_bind, if_pos hid] at hs
    obtain ⟨rfl, rfl⟩ := pure_ok_iff.mp hs
    exact ⟨h, by simp, fun d => .refl _⟩
  obtain ⟨i, rfl⟩ := Int.eq_ofNat_of_zero_le (a := id) (by omega)
  have hi : i < p.layerScheduler.numLayers := by
    rw [LayerScheduler.numLayers]
    omega
  have hi' : i < 2 * cfg.model.numLayers + 1 := h.numLayers_eq ▸ hi
  obtain ⟨s', hs, rfl⟩ := getBatchFromLayer_ok_iff.mp hok
  cases hq : p.layerScheduler.layerUsesTokenQueue i with
  | false =>
    obtain ⟨hne, ht⟩ := batches_ne_nil hk hi hq hs
    obtain ⟨b', ys, s₁, hok', hgood, hperm, hshape, -, hkeep⟩ := hk.getBatches S hi hq hne ht
    obtain ⟨rfl, rfl⟩ : b = some b' ∧ s' = s₁ := by simpa [hs] using hok'
    refine ⟨h.ofScheduler hshape hkeep, ?_, fun d => ?_⟩
    · simpa using (executable_of_good 0 hi' hgood).1
    · refine Exchange.add_right ?_ _
      rw [Option.toList_some, List.map_singleton, List.sum_singleton, (executable_of_good d hi' hgood).2,
        ← h.attnLayers]
      rw [← h.attnLayers] at hkeep
      exact exchange_batches d hK hkeep hshape hi hq (exchange_take _ _ _ (hperm.map _))
  | true =>
    have ha : i ≤ cfg.model.numLayers := by
      rw [h.wired.layerUsesTokenQueue, decide_eq_true_iff, h.attnLayers] at hq
      omega
    obtain ⟨hne, ht⟩ := tokens_ne_nil hk hi hq hs
    obtain ⟨b', s₁, hok', htag, hlayer, ⟨ys, hsum, hr, -⟩, hshape, -, hkeep⟩ := hk.getTokens S hi hq hne ht
    obtain ⟨rfl, rfl⟩ : b = some b' ∧ s' = s₁ := by simpa [hs] using hok'
    refine ⟨h.ofScheduler hshape hkeep, ?_, fun d => ?_⟩
    · simpa using (executable_of_summed 0 ha htag hlayer hsum hr.toAttention).1
    · refine Exchange.add_right ?_ _
      rw [Option.toList_some, List.map_singleton, List.sum_singleton,
        (executable_of_summed d ha htag hlayer hsum hr.toAttention).2]
      rw [← h.attnLayers] at hkeep
      exact exchange_tokens d hK hkeep hshape hi hq (exchange_take _ _ _ ((S.perm _ _).map _))

/-! ### Collected copies -/

section Collect

variable {t : TokenTopKPool R} {d i : ℕ}

/-- Rows that wait and rows of tokens that are ready. -/
def heldTokens (d i : ℕ) (t : TokenTopKPool R) : Multiset Token :=
  collectedTokens d i t + (t.readyTokens.flatMap (rowTokens d i) : List Token)

theorem rowTokens_token (d i : ℕ) (c : TokenTopKPool.TokenCopy R) :
    rowTokens d i c.token = [collectedToken d i c.reqId] := rfl

theorem rowTokens_appendTensor (d i : ℕ) (u : TokenTopKInfo R) (row : R) :
    rowTokens d i (u.appendTensor row) = collectedToken d i u.seqId :: rowTokens d i u := by
  rw [rowTokens, TokenTopKPool.count_appendTensor, List.replicate_succ]
  rfl

/-- The entry of a request apart from the others. -/
theorem collectedTokens_lookup {r : ℤ} {u : TokenTopKInfo R} (h : t.pool.lookup r = some u) :
    collectedTokens d i t =
      (rowTokens d i u : List Token) + collectedTokens d i { t with pool := t.pool.erase r } := by
  have hperm := (entries_perm h).flatMap_right fun e => rowTokens d i e.2
  rw [collectedTokens, Multiset.coe_eq_coe.mpr hperm, List.flatMap_cons, ← Multiset.coe_add]
  rfl

theorem collectedTokens_insert (r : ℤ) (u : TokenTopKInfo R) :
    collectedTokens d i { t with pool := t.pool.insert r u } =
      (rowTokens d i u : List Token) + collectedTokens d i { t with pool := t.pool.erase r } := by
  rw [collectedTokens, AList.entries_insert, List.kerase, List.flatMap_cons, ← Multiset.coe_add]
  rfl

theorem collectedTokens_erase_of_none {r : ℤ} (h : t.pool.lookup r = none) :
    collectedTokens d i { t with pool := t.pool.erase r } = collectedTokens d i t := by
  have hnot : r ∉ t.pool := by rw [← AList.lookup_isSome, h]; simp
  have herase : t.pool.erase r = t.pool := AList.ext (List.kerase_of_notMem_keys hnot)
  rw [herase]

/-- A copy that is put is one more row. -/
theorem heldTokens_putToken {lens : ℤ → Prop} (h : t.WellFormed lens) (c : TokenTopKPool.TokenCopy R) :
    heldTokens d i (t.putToken c) = collectedToken d i c.reqId ::ₘ heldTokens d i t := by
  unfold TokenTopKPool.putToken
  cases hl : t.pool.lookup c.reqId with
  | none =>
    simp only
    rw [heldTokens, collectedTokens_insert, collectedTokens_erase_of_none hl, rowTokens_token,
      heldTokens, Multiset.coe_singleton, Multiset.singleton_add, Multiset.cons_add]
  | some u =>
    have hid : u.seqId = c.reqId := (h.keyed _ _ hl).1
    have hrows : (rowTokens d i (u.appendTensor c.row) : Multiset Token) =
        collectedToken d i c.reqId ::ₘ (rowTokens d i u : Multiset Token) := by
      rw [rowTokens_appendTensor, hid, Multiset.cons_coe]
    simp only
    split_ifs
    · rw [heldTokens, heldTokens, List.flatMap_append, List.flatMap_singleton, ← Multiset.coe_add,
        hrows, collectedTokens_lookup hl, Multiset.add_cons, Multiset.add_cons]
      congr 1
      change collectedTokens d i { t with pool := t.pool.erase c.reqId } + _ = _
      rw [add_comm (rowTokens d i u : Multiset Token), add_assoc, add_comm (rowTokens d i u : Multiset Token)]
    · rw [heldTokens, heldTokens, collectedTokens_insert, hrows, collectedTokens_lookup hl,
        Multiset.cons_add, Multiset.cons_add]

theorem heldTokens_foldl {lens : ℤ → Prop} (h : t.WellFormed lens) (hk : 1 < t.topK)
    (cs : List (TokenTopKPool.TokenCopy R)) (hcs : ∀ c ∈ cs, lens c.initPrefillLen) :
    heldTokens d i (cs.foldl TokenTopKPool.putToken t) =
      (cs.map fun c => collectedToken d i c.reqId : List Token) + heldTokens d i t := by
  induction cs generalizing t with
  | nil => exact (zero_add _).symm
  | cons c cs ih =>
    obtain ⟨hc, hcs⟩ := List.forall_mem_cons.mp hcs
    rw [List.foldl_cons, ih (h.putToken hk hc) (by rwa [TokenTopKPool.topK_putToken]) hcs,
      heldTokens_putToken h, Multiset.add_cons, List.map_cons, ← Multiset.cons_coe, Multiset.cons_add]

/-- Entries have a row. -/
theorem rows_foldl_putToken (h : ∀ r u, t.pool.lookup r = some u → 1 ≤ u.count)
    (cs : List (TokenTopKPool.TokenCopy R)) :
    ∀ r u, (cs.foldl TokenTopKPool.putToken t).pool.lookup r = some u → 1 ≤ u.count := by
  induction cs generalizing t with
  | nil => exact h
  | cons c cs ih =>
    refine ih fun r u hu => ?_
    unfold TokenTopKPool.putToken at hu
    by_cases hr : r = c.reqId
    · subst hr
      cases hl : t.pool.lookup c.reqId with
      | none =>
        simp only [hl, AList.lookup_insert, Option.some_inj] at hu
        subst hu
        exact le_rfl
      | some v =>
        simp only [hl] at hu
        split_ifs at hu
        · simp at hu
        · rw [AList.lookup_insert, Option.some_inj] at hu
          subst hu
          rw [TokenTopKPool.count_appendTensor]
          omega
    · refine h r u ?_
      cases hl : t.pool.lookup c.reqId with
      | none => simpa only [hl, AList.lookup_insert_ne hr] using hu
      | some v =>
        simp only [hl] at hu
        split_ifs at hu
        · rwa [AList.lookup_erase_ne hr] at hu
        · rwa [AList.lookup_insert_ne hr] at hu

end Collect

/-! ### Arrivals -/

section Arrivals

variable [Row R] {b : TokenBatch W R}

omit [Zero W] [Row R] in
theorem copies_reqIds {v : View} [Zero W] (hb : Carries v b (b.entries v)) :
    (TokenTopKPool.copies b).map (·.reqId) = b.metadata.reqIds := by
  rw [hb.lists.reqIds, TokenTopKPool.copies, TokenBatch.entries, List.map_map, List.map_map, List.map_map]
  rfl

omit [Row R] in
theorem map_reqIds {β : Type} {v : View} (hb : Carries v b (b.entries v)) (f : ℤ → β) :
    (b.entries v).map (fun x => f x.1.reqId) = b.metadata.reqIds.map f := by
  rw [hb.lists.reqIds, List.map_map, List.map_map]
  rfl

omit [Zero W] [Row R] in
theorem not_toCollect {metaC : BatchMetadata W} (h : ToAttention p metaC) : ¬ ToCollect p metaC := by
  rintro ⟨htag, hcollect⟩
  rcases h with htok | ⟨-, hnot⟩
  · simp [htag] at htok
  · exact hnot hcollect

/-- What arrives for an attention layer joins its queue. -/
theorem PoolSound.receive_attention (h : PoolSound cfg p) (hto : ToAttention p b.metadata)
    (hfirst : b.metadata.batchTag = .tokenizer → b.metadata.layerId = 0)
    (hb : Carries .attention b (b.entries .attention))
    (hok : UnifiedPool.processBatch b.data b.metadata p = .ok ⟨⟩ p') :
    PoolSound cfg p' ∧ ∀ d, Exchange 0
      (b.metadata.reqIds.map (attentionToken d b.metadata.layerId) : List Token)
      (poolTokens d p) (poolTokens d p') := by
  obtain ⟨c, hk⟩ := h.keeps
  have hK : LayerScheduler.Keeps (layerKind p.layerScheduler.numAttnLayers) p.layerScheduler c := by
    rwa [h.attnLayers]
  have hsuits : Suits (fun _ => True) (layerKind (cfg.model.numLayers + 1)) p b.data b.metadata
      (b.entries .attention) := by
    refine ⟨hfirst, fun _ hl => ?_, fun htag => absurd htag hto.tag_ne, fun _ _ _ => trivial⟩
    rw [layerKind, if_pos (h.attnLayers ▸ hl)]
    exact ⟨attnMeta_attentionBatch hb, masked_entries _⟩
  obtain ⟨-, hset, -, c', hkeep, harr⟩ := h.wired.processBatch hk hsuits hok
  rcases processBatch_ok hok with ⟨-, s', -, rfl⟩ | ⟨hcol, -⟩ | ⟨htag, -⟩
  · cases harr with
    | attention _ hl hc =>
      subst hc
      have hq : p.layerScheduler.layerUsesTokenQueue b.metadata.layerId = false := by
        rw [h.wired.layerUsesTokenQueue, decide_eq_false_iff_not]
        rintro ⟨htop, -, hpos⟩
        exact hto.elim (fun htok => hpos.ne' (hfirst htok)) fun hexp => hexp.2 ⟨htop, hpos⟩
      refine ⟨h.ofScheduler hset.shape hkeep, fun d => Exchange.add_right ?_ _⟩
      rw [← h.attnLayers] at hkeep
      refine exchange_batches d hK hkeep hset.shape (Nat.lt_add_right _ hl) hq ?_
      have happ := exchange_append (entryToken d p.layerScheduler.numAttnLayers b.metadata.layerId)
        (c.batches b.metadata.layerId) (b.entries .attention)
      rw [entryToken_attention d hl] at happ ⊢
      rwa [map_reqIds hb] at happ
    | expert htag _ _ => exact absurd htag hto.tag_ne
    | collect hcol _ _ _ _ => exact absurd hcol (not_toCollect hto)
  · exact absurd hcol (not_toCollect hto)
  · exact absurd htag hto.tag_ne

/-- What arrives for the experts of a layer joins its queue. -/
theorem PoolSound.receive_expert (h : PoolSound cfg p) (htag : b.metadata.batchTag = .attention)
    (hb : Carries .routing b (b.entries .routing))
    (hid : ∀ x ∈ b.entries .routing, x.1.expId < maxNumExperts)
    (hok : UnifiedPool.processBatch b.data b.metadata p = .ok ⟨⟩ p') :
    PoolSound cfg p' ∧ ∀ d, Exchange 0
      ((b.entries .routing).map (copyToken b.metadata.layerId (.expert d)) : List Token)
      (poolTokens d p) (poolTokens d p') := by
  obtain ⟨c, hk⟩ := h.keeps
  have hK : LayerScheduler.Keeps (layerKind p.layerScheduler.numAttnLayers) p.layerScheduler c := by
    rwa [h.attnLayers]
  have hsuits : Suits (fun _ => True) (layerKind (cfg.model.numLayers + 1)) p b.data b.metadata
      (b.entries .routing) := by
    refine ⟨fun htok => by simp [htag] at htok, fun hto => absurd htag hto.tag_ne, fun _ => ?_,
      fun _ _ _ => trivial⟩
    rw [layerKind, if_neg (by rw [h.attnLayers]; omega), h.attnLayers, Nat.add_sub_cancel_left]
    exact expertMeta_expertBatch hb hid
  obtain ⟨-, hset, -, c', hkeep, harr⟩ := h.wired.processBatch hk hsuits hok
  rcases processBatch_ok hok with ⟨hto, -⟩ | ⟨hcol, -⟩ | ⟨-, s', -, rfl⟩
  · exact absurd htag hto.tag_ne
  · exact absurd (hcol.1.symm.trans htag) (by simp)
  · cases harr with
    | attention hto _ _ => exact absurd htag hto.tag_ne
    | expert _ hl hc =>
      subst hc
      refine ⟨h.ofScheduler hset.shape hkeep, fun d => Exchange.add_right ?_ _⟩
      rw [← h.attnLayers] at hkeep
      refine exchange_batches d hK hkeep hset.shape (Nat.add_lt_add_left hl _)
        (LayerScheduler.layerUsesTokenQueue_expert _ _) ?_
      have happ := exchange_append
        (entryToken d p.layerScheduler.numAttnLayers
          (p.layerScheduler.numAttnLayers + b.metadata.layerId))
        (c.batches (p.layerScheduler.numAttnLayers + b.metadata.layerId)) (b.entries .routing)
      rwa [entryToken_expert d (by omega), Nat.add_sub_cancel_left] at happ ⊢
    | collect hcol _ _ _ _ => exact absurd (hcol.1.symm.trans htag) (by simp)

omit [Zero W] [Row R] in
/-- One of the pools changes. -/
theorem sum_collected_set {pools : List (TokenTopKPool R)} {i : ℕ} {t : TokenTopKPool R}
    (hi : pools[i]? = some t) (t' : TokenTopKPool R) (d : ℕ) {new ready : Multiset Token}
    (h : new + collectedTokens d i t = ready + collectedTokens d i t') :
    new + ∑ j ∈ Finset.range pools.length, (pools[j]?).elim 0 (collectedTokens d j) =
      ready + ∑ j ∈ Finset.range (pools.set i t').length,
        ((pools.set i t')[j]?).elim 0 (collectedTokens d j) := by
  have hlt : i < pools.length := (List.getElem?_eq_some_iff.mp hi).1
  have hmem : i ∈ Finset.range pools.length := Finset.mem_range.mpr hlt
  have hother : ∀ j ∈ (Finset.range pools.length).erase i,
      ((pools.set i t')[j]?).elim 0 (collectedTokens d j) = (pools[j]?).elim 0 (collectedTokens d j) := by
    intro j hj
    rw [List.getElem?_set_ne (Finset.ne_of_mem_erase hj).symm]
  rw [List.length_set, ← Finset.add_sum_erase _ _ hmem, ← Finset.add_sum_erase _ _ hmem,
    Finset.sum_congr rfl hother, List.getElem?_set_self hlt, hi, ← add_assoc, ← add_assoc]
  exact congrArg (· + _) h

/-- What arrives to be collected waits with the other copies; tokens that have all of their
copies join the queue of their layer. -/
theorem PoolSound.receive_collect (h : PoolSound cfg p) (hto : ToCollect p b.metadata)
    (hl : b.metadata.layerId ≤ cfg.model.numLayers) (hb : Carries .returning b (b.entries .returning))
    (hok : UnifiedPool.processBatch b.data b.metadata p = .ok ⟨⟩ p') :
    PoolSound cfg p' ∧ ∃ ready : List ℤ, ∀ d, Exchange
      (cfg.topK • ((ready.map (collectedToken d b.metadata.layerId) : List Token) : Multiset Token))
      (ready.map (attentionToken d b.metadata.layerId) : List Token)
      (((b.metadata.reqIds.map (collectedToken d b.metadata.layerId) : List Token) : Multiset Token) +
        poolTokens d p)
      (poolTokens d p') := by
  obtain ⟨c, hk⟩ := h.keeps
  have hK : LayerScheduler.Keeps (layerKind p.layerScheduler.numAttnLayers) p.layerScheduler c := by
    rwa [h.attnLayers]
  have hsuits : Suits (fun _ => True) (layerKind (cfg.model.numLayers + 1)) p b.data b.metadata
      (b.entries .returning) := by
    refine ⟨fun htok => by simp [hto.1] at htok, fun hatt => absurd hto (not_toCollect hatt),
      fun htag => by simp [hto.1] at htag, fun _ _ _ => trivial⟩
  obtain ⟨hwired, hset, -, c', hkeep, harr⟩ := h.wired.processBatch hk hsuits hok
  rcases processBatch_ok hok with ⟨hatt, -⟩ | ⟨-, t, hcol⟩ | ⟨htag, -⟩
  · exact absurd hto (not_toCollect hatt)
  · cases harr with
    | attention hatt _ _ => exact absurd hto (not_toCollect hatt)
    | expert htag _ _ => simp [hto.1] at htag
    | collect _ t' ht' _ hc =>
      obtain rfl : t' = t := Option.some.inj (ht'.symm.trans hcol.pool)
      subst hc
      set new := (TokenTopKPool.copies b).foldl TokenTopKPool.putToken t' with hnew
      obtain ⟨htop, hwf, hready⟩ := h.wired.pools t' (List.mem_of_getElem? ht')
      have hcount : ∀ u ∈ new.readyTokens, u.count = cfg.topK := fun u hu =>
        (((h.wired.collected hcol hto.2.1 fun _ _ => trivial).2 u hu).1).trans h.topK
      refine ⟨⟨hset.topK.trans h.topK, hset.shape.numAttnLayers.trans h.attnLayers,
        hset.shape.numExpertLayers.trans h.expertLayers, hwired, ?_, _, hkeep⟩,
        new.readyTokens.map (·.seqId), fun d => ?_⟩
      · intro u hu
        rw [hcol.pools] at hu
        rcases List.mem_or_eq_of_mem_set hu with hu | rfl
        · exact h.rows u hu
        · exact rows_foldl_putToken (h.rows t' (List.mem_of_getElem? ht')) _
      have hq : p.layerScheduler.layerUsesTokenQueue b.metadata.layerId = true := by
        rw [h.wired.layerUsesTokenQueue, decide_eq_true_iff, h.attnLayers]
        exact ⟨hto.2.1, Nat.lt_succ_of_le hl, hto.2.2⟩
      have hi : b.metadata.layerId < p.layerScheduler.numLayers := by
        rw [h.numLayers_eq]
        omega
      have hlayers : Exchange 0
          ((new.readyTokens.map (·.seqId)).map (attentionToken d b.metadata.layerId) : List Token)
          (∑ i ∈ Finset.range p.layerScheduler.numLayers, layerTokens d p.layerScheduler i)
          (∑ i ∈ Finset.range p'.layerScheduler.numLayers, layerTokens d p'.layerScheduler i) := by
        rw [← h.attnLayers] at hkeep
        refine exchange_tokens d hK hkeep hset.shape hi hq ?_
        rw [List.map_map]
        exact exchange_append _ _ _
      have hrows : ((new.readyTokens.flatMap (rowTokens d b.metadata.layerId) : List Token) :
          Multiset Token) = cfg.topK • ((new.readyTokens.map (·.seqId)).map
            (collectedToken d b.metadata.layerId) : List Token) := by
        rw [List.map_map, ← coe_flatMap_replicate]
        congr 1
        exact List.flatMap_congr fun u hu => by rw [rowTokens, hcount u hu, Function.comp_apply]
      have hheld := heldTokens_foldl (d := d) (i := b.metadata.layerId) hwf (by rw [htop]; exact hto.2.1)
        (TokenTopKPool.copies b) fun _ _ => trivial
      rw [← hnew, heldTokens, heldTokens, hready, List.flatMap_nil, Multiset.coe_nil, add_zero, add_comm,
        hrows] at hheld
      have hcopies : ((TokenTopKPool.copies b).map fun c =>
          collectedToken d b.metadata.layerId c.reqId : List Token) =
          b.metadata.reqIds.map (collectedToken d b.metadata.layerId) := by
        rw [← copies_reqIds hb, List.map_map]
        rfl
      rw [hcopies] at hheld
      have hpools := sum_collected_set ht' { new with readyTokens := [] } d hheld.symm
      rw [← hcol.pools] at hpools
      rw [poolTokens, poolTokens, add_left_comm]
      exact hlayers.move ⟨_, hpools, (zero_add _).symm⟩
  · simp [hto.1] at htag

end Arrivals

end StreamInfer.Colocated
