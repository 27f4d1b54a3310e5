import StreamInfer.Engine.Dispatcher

/-! What the dispatcher sends of a batch whose destinations are known. The pieces
are the batch in order, row by row and in every column that is present;
neighbours have different destinations, and each goes to the channel of all of
its tokens. -/

namespace StreamInfer.Engine

open General Batch BatchMetadata UnifiedDispatcher

variable {W R : Type}

/-- A row for every token, and every column empty or with an entry for every token. -/
structure WellSized (b : TokenBatch W R) : Prop where
  data : b.data.length = b.metadata.numTokens
  reqIds : b.metadata.reqIds = [] ∨ b.metadata.reqIds.length = b.metadata.numTokens
  expIds : b.metadata.expIds = [] ∨ b.metadata.expIds.length = b.metadata.numTokens
  topkWeights : b.metadata.topkWeights = [] ∨ b.metadata.topkWeights.length = b.metadata.numTokens
  attnDpRanks : b.metadata.attnDpRanks = [] ∨ b.metadata.attnDpRanks.length = b.metadata.numTokens
  initPrefillLens : b.metadata.initPrefillLens = [] ∨
    b.metadata.initPrefillLens.length = b.metadata.numTokens

/-- A column of the pieces is the column of the batch, with an entry for every token
of a piece if it is present. -/
structure Concatenates {α : Type} (column : TokenBatch W R → List α) (b : TokenBatch W R)
    (ps : List (TokenBatch W R)) : Prop where
  flatten : ps.flatMap column = column b
  sized : column b ≠ [] → ∀ p ∈ ps, (column p).length = p.metadata.numTokens

/-- The pieces are the batch, in order and without empty ones. -/
structure Cut (b : TokenBatch W R) (ps : List (TokenBatch W R)) : Prop where
  nonempty : ∀ p ∈ ps, 0 < p.metadata.numTokens
  header : ∀ p ∈ ps, p.metadata.batchTag = b.metadata.batchTag ∧
    p.metadata.layerId = b.metadata.layerId
  data : Concatenates (·.data) b ps
  reqIds : Concatenates (·.metadata.reqIds) b ps
  expIds : Concatenates (·.metadata.expIds) b ps
  topkWeights : Concatenates (·.metadata.topkWeights) b ps
  attnDpRanks : Concatenates (·.metadata.attnDpRanks) b ps
  initPrefillLens : Concatenates (·.metadata.initPrefillLens) b ps
  counts : b.metadata.isAttention = true → ∀ p ∈ ps,
    p.metadata.numPrefillSeqs = some (countPrefill p.metadata.initPrefillLens) ∧
    p.metadata.numPrefillTokens = some (countPrefill p.metadata.initPrefillLens) ∧
    p.metadata.numDecodeTokens =
      some (p.metadata.numTokens - countPrefill p.metadata.initPrefillLens)

/-- The messages are the cut batch; neighbours have different keys in the column, and
every entry of a piece has the piece's channel. -/
structure RoutedBy {κ : Type} (column : BatchMetadata W → List ℕ) (key : ℕ → κ)
    (getChannelId : ℕ → Except Fault ℤ) (b : TokenBatch W R) (sent : List (ℤ × TokenBatch W R)) :
    Prop where
  cut : Cut b (sent.map (·.2))
  adjacent : sent.IsChain fun p q =>
    ∀ x ∈ column p.2.metadata, ∀ y ∈ column q.2.metadata, key x ≠ key y
  oneKey : ∀ p ∈ sent, ∀ x ∈ column p.2.metadata, ∀ y ∈ column p.2.metadata, key x = key y
  channel : ∀ p ∈ sent, column p.2.metadata ≠ [] ∧
    ∀ x ∈ column p.2.metadata, getChannelId x = .ok p.1

/-! ### Cutting -/

theorem splitWithSizes_ok {b : TokenBatch W R} {sizes : List ℕ} (hd : sizes.sum = b.data.length) :
    ∃ ps, b.splitWithSizes sizes = .ok ps ∧ ps.map (·.data) = sizes.splitLengths b.data ∧
      ps.map (·.metadata) = b.metadata.splitWithSizes sizes := by
  have hchunks : TokenBatch.splitTensorBySize b.data sizes = .ok (sizes.splitLengths b.data) :=
    if_pos hd
  refine ⟨(sizes.splitLengths b.data).zipWith TokenBatch.mk (b.metadata.splitWithSizes sizes),
    by simp only [TokenBatch.splitWithSizes, hchunks]; rfl, ?_, ?_⟩
  · apply List.ext_getElem
    · simp [length_splitWithSizes]
    · intro i h₁ h₂
      simp
  · apply List.ext_getElem
    · simp [length_splitWithSizes]
    · intro i h₁ h₂
      simp

/-- A column cut at sizes that add up to its length. -/
theorem concatenates_of_map {α : Type} {column : TokenBatch W R → List α} {b : TokenBatch W R}
    {ps : List (TokenBatch W R)} {sizes : List ℕ}
    (hmap : ps.map column = sizes.splitLengths (column b))
    (hsizes : ps.map (·.metadata.numTokens) = sizes)
    (hlen : column b = [] ∨ (column b).length = sizes.sum) : Concatenates column b ps where
  flatten := by
    have hle : (column b).length ≤ sizes.sum := by
      rcases hlen with hnil | hlen
      · simp [hnil]
      · exact hlen.le
    rw [List.flatMap_def, hmap, List.flatten_splitLengths _ _ hle]
  sized hne := by
    have hle : sizes.sum ≤ (column b).length := (hlen.resolve_left hne).ge
    have hall : ps.map (fun p => (column p).length) = ps.map (·.metadata.numTokens) := by
      rw [hsizes, ← List.map_splitLengths_length _ _ hle, ← hmap, List.map_map]
      rfl
    exact List.map_inj_left.mp hall

theorem WellSized.splitWithSizes {b : TokenBatch W R} (h : WellSized b) {sizes : List ℕ}
    (hsum : sizes.sum = b.metadata.numTokens) (hpos : ∀ size ∈ sizes, 0 < size) :
    ∃ ps, b.splitWithSizes sizes = .ok ps ∧ Cut b ps ∧
      ps.map (·.metadata.expIds) = sizes.splitLengths b.metadata.expIds ∧
      ps.map (·.metadata.attnDpRanks) = sizes.splitLengths b.metadata.attnDpRanks := by
  obtain ⟨ps, hok, hdata, hmeta⟩ := splitWithSizes_ok (hsum.trans h.data.symm)
  obtain ⟨hreq, hexp, hweights, hranks, hlens, hsizes⟩ := splitWithSizes_columns b.metadata sizes
  rw [← hmeta, List.map_map] at hreq hexp hweights hranks hlens hsizes
  have hmem : ∀ p ∈ ps, p.metadata ∈ b.metadata.splitWithSizes sizes := fun p hp =>
    hmeta ▸ List.mem_map_of_mem hp
  refine ⟨ps, hok, ?_, hexp, hranks⟩
  exact
    { nonempty := fun p hp => hpos _ (hsizes ▸ List.mem_map_of_mem hp)
      header := fun p hp => splitWithSizes_header _ _ (hmem p hp)
      data := concatenates_of_map hdata hsizes (.inr (h.data.trans hsum.symm))
      reqIds := concatenates_of_map hreq hsizes (hsum ▸ h.reqIds)
      expIds := concatenates_of_map hexp hsizes (hsum ▸ h.expIds)
      topkWeights := concatenates_of_map hweights hsizes (hsum ▸ h.topkWeights)
      attnDpRanks := concatenates_of_map hranks hsizes (hsum ▸ h.attnDpRanks)
      initPrefillLens := concatenates_of_map hlens hsizes (hsum ▸ h.initPrefillLens)
      counts := fun ha p hp => splitWithSizes_counts _ _ ha (hmem p hp) }

/-! ### Sending -/

theorem runLengths_pos {κ : Type} [DecidableEq κ] (ks : List κ) : ∀ n ∈ runLengths ks, 0 < n := by
  have hpieces := runLengths_pieces id ks
  rw [List.map_id] at hpieces
  have hlen := List.map_splitLengths_length ks (runLengths ks) (by simp)
  intro n hn
  rw [← hlen] at hn
  obtain ⟨p, hp, rfl⟩ := List.mem_map.mp hn
  exact List.length_pos_iff.mpr (hpieces p hp).1

/-- Cutting at the runs of a column's keys and sending each piece to the channel of
its first entry. -/
theorem routedBy_of_runs (access : String) {κ : Type} [DecidableEq κ]
    {column : BatchMetadata W → List ℕ} {key : ℕ → κ} {getChannelId : ℕ → Except Fault ℤ}
    {b : TokenBatch W R}
    {ps : List (TokenBatch W R)} (hcut : Cut b ps)
    (hcolumn : ps.map (fun p => column p.metadata) =
      (runLengths ((column b.metadata).map key)).splitLengths (column b.metadata))
    (hknown : ∀ x ∈ column b.metadata, ∃ channel, getChannelId x = .ok channel)
    (hkey : ∀ x ∈ column b.metadata, ∀ y ∈ column b.metadata, key x = key y →
      getChannelId x = getChannelId y) :
    ∃ sent, ps.mapM (addressed getChannelId access column) = .ok sent ∧
      RoutedBy column key getChannelId b sent := by
  have hpiece : ∀ p ∈ ps, column p.metadata ∈
      (runLengths ((column b.metadata).map key)).splitLengths (column b.metadata) := fun p hp =>
    hcolumn ▸ List.mem_map_of_mem (f := fun p : TokenBatch W R => column p.metadata) hp
  have hsub : ∀ p ∈ ps, ∀ x ∈ column p.metadata, x ∈ column b.metadata := fun p hp x hx =>
    (sublist_of_mem_splitLengths (hpiece p hp)).subset hx
  have hruns : ∀ p ∈ ps, column p.metadata ≠ [] ∧ ∃ k, ∀ x ∈ column p.metadata, key x = k :=
    fun p hp => runLengths_pieces key _ _ (hpiece p hp)
  have hsend : ∀ p ∈ ps, ∃ s, addressed getChannelId access column p = .ok s := by
    intro p hp
    obtain ⟨x, xs, hx⟩ := List.exists_cons_of_ne_nil (hruns p hp).1
    obtain ⟨channel, hch⟩ := hknown x (hsub p hp x (by simp [hx]))
    exact ⟨(channel, p), by simp [addressed, hx, hch, bind, Except.bind, pure, Except.pure]⟩
  obtain ⟨sent, hall⟩ := exists_forall₂ hsend
  have hsnd : sent.map (·.2) = ps :=
    (map_eq_of_forall₂ (f := id) hall fun p s hs => (addressed_eq hs).1.symm).symm.trans
      (List.map_id _)
  have hmem : ∀ s ∈ sent, s.2 ∈ ps := fun s hs => hsnd ▸ List.mem_map_of_mem hs
  refine ⟨sent, mapM_eq_ok_iff.mpr hall, by rwa [hsnd], ?_, ?_, ?_⟩
  · have hchain := runLengths_adjacent key (column b.metadata)
    rw [← hcolumn, ← hsnd, List.map_map, List.isChain_map] at hchain
    exact hchain
  · intro s hs x hx y hy
    obtain ⟨k, hk⟩ := (hruns _ (hmem s hs)).2
    rw [hk x hx, hk y hy]
  · intro s hs
    obtain ⟨hne, k, hk⟩ := hruns _ (hmem s hs)
    refine ⟨hne, fun x hx => ?_⟩
    obtain ⟨i, hi, rfl⟩ := List.getElem_of_mem hs
    have hi' : i < ps.length := hall.length_eq ▸ hi
    obtain ⟨heq, first, hfirst, hch⟩ := addressed_eq (hall.get hi' hi)
    simp only [List.get_eq_getElem] at heq hfirst hch
    rw [← heq] at hfirst
    have hmemFirst := List.mem_of_head? hfirst
    rw [← hch]
    exact hkey x (hsub _ (hmem _ hs) x hx) first (hsub _ (hmem _ hs) first hmemFirst)
      ((hk x hx).trans (hk first hmemFirst).symm)

namespace UnifiedDispatcher

/-- The expert has a rank and its rank has a channel. -/
def KnownExpert (d : UnifiedDispatcher) (expertId : ℕ) : Prop :=
  ∃ rank channel : ℕ, d.expertToRank[expertId]? = some (rank : ℤ) ∧
    d.rankToChannel[rank]? = some (channel : ℤ)

def KnownRank (d : UnifiedDispatcher) (dpRank : ℕ) : Prop :=
  ∃ channel : ℕ, d.rankToChannel[dpRank]? = some (channel : ℤ)

theorem KnownExpert.expertGetChannelId {d : UnifiedDispatcher} {expertId : ℕ}
    (h : d.KnownExpert expertId) :
    d.expertGetChannelId expertId = .ok (d.channelOf expertId) := by
  obtain ⟨rank, channel, hrank, hchannel⟩ := h
  have hget : d.expertGetChannelId expertId = .ok (channel : ℤ) := by
    simp [UnifiedDispatcher.expertGetChannelId, hrank, hchannel]
  rw [channelOf, hget]
  rfl

theorem KnownRank.attnGetChannelId {d : UnifiedDispatcher} {dpRank : ℕ} (h : d.KnownRank dpRank) :
    ∃ channel, d.attnGetChannelId dpRank = .ok channel := by
  obtain ⟨channel, hchannel⟩ := h
  exact ⟨channel, by simp [UnifiedDispatcher.attnGetChannelId, hchannel]⟩

/-- A batch of either kind whose tokens all have a known destination. -/
inductive Routable (d : UnifiedDispatcher) (b : TokenBatch W R) : Prop
  | attention (htag : b.metadata.batchTag = .attention)
      (hlen : b.metadata.expIds.length = b.metadata.numTokens)
      (hknown : ∀ e ∈ b.metadata.expIds, d.KnownExpert e)
  | expert (htag : b.metadata.batchTag = .expert)
      (hlen : b.metadata.attnDpRanks.length = b.metadata.numTokens)
      (hknown : ∀ r ∈ b.metadata.attnDpRanks, d.KnownRank r)

/-- The messages of a batch: by the channels of its experts, or by its ranks. -/
def Routes (d : UnifiedDispatcher) (b : TokenBatch W R) (sent : List (ℤ × TokenBatch W R)) :
    Prop :=
  if b.metadata.isAttention then
    RoutedBy (·.expIds) d.expertGetChannelId d.expertGetChannelId b sent
  else RoutedBy (·.attnDpRanks) id d.attnGetChannelId b sent

/-- Every batch with known destinations is sent, each token to its own. -/
theorem sendOnce_routes (d : UnifiedDispatcher) {b : TokenBatch W R} (hs : WellSized b)
    (hr : d.Routable b) : ∃ sent, d.sendOnce b = .ok sent ∧ d.Routes b sent := by
  cases hr with
  | attention htag hlen hknown =>
    have ha : b.metadata.isAttention = true := by simp [isAttention, htag]
    have hchannels : b.metadata.expIds.mapM d.expertGetChannelId =
        .ok (b.metadata.expIds.map d.channelOf) := by
      rw [mapM_eq_ok_iff, List.forall₂_map_right_iff, List.forall₂_same]
      exact fun e he => (hknown e he).expertGetChannelId
    have hsum : (runLengths (b.metadata.expIds.map d.channelOf)).sum =
        b.metadata.numTokens := by
      simpa using hlen
    obtain ⟨ps, hok, hcut, hexp, -⟩ := hs.splitWithSizes hsum (runLengths_pos _)
    obtain ⟨sent, hsent, hrouted⟩ := routedBy_of_runs "exp_ids[0]" hcut hexp
      (fun e he => ⟨_, (hknown e he).expertGetChannelId⟩) (fun x hx y hy hxy => by
        rw [(hknown x hx).expertGetChannelId, (hknown y hy).expertGetChannelId, hxy])
    refine ⟨sent, ?_, ?_⟩
    · simp only [sendOnce, ha, ↓reduceIte, sendToExpertOnce, hchannels, hok, bind, Except.bind]
      exact hsent
    · rw [Routes, if_pos ha]
      exact
        { cut := hrouted.cut
          adjacent := hrouted.adjacent.imp fun p q hpq x hx y hy heq =>
            hpq x hx y hy (by rw [channelOf, heq, channelOf])
          oneKey := fun p hp x hx y hy => ((hrouted.channel p hp).2 x hx).trans
            ((hrouted.channel p hp).2 y hy).symm
          channel := hrouted.channel }
  | expert htag hlen hknown =>
    have ha : b.metadata.isAttention = false := by simp [isAttention, htag]
    have he : b.metadata.isExpert = true := by simp [isExpert, htag]
    have hsum : (runLengths (b.metadata.attnDpRanks.map id)).sum =
        b.metadata.numTokens := by
      simpa using hlen
    obtain ⟨ps, hok, hcut, -, hranks⟩ := hs.splitWithSizes hsum (runLengths_pos _)
    obtain ⟨sent, hsent, hrouted⟩ := routedBy_of_runs "attn_dp_ranks[0]" hcut hranks
      (fun r hr => (hknown r hr).attnGetChannelId) (fun x _ y _ hxy => congrArg _ hxy)
    rw [List.map_id] at hok
    refine ⟨sent, ?_, by rw [Routes, if_neg (by simp [ha])]; exact hrouted⟩
    simp only [sendOnce, ha, he, Bool.false_eq_true, ↓reduceIte, sendToAttnOnce, hok, bind,
      Except.bind]
    exact hsent

/-- Experts 0 and 2 on rank 0, expert 1 on rank 1; rank 0 behind channel 1. -/
def twoRanks : UnifiedDispatcher := ⟨[0, 1, 0], [1, 0]⟩

def fourTokens : TokenBatch ℕ ℕ where
  data := [10, 11, 12, 13]
  metadata :=
    { batchTag := .attention, shape := (4, 1), dtype := "bf16", layerId := 3
      reqIds := [4, 5, 6, 7], expIds := [0, 2, 1, 0], topkWeights := [], attnDpRanks := [0, 0, 0, 0]
      initPrefillLens := [2, -1, -1, 9] }

theorem sendOnce_routes_fourTokens :
    WellSized fourTokens ∧ twoRanks.Routable fourTokens ∧
      ∃ sent, twoRanks.sendOnce fourTokens = .ok sent ∧ twoRanks.Routes fourTokens sent := by
  have hs : WellSized fourTokens := by constructor <;> decide
  have hr : twoRanks.Routable fourTokens := by
    refine .attention rfl rfl fun e he => ?_
    simp only [fourTokens, List.mem_cons, List.not_mem_nil, or_false] at he
    rcases he with rfl | rfl | rfl | rfl
    exacts [⟨0, 1, rfl, rfl⟩, ⟨0, 1, rfl, rfl⟩, ⟨1, 0, rfl, rfl⟩, ⟨0, 1, rfl, rfl⟩]
  exact ⟨hs, hr, sendOnce_routes twoRanks hs hr⟩

end UnifiedDispatcher

end StreamInfer.Engine
