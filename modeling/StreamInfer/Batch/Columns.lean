import StreamInfer.Batch.ExpertSort
import StreamInfer.General.FrontFirst

/-! Batches as lists of token records. `Lists v m ts` says that the columns of
`m` that the view `v` looks at are the fields of the records `ts`, in order.
Every operation on the columns is then one operation on the records: a
permutation, a stable sort, a split or a concatenation. -/

namespace StreamInfer.Batch

open General

variable {W : Type}

/-- One token of a batch. -/
structure TokenMetadata (W : Type) where
  reqId : ℤ
  expId : ℕ
  attnDpRank : ℕ
  initPrefillLen : ℤ
  topkWeight : W
  deriving DecidableEq, Repr

namespace TokenMetadata

instance [Zero W] : Inhabited (TokenMetadata W) := ⟨⟨0, 0, 0, 0, 0⟩⟩

/-- The first token of its request. -/
def isFirst (t : TokenMetadata W) : Bool := t.initPrefillLen ≠ -1

end TokenMetadata

/-- The optional columns a view looks at. Request ids and prefill lengths are
always looked at. -/
structure View where
  ranked : Bool
  routed : Bool

namespace View

/-- Tokens waiting for attention. -/
def attention : View := ⟨false, false⟩

/-- Expert outputs on their way back to attention. -/
def returning : View := ⟨true, false⟩

/-- Tokens routed to experts. -/
def routing : View := ⟨true, true⟩

end View

namespace BatchMetadata

/-- The columns seen by `v` are the fields of the records. -/
structure Lists (v : View) (m : BatchMetadata W) (ts : List (TokenMetadata W)) : Prop where
  numTokens : m.numTokens = ts.length
  reqIds : m.reqIds = ts.map (·.reqId)
  initPrefillLens : m.initPrefillLens = ts.map (·.initPrefillLen)
  attnDpRanks : v.ranked = true → m.attnDpRanks = ts.map (·.attnDpRank)
  expIds : v.routed = true → m.expIds = ts.map (·.expId)
  topkWeights : v.routed = true → m.topkWeights = ts.map (·.topkWeight)

/-- Tag, shape, type and layer: what the reorderings leave alone. -/
def header (m : BatchMetadata W) : BatchTag × (ℕ × ℕ) × String × ℕ :=
  (m.batchTag, m.shape, m.dtype, m.layerId)

theorem header_eq {m m' : BatchMetadata W} (h : m'.header = m.header) :
    m'.batchTag = m.batchTag ∧ m'.numTokens = m.numTokens ∧ m'.layerId = m.layerId := by
  simp only [header, Prod.mk.injEq] at h
  exact ⟨h.1, congrArg Prod.fst h.2.1, h.2.2.2⟩

variable {v : View} {m : BatchMetadata W} {ts : List (TokenMetadata W)}

namespace Lists

/-- A view that looks at fewer columns. -/
theorem weaken {v' : View} (h : Lists v m ts) (hr : v'.ranked = true → v.ranked = true)
    (he : v'.routed = true → v.routed = true) : Lists v' m ts :=
  ⟨h.numTokens, h.reqIds, h.initPrefillLens, fun x => h.attnDpRanks (hr x),
    fun x => h.expIds (he x), fun x => h.topkWeights (he x)⟩

theorem toAttention (h : Lists v m ts) : Lists .attention m ts :=
  h.weaken (by simp [View.attention]) (by simp [View.attention])

/-- The counts and the tag are not columns. -/
theorem congr {m' : BatchMetadata W} (h : Lists v m ts) (hn : m'.numTokens = m.numTokens)
    (hq : m'.reqIds = m.reqIds) (hp : m'.initPrefillLens = m.initPrefillLens)
    (hd : m'.attnDpRanks = m.attnDpRanks) (he : m'.expIds = m.expIds)
    (hw : m'.topkWeights = m.topkWeights) : Lists v m' ts :=
  ⟨hn.trans h.numTokens, hq.trans h.reqIds, hp.trans h.initPrefillLens,
    fun x => hd.trans (h.attnDpRanks x), fun x => he.trans (h.expIds x),
    fun x => hw.trans (h.topkWeights x)⟩

/-- All tokens of one rank. -/
theorem withRank (h : Lists v m ts) (rank : ℕ) :
    Lists ⟨true, v.routed⟩ { m with attnDpRanks := List.replicate ts.length rank }
      (ts.map fun t => { t with attnDpRank := rank }) where
  numTokens := h.numTokens.trans (List.length_map _).symm
  reqIds := by rw [List.map_map]; exact h.reqIds
  initPrefillLens := by rw [List.map_map]; exact h.initPrefillLens
  attnDpRanks _ := by rw [List.map_map]; simp [Function.comp_def]
  expIds x := by rw [List.map_map]; exact h.expIds x
  topkWeights x := by rw [List.map_map]; exact h.topkWeights x

theorem length_reqIds (h : Lists v m ts) : m.reqIds.length = ts.length := by simp [h.reqIds]

end Lists

/-- The columns seen by `v` have one entry for each token. -/
structure Aligned (v : View) (m : BatchMetadata W) : Prop where
  reqIds : m.reqIds.length = m.numTokens
  initPrefillLens : m.initPrefillLens.length = m.numTokens
  attnDpRanks : v.ranked = true → m.attnDpRanks.length = m.numTokens
  expIds : v.routed = true → m.expIds.length = m.numTokens
  topkWeights : v.routed = true → m.topkWeights.length = m.numTokens

theorem Lists.aligned (h : Lists v m ts) : Aligned v m :=
  ⟨by simp [h.reqIds, h.numTokens], by simp [h.initPrefillLens, h.numTokens],
    fun x => by simp [h.attnDpRanks x, h.numTokens], fun x => by simp [h.expIds x, h.numTokens],
    fun x => by simp [h.topkWeights x, h.numTokens]⟩

/-- Aligned columns hold records. -/
theorem Aligned.exists_lists [Zero W] (h : Aligned v m) :
    ∃ ts : List (TokenMetadata W), Lists v m ts := by
  let record (i : ℕ) : TokenMetadata W :=
    ⟨m.reqIds.getD i 0, m.expIds.getD i 0, m.attnDpRanks.getD i 0,
      m.initPrefillLens.getD i 0, m.topkWeights.getD i 0⟩
  have hcol : ∀ {α : Type} (d : α) (col : List α), col.length = m.numTokens →
      col = (List.range m.numTokens).map (fun i => col.getD i d) := by
    intro α d col hl
    rw [← hl]
    exact (gather_range d col).symm
  refine ⟨(List.range m.numTokens).map record, by simp, ?_, ?_, ?_, ?_, ?_⟩
  · simpa [record, Function.comp_def] using hcol 0 m.reqIds h.reqIds
  · simpa [record, Function.comp_def] using hcol 0 m.initPrefillLens h.initPrefillLens
  · intro x; simpa [record, Function.comp_def] using hcol 0 m.attnDpRanks (h.attnDpRanks x)
  · intro x; simpa [record, Function.comp_def] using hcol 0 m.expIds (h.expIds x)
  · intro x; simpa [record, Function.comp_def] using hcol 0 m.topkWeights (h.topkWeights x)

/-! ### Permutations -/

section Permute

variable [Zero W]

theorem permuteVector_map {α : Type} [Zero α] (f : TokenMetadata W → α) {pos : List ℕ}
    (hp : Positions ts.length pos) :
    permuteVector (ts.map f) pos = (scatter default ts pos).map f := by
  rw [permuteVector_eq, scatter_map default 0 f hp]

theorem permuteTokenInfos_lists (h : Lists v m ts) {pos : List ℕ} (hp : Positions ts.length pos) :
    ∃ m', m.permuteTokenInfos pos = .ok m' ∧ m'.header = m.header ∧
      Lists v m' (scatter default ts pos) := by
  by_cases he : pos.isEmpty = true
  · refine ⟨m, by simp [permuteTokenInfos, he], rfl, ?_⟩
    have hts : ts = [] := by
      rw [← List.length_eq_zero_iff, ← hp.length]
      simpa using he
    subst hts
    simpa [scatter] using h
  · have hn : m.numTokens = pos.length := by rw [h.numTokens, hp.length]
    refine ⟨_, (if_neg he).trans (if_pos hn), rfl, ?_, ?_, ?_, ?_, ?_, ?_⟩
    · exact h.numTokens.trans (length_scatter _ _ _).symm
    · rw [← permuteVector_map _ hp, ← h.reqIds]
    · rw [← permuteVector_map _ hp, ← h.initPrefillLens]
    · intro x; rw [← permuteVector_map _ hp, ← h.attnDpRanks x]
    · intro x; rw [← permuteVector_map _ hp, ← h.expIds x]
    · intro x; rw [← permuteVector_map _ hp, ← h.topkWeights x]

/-- `sort_by_expert` is a stable sort by expert id. -/
theorem sortByExpert_lists (h : Lists v m ts) (hv : v.routed = true)
    (hid : ∀ t ∈ ts, t.expId < maxNumExperts) :
    ∃ m', m.sortByExpert = .ok (m', countingPositions (ts.map (·.expId))) ∧
      m'.header = m.header ∧ Lists v m' (buckets maxNumExperts (·.expId) ts) := by
  have hpos : Positions ts.length (countingPositions (ts.map (·.expId))) := by
    simpa using countingPositions_positions (ts.map (·.expId))
  obtain ⟨m', hm, hh, hl⟩ := permuteTokenInfos_lists h hpos
  rw [scatter_countingPositions default hid] at hl
  refine ⟨m', ?_, hh, hl⟩
  have hdest := expertDestinations_ok (ts.map (·.expId)) (by simpa using hid)
  rw [List.length_map] at hdest
  simp only [sortByExpert, h.expIds hv, h.numTokens, hdest, bind, Except.bind, hm]
  rfl

omit [Zero W] in
theorem attentionRank_positions (S : ComparatorSort) (h : Lists v m ts) :
    Positions ts.length (m.attentionRank S) := by
  unfold Positions attentionRank
  rw [h.length_reqIds]
  exact S.perm _ _

/-- `sort_by_attention` reads the records in the order of `attentionRank`. -/
theorem sortByAttention_lists (S : ComparatorSort) (h : Lists v m ts) :
    ∃ m', m.sortByAttention S = .ok (m', inversePositions (m.attentionRank S)) ∧
      m'.header = m.header ∧ Lists v m' (gather default ts (m.attentionRank S)) := by
  have hrank := attentionRank_positions S h
  obtain ⟨m', hm, hh, hl⟩ := permuteTokenInfos_lists h (inversePositions_positions hrank)
  rw [scatter_inversePositions default hrank] at hl
  refine ⟨m', ?_, hh, hl⟩
  simp only [sortByAttention, bind, Except.bind, hm]
  rfl

end Permute

/-! ### Splits -/

theorem map_splitLengths {α β : Type} (f : α → β) (sizes : List ℕ) (xs : List α) :
    sizes.splitLengths (xs.map f) = (sizes.splitLengths xs).map (List.map f) := by
  induction sizes generalizing xs with
  | nil => rfl
  | cons n sizes ih => simp only [List.splitLengths_cons, List.map_cons, ← List.map_take, ← List.map_drop, ih]

theorem length_splitWithSizes (m : BatchMetadata W) (sizes : List ℕ) :
    (m.splitWithSizes sizes).length = sizes.length := by
  simp [splitWithSizes]

/-- The header of every piece is the header of the batch, up to the token count. -/
theorem splitWithSizes_header (m : BatchMetadata W) (sizes : List ℕ) {p : BatchMetadata W}
    (hp : p ∈ m.splitWithSizes sizes) : p.batchTag = m.batchTag ∧ p.layerId = m.layerId := by
  simp only [splitWithSizes, List.mem_mapIdx] at hp
  obtain ⟨i, hi, rfl⟩ := hp
  split_ifs <;> exact ⟨rfl, rfl⟩

/-- Attention pieces recount their prefill and decode tokens. -/
theorem splitWithSizes_counts (m : BatchMetadata W) (sizes : List ℕ) (ha : m.isAttention = true)
    {p : BatchMetadata W} (hp : p ∈ m.splitWithSizes sizes) :
    p.numPrefillSeqs = some (countPrefill p.initPrefillLens) ∧
    p.numPrefillTokens = some (countPrefill p.initPrefillLens) ∧
    p.numDecodeTokens = some (p.numTokens - countPrefill p.initPrefillLens) := by
  simp only [splitWithSizes, List.mem_mapIdx, ha, ↓reduceIte] at hp
  obtain ⟨i, hi, rfl⟩ := hp
  exact ⟨rfl, rfl, rfl⟩

/-- The pieces hold consecutive runs of the records. -/
theorem splitWithSizes_lists (h : Lists v m ts) {sizes : List ℕ} (hs : sizes.sum ≤ ts.length) :
    List.Forall₂ (Lists v) (m.splitWithSizes sizes) (sizes.splitLengths ts) := by
  rw [List.forall₂_iff_get]
  refine ⟨by simp [length_splitWithSizes], ?_⟩
  intro i h₁ h₂
  have hi : i < sizes.length := by simpa using h₂
  have hcol : ∀ {α : Type} (f : TokenMetadata W → α),
      (splitVectorBySize (ts.map f) sizes).getD i [] = (sizes.splitLengths ts)[i].map f := by
    intro α f
    simp [splitVectorBySize_eq, map_splitLengths, List.getD_eq_getElem?_getD, hi]
  have hn : sizes[i] = (sizes.splitLengths ts)[i].length :=
    (List.splitLengths_length_getElem ts sizes hs i h₂).symm
  simp only [List.get_eq_getElem, splitWithSizes, List.getElem_mapIdx]
  split_ifs
  all_goals
    refine ⟨hn, ?_, ?_, fun x => ?_, fun x => ?_, fun x => ?_⟩
    · simp only [h.reqIds, hcol]
    · simp only [h.initPrefillLens, hcol]
    · simp only [h.attnDpRanks x, hcol]
    · simp only [h.expIds x, hcol]
    · simp only [h.topkWeights x, hcol]

/-- Every column is cut on its own. -/
theorem map_mapIdx_getD {α β : Type} {sizes : List ℕ} {cols : List (List α)}
    (hl : cols.length = sizes.length) {f : ℕ → ℕ → β} {g : β → List α}
    (hf : ∀ i size, g (f i size) = cols.getD i []) : (sizes.mapIdx f).map g = cols := by
  apply List.ext_getElem
  · simp [hl]
  · intro i h₁ h₂
    simp [hf, List.getD_eq_getElem?_getD, List.getElem?_eq_getElem h₂]

/-- The columns of the pieces, and their sizes. -/
theorem splitWithSizes_columns (m : BatchMetadata W) (sizes : List ℕ) :
    (m.splitWithSizes sizes).map (·.reqIds) = sizes.splitLengths m.reqIds ∧
    (m.splitWithSizes sizes).map (·.expIds) = sizes.splitLengths m.expIds ∧
    (m.splitWithSizes sizes).map (·.topkWeights) = sizes.splitLengths m.topkWeights ∧
    (m.splitWithSizes sizes).map (·.attnDpRanks) = sizes.splitLengths m.attnDpRanks ∧
    (m.splitWithSizes sizes).map (·.initPrefillLens) = sizes.splitLengths m.initPrefillLens ∧
    (m.splitWithSizes sizes).map (·.numTokens) = sizes := by
  refine ⟨?_, ?_, ?_, ?_, ?_, ?_⟩
  iterate 5
    rw [← splitVectorBySize_eq]
    refine map_mapIdx_getD (by simp [splitVectorBySize_eq]) fun i size => ?_
    split_ifs <;> rfl
  · apply List.ext_getElem
    · simp [splitWithSizes]
    · intro i h₁ h₂
      simp only [splitWithSizes, List.getElem_map, List.getElem_mapIdx]
      split_ifs <;> rfl

/-! ### Merges -/

theorem forall_mem_of_forall₂ {α β : Type} {R : α → β → Prop} {P : α → Prop} {as : List α}
    {bs : List β} (h : List.Forall₂ R as bs) (hp : ∀ a b, R a b → P a) : ∀ a ∈ as, P a := by
  induction h with
  | nil => simp
  | cons hab _ ih => simpa using ⟨hp _ _ hab, ih⟩

theorem Lists.weightsOrZero_eq [Zero W] (h : Lists .routing m ts) :
    m.weightsOrZero = ts.map (·.topkWeight) := by
  unfold weightsOrZero
  rw [h.topkWeights rfl]
  cases ts with
  | nil => simp [h.numTokens]
  | cons t ts => rfl

theorem map_eq_of_forall₂ {α β γ : Type} {R : α → β → Prop} {f : α → γ} {g : β → γ} {as : List α}
    {bs : List β} (h : List.Forall₂ R as bs) (hfg : ∀ a b, R a b → f a = g b) :
    as.map f = bs.map g := by
  induction h with
  | nil => rfl
  | cons hab _ ih => rw [List.map_cons, List.map_cons, hfg _ _ hab, ih]

theorem flatMap_eq_of_forall₂ {α β γ : Type} {R : α → β → Prop} {f : α → List γ} {g : β → List γ}
    {as : List α} {bs : List β} (h : List.Forall₂ R as bs) (hfg : ∀ a b, R a b → f a = g b) :
    as.flatMap f = bs.flatMap g := by
  rw [List.flatMap_def, List.flatMap_def, map_eq_of_forall₂ h hfg]

/-- The concatenated columns of several batches. -/
theorem flatMap_column {α : Type} (f : TokenMetadata W → α) (col : BatchMetadata W → List α)
    {metas : List (BatchMetadata W)} {tss : List (List (TokenMetadata W))}
    (h : List.Forall₂ (Lists v) metas tss) (hc : ∀ m ts, Lists v m ts → col m = ts.map f) :
    metas.flatMap col = tss.flatten.map f := by
  rw [flatMap_eq_of_forall₂ h hc, List.map_flatten, List.flatMap_def]

theorem sum_numTokens {metas : List (BatchMetadata W)} {tss : List (List (TokenMetadata W))}
    (h : List.Forall₂ (Lists v) metas tss) :
    (metas.map (·.numTokens)).sum = tss.flatten.length := by
  rw [map_eq_of_forall₂ h fun m ts hts => hts.numTokens, List.length_flatten]

theorem exists_cons_of_head? {α : Type} {as : List α} {a : α} (h : as.head? = some a) :
    ∃ tail, as = a :: tail := by
  cases as with
  | nil => simp at h
  | cons b tail => exact ⟨tail, by simpa using h⟩

/-- `merge_by_expert` is a stable sort by expert id of the concatenated batches. -/
theorem mergeByExpert_lists [Zero W] {metas : List (BatchMetadata W)}
    {tss : List (List (TokenMetadata W))} (h : List.Forall₂ (Lists .routing) metas tss)
    {first : BatchMetadata W} (hf : metas.head? = some first)
    (hid : ∀ t ∈ tss.flatten, t.expId < maxNumExperts) :
    ∃ m', mergeByExpert metas = .ok (m', countingPositions (tss.flatten.map (·.expId))) ∧
      m'.batchTag = .expert ∧ m'.layerId = first.layerId ∧
      Lists .routing m' (buckets maxNumExperts (·.expId) tss.flatten) := by
  obtain ⟨tail, rfl⟩ := exists_cons_of_head? hf
  have hlen : (first :: tail).all (fun m => m.numTokens == m.expIds.length) = true := by
    rw [List.all_eq_true]
    refine forall_mem_of_forall₂ h (fun m ts hts => ?_)
    simp [hts.numTokens, hts.expIds rfl]
  have hpos := countingPositions_positions (tss.flatten.map (·.expId))
  have hdest := expertDestinations_ok (tss.flatten.map (·.expId))
    (List.forall_mem_map.mpr hid)
  rw [List.length_map] at hpos hdest
  have hcol : ∀ {α : Type} [Zero α] (f : TokenMetadata W → α) (col : BatchMetadata W → List α),
      (∀ m ts, Lists .routing m ts → col m = ts.map f) →
      scatter 0 ((first :: tail).flatMap col) (countingPositions (tss.flatten.map (·.expId))) =
        (buckets maxNumExperts (·.expId) tss.flatten).map f := by
    intro α _ f col hc
    rw [flatMap_column f col h hc, scatter_map default 0 f hpos,
      scatter_countingPositions default hid]
  rw [mergeByExpert, if_pos hlen, flatMap_column _ _ h fun m ts hts => hts.expIds rfl,
    sum_numTokens h, hdest]
  refine ⟨_, rfl, rfl, rfl, ?_, ?_, ?_, ?_, ?_, ?_⟩
  · exact (buckets_perm hid).length_eq.symm
  · exact hcol _ _ fun m ts hts => hts.reqIds
  · exact hcol _ _ fun m ts hts => hts.initPrefillLens
  · exact fun _ => hcol _ _ fun m ts hts => hts.attnDpRanks rfl
  · intro _
    rw [← hcol _ (·.expIds) fun m ts hts => hts.expIds rfl,
      flatMap_column _ _ h fun m ts hts => hts.expIds rfl]
  · exact fun _ => hcol _ _ fun m ts hts => hts.weightsOrZero_eq

/-- The counts of an attention batch. -/
structure Counted (m : BatchMetadata W) (ts : List (TokenMetadata W)) : Prop where
  numPrefillSeqs : m.numPrefillSeqs = some (ts.countP TokenMetadata.isFirst)
  numPrefillTokens : m.numPrefillTokens = some (ts.countP TokenMetadata.isFirst)
  numDecodeTokens : m.numDecodeTokens = some (ts.length - ts.countP TokenMetadata.isFirst)

theorem Lists.countPrefill_eq (h : Lists v m ts) :
    countPrefill m.initPrefillLens = ts.countP TokenMetadata.isFirst := by
  rw [countPrefill, h.initPrefillLens, List.countP_map]
  rfl

/-- Counts taken from the prefill lengths. -/
theorem Lists.counted (h : Lists v m ts)
    (hc : m.numPrefillSeqs = some (countPrefill m.initPrefillLens) ∧
      m.numPrefillTokens = some (countPrefill m.initPrefillLens) ∧
      m.numDecodeTokens = some (m.numTokens - countPrefill m.initPrefillLens)) : Counted m ts := by
  rw [h.countPrefill_eq, h.numTokens] at hc
  exact ⟨hc.1, hc.2.1, hc.2.2⟩

theorem Counted.attentionBatchSafeCheck (h : Counted m ts) : m.attentionBatchSafeCheck = true := by
  simp [BatchMetadata.attentionBatchSafeCheck, h.numPrefillSeqs, h.numPrefillTokens,
    h.numDecodeTokens]

theorem Counted.prefillPart_map {α : Type} (h : Counted m ts) (f : TokenMetadata W → α) :
    m.prefillPart (ts.map f) = (front TokenMetadata.isFirst ts).map f := by
  simp [prefillPart, h.numPrefillSeqs, front, List.map_take]

theorem Counted.decodePart_map {α : Type} (h : Counted m ts) (f : TokenMetadata W → α) :
    m.decodePart (ts.map f) = (rest TokenMetadata.isFirst ts).map f := by
  rw [decodePart, h.numPrefillSeqs, h.numDecodeTokens, Option.getD_some, Option.getD_some,
    List.take_of_length_le (by simp)]
  simp [rest, List.map_drop]

/-- `merge_by_attention` puts all first tokens of the batches before all
others and adds the counts. -/
theorem mergeByAttention_lists {metas : List (BatchMetadata W)}
    {tss : List (List (TokenMetadata W))}
    (h : List.Forall₂ (fun m ts => Lists .attention m ts ∧ Counted m ts) metas tss)
    {first : BatchMetadata W} (hf : metas.head? = some first) :
    ∃ m', mergeByAttention metas = .ok m' ∧ m'.batchTag = .attention ∧
      m'.layerId = first.layerId ∧ Lists .attention m' (frontMerge TokenMetadata.isFirst tss) ∧
      Counted m' (frontMerge TokenMetadata.isFirst tss) := by
  obtain ⟨tail, rfl⟩ := exists_cons_of_head? hf
  have hsafe : (first :: tail).all (·.attentionBatchSafeCheck) = true := by
    rw [List.all_eq_true]
    exact forall_mem_of_forall₂ h fun m ts hts => hts.2.attentionBatchSafeCheck
  have hcol : ∀ {α : Type} (f : TokenMetadata W → α) (col : BatchMetadata W → List α),
      (∀ m ts, Lists .attention m ts → col m = ts.map f) →
      (first :: tail).flatMap (fun m => m.prefillPart (col m)) ++
        (first :: tail).flatMap (fun m => m.decodePart (col m)) = (frontMerge TokenMetadata.isFirst tss).map f := by
    intro α f col hc
    rw [frontMerge, List.map_append, List.map_flatMap, List.map_flatMap]
    congr 1
    · exact flatMap_eq_of_forall₂ h fun m ts hts => by rw [hc m ts hts.1, hts.2.prefillPart_map]
    · exact flatMap_eq_of_forall₂ h fun m ts hts => by rw [hc m ts hts.1, hts.2.decodePart_map]
  have hreq := hcol (·.reqId) (·.reqIds) fun m ts hts => hts.reqIds
  have hprefill : ∀ count : BatchMetadata W → Option ℕ,
      (∀ m ts, Counted m ts → count m = some (ts.countP TokenMetadata.isFirst)) →
      ((first :: tail).map fun m => (count m).getD 0).sum =
        (frontMerge TokenMetadata.isFirst tss).countP TokenMetadata.isFirst := by
    intro count hc
    rw [countP_frontMerge,
      map_eq_of_forall₂ h fun m ts hts => by rw [hc m ts hts.2, Option.getD_some]]
  have hdecode : ((first :: tail).map fun m => m.numDecodeTokens.getD 0).sum =
      (frontMerge TokenMetadata.isFirst tss).length - (frontMerge TokenMetadata.isFirst tss).countP TokenMetadata.isFirst := by
    rw [map_eq_of_forall₂ h fun m ts hts => by rw [hts.2.numDecodeTokens, Option.getD_some],
      length_frontMerge_sub]
  refine ⟨_, if_pos hsafe, rfl, rfl, ⟨?_, ?_, ?_, by simp [View.attention],
    by simp [View.attention], by simp [View.attention]⟩, ?_, ?_, ?_⟩
  · exact (congrArg List.length hreq).trans (List.length_map _)
  · exact hreq
  · exact hcol (·.initPrefillLen) (·.initPrefillLens) fun m ts hts => hts.initPrefillLens
  · exact congrArg some (hprefill _ fun m ts hts => hts.numPrefillSeqs)
  · exact congrArg some (hprefill _ fun m ts hts => hts.numPrefillTokens)
  · exact congrArg some hdecode

end BatchMetadata

end StreamInfer.Batch
