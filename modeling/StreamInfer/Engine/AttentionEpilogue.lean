import StreamInfer.Batch.Rows

/-! What the engine does with a finished attention batch: every token is repeated
for its `top_k` experts, the gate's choices become expert ids and weights, and
labels and hidden rows are permuted into expert order. The labels are repeated
batch by batch while choices and rows are repeated token by token, so the two
agree exactly when there is one choice or when the labels do not differ. -/

namespace StreamInfer.Engine

open General Batch BatchMetadata

variable {W : Type} [Zero W]

/-- The expert ids and weights have one row for each token. -/
def postprocessBatchAttn {R : Type} (topK attnDpRank : ℕ) (metaC : BatchMetadata W)
    (hiddens : List R) (expertIds : List (List ℕ)) (expertWeights : List (List W)) :
    Except Fault (TokenBatch W R) := do
  let newMetaC := metaC.duplicateTopk topK
  let routed := { newMetaC with
    expIds := expertIds.flatten
    topkWeights := expertWeights.flatten }
  let (sorted, expMappings) ← routed.sortByExpert
  let permuted ← permuteTokens hiddens expMappings
  return ⟨permuted, { sorted with
    attnDpRanks := List.replicate expertIds.flatten.length attnDpRank }⟩

/-- What the gate and the attention batch agree on. -/
structure GatedBatch (topK : ℕ) (metaC : BatchMetadata W) (expertIds : List (List ℕ))
    (expertWeights : List (List W)) : Prop where
  topK_pos : 0 < topK
  numTokens_pos : 0 < metaC.numTokens
  reqIds : metaC.reqIds.length = metaC.numTokens
  initPrefillLens : metaC.initPrefillLens.length = metaC.numTokens
  idRows : expertIds.length = metaC.numTokens
  idRow : ∀ row ∈ expertIds, row.length = topK
  weightRows : expertWeights.length = metaC.numTokens
  weightRow : ∀ row ∈ expertWeights, row.length = topK

/-- Row `p` of the result is a token's hidden row, under the token's labels, for
one of the gate's choices for it. -/
structure RowOf {R : Type} (metaC : BatchMetadata W) (hiddens : List R)
    (expertIds : List (List ℕ)) (expertWeights : List (List W)) (out : TokenBatch W R)
    (p token choice : ℕ) : Prop where
  hidden : out.data[p]? = hiddens[token]?
  reqId : out.metadata.reqIds[p]? = metaC.reqIds[token]?
  initPrefillLen : out.metadata.initPrefillLens[p]? = metaC.initPrefillLens[token]?
  expId : out.metadata.expIds[p]? = expertIds[token]?.bind (·[choice]?)
  topkWeight : out.metadata.topkWeights[p]? = expertWeights[token]?.bind (·[choice]?)

/-- Every row of the result belongs to one token and one choice, and every token
and choice have one row: `source` lists them by row. -/
def KeepsLabels (topK attnDpRank : ℕ) (metaC : BatchMetadata W) (expertIds : List (List ℕ))
    (expertWeights : List (List W)) : Prop :=
  ∀ (R : Type) (hiddens : List R), hiddens.length = metaC.numTokens →
    ∃ out, postprocessBatchAttn topK attnDpRank metaC hiddens expertIds expertWeights = .ok out ∧
      ∃ source : List (ℕ × ℕ), source.length = out.data.length ∧
        source.Perm ((List.range metaC.numTokens).product (List.range topK)) ∧
        ∀ p token choice, source[p]? = some (token, choice) →
          RowOf metaC hiddens expertIds expertWeights out p token choice

/-- The tokens of the batch carry one request id and one prefill length. -/
def SameLabels (metaC : BatchMetadata W) : Prop :=
  ∀ i < metaC.numTokens, ∀ j < metaC.numTokens, metaC.reqIds[i]? = metaC.reqIds[j]? ∧
    metaC.initPrefillLens[i]? = metaC.initPrefillLens[j]?

/-! ### The layouts -/

omit [Zero W] in
theorem duplicateTopk_columns (m : BatchMetadata W) (topK : ℕ) :
    (m.duplicateTopk topK).reqIds = duplicateVector m.reqIds topK ∧
    (m.duplicateTopk topK).initPrefillLens = duplicateVector m.initPrefillLens topK ∧
    (m.duplicateTopk topK).numTokens = m.numTokens * topK := by
  unfold duplicateTopk
  split_ifs with h
  · simp [h, duplicateVector]
  · exact ⟨rfl, rfl, rfl⟩

/-- `duplicate_vector` repeats the whole column. -/
theorem getElem?_duplicateVector {α : Type} {column : List α} {n topK j : ℕ}
    (hn : column.length = n) (hj : j < n * topK) :
    (duplicateVector column topK)[j]? = column[j % n]? := by
  subst hn
  exact getElem?_flatten_replicate column (by rwa [Nat.mul_comm] at hj)

/-- The row-major flattening repeats token by token. -/
theorem getElem?_flatten_choices {α : Type} {choices : List (List α)} {topK j : ℕ}
    (hk : 0 < topK) (hc : ∀ row ∈ choices, row.length = topK) :
    choices.flatten[j]? = choices[j / topK]?.bind (·[j % topK]?) := by
  have h := getElem?_flatMap_uniform id topK choices hc (i := j / topK) (Nat.mod_lt j hk)
  rwa [Nat.div_add_mod' j topK, List.flatMap_id] at h

theorem length_flatten_choices {α : Type} {choices : List (List α)} {topK : ℕ}
    (hc : ∀ row ∈ choices, row.length = topK) :
    choices.flatten.length = choices.length * topK := by
  induction choices with
  | nil => simp
  | cons row choices ih =>
    rw [List.flatten_cons, List.length_append, hc row (by simp),
      ih fun r hr => hc r (by simp [hr]), List.length_cons, Nat.succ_mul, Nat.add_comm]

/-! ### The rows -/

/-- Sorting by expert moves entry `j` of every column to its counting position. -/
theorem sortByExpert_columns {m : BatchMetadata W} (h : Aligned ⟨false, true⟩ m)
    (hid : ∀ e ∈ m.expIds, e < maxNumExperts) :
    ∃ m', m.sortByExpert = .ok (m', countingPositions m.expIds) ∧
      ∀ j (hj : j < (countingPositions m.expIds).length),
        m'.reqIds[(countingPositions m.expIds)[j]]? = m.reqIds[j]? ∧
        m'.initPrefillLens[(countingPositions m.expIds)[j]]? = m.initPrefillLens[j]? ∧
        m'.expIds[(countingPositions m.expIds)[j]]? = m.expIds[j]? ∧
        m'.topkWeights[(countingPositions m.expIds)[j]]? = m.topkWeights[j]? := by
  obtain ⟨ts, hts⟩ := h.exists_lists
  have hids := hts.expIds rfl
  rw [hids] at hid ⊢
  rw [List.forall_mem_map] at hid
  obtain ⟨m', hm, -, hl⟩ := sortByExpert_lists hts rfl hid
  refine ⟨m', hm, fun j hj => ?_⟩
  have hget := getElem?_buckets hid j hj
  refine ⟨?_, ?_, ?_, ?_⟩
  · rw [hl.reqIds, hts.reqIds, List.getElem?_map, List.getElem?_map, hget]
  · rw [hl.initPrefillLens, hts.initPrefillLens, List.getElem?_map, List.getElem?_map, hget]
  · rw [hl.expIds rfl, List.getElem?_map, List.getElem?_map, hget]
  · rw [hl.topkWeights rfl, hts.topkWeights rfl, List.getElem?_map, List.getElem?_map, hget]

section Gated

variable {topK attnDpRank : ℕ} {metaC : BatchMetadata W} {expertIds : List (List ℕ)}
  {expertWeights : List (List W)}

omit [Zero W] in
theorem GatedBatch.length_flatten (h : GatedBatch topK metaC expertIds expertWeights) :
    expertIds.flatten.length = metaC.numTokens * topK ∧
      expertWeights.flatten.length = metaC.numTokens * topK := by
  rw [length_flatten_choices h.idRow, length_flatten_choices h.weightRow, h.idRows, h.weightRows]
  exact ⟨rfl, rfl⟩

omit [Zero W] in
/-- The columns of the repeated batch with the gate's choices. -/
theorem GatedBatch.aligned (h : GatedBatch topK metaC expertIds expertWeights) :
    Aligned ⟨false, true⟩ ({ metaC.duplicateTopk topK with
      expIds := expertIds.flatten
      topkWeights := expertWeights.flatten } : BatchMetadata W) := by
  obtain ⟨hidlen, hwlen⟩ := h.length_flatten
  obtain ⟨hdq, hdp, hdn⟩ := duplicateTopk_columns metaC topK
  have hdup : ∀ {α : Type} (column : List α), column.length = metaC.numTokens →
      (duplicateVector column topK).length = (metaC.duplicateTopk topK).numTokens := by
    intro α column hc
    rw [hdn, ← hc, Nat.mul_comm]
    simp [duplicateVector]
  exact ⟨hdq ▸ hdup _ h.reqIds, hdp ▸ hdup _ h.initPrefillLens, by simp,
    fun _ => hidlen.trans hdn.symm, fun _ => hwlen.trans hdn.symm⟩

/-- Row `j` before the sort: the hidden row, expert and weight of token `j / top_k`,
and the labels of token `j % n`. -/
theorem postprocessBatchAttn_rows {R : Type} (attnDpRank : ℕ) {hiddens : List R}
    (h : GatedBatch topK metaC expertIds expertWeights)
    (hid : ∀ e ∈ expertIds.flatten, e < maxNumExperts) (hn : hiddens.length = metaC.numTokens) :
    ∃ out, postprocessBatchAttn topK attnDpRank metaC hiddens expertIds expertWeights = .ok out ∧
      out.data.length = metaC.numTokens * topK ∧
      ∀ j (hj : j < (countingPositions expertIds.flatten).length),
        out.data[(countingPositions expertIds.flatten)[j]]? = hiddens[j / topK]? ∧
        out.metadata.reqIds[(countingPositions expertIds.flatten)[j]]? =
          metaC.reqIds[j % metaC.numTokens]? ∧
        out.metadata.initPrefillLens[(countingPositions expertIds.flatten)[j]]? =
          metaC.initPrefillLens[j % metaC.numTokens]? ∧
        out.metadata.expIds[(countingPositions expertIds.flatten)[j]]? =
          expertIds[j / topK]?.bind (·[j % topK]?) ∧
        out.metadata.topkWeights[(countingPositions expertIds.flatten)[j]]? =
          expertWeights[j / topK]?.bind (·[j % topK]?) := by
  obtain ⟨hidlen, hwlen⟩ := h.length_flatten
  obtain ⟨hdq, hdp, hdn⟩ := duplicateTopk_columns metaC topK
  set routed : BatchMetadata W := { metaC.duplicateTopk topK with
    expIds := expertIds.flatten
    topkWeights := expertWeights.flatten } with hrouted
  have hnum : routed.numTokens = metaC.numTokens * topK := hdn
  obtain ⟨sorted, hsort, hcols⟩ := sortByExpert_columns h.aligned hid
  have hpos : Positions (hiddens.length * topK) (countingPositions expertIds.flatten) := by
    rw [hn, ← hidlen]
    exact countingPositions_positions _
  obtain ⟨rows, hrows, hlen, hread⟩ := permuteTokens_ok (by rw [hn]; exact h.numTokens_pos) hpos
  refine ⟨⟨rows, { sorted with
    attnDpRanks := List.replicate expertIds.flatten.length attnDpRank }⟩, ?_, by rw [hlen, hn], ?_⟩
  · have hsort' : routed.sortByExpert = .ok (sorted, countingPositions expertIds.flatten) := hsort
    simp only [postprocessBatchAttn, ← hrouted, hsort', hrows, bind, Except.bind]
    rfl
  · intro j hj
    have hj' : j < metaC.numTokens * topK := by simpa [hidlen] using hj
    obtain ⟨hq, hp, he, hw⟩ := hcols j hj
    refine ⟨hread j hj, hq.trans ?_, hp.trans ?_, he.trans ?_, hw.trans ?_⟩
    · exact hdq ▸ getElem?_duplicateVector h.reqIds hj'
    · exact hdp ▸ getElem?_duplicateVector h.initPrefillLens hj'
    · exact getElem?_flatten_choices h.topK_pos h.idRow
    · exact getElem?_flatten_choices h.topK_pos h.weightRow

theorem lt_of_postprocessBatchAttn {R : Type} {hiddens : List R} {out : TokenBatch W R}
    (h : postprocessBatchAttn topK attnDpRank metaC hiddens expertIds expertWeights = .ok out) :
    ∀ e ∈ expertIds.flatten, e < maxNumExperts := by
  cases hs : { metaC.duplicateTopk topK with
    expIds := expertIds.flatten
    topkWeights := expertWeights.flatten }.sortByExpert with
  | error e => simp [postprocessBatchAttn, hs, bind, Except.bind] at h
  | ok r => exact lt_of_sortByExpert hs

/-- The result holds the repeated tokens, with the gate's choices and this rank, in the
order of their experts. -/
theorem postprocessBatchAttn_placed {R : Type}
    (h : GatedBatch topK metaC expertIds expertWeights) {hiddens : List R}
    (hn : hiddens.length = metaC.numTokens) {out : TokenBatch W R}
    (hok : postprocessBatchAttn topK attnDpRank metaC hiddens expertIds expertWeights = .ok out) :
    ∃ ts xs, Lists ⟨false, true⟩ ({ metaC.duplicateTopk topK with
        expIds := expertIds.flatten
        topkWeights := expertWeights.flatten } : BatchMetadata W) ts ∧
      xs.map Prod.fst = (buckets maxNumExperts (·.expId) ts).map (fun t : TokenMetadata W =>
        { t with attnDpRank := attnDpRank }) ∧
      Carries .routing out xs ∧ out.metadata.batchTag = metaC.batchTag ∧
      out.metadata.layerId = metaC.layerId := by
  have hid := lt_of_postprocessBatchAttn hok
  obtain ⟨out', hok', hlen, -⟩ := postprocessBatchAttn_rows attnDpRank h hid hn
  obtain rfl := Except.ok.inj (hok.symm.trans hok')
  obtain ⟨ts, hts⟩ := h.aligned.exists_lists
  have htsid : ∀ t ∈ ts, t.expId < maxNumExperts := by
    intro t ht
    refine hid _ ?_
    have hids : expertIds.flatten = ts.map (·.expId) := hts.expIds rfl
    rw [hids]
    exact List.mem_map_of_mem ht
  obtain ⟨sorted, hsort, hheader, hlists⟩ := sortByExpert_lists hts rfl htsid
  obtain ⟨htag, hnum, hlayer⟩ := header_eq hheader
  obtain ⟨-, -, hdn⟩ := duplicateTopk_columns metaC topK
  have hmeta : out.metadata = { sorted with
      attnDpRanks := List.replicate expertIds.flatten.length attnDpRank } := by
    simp only [postprocessBatchAttn, hsort, bind, Except.bind] at hok
    split at hok
    · cases hok
    · cases hok
      rfl
  have hcount : expertIds.flatten.length = (buckets maxNumExperts (·.expId) ts).length := by
    rw [← hlists.numTokens, hnum, h.length_flatten.1]
    exact hdn.symm
  have hrouting : Lists .routing out.metadata ((buckets maxNumExperts (·.expId) ts).map
      fun t : TokenMetadata W => { t with attnDpRank := attnDpRank }) := by
    rw [hmeta, hcount]
    exact hlists.withRank attnDpRank
  obtain ⟨xs, hxs, hcarries⟩ := exists_carries hrouting (by
    rw [hlen, hmeta]
    exact (hnum.trans hdn).symm)
  refine ⟨ts, xs, hts, hxs, hcarries, ?_, ?_⟩
  · rw [hmeta]
    refine htag.trans ?_
    dsimp only [duplicateTopk]
    split_ifs <;> rfl
  · rw [hmeta]
    refine hlayer.trans ?_
    dsimp only [duplicateTopk]
    split_ifs <;> rfl

/-- The result holds routed tokens in the order of their experts. -/
theorem postprocessBatchAttn_sorted {R : Type}
    (h : GatedBatch topK metaC expertIds expertWeights) {hiddens : List R}
    (hn : hiddens.length = metaC.numTokens) {out : TokenBatch W R}
    (hok : postprocessBatchAttn topK attnDpRank metaC hiddens expertIds expertWeights = .ok out) :
    ∃ xs, Carries .routing out xs ∧ (xs.Pairwise fun x y => x.1.expId ≤ y.1.expId) ∧
      (∀ x ∈ xs, x.1.expId < maxNumExperts) ∧ out.metadata.batchTag = metaC.batchTag ∧
      out.metadata.layerId = metaC.layerId := by
  obtain ⟨ts, xs, -, hxs, hcarries, htag, hlayer⟩ := postprocessBatchAttn_placed h hn hok
  refine ⟨xs, hcarries, ?_, fun x hx => ?_, htag, hlayer⟩
  · have hsorted : (xs.map Prod.fst).Pairwise fun x y => x.expId ≤ y.expId := by
      rw [hxs, List.pairwise_map]
      exact buckets_pairwise _ _ _
    rwa [List.pairwise_map] at hsorted
  · have hmem : x.1 ∈ xs.map Prod.fst := List.mem_map_of_mem hx
    rw [hxs] at hmem
    obtain ⟨t, ht, hx'⟩ := List.mem_map.mp hmem
    rw [← hx']
    exact (mem_buckets.mp ht).2

/-- The pairs of a token and a choice, in row-major order. -/
theorem range_map_divMod {n topK : ℕ} (hk : 0 < topK) :
    (List.range (n * topK)).map (fun j => (j / topK, j % topK)) =
      (List.range n).product (List.range topK) := by
  apply List.ext_getElem?
  intro j
  have hblock := getElem?_flatMap_uniform (fun i => (List.range topK).map fun c => (i, c)) topK
    (List.range n) (fun i _ => by simp) (i := j / topK) (Nat.mod_lt j hk)
  rw [Nat.div_add_mod' j topK] at hblock
  rw [List.product, hblock, List.getElem?_map]
  by_cases hj : j < n * topK
  · have hdiv : j / topK < n := Nat.div_lt_of_lt_mul (by rwa [Nat.mul_comm])
    simp [List.getElem?_range hj, List.getElem?_range hdiv, Nat.mod_lt j hk]
  · have hdiv : n ≤ j / topK := (Nat.le_div_iff_mul_le hk).mpr (by omega)
    rw [List.getElem?_eq_none (by simpa using hj), List.getElem?_eq_none (by simpa using hdiv)]
    rfl

/-- Rows tell their tokens apart, so labels kept on all rows are equal along
`j / top_k` and `j % n`. -/
theorem KeepsLabels.label_eq (h : GatedBatch topK metaC expertIds expertWeights)
    (hk : KeepsLabels topK attnDpRank metaC expertIds expertWeights) {j : ℕ}
    (hj : j < metaC.numTokens * topK) :
    metaC.reqIds[j / topK]? = metaC.reqIds[j % metaC.numTokens]? ∧
      metaC.initPrefillLens[j / topK]? = metaC.initPrefillLens[j % metaC.numTokens]? := by
  obtain ⟨out, hok, source, hlen, -, hrow⟩ := hk ℕ (List.range metaC.numTokens) (by simp)
  obtain ⟨out', hok', hdata, hread⟩ := postprocessBatchAttn_rows attnDpRank h
    (lt_of_postprocessBatchAttn hok) (List.length_range (n := metaC.numTokens))
  obtain rfl : out = out' := by
    rw [hok] at hok'
    exact Except.ok.inj hok'
  have hpos := countingPositions_positions expertIds.flatten
  rw [h.length_flatten.1] at hpos
  have hjp : j < (countingPositions expertIds.flatten).length := by rwa [hpos.length]
  have hp : (countingPositions expertIds.flatten)[j] < source.length := by
    rw [hlen, hdata]
    exact hpos.getElem_lt hjp
  obtain ⟨hhid, hq, hl, -, -⟩ := hread j hjp
  obtain ⟨⟨token, choice⟩, hsource⟩ : ∃ s, source[(countingPositions expertIds.flatten)[j]]? = some s :=
    ⟨_, List.getElem?_eq_getElem hp⟩
  have hsrc := hrow _ _ _ hsource
  have hdiv : j / topK < metaC.numTokens := Nat.div_lt_of_lt_mul (by rwa [Nat.mul_comm])
  have htoken : token = j / topK := by
    have hvals := hsrc.hidden.symm.trans hhid
    rw [List.getElem?_range hdiv, List.getElem?_eq_some_iff] at hvals
    obtain ⟨_, hval⟩ := hvals
    simpa using hval
  subst htoken
  exact ⟨hsrc.reqId.symm.trans hq, hsrc.initPrefillLen.symm.trans hl⟩

/-- Labels stay on their rows exactly when there is one choice for a token or the
tokens' labels are all equal; the expert ids have to fit the count array. -/
theorem keepsLabels_iff (h : GatedBatch topK metaC expertIds expertWeights) :
    KeepsLabels topK attnDpRank metaC expertIds expertWeights ↔
      (∀ e ∈ expertIds.flatten, e < maxNumExperts) ∧ (topK = 1 ∨ SameLabels metaC) := by
  constructor
  · intro hk
    obtain ⟨out, hok, -⟩ := hk ℕ (List.range metaC.numTokens) (by simp)
    refine ⟨lt_of_postprocessBatchAttn hok, ?_⟩
    by_cases htop : topK = 1
    · exact .inl htop
    have htwo : 1 < topK := by have := h.topK_pos; omega
    -- each token has the labels of the token `top_k` times nearer to the first
    have hzero : ∀ i < metaC.numTokens, metaC.reqIds[i]? = metaC.reqIds[0]? ∧
        metaC.initPrefillLens[i]? = metaC.initPrefillLens[0]? := by
      intro i
      induction i using Nat.strong_induction_on with
      | h i ih =>
        intro hi
        rcases Nat.eq_zero_or_pos i with rfl | hpos
        · exact ⟨rfl, rfl⟩
        have hless : i / topK < i := Nat.div_lt_self hpos htwo
        have hlt : i < metaC.numTokens * topK := lt_of_lt_of_le hi (Nat.le_mul_of_pos_right _ h.topK_pos)
        have hstep := hk.label_eq h hlt
        rw [Nat.mod_eq_of_lt hi] at hstep
        obtain ⟨hq, hp⟩ := ih (i / topK) hless (hless.trans hi)
        exact ⟨hstep.1.symm.trans hq, hstep.2.symm.trans hp⟩
    refine .inr fun i hi j hj => ⟨?_, ?_⟩
    · rw [(hzero i hi).1, (hzero j hj).1]
    · rw [(hzero i hi).2, (hzero j hj).2]
  · rintro ⟨hid, hlabels⟩ R hiddens hn
    obtain ⟨out, hok, hdata, hread⟩ := postprocessBatchAttn_rows attnDpRank h hid hn
    have hprod := range_map_divMod (n := metaC.numTokens) h.topK_pos
    have hplen : ((List.range metaC.numTokens).product (List.range topK)).length =
        metaC.numTokens * topK := by simp [← hprod]
    have hpos : Positions ((List.range metaC.numTokens).product (List.range topK)).length
        (countingPositions expertIds.flatten) := by
      rw [hplen, ← h.length_flatten.1]
      exact countingPositions_positions _
    refine ⟨out, hok, scatter (0, 0) ((List.range metaC.numTokens).product (List.range topK))
      (countingPositions expertIds.flatten), ?_, scatter_perm _ hpos, ?_⟩
    · rw [length_scatter, hplen, hdata]
    · intro p token choice hsource
      have hp : p < ((List.range metaC.numTokens).product (List.range topK)).length := by
        obtain ⟨hp, -⟩ := List.getElem?_eq_some_iff.mp hsource
        simpa using hp
      obtain ⟨j, hj, rfl⟩ := hpos.exists_getElem hp
      have hjn : j < metaC.numTokens * topK := by rwa [hpos.length, hplen] at hj
      rw [getElem?_scatter _ hpos j hj, ← hprod, List.getElem?_map, List.getElem?_range hjn,
        Option.map_some, Option.some_inj, Prod.mk.injEq] at hsource
      obtain ⟨rfl, rfl⟩ := hsource
      obtain ⟨hhid, hq, hl, he, hw⟩ := hread j hj
      have hdiv : j / topK < metaC.numTokens := Nat.div_lt_of_lt_mul (by rwa [Nat.mul_comm])
      have hmod : j % metaC.numTokens < metaC.numTokens := Nat.mod_lt _ h.numTokens_pos
      rcases hlabels with rfl | hsame
      · rw [Nat.mul_one] at hjn
        rw [Nat.mod_eq_of_lt hjn] at hq hl
        exact ⟨hhid, by rw [hq, Nat.div_one], by rw [hl, Nat.div_one], he, hw⟩
      · have hlabel := hsame _ hmod _ hdiv
        exact ⟨hhid, hq.trans hlabel.1, hl.trans hlabel.2, he, hw⟩

end Gated

/-- Two requests, one token each: request 7 starts with 5 prompt tokens, request 8
goes on decoding. -/
def twoRequests : BatchMetadata ℕ where
  batchTag := .attention
  shape := (2, 1)
  dtype := "bf16"
  layerId := 3
  reqIds := [7, 8]
  expIds := []
  topkWeights := []
  attnDpRanks := []
  initPrefillLens := [5, -1]

theorem twoRequests_gated {topK : ℕ} (hk : 0 < topK) {expertIds expertWeights : List (List ℕ)}
    (hi : expertIds.length = 2) (hir : ∀ row ∈ expertIds, row.length = topK)
    (hw : expertWeights.length = 2) (hwr : ∀ row ∈ expertWeights, row.length = topK) :
    GatedBatch topK twoRequests expertIds expertWeights :=
  ⟨hk, by decide, rfl, rfl, hi, hir, hw, hwr⟩

theorem keepsLabels_twoRequests_one : KeepsLabels 1 0 twoRequests [[5], [3]] [[10], [20]] :=
  (keepsLabels_iff (twoRequests_gated (by decide) rfl (by decide) rfl (by decide))).mpr
    ⟨by decide, .inl rfl⟩

/-- With two choices the row of request 7's second choice carries request 8's labels. -/
theorem not_keepsLabels_twoRequests :
    GatedBatch 2 twoRequests [[0, 1], [2, 3]] [[10, 20], [30, 40]] ∧
      (∀ e ∈ [[0, 1], [2, 3]].flatten, e < maxNumExperts) ∧
      ¬ KeepsLabels 2 0 twoRequests [[0, 1], [2, 3]] [[10, 20], [30, 40]] := by
  have hgated : GatedBatch 2 twoRequests [[0, 1], [2, 3]] [[10, 20], [30, 40]] :=
    twoRequests_gated (by decide) rfl (by decide) rfl (by decide)
  refine ⟨hgated, by decide, fun hk => ?_⟩
  have hlabel := (hk.label_eq hgated (j := 1) (by decide)).1
  exact absurd hlabel (by decide)

end StreamInfer.Engine
