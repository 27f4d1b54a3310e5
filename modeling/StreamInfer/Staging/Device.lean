import StreamInfer.Staging.Visits
import StreamInfer.Staging.Loads

/-! A device that attends batches, releases requests and serves its pool in any
order, and the copies it makes on the way. They fit in every reached state exactly
when the block size divides the longest sequence, unless no request fits at all,
and when neither a full attention batch with its expert outputs nor a full expert
batch has more rows than the gather regions have pointers. -/

namespace StreamInfer.Staging

open General General.Stateful Batch BatchMetadata Kv Pool UnifiedPool GdrContext Relation

variable {W R : Type} [Zero W] [Row R]

structure Device (W R : Type) where
  blockMgr : CPUBlockManager
  serving : Serving W R

namespace Device

def start (c : StagingConfig) (numBlocks firstLayerId numLayers numGroups : ℕ)
    (defrag : Option (ℕ × ℕ × ℚ)) : Device W R where
  blockMgr := .new c.blockSize numBlocks 0 firstLayerId
  serving := servingStart c numLayers numGroups defrag

/-- A batch is attended, requests are released, or the pool serves. -/
inductive Step (c : StagingConfig) (S : ComparatorSort) (d d' : Device W R) : Prop
  | attend (metaC : BatchMetadata W) (seqLens : List ℤ)
      (h : Attends c d.blockMgr metaC seqLens d'.blockMgr) (hs : d'.serving = d.serving)
  | release (reqIds : List ℤ)
      (hok : CPUBlockManager.releaseSeqs reqIds d.blockMgr = .ok ⟨⟩ d'.blockMgr)
      (hs : d'.serving = d.serving)
  | serve (h : Serving.Step S Serving.WellFormed d.serving d'.serving)
      (hb : d'.blockMgr = d.blockMgr)

/-- A copy that the device makes in this state does not fit. -/
inductive Overflow (c : StagingConfig) (S : ComparatorSort) (d : Device W R) : Prop
  | blockTable (metaC : BatchMetadata W) (seqLens : List ℤ) (s' : CPUBlockManager)
      (h : Attends c d.blockMgr metaC seqLens s')
      (ho : prepareBlockTableGdr s'.blockMgr metaC seqLens (StagingBuffers.new c).batchTensorBuffer =
        .error overflow)
  | seqInfo (metaC : BatchMetadata W) (seqLens : List ℤ) (s' : CPUBlockManager)
      (h : Attends c d.blockMgr metaC seqLens s')
      (ho : prepareSeqInfoGdr metaC seqLens (StagingBuffers.new c).batchTensorBuffer =
        .error overflow)
  | tokenMapping (metaC : BatchMetadata W) (seqLens : List ℤ) (s' : CPUBlockManager)
      (h : Attends c d.blockMgr metaC seqLens s') (expertIds : List ℕ) (expertWeights : List W)
      (hg : GateChoices c.topK metaC expertIds)
      (ho : stageTokenMapping c.topK metaC expertIds expertWeights (.new c) = .error overflow)
  | get (id : ℤ) (hp : d.serving.pending = some id)
      (ho : stageGet S id d.serving.pool (.new c) = .error overflow)
  | expertEpilogue (id : ℤ) (b : TokenBatch W R) (p' : UnifiedPool W R)
      (hp : d.serving.pending = some id)
      (hget : getBatchFromLayer S id d.serving.pool = .ok (some b) p')
      (htag : b.metadata.isExpert = true)
      (ho : stageExpertEpilogue S b.metadata (.new c) = .error overflow)

/-- No copy of any reached state overflows. -/
def NeverOverflows (W R : Type) [Zero W] [Row R] (c : StagingConfig) : Prop :=
  ∀ (S : ComparatorSort) (numBlocks firstLayerId numLayers numGroups : ℕ)
    (defrag : Option (ℕ × ℕ × ℚ)), (∀ p, defrag = some p → 0 ≤ p.2.2) → ∀ d : Device W R,
    ReflTransGen (Step c S) (start c numBlocks firstLayerId numLayers numGroups defrag) d →
      ¬ Overflow c S d

variable {c : StagingConfig} {S : ComparatorSort} {d d' d₀ : Device W R}

/-- What a run keeps: the lengths of the live requests and a run of the pool. -/
theorem reached (hb : 0 < d₀.blockMgr.blockMgr.blockSize)
    (h₀ : Attended d₀.blockMgr d₀.blockMgr fun _ => none) (h : ReflTransGen (Step c S) d₀ d) :
    (∃ len, Attended d₀.blockMgr d.blockMgr len) ∧
      ReflTransGen (Serving.Step S Serving.WellFormed) d₀.serving d.serving := by
  induction h with
  | refl => exact ⟨⟨_, h₀⟩, .refl⟩
  | tail _ hstep ih =>
    obtain ⟨⟨len, hlen⟩, hrun⟩ := ih
    cases hstep with
    | attend metaC seqLens ha hs =>
      obtain ⟨len', hlen', -⟩ := ha.attended hlen hb
      exact ⟨⟨len', hlen'⟩, hs ▸ hrun⟩
    | release reqIds hok hs => exact ⟨hlen.release hok, hs ▸ hrun⟩
    | serve hserve hs => exact ⟨⟨len, hs ▸ hlen⟩, hrun.tail hserve⟩

/-- The runs of the pool are runs of the device. -/
theorem reach_serve {t : Serving W R} (blockMgr : CPUBlockManager) {t₀ : Serving W R}
    (h : ReflTransGen (Serving.Step S Serving.WellFormed) t₀ t) :
    ReflTransGen (Step c S) ⟨blockMgr, t₀⟩ ⟨blockMgr, t⟩ :=
  h.lift (fun t => (⟨blockMgr, t⟩ : Device W R)) fun _ _ hstep => .serve hstep rfl

/-! ### When the copies fit -/

omit [Row R] in
/-- The epilogue of a batch of routed tokens copies a weight and a place for each. -/
theorem expertEpilogue_fits {b : TokenBatch W R} (h : Aligned .routing b.metadata)
    (hn : b.metadata.numTokens ≤ c.maxBatchSizeExpert) (S : ComparatorSort) :
    stageExpertEpilogue S b.metadata (.new c) ≠ .error overflow := by
  obtain ⟨sorted, hok, -, hrank⟩ := Engine.sortByAttention_weights (S := S) h
  have hlen := (inversePositions_positions hrank).length
  simp only [stageExpertEpilogue, hok, bind, Except.bind]
  apply bind_ne_overflow
  · apply copyFromHost_ne_overflow
    rwa [h.topkWeights rfl]
  · intro _
    apply copyFromHost_ne_overflow
    rwa [hlen]

/-- Batches of routed tokens come from expert layers. -/
theorem delivered_routing {p : UnifiedPool W R} {n i : ℕ} {b : TokenBatch W R}
    {ys : List (TokenMetadata W × R)} {lens : ℤ → Prop}
    (h : Delivered S lens (layerKind n) p i b ys) (htag : b.metadata.isExpert = true) :
    n ≤ i ∧ Aligned .routing b.metadata := by
  rw [isExpert, beq_iff_eq] at htag
  cases h with
  | batches hq hgood =>
    by_cases hi : i < n
    · simp only [layerKind, if_pos hi] at hgood
      exact absurd (hgood.1.tag.symm.trans htag) (by decide)
    · have hcarries := (layerKind_entries hgood).1
      rw [layerView, if_neg hi] at hcarries
      exact ⟨Nat.le_of_not_lt hi, hcarries.lists.aligned⟩
  | packed hq hattn => exact absurd (hattn.symm.trans htag) (by decide)

/-- With room for full batches of the longest sequences no copy overflows. -/
theorem not_overflow {numBlocks firstLayerId numLayers numGroups : ℕ}
    {defrag : Option (ℕ × ℕ × ℚ)} (hA : 1 ≤ c.maxBatchSizeAttn) (hE : 1 ≤ c.maxBatchSizeExpert)
    (hk : 1 ≤ c.topK) (hb : 1 ≤ c.blockSize)
    (hpages : c.maxSeqLen = 1 ∨ c.blockSize ∣ c.maxSeqLen)
    (hattn : c.maxBatchSizeAttn * c.topK ≤ maxGatherTokens)
    (hexpert : c.maxBatchSizeExpert ≤ maxGatherTokens)
    (hd : ∀ p, defrag = some p → 0 ≤ p.2.2)
    (h : ReflTransGen (Step c S) (start c numBlocks firstLayerId numLayers numGroups defrag) d) :
    ¬ Overflow c S d := by
  have h₀ : Attended (CPUBlockManager.new c.blockSize numBlocks 0 firstLayerId)
      (CPUBlockManager.new c.blockSize numBlocks 0 firstLayerId) fun _ => none :=
    ⟨⟨CPUBlockManager.serves_new _ _ _ _, rfl, rfl, rfl⟩, fun _ _ h => by cases h⟩
  have hpos : 0 < (start c numBlocks firstLayerId numLayers numGroups defrag :
      Device W R).blockMgr.blockMgr.blockSize := hb
  obtain ⟨⟨len, hlen⟩, hrun⟩ := reached hpos h₀ h
  obtain ⟨hcons, -⟩ := Serving.consistent_of_run (fun _ => True) (layerKind (numLayers + 1)) hd
    (by omega) (by omega) (fun p tensor metaC hn hr => hn ▸ hr.suits p) hrun
  intro ho
  cases ho with
  | blockTable metaC seqLens s' ha ho => exact ha.blockTable_fits hlen rfl hb hpages ho
  | seqInfo metaC seqLens s' ha ho => exact ha.seqInfo_fits _ ho
  | tokenMapping metaC seqLens s' ha expertIds expertWeights hg ho =>
    exact tokenMapping_fits ha.size hg expertWeights ho
  | get id hp ho => exact stageGet_fits hcons S hA hE hk hattn hexpert hp ho
  | expertEpilogue id b p' hp hget htag ho =>
    rcases hcons.pending id hp with rfl | ⟨i, -, rfl, -⟩
    · rw [Serving.getBatchFromLayer_none] at hget
      cases hget
    · have hthr : ∀ i, 1 ≤ (servingStart c numLayers numGroups defrag :
          Serving W R).pool.thresholdAt i :=
        Serving.one_le_thresholdAt_start (by omega) (by omega)
      obtain ⟨-, b', ys, p'', hok, hdel, -, hle, -⟩ := hcons.getBatchFromLayer S hp hthr
      obtain ⟨rfl, -⟩ : b = b' ∧ p' = p'' := by simpa [hget] using hok
      obtain ⟨hi, haligned⟩ := delivered_routing hdel htag
      rw [hcons.settings.thresholdAt_eq, Serving.thresholdAt_start, if_neg (by omega)] at hle
      exact expertEpilogue_fits haligned (by rw [hdel.numTokens]; omega) S ho

/-! ### When one overflows -/

/-- A get of the pool that overflows is one of the device. -/
theorem get_overflows [Inhabited R] {t : Serving W R} (h : Overflows c S t) (numBlocks : ℕ) :
    ∃ d : Device W R, ReflTransGen (Step c S) (start c numBlocks 0 1 1 none) d ∧ Overflow c S d := by
  obtain ⟨i, hpicked, ho⟩ := h
  exact ⟨_, reach_serve _ hpicked.reach, .get i hpicked.pending ho⟩

/-- The tables of the longest sequences need whole blocks. -/
theorem blockTable_overflows (hA : 1 ≤ c.maxBatchSizeAttn) (hb : 1 ≤ c.blockSize)
    (hL : 2 ≤ c.maxSeqLen) (hc : ¬ c.blockSize ∣ c.maxSeqLen) (S : ComparatorSort) :
    Overflow c S (start c (enoughBlocks c) 0 1 1 none : Device W R) := by
  obtain ⟨seqLens, s', ha, ho⟩ := longest_overflows (W := W) hA hL hb hc
  exact .blockTable _ seqLens s' ha ho

/-- Which configurations have room for every copy. -/
theorem neverOverflows_iff [Inhabited R] (hA : 1 ≤ c.maxBatchSizeAttn)
    (hE : 1 ≤ c.maxBatchSizeExpert) (hk : 1 ≤ c.topK) (hb : 1 ≤ c.blockSize)
    (hL : 1 ≤ c.maxSeqLen) :
    NeverOverflows W R c ↔
      (c.maxSeqLen = 1 ∨ c.blockSize ∣ c.maxSeqLen) ∧
        c.maxBatchSizeAttn * c.topK ≤ maxGatherTokens ∧ c.maxBatchSizeExpert ≤ maxGatherTokens := by
  constructor
  · intro hnever
    have hsafe : ∀ {numBlocks : ℕ} {d : Device W R},
        ReflTransGen (Step c .insertion) (start c numBlocks 0 1 1 none) d →
          ¬ Overflow c .insertion d :=
      fun h => hnever .insertion _ 0 1 1 none nofun _ h
    refine ⟨?_, ?_, ?_⟩
    · by_contra hpages
      rw [not_or] at hpages
      have hlong : 2 ≤ c.maxSeqLen := by omega
      exact hsafe .refl (blockTable_overflows hA hb hlong hpages.2 .insertion)
    · by_contra hmany
      have ht : ∃ t : Serving W R, Overflows c .insertion t := by
        rcases Nat.eq_or_lt_of_le hk with hone | hk
        · rw [← hone, Nat.mul_one] at hmany
          exact attention_overflows c .insertion hE (Nat.lt_of_not_le hmany)
        · exact tokenQueue_overflows c .insertion hA hE hk (Nat.lt_of_not_le hmany)
      obtain ⟨t, ht⟩ := ht
      obtain ⟨d, hd, ho⟩ := get_overflows ht 0
      exact hsafe hd ho
    · by_contra hmany
      obtain ⟨t, ht⟩ := expert_overflows (W := W) (R := R) c .insertion hA (Nat.lt_of_not_le hmany)
      obtain ⟨d, hd, ho⟩ := get_overflows ht 0
      exact hsafe hd ho
  · rintro ⟨hpages, hattn, hexpert⟩ S numBlocks firstLayerId numLayers numGroups defrag hd d h
    exact not_overflow hA hE hk hb hpages hattn hexpert hd h

theorem neverOverflows_even :
    NeverOverflows ℕ (List ℕ) ⟨4, 8, 2, 2, 6⟩ ↔
      ((6 = 1 ∨ 2 ∣ 6) ∧ 4 * 2 ≤ maxGatherTokens ∧ 8 ≤ maxGatherTokens) :=
  neverOverflows_iff (by decide) (by decide) (by decide) (by decide) (by decide)

/-- One request of two tokens: its first visit records a third, in a second block of
two, while the table has a column for one. -/
theorem odd_length_overflows : ¬ NeverOverflows ℕ (List ℕ) ⟨1, 1, 1, 2, 3⟩ := by
  intro hnever
  have hvisit : Attends ⟨1, 1, 1, 2, 3⟩ (CPUBlockManager.new 2 4 0 0) CPUBlockManager.promptBatch
      [3] CPUBlockManager.afterPrompt :=
    { size := by decide
      reqIds := rfl
      first := fun _ => ⟨1, rfl, rfl, rfl, rfl, rfl, rfl, by decide, by decide, by decide⟩
      ok := rfl
      within := by decide }
  exact hnever .insertion 4 0 1 1 none nofun _ .refl (.blockTable _ [3] _ hvisit rfl)

end Device

end StreamInfer.Staging
