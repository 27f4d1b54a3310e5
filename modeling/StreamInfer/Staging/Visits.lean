import StreamInfer.Staging.Buffers
import StreamInfer.Kv.Runs
import StreamInfer.Kv.Room

/-! The copies of an attended batch. The block table has a row for every token, as
wide as the longest block list, and a list has the blocks of its length rounded
up; the buffer has the pages of the longest sequence rounded down. So the table
fits when the two agree, or when no request fits at all, since the first visit
already records one token more than the prompt. -/

namespace StreamInfer.Staging

open General General.Stateful Batch BatchMetadata Kv CPUBlockManager Lengths GdrContext

variable {W : Type}

/-- A batch within the threshold whose requests stay within the longest length. -/
structure Attends (c : StagingConfig) (s : CPUBlockManager) (metaC : BatchMetadata W)
    (seqLens : List ℤ) (s' : CPUBlockManager) : Prop where
  size : metaC.numTokens ≤ c.maxBatchSizeAttn
  reqIds : metaC.reqIds.length = metaC.numTokens
  first : metaC.layerId = s.firstLayerId → ∃ k, FirstVisit s metaC k
  ok : updateBlockTable metaC s = .ok seqLens s'
  within : ∀ l ∈ seqLens, l ≤ (c.maxSeqLen : ℤ)

/-- Live requests have at least two recorded tokens. -/
structure Attended (start s : CPUBlockManager) (len : Lengths) : Prop extends Sound start s len where
  two_le : ∀ r n, len r = some n → 2 ≤ n

variable {c : StagingConfig} {start s s' : CPUBlockManager} {metaC : BatchMetadata W}
  {seqLens : List ℤ} {len len' : Lengths} {k : ℕ}

theorem serves_lengths_eq (h : Serves s len) (h' : Serves s len') : len = len' := by
  funext r
  have heq : (len r).map (fun n : ℕ => (n : ℤ)) = (len' r).map fun n : ℕ => (n : ℤ) :=
    (h.recorded r).symm.trans (h'.recorded r)
  exact Option.map_injective Nat.cast_injective heq

theorem map_fst_grown (requests : List (ℤ × ℕ)) :
    (grown requests).map Prod.fst = requests.map Prod.fst := by
  rw [grown, List.map_map]
  rfl

/-- Visited requests have one token more than their prompt or their last length. -/
theorem two_le_afterVisit (h : ∀ r n, len r = some n → 2 ≤ n) (hv : FirstVisit s metaC k)
    (hknown : AllKnown len metaC k) {r : ℤ} {n : ℕ} (hn : afterVisit len metaC k r = some n) :
    2 ≤ n := by
  have hfst : (grown (visited len metaC k)).map Prod.fst = metaC.reqIds := by
    rw [map_fst_grown, map_fst_visited]
  by_cases hr : r ∈ metaC.reqIds
  · obtain ⟨p, hp, rfl⟩ : ∃ p ∈ visited len metaC k, p.1 = r := by
      rw [← map_fst_visited len metaC k] at hr
      exact List.mem_map.mp hr
    have hpos : 1 ≤ p.2 := setAll_forall (fun r n hn => Nat.le_of_succ_le (h r n hn))
      hv.one_le_newRequests (hknown.visited hp)
    have hmem : (p.1, p.2 + 1) ∈ grown (visited len metaC k) := List.mem_map_of_mem hp
    have hset : afterVisit len metaC k p.1 = some (p.2 + 1) :=
      setAll_of_mem _ (by rw [hfst]; exact hv.nodup) hmem
    obtain rfl : p.2 + 1 = n := Option.some.inj (hset.symm.trans hn)
    omega
  · have hnew : r ∉ (newRequests metaC k).map Prod.fst := by
      intro hmem
      obtain ⟨p, hp, rfl⟩ := List.mem_map.mp hmem
      exact hr (List.mem_of_mem_take (List.of_mem_zip hp).1)
    rw [afterVisit, setAll_of_notMem _ (by rwa [hfst]), setAll_of_notMem _ hnew] at hn
    exact h r n hn

/-- A visit of a later layer only reads. -/
theorem updateBlockTable_later (hl : metaC.layerId ≠ s.firstLayerId)
    (hok : updateBlockTable metaC s = .ok seqLens s') : s' = s := by
  simp only [updateBlockTable, get_bind, hl, ↓reduceIte, getDecodeSeqLens, mapM_valueOf_ok_iff] at hok
  exact hok.2

theorem Attends.attended (ha : Attends c s metaC seqLens s') (h : Attended start s len)
    (hb : 0 < start.blockMgr.blockSize) :
    ∃ len', Attended start s' len' ∧ List.Forall₂ (BlockManager.Recorded len') metaC.reqIds seqLens := by
  have hb' : 0 < s.blockMgr.blockSize := by rwa [h.blockSize]
  obtain ⟨len₁, hserves, -, hrec⟩ := seqLens_recorded hb' h.toServes ha.first ha.ok
  refine ⟨len₁, ?_, hrec⟩
  by_cases hl : metaC.layerId = s.firstLayerId
  · obtain ⟨k, hv⟩ := ha.first hl
    obtain ⟨hserves', hgrows, -, -⟩ := updateBlockTable_serves h.toServes hb' hv ha.ok
    obtain ⟨hknown, -⟩ := (updateBlockTable_ok_iff h.toServes hv).mp ha.ok
    obtain rfl := serves_lengths_eq hserves hserves'
    exact
      { toServes := hserves
        blockSize := hgrows.blockSize.trans h.blockSize
        numBlocks := hgrows.numBlocks.trans h.numBlocks
        reservedBlocks := hgrows.reservedBlocks.trans h.reservedBlocks
        two_le := fun r n hn => two_le_afterVisit h.two_le hv hknown hn }
  · obtain rfl := updateBlockTable_later hl ha.ok
    obtain rfl := serves_lengths_eq hserves h.toServes
    exact h

theorem Attended.release (h : Attended start s len) {reqIds : List ℤ}
    (hok : releaseSeqs reqIds s = .ok ⟨⟩ s') : ∃ len', Attended start s' len' := by
  obtain ⟨hserves, -, hbs, hnb, hrb, -⟩ := releaseSeqs_serves h.toServes hok
  refine ⟨_, ⟨hserves, hbs.trans h.blockSize, hnb.trans h.numBlocks, hrb.trans h.reservedBlocks⟩, ?_⟩
  intro r n hn
  unfold clearAll at hn
  split_ifs at hn
  exact h.two_le r n hn

/-! ### The table -/

/-- The width of the table: the blocks of the longest sequence. -/
def tableWidth (blockSize : ℕ) (seqLens : List ℤ) : ℕ :=
  (seqLens.map fun l => l.toNat ⌈/⌉ blockSize).foldl max 0

theorem foldl_max_le {xs : List ℕ} {a m : ℕ} (ha : a ≤ m) (h : ∀ x ∈ xs, x ≤ m) :
    xs.foldl max a ≤ m := by
  induction xs generalizing a with
  | nil => exact ha
  | cons x xs ih =>
    obtain ⟨hx, hxs⟩ := List.forall_mem_cons.mp h
    exact ih (Nat.max_le.mpr ⟨ha, hx⟩) hxs

/-- What is copied for a batch of live requests. -/
theorem prepareBlockTableGdr_eq {m : BlockManager} (h : Tracks m len) (hb : 0 < m.blockSize)
    (hq : metaC.reqIds.length = metaC.numTokens)
    (hlens : List.Forall₂ (BlockManager.Recorded len) metaC.reqIds seqLens) (b : BatchTensorBuffer) :
    prepareBlockTableGdr m metaC seqLens b = (do
      b.blockTable.copyFromHost (metaC.numTokens * tableWidth m.blockSize seqLens) 4
      b.slotMapping.copyFromHost metaC.numTokens 8
      return tableWidth m.blockSize seqLens) := by
  have hlive : ∀ r ∈ metaC.reqIds, ∃ t, m.blockTables.lookup r = some t := by
    intro r hr
    obtain ⟨i, hi, rfl⟩ := List.mem_iff_getElem.mp hr
    exact (BlockManager.Recorded.exists_last h hb (hlens.get hi (hlens.length_eq ▸ hi))).1
  obtain ⟨lists, hlists⟩ := exists_forall₂ hlive
  have hok := BlockManager.batchBlockLists_ok hq hlists
  have hlengths : lists.map List.length = seqLens.map fun l => l.toNat ⌈/⌉ m.blockSize := by
    apply List.ext_getElem
    · rw [List.length_map, List.length_map, ← hlists.length_eq, hlens.length_eq]
    · intro i h₁ h₂
      simp only [List.length_map] at h₁ h₂
      have hi : i < metaC.reqIds.length := hlists.length_eq ▸ h₁
      obtain ⟨q, hq', hl⟩ := hlens.get hi h₂
      obtain ⟨t, ht, htlen⟩ := h.exists_table hq'
      obtain rfl : t = lists[i] := Option.some.inj (ht.symm.trans (hlists.get hi h₁))
      have hl' : seqLens[i] = ((q + 1 : ℕ) : ℤ) := hl
      rw [List.getElem_map, List.getElem_map, htlen, hl', Int.toNat_natCast]
  have hwidth : (lists.map List.length).foldl max 0 = tableWidth m.blockSize seqLens := by
    rw [hlengths, tableWidth]
  obtain ⟨table, slots, width, -, hgdr, htable, hslots⟩ := BlockManager.prepare_ok h hb hq hlens
  have hslotsLen : slots.length = metaC.numTokens := hslots.length_eq.symm.trans hq
  obtain rfl : width = tableWidth m.blockSize seqLens := by
    have hread := hgdr
    simp only [BlockManager.prepareBlockTableGdr, hok, bind, Except.bind, hwidth] at hread
    split at hread
    · cases hread
    · exact (congrArg (·.2.2) (Except.ok.inj hread)).symm
  simp only [prepareBlockTableGdr, hgdr, bind, Except.bind, htable, hslotsLen]

/-- The table fits when the longest sequence fills its last block, or when no
request is short enough. -/
theorem tableWidth_le (hb : 0 < c.blockSize)
    (hc : c.maxSeqLen = 1 ∨ c.blockSize ∣ c.maxSeqLen)
    (hlens : ∀ l ∈ seqLens, 2 ≤ l ∧ l ≤ (c.maxSeqLen : ℤ)) :
    tableWidth c.blockSize seqLens ≤ c.maxSeqLen / c.blockSize := by
  apply foldl_max_le (Nat.zero_le _)
  intro x hx
  obtain ⟨l, hl, rfl⟩ := List.mem_map.mp hx
  obtain ⟨htwo, hmax⟩ := hlens l hl
  rcases hc with hone | ⟨q, hq⟩
  · omega
  · rw [hq, Nat.mul_div_cancel_left q hb, ceilDiv_le_iff_le_mul hb]
    omega

/-- The longest sequence needs one page more than the buffer has. -/
theorem lt_tableWidth (hb : 0 < c.blockSize) (hc : ¬ c.blockSize ∣ c.maxSeqLen)
    (hmem : (c.maxSeqLen : ℤ) ∈ seqLens) :
    c.maxSeqLen / c.blockSize < tableWidth c.blockSize seqLens := by
  have hle : c.maxSeqLen ⌈/⌉ c.blockSize ≤ tableWidth c.blockSize seqLens :=
    BlockManager.foldl_max_ge _ 0 (.inl (List.mem_map.mpr ⟨_, hmem, by rw [Int.toNat_natCast]⟩))
  refine lt_of_lt_of_le ?_ hle
  by_contra hnot
  have hmul := (ceilDiv_le_iff_le_mul hb).mp (Nat.le_of_not_lt hnot)
  have hdiv := Nat.div_add_mod c.maxSeqLen c.blockSize
  have hmod : c.maxSeqLen % c.blockSize ≠ 0 := fun h0 => hc (Nat.dvd_of_mod_eq_zero h0)
  omega

/-! ### No copy overflows -/

theorem Attends.lens_bounds (ha : Attends c s metaC seqLens s') (h : Attended start s' len)
    (hrec : List.Forall₂ (BlockManager.Recorded len) metaC.reqIds seqLens) :
    ∀ l ∈ seqLens, 2 ≤ l ∧ l ≤ (c.maxSeqLen : ℤ) := by
  intro l hl
  refine ⟨?_, ha.within l hl⟩
  obtain ⟨i, hi, rfl⟩ := List.mem_iff_getElem.mp hl
  obtain ⟨q, hq, hlen⟩ := hrec.get (hrec.length_eq.symm ▸ hi) hi
  have htwo := h.two_le _ _ hq
  have hlen' : seqLens[i] = ((q + 1 : ℕ) : ℤ) := hlen
  omega

theorem Attends.blockTable_fits (ha : Attends c s metaC seqLens s') (h : Attended start s len)
    (hbs : start.blockMgr.blockSize = c.blockSize) (hb : 0 < c.blockSize)
    (hc : c.maxSeqLen = 1 ∨ c.blockSize ∣ c.maxSeqLen) :
    prepareBlockTableGdr s'.blockMgr metaC seqLens
      (.new c.maxBatchSizeAttn (c.maxSeqLen / c.blockSize)) ≠ .error overflow := by
  obtain ⟨len', h', hrec⟩ := ha.attended h (by rwa [hbs])
  have hbs' : s'.blockMgr.blockSize = c.blockSize := h'.blockSize.trans hbs
  rw [prepareBlockTableGdr_eq h'.tracks (by rwa [hbs']) ha.reqIds hrec, hbs']
  have hwidth := tableWidth_le hb hc (ha.lens_bounds h' hrec)
  apply bind_ne_overflow (copyFromHost_ne_overflow (Nat.mul_le_mul ha.size hwidth) 4)
  intro _
  apply bind_ne_overflow (copyFromHost_ne_overflow ha.size 8)
  intro _
  simp [pure, Except.pure]

theorem Attends.seqInfo_fits (ha : Attends c s metaC seqLens s') (numPages : ℕ) :
    prepareSeqInfoGdr metaC seqLens (.new c.maxBatchSizeAttn numPages) ≠ .error overflow := by
  have hsize := ha.size
  unfold prepareSeqInfoGdr
  dsimp only
  split_ifs with hn
  · apply bind_ne_overflow (copyFromHost_ne_overflow hsize 4)
    intro _
    apply bind_ne_overflow
    · apply copyFromHost_ne_overflow
      rw [List.length_map, List.length_take]
      omega
    · intro _
      apply copyFromHost_ne_overflow
      rw [List.length_scanl, List.length_take]
      omega
  · simp [throw, throwThe, MonadExceptOf.throw, overflow]

/-- The choices of the gate for the tokens of a batch. -/
structure GateChoices (topK : ℕ) (metaC : BatchMetadata W) (expertIds : List ℕ) : Prop where
  length : expertIds.length = metaC.numTokens * topK
  bounded : ∀ e ∈ expertIds, e < maxNumExperts

theorem exists_sortByExpert [Zero W] {m : BatchMetadata W} (hlen : m.expIds.length = m.numTokens)
    (hlt : ∀ e ∈ m.expIds, e < maxNumExperts) :
    ∃ sorted, m.sortByExpert = .ok (sorted, countingPositions m.expIds) := by
  have hdest := expertDestinations_ok m.expIds hlt
  rw [hlen] at hdest
  have hpos : m.numTokens = (countingPositions m.expIds).length := by
    rw [length_countingPositions, hlen]
  simp only [sortByExpert, hdest, permuteTokenInfos, if_pos hpos, bind, Except.bind]
  split_ifs
  · exact ⟨_, rfl⟩
  · exact ⟨_, rfl⟩

theorem tokenMapping_fits [Zero W] {metaC : BatchMetadata W}
    (hsize : metaC.numTokens ≤ c.maxBatchSizeAttn) {expertIds : List ℕ}
    (h : GateChoices c.topK metaC expertIds) (expertWeights : List W) :
    stageTokenMapping c.topK metaC expertIds expertWeights (.new c) ≠ .error overflow := by
  have hnum : (metaC.duplicateTopk c.topK).numTokens = expertIds.length := by
    rw [h.length, duplicateTopk]
    split_ifs with hone
    · rw [hone, Nat.mul_one]
    · rfl
  set routed : BatchMetadata W :=
    { metaC.duplicateTopk c.topK with expIds := expertIds, topkWeights := expertWeights } with hrouted
  obtain ⟨sorted, hok⟩ := exists_sortByExpert (m := routed) hnum.symm h.bounded
  have hle : (countingPositions expertIds).length ≤ c.maxBatchSizeAttn * c.topK := by
    rw [length_countingPositions, h.length]
    exact Nat.mul_le_mul_right _ hsize
  rw [stageTokenMapping, ← hrouted, hok]
  exact copyFromHost_ne_overflow hle 4

/-! ### A full batch of the longest sequences -/

/-- As many new requests as a batch holds, their prompts one token short of the
longest length. -/
def longestBatch (c : StagingConfig) : BatchMetadata W where
  batchTag := .attention
  shape := (c.maxBatchSizeAttn, 1)
  dtype := "bf16"
  layerId := 0
  reqIds := (List.range c.maxBatchSizeAttn).map fun i : ℕ => (i : ℤ)
  expIds := []
  topkWeights := []
  attnDpRanks := List.replicate c.maxBatchSizeAttn 0
  initPrefillLens := List.replicate c.maxBatchSizeAttn ((c.maxSeqLen : ℤ) - 1)
  numPrefillSeqs := some c.maxBatchSizeAttn
  numPrefillTokens := some c.maxBatchSizeAttn
  numDecodeTokens := some 0

/-- Blocks for those prompts and one more for each request. -/
def enoughBlocks (c : StagingConfig) : ℕ :=
  c.maxBatchSizeAttn * ((c.maxSeqLen - 1) ⌈/⌉ c.blockSize) + c.maxBatchSizeAttn + 1

theorem nodup_longestBatch (c : StagingConfig) : (longestBatch c : BatchMetadata W).reqIds.Nodup :=
  List.nodup_range.map fun _ _ h => Int.ofNat.inj h

theorem longestBatch_firstVisit (hL : 2 ≤ c.maxSeqLen) (blockSize numBlocks : ℕ) :
    FirstVisit (CPUBlockManager.new blockSize numBlocks 0 0) (longestBatch c : BatchMetadata W)
      c.maxBatchSizeAttn where
  layer := rfl
  seqs := rfl
  tokens := rfl
  decodes := by simp [longestBatch, numTokens]
  reqIds := by simp [longestBatch, numTokens]
  lens := by simp [longestBatch, numTokens]
  le := Nat.le_refl _
  nodup := nodup_longestBatch c
  prompt := by
    intro l hl
    have hmem : l ∈ List.replicate c.maxBatchSizeAttn ((c.maxSeqLen : ℤ) - 1) :=
      List.mem_of_mem_take hl
    obtain rfl := List.eq_of_mem_replicate hmem
    omega

theorem newRequests_longestBatch (c : StagingConfig) :
    newRequests (longestBatch c : BatchMetadata W) c.maxBatchSizeAttn =
      (List.range c.maxBatchSizeAttn).map fun i : ℕ => ((i : ℤ), c.maxSeqLen - 1) := by
  apply List.ext_getElem
  · simp [newRequests, longestBatch]
  · intro i h₁ h₂
    have hcast : ((c.maxSeqLen : ℤ) - 1).toNat = c.maxSeqLen - 1 := by omega
    simp [newRequests, longestBatch, hcast]

/-- Its first visit records the longest length for every request. -/
theorem exists_attends_longest (hL : 2 ≤ c.maxSeqLen) (hb : 0 < c.blockSize) :
    ∃ seqLens s', Attends c (CPUBlockManager.new c.blockSize (enoughBlocks c) 0 0)
        (longestBatch c : BatchMetadata W) seqLens s' ∧
      seqLens.length = c.maxBatchSizeAttn ∧ ∀ l ∈ seqLens, l = c.maxSeqLen := by
  set s := CPUBlockManager.new c.blockSize (enoughBlocks c) 0 0 with hs
  set requests := (List.range c.maxBatchSizeAttn).map fun i : ℕ => ((i : ℤ), c.maxSeqLen - 1) with hreq
  have hv : FirstVisit s (longestBatch c : BatchMetadata W) c.maxBatchSizeAttn :=
    longestBatch_firstVisit hL _ _
  have hserves := serves_new c.blockSize (enoughBlocks c) 0 0
  have hnew : newRequests (longestBatch c : BatchMetadata W) c.maxBatchSizeAttn = requests :=
    newRequests_longestBatch c
  have hnd : (requests.map Prod.fst).Nodup := by
    rw [hreq, List.map_map]
    exact nodup_longestBatch (W := W) c
  have hset : ∀ r ∈ (longestBatch c : BatchMetadata W).reqIds,
      setAll (fun _ => none) (newRequests (longestBatch c : BatchMetadata W) c.maxBatchSizeAttn) r =
        some (c.maxSeqLen - 1) := by
    intro r hr
    obtain ⟨i, hi, rfl⟩ := List.mem_map.mp hr
    rw [hnew]
    exact setAll_of_mem _ hnd (List.mem_map.mpr ⟨i, hi, rfl⟩)
  have hknown : AllKnown (fun _ => none) (longestBatch c : BatchMetadata W) c.maxBatchSizeAttn := by
    intro r hr
    rw [hset r hr]
    rfl
  have hvisited : visited (fun _ => none) (longestBatch c : BatchMetadata W) c.maxBatchSizeAttn =
      (longestBatch c : BatchMetadata W).reqIds.map fun r => (r, c.maxSeqLen - 1) :=
    List.map_congr_left fun r hr => by rw [hset r hr, Option.getD_some]
  have hprefill : Tracks.prefillBlocks c.blockSize requests =
      c.maxBatchSizeAttn * ((c.maxSeqLen - 1) ⌈/⌉ c.blockSize) := by
    rw [Tracks.prefillBlocks, hreq, List.map_map]
    simp [Function.comp_def]
  have hlen := hv.one_le_newRequests
  rw [hnew] at hlen
  -- the prompts are allocated, and a block for each next token is left
  have hfree : s.blockMgr.freeBlocks.length = enoughBlocks c := List.length_range
  obtain ⟨m₁, halloc⟩ := hserves.tracks.exists_allocateAll hb hlen hnd (fun _ _ => rfl) (by
    change Tracks.prefillBlocks c.blockSize requests + 0 ≤ s.blockMgr.freeBlocks.length
    rw [hprefill, hfree, enoughBlocks]
    omega)
  obtain ⟨h₁, hg₁, hf₁⟩ := hserves.tracks.allocateAll hb hlen halloc
  have hpos : ∀ p ∈ visited (fun _ => none) (longestBatch c : BatchMetadata W) c.maxBatchSizeAttn,
      1 ≤ p.2 := by
    rw [hvisited]
    intro p hp
    obtain ⟨r, -, rfl⟩ := List.mem_map.mp hp
    dsimp only
    omega
  have hlive : ∀ p ∈ visited (fun _ => none) (longestBatch c : BatchMetadata W) c.maxBatchSizeAttn,
      setAll (fun _ => none) requests p.1 = some p.2 := by
    intro p hp
    rw [← hnew]
    exact hknown.visited hp
  have hcount : Tracks.boundaryCount c.blockSize
      (visited (fun _ => none) (longestBatch c : BatchMetadata W) c.maxBatchSizeAttn) ≤
        c.maxBatchSizeAttn := by
    refine List.countP_le_length.trans_eq ?_
    simp [visited, longestBatch]
  obtain ⟨m₂, happend⟩ := (h₁.exists_appendAll_iff (by rwa [hg₁.blockSize]) hpos
    (by rw [map_fst_visited]; exact nodup_longestBatch c) hlive).mpr (by
      right
      rw [hg₁.blockSize]
      change s.blockMgr.freeBlocks.length = _ + Tracks.prefillBlocks c.blockSize requests at hf₁
      rw [hfree, hprefill, enoughBlocks] at hf₁
      exact lt_of_le_of_lt hcount (by omega))
  have hlens : (grown (visited (fun _ => none) (longestBatch c : BatchMetadata W)
      c.maxBatchSizeAttn)).map (fun p => (p.2 : ℤ)) =
        List.replicate c.maxBatchSizeAttn (c.maxSeqLen : ℤ) := by
    rw [hvisited, grown, List.map_map, List.map_map, longestBatch, List.map_map]
    have hone : ((c.maxSeqLen - 1 + 1 : ℕ) : ℤ) = c.maxSeqLen := by omega
    simp [Function.comp_def]
    omega
  refine ⟨List.replicate c.maxBatchSizeAttn (c.maxSeqLen : ℤ), _, ⟨?_, ?_, fun _ => ⟨_, hv⟩,
    (updateBlockTable_ok_iff hserves hv).mpr ⟨hknown, hlens.symm, m₂, ?_, rfl⟩, ?_⟩, ?_, ?_⟩
  · exact Nat.le_refl _
  · simp [longestBatch, numTokens]
  · rw [visitTables, hnew]
    exact (bind_of_ok halloc).trans happend
  · intro l hl
    rw [List.eq_of_mem_replicate hl]
  · exact List.length_replicate
  · intro l hl
    exact List.eq_of_mem_replicate hl

/-- Unless the block size divides the longest length, its table overflows. -/
theorem longest_overflows (hA : 1 ≤ c.maxBatchSizeAttn) (hL : 2 ≤ c.maxSeqLen) (hb : 0 < c.blockSize)
    (hc : ¬ c.blockSize ∣ c.maxSeqLen) :
    ∃ seqLens s', Attends c (CPUBlockManager.new c.blockSize (enoughBlocks c) 0 0)
        (longestBatch c : BatchMetadata W) seqLens s' ∧
      prepareBlockTableGdr s'.blockMgr (longestBatch c : BatchMetadata W) seqLens
        (.new c.maxBatchSizeAttn (c.maxSeqLen / c.blockSize)) = .error overflow := by
  obtain ⟨seqLens, s', ha, hlen, hall⟩ := exists_attends_longest (W := W) hL hb
  have hstart : Attended (CPUBlockManager.new c.blockSize (enoughBlocks c) 0 0)
      (CPUBlockManager.new c.blockSize (enoughBlocks c) 0 0) fun _ => none :=
    ⟨⟨serves_new _ _ _ _, rfl, rfl, rfl⟩, fun _ _ h => by cases h⟩
  obtain ⟨len', h', hrec⟩ := ha.attended hstart hb
  have hbs : s'.blockMgr.blockSize = c.blockSize := h'.blockSize
  have hmem : (c.maxSeqLen : ℤ) ∈ seqLens := by
    obtain ⟨l, hl⟩ := List.exists_mem_of_length_pos (hlen ▸ hA)
    rwa [hall l hl] at hl
  have hwidth := lt_tableWidth hb hc hmem
  refine ⟨seqLens, s', ha, ?_⟩
  rw [prepareBlockTableGdr_eq h'.tracks (by rwa [hbs]) ha.reqIds hrec, hbs]
  apply bind_overflow
  exact copyFromHost_overflow (Nat.mul_lt_mul_of_pos_left hwidth hA) (by decide)

end StreamInfer.Staging
