import StreamInfer.Overlap.Results

/-! When the host overwrites a half. A region alternates between its two halves each time it is
handed out, so a half comes back with the second hand-out after its own. A forwarded batch records
an event, which the next iteration waits for: by then its kernels are known to be complete. A
sampled batch launches kernels without an event. They are known to be complete only when a later
batch is waited for, or an attention batch that was still in the queue; where neither happens in
time, the third of three uses of a region overwrites a half that a kernel may still read. -/

namespace StreamInfer.Overlap

open General General.Stateful Batch BatchMetadata Stream

variable {W R : Type} {cfg : LoopConfig} {S : ComparatorSort} {scale : W → R → R}

/-! ### What an iteration hands out -/

/-- The regions whose halves a load hands out. -/
def Load.regions : Load → List Region
  | .one => []
  | .gather => [.gatherSrcPtrs]
  | .gatherAndSum => [.gatherAndSumSrcPtrs]

/-- The regions that an attention batch hands out before it waits for another. -/
def Scheduled.attnRegions (cfg : LoopConfig) (b : Scheduled W R) : List Region :=
  if b.metaC.layerId = cfg.modelTotalNumLayers then
    if b.continueIds.length ≠ 0 then [.sampleContinueIds] else []
  else [.batchTensorBuffer, .attnTopkIds, .attnTopkWeights]

def expertRegions : Engine.ExpertClass → List Region
  | .serial => []
  | .cutlass | .cutlassFp8 => [.batchSizes]
  | .deepGemmBf16 | .deepGemmFp8 => [.tokenMIndices]

/-- The regions that an iteration hands out for its own batch. -/
def Scheduled.regions (cfg : LoopConfig) (b : Scheduled W R) : List Region :=
  b.load.regions ++
    if b.metaC.isAttention then b.attnRegions cfg
    else expertRegions cfg.expertCls ++ [.expertTokenWeights, .expertTokenMapping]

/-- Without a batch none. -/
def regionsOf (cfg : LoopConfig) (outcome : Option (Scheduled W R)) : List Region :=
  outcome.elim [] (Scheduled.regions cfg)

/-- The region is handed out in the iteration. -/
def usesRegion (cfg : LoopConfig) (r : Region) (outcome : Option (Scheduled W R)) : Bool :=
  decide (r ∈ regionsOf cfg outcome)

def ForwardBatch.isAttention : ForwardBatch W → Bool
  | .attention _ => true
  | .expert _ => false

/-! ### Parts of an iteration -/

/-- From `s` on halves of the regions `rs` were handed out, and kernels launched that read no other
halves; what was overwritten in use was so in `s`. -/
structure Tracks (rs : List Region) (s s' : Loop W R) : Prop where
  launched : ∃ ks, s'.stream.launched = s.stream.launched ++ ks ∧
    ∀ k ∈ ks, ∀ half ∈ k.reads, half.region ∈ rs ∧ half.index = s'.index half.region
  known : s'.stream.known = s.stream.known
  index : ∀ r, s'.index r = if r ∈ rs then !s.index r else s.index r
  overwritten : ∀ half ∈ s'.overwritten, half ∈ s.overwritten ∨
    half.region ∈ rs ∧ half.index = s'.index half.region ∧ inUse s half = true
  resultQueue : s'.resultQueue = s.resultQueue
  lastBatch : s'.lastBatch = s.lastBatch

namespace Tracks

variable {rs : List Region} {s s' : Loop W R}

theorem refl (s : Loop W R) : Tracks [] s s :=
  ⟨⟨[], by simp, by simp⟩, rfl, fun _ => by simp, fun _ h => .inl h, rfl, rfl⟩

/-- A kernel that reads halves handed out since. -/
theorem launch (scale : W → R → R) (h : Tracks rs s s') {k : Kernel W R}
    (hk : ∀ half ∈ k.reads, half.region ∈ rs ∧ half.index = s'.index half.region) :
    Tracks rs s { s' with stream := s'.stream.launch (run scale) k } := by
  obtain ⟨ks, hks, hreads⟩ := h.launched
  refine ⟨⟨ks ++ [k], ?_, ?_⟩, h.known, h.index, h.overwritten, h.resultQueue, h.lastBatch⟩
  · rw [launch_launched, hks, List.append_assoc]
  · rw [List.forall_mem_append]
    exact ⟨hreads, by simpa using hk⟩

theorem newTensor (h : Tracks rs s s') (n : ℕ) : Tracks rs s { s' with nextTensor := n } :=
  ⟨h.launched, h.known, h.index, h.overwritten, h.resultQueue, h.lastBatch⟩

/-- Another region's half is handed out. -/
theorem handOut (h : Tracks rs s s') {r : Region} (hr : r ∉ rs) :
    Tracks (rs ++ [r]) s { s' with index := Function.update s'.index r (!s'.index r) } := by
  have hupdate : ∀ r' ∈ rs, Function.update s'.index r (!s'.index r) r' = s'.index r' := by
    intro r' hr'
    refine Function.update_of_ne ?_ _ _
    rintro rfl
    exact hr hr'
  obtain ⟨ks, hks, hreads⟩ := h.launched
  refine ⟨⟨ks, hks, fun k hk half hhalf => ?_⟩, h.known, fun r' => ?_, fun half hhalf => ?_, h.resultQueue,
    h.lastBatch⟩
  · obtain ⟨hmem, hindex⟩ := hreads k hk half hhalf
    exact ⟨List.mem_append_left _ hmem, hindex.trans (hupdate _ hmem).symm⟩
  · show Function.update s'.index r (!s'.index r) r' = _
    by_cases heq : r' = r
    · subst heq
      rw [Function.update_self, h.index, if_neg hr, if_pos (by simp)]
    · rw [Function.update_of_ne heq, h.index]
      simp [heq]
  · rcases h.overwritten half hhalf with hold | ⟨hmem, hindex, huse⟩
    · exact .inl hold
    · exact .inr ⟨List.mem_append_left _ hmem, hindex.trans (hupdate _ hmem).symm, huse⟩

/-- A half of a region not handed out since is in use only if it was so before. -/
theorem inUse_of (h : Tracks rs s s') {half : Half} (hr : half.region ∉ rs) (huse : inUse s' half = true) :
    inUse s half = true := by
  obtain ⟨ks, hks, hreads⟩ := h.launched
  simp only [inUse, unknown, List.any_eq_true, decide_eq_true_eq] at huse ⊢
  obtain ⟨k, hk, hmem⟩ := huse
  rw [hks, h.known, List.drop_append, List.mem_append] at hk
  rcases hk with hk | hk
  · exact ⟨k, hk, hmem⟩
  · exact absurd (hreads k (List.mem_of_mem_drop hk) half hmem).1 hr

/-- The host fills a half handed out since. -/
theorem copy (scale : W → R → R) (half : Half) (h : Tracks rs s s') (hmem : half.region ∈ rs)
    (hindex : half.index = s'.index half.region) (huse : inUse s' half = true → inUse s half = true)
    (f : Staging W → Staging W) :
    Tracks rs s { s' with
      stream := s'.stream.write (run scale) f
      overwritten := if inUse s' half then s'.overwritten ++ [half] else s'.overwritten } := by
  refine ⟨h.launched, h.known, h.index, fun half' hhalf => ?_, h.resultQueue, h.lastBatch⟩
  dsimp only at hhalf
  split_ifs at hhalf with hin
  · rcases List.mem_append.mp hhalf with hold | hnew
    · exact h.overwritten half' hold
    · obtain rfl := List.mem_singleton.mp hnew
      exact .inr ⟨hmem, hindex, huse hin⟩
  · exact h.overwritten half' hhalf

/-- A half of another region is handed out and filled. -/
theorem stage (scale : W → R → R) (h : Tracks rs s s') {r : Region} (hr : r ∉ rs) (f : Staging W → Staging W) :
    Tracks (rs ++ [r]) s { s' with
      index := Function.update s'.index r (!s'.index r)
      stream := s'.stream.write (run scale) f
      overwritten := if inUse s' ⟨r, !s'.index r⟩ then s'.overwritten ++ [⟨r, !s'.index r⟩]
        else s'.overwritten } :=
  (h.handOut hr).copy scale _ (by simp) (by simp) (h.inUse_of hr) f

/-- A kernel reads the half handed out last. -/
theorem reads_last {half : Half} {rs : List Region} {s : Loop W R} (hmem : half.region ∈ rs)
    (hindex : half.index = s.index half.region) :
    ∀ h ∈ [half], h.region ∈ rs ∧ h.index = s.index h.region := by
  intro h hh
  obtain rfl := List.mem_singleton.mp hh
  exact ⟨hmem, hindex⟩

end Tracks

/-! ### The first half of an iteration -/

theorem schedule_tracks {load : Load} {s s' : Loop W R} (hok : schedule scale load s = .ok ⟨⟩ s') :
    Tracks load.regions s s' := by
  cases load with
  | one =>
    obtain ⟨-, rfl⟩ := pure_ok_iff.mp hok
    exact .refl _
  | gather =>
    cases hok
    exact ((Tracks.refl s).stage scale (by simp) id).launch scale (Tracks.reads_last (by simp) (by simp))
  | gatherAndSum =>
    cases hok
    exact ((Tracks.refl s).stage scale (by simp) id).launch scale (Tracks.reads_last (by simp) (by simp))

theorem sampleResults_tracks {rs : List Region} {continueIds : List ℕ} {s s₁ s' : Loop W R}
    (h : Tracks rs s s₁) (hr : Region.sampleContinueIds ∉ rs)
    (hok : sampleResults scale continueIds s₁ = .ok ⟨⟩ s') :
    Tracks (rs ++ if continueIds.length ≠ 0 then [.sampleContinueIds] else []) s s' := by
  unfold sampleResults at hok
  split_ifs at hok ⊢ with hne
  · cases hok
    exact (h.stage scale hr id).launch scale (Tracks.reads_last (by simp) (by simp))
  · obtain ⟨-, rfl⟩ := pure_ok_iff.mp hok
    rwa [List.append_nil]

/-- The forwarded batch and the half that its kernels read. -/
theorem preprocessBatchAttn_tracks {rs : List Region} {b : Scheduled W R} {s s₁ s' : Loop W R}
    {r : Option (AttentionForwardBatch W)} (h : Tracks rs s s₁)
    (hr : ∀ region ∈ [Region.sampleContinueIds, .batchTensorBuffer, .attnTopkIds, .attnTopkWeights], region ∉ rs)
    (hok : preprocessBatchAttn cfg scale b s₁ = .ok r s') :
    Tracks (rs ++ b.attnRegions cfg) s s' ∧
      (r.isSome = decide (b.metaC.layerId ≠ cfg.modelTotalNumLayers)) ∧
      ∀ fb ∈ r, fb.batchTensors = ⟨.batchTensorBuffer, s'.index .batchTensorBuffer⟩ := by
  unfold preprocessBatchAttn at hok
  unfold Scheduled.attnRegions
  split_ifs at hok with hlayer
  · obtain ⟨⟨⟩, s₂, hsample, hok⟩ := bind_ok_iff.mp hok
    obtain ⟨rfl, rfl⟩ := pure_ok_iff.mp hok
    rw [if_pos hlayer]
    exact ⟨sampleResults_tracks h (hr _ (by simp)) hsample, by simp [hlayer], by simp⟩
  · rw [if_neg hlayer]
    cases hd : b.metaC.numDecodeTokens with
    | none =>
      rw [hd] at hok
      cases hok
    | some d =>
      cases hp : b.metaC.numPrefillTokens with
      | none =>
        rw [hd, hp] at hok
        cases hok
      | some p =>
        rw [hd, hp] at hok
        cases hok
        have hstage := (h.stage scale (hr .batchTensorBuffer (by simp)) id).launch scale
          (k := .positions ⟨.batchTensorBuffer, !s₁.index .batchTensorBuffer⟩)
          (Tracks.reads_last (by simp) (by simp))
        have hids := hr .attnTopkIds (by simp)
        have hweights := hr .attnTopkWeights (by simp)
        have hall := (hstage.handOut (r := .attnTopkIds) (by simp [hids])).handOut (r := .attnTopkWeights)
          (by simp [hweights])
        rw [List.append_assoc, List.append_assoc] at hall
        refine ⟨hall, by simp [hlayer], ?_⟩
        rintro fb ⟨⟩
        rfl

/-- The event of a launched batch stands after its kernels. -/
theorem executeBatchAttn_tracks {rs : List Region} {out : Outputs W R} {fb : AttentionForwardBatch W}
    {s s₁ s' : Loop W R} {r : AttentionForwardBatch W × ForwardResult} (h : Tracks rs s s₁)
    (hmem : Region.batchTensorBuffer ∈ rs)
    (hfb : fb.batchTensors = ⟨.batchTensorBuffer, s₁.index .batchTensorBuffer⟩)
    (hok : executeBatchAttn cfg scale out fb s₁ = .ok r s') :
    Tracks rs s s' ∧ r.2.syncEvent = some s'.stream.record := by
  have hread : ∀ half ∈ [fb.batchTensors], half.region ∈ rs ∧ half.index = s₁.index half.region :=
    Tracks.reads_last (by simpa [hfb] using hmem) (by simp [hfb])
  unfold executeBatchAttn at hok
  split_ifs at hok with hcond
  · unfold executeGraph at hok
    cases hbucket : getBucketByNumTokens (attnGraphBatchSizes cfg.maxAttnGraphBsz) fb.metaC.numTokens with
    | error e =>
      rw [hbucket] at hok
      cases hok
    | ok bucket =>
      rw [hbucket] at hok
      cases hok
      have hgraph := ((h.launch scale (k := .graphPreprocess (some fb.batchTensors)) hread).launch scale
        (k := .attnReplay bucket fb.layerId out) (by simp [Kernel.reads])).newTensor (s₁.nextTensor + 1)
      exact ⟨hgraph.launch scale (by simp [Kernel.reads]), rfl⟩
  · cases hok
    exact ⟨(h.newTensor (s₁.nextTensor + 1)).launch scale hread, rfl⟩

theorem preprocessBatchExpert_tracks {rs : List Region} {b : Scheduled W R} {s s₁ s' : Loop W R}
    {fb : ExpertForwardBatch W} (h : Tracks rs s s₁)
    (hr : ∀ region ∈ [Region.batchSizes, .tokenMIndices], region ∉ rs)
    (hok : preprocessBatchExpert cfg scale b s₁ = .ok fb s') :
    Tracks (rs ++ expertRegions cfg.expertCls) s s' ∧
      ∀ half ∈ fb.sizes, half.region ∈ expertRegions cfg.expertCls ∧ half.index = s'.index half.region := by
  unfold preprocessBatchExpert prepareBszAndIndices at hok
  cases hcls : cfg.expertCls with
  | serial =>
    rw [hcls] at hok
    cases hok
    exact ⟨by rwa [expertRegions, List.append_nil], by simp⟩
  | cutlass | cutlassFp8 =>
    rw [hcls] at hok
    cases hok
    refine ⟨h.stage scale (hr _ (by simp)) id, ?_⟩
    rintro half ⟨⟩
    exact ⟨by simp [expertRegions], by simp⟩
  | deepGemmBf16 | deepGemmFp8 =>
    rw [hcls] at hok
    cases hok
    refine ⟨h.stage scale (hr _ (by simp)) id, ?_⟩
    rintro half ⟨⟩
    exact ⟨by simp [expertRegions], by simp⟩

theorem executeExperts_tracks {rs : List Region} {out : List R} {fb : ExpertForwardBatch W}
    {s s₁ s' : Loop W R} {hiddens : Hiddens} (h : Tracks rs s s₁)
    (hfb : ∀ half ∈ fb.sizes, half.region ∈ rs ∧ half.index = s₁.index half.region)
    (hok : executeExperts cfg scale out fb s₁ = .ok hiddens s') :
    Tracks rs s s' := by
  have hread : ∀ half ∈ fb.sizes.toList, half.region ∈ rs ∧ half.index = s₁.index half.region :=
    fun half hhalf => hfb half (Option.mem_toList.mp hhalf)
  unfold executeExperts at hok
  by_cases hle : fb.numTokens ≤ cfg.maxBatchSizeExpert
  · rw [ensure_bind hle] at hok
    split_ifs at hok with hgraph
    · cases hbucket : getBucketByNumTokens (expertGraphBatchSizes cfg.maxBatchSizeExpert) fb.numTokens with
      | error e =>
        rw [hbucket] at hok
        cases hok
      | ok bucket =>
        rw [hbucket] at hok
        cases hok
        exact (h.launch scale (k := .graphPreprocess fb.sizes) hread).launch scale (by simp [Kernel.reads])
    · cases hok
      exact (h.newTensor (s₁.nextTensor + 1)).launch scale hread
  · obtain ⟨⟨⟩, s₂, hensure, -⟩ := bind_ok_iff.mp hok
    exact absurd (ensure_ok_iff.mp hensure).1 hle

theorem executeBatchExpert_tracks [Zero W] {rs : List Region} {out : List R} {fb : ExpertForwardBatch W}
    {s s₁ s' : Loop W R} {r : ExpertForwardBatch W × ForwardResult} (h : Tracks rs s s₁)
    (hr : ∀ region ∈ [Region.expertTokenWeights, .expertTokenMapping], region ∉ rs)
    (hfb : ∀ half ∈ fb.sizes, half.region ∈ rs ∧ half.index = s₁.index half.region)
    (hok : executeBatchExpert cfg S scale out fb s₁ = .ok r s') :
    Tracks (rs ++ [.expertTokenWeights, .expertTokenMapping]) s s' ∧
      r.2.syncEvent = some s'.stream.record := by
  unfold executeBatchExpert at hok
  obtain ⟨hiddens, s₂, hexperts, hok⟩ := bind_ok_iff.mp hok
  have hrun := executeExperts_tracks h hfb hexperts
  cases hsort : fb.metaC.sortByAttention S with
  | error e =>
    rw [hsort] at hok
    cases hok
  | ok sorted =>
    rw [hsort] at hok
    cases hok
    have hweights := hr .expertTokenWeights (by simp)
    have hmapping := hr .expertTokenMapping (by simp)
    have hout := (hrun.handOut hweights).handOut (r := .expertTokenMapping) (by simp [hmapping])
    rw [List.append_assoc] at hout
    have hidle : ∀ half : Half, half.region ∈ [Region.expertTokenWeights, .expertTokenMapping] →
        inUse s₂ half = true → inUse s half = true := by
      intro half hhalf
      exact hrun.inUse_of (hr half.region hhalf)
    have hcopied := hout.copy scale ⟨.expertTokenWeights, !s₂.index .expertTokenWeights⟩
      (by simp) (by simp) (hidle _ (by simp)) fun x => { x with
        expertTokenWeights := Function.update x.expertTokenWeights (!s₂.index .expertTokenWeights)
          (copyTo fb.metaC.topkWeights (x.expertTokenWeights (!s₂.index .expertTokenWeights))) }
    have hfilled := hcopied.copy scale ⟨.expertTokenMapping, !s₂.index .expertTokenMapping⟩
      (by simp) (by simp) (hidle _ (by simp)) fun x => { x with
        expertTokenMapping := Function.update x.expertTokenMapping (!s₂.index .expertTokenMapping)
          (copyTo sorted.2 (x.expertTokenMapping (!s₂.index .expertTokenMapping))) }
    exact ⟨(hfilled.newTensor (s₂.nextTensor + 1)).launch scale (by simp [Kernel.reads]), rfl⟩

/-- What is queued stands after all kernels launched so far. -/
structure Starts (cfg : LoopConfig) (outcome : Option (Scheduled W R)) (s : Loop W R)
    (r : Option (ForwardBatch W)) (s' : Loop W R) : Prop where
  tracks : Tracks (regionsOf cfg outcome) s { s' with resultQueue := s.resultQueue }
  skipped : outcome.filter (Scheduled.forwards cfg) = none → r = none ∧ s'.resultQueue = s.resultQueue
  forwarded : ∀ b, outcome.filter (Scheduled.forwards cfg) = some b → ∃ entry, r = some entry.1 ∧ s'.resultQueue = s.resultQueue ++ [entry] ∧
    entry.2.syncEvent = some s'.stream.record ∧ entry.1.isAttention = b.metaC.isAttention

/-- Loads and experts hand out regions of their own. -/
theorem loadRegions_disjoint (load : Load) : ∀ r ∈ load.regions, r ∉ [Region.sampleContinueIds,
    .batchTensorBuffer, .attnTopkIds, .attnTopkWeights, .batchSizes, .tokenMIndices, .expertTokenWeights,
    .expertTokenMapping] := by
  cases load <;> decide

theorem expertRegions_disjoint (cls : Engine.ExpertClass) :
    ∀ r ∈ expertRegions cls, r ∉ [Region.expertTokenWeights, .expertTokenMapping] := by
  cases cls <;> decide

/-- The forwarded batch is launched and queued. -/
theorem Starts.of_forwarded (entry : ForwardBatch W × ForwardResult) {b : Scheduled W R}
    (hf : b.forwards cfg = true) {s s₁ : Loop W R} (h : Tracks (b.regions cfg) s s₁)
    (hevent : entry.2.syncEvent = some s₁.stream.record) (hkind : entry.1.isAttention = b.metaC.isAttention) :
    Starts cfg (some b) s (some entry.1) { s₁ with resultQueue := s₁.resultQueue ++ [entry] } where
  tracks := ⟨h.launched, h.known, h.index, h.overwritten, rfl, h.lastBatch⟩
  skipped hskip := by simp [Option.filter, hf] at hskip
  forwarded b' hb' := by
    obtain rfl : b = b' := by simpa [Option.filter, hf] using hb'
    exact ⟨entry, rfl, congrArg (· ++ [entry]) h.resultQueue, hevent, hkind⟩

theorem startBatch_starts [Zero W] {b : Scheduled W R} {s s' : Loop W R} {r : Option (ForwardBatch W)}
    (hok : startBatch cfg S scale b s = .ok r s') : Starts cfg (some b) s r s' := by
  unfold startBatch at hok
  obtain ⟨⟨⟩, s₁, hschedule, hok⟩ := bind_ok_iff.mp hok
  have hload := schedule_tracks hschedule
  have hother := loadRegions_disjoint b.load
  obtain ⟨pre, s₂, hpre, hok⟩ := bind_ok_iff.mp hok
  unfold preprocessBatch at hpre
  cases ha : b.metaC.isAttention with
  | true =>
    rw [if_pos ha] at hpre
    obtain ⟨fb, s₃, hattn, hpre⟩ := bind_ok_iff.mp hpre
    obtain ⟨rfl, rfl⟩ := pure_ok_iff.mp hpre
    obtain ⟨htracks, hsome, hbuffer⟩ := preprocessBatchAttn_tracks hload (fun region hregion hmem =>
      hother region hmem (List.mem_append_left _ hregion)) hattn
    have hregions : b.load.regions ++ b.attnRegions cfg = b.regions cfg := by
      rw [Scheduled.regions, if_pos ha]
    rw [hregions] at htracks
    cases fb with
    | none =>
      obtain ⟨rfl, rfl⟩ := pure_ok_iff.mp hok
      have hlast : b.metaC.layerId = cfg.modelTotalNumLayers := by simpa using hsome
      refine ⟨by rw [← htracks.resultQueue]; exact htracks, fun _ => ⟨rfl, htracks.resultQueue⟩,
        fun b' hb' => ?_⟩
      simp [Option.filter, Scheduled.forwards, ha, hlast] at hb'
    | some fb =>
      have hlayer : b.metaC.layerId ≠ cfg.modelTotalNumLayers := by simpa using hsome
      have hf : b.forwards cfg = true := by simp [Scheduled.forwards, hlayer]
      have hmem : Region.batchTensorBuffer ∈ b.regions cfg := by
        simp [Scheduled.regions, Scheduled.attnRegions, ha, hlayer]
      obtain ⟨entry, s₄, hexec, hok⟩ := bind_ok_iff.mp hok
      obtain ⟨⟨fb', result⟩, s₅, hattn, hexec⟩ := bind_ok_iff.mp hexec
      obtain ⟨rfl, rfl⟩ := pure_ok_iff.mp hexec
      obtain ⟨htracks', hevent⟩ := executeBatchAttn_tracks htracks hmem (hbuffer fb rfl) hattn
      cases hok
      exact .of_forwarded (.attention fb', result) hf htracks' hevent ha.symm
  | false =>
    rw [if_neg (by simp [ha])] at hpre
    have hf : b.forwards cfg = true := by simp [Scheduled.forwards, ha]
    split_ifs at hpre with hexpert
    · obtain ⟨fb, s₃, hprepare, hpre⟩ := bind_ok_iff.mp hpre
      obtain ⟨rfl, rfl⟩ := pure_ok_iff.mp hpre
      obtain ⟨htracks, hsizes⟩ := preprocessBatchExpert_tracks hload (fun region hregion hmem =>
        hother region hmem ((by decide : [Region.batchSizes, .tokenMIndices] ⊆ _) hregion)) hprepare
      obtain ⟨entry, s₄, hexec, hok⟩ := bind_ok_iff.mp hok
      obtain ⟨⟨fb', result⟩, s₅, hexperts, hexec⟩ := bind_ok_iff.mp hexec
      obtain ⟨rfl, rfl⟩ := pure_ok_iff.mp hexec
      obtain ⟨htracks', hevent⟩ := executeBatchExpert_tracks htracks (fun region hregion hmem => by
        rcases List.mem_append.mp hmem with hmem | hmem
        · exact hother region hmem
            ((by decide : [Region.expertTokenWeights, .expertTokenMapping] ⊆ _) hregion)
        · exact expertRegions_disjoint cfg.expertCls region hmem hregion)
        (fun half hhalf => ⟨List.mem_append_right _ (hsizes half hhalf).1, (hsizes half hhalf).2⟩) hexperts
      have hregions : b.load.regions ++ expertRegions cfg.expertCls ++ [.expertTokenWeights, .expertTokenMapping] =
          b.regions cfg := by
        rw [Scheduled.regions, if_neg (by simp [ha]), List.append_assoc]
      rw [hregions] at htracks'
      cases hok
      exact .of_forwarded (.expert fb', result) hf htracks' hevent ha.symm
    · cases hpre

/-! ### The second half of an iteration -/

/-- The waiting batch was post-processed: an attention batch waits for all kernels, an expert batch
for its own. -/
structure Finished (isAttention : Bool) (e : ℕ) (s s' : Loop W R) : Prop where
  index : ∀ r, r ≠ .attnTokenMapping → s'.index r = s.index r
  overwritten : (∀ k ∈ s.stream.unknown, ∀ half ∈ k.reads, half.region ≠ .attnTokenMapping) →
    s'.overwritten = s.overwritten
  resultQueue : s'.resultQueue = s.resultQueue
  length : s.stream.launched.length ≤ s'.stream.launched.length
  attention : isAttention = true → s'.stream.launched.length ≤ s'.stream.known
  expert : isAttention = false → s'.stream.launched = s.stream.launched ∧ s'.stream.known = max s.stream.known e

theorem liftFault_ok_iff {σ α : Type} {x : Except Fault α} {s s' : σ} {a : α} :
    liftFault x s = .ok a s' ↔ x = .ok a ∧ s' = s := by
  cases x with
  | ok b => simp [liftFault, eq_comm]
  | error e => simp [liftFault]

theorem postProcess_ok {t e : ℕ} {metaC : BatchMetadata W} {s s' : Loop W R}
    (hok : postProcess scale t metaC (some e) s = .ok ⟨⟩ s') :
    ∃ dispatched, s' = { s with stream := (s.stream.wait (run scale) e).tick (run scale), dispatched } := by
  unfold postProcess at hok
  obtain ⟨⟨⟩, s₁, hsync, hok⟩ := bind_ok_iff.mp hok
  cases hsync
  obtain ⟨rows, s₂, hrows, hok⟩ := bind_ok_iff.mp hok
  cases hrows
  obtain ⟨data, s₃, hdata, hok⟩ := bind_ok_iff.mp hok
  obtain ⟨-, rfl⟩ := liftFault_ok_iff.mp hdata
  cases hok
  exact ⟨_, rfl⟩

theorem postProcess_none_ok {t : ℕ} {metaC : BatchMetadata W} {s s' : Loop W R}
    (hok : postProcess scale t metaC none s = .ok ⟨⟩ s') :
    ∃ dispatched, s' = { s with stream := s.stream.tick (run scale), dispatched } := by
  unfold postProcess at hok
  obtain ⟨rows, s₂, hrows, hok⟩ := bind_ok_iff.mp hok
  cases hrows
  obtain ⟨data, s₃, hdata, hok⟩ := bind_ok_iff.mp hok
  obtain ⟨-, rfl⟩ := liftFault_ok_iff.mp hdata
  cases hok
  exact ⟨_, rfl⟩

theorem readChoices_ok {fb : AttentionForwardBatch W} {result : ForwardResult} {s s' : Loop W R}
    {choices : List ℕ × List W} (hok : readChoices cfg scale fb result s = .ok choices s') :
    s' = { s with stream := (s.stream.tick (run scale)).tick (run scale) } := by
  unfold readChoices at hok
  split_ifs at hok <;> cases hok <;> rfl

theorem finishBatch_finished [Zero W] {entry : ForwardBatch W × ForwardResult}
    {rest : List (ForwardBatch W × ForwardResult)} {s s' : Loop W R} {e : ℕ}
    (hqueue : s.resultQueue = entry :: rest) (hevent : entry.2.syncEvent = some e)
    (hok : finishBatch cfg scale s = .ok ⟨⟩ s') :
    Finished entry.1.isAttention e { s with resultQueue := rest } s' := by
  have hpop : popleft s = .ok entry { s with resultQueue := rest } := by
    unfold popleft
    rw [get_bind, hqueue]
    rfl
  obtain ⟨fb, result⟩ := entry
  unfold finishBatch at hok
  rw [bind_of_ok hpop] at hok
  obtain ⟨result₁, s₁, hwait, hok⟩ := bind_ok_iff.mp hok
  obtain ⟨rfl, rfl⟩ := EStateM.Result.ok.inj (hwait.symm.trans (syncResult_eq result hevent _))
  cases fb with
  | expert fb =>
    obtain ⟨⟨t, metaC, result'⟩, s₂, hpost, hok⟩ := bind_ok_iff.mp hok
    cases hpost
    obtain ⟨dispatched, rfl⟩ := postProcess_none_ok hok
    exact ⟨fun _ _ => rfl, fun _ => rfl, rfl, le_rfl, Bool.noConfusion, fun _ => ⟨rfl, rfl⟩⟩
  | attention fb =>
    obtain ⟨⟨t, metaC, result'⟩, s₂, hpost, hok⟩ := bind_ok_iff.mp hok
    obtain ⟨result₂, s₃, hsync, hpost⟩ := bind_ok_iff.mp hpost
    cases hsync
    obtain ⟨choices, s₄, hchoices, hpost⟩ := bind_ok_iff.mp hpost
    obtain rfl := readChoices_ok hchoices
    obtain ⟨⟨sorted, expMappings⟩, s₅, hsort, hpost⟩ := bind_ok_iff.mp hpost
    obtain ⟨-, rfl⟩ := liftFault_ok_iff.mp hsort
    cases hpost
    obtain ⟨dispatched, rfl⟩ := postProcess_ok hok
    refine ⟨fun r hr => Function.update_of_ne hr _ _, fun hidle => ?_, rfl, ?_, fun _ => le_max_right _ _,
      Bool.noConfusion⟩
    · refine if_neg fun huse => ?_
      simp only [inUse, unknown, List.any_eq_true, decide_eq_true_eq] at huse
      obtain ⟨k, hk, hmem⟩ := huse
      have hold : k ∈ s.stream.launched.drop s.stream.known :=
        List.drop_subset_drop_left _ (le_max_left _ e) hk
      exact hidle k hold _ hmem rfl
    · show s.stream.launched.length ≤ (s.stream.launched ++ [_]).length
      rw [List.length_append]
      omega

/-! ### Iterations -/

/-- Iteration `i` hands out the region. -/
def usesAt (cfg : LoopConfig) (outcomes : List (Option (Scheduled W R))) (r : Region) (i : ℕ) : Bool :=
  usesRegion cfg r outcomes[i]?.join

def forwardsAt (cfg : LoopConfig) (outcomes : List (Option (Scheduled W R))) (i : ℕ) : Bool :=
  (outcomes[i]?.join.filter (Scheduled.forwards cfg)).isSome

def forwardsAttentionAt (cfg : LoopConfig) (outcomes : List (Option (Scheduled W R))) (i : ℕ) : Bool :=
  (outcomes[i]?.join.filter (Scheduled.forwards cfg)).any (·.metaC.isAttention)

/-- How often the region was handed out. -/
def uses (cfg : LoopConfig) (outcomes : List (Option (Scheduled W R))) (r : Region) : ℕ :=
  outcomes.countP (usesRegion cfg r)

/-- Before iteration `k` a batch launched from iteration `i` on was waited for, or an attention batch
that iteration `i` met in the queue. -/
def AwaitedBefore (cfg : LoopConfig) (outcomes : List (Option (Scheduled W R))) (i k : ℕ) : Prop :=
  (∃ m < k - 1, i ≤ m ∧ forwardsAt cfg outcomes m = true) ∨
    0 < i ∧ forwardsAttentionAt cfg outcomes (i - 1) = true

instance (outcomes : List (Option (Scheduled W R))) (i k : ℕ) : Decidable (AwaitedBefore cfg outcomes i k) :=
  inferInstanceAs (Decidable (_ ∨ _))

/-- Of any three uses of a region the first is awaited before the third. -/
def Spaced (cfg : LoopConfig) (outcomes : List (Option (Scheduled W R))) : Prop :=
  ∀ r, ∀ k < outcomes.length, ∀ j < k, ∀ i < j,
    usesAt cfg outcomes r i = true ∧ usesAt cfg outcomes r j = true ∧ usesAt cfg outcomes r k = true →
      AwaitedBefore cfg outcomes i k

/-- No wait has covered what iteration `i` launched. -/
structure Unawaited (cfg : LoopConfig) (outcomes : List (Option (Scheduled W R))) (i : ℕ) : Prop where
  later : ∀ m, i ≤ m → m + 1 < outcomes.length → forwardsAt cfg outcomes m = false
  before : 0 < i → forwardsAttentionAt cfg outcomes (i - 1) = false

/-- A kernel that reads the half was launched in an iteration and may still run. -/
def MayRead (cfg : LoopConfig) (outcomes : List (Option (Scheduled W R))) (half : Half) : Prop :=
  half.region ≠ .attnTokenMapping ∧ ∃ i < outcomes.length, usesAt cfg outcomes half.region i = true ∧
    half.index = (uses cfg (outcomes.take (i + 1)) half.region).bodd ∧ Unawaited cfg outcomes i

/-- What may still run between iterations, and what waits in the queue. -/
structure Quiet (cfg : LoopConfig) (outcomes : List (Option (Scheduled W R))) (s : Loop W R) : Prop where
  index : ∀ r, r ≠ .attnTokenMapping → s.index r = (uses cfg outcomes r).bodd
  unknown : ∀ k ∈ s.stream.unknown, ∀ half ∈ k.reads, MayRead cfg outcomes half
  idle : lastForwarded cfg outcomes = none → s.lastBatch = none ∧ s.resultQueue = []
  busy : ∀ b, lastForwarded cfg outcomes = some b → ∃ entry e, s.lastBatch = some entry.1 ∧
    s.resultQueue = [entry] ∧ entry.2.syncEvent = some e ∧ entry.1.isAttention = b.metaC.isAttention ∧
    s.stream.launched.length ≤ max s.stream.known e

section Outcomes

variable {outcomes : List (Option (Scheduled W R))} {outcome : Option (Scheduled W R)} {r : Region} {i : ℕ}

theorem usesAt_concat (hi : i < outcomes.length) :
    usesAt cfg (outcomes ++ [outcome]) r i = usesAt cfg outcomes r i := by
  rw [usesAt, usesAt, List.getElem?_append_left hi]

theorem usesAt_length : usesAt cfg (outcomes ++ [outcome]) r outcomes.length = usesRegion cfg r outcome := by
  rw [usesAt, List.getElem?_concat_length]
  rfl

theorem forwardsAt_concat (hi : i < outcomes.length) :
    forwardsAt cfg (outcomes ++ [outcome]) i = forwardsAt cfg outcomes i ∧
      forwardsAttentionAt cfg (outcomes ++ [outcome]) i = forwardsAttentionAt cfg outcomes i := by
  unfold forwardsAt forwardsAttentionAt
  rw [List.getElem?_append_left hi]
  exact ⟨rfl, rfl⟩

/-- The last iteration's batch. -/
theorem forwardsAt_last : forwardsAt cfg outcomes (outcomes.length - 1) = (lastForwarded cfg outcomes).isSome ∧
    forwardsAttentionAt cfg outcomes (outcomes.length - 1) =
      (lastForwarded cfg outcomes).any (·.metaC.isAttention) := by
  unfold forwardsAt forwardsAttentionAt lastForwarded
  rw [List.getLast?_eq_getElem?]
  exact ⟨rfl, rfl⟩

theorem uses_concat : uses cfg (outcomes ++ [outcome]) r =
    uses cfg outcomes r + if r ∈ regionsOf cfg outcome then 1 else 0 := by
  rw [uses, List.countP_append, List.countP_singleton]
  simp [uses, usesRegion]

/-- A half comes back only after the other was handed out. -/
theorem exists_use_between (hi : i < outcomes.length)
    (h : (uses cfg (outcomes.take (i + 1)) r).bodd = (uses cfg outcomes r + 1).bodd) :
    ∃ j, i < j ∧ j < outcomes.length ∧ usesAt cfg outcomes r j = true := by
  by_contra hnone
  push Not at hnone
  have hdrop : (outcomes.drop (i + 1)).countP (usesRegion cfg r) = 0 := by
    rw [List.countP_eq_zero]
    intro outcome hmem
    obtain ⟨n, hn, rfl⟩ := List.getElem_of_mem hmem
    rw [List.length_drop] at hn
    rw [List.getElem_drop]
    have := hnone (i + 1 + n) (by omega) (by omega)
    rwa [usesAt, List.getElem?_eq_getElem (by omega)] at this
  have hsplit : uses cfg (outcomes.take (i + 1)) r = uses cfg outcomes r := by
    have hcount := congrArg (List.countP (usesRegion cfg r)) (List.take_append_drop (i + 1) outcomes)
    rwa [List.countP_append, hdrop] at hcount
  rw [hsplit, Nat.bodd_succ] at h
  simp at h

theorem Spaced.of_concat (h : Spaced cfg (outcomes ++ [outcome])) : Spaced cfg outcomes := by
  rintro r k hk j hj i hi ⟨husei, husej, husek⟩
  have hlength : k < (outcomes ++ [outcome]).length := by
    rw [List.length_append]
    omega
  rw [← usesAt_concat (by omega)] at husei husej husek
  rcases h r k hlength j hj i hi ⟨husei, husej, husek⟩ with ⟨m, hm, him, hforwards⟩ | ⟨hpos, hforwards⟩
  · rw [(forwardsAt_concat (by omega)).1] at hforwards
    exact .inl ⟨m, hm, him, hforwards⟩
  · rw [(forwardsAt_concat (by omega)).2] at hforwards
    exact .inr ⟨hpos, hforwards⟩

/-- What no wait has covered, after an iteration that had no batch to finish. -/
theorem Unawaited.concat (h : Unawaited cfg outcomes i) (hi : i < outcomes.length)
    (hlast : lastForwarded cfg outcomes = none) : Unawaited cfg (outcomes ++ [outcome]) i where
  later m him hm := by
    rw [List.length_append, List.length_singleton] at hm
    rw [(forwardsAt_concat (by omega)).1]
    by_cases hend : m = outcomes.length - 1
    · rw [hend, forwardsAt_last.1, hlast, Option.isSome_none]
    · exact h.later m him (by omega)
  before hpos := by
    rw [(forwardsAt_concat (by omega)).2]
    exact h.before hpos

/-- The iteration's own batch, unless it waited for all. -/
theorem Unawaited.last (hlast : (lastForwarded cfg outcomes).any (·.metaC.isAttention) = false) :
    Unawaited cfg (outcomes ++ [outcome]) outcomes.length where
  later m him hm := by
    rw [List.length_append, List.length_singleton] at hm
    omega
  before hpos := by
    rw [(forwardsAt_concat (by omega)).2, forwardsAt_last.2, hlast]

/-- A half in use is handed out only where three uses are too close. -/
theorem Unawaited.not_spaced (h : Unawaited cfg outcomes i) (hi : i < outcomes.length)
    (huse : usesAt cfg outcomes r i = true) (hnew : usesRegion cfg r outcome = true)
    (hbodd : (uses cfg (outcomes.take (i + 1)) r).bodd = (uses cfg outcomes r + 1).bodd) :
    ¬ Spaced cfg (outcomes ++ [outcome]) := by
  intro hspaced
  obtain ⟨j, hij, hj, husej⟩ := exists_use_between hi hbodd
  have hlength : outcomes.length < (outcomes ++ [outcome]).length := by simp
  rw [← usesAt_concat hi] at huse
  rw [← usesAt_concat hj] at husej
  rw [← usesAt_length] at hnew
  rcases hspaced r _ hlength j hj i hij ⟨huse, husej, hnew⟩ with ⟨m, hm, him, hforwards⟩ | ⟨hpos, hforwards⟩
  · rw [(forwardsAt_concat (by omega)).1, h.later m him (by omega)] at hforwards
    cases hforwards
  · rw [(forwardsAt_concat (by omega)).2, h.before hpos] at hforwards
    cases hforwards

theorem attnTokenMapping_not_mem : Region.attnTokenMapping ∉ regionsOf cfg outcome := by
  cases outcome with
  | none => simp [regionsOf]
  | some b =>
    simp only [regionsOf, Option.elim_some, Scheduled.regions, Scheduled.attnRegions]
    cases b.load <;> cases cfg.expertCls <;> split_ifs <;> simp [Load.regions, expertRegions]

end Outcomes

/-- What the iteration's own batch leaves. -/
theorem Starts.overwritten {outcomes : List (Option (Scheduled W R))} {outcome : Option (Scheduled W R)}
    {s s₁ : Loop W R} {r : Option (ForwardBatch W)} (h : Starts cfg outcome s r s₁)
    (hquiet : Quiet cfg outcomes s) (hspaced : Spaced cfg (outcomes ++ [outcome]))
    (hs : s.overwritten = []) : s₁.overwritten = [] := by
  rw [List.eq_nil_iff_forall_not_mem]
  intro half hmem
  rcases h.tracks.overwritten half hmem with hold | ⟨hregion, hindex, huse⟩
  · rw [hs] at hold
    cases hold
  · simp only [inUse, List.any_eq_true, decide_eq_true_eq] at huse
    obtain ⟨k, hk, hread⟩ := huse
    obtain ⟨hne, i, hi, husei, hidx, hunawaited⟩ := hquiet.unknown k hk half hread
    refine hunawaited.not_spaced hi husei (decide_eq_true hregion) ?_ hspaced
    rw [← hidx, hindex, Nat.bodd_succ, ← hquiet.index _ hne]
    have hflip := h.tracks.index half.region
    rwa [if_pos hregion] at hflip

section Step

variable {outcomes : List (Option (Scheduled W R))} {outcome : Option (Scheduled W R)} {s s₁ s' : Loop W R}
  {r : Option (ForwardBatch W)} {half : Half}

theorem MayRead.concat (h : MayRead cfg outcomes half) (hlast : lastForwarded cfg outcomes = none) :
    MayRead cfg (outcomes ++ [outcome]) half := by
  obtain ⟨hne, i, hi, huse, hindex, hunawaited⟩ := h
  refine ⟨hne, i, ?_, ?_, ?_, hunawaited.concat hi hlast⟩
  · rw [List.length_append]
    omega
  · rwa [usesAt_concat hi]
  · rwa [List.take_append_of_le_length (by omega)]

theorem Starts.index (h : Starts cfg outcome s r s₁) (hquiet : Quiet cfg outcomes s) (region : Region)
    (hne : region ≠ .attnTokenMapping) : s₁.index region = (uses cfg (outcomes ++ [outcome]) region).bodd := by
  have hflip := h.tracks.index region
  rw [hquiet.index region hne] at hflip
  rw [uses_concat]
  split_ifs at hflip ⊢
  · rw [Nat.bodd_succ]
    exact hflip
  · exact hflip

/-- A kernel that the iteration launched. -/
theorem Starts.mayRead (h : Starts cfg outcome s r s₁) (hquiet : Quiet cfg outcomes s)
    (hlast : (lastForwarded cfg outcomes).any (·.metaC.isAttention) = false)
    (hregion : half.region ∈ regionsOf cfg outcome) (hindex : half.index = s₁.index half.region) :
    MayRead cfg (outcomes ++ [outcome]) half := by
  have hne : half.region ≠ .attnTokenMapping := fun heq => attnTokenMapping_not_mem (heq ▸ hregion)
  refine ⟨hne, outcomes.length, by simp, ?_, ?_, .last hlast⟩
  · rw [usesAt_length]
    exact decide_eq_true hregion
  · rw [hindex, h.index hquiet _ hne, List.take_of_length_le (by simp)]

/-- A kernel that may run was so before, or the iteration launched it. -/
theorem Starts.unknown (h : Starts cfg outcome s r s₁) {k : Kernel W R} (hk : k ∈ s₁.stream.unknown) :
    k ∈ s.stream.unknown ∨
      ∀ half ∈ k.reads, half.region ∈ regionsOf cfg outcome ∧ half.index = s₁.index half.region := by
  obtain ⟨ks, hks, hreads⟩ := h.tracks.launched
  have hks : s₁.stream.launched = s.stream.launched ++ ks := hks
  have hknown : s₁.stream.known = s.stream.known := h.tracks.known
  rw [Stream.unknown, hks, hknown, List.drop_append, List.mem_append] at hk
  exact hk.imp id fun hnew => hreads k (List.mem_of_mem_drop hnew)

theorem Starts.not_attnTokenMapping (h : Starts cfg outcome s r s₁) (hquiet : Quiet cfg outcomes s)
    (k : Kernel W R) (hk : k ∈ s₁.stream.unknown) (half : Half) (hread : half ∈ k.reads) :
    half.region ≠ .attnTokenMapping := by
  rcases h.unknown hk with hold | hnew
  · exact (hquiet.unknown k hold half hread).1
  · rintro heq
    exact attnTokenMapping_not_mem (heq ▸ (hnew half hread).1)

/-- The iteration had no batch to finish. -/
theorem Quiet.of_idle (h : Quiet cfg outcomes s) (hl : Starts cfg outcome s r s₁)
    (hlast : lastForwarded cfg outcomes = none) :
    Quiet cfg (outcomes ++ [outcome]) { s₁ with lastBatch := r } where
  index := hl.index h
  unknown k hk half hread := by
    rcases hl.unknown hk with hold | hnew
    · exact (h.unknown k hold half hread).concat hlast
    · exact hl.mayRead h (by rw [hlast, Option.any_none]) (hnew half hread).1 (hnew half hread).2
  idle hnone := by
    rw [lastForwarded_concat] at hnone
    obtain ⟨hr, hqueue⟩ := hl.skipped hnone
    exact ⟨hr, hqueue.trans (h.idle hlast).2⟩
  busy b hb := by
    rw [lastForwarded_concat] at hb
    obtain ⟨entry, hr, hqueue, hevent, hkind⟩ := hl.forwarded b hb
    rw [(h.idle hlast).2] at hqueue
    exact ⟨entry, _, hr, hqueue, hevent, hkind, le_max_right _ _⟩

/-- The iteration finished the batch that waited. -/
theorem Quiet.of_finished {last : Scheduled W R} {e : ℕ} {s₂ : Loop W R}
    (h : Quiet cfg outcomes s) (hl : Starts cfg outcome s r s₁) (hlast : lastForwarded cfg outcomes = some last)
    (he : s.stream.launched.length ≤ max s.stream.known e)
    (hqueue : s.resultQueue ++ s₂.resultQueue = s₁.resultQueue)
    (hf : Finished last.metaC.isAttention e { s₁ with resultQueue := s₂.resultQueue } s₂) :
    Quiet cfg (outcomes ++ [outcome]) { s₂ with lastBatch := r } where
  index region hne := (hf.index region hne).trans (hl.index h region hne)
  unknown k hk half hread := by
    cases ha : last.metaC.isAttention with
    | true =>
      rw [Stream.unknown, List.drop_eq_nil_of_le (hf.attention ha)] at hk
      cases hk
    | false =>
      obtain ⟨ks, hks, hreads⟩ := hl.tracks.launched
      have hks : s₁.stream.launched = s.stream.launched ++ ks := hks
      have hknown : s₁.stream.known = s.stream.known := hl.tracks.known
      obtain ⟨hlaunched, hwaited⟩ := hf.expert ha
      dsimp only at hk hlaunched hwaited
      rw [Stream.unknown, hlaunched, hwaited, hks, hknown, List.drop_append, List.drop_eq_nil_of_le he,
        List.nil_append] at hk
      obtain ⟨hregion, hindex⟩ := hreads k (List.mem_of_mem_drop hk) half hread
      exact hl.mayRead h (by rw [hlast, Option.any_some, ha]) hregion hindex
  idle hnone := by
    rw [lastForwarded_concat] at hnone
    obtain ⟨hr, hskip⟩ := hl.skipped hnone
    rw [hskip] at hqueue
    exact ⟨hr, List.append_right_eq_self.mp hqueue⟩
  busy b hb := by
    rw [lastForwarded_concat] at hb
    obtain ⟨entry, hr, hqueued, hevent, hkind⟩ := hl.forwarded b hb
    rw [hqueued] at hqueue
    refine ⟨entry, _, hr, List.append_cancel_left hqueue, hevent, hkind, ?_⟩
    cases ha : last.metaC.isAttention with
    | true => exact le_max_of_le_left (hf.attention ha)
    | false =>
      rw [(hf.expert ha).1]
      exact le_max_right _ _

theorem Starts.resultQueue (h : Starts cfg outcome s r s₁) :
    ∃ rest, s₁.resultQueue = s.resultQueue ++ rest := by
  cases hout : outcome.filter (Scheduled.forwards cfg) with
  | none => exact ⟨[], by rw [(h.skipped hout).2, List.append_nil]⟩
  | some b =>
    obtain ⟨entry, -, hqueue, -⟩ := h.forwarded b hout
    exact ⟨[entry], hqueue⟩

/-- The second half keeps the invariant and overwrites nothing in use. -/
theorem finish_quiet [Zero W] (h : Quiet cfg outcomes s) (hl : Starts cfg outcome s r s₁)
    (hok : (do
      if (← get).lastBatch.isSome then
        finishBatch cfg scale
      modify fun s => { s with lastBatch := r } : LoopM W R Unit) s₁ = .ok ⟨⟩ s') :
    Quiet cfg (outcomes ++ [outcome]) s' ∧ s'.overwritten = s₁.overwritten := by
  have hbatch : s₁.lastBatch = s.lastBatch := hl.tracks.lastBatch
  rw [get_bind, hbatch] at hok
  cases hlast : lastForwarded cfg outcomes with
  | none =>
    rw [(h.idle hlast).1] at hok
    cases hok
    exact ⟨h.of_idle hl hlast, rfl⟩
  | some last =>
    obtain ⟨entry, e, hentry, hqueue, hevent, hkind, he⟩ := h.busy last hlast
    obtain ⟨rest, hrest⟩ := hl.resultQueue
    rw [hqueue] at hrest
    rw [hentry, Option.isSome_some, if_pos rfl] at hok
    obtain ⟨⟨⟩, s₂, hfinish, hok⟩ := bind_ok_iff.mp hok
    cases hok
    have hf := finishBatch_finished hrest hevent hfinish
    rw [hkind] at hf
    obtain rfl : s₂.resultQueue = rest := hf.resultQueue
    exact ⟨h.of_finished hl hlast he (by rw [hqueue, hrest]) hf,
      hf.overwritten (hl.not_attnTokenMapping h)⟩

theorem iteration_quiet [Zero W] (h : Quiet cfg outcomes s)
    (hok : iteration cfg S scale outcome s = .ok ⟨⟩ s') :
    Quiet cfg (outcomes ++ [outcome]) s' ∧
      (Spaced cfg (outcomes ++ [outcome]) → s.overwritten = [] → s'.overwritten = []) := by
  unfold iteration at hok
  cases outcome with
  | none =>
    have hl : Starts cfg none s none s :=
      ⟨.refl s, fun _ => ⟨rfl, rfl⟩, fun b hb => by simp at hb⟩
    obtain ⟨hquiet, hsame⟩ := finish_quiet h hl hok
    exact ⟨hquiet, fun _ hs => hsame.trans hs⟩
  | some b =>
    obtain ⟨r, s₁, hstart, hok⟩ := bind_ok_iff.mp hok
    have hl := startBatch_starts hstart
    obtain ⟨hquiet, hsame⟩ := finish_quiet h hl hok
    exact ⟨hquiet, fun hspaced hs => hsame.trans (hl.overwritten h hspaced hs)⟩

end Step

theorem Spaced.of_append {done rest : List (Option (Scheduled W R))} (h : Spaced cfg (done ++ rest)) :
    Spaced cfg done := by
  induction rest using List.reverseRecOn with
  | nil => rwa [List.append_nil] at h
  | append_singleton rest outcome ih =>
    rw [← List.append_assoc] at h
    exact ih h.of_concat

theorem runLoop_quiet [Zero W] {done outcomes : List (Option (Scheduled W R))} {s s' : Loop W R}
    (h : Quiet cfg done s) (hs : s.overwritten = []) (hspaced : Spaced cfg (done ++ outcomes))
    (hok : runLoop cfg S scale outcomes s = .ok ⟨⟩ s') :
    Quiet cfg (done ++ outcomes) s' ∧ s'.overwritten = [] := by
  induction outcomes generalizing done s with
  | nil =>
    obtain ⟨-, rfl⟩ := pure_ok_iff.mp hok
    exact ⟨by rwa [List.append_nil], hs⟩
  | cons outcome outcomes ih =>
    obtain ⟨⟨⟩, s₁, hiteration, hok⟩ := bind_ok_iff.mp hok
    rw [List.append_cons] at hspaced ⊢
    obtain ⟨hquiet, hnone⟩ := iteration_quiet h hiteration
    exact ih hquiet (hnone hspaced.of_append hs) hspaced hok

theorem start_quiet (pace : ℕ → ℕ) (host : Staging W) (memory : Memory W R) :
    Quiet cfg [] (Loop.start pace host memory) where
  index _ _ := by simp [Loop.start, uses]
  unknown k hk := by simp [Loop.start, Stream.start, Stream.unknown] at hk
  idle _ := ⟨rfl, rfl⟩
  busy b hb := by simp [lastForwarded] at hb

/-- Where the uses of each region are spaced, no half is overwritten that a kernel may still read,
however far the device is behind. -/
theorem overwrites_no_half_in_use [Zero W] (hmax : cfg.maxAttnGraphBsz ≤ 1024)
    (outcomes : List (Option (Scheduled W R))) (hr : ∀ b, some b ∈ outcomes → b.Ready cfg)
    (hspaced : Spaced cfg outcomes) (pace : ℕ → ℕ) (host : Staging W) (memory : Memory W R) :
    ∃ s, runLoop cfg S scale outcomes (.start pace host memory) = .ok ⟨⟩ s ∧ s.overwritten = [] := by
  have hstart : Between cfg S scale [] (Loop.start pace host memory) :=
    ⟨rfl, fun _ => ⟨rfl, rfl⟩, fun b hb => by simp [lastForwarded] at hb⟩
  obtain ⟨⟨⟩, s, hok, -⟩ := runLoop_returns hmax hstart hr
  exact ⟨s, hok, (runLoop_quiet (start_quiet pace host memory) rfl hspaced hok).2⟩

/-- Two tokens of the last layer, of which the first goes on. -/
def sampledTwo : Scheduled ℕ ℕ where
  load := .one
  metaC := { Engine.twoRequests with layerId := 4 }
  continueIds := [0]
  out := ⟨[], [], []⟩

theorem sampledTwo_ready : sampledTwo.Ready smallLoop where
  kind := .inl rfl
  attention _ h := absurd rfl h
  expert h := by cases h

/-- A forwarded batch between the second sampling and the third. -/
theorem overwrites_no_half_in_use_small :
    ∃ s, runLoop smallLoop .insertion (· * ·)
        [some sampledTwo, some sampledTwo, some paddedAttention, none, some sampledTwo]
        (.start (fun _ => 0) blankStaging blankMemory) = .ok ⟨⟩ s ∧ s.overwritten = [] := by
  refine overwrites_no_half_in_use (by decide) _ (fun b hb => ?_) ?_ _ _ _
  · simp only [List.mem_cons, Option.some.injEq, List.not_mem_nil, or_false, reduceCtorEq, false_or] at hb
    rcases hb with rfl | rfl | rfl | rfl
    · exact sampledTwo_ready
    · exact sampledTwo_ready
    · exact paddedAttention_ready
    · exact sampledTwo_ready
  · intro r
    cases r <;> decide

/-- The third of three sampled batches in a row overwrites the ids that the first one's kernel reads. -/
theorem overwrites_half_in_use :
    ∃ s, runLoop smallLoop .insertion (· * ·) [some sampledTwo, some sampledTwo, some sampledTwo]
        (.start (fun _ => 0) blankStaging blankMemory) = .ok ⟨⟩ s ∧
      s.overwritten = [⟨.sampleContinueIds, true⟩] :=
  exists_of_leaves (by decide)

end StreamInfer.Overlap
