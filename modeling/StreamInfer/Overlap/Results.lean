import StreamInfer.Overlap.Guards

/-! The results of the overlapped loop. A batch's own result is what its epilogue makes of
the labels and of the outputs that the device computed for it. The batch that an iteration
launches waits in the queue while the next one is preprocessed and launched, and what its
kernels wrote stays as it was: tensors are new for each batch, and halves are handed out in
turns. So after any iterations exactly the results of the batches launched before the last
iteration are dispatched, in order, each its own. -/

namespace StreamInfer.Overlap

open General Batch BatchMetadata Stream

variable {W R : Type} {cfg : LoopConfig} {S : ComparatorSort} {scale : W → R → R}

/-! ### A batch's own result -/

namespace Scheduled

/-- A batch of the last layer is sampled instead of forwarded. -/
def forwards (cfg : LoopConfig) (b : Scheduled W R) : Bool :=
  !(b.metaC.isAttention && b.metaC.layerId == cfg.modelTotalNumLayers)

/-- The device's outputs, without the padding rows of a graph. -/
def outputs (b : Scheduled W R) : Outputs W R := b.out.take b.metaC.numTokens

def own [Zero W] (cfg : LoopConfig) (S : ComparatorSort) (scale : W → R → R) (b : Scheduled W R) :
    Except Fault (TokenBatch W R) :=
  if b.metaC.isAttention then
    Engine.postprocessBatchAttn cfg.topK cfg.attnDpRank b.metaC b.outputs.hiddens b.outputs.expertIds
      b.outputs.expertWeights
  else Engine.executeBatchExpert true S scale b.metaC b.outputs.hiddens

/-- A batch of an attention layer, with a row of outputs for each token. -/
structure AttentionReady (cfg : LoopConfig) (b : Scheduled W R) : Prop where
  counts : ∃ d p, b.metaC.numDecodeTokens = some d ∧ b.metaC.numPrefillTokens = some p ∧
    d + p = b.metaC.numTokens
  gated : Engine.GatedBatch cfg.topK b.metaC b.outputs.expertIds b.outputs.expertWeights
  experts : ∀ e ∈ b.outputs.expertIds.flatten, e < maxNumExperts
  hiddens : b.outputs.hiddens.length = b.metaC.numTokens
  /-- Only graphs pad. -/
  padding : ¬ (cfg.enableCudaGraphAttn = true ∧ b.metaC.numTokens ≤ cfg.maxAttnGraphBsz) → b.outputs = b.out

structure ExpertReady (cfg : LoopConfig) (b : Scheduled W R) : Prop where
  limit : b.metaC.numTokens ≤ cfg.maxBatchSizeExpert
  aligned : b.metaC.Aligned .routing
  hiddens : b.outputs.hiddens.length = b.metaC.numTokens
  padding : ¬ (cfg.expertCls ≠ .serial ∧ cfg.enableCudaGraphExpert = true) → b.outputs.hiddens = b.out.hiddens

/-- A batch that the scheduler hands out. -/
structure Ready (cfg : LoopConfig) (b : Scheduled W R) : Prop where
  kind : b.metaC.isAttention = true ∨ b.metaC.isExpert = true
  attention : b.metaC.isAttention = true → b.metaC.layerId ≠ cfg.modelTotalNumLayers → AttentionReady cfg b
  expert : b.metaC.isAttention = false → ExpertReady cfg b

end Scheduled

/-! ### Batches that wait in the queue -/

/-- A launched attention batch: once its kernels are complete, its tensor and its halves hold
its outputs. -/
structure WaitsAttention (b : Scheduled W R) (topK : ℕ) (fb : AttentionForwardBatch W) (t : ℕ)
    (g : Guard W R) : Prop where
  metaC : fb.metaC = b.metaC
  numTokens : fb.numTokens = b.metaC.numTokens
  tensor : g.tensor = t
  hiddens : ∀ m, g.device m → m.hiddens t = .ok b.outputs.hiddens
  graph : fb.useCudaGraph = true → ∀ m, g.device m →
    (m.topkIds fb.expertIdsBuffer.index).take (b.metaC.numTokens * topK) = b.outputs.expertIds.flatten ∧
    (m.topkWeights fb.expertWeightsBuffer.index).take (b.metaC.numTokens * topK) =
      b.outputs.expertWeights.flatten
  eager : fb.useCudaGraph = false → ∀ m, g.device m →
    m.expertIds t = b.outputs.expertIds ∧ m.expertWeights t = b.outputs.expertWeights

/-- An entry of the queue whose result will be `final`. -/
inductive Waits [Zero W] (cfg : LoopConfig) (b : Scheduled W R) (final : TokenBatch W R) (g : Guard W R) :
    ForwardBatch W → ℕ → Prop
  | attention {fb : AttentionForwardBatch W} {tensor : ℕ} (hready : b.AttentionReady cfg)
      (h : WaitsAttention b cfg.topK fb tensor g)
      (hfinal : Engine.postprocessBatchAttn cfg.topK cfg.attnDpRank b.metaC b.outputs.hiddens
        b.outputs.expertIds b.outputs.expertWeights = .ok final) :
      Waits cfg b final g (.attention fb) tensor
  | expert {fb : ExpertForwardBatch W} {tensor : ℕ} (hmeta : fb.metaC = final.metadata)
      (htensor : g.tensor = tensor) (hdata : ∀ m, g.device m → m.hiddens tensor = .ok final.data) :
      Waits cfg b final g (.expert fb) tensor

/-- The launched batch `b` waits in the queue as `entry`, guarded from its event on. -/
def Queued [Zero W] (cfg : LoopConfig) (S : ComparatorSort) (scale : W → R → R) (b : Scheduled W R)
    (entry : ForwardBatch W × ForwardResult) (g : Guard W R) (e : ℕ) : Prop :=
  ∃ final, b.own cfg S scale = .ok final ∧ entry.2.syncEvent = some e ∧
    Waits cfg b final g entry.1 entry.2.hiddens

/-! ### Finishing a batch -/

theorem syncResult_eq (result : ForwardResult) {e : ℕ} (he : result.syncEvent = some e) (s : Loop W R) :
    syncResult scale result s =
      .ok { result with syncEvent := none } { s with stream := s.stream.wait (run scale) e } := by
  unfold syncResult
  rw [he]
  rfl

theorem syncResult_none (result : ForwardResult) (he : result.syncEvent = none) (s : Loop W R) :
    syncResult scale result s = .ok result s := by
  unfold syncResult
  rw [he]
  rfl

/-- A part that hands out no half and keeps every guard, before another part. -/
theorem Carries.before {rs : List Region} {c : Guard W R → Prop} {s s' s'' : Loop W R}
    (h : Carries scale [] (fun _ => True) s s') (h' : Carries scale rs c s' s'') :
    Carries scale rs c s s'' :=
  (h.trans h').mono (by simp) fun _ hg => ⟨trivial, hg⟩

theorem tick_carries (s : Loop W R) :
    Carries scale [] (fun _ => True) s { s with stream := s.stream.tick (run scale) } :=
  ⟨rfl, rfl, rfl, fun _ _ => rfl, fun _ _ _ h => h.tick⟩

theorem wait_carries (s : Loop W R) (e : ℕ) :
    Carries scale [] (fun _ => True) s { s with stream := s.stream.wait (run scale) e } :=
  ⟨rfl, rfl, rfl, fun _ _ => rfl, fun _ _ _ h => h.wait e⟩

/-- The host reads what the awaited kernels left. -/
theorem copyToHost_eq {α : Type} (f : Memory W R → α) {s : Loop W R} {g : Guard W R} {e : ℕ} {a : α}
    (h : g.On scale e s.stream s.nextTensor) (he : e ≤ s.stream.completed)
    (ha : ∀ m, g.device m → f m = a) :
    copyToHost scale f s = .ok a { s with stream := s.stream.tick (run scale) } := by
  have hnow := h.tick.holds.now (he.trans (s.stream.completed_le_tick _))
  rw [← ha _ hnow]
  rfl

theorem readChoices_returns {b : Scheduled W R} {fb : AttentionForwardBatch W} {result : ForwardResult}
    {s : Loop W R} {g : Guard W R} {e : ℕ} (hw : WaitsAttention b cfg.topK fb result.hiddens g)
    (h : g.On scale e s.stream s.nextTensor) (he : e ≤ s.stream.completed) :
    Returns (readChoices cfg scale fb result) s fun choices s' =>
      choices = (b.outputs.expertIds.flatten, b.outputs.expertWeights.flatten) ∧
        Carries scale [] (fun _ => True) s s' := by
  have hcarries : Carries scale [] (fun _ => True) s _ := (tick_carries s).before (tick_carries _)
  have he' : e ≤ (s.stream.tick (run scale)).completed := he.trans (s.stream.completed_le_tick _)
  unfold readChoices
  rw [hw.numTokens]
  cases hgraph : fb.useCudaGraph with
  | true =>
    have hread := hw.graph hgraph
    refine .step (copyToHost_eq _ h he fun m hm => (hread m hm).1) ?_
    refine .step (copyToHost_eq _ h.tick he' fun m hm => (hread m hm).2) ?_
    exact .pure ⟨rfl, hcarries⟩
  | false =>
    have hread := hw.eager hgraph
    refine .step (copyToHost_eq _ h he fun m hm => congrArg List.flatten (hread m hm).1) ?_
    refine .step (copyToHost_eq _ h.tick he' fun m hm => congrArg List.flatten (hread m hm).2) ?_
    exact .pure ⟨rfl, hcarries⟩

/-- The parts of the epilogue of an attention batch. -/
theorem postprocessBatchAttn_parts [Zero W] {topK attnDpRank : ℕ} {metaC : BatchMetadata W} {hiddens : List R}
    {expertIds : List (List ℕ)} {expertWeights : List (List W)} {final : TokenBatch W R}
    (h : Engine.postprocessBatchAttn topK attnDpRank metaC hiddens expertIds expertWeights = .ok final) :
    ∃ sorted mapping, { metaC.duplicateTopk topK with
        expIds := expertIds.flatten
        topkWeights := expertWeights.flatten }.sortByExpert = .ok (sorted, mapping) ∧
      permuteTokens hiddens mapping = .ok final.data ∧
      final.metadata = { sorted with attnDpRanks := List.replicate expertIds.flatten.length attnDpRank } := by
  unfold Engine.postprocessBatchAttn at h
  obtain ⟨⟨sorted, mapping⟩, hsort, h⟩ := bind_eq_ok_iff.mp h
  obtain ⟨rows, hrows, h⟩ := bind_eq_ok_iff.mp h
  obtain rfl := Except.ok.inj h
  exact ⟨sorted, mapping, hsort, hrows, rfl⟩

/-- What a guarded tensor is turned into by a kernel that reads a half just filled. -/
structure Produced (scale : W → R → R) (rows : List R) (t e : ℕ) (s : Loop W R) : Prop where
  holds : ∃ I, s.stream.From (run scale) I e fun m => m.hiddens t = .ok rows

/-- A half is handed out and filled, and a kernel fills a new tensor. -/
theorem fill_carries (s : Loop W R) (r : Region) {f : Staging W → Staging W} {k : Kernel W R}
    (overwritten : List Half) (hf : ∀ x, (f x).expertTokenWeights = x.expertTokenWeights ∧
      (f x).expertTokenMapping = x.expertTokenMapping)
    (ht : k.tensor = some s.nextTensor) (hp : k.topk = none) :
    Carries scale [r] (fun _ => True) s { s with
      index := Function.update s.index r (!s.index r)
      overwritten
      nextTensor := s.nextTensor + 1
      stream := (s.stream.write (run scale) f).launch (run scale) k } where
  resultQueue := rfl
  lastBatch := rfl
  dispatched := rfl
  index r' hr' := by
    rw [List.mem_singleton] at hr'
    exact Function.update_of_ne hr' _ _
  guards g e _ h := by
    have hwrite := h.write fun x hx => g.host_local x (f x) (by rw [(hf x).1]) (by rw [(hf x).2]) hx
    exact (hwrite.launch (h.spares le_rfl ht hp)).newTensor

/-- A fact about device memory, for the kernels launched so far, holds after the host's write and
the next kernel's run. -/
theorem fill_from {s : Stream (Kernel W R) (Staging W) (Memory W R)} {I J : Staging W → Prop}
    {P Q : Memory W R → Prop} {e : ℕ} {f : Staging W → Staging W} {k : Kernel W R}
    (h : From (run scale) I e P s) (hf : ∀ x, I x → I (f x)) (hJ : J (f s.host))
    (hk : ∀ x, J x → ∀ m, P m → Q (run scale k x m)) :
    From (run scale) (fun x => I x ∧ J x) ((s.write (run scale) f).launch (run scale) k).record Q
      ((s.write (run scale) f).launch (run scale) k) := by
  have hwrite : From (run scale) I (s.write (run scale) f).record P (s.write (run scale) f) :=
    h.later.write (hf _ h.host)
  have hmono : From (run scale) (fun x => I x ∧ J x) (s.write (run scale) f).record P
      (s.write (run scale) f) := hwrite.mono (fun x hx => hx.1) ⟨hf _ h.host, hJ⟩
  exact hmono.next fun x hx m hm => hk x hx.2 m hm

theorem postprocessBatchAttn_returns [Zero W] {b : Scheduled W R} {fb : AttentionForwardBatch W}
    {result : ForwardResult} {s : Loop W R} {g : Guard W R} {e : ℕ} {final : TokenBatch W R}
    (hw : WaitsAttention b cfg.topK fb result.hiddens g)
    (hfinal : Engine.postprocessBatchAttn cfg.topK cfg.attnDpRank b.metaC b.outputs.hiddens
      b.outputs.expertIds b.outputs.expertWeights = .ok final)
    (hresult : result.syncEvent = none) (h : g.On scale e s.stream s.nextTensor)
    (he : e ≤ s.stream.completed) :
    Returns (postprocessBatchAttn cfg scale fb result) s fun r s' =>
      r.2.1 = final.metadata ∧ (∃ e', r.2.2.syncEvent = some e' ∧ Produced scale final.data r.1 e' s') ∧
        Carries scale [.attnTokenMapping] (fun _ => True) s s' := by
  obtain ⟨sorted, mapping, hsort, hrows, hmeta⟩ := postprocessBatchAttn_parts hfinal
  unfold postprocessBatchAttn
  refine .step (syncResult_none result hresult s) ?_
  refine (readChoices_returns hw h he).bind fun choices s₁ ⟨hchoices, hc₁⟩ => ?_
  obtain rfl := hchoices
  dsimp only
  rw [hw.metaC, hsort]
  have hon : g.On scale e s₁.stream s₁.nextTensor := hc₁.guards g e trivial h
  refine .of_ok rfl ⟨?_, ⟨_, rfl, ?_⟩, ?_⟩
  · exact hmeta.symm
  · refine ⟨_, fill_from (J := fun x => (x.attnTokenMapping (!s₁.index .attnTokenMapping)).take
      mapping.length = mapping) hon.holds (fun x hx => g.host_local x _ rfl rfl hx) ?_ ?_⟩
    · dsimp only
      rw [Function.update_self, take_copyTo]
    · intro x hx m hm
      show Function.update m.hiddens _ _ _ = _
      rw [Function.update_self, hw.hiddens m hm, hx]
      exact hrows
  · exact hc₁.before (fill_carries s₁ .attnTokenMapping _ (fun _ => ⟨rfl, rfl⟩) rfl rfl)

/-- What the host dispatches once the rows are there. -/
theorem postProcess_returns {rows : List R} {t e : ℕ} {s : Loop W R} (h : Produced scale rows t e s)
    (metaC : BatchMetadata W) :
    Returns (postProcess scale t metaC (some e)) s fun _ s' =>
      ∃ s₀, Carries scale [] (fun _ => True) s s₀ ∧
        s' = { s₀ with dispatched := s₀.dispatched ++ [⟨rows, metaC⟩] } := by
  obtain ⟨I, hfrom⟩ := h.holds
  have hnow : (((s.stream.wait (run scale) e).tick (run scale)).memory).hiddens t = .ok rows :=
    (hfrom.wait e).tick.now ((le_completed_wait _ hfrom.le).trans (completed_le_tick _ _))
  have hcarries : Carries scale [] (fun _ => True) s _ := (wait_carries s e).before (tick_carries _)
  have hsync : syncEvent scale e s = .ok ⟨⟩ { s with stream := s.stream.wait (run scale) e } := rfl
  have hcopy : copyToHost scale (fun m => m.hiddens t) { s with stream := s.stream.wait (run scale) e } =
    .ok _ { s with stream := (s.stream.wait (run scale) e).tick (run scale) } := rfl
  unfold postProcess
  refine .step hsync (.step hcopy ?_)
  dsimp only
  rw [hnow]
  exact .of_ok rfl ⟨_, hcarries, rfl⟩

/-- An awaited result is dispatched without another event. -/
theorem postProcess_none_returns {rows : List R} {t e : ℕ} {s : Loop W R} {g : Guard W R}
    (h : g.On scale e s.stream s.nextTensor) (he : e ≤ s.stream.completed)
    (hrows : ∀ m, g.device m → m.hiddens t = .ok rows) (metaC : BatchMetadata W) :
    Returns (postProcess scale t metaC none) s fun _ s' =>
      ∃ s₀, Carries scale [] (fun _ => True) s s₀ ∧
        s' = { s₀ with dispatched := s₀.dispatched ++ [⟨rows, metaC⟩] } := by
  unfold postProcess
  refine .step (copyToHost_eq (fun m => m.hiddens t) h he hrows) ?_
  exact .of_ok rfl ⟨_, tick_carries s, rfl⟩

/-- The queued batch is dispatched with its own result. -/
theorem finishBatch_returns [Zero W] {b : Scheduled W R} {entry : ForwardBatch W × ForwardResult}
    {rest : List (ForwardBatch W × ForwardResult)} {s : Loop W R} {g : Guard W R} {e : ℕ}
    (hqueue : s.resultQueue = entry :: rest) (h : Queued cfg S scale b entry g e)
    (hon : g.On scale e s.stream s.nextTensor) :
    Returns (finishBatch cfg scale) s fun _ s' => ∃ final, b.own cfg S scale = .ok final ∧
      s'.dispatched = s.dispatched ++ [final] ∧
      Carries scale [.attnTokenMapping] (fun _ => True) { s with resultQueue := rest }
        { s' with dispatched := s.dispatched } := by
  obtain ⟨final, hown, hevent, hwaits⟩ := h
  obtain ⟨fb, result⟩ := entry
  have hwait : Carries scale [] (fun _ => True) { s with resultQueue := rest } _ := wait_carries _ e
  have hon' := hwait.guards g e trivial hon
  have he := le_completed_wait (run scale) hon.holds.le
  have hpop : popleft s = .ok (fb, result) { s with resultQueue := rest } := by
    unfold popleft
    rw [Stateful.get_bind, hqueue]
    rfl
  unfold finishBatch
  refine .step hpop (.step (syncResult_eq result hevent _) ?_)
  cases hwaits with
  | @attention fb tensor hready hw hfinal =>
    have hw' : WaitsAttention b cfg.topK fb (ForwardResult.mk result.hiddens none).hiddens g := hw
    refine (postprocessBatchAttn_returns hw' hfinal rfl hon' he).bind ?_
    rintro ⟨hiddens, metaC, result'⟩ s₁ ⟨rfl, ⟨e', he', hproduced⟩, hcarries⟩
    dsimp only at he' hproduced ⊢
    rw [he']
    refine (postProcess_returns hproduced _).mono ?_
    rintro - s' ⟨s₀, hc₀, rfl⟩
    have hall : Carries scale [.attnTokenMapping] (fun _ => True) _ s₀ :=
      ((hwait.before hcarries).trans hc₀).mono (by simp) fun _ _ => ⟨trivial, trivial⟩
    refine ⟨final, hown, ?_, ⟨hall.resultQueue, hall.lastBatch, rfl, hall.index, hall.guards⟩⟩
    show s₀.dispatched ++ [⟨final.data, final.metadata⟩] = _
    rw [hall.dispatched]
  | @expert fb tensor hmeta htensor hdata =>
    refine .step (a := (result.hiddens, fb.metaC, { result with syncEvent := none })) rfl ?_
    refine (postProcess_none_returns hon' he hdata _).mono ?_
    rintro - s' ⟨s₀, hc₀, rfl⟩
    have hall : Carries scale [.attnTokenMapping] (fun _ => True) _ s₀ :=
      (hwait.before hc₀).mono (by simp) fun _ h => h
    refine ⟨final, hown, ?_, ⟨hall.resultQueue, hall.lastBatch, rfl, hall.index, hall.guards⟩⟩
    show s₀.dispatched ++ [⟨final.data, fb.metaC⟩] = _
    rw [hall.dispatched, hmeta]

/-! ### Launching an attention batch -/

theorem preprocessBatchAttn_returns {b : Scheduled W R} (hr : b.AttentionReady cfg)
    (hlayer : b.metaC.layerId ≠ cfg.modelTotalNumLayers) (s : Loop W R) :
    Returns (preprocessBatchAttn cfg scale b) s fun r s' => ∃ fb, r = some fb ∧
      fb.metaC = b.metaC ∧ fb.layerId = b.metaC.layerId ∧ fb.numTokens = b.metaC.numTokens ∧
      fb.useCudaGraph = false ∧
      fb.expertIdsBuffer.index = (!s.index .attnTopkIds) ∧ s'.index .attnTopkIds = (!s.index .attnTopkIds) ∧
      fb.expertWeightsBuffer.index = (!s.index .attnTopkWeights) ∧
      s'.index .attnTopkWeights = (!s.index .attnTopkWeights) ∧
      Carries scale [.batchTensorBuffer, .attnTopkIds, .attnTopkWeights] (fun _ => True) s s' := by
  obtain ⟨d, p, hd, hp, hsum⟩ := hr.counts
  unfold preprocessBatchAttn
  rw [if_neg hlayer, hd, hp]
  refine .of_ok rfl ⟨_, rfl, rfl, rfl, hsum, rfl, rfl, rfl, rfl, rfl, ⟨rfl, rfl, rfl, fun r hr => ?_, ?_⟩⟩
  · simp only [List.mem_cons, List.not_mem_nil, or_false, not_or] at hr
    show Function.update (Function.update (Function.update s.index _ _) _ _) _ _ r = s.index r
    rw [Function.update_of_ne hr.2.2, Function.update_of_ne hr.2.1, Function.update_of_ne hr.1]
  · intro g e _ h
    exact (h.write fun _ hx => hx).launch (Guard.spares_of_reads_only rfl rfl)

/-- What is known of the outputs of a launched attention batch. -/
def attnGuard (b : Scheduled W R) (topK t : ℕ) (graph ids weights tokenWeights mapping : Bool) : Guard W R where
  tensor := t
  topkIds := ids
  topkWeights := weights
  expertTokenWeights := tokenWeights
  expertTokenMapping := mapping
  host := fun _ => True
  device := fun m => m.hiddens t = .ok b.outputs.hiddens ∧
    (graph = true → (m.topkIds ids).take (b.metaC.numTokens * topK) = b.outputs.expertIds.flatten ∧
      (m.topkWeights weights).take (b.metaC.numTokens * topK) = b.outputs.expertWeights.flatten) ∧
    (graph = false → m.expertIds t = b.outputs.expertIds ∧ m.expertWeights t = b.outputs.expertWeights)
  host_local := fun _ _ _ _ h => h
  device_local := fun m m' ht hi hw hid hwt h => by
    rw [ht, hi, hw, hid, hwt]
    exact h

theorem attnGuard_waits {b : Scheduled W R} {topK t : ℕ} (fb : AttentionForwardBatch W)
    (hmeta : fb.metaC = b.metaC) (hfn : fb.numTokens = b.metaC.numTokens) (tokenWeights mapping : Bool) :
    WaitsAttention b topK fb t (attnGuard b topK t fb.useCudaGraph fb.expertIdsBuffer.index
      fb.expertWeightsBuffer.index tokenWeights mapping) :=
  ⟨hmeta, hfn, rfl, fun _ hm => hm.1, fun hgraph _ hm => hm.2.1 hgraph, fun hgraph _ hm => hm.2.2 hgraph⟩

theorem executeGraph_returns {b : Scheduled W R} {fb : AttentionForwardBatch W} (hr : b.AttentionReady cfg)
    (hmax : cfg.maxAttnGraphBsz ≤ 1024) (hn : b.metaC.numTokens ≤ cfg.maxAttnGraphBsz)
    (hmeta : fb.metaC = b.metaC) (hfn : fb.numTokens = b.metaC.numTokens) (s : Loop W R)
    (tokenWeights mapping : Bool) :
    Returns (executeGraph cfg scale b.out fb) s fun r s' =>
      r.1 = { fb with useCudaGraph := true } ∧ r.2.syncEvent = none ∧
      (attnGuard b cfg.topK r.2.hiddens true fb.expertIdsBuffer.index fb.expertWeightsBuffer.index
        tokenWeights mapping).On scale s'.stream.record s'.stream s'.nextTensor ∧
      Carries scale [] (fun g => g.topkIds ≠ fb.expertIdsBuffer.index ∧
        g.topkWeights ≠ fb.expertWeightsBuffer.index) s s' := by
  obtain ⟨bucket, hbucket, -⟩ := getBucketByNumTokens_ok
    ⟨_, mem_attnGraphBatchSizes hmax, le_rfl⟩ hn
  unfold executeGraph
  rw [hmeta, hbucket]
  refine .of_ok rfl ⟨rfl, rfl, ⟨?_, Nat.lt_succ_self _⟩, ⟨rfl, rfl, rfl, fun _ _ => rfl, ?_⟩⟩
  · have hstart : From (run scale) (fun _ => True) _ (fun _ => True)
        (s.stream.launch (run scale) (.graphPreprocess (some fb.batchTensors))) := From.trivial trivial
    have hreplay := hstart.next (k := .attnReplay bucket fb.layerId b.out)
      (Q := fun m => m.attnGraphs bucket fb.layerId = b.out) fun _ _ m _ => by
        show Function.update m.attnGraphs _ _ bucket fb.layerId = b.out
        rw [Function.update_self, Function.update_self]
    refine hreplay.next fun _ _ m hm => ⟨?_, fun _ => ⟨?_, ?_⟩, fun h => absurd h (by decide)⟩
    · show Function.update m.hiddens _ _ _ = _
      rw [Function.update_self, hm, hfn]
      rfl
    · show (Function.update m.topkIds _ _ _).take _ = _
      rw [Function.update_self, hm, hfn, ← hr.gated.length_flatten.1]
      exact take_copyTo _ _
    · show (Function.update m.topkWeights _ _ _).take _ = _
      rw [Function.update_self, hm, hfn, ← hr.gated.length_flatten.2]
      exact take_copyTo _ _
  · intro g e hg h
    have hread := (h.launch (k := .graphPreprocess (some fb.batchTensors))
      (Guard.spares_of_reads_only rfl rfl)).launch (k := .attnReplay bucket fb.layerId b.out)
      (Guard.spares_of_reads_only rfl rfl)
    refine (hread.launch ⟨?_, ?_, ?_⟩).newTensor
    · exact fun heq => h.allocated.ne' (Option.some.inj heq)
    · rintro p hp
      obtain rfl := Option.some.inj hp
      exact Ne.symm hg.1
    · rintro p hp
      obtain rfl := Option.some.inj hp
      exact Ne.symm hg.2

theorem executeNormal_returns {b : Scheduled W R} {fb : AttentionForwardBatch W}
    (hout : b.outputs = b.out) (s : Loop W R)
    (topK : ℕ) (ids weights tokenWeights mapping : Bool) :
    Returns (executeNormal scale b.out fb) s fun r s' =>
      r.1 = fb ∧ r.2.syncEvent = none ∧
      (attnGuard b topK r.2.hiddens false ids weights tokenWeights mapping).On scale s'.stream.record
        s'.stream s'.nextTensor ∧
      Carries scale [] (fun _ => True) s s' := by
  refine .of_ok rfl ⟨rfl, rfl, ⟨?_, Nat.lt_succ_self _⟩, ⟨rfl, rfl, rfl, fun _ _ => rfl, ?_⟩⟩
  · have hstart : From (run scale) (fun _ => True) _ (fun _ => True) s.stream := From.trivial trivial
    refine hstart.next fun _ _ m _ => ⟨?_, fun h => absurd h (by decide), fun _ => ⟨?_, ?_⟩⟩
    · show Function.update m.hiddens _ _ _ = _
      rw [Function.update_self, hout]
    · show Function.update m.expertIds _ _ _ = _
      rw [Function.update_self, hout]
    · show Function.update m.expertWeights _ _ _ = _
      rw [Function.update_self, hout]
  · intro g e _ h
    exact (h.launch (h.spares le_rfl rfl rfl)).newTensor

/-- An attention batch is launched: its outputs are guarded from the event on. -/
theorem executeBatchAttn_returns {b : Scheduled W R} {fb : AttentionForwardBatch W}
    (hr : b.AttentionReady cfg) (hmax : cfg.maxAttnGraphBsz ≤ 1024) (hmeta : fb.metaC = b.metaC)
    (hfn : fb.numTokens = b.metaC.numTokens) (hgraph : fb.useCudaGraph = false) (s : Loop W R)
    (tokenWeights mapping : Bool) :
    Returns (executeBatchAttn cfg scale b.out fb) s fun r s' => ∃ e g, r.2.syncEvent = some e ∧
      WaitsAttention b cfg.topK r.1 r.2.hiddens g ∧ g.On scale e s'.stream s'.nextTensor ∧
      (g.topkIds = fb.expertIdsBuffer.index ∧ g.topkWeights = fb.expertWeightsBuffer.index ∧
        g.expertTokenWeights = tokenWeights ∧ g.expertTokenMapping = mapping) ∧
      Carries scale [] (fun g => g.topkIds ≠ fb.expertIdsBuffer.index ∧
        g.topkWeights ≠ fb.expertWeightsBuffer.index) s s' := by
  unfold executeBatchAttn
  split_ifs with hcond
  · have hn : b.metaC.numTokens ≤ cfg.maxAttnGraphBsz := by
      simp only [Bool.and_eq_true, decide_eq_true_eq] at hcond
      exact hfn ▸ hcond.2
    refine (executeGraph_returns hr hmax hn hmeta hfn s tokenWeights mapping).bind ?_
    rintro ⟨fb', result⟩ s' ⟨rfl, -, hon, hcarries⟩
    have hwaits : WaitsAttention b cfg.topK { fb with useCudaGraph := true } result.hiddens _ :=
      attnGuard_waits { fb with useCudaGraph := true } hmeta hfn tokenWeights mapping
    exact .of_ok rfl ⟨_, _, rfl, hwaits, hon, ⟨rfl, rfl, rfl, rfl⟩, hcarries⟩
  · have hout : b.outputs = b.out := hr.padding fun h => hcond (by simpa [hfn] using h)
    refine (executeNormal_returns hout s cfg.topK fb.expertIdsBuffer.index
      fb.expertWeightsBuffer.index tokenWeights mapping).bind ?_
    rintro ⟨fb', result⟩ s' ⟨rfl, -, hon, hcarries⟩
    have hwaits : WaitsAttention b cfg.topK fb' result.hiddens _ :=
      attnGuard_waits fb' hmeta hfn tokenWeights mapping
    rw [hgraph] at hwaits
    exact .of_ok rfl ⟨_, _, rfl, hwaits, hon, ⟨rfl, rfl, rfl, rfl⟩, hcarries.mono (by simp) fun _ _ => trivial⟩

/-! ### Launching an expert batch -/

/-- The parts of the epilogue of an expert batch. -/
theorem executeBatchExpert_parts [Zero W] {metaC : BatchMetadata W} {hiddens : List R} {final : TokenBatch W R}
    (h : Engine.executeBatchExpert true S scale metaC hiddens = .ok final) :
    ∃ sorted mapping, metaC.sortByAttention S = .ok (sorted, mapping) ∧
      Engine.applyWeightsAndPermuteTokens scale hiddens metaC.topkWeights mapping = .ok final.data ∧
      final.metadata = ({ sorted with expIds := [], topkWeights := [] } : BatchMetadata W).stepLayer := by
  unfold Engine.executeBatchExpert at h
  obtain ⟨⟨sorted, mapping⟩, hsort, h⟩ := bind_eq_ok_iff.mp h
  obtain ⟨rows, hrows, h⟩ := bind_eq_ok_iff.mp h
  obtain rfl := Except.ok.inj h
  exact ⟨sorted, mapping, hsort, hrows, rfl⟩

/-- A half is handed out and filled. -/
theorem write_carries {c : Guard W R → Prop} (s : Loop W R) (r : Region) {f : Staging W → Staging W}
    (overwritten : List Half) (hf : ∀ g, c g → ∀ x, g.host x → g.host (f x)) :
    Carries scale [r] c s { s with
      index := Function.update s.index r (!s.index r)
      overwritten
      stream := s.stream.write (run scale) f } where
  resultQueue := rfl
  lastBatch := rfl
  dispatched := rfl
  index r' hr' := by
    rw [List.mem_singleton] at hr'
    exact Function.update_of_ne hr' _ _
  guards g _ hg h := h.write (hf g hg)

theorem preprocessBatchExpert_returns (b : Scheduled W R) (s : Loop W R) :
    Returns (preprocessBatchExpert cfg scale b) s fun fb s' =>
      fb.metaC = b.metaC ∧ fb.layerId = b.metaC.layerId ∧ fb.numTokens = b.metaC.numTokens ∧
      Carries scale [.batchSizes, .tokenMIndices] (fun _ => True) s s' := by
  unfold preprocessBatchExpert prepareBszAndIndices
  cases cfg.expertCls with
  | serial => exact .of_ok rfl ⟨rfl, rfl, rfl, (Carries.refl s).mono (by simp) fun _ h => h⟩
  | cutlass | cutlassFp8 =>
    exact .of_ok rfl ⟨rfl, rfl, rfl, (write_carries s .batchSizes _ fun _ _ _ hx => hx).mono (by simp) fun _ h => h⟩
  | deepGemmBf16 | deepGemmFp8 =>
    exact .of_ok rfl ⟨rfl, rfl, rfl, (write_carries s .tokenMIndices _ fun _ _ _ hx => hx).mono (by simp)
      fun _ h => h⟩

/-- The experts' rows, once the kernels are complete. -/
theorem executeExperts_returns {b : Scheduled W R} {fb : ExpertForwardBatch W} (hr : b.ExpertReady cfg)
    (hfn : fb.numTokens = b.metaC.numTokens) (s : Loop W R) :
    Returns (executeExperts cfg scale b.out.hiddens fb) s fun hiddens s' =>
      From (run scale) (fun _ => True) s'.stream.record (fun m => m.rows hiddens = .ok b.outputs.hiddens)
        s'.stream ∧ Carries scale [] (fun _ => True) s s' := by
  unfold executeExperts
  have hle : fb.numTokens ≤ cfg.maxBatchSizeExpert := hfn ▸ hr.limit
  refine .step (ensure_ok_iff.mpr ⟨hle, rfl⟩ : ensure _ _ s = .ok ⟨⟩ s) ?_
  split_ifs with hgraph
  · obtain ⟨bucket, hbucket, -⟩ := getBucketByNumTokens_ok
      (exists_mem_expertGraphBatchSizes cfg.maxBatchSizeExpert) hr.limit
    rw [hfn, hbucket]
    refine .of_ok rfl ⟨?_, ⟨rfl, rfl, rfl, fun _ _ => rfl, fun g e _ h => ?_⟩⟩
    · have hstart : From (run scale) (fun _ => True) _ (fun _ => True)
          (s.stream.launch (run scale) (.graphPreprocess fb.sizes)) := From.trivial trivial
      refine hstart.next fun _ _ m _ => ?_
      show Except.ok ((Function.update m.expertGraphs _ _ bucket fb.layerId).take _) = _
      rw [Function.update_self, Function.update_self]
      rfl
    · exact (h.launch (Guard.spares_of_reads_only rfl rfl)).launch (Guard.spares_of_reads_only rfl rfl)
  · refine .of_ok rfl ⟨?_, ⟨rfl, rfl, rfl, fun _ _ => rfl, fun g e _ h => ?_⟩⟩
    · have hstart : From (run scale) (fun _ => True) _ (fun _ => True) s.stream := From.trivial trivial
      refine hstart.next fun _ _ m _ => ?_
      show Function.update m.hiddens _ _ _ = _
      rw [Function.update_self, hr.padding hgraph]
    · exact (h.launch (h.spares le_rfl rfl rfl)).newTensor

/-- What is known of the rows of a launched expert batch, and of the halves that its last kernel
reads. -/
def expertGuard (b : Scheduled W R) (rows : List R) (positions : List ℕ) (t : ℕ)
    (ids weights tokenWeights mapping : Bool) : Guard W R where
  tensor := t
  topkIds := ids
  topkWeights := weights
  expertTokenWeights := tokenWeights
  expertTokenMapping := mapping
  host := fun x => (x.expertTokenWeights tokenWeights).take b.metaC.numTokens = b.metaC.topkWeights ∧
    (x.expertTokenMapping mapping).take b.metaC.numTokens = positions
  device := fun m => m.hiddens t = .ok rows
  host_local := fun _ _ hw hm h => by
    rw [hw, hm]
    exact h
  device_local := fun _ _ ht _ _ _ _ h => ht.trans h

/-- A fact for the kernels launched so far holds after two writes and the next kernel's run. -/
theorem fillTwo_from {s : Stream (Kernel W R) (Staging W) (Memory W R)} {J : Staging W → Prop}
    {P Q : Memory W R → Prop} {f f' : Staging W → Staging W} {k : Kernel W R}
    (h : From (run scale) (fun _ => True) s.record P s) (hJ : J (f' (f s.host)))
    (hk : ∀ x, J x → ∀ m, P m → Q (run scale k x m)) :
    From (run scale) J (((s.write (run scale) f).write (run scale) f').launch (run scale) k).record Q
      (((s.write (run scale) f).write (run scale) f').launch (run scale) k) := by
  have hwritten : From (run scale) (fun _ => True) _ P ((s.write (run scale) f).write (run scale) f') :=
    (h.write trivial).write trivial
  exact (hwritten.mono (fun _ _ => trivial) hJ).next hk

theorem length_of_sortByAttention [Zero W] {metaC sorted : BatchMetadata W} {mapping : List ℕ}
    (h : metaC.Aligned .routing) (hsort : metaC.sortByAttention S = .ok (sorted, mapping)) :
    mapping.length = metaC.numTokens := by
  obtain ⟨sorted', hsort', -, hrank⟩ := Engine.sortByAttention_weights (S := S) h
  obtain ⟨-, rfl⟩ := Prod.mk.inj (Except.ok.inj (hsort.symm.trans hsort'))
  exact (inversePositions_positions hrank).length

theorem executeBatchExpert_returns [Zero W] {b : Scheduled W R} {fb : ExpertForwardBatch W}
    {final : TokenBatch W R} (hr : b.ExpertReady cfg)
    (hfinal : Engine.executeBatchExpert true S scale b.metaC b.outputs.hiddens = .ok final)
    (hmeta : fb.metaC = b.metaC) (hfn : fb.numTokens = b.metaC.numTokens) (s : Loop W R)
    (ids weights : Bool) :
    Returns (executeBatchExpert cfg S scale b.out.hiddens fb) s fun r s' => ∃ e g,
      r.2.syncEvent = some e ∧ r.1.metaC = final.metadata ∧ g.tensor = r.2.hiddens ∧
      (∀ m, g.device m → m.hiddens r.2.hiddens = .ok final.data) ∧
      Guard.On scale g e s'.stream s'.nextTensor ∧
      (g.topkIds = ids ∧ g.topkWeights = weights ∧
        g.expertTokenWeights = s'.index .expertTokenWeights ∧
        g.expertTokenMapping = s'.index .expertTokenMapping) ∧
      Carries scale [.expertTokenWeights, .expertTokenMapping] (fun g =>
        g.expertTokenWeights = s.index .expertTokenWeights ∧
        g.expertTokenMapping = s.index .expertTokenMapping) s s' := by
  obtain ⟨sorted, mapping, hsort, hrows, hfm⟩ := executeBatchExpert_parts hfinal
  have hweights := hr.aligned.topkWeights rfl
  have hmapping := length_of_sortByAttention hr.aligned hsort
  unfold executeBatchExpert
  refine (executeExperts_returns hr hfn s).bind ?_
  rintro hiddens s₁ ⟨hfrom, hcarries⟩
  have hindex : ∀ r, s₁.index r = s.index r := fun r => hcarries.index r (by simp)
  rw [hmeta, hsort]
  refine .of_ok rfl ⟨_, expertGuard b final.data mapping s₁.nextTensor ids weights
    (!s₁.index .expertTokenWeights) (!s₁.index .expertTokenMapping), rfl, hfm.symm, rfl, fun _ hm => hm,
    ⟨?_, Nat.lt_succ_self _⟩, ⟨rfl, rfl, rfl, rfl⟩, hcarries.before ⟨rfl, rfl, rfl, fun r hr => ?_, ?_⟩⟩
  · refine fillTwo_from hfrom ?_ fun x hx m hm => ?_
    · have hfill : ∀ {α : Type} (xs : List α) (old : Bool → List α) (i : Bool), xs.length = b.metaC.numTokens →
          (Function.update old i (copyTo xs (old i)) i).take b.metaC.numTokens = xs := by
        intro α xs old i hlen
        rw [Function.update_self, ← hlen, take_copyTo]
      exact ⟨hfill _ _ _ hweights, hfill _ _ _ hmapping⟩
    · have happly : Engine.applyWeightsAndPermuteTokens scale b.outputs.hiddens
          ((x.expertTokenWeights (!s₁.index .expertTokenWeights)).take b.outputs.hiddens.length)
          ((x.expertTokenMapping (!s₁.index .expertTokenMapping)).take b.outputs.hiddens.length) =
            .ok final.data := by
        rw [hr.hiddens, hx.1, hx.2]
        exact hrows
      show Function.update m.hiddens _ _ _ = _
      rw [Function.update_self, hm]
      exact happly
  · simp only [List.mem_cons, List.not_mem_nil, or_false, not_or] at hr
    show Function.update (Function.update s₁.index _ _) _ _ r = s₁.index r
    rw [Function.update_of_ne hr.2, Function.update_of_ne hr.1]
  · intro g e hg h
    have hne : ∀ i : Bool, i ≠ !i := by decide
    have hw : g.expertTokenWeights ≠ !s₁.index .expertTokenWeights := by
      rw [hg.1, hindex]
      exact hne _
    have hm : g.expertTokenMapping ≠ !s₁.index .expertTokenMapping := by
      rw [hg.2, hindex]
      exact hne _
    refine (((h.write fun x hx => ?_).write fun x hx => ?_).launch ?_).newTensor
    · exact g.host_local x _ (Function.update_of_ne hw _ _) rfl hx
    · exact g.host_local x _ rfl (Function.update_of_ne hm _ _) hx
    · exact h.spares le_rfl rfl rfl

/-! ### Launching a batch -/

/-- A ready batch has a result of its own. -/
theorem Scheduled.Ready.own_ok [Zero W] {b : Scheduled W R} (hr : b.Ready cfg) (hf : b.forwards cfg = true) :
    ∃ final, b.own cfg S scale = .ok final := by
  unfold Scheduled.own
  split_ifs with hkind
  · have hlayer : b.metaC.layerId ≠ cfg.modelTotalNumLayers := by
      simpa [Scheduled.forwards, hkind] using hf
    have hready := hr.attention hkind hlayer
    obtain ⟨final, hok, -⟩ := Engine.postprocessBatchAttn_rows cfg.attnDpRank hready.gated hready.experts
      hready.hiddens
    exact ⟨final, hok⟩
  · have hready := hr.expert (by simpa using hkind)
    obtain ⟨final, hok, -⟩ := Engine.executeBatchExpert_rows (S := S) hready.aligned true scale hready.hiddens
    exact ⟨final, hok⟩

/-- What the first half of an iteration leaves: a forwarded batch is queued, behind the queue as it
was, and the batch before it keeps its guard. -/
structure Launched [Zero W] (cfg : LoopConfig) (S : ComparatorSort) (scale : W → R → R)
    (outcome : Option (Scheduled W R)) (s : Loop W R) (r : Option (ForwardBatch W)) (s' : Loop W R) : Prop where
  lastBatch : s'.lastBatch = s.lastBatch
  dispatched : s'.dispatched = s.dispatched
  guards : ∀ g e, Guard.Current g s → Guard.On scale g e s.stream s.nextTensor →
    Guard.On scale g e s'.stream s'.nextTensor
  skipped : outcome.filter (Scheduled.forwards cfg) = none → r = none ∧ s'.resultQueue = s.resultQueue
  forwarded : ∀ b, outcome.filter (Scheduled.forwards cfg) = some b → ∃ entry g e, r = some entry.1 ∧
    s'.resultQueue = s.resultQueue ++ [entry] ∧ Queued cfg S scale b entry g e ∧
    Guard.On scale g e s'.stream s'.nextTensor ∧ Guard.Current g s'

/-- Guards are current until a half of their regions is handed out. -/
theorem current_of_index {g : Guard W R} {s s' : Loop W R} (h : Guard.Current g s)
    (hindex : ∀ r ∈ [Region.attnTopkIds, .attnTopkWeights, .expertTokenWeights, .expertTokenMapping],
      s'.index r = s.index r) : Guard.Current g s' where
  topkIds := by rw [hindex _ (by simp), h.topkIds]
  topkWeights := by rw [hindex _ (by simp), h.topkWeights]
  expertTokenWeights := by rw [hindex _ (by simp), h.expertTokenWeights]
  expertTokenMapping := by rw [hindex _ (by simp), h.expertTokenMapping]

theorem startBatch_sampled [Zero W] {b : Scheduled W R} (ha : b.metaC.isAttention = true)
    (hlayer : b.metaC.layerId = cfg.modelTotalNumLayers) (s : Loop W R) :
    Returns (startBatch cfg S scale b) s fun r s' => Launched cfg S scale (some b) s r s' := by
  have hf : b.forwards cfg = false := by simp [Scheduled.forwards, ha, hlayer]
  unfold startBatch
  refine (schedule_returns s b.load).bind fun _ s₀ hc₀ => ?_
  obtain ⟨⟨⟩, s₁, hok, hc₁⟩ := @sampleResults_returns W R scale s₀ b.continueIds
  have hpre : preprocessBatch cfg scale b s₀ = .ok none s₁ := by
    have hattn : preprocessBatchAttn cfg scale b s₀ = .ok none s₁ := by
      unfold preprocessBatchAttn
      rw [if_pos hlayer, Stateful.bind_of_ok hok]
      rfl
    unfold preprocessBatch
    rw [if_pos ha, Stateful.bind_of_ok hattn]
    rfl
  have hall := hc₀.trans hc₁
  refine .step hpre (.pure ⟨hall.lastBatch, hall.dispatched, fun g e _ h => hall.guards g e ⟨trivial, trivial⟩ h,
    fun _ => ⟨rfl, hall.resultQueue⟩, fun x h => ?_⟩)
  simp [Option.filter, hf] at h

theorem startBatch_attention [Zero W] {b : Scheduled W R} (hmax : cfg.maxAttnGraphBsz ≤ 1024)
    (hr : b.Ready cfg) (ha : b.metaC.isAttention = true)
    (hlayer : b.metaC.layerId ≠ cfg.modelTotalNumLayers) (s : Loop W R) :
    Returns (startBatch cfg S scale b) s fun r s' => Launched cfg S scale (some b) s r s' := by
  have hf : b.forwards cfg = true := by simp [Scheduled.forwards, ha, hlayer]
  have hready := hr.attention ha hlayer
  obtain ⟨final, hown⟩ := @Scheduled.Ready.own_ok _ _ _ S scale _ _ hr hf
  unfold startBatch
  refine (schedule_returns s b.load).bind fun _ s₀ hc₀ => ?_
  obtain ⟨_, s₁, hok, fb, rfl, hmeta, -, hfn, hgraph, hids, hids', hweights, hweights', hc₁⟩ :=
    @preprocessBatchAttn_returns _ _ cfg scale _ hready hlayer s₀
  have hpre : preprocessBatch cfg scale b s₀ = .ok (some (.attention fb)) s₁ := by
    unfold preprocessBatch
    rw [if_pos ha, Stateful.bind_of_ok hok]
    rfl
  refine .step hpre ?_
  obtain ⟨⟨fb', result⟩, s₂, hok₂, e, g, hevent, hwaits, hon, hguard, hc₂⟩ := executeBatchAttn_returns hready hmax
    hmeta hfn hgraph s₁ (s₁.index .expertTokenWeights) (s₁.index .expertTokenMapping)
  have hexec : execute cfg S scale b.out (.attention fb) s₁ = .ok (.attention fb', result) s₂ := by
    unfold execute
    dsimp only
    rw [Stateful.bind_of_ok hok₂]
    rfl
  refine .step hexec ?_
  have hall := (hc₀.trans hc₁).trans hc₂
  have hindex₀ : ∀ r, r ≠ .gatherSrcPtrs → r ≠ .gatherAndSumSrcPtrs → s₀.index r = s.index r :=
    fun r h h' => hc₀.index r (by simp [h, h'])
  have hindex₂ : ∀ r, s₂.index r = s₁.index r := fun r => hc₂.index r (by simp)
  have hne : ∀ i : Bool, i ≠ !i := by decide
  refine .of_ok rfl ⟨hall.lastBatch, hall.dispatched, fun g' e' hcur hon' => hall.guards g' e' ?_ hon',
    fun h => ?_, fun x h => ?_⟩
  · refine ⟨⟨trivial, trivial⟩, ?_, ?_⟩
    · rw [hcur.topkIds, hids, hindex₀ _ (by decide) (by decide)]
      exact hne _
    · rw [hcur.topkWeights, hweights, hindex₀ _ (by decide) (by decide)]
      exact hne _
  · simp [Option.filter, hf] at h
  · obtain rfl : b = x := by simpa [Option.filter, hf] using h
    refine ⟨(.attention fb', result), g, e, rfl, congrArg (· ++ _) hall.resultQueue,
      ⟨final, hown, hevent, .attention hready hwaits ?_⟩, hon, ?_⟩
    · rwa [Scheduled.own, if_pos ha] at hown
    obtain ⟨h₁, h₂, h₃, h₄⟩ := hguard
    exact ⟨by rw [h₁, hids, ← hids', ← hindex₂], by rw [h₂, hweights, ← hweights', ← hindex₂],
      by rw [h₃, ← hindex₂], by rw [h₄, ← hindex₂]⟩

theorem startBatch_expert [Zero W] {b : Scheduled W R} (hr : b.Ready cfg) (ha : b.metaC.isAttention = false)
    (s : Loop W R) :
    Returns (startBatch cfg S scale b) s fun r s' => Launched cfg S scale (some b) s r s' := by
  have hf : b.forwards cfg = true := by simp [Scheduled.forwards, ha]
  have hready := hr.expert ha
  have hexpert : b.metaC.isExpert = true := hr.kind.resolve_left (by simp [ha])
  obtain ⟨final, hown⟩ := @Scheduled.Ready.own_ok _ _ _ S scale _ _ hr hf
  have hfinal : Engine.executeBatchExpert true S scale b.metaC b.outputs.hiddens = .ok final := by
    rw [Scheduled.own, if_neg (by simp [ha])] at hown
    exact hown
  unfold startBatch
  refine (schedule_returns s b.load).bind fun _ s₀ hc₀ => ?_
  obtain ⟨fb, s₁, hok, hmeta, -, hfn, hc₁⟩ := @preprocessBatchExpert_returns _ _ cfg scale b s₀
  have hpre : preprocessBatch cfg scale b s₀ = .ok (some (.expert fb)) s₁ := by
    unfold preprocessBatch
    rw [if_neg (by simp [ha]), if_pos hexpert, Stateful.bind_of_ok hok]
    rfl
  refine .step hpre ?_
  obtain ⟨⟨fb', result⟩, s₂, hok₂, e, g, hevent, hmeta', htensor, hdata, hon, hguard, hc₂⟩ :=
    executeBatchExpert_returns hready hfinal hmeta hfn s₁ (s₁.index .attnTopkIds) (s₁.index .attnTopkWeights)
  have hexec : execute cfg S scale b.out (.expert fb) s₁ = .ok (.expert fb', result) s₂ := by
    unfold execute
    dsimp only
    rw [Stateful.bind_of_ok hok₂]
    rfl
  refine .step hexec ?_
  have hall := (hc₀.trans hc₁).trans hc₂
  have hindex₁ : ∀ r ∈ [Region.expertTokenWeights, .expertTokenMapping], s₁.index r = s.index r := by
    intro r hr
    simp only [List.mem_cons, List.not_mem_nil, or_false] at hr
    rcases hr with rfl | rfl <;> exact (hc₀.trans hc₁).index _ (by decide)
  refine .of_ok rfl ⟨hall.lastBatch, hall.dispatched, fun g' e' hcur hon' => hall.guards g' e' ?_ hon',
    fun h => ?_, fun x h => ?_⟩
  · exact ⟨⟨trivial, trivial⟩, by rw [hcur.expertTokenWeights, hindex₁ _ (by simp)],
      by rw [hcur.expertTokenMapping, hindex₁ _ (by simp)]⟩
  · simp [Option.filter, hf] at h
  · obtain rfl : b = x := by simpa [Option.filter, hf] using h
    refine ⟨(.expert fb', result), g, e, rfl, congrArg (· ++ _) hall.resultQueue,
      ⟨final, hown, hevent, .expert hmeta' htensor hdata⟩, hon, ?_⟩
    obtain ⟨h₁, h₂, h₃, h₄⟩ := hguard
    exact ⟨by rw [h₁]; exact (hc₂.index _ (by decide)).symm, by rw [h₂]; exact (hc₂.index _ (by decide)).symm,
      h₃, h₄⟩

theorem startBatch_returns [Zero W] {b : Scheduled W R} (hmax : cfg.maxAttnGraphBsz ≤ 1024)
    (hr : b.Ready cfg) (s : Loop W R) :
    Returns (startBatch cfg S scale b) s fun r s' => Launched cfg S scale (some b) s r s' := by
  cases ha : b.metaC.isAttention with
  | false => exact startBatch_expert hr ha s
  | true =>
    by_cases hlayer : b.metaC.layerId = cfg.modelTotalNumLayers
    · exact startBatch_sampled ha hlayer s
    · exact startBatch_attention hmax hr ha hlayer s

/-! ### Iterations -/

/-- The batches that iterations forward, in order. -/
def forwarded (cfg : LoopConfig) (outcomes : List (Option (Scheduled W R))) : List (Scheduled W R) :=
  outcomes.filterMap fun outcome => outcome.filter (Scheduled.forwards cfg)

/-- The batch that the last iteration forwards. -/
def lastForwarded (cfg : LoopConfig) (outcomes : List (Option (Scheduled W R))) : Option (Scheduled W R) :=
  outcomes.getLast?.join.filter (Scheduled.forwards cfg)

/-- After some iterations the batches that were forwarded before the last one are dispatched, and
the batch of the last one, if it was forwarded, is in the queue. -/
structure Between [Zero W] (cfg : LoopConfig) (S : ComparatorSort) (scale : W → R → R)
    (outcomes : List (Option (Scheduled W R))) (s : Loop W R) : Prop where
  dispatched : (forwarded cfg outcomes.dropLast).mapM (Scheduled.own cfg S scale) = .ok s.dispatched
  idle : lastForwarded cfg outcomes = none → s.lastBatch = none ∧ s.resultQueue = []
  busy : ∀ b, lastForwarded cfg outcomes = some b → ∃ entry g e,
    s.lastBatch = some entry.1 ∧ s.resultQueue = [entry] ∧ Queued cfg S scale b entry g e ∧
    Guard.On scale g e s.stream s.nextTensor ∧ Guard.Current g s

theorem forwarded_eq (outcomes : List (Option (Scheduled W R))) :
    forwarded cfg outcomes = forwarded cfg outcomes.dropLast ++ (lastForwarded cfg outcomes).toList := by
  induction outcomes using List.reverseRecOn with
  | nil => rfl
  | append_singleton outcomes outcome _ =>
    rw [List.dropLast_concat, lastForwarded, List.getLast?_concat, forwarded, List.filterMap_append, forwarded]
    cases outcome with
    | none => rfl
    | some b => cases h : b.forwards cfg <;> simp [Option.filter, h]

theorem lastForwarded_concat (outcomes : List (Option (Scheduled W R))) (outcome : Option (Scheduled W R)) :
    lastForwarded cfg (outcomes ++ [outcome]) = outcome.filter (Scheduled.forwards cfg) := by
  rw [lastForwarded, List.getLast?_concat]
  rfl

theorem mapM_append_ok {α β ε : Type} {f : α → Except ε β} {xs ys : List α} {as bs : List β}
    (hx : xs.mapM f = .ok as) (hy : ys.mapM f = .ok bs) : (xs ++ ys).mapM f = .ok (as ++ bs) := by
  rw [mapM_eq_ok_iff] at hx hy ⊢
  exact List.rel_append hx hy

/-- The second half of an iteration. -/
theorem finish_returns [Zero W] {outcomes : List (Option (Scheduled W R))} {outcome : Option (Scheduled W R)}
    {s s₁ : Loop W R} {r : Option (ForwardBatch W)} (h : Between cfg S scale outcomes s)
    (hl : Launched cfg S scale outcome s r s₁) :
    Returns (do
      if (← get).lastBatch.isSome then
        finishBatch cfg scale
      modify fun s => { s with lastBatch := r }) s₁ fun _ s' =>
        Between cfg S scale (outcomes ++ [outcome]) s' := by
  cases hlast : lastForwarded cfg outcomes with
  | none =>
    obtain ⟨hbatch, hqueue⟩ := h.idle hlast
    refine ⟨⟨⟩, { s₁ with lastBatch := r }, ?_, ?_, fun hnone => ?_, fun b hb => ?_⟩
    · rw [Stateful.get_bind, hl.lastBatch, hbatch]
      rfl
    · rw [List.dropLast_concat, forwarded_eq, hlast]
      show _ = Except.ok s₁.dispatched
      rw [hl.dispatched, Option.toList_none, List.append_nil]
      exact h.dispatched
    · rw [lastForwarded_concat] at hnone
      obtain ⟨hr, hq⟩ := hl.skipped hnone
      exact ⟨hr, hq.trans hqueue⟩
    · rw [lastForwarded_concat] at hb
      obtain ⟨entry, g, e, hr, hq, hrest⟩ := hl.forwarded b hb
      rw [hqueue] at hq
      exact ⟨entry, g, e, hr, hq, hrest.1, hrest.2.1, current_of_index hrest.2.2 fun _ _ => rfl⟩
  | some last =>
    obtain ⟨entry, g, e, hbatch, hqueue, hqueued, hon, hcur⟩ := h.busy last hlast
    have hon₁ := hl.guards g e hcur hon
    have hlast₁ : s₁.lastBatch = some entry.1 := hl.lastBatch.trans hbatch
    obtain ⟨rest, hq, hskipped, hforwarded⟩ : ∃ rest, s₁.resultQueue = entry :: rest ∧
        (outcome.filter (Scheduled.forwards cfg) = none → r = none ∧ rest = []) ∧
        ∀ b, outcome.filter (Scheduled.forwards cfg) = some b → ∃ entry' g e, r = some entry'.1 ∧
          rest = [entry'] ∧ Queued cfg S scale b entry' g e ∧
          Guard.On scale g e s₁.stream s₁.nextTensor ∧ Guard.Current g s₁ := by
      cases hout : outcome.filter (Scheduled.forwards cfg) with
      | none =>
        obtain ⟨hr, hq⟩ := hl.skipped hout
        exact ⟨[], hq.trans hqueue, fun _ => ⟨hr, rfl⟩, fun b hb => by simp at hb⟩
      | some b =>
        obtain ⟨entry', g', e', hr, hq, hrest⟩ := hl.forwarded b hout
        rw [hqueue] at hq
        refine ⟨[entry'], hq, fun hnone => by simp at hnone, fun b' hb' => ?_⟩
        obtain rfl := Option.some_inj.mp hb'
        exact ⟨entry', g', e', hr, rfl, hrest⟩
    have hif : (do
        if (← get).lastBatch.isSome then
          finishBatch cfg scale
        modify fun s => { s with lastBatch := r } : LoopM W R Unit) s₁ =
        (do
          finishBatch cfg scale
          modify fun s => { s with lastBatch := r } : LoopM W R Unit) s₁ := by
      rw [Stateful.get_bind, hlast₁]
      rfl
    obtain ⟨⟨⟩, s₂, hok, final, hown, hdispatched, hcarries⟩ := finishBatch_returns hq hqueued hon₁
    refine ⟨⟨⟩, { s₂ with lastBatch := r }, ?_, ?_, fun hnone => ?_, fun b hb => ?_⟩
    · rw [hif, Stateful.bind_of_ok hok]
      rfl
    · rw [List.dropLast_concat, forwarded_eq, hlast]
      show _ = Except.ok s₂.dispatched
      rw [hdispatched, hl.dispatched]
      exact mapM_append_ok h.dispatched (by rw [Option.toList_some, mapM_eq_ok_iff]; exact .cons hown .nil)
    · rw [lastForwarded_concat] at hnone
      obtain ⟨hr, hrest⟩ := hskipped hnone
      exact ⟨hr, hcarries.resultQueue.trans hrest⟩
    · rw [lastForwarded_concat] at hb
      obtain ⟨entry', g', e', hr, hrest, hqueued', hon', hcur'⟩ := hforwarded b hb
      refine ⟨entry', g', e', hr, hcarries.resultQueue.trans hrest, hqueued',
        hcarries.guards g' e' trivial hon', current_of_index hcur' fun region hregion => ?_⟩
      refine hcarries.index region ?_
      rw [List.mem_singleton]
      rintro rfl
      simp at hregion

theorem iteration_returns [Zero W] {outcomes : List (Option (Scheduled W R))}
    {outcome : Option (Scheduled W R)} {s : Loop W R} (hmax : cfg.maxAttnGraphBsz ≤ 1024)
    (h : Between cfg S scale outcomes s) (hr : ∀ b, outcome = some b → b.Ready cfg) :
    Returns (iteration cfg S scale outcome) s fun _ s' => Between cfg S scale (outcomes ++ [outcome]) s' := by
  unfold iteration
  cases outcome with
  | none =>
    exact .step rfl (finish_returns h ⟨rfl, rfl, fun _ _ _ h => h, fun _ => ⟨rfl, rfl⟩, fun b h => by simp at h⟩)
  | some b => exact (startBatch_returns hmax (hr b rfl) s).bind fun _ _ hl => finish_returns h hl

theorem runLoop_returns [Zero W] {done outcomes : List (Option (Scheduled W R))} {s : Loop W R}
    (hmax : cfg.maxAttnGraphBsz ≤ 1024) (h : Between cfg S scale done s)
    (hr : ∀ b, some b ∈ outcomes → b.Ready cfg) :
    Returns (runLoop cfg S scale outcomes) s fun _ s' => Between cfg S scale (done ++ outcomes) s' := by
  induction outcomes generalizing done s with
  | nil => exact .pure (by rwa [List.append_nil])
  | cons outcome outcomes ih =>
    show Returns (iteration cfg S scale outcome >>= fun _ => runLoop cfg S scale outcomes) s _
    refine (iteration_returns hmax h fun b hb => hr b (by simp [hb])).bind fun _ s₁ hs₁ => ?_
    rw [List.append_cons]
    exact ih hs₁ fun b hb => hr b (by simp [hb])

/-- However far the device runs ahead or behind: after any iterations the queue holds one entry
exactly when the last one forwarded a batch, and exactly the batches forwarded before it are
dispatched, once each, in order, and with their own results. -/
theorem dispatches_own [Zero W] (hmax : cfg.maxAttnGraphBsz ≤ 1024) (outcomes : List (Option (Scheduled W R)))
    (hr : ∀ b, some b ∈ outcomes → b.Ready cfg) (pace : ℕ → ℕ) (host : Staging W) (memory : Memory W R) :
    ∃ s, runLoop cfg S scale outcomes (.start pace host memory) = .ok ⟨⟩ s ∧
      s.resultQueue.length = (lastForwarded cfg outcomes).toList.length ∧
      s.lastBatch = s.resultQueue.head?.map Prod.fst ∧
      (forwarded cfg outcomes.dropLast).mapM (Scheduled.own cfg S scale) = .ok s.dispatched := by
  have hstart : Between cfg S scale [] (Loop.start pace host memory) :=
    ⟨rfl, fun _ => ⟨rfl, rfl⟩, fun b hb => by simp [lastForwarded] at hb⟩
  obtain ⟨⟨⟩, s, hok, hbetween⟩ := runLoop_returns hmax hstart hr
  rw [List.nil_append] at hbetween
  refine ⟨s, hok, ?_, ?_, hbetween.dispatched⟩
  · cases hlast : lastForwarded cfg outcomes with
    | none =>
      rw [(hbetween.idle hlast).2]
      rfl
    | some b =>
      obtain ⟨entry, g, e, -, hq, -⟩ := hbetween.busy b hlast
      rw [hq, Option.toList_some, List.length_singleton, List.length_singleton]
  · cases hlast : lastForwarded cfg outcomes with
    | none => rw [(hbetween.idle hlast).1, (hbetween.idle hlast).2, List.head?_nil, Option.map_none]
    | some b =>
      obtain ⟨entry, g, e, hbatch, hq, -⟩ := hbetween.busy b hlast
      rw [hbatch, hq, List.head?_cons, Option.map_some]

/-- One choice for each token, with graphs for attention. -/
def smallLoop : LoopConfig where
  modelTotalNumLayers := 4
  topK := 1
  attnDpRank := 0
  enableCudaGraphAttn := true
  maxAttnGraphBsz := 16
  enableCudaGraphExpert := false
  maxBatchSizeExpert := 16
  expertCls := .cutlass

/-- Two tokens in a graph for eight. -/
def paddedAttention : Scheduled ℕ ℕ where
  load := .one
  metaC := { Engine.twoRequests with
    numPrefillSeqs := some 1
    numPrefillTokens := some 1
    numDecodeTokens := some 1 }
  continueIds := []
  out := ⟨[10, 20, 0, 0, 0, 0, 0, 0], [[5], [3], [0], [0], [0], [0], [0], [0]],
    [[1], [1], [0], [0], [0], [0], [0], [0]]⟩

def twoExpertRows : Scheduled ℕ ℕ where
  load := .gather
  metaC := Engine.sortedRanks
  continueIds := []
  out := ⟨[30, 40], [], []⟩

theorem paddedAttention_ready : paddedAttention.Ready smallLoop where
  kind := .inl rfl
  attention _ _ :=
    { counts := ⟨1, 1, rfl, rfl, rfl⟩
      gated := ⟨by decide, by decide, rfl, rfl, rfl, by decide, rfl, by decide⟩
      experts := by decide
      hiddens := rfl
      padding := fun h => absurd ⟨rfl, by decide⟩ h }
  expert h := by cases h

theorem twoExpertRows_ready : twoExpertRows.Ready smallLoop where
  kind := .inr rfl
  attention h := by cases h
  expert _ :=
    { limit := by decide
      aligned := ⟨rfl, rfl, fun _ => rfl, fun _ => rfl, fun _ => rfl⟩
      hiddens := rfl
      padding := fun _ => rfl }

def blankStaging : Staging ℕ := ⟨fun _ => [], fun _ => [], fun _ => []⟩

def blankMemory : Memory ℕ ℕ where
  hiddens := fun _ => .ok []
  expertIds := fun _ => []
  expertWeights := fun _ => []
  topkIds := fun _ => []
  topkWeights := fun _ => []
  attnGraphs := fun _ _ => ⟨[], [], []⟩
  expertGraphs := fun _ _ => []

/-- A device that completes no kernel before it is waited for. -/
theorem dispatches_own_small :
    ∃ s, runLoop smallLoop .insertion (· * ·) [some paddedAttention, some twoExpertRows, none]
        (.start (fun _ => 0) blankStaging blankMemory) = .ok ⟨⟩ s ∧
      s.resultQueue.length =
        (lastForwarded smallLoop [some paddedAttention, some twoExpertRows, none]).toList.length ∧
      s.lastBatch = s.resultQueue.head?.map Prod.fst ∧
      (forwarded smallLoop [some paddedAttention, some twoExpertRows]).mapM
        (Scheduled.own smallLoop .insertion (· * ·)) = .ok s.dispatched := by
  refine dispatches_own (by decide) [some paddedAttention, some twoExpertRows, none] (fun b hb => ?_) _ _ _
  simp only [List.mem_cons, Option.some.injEq, List.not_mem_nil, or_false, reduceCtorEq] at hb
  rcases hb with rfl | rfl
  · exact paddedAttention_ready
  · exact twoExpertRows_ready

end StreamInfer.Overlap
