import StreamInfer.Colocated.Batches
import StreamInfer.Colocated.Phases
import StreamInfer.Colocated.PoolCensus

/-! What one action does to the tokens. A state represents the phases of its requests when the
tokens on the devices and in flight are exactly those that the phases say, each where it
belongs. Every action moves tokens or takes all tokens of some requests to their next phases. -/

namespace StreamInfer.Colocated

open General Batch BatchMetadata Pool Engine Frontend Placement ColocatePlacement

variable {W R : Type} [Zero W] {cfg : Config} {p : ModelPlacement} {σ σ' : System W R}
  {phase : ℤ → Phase} {d : ℕ} {dev : Device W R} {taken put more : Multiset Token}

/-! ### Labels -/

omit [Zero W] in
theorem label_attention (d layer topK : ℕ) (ks : List ℤ) :
    ((ks.map (attentionToken d layer) : List Token) : Multiset Token).map Token.label =
      (ks.map fun k => (Phase.attention layer).labels topK k).sum := by
  have hsum := sum_map_nsmul_singleton 1 (fun k : ℤ => (k, Stage.attention layer)) ks
  simp only [one_smul] at hsum
  rw [Multiset.map_coe, List.map_map]
  exact hsum.symm

theorem labels_experts (layer topK : ℕ) (ks : List ℤ) :
    (ks.map fun k => (Phase.experts layer).labels topK k).sum =
      topK • ((ks.map fun k => (k, Stage.experts layer) : List (ℤ × Stage)) : Multiset (ℤ × Stage)) :=
  sum_map_nsmul_singleton topK (fun k : ℤ => (k, Stage.experts layer)) ks

omit [Zero W] in
/-- The labels of copies do not depend on their places. -/
theorem label_copies (layer : ℕ) (place : ℕ → ℕ → Place) (xs : List (TokenMetadata W × R)) :
    ((xs.map (copyToken layer place) : List Token) : Multiset Token).map Token.label =
      (((xs.map fun x => x.1.reqId).map fun k => (k, Stage.experts layer) : List (ℤ × Stage)) :
        Multiset (ℤ × Stage)) := by
  rw [Multiset.map_coe, List.map_map, List.map_map]
  rfl

theorem label_collected (d i : ℕ) (ks : List ℤ) :
    ((ks.map (collectedToken d i) : List Token) : Multiset Token).map Token.label =
      ((ks.map fun k => (k, Stage.experts (i - 1)) : List (ℤ × Stage)) : Multiset (ℤ × Stage)) := by
  rw [Multiset.map_coe, List.map_map]
  rfl

/-! ### Parts of the census -/

theorem DeviceSound.update (h : ∀ i, DeviceSound cfg (σ.device i)) (hdev : DeviceSound cfg dev)
    (d i : ℕ) : DeviceSound cfg ((σ.setDevice d dev).device i) := by
  by_cases hi : i = d
  · subst hi
    rwa [System.setDevice_self]
  · rw [System.setDevice_of_ne _ _ hi]
    exact h i

/-- A result goes to the dispatcher. -/
theorem DeviceSound.result {b out : TokenBatch W R} {rest : List (TokenBatch W R)}
    (h : DeviceSound cfg dev) (hb : dev.executing.Perm (b :: rest))
    (hout : Sendable cfg.model.numLayers out) :
    DeviceSound cfg { dev with
      executing := rest
      dispatcher := dev.dispatcher ++ [out] } := by
  refine ⟨h.pool, fun b' hb' => h.executing b' (hb.mem_iff.mpr (List.mem_cons_of_mem _ hb')), ?_⟩
  intro b' hb'
  rcases List.mem_append.mp hb' with hb' | hb'
  · exact h.dispatcher b' hb'
  · rw [List.mem_singleton.mp hb']
    exact hout

theorem DeviceSound.withPool (h : DeviceSound cfg dev) {pool : UnifiedPool W R}
    (hpool : PoolSound cfg pool) : DeviceSound cfg { dev with pool } :=
  ⟨hpool, h.executing, h.dispatcher⟩

/-- Another pool on a device. -/
theorem exchange_of_pool {pool : UnifiedPool W R} (dev : Device W R)
    (hx : Exchange taken put (more + poolTokens d dev.pool) (poolTokens d pool)) :
    Exchange taken put (more + dev.tokens d) ({ dev with pool }.tokens d) := by
  rw [Device.tokens, Device.tokens, add_assoc, add_assoc, ← add_assoc more]
  exact hx.add_right _

/-- One device changes, taking in some tokens. -/
theorem exchange_devices {n : ℕ} (hd : d < n)
    (hx : Exchange taken put (more + (σ.device d).tokens d) (dev.tokens d)) :
    Exchange taken put (more + ∑ i ∈ Finset.range n, (σ.device i).tokens i)
      (∑ i ∈ Finset.range n, ((σ.setDevice d dev).device i).tokens i) := by
  refine Exchange.add_sum_range hd (fun i _ hi => ?_) ?_
  · rw [System.setDevice_of_ne _ _ hi]
  · rwa [System.setDevice_self]

/-- One device changes on its own. -/
theorem exchange_census {n : ℕ} (hd : d < n)
    (hx : Exchange taken put ((σ.device d).tokens d) (dev.tokens d)) :
    Exchange taken put (σ.census n) ((σ.setDevice d dev).census n) := by
  rw [← zero_add ((σ.device d).tokens d)] at hx
  have hdevs := exchange_devices hd hx
  rw [zero_add] at hdevs
  exact hdevs.add_right _

/-- A result goes to the dispatcher. -/
theorem exchange_result {b : TokenBatch W R} {rest : List (TokenBatch W R)} (dev : Device W R)
    (out : TokenBatch W R) (hb : dev.executing.Perm (b :: rest)) (d : ℕ) :
    Exchange (executingTokens d b) (dispatcherTokens d out) (dev.tokens d)
      ({ dev with
        executing := rest
        dispatcher := dev.dispatcher ++ [out] }.tokens d) := by
  refine ⟨poolTokens d dev.pool + (rest.map (executingTokens d)).sum +
    (dev.dispatcher.map (dispatcherTokens d)).sum, ?_, ?_⟩
  · rw [Device.tokens, sum_map_of_perm_cons hb]
    abel
  · rw [Device.tokens, List.map_append, List.sum_append, List.map_singleton, List.sum_singleton]
    abel

/-! ### Steps -/

/-- The tokens of the system are those of the requests in their phases. -/
structure Represents (cfg : Config) (σ : System W R) (phase : ℤ → Phase) : Prop where
  devices : ∀ d, DeviceSound cfg (σ.device d)
  flight : ∀ m ∈ σ.flight, m.1 < cfg.numDevices ∧ Sendable cfg.model.numLayers m.2
  placed : ∀ t ∈ σ.census cfg.numDevices, t.Placed cfg σ.home
  portions : ∀ r, portion Prod.fst r ((σ.census cfg.numDevices).map Token.label) =
    (phase r).labels cfg.topK r
  home : ∀ r, σ.home r = none ↔ phase r = .unknown
  homeLt : ∀ r d, σ.home r = some d → d < cfg.numDevices
  finished : ∀ r, r ∈ σ.finished ↔ phase r = .finished
  inRange : ∀ r, (phase r).InRange cfg.model.numLayers

/-- Some requests in one phase go on to their next phases. -/
theorem Represents.advance (h : Represents cfg σ phase) (hk : 1 ≤ cfg.topK)
    (hdevices : ∀ d, DeviceSound cfg (σ'.device d))
    (hflight : ∀ m ∈ σ'.flight, m.1 < cfg.numDevices ∧ Sendable cfg.model.numLayers m.2)
    (hplaced : ∀ t ∈ σ'.census cfg.numDevices, t.Placed cfg σ.home) (hhome : σ'.home = σ.home)
    (ks : List ℤ) {P : Phase} (hlive : P.Live) {Q : ℤ → Phase}
    (hnext : ∀ k ∈ ks, Phase.Next cfg.model.numLayers P (Q k))
    (hfinished : ∀ r, r ∈ σ'.finished ↔ r ∈ σ.finished ∨ r ∈ ks ∧ Q r = .finished)
    (hx : Exchange (ks.map fun k => P.labels cfg.topK k).sum
      (ks.map fun k => (Q k).labels cfg.topK k).sum ((σ.census cfg.numDevices).map Token.label)
      ((σ'.census cfg.numDevices).map Token.label)) :
    ∃ phase', Represents cfg σ' phase' ∧ Phase.Advance cfg.model.numLayers phase phase' := by
  obtain ⟨hphase, hportions⟩ := Phase.portions_advance hk h.portions hlive hx
  have hadvance : Phase.Advance cfg.model.numLayers phase fun r => if r ∈ ks then Q r else phase r := by
    intro r
    by_cases hr : r ∈ ks
    · right
      rw [hphase r hr]
      simpa only [if_pos hr] using hnext r hr
    · exact .inl (if_neg hr)
  refine ⟨fun r => if r ∈ ks then Q r else phase r, ⟨hdevices, hflight, by rwa [hhome], hportions,
    fun r => ?_, by rw [hhome]; exact h.homeLt, fun r => ?_, fun r => ?_⟩, hadvance⟩
  · rw [hhome, h.home]
    by_cases hr : r ∈ ks
    · rw [if_pos hr, hphase r hr]
      have hq := hnext r hr
      constructor
      · rintro rfl
        exact hlive.elim
      · intro hunknown
        rw [hunknown] at hq
        cases hq
    · rw [if_neg hr]
  · rw [hfinished, h.finished]
    by_cases hr : r ∈ ks
    · rw [if_pos hr, hphase r hr]
      constructor
      · rintro (rfl | ⟨-, hq⟩)
        · exact hlive.elim
        · exact hq
      · exact fun hq => .inr ⟨hr, hq⟩
    · rw [if_neg hr]
      exact ⟨fun hor => hor.resolve_right fun hand => hr hand.1, .inl⟩
  · by_cases hr : r ∈ ks
    · rw [if_pos hr]
      exact (hnext r hr).inRange
    · rw [if_neg hr]
      exact h.inRange r

/-- Tokens only move. -/
theorem Represents.move (h : Represents cfg σ phase) (hk : 1 ≤ cfg.topK)
    (hdevices : ∀ d, DeviceSound cfg (σ'.device d))
    (hflight : ∀ m ∈ σ'.flight, m.1 < cfg.numDevices ∧ Sendable cfg.model.numLayers m.2)
    (hplaced : ∀ t ∈ σ'.census cfg.numDevices, t.Placed cfg σ.home) (hhome : σ'.home = σ.home)
    (hfinished : σ'.finished = σ.finished)
    (hlabels : (σ'.census cfg.numDevices).map Token.label = (σ.census cfg.numDevices).map Token.label) :
    ∃ phase', Represents cfg σ' phase' ∧ Phase.Advance cfg.model.numLayers phase phase' := by
  refine h.advance hk hdevices hflight hplaced hhome [] (P := .attention 0) trivial (Q := phase)
    (by simp) (by simp [hfinished]) ?_
  rw [hlabels]
  exact .refl _

section Steps

variable {b out : TokenBatch W R} {rest : List (TokenBatch W R)}

omit [Zero W] in
theorem Token.Placed.mono {home home' : ℤ → Option ℕ} (hhome : ∀ r d, home r = some d → home' r = some d)
    {t : Token} (h : t.Placed cfg home) : t.Placed cfg home' := by
  obtain ⟨r, stage, place⟩ := t
  unfold Token.Placed at h ⊢
  cases stage <;> cases place <;> simp only at h ⊢
  · exact hhome _ _ h
  all_goals exact ⟨hhome _ _ h.1, h.2⟩

theorem executingTokens_attention (d : ℕ) (htag : b.metadata.batchTag = .attention)
    (hb : Carries .attention b (b.entries .attention)) :
    executingTokens d b = (b.metadata.reqIds.map (attentionToken d b.metadata.layerId) : List Token) := by
  rw [executingTokens, if_pos (by simp [isAttention, htag]), map_reqIds hb]

theorem executingTokens_expert (d : ℕ) (htag : b.metadata.batchTag = .expert) :
    executingTokens d b =
      ((b.entries .routing).map (copyToken b.metadata.layerId (.expert d)) : List Token) := by
  rw [executingTokens, if_neg (by simp [isAttention, htag])]

/-- A new request is one token at its device. -/
theorem Represents.request [Row R] (h : Represents cfg σ phase) (hd : d < cfg.numDevices)
    {reqId initPrefillLen maxOutputLen : ℤ} {one : W} {row : R} {rank : ℕ}
    (hnew : σ.home reqId = none) {pool : UnifiedPool W R}
    (hput : UnifiedPool.putBatch ⟨[row], requestMeta cfg one rank reqId initPrefillLen⟩
      (σ.device d).pool = .ok ⟨⟩ pool) :
    ∃ phase', Represents cfg { σ.setDevice d { σ.device d with
        pool
        sampler := (σ.device d).sampler.createRequest reqId maxOutputLen } with
          home := Function.update σ.home reqId (some d) } phase' ∧
      Phase.Advance cfg.model.numLayers phase phase' := by
  set b : TokenBatch W R := ⟨[row], { requestMeta cfg one rank reqId initPrefillLen with
    batchTag := .tokenizer }⟩ with hb
  have hcarries : Carries .attention b (b.entries .attention) :=
    carries_entries_of_aligned ⟨rfl, rfl, by simp [View.attention], by simp [View.attention],
      by simp [View.attention]⟩ rfl
  obtain ⟨hpool, hx⟩ := (h.devices d).pool.receive_attention (b := b) (.inl rfl) (fun _ => rfl) hcarries hput
  have hxd : Exchange 0 ({attentionToken d 0 reqId} : Multiset Token) ((σ.device d).tokens d)
      ({ σ.device d with
        pool
        sampler := (σ.device d).sampler.createRequest reqId maxOutputLen }.tokens d) :=
    ((hx d).add_right _).add_right _
  have hx := exchange_census hd hxd
  have hdev : DeviceSound cfg { σ.device d with
      pool
      sampler := (σ.device d).sampler.createRequest reqId maxOutputLen } :=
    ⟨hpool, (h.devices d).executing, (h.devices d).dispatcher⟩
  have hphase := (h.home reqId).mp hnew
  have hmono : ∀ r d', σ.home r = some d' → Function.update σ.home reqId (some d) r = some d' := by
    intro r d' hr
    by_cases hrid : r = reqId
    · subst hrid
      rw [hnew] at hr
      cases hr
    · rwa [Function.update_of_ne hrid]
  refine ⟨_, ⟨DeviceSound.update h.devices hdev d, h.flight,
    hx.forall_mem (fun t ht => (h.placed t ht).mono hmono) ?_, fun r => ?_, fun r => ?_,
    fun r d' => ?_, fun r => ?_, fun r => ?_⟩, Phase.advance_arrive hphase⟩
  · intro t ht
    rw [Multiset.mem_singleton.mp ht]
    exact Function.update_self _ _ _
  · exact Phase.portions_arrive h.portions hphase (hx.map Token.label) r
  · change Function.update σ.home reqId (some d) r = none ↔ _
    by_cases hr : r = reqId
    · subst hr
      rw [Function.update_self, Function.update_self]
      simp
    · rw [Function.update_of_ne hr, Function.update_of_ne hr]
      exact h.home r
  · change Function.update σ.home reqId (some d) r = some d' → _
    by_cases hr : r = reqId
    · subst hr
      rw [Function.update_self]
      rintro ⟨⟩
      exact hd
    · rw [Function.update_of_ne hr]
      exact h.homeLt r d'
  · change r ∈ σ.finished ↔ _
    rw [h.finished]
    by_cases hr : r = reqId
    · subst hr
      rw [Function.update_self, hphase]
      simp
    · rw [Function.update_of_ne hr]
  · by_cases hr : r = reqId
    · subst hr
      rw [Function.update_self]
      exact Nat.zero_le _
    · rw [Function.update_of_ne hr]
      exact h.inRange r

/-- A decision moves nothing. -/
theorem Represents.schedule (h : Represents cfg σ phase) (hk : 1 ≤ cfg.topK) {id : ℤ}
    {pool : UnifiedPool W R}
    (hok : UnifiedPool.onScheduler LayerScheduler.schedule (σ.device d).pool = .ok id pool)
    (hd : d < cfg.numDevices) :
    ∃ phase', Represents cfg (σ.setDevice d { σ.device d with
        pool
        pending := some id }) phase' ∧ Phase.Advance cfg.model.numLayers phase phase' := by
  obtain ⟨hpool, htokens⟩ := (h.devices d).pool.schedule hok
  have hx : Exchange 0 0 ((σ.device d).tokens d) ({ σ.device d with
      pool
      pending := some id }.tokens d) := by
    refine (Exchange.add_right ?_ _).add_right _
    rw [htokens]
    exact .refl _
  have hx := exchange_census hd hx
  have hdev : DeviceSound cfg { σ.device d with
      pool
      pending := some id } := ⟨hpool, (h.devices d).executing, (h.devices d).dispatcher⟩
  exact h.move hk (DeviceSound.update h.devices hdev d) h.flight (hx.forall_mem h.placed (by simp)) rfl rfl
    ((hx.map Token.label).eq_of_eq rfl)

/-- A get moves tokens from the queue to the engine. -/
theorem Represents.get [Row R] (h : Represents cfg σ phase) (hk : 1 ≤ cfg.topK) {S : ComparatorSort}
    {id : ℤ} {got : Option (TokenBatch W R)} {pool : UnifiedPool W R}
    (hok : UnifiedPool.getBatchFromLayer S id (σ.device d).pool = .ok got pool)
    (hd : d < cfg.numDevices) :
    ∃ phase', Represents cfg (σ.setDevice d { σ.device d with
        pool
        pending := none
        executing := (σ.device d).executing ++ got.toList }) phase' ∧
      Phase.Advance cfg.model.numLayers phase phase' := by
  obtain ⟨hpool, hexec, htokens⟩ := (h.devices d).pool.getBatchFromLayer hok
  have hx : Exchange 0 0 ((σ.device d).tokens d) ({ σ.device d with
      pool
      pending := none
      executing := (σ.device d).executing ++ got.toList }.tokens d) := by
    obtain ⟨others, hbefore, hafter⟩ := htokens d
    refine ⟨(σ.device d).tokens d, (zero_add _).symm, ?_⟩
    rw [Device.tokens, Device.tokens, hbefore, hafter, List.map_append, List.sum_append]
    abel
  have hx := exchange_census hd hx
  have hdev : DeviceSound cfg { σ.device d with
      pool
      pending := none
      executing := (σ.device d).executing ++ got.toList } :=
    ⟨hpool, fun b hb => (List.mem_append.mp hb).elim ((h.devices d).executing b) (hexec b),
      (h.devices d).dispatcher⟩
  exact h.move hk (DeviceSound.update h.devices hdev d) h.flight (hx.forall_mem h.placed (by simp)) rfl rfl
    ((hx.map Token.label).eq_of_eq rfl)

/-- After an attention layer each request has its copies. -/
theorem Represents.attention (h : Represents cfg σ phase) (hk : 1 ≤ cfg.topK)
    (hp : Solved cfg.model cfg.numDevices cfg.expertAllocation p) (hd : d < cfg.numDevices)
    (hb : (σ.device d).executing.Perm (b :: rest)) (htag : b.metadata.isAttention = true)
    (hlayer : b.metadata.layerId ≠ cfg.model.numLayers) {hiddens : List R}
    (hrows : hiddens.length = b.metadata.numTokens) {expertIds : List (List ℕ)}
    {expertWeights : List (List W)} (hgate : Gated cfg b.metadata.numTokens expertIds expertWeights)
    (hout : postprocessBatchAttn cfg.topK (p.attnDpRankAt d) b.metadata hiddens expertIds expertWeights =
      .ok out) :
    ∃ phase', Represents cfg (σ.setDevice d { σ.device d with
        executing := rest
        dispatcher := (σ.device d).dispatcher ++ [out] }) phase' ∧
      Phase.Advance cfg.model.numLayers phase phase' := by
  have hmem : b ∈ (σ.device d).executing := hb.mem_iff.mpr (by simp)
  have hx := exchange_census hd (exchange_result (σ.device d) out hb d)
  rcases (h.devices d).executing b hmem with ⟨htag', hl, hcarries⟩ | ⟨htag', -, -⟩
  swap
  · simp [isAttention, htag'] at htag
  have hl' : b.metadata.layerId < cfg.model.numLayers := lt_of_le_of_ne hl hlayer
  obtain ⟨hsend, houttag, houtlayer, hentries, hreq⟩ :=
    attention_result hk hcarries htag' hl' hrows hgate hout
  have htaken := executingTokens_attention d htag' hcarries
  have hput : dispatcherTokens d out =
      ((out.entries .routing).map (copyToken b.metadata.layerId (.routed d)) : List Token) := by
    rw [dispatcherTokens, sentTokens_attention _ _ houttag, houtlayer]
  rw [htaken, hput] at hx
  refine h.advance hk (DeviceSound.update h.devices ((h.devices d).result hb hsend) d) h.flight
    (hx.forall_mem h.placed fun t ht => ?_) rfl b.metadata.reqIds
    (P := .attention b.metadata.layerId) trivial (Q := fun _ => .experts b.metadata.layerId)
    (fun _ _ => .route hl') (by simp [System.setDevice]) ?_
  · obtain ⟨x, hxmem, rfl⟩ := List.mem_map.mp ht
    obtain ⟨hrank, hexp⟩ := hentries x hxmem
    have hid : x.1.reqId ∈ b.metadata.reqIds := by
      have hmap : x.1.reqId ∈ (((out.entries .routing).map fun x => x.1.reqId : List ℤ) : Multiset ℤ) :=
        List.mem_map.mpr ⟨x, hxmem, rfl⟩
      rw [hreq] at hmap
      exact Multiset.mem_of_mem_nsmul hmap
    have hhome := h.placed (attentionToken d b.metadata.layerId x.1.reqId)
      (Multiset.mem_of_le hx.taken_le (List.mem_map_of_mem hid))
    exact ⟨hhome, hrank.trans (hp.attnDpRankAt_eq hd), hexp⟩
  · have hxl := hx.map Token.label
    rw [label_attention d _ cfg.topK, label_copies] at hxl
    rw [labels_experts]
    have hcopies : (((out.entries .routing).map fun x => x.1.reqId).map fun k =>
        (k, Stage.experts b.metadata.layerId) : Multiset (ℤ × Stage)) =
        cfg.topK • (b.metadata.reqIds.map fun k => (k, Stage.experts b.metadata.layerId) :
          Multiset (ℤ × Stage)) := by
      rw [← Multiset.map_coe, hreq, Multiset.map_nsmul, Multiset.map_coe]
    rwa [hcopies] at hxl

/-- Experts keep the copies. -/
theorem Represents.expert (h : Represents cfg σ phase) (hk : 1 ≤ cfg.topK) (hd : d < cfg.numDevices)
    (hb : (σ.device d).executing.Perm (b :: rest)) (htag : b.metadata.isExpert = true) {hiddens : List R}
    (hrows : hiddens.length = b.metadata.numTokens) {S : ComparatorSort} {scale : W → R → R}
    (hout : executeBatchExpert cfg.useGdrcopyOptimization S scale b.metadata hiddens = .ok out) :
    ∃ phase', Represents cfg (σ.setDevice d { σ.device d with
        executing := rest
        dispatcher := (σ.device d).dispatcher ++ [out] }) phase' ∧
      Phase.Advance cfg.model.numLayers phase phase' := by
  have hmem : b ∈ (σ.device d).executing := hb.mem_iff.mpr (by simp)
  have hx := exchange_census hd (exchange_result (σ.device d) out hb d)
  rcases (h.devices d).executing b hmem with ⟨htag', -, -⟩ | ⟨htag', hl, hcarries⟩
  · simp [isExpert, htag'] at htag
  obtain ⟨hsend, hput⟩ := expert_result hcarries htag' hl hrows hout d
  rw [executingTokens_expert d htag', hput] at hx
  refine h.move hk (DeviceSound.update h.devices ((h.devices d).result hb hsend) d) h.flight
    (hx.forall_mem h.placed fun t ht => ?_) rfl rfl ?_
  · obtain ⟨x, hxmem, rfl⟩ := List.mem_map.mp ht
    obtain ⟨hhome, hexp, hhost⟩ := h.placed (copyToken b.metadata.layerId (.expert d) x)
      (Multiset.mem_of_le hx.taken_le (List.mem_map_of_mem hxmem))
    exact ⟨hhome, x.1.expId, hexp, hhost.symm⟩
  · refine (hx.map Token.label).eq_of_eq ?_
    rw [label_copies, label_copies]

/-- After the last attention layer requests go on or end. -/
theorem Represents.sample [Row R] (h : Represents cfg σ phase) (hk : 1 ≤ cfg.topK) (hd : d < cfg.numDevices)
    (hb : (σ.device d).executing.Perm (b :: rest)) (htag : b.metadata.isAttention = true)
    (hlayer : b.metadata.layerId = cfg.model.numLayers) {rank : ℕ} {continued : TokenBatch W R}
    {finishReqIds : List ℤ} {result : BatchDecodeResult} {sampler : DummySampler}
    (hsample : sampleResults rank ⟨b.metadata.reqIds, b.data, b.metadata⟩ (σ.device d).sampler =
      .ok (continued, finishReqIds, result) sampler) {pool : UnifiedPool W R}
    (hput : UnifiedPool.putBatch continued (σ.device d).pool = .ok ⟨⟩ pool) :
    ∃ phase', Represents cfg { σ.setDevice d { σ.device d with
        pool
        sampler
        executing := rest } with
          finished := σ.finished ++ finishReqIds } phase' ∧
      Phase.Advance cfg.model.numLayers phase phase' := by
  have hmem : b ∈ (σ.device d).executing := hb.mem_iff.mpr (by simp)
  obtain ⟨hcont, hfirst, hperm⟩ := sample_result hsample
  set b' : TokenBatch W R := ⟨continued.data, { continued.metadata with batchTag := .tokenizer }⟩
  have hcarries' : Carries .attention b' (b'.entries .attention) :=
    ⟨hcont.lists.congr rfl rfl rfl rfl rfl rfl, hcont.data⟩
  obtain ⟨hpool, hxp⟩ := (h.devices d).pool.receive_attention (b := b') (.inl rfl) (fun _ => hfirst)
    hcarries' hput
  rcases (h.devices d).executing b hmem with ⟨htag', hl, hcarries⟩ | ⟨htag', -, -⟩
  swap
  · simp [isAttention, htag'] at htag
  have htaken := executingTokens_attention d htag' hcarries
  have hxd : Exchange (executingTokens d b)
      (continued.metadata.reqIds.map (attentionToken d 0) : List Token) ((σ.device d).tokens d)
      ({ σ.device d with
        pool
        sampler
        executing := rest }.tokens d) := by
    obtain ⟨others, hbefore, hafter⟩ := hxp d
    refine ⟨others + (rest.map (executingTokens d)).sum +
      ((σ.device d).dispatcher.map (dispatcherTokens d)).sum, ?_, ?_⟩
    · rw [Device.tokens, hbefore, sum_map_of_perm_cons hb]
      abel
    · rw [Device.tokens, hafter]
      change ((continued.metadata.reqIds.map (attentionToken d continued.metadata.layerId) : List Token) :
        Multiset Token) + others + _ + _ = _
      rw [hfirst]
      abel
  have hx := exchange_census hd hxd
  have hdev : DeviceSound cfg { σ.device d with
      pool
      sampler
      executing := rest } :=
    ⟨hpool, fun b'' hb'' => (h.devices d).executing b'' (hb.mem_iff.mpr (List.mem_cons_of_mem _ hb'')),
      (h.devices d).dispatcher⟩
  have hsub : ∀ k ∈ finishReqIds, k ∈ b.metadata.reqIds := fun k hfin =>
    hperm.mem_iff.mp (List.mem_append_right _ hfin)
  rw [htaken, hlayer] at hx
  have hxl := hx.map Token.label
  rw [label_attention d _ cfg.topK, label_attention d _ cfg.topK] at hxl
  -- no request is in the batch twice, so none both goes on and ends
  have hnodup : (continued.metadata.reqIds ++ finishReqIds).Nodup := by
    obtain ⟨htakes, -⟩ := Phase.takesAll hk h.portions
      (P := .attention cfg.model.numLayers) trivial hxl.taken_le
    obtain ⟨others, hm, -⟩ := hxl
    exact hperm.nodup_iff.mpr (htakes.nodup hm).1
  refine h.advance hk (DeviceSound.update h.devices hdev d) h.flight
    (hx.forall_mem h.placed fun t ht => ?_) rfl b.metadata.reqIds
    (P := .attention cfg.model.numLayers) trivial
    (Q := fun k => if k ∈ finishReqIds then .finished else .attention 0) (fun k _ => ?_) (fun r => ?_) ?_
  · obtain ⟨k, hkmem, rfl⟩ := List.mem_map.mp ht
    have hid : k ∈ b.metadata.reqIds := hperm.mem_iff.mp (List.mem_append_left _ hkmem)
    exact h.placed (attentionToken d cfg.model.numLayers k)
      (Multiset.mem_of_le hx.taken_le (List.mem_map_of_mem hid))
  · split_ifs
    · exact .finish
    · exact .again
  · change r ∈ σ.finished ++ finishReqIds ↔ _
    rw [List.mem_append]
    refine or_congr_right ⟨fun hr => ⟨hsub r hr, if_pos hr⟩, fun hand => ?_⟩
    by_contra hr
    rw [if_neg hr] at hand
    cases hand.2
  · rw [Phase.labels_sampled hperm hnodup]
    exact hxl

/-- A sent batch leaves its dispatcher as messages. -/
theorem exchange_send {n : ℕ} (messages : List (ℕ × TokenBatch W R)) (hd : d < n)
    (hb : (σ.device d).dispatcher = b :: rest) :
    Exchange (dispatcherTokens d b) (messages.map messageTokens).sum (σ.census n)
      (System.census n { σ.setDevice d { σ.device d with dispatcher := rest } with
        flight := σ.flight ++ messages }) := by
  have hxd : Exchange (dispatcherTokens d b) 0 (0 + (σ.device d).tokens d)
      ({ σ.device d with dispatcher := rest }.tokens d) := by
    refine ⟨{ σ.device d with dispatcher := rest }.tokens d, ?_, (zero_add _).symm⟩
    rw [zero_add, Device.tokens, hb, List.map_cons, List.sum_cons, Device.tokens]
    abel
  have hdevs := exchange_devices hd hxd
  rw [zero_add] at hdevs
  have hflight : Exchange 0 (messages.map messageTokens).sum (σ.flight.map messageTokens).sum
      ((σ.flight ++ messages).map messageTokens).sum := by
    refine ⟨(σ.flight.map messageTokens).sum, (zero_add _).symm, ?_⟩
    rw [List.map_append, List.sum_append, add_comm]
  have hmove := hflight.move hdevs
  rwa [add_comm, add_comm _ (∑ i ∈ Finset.range n, _)] at hmove

/-- Sending moves copies to where their experts or their requests are. -/
theorem Represents.send (h : Represents cfg σ phase) (hk : 1 ≤ cfg.topK)
    (hc : Configured cfg.model cfg.numDevices cfg.expertAllocation)
    (hp : Solved cfg.model cfg.numDevices cfg.expertAllocation p) (hd : d < cfg.numDevices)
    (hb : (σ.device d).dispatcher = b :: rest) {disp : UnifiedDispatcher}
    (hdisp : p.dispatcherAt cfg.model d = .ok disp) {sent : List (ℤ × TokenBatch W R)}
    (hsent : disp.sendOnce b = .ok sent) {messages : List (ℕ × TokenBatch W R)}
    (hmessages : addressees p d sent = .ok messages) :
    ∃ phase', Represents cfg { σ.setDevice d { σ.device d with dispatcher := rest } with
        flight := σ.flight ++ messages } phase' ∧ Phase.Advance cfg.model.numLayers phase phase' := by
  have hmem : b ∈ (σ.device d).dispatcher := by rw [hb]; simp
  have hx := exchange_send messages hd hb
  have hplaced : ∀ t ∈ dispatcherTokens d b, t.Placed cfg σ.home := fun t ht =>
    h.placed t (Multiset.mem_of_le hx.taken_le ht)
  have hdev : DeviceSound cfg { σ.device d with dispatcher := rest } :=
    ⟨(h.devices d).pool, (h.devices d).executing, fun b' hb' => (h.devices d).dispatcher b' (by
      rw [hb]
      exact List.mem_cons_of_mem _ hb')⟩
  have hflight : (∀ m ∈ messages, m.1 < cfg.numDevices ∧ Sendable cfg.model.numLayers m.2) →
      ∀ m ∈ σ.flight ++ messages, m.1 < cfg.numDevices ∧ Sendable cfg.model.numLayers m.2 :=
    fun hmsg m hm => (List.mem_append.mp hm).elim (h.flight m) (hmsg m)
  rcases (h.devices d).dispatcher b hmem with ⟨htag, hl, hcarries, hid⟩ | ⟨htag, hpos, hl, hcarries⟩
  · have htokens : dispatcherTokens d b =
        ((b.entries .routing).map (copyToken b.metadata.layerId (.routed d)) : List Token) :=
      sentTokens_attention _ _ htag
    have hcopy : ∀ x ∈ b.entries .routing,
        (copyToken b.metadata.layerId (.routed d) x).Placed cfg σ.home := fun x hx =>
      hplaced _ (by rw [htokens]; exact List.mem_map_of_mem hx)
    obtain ⟨hmsg, hput⟩ := routed_messages hc hp hd hdisp htag hl hcarries hid
      (fun x hx => (hcopy x hx).2.2) hsent hmessages
    rw [htokens, hput] at hx
    refine h.move hk (DeviceSound.update h.devices hdev d) (hflight hmsg)
      (hx.forall_mem h.placed fun t ht => ?_) rfl rfl ((hx.map Token.label).eq_of_eq ?_)
    · obtain ⟨x, hxmem, rfl⟩ := List.mem_map.mp ht
      obtain ⟨hhome, hrank, hexp⟩ := hcopy x hxmem
      exact ⟨hrank ▸ hhome, hexp, rfl⟩
    · rw [label_copies, label_copies]
  · have htokens : dispatcherTokens d b = ((b.entries .returning).map
        (copyToken (b.metadata.layerId - 1) fun rank _ => .returned d rank) : List Token) :=
      sentTokens_expert _ _ htag
    have hcopy : ∀ x ∈ b.entries .returning,
        (copyToken (b.metadata.layerId - 1) (fun rank _ => .returned d rank) x).Placed cfg σ.home :=
      fun x hx => hplaced _ (by rw [htokens]; exact List.mem_map_of_mem hx)
    obtain ⟨hmsg, hput⟩ := returned_messages hc hp hdisp htag hpos hl hcarries
      (fun x hx => ⟨(hcopy x hx).2, h.homeLt _ _ (hcopy x hx).1⟩) hsent hmessages
    rw [htokens, hput] at hx
    refine h.move hk (DeviceSound.update h.devices hdev d) (hflight hmsg)
      (hx.forall_mem h.placed fun t ht => ?_) rfl rfl ((hx.map Token.label).eq_of_eq ?_)
    · obtain ⟨x, hxmem, rfl⟩ := List.mem_map.mp ht
      exact ⟨(hcopy x hxmem).1, rfl⟩
    · rw [label_copies, label_copies]

/-- A message reaches a queue. -/
theorem exchange_deliver {n : ℕ} {later : List (ℕ × TokenBatch W R)} {pool : UnifiedPool W R} (hd : d < n)
    (hb : σ.flight.Perm ((d, b) :: later))
    (hx : Exchange 0 put (poolTokens d (σ.device d).pool) (poolTokens d pool)) :
    Exchange (messageTokens (d, b)) put (σ.census n)
      (System.census n { σ.setDevice d { σ.device d with pool } with flight := later }) := by
  rw [← zero_add (poolTokens d (σ.device d).pool)] at hx
  have hdevs := exchange_devices hd (exchange_of_pool (σ.device d) hx)
  rw [zero_add] at hdevs
  refine hdevs.move ⟨(later.map messageTokens).sum, sum_map_of_perm_cons hb _, (zero_add _).symm⟩

/-- A message is collected: its copies take their places in the pool first. -/
theorem exchange_collect {n : ℕ} {later : List (ℕ × TokenBatch W R)} {pool : UnifiedPool W R}
    (hb : σ.flight.Perm ((d, b) :: later))
    (hmore : more.map Token.label = (messageTokens (d, b)).map Token.label)
    (hdevs : Exchange taken put (more + ∑ i ∈ Finset.range n, (σ.device i).tokens i)
      (∑ i ∈ Finset.range n, ((σ.setDevice d { σ.device d with pool }).device i).tokens i)) :
    Exchange (taken.map Token.label) (put.map Token.label) ((σ.census n).map Token.label)
      ((System.census n { σ.setDevice d { σ.device d with pool } with flight := later }).map
        Token.label) := by
  have hbefore : (σ.census n).map Token.label = (more + ∑ i ∈ Finset.range n, (σ.device i).tokens i).map
      Token.label + ((later.map messageTokens).sum).map Token.label := by
    rw [System.census, sum_map_of_perm_cons hb, Multiset.map_add, Multiset.map_add, Multiset.map_add, hmore]
    abel
  have hafter : (System.census n { σ.setDevice d { σ.device d with pool } with flight := later }).map
      Token.label = (∑ i ∈ Finset.range n,
        ((σ.setDevice d { σ.device d with pool }).device i).tokens i).map Token.label +
          ((later.map messageTokens).sum).map Token.label := Multiset.map_add _ _ _
  rw [hbefore, hafter]
  exact (hdevs.map Token.label).add_right _

/-- An arrival for the experts. -/
theorem Represents.deliver_routed [Row R] (h : Represents cfg σ phase) (hk : 1 ≤ cfg.topK)
    (hd : d < cfg.numDevices) {later : List (ℕ × TokenBatch W R)} (hb : σ.flight.Perm ((d, b) :: later))
    {pool : UnifiedPool W R}
    (hok : UnifiedPool.processBatch b.data b.metadata (σ.device d).pool = .ok ⟨⟩ pool)
    (htag : b.metadata.batchTag = .attention) (hcarries : Carries .routing b (b.entries .routing))
    (hid : ∀ x ∈ b.entries .routing, x.1.expId < maxNumExperts) :
    ∃ phase', Represents cfg { σ.setDevice d { σ.device d with pool } with flight := later } phase' ∧
      Phase.Advance cfg.model.numLayers phase phase' := by
  obtain ⟨hpool, hxp⟩ := (h.devices d).pool.receive_expert htag hcarries hid hok
  have hx := exchange_deliver hd hb (hxp d)
  have htokens : messageTokens (d, b) =
      ((b.entries .routing).map (copyToken b.metadata.layerId (.toExpert d)) : List Token) :=
    sentTokens_attention _ _ htag
  rw [htokens] at hx
  have hdev := (h.devices d).withPool hpool
  refine h.move hk (DeviceSound.update h.devices hdev d)
    (fun m hm => h.flight m (hb.mem_iff.mpr (List.mem_cons_of_mem _ hm)))
    (hx.forall_mem h.placed fun t ht => ?_) rfl rfl ((hx.map Token.label).eq_of_eq ?_)
  · obtain ⟨x, hxmem, rfl⟩ := List.mem_map.mp ht
    exact h.placed (copyToken b.metadata.layerId (.toExpert d) x)
      (Multiset.mem_of_le hx.taken_le (List.mem_map_of_mem hxmem))
  · rw [label_copies, label_copies]

/-- Copies that come back, without their places. -/
theorem label_returned (d : ℕ) (htag : b.metadata.batchTag = .expert)
    (hcarries : Carries .returning b (b.entries .returning)) :
    (messageTokens (d, b)).map Token.label =
      (b.metadata.reqIds.map fun k => (k, Stage.experts (b.metadata.layerId - 1)) :
        Multiset (ℤ × Stage)) := by
  rw [messageTokens, sentTokens_expert _ _ htag, label_copies, map_reqIds hcarries (fun r => r),
    List.map_id']

/-- Copies come back to the devices of their requests. -/
theorem Represents.home_of_returned (h : Represents cfg σ phase) {later : List (ℕ × TokenBatch W R)}
    (hb : σ.flight.Perm ((d, b) :: later)) (htag : b.metadata.batchTag = .expert)
    (hcarries : Carries .returning b (b.entries .returning)) :
    ∀ k ∈ b.metadata.reqIds, σ.home k = some d := by
  intro k hk
  have hids : ((b.entries .returning).map fun x => x.1.reqId) = b.metadata.reqIds := by
    rw [map_reqIds hcarries (fun r => r), List.map_id']
  rw [← hids] at hk
  obtain ⟨x, hxmem, rfl⟩ := List.mem_map.mp hk
  have hsent : copyToken (b.metadata.layerId - 1) (fun rank _ => .toAttention d rank) x ∈
      messageTokens (d, b) := by
    rw [messageTokens, sentTokens_expert _ _ htag]
    exact List.mem_map_of_mem hxmem
  have hmem : copyToken (b.metadata.layerId - 1) (fun rank _ => .toAttention d rank) x ∈
      σ.census cfg.numDevices := by
    rw [System.census, sum_map_of_perm_cons hb]
    exact Multiset.mem_add.mpr (.inr (Multiset.mem_add.mpr (.inl hsent)))
  obtain ⟨hrank, hdev⟩ := h.placed _ hmem
  rwa [← hdev] at hrank

/-- With one copy of each request, an arrival goes to the queue of the next attention layer. -/
theorem Represents.deliver_single [Row R] (h : Represents cfg σ phase) (hk : cfg.topK = 1)
    (hd : d < cfg.numDevices) {later : List (ℕ × TokenBatch W R)} (hb : σ.flight.Perm ((d, b) :: later))
    {pool : UnifiedPool W R}
    (hok : UnifiedPool.processBatch b.data b.metadata (σ.device d).pool = .ok ⟨⟩ pool)
    (htag : b.metadata.batchTag = .expert) (hpos : 1 ≤ b.metadata.layerId)
    (hl : b.metadata.layerId ≤ cfg.model.numLayers)
    (hcarries : Carries .returning b (b.entries .returning)) :
    ∃ phase', Represents cfg { σ.setDevice d { σ.device d with pool } with flight := later } phase' ∧
      Phase.Advance cfg.model.numLayers phase phase' := by
  have hto : UnifiedPool.ToAttention (σ.device d).pool b.metadata := by
    refine .inr ⟨htag, fun hand => ?_⟩
    have htop := hand.1
    rw [(h.devices d).pool.topK, hk] at htop
    exact Nat.lt_irrefl 1 htop
  obtain ⟨hpool, hxp⟩ := (h.devices d).pool.receive_attention hto (fun htok => by simp [htag] at htok)
    hcarries.toAttention.carries_entries hok
  have hx := exchange_deliver hd hb (hxp d)
  have hxl := hx.map Token.label
  refine h.advance hk.ge (DeviceSound.update h.devices ((h.devices d).withPool hpool) d)
    (fun m hm => h.flight m (hb.mem_iff.mpr (List.mem_cons_of_mem _ hm)))
    (hx.forall_mem h.placed fun t ht => ?_) rfl b.metadata.reqIds
    (P := .experts (b.metadata.layerId - 1)) trivial (Q := fun _ => .attention b.metadata.layerId)
    (fun _ _ => .gather_of_pos hpos hl) (by simp [System.setDevice]) ?_
  · obtain ⟨k, hkmem, rfl⟩ := List.mem_map.mp ht
    exact h.home_of_returned hb htag hcarries k hkmem
  · rw [labels_experts, hk, one_smul, ← label_attention d]
    rwa [label_returned d htag hcarries] at hxl

/-- Otherwise an arrival is collected, and requests with all of their copies go to the queue. -/
theorem Represents.deliver_collected [Row R] (h : Represents cfg σ phase) (hk : 1 < cfg.topK)
    (hd : d < cfg.numDevices) {later : List (ℕ × TokenBatch W R)} (hb : σ.flight.Perm ((d, b) :: later))
    {pool : UnifiedPool W R}
    (hok : UnifiedPool.processBatch b.data b.metadata (σ.device d).pool = .ok ⟨⟩ pool)
    (htag : b.metadata.batchTag = .expert) (hpos : 1 ≤ b.metadata.layerId)
    (hl : b.metadata.layerId ≤ cfg.model.numLayers)
    (hcarries : Carries .returning b (b.entries .returning)) :
    ∃ phase', Represents cfg { σ.setDevice d { σ.device d with pool } with flight := later } phase' ∧
      Phase.Advance cfg.model.numLayers phase phase' := by
  have hhome := h.home_of_returned hb htag hcarries
  have hto : UnifiedPool.ToCollect (σ.device d).pool b.metadata :=
    ⟨htag, by rwa [(h.devices d).pool.topK], hpos⟩
  obtain ⟨hpool, ready, hxp⟩ := (h.devices d).pool.receive_collect hto hl hcarries hok
  have hdevs := exchange_devices hd (exchange_of_pool (σ.device d) (hxp d))
  have hx := exchange_collect hb (by rw [label_returned d htag hcarries, label_collected]) hdevs
  rw [Multiset.map_nsmul, label_collected, ← labels_experts, label_attention d _ cfg.topK] at hx
  have hmore : ∀ t ∈ ((b.metadata.reqIds.map (collectedToken d b.metadata.layerId) : List Token) :
      Multiset Token) + ∑ i ∈ Finset.range cfg.numDevices, (σ.device i).tokens i, t.Placed cfg σ.home := by
    intro t ht
    rcases Multiset.mem_add.mp ht with ht | ht
    · obtain ⟨k, hkmem, rfl⟩ := List.mem_map.mp ht
      exact ⟨hhome k hkmem, (Nat.sub_add_cancel hpos).symm⟩
    · exact h.placed t (Multiset.mem_add.mpr (.inl ht))
  refine h.advance hk.le (DeviceSound.update h.devices ((h.devices d).withPool hpool) d)
    (fun m hm => h.flight m (hb.mem_iff.mpr (List.mem_cons_of_mem _ hm))) (fun t ht => ?_) rfl ready
    (P := .experts (b.metadata.layerId - 1)) trivial (Q := fun _ => .attention b.metadata.layerId)
    (fun _ _ => .gather_of_pos hpos hl) (by simp [System.setDevice]) hx
  rcases Multiset.mem_add.mp ht with ht | ht
  · refine hdevs.forall_mem hmore (fun t ht => ?_) t ht
    obtain ⟨k, hkmem, rfl⟩ := List.mem_map.mp ht
    have hcol : collectedToken d b.metadata.layerId k ∈
        cfg.topK • ((ready.map (collectedToken d b.metadata.layerId) : List Token) : Multiset Token) :=
      (Multiset.mem_nsmul_of_ne_zero (by omega)).mpr (List.mem_map_of_mem hkmem)
    exact (hmore _ (Multiset.mem_of_le hdevs.taken_le hcol)).1
  · refine h.placed t (Multiset.mem_add.mpr (.inr ?_))
    rw [sum_map_of_perm_cons hb]
    exact Multiset.mem_add.mpr (.inr ht)

/-- A message arrives. -/
theorem Represents.deliver [Row R] (h : Represents cfg σ phase) (hk : 1 ≤ cfg.topK)
    (hd : d < cfg.numDevices) {later : List (ℕ × TokenBatch W R)} (hb : σ.flight.Perm ((d, b) :: later))
    {pool : UnifiedPool W R}
    (hok : UnifiedPool.processBatch b.data b.metadata (σ.device d).pool = .ok ⟨⟩ pool) :
    ∃ phase', Represents cfg { σ.setDevice d { σ.device d with pool } with flight := later } phase' ∧
      Phase.Advance cfg.model.numLayers phase phase' := by
  rcases (h.flight (d, b) (hb.mem_iff.mpr (by simp))).2 with
    ⟨htag, -, hcarries, hid⟩ | ⟨htag, hpos, hl, hcarries⟩
  · exact h.deliver_routed hk hd hb hok htag hcarries hid
  · rcases hk.eq_or_lt with hone | hmany
    · exact h.deliver_single hone.symm hd hb hok htag hpos hl hcarries
    · exact h.deliver_collected hmany hd hb hok htag hpos hl hcarries

/-- What one action keeps. -/
theorem Represents.step [Row R] (h : Represents cfg σ phase) (hk : 1 ≤ cfg.topK)
    (hc : Configured cfg.model cfg.numDevices cfg.expertAllocation)
    (hp : Solved cfg.model cfg.numDevices cfg.expertAllocation p) {S : ComparatorSort} {scale : W → R → R}
    (hs : System.Step cfg p S scale σ σ') :
    ∃ phase', Represents cfg σ' phase' ∧ Phase.Advance cfg.model.numLayers phase phase' := by
  cases hs with
  | request d hd reqId initPrefillLen maxOutputLen one row hnew pool hput => exact h.request hd hnew hput
  | schedule d hd _ id pool hok => exact h.schedule hk hok hd
  | get d hd id _ b pool hok => exact h.get hk hok hd
  | attention d hd b rest hb htag hlayer hiddens hrows expertIds expertWeights hgate out hout =>
    exact h.attention hk hp hd hb htag hlayer hrows hgate hout
  | sample d hd b rest hb htag hlayer continued finishReqIds result sampler hsample pool hput =>
    exact h.sample hk hd hb htag hlayer hsample hput
  | expert d hd b rest hb htag hiddens hrows out hout => exact h.expert hk hd hb htag hrows hout
  | send d hd b rest hb disp hdisp sent hsent messages hmessages =>
    exact h.send hk hc hp hd hb hdisp hsent hmessages
  | deliver d hd b rest hb pool hok => exact h.deliver hk hd hb hok

end Steps

end StreamInfer.Colocated
