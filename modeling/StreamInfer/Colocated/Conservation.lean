import StreamInfer.Colocated.Steps

/-! Conservation. In every state that the colocated system reaches, however its parts take turns
and its messages travel, the tokens on the devices and in flight are those of the phases of the
requests: one token at an attention layer, or all copies for the experts of one layer. So the
copies that wait in a `TokenTopKPool`, which knows requests only by their ids, are of one step. -/

namespace StreamInfer.Colocated

open General Relation Batch BatchMetadata Pool Placement ColocatePlacement

variable {W R : Type} [Zero W] {cfg : Config} {p : ModelPlacement} {σ σ' : System W R}
  {phase : ℤ → Phase} {d i : ℕ} {r : ℤ}

/-! ### The start -/

theorem keeps_start (cfg : Config) : LayerScheduler.Keeps (layerKind (cfg.model.numLayers + 1))
    (Device.start cfg : Device W R).pool.layerScheduler Contents.empty := by
  rcases hdefrag : cfg.defrag with _ | ⟨lookback, lookahead, decay⟩ <;>
    simp only [Device.start, Serving.start, UnifiedPool.new, hdefrag] <;>
    exact LayerScheduler.keeps_new _ _ _ _ _

omit [Zero W] in
theorem topkPools_start (cfg : Config) :
    ∀ t ∈ (Device.start cfg : Device W R).pool.topkPools, t = TokenTopKPool.new cfg.topK := by
  intro t ht
  simp only [Device.start, Serving.start, UnifiedPool.new] at ht
  split_ifs at ht with hk
  · exact (List.mem_replicate.mp ht).2
  · cases ht

theorem poolSound_start (cfg : Config) : PoolSound cfg (Device.start cfg : Device W R).pool where
  topK := rfl
  attnLayers := Serving.start_layers.1
  expertLayers := Serving.start_layers.2
  wired :=
    have h := UnifiedPool.wired_new (W := W) (R := R) (fun _ => True) cfg.model.numLayers cfg.numGroups
      cfg.topK cfg.defrag
    ⟨h.tokenQueue, h.topK, h.pools⟩
  rows t ht r u hu := by
    rw [topkPools_start cfg t ht, TokenTopKPool.new, AList.lookup_empty] at hu
    cases hu
  keeps := ⟨Contents.empty, keeps_start cfg⟩

/-- Nothing is on a device at the start. -/
theorem tokens_start (cfg : Config) (d : ℕ) : (Device.start cfg : Device W R).tokens d = 0 := by
  have hlayers : ∀ i ∈ Finset.range (Device.start cfg : Device W R).pool.layerScheduler.numLayers,
      layerTokens d (Device.start cfg : Device W R).pool.layerScheduler i = 0 := by
    intro i hi
    have hsound : PoolSound cfg (Device.start cfg : Device W R).pool := poolSound_start cfg
    have hkeeps := keeps_start (W := W) (R := R) cfg
    rw [← hsound.attnLayers] at hkeeps
    cases hq : (Device.start cfg : Device W R).pool.layerScheduler.layerUsesTokenQueue i with
    | false => exact layerTokens_batches d hkeeps (Finset.mem_range.mp hi) hq
    | true => exact layerTokens_tokens d hkeeps (Finset.mem_range.mp hi) hq
  have hpools : ∀ i ∈ Finset.range (Device.start cfg : Device W R).pool.topkPools.length,
      ((Device.start cfg : Device W R).pool.topkPools[i]?).elim 0 (collectedTokens d i) = 0 := by
    intro i _
    cases hi : (Device.start cfg : Device W R).pool.topkPools[i]? with
    | none => rfl
    | some t =>
      rw [topkPools_start cfg t (List.mem_of_getElem? hi)]
      rfl
  rw [Device.tokens, poolTokens, Finset.sum_eq_zero hlayers, Finset.sum_eq_zero hpools]
  rfl

theorem census_start (cfg : Config) (n : ℕ) : (System.start cfg : System W R).census n = 0 := by
  have hdevices : ∑ d ∈ Finset.range n, ((System.start cfg : System W R).device d).tokens d = 0 :=
    Finset.sum_eq_zero fun d _ => tokens_start cfg d
  rw [System.census, hdevices]
  rfl

theorem represents_start (cfg : Config) :
    Represents cfg (System.start cfg : System W R) fun _ => .unknown where
  devices d := ⟨poolSound_start cfg, fun b hb => (List.not_mem_nil hb).elim,
    fun b hb => (List.not_mem_nil hb).elim⟩
  flight m hm := (List.not_mem_nil hm).elim
  placed t ht := by
    rw [census_start] at ht
    exact (Multiset.notMem_zero t ht).elim
  portions r := by
    rw [census_start]
    rfl
  home r := iff_of_true rfl rfl
  homeLt r d hd := by cases hd
  finished r := iff_of_false List.not_mem_nil Phase.noConfusion
  inRange r := trivial

/-! ### Tokens of a request -/

def System.tokensOf (n : ℕ) (σ : System W R) (r : ℤ) : Multiset Token :=
  portion Token.reqId r (σ.census n)

/-- One token that waits for an attention layer or is executed, on the request's device. -/
def OneToken (cfg : Config) (σ : System W R) (r : ℤ) : Prop :=
  ∃ d layer, σ.home r = some d ∧ layer ≤ cfg.model.numLayers ∧
    σ.tokensOf cfg.numDevices r = {attentionToken d layer r}

/-- `top_k` copies for the experts of one layer, each where it belongs on its way. -/
def Copies (cfg : Config) (σ : System W R) (r : ℤ) : Prop :=
  ∃ layer < cfg.model.numLayers, (σ.tokensOf cfg.numDevices r).card = cfg.topK ∧
    ∀ t ∈ σ.tokensOf cfg.numDevices r, t.stage = .experts layer ∧ t.Placed cfg σ.home

/-- An entry of the `TokenTopKPool` of layer `i`: some of the copies of a request, all of one layer. -/
structure Collects (cfg : Config) (σ : System W R) (d i : ℕ) (r : ℤ) (u : TokenTopKInfo R) : Prop where
  seqId : u.seqId = r
  home : σ.home r = some d
  active : r ∉ σ.finished
  pos : 1 ≤ u.count
  lt : u.count < cfg.topK
  layer : 1 ≤ i ∧ i ≤ cfg.model.numLayers
  copies : u.count • {collectedToken d i r} ≤ σ.tokensOf cfg.numDevices r
  stage : ∀ t ∈ σ.tokensOf cfg.numDevices r, t.stage = .experts (i - 1)

theorem Represents.label_tokensOf (h : Represents cfg σ phase) (r : ℤ) :
    (σ.tokensOf cfg.numDevices r).map Token.label = (phase r).labels cfg.topK r := by
  rw [← h.portions, portion, Multiset.filter_map]
  rfl

theorem Represents.placed_tokensOf (h : Represents cfg σ phase) {r : ℤ} {t : Token}
    (ht : t ∈ σ.tokensOf cfg.numDevices r) : t.Placed cfg σ.home :=
  h.placed t (Multiset.mem_of_mem_filter ht)

theorem Represents.stage_tokensOf (h : Represents cfg σ phase) {layer : ℕ}
    (hphase : phase r = .experts layer) {t : Token} (ht : t ∈ σ.tokensOf cfg.numDevices r) :
    t.stage = .experts layer := by
  have hlabel : t.label ∈ (phase r).labels cfg.topK r := by
    rw [← h.label_tokensOf]
    exact Multiset.mem_map_of_mem _ ht
  rw [hphase] at hlabel
  exact congrArg Prod.snd (Multiset.mem_singleton.mp (Multiset.mem_of_mem_nsmul hlabel))

theorem Represents.oneToken (h : Represents cfg σ phase) {r : ℤ} {layer : ℕ}
    (hphase : phase r = .attention layer) : OneToken cfg σ r := by
  have hlabels := h.label_tokensOf r
  have hlayer := h.inRange r
  rw [hphase] at hlabels hlayer
  obtain ⟨t, ht, hlabel⟩ := Multiset.map_eq_singleton.mp hlabels
  have hmem : t ∈ σ.tokensOf cfg.numDevices r := by rw [ht]; exact Multiset.mem_singleton_self t
  have hplaced := h.placed_tokensOf hmem
  obtain ⟨reqId, stage, place⟩ := t
  obtain ⟨rfl, rfl⟩ := Prod.mk.inj hlabel
  cases place with
  | attention d => exact ⟨d, layer, hplaced, hlayer, ht⟩
  | routed | toExpert | expert | returned | toAttention | collected => exact hplaced.elim

theorem Represents.copies (h : Represents cfg σ phase) {layer : ℕ} (hphase : phase r = .experts layer) :
    Copies cfg σ r := by
  have hlayer := h.inRange r
  have hcard := congrArg Multiset.card (h.label_tokensOf r)
  rw [hphase] at hlayer hcard
  rw [Multiset.card_map, Phase.labels, Multiset.card_nsmul, Multiset.card_singleton, Nat.mul_one] at hcard
  exact ⟨layer, hlayer, hcard, fun t ht => ⟨h.stage_tokensOf hphase ht, h.placed_tokensOf ht⟩⟩

theorem Represents.tokensOf_eq_zero (h : Represents cfg σ phase) (hphase : ¬ (phase r).Live) :
    σ.tokensOf cfg.numDevices r = 0 := by
  have hlabels := h.label_tokensOf r
  cases hr : phase r with
  | unknown | finished =>
    rw [hr] at hlabels
    exact Multiset.map_eq_zero.mp hlabels
  | attention layer | experts layer =>
    rw [hr] at hphase
    exact (hphase trivial).elim

/-- The rows of an entry are tokens of the system. -/
theorem rowTokens_le_census {n : ℕ} (hd : d < n) {t : TokenTopKPool R}
    (ht : (σ.device d).pool.topkPools[i]? = some t) {u : TokenTopKInfo R}
    (hu : t.pool.lookup r = some u) : (rowTokens d i u : Multiset Token) ≤ σ.census n := by
  obtain ⟨hi, -⟩ := List.getElem?_eq_some_iff.mp ht
  have hentry : (rowTokens d i u : Multiset Token) ≤ collectedTokens d i t := by
    rw [collectedTokens_lookup hu]
    exact Multiset.le_add_right _ _
  have hpools := Finset.single_le_sum
    (f := fun i => ((σ.device d).pool.topkPools[i]?).elim 0 (collectedTokens d i))
    (fun _ _ => Multiset.zero_le _) (Finset.mem_range.mpr hi)
  have hdevices := Finset.single_le_sum (f := fun i => (σ.device i).tokens i)
    (fun _ _ => Multiset.zero_le _) (Finset.mem_range.mpr hd)
  rw [ht] at hpools
  calc (rowTokens d i u : Multiset Token) ≤ collectedTokens d i t := hentry
    _ ≤ poolTokens d (σ.device d).pool := hpools.trans (Multiset.le_add_left _ _)
    _ ≤ (σ.device d).tokens d := (Multiset.le_add_right _ _).trans (Multiset.le_add_right _ _)
    _ ≤ σ.census n := hdevices.trans (Multiset.le_add_right _ _)

theorem Represents.collects (h : Represents cfg σ phase) (hd : d < cfg.numDevices) {t : TokenTopKPool R}
    (ht : (σ.device d).pool.topkPools[i]? = some t) {u : TokenTopKInfo R}
    (hu : t.pool.lookup r = some u) : Collects cfg σ d i r u := by
  have hmem := List.mem_of_getElem? ht
  have hsound := (h.devices d).pool
  obtain ⟨htopK, hwf, -⟩ := hsound.wired.pools t hmem
  obtain ⟨hseq, hlt, -⟩ := hwf.keyed r u hu
  rw [htopK, hsound.topK] at hlt
  have hpos := hsound.rows t hmem r u hu
  have hrows : (rowTokens d i u : Multiset Token) = u.count • {collectedToken d i r} := by
    rw [rowTokens, hseq, Multiset.nsmul_singleton, Multiset.coe_replicate]
  have hcopies : u.count • {collectedToken d i r} ≤ σ.tokensOf cfg.numDevices r := by
    rw [System.tokensOf, portion, Multiset.le_filter, ← hrows]
    refine ⟨rowTokens_le_census hd ht hu, fun a ha => ?_⟩
    rw [hrows] at ha
    rw [Multiset.mem_singleton.mp (Multiset.mem_of_mem_nsmul ha)]
    rfl
  have hcopy : collectedToken d i r ∈ σ.tokensOf cfg.numDevices r := Multiset.mem_of_le hcopies
    ((Multiset.mem_nsmul_of_ne_zero (by omega)).mpr (Multiset.mem_singleton_self _))
  obtain ⟨hhome, hi⟩ := h.placed_tokensOf hcopy
  have hlabel : (r, Stage.experts (i - 1)) ∈ (phase r).labels cfg.topK r := by
    rw [← h.label_tokensOf]
    exact Multiset.mem_map_of_mem Token.label hcopy
  have hlabels : (r, Stage.experts (i - 1)) ∈ (Phase.experts (i - 1)).labels cfg.topK r :=
    (Multiset.mem_nsmul_of_ne_zero (by omega)).mpr (Multiset.mem_singleton_self _)
  have hphase : phase r = .experts (i - 1) := Phase.eq_of_mem_labels hlabels hlabel
  have hrange := h.inRange r
  rw [hphase] at hrange
  refine ⟨hseq, hhome, fun hfin => ?_, hpos, hlt, ⟨by omega, ?_⟩, hcopies,
    fun a ha => h.stage_tokensOf hphase ha⟩
  · rw [h.finished, hphase] at hfin
    cases hfin
  · have hlast : i - 1 < cfg.model.numLayers := hrange
    omega

/-- The state tells the phases. -/
theorem Represents.unique (h : Represents cfg σ phase) (hk : 1 ≤ cfg.topK) {other : ℤ → Phase}
    (h' : Represents cfg σ other) : other = phase := by
  funext r
  have hlabels : (other r).labels cfg.topK r = (phase r).labels cfg.topK r := by
    rw [← h.label_tokensOf, ← h'.label_tokensOf]
  have hlive : ∀ {P P' : Phase}, P.labels cfg.topK r = P'.labels cfg.topK r → P.Live → P' = P := by
    intro P P' heq hP
    obtain ⟨a, ha⟩ := Multiset.exists_mem_of_ne_zero (Phase.labels_ne_zero (r := r) hk hP)
    exact Phase.eq_of_mem_labels ha (heq ▸ ha)
  cases hr : phase r with
  | unknown => exact (h'.home r).mp ((h.home r).mpr hr)
  | finished => exact (h'.finished r).mp ((h.finished r).mpr hr)
  | attention layer | experts layer => exact hlive (hr ▸ hlabels.symm) trivial

/-! ### Runs -/

variable [Row R] {S : ComparatorSort} {scale : W → R → R}

/-- Every run takes the requests through their phases. -/
theorem represents_of_reached (hk : 1 ≤ cfg.topK)
    (hc : Configured cfg.model cfg.numDevices cfg.expertAllocation)
    (hp : Solved cfg.model cfg.numDevices cfg.expertAllocation p) (h : System.Reached cfg p S scale σ) :
    ∃ phase, ReflTransGen (Phase.Advance cfg.model.numLayers) (fun _ => .unknown) phase ∧
      Represents cfg σ phase := by
  obtain ⟨σ₀, rfl, hrun⟩ := h
  induction hrun with
  | refl => exact ⟨_, .refl, represents_start cfg⟩
  | tail _ hs ih =>
    obtain ⟨phase, hphases, hrep⟩ := ih
    obtain ⟨phase', hrep', hadvance⟩ := hrep.step hk hc hp hs
    exact ⟨phase', hphases.tail hadvance, hrep'⟩

/-! ### Conservation -/

/-- Two devices with an expert each of the one layer; every token goes to both. -/
def twoDevices : Config where
  model := ⟨1, 2, 1, 2⟩
  numDevices := 2
  expertAllocation := some [1, 1]
  topK := 2
  numGroups := 1
  defrag := none
  attnScheduleTokenThreshold := 4
  expertScheduleTokenThreshold := 4
  hiddenSize := 1
  useGdrcopyOptimization := false

def twoPlacement : ModelPlacement :=
  updateAttnDpRank (updateExpertRank twoDevices.model twoDevices.expertAllocation
    ((ModelPlacement.edges 1 [[0, 1]] [[0, 1]]).foldl (fun p e => p.addEdge e.1 e.2)
      ⟨[[0], [0]], [[(0, 0)], [(0, 1)]], fun _ => [], fun _ => [], fun _ => none, fun _ => none, [1, 1]⟩))

theorem configured_twoDevices :
    Configured twoDevices.model twoDevices.numDevices twoDevices.expertAllocation := by
  refine ⟨Nat.le_refl 1, rfl, fun hnone => ?_, fun counts hcounts => ?_⟩
  · cases hnone
  · obtain rfl := Option.some.inj hcounts
    exact ⟨Nat.le_refl 2, rfl⟩

set_option maxRecDepth 2000 in
/-- Request 7 is taken in and routed to both devices; the copy of the first device's expert is
back before the other one arrives at its expert. -/
theorem reached_twoDevices : ∃ σ : System ℕ (List ℕ),
    System.Reached twoDevices twoPlacement .insertion (fun _ row => row) σ ∧ σ.home 7 = some 0 ∧
      σ.finished = [] ∧ ∃ t, (σ.device 0).pool.topkPools[1]? = some t ∧
        t.pool.lookup 7 = some ⟨7, 1, 0, [[7]]⟩ := by
  have h₀ : System.Reached twoDevices twoPlacement .insertion (fun _ row => row)
      (System.start twoDevices : System ℕ (List ℕ)) := Reach.start rfl
  -- attention on the first device
  have h₁ := h₀.next (.request 0 Nat.two_pos 7 1 8 1 [5] rfl _ rfl)
  have h₂ := h₁.next (.schedule 0 Nat.two_pos rfl 0 _ rfl)
  have h₃ := h₂.next (.get 0 Nat.two_pos 0 rfl (some _) _ rfl)
  have h₄ := h₃.next (.attention 0 Nat.two_pos _ [] (.refl _) rfl Nat.zero_ne_one [[6]] rfl [[0, 1]]
    [[1, 1]] ⟨rfl, by decide, rfl, by decide, by decide⟩ _ rfl)
  have h₅ := h₄.next (.send 0 Nat.two_pos _ [] rfl ⟨[0, 1], [0, 1]⟩ rfl _ rfl _ rfl)
  -- its expert
  have h₆ := h₅.next (.deliver 0 Nat.two_pos _ _ (.refl _) _ rfl)
  have h₇ := h₆.next (.schedule 0 Nat.two_pos rfl 2 _ rfl)
  have h₈ := h₇.next (.get 0 Nat.two_pos 2 rfl (some _) _ rfl)
  have h₉ := h₈.next (.expert 0 Nat.two_pos _ [] (.refl _) rfl [[7]] rfl _ rfl)
  have h₁₀ := h₉.next (.send 0 Nat.two_pos _ [] rfl ⟨[0, 1], [0, 1]⟩ rfl _ rfl _ rfl)
  have h₁₁ := h₁₀.next (.deliver 0 Nat.two_pos _ _ (.swap _ _ _) _ rfl)
  exact ⟨_, h₁₁, rfl, rfl, _, rfl, rfl⟩

/-- Global token conservation. -/
theorem tokens_conserved (hc : Configured cfg.model cfg.numDevices cfg.expertAllocation)
    (hp : solve cfg.model cfg.numDevices cfg.expertAllocation = .ok p) (hk : 1 ≤ cfg.topK)
    (h : System.Reached cfg p S scale σ) :
    (∀ r, σ.home r ≠ none → r ∉ σ.finished → OneToken cfg σ r ∨ Copies cfg σ r) ∧
    (∀ r, σ.home r = none ∨ r ∈ σ.finished → σ.tokensOf cfg.numDevices r = 0) ∧
    ∀ d < cfg.numDevices, ∀ i t, (σ.device d).pool.topkPools[i]? = some t →
      ∀ r u, t.pool.lookup r = some u → Collects cfg σ d i r u := by
  obtain ⟨p', hsolve, hp'⟩ := hc.solve_ok
  obtain rfl : p' = p := Except.ok.inj (hsolve.symm.trans hp)
  obtain ⟨phase, -, hrep⟩ := represents_of_reached hk hc hp' h
  refine ⟨fun r hhome hactive => ?_, fun r hr => ?_, fun d hd i t ht r u hu => hrep.collects hd ht hu⟩
  · cases hphase : phase r with
    | unknown => exact (hhome ((hrep.home r).mpr hphase)).elim
    | attention layer => exact .inl (hrep.oneToken hphase)
    | experts layer => exact .inr (hrep.copies hphase)
    | finished => exact (hactive ((hrep.finished r).mpr hphase)).elim
  · refine hrep.tokensOf_eq_zero fun hlive => ?_
    rcases hr with hhome | hfinished
    · rw [(hrep.home r).mp hhome] at hlive
      exact hlive
    · rw [(hrep.finished r).mp hfinished] at hlive
      exact hlive

theorem tokens_conserved_twoDevices : ∃ σ : System ℕ (List ℕ),
    System.Reached twoDevices twoPlacement .insertion (fun _ row => row) σ ∧
      (OneToken twoDevices σ 7 ∨ Copies twoDevices σ 7) ∧
      Collects twoDevices σ 0 1 7 ⟨7, 1, 0, [[7]]⟩ := by
  obtain ⟨σ, h, hhome, hfinished, t, ht, hu⟩ := reached_twoDevices
  obtain ⟨htokens, -, hcollects⟩ := tokens_conserved configured_twoDevices rfl (Nat.le_succ 1) h
  exact ⟨σ, h, htokens 7 (by simp [hhome]) (by simp [hfinished]),
    hcollects 0 Nat.two_pos 1 t ht 7 _ hu⟩

/-- The system refines the phases of its requests: a state shows one phase of each request, and
an action lets each request stay in its phase or go on to the next. -/
theorem refines_phases (hc : Configured cfg.model cfg.numDevices cfg.expertAllocation)
    (hp : solve cfg.model cfg.numDevices cfg.expertAllocation = .ok p) (hk : 1 ≤ cfg.topK)
    (h : System.Reached cfg p S scale σ) :
    ∃ phase, (Represents cfg σ phase ∧ ∀ other, Represents cfg σ other → other = phase) ∧
      ReflTransGen (Phase.Advance cfg.model.numLayers) (fun _ => .unknown) phase ∧
      ∀ σ', System.Step cfg p S scale σ σ' →
        ∃ phase', Represents cfg σ' phase' ∧ Phase.Advance cfg.model.numLayers phase phase' := by
  obtain ⟨p', hsolve, hp'⟩ := hc.solve_ok
  obtain rfl : p' = p := Except.ok.inj (hsolve.symm.trans hp)
  obtain ⟨phase, hphases, hrep⟩ := represents_of_reached hk hc hp' h
  exact ⟨phase, ⟨hrep, fun _ => hrep.unique hk⟩, hphases, fun _ hs => hrep.step hk hc hp' hs⟩

theorem refines_phases_twoDevices : ∃ (σ : System ℕ (List ℕ)) (phase : ℤ → Phase),
    σ.home 7 = some 0 ∧ Represents twoDevices σ phase ∧ phase 7 ≠ .unknown ∧
      ReflTransGen (Phase.Advance 1) (fun _ => .unknown) phase := by
  obtain ⟨σ, h, hhome, -⟩ := reached_twoDevices
  obtain ⟨phase, ⟨hrep, -⟩, hphases, -⟩ := refines_phases configured_twoDevices rfl (Nat.le_succ 1) h
  refine ⟨σ, phase, hhome, hrep, fun hunknown => ?_, hphases⟩
  rw [(hrep.home 7).mpr hunknown] at hhome
  cases hhome

end StreamInfer.Colocated
