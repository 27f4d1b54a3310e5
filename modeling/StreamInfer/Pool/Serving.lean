import StreamInfer.Pool.Arrivals
import StreamInfer.Pool.Conservation
import StreamInfer.Pool.Policies

/-! The engine and the pool thread share a pool. Between the decision for a layer
and the get from it any batches may arrive; the engine is the only one that
takes. Arrivals only add to a layer, so a layer that held a token when it was
picked still holds one, and the get delivers. -/

namespace StreamInfer.Pool

open General General.Stateful Batch BatchMetadata Relation

variable {W R : Type}

namespace UnifiedPool

/-- The threshold of a get from layer `i`. -/
def thresholdAt (p : UnifiedPool W R) (i : ℕ) : ℤ :=
  if p.layerScheduler.isAttnLayer i then p.attnScheduleTokenThreshold
  else p.expertScheduleTokenThreshold

theorem SameSettings.thresholdAt_eq {p p' : UnifiedPool W R} (h : SameSettings p p') (i : ℕ) :
    p'.thresholdAt i = p.thresholdAt i := by
  rw [thresholdAt, thresholdAt, LayerScheduler.isAttnLayer, LayerScheduler.isAttnLayer,
    h.shape.numAttnLayers, h.attnThreshold, h.expertThreshold]

variable [Zero W] {K : ℕ → BatchKind W R} {p p' : UnifiedPool W R} {c : Contents W R}

/-- Arrivals take nothing from a layer. -/
theorem Arrived.held_le {tensor : List R} {metaC : BatchMetadata W}
    {ys : List (TokenMetadata W × R)} {c c' : Contents W R} {lens : ℤ → Prop} (h : Arrived lens p tensor metaC ys c c')
    (hk : LayerScheduler.Keeps K p.layerScheduler c)
    (hk' : LayerScheduler.Keeps K p'.layerScheduler c')
    (hs : LayerScheduler.SameShape p.layerScheduler p'.layerScheduler) {i : ℕ}
    (hi : i < p.layerScheduler.numLayers) :
    p.layerScheduler.held i ≤ p'.layerScheduler.held i := by
  rw [hk.held_eq hi, hk'.held_eq (by rwa [hs.numLayers]), hs.layerUsesTokenQueue]
  split_ifs
  · exact (h.appends i).2.length_le
  · exact (h.appends i).1.length_le

variable [Row R] {S : ComparatorSort} {lens : ℤ → Prop}

/-- What a get from layer `i` hands out: a batch of the layer's kind, or packed tokens. -/
inductive Delivered (S : ComparatorSort) (lens : ℤ → Prop) (K : ℕ → BatchKind W R)
    (p : UnifiedPool W R) (i : ℕ) (b : TokenBatch W R) (ys : List (TokenMetadata W × R)) : Prop
  | batches (hq : p.layerScheduler.layerUsesTokenQueue i = false) (hb : (K i).Good b ys)
  | packed (hq : p.layerScheduler.layerUsesTokenQueue i = true)
      (htag : b.metadata.batchTag = .attention) (hlayer : b.metadata.layerId = i)
      (ts : List (TokenTopKInfo R)) (hlen : ∀ u ∈ ts, lens u.initPrefillLen)
      (hs : List.Forall₂ Summed (S.sort TokenTopKInfo.before ts) ys)
      (hr : Carries .returning b ys) (hb : CarriesAttention b ys)

theorem Delivered.numTokens {i : ℕ} {b : TokenBatch W R} {ys : List (TokenMetadata W × R)}
    (h : Delivered S lens K p i b ys) : b.metadata.numTokens = ys.length := by
  cases h with
  | batches _ hb => exact (K i).numTokens hb
  | packed _ _ _ _ _ _ hr _ => exact hr.numTokens

theorem getBatchFromLayer_ok_iff {i : ℕ} {b : Option (TokenBatch W R)} :
    getBatchFromLayer S i p = .ok b p' ↔
      ∃ s', LayerScheduler.getBatchFromLayerRestricted S i (p.thresholdAt i) p.layerScheduler =
        .ok b s' ∧ p' = { p with layerScheduler := s' } := by
  rw [getBatchFromLayer, get_bind]
  exact onScheduler_ok_iff

/-- A get from a layer with tokens delivers as many as the threshold allows. -/
theorem Wired.getBatchFromLayer (hw : Wired lens p) (hk : LayerScheduler.Keeps K p.layerScheduler c)
    (hlens : ∀ i, ∀ u ∈ c.tokens i, lens u.initPrefillLen) (S : ComparatorSort) {i : ℕ} (hi : i < p.layerScheduler.numLayers)
    (hheld : 0 < p.layerScheduler.held i) (ht : 1 ≤ p.thresholdAt i) :
    ∃ b ys p', UnifiedPool.getBatchFromLayer S i p = .ok (some b) p' ∧ Delivered S lens K p i b ys ∧
      ys.length = min (p.thresholdAt i).toNat (p.layerScheduler.held i) ∧ Wired lens p' ∧
      SameSettings p p' ∧ p'.layerScheduler.defrag = p.layerScheduler.defrag ∧
      ∃ c', LayerScheduler.Keeps K p'.layerScheduler c' ∧
        ∀ i, ∀ u ∈ c'.tokens i, lens u.initPrefillLen := by
  have hcount := hk.held_eq hi
  cases hq : p.layerScheduler.layerUsesTokenQueue i with
  | false =>
    rw [hq] at hcount
    have hne : c.batches i ≠ [] := by
      rintro hnil
      rw [hnil] at hcount
      exact hheld.ne' hcount
    obtain ⟨b, ys, s', hok, hb, hperm, hshape, hdefrag, hkeep⟩ := hk.getBatches S hi hq hne ht
    refine ⟨b, ys, _, getBatchFromLayer_ok_iff.mpr ⟨s', hok, rfl⟩, .batches hq hb, ?_,
      hw.ofScheduler hshape, .ofScheduler hshape, hdefrag, _, hkeep, hlens⟩
    rw [hperm.length_eq, List.length_take, hcount]
    rfl
  | true =>
    rw [hq] at hcount
    have hne : c.tokens i ≠ [] := by
      rintro hnil
      rw [hnil] at hcount
      exact hheld.ne' hcount
    obtain ⟨b, s', hok, htag, hlayer, ⟨ys, hs, hr, hb⟩, hshape, hdefrag, hkeep⟩ :=
      hk.getTokens S hi hq hne ht
    refine ⟨b, ys, _, getBatchFromLayer_ok_iff.mpr ⟨s', hok, rfl⟩,
      .packed hq htag hlayer _ (fun u hu => hlens i u (List.mem_of_mem_take hu)) hs hr hb, ?_,
      hw.ofScheduler hshape, .ofScheduler hshape, hdefrag, _, hkeep, fun j u hu => ?_⟩
    rotate_left
    · by_cases hj : j = i
      · subst hj
        rw [Contents.setTokens_self] at hu
        exact hlens j u (List.mem_of_mem_drop hu)
      · rw [Contents.setTokens_of_ne _ hj] at hu
        exact hlens j u hu
    rw [← hs.length_eq, (S.perm _ _).length_eq, List.length_take, hcount]
    rfl

end UnifiedPool

/-! ### Runs -/

/-- The pool and the layer that was picked but not drained. -/
structure Serving (W R : Type) where
  pool : UnifiedPool W R
  pending : Option ℤ

namespace Serving

open UnifiedPool

variable [Zero W] [Row R]

/-- The pool of a device with its thresholds set. -/
def start (numLayers numGroups topK : ℕ) (defrag : Option (ℕ × ℕ × ℚ))
    (attnThreshold expertThreshold : ℤ) : Serving W R where
  pool := { UnifiedPool.new numLayers numGroups topK defrag with
    attnScheduleTokenThreshold := attnThreshold
    expertScheduleTokenThreshold := expertThreshold }
  pending := none

/-- A batch arrives, the engine picks a layer, or it drains the layer it picked. -/
inductive Step (S : ComparatorSort) (Received : List R → BatchMetadata W → Prop)
    (t t' : Serving W R) : Prop
  | receive (tensor : List R) (metaC : BatchMetadata W) (hr : Received tensor metaC)
      (hok : processBatch tensor metaC t.pool = .ok ⟨⟩ t'.pool) (hp : t'.pending = t.pending)
  | schedule (id : ℤ) (hp : t.pending = none)
      (hok : onScheduler LayerScheduler.schedule t.pool = .ok id t'.pool)
      (hp' : t'.pending = some id)
  | get (id : ℤ) (b : Option (TokenBatch W R)) (hp : t.pending = some id)
      (hok : getBatchFromLayer S id t.pool = .ok b t'.pool) (hp' : t'.pending = none)

/-- The picked layer still holds a token. -/
structure Consistent (lens : ℤ → Prop) (K : ℕ → BatchKind W R) (p₀ : UnifiedPool W R)
    (t : Serving W R) : Prop where
  wired : Wired lens t.pool
  settings : SameSettings p₀ t.pool
  keeps : ∃ c, LayerScheduler.Keeps K t.pool.layerScheduler c ∧
    ∀ i, ∀ u ∈ c.tokens i, lens u.initPrefillLen
  decay : t.pool.layerScheduler.NonnegDecay
  pending : ∀ id, t.pending = some id → id = -1 ∨
    ∃ i < t.pool.layerScheduler.numLayers, id = i ∧ 0 < t.pool.layerScheduler.held i

variable {S : ComparatorSort} {Received : List R → BatchMetadata W → Prop}
  {lens : ℤ → Prop} {K : ℕ → BatchKind W R} {p₀ : UnifiedPool W R} {t t' : Serving W R}

omit [Row R] in
theorem consistent_start (lens : ℤ → Prop) (K : ℕ → BatchKind W R) (numLayers numGroups topK : ℕ)
    {defrag : Option (ℕ × ℕ × ℚ)} (hd : ∀ d, defrag = some d → 0 ≤ d.2.2)
    (attnThreshold expertThreshold : ℤ) :
    Consistent lens K (start numLayers numGroups topK defrag attnThreshold expertThreshold).pool
      (start numLayers numGroups topK defrag attnThreshold expertThreshold) where
  wired :=
    have h := wired_new (W := W) (R := R) lens numLayers numGroups topK defrag
    ⟨h.tokenQueue, h.topK, h.pools⟩
  settings := ⟨rfl, rfl, rfl, rfl, .refl _⟩
  keeps := by
    refine ⟨Contents.empty, ?_, fun i u hu => by cases hu⟩
    rcases defrag with _ | ⟨lookback, lookahead, decay⟩ <;> exact LayerScheduler.keeps_new _ _ _ _ _
  decay := by
    rcases defrag with _ | ⟨lookback, lookahead, decay⟩
    · intro d h
      cases h
    · intro d h
      cases h
      exact hd _ rfl
  pending id h := by cases h

/-- The get of layer `-1` takes nothing. -/
theorem getBatchFromLayer_none (S : ComparatorSort) (p : UnifiedPool W R) :
    getBatchFromLayer S (-1) p = .ok none p := rfl

theorem Consistent.getBatchFromLayer (h : Consistent lens K p₀ t) (S : ComparatorSort) {i : ℕ}
    (hp : t.pending = some (i : ℤ)) (ht : ∀ i, 1 ≤ p₀.thresholdAt i) :
    i < t.pool.layerScheduler.numLayers ∧ ∃ b ys p',
      UnifiedPool.getBatchFromLayer S i t.pool = .ok (some b) p' ∧ Delivered S lens K t.pool i b ys ∧
      1 ≤ ys.length ∧ (ys.length : ℤ) ≤ t.pool.thresholdAt i ∧
      Consistent lens K p₀ ⟨p', none⟩ := by
  obtain ⟨i', hi, hid, hheld⟩ := (h.pending _ hp).resolve_left (by omega)
  obtain rfl : i = i' := by exact_mod_cast hid
  have hthr : 1 ≤ t.pool.thresholdAt i := by
    rw [h.settings.thresholdAt_eq]
    exact ht i
  obtain ⟨c, hk, hlens⟩ := h.keeps
  obtain ⟨b, ys, p', hok, hb, hlen, hw, hs, hd, hkeep⟩ :=
    h.wired.getBatchFromLayer hk hlens S hi hheld hthr
  refine ⟨hi, b, ys, p', hok, hb, by omega, by omega, hw, h.settings.trans hs, hkeep, ?_, ?_⟩
  · intro d hd'
    exact h.decay d (hd ▸ hd')
  · intro id hid
    cases hid

theorem Step.consistent (hs : Step S Received t t') (h : Consistent lens K p₀ t)
    (hl : p₀.layerScheduler.numExpertLayers ≤ p₀.layerScheduler.numAttnLayers)
    (ht : ∀ i, 1 ≤ p₀.thresholdAt i)
    (hsuits : ∀ p tensor metaC, SameSettings p₀ p → Received tensor metaC →
      ∃ ys, Suits lens K p tensor metaC ys) : Consistent lens K p₀ t' := by
  obtain ⟨c, hk, hlens⟩ := h.keeps
  cases hs with
  | receive tensor metaC hr hok hp =>
    obtain ⟨ys, hys⟩ := hsuits t.pool tensor metaC h.settings hr
    obtain ⟨hw, hset, hd, c', hk', harr⟩ := h.wired.processBatch hk hys hok
    refine ⟨hw, h.settings.trans hset, ⟨c', hk', harr.lens hlens⟩, fun d hd' => h.decay d (hd ▸ hd'), fun id hid => ?_⟩
    rcases h.pending id (hp ▸ hid) with hnone | ⟨i, hi, hid, hheld⟩
    · exact .inl hnone
    · exact .inr ⟨i, by rwa [hset.shape.numLayers], hid,
        hheld.trans_le (harr.held_le hk hk' hset.shape hi)⟩
  | schedule id hp hok hp' =>
    obtain ⟨s', hsched, hpool⟩ := onScheduler_ok_iff.mp hok
    obtain ⟨id', s₁, hok', hpick, hlayers, hshape, hdecay, hkeep⟩ := hk.schedule (by
      rwa [h.settings.shape.numExpertLayers, h.settings.shape.numAttnLayers]) h.decay
    obtain ⟨rfl, rfl⟩ : id = id' ∧ s' = s₁ := by simpa [hsched] using hok'
    have hheld : ∀ i, s'.held i = t.pool.layerScheduler.held i := by
      intro i
      simp only [LayerScheduler.held, LayerScheduler.queuedBatches, LayerScheduler.queuedTokens,
        hlayers]
    obtain ⟨pool', pending'⟩ := t'
    obtain rfl := hpool
    obtain rfl := hp'
    refine ⟨h.wired.ofScheduler hshape, h.settings.trans (.ofScheduler hshape), ⟨c, hkeep, hlens⟩, hdecay,
      fun id' hid' => ?_⟩
    obtain rfl := Option.some.inj hid'
    rcases hpick with ⟨hnone, -⟩ | ⟨i, hi, hid, hpos⟩
    · exact .inl hnone
    · exact .inr ⟨i, by rwa [hshape.numLayers], hid, by rwa [hheld]⟩
  | get id b hp hok hp' =>
    obtain ⟨pool', pending'⟩ := t'
    obtain rfl := hp'
    rcases h.pending id hp with rfl | ⟨i, -, rfl, -⟩
    · rw [getBatchFromLayer_none] at hok
      cases hok
      exact ⟨h.wired, h.settings, h.keeps, h.decay, fun id hid => by cases hid⟩
    · obtain ⟨-, b', ys, p', hok', -, -, -, hcons⟩ := h.getBatchFromLayer S hp ht
      obtain ⟨-, rfl⟩ : b = some b' ∧ pool' = p' := by simpa [hok] using hok'
      exact hcons

/-! ### Every run -/

section Run

variable {numLayers numGroups topK : ℕ} {defrag : Option (ℕ × ℕ × ℚ)}
  {attnThreshold expertThreshold : ℤ}

omit [Zero W] [Row R] in
theorem start_layers :
    let p : UnifiedPool W R := (start numLayers numGroups topK defrag attnThreshold expertThreshold).pool
    p.layerScheduler.numAttnLayers = numLayers + 1 ∧ p.layerScheduler.numExpertLayers = numLayers := by
  rcases defrag with _ | ⟨lookback, lookahead, decay⟩ <;> exact ⟨rfl, rfl⟩

omit [Zero W] [Row R] in
theorem thresholdAt_start (i : ℕ) :
    (start numLayers numGroups topK defrag attnThreshold expertThreshold :
      Serving W R).pool.thresholdAt i =
      if (i : ℤ) < numLayers + 1 then attnThreshold else expertThreshold := by
  rw [thresholdAt, LayerScheduler.isAttnLayer, start_layers.1]
  simp only [decide_eq_true_eq, Nat.cast_add, Nat.cast_one]
  rfl

omit [Zero W] [Row R] in
theorem one_le_thresholdAt_start (ha : 1 ≤ attnThreshold) (he : 1 ≤ expertThreshold) (i : ℕ) :
    1 ≤ (start numLayers numGroups topK defrag attnThreshold expertThreshold :
      Serving W R).pool.thresholdAt i := by
  rw [thresholdAt_start]
  split_ifs <;> assumption

/-- The rule for runs: kinds that suit what arrives are kept. -/
theorem consistent_of_run (lens : ℤ → Prop) (K : ℕ → BatchKind W R)
    (hd : ∀ d, defrag = some d → 0 ≤ d.2.2) (ha : 1 ≤ attnThreshold)
    (he : 1 ≤ expertThreshold)
    (hsuits : ∀ p tensor metaC, p.layerScheduler.numAttnLayers = numLayers + 1 →
      Received tensor metaC → ∃ ys, Suits lens K p tensor metaC ys)
    (h : ReflTransGen (Step S Received)
      (start numLayers numGroups topK defrag attnThreshold expertThreshold) t) :
    Consistent lens K (start numLayers numGroups topK defrag attnThreshold expertThreshold).pool t ∧
      t.pool.layerScheduler.numAttnLayers = numLayers + 1 ∧
      t.pool.layerScheduler.numExpertLayers = numLayers := by
  have hcons : Consistent lens K
      (start numLayers numGroups topK defrag attnThreshold expertThreshold).pool t := by
    induction h with
    | refl => exact consistent_start _ _ _ _ _ hd _ _
    | tail _ hs ih =>
      refine hs.consistent ih ?_ (one_le_thresholdAt_start ha he) fun p tensor metaC hset hr => ?_
      · rw [start_layers.1, start_layers.2]
        exact Nat.le_succ _
      · exact hsuits p tensor metaC (hset.shape.numAttnLayers.trans start_layers.1) hr
  exact ⟨hcons, hcons.settings.shape.numAttnLayers.trans start_layers.1,
    hcons.settings.shape.numExpertLayers.trans start_layers.2⟩

end Run

/-! ### Decisions and gets -/

/-- What the senders promise of a batch: new tokens enter the first layer, routed
ids fit the count array that the sender has sorted by. -/
structure WellFormed (tensor : List R) (metaC : BatchMetadata W) : Prop where
  rows : tensor.length = metaC.numTokens
  first : metaC.batchTag = .tokenizer → metaC.layerId = 0
  attention : metaC.batchTag ≠ .attention → metaC.Aligned .attention
  expert : metaC.batchTag = .attention →
    metaC.Aligned .routing ∧ ∀ e ∈ metaC.expIds, e < maxNumExperts

omit [Row R] in
theorem WellFormed.suits {tensor : List R} {metaC : BatchMetadata W} (h : WellFormed tensor metaC)
    (p : UnifiedPool W R) :
    ∃ ys, Suits (fun _ => True) (layerKind p.layerScheduler.numAttnLayers) p tensor metaC ys := by
  by_cases htag : metaC.batchTag = .attention
  · obtain ⟨ha, hid⟩ := h.expert htag
    have hc := carries_entries_of_aligned (b := (⟨tensor, metaC⟩ : TokenBatch W R)) ha h.rows
    refine ⟨(⟨tensor, metaC⟩ : TokenBatch W R).entries .routing, h.first,
      fun hto => absurd htag hto.tag_ne, fun _ => ?_, fun _ _ _ => trivial⟩
    rw [layerKind, if_neg (by omega), Nat.add_sub_cancel_left]
    exact expertMeta_expertBatch hc (hc.expId_lt rfl hid)
  · have hc := carries_entries_of_aligned (b := (⟨tensor, metaC⟩ : TokenBatch W R))
      (h.attention htag) h.rows
    refine ⟨(⟨tensor, metaC⟩ : TokenBatch W R).entries .attention, h.first, fun _ hl => ?_,
      fun hexp => absurd hexp htag, fun _ _ _ => trivial⟩
    rw [layerKind, if_pos hl]
    exact ⟨attnMeta_attentionBatch hc, masked_entries _⟩

end Serving

end StreamInfer.Pool
