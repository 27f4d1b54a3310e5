import StreamInfer.Pool.Locking

/-! When a get that fails leaves the scheduler usable. A restricted get takes whole
batches while they fit in the threshold and cuts the next one; it fails under the mutex
when nothing fits or when the cut fails. Merging and packing fail after the drain, so
that the scheduler is as before only when no token was taken. A threshold that is not
positive lets nothing fit, where the interface says that it restricts nothing. -/

namespace StreamInfer.Pool

open General General.Stateful Batch

variable {W R : Type}

/-! ### What a threshold reaches -/

namespace UnifiedLayer

variable {l l' : UnifiedLayer W R}

theorem getTokensRestricted_nonpos {tokenThreshold : ℤ} (ht : tokenThreshold ≤ 0) :
    ∃ l', getTokensRestricted tokenThreshold l = .ok [] l' := by
  have hzero : tokenThreshold.toNat = 0 := by omega
  unfold getTokensRestricted
  rw [hzero]
  exact ⟨_, rfl⟩

theorem getBatchesRestricted_nonpos {tokenThreshold : ℤ} (ht : tokenThreshold ≤ 0) :
    ∃ e l', getBatchesRestricted tokenThreshold l = .error e l' := by
  have hnone : takeBatches tokenThreshold l.batchQueue 0 l = .ok ([], 0) l := by
    cases l.batchQueue with
    | nil => rfl
    | cons b queue =>
      rw [takeBatches, if_neg (by omega)]
      rfl
  have hcounter : (modify fun l => { l with numTokens := l.numTokens - 0 } : LayerM W R PUnit) l =
      .ok ⟨⟩ { l with numTokens := l.numTokens - 0 } := rfl
  rw [getBatchesRestricted, get_bind, bind_of_ok hnone]
  dsimp only
  rw [bind_of_ok hcounter, if_neg (by simp), get_bind]
  split_ifs <;> exact ⟨_, _, rfl⟩

end UnifiedLayer

/-! ### Failing gets -/

namespace LockedScheduler

variable [Zero W] [Row R] {m : LockedScheduler W R}

/-- A scheduler with one attention layer that holds a batch of one token. -/
def oneQueued : LockedScheduler ℕ (List ℕ) where
  scheduler := { (LayerScheduler.new 1 0 1 none : LayerScheduler ℕ (List ℕ)) with
    layers := [{
      layerId := 0
      numTokens := 1
      batchQueue := [⟨[[3]], {
        batchTag := .attention
        shape := (1, 1)
        dtype := "bf16"
        layerId := 0
        reqIds := [7]
        expIds := []
        topkWeights := []
        attnDpRanks := []
        initPrefillLens := [4]
        numPrefillSeqs := some 1
        numPrefillTokens := some 1
        numDecodeTokens := some 0 }⟩]
      tokenQueue := [] }] }
  held := false

end LockedScheduler

/-! ### Thresholds that are not positive -/

namespace LayerScheduler

variable [Zero W] [Row R]

/-- The restricted get hands out the batch of the unrestricted one and leaves its state,
in which the layer is empty. -/
def SameAsUnrestricted (S : ComparatorSort) (s : LayerScheduler W R) (i : ℕ) (tokenThreshold : ℤ) :
    Prop :=
  ∃ b s', getBatchFromLayer S i s = .ok b s' ∧
    getBatchFromLayerRestricted S i tokenThreshold s = .ok b s' ∧ s'.held i = 0

variable {K : ℕ → BatchKind W R} {s : LayerScheduler W R} {c : Contents W R} {i : ℕ}

omit [Zero W] [Row R] in
theorem inRange (hi : i < s.numLayers) : ¬ ((i : ℤ) < 0 ∨
    (i : ℤ) ≥ ((s.numAttnLayers + s.numExpertLayers : ℕ) : ℤ)) := by
  have : i < s.numAttnLayers + s.numExpertLayers := hi
  omega

/-- The unrestricted get delivers all tokens of a layer. -/
theorem Keeps.getBatchFromLayer (h : Keeps K s c) (S : ComparatorSort) (hi : i < s.numLayers)
    (hheld : 0 < s.held i) :
    ∃ b s', LayerScheduler.getBatchFromLayer S i s = .ok (some b) s' ∧
      b.metadata.numTokens = s.held i ∧ s'.held i = 0 := by
  have hcount := h.held_eq hi
  have hempty : ∀ {l : UnifiedLayer W R}, s.layers[i]? = some l → ∀ {l' : UnifiedLayer W R},
      l'.batchQueue = [] → l'.tokenQueue = [] →
      ({ s with layers := s.layers.set i l' } : LayerScheduler W R).held i = 0 := by
    intro l hl l' hb ht
    have hget : (s.layers.set i l')[i]? = some l' :=
      List.getElem?_set_self (List.getElem?_eq_some_iff.mp hl).1
    simp [held, queuedBatches, queuedTokens, hget, hb, ht]
  rw [LayerScheduler.getBatchFromLayer, get_bind, if_neg (inRange hi)]
  cases hq : s.layerUsesTokenQueue i with
  | false =>
    rw [hq] at hcount
    obtain ⟨l, hl, -, hholds⟩ := h.holds hi hq
    obtain ⟨xss, hall, hflat⟩ := hholds.batches
    have hne : l.batchQueue ≠ [] := by
      intro hnil
      rw [hnil, List.forall₂_nil_left_iff] at hall
      rw [← hflat, hall] at hcount
      exact hheld.ne' hcount
    obtain ⟨b, hmerge, hb⟩ := (K i).merges hne hall
    have hnum : b.metadata.numTokens = s.held i := by
      rw [(K i).numTokens hb, ((K i).arrange_perm hall).length_eq, hflat, hcount]
      rfl
    have hall : UnifiedLayer.getAllBatches l = .ok l.batchQueue { l with
      batchQueue := []
      numTokens := 0 } := rfl
    refine ⟨b, { s with layers := s.layers.set i { l with
      batchQueue := []
      numTokens := 0 } }, ?_, hnum, hempty hl rfl hholds.noTokens⟩
    rw [if_neg (by simp), Int.toNat_natCast, bind_of_ok (onLayer_ok hl hall), hmerge]
    rfl
  | true =>
    rw [hq] at hcount
    obtain ⟨l, hl, -, hholds⟩ := h.holdsTokens hi hq
    have hne : l.tokenQueue ≠ [] := by
      intro hnil
      rw [← hholds.tokens, hnil] at hcount
      exact hheld.ne' hcount
    obtain ⟨b, hpack, -, -, ys, hs, hr, -⟩ := packTopkTokens_carries (W := W) S i hne h.topK
      fun t ht => hholds.counts t (hholds.tokens ▸ ht)
    have hnum : b.metadata.numTokens = s.held i := by
      rw [hr.numTokens, ← hs.length_eq, (S.perm _ _).length_eq, hholds.tokens, hcount]
      rfl
    have hall : UnifiedLayer.getAllTokens l = .ok l.tokenQueue { l with
      tokenQueue := []
      numTokens := 0 } := rfl
    refine ⟨b, { s with layers := s.layers.set i { l with
      tokenQueue := []
      numTokens := 0 } }, ?_, hnum, hempty hl hholds.noBatches rfl⟩
    rw [if_pos rfl, Int.toNat_natCast, bind_of_ok (onLayer_ok hl hall), hpack]
    rfl

/-- Nothing fits in a threshold that is not positive. -/
theorem restricted_fails (S : ComparatorSort) (hlen : s.layers.length = s.numLayers)
    (hi : i < s.numLayers) {tokenThreshold : ℤ} (ht : tokenThreshold ≤ 0) :
    ∃ e s', getBatchFromLayerRestricted S i tokenThreshold s = .error e s' := by
  have hl : s.layers[i]? = some s.layers[i] := List.getElem?_eq_getElem (by omega)
  rw [getBatchFromLayerRestricted, get_bind, if_neg (inRange hi), Int.toNat_natCast]
  split_ifs
  · obtain ⟨l', hok⟩ := UnifiedLayer.getTokensRestricted_nonpos (l := s.layers[i]) ht
    rw [bind_of_ok (onLayer_ok hl hok)]
    cases hpack : TokenBatch.packTopkTokens (W := W) (R := R) S i [] with
    | error e => exact ⟨_, _, rfl⟩
    | ok b =>
      obtain ⟨first, hfirst, -⟩ :=
        (TokenBatch.packTopkTokens_ok_iff (W := W) (R := R)).mp ⟨b, hpack⟩
      rw [(S.perm TokenTopKInfo.before []).eq_nil] at hfirst
      exact absurd hfirst (by simp)
  · obtain ⟨e, l', herr⟩ := UnifiedLayer.getBatchesRestricted_nonpos (l := s.layers[i]) ht
    have hlayer : onLayer i (UnifiedLayer.getBatchesRestricted tokenThreshold) s =
        .error e { s with layers := s.layers.set i l' } := by
      simp only [onLayer, hl, herr]
    rw [bind_of_error hlayer]
    exact ⟨_, _, rfl⟩

/-- For no layer and no threshold that is not positive, the restricted get does what the
unrestricted one does. -/
theorem nonpos_threshold_not_unrestricted (S : ComparatorSort)
    (hlen : s.layers.length = s.numLayers) (hi : i < s.numLayers) {tokenThreshold : ℤ}
    (ht : tokenThreshold ≤ 0) : ¬ SameAsUnrestricted S s i tokenThreshold := by
  rintro ⟨b, s', -, hok, -⟩
  obtain ⟨e, s'', herr⟩ := restricted_fails S hlen hi ht
  rw [herr] at hok
  exact absurd hok nofun

/-- The only layer of a scheduler holds a token. -/
theorem nonpos_threshold_oneQueued :
    ¬ SameAsUnrestricted .insertion LockedScheduler.oneQueued.scheduler 0 (-1) :=
  nonpos_threshold_not_unrestricted .insertion rfl (by decide) (by decide)

/-- There, the default threshold takes nothing of the token that is queued. -/
theorem default_threshold_restricts :
    LockedScheduler.oneQueued.scheduler.held 0 = 1 ∧
      ¬ SameAsUnrestricted .insertion LockedScheduler.oneQueued.scheduler 0 (-1) := by
  refine ⟨rfl, ?_⟩
  rintro ⟨b, s', -, hok, -⟩
  obtain ⟨e, s'', herr⟩ := restricted_fails .insertion (s := LockedScheduler.oneQueued.scheduler)
    rfl (show 0 < 1 by decide) (show (-1 : ℤ) ≤ 0 by decide)
  exact absurd (hok.symm.trans herr) nofun

end LayerScheduler

end StreamInfer.Pool
