import StreamInfer.Pool.LayerScheduler

/-! The tokens in a scheduler's layers. `Keeps K s c` says that each layer holds
the tokens that `c` gives it: queued tokens in the layers with a token queue,
tokens of batches of kind `K i` in the others. Adding appends, a get takes from
the front, and no other layer changes. -/

namespace StreamInfer.Pool

open General General.Stateful Batch

variable {W R : Type}

/-- Tokens of every layer, by index: those in batches and those in token queues. -/
structure Contents (W R : Type) where
  batches : ℕ → List (TokenMetadata W × R)
  tokens : ℕ → List (TokenTopKInfo R)

namespace Contents

def empty : Contents W R := ⟨fun _ => [], fun _ => []⟩

def setBatches (c : Contents W R) (i : ℕ) (xs : List (TokenMetadata W × R)) : Contents W R :=
  { c with batches := Function.update c.batches i xs }

def setTokens (c : Contents W R) (i : ℕ) (ts : List (TokenTopKInfo R)) : Contents W R :=
  { c with tokens := Function.update c.tokens i ts }

@[simp] theorem setBatches_self (c : Contents W R) (i : ℕ) (xs : List (TokenMetadata W × R)) :
    (c.setBatches i xs).batches i = xs := Function.update_self _ _ _

@[simp] theorem setTokens_self (c : Contents W R) (i : ℕ) (ts : List (TokenTopKInfo R)) :
    (c.setTokens i ts).tokens i = ts := Function.update_self _ _ _

@[simp] theorem setBatches_tokens (c : Contents W R) (i : ℕ) (xs : List (TokenMetadata W × R)) :
    (c.setBatches i xs).tokens = c.tokens := rfl

@[simp] theorem setTokens_batches (c : Contents W R) (i : ℕ) (ts : List (TokenTopKInfo R)) :
    (c.setTokens i ts).batches = c.batches := rfl

theorem setBatches_of_ne (c : Contents W R) {i j : ℕ} (h : j ≠ i)
    (xs : List (TokenMetadata W × R)) : (c.setBatches i xs).batches j = c.batches j :=
  Function.update_of_ne h _ _

theorem setTokens_of_ne (c : Contents W R) {i j : ℕ} (h : j ≠ i) (ts : List (TokenTopKInfo R)) :
    (c.setTokens i ts).tokens j = c.tokens j := Function.update_of_ne h _ _

end Contents

namespace LayerScheduler

/-- The layer's id under its index. -/
def layerIdAt (s : LayerScheduler W R) (i : ℕ) : ℕ :=
  if i < s.numAttnLayers then i else i - s.numAttnLayers

/-- The parameters of the scheduler, which no queue operation changes. -/
structure SameShape (s s' : LayerScheduler W R) : Prop where
  numAttnLayers : s'.numAttnLayers = s.numAttnLayers
  numExpertLayers : s'.numExpertLayers = s.numExpertLayers
  topK : s'.topK = s.topK
  attnUseTokenQueue : s'.attnUseTokenQueue = s.attnUseTokenQueue

namespace SameShape

variable {s s' s'' : LayerScheduler W R}

theorem refl (s : LayerScheduler W R) : SameShape s s := ⟨rfl, rfl, rfl, rfl⟩

theorem trans (h : SameShape s s') (h' : SameShape s' s'') : SameShape s s'' :=
  ⟨h'.1.trans h.1, h'.2.trans h.2, h'.3.trans h.3, h'.4.trans h.4⟩

theorem numLayers (h : SameShape s s') : s'.numLayers = s.numLayers := by
  rw [LayerScheduler.numLayers, LayerScheduler.numLayers, h.numAttnLayers, h.numExpertLayers]

theorem layerUsesTokenQueue (h : SameShape s s') (i : ℤ) :
    s'.layerUsesTokenQueue i = s.layerUsesTokenQueue i := by
  rw [LayerScheduler.layerUsesTokenQueue, LayerScheduler.layerUsesTokenQueue, isAttnLayer,
    isAttnLayer, h.numAttnLayers, h.attnUseTokenQueue]

end SameShape

section Keeps

variable [Zero W]

/-- The tokens of one layer. -/
def LayerKeeps (K : ℕ → BatchKind W R) (s : LayerScheduler W R) (c : Contents W R) (i : ℕ)
    (l : UnifiedLayer W R) : Prop :=
  l.layerId = s.layerIdAt i ∧
    if s.layerUsesTokenQueue i then l.HoldsTokens s.topK (c.tokens i) else l.Holds (K i) (c.batches i)

/-- The layers hold the tokens of `c`. -/
structure Keeps (K : ℕ → BatchKind W R) (s : LayerScheduler W R) (c : Contents W R) : Prop where
  length : s.layers.length = s.numLayers
  topK : 0 < s.topK
  layer : ∀ i < s.numLayers, ∃ l, s.layers[i]? = some l ∧ LayerKeeps K s c i l

variable {K : ℕ → BatchKind W R} {s : LayerScheduler W R} {c c' : Contents W R} {i : ℕ}

theorem keeps_new (K : ℕ → BatchKind W R) (numAttnLayers numExpertLayers topk : ℕ)
    (defrag : Option Defrag) :
    Keeps K (new numAttnLayers numExpertLayers topk defrag : LayerScheduler W R) Contents.empty where
  length := by simp [new, numLayers]
  topK := by
    simp only [new]
    split_ifs with h
    · exact h
    · exact Nat.one_pos
  layer i hi := by
    have hl : i < numAttnLayers + numExpertLayers := hi
    refine ⟨UnifiedLayer.create (if i < numAttnLayers then i else i - numAttnLayers), ?_, rfl, ?_⟩
    · simp only [new]
      split_ifs with ha
      · rw [List.getElem?_append_left (by simpa using ha)]
        simp [ha]
      · rw [List.getElem?_append_right (by simpa using ha)]
        simp only [List.length_map, List.length_range, List.getElem?_map]
        rw [List.getElem?_range (by omega)]
        rfl
    · by_cases hq : (new numAttnLayers numExpertLayers topk defrag :
          LayerScheduler W R).layerUsesTokenQueue i = true
      · rw [if_pos hq]
        exact UnifiedLayer.holdsTokens_create _ _
      · rw [if_neg hq]
        exact UnifiedLayer.holds_create (K := K i) _

/-- Changing one layer and its tokens. -/
theorem Keeps.set (h : Keeps K s c) {l : UnifiedLayer W R} (hl : LayerKeeps K s c' i l)
    (hb : ∀ j ≠ i, c'.batches j = c.batches j) (ht : ∀ j ≠ i, c'.tokens j = c.tokens j) :
    Keeps K { s with layers := s.layers.set i l } c' := by
  refine ⟨by rw [List.length_set]; exact h.length, h.topK, fun j hj => ?_⟩
  obtain ⟨lj, hlj, hkeep⟩ := h.layer j hj
  by_cases hji : j = i
  · subst hji
    refine ⟨l, ?_, hl⟩
    rw [List.getElem?_set_self (List.getElem?_eq_some_iff.mp hlj).1]
  · refine ⟨lj, ?_, hkeep.1, ?_⟩
    · rw [List.getElem?_set_ne (Ne.symm hji), hlj]
    · change if s.layerUsesTokenQueue j then _ else _
      rw [hb j hji, ht j hji]
      exact hkeep.2

omit [Zero W] in
theorem onLayer_ok {α : Type} {x : UnifiedLayer.LayerM W R α} {l l' : UnifiedLayer W R} {a : α}
    (hl : s.layers[i]? = some l) (hx : x l = .ok a l') :
    onLayer i x s = .ok a { s with layers := s.layers.set i l' } := by
  simp only [onLayer, hl, hx]

theorem Keeps.holds (h : Keeps K s c) (hi : i < s.numLayers)
    (hq : s.layerUsesTokenQueue i = false) :
    ∃ l, s.layers[i]? = some l ∧ l.layerId = s.layerIdAt i ∧ l.Holds (K i) (c.batches i) := by
  obtain ⟨l, hl, hid, hkeep⟩ := h.layer i hi
  rw [hq] at hkeep
  exact ⟨l, hl, hid, hkeep⟩

theorem Keeps.holdsTokens (h : Keeps K s c) (hi : i < s.numLayers)
    (hq : s.layerUsesTokenQueue i = true) :
    ∃ l, s.layers[i]? = some l ∧ l.layerId = s.layerIdAt i ∧ l.HoldsTokens s.topK (c.tokens i) := by
  obtain ⟨l, hl, hid, hkeep⟩ := h.layer i hi
  rw [hq] at hkeep
  exact ⟨l, hl, hid, hkeep⟩

/-! ### What is queued -/

def queuedBatches (s : LayerScheduler W R) (i : ℕ) : List (TokenBatch W R) :=
  (s.layers[i]?).elim [] (·.batchQueue)

def queuedTokens (s : LayerScheduler W R) (i : ℕ) : List (TokenTopKInfo R) :=
  (s.layers[i]?).elim [] (·.tokenQueue)

/-- The tokens of a layer, counted in its queues. -/
def held (s : LayerScheduler W R) (i : ℕ) : ℕ :=
  ((s.queuedBatches i).map (·.metadata.numTokens)).sum + (s.queuedTokens i).length

theorem Keeps.queuedTokens_eq {K : ℕ → BatchKind W R} (h : Keeps K s c) (hi : i < s.numLayers)
    (hq : s.layerUsesTokenQueue i = true) :
    s.queuedTokens i = c.tokens i ∧ s.numTokensAt i = (c.tokens i).length := by
  obtain ⟨l, hl, -, hholds⟩ := h.holdsTokens hi hq
  exact ⟨by rw [queuedTokens, hl]; exact hholds.tokens, by rw [numTokensAt, hl]; exact hholds.counter⟩

theorem sum_numTokens {K : BatchKind W R} {bs : List (TokenBatch W R)}
    {xss : List (List (TokenMetadata W × R))} (h : List.Forall₂ K.Good bs xss) :
    (bs.map (·.metadata.numTokens)).sum = xss.flatten.length := by
  induction h with
  | nil => rfl
  | cons hb _ ih => simp [K.numTokens hb, ih]

theorem Keeps.held_eq (h : Keeps K s c) (hi : i < s.numLayers) :
    s.held i = if s.layerUsesTokenQueue i then (c.tokens i).length else (c.batches i).length := by
  cases hq : s.layerUsesTokenQueue i with
  | false =>
    obtain ⟨l, hl, -, hholds⟩ := h.holds hi hq
    obtain ⟨xss, hall, hflat⟩ := hholds.batches
    simp [held, queuedBatches, queuedTokens, hl, hholds.noTokens, sum_numTokens hall, ← hflat]
  | true =>
    obtain ⟨l, hl, -, hholds⟩ := h.holdsTokens hi hq
    simp [held, queuedBatches, queuedTokens, hl, hholds.noBatches, hholds.tokens]

/-- The counter of a layer counts its queues. -/
theorem Keeps.numTokensAt_eq (h : Keeps K s c) (hi : i < s.numLayers) :
    s.numTokensAt i = s.held i := by
  rw [h.held_eq hi, numTokensAt]
  cases hq : s.layerUsesTokenQueue i with
  | false =>
    obtain ⟨l, hl, -, hholds⟩ := h.holds hi hq
    rw [hl]
    exact hholds.counter
  | true =>
    obtain ⟨l, hl, -, hholds⟩ := h.holdsTokens hi hq
    rw [hl]
    exact hholds.counter

/-! ### Adding -/

theorem Keeps.addToLayer (h : Keeps K s c) (hi : i < s.numLayers)
    (hq : s.layerUsesTokenQueue i = false) {b : TokenBatch W R} {ys : List (TokenMetadata W × R)}
    (hb : (K i).Good b ys) :
    ∃ s', onLayer i (UnifiedLayer.addBatch b) s = .ok ⟨⟩ s' ∧ SameShape s s' ∧
      s'.defrag = s.defrag ∧ Keeps K s' (c.setBatches i (c.batches i ++ ys)) := by
  obtain ⟨l, hl, hid, hholds⟩ := h.holds hi hq
  obtain ⟨l', hok, hholds'⟩ := hholds.addBatch hb
  have hid' : l'.layerId = l.layerId := by cases hok; rfl
  refine ⟨_, onLayer_ok hl hok, ⟨rfl, rfl, rfl, rfl⟩, rfl, h.set ⟨hid'.trans hid, ?_⟩
    (fun j hj => Contents.setBatches_of_ne _ hj _) fun j hj => rfl⟩
  rw [if_neg (by simp [hq]), Contents.setBatches_self]
  exact hholds'

/-- An attention batch goes to the end of its layer. -/
theorem Keeps.addBatch_attention (h : Keeps K s c) (hi : i < s.numAttnLayers)
    (hq : s.layerUsesTokenQueue i = false) {b : TokenBatch W R} {ys : List (TokenMetadata W × R)}
    (hb : (K i).Good b ys) (htag : b.metadata.batchTag = .attention) (hlayer : b.metadata.layerId = i) :
    ∃ s', addBatch b s = .ok ⟨⟩ s' ∧ SameShape s s' ∧ s'.defrag = s.defrag ∧
      Keeps K s' (c.setBatches i (c.batches i ++ ys)) := by
  have hn : i < s.numLayers := Nat.lt_add_right _ hi
  have hadd : addBatch b s = onLayer i (UnifiedLayer.addBatch b) s := by
    rw [addBatch, if_pos (by simp [BatchMetadata.isAttention, htag]), hlayer, onAttnLayer, get_bind,
      if_pos hi]
  rw [hadd]
  exact h.addToLayer hn hq hb

omit [Zero W] in
theorem layerUsesTokenQueue_expert (s : LayerScheduler W R) (i : ℕ) :
    s.layerUsesTokenQueue (s.numAttnLayers + i : ℕ) = false := by
  simp [layerUsesTokenQueue, isAttnLayer]

/-- An expert batch goes to the end of its layer. -/
theorem Keeps.addBatch_expert (h : Keeps K s c) (hi : i < s.numExpertLayers) {b : TokenBatch W R}
    {ys : List (TokenMetadata W × R)} (hb : (K (s.numAttnLayers + i)).Good b ys)
    (htag : b.metadata.batchTag = .expert) (hlayer : b.metadata.layerId = i) :
    ∃ s', addBatch b s = .ok ⟨⟩ s' ∧ SameShape s s' ∧ s'.defrag = s.defrag ∧
      Keeps K s' (c.setBatches (s.numAttnLayers + i) (c.batches (s.numAttnLayers + i) ++ ys)) := by
  have hadd : addBatch b s = onLayer (s.numAttnLayers + i) (UnifiedLayer.addBatch b) s := by
    rw [addBatch, if_neg (by simp [BatchMetadata.isAttention, htag]),
      if_pos (by simp [BatchMetadata.isExpert, htag]), hlayer, onExpertLayer, get_bind, if_pos hi]
  rw [hadd]
  exact h.addToLayer (Nat.add_lt_add_left hi _) (s.layerUsesTokenQueue_expert i) hb

theorem Keeps.attnAddTokens (h : Keeps K s c) (hi : i < s.numAttnLayers)
    (hq : s.layerUsesTokenQueue i = true) {us : List (TokenTopKInfo R)}
    (hc : ∀ t ∈ us, t.count = s.topK) :
    ∃ s', attnAddTokens i us s = .ok ⟨⟩ s' ∧ SameShape s s' ∧ s'.defrag = s.defrag ∧
      Keeps K s' (c.setTokens i (c.tokens i ++ us)) := by
  obtain ⟨l, hl, hid, hholds⟩ := h.holdsTokens (Nat.lt_add_right _ hi) hq
  obtain ⟨l', hok, hholds'⟩ := hholds.addTokens hc
  have hid' : l'.layerId = l.layerId := by cases hok; rfl
  refine ⟨{ s with layers := s.layers.set i l' }, ?_, ⟨rfl, rfl, rfl, rfl⟩, rfl,
    h.set ⟨hid'.trans hid, ?_⟩ (fun j hj => rfl) fun j hj => Contents.setTokens_of_ne _ hj _⟩
  · rw [LayerScheduler.attnAddTokens, onAttnLayer, get_bind, if_pos hi]
    exact onLayer_ok hl hok
  · rw [if_pos hq, Contents.setTokens_self]
    exact hholds'

/-! ### Gets -/

variable [Row R]

theorem getBatchFromLayerRestricted_eq (S : ComparatorSort) (hi : i < s.numLayers)
    (hq : s.layerUsesTokenQueue i = false) (tokenThreshold : ℤ) :
    getBatchFromLayerRestricted S i tokenThreshold s =
      (do let batches ← onLayer i (UnifiedLayer.getBatchesRestricted tokenThreshold)
          returned (TokenBatch.merge batches) : SchedulerM W R _) s := by
  have hrange : ¬ ((i : ℤ) < 0 ∨ (i : ℤ) ≥ ((s.numAttnLayers + s.numExpertLayers : ℕ) : ℤ)) := by
    have : i < s.numAttnLayers + s.numExpertLayers := hi
    omega
  rw [getBatchFromLayerRestricted, get_bind, if_neg hrange, if_neg (by simp [hq])]
  rfl

/-- A get from a layer of batches delivers its first tokens, arranged. -/
theorem Keeps.getBatches (h : Keeps K s c) (S : ComparatorSort) (hi : i < s.numLayers)
    (hq : s.layerUsesTokenQueue i = false) (hne : c.batches i ≠ []) {tokenThreshold : ℤ}
    (ht : 1 ≤ tokenThreshold) :
    ∃ b ys s', getBatchFromLayerRestricted S i tokenThreshold s = .ok (some b) s' ∧
      (K i).Good b ys ∧ ys.Perm ((c.batches i).take tokenThreshold.toNat) ∧ SameShape s s' ∧
      s'.defrag = s.defrag ∧
      Keeps K s' (c.setBatches i ((c.batches i).drop tokenThreshold.toNat)) := by
  obtain ⟨l, hl, hid, hholds⟩ := h.holds hi hq
  obtain ⟨bs, yss, l', hok, hbne, hbs, htake, hholds', hid'⟩ := hholds.getBatchesRestricted hne ht
  obtain ⟨b, hmerge, hb⟩ := (K i).merges hbne hbs
  refine ⟨b, _, { s with layers := s.layers.set i l' }, ?_, hb, htake ▸ (K i).arrange_perm hbs,
    ⟨rfl, rfl, rfl, rfl⟩, rfl, h.set ⟨hid'.trans hid, ?_⟩
    (fun j hj => Contents.setBatches_of_ne _ hj _) fun j hj => rfl⟩
  · rw [getBatchFromLayerRestricted_eq S hi hq, bind_of_ok (onLayer_ok hl hok), hmerge]
    rfl
  · rw [if_neg (by simp [hq]), Contents.setBatches_self]
    exact hholds'

/-- A get from a layer of tokens packs its first tokens. -/
theorem Keeps.getTokens (h : Keeps K s c) (S : ComparatorSort) (hi : i < s.numLayers)
    (hq : s.layerUsesTokenQueue i = true) (hne : c.tokens i ≠ []) {tokenThreshold : ℤ}
    (ht : 1 ≤ tokenThreshold) :
    ∃ b s', getBatchFromLayerRestricted S i tokenThreshold s = .ok (some b) s' ∧
      b.metadata.batchTag = .attention ∧ b.metadata.layerId = i ∧
      (∃ ys, List.Forall₂ Summed
          (S.sort TokenTopKInfo.before ((c.tokens i).take tokenThreshold.toNat)) ys ∧
        Carries .returning b ys ∧ CarriesAttention b ys) ∧ SameShape s s' ∧
      s'.defrag = s.defrag ∧
      Keeps K s' (c.setTokens i ((c.tokens i).drop tokenThreshold.toNat)) := by
  obtain ⟨l, hl, hid, hholds⟩ := h.holdsTokens hi hq
  obtain ⟨l', hok, hholds', hid'⟩ := hholds.getTokensRestricted tokenThreshold
  have htne : (c.tokens i).take tokenThreshold.toNat ≠ [] := by
    have := List.length_pos_iff.mpr hne
    rw [← List.length_pos_iff, List.length_take]
    omega
  obtain ⟨b, hpack, htag, hlayer, hys⟩ := packTopkTokens_carries (W := W) S i htne h.topK
    fun t ht => hholds.counts t (List.mem_of_mem_take ht)
  have hrange : ¬ ((i : ℤ) < 0 ∨ (i : ℤ) ≥ ((s.numAttnLayers + s.numExpertLayers : ℕ) : ℤ)) := by
    have : i < s.numAttnLayers + s.numExpertLayers := hi
    omega
  refine ⟨b, { s with layers := s.layers.set i l' }, ?_, htag, hlayer, hys, ⟨rfl, rfl, rfl, rfl⟩, rfl,
    h.set ⟨hid'.trans hid, ?_⟩ (fun j hj => rfl) fun j hj => Contents.setTokens_of_ne _ hj _⟩
  · rw [getBatchFromLayerRestricted, get_bind, if_neg hrange, if_pos hq, Int.toNat_natCast,
      bind_of_ok (onLayer_ok hl hok), hpack]
    rfl
  · rw [if_pos hq, Contents.setTokens_self]
    exact hholds'

end Keeps

end LayerScheduler

end StreamInfer.Pool
