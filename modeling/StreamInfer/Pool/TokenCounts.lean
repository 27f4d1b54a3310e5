import StreamInfer.Pool.Contents

/-! The counters of the layers over calls with any arguments. A call that returns leaves
every counter at least the tokens of the queue that its layer is drained from, so no count
is ever negative; it changes neither the number of layers nor the policy. -/

namespace StreamInfer.Pool

open General General.Stateful Batch

variable {W R : Type}

namespace UnifiedLayer

/-- The tokens of the batches of a queue. -/
def batchTokens (queue : List (TokenBatch W R)) : ℕ := (queue.map (·.metadata.numTokens)).sum

/-- The queue that the layer is drained from has no more tokens than the counter. -/
def Counts (usesTokens : Bool) (l : UnifiedLayer W R) : Prop :=
  (if usesTokens then (l.tokenQueue.length : ℤ) else batchTokens l.batchQueue) ≤ l.numTokens

variable {l l' : UnifiedLayer W R} {u : Bool}

theorem counts_create (layerId : ℕ) : Counts u (create layerId : UnifiedLayer W R) := by
  cases u <;> exact le_rfl

theorem Counts.nonneg (h : Counts u l) : 0 ≤ l.numTokens := by
  cases u <;> exact (Int.natCast_nonneg _).trans h

theorem Counts.addBatch (h : Counts u l) (batch : TokenBatch W R) :
    ∃ l', UnifiedLayer.addBatch batch l = .ok ⟨⟩ l' ∧ Counts u l' := by
  refine ⟨_, rfl, ?_⟩
  cases u with
  | true =>
    have h : (l.tokenQueue.length : ℤ) ≤ l.numTokens := h
    change (l.tokenQueue.length : ℤ) ≤ l.numTokens + batch.metadata.numTokens
    omega
  | false =>
    have h : (batchTokens l.batchQueue : ℤ) ≤ l.numTokens := h
    change ((batchTokens (l.batchQueue ++ [batch]) : ℕ) : ℤ) ≤ l.numTokens + batch.metadata.numTokens
    simp only [batchTokens, List.map_append, List.sum_append, List.map_cons, List.map_nil,
      List.sum_singleton] at h ⊢
    omega

theorem Counts.addTokens (h : Counts u l) (tokens : List (TokenTopKInfo R)) :
    ∃ l', UnifiedLayer.addTokens tokens l = .ok ⟨⟩ l' ∧ Counts u l' := by
  refine ⟨_, rfl, ?_⟩
  cases u with
  | true =>
    have h : (l.tokenQueue.length : ℤ) ≤ l.numTokens := h
    change ((l.tokenQueue ++ tokens).length : ℤ) ≤ l.numTokens + tokens.length
    rw [List.length_append]
    omega
  | false =>
    have h : (batchTokens l.batchQueue : ℤ) ≤ l.numTokens := h
    change (batchTokens l.batchQueue : ℤ) ≤ l.numTokens + tokens.length
    omega

/-- What the loop takes leaves the queue, and nothing else changes. -/
theorem takeBatches_counts {tokenThreshold total : ℤ} {queue : List (TokenBatch W R)}
    {res : List (TokenBatch W R) × ℤ} (hl : l.batchQueue = queue)
    (h : takeBatches tokenThreshold queue total l = .ok res l') :
    l'.numTokens = l.numTokens ∧ l'.tokenQueue = l.tokenQueue ∧
      res.2 - total + batchTokens l'.batchQueue = batchTokens queue := by
  induction queue generalizing l total res with
  | nil =>
    obtain ⟨rfl, rfl⟩ := pure_ok_iff.mp h
    simp [hl]
  | cons firstBatch queue ih =>
    have hsum : batchTokens (firstBatch :: queue) = firstBatch.metadata.numTokens + batchTokens queue :=
      List.sum_cons
    rw [takeBatches] at h
    split_ifs at h with hlt hcut
    · -- the cut batch leaves its tail at the front
      dsimp only at h
      cases hsplit : firstBatch.splitWithSizes [(tokenThreshold - total).toNat,
          firstBatch.metadata.numTokens - (tokenThreshold - total).toNat] with
      | error e => simp [hsplit] at h
      | ok bs =>
        obtain ⟨-, first, second, -, hfirst, hsecond, rfl⟩ := splitWithSizes_two_iff.mp hsplit
        simp only [hsplit, bind_ok_iff, setBatchQueue, modify_ok_iff, pure_ok_iff] at h
        obtain ⟨_, t, rfl, rfl, rfl⟩ := h
        refine ⟨rfl, rfl, ?_⟩
        have htail : ∀ tail : List R, batchTokens (⟨tail, second⟩ :: queue) =
            second.numTokens + batchTokens queue := fun _ => List.sum_cons
        dsimp only
        rw [htail, hsum, hfirst, hsecond]
        omega
    · simp only [bind_ok_iff, setBatchQueue, modify_ok_iff, pure_ok_iff] at h
      obtain ⟨_, t, rfl, rest, t', hrest, rfl, rfl⟩ := h
      obtain ⟨hnum, htok, hsum'⟩ := ih rfl hrest
      refine ⟨hnum, htok, ?_⟩
      dsimp only at hsum' ⊢
      rw [hsum]
      omega
    · obtain ⟨rfl, rfl⟩ := pure_ok_iff.mp h
      rw [hl]
      simp

theorem counts_getAllBatches {bs : List (TokenBatch W R)}
    (hget : UnifiedLayer.getAllBatches l = .ok bs l') : Counts false l' := by
  cases hget
  exact le_rfl

theorem counts_getAllTokens {ts : List (TokenTopKInfo R)}
    (hget : UnifiedLayer.getAllTokens l = .ok ts l') : Counts true l' := by
  cases hget
  exact le_rfl

theorem Counts.getTokensRestricted (h : Counts true l) {tokenThreshold : ℤ} {ts : List (TokenTopKInfo R)}
    (hget : UnifiedLayer.getTokensRestricted tokenThreshold l = .ok ts l') : Counts true l' := by
  cases hget
  have h : (l.tokenQueue.length : ℤ) ≤ l.numTokens := h
  change ((l.tokenQueue.drop tokenThreshold.toNat).length : ℤ) ≤
    l.numTokens - (l.tokenQueue.take tokenThreshold.toNat).length
  rw [List.length_drop, List.length_take]
  omega

theorem Counts.getBatchesRestricted (h : Counts false l) {tokenThreshold : ℤ}
    {bs : List (TokenBatch W R)}
    (hget : UnifiedLayer.getBatchesRestricted tokenThreshold l = .ok bs l') : Counts false l' := by
  rw [UnifiedLayer.getBatchesRestricted, get_bind, bind_ok_iff] at hget
  obtain ⟨⟨result, total⟩, t, htake, hget⟩ := hget
  obtain ⟨hnum, -, hsum⟩ := takeBatches_counts rfl htake
  simp only [bind_ok_iff, modify_ok_iff] at hget
  obtain ⟨_, t', rfl, hget⟩ := hget
  have h : (batchTokens l.batchQueue : ℤ) ≤ l.numTokens := h
  have hcounts : Counts false { t with numTokens := t.numTokens - total } := by
    change ((batchTokens t.batchQueue : ℕ) : ℤ) ≤ t.numTokens - total
    dsimp only at hsum
    omega
  split_ifs at hget with hsome
  · obtain ⟨-, rfl⟩ := pure_ok_iff.mp hget
    exact hcounts
  · rw [get_bind] at hget
    split_ifs at hget <;> exact absurd hget throw_ne_ok

end UnifiedLayer

namespace LayerScheduler

variable {s s' : LayerScheduler W R}

/-- The layers are there, and each counts its queue. -/
structure Counts (s : LayerScheduler W R) : Prop where
  length : s.layers.length = s.numLayers
  layer : ∀ (i : ℕ) (l : UnifiedLayer W R), s.layers[i]? = some l → l.Counts (s.layerUsesTokenQueue i)

theorem Counts.numTokensAt_nonneg (h : Counts s) (i : ℕ) : 0 ≤ s.numTokensAt i := by
  unfold numTokensAt
  cases hl : s.layers[i]? with
  | none => exact le_rfl
  | some l => exact (h.layer i l hl).nonneg

theorem counts_new (numAttnLayers numExpertLayers topk : ℕ) (defrag : Option Defrag) :
    Counts (new numAttnLayers numExpertLayers topk defrag : LayerScheduler W R) where
  length := by simp [new, numLayers]
  layer i l hl := by
    have hmem : l ∈ (List.range numAttnLayers).map UnifiedLayer.create ++
        (List.range numExpertLayers).map UnifiedLayer.create := List.mem_of_getElem? hl
    rw [← List.map_append] at hmem
    obtain ⟨id, -, rfl⟩ := List.mem_map.mp hmem
    exact UnifiedLayer.counts_create id

/-- Calls that add and take tokens. -/
inductive QueueCall [Zero W] [Row R] (S : ComparatorSort) : LayerScheduler W R → LayerScheduler W R → Prop
  | addBatch {s s' : LayerScheduler W R} {batch : TokenBatch W R}
      (h : LayerScheduler.addBatch batch s = .ok ⟨⟩ s') : QueueCall S s s'
  | attnAddTokens {s s' : LayerScheduler W R} {layerId : ℕ} {tokens : List (TokenTopKInfo R)}
      (h : LayerScheduler.attnAddTokens layerId tokens s = .ok ⟨⟩ s') : QueueCall S s s'
  | getBatchFromLayer {s s' : LayerScheduler W R} {layerId : ℤ} {b : Option (TokenBatch W R)}
      (h : LayerScheduler.getBatchFromLayer S layerId s = .ok b s') : QueueCall S s s'
  | getBatchFromLayerRestricted {s s' : LayerScheduler W R} {layerId tokenThreshold : ℤ}
      {b : Option (TokenBatch W R)}
      (h : LayerScheduler.getBatchFromLayerRestricted S layerId tokenThreshold s = .ok b s') :
      QueueCall S s s'

/-- Only the queues and counters differ. -/
structure SameSettings (s s' : LayerScheduler W R) : Prop extends SameShape s s' where
  defrag : s'.defrag = s.defrag

theorem SameSettings.refl (s : LayerScheduler W R) : SameSettings s s := ⟨.refl s, rfl⟩

/-- An operation of one layer that keeps its count keeps all of them. -/
theorem Counts.onLayer {α : Type} {x : UnifiedLayer.LayerM W R α} {a : α} {i : ℕ} (h : Counts s)
    (hx : ∀ l l', l.Counts (s.layerUsesTokenQueue i) → x l = .ok a l' → l'.Counts (s.layerUsesTokenQueue i))
    (hrun : LayerScheduler.onLayer i x s = .ok a s') : Counts s' ∧ SameSettings s s' := by
  unfold LayerScheduler.onLayer at hrun
  cases hl : s.layers[i]? with
  | none => simp [hl] at hrun
  | some l =>
    cases hxl : x l with
    | error e l' => simp [hl, hxl] at hrun
    | ok b l' =>
      simp only [hl, hxl, EStateM.Result.ok.injEq] at hrun
      obtain ⟨rfl, rfl⟩ := hrun
      refine ⟨⟨?_, fun j lj hj => ?_⟩, ⟨⟨rfl, rfl, rfl, rfl⟩, rfl⟩⟩
      · change (s.layers.set i l').length = s.numLayers
        rw [List.length_set, h.length]
      · change (s.layers.set i l')[j]? = some lj at hj
        change lj.Counts (s.layerUsesTokenQueue j)
        rw [List.getElem?_set] at hj
        split_ifs at hj with hij hlt
        · subst hij
          obtain rfl := Option.some.inj hj
          exact hx l l' (h.layer i l hl) hxl
        · exact h.layer j lj hj

theorem Counts.onAttnLayer {α : Type} {x : UnifiedLayer.LayerM W R α} {a : α} {i : ℕ} (h : Counts s)
    (hx : ∀ u l l', UnifiedLayer.Counts u l → x l = .ok a l' → l'.Counts u)
    (hrun : LayerScheduler.onAttnLayer i x s = .ok a s') : Counts s' ∧ SameSettings s s' := by
  rw [LayerScheduler.onAttnLayer, get_bind] at hrun
  split_ifs at hrun
  · exact h.onLayer (hx _) hrun
  · exact absurd hrun throw_ne_ok

theorem Counts.onExpertLayer {α : Type} {x : UnifiedLayer.LayerM W R α} {a : α} {i : ℕ} (h : Counts s)
    (hx : ∀ u l l', UnifiedLayer.Counts u l → x l = .ok a l' → l'.Counts u)
    (hrun : LayerScheduler.onExpertLayer i x s = .ok a s') : Counts s' ∧ SameSettings s s' := by
  rw [LayerScheduler.onExpertLayer, get_bind] at hrun
  split_ifs at hrun
  · exact h.onLayer (hx _) hrun
  · exact absurd hrun throw_ne_ok

theorem returned_ok {σ α : Type} {x : Except Fault α} {t t' : σ} {a : α}
    (h : returned x t = .ok a t') : t' = t := by
  cases x with
  | ok b => exact (pure_ok_iff.mp h).2
  | error e => exact absurd h throw_ne_ok

variable [Zero W] [Row R] {S : ComparatorSort}

theorem Counts.queueCall (h : Counts s) (hcall : QueueCall S s s') : Counts s' ∧ SameSettings s s' := by
  have hadd : ∀ (batch : TokenBatch W R) u l l', UnifiedLayer.Counts u l →
      UnifiedLayer.addBatch batch l = .ok ⟨⟩ l' → l'.Counts u := by
    intro batch u l l' hl hrun
    obtain ⟨l'', hrun', hl''⟩ := hl.addBatch batch
    rw [hrun] at hrun'
    simp only [EStateM.Result.ok.injEq, true_and] at hrun'
    exact hrun' ▸ hl''
  cases hcall with
  | addBatch hrun =>
    rw [LayerScheduler.addBatch] at hrun
    split_ifs at hrun
    · exact h.onAttnLayer (hadd _) hrun
    · exact h.onExpertLayer (hadd _) hrun
    · exact absurd hrun throw_ne_ok
  | attnAddTokens hrun =>
    refine h.onAttnLayer (fun u l l' hl hadd => ?_) hrun
    obtain ⟨l'', hrun', hl''⟩ := hl.addTokens _
    rw [hadd] at hrun'
    simp only [EStateM.Result.ok.injEq, true_and] at hrun'
    exact hrun' ▸ hl''
  | @getBatchFromLayer layerId b hrun =>
    rw [LayerScheduler.getBatchFromLayer, get_bind] at hrun
    split_ifs at hrun with hrange htokens
    · obtain ⟨-, rfl⟩ := pure_ok_iff.mp hrun
      exact ⟨h, .refl _⟩
    · have hid : ((layerId.toNat : ℕ) : ℤ) = layerId := by omega
      simp only [bind_ok_iff, pure_ok_iff] at hrun
      obtain ⟨ts, t, hget, b', t', hpack, -, rfl⟩ := hrun
      obtain rfl := returned_ok hpack
      refine h.onLayer (fun l l' _ hl => ?_) hget
      rw [hid, htokens]
      exact UnifiedLayer.counts_getAllTokens hl
    · have hid : ((layerId.toNat : ℕ) : ℤ) = layerId := by omega
      simp only [bind_ok_iff] at hrun
      obtain ⟨bs, t, hget, hmerge⟩ := hrun
      obtain rfl := returned_ok hmerge
      refine h.onLayer (fun l l' _ hl => ?_) hget
      rw [hid, Bool.eq_false_of_not_eq_true htokens]
      exact UnifiedLayer.counts_getAllBatches hl
  | @getBatchFromLayerRestricted layerId tokenThreshold b hrun =>
    rw [LayerScheduler.getBatchFromLayerRestricted, get_bind] at hrun
    split_ifs at hrun with hrange htokens
    · obtain ⟨-, rfl⟩ := pure_ok_iff.mp hrun
      exact ⟨h, .refl _⟩
    · have hid : ((layerId.toNat : ℕ) : ℤ) = layerId := by omega
      simp only [bind_ok_iff, pure_ok_iff] at hrun
      obtain ⟨ts, t, hget, b', t', hpack, -, rfl⟩ := hrun
      obtain rfl := returned_ok hpack
      refine h.onLayer (fun l l' hcounts hl => ?_) hget
      rw [hid, htokens] at hcounts ⊢
      exact hcounts.getTokensRestricted hl
    · have hid : ((layerId.toNat : ℕ) : ℤ) = layerId := by omega
      simp only [bind_ok_iff] at hrun
      obtain ⟨bs, t, hget, hmerge⟩ := hrun
      obtain rfl := returned_ok hmerge
      refine h.onLayer (fun l l' hcounts hl => ?_) hget
      rw [hid, Bool.eq_false_of_not_eq_true htokens] at hcounts ⊢
      exact hcounts.getBatchesRestricted hl

end LayerScheduler

end StreamInfer.Pool
