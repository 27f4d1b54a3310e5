import StreamInfer.Batch.Entries
import StreamInfer.Pool.UnifiedPool

/-! What goes into a layer comes out of it, in order. A run interleaves adds of
labelled batches and of collected tokens with gets; next to the scheduler we
write down, for each layer, the tokens added and the tokens taken. In every
reached state the added tokens are the taken ones followed by the queued ones,
each with its own row, and a get takes the first of them. -/

namespace StreamInfer.Pool

open General General.Stateful Batch BatchMetadata Relation

variable {W R : Type}

/-! ### Ledgers -/

namespace Traffic

/-- More batch tokens of one layer. -/
def more (c : Contents W R) (i : ℕ) (xs : List (TokenMetadata W × R)) : Contents W R :=
  c.setBatches i (c.batches i ++ xs)

def moreTokens (c : Contents W R) (i : ℕ) (ts : List (TokenTopKInfo R)) : Contents W R :=
  c.setTokens i (c.tokens i ++ ts)

/-- What a layer's ledger says after more tokens came in. -/
theorem balance_more {c added taken : Contents W R} (h : ∀ i, added.batches i = taken.batches i ++ c.batches i)
    (i : ℕ) (xs : List (TokenMetadata W × R)) (j : ℕ) :
    (more added i xs).batches j = taken.batches j ++ (more c i xs).batches j := by
  by_cases hj : j = i
  · subst hj
    simp [more, h j]
  · rw [more, more, Contents.setBatches_of_ne _ hj, Contents.setBatches_of_ne _ hj, h j]

theorem balance_moreTokens {c added taken : Contents W R}
    (h : ∀ i, added.tokens i = taken.tokens i ++ c.tokens i) (i : ℕ) (ts : List (TokenTopKInfo R))
    (j : ℕ) : (moreTokens added i ts).tokens j = taken.tokens j ++ (moreTokens c i ts).tokens j := by
  by_cases hj : j = i
  · subst hj
    simp [moreTokens, h j]
  · rw [moreTokens, moreTokens, Contents.setTokens_of_ne _ hj, Contents.setTokens_of_ne _ hj, h j]

theorem balance_taken {c added taken : Contents W R} (h : ∀ i, added.batches i = taken.batches i ++ c.batches i)
    (i n j : ℕ) : added.batches j = (more taken i ((c.batches i).take n)).batches j ++
      (c.setBatches i ((c.batches i).drop n)).batches j := by
  by_cases hj : j = i
  · subst hj
    simp [more, h j, List.append_assoc]
  · rw [more, Contents.setBatches_of_ne _ hj, Contents.setBatches_of_ne _ hj, h j]

theorem balance_takenTokens {c added taken : Contents W R}
    (h : ∀ i, added.tokens i = taken.tokens i ++ c.tokens i) (i n j : ℕ) :
    added.tokens j = (moreTokens taken i ((c.tokens i).take n)).tokens j ++
      (c.setTokens i ((c.tokens i).drop n)).tokens j := by
  by_cases hj : j = i
  · subst hj
    simp [moreTokens, h j, List.append_assoc]
  · rw [moreTokens, Contents.setTokens_of_ne _ hj, Contents.setTokens_of_ne _ hj, h j]

theorem ne_nil_of_numTokensAt {s : LayerScheduler W R} {i : ℕ} {α : Type} {xs : List α}
    (hn : 0 < s.numTokensAt i) (h : s.numTokensAt i = xs.length) : xs ≠ [] := by
  rintro rfl
  simp [h] at hn

end Traffic

/-! ### Kinds of the pool's layers -/

variable [Zero W]

theorem masked_cut {v : View} (xs : List (TokenMetadata W × R)) (n : ℕ) (h : Masked v xs) :
    Masked v (xs.take n) ∧ Masked v (xs.drop n) :=
  ⟨fun x hx => h x (List.mem_of_mem_take hx), fun x hx => h x (List.mem_of_mem_drop hx)⟩

theorem masked_arrange {v : View} (layerId : ℕ) (xss : List (List (TokenMetadata W × R)))
    (h : ∀ xs ∈ xss, Masked v xs) : Masked v ((BatchKind.attention layerId).arrange xss) := by
  intro x hx
  have hperm : ((BatchKind.attention layerId).arrange xss).Perm xss.flatten :=
    BatchKind.arrangeWith_perm (frontMerge_perm _ _)
  obtain ⟨xs, hxs, hx⟩ := List.mem_flatten.mp (hperm.mem_iff.mp hx)
  exact h xs hxs x hx

/-- Attention layers, then expert layers; entries outside the view are zero. -/
def layerKind (numAttnLayers i : ℕ) : BatchKind W R :=
  if i < numAttnLayers then
    (BatchKind.attention i).restrict (Masked .attention) masked_cut (masked_arrange i)
  else BatchKind.expert (i - numAttnLayers)

def layerView (numAttnLayers i : ℕ) : View := if i < numAttnLayers then .attention else .routing

theorem layerKind_entries {numAttnLayers i : ℕ} {b : TokenBatch W R}
    {xs : List (TokenMetadata W × R)} (h : (layerKind numAttnLayers i).Good b xs) :
    Carries (layerView numAttnLayers i) b xs ∧ b.entries (layerView numAttnLayers i) = xs := by
  unfold layerKind at h
  unfold layerView
  split_ifs at h ⊢ with ha
  · exact ⟨h.1.toCarries, h.1.toCarries.entries_of_masked h.2⟩
  · exact ⟨h.toCarries, h.toCarries.entries_of_masked (masked_routing xs)⟩

namespace LayerScheduler

/-- The tokens of the queued batches with their rows. -/
def queuedEntries (s : LayerScheduler W R) (i : ℕ) : List (TokenMetadata W × R) :=
  (s.queuedBatches i).flatMap fun b => b.entries (layerView s.numAttnLayers i)

variable {s : LayerScheduler W R} {c : Contents W R} {i : ℕ}

theorem Keeps.queuedEntries_eq (h : Keeps (layerKind s.numAttnLayers) s c) (hi : i < s.numLayers)
    (hq : s.layerUsesTokenQueue i = false) :
    s.queuedEntries i = c.batches i ∧ s.numTokensAt i = (c.batches i).length ∧
      ∀ b ∈ s.queuedBatches i, Carries (layerView s.numAttnLayers i) b
        (b.entries (layerView s.numAttnLayers i)) := by
  obtain ⟨l, hl, -, hholds⟩ := h.holds hi hq
  obtain ⟨xss, hall, hflat⟩ := hholds.batches
  have hqueue : s.queuedBatches i = l.batchQueue := by rw [queuedBatches, hl]; rfl
  refine ⟨?_, by rw [numTokensAt, hl]; exact hholds.counter, ?_⟩
  · rw [queuedEntries, hqueue, ← hflat,
      flatMap_eq_of_forall₂ (g := id) hall fun b xs hb => (layerKind_entries hb).2, List.flatMap_id]
  · rw [hqueue]
    refine forall_mem_of_forall₂ hall fun b xs hb => ?_
    rw [(layerKind_entries hb).2]
    exact (layerKind_entries hb).1

end LayerScheduler

/-! ### Runs -/

/-- The scheduler with the tokens added and taken so far. -/
structure Traffic (W R : Type) where
  scheduler : LayerScheduler W R
  added : Contents W R
  taken : Contents W R

namespace Traffic

def start (numAttnLayers numExpertLayers topk : ℕ) (defrag : Option Defrag) : Traffic W R :=
  ⟨LayerScheduler.new numAttnLayers numExpertLayers topk defrag, Contents.empty, Contents.empty⟩

/-- The tokens a get is to take. -/
def firstTaken (t : Traffic W R) (i : ℕ) (tokenThreshold : ℤ) : Contents W R :=
  if t.scheduler.layerUsesTokenQueue i then
    moreTokens t.taken i ((t.scheduler.queuedTokens i).take tokenThreshold.toNat)
  else more t.taken i ((t.scheduler.queuedEntries i).take tokenThreshold.toNat)

/-- The layers hold what was added and not taken. -/
def Balanced (t : Traffic W R) : Prop :=
  ∃ c, LayerScheduler.Keeps (layerKind t.scheduler.numAttnLayers) t.scheduler c ∧
    (∀ i, t.added.batches i = t.taken.batches i ++ c.batches i) ∧
    ∀ i, t.added.tokens i = t.taken.tokens i ++ c.tokens i

variable [Row R]

/-- An add of a batch or of collected tokens, or a get from a layer with tokens. -/
inductive Step (S : ComparatorSort) (t t' : Traffic W R) : Prop
  | attention (tensor : List R) (metaC : BatchMetadata W) (ha : metaC.Aligned .attention)
      (hd : tensor.length = metaC.numTokens) (hl : metaC.layerId < t.scheduler.numAttnLayers)
      (hq : t.scheduler.layerUsesTokenQueue metaC.layerId = false)
      (hok : LayerScheduler.addBatch ⟨tensor, UnifiedPool.attnMeta metaC⟩ t.scheduler =
        .ok ⟨⟩ t'.scheduler)
      (hadded : t'.added = more t.added metaC.layerId
        ((⟨tensor, metaC⟩ : TokenBatch W R).entries .attention))
      (htaken : t'.taken = t.taken)
  | expert (tensor : List R) (metaC : BatchMetadata W) (ha : metaC.Aligned .routing)
      (hd : tensor.length = metaC.numTokens) (hl : metaC.layerId < t.scheduler.numExpertLayers)
      (hid : ∀ e ∈ metaC.expIds, e < maxNumExperts)
      (hok : LayerScheduler.addBatch ⟨tensor, UnifiedPool.expertMeta metaC⟩ t.scheduler =
        .ok ⟨⟩ t'.scheduler)
      (hadded : t'.added = more t.added (t.scheduler.numAttnLayers + metaC.layerId)
        ((⟨tensor, metaC⟩ : TokenBatch W R).entries .routing))
      (htaken : t'.taken = t.taken)
  | tokens (i : ℕ) (ts : List (TokenTopKInfo R)) (hl : i < t.scheduler.numAttnLayers)
      (hq : t.scheduler.layerUsesTokenQueue i = true) (hc : ∀ u ∈ ts, u.count = t.scheduler.topK)
      (hok : LayerScheduler.attnAddTokens i ts t.scheduler = .ok ⟨⟩ t'.scheduler)
      (hadded : t'.added = moreTokens t.added i ts) (htaken : t'.taken = t.taken)
  | get (i : ℕ) (tokenThreshold : ℤ) (b : Option (TokenBatch W R)) (hl : i < t.scheduler.numLayers)
      (hn : 0 < t.scheduler.numTokensAt i) (ht : 1 ≤ tokenThreshold)
      (hok : LayerScheduler.getBatchFromLayerRestricted S i tokenThreshold t.scheduler =
        .ok b t'.scheduler)
      (hadded : t'.added = t.added) (htaken : t'.taken = t.firstTaken i tokenThreshold)

theorem Step.balanced {S : ComparatorSort} {t t' : Traffic W R} (hs : Step S t t') (h : Balanced t) :
    Balanced t' ∧ LayerScheduler.SameShape t.scheduler t'.scheduler := by
  obtain ⟨c, hkeep, hb, ht⟩ := h
  cases hs with
  | attention tensor metaC ha hd hl hq hok hadded htaken =>
    have hcarries := carries_entries_of_aligned (b := ⟨tensor, metaC⟩) ha hd
    have hgood : (layerKind t.scheduler.numAttnLayers metaC.layerId).Good
        ⟨tensor, UnifiedPool.attnMeta metaC⟩
        ((⟨tensor, metaC⟩ : TokenBatch W R).entries .attention) := by
      rw [layerKind, if_pos hl]
      exact ⟨UnifiedPool.attnMeta_attentionBatch hcarries, masked_entries _⟩
    obtain ⟨s', hok', hshape, -, hkeep'⟩ := hkeep.addBatch_attention hl hq hgood rfl rfl
    obtain rfl : s' = t'.scheduler := by simpa [hok] using hok'.symm
    refine ⟨⟨_, hshape.numAttnLayers ▸ hkeep', ?_, ?_⟩, hshape⟩
    · rw [hadded, htaken]
      exact balance_more hb _ _
    · rw [hadded, htaken]
      exact ht
  | expert tensor metaC ha hd hl hid hok hadded htaken =>
    have hcarries := carries_entries_of_aligned (b := ⟨tensor, metaC⟩) ha hd
    have hgood : (layerKind t.scheduler.numAttnLayers (t.scheduler.numAttnLayers + metaC.layerId)).Good
        ⟨tensor, UnifiedPool.expertMeta metaC⟩
        ((⟨tensor, metaC⟩ : TokenBatch W R).entries .routing) := by
      rw [layerKind, if_neg (by omega), Nat.add_sub_cancel_left]
      exact UnifiedPool.expertMeta_expertBatch hcarries (hcarries.expId_lt rfl hid)
    obtain ⟨s', hok', hshape, -, hkeep'⟩ := hkeep.addBatch_expert hl hgood rfl rfl
    obtain rfl : s' = t'.scheduler := by simpa [hok] using hok'.symm
    refine ⟨⟨more c (t.scheduler.numAttnLayers + metaC.layerId) _,
      by rw [hshape.numAttnLayers]; exact hkeep', ?_, ?_⟩, hshape⟩
    · rw [hadded, htaken]
      exact balance_more hb _ _
    · rw [hadded, htaken]
      exact ht
  | tokens i ts hl hq hc hok hadded htaken =>
    obtain ⟨s', hok', hshape, -, hkeep'⟩ := hkeep.attnAddTokens hl hq hc
    obtain rfl : s' = t'.scheduler := by simpa [hok] using hok'.symm
    refine ⟨⟨_, hshape.numAttnLayers ▸ hkeep', ?_, ?_⟩, hshape⟩
    · rw [hadded, htaken]
      exact hb
    · rw [hadded, htaken]
      exact balance_moreTokens ht _ _
  | get i tokenThreshold b hl hn hthr hok hadded htaken =>
    cases hq : t.scheduler.layerUsesTokenQueue i with
    | false =>
      obtain ⟨hentries, hcount, -⟩ := hkeep.queuedEntries_eq hl hq
      obtain ⟨b', ys, s', hok', -, -, hshape, -, hkeep'⟩ :=
        hkeep.getBatches S hl hq (ne_nil_of_numTokensAt hn hcount) hthr
      obtain ⟨rfl, rfl⟩ : b = some b' ∧ t'.scheduler = s' := by simpa [hok] using hok'
      refine ⟨⟨_, hshape.numAttnLayers ▸ hkeep', ?_, ?_⟩, hshape⟩
      · rw [hadded, htaken, firstTaken, if_neg (by simp [hq]), hentries]
        exact balance_taken hb _ _
      · rw [hadded, htaken, firstTaken, if_neg (by simp [hq])]
        exact ht
    | true =>
      obtain ⟨htokens, hcount⟩ := hkeep.queuedTokens_eq hl hq
      obtain ⟨b', s', hok', -, -, -, hshape, -, hkeep'⟩ :=
        hkeep.getTokens S hl hq (ne_nil_of_numTokensAt hn hcount) hthr
      obtain ⟨rfl, rfl⟩ : b = some b' ∧ t'.scheduler = s' := by simpa [hok] using hok'
      refine ⟨⟨_, hshape.numAttnLayers ▸ hkeep', ?_, ?_⟩, hshape⟩
      · rw [hadded, htaken, firstTaken, if_pos hq]
        exact hb
      · rw [hadded, htaken, firstTaken, if_pos hq, htokens]
        exact balance_takenTokens ht _ _

/-- The batch of two new requests. -/
def newRequests : BatchMetadata ℕ where
  batchTag := .tokenizer
  shape := (2, 1)
  dtype := "bfloat16"
  layerId := 0
  reqIds := [7, 8]
  expIds := [0, 0]
  topkWeights := [1, 1]
  attnDpRanks := [0, 0]
  initPrefillLens := [5, 6]

end Traffic

end StreamInfer.Pool
