import StreamInfer.Batch.Rows

/-! The tokens of a batch read off its columns and rows, index by index. Columns
that a view does not look at are read as zero, so a batch that carries tokens
determines them. -/

namespace StreamInfer.Batch

variable {W R : Type} [Zero W] {v : View}

/-- The fields that a view looks at. -/
def TokenMetadata.mask (v : View) (t : TokenMetadata W) : TokenMetadata W :=
  { t with
    expId := if v.routed then t.expId else 0
    attnDpRank := if v.ranked then t.attnDpRank else 0
    topkWeight := if v.routed then t.topkWeight else 0 }

/-- The columns at one index. -/
def BatchMetadata.entry (v : View) (m : BatchMetadata W) (i : ℕ) : TokenMetadata W :=
  TokenMetadata.mask v
    { reqId := m.reqIds.getD i 0
      expId := m.expIds.getD i 0
      attnDpRank := m.attnDpRanks.getD i 0
      initPrefillLen := m.initPrefillLens.getD i 0
      topkWeight := m.topkWeights.getD i 0 }

/-- The rows of a batch with their columns. -/
def TokenBatch.entries (v : View) (b : TokenBatch W R) : List (TokenMetadata W × R) :=
  b.data.zipIdx.map fun p => (b.metadata.entry v p.2, p.1)

/-- No field outside the view is set. -/
def Masked (v : View) (xs : List (TokenMetadata W × R)) : Prop := ∀ x ∈ xs, x.1.mask v = x.1

@[simp] theorem TokenMetadata.mask_mask (t : TokenMetadata W) : (t.mask v).mask v = t.mask v := by
  simp only [TokenMetadata.mask]
  split_ifs <;> rfl

theorem TokenMetadata.mask_routing (t : TokenMetadata W) : t.mask .routing = t := rfl

theorem masked_routing (xs : List (TokenMetadata W × R)) : Masked .routing xs := fun _ _ => rfl

theorem masked_entries (b : TokenBatch W R) : Masked v (b.entries v) := by
  intro x hx
  obtain ⟨p, -, rfl⟩ := List.mem_map.mp hx
  exact TokenMetadata.mask_mask _

theorem BatchMetadata.Lists.mask {m : BatchMetadata W} {ts : List (TokenMetadata W)}
    (h : m.Lists v ts) : m.Lists v (ts.map (·.mask v)) where
  numTokens := by rw [h.numTokens, List.length_map]
  reqIds := by rw [h.reqIds, List.map_map]; rfl
  initPrefillLens := by rw [h.initPrefillLens, List.map_map]; rfl
  attnDpRanks x := by
    rw [h.attnDpRanks x, List.map_map]
    exact List.map_congr_left fun t _ => by simp [TokenMetadata.mask, x]
  expIds x := by
    rw [h.expIds x, List.map_map]
    exact List.map_congr_left fun t _ => by simp [TokenMetadata.mask, x]
  topkWeights x := by
    rw [h.topkWeights x, List.map_map]
    exact List.map_congr_left fun t _ => by simp [TokenMetadata.mask, x]

theorem BatchMetadata.Lists.entry_eq {m : BatchMetadata W} {ts : List (TokenMetadata W)}
    (h : m.Lists v ts) {i : ℕ} (hi : i < ts.length) : m.entry v i = ts[i].mask v := by
  have hr : v.ranked = true → m.attnDpRanks.getD i 0 = ts[i].attnDpRank := fun x => by
    simp [h.attnDpRanks x, hi]
  have he : v.routed = true → m.expIds.getD i 0 = ts[i].expId := fun x => by
    simp [h.expIds x, hi]
  have hw : v.routed = true → m.topkWeights.getD i 0 = ts[i].topkWeight := fun x => by
    simp [h.topkWeights x, hi]
  have hq : m.reqIds.getD i 0 = ts[i].reqId := by simp [h.reqIds, hi]
  have hp : m.initPrefillLens.getD i 0 = ts[i].initPrefillLen := by simp [h.initPrefillLens, hi]
  rw [BatchMetadata.entry, hq, hp]
  simp only [TokenMetadata.mask]
  split_ifs with x y y
  · rw [hr y, he x, hw x]
  · rw [he x, hw x]
  · rw [hr y]
  · rfl

/-- A batch that carries tokens carries its entries, which are these tokens. -/
theorem Carries.entries_eq {b : TokenBatch W R} {xs : List (TokenMetadata W × R)}
    (h : Carries v b xs) : b.entries v = xs.map fun x => (x.1.mask v, x.2) := by
  apply List.ext_getElem
  · simp [TokenBatch.entries, h.data]
  · intro i h₁ h₂
    have hi : i < xs.length := by simpa using h₂
    have hentry := h.lists.entry_eq (i := i) (by simpa using hi)
    rw [List.getElem_map] at hentry
    simp [TokenBatch.entries, h.data, hentry]

theorem Carries.entries_of_masked {b : TokenBatch W R} {xs : List (TokenMetadata W × R)}
    (h : Carries v b xs) (hm : Masked v xs) : b.entries v = xs := by
  rw [h.entries_eq]
  conv_rhs => rw [← List.map_id xs]
  exact List.map_congr_left fun x hx => by rw [hm x hx]; rfl

theorem Carries.carries_entries {b : TokenBatch W R} {xs : List (TokenMetadata W × R)}
    (h : Carries v b xs) : Carries v b (b.entries v) := by
  rw [h.entries_eq]
  refine ⟨?_, by rw [h.data, List.map_map]; rfl⟩
  have hmask := h.lists.mask
  rw [List.map_map] at hmask ⊢
  exact hmask

/-- Aligned columns and rows carry the entries. -/
theorem carries_entries_of_aligned {b : TokenBatch W R} (h : b.metadata.Aligned v)
    (hd : b.data.length = b.metadata.numTokens) : Carries v b (b.entries v) := by
  obtain ⟨ts, hts⟩ := h.exists_lists
  obtain ⟨xs, -, hxs⟩ := exists_carries hts hd
  exact hxs.carries_entries

end StreamInfer.Batch
