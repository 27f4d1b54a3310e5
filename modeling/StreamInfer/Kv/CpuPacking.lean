import StreamInfer.Kv.PackingPaths

/-! What the CPU block manager hands to the attention kernel for the batches it serves. At
block size 1 a slot is a block, so the entries of a token are those of its request's own
table. -/

namespace StreamInfer.Kv

open General General.Stateful Batch BatchMetadata Lengths

/-- New buffers; `torch.empty` may hold anything. -/
def BatchTensorBuffer.create (maxBatchSize maxNumPages : ℕ) : BatchTensorBuffer where
  blockTable := List.replicate (maxBatchSize * maxNumPages) 0
  slotMapping := List.replicate maxBatchSize 0
  seqLens := List.replicate maxBatchSize 0
  contextLens := List.replicate maxBatchSize 0
  seqStartLoc := List.replicate (maxBatchSize + 1) 0
  queryStartLoc := List.range (maxBatchSize + 1)

theorem BatchTensorBuffer.sized_create (maxBatchSize maxNumPages : ℕ) :
    (create maxBatchSize maxNumPages).Sized maxBatchSize maxNumPages where
  blockTable := List.length_replicate
  slotMapping := List.length_replicate
  seqLens := List.length_replicate
  contextLens := List.length_replicate
  seqStartLoc := List.length_replicate
  queryStartLoc := rfl

namespace CPUBlockManager

variable {W : Type}

/-- The plain way, which reads of the buffers the query locations only. -/
def packFlashAttnMetadata (c : CPUBlockManager) (metaC : BatchMetadata W) (seqLens : List ℤ) :
    Except Fault FlashAttentionMetadata := do
  let numTokens := metaC.numDecodeTokens.getD 0 + metaC.numPrefillTokens.getD 0
  let packed ← packFlashAttnMetadataNaive false c metaC seqLens (.create numTokens 0)
  return packed.2

variable {c : CPUBlockManager} {len : Lengths} {metaC : BatchMetadata W} {seqLens : List ℤ}

/-- A batch of requests that the manager serves is live. -/
theorem Serves.liveBatch (h : Serves c len) (hblock : 0 < c.blockMgr.blockSize)
    (hpos : 0 < metaC.numTokens) (hq : metaC.reqIds.length = metaC.numTokens)
    (htokens : metaC.numDecodeTokens.getD 0 + metaC.numPrefillTokens.getD 0 = metaC.numTokens)
    (hseqs : metaC.numPrefillSeqs.getD 0 + metaC.numDecodeTokens.getD 0 = metaC.numTokens)
    (hlens : List.Forall₂ (BlockManager.Recorded len) metaC.reqIds seqLens) :
    LiveBatch c metaC seqLens := by
  refine ⟨hblock, hpos, hq, htokens, hseqs, hlens.imp fun r l hr => ?_⟩
  obtain ⟨q, hlen, rfl⟩ := hr
  obtain ⟨t, ht, htable⟩ := h.tracks.exists_table hlen
  refine ⟨t, q, ht, rfl, ?_⟩
  rw [htable, Nat.ceilDiv_eq_add_pred_div, Nat.div_lt_iff_lt_mul hblock]
  have := Nat.lt_div_mul_add hblock (a := q + 1 + c.blockMgr.blockSize - 1)
  omega

/-- At block size 1 every token gets its own request's context length, slot and
blocks. -/
theorem Serves.pack_ok (h : Serves c len) (hb : c.blockMgr.blockSize = 1)
    (hq : metaC.reqIds.length = metaC.numTokens) (hpos : 0 < metaC.numTokens) {k d : ℕ}
    (hk : metaC.numPrefillSeqs = some k) (hp : metaC.numPrefillTokens = some k)
    (hd : metaC.numDecodeTokens = some d) (hn : k + d = metaC.numTokens)
    (hlens : List.Forall₂ (BlockManager.Recorded len) metaC.reqIds seqLens) :
    ∃ m, packFlashAttnMetadata c metaC seqLens = .ok m ∧
      List.Forall₂ (fun r token => ∃ blocks, c.blockMgr.blockTables.lookup r = some blocks ∧
        token.Own blocks) metaC.reqIds m.tokens := by
  have hlive : LiveBatch c metaC seqLens := by
    refine h.liveBatch (hb.symm ▸ Nat.one_pos) hpos hq ?_ ?_ hlens
    · rw [hd, hp, Option.getD_some, Option.getD_some, Nat.add_comm, hn]
    · rw [hd, hk, Option.getD_some, Option.getD_some, hn]
  obtain ⟨lists, hlists⟩ := hlive.exists_lists
  obtain ⟨longest, hmax⟩ := hlive.exists_maxSeqLen
  have hplain := packFlashAttnMetadataNaive_plain_ok hlive (hlive.prepared hlists) le_rfl hmax
    (BatchTensorBuffer.sized_create metaC.numTokens 0)
  refine ⟨packed c.blockMgr.blockSize lists seqLens longest, ?_, ?_⟩
  · rw [packFlashAttnMetadata, hlive.tokens, hplain]
    rfl
  set n : ℤ → ℕ := fun r => (len r).getD 0 with hndef
  set tableOf : ℤ → List ℕ := fun r => (c.blockMgr.blockTables.lookup r).getD [] with htdef
  have hown : ∀ r ∈ metaC.reqIds, ∃ q, n r = q + 1 ∧
      c.blockMgr.blockTables.lookup r = some (tableOf r) ∧ (tableOf r).length = q + 1 := by
    intro r hr
    obtain ⟨i, hi, rfl⟩ := List.mem_iff_getElem.mp hr
    obtain ⟨q, hlen, -⟩ := hlens.get hi (hlens.length_eq ▸ hi)
    rw [List.get_eq_getElem] at hlen
    obtain ⟨t, ht, htl⟩ := h.tracks.exists_table hlen
    rw [hb, Nat.ceilDiv_eq_add_pred_div, Nat.div_one] at htl
    have htable : tableOf metaC.reqIds[i] = t := by simp [htdef, ht]
    exact ⟨q, by simp [hndef, hlen], htable ▸ ht, by rw [htable]; omega⟩
  have hseq : seqLens = metaC.reqIds.map fun r => (n r : ℤ) := by
    refine eq_map_of_forall₂ (fun r l hr => ?_) hlens
    obtain ⟨q, hlen, rfl⟩ := hr
    simp [hndef, hlen]
  have htables : lists = metaC.reqIds.map tableOf := by
    refine eq_map_of_forall₂ (fun r t ht => ?_) hlists
    simp [htdef, ht]
  simp only [FlashAttentionMetadata.tokens, packed, lastSlots, hb, htables, hseq, List.map_map,
    List.zip_map']
  rw [List.forall₂_map_right_iff, List.forall₂_same]
  intro r hr
  obtain ⟨q, hn, ht, htl⟩ := hown r hr
  have hlt : q < (tableOf r).length := by omega
  refine ⟨tableOf r, ht, ?_, ⟨(tableOf r)[q], ?_, ?_⟩, List.prefix_append _ _⟩
  · show (n r : ℤ) - 1 + 1 = _
    rw [htl, hn]
    omega
  · rw [List.getLast?_eq_getElem?, htl, Nat.add_sub_cancel, List.getElem?_eq_getElem hlt]
  · show lastSlot 1 (tableOf r) (n r) = _
    have hlast : ((n r : ℤ) - 1).toNat = q := by omega
    rw [lastSlot, hlast, Nat.div_one, Nat.mod_one, Nat.mul_one, Nat.add_zero,
      List.getD_eq_getElem?_getD, List.getElem?_eq_getElem hlt, Option.getD_some]

end CPUBlockManager

end StreamInfer.Kv
