import StreamInfer.Kv.GpuVisits
import StreamInfer.General.Fallible

/-! What the device manager hands to the attention kernel. Rows and lengths listed for
the batch's own requests give each token the length of its request less one, the slot
at that position and a row that starts with the request's blocks; later layers list
the same rows and lengths. -/

namespace StreamInfer.Kv

open General General.Stateful Batch BatchMetadata Lengths

/-- The entries of one token in the packed metadata. -/
structure PackedToken where
  contextLen : ℤ
  slot : ℤ
  blockTable : List ℤ

def FlashAttentionMetadata.tokens (m : FlashAttentionMetadata) : List PackedToken :=
  (m.contextLensTensor.zip (m.slotMapping.zip m.blockTables)).map fun e => ⟨e.1, e.2.1, e.2.2⟩

/-- The entries belong to a request that holds the listed blocks. -/
structure PackedToken.Own (token : PackedToken) (blocks : List ℕ) : Prop where
  contextLen : token.contextLen + 1 = blocks.length
  slot : ∃ b, blocks.getLast? = some b ∧ token.slot = b
  blockTable : blocks.map Nat.cast <+: token.blockTable

theorem maxSeqLen_ok (lens : List ℕ) :
    ∃ m : ℕ, maxSeqLen (lens.map fun n : ℕ => some (n : ℤ)) = .ok (some (m : ℤ)) ∧
      ∀ n ∈ lens, n ≤ m := by
  cases lens with
  | nil => exact ⟨0, rfl, by simp⟩
  | cons a lens =>
    rw [List.map_cons, maxSeqLen]
    induction lens generalizing a with
    | nil => exact ⟨a, rfl, by simp⟩
    | cons b lens ih =>
      obtain ⟨m, hm, hle⟩ := ih (max a b)
      refine ⟨m, ?_, ?_⟩
      · rw [List.map_cons, List.foldlM_cons]
        rw [Nat.cast_max] at hm
        exact hm
      · have hab := hle (max a b) List.mem_cons_self
        intro n hn
        rcases List.mem_cons.mp hn with rfl | hn
        · exact (le_max_left _ _).trans hab
        · rcases List.mem_cons.mp hn with rfl | hn
          · exact (le_max_right _ _).trans hab
          · exact hle n (List.mem_cons_of_mem _ hn)

namespace GPUBlockManager

variable {W : Type} {g : GPUBlockManager} {tables : AList fun _ : ℤ => List ℕ} {reqIds : List ℤ}
  {batch : ScheduledLens}

/-- A live request: its blocks, its row and the line of that row. -/
structure Served (g : GPUBlockManager) (r : ℤ) (blocks : List ℕ) (row : ℕ) (line : List ℕ) : Prop where
  indice : g.reqToIndice.lookup r = some row
  recorded : g.decodeSeqLens.lookup r = some (blocks.length : ℤ)
  atRow : g.reqToTokenPool.reqToToken[row]? = some line
  isPrefix : blocks <+: line
  ne_nil : blocks ≠ []
  seqLen : g.reqSeqLens[row]? = some (blocks.length : ℤ)

theorem Represents.exists_served (h : Represents g tables) {r : ℤ} (hr : r ∈ tables) :
    ∃ blocks row line, tables.lookup r = some blocks ∧ Served g r blocks row line := by
  obtain ⟨t, ht⟩ := Option.isSome_iff_exists.mp (AList.lookup_isSome.mpr hr)
  obtain ⟨row, hrow, -⟩ := h.holds.live r t ht
  obtain ⟨line, hline, hpre⟩ := hrow.line
  have hpos := h.positive r t.length (by rw [lengths, ht]; rfl)
  refine ⟨t, row, line, ht, hrow.indice, ?_, hline, hpre, ?_, hrow.seqLen (Set.notMem_empty r)⟩
  · rw [h.holds.recorded, ht]
    rfl
  · rintro rfl
    simp at hpos

/-- The column before the length holds the last block. -/
theorem Served.readOne_eq {r : ℤ} {blocks line : List ℕ} {row : ℕ} (h : Served g r blocks row line) :
    g.reqToTokenPool.readOne row ((blocks.length : ℤ) - 1) = .ok (blocks.getLastD 0) := by
  obtain ⟨before, b, rfl⟩ := (List.eq_nil_or_concat' blocks).resolve_left h.ne_nil
  obtain ⟨rest, rfl⟩ := h.isPrefix
  have hcolumn : (((before ++ [b]).length : ℕ) : ℤ) - 1 = (before.length : ℤ) := by
    rw [List.length_append, List.length_singleton]
    omega
  have hlt : before.length < (before ++ [b] ++ rest).length := by
    rw [List.length_append, List.length_append, List.length_singleton]
    omega
  simp only [ReqToTokenPool.readOne, h.atRow, hcolumn, tensorIndex_natCast hlt, Option.bind_some]
  simp

/-- Every request of a batch with its blocks, row and line. -/
theorem Represents.exists_batch (h : Represents g tables) (hlive : ∀ r ∈ reqIds, r ∈ tables) :
    ∃ (blocksOf : ℤ → List ℕ) (rowOf : ℤ → ℕ) (lineOf : ℤ → List ℕ), ∀ r ∈ reqIds,
      tables.lookup r = some (blocksOf r) ∧ Served g r (blocksOf r) (rowOf r) (lineOf r) := by
  have hown : ∀ r, ∃ own : List ℕ × ℕ × List ℕ, r ∈ reqIds →
      tables.lookup r = some own.1 ∧ Served g r own.1 own.2.1 own.2.2 := by
    intro r
    by_cases hr : r ∈ reqIds
    · obtain ⟨blocks, row, line, hb, hs⟩ := h.exists_served (hlive r hr)
      exact ⟨(blocks, row, line), fun _ => ⟨hb, hs⟩⟩
    · exact ⟨([], 0, []), fun hr' => absurd hr' hr⟩
  choose own hown using hown
  exact ⟨fun r => (own r).1, fun r => (own r).2.1, fun r => (own r).2.2, hown⟩

/-! ### Later layers -/

/-- A later layer lists the recorded rows and lengths and changes nothing. -/
theorem Represents.laterLayer (h : Represents g tables) {metaC : BatchMetadata W} {d p : ℕ}
    (hl : metaC.layerId ≠ 0) (hd : metaC.numDecodeTokens = some d)
    (hp : metaC.numPrefillTokens = some p) (hlive : ∀ r ∈ metaC.reqIds, r ∈ tables) :
    ∃ batch, updateBlockTable metaC g = .ok batch g ∧ Scheduled g metaC.reqIds batch := by
  obtain ⟨blocksOf, rowOf, lineOf, hown⟩ := h.exists_batch hlive
  have hindices : metaC.reqIds.map g.reqToIndice.lookup = (metaC.reqIds.map rowOf).map some := by
    rw [List.map_map]
    exact List.map_congr_left fun r hr => (hown r hr).2.indice
  have hrows : rowsOf metaC.reqIds g = .ok (metaC.reqIds.map rowOf) g := by
    rw [rowsOf, get_bind, mapM_valueOf_ok_iff]
    exact ⟨hindices, rfl⟩
  have hread : ((metaC.reqIds.map rowOf).mapM (readAt "req_seq_lens[index]" g.reqSeqLens) :
      GpuM (List ℤ)) g = .ok (metaC.reqIds.map fun r => ((blocksOf r).length : ℤ)) g := by
    refine mapM_valueOf_ok_iff.mpr ⟨?_, rfl⟩
    rw [List.map_map, List.map_map]
    exact List.map_congr_left fun r hr => (hown r hr).2.seqLen
  refine ⟨⟨metaC.reqIds.map g.decodeSeqLens.lookup, metaC.reqIds.map fun r => ((blocksOf r).length : ℤ),
    metaC.reqIds.map rowOf⟩, ?_, hindices, rfl, ?_⟩
  · simp only [updateBlockTable]
    rw [bind_of_ok (valueOf_ok_iff.mpr ⟨hd, rfl⟩), bind_of_ok (valueOf_ok_iff.mpr ⟨hp, rfl⟩),
      if_neg hl, get_bind, bind_of_ok hrows, bind_of_ok hread]
    rfl
  · rw [List.map_map]
    exact List.map_congr_left fun r hr => (hown r hr).2.recorded

/-! ### Packing -/

/-- With the rows and lengths of the batch's own requests every token gets its own
request's context length, slot and blocks. -/
theorem Represents.pack_ok (h : Represents g tables) (metaC : BatchMetadata W)
    (hs : Scheduled g reqIds batch) (hlive : ∀ r ∈ reqIds, r ∈ tables) :
    ∃ m, packFlashAttnMetadata g metaC batch = .ok m ∧
      List.Forall₂ (fun r token => ∃ blocks, tables.lookup r = some blocks ∧ token.Own blocks)
        reqIds m.tokens := by
  obtain ⟨blocksOf, rowOf, lineOf, hown⟩ := h.exists_batch hlive
  have hrows : batch.reqIndices = reqIds.map rowOf := by
    apply List.map_injective_iff.mpr (Option.some_injective ℕ)
    rw [← hs.rows, List.map_map]
    exact List.map_congr_left fun r hr => (hown r hr).2.indice
  have hlens : batch.seqLensTensor = reqIds.map fun r => ((blocksOf r).length : ℤ) := by
    apply List.map_injective_iff.mpr (Option.some_injective ℤ)
    rw [← hs.tensor, hs.lens, List.map_map]
    exact List.map_congr_left fun r hr => (hown r hr).2.recorded
  obtain ⟨m, hmax, hle⟩ := maxSeqLen_ok (reqIds.map fun r => (blocksOf r).length)
  have hmax' : maxSeqLen batch.seqLens = .ok (some (m : ℤ)) := by
    rw [hs.tensor, hlens, List.map_map, ← hmax, List.map_map]
    rfl
  have htable : g.reqToTokenPool.getBlockTable (reqIds.map rowOf) (some (m : ℤ)) =
      .ok (reqIds.map fun r => (lineOf r).take (stopAt (lineOf r).length m)) := by
    rw [ReqToTokenPool.getBlockTable, mapM_eq_ok_iff, List.forall₂_map_left_iff,
      List.forall₂_map_right_iff, List.forall₂_same]
    intro r hr
    rw [(hown r hr).2.atRow]
    rfl
  have hslot : ((reqIds.map rowOf).zip (reqIds.map fun r => ((blocksOf r).length : ℤ) - 1)).mapM
      (fun e => g.reqToTokenPool.readOne e.1 e.2) =
        .ok (reqIds.map fun r => (blocksOf r).getLastD 0) := by
    rw [List.zip_map', mapM_eq_ok_iff, List.forall₂_map_left_iff, List.forall₂_map_right_iff,
      List.forall₂_same]
    exact fun r hr => (hown r hr).2.readOne_eq
  have hcontext : batch.seqLensTensor.map (· - 1) =
      reqIds.map fun r => ((blocksOf r).length : ℤ) - 1 := by
    rw [hlens, List.map_map]
    rfl
  refine ⟨{
    numDecodeTokens := metaC.numDecodeTokens.getD 0 + metaC.numPrefillTokens.getD 0
    slotMapping := (reqIds.map fun r => (blocksOf r).getLastD 0).map Nat.cast
    seqLens := batch.seqLens
    seqLensTensor := batch.seqLensTensor
    maxDecodeSeqLen := some (m : ℤ)
    queryStartLoc := List.range
      (metaC.numDecodeTokens.getD 0 + metaC.numPrefillTokens.getD 0 + 1)
    seqStartLoc := batch.seqLensTensor.scanl (· + ·) 0
    contextLensTensor := reqIds.map fun r => ((blocksOf r).length : ℤ) - 1
    blockTables := (reqIds.map fun r => (lineOf r).take (stopAt (lineOf r).length m)).map
      fun row => row.map Nat.cast }, ?_, ?_⟩
  · rw [packFlashAttnMetadata, hcontext, hmax', hrows]
    simp only [bind, Except.bind, htable, hslot]
    rfl
  · rw [FlashAttentionMetadata.tokens]
    simp only [List.map_map, List.zip_map']
    rw [List.forall₂_map_right_iff, List.forall₂_same]
    intro r hr
    obtain ⟨hblocks, hserved⟩ := hown r hr
    have hlong : (blocksOf r).length ≤ stopAt (lineOf r).length m := by
      have hm := hle _ (List.mem_map_of_mem hr)
      have hline := hserved.isPrefix.length_le
      rw [stopAt, if_pos (Int.natCast_nonneg m), Int.toNat_natCast]
      omega
    refine ⟨blocksOf r, hblocks, ?_, ⟨(blocksOf r).getLastD 0, ?_, rfl⟩, ?_⟩
    · show ((blocksOf r).length : ℤ) - 1 + 1 = _
      omega
    · rw [List.getLastD_eq_getLast?, List.getLast?_eq_some_getLast hserved.ne_nil]
      rfl
    · apply List.IsPrefix.map
      rw [List.prefix_take_iff]
      exact ⟨hserved.isPrefix, hlong⟩

end GPUBlockManager

end StreamInfer.Kv
