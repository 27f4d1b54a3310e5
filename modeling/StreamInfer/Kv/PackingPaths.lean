import StreamInfer.Kv.Runs
import StreamInfer.Kv.GpuPacking

/-! The three ways the CPU block manager packs a batch: five staging buffers written by
the host and seen through views, the same buffers sliced, and one tensor for the tables
and one for the lengths, cut apart. A staging buffer keeps what an earlier batch left
behind the part that is written, and each way looks at that part only; so all three hand
the same arrays to the attention kernel. -/

namespace StreamInfer.Kv

open General General.Stateful Batch BatchMetadata Lengths

/-- `tensor.view(num_rows, -1)`. -/
def view (numRows : ℕ) (tensor : List ℤ) : Except Fault (List (List ℤ)) :=
  if 0 < numRows ∧ numRows ∣ tensor.length then
    .ok ((List.replicate numRows (tensor.length / numRows)).splitLengths tensor)
  else .error (.assertion "shape is valid for input")

theorem splitLengths_flatMap {α : Type} (f : α → List ℤ) {w : ℕ} {as : List α}
    (h : ∀ a ∈ as, (f a).length = w) :
    (List.replicate as.length w).splitLengths (as.flatMap f) = as.map f := by
  induction as with
  | nil => rfl
  | cons a as ih =>
    have ha : (f a).length = w := h a List.mem_cons_self
    rw [List.length_cons, List.replicate_succ, List.splitLengths_cons, List.flatMap_cons,
      List.take_left' ha, List.drop_left' ha, ih fun b hb => h b (List.mem_cons_of_mem _ hb),
      List.map_cons]

theorem view_flatMap {α : Type} (f : α → List ℤ) {w : ℕ} {as : List α} (hpos : 0 < as.length)
    (h : ∀ a ∈ as, (f a).length = w) : view as.length (as.flatMap f) = .ok (as.map f) := by
  have hlen := length_flatMap_uniform f w as h
  rw [view, if_pos ⟨hpos, by rw [hlen]; exact dvd_mul_right _ _⟩, hlen,
    Nat.mul_div_cancel_left _ hpos, splitLengths_flatMap f h]

structure BatchTensorBuffer where
  blockTable : List ℤ
  slotMapping : List ℤ
  seqLens : List ℤ
  contextLens : List ℤ
  seqStartLoc : List ℤ
  /-- Filled once, with `arange`. -/
  queryStartLoc : List ℕ

/-- The buffers of a block manager, with any contents. -/
structure BatchTensorBuffer.Sized (buf : BatchTensorBuffer) (maxBatchSize maxNumPages : ℕ) : Prop where
  blockTable : buf.blockTable.length = maxBatchSize * maxNumPages
  slotMapping : buf.slotMapping.length = maxBatchSize
  seqLens : buf.seqLens.length = maxBatchSize
  contextLens : buf.contextLens.length = maxBatchSize
  seqStartLoc : buf.seqStartLoc.length = maxBatchSize + 1
  queryStartLoc : buf.queryStartLoc = List.range (maxBatchSize + 1)

/-- `GdrContext::copy_from_host`: the front of the buffer is written. -/
def copyFromHost (buf src : List ℤ) : Except Fault (List ℤ) :=
  if src = [] then .error (.assertion "GdrContext::copy_from_host: src == nullptr")
  else if buf.length < src.length then .error (.assertion "GdrContext::copy_from_host overflow")
  else .ok (src ++ buf.drop src.length)

/-- `rebind_1d_tensor`, at offset 0. -/
def rebind1dTensor {α : Type} (base : List α) (length : ℕ) : Except Fault (List α) :=
  if length ≤ base.length then .ok (base.take length) else .error (.outOfRange "base.storage()")

/-- One element of a storage. -/
def storageAt (base : List ℤ) (k : ℕ) : Except Fault ℤ :=
  match base[k]? with
  | some x => .ok x
  | none => .error (.outOfRange "base.storage()")

/-- `rebind_2d_tensor`, at offset 0. -/
def rebind2dTensor (base : List ℤ) (rows cols rowStride colStride : ℕ) : Except Fault (List (List ℤ)) :=
  (List.range rows).mapM fun i => (List.range cols).mapM fun j =>
    storageAt base (i * rowStride + j * colStride)

/-- Lengths, context lengths and start locations. -/
def BlockManager.prepareSeqInfo {W : Type} (metaC : BatchMetadata W) (decodeSeqLens : List ℤ) :
    Except Fault (List ℤ) :=
  if metaC.numTokens ≤ decodeSeqLens.length then
    let seqLens := decodeSeqLens.take metaC.numTokens
    .ok (seqLens ++ seqLens.map (· - 1) ++ seqLens.scanl (· + ·) 0)
  else .error (.outOfRange "decode_seq_lens[i]")

/-- Lengths, context lengths and start locations, apart. -/
def BlockManager.prepareSeqInfoGdr {W : Type} (metaC : BatchMetadata W) (decodeSeqLens : List ℤ) :
    Except Fault (List ℤ × List ℤ × List ℤ) :=
  if metaC.numTokens ≤ decodeSeqLens.length then
    let seqLens := decodeSeqLens.take metaC.numTokens
    .ok (seqLens, seqLens.map (· - 1), seqLens.scanl (· + ·) 0)
  else .error (.outOfRange "decode_seq_lens[i]")

namespace CPUBlockManager

variable {W : Type}

/-- `prepare_block_table_gdr` into the buffers; returns the pages of a token. -/
def stageBlockTable (c : CPUBlockManager) (metaC : BatchMetadata W) (seqLens : List ℤ)
    (buf : BatchTensorBuffer) : Except Fault (BatchTensorBuffer × ℕ) := do
  let prepared ← c.blockMgr.prepareBlockTableGdr metaC seqLens
  let blockTable ← copyFromHost buf.blockTable prepared.1
  let slotMapping ← copyFromHost buf.slotMapping prepared.2.1
  return ({ buf with blockTable := blockTable, slotMapping := slotMapping }, prepared.2.2)

/-- `prepare_seq_info_gdr` into the buffers. -/
def stageSeqInfo (metaC : BatchMetadata W) (decodeSeqLens : List ℤ) (buf : BatchTensorBuffer) :
    Except Fault BatchTensorBuffer := do
  let prepared ← BlockManager.prepareSeqInfoGdr metaC decodeSeqLens
  let seqLens ← copyFromHost buf.seqLens prepared.1
  let contextLens ← copyFromHost buf.contextLens prepared.2.1
  let seqStartLoc ← copyFromHost buf.seqStartLoc prepared.2.2
  return { buf with seqLens := seqLens, contextLens := contextLens, seqStartLoc := seqStartLoc }

def packFlashAttnMetadataOpt (c : CPUBlockManager) (metaC : BatchMetadata W) (seqLens : List ℤ)
    (buf : BatchTensorBuffer) : Except Fault (BatchTensorBuffer × FlashAttentionMetadata) := do
  let numTokens := metaC.numDecodeTokens.getD 0 + metaC.numPrefillTokens.getD 0
  let staged ← c.stageBlockTable metaC seqLens buf
  let buf ← stageSeqInfo metaC seqLens staged.1
  -- `create_view`
  let blockTableView ← rebind2dTensor buf.blockTable numTokens staged.2 staged.2 1
  let slotMappingView ← rebind1dTensor buf.slotMapping numTokens
  let seqLensView ← rebind1dTensor buf.seqLens numTokens
  let contextLensView ← rebind1dTensor buf.contextLens numTokens
  let seqStartLocView ← rebind1dTensor buf.seqStartLoc (numTokens + 1)
  let queryStartLocView ← rebind1dTensor buf.queryStartLoc (numTokens + 1)
  let maxDecodeSeqLen ← maxSeqLen (seqLens.map some)
  return (buf, {
    numDecodeTokens := numTokens
    slotMapping := slotMappingView
    seqLens := seqLens.map some
    seqLensTensor := seqLensView
    maxDecodeSeqLen := maxDecodeSeqLen
    queryStartLoc := queryStartLocView
    seqStartLoc := seqStartLocView
    contextLensTensor := contextLensView
    blockTables := blockTableView })

/-- The block tables and slots of the plain way, from the buffers or one tensor. -/
def naiveBlockTable (useGdrCopy : Bool) (c : CPUBlockManager) (metaC : BatchMetadata W)
    (seqLens : List ℤ) (numTokens : ℕ) (buf : BatchTensorBuffer) :
    Except Fault (BatchTensorBuffer × List (List ℤ) × List ℤ) :=
  if useGdrCopy then do
    let staged ← c.stageBlockTable metaC seqLens buf
    let blockTables ← view numTokens (staged.1.blockTable.take (staged.2 * numTokens))
    return (staged.1, blockTables, staged.1.slotMapping.take numTokens)
  else do
    let blockTable1d ← c.blockMgr.prepareBlockTable metaC seqLens
    let blockTables ← view numTokens (blockTable1d.take (blockTable1d.length - numTokens))
    return (buf, blockTables, blockTable1d.drop (blockTable1d.length - numTokens))

/-- The lengths, context lengths and start locations of the plain way. -/
def naiveSeqInfo (useGdrCopy : Bool) (metaC : BatchMetadata W) (seqLens : List ℤ) (numSeqs : ℕ)
    (buf : BatchTensorBuffer) : Except Fault (BatchTensorBuffer × List ℤ × List ℤ × List ℤ) :=
  if useGdrCopy then do
    let buf ← stageSeqInfo metaC seqLens buf
    return (buf, buf.seqLens.take numSeqs, buf.contextLens.take numSeqs,
      buf.seqStartLoc.take (numSeqs + 1))
  else do
    let batchInfos ← BlockManager.prepareSeqInfo metaC seqLens
    return (buf, batchInfos.take numSeqs, (batchInfos.drop numSeqs).take numSeqs,
      batchInfos.drop (numSeqs + numSeqs))

/-- `pack_flash_attn_metadata_naive` without a dummy cache. -/
def packFlashAttnMetadataNaive (useGdrCopy : Bool) (c : CPUBlockManager) (metaC : BatchMetadata W)
    (seqLens : List ℤ) (buf : BatchTensorBuffer) :
    Except Fault (BatchTensorBuffer × FlashAttentionMetadata) := do
  let numTokens := metaC.numDecodeTokens.getD 0 + metaC.numPrefillTokens.getD 0
  let numSeqs := metaC.numPrefillSeqs.getD 0 + metaC.numDecodeTokens.getD 0
  let tables ← naiveBlockTable useGdrCopy c metaC seqLens numTokens buf
  let infos ← naiveSeqInfo useGdrCopy metaC seqLens numSeqs tables.1
  let maxDecodeSeqLen ← maxSeqLen (seqLens.map some)
  return (infos.1, {
    numDecodeTokens := numTokens
    slotMapping := tables.2.2
    seqLens := seqLens.map some
    seqLensTensor := infos.2.1
    maxDecodeSeqLen := maxDecodeSeqLen
    queryStartLoc := infos.1.queryStartLoc.take (numTokens + 1)
    seqStartLoc := infos.2.2.2
    contextLensTensor := infos.2.2.1
    blockTables := tables.2.1 })

/-! ### Staging -/

theorem copyFromHost_ok (buf : List ℤ) {src : List ℤ} (hne : src ≠ []) (hlen : src.length ≤ buf.length) :
    copyFromHost buf src = .ok (src ++ buf.drop src.length) := by
  rw [copyFromHost, if_neg hne, if_neg (not_lt.mpr hlen)]

/-- The front of a written buffer is what was written. -/
theorem rebind1dTensor_copied {src rest : List ℤ} {n : ℕ} (hn : src.length = n) :
    rebind1dTensor (src ++ rest) n = .ok src := by
  rw [rebind1dTensor, if_pos (by rw [List.length_append]; omega), List.take_left' hn]

/-- Rows of one width, written one after another, are the rows seen. -/
theorem rebind2dTensor_copied {α : Type} (f : α → List ℤ) {w : ℕ} {as : List α}
    (h : ∀ a ∈ as, (f a).length = w) (rest : List ℤ) :
    rebind2dTensor (as.flatMap f ++ rest) as.length w w 1 = .ok (as.map f) := by
  have hlen : (as.map f).length = as.length := List.length_map f
  have hrow : ∀ i (hi : i < (as.map f).length),
      ((List.range w).mapM fun j => storageAt (as.flatMap f ++ rest) (i * w + j * 1)) =
        .ok (as.map f)[i] := by
    intro i hi
    have hi' : i < as.length := hlen ▸ hi
    have hw : (as.map f)[i].length = w := by
      rw [List.getElem_map]
      exact h _ (List.getElem_mem hi')
    have hcells := mapM_range_ok (f := fun j => storageAt (as.flatMap f ++ rest) (i * w + j * 1))
      (l := (as.map f)[i]) fun j hj => by
        have hcell : (as.flatMap f)[i * w + j]? = some (as.map f)[i][j] := by
          rw [getElem?_flatMap_uniform f w as h (hw ▸ hj), List.getElem?_eq_getElem hi',
            Option.bind_some, ← List.getElem?_eq_getElem hj, List.getElem_map]
        rw [storageAt, Nat.mul_one,
          List.getElem?_append_left (List.getElem?_eq_some_iff.mp hcell).1, hcell]
    rwa [hw] at hcells
  have hrows := mapM_range_ok hrow
  rwa [hlen] at hrows

/-! ### A batch of live requests -/

/-- A batch whose requests have tables that cover their lengths, one token each. -/
structure LiveBatch (c : CPUBlockManager) (metaC : BatchMetadata W) (seqLens : List ℤ) : Prop where
  blockSize_pos : 0 < c.blockMgr.blockSize
  numTokens_pos : 0 < metaC.numTokens
  reqIds : metaC.reqIds.length = metaC.numTokens
  tokens : metaC.numDecodeTokens.getD 0 + metaC.numPrefillTokens.getD 0 = metaC.numTokens
  seqs : metaC.numPrefillSeqs.getD 0 + metaC.numDecodeTokens.getD 0 = metaC.numTokens
  tables : List.Forall₂ (fun r l => ∃ (t : List ℕ) (q : ℕ), c.blockMgr.blockTables.lookup r = some t ∧
    l = ((q + 1 : ℕ) : ℤ) ∧ q / c.blockMgr.blockSize < t.length) metaC.reqIds seqLens

/-- The batch and its padded tables fit the staging buffers. -/
structure Fits (c : CPUBlockManager) (metaC : BatchMetadata W) (maxBatchSize maxNumPages : ℕ) : Prop where
  tokens : metaC.numTokens ≤ maxBatchSize
  pages : ∀ r ∈ metaC.reqIds, ∀ t, c.blockMgr.blockTables.lookup r = some t →
    metaC.numTokens * t.length ≤ maxBatchSize * maxNumPages

/-- The pages of a row: as many as the longest table has. -/
def rowWidth (lists : List (List ℕ)) : ℕ := (lists.map List.length).foldl max 0

/-- The slot of the last position in a table that covers it. -/
def lastSlot (blockSize : ℕ) (t : List ℕ) (l : ℤ) : ℤ :=
  ((t.getD ((l - 1).toNat / blockSize) 0 * blockSize + (l - 1).toNat % blockSize : ℕ) : ℤ)

def lastSlots (blockSize : ℕ) (lists : List (List ℕ)) (seqLens : List ℤ) : List ℤ :=
  (lists.zip seqLens).map fun e => lastSlot blockSize e.1 e.2

/-- What the attention kernel gets: padded tables, slots, and the lengths three ways. -/
def packed (blockSize : ℕ) (lists : List (List ℕ)) (seqLens : List ℤ) (longest : Option ℤ) :
    FlashAttentionMetadata where
  numDecodeTokens := seqLens.length
  slotMapping := lastSlots blockSize lists seqLens
  seqLens := seqLens.map some
  seqLensTensor := seqLens
  maxDecodeSeqLen := longest
  queryStartLoc := List.range (seqLens.length + 1)
  seqStartLoc := seqLens.scanl (· + ·) 0
  contextLensTensor := seqLens.map (· - 1)
  blockTables := lists.map (BlockManager.padRow (rowWidth lists))

variable {c : CPUBlockManager} {metaC : BatchMetadata W} {seqLens : List ℤ} {lists : List (List ℕ)}
  {maxBatchSize maxNumPages : ℕ}

theorem LiveBatch.length (h : LiveBatch c metaC seqLens) : seqLens.length = metaC.numTokens :=
  h.tables.length_eq.symm.trans h.reqIds

theorem LiveBatch.seqLens_ne (h : LiveBatch c metaC seqLens) : seqLens ≠ [] :=
  List.ne_nil_of_length_pos (h.length ▸ h.numTokens_pos)

theorem LiveBatch.exists_maxSeqLen (h : LiveBatch c metaC seqLens) :
    ∃ longest, maxSeqLen (seqLens.map some) = .ok longest := by
  obtain ⟨lens, hlens⟩ : ∃ lens : List ℕ, seqLens = lens.map Nat.cast := by
    have hall : ∀ l ∈ seqLens, ∃ n : ℕ, l = n := by
      intro l hl
      obtain ⟨i, hi, rfl⟩ := List.mem_iff_getElem.mp hl
      obtain ⟨-, q, -, hq, -⟩ := h.tables.get (h.tables.length_eq ▸ hi) hi
      exact ⟨q + 1, hq⟩
    refine ⟨seqLens.map Int.toNat, ?_⟩
    rw [List.map_map]
    refine (List.map_id seqLens).symm.trans (List.map_congr_left fun l hl => ?_)
    obtain ⟨n, rfl⟩ := hall l hl
    rfl
  obtain ⟨m, hm, -⟩ := maxSeqLen_ok lens
  refine ⟨some (m : ℤ), ?_⟩
  rw [hlens, List.map_map]
  exact hm

theorem foldl_max_mem (xs : List ℕ) (a : ℕ) : xs.foldl max a = a ∨ xs.foldl max a ∈ xs := by
  induction xs generalizing a with
  | nil => exact .inl rfl
  | cons x xs ih =>
    rw [List.foldl_cons]
    rcases ih (max a x) with h | h
    · rw [h]
      rcases max_choice a x with h' | h' <;> rw [h']
      · exact .inl rfl
      · exact .inr List.mem_cons_self
    · exact .inr (List.mem_cons_of_mem _ h)

/-- The requests of a live batch have tables. -/
theorem LiveBatch.exists_lists (h : LiveBatch c metaC seqLens) :
    ∃ lists, List.Forall₂ (fun r t => c.blockMgr.blockTables.lookup r = some t) metaC.reqIds lists :=
  exists_forall₂ fun r hr => by
    obtain ⟨i, hi, rfl⟩ := List.mem_iff_getElem.mp hr
    obtain ⟨t, -, ht, -⟩ := h.tables.get hi (h.tables.length_eq ▸ hi)
    exact ⟨t, ht⟩

/-- A table covers the last position of its request. -/
theorem LiveBatch.covered (h : LiveBatch c metaC seqLens)
    (hlists : List.Forall₂ (fun r t => c.blockMgr.blockTables.lookup r = some t) metaC.reqIds lists)
    {i : ℕ} (hi : i < seqLens.length) (hi' : i < lists.length) :
    ∃ q, seqLens[i] = ((q + 1 : ℕ) : ℤ) ∧ q / c.blockMgr.blockSize < lists[i].length := by
  have hir : i < metaC.reqIds.length := h.tables.length_eq ▸ hi
  obtain ⟨t, q, ht, hq, hlt⟩ := h.tables.get hir hi
  have ht' := hlists.get hir hi'
  simp only [List.get_eq_getElem] at ht hq ht'
  rw [ht, Option.some_inj] at ht'
  exact ⟨q, hq, ht' ▸ hlt⟩

/-- What both preparations return, and the sizes of it. -/
structure Prepared (c : CPUBlockManager) (metaC : BatchMetadata W) (seqLens : List ℤ)
    (lists : List (List ℕ)) : Prop where
  length_lists : lists.length = metaC.numTokens
  length_slots : (lastSlots c.blockMgr.blockSize lists seqLens).length = metaC.numTokens
  width_pos : 0 < rowWidth lists
  row : ∀ t ∈ lists, (BlockManager.padRow (rowWidth lists) t).length = rowWidth lists
  plain : c.blockMgr.prepareBlockTable metaC seqLens = .ok
    (lists.flatMap (BlockManager.padRow (rowWidth lists)) ++ lastSlots c.blockMgr.blockSize lists seqLens)
  gdr : c.blockMgr.prepareBlockTableGdr metaC seqLens = .ok
    (lists.flatMap (BlockManager.padRow (rowWidth lists)), lastSlots c.blockMgr.blockSize lists seqLens,
      rowWidth lists)

theorem LiveBatch.prepared (h : LiveBatch c metaC seqLens)
    (hlists : List.Forall₂ (fun r t => c.blockMgr.blockTables.lookup r = some t) metaC.reqIds lists) :
    Prepared c metaC seqLens lists := by
  have hlen := h.length
  have hll : lists.length = metaC.numTokens := hlists.length_eq.symm.trans h.reqIds
  have hsl : (lastSlots c.blockMgr.blockSize lists seqLens).length = metaC.numTokens := by
    rw [lastSlots, List.length_map, List.length_zip, hll, hlen, min_self]
  obtain ⟨hw, hplain, hgdr⟩ := BlockManager.prepare_lists h.reqIds hlists hlen hsl
    fun width hw i hi extra => by
      have hil : i < lists.length := by omega
      obtain ⟨q, hq, hlt⟩ := h.covered hlists hi hil
      have hlast : (((q + 1 : ℕ) : ℤ) - 1).toNat = q := by omega
      rw [hq, BlockManager.readSlot_row hw (List.getElem?_eq_getElem hil)
        (List.getElem?_eq_getElem hlt) extra]
      simp only [lastSlots, List.get_eq_getElem, List.getElem_map, List.getElem_zip, lastSlot, hq, hlast]
      rw [List.getD_eq_getElem?_getD, List.getElem?_eq_getElem hlt, Option.getD_some]
  refine ⟨hll, hsl, ?_, fun t ht => ?_, hplain, hgdr⟩
  · -- the first table covers a position, so it has a block
    have hpos : 0 < metaC.numTokens := h.numTokens_pos
    obtain ⟨q, -, hlt⟩ := h.covered hlists (hlen ▸ hpos) (hll ▸ hpos)
    exact ((Nat.zero_le _).trans_lt hlt).trans_le (hw _ (List.getElem_mem (hll ▸ hpos)))
  · have hle : t.length ≤ rowWidth lists := hw t ht
    rw [BlockManager.padRow, List.length_append, List.length_map, List.length_replicate]
    omega

theorem Prepared.length_table (h : Prepared c metaC seqLens lists) :
    (lists.flatMap (BlockManager.padRow (rowWidth lists))).length = metaC.numTokens * rowWidth lists := by
  rw [length_flatMap_uniform _ _ _ h.row, h.length_lists]

theorem Fits.table (hfits : Fits c metaC maxBatchSize maxNumPages)
    (hlists : List.Forall₂ (fun r t => c.blockMgr.blockTables.lookup r = some t) metaC.reqIds lists) :
    metaC.numTokens * rowWidth lists ≤ maxBatchSize * maxNumPages := by
  rcases foldl_max_mem (lists.map List.length) 0 with hzero | hmem
  · rw [rowWidth, hzero, Nat.mul_zero]
    exact Nat.zero_le _
  · obtain ⟨t, ht, hlen⟩ := List.mem_map.mp hmem
    obtain ⟨i, hi, rfl⟩ := List.mem_iff_getElem.mp ht
    have hir : i < metaC.reqIds.length := hlists.length_eq ▸ hi
    rw [rowWidth, ← hlen]
    exact hfits.pages _ (List.getElem_mem hir) _ (hlists.get hir hi)

/-! ### The staged buffers -/

/-- A buffer with its front written. -/
def written (buf src : List ℤ) : List ℤ := src ++ buf.drop src.length

theorem stageBlockTable_ok (h : LiveBatch c metaC seqLens) (hp : Prepared c metaC seqLens lists)
    {buf : BatchTensorBuffer} (htable : metaC.numTokens * rowWidth lists ≤ buf.blockTable.length)
    (hslots : metaC.numTokens ≤ buf.slotMapping.length) :
    stageBlockTable c metaC seqLens buf = .ok ({ buf with
      blockTable := written buf.blockTable (lists.flatMap (BlockManager.padRow (rowWidth lists)))
      slotMapping := written buf.slotMapping (lastSlots c.blockMgr.blockSize lists seqLens) },
      rowWidth lists) := by
  have hpos := h.numTokens_pos
  have htablePos := Nat.mul_pos hpos hp.width_pos
  have hcopyTable := copyFromHost_ok buf.blockTable
    (List.ne_nil_of_length_pos (hp.length_table ▸ htablePos)) (hp.length_table ▸ htable)
  have hcopySlots := copyFromHost_ok buf.slotMapping
    (List.ne_nil_of_length_pos (hp.length_slots ▸ hpos)) (hp.length_slots ▸ hslots)
  simp only [stageBlockTable, hp.gdr, bind, Except.bind, hcopyTable, hcopySlots]
  rfl

theorem stageSeqInfo_ok (h : LiveBatch c metaC seqLens) {buf : BatchTensorBuffer}
    (hseq : metaC.numTokens ≤ buf.seqLens.length) (hcontext : metaC.numTokens ≤ buf.contextLens.length)
    (hstart : metaC.numTokens + 1 ≤ buf.seqStartLoc.length) :
    stageSeqInfo metaC seqLens buf = .ok { buf with
      seqLens := written buf.seqLens seqLens
      contextLens := written buf.contextLens (seqLens.map (· - 1))
      seqStartLoc := written buf.seqStartLoc (seqLens.scanl (· + ·) 0) } := by
  have hlen := h.length
  have hprepared : BlockManager.prepareSeqInfoGdr metaC seqLens =
      .ok (seqLens, seqLens.map (· - 1), seqLens.scanl (· + ·) 0) := by
    rw [BlockManager.prepareSeqInfoGdr, if_pos hlen.ge, List.take_of_length_le hlen.le]
  have hcontextLen : (seqLens.map (· - 1)).length = metaC.numTokens := by rw [List.length_map, hlen]
  have hstartLen : (seqLens.scanl (· + ·) 0).length = metaC.numTokens + 1 := by
    rw [List.length_scanl, hlen]
  have hcopySeq := copyFromHost_ok buf.seqLens h.seqLens_ne (hlen ▸ hseq)
  have hcopyContext := copyFromHost_ok buf.contextLens
    (List.ne_nil_of_length_pos (hcontextLen ▸ h.numTokens_pos)) (hcontextLen ▸ hcontext)
  have hcopyStart := copyFromHost_ok buf.seqStartLoc
    (List.ne_nil_of_length_pos (hstartLen ▸ Nat.succ_pos _)) (hstartLen ▸ hstart)
  simp only [stageSeqInfo, hprepared, bind, Except.bind, hcopySeq, hcopyContext, hcopyStart]
  rfl

/-- The buffers after a batch is staged. -/
def staged (c : CPUBlockManager) (lists : List (List ℕ)) (seqLens : List ℤ) (buf : BatchTensorBuffer) :
    BatchTensorBuffer where
  blockTable := written buf.blockTable (lists.flatMap (BlockManager.padRow (rowWidth lists)))
  slotMapping := written buf.slotMapping (lastSlots c.blockMgr.blockSize lists seqLens)
  seqLens := written buf.seqLens seqLens
  contextLens := written buf.contextLens (seqLens.map (· - 1))
  seqStartLoc := written buf.seqStartLoc (seqLens.scanl (· + ·) 0)
  queryStartLoc := buf.queryStartLoc

theorem length_written {buf src : List ℤ} (h : src.length ≤ buf.length) :
    (written buf src).length = buf.length := by
  rw [written, List.length_append, List.length_drop]
  omega

/-- Staging a batch keeps the sizes of the buffers. -/
theorem staged_sized (h : LiveBatch c metaC seqLens) (hp : Prepared c metaC seqLens lists)
    (htable : metaC.numTokens * rowWidth lists ≤ maxBatchSize * maxNumPages)
    (htokens : metaC.numTokens ≤ maxBatchSize) {buf : BatchTensorBuffer}
    (hbuf : buf.Sized maxBatchSize maxNumPages) :
    (staged c lists seqLens buf).Sized maxBatchSize maxNumPages := by
  have hlen := h.length
  refine ⟨?_, ?_, ?_, ?_, ?_, hbuf.queryStartLoc⟩
  · refine (length_written ?_).trans hbuf.blockTable
    rwa [hp.length_table, hbuf.blockTable]
  · refine (length_written ?_).trans hbuf.slotMapping
    rwa [hp.length_slots, hbuf.slotMapping]
  · refine (length_written ?_).trans hbuf.seqLens
    rwa [hlen, hbuf.seqLens]
  · refine (length_written ?_).trans hbuf.contextLens
    rwa [List.length_map, hlen, hbuf.contextLens]
  · refine (length_written ?_).trans hbuf.seqStartLoc
    rw [List.length_scanl, hlen, hbuf.seqStartLoc]
    exact Nat.succ_le_succ htokens

/-! ### The three ways -/

variable {longest : Option ℤ}

theorem packFlashAttnMetadataOpt_ok (h : LiveBatch c metaC seqLens)
    (hp : Prepared c metaC seqLens lists)
    (htable : metaC.numTokens * rowWidth lists ≤ maxBatchSize * maxNumPages)
    (htokens : metaC.numTokens ≤ maxBatchSize) (hmax : maxSeqLen (seqLens.map some) = .ok longest)
    {buf : BatchTensorBuffer} (hbuf : buf.Sized maxBatchSize maxNumPages) :
    packFlashAttnMetadataOpt c metaC seqLens buf =
      .ok (staged c lists seqLens buf, packed c.blockMgr.blockSize lists seqLens longest) := by
  have hlen := h.length
  have hstageTable := stageBlockTable_ok h hp (hbuf.blockTable ▸ htable) (hbuf.slotMapping ▸ htokens)
  have htableView : rebind2dTensor (written buf.blockTable
      (lists.flatMap (BlockManager.padRow (rowWidth lists)))) metaC.numTokens (rowWidth lists)
      (rowWidth lists) 1 = .ok (lists.map (BlockManager.padRow (rowWidth lists))) := by
    rw [← hp.length_lists]
    exact rebind2dTensor_copied _ hp.row _
  have hslotView : rebind1dTensor (written buf.slotMapping (lastSlots c.blockMgr.blockSize lists seqLens))
      metaC.numTokens = .ok (lastSlots c.blockMgr.blockSize lists seqLens) :=
    rebind1dTensor_copied hp.length_slots
  have hseqView : rebind1dTensor (written buf.seqLens seqLens) metaC.numTokens = .ok seqLens :=
    rebind1dTensor_copied hlen
  have hcontextView : rebind1dTensor (written buf.contextLens (seqLens.map (· - 1))) metaC.numTokens =
      .ok (seqLens.map (· - 1)) := rebind1dTensor_copied (by rw [List.length_map, hlen])
  have hstartView : rebind1dTensor (written buf.seqStartLoc (seqLens.scanl (· + ·) 0))
      (metaC.numTokens + 1) = .ok (seqLens.scanl (· + ·) 0) :=
    rebind1dTensor_copied (by rw [List.length_scanl, hlen])
  have hqueryView : rebind1dTensor buf.queryStartLoc (metaC.numTokens + 1) =
      .ok (List.range (metaC.numTokens + 1)) := by
    rw [hbuf.queryStartLoc, rebind1dTensor, List.length_range, if_pos (by omega), List.take_range,
      min_eq_left (by omega)]
  simp only [packFlashAttnMetadataOpt, h.tokens, hstageTable, bind, Except.bind]
  rw [stageSeqInfo_ok h (hbuf.seqLens ▸ htokens) (hbuf.contextLens ▸ htokens)
    (hbuf.seqStartLoc ▸ Nat.succ_le_succ htokens)]
  simp only [htableView, hslotView, hseqView, hcontextView, hstartView, hqueryView, hmax, staged, packed,
    hlen]
  rfl

theorem packFlashAttnMetadataNaive_gdr_ok (h : LiveBatch c metaC seqLens)
    (hp : Prepared c metaC seqLens lists)
    (htable : metaC.numTokens * rowWidth lists ≤ maxBatchSize * maxNumPages)
    (htokens : metaC.numTokens ≤ maxBatchSize) (hmax : maxSeqLen (seqLens.map some) = .ok longest)
    {buf : BatchTensorBuffer} (hbuf : buf.Sized maxBatchSize maxNumPages) :
    packFlashAttnMetadataNaive true c metaC seqLens buf =
      .ok (staged c lists seqLens buf, packed c.blockMgr.blockSize lists seqLens longest) := by
  have hlen := h.length
  have hstageTable := stageBlockTable_ok h hp (hbuf.blockTable ▸ htable) (hbuf.slotMapping ▸ htokens)
  have hview : view metaC.numTokens ((written buf.blockTable
      (lists.flatMap (BlockManager.padRow (rowWidth lists)))).take (rowWidth lists * metaC.numTokens)) =
      .ok (lists.map (BlockManager.padRow (rowWidth lists))) := by
    rw [written, List.take_left' (by rw [hp.length_table, Nat.mul_comm]), ← hp.length_lists]
    exact view_flatMap _ (hp.length_lists ▸ h.numTokens_pos) hp.row
  have hslots : (written buf.slotMapping (lastSlots c.blockMgr.blockSize lists seqLens)).take
      metaC.numTokens = lastSlots c.blockMgr.blockSize lists seqLens := List.take_left' hp.length_slots
  have hseq : (written buf.seqLens seqLens).take metaC.numTokens = seqLens := List.take_left' hlen
  have hcontext : (written buf.contextLens (seqLens.map (· - 1))).take metaC.numTokens =
      seqLens.map (· - 1) := List.take_left' (by rw [List.length_map, hlen])
  have hstart : (written buf.seqStartLoc (seqLens.scanl (· + ·) 0)).take (metaC.numTokens + 1) =
      seqLens.scanl (· + ·) 0 := List.take_left' (by rw [List.length_scanl, hlen])
  have hquery : buf.queryStartLoc.take (metaC.numTokens + 1) = List.range (metaC.numTokens + 1) := by
    rw [hbuf.queryStartLoc, List.take_range, min_eq_left (by omega)]
  simp only [packFlashAttnMetadataNaive, naiveBlockTable, naiveSeqInfo, h.tokens, h.seqs, ↓reduceIte,
    hstageTable, bind, Except.bind, hview, pure, Except.pure]
  rw [stageSeqInfo_ok h (hbuf.seqLens ▸ htokens) (hbuf.contextLens ▸ htokens)
    (hbuf.seqStartLoc ▸ Nat.succ_le_succ htokens)]
  simp only [hslots, hseq, hcontext, hstart, hquery, hmax, staged, packed, hlen]

theorem packFlashAttnMetadataNaive_plain_ok (h : LiveBatch c metaC seqLens)
    (hp : Prepared c metaC seqLens lists) (htokens : metaC.numTokens ≤ maxBatchSize)
    (hmax : maxSeqLen (seqLens.map some) = .ok longest)
    {buf : BatchTensorBuffer} (hbuf : buf.Sized maxBatchSize maxNumPages) :
    packFlashAttnMetadataNaive false c metaC seqLens buf =
      .ok (buf, packed c.blockMgr.blockSize lists seqLens longest) := by
  have hlen := h.length
  set table := lists.flatMap (BlockManager.padRow (rowWidth lists)) with htableDef
  set slots := lastSlots c.blockMgr.blockSize lists seqLens with hslotsDef
  have hcut : (table ++ slots).length - metaC.numTokens = table.length := by
    rw [List.length_append, hp.length_slots, Nat.add_sub_cancel]
  have hview : view metaC.numTokens table = .ok (lists.map (BlockManager.padRow (rowWidth lists))) := by
    rw [← hp.length_lists]
    exact view_flatMap _ (hp.length_lists ▸ h.numTokens_pos) hp.row
  have hinfos : BlockManager.prepareSeqInfo metaC seqLens =
      .ok (seqLens ++ (seqLens.map (· - 1) ++ seqLens.scanl (· + ·) 0)) := by
    rw [BlockManager.prepareSeqInfo, if_pos hlen.ge, List.take_of_length_le hlen.le, ← List.append_assoc]
  have hcontextLen : (seqLens.map (· - 1)).length = metaC.numTokens := by rw [List.length_map, hlen]
  have hquery : buf.queryStartLoc.take (metaC.numTokens + 1) = List.range (metaC.numTokens + 1) := by
    rw [hbuf.queryStartLoc, List.take_range, min_eq_left (by omega)]
  simp only [packFlashAttnMetadataNaive, naiveBlockTable, naiveSeqInfo, h.tokens, h.seqs,
    Bool.false_eq_true, ↓reduceIte, bind, Except.bind, hp.plain, ← htableDef, ← hslotsDef, hcut,
    List.take_left, List.drop_left, hview, hinfos, pure, Except.pure, hmax, List.take_left' hlen,
    List.drop_left' hlen, List.take_left' hcontextLen, ← List.drop_drop, List.drop_left' hcontextLen,
    hquery, packed, hlen]

/-- Every batch of live requests that fits is packed alike the three ways: the tables of its
requests, padded to the longest, the slots of their last positions and their lengths,
whatever the buffers held; and the buffers keep their sizes. -/
theorem packings_agree (h : LiveBatch c metaC seqLens) (hfits : Fits c metaC maxBatchSize maxNumPages) :
    ∃ lists longest,
      List.Forall₂ (fun r t => c.blockMgr.blockTables.lookup r = some t) metaC.reqIds lists ∧
      ∀ buf : BatchTensorBuffer, buf.Sized maxBatchSize maxNumPages →
        ∃ buf', buf'.Sized maxBatchSize maxNumPages ∧
          packFlashAttnMetadataOpt c metaC seqLens buf =
            .ok (buf', packed c.blockMgr.blockSize lists seqLens longest) ∧
          packFlashAttnMetadataNaive true c metaC seqLens buf =
            .ok (buf', packed c.blockMgr.blockSize lists seqLens longest) ∧
          packFlashAttnMetadataNaive false c metaC seqLens buf =
            .ok (buf, packed c.blockMgr.blockSize lists seqLens longest) := by
  obtain ⟨lists, hlists⟩ := h.exists_lists
  obtain ⟨longest, hmax⟩ := h.exists_maxSeqLen
  have hp := h.prepared hlists
  have htable := hfits.table hlists
  refine ⟨lists, longest, hlists, fun buf hbuf => ⟨staged c lists seqLens buf, ?_, ?_, ?_, ?_⟩⟩
  · exact staged_sized h hp htable hfits.tokens hbuf
  · exact packFlashAttnMetadataOpt_ok h hp htable hfits.tokens hmax hbuf
  · exact packFlashAttnMetadataNaive_gdr_ok h hp htable hfits.tokens hmax hbuf
  · exact packFlashAttnMetadataNaive_plain_ok h hp hfits.tokens hmax hbuf

/-- Two requests with tables of two blocks and one, at block size 2. -/
def twoRequests : CPUBlockManager where
  blockMgr := {
    blockSize := 2
    numBlocks := 8
    reservedBlocks := 0
    freeBlocks := []
    blockTables := AList.insert 5 [3, 1] (AList.insert 9 [0] ∅) }
  decodeSeqLens := ∅
  firstLayerId := 0

def twoDecodes : BatchMetadata ℚ where
  batchTag := .attention
  shape := (2, 1)
  dtype := "bf16"
  layerId := 0
  reqIds := [5, 9]
  expIds := []
  topkWeights := []
  attnDpRanks := []
  initPrefillLens := [-1, -1]
  numPrefillSeqs := some 0
  numPrefillTokens := some 0
  numDecodeTokens := some 2

theorem packings_agree_twoDecodes :
    ∃ lists longest,
      List.Forall₂ (fun r t => twoRequests.blockMgr.blockTables.lookup r = some t) [5, 9] lists ∧
      ∀ buf : BatchTensorBuffer, buf.Sized 3 2 →
        ∃ buf', buf'.Sized 3 2 ∧
          packFlashAttnMetadataOpt twoRequests twoDecodes [3, 2] buf =
            .ok (buf', packed 2 lists [3, 2] longest) ∧
          packFlashAttnMetadataNaive true twoRequests twoDecodes [3, 2] buf =
            .ok (buf', packed 2 lists [3, 2] longest) ∧
          packFlashAttnMetadataNaive false twoRequests twoDecodes [3, 2] buf =
            .ok (buf, packed 2 lists [3, 2] longest) := by
  have hfirst : twoRequests.blockMgr.blockTables.lookup 5 = some [3, 1] := rfl
  have hsecond : twoRequests.blockMgr.blockTables.lookup 9 = some [0] := rfl
  have hlive : LiveBatch twoRequests twoDecodes [3, 2] :=
    ⟨by decide, by decide, rfl, rfl, rfl,
      .cons ⟨[3, 1], 2, hfirst, rfl, by decide⟩ (.cons ⟨[0], 1, hsecond, rfl, by decide⟩ .nil)⟩
  have hfits : Fits twoRequests twoDecodes 3 2 := by
    refine ⟨by decide, fun r hr t ht => ?_⟩
    rcases List.mem_pair.mp hr with rfl | rfl
    · cases hfirst.symm.trans ht
      decide
    · cases hsecond.symm.trans ht
      decide
  exact packings_agree hlive hfits

end CPUBlockManager

end StreamInfer.Kv
