import StreamInfer.Batch.Columns
import StreamInfer.General.Fallible

/-! Batches of tokens with their hidden rows, after `batch.hpp`. A merge lists the
source pointers of the output rows on the host and a kernel copies the rows; a
pointer that was never set, or that points past its tensor, is a fault. Packing
sums the `topk` expert outputs of each token. -/

namespace StreamInfer.Batch

open General

/-- Hidden rows: their width and the sum of two of them. -/
class Row (R : Type) where
  size : R → ℕ
  add : R → R → R

/-- Rows of numbers, added entry by entry. -/
instance {α : Type} [Add α] : Row (List α) := ⟨List.length, List.zipWith (· + ·)⟩

structure TokenBatch (W R : Type) where
  data : List R
  metadata : BatchMetadata W
  deriving DecidableEq, Repr

/-- A token of the attention queue: its request and the expert outputs collected
for it. -/
structure TokenTopKInfo (R : Type) where
  seqId : ℤ
  initPrefillLen : ℤ
  attnDpRank : ℕ
  topkTensors : List R
  deriving DecidableEq, Repr

variable {W R : Type}

namespace TokenTopKInfo

def count (t : TokenTopKInfo R) : ℕ := t.topkTensors.length

def appendTensor (t : TokenTopKInfo R) (tensor : R) : TokenTopKInfo R :=
  { t with topkTensors := t.topkTensors ++ [tensor] }

/-- The comparator of `TokenBatch::pack_topk_tokens`. -/
def before (a b : TokenTopKInfo R) : Bool :=
  if a.initPrefillLen = -1 ∨ b.initPrefillLen = -1 then a.initPrefillLen > b.initPrefillLen
  else a.seqId < b.seqId

/-- The metadata of the token; it is not routed to an expert. -/
def metadata [Zero W] (t : TokenTopKInfo R) : TokenMetadata W :=
  ⟨t.seqId, 0, t.attnDpRank, t.initPrefillLen, 0⟩

end TokenTopKInfo

/-! ### Kernels -/

/-- The rows of a list without gaps. -/
def readRows (access : String) (rows : List (Option R)) : Except Fault (List R) :=
  rows.mapM fun row => row.elim (.error (.outOfRange access)) .ok

/-- `gather_tokens`: copy the row behind every pointer. -/
def gatherTokens (srcs : List (Option R)) : Except Fault (List R) :=
  readRows "d_in_ptr[token_id]" srcs

/-- `permute_tokens`: thread block `t` copies row `t / topk` to row `mappings[t]`
of an uninitialised tensor. -/
def permuteTokens (tokens : List R) (mappings : List ℕ) : Except Fault (List R) :=
  if tokens.length = 0 then .error (.outOfRange "num_output_tokens % num_input_tokens")
  else if mappings.length % tokens.length = 0 then
    let topk := mappings.length / tokens.length
    let sources := (List.range mappings.length).map fun t => tokens[t / topk]?
    readRows "out[p]" (scatter none sources mappings)
  else .error (.assertion "num_output_tokens % num_input_tokens == 0")

/-- Start with the first row and accumulate the others. -/
def sumRows [Row R] : List R → Except Fault R
  | [] => .error (.outOfRange "d_in_ptr[first_token_idx]")
  | first :: rest => .ok (rest.foldl (fun acc src => Row.add src acc) first)

/-- `gather_and_sum_tokens`: output `i` is the sum of the rows behind pointers
`i * topk .. i * topk + topk - 1`. -/
def gatherAndSumTokens [Row R] (srcs : List (Option R)) (n topk : ℕ) : Except Fault (List R) :=
  (List.range n).mapM fun i => do
    let rows ← gatherTokens ((List.range topk).map fun k => srcs.getD (i * topk + k) none)
    sumRows rows

theorem readRows_eq_ok_iff {access : String} {srcs : List (Option R)} {rows : List R} :
    readRows access srcs = .ok rows ↔ srcs = rows.map some := by
  rw [readRows, mapM_eq_ok_iff, ← List.forall₂_eq_eq_eq, List.forall₂_map_right_iff]
  have hone : ∀ (src : Option R) row,
      src.elim (Except.error (Fault.outOfRange access)) Except.ok = .ok row ↔ src = some row := by
    intro src row
    cases src <;> simp
  simp only [hone]

theorem exists_map_some {rows : List (Option R)} (h : ∀ row ∈ rows, row.isSome = true) :
    ∃ out : List R, rows = out.map some := by
  induction rows with
  | nil => exact ⟨[], rfl⟩
  | cons row rows ih =>
    obtain ⟨out, hout⟩ := ih fun r hr => h r (by simp [hr])
    obtain ⟨r, hr⟩ := Option.isSome_iff_exists.mp (h row (by simp))
    exact ⟨r :: out, by rw [hr, hout, List.map_cons]⟩

/-- Rows written to every index once are all read. -/
theorem readRows_scatter (access : String) {sources : List (Option R)} {mappings : List ℕ}
    (hm : Positions sources.length mappings) (hs : ∀ row ∈ sources, row.isSome = true) :
    ∃ rows, readRows access (scatter none sources mappings) = .ok rows ∧
      rows.length = sources.length ∧
      ∀ j (hj : j < mappings.length), rows[mappings[j]]? = sources[j]?.join := by
  obtain ⟨rows, hrows⟩ := exists_map_some fun row hrow =>
    hs row ((scatter_perm none hm).mem_iff.mp hrow)
  refine ⟨rows, readRows_eq_ok_iff.mpr hrows, ?_, fun j hj => ?_⟩
  · rw [← length_scatter none sources mappings, hrows, List.length_map]
  · rw [← getElem?_scatter none hm j hj, hrows, List.getElem?_map]
    cases rows[mappings[j]]? <;> rfl

/-- Row `t / topk` moves to row `mappings[t]`. -/
theorem permuteTokens_ok {tokens : List R} {topk : ℕ} {mappings : List ℕ}
    (ht : 0 < tokens.length) (hm : Positions (tokens.length * topk) mappings) :
    ∃ rows, permuteTokens tokens mappings = .ok rows ∧ rows.length = tokens.length * topk ∧
      ∀ j (hj : j < mappings.length), rows[mappings[j]]? = tokens[j / topk]? := by
  have hdiv : mappings.length / tokens.length = topk := by
    rw [hm.length, Nat.mul_div_cancel_left _ ht]
  have hsome : ∀ row ∈ (List.range mappings.length).map fun t => tokens[t / topk]?,
      row.isSome = true := by
    rw [List.forall_mem_map]
    intro t ht'
    have hlt : t / topk < tokens.length := by
      rw [List.mem_range, hm.length] at ht'
      exact Nat.div_lt_of_lt_mul (by rwa [Nat.mul_comm])
    simp [List.getElem?_eq_getElem hlt]
  have hpos : Positions ((List.range mappings.length).map fun t => tokens[t / topk]?).length
      mappings := by
    rwa [List.length_map, List.length_range, hm.length]
  obtain ⟨rows, hrows, hlen, hread⟩ := readRows_scatter "out[p]" hpos hsome
  refine ⟨rows, ?_, by simpa [hm.length] using hlen, fun j hj => ?_⟩
  · rw [permuteTokens, if_neg (by omega), if_pos (by rw [hm.length, Nat.mul_mod_right]), hdiv]
    exact hrows
  · rw [hread j hj, List.getElem?_map, List.getElem?_range hj]
    rfl

namespace TokenBatch

/-! ### Splitting -/

/-- `torch::split`, which rejects sizes that do not add up to the rows. -/
def splitTensorBySize (tensor : List R) (sizes : List ℕ) : Except Fault (List (List R)) :=
  if sizes.sum = tensor.length then .ok (sizes.splitLengths tensor)
  else .error (.assertion "split_with_sizes expects split_sizes to sum exactly to the rows")

def splitWithSizes (b : TokenBatch W R) (sizes : List ℕ) : Except Fault (List (TokenBatch W R)) := do
  let metas := b.metadata.splitWithSizes sizes
  let tokenChunks ← splitTensorBySize b.data sizes
  return tokenChunks.zipWith TokenBatch.mk metas

/-! ### Merging -/

/-- Pointers to the first `n` rows; those past the tensor point nowhere. -/
def rowPointers (b : TokenBatch W R) (n : ℕ) : List (Option R) :=
  (List.range n).map fun i => b.data[i]?

def mergeByExpert [Zero W] (batches : List (TokenBatch W R)) : Except Fault (TokenBatch W R) := do
  let (mergedMeta, mappings) ← BatchMetadata.mergeByExpert (batches.map (·.metadata))
  let pointers := batches.flatMap fun b => b.rowPointers b.metadata.numTokens
  let mergedTokens ← gatherTokens (scatter none pointers mappings)
  return ⟨mergedTokens, mergedMeta⟩

/-- The places of the rows of batches with the given prefill and decode counts:
`prefill_idx ++` for the first, `decode_idx ++` for the others. -/
def attentionPositions (prefillIdx decodeIdx : ℕ) : List (ℕ × ℕ) → List ℕ
  | [] => []
  | (prefill, decode) :: counts =>
    List.range' prefillIdx prefill ++ List.range' decodeIdx decode ++
      attentionPositions (prefillIdx + prefill) (decodeIdx + decode) counts

def attentionCounts (b : TokenBatch W R) : ℕ × ℕ :=
  (b.metadata.numPrefillTokens.getD 0, b.metadata.numDecodeTokens.getD 0)

def mergeByAttention (batches : List (TokenBatch W R)) : Except Fault (TokenBatch W R) := do
  let mergedMeta ← BatchMetadata.mergeByAttention (batches.map (·.metadata))
  let positions := attentionPositions 0 (mergedMeta.numPrefillTokens.getD 0)
    (batches.map attentionCounts)
  let pointers := batches.flatMap fun b => b.rowPointers (b.attentionCounts.1 + b.attentionCounts.2)
  if pointers.length = mergedMeta.numTokens then
    let mergedTokens ← gatherTokens (scatter none pointers positions)
    return ⟨mergedTokens, mergedMeta⟩
  else throw (.outOfRange "src_ptrs[decode_idx]")

/-- `none` is the batch without data or metadata. -/
def merge [Zero W] (batches : List (TokenBatch W R)) : Except Fault (Option (TokenBatch W R)) :=
  match batches with
  | [] => .ok none
  | [b] => .ok (some b)
  | b :: _ =>
    if b.metadata.isExpert then some <$> mergeByExpert batches
    else if b.metadata.isAttention then some <$> mergeByAttention batches
    else .error (.assertion "Invalid batch metadata")

/-! ### Packing -/

/-- The metadata of packed tokens of the given width. -/
def packedMetadata (layerId width : ℕ) (tokens : List (TokenTopKInfo R)) : BatchMetadata W where
  batchTag := .attention
  shape := (tokens.length, width)
  dtype := "bf16"
  layerId := layerId
  reqIds := tokens.map (·.seqId)
  expIds := []
  topkWeights := []
  attnDpRanks := tokens.map (·.attnDpRank)
  initPrefillLens := tokens.map (·.initPrefillLen)
  numPrefillSeqs := some (tokens.countP (·.initPrefillLen ≠ -1))
  numPrefillTokens := some (tokens.countP (·.initPrefillLen ≠ -1))
  numDecodeTokens := some (tokens.countP (·.initPrefillLen = -1))

/-- `BatchMetadata::pack_topk_tokens`: the width is that of the first tensor of the
first token. -/
def packMetadata [Row R] (layerId : ℕ) (tokens : List (TokenTopKInfo R)) :
    Except Fault (BatchMetadata W) :=
  match tokens with
  | [] => .error (.outOfRange "tokens[0]")
  | first :: _ =>
    match first.topkTensors with
    | [] => .error (.outOfRange "tokens[0].topk_tensors[0]")
    | tensor :: _ => .ok (packedMetadata layerId (Row.size tensor) tokens)

/-- Pointers to the first `topk` expert outputs of each token. -/
def topkPointers (tokens : List (TokenTopKInfo R)) (topk : ℕ) : List (Option R) :=
  tokens.flatMap fun t => (List.range topk).map fun k => t.topkTensors[k]?

def packTopkTokens [Row R] (S : ComparatorSort) (layerId : ℕ) (tokens : List (TokenTopKInfo R)) :
    Except Fault (TokenBatch W R) := do
  let sorted := S.sort TokenTopKInfo.before tokens
  match sorted with
  | [] => throw (.outOfRange "tokens[0]")
  | first :: _ =>
    let topk := first.count
    let packed ← packMetadata layerId sorted
    if packed.numTokens = sorted.length then
      let aggregated ← gatherAndSumTokens (topkPointers sorted topk) sorted.length topk
      return ⟨aggregated, packed⟩
    else throw (.assertion "meta->num_tokens() == n")

end TokenBatch

end StreamInfer.Batch
