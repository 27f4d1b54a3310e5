import StreamInfer.Fault
import StreamInfer.General.CountingSort
import StreamInfer.General.ComparatorSort

/-! The metadata of a batch of tokens: parallel columns, one entry per token,
with a tag, a shape and counts that attention batches carry. The operations
follow `metadata.hpp` and `vector_utils.hpp`. A failed `ASSERT` and an access
outside a container are faults; columns are read at indices below the token
count, which the callers keep equal to their lengths. Weights are only moved,
so their type is a parameter. -/

namespace StreamInfer.Batch

open General

inductive BatchTag where
  | attention | expert | tokenizer
  deriving DecidableEq, Repr

structure BatchMetadata (W : Type) where
  batchTag : BatchTag
  /-- Tokens, then hidden dimension. -/
  shape : ℕ × ℕ
  dtype : String
  layerId : ℕ
  reqIds : List ℤ
  expIds : List ℕ
  topkWeights : List W
  attnDpRanks : List ℕ
  /-- Positive for a first decoding token, `-1` for a later one. -/
  initPrefillLens : List ℤ
  numPrefillSeqs : Option ℕ := none
  numPrefillTokens : Option ℕ := none
  numDecodeTokens : Option ℕ := none
  deriving DecidableEq, Repr

/-! ### Vector utilities -/

def duplicateVector {α : Type} (a : List α) (times : ℕ) : List α :=
  (List.replicate times a).flatten

def permuteVector {α : Type} [Zero α] (data : List α) (positions : List ℕ) : List α :=
  if data.isEmpty then [] else scatter 0 data positions

def indexSelectVector {α : Type} [Zero α] (data : List α) (indices : List ℕ) : List α :=
  if data.isEmpty then [] else gather 0 data indices

def splitVectorBySize {α : Type} (vec : List α) (sizes : List ℕ) : List (List α) :=
  if vec.isEmpty then List.replicate sizes.length [] else sizes.splitLengths vec

theorem permuteVector_eq {α : Type} [Zero α] (data : List α) (positions : List ℕ) :
    permuteVector data positions = scatter 0 data positions := by
  cases data <;> simp [permuteVector, scatter]

theorem splitVectorBySize_eq {α : Type} (vec : List α) (sizes : List ℕ) :
    splitVectorBySize vec sizes = sizes.splitLengths vec := by
  cases vec with
  | cons a vec => rfl
  | nil =>
    simp only [splitVectorBySize, List.isEmpty_nil, ↓reduceIte]
    induction sizes with
    | nil => rfl
    | cons n sizes ih => simp [List.replicate_succ, ih]

namespace BatchMetadata

variable {W : Type}

def isAttention (m : BatchMetadata W) : Bool := m.batchTag == .attention

def isExpert (m : BatchMetadata W) : Bool := m.batchTag == .expert

def isTokenizer (m : BatchMetadata W) : Bool := m.batchTag == .tokenizer

def numTokens (m : BatchMetadata W) : ℕ := m.shape.1

def tokenHiddenDim (m : BatchMetadata W) : ℕ := m.shape.2

def attentionBatchSafeCheck (m : BatchMetadata W) : Bool :=
  m.numPrefillTokens.isSome && m.numPrefillSeqs.isSome && m.numDecodeTokens.isSome &&
    m.numPrefillTokens == m.numPrefillSeqs

def stepLayer (m : BatchMetadata W) : BatchMetadata W := { m with layerId := m.layerId + 1 }

/-! ### Permutation and duplication -/

def permuteTokenInfos [Zero W] (m : BatchMetadata W) (positions : List ℕ) :
    Except Fault (BatchMetadata W) :=
  if positions.isEmpty then .ok m
  else if m.numTokens = positions.length then
    .ok { m with
      reqIds := permuteVector m.reqIds positions
      expIds := permuteVector m.expIds positions
      attnDpRanks := permuteVector m.attnDpRanks positions
      initPrefillLens := permuteVector m.initPrefillLens positions
      topkWeights := permuteVector m.topkWeights positions }
  else .error (.assertion "num_tokens() == positions.size()")

def duplicateTopk (m : BatchMetadata W) (topk : ℕ) : BatchMetadata W :=
  if topk = 1 then m
  else { m with
    reqIds := duplicateVector m.reqIds topk
    initPrefillLens := duplicateVector m.initPrefillLens topk
    attnDpRanks := duplicateVector m.attnDpRanks topk
    topkWeights := duplicateVector m.topkWeights topk
    shape := (m.shape.1 * topk, m.shape.2) }

def indexSelect [Zero W] (m : BatchMetadata W) (indices : List ℕ) : BatchMetadata W where
  batchTag := m.batchTag
  shape := (indices.length, m.shape.2)
  dtype := m.dtype
  layerId := m.layerId
  reqIds := indexSelectVector m.reqIds indices
  expIds := indexSelectVector m.expIds indices
  topkWeights := indexSelectVector m.topkWeights indices
  attnDpRanks := indexSelectVector m.attnDpRanks indices
  initPrefillLens := indexSelectVector m.initPrefillLens indices

/-! ### Order of an attention dispatch -/

/-- The comparator of `sort_by_attention` on token indices: by rank, then first
tokens before later ones, then first tokens by request. -/
def attentionBefore (m : BatchMetadata W) (i j : ℕ) : Bool :=
  if m.attnDpRanks.getD i 0 ≠ m.attnDpRanks.getD j 0 then
    m.attnDpRanks.getD i 0 < m.attnDpRanks.getD j 0
  else if m.initPrefillLens.getD i 0 = -1 ∨ m.initPrefillLens.getD j 0 = -1 then
    m.initPrefillLens.getD i 0 > m.initPrefillLens.getD j 0
  else m.reqIds.getD i 0 < m.reqIds.getD j 0

/-- Token indices in dispatch order. -/
def attentionRank (S : ComparatorSort) (m : BatchMetadata W) : List ℕ :=
  S.sort m.attentionBefore (List.range m.reqIds.length)

/-- Returns the positions as well: token `i` moves to `positions[i]`. -/
def sortByAttention [Zero W] (S : ComparatorSort) (m : BatchMetadata W) :
    Except Fault (BatchMetadata W × List ℕ) := do
  let positions := inversePositions (m.attentionRank S)
  let sorted ← m.permuteTokenInfos positions
  return (sorted, positions)

/-! ### Order of an expert dispatch -/

def maxNumExperts : ℕ := 128

/-- `expert_cnts[eid] ++` for each expert id. -/
def countExperts (cnts : List ℕ) : List ℕ → Except Fault (List ℕ)
  | [] => .ok cnts
  | eid :: eids =>
    if eid < cnts.length then countExperts (cnts.set eid (cnts.getD eid 0 + 1)) eids
    else .error (.outOfRange "expert_cnts[eid]")

/-- `expert_cnts[i] += expert_cnts[i - 1]`, left to right. -/
def prefixSums (before : ℕ) : List ℕ → List ℕ
  | [] => []
  | c :: cnts => (before + c) :: prefixSums (before + c) cnts

/-- The destinations of the tokens. Expert `0` counts in a variable of its own;
every other expert counts in the entry below it, which starts at the number of
tokens of smaller experts. -/
def expertPositions (firstExpertCnt : ℕ) (cnts : List ℕ) : List ℕ → Except Fault (List ℕ)
  | [] => .ok []
  | 0 :: eids => do
    let rest ← expertPositions (firstExpertCnt + 1) cnts eids
    return firstExpertCnt :: rest
  | (e + 1) :: eids => do
    if e < cnts.length then
      let rest ← expertPositions firstExpertCnt (cnts.set e (cnts.getD e 0 + 1)) eids
      return cnts.getD e 0 :: rest
    else .error (.outOfRange "expert_cnts[exp_ids[i] - 1]")

/-- The counting sort shared by `sort_by_expert` and `merge_by_expert`: all ids
are counted, the first `n` are placed. -/
def expertDestinations (eids : List ℕ) (n : ℕ) : Except Fault (List ℕ) := do
  let cnts ← countExperts (List.replicate maxNumExperts 0) eids
  if n ≤ eids.length then expertPositions 0 (prefixSums 0 cnts) (eids.take n)
  else .error (.outOfRange "exp_ids[i]")

/-- Returns the positions as well: token `i` moves to `positions[i]`. -/
def sortByExpert [Zero W] (m : BatchMetadata W) : Except Fault (BatchMetadata W × List ℕ) := do
  let positions ← expertDestinations m.expIds m.numTokens
  let sorted ← m.permuteTokenInfos positions
  return (sorted, positions)

/-! ### Splitting -/

/-- The number of entries that are not `-1`, which `split_with_sizes` and
`process_attn_batch` count as prefill tokens. -/
def countPrefill (initPrefillLens : List ℤ) : ℕ := initPrefillLens.countP (· ≠ -1)

def splitWithSizes (m : BatchMetadata W) (sizes : List ℕ) : List (BatchMetadata W) :=
  let splitReqIds := splitVectorBySize m.reqIds sizes
  let splitExpIds := splitVectorBySize m.expIds sizes
  let splitAttnDpRanks := splitVectorBySize m.attnDpRanks sizes
  let splitInitPrefillLens := splitVectorBySize m.initPrefillLens sizes
  let splitTopkWeights := splitVectorBySize m.topkWeights sizes
  sizes.mapIdx fun i size =>
    let piece : BatchMetadata W :=
      { batchTag := m.batchTag
        shape := (size, m.shape.2)
        dtype := m.dtype
        layerId := m.layerId
        reqIds := splitReqIds.getD i []
        expIds := splitExpIds.getD i []
        topkWeights := splitTopkWeights.getD i []
        attnDpRanks := splitAttnDpRanks.getD i []
        initPrefillLens := splitInitPrefillLens.getD i [] }
    if m.isAttention then
      let numPrefill := countPrefill (splitInitPrefillLens.getD i [])
      { piece with
        numPrefillSeqs := some numPrefill
        numPrefillTokens := some numPrefill
        numDecodeTokens := some (size - numPrefill) }
    else piece

/-! ### Merging -/

/-- A batch without weights leaves its entries of the merged column at zero. -/
def weightsOrZero [Zero W] (m : BatchMetadata W) : List W :=
  if m.topkWeights.isEmpty then List.replicate m.numTokens 0 else m.topkWeights

/-- Returns the positions as well: row `idx` of the batches in order moves to
`positions[idx]`. -/
def mergeByExpert [Zero W] (metas : List (BatchMetadata W)) :
    Except Fault (BatchMetadata W × List ℕ) :=
  match metas with
  | [] => .error (.outOfRange "metas[0]")
  | first :: _ =>
    if metas.all (fun m => m.numTokens == m.expIds.length) then do
      let positions ← expertDestinations (metas.flatMap (·.expIds)) (metas.map (·.numTokens)).sum
      return ({
        batchTag := .expert
        shape := ((metas.map (·.numTokens)).sum, first.shape.2)
        dtype := first.dtype
        layerId := first.layerId
        reqIds := scatter 0 (metas.flatMap (·.reqIds)) positions
        expIds := scatter 0 (metas.flatMap (·.expIds)) positions
        topkWeights := scatter 0 (metas.flatMap (·.weightsOrZero)) positions
        attnDpRanks := scatter 0 (metas.flatMap (·.attnDpRanks)) positions
        initPrefillLens := scatter 0 (metas.flatMap (·.initPrefillLens)) positions }, positions)
    else .error (.assertion "meta->num_tokens() == meta->exp_ids.size()")

/-- The entries of a column at the prefill tokens of a batch. -/
def prefillPart {α : Type} (m : BatchMetadata W) (column : List α) : List α :=
  column.take (m.numPrefillSeqs.getD 0)

/-- The entries of a column at the decode tokens of a batch. -/
def decodePart {α : Type} (m : BatchMetadata W) (column : List α) : List α :=
  (column.drop (m.numPrefillSeqs.getD 0)).take (m.numDecodeTokens.getD 0)

/-- All prefill tokens, batch by batch, then all decode tokens. -/
def mergeByAttention (metas : List (BatchMetadata W)) : Except Fault (BatchMetadata W) :=
  match metas with
  | [] => .error (.outOfRange "metas[0]")
  | first :: _ =>
    if metas.all (·.attentionBatchSafeCheck) then
      let newReqIds := metas.flatMap (fun m => m.prefillPart m.reqIds) ++
        metas.flatMap (fun m => m.decodePart m.reqIds)
      .ok {
        batchTag := .attention
        shape := (newReqIds.length, first.shape.2)
        dtype := first.dtype
        layerId := first.layerId
        reqIds := newReqIds
        expIds := []
        topkWeights := []
        attnDpRanks := []
        initPrefillLens := metas.flatMap (fun m => m.prefillPart m.initPrefillLens) ++
          metas.flatMap (fun m => m.decodePart m.initPrefillLens)
        numPrefillSeqs := some (metas.map (fun m => m.numPrefillSeqs.getD 0)).sum
        numPrefillTokens := some (metas.map (fun m => m.numPrefillTokens.getD 0)).sum
        numDecodeTokens := some (metas.map (fun m => m.numDecodeTokens.getD 0)).sum }
    else .error (.assertion "meta->attention_batch_safe_check()")

/-! ### Views for the expert kernels -/

def getExpertBatchSizes (m : BatchMetadata W) (nExpert : ℕ) : Except Fault (List ℕ) :=
  if 0 < nExpert then countExperts (List.replicate nExpert 0) m.expIds
  else .error (.assertion "n_expert > 0")

/-- The local ids of the experts of the tokens; `-1` marks an expert that is not
local. -/
def getTokenExpertIndices (m : BatchMetadata W) (globalToLocal : List ℤ) :
    Except Fault (List ℤ) :=
  (List.range m.numTokens).mapM fun i =>
    match m.expIds[i]? with
    | none => .error (.outOfRange "exp_ids[i]")
    | some e =>
      match globalToLocal[e]? with
      | none => .error (.outOfRange "global_to_local_expert_rank[exp_ids[i]]")
      | some l =>
        if l = -1 then .error (.assertion "global_to_local_expert_rank[exp_ids[i]] != -1") else .ok l

end BatchMetadata

end StreamInfer.Batch
