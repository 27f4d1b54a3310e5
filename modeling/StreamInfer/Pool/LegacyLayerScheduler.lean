import StreamInfer.Fault
import StreamInfer.General.Fallible
import StreamInfer.General.Int32

/-! `LegacyLayerScheduler`. A policy picks a layer from the counts of tokens and
batches, and the scheduler clears that layer's counts. Layers are `int`s: a policy
answers -1 when its loop finds no layer, and every array access is checked here.
Blocks of one layer make the block policy take the largest layer, and one block of
all layers makes it take the first layer with tokens. All of this rests on some block
adding up to more than nothing in an `int`: on empty counts, or where every sum wraps
around, the -1 reaches an array. -/

namespace StreamInfer.Pool

open General General.Stateful

inductive LayerScheduleType where
  | mbfs
  | flfs
  | mbflfs
  | mbtfs
  | bin
  deriving DecidableEq, Repr

structure LegacyLayerScheduler where
  nLayers : ℕ
  lookbackSteps : ℕ
  numTokensInLayer : List ℕ
  numBatchesInLayer : List ℕ
  historyTokensInLayer : List (List ℕ)
  sumHistoryTokensInLayer : List ℤ
  type : LayerScheduleType
  blockSize : ℕ+

namespace LegacyLayerScheduler

/-- The constructor. -/
def create (nLayers : ℕ) (type : LayerScheduleType) (lookbackSteps : ℕ) (blockSize : ℕ+) :
    LegacyLayerScheduler where
  nLayers := nLayers
  lookbackSteps := lookbackSteps
  numTokensInLayer := List.replicate nLayers 0
  numBatchesInLayer := List.replicate nLayers 0
  historyTokensInLayer := if 0 < lookbackSteps then List.replicate nLayers [] else []
  sumHistoryTokensInLayer := if 0 < lookbackSteps then List.replicate nLayers 0 else []
  type := type
  blockSize := blockSize

/-- An access of an array at an `int`. -/
def entryAt (access : String) (xs : List ℕ) (i : ℤ) : Except Fault ℕ :=
  if 0 ≤ i then
    match xs[i.toNat]? with
    | some x => .ok x
    | none => .error (.outOfRange access)
  else .error (.outOfRange access)

def numTokens (s : LegacyLayerScheduler) (i : ℤ) : Except Fault ℕ :=
  entryAt "num_tokens_in_layer[i]" s.numTokensInLayer i

def numBatches (s : LegacyLayerScheduler) (i : ℤ) : Except Fault ℕ :=
  entryAt "num_batches_in_layer[i]" s.numBatchesInLayer i

/-! ### Policies -/

/-- `_schedule_mbfs`. -/
def scheduleMbfs (s : LegacyLayerScheduler) : Except Fault ℤ :=
  (List.range s.nLayers).foldlM (fun scheduled (i : ℕ) => do
    let here ← s.numTokens i
    let most ← s.numTokens scheduled
    return if here > most then (i : ℤ) else scheduled) 0

/-- The loop from a layer on that stops at the first one with tokens. -/
def firstWithTokens (s : LegacyLayerScheduler) (i : ℤ) : ℕ → Except Fault ℤ
  | 0 => .ok (-1)
  | passes + 1 => do
    let here ← s.numTokens i
    if here > 0 then return i else s.firstWithTokens (i + 1) passes

/-- `_schedule_flfs`. -/
def scheduleFlfs (s : LegacyLayerScheduler) : Except Fault ℤ :=
  s.firstWithTokens 0 s.nLayers

/-- `min(i + block_size, n_layers)`. Where the sum wraps around, the loop over the blocks
goes on from it and reads before the arrays. -/
def blockLimit (s : LegacyLayerScheduler) (i : ℤ) : Except Fault ℤ :=
  if i + s.blockSize < 2 ^ 31 then .ok (min (i + s.blockSize) s.nLayers)
  else .error (.outOfRange "num_tokens_in_layer[j]")

/-- The sum of the counts of the block from a layer on; the last block may be short. -/
def blockSum (s : LegacyLayerScheduler) (i : ℕ) : Except Fault ℤ := do
  let limit ← s.blockLimit i
  (List.range (limit - i).toNat).foldlM (fun sum j => do
    let here ← s.numTokens (i + j : ℕ)
    return int32 (sum + here)) 0

def numBlocks (s : LegacyLayerScheduler) : ℕ := (s.nLayers + (s.blockSize - 1)) / s.blockSize

/-- The largest sum and its block's first layer. -/
def largestBlock (s : LegacyLayerScheduler) : Except Fault (ℤ × ℤ) :=
  (List.range s.numBlocks).foldlM (fun best block => do
    let sum ← s.blockSum (block * s.blockSize)
    return if sum > best.1 then (sum, ((block * s.blockSize : ℕ) : ℤ)) else best) (0, -1)

/-- `_schedule_mbflfs`. -/
def scheduleMbflfs (s : LegacyLayerScheduler) : Except Fault ℤ := do
  let largest ← s.largestBlock
  let limit ← s.blockLimit largest.2
  s.firstWithTokens largest.2 (limit - largest.2).toNat

/-- A layer, its batches and its tokens. -/
def mostBatches (s : LegacyLayerScheduler) : Except Fault (ℤ × ℕ × ℕ) :=
  (List.range s.nLayers).foldlM (fun best (i : ℕ) => do
    let batches ← s.numBatches i
    let tokens ← s.numTokens i
    return if batches > best.2.1 ∨ batches = best.2.1 ∧ tokens > best.2.2 then
        ((i : ℤ), batches, tokens) else best) (-1, 0, 0)

/-- `_schedule_batches_tokens`. -/
def scheduleBatchesTokens (s : LegacyLayerScheduler) : Except Fault ℤ := do
  let best ← s.mostBatches
  return best.1

/-- The `switch` of `schedule`. -/
def choose (s : LegacyLayerScheduler) : Except Fault ℤ :=
  match s.type with
  | .mbfs => s.scheduleMbfs
  | .flfs => s.scheduleFlfs
  | .mbflfs => s.scheduleMbflfs
  | .mbtfs => s.scheduleBatchesTokens
  | .bin => .error (.assertion "Unknown schedule type.")

/-! ### A decision -/

/-- One pass of `step_end`. -/
def stepEndAt (i : ℕ) : EStateM Fault LegacyLayerScheduler Unit := do
  let s ← get
  let history ← readAt "history_tokens_in_layer[i]" s.historyTokensInLayer i
  let sum ← readAt "sum_history_tokens_in_layer[i]" s.sumHistoryTokensInLayer i
  let tokens ← readAt "num_tokens_in_layer[i]" s.numTokensInLayer i
  let dropped := if s.lookbackSteps ≤ history.length then (history.headD 0 : ℤ) else 0
  let kept := if s.lookbackSteps ≤ history.length then history.tail else history
  set { s with
    historyTokensInLayer := s.historyTokensInLayer.set i (kept ++ [tokens])
    sumHistoryTokensInLayer := s.sumHistoryTokensInLayer.set i (int32 (int32 (sum - dropped) + tokens)) }

def stepEnd : EStateM Fault LegacyLayerScheduler Unit := do
  let s ← get
  if s.lookbackSteps = 0 then pure () else forM (List.range s.nLayers) stepEndAt

def cleanLayerStatus (layerId : ℤ) : EStateM Fault LegacyLayerScheduler Unit := do
  let s ← get
  if 0 ≤ layerId ∧ layerId < s.numTokensInLayer.length ∧ layerId < s.numBatchesInLayer.length then
    set { s with
      numTokensInLayer := s.numTokensInLayer.set layerId.toNat 0
      numBatchesInLayer := s.numBatchesInLayer.set layerId.toNat 0 }
  else throw (.outOfRange "num_tokens_in_layer[layer_id]")

def schedule : EStateM Fault LegacyLayerScheduler ℤ := do
  let s ← get
  match s.choose with
  | .error e => throw e
  | .ok layerId =>
    stepEnd
    cleanLayerStatus layerId
    return layerId

/-- One entry of every array for each layer, and counts that are `int`s. -/
structure WellFormed (s : LegacyLayerScheduler) : Prop where
  pos : 0 < s.nLayers
  tokens : s.numTokensInLayer.length = s.nLayers
  ints : ∀ tokens ∈ s.numTokensInLayer, tokens < 2 ^ 31
  batches : s.numBatchesInLayer.length = s.nLayers
  history : s.lookbackSteps ≠ 0 → s.historyTokensInLayer.length = s.nLayers
  sums : s.lookbackSteps ≠ 0 → s.sumHistoryTokensInLayer.length = s.nLayers

theorem create_wellFormed {nLayers : ℕ} (hpos : 0 < nLayers) (type : LayerScheduleType)
    (lookbackSteps : ℕ) (blockSize : ℕ+) :
    (create nLayers type lookbackSteps blockSize).WellFormed := by
  refine ⟨hpos, List.length_replicate, fun tokens htokens => ?_, List.length_replicate,
    fun h => ?_, fun h => ?_⟩
  · rw [List.eq_of_mem_replicate htokens]
    decide
  · have h : 0 < lookbackSteps := Nat.pos_of_ne_zero h
    show (if 0 < lookbackSteps then List.replicate nLayers [] else []).length = nLayers
    rw [if_pos h, List.length_replicate]
  · have h : 0 < lookbackSteps := Nat.pos_of_ne_zero h
    show (if 0 < lookbackSteps then List.replicate nLayers (0 : ℤ) else []).length = nLayers
    rw [if_pos h, List.length_replicate]

variable {s : LegacyLayerScheduler}

/-- The tokens of a layer. -/
def tokensAt (s : LegacyLayerScheduler) (i : ℕ) : ℕ := s.numTokensInLayer.getD i 0

/-! ### Accesses -/

theorem entryAt_eq {access : String} {xs : List ℕ} {i : ℕ} (hi : i < xs.length) :
    entryAt access xs i = .ok (xs.getD i 0) := by
  rw [entryAt, if_pos (Int.natCast_nonneg i), Int.toNat_natCast, List.getD_eq_getElem?_getD,
    List.getElem?_eq_getElem hi]
  rfl

theorem WellFormed.numTokens_eq (h : s.WellFormed) {i : ℕ} (hi : i < s.nLayers) :
    s.numTokens i = .ok (s.tokensAt i) := entryAt_eq (h.tokens.symm ▸ hi)

theorem WellFormed.numBatches_eq (h : s.WellFormed) {i : ℕ} (hi : i < s.nLayers) :
    ∃ batches, s.numBatches i = .ok batches := ⟨_, entryAt_eq (h.batches.symm ▸ hi)⟩

/-! ### The first layer with tokens -/

/-- The first layer with tokens from one layer up to another. -/
def FirstIn (s : LegacyLayerScheduler) (lo hi id : ℕ) : Prop :=
  lo ≤ id ∧ id < hi ∧ 0 < s.tokensAt id ∧ ∀ j, lo ≤ j → j < id → s.tokensAt j = 0

theorem WellFormed.firstWithTokens_ok (h : s.WellFormed) {lo passes : ℕ}
    (hle : lo + passes ≤ s.nLayers) {i : ℕ} (hlo : lo ≤ i) (hi : i < lo + passes)
    (hpos : 0 < s.tokensAt i) :
    ∃ id : ℕ, s.firstWithTokens lo passes = .ok id ∧ s.FirstIn lo (lo + passes) id := by
  induction passes generalizing lo with
  | zero => omega
  | succ passes ih =>
    rw [firstWithTokens, h.numTokens_eq (by omega)]
    by_cases hhere : 0 < s.tokensAt lo
    · refine ⟨lo, if_pos hhere, le_rfl, by omega, hhere, fun j hj hj' => by omega⟩
    · have hne : i ≠ lo := fun hi => hhere (hi ▸ hpos)
      obtain ⟨id, hid, hfirst⟩ := ih (show lo + 1 + passes ≤ s.nLayers by omega) (by omega) (by omega)
      refine ⟨id, ?_, by have := hfirst.1; omega, by have := hfirst.2.1; omega, hfirst.2.2.1, ?_⟩
      · show (if s.tokensAt lo > 0 then pure (lo : ℤ) else s.firstWithTokens (lo + 1) passes) = _
        rw [if_neg hhere]
        exact_mod_cast hid
      · intro j hj hj'
        rcases Nat.eq_or_lt_of_le hj with rfl | hj
        · omega
        · exact hfirst.2.2.2 j hj hj'

/-! ### The largest layer and the largest block -/

/-- The first layer that has the most tokens. -/
def FirstLargest (s : LegacyLayerScheduler) (n id : ℕ) : Prop :=
  (∀ j < n, s.tokensAt j ≤ s.tokensAt id) ∧ ∀ j < id, s.tokensAt j < s.tokensAt id

theorem FirstLargest.unique {n id id' : ℕ} (h : s.FirstLargest n id) (h' : s.FirstLargest n id')
    (hid : id < n) (hid' : id' < n) : id = id' := by
  have hle := h.1 id' hid'
  have hle' := h'.1 id hid
  rcases Nat.lt_trichotomy id id' with hlt | heq | hgt
  · have := h'.2 id hlt
    omega
  · exact heq
  · have := h.2 id' hgt
    omega

theorem WellFormed.scheduleMbfs_ok (h : s.WellFormed) :
    ∃ id : ℕ, s.scheduleMbfs = .ok id ∧ id < s.nLayers ∧ s.FirstLargest s.nLayers id := by
  have hrun : ∃ scheduled, s.scheduleMbfs = .ok scheduled ∧
      ∃ id : ℕ, scheduled = id ∧ id < s.nLayers ∧ s.FirstLargest s.nLayers id := by
    refine exists_foldlM_range_ok
      (I := fun i (scheduled : ℤ) => ∃ id : ℕ, scheduled = id ∧ id < s.nLayers ∧ s.FirstLargest i id)
      ⟨0, Nat.cast_zero.symm, h.pos, by simp [FirstLargest]⟩ ?_
    rintro i hi _ ⟨id, rfl, hid, hmost, hfirst⟩
    refine ⟨if s.tokensAt i > s.tokensAt id then (i : ℤ) else id, ?_, ?_⟩
    · rw [h.numTokens_eq hi, h.numTokens_eq hid]
      rfl
    · split_ifs with hmore
      · refine ⟨i, rfl, hi, fun j hj => ?_, fun j hj => ?_⟩
        · rcases Nat.lt_succ_iff_lt_or_eq.mp hj with hj | rfl
          · exact (hmost j hj).trans hmore.le
          · exact le_rfl
        · exact (hmost j hj).trans_lt hmore
      · refine ⟨id, rfl, hid, fun j hj => ?_, hfirst⟩
        rcases Nat.lt_succ_iff_lt_or_eq.mp hj with hj | rfl
        · exact hmost j hj
        · exact not_lt.mp hmore
  obtain ⟨_, hok, id, rfl, hid, hlargest⟩ := hrun
  exact ⟨id, hok, hid, hlargest⟩

/-- The tokens of a block, which the end of the layers may cut short. -/
def tokensIn (s : LegacyLayerScheduler) (lo hi : ℕ) : ℕ :=
  ∑ j ∈ Finset.Ico lo hi, s.tokensAt j

theorem tokensIn_pos {lo hi : ℕ} : 0 < s.tokensIn lo hi ↔ ∃ i, lo ≤ i ∧ i < hi ∧ 0 < s.tokensAt i := by
  rw [tokensIn, Finset.sum_pos_iff]
  simp only [Finset.mem_Ico, and_assoc]

theorem WellFormed.tokensAt_lt (h : s.WellFormed) (i : ℕ) : s.tokensAt i < 2 ^ 31 := by
  rw [tokensAt, List.getD_eq_getElem?_getD]
  cases hi : s.numTokensInLayer[i]? with
  | none => decide
  | some tokens => exact h.ints tokens (List.mem_of_getElem? hi)

theorem WellFormed.lt_of_tokens (h : s.WellFormed) {i : ℕ} (hi : 0 < s.tokensAt i) : i < s.nLayers := by
  by_contra hge
  rw [tokensAt, List.getD_eq_default _ _ (by rw [h.tokens]; omega)] at hi
  omega

theorem blockLimit_eq {i : ℤ} (hlimit : i + s.blockSize < 2 ^ 31) :
    s.blockLimit i = .ok (min (i + s.blockSize) s.nLayers) := if_pos hlimit

theorem WellFormed.blockSum_ok (h : s.WellFormed) {i : ℕ} (hlimit : i + (s.blockSize : ℕ) < 2 ^ 31) :
    s.blockSum i = .ok (int32 (s.tokensIn i (min (i + s.blockSize) s.nLayers))) := by
  have hpasses : (min ((i : ℤ) + s.blockSize) s.nLayers - i).toNat =
      min (i + s.blockSize) s.nLayers - i := by omega
  have hrun : ∃ sum, s.blockSum i = .ok sum ∧
      sum = int32 (s.tokensIn i (i + (min (i + s.blockSize) s.nLayers - i))) := by
    rw [blockSum, blockLimit_eq (by omega), ← hpasses]
    refine exists_foldlM_range_ok (I := fun j sum => sum = int32 (s.tokensIn i (i + j))) ?_ ?_
    · simp [tokensIn]
    · rintro j hj _ rfl
      refine ⟨_, by rw [h.numTokens_eq (show i + j < s.nLayers by omega)]; rfl, ?_⟩
      rw [int32_add, ← Nat.add_assoc, tokensIn, tokensIn, Finset.sum_Ico_succ_top (Nat.le_add_right i j)]
      norm_cast
  obtain ⟨_, hok, rfl⟩ := hrun
  rw [hok]
  by_cases hi : i ≤ min (i + s.blockSize) s.nLayers
  · rw [Nat.add_sub_cancel' hi]
  · rw [tokensIn, tokensIn, Finset.Ico_eq_empty (by omega), Finset.Ico_eq_empty (by omega)]

/-! ### Blocks -/

/-- The layers of a block. -/
def blockEnd (s : LegacyLayerScheduler) (block : ℕ) : ℕ :=
  min (block * s.blockSize + s.blockSize) s.nLayers

/-- The tokens of a block as an `int`. -/
def blockTokens (s : LegacyLayerScheduler) (block : ℕ) : ℤ :=
  int32 (s.tokensIn (block * s.blockSize) (s.blockEnd block))

/-- No layer is so far back that a block from it ends past the largest `int`. -/
def InRange (s : LegacyLayerScheduler) : Prop := s.nLayers ≤ 2 ^ 30 ∧ (s.blockSize : ℕ) < 2 ^ 31

theorem lt_numBlocks {block : ℕ} : block < s.numBlocks ↔ block * s.blockSize < s.nLayers := by
  have hb := s.blockSize.pos
  rw [numBlocks, Nat.lt_iff_add_one_le, Nat.le_div_iff_mul_le hb, Nat.add_mul, Nat.one_mul]
  omega

theorem InRange.limit (h : s.InRange) {block : ℕ} (hblock : block < s.numBlocks) :
    block * s.blockSize + (s.blockSize : ℕ) < 2 ^ 31 := by
  obtain ⟨hn, hb⟩ := h
  have hlt := lt_numBlocks.mp hblock
  cases block with
  | zero => omega
  | succ block =>
    have hle : (s.blockSize : ℕ) ≤ (block + 1) * s.blockSize :=
      Nat.le_mul_of_pos_left _ (Nat.succ_pos block)
    omega

/-- A sum that is positive as an `int` is one of a layer with tokens. -/
theorem exists_of_blockTokens {block : ℕ} (hpos : 0 < s.blockTokens block) :
    ∃ i, block * s.blockSize ≤ i ∧ i < s.blockEnd block ∧ 0 < s.tokensAt i := by
  refine tokensIn_pos.mp (Nat.pos_of_ne_zero fun hzero => ?_)
  rw [blockTokens, hzero, Nat.cast_zero, int32_zero] at hpos
  exact lt_irrefl 0 hpos

theorem lt_numBlocks_of_blockTokens {block : ℕ} (hpos : 0 < s.blockTokens block) :
    block < s.numBlocks := by
  obtain ⟨i, hlo, hhi, -⟩ := exists_of_blockTokens hpos
  exact lt_numBlocks.mpr (hlo.trans_lt (hhi.trans_le (min_le_right _ _)))

/-- What the blocks before one leave: no block yet, or the first of the largest. -/
def BestBlock (s : LegacyLayerScheduler) (n : ℕ) (best : ℤ × ℤ) : Prop :=
  (best = (0, -1) ∧ ∀ j < n, s.blockTokens j ≤ 0) ∨
    ∃ k < n, best = (s.blockTokens k, ((k * s.blockSize : ℕ) : ℤ)) ∧ 0 < s.blockTokens k ∧
      (∀ j < n, s.blockTokens j ≤ s.blockTokens k) ∧ ∀ j < k, s.blockTokens j < s.blockTokens k

theorem WellFormed.largestBlock_ok (h : s.WellFormed) (hr : s.InRange) :
    ∃ best, s.largestBlock = .ok best ∧ s.BestBlock s.numBlocks best := by
  refine exists_foldlM_range_ok (I := s.BestBlock) (.inl ⟨rfl, by simp⟩) ?_
  intro n hn best hbest
  refine ⟨_, by rw [h.blockSum_ok (hr.limit hn)]; rfl, ?_⟩
  show s.BestBlock (n + 1) (if s.blockTokens n > best.1 then
    (s.blockTokens n, ((n * s.blockSize : ℕ) : ℤ)) else best)
  split_ifs with hmore
  · have hlt : ∀ j < n, s.blockTokens j < s.blockTokens n := by
      intro j hj
      rcases hbest with ⟨rfl, hzero⟩ | ⟨k, hk, rfl, hpos, hmost, hfirst⟩
      · exact (hzero j hj).trans_lt hmore
      · exact (hmost j hj).trans_lt hmore
    have hpos : 0 < s.blockTokens n := by
      rcases hbest with ⟨rfl, -⟩ | ⟨k, -, rfl, hpos, -⟩
      · exact hmore
      · exact hpos.trans hmore
    refine .inr ⟨n, Nat.lt_succ_self n, rfl, hpos, fun j hj => ?_, hlt⟩
    rcases Nat.lt_succ_iff_lt_or_eq.mp hj with hj | rfl
    · exact (hlt j hj).le
    · exact le_rfl
  · rcases hbest with ⟨rfl, hzero⟩ | ⟨k, hk, rfl, hpos, hmost, hfirst⟩
    · refine .inl ⟨rfl, fun j hj => ?_⟩
      rcases Nat.lt_succ_iff_lt_or_eq.mp hj with hj | rfl
      · exact hzero j hj
      · exact not_lt.mp hmore
    · refine .inr ⟨k, Nat.lt_succ_of_lt hk, rfl, hpos, fun j hj => ?_, hfirst⟩
      rcases Nat.lt_succ_iff_lt_or_eq.mp hj with hj | rfl
      · exact hmost j hj
      · exact not_lt.mp hmore

theorem scheduleMbflfs_eq {best : ℤ × ℤ} (hrun : s.largestBlock = .ok best)
    (hlimit : best.2 + s.blockSize < 2 ^ 31) :
    s.scheduleMbflfs =
      s.firstWithTokens best.2 (min (best.2 + s.blockSize) s.nLayers - best.2).toNat := by
  rw [scheduleMbflfs, hrun]
  show (s.blockLimit best.2 >>= fun limit => s.firstWithTokens best.2 (limit - best.2).toNat) = _
  rw [blockLimit_eq hlimit]
  rfl

/-- Where some block adds up to more than nothing, the block policy picks the first
layer with tokens of the first block that has the most. -/
theorem WellFormed.scheduleMbflfs_ok (h : s.WellFormed) (hr : s.InRange) {block : ℕ}
    (hblock : 0 < s.blockTokens block) :
    ∃ k id : ℕ, s.scheduleMbflfs = .ok id ∧ k < s.numBlocks ∧
      s.FirstIn (k * s.blockSize) (s.blockEnd k) id ∧
      (∀ j < s.numBlocks, s.blockTokens j ≤ s.blockTokens k) ∧
      ∀ j < k, s.blockTokens j < s.blockTokens k := by
  obtain ⟨best, hrun, ⟨-, hzero⟩ | ⟨k, hk, rfl, hpos, hmost, hfirst⟩⟩ := h.largestBlock_ok hr
  · exact absurd hblock (not_lt.mpr (hzero block (lt_numBlocks_of_blockTokens hblock)))
  · obtain ⟨i, hlo, hhi, hi⟩ := exists_of_blockTokens hpos
    have hend : k * s.blockSize + (s.blockEnd k - k * s.blockSize) = s.blockEnd k :=
      Nat.add_sub_cancel' (hlo.trans hhi.le)
    have hinside : k * s.blockSize + (s.blockEnd k - k * s.blockSize) ≤ s.nLayers :=
      hend.trans_le (min_le_right _ _)
    obtain ⟨id, hid, hfirstIn⟩ := h.firstWithTokens_ok hinside hlo (hend.symm ▸ hhi) hi
    refine ⟨k, id, ?_, hk, hend ▸ hfirstIn, hmost, hfirst⟩
    have hlimit : ((k * s.blockSize : ℕ) : ℤ) + s.blockSize < 2 ^ 31 := by
      have := hr.limit hk
      omega
    have hpasses : (min (((k * s.blockSize : ℕ) : ℤ) + s.blockSize) s.nLayers -
        (k * s.blockSize : ℕ)).toNat = s.blockEnd k - k * s.blockSize := by
      rw [blockEnd]
      omega
    rw [scheduleMbflfs_eq hrun hlimit, hpasses]
    exact hid

/-- Where no block does, the block policy reads the entry before the first. -/
theorem WellFormed.scheduleMbflfs_none (h : s.WellFormed) (hr : s.InRange)
    (hnone : ∀ block, s.blockTokens block ≤ 0) : ∃ e, s.scheduleMbflfs = .error e := by
  obtain ⟨best, hrun, ⟨rfl, -⟩ | ⟨k, -, -, hpos, -, -⟩⟩ := h.largestBlock_ok hr
  · have hn := h.pos
    have hb := s.blockSize.pos
    have hlimit : -1 + (s.blockSize : ℤ) < 2 ^ 31 := by
      have := hr.2
      omega
    obtain ⟨passes, hpasses⟩ : ∃ passes,
        (min (-1 + (s.blockSize : ℤ)) s.nLayers - -1).toNat = passes + 1 :=
      ⟨(min (-1 + (s.blockSize : ℤ)) s.nLayers - -1).toNat - 1, by omega⟩
    refine ⟨.outOfRange "num_tokens_in_layer[i]", ?_⟩
    rw [scheduleMbflfs_eq hrun hlimit, hpasses]
    rfl
  · exact absurd hpos (not_lt.mpr (hnone k))

/-- Blocks that end past the largest `int` make the policy read before the arrays. -/
theorem scheduleMbflfs_past (hn : 2 ^ 30 < s.nLayers) (hb : (s.blockSize : ℕ) = 2 ^ 30) :
    ∃ e, s.scheduleMbflfs = .error e := by
  cases hrun : s.scheduleMbflfs with
  | error e => exact ⟨e, rfl⟩
  | ok id =>
    obtain ⟨best, hbest, -⟩ := bind_eq_ok_iff.mp hrun
    have hblocks : 1 < s.numBlocks := lt_numBlocks.mpr (by rw [hb]; exact hn)
    -- The second block starts at `2 ^ 30` and would end at `2 ^ 31`.
    have hone : s.numBlocks ≤ 1 := by
      refine foldlM_range_ok (I := fun n _ => n ≤ 1) (Nat.zero_le 1) (fun n _ best best' hle hpass => ?_)
        hbest
      obtain ⟨sum, hsum, -⟩ := bind_eq_ok_iff.mp hpass
      obtain ⟨limit, hlimit, -⟩ := bind_eq_ok_iff.mp hsum
      rcases Nat.eq_or_lt_of_le hle with rfl | hlt
      · rw [blockLimit, if_neg (by rw [Nat.one_mul]; omega)] at hlimit
        cases hlimit
      · omega
    omega

/-! ### The most batches -/

/-- What the layers before one leave: nothing, having seen no token, or a layer. -/
def MostOf (s : LegacyLayerScheduler) (n : ℕ) (best : ℤ × ℕ × ℕ) : Prop :=
  (best = (-1, 0, 0) ∧ ∀ j < n, s.tokensAt j = 0) ∨ ∃ k < s.nLayers, best.1 = (k : ℕ)

theorem WellFormed.mostBatches_ok (h : s.WellFormed) :
    ∃ best, s.mostBatches = .ok best ∧ s.MostOf s.nLayers best := by
  refine exists_foldlM_range_ok (I := s.MostOf) (.inl ⟨rfl, by simp⟩) ?_
  intro n hn best hbest
  obtain ⟨batches, hbatches⟩ := h.numBatches_eq hn
  refine ⟨_, by rw [hbatches, h.numTokens_eq hn]; rfl, ?_⟩
  show s.MostOf (n + 1) (if batches > best.2.1 ∨ batches = best.2.1 ∧ s.tokensAt n > best.2.2 then
    ((n : ℤ), batches, s.tokensAt n) else best)
  split_ifs with hmore
  · exact .inr ⟨n, hn, rfl⟩
  · rcases hbest with ⟨rfl, hzero⟩ | hlayer
    · refine .inl ⟨rfl, fun j hj => ?_⟩
      rcases Nat.lt_succ_iff_lt_or_eq.mp hj with hj | rfl
      · exact hzero j hj
      · dsimp only at hmore
        omega
    · exact .inr hlayer

/-- Where some layer has tokens, the policy picks a layer. -/
theorem WellFormed.scheduleBatchesTokens_ok (h : s.WellFormed) {i : ℕ} (hi : 0 < s.tokensAt i) :
    ∃ id : ℕ, s.scheduleBatchesTokens = .ok id ∧ id < s.nLayers := by
  obtain ⟨best, hrun, ⟨-, hzero⟩ | ⟨k, hk, hbest⟩⟩ := h.mostBatches_ok
  · have := hzero i (h.lt_of_tokens hi)
    omega
  · refine ⟨k, ?_, hk⟩
    rw [scheduleBatchesTokens, hrun, ← hbest]
    rfl

/-! ### A decision stays in range -/

/-- What `step_end` leaves as it was. -/
def SameCounts (s s' : LegacyLayerScheduler) : Prop :=
  s'.nLayers = s.nLayers ∧ s'.lookbackSteps = s.lookbackSteps ∧
    s'.numTokensInLayer = s.numTokensInLayer ∧ s'.numBatchesInLayer = s.numBatchesInLayer

theorem WellFormed.stepEndAt_ok (h : s.WellFormed) (hl : s.lookbackSteps ≠ 0) {i : ℕ}
    (hi : i < s.nLayers) : ∃ s', stepEndAt i s = .ok ⟨⟩ s' ∧ s'.WellFormed ∧ s.SameCounts s' := by
  have hhistory : i < s.historyTokensInLayer.length := h.history hl ▸ hi
  have hsum : i < s.sumHistoryTokensInLayer.length := h.sums hl ▸ hi
  have htokens : i < s.numTokensInLayer.length := h.tokens.symm ▸ hi
  refine ⟨_, by
    rw [stepEndAt, get_bind, readAt_eq hhistory, pure_bind, readAt_eq hsum, pure_bind,
      readAt_eq htokens, pure_bind]
    rfl, ?_, ?_⟩
  · refine ⟨h.pos, h.tokens, h.ints, h.batches, fun hl => ?_, fun hl => ?_⟩
    · exact List.length_set.trans (h.history hl)
    · exact List.length_set.trans (h.sums hl)
  · exact ⟨rfl, rfl, rfl, rfl⟩

theorem WellFormed.stepEnd_ok (h : s.WellFormed) :
    ∃ s', stepEnd s = .ok ⟨⟩ s' ∧ s'.WellFormed ∧ s.SameCounts s' := by
  rw [stepEnd, get_bind]
  split_ifs with hl
  · exact ⟨s, rfl, h, rfl, rfl, rfl, rfl⟩
  · refine exists_forM_ok (I := fun s' => s'.WellFormed ∧ s.SameCounts s') ?_ ⟨h, rfl, rfl, rfl, rfl⟩
    rintro i hi s₁ ⟨h₁, hn, hlook, htokens, hbatches⟩
    have hi : i < s₁.nLayers := hn.symm ▸ List.mem_range.mp hi
    obtain ⟨s₂, hok, h₂, hn', hlook', htokens', hbatches'⟩ := h₁.stepEndAt_ok (hlook.symm ▸ hl) hi
    exact ⟨s₂, hok, h₂, hn'.trans hn, hlook'.trans hlook, htokens'.trans htokens,
      hbatches'.trans hbatches⟩

/-- A decision for a layer in range clears that layer's counts. -/
theorem WellFormed.schedule_ok (h : s.WellFormed) {id : ℕ} (hid : s.choose = .ok id)
    (hlt : id < s.nLayers) :
    ∃ s', schedule s = .ok id s' ∧ s'.WellFormed ∧
      s'.numTokensInLayer = s.numTokensInLayer.set id 0 ∧
      s'.numBatchesInLayer = s.numBatchesInLayer.set id 0 := by
  obtain ⟨s₁, hok, h₁, hn, hlook, htokens, hbatches⟩ := h.stepEnd_ok
  have hrange : 0 ≤ (id : ℤ) ∧ (id : ℤ) < s₁.numTokensInLayer.length ∧
      (id : ℤ) < s₁.numBatchesInLayer.length := by
    rw [h₁.tokens, h₁.batches, hn]
    omega
  refine ⟨{ s₁ with
    numTokensInLayer := s₁.numTokensInLayer.set id 0
    numBatchesInLayer := s₁.numBatchesInLayer.set id 0 }, ?_, ?_, ?_, ?_⟩
  · rw [schedule, get_bind, hid]
    show (stepEnd >>= fun _ => cleanLayerStatus id >>= fun _ => pure (id : ℤ)) s = _
    rw [bind_of_ok hok, cleanLayerStatus, bind_assoc, get_bind, if_pos hrange]
    rfl
  · refine ⟨h₁.pos, List.length_set.trans h₁.tokens, fun tokens hmem => ?_,
      List.length_set.trans h₁.batches, h₁.history, h₁.sums⟩
    rcases List.mem_or_eq_of_mem_set hmem with hmem | rfl
    · exact h₁.ints tokens hmem
    · decide
  · rw [← htokens]
  · rw [← hbatches]

/-- A decision for no layer writes outside the arrays. -/
theorem WellFormed.schedule_none (h : s.WellFormed) (hid : s.choose = .ok (-1)) :
    ∃ s', schedule s = .error (.outOfRange "num_tokens_in_layer[layer_id]") s' := by
  obtain ⟨s₁, hok, h₁, -⟩ := h.stepEnd_ok
  refine ⟨s₁, ?_⟩
  rw [schedule, get_bind, hid]
  show (stepEnd >>= fun _ => cleanLayerStatus (-1) >>= fun _ => pure (-1 : ℤ)) s = _
  rw [bind_of_ok hok]
  rfl

/-! ### The policies together -/

/-- The same counts under another policy. -/
def withPolicy (s : LegacyLayerScheduler) (type : LayerScheduleType) (blockSize : ℕ+) :
    LegacyLayerScheduler := { s with type := type, blockSize := blockSize }

theorem WellFormed.withPolicy (h : s.WellFormed) (type : LayerScheduleType) (blockSize : ℕ+) :
    (s.withPolicy type blockSize).WellFormed := ⟨h.pos, h.tokens, h.ints, h.batches, h.history, h.sums⟩

theorem firstWithTokens_withPolicy (s : LegacyLayerScheduler) (type : LayerScheduleType)
    (blockSize : ℕ+) (i : ℤ) (passes : ℕ) :
    (s.withPolicy type blockSize).firstWithTokens i passes = s.firstWithTokens i passes := by
  induction passes generalizing i with
  | zero => rfl
  | succ passes ih =>
    simp only [firstWithTokens, ih]
    rfl

/-- The first-layer policy looks at the counts only. -/
theorem scheduleFlfs_withPolicy (s : LegacyLayerScheduler) (type : LayerScheduleType)
    (blockSize : ℕ+) : (s.withPolicy type blockSize).scheduleFlfs = s.scheduleFlfs :=
  firstWithTokens_withPolicy s type blockSize 0 s.nLayers

/-- Blocks of one layer choose as `MBFS` does and one block of all layers as `FLFS`
does, and a decision under any of the policies accesses the arrays in range. -/
def PoliciesRelate (s : LegacyLayerScheduler) : Prop :=
  (s.withPolicy .mbflfs 1).choose = (s.withPolicy .mbfs s.blockSize).choose ∧
    (∀ b : ℕ+, (b : ℕ) = s.nLayers →
      (s.withPolicy .mbflfs b).choose = (s.withPolicy .flfs s.blockSize).choose) ∧
    ∀ type ∈ [LayerScheduleType.mbfs, .flfs, .mbflfs, .mbtfs], ∀ b : ℕ+, (b : ℕ) < 2 ^ 31 →
      ∃ id s', schedule (s.withPolicy type b) = .ok id s' ∧ 0 ≤ id ∧ id < s.nLayers

/-- The layers are few enough for blocks to end at an `int`, and blocks of any size have
one whose tokens add up to more than nothing as an `int`. -/
def BlocksAddUp (s : LegacyLayerScheduler) : Prop :=
  s.nLayers ≤ 2 ^ 30 ∧ ∀ b : ℕ+, (b : ℕ) < 2 ^ 31 →
    ∃ block : ℕ, 0 < int32 (s.tokensIn (block * b) (min (block * b + b) s.nLayers))

/-- Tokens that add up to an `int` in all do so in every block. -/
theorem WellFormed.blocksAddUp (h : s.WellFormed) (hn : s.nLayers ≤ 2 ^ 30)
    (htotal : s.tokensIn 0 s.nLayers < 2 ^ 31) {i : ℕ} (hi : 0 < s.tokensAt i) : s.BlocksAddUp := by
  refine ⟨hn, fun b _ => ⟨i / b, ?_⟩⟩
  have hlo : i / b * b ≤ i := Nat.div_mul_le_self i b
  have hhi : i < i / b * b + b := by
    have := Nat.lt_mul_div_succ i b.pos
    rwa [Nat.mul_add, Nat.mul_comm, Nat.mul_one] at this
  have hpos : 0 < s.tokensIn (i / b * b) (min (i / b * b + b) s.nLayers) :=
    tokensIn_pos.mpr ⟨i, hlo, lt_min hhi (h.lt_of_tokens hi), hi⟩
  have hle : s.tokensIn (i / b * b) (min (i / b * b + b) s.nLayers) ≤ s.tokensIn 0 s.nLayers :=
    Finset.sum_le_sum_of_subset (Finset.Ico_subset_Ico (Nat.zero_le _) (min_le_right _ _))
  rw [int32_natCast (by omega)]
  exact_mod_cast hpos

/-- One layer in each block: the first of the largest layers. -/
theorem WellFormed.mbflfs_one (h : s.WellFormed) (hr : s.InRange) (hb : s.blockSize = 1) {block : ℕ}
    (hblock : 0 < s.blockTokens block) : s.scheduleMbflfs = s.scheduleMbfs := by
  obtain ⟨k, id, hok, hk, hfirstIn, hmost, hfirst⟩ := h.scheduleMbflfs_ok hr hblock
  obtain ⟨id', hok', hid', hlargest⟩ := h.scheduleMbfs_ok
  have hone : (s.blockSize : ℕ) = 1 := by rw [hb]; rfl
  have hcount : s.numBlocks = s.nLayers := by rw [numBlocks, hone, Nat.div_one, Nat.sub_self, Nat.add_zero]
  have hsum : ∀ j < s.nLayers, s.blockTokens j = s.tokensAt j := by
    intro j hj
    rw [blockTokens, blockEnd, tokensIn, hone, Nat.mul_one, Nat.min_eq_left (by omega),
      Nat.Ico_succ_singleton, Finset.sum_singleton, int32_natCast (h.tokensAt_lt j)]
  rw [hcount] at hk hmost
  have hid : id = k := by
    obtain ⟨hlo, hhi, -⟩ := hfirstIn
    rw [blockEnd] at hhi
    rw [hone] at hlo hhi
    omega
  have hlargest' : s.FirstLargest s.nLayers k := by
    refine ⟨fun j hj => ?_, fun j hj => ?_⟩
    · have hle := hmost j hj
      rw [hsum j hj, hsum k hk] at hle
      exact_mod_cast hle
    · have hlt := hfirst j hj
      rw [hsum j (hj.trans hk), hsum k hk] at hlt
      exact_mod_cast hlt
  rw [hok, hok', hid, hlargest'.unique hlargest hk hid']

/-- One block of all layers: the first layer with tokens. -/
theorem WellFormed.mbflfs_all (h : s.WellFormed) (hr : s.InRange)
    (hb : (s.blockSize : ℕ) = s.nLayers) {block : ℕ} (hblock : 0 < s.blockTokens block) :
    s.scheduleMbflfs = s.scheduleFlfs := by
  obtain ⟨best, hrun, ⟨-, hzero⟩ | ⟨k, hk, rfl, -⟩⟩ := h.largestBlock_ok hr
  · exact absurd hblock (not_lt.mpr (hzero block (lt_numBlocks_of_blockTokens hblock)))
  · obtain rfl : k = 0 := by
      by_contra hne
      have hlt := lt_numBlocks.mp hk
      have hle : s.nLayers ≤ k * s.blockSize := hb ▸ Nat.le_mul_of_pos_left _ (Nat.pos_of_ne_zero hne)
      omega
    have hlimit : ((0 * s.blockSize : ℕ) : ℤ) + s.blockSize < 2 ^ 31 := by
      have := hr.limit hk
      omega
    have hpasses : (min (((0 * s.blockSize : ℕ) : ℤ) + s.blockSize) s.nLayers -
        (0 * s.blockSize : ℕ)).toNat = s.nLayers := by omega
    rw [scheduleMbflfs_eq hrun hlimit, hpasses, scheduleFlfs, Nat.zero_mul, Nat.cast_zero]

theorem WellFormed.scheduleFlfs_ok (h : s.WellFormed) {i : ℕ} (hi : 0 < s.tokensAt i) :
    ∃ id : ℕ, s.scheduleFlfs = .ok id ∧ id < s.nLayers := by
  have hlt := h.lt_of_tokens hi
  have hall : 0 + s.nLayers ≤ s.nLayers := (Nat.zero_add _).le
  obtain ⟨id, hok, -, hid, -⟩ := h.firstWithTokens_ok hall (Nat.zero_le i) (by omega) hi
  exact ⟨id, hok, by omega⟩

/-- A block that adds up makes every policy pick a layer. -/
theorem WellFormed.choose_ok (h : s.WellFormed) (hr : s.InRange) (htype : s.type ≠ .bin) {block : ℕ}
    (hblock : 0 < s.blockTokens block) : ∃ id : ℕ, s.choose = .ok id ∧ id < s.nLayers := by
  obtain ⟨i, -, -, hi⟩ := exists_of_blockTokens hblock
  unfold choose
  cases htype' : s.type with
  | mbfs =>
    obtain ⟨id, hok, hid, -⟩ := h.scheduleMbfs_ok
    exact ⟨id, hok, hid⟩
  | flfs => exact h.scheduleFlfs_ok hi
  | mbflfs =>
    obtain ⟨k, id, hok, -, hfirstIn, -⟩ := h.scheduleMbflfs_ok hr hblock
    exact ⟨id, hok, hfirstIn.2.1.trans_le (min_le_right _ _)⟩
  | mbtfs => exact h.scheduleBatchesTokens_ok hi
  | bin => exact absurd htype' htype

/-- A policy that fails leaves no decision. -/
theorem schedule_error {e : Fault} (herr : s.choose = .error e) : schedule s = .error e s := by
  rw [schedule, get_bind, herr]
  rfl

/-- A decision of the block policy shows a block that adds up. -/
theorem WellFormed.exists_block (h : s.WellFormed) (hr : s.InRange) (htype : s.type = .mbflfs)
    {id : ℤ} {s' : LegacyLayerScheduler} (hok : schedule s = .ok id s') :
    ∃ block, 0 < s.blockTokens block := by
  by_contra hnone
  obtain ⟨e, herr⟩ := h.scheduleMbflfs_none hr fun block =>
    not_lt.mp fun hpos => hnone ⟨block, hpos⟩
  have hchoose : s.choose = .error e := by
    rw [choose, htype]
    exact herr
  rw [schedule_error hchoose] at hok
  cases hok

/-- The policies relate exactly where blocks of any size add up. -/
theorem policiesRelate_iff (h : s.WellFormed) : s.PoliciesRelate ↔ s.BlocksAddUp := by
  constructor
  · rintro ⟨-, -, hrange⟩
    have hn : s.nLayers ≤ 2 ^ 30 := by
      by_contra hn
      let b : ℕ+ := ⟨2 ^ 30, by decide⟩
      obtain ⟨e, herr⟩ := scheduleMbflfs_past (s := s.withPolicy .mbflfs b) (not_le.mp hn) rfl
      obtain ⟨id, s', hok, -⟩ := hrange .mbflfs (by simp) b (by decide)
      have hchoose : (s.withPolicy .mbflfs b).choose = .error e := herr
      rw [schedule_error hchoose] at hok
      cases hok
    refine ⟨hn, fun b hb => ?_⟩
    obtain ⟨id, s', hok, -⟩ := hrange .mbflfs (by simp) b hb
    exact (h.withPolicy .mbflfs b).exists_block ⟨hn, hb⟩ rfl hok
  · rintro ⟨hn, hadd⟩
    refine ⟨?_, fun b hb => ?_, fun type htype b hb => ?_⟩
    · have hone : ((1 : ℕ+) : ℕ) < 2 ^ 31 := by decide
      obtain ⟨block, hblock⟩ := hadd 1 hone
      exact (h.withPolicy .mbflfs 1).mbflfs_one ⟨hn, hone⟩ rfl hblock
    · have hlt : (b : ℕ) < 2 ^ 31 := by omega
      obtain ⟨block, hblock⟩ := hadd b hlt
      show (s.withPolicy .mbflfs b).scheduleMbflfs = (s.withPolicy .flfs s.blockSize).scheduleFlfs
      rw [(h.withPolicy .mbflfs b).mbflfs_all ⟨hn, hlt⟩ hb hblock,
        scheduleFlfs_withPolicy, scheduleFlfs_withPolicy]
    · have hne : type ≠ .bin := by
        rintro rfl
        simp at htype
      obtain ⟨block, hblock⟩ := hadd b hb
      obtain ⟨id, hid, hlt⟩ := (h.withPolicy type b).choose_ok ⟨hn, hb⟩ hne hblock
      obtain ⟨s', hok, -⟩ := (h.withPolicy type b).schedule_ok hid hlt
      exact ⟨id, s', hok, Int.natCast_nonneg id, by exact_mod_cast hlt⟩

/-- Five layers, two of them with the most tokens. -/
def twoBusy : LegacyLayerScheduler :=
  { create 5 .mbflfs 2 2 with
    numTokensInLayer := [0, 1, 4, 0, 4]
    numBatchesInLayer := [0, 1, 2, 0, 1] }

theorem policiesRelate_iff_twoBusy : twoBusy.PoliciesRelate :=
  have h : twoBusy.WellFormed :=
    ⟨by decide, rfl, by decide, rfl, fun _ => rfl, fun _ => rfl⟩
  (policiesRelate_iff h).mpr (h.blocksAddUp (by decide) (by decide) (i := 2) (by decide))

/-- Two layers that wrap around in one block. -/
def twoFull : LegacyLayerScheduler :=
  { create 2 .mbflfs 0 2 with
    numTokensInLayer := [2 ^ 30, 2 ^ 30]
    numBatchesInLayer := [1, 1] }

/-- A new scheduler has no tokens: `FLFS` answers -1, which `clean_layer_status` writes at.
Sums that wrap around leave the block policy at -1 as well. -/
theorem create_not_policiesRelate :
    ((create 1 .flfs 0 1).WellFormed ∧ ¬ (create 1 .flfs 0 1).PoliciesRelate) ∧
      twoFull.WellFormed ∧ ¬ twoFull.PoliciesRelate := by
  refine ⟨⟨create_wellFormed (by decide) .flfs 0 1, ?_⟩,
    ⟨by decide, rfl, by decide, rfl, by simp [twoFull, create], by simp [twoFull, create]⟩, ?_⟩
  · rintro ⟨-, -, hrange⟩
    obtain ⟨id, s', hok, -⟩ := hrange .flfs (by simp) 1 (by decide)
    cases hok
  · rintro ⟨-, -, hrange⟩
    obtain ⟨id, s', hok, -⟩ := hrange .mbflfs (by simp) 2 (by decide)
    have hwrap : (twoFull.withPolicy .mbflfs 2).choose =
        .error (.outOfRange "num_tokens_in_layer[i]") := by decide +kernel
    rw [schedule_error hwrap] at hok
    cases hok

end LegacyLayerScheduler

end StreamInfer.Pool
