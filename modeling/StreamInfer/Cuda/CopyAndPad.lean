import StreamInfer.Cuda.MoveToken

/-! The kernel that copies a batch of experts into the static buffers of a graph. The last
block copies the batch sizes and the indices, with zeros up to the padded size; each other
block copies a few rows. Every row and every index of the padded size is written, so a
launch stays within the buffers exactly when both sizes do. -/

namespace StreamInfer.Cuda

/-- The elements of a `float4`. -/
def vecSizeHidden : ℕ := 8

/-- `for (i = start; i < stop; i += step)`. -/
def strided (start stop step : ℕ) : List ℕ :=
  List.range' start ((stop - start + (step - 1)) / step) step

theorem mem_strided {start stop step i : ℕ} (hstep : 0 < step) :
    i ∈ strided start stop step ↔ start ≤ i ∧ i < stop ∧ step ∣ i - start := by
  rw [strided, List.mem_range']
  constructor
  · rintro ⟨j, hj, rfl⟩
    have hlt := (Nat.lt_div_iff_mul_lt hstep).mp hj
    refine ⟨Nat.le_add_right _ _, ?_, ⟨j, by rw [Nat.add_sub_cancel_left]⟩⟩
    rw [Nat.mul_comm] at hlt
    omega
  · rintro ⟨hle, hlt, j, hj⟩
    refine ⟨j, (Nat.lt_div_iff_mul_lt hstep).mpr ?_, by omega⟩
    rw [Nat.mul_comm]
    omega

/-- A write into one of the static buffers. -/
inductive StaticWrite (α : Type) where
  | hidden (addr : ℕ) (val : α)
  | batchSize (addr : ℕ) (val : ℤ)
  | mIndex (addr : ℕ) (val : ℤ)

/-- What a launch copies. -/
structure PadInput (α : Type) where
  hiddens : ℕ → α
  batchSizes : ℕ → ℤ
  mIndices : ℕ → ℤ
  numTokens : ℕ
  numExperts : ℕ
  hiddenSize : ℕ

variable {α : Type}

/-- `copy_and_pad_kernel` of one thread. -/
def copyAndPadKernel (tokensPerBlock : ℕ) (inp : PadInput α) (paddedBsz numBlocks blockId threadId : ℕ) :
    List (StaticWrite α) :=
  if blockId = numBlocks - 1 then
    ((strided threadId inp.numExperts numThreads).map fun i => .batchSize i (inp.batchSizes i)) ++
      (strided threadId paddedBsz numThreads).map fun i =>
        .mIndex i (if i < inp.numTokens then inp.mIndices i else 0)
  else
    -- A row past the tokens ends the block's loop, and so do all later ones.
    ((List.range tokensPerBlock).map (blockId * tokensPerBlock + ·)).flatMap fun row =>
      if row ≥ inp.numTokens then [] else
        (strided (threadId * vecSizeHidden) (inp.hiddenSize / vecSizeHidden * vecSizeHidden)
          (numThreads * vecSizeHidden)).flatMap fun i =>
            (List.range vecSizeHidden).map fun k =>
              .hidden (row * inp.hiddenSize + (i / vecSizeHidden * vecSizeHidden + k))
                (inp.hiddens (row * inp.hiddenSize + (i / vecSizeHidden * vecSizeHidden + k)))

/-- `launch_copy_and_pad_cuda`: what all threads write. -/
def launchCopyAndPad (tokensPerBlock : ℕ) (inp : PadInput α) (paddedBsz : ℕ) : List (StaticWrite α) :=
  let numCtas := (inp.numTokens + tokensPerBlock - 1) / tokensPerBlock
  let grid := 1 + numCtas
  (List.range grid).flatMap fun blockId => (List.range numThreads).flatMap fun threadId =>
    copyAndPadKernel tokensPerBlock inp paddedBsz grid blockId threadId

/-- A write that hits the static buffers of `maxBatchSize` entries. -/
def StaticWrite.InBounds (maxBatchSize hiddenSize numExperts : ℕ) : StaticWrite α → Prop
  | hidden addr _ => addr < maxBatchSize * hiddenSize
  | batchSize addr _ => addr < numExperts
  | mIndex addr _ => addr < maxBatchSize

theorem copyAndPadKernel_inBounds {tokensPerBlock : ℕ} {inp : PadInput α} {paddedBsz maxBatchSize : ℕ}
    (hpad : paddedBsz ≤ maxBatchSize) (htokens : inp.numTokens ≤ maxBatchSize)
    {numBlocks blockId threadId : ℕ} {w : StaticWrite α}
    (hw : w ∈ copyAndPadKernel tokensPerBlock inp paddedBsz numBlocks blockId threadId) :
    w.InBounds maxBatchSize inp.hiddenSize inp.numExperts := by
  have hthreads : 0 < numThreads := by decide
  unfold copyAndPadKernel at hw
  split_ifs at hw with hlast
  · rcases List.mem_append.mp hw with hw | hw
    · obtain ⟨i, hi, rfl⟩ := List.mem_map.mp hw
      exact ((mem_strided hthreads).mp hi).2.1
    · obtain ⟨i, hi, rfl⟩ := List.mem_map.mp hw
      exact Nat.lt_of_lt_of_le ((mem_strided hthreads).mp hi).2.1 hpad
  · obtain ⟨row, -, hw⟩ := List.mem_flatMap.mp hw
    split_ifs at hw with hrow
    · cases hw
    · obtain ⟨i, hi, hw⟩ := List.mem_flatMap.mp hw
      obtain ⟨k, hk, rfl⟩ := List.mem_map.mp hw
      have hi := ((mem_strided (by decide)).mp hi).2.1
      have hk := List.mem_range.mp hk
      have hcol : i / vecSizeHidden * vecSizeHidden + k < inp.hiddenSize := by
        unfold vecSizeHidden at *
        omega
      have hnext : (row + 1) * inp.hiddenSize ≤ maxBatchSize * inp.hiddenSize :=
        Nat.mul_le_mul_right _ (by omega)
      rw [Nat.add_mul, Nat.one_mul] at hnext
      show row * inp.hiddenSize + _ < maxBatchSize * inp.hiddenSize
      omega

/-- The last block writes every index of the padded size. -/
theorem mIndex_mem_launch {tokensPerBlock : ℕ} (inp : PadInput α) {paddedBsz i : ℕ} (hi : i < paddedBsz) :
    .mIndex i (if i < inp.numTokens then inp.mIndices i else 0) ∈
      launchCopyAndPad tokensPerBlock inp paddedBsz := by
  have hthreads : 0 < numThreads := by decide
  refine List.mem_flatMap.mpr ⟨(inp.numTokens + tokensPerBlock - 1) / tokensPerBlock,
    List.mem_range.mpr (Nat.lt_add_of_pos_left Nat.one_pos), List.mem_flatMap.mpr ⟨i % numThreads,
      List.mem_range.mpr (Nat.mod_lt _ hthreads), ?_⟩⟩
  rw [copyAndPadKernel, if_pos (Nat.add_sub_cancel_left 1 _).symm]
  refine List.mem_append_right _ (List.mem_map.mpr ⟨i, ?_, rfl⟩)
  exact (mem_strided hthreads).mpr ⟨Nat.mod_le _ _, hi, Nat.dvd_sub_mod i⟩

/-- A launch within the limit stays in the static buffers, and a padded size above it does not. -/
theorem launchCopyAndPad_inBounds_iff {tokensPerBlock : ℕ} {inp : PadInput α} {paddedBsz maxBatchSize : ℕ}
    (htokens : inp.numTokens ≤ paddedBsz) :
    (∀ w ∈ launchCopyAndPad tokensPerBlock inp paddedBsz,
      w.InBounds maxBatchSize inp.hiddenSize inp.numExperts) ↔ paddedBsz ≤ maxBatchSize := by
  constructor
  · intro h
    by_contra hlt
    exact Nat.lt_irrefl _ (h _ (mIndex_mem_launch inp (Nat.lt_of_not_le hlt)))
  · intro hpad w hw
    obtain ⟨blockId, -, hw⟩ := List.mem_flatMap.mp hw
    obtain ⟨threadId, -, hw⟩ := List.mem_flatMap.mp hw
    exact copyAndPadKernel_inBounds hpad (htokens.trans hpad) hw

end StreamInfer.Cuda
