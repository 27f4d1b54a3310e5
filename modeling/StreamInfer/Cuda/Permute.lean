import StreamInfer.Cuda.Launch
import StreamInfer.Fault

/-! The two functions that permute token rows. `permute_tokens` copies each row to the
place its mapping gives. `apply_weights_and_permute_tokens` does the same: the kernel
leaves the template flag at its default, so the weight it reads is not applied, and it
reads the weight at twice the token's index. -/

namespace StreamInfer.Cuda

open General

variable {α W : Type}

/-- `permute_tokens_kernel`: the offset of a row is an int, and the weight is the default of
the parameter. -/
def permuteTokensKernel [Zero W] (mul : α → W → α) (dIn : ℤ → α) (mappings : ℕ → ℤ)
    (topk hiddenSize : ℤ) (tokenId chunkId tid : ℕ) : List (ℤ × α) :=
  let p := mappings tokenId
  moveOneTokenKernel mul false (chunkSize hiddenSize.toNat) dIn (int32 (p * hiddenSize))
    (int32 ((tokenId : ℤ).tdiv topk * hiddenSize)) (0 : W) chunkId tid

/-- `_permute_tokens_cuda`. -/
def permuteTokensCuda [Zero W] (mul : α → W → α) (src : ℤ → α) (mappings : ℕ → ℤ)
    (numInputTokens numOutputTokens hiddenSize : ℤ) : Except Fault (Launch (ℤ × α)) :=
  if ¬ 0 < hiddenSize then .error (.assertion "hidden_size > 0") else
    let topk := numOutputTokens.tdiv numInputTokens
    .ok ⟨numOutputTokens, hiddenSize, permuteTokensKernel mul src mappings topk hiddenSize⟩

/-- `permute_tokens_cuda_dispatch` of tensors of the right kinds, with the sizes of `tokens` and
`mappings`: ints take them, so large ones wrap around. -/
def permuteTokensCudaDispatch [Zero W] (mul : α → W → α) (tokens : ℤ → α) (mappings : ℕ → ℤ)
    (tokensSize0 tokensSize1 mappingsSize : ℕ) : Except Fault (Launch (ℤ × α)) :=
  let numInputTokens := int32 tokensSize0
  let numOutputTokens := int32 mappingsSize
  let hiddenSize := int32 tokensSize1
  if numInputTokens = 0 then .error (.outOfRange "num_output_tokens % num_input_tokens")
  else if numOutputTokens.tmod numInputTokens ≠ 0 then
    .error (.assertion "num_output_tokens must be divisible by num_input_tokens")
  else if numOutputTokens < 0 ∨ hiddenSize < 0 then
    .error (.assertion "torch::empty: negative dimension")
  else permuteTokensCuda mul tokens mappings numInputTokens numOutputTokens hiddenSize

theorem permuteTokensCudaDispatch_ok_iff [Zero W] {mul : α → W → α} {tokens : ℤ → α} {mappings : ℕ → ℤ}
    {tokensSize0 tokensSize1 mappingsSize : ℕ} (haccept : 0 < int32 tokensSize1) {l : Launch (ℤ × α)} :
    permuteTokensCudaDispatch mul tokens mappings tokensSize0 tokensSize1 mappingsSize = .ok l ↔
      int32 tokensSize0 ≠ 0 ∧ (int32 mappingsSize).tmod (int32 tokensSize0) = 0 ∧
        0 ≤ int32 mappingsSize ∧ l = ⟨int32 mappingsSize, int32 tokensSize1,
          permuteTokensKernel mul tokens mappings ((int32 mappingsSize).tdiv (int32 tokensSize0))
            (int32 tokensSize1)⟩ := by
  simp only [permuteTokensCudaDispatch, permuteTokensCuda, haccept, haccept.not_gt, not_true_eq_false,
    or_false, if_false]
  split_ifs with hzero hmod hneg
  · simp [hzero]
  · simp [hmod]
  · simp [hneg]
  · simp [hzero, not_not.mp hmod, not_lt.mp hneg, eq_comm]

/-- The weight that a thread of a token reads: `d_weights + token_id` is indexed with
`token_id` once more. -/
def weightIndex (tokenId : ℕ) : ℕ :=
  let weights := tokenId
  weights + tokenId

/-- `apply_weights_and_permute_tokens_kernel`. -/
def applyWeightsAndPermuteTokensKernel (mul : α → W → α) (dIn : ℕ → α) (dWeights : ℕ → W)
    (mappings : ℕ → ℕ) (hiddenSize tokenId chunkId tid : ℕ) : List (ℕ × α) :=
  let p := mappings tokenId
  moveOneTokenKernel mul false (chunkSize hiddenSize) dIn (p * hiddenSize)
    (tokenId * hiddenSize) (dWeights (weightIndex tokenId)) chunkId tid

/-- The weights that the threads of a launch read. -/
def weightReads (numTokens hiddenSize : ℕ) : List ℕ :=
  grid numTokens hiddenSize fun tokenId _ _ => [weightIndex tokenId]

/-- A call of `permute_tokens` turns the output memory `out` into `out'`. -/
def PermuteTokens [Zero W] (mul : α → W → α) (tokens : ℤ → α) (mappings : ℕ → ℤ)
    (tokensSize0 tokensSize1 mappingsSize : ℕ) (out out' : ℤ → α) : Prop :=
  ∃ l, permuteTokensCudaDispatch mul tokens mappings tokensSize0 tokensSize1 mappingsSize = .ok l ∧
    StoredInSomeOrder l.accesses out out'

def ApplyWeightsAndPermuteTokens (mul : α → W → α) (numTokens hiddenSize : ℕ) (tokens : ℕ → α)
    (weights : ℕ → W) (mappings : ℕ → ℕ) (out out' : ℕ → α) : Prop :=
  StoredInSomeOrder (grid numTokens hiddenSize
    (applyWeightsAndPermuteTokensKernel mul tokens weights mappings hiddenSize)) out out'

/-- Each row arrives weighted with its own weight, and the reads stay among the weights. -/
structure AppliesOwnWeights (mul : α → W → α) (numTokens hiddenSize : ℕ) (tokens : ℕ → α)
    (weights : ℕ → W) (mappings : ℕ → ℕ) : Prop where
  rows : ∀ out out',
    ApplyWeightsAndPermuteTokens mul numTokens hiddenSize tokens weights mappings out out' →
      ∀ i < numTokens, ∀ e < hiddenSize, out' (mappings i * hiddenSize + e) =
        mul (tokens (i * hiddenSize + e)) (weights i)
  reads : ∀ k ∈ weightReads numTokens hiddenSize, k < numTokens

variable {mul : α → W → α} {numTokens hiddenSize : ℕ} {tokens : ℕ → α} {weights : ℕ → W}
  {mappings : ℕ → ℕ} {out out' : ℕ → α}

/-- The weighted permutation copies the rows as they are. -/
theorem applyWeights_rows (hdvd : chunkSize hiddenSize ∣ hiddenSize)
    (hmap : Set.InjOn mappings (Set.Iio numTokens))
    (h : ApplyWeightsAndPermuteTokens mul numTokens hiddenSize tokens weights mappings out out')
    {i e : ℕ} (hi : i < numTokens) (he : e < hiddenSize) :
    out' (mappings i * hiddenSize + e) = tokens (i * hiddenSize + e) :=
  moved_rows hdvd hmap h hi he

/-- The rows arrive weighted exactly when the weights change nothing. -/
theorem weighted_rows_iff (hdvd : chunkSize hiddenSize ∣ hiddenSize)
    (hmap : Set.InjOn mappings (Set.Iio numTokens)) :
    (∀ out out',
      ApplyWeightsAndPermuteTokens mul numTokens hiddenSize tokens weights mappings out out' →
        ∀ i < numTokens, ∀ e < hiddenSize, out' (mappings i * hiddenSize + e) =
          mul (tokens (i * hiddenSize + e)) (weights i)) ↔
      ∀ i < numTokens, ∀ e < hiddenSize,
        mul (tokens (i * hiddenSize + e)) (weights i) = tokens (i * hiddenSize + e) := by
  constructor
  · intro h i hi e he
    have hlaunch : ApplyWeightsAndPermuteTokens mul numTokens hiddenSize tokens weights mappings
        tokens (store _ tokens) := ⟨_, List.Perm.refl _, rfl⟩
    rw [← h tokens _ hlaunch i hi e he]
    exact applyWeights_rows hdvd hmap hlaunch hi he
  · intro h out out' hlaunch i hi e he
    rw [applyWeights_rows hdvd hmap hlaunch hi he, h i hi e he]

/-- The last token's threads read past the weights when there are two tokens or more. -/
theorem weightReads_lt_iff (hn : 1 ≤ numTokens) (hpos : 0 < hiddenSize)
    (hdvd : chunkSize hiddenSize ∣ hiddenSize) :
    (∀ k ∈ weightReads numTokens hiddenSize, k < numTokens) ↔ numTokens = 1 := by
  have hchunks : 0 < hiddenSize / chunkSize hiddenSize :=
    Nat.div_pos (Nat.le_of_dvd hpos hdvd) (Nat.pos_of_dvd_of_pos hdvd hpos)
  have hread : ∀ k, k ∈ weightReads numTokens hiddenSize ↔ ∃ i < numTokens, k = i + i := by
    intro k
    simp only [weightReads, grid, List.mem_flatMap, List.mem_range, List.mem_singleton,
      weightIndex]
    constructor
    · rintro ⟨i, hi, -, -, -, -, rfl⟩
      exact ⟨i, hi, rfl⟩
    · rintro ⟨i, hi, rfl⟩
      exact ⟨i, hi, 0, hchunks, 0, by decide, rfl⟩
  constructor
  · intro h
    have hlast := h (numTokens - 1 + (numTokens - 1)) ((hread _).mpr ⟨_, by omega, rfl⟩)
    omega
  · rintro rfl k hk
    obtain ⟨i, hi, rfl⟩ := (hread k).mp hk
    omega

/-- The weighted permutation keeps its contract exactly for a single token whose weight
changes nothing. -/
theorem appliesOwnWeights_iff (hn : 1 ≤ numTokens) (hpos : 0 < hiddenSize)
    (hdvd : chunkSize hiddenSize ∣ hiddenSize)
    (hmap : Set.BijOn mappings (Set.Iio numTokens) (Set.Iio numTokens)) :
    AppliesOwnWeights mul numTokens hiddenSize tokens weights mappings ↔
      numTokens = 1 ∧ ∀ e < hiddenSize, mul (tokens e) (weights 0) = tokens e := by
  have hrows : (∀ out out',
      ApplyWeightsAndPermuteTokens mul numTokens hiddenSize tokens weights mappings out out' → _) ↔ _ :=
    weighted_rows_iff hdvd hmap.injOn
  have hreads := weightReads_lt_iff hn hpos hdvd
  constructor
  · rintro ⟨hr, hk⟩
    obtain rfl := hreads.mp hk
    refine ⟨rfl, fun e he => ?_⟩
    have hzero := hrows.mp hr 0 (by decide) e he
    rwa [Nat.zero_mul, Nat.zero_add] at hzero
  · rintro ⟨rfl, hfixed⟩
    refine ⟨hrows.mpr ?_, hreads.mpr rfl⟩
    intro i hi e he
    obtain rfl : i = 0 := by omega
    rw [Nat.zero_mul, Nat.zero_add]
    exact hfixed e he

/-- One token with the weight one. -/
theorem appliesOwnWeights_one :
    AppliesOwnWeights (· * ·) 1 128 (fun e => e) (fun _ => 1) (fun i => i) ↔
      1 = 1 ∧ ∀ e < 128, e * 1 = e :=
  appliesOwnWeights_iff le_rfl (by decide) (by decide) (Set.bijOn_id _)

/-- Two rows of ones with the weight two arrive as ones. -/
theorem two_rows_unweighted :
    ¬ AppliesOwnWeights (· * ·) 2 128 (fun _ => 1) (fun _ => 2) (fun i => i) := by
  intro h
  have hweight := (weighted_rows_iff (by decide) (Set.injOn_id _)).mp h.rows 0 (by decide) 0
    (by decide)
  exact absurd hweight (by decide)

end StreamInfer.Cuda
