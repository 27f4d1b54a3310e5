import StreamInfer.General.Writes

/-! The device function that moves one token row and the grids that launch it. A block
of 128 threads moves one chunk of a row, four elements at a time; a grid has one block
for each token and each chunk of the row. For a chunk size that sixteen divides, the
threads of a grid touch each element of each row, and nothing else. -/

namespace StreamInfer.Cuda

open General

def warpSize : ℕ := 32

/-- The elements of a `float2`. -/
def vecSize : ℕ := 4

def numThreads : ℕ := 128

/-- `chunk_size`, as the launchers choose it. -/
def chunkSize (hiddenSize : ℕ) : ℕ :=
  if hiddenSize % 2048 = 0 then 2048
  else if hiddenSize % 960 = 0 then 960
  else if hiddenSize % 512 = 0 then 512
  else if hiddenSize % 256 = 0 then 256
  else 128

/-- The values of `i` in the loop of one lane. -/
def lanes (idInWarp taskPerWarp : ℕ) : List ℕ :=
  List.range' idInWarp ((taskPerWarp - idInWarp + (warpSize - 1)) / warpSize) warpSize

/-- The offsets within a row that one thread moves. -/
def threadOffsets (chunk chunkId tid : ℕ) : List ℕ :=
  let numWarps := numThreads / warpSize
  let idInWarp := tid % warpSize
  let wid := tid / warpSize
  let chunkBase := chunkId * chunk
  let taskPerWarp := chunk / numWarps / vecSize
  let warpBase := wid * taskPerWarp
  (lanes idInWarp taskPerWarp).flatMap fun i =>
    (List.range vecSize).map fun k => chunkBase + ((warpBase + i) * vecSize + k)

variable {α W : Type}

section

variable {ι κ : Type} [Add ι] [NatCast ι] [Add κ] [NatCast κ]

/-- `move_one_token_kernel` of one thread: the writes into the output. -/
def moveOneTokenKernel (mul : α → W → α) (applyWeights : Bool) (chunk : ℕ) (tokens : κ → α)
    (dest : ι) (src : κ) (tokenWeight : W) (chunkId tid : ℕ) : List (ι × α) :=
  (threadOffsets chunk chunkId tid).map fun (e : ℕ) =>
    let val := tokens (src + (e : κ))
    (dest + (e : ι), if applyWeights then mul val tokenWeight else val)

end

/-- What all threads of a grid do, with a block for each token and chunk. -/
def grid (numTokens hiddenSize : ℕ) (thread : ℕ → ℕ → ℕ → List α) : List α :=
  (List.range numTokens).flatMap fun tokenId =>
    (List.range (hiddenSize / chunkSize hiddenSize)).flatMap fun chunkId =>
      (List.range numThreads).flatMap fun tid => thread tokenId chunkId tid

/-! ### The offsets of a row -/

theorem mem_lanes {idInWarp taskPerWarp i : ℕ} (hid : idInWarp < warpSize) :
    i ∈ lanes idInWarp taskPerWarp ↔ i < taskPerWarp ∧ i % warpSize = idInWarp := by
  unfold lanes
  rw [List.mem_range']
  unfold warpSize at *
  constructor
  · rintro ⟨j, hj, rfl⟩
    omega
  · rintro ⟨hlt, hmod⟩
    refine ⟨i / 32, ?_, ?_⟩ <;> omega

theorem mem_threadOffsets {task chunkId tid e : ℕ} :
    e ∈ threadOffsets (16 * task) chunkId tid ↔ ∃ i < task, i % warpSize = tid % warpSize ∧
      ∃ k < vecSize, e = chunkId * (16 * task) + ((tid / warpSize * task + i) * vecSize + k) := by
  have hper : 16 * task / (numThreads / warpSize) / vecSize = task := by
    simp only [numThreads, warpSize, vecSize]
    omega
  have hid : tid % warpSize < warpSize := Nat.mod_lt tid (by decide)
  simp only [threadOffsets, hper, List.mem_flatMap, mem_lanes hid, List.mem_map, List.mem_range]
  constructor
  · rintro ⟨i, ⟨hi, hmod⟩, k, hk, rfl⟩
    exact ⟨i, hi, hmod, k, hk, rfl⟩
  · rintro ⟨i, hi, hmod, k, hk, rfl⟩
    exact ⟨i, ⟨hi, hmod⟩, k, hk, rfl⟩

/-- The threads of a block touch the elements of its chunk. -/
theorem mem_block {task chunkId e : ℕ} (htask : 0 < task) :
    (∃ tid < numThreads, e ∈ threadOffsets (16 * task) chunkId tid) ↔ e / (16 * task) = chunkId := by
  simp only [mem_threadOffsets]
  unfold numThreads warpSize vecSize
  constructor
  · rintro ⟨tid, htid, i, hi, -, k, hk, rfl⟩
    have hwarp : tid / 32 * task ≤ 3 * task := Nat.mul_le_mul_right task (by omega)
    rw [Nat.mul_comm chunkId, Nat.mul_add_div (by omega), Nat.div_eq_of_lt (by omega), Nat.add_zero]
  · rintro rfl
    have hsplit := Nat.div_add_mod e (16 * task)
    have hrest := Nat.mod_lt e (show 0 < 16 * task by omega)
    have hwid : e % (16 * task) / 4 / task < 4 := Nat.div_lt_of_lt_mul (by omega)
    have hvec := Nat.div_add_mod (e % (16 * task) / 4) task
    have hlane := Nat.mod_lt (e % (16 * task) / 4) htask
    refine ⟨e % (16 * task) / 4 / task * 32 + e % (16 * task) / 4 % task % 32, by omega,
      e % (16 * task) / 4 % task, hlane, by omega, e % 4, by omega, ?_⟩
    have hdiv : (e % (16 * task) / 4 / task * 32 + e % (16 * task) / 4 % task % 32) / 32 =
        e % (16 * task) / 4 / task := by omega
    rw [hdiv, Nat.mul_comm (_ / task) task, hvec, Nat.mul_comm (e / _)]
    have hmod : e % 4 = e % (16 * task) % 4 := (Nat.mod_mod_of_dvd e ⟨4 * task, by ring⟩).symm
    omega

/-- Sixteen divides every chunk size. -/
theorem chunkSize_eq (hiddenSize : ℕ) : ∃ task, 0 < task ∧ chunkSize hiddenSize = 16 * task := by
  unfold chunkSize
  split_ifs
  · exact ⟨128, by decide, rfl⟩
  · exact ⟨60, by decide, rfl⟩
  · exact ⟨32, by decide, rfl⟩
  · exact ⟨16, by decide, rfl⟩
  · exact ⟨8, by decide, rfl⟩

/-- The threads of a row's blocks touch the elements of the row. -/
theorem mem_row {hiddenSize : ℕ} (hdvd : chunkSize hiddenSize ∣ hiddenSize) {e : ℕ} :
    (∃ chunkId < hiddenSize / chunkSize hiddenSize, ∃ tid < numThreads,
      e ∈ threadOffsets (chunkSize hiddenSize) chunkId tid) ↔ e < hiddenSize := by
  obtain ⟨task, htask, hchunk⟩ := chunkSize_eq hiddenSize
  rw [hchunk] at hdvd ⊢
  simp only [mem_block htask, exists_eq_right']
  rw [Nat.div_lt_iff_lt_mul (by omega), Nat.div_mul_cancel hdvd]

/-! ### A launch -/

section

variable (mul : α → W → α) (applyWeights : Bool) (tokens : ℕ → α) (weight : ℕ → W)
  (hiddenSize : ℕ) (target source : ℕ → ℕ)

/-- The thread of a token, whose row it moves from `source` to `target`. -/
def moveThread (tokenId chunkId tid : ℕ) : List (ℕ × α) :=
  moveOneTokenKernel mul applyWeights (chunkSize hiddenSize) tokens
    (target tokenId * hiddenSize) (source tokenId * hiddenSize) (weight tokenId) chunkId tid

/-- What a launch leaves at element `e` of the row of token `i`. -/
def movedValue (i e : ℕ) : α :=
  let val := tokens (source i * hiddenSize + e)
  if applyWeights then mul val (weight i) else val

variable {mul applyWeights tokens weight hiddenSize target source}

theorem mem_writes {numTokens : ℕ} (hdvd : chunkSize hiddenSize ∣ hiddenSize) {w : ℕ × α} :
    w ∈ grid numTokens hiddenSize
        (moveThread mul applyWeights tokens weight hiddenSize target source) ↔
      ∃ i < numTokens, ∃ e < hiddenSize,
        w = (target i * hiddenSize + e,
          movedValue mul applyWeights tokens weight hiddenSize source i e) := by
  simp only [grid, moveThread, moveOneTokenKernel, List.mem_flatMap, List.mem_range,
    List.mem_map]
  constructor
  · rintro ⟨i, hi, chunkId, hchunk, tid, htid, e, hoff, rfl⟩
    exact ⟨i, hi, e, (mem_row hdvd).mp ⟨chunkId, hchunk, tid, htid, hoff⟩, rfl⟩
  · rintro ⟨i, hi, e, he, rfl⟩
    obtain ⟨chunkId, hchunk, tid, htid, hoff⟩ := (mem_row hdvd).mpr he
    exact ⟨i, hi, chunkId, hchunk, tid, htid, e, hoff, rfl⟩

/-- When the rows have targets of their own, every element of every row arrives there. -/
theorem moved_rows {numTokens : ℕ} {out out' : ℕ → α} (hdvd : chunkSize hiddenSize ∣ hiddenSize)
    (hinj : Set.InjOn target (Set.Iio numTokens))
    (hstored : StoredInSomeOrder (grid numTokens hiddenSize
      (moveThread mul applyWeights tokens weight hiddenSize target source)) out out')
    {i e : ℕ} (hi : i < numTokens) (he : e < hiddenSize) :
    out' (target i * hiddenSize + e) =
      movedValue mul applyWeights tokens weight hiddenSize source i e := by
  apply hstored.eq_of_mem
  · exact ⟨_, (mem_writes hdvd).mpr ⟨i, hi, e, he, rfl⟩, rfl⟩
  · intro w hw haddr
    obtain ⟨j, hj, e', he', rfl⟩ := (mem_writes hdvd).mp hw
    obtain ⟨hrow, rfl⟩ := rowMajor_inj he' he (show target j * hiddenSize + e' = _ from haddr)
    obtain rfl : j = i := hinj hj hi hrow
    rfl

end

end StreamInfer.Cuda
