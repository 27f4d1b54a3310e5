import StreamInfer.Cuda.Permute
import StreamInfer.Cuda.Gather

/-! What the three dispatch functions owe every call they accept: each column of each output
row is visited once, with the value that belongs there, and nothing else is. The chunk sizes
with a default of 128 give it for the multiples of 128 and of 960 alone; and the ints that
hold the sizes and offsets, the grid, the region for the source pointers and a division set
bounds on the numbers of tokens. -/

namespace StreamInfer.Cuda

open General Staging

variable {α W : Type}

/-! ### What a call covers -/

/-- The tokens of a call. -/
inductive Call where
  | permute (numInputTokens topk : ℕ)
  | gather (numTokens : ℕ)
  | sum (n topk : ℕ) (pos : 0 < topk)

/-- `permute_tokens` with `topk` mappings for each input token, which name rows of the output. -/
structure PermuteCovers (α W : Type) [Zero W] (hiddenSize numInputTokens topk : ℕ) : Prop where
  visits : ∀ (mul : α → W → α) (tokens : ℤ → α) (mappings : ℕ → ℕ),
    (∀ i < numInputTokens * topk, mappings i < numInputTokens * topk) →
    ∃ l, permuteTokensCudaDispatch mul tokens (fun i => mappings i) numInputTokens hiddenSize
        (numInputTokens * topk) = .ok l ∧
      l.accesses.Perm (columns (numInputTokens * topk) hiddenSize fun i e =>
        [(((mappings i * hiddenSize + e : ℕ) : ℤ), tokens ((i / topk * hiddenSize + e : ℕ) : ℤ))])
  rows : ∀ (mul : α → W → α) (tokens : ℤ → α) (mappings : ℕ → ℕ) (out out' : ℤ → α),
    (∀ i < numInputTokens * topk, mappings i < numInputTokens * topk) →
    Set.InjOn mappings (Set.Iio (numInputTokens * topk)) →
    PermuteTokens mul tokens (fun i => mappings i) numInputTokens hiddenSize (numInputTokens * topk)
      out out' →
    ∀ i < numInputTokens * topk, ∀ e < hiddenSize, out' ((mappings i * hiddenSize + e : ℕ) : ℤ) =
      tokens ((i / topk * hiddenSize + e : ℕ) : ℤ)

structure GatherCovers (α W : Type) [Zero W] (gdr : Bool) (hiddenSize numTokens : ℕ) : Prop where
  visits : ∀ (mul : α → W → α) (memory : ℕ → α) (srcPtr : ℕ → ℕ),
    ∃ l, gatherTokensCudaDispatch gdr mul memory srcPtr numTokens hiddenSize = .ok l ∧
      l.accesses.Perm (columns numTokens hiddenSize fun i e =>
        [(((i * hiddenSize + e : ℕ) : ℤ), memory (srcPtr i + e))])
  rows : ∀ (mul : α → W → α) (memory : ℕ → α) (srcPtr : ℕ → ℕ) (out out' : ℤ → α),
    GatherTokens gdr mul memory srcPtr numTokens hiddenSize out out' →
    ∀ i < numTokens, ∀ e < hiddenSize, out' ((i * hiddenSize + e : ℕ) : ℤ) = memory (srcPtr i + e)

/-- A column of a sum is written once with the first token and then added to. -/
structure SumCovers (α : Type) [AddCommMonoid α] (gdr : Bool) (hiddenSize n topk : ℕ) : Prop where
  visits : ∀ (memory : ℕ → α) (srcPtr : ℤ → ℕ),
    ∃ l, gatherAndSumTokensCudaDispatch gdr memory srcPtr n topk hiddenSize = .ok l ∧
      l.accesses.Perm (columns n hiddenSize fun i e =>
        .copy ((i * hiddenSize + e : ℕ) : ℤ) (memory (srcPtr ((i * topk : ℕ) : ℤ) + e)) ::
          (List.range' 1 (topk - 1)).map fun k =>
            .add ((i * hiddenSize + e : ℕ) : ℤ) (memory (srcPtr ((i * topk + k : ℕ) : ℤ) + e)))
  rows : ∀ (memory : ℕ → α) (srcPtr : ℤ → ℕ) (out out' : ℤ → α),
    GatherAndSumTokens gdr memory srcPtr n topk hiddenSize out out' →
    ∀ i < n, ∀ e < hiddenSize, out' ((i * hiddenSize + e : ℕ) : ℤ) =
      ∑ k ∈ Finset.range topk, memory (srcPtr ((i * topk + k : ℕ) : ℤ) + e)

/-- Each column of each output row is visited once, and the rows are as specified. -/
def CoversColumns (α W : Type) [AddCommMonoid α] [Zero W] (gdr : Bool) (hiddenSize : ℕ) : Call → Prop
  | .permute numInputTokens topk => PermuteCovers α W hiddenSize numInputTokens topk
  | .gather numTokens => GatherCovers α W gdr hiddenSize numTokens
  | .sum n topk _ => SumCovers α gdr hiddenSize n topk

/-- The chunks tile the rows of an output and make a grid, and its offsets are ints. -/
structure RowsFit (n hiddenSize : ℕ) : Prop where
  tiled : 128 ∣ hiddenSize ∨ 960 ∣ hiddenSize
  chunks : hiddenSize / chunkSize hiddenSize ≤ maxGridDimY
  offsets : (n - 1) * hiddenSize < 2 ^ 31

instance (n hiddenSize : ℕ) : Decidable (RowsFit n hiddenSize) :=
  decidable_of_iff ((128 ∣ hiddenSize ∨ 960 ∣ hiddenSize) ∧
    hiddenSize / chunkSize hiddenSize ≤ maxGridDimY ∧ (n - 1) * hiddenSize < 2 ^ 31)
    ⟨fun h => ⟨h.1, h.2.1, h.2.2⟩, fun h => ⟨h.tiled, h.chunks, h.offsets⟩⟩

/-- The sizes that a call covers. -/
def Call.Fits (gdr : Bool) (hiddenSize : ℕ) : Call → Prop
  | permute numInputTokens topk => int32 numInputTokens ≠ 0 ∧
      (numInputTokens * topk ≠ 0 → RowsFit (numInputTokens * topk) hiddenSize)
  | gather numTokens => PointersFit gdr numTokens ∧ (numTokens ≠ 0 → RowsFit numTokens hiddenSize)
  | sum n topk _ => PointersFit gdr (n * topk) ∧
      (n ≠ 0 → RowsFit n hiddenSize ∧ topk < 2 ^ 31 ∧ n * topk ≤ 2 ^ 31)

theorem chunkSize_le (hiddenSize : ℕ) : chunkSize hiddenSize ≤ 2048 := by
  unfold chunkSize
  split_ifs <;> omega

namespace RowsFit

variable {n hiddenSize : ℕ}

theorem dvd (h : RowsFit n hiddenSize) : chunkSize hiddenSize ∣ hiddenSize :=
  (chunkSize_dvd_iff hiddenSize).mpr h.tiled

theorem hiddenSize_lt (h : RowsFit n hiddenSize) : hiddenSize < 2 ^ 31 := by
  have hle : hiddenSize / chunkSize hiddenSize * chunkSize hiddenSize ≤ 65535 * 2048 :=
    Nat.mul_le_mul h.chunks (chunkSize_le hiddenSize)
  rw [Nat.div_mul_cancel h.dvd] at hle
  omega

theorem offset_lt (h : RowsFit n hiddenSize) {i : ℕ} (hi : i < n) : i * hiddenSize < 2 ^ 31 :=
  lt_of_le_of_lt (Nat.mul_le_mul_right hiddenSize (by omega)) h.offsets

theorem numTokens_lt (h : RowsFit n hiddenSize) (hpos : 0 < hiddenSize) : n < 2 ^ 31 := by
  have hwide : 2 ≤ hiddenSize := by
    have htiled := h.tiled
    omega
  have hle : (n - 1) * 2 ≤ (n - 1) * hiddenSize := Nat.mul_le_mul_left _ hwide
  have hoffsets := h.offsets
  omega

/-- Sizes that fit are launched as they are. -/
theorem launched {β : Type} {l : Launch β} (h : RowsFit n hiddenSize) (hpos : 0 < hiddenSize)
    (hn : l.numTokens = int32 n) (hh : l.hiddenSize = int32 hiddenSize) :
    l.numChunks ≤ maxGridDimY ∧ 0 < l.numChunks ∧ l.numTokens.toNat = n := by
  have hsize : l.hiddenSize.toNat = hiddenSize := by
    rw [hh, int32_natCast h.hiddenSize_lt, Int.toNat_natCast]
  rw [Launch.numChunks, hsize, hn, int32_natCast (h.numTokens_lt hpos), Int.toNat_natCast]
  exact ⟨h.chunks, Nat.div_pos (Nat.le_of_dvd hpos h.dvd) (Nat.pos_of_dvd_of_pos h.dvd hpos), rfl⟩

end RowsFit

/-! ### Calls that fit -/

/-- A launch of sizes that fit covers what its threads do at their offsets. -/
theorem RowsFit.covers {β : Type} {l : Launch β} {n hiddenSize : ℕ} {f : ℕ → ℕ → List β}
    (hpos : 0 < hiddenSize) (hfit : n ≠ 0 → RowsFit n hiddenSize) (hn : l.numTokens = int32 n)
    (hh : l.hiddenSize = int32 hiddenSize)
    (hthread : RowsFit n hiddenSize → ∀ i < n, ∀ chunkId tid, (l.thread i chunkId tid).Perm
      ((threadOffsets (chunkSize hiddenSize) chunkId tid).flatMap (f i))) :
    l.accesses.Perm (columns n hiddenSize f) := by
  by_cases hn0 : n = 0
  · subst hn0
    have hnone : l.accesses = [] := by simp [Launch.accesses, grid, hn]
    rw [hnone]
    exact List.Perm.refl _
  · have hrows := hfit hn0
    exact Launch.accesses_perm (hn.trans (int32_natCast (hrows.numTokens_lt hpos)))
      (hh.trans (int32_natCast hrows.hiddenSize_lt)) hrows.dvd hrows.chunks (hthread hrows)

/-- Rows that are written at targets of their own arrive there in any order of the writes. -/
theorem stored_rows {writes : List (ℤ × α)} {n hiddenSize : ℕ} {r : ℕ → ℕ} {v : ℕ → ℕ → α}
    {out out' : ℤ → α} (hperm : writes.Perm (columns n hiddenSize fun i e =>
      [(((r i * hiddenSize + e : ℕ) : ℤ), v i e)]))
    (hinj : Set.InjOn r (Set.Iio n)) (hstored : StoredInSomeOrder writes out out') {i e : ℕ}
    (hi : i < n) (he : e < hiddenSize) : out' ((r i * hiddenSize + e : ℕ) : ℤ) = v i e := by
  have hwrites : ∀ w, w ∈ writes ↔ ∃ i < n, ∃ e < hiddenSize,
      w = (((r i * hiddenSize + e : ℕ) : ℤ), v i e) := by
    intro w
    simp [hperm.mem_iff, columns]
  apply hstored.eq_of_mem
  · exact ⟨_, (hwrites _).mpr ⟨i, hi, e, he, rfl⟩, rfl⟩
  · intro w hw haddr
    obtain ⟨j, hj, e', he', rfl⟩ := (hwrites w).mp hw
    obtain ⟨hrow, rfl⟩ := rowMajor_inj he' he (Int.natCast_inj.mp haddr)
    obtain rfl : j = i := hinj hj hi hrow
    rfl

/-- The offset of a row that fits. -/
theorem int32_offset {i hiddenSize : ℕ} (h : i * hiddenSize < 2 ^ 31) :
    int32 ((i : ℤ) * hiddenSize) = (i * hiddenSize : ℕ) := by
  rw [← Nat.cast_mul, int32_natCast h]

/-- The sizes of a permutation that fits. -/
theorem permute_sizes {numInputTokens topk : ℕ} (hlt : numInputTokens * topk < 2 ^ 31) :
    (int32 (numInputTokens * topk : ℕ)).tmod (int32 numInputTokens) = 0 ∧
      0 ≤ int32 (numInputTokens * topk : ℕ) ∧ (numInputTokens * topk ≠ 0 →
        (int32 (numInputTokens * topk : ℕ)).tdiv (int32 numInputTokens) = topk) := by
  by_cases hzero : numInputTokens * topk = 0
  · simp [hzero]
  · have hpos : 0 < numInputTokens := Nat.pos_of_ne_zero (left_ne_zero_of_mul hzero)
    have hle : numInputTokens ≤ numInputTokens * topk :=
      Nat.le_mul_of_pos_right _ (Nat.pos_of_ne_zero (right_ne_zero_of_mul hzero))
    rw [int32_natCast hlt, int32_natCast (hle.trans_lt hlt), ← Int.ofNat_tmod, ← Int.ofNat_tdiv,
      Nat.mul_mod_right, Nat.mul_div_cancel_left _ hpos]
    exact ⟨rfl, Int.natCast_nonneg _, fun _ => rfl⟩

theorem permuteCovers_of_fits [Zero W] {hiddenSize numInputTokens topk : ℕ}
    (haccept : 0 < int32 hiddenSize) (hpos : 0 < hiddenSize) (hin : int32 numInputTokens ≠ 0)
    (hfit : numInputTokens * topk ≠ 0 → RowsFit (numInputTokens * topk) hiddenSize) :
    PermuteCovers α W hiddenSize numInputTokens topk := by
  have hvisits : ∀ (mul : α → W → α) (tokens : ℤ → α) (mappings : ℕ → ℕ),
      (∀ i < numInputTokens * topk, mappings i < numInputTokens * topk) →
      ∃ l, permuteTokensCudaDispatch mul tokens (fun i => mappings i) numInputTokens hiddenSize
          (numInputTokens * topk) = .ok l ∧
        l.accesses.Perm (columns (numInputTokens * topk) hiddenSize fun i e =>
          [(((mappings i * hiddenSize + e : ℕ) : ℤ), tokens ((i / topk * hiddenSize + e : ℕ) : ℤ))]) := by
    intro mul tokens mappings hmap
    have hlt : numInputTokens * topk < 2 ^ 31 := by
      by_cases hzero : numInputTokens * topk = 0
      · omega
      · exact (hfit hzero).numTokens_lt hpos
    obtain ⟨hmod, hnonneg, hdiv⟩ := permute_sizes hlt
    refine ⟨_, (permuteTokensCudaDispatch_ok_iff haccept).mpr ⟨hin, hmod, hnonneg, rfl⟩, ?_⟩
    refine RowsFit.covers hpos hfit rfl rfl fun hrows i hi chunkId tid => ?_
    have hsrc : i / topk * hiddenSize < 2 ^ 31 :=
      (Nat.mul_le_mul_right _ (Nat.div_le_self i topk)).trans_lt (hrows.offset_lt hi)
    simp only [permuteTokensKernel, moveOneTokenKernel, hdiv (by omega), ← Int.ofNat_tdiv,
      int32_natCast hrows.hiddenSize_lt, Int.toNat_natCast, int32_offset hsrc,
      int32_offset (hrows.offset_lt (hmap i hi)), ← Nat.cast_add, ← List.map_eq_flatMap]
    exact List.Perm.refl _
  refine ⟨hvisits, ?_⟩
  rintro mul tokens mappings out out' hmap hinj ⟨l, hl, hstored⟩ i hi e he
  obtain ⟨l', hl', hperm⟩ := hvisits mul tokens mappings hmap
  obtain rfl : l = l' := Except.ok.inj (hl.symm.trans hl')
  exact stored_rows hperm hinj hstored hi he

theorem gatherCovers_of_fits [Zero W] {gdr : Bool} {hiddenSize numTokens : ℕ}
    (haccept : 0 < int32 hiddenSize) (hpos : 0 < hiddenSize) (hptrs : PointersFit gdr numTokens)
    (hfit : numTokens ≠ 0 → RowsFit numTokens hiddenSize) :
    GatherCovers α W gdr hiddenSize numTokens := by
  have hvisits : ∀ (mul : α → W → α) (memory : ℕ → α) (srcPtr : ℕ → ℕ),
      ∃ l, gatherTokensCudaDispatch gdr mul memory srcPtr numTokens hiddenSize = .ok l ∧
        l.accesses.Perm (columns numTokens hiddenSize fun i e =>
          [(((i * hiddenSize + e : ℕ) : ℤ), memory (srcPtr i + e))]) := by
    intro mul memory srcPtr
    refine ⟨_, (gatherTokensCudaDispatch_ok_iff haccept).mpr ⟨hptrs, rfl⟩, ?_⟩
    refine RowsFit.covers hpos hfit rfl rfl fun hrows i hi chunkId tid => ?_
    simp only [gatherTokensKernel, moveOneTokenKernel, int32_natCast hrows.hiddenSize_lt,
      Int.toNat_natCast, int32_offset (hrows.offset_lt hi), ← Nat.cast_add, ← List.map_eq_flatMap]
    exact List.Perm.refl _
  refine ⟨hvisits, ?_⟩
  rintro mul memory srcPtr out out' ⟨l, hl, hstored⟩ i hi e he
  obtain ⟨l', hl', hperm⟩ := hvisits mul memory srcPtr
  obtain rfl : l = l' := Except.ok.inj (hl.symm.trans hl')
  exact stored_rows (r := id) hperm Function.injective_id.injOn hstored hi he

/-- The accesses of a thread of a sum, with exact offsets. -/
def sumPasses (memory : ℕ → α) (srcPtr : ℤ → ℕ) (topk hiddenSize i : ℕ) (offsets : List ℕ) :
    List (SumAccess α) :=
  (offsets.map fun e =>
    .copy ((i * hiddenSize + e : ℕ) : ℤ) (memory (srcPtr ((i * topk : ℕ) : ℤ) + e))) ++
  (List.range' 1 (topk - 1)).flatMap fun k => offsets.map fun e =>
    .add ((i * hiddenSize + e : ℕ) : ℤ) (memory (srcPtr ((i * topk + k : ℕ) : ℤ) + e))

/-- Passes over some places, each place with all its passes together. -/
theorem passes_perm {β : Type} (offsets ks : List ℕ) (f : ℕ → β) (g : ℕ → ℕ → β) :
    (offsets.map f ++ ks.flatMap fun k => offsets.map (g k)).Perm
      (offsets.flatMap fun e => f e :: ks.map fun k => g k e) := by
  have hrest : (ks.flatMap fun k => offsets.map (g k)).Perm
      (offsets.flatMap fun e => ks.map fun k => g k e) := by
    induction ks with
    | nil => simp
    | cons k ks ih =>
      rw [List.flatMap_cons]
      exact (ih.append_left _).trans (List.map_append_flatMap_perm offsets (g k) _)
  exact (hrest.append_left _).trans (List.map_append_flatMap_perm offsets f _)

/-- The accesses of a thread to one of its elements. -/
theorem passes_filter {offsets ks : List ℕ} (hnodup : offsets.Nodup) {e : ℕ} (he : e ∈ offsets)
    {f : ℕ → SumAccess α} {g : ℕ → ℕ → SumAccess α} {addr : ℕ → ℤ} (hinj : Function.Injective addr)
    (hf : ∀ e, (f e).addr = addr e) (hg : ∀ k e, (g k e).addr = addr e) :
    (offsets.map f ++ ks.flatMap fun k => offsets.map (g k)).filter (·.addr = addr e) =
      f e :: ks.map fun k => g k e := by
  have hone : ∀ f : ℕ → SumAccess α, (∀ e, (f e).addr = addr e) →
      (offsets.map f).filter (·.addr = addr e) = [f e] := by
    intro f hf
    have hfilter : offsets.filter ((fun a : SumAccess α => decide (a.addr = addr e)) ∘ f) = [e] := by
      rw [List.filter_congr (q := (· == e)), List.filter_beq, List.count_eq_one_of_mem hnodup he]
      · rfl
      · intro e' _
        simp [hf, hinj.eq_iff, Bool.beq_eq_decide_eq]
    rw [List.filter_map, hfilter, List.map_singleton]
  rw [List.filter_append, hone f hf, List.filter_flatMap, List.map_eq_flatMap]
  simp only [fun k => hone (g k) (hg k)]
  rfl

theorem mem_sumPasses {memory : ℕ → α} {srcPtr : ℤ → ℕ} {topk hiddenSize i : ℕ} {offsets : List ℕ}
    {a : SumAccess α} (ha : a ∈ sumPasses memory srcPtr topk hiddenSize i offsets) :
    ∃ e ∈ offsets, a.addr = (i * hiddenSize + e : ℕ) := by
  rcases List.mem_append.mp ha with ha | ha
  · obtain ⟨e, he, rfl⟩ := List.mem_map.mp ha
    exact ⟨e, he, rfl⟩
  · obtain ⟨k, -, ha⟩ := List.mem_flatMap.mp ha
    obtain ⟨e, he, rfl⟩ := List.mem_map.mp ha
    exact ⟨e, he, rfl⟩

section

variable {n topk hiddenSize : ℕ} (memory : ℕ → α) (srcPtr : ℤ → ℕ)

/-- The accesses of a thread of a sum that fits. -/
theorem gatherAndSumTokensKernel_eq (hrows : RowsFit n hiddenSize) (hpos : 0 < hiddenSize)
    (htopk0 : 0 < topk) (htopk : topk < 2 ^ 31) (hptrs : n * topk ≤ 2 ^ 31) {i : ℕ} (hi : i < n)
    (chunkId tid : ℕ) : gatherAndSumTokensKernel memory srcPtr (int32 n) (int32 topk)
        (int32 hiddenSize) i chunkId tid =
      sumPasses memory srcPtr topk hiddenSize i (threadOffsets (chunkSize hiddenSize) chunkId tid) := by
  have hlast : i * topk + topk ≤ 2 ^ 31 := by
    rw [← Nat.succ_mul]
    exact (Nat.mul_le_mul_right topk hi).trans hptrs
  rw [gatherAndSumTokensKernel, int32_natCast (hrows.numTokens_lt hpos), int32_natCast htopk,
    int32_natCast hrows.hiddenSize_lt, if_neg (by exact_mod_cast hi.not_ge), sumPasses]
  simp only [Int.toNat_natCast, int32_offset (hrows.offset_lt hi),
    int32_offset (show i * topk < 2 ^ 31 by omega), ← Nat.cast_add]
  congr 1
  refine List.flatMap_congr fun k hk => ?_
  rw [List.mem_range'_1] at hk
  rw [int32_natCast (show i * topk + k < 2 ^ 31 by omega)]

theorem sum_threads (hrows : RowsFit n hiddenSize) (hpos : 0 < hiddenSize)
    (htopk0 : 0 < topk) (htopk : topk < 2 ^ 31) (hptrs : n * topk ≤ 2 ^ 31) (t : ℕ × ℕ × ℕ) :
    (Launch.mk (int32 n) (int32 hiddenSize) (gatherAndSumTokensKernel memory srcPtr (int32 n)
        (int32 topk) (int32 hiddenSize))).threads t =
      if t.1 < n ∧ t.2.1 < hiddenSize / chunkSize hiddenSize ∧ t.2.2 < numThreads then
        sumPasses memory srcPtr topk hiddenSize t.1
          (threadOffsets (chunkSize hiddenSize) t.2.1 t.2.2) else [] := by
  have hsize : (int32 hiddenSize).toNat = hiddenSize := by
    rw [int32_natCast hrows.hiddenSize_lt, Int.toNat_natCast]
  have hcount : (int32 n).toNat = n := by
    rw [int32_natCast (hrows.numTokens_lt hpos), Int.toNat_natCast]
  simp only [Launch.threads, Launch.numChunks, hsize, hcount, hrows.chunks, true_and]
  split_ifs with hrun
  · exact gatherAndSumTokensKernel_eq memory srcPtr hrows hpos htopk0 htopk hptrs hrun.1 _ _
  · rfl

end

theorem sumCovers_of_fits [AddCommMonoid α] {gdr : Bool} {hiddenSize n topk : ℕ}
    (haccept : 0 < int32 hiddenSize) (hpos : 0 < hiddenSize) (htopk : 0 < topk)
    (hptrs : PointersFit gdr (n * topk))
    (hfit : n ≠ 0 → RowsFit n hiddenSize ∧ topk < 2 ^ 31 ∧ n * topk ≤ 2 ^ 31) :
    SumCovers α gdr hiddenSize n topk where
  visits memory srcPtr := by
    refine ⟨_, (gatherAndSumTokensCudaDispatch_ok_iff haccept).mpr ⟨hptrs, rfl⟩, ?_⟩
    refine RowsFit.covers hpos (fun h => (hfit h).1) rfl rfl fun hrows i hi chunkId tid => ?_
    obtain ⟨-, hbound, hle⟩ := hfit (by omega)
    dsimp only
    rw [gatherAndSumTokensKernel_eq memory srcPtr hrows hpos htopk hbound hle hi]
    exact passes_perm _ _ _ _
  rows memory srcPtr := by
    rintro out out' ⟨l, hl, order, horder, rfl⟩ i hi e he
    obtain rfl := ((gatherAndSumTokensCudaDispatch_ok_iff haccept).mp hl).2
    obtain ⟨hrows, hbound, hle⟩ := hfit (by omega)
    rw [funext (sum_threads memory srcPtr hrows hpos htopk hbound hle)] at horder
    obtain ⟨chunkId, hchunk, tid, htid, hoff⟩ := (mem_row hrows.dvd).mpr he
    obtain ⟨task, -, htask⟩ := chunkSize_eq hiddenSize
    have hone := horder.filter_eq (p := fun a => a.addr = (i * hiddenSize + e : ℕ))
      (j := (i, chunkId, tid)) <| by
      rintro ⟨i', c', t'⟩ hne a ha
      rw [decide_eq_false_iff_not]
      intro haddr
      split_ifs at ha with hrun
      · obtain ⟨e', hoff', haddr'⟩ := mem_sumPasses ha
        have he' : e' < hiddenSize := (mem_row hrows.dvd).mp ⟨c', hrun.2.1, t', hrun.2.2, hoff'⟩
        obtain ⟨hrow, rfl⟩ := rowMajor_inj he' he (Int.natCast_inj.mp (haddr'.symm.trans haddr))
        rw [htask] at hoff hoff'
        obtain ⟨hchunks, htids⟩ := threadOffsets_unique hrun.2.2 htid hoff' hoff
        exact hne (by simp only [Prod.mk.injEq]; exact ⟨hrow, hchunks, htids⟩)
      · cases ha
    have hinj : Function.Injective fun e => ((i * hiddenSize + e : ℕ) : ℤ) :=
      fun e e' h => Nat.add_left_cancel (Int.natCast_inj.mp h)
    have hnodup : (threadOffsets (chunkSize hiddenSize) chunkId tid).Nodup := by
      rw [htask]
      exact threadOffsets_nodup task chunkId tid
    rw [foldl_update_apply, hone, if_pos ⟨hi, hchunk, htid⟩, sumPasses,
      passes_filter hnodup hoff hinj (fun _ => rfl) fun _ _ => rfl, List.foldl_cons, List.foldl_map]
    have hsum := foldl_add_range' (fun k => memory (srcPtr ((i * topk + k : ℕ) : ℤ) + e)) (topk - 1)
    rw [Nat.sub_add_cancel htopk] at hsum
    exact hsum

/-! ### Calls that cover -/

theorem exists_row_past {b n hiddenSize : ℕ} (hn : n ≠ 0) (hpos : 0 < hiddenSize)
    (h : b ≤ (n - 1) * hiddenSize) :
    ∃ i < n, b ≤ i * hiddenSize ∧ i * hiddenSize < b + hiddenSize := by
  have hex : ∃ i, b ≤ i * hiddenSize := ⟨n - 1, h⟩
  have hlast : Nat.find hex ≤ n - 1 := Nat.find_le h
  refine ⟨Nat.find hex, by omega, Nat.find_spec hex, ?_⟩
  cases hi : Nat.find hex with
  | zero => omega
  | succ i =>
    have hbefore : i * hiddenSize < b := not_le.mp (Nat.find_min hex (by omega))
    rw [Nat.succ_mul]
    omega

/-- A launch that visits the columns it owes, and none before the output, has sizes that fit. -/
theorem RowsFit.of_visits {β : Type} {l : Launch β} {n hiddenSize m k : ℕ} {f : ℕ → ℕ → List β}
    (addr : β → ℤ) (haccept : 0 < int32 hiddenSize) (hn0 : n ≠ 0) (hm : m ≤ k) (hk : 0 < k)
    (hn : l.numTokens = int32 n) (hh : l.hiddenSize = int32 hiddenSize)
    (hthread : ∀ i < l.numTokens.toNat, ∀ chunkId tid, (l.thread i chunkId tid).length =
      (threadOffsets (chunkSize l.hiddenSize.toNat) chunkId tid).length * m)
    (hfirst : ∀ i < l.numTokens.toNat, ∃ a ∈ l.thread i 0 0, addr a = int32 (i * int32 hiddenSize))
    (hlen : ∀ i e, (f i e).length = k) (hnonneg : ∀ i e, ∀ a ∈ f i e, 0 ≤ addr a)
    (hvisits : l.accesses.Perm (columns n hiddenSize f)) : RowsFit n hiddenSize ∧ m = k := by
  have hpos : 0 < hiddenSize := by
    have hle := toNat_int32_le hiddenSize
    omega
  have hlength := hvisits.length_eq.trans (length_columns hlen n hiddenSize)
  obtain ⟨hchunks, hcount, hsize, hdvd, hmk⟩ := Launch.tiled_of_length hthread
    (by rw [hn]; exact toNat_int32_le n) (by rw [hh]; exact toNat_int32_le hiddenSize) hm
    (by positivity) hlength
  have hsize' : int32 hiddenSize = hiddenSize := by
    rw [hh] at hsize
    rw [← Int.toNat_of_nonneg haccept.le, hsize]
  refine ⟨⟨(chunkSize_dvd_iff hiddenSize).mp hdvd, ?_, ?_⟩, hmk⟩
  · rwa [Launch.numChunks, hsize] at hchunks
  · by_contra hover
    -- the first row past the range of an int wraps around to before the output
    have hlt := int32_lt hiddenSize
    obtain ⟨i, hi, hlo, hhi⟩ := exists_row_past (b := 2 ^ 31) hn0 hpos (not_lt.mp hover)
    obtain ⟨a, ha, haddr⟩ := hfirst i (by omega)
    have hneg : int32 ((i : ℤ) * hiddenSize) < 0 := by
      rw [← Nat.cast_mul, int32_eq_sub (by exact_mod_cast hlo) (by omega)]
      omega
    have hchunk : 0 < l.numChunks := by
      rw [Launch.numChunks, hsize]
      exact Nat.div_pos (Nat.le_of_dvd hpos hdvd) (Nat.pos_of_dvd_of_pos hdvd hpos)
    have hmem := hvisits.mem_iff.mp (Launch.mem_accesses hchunks (by omega) hchunk (by decide) ha)
    simp only [columns, List.mem_flatMap] at hmem
    obtain ⟨j, -, e, -, hae⟩ := hmem
    have hge := hnonneg j e a hae
    rw [haddr, hsize'] at hge
    exact hneg.not_ge hge

theorem permuteFits_of_covers [AddCommMonoid α] [Zero W] {hiddenSize numInputTokens topk : ℕ}
    (haccept : 0 < int32 hiddenSize) (h : PermuteCovers α W hiddenSize numInputTokens topk) :
    int32 numInputTokens ≠ 0 ∧
      (numInputTokens * topk ≠ 0 → RowsFit (numInputTokens * topk) hiddenSize) := by
  obtain ⟨l, hl, hvisits⟩ := h.visits (fun a _ => a) (fun _ => 0) id fun i hi => hi
  obtain ⟨hin, -, -, rfl⟩ := (permuteTokensCudaDispatch_ok_iff haccept).mp hl
  refine ⟨hin, fun hn => (RowsFit.of_visits (m := 1) Prod.fst haccept hn le_rfl one_pos rfl rfl
    ?_ ?_ (fun _ _ => rfl) ?_ hvisits).1⟩
  · intro i _ chunkId tid
    simp [permuteTokensKernel, moveOneTokenKernel]
  · intro i _
    refine ⟨_, List.mem_map_of_mem (zero_mem_threadOffsets _), ?_⟩
    simp
  · intro i e a ha
    rw [List.mem_singleton.mp ha]
    exact Int.natCast_nonneg _

theorem gatherFits_of_covers [AddCommMonoid α] [Zero W] {gdr : Bool} {hiddenSize numTokens : ℕ}
    (haccept : 0 < int32 hiddenSize) (h : GatherCovers α W gdr hiddenSize numTokens) :
    PointersFit gdr numTokens ∧ (numTokens ≠ 0 → RowsFit numTokens hiddenSize) := by
  obtain ⟨l, hl, hvisits⟩ := h.visits (fun a _ => a) (fun _ => 0) id
  obtain ⟨hptrs, rfl⟩ := (gatherTokensCudaDispatch_ok_iff haccept).mp hl
  refine ⟨hptrs, fun hn => (RowsFit.of_visits (m := 1) Prod.fst haccept hn le_rfl one_pos rfl rfl
    ?_ ?_ (fun _ _ => rfl) ?_ hvisits).1⟩
  · intro i _ chunkId tid
    simp [gatherTokensKernel, moveOneTokenKernel]
  · intro i _
    refine ⟨_, List.mem_map_of_mem (zero_mem_threadOffsets _), ?_⟩
    simp
  · intro i e a ha
    rw [List.mem_singleton.mp ha]
    exact Int.natCast_nonneg _

def SumAccess.val : SumAccess α → α
  | copy _ val | add _ val => val

/-- The first access of a thread of a sum. -/
theorem exists_sumAccess_row (memory : ℕ → α) (srcPtr : ℤ → ℕ) {n : ℤ} (topk hiddenSize : ℤ) {i : ℕ}
    (hi : ¬ (i : ℤ) ≥ n) : ∃ a ∈ gatherAndSumTokensKernel memory srcPtr n topk hiddenSize i 0 0,
      a.addr = int32 (i * hiddenSize) := by
  rw [gatherAndSumTokensKernel, if_neg hi]
  refine ⟨_, List.mem_append_left _ (List.mem_map_of_mem (zero_mem_threadOffsets _)), ?_⟩
  simp [SumAccess.addr]

/-- The row that a sum reads in its `k`-th pass. -/
theorem exists_sumAccess (hiddenSize : ℕ) {n topk : ℕ} (hn : n < 2 ^ 31) (htopk : topk < 2 ^ 31)
    (memory : ℕ → α) (srcPtr : ℤ → ℕ) {i k : ℕ} (hi : i < n) (hk : k < topk) :
    ∃ a ∈ gatherAndSumTokensKernel memory srcPtr (int32 n) (int32 topk) (int32 hiddenSize) i 0 0,
      a.val = memory (srcPtr (int32 ((i * topk + k : ℕ) : ℤ))) := by
  rw [gatherAndSumTokensKernel, int32_natCast hn, int32_natCast htopk,
    if_neg (by exact_mod_cast hi.not_ge)]
  have hzero := zero_mem_threadOffsets (int32 hiddenSize).toNat
  rcases Nat.eq_zero_or_pos k with rfl | hk0
  · refine ⟨_, List.mem_append_left _ (List.mem_map_of_mem hzero), ?_⟩
    simp [SumAccess.val]
  · have hpass : k ∈ List.range' 1 (topk - 1) := by
      rw [List.mem_range'_1]
      omega
    rw [Int.toNat_natCast]
    refine ⟨_, List.mem_append_right _ (List.mem_flatMap.mpr ⟨k, hpass, List.mem_map_of_mem hzero⟩), ?_⟩
    simp [SumAccess.val, int32_add]

/-- Past the range of an int the index of a source pointer wraps around, and another row than
the one at that index is summed. -/
theorem pointers_le_of_visits [Nontrivial α] {n topk hiddenSize : ℕ} (haccept : 0 < int32 hiddenSize)
    (hrows : RowsFit n hiddenSize) (htopk0 : 0 < topk) (htopk : topk < 2 ^ 31)
    (hvisits : ∀ (memory : ℕ → α) (srcPtr : ℤ → ℕ), (Launch.mk (int32 n) (int32 hiddenSize)
        (gatherAndSumTokensKernel memory srcPtr (int32 n) (int32 topk) (int32 hiddenSize))).accesses.Perm
      (columns n hiddenSize fun i e =>
        .copy ((i * hiddenSize + e : ℕ) : ℤ) (memory (srcPtr ((i * topk : ℕ) : ℤ) + e)) ::
          (List.range' 1 (topk - 1)).map fun k =>
            .add ((i * hiddenSize + e : ℕ) : ℤ) (memory (srcPtr ((i * topk + k : ℕ) : ℤ) + e)))) :
    n * topk ≤ 2 ^ 31 := by
  by_contra hover
  obtain ⟨x, y, hxy⟩ := exists_pair_ne α
  have hpos : 0 < hiddenSize := by
    have hle := toNat_int32_le hiddenSize
    omega
  -- a row of `x` at the pointers of the call, and one of `y` at the index that wraps around
  obtain ⟨memory, srcPtr, hcall, hwrapped⟩ : ∃ (memory : ℕ → α) (srcPtr : ℤ → ℕ),
      (∀ idx ≥ 0, ∀ e < hiddenSize, memory (srcPtr idx + e) = x) ∧
        ∀ idx < 0, memory (srcPtr idx) = y := by
    refine ⟨fun addr => if addr < hiddenSize then x else y,
      fun idx => if idx < 0 then hiddenSize else 0, fun idx hidx e he => ?_, fun idx hidx => ?_⟩
    · simp [hidx.not_gt, he]
    · simp [hidx]
  have hsplit := Nat.div_add_mod' (2 ^ 31) topk
  have hi : 2 ^ 31 / topk < n := (Nat.div_lt_iff_lt_mul htopk0).mpr (not_le.mp hover)
  have hneg : int32 ((2 ^ 31 / topk * topk + 2 ^ 31 % topk : ℕ) : ℤ) < 0 := by
    rw [hsplit, int32_eq_sub (by norm_num) (by norm_num)]
    norm_num
  obtain ⟨a, ha, hval⟩ := exists_sumAccess hiddenSize (hrows.numTokens_lt hpos) htopk memory srcPtr hi
    (Nat.mod_lt (2 ^ 31) htopk0)
  rw [hwrapped _ hneg] at hval
  obtain ⟨hchunks, hchunk, hcount⟩ := hrows.launched hpos (rfl : (Launch.mk (int32 n) (int32 hiddenSize)
    (gatherAndSumTokensKernel memory srcPtr (int32 n) (int32 topk) (int32 hiddenSize))).numTokens = _) rfl
  have hmem := (hvisits memory srcPtr).mem_iff.mp
    (Launch.mem_accesses hchunks (hi.trans_eq hcount.symm) hchunk (by decide) ha)
  simp only [columns, List.mem_flatMap, List.mem_range] at hmem
  obtain ⟨i, -, e, he, ha⟩ := hmem
  have hx : a.val = x := by
    rcases List.mem_cons.mp ha with rfl | ha
    · exact hcall _ (Int.natCast_nonneg _) e he
    · obtain ⟨k, -, rfl⟩ := List.mem_map.mp ha
      exact hcall _ (Int.natCast_nonneg _) e he
  exact hxy (hx.symm.trans hval)

theorem sumFits_of_covers [AddCommMonoid α] [Nontrivial α] {gdr : Bool} {hiddenSize n topk : ℕ}
    (haccept : 0 < int32 hiddenSize) (htopk : 0 < topk) (h : SumCovers α gdr hiddenSize n topk) :
    PointersFit gdr (n * topk) ∧
      (n ≠ 0 → RowsFit n hiddenSize ∧ topk < 2 ^ 31 ∧ n * topk ≤ 2 ^ 31) := by
  obtain ⟨l, hl, hvisits⟩ := h.visits (fun _ => 0) fun _ => 0
  obtain ⟨hptrs, rfl⟩ := (gatherAndSumTokensCudaDispatch_ok_iff haccept).mp hl
  refine ⟨hptrs, fun hn => ?_⟩
  have hle := toNat_int32_le topk
  have hrange : ∀ {i}, i < (int32 n).toNat → ¬ (i : ℤ) ≥ int32 n := fun hi => by omega
  have hfit : RowsFit n hiddenSize ∧ 1 + ((int32 topk).toNat - 1) = topk := by
    refine RowsFit.of_visits SumAccess.addr haccept hn (by omega) htopk rfl rfl ?_ ?_ ?_ ?_ hvisits
    · intro i hi chunkId tid
      dsimp only
      rw [gatherAndSumTokensKernel, if_neg (hrange hi)]
      simp [List.length_flatMap, Nat.mul_add, Nat.mul_comm]
    · intro i hi
      exact exists_sumAccess_row (fun _ => 0) (fun _ => 0) (int32 topk) (int32 hiddenSize) (hrange hi)
    · intro i e
      simp
      omega
    · intro i e a ha
      rcases List.mem_cons.mp ha with rfl | ha
      · exact Int.natCast_nonneg _
      · obtain ⟨k, -, rfl⟩ := List.mem_map.mp ha
        exact Int.natCast_nonneg _
  obtain ⟨hrows, hpasses⟩ := hfit
  have hbound : topk < 2 ^ 31 := by
    have hlt := toNat_int32_lt topk
    omega
  refine ⟨hrows, hbound, pointers_le_of_visits haccept hrows htopk hbound
    fun (memory : ℕ → α) srcPtr => ?_⟩
  obtain ⟨l, hl, hperm⟩ := h.visits memory srcPtr
  obtain ⟨-, rfl⟩ := (gatherAndSumTokensCudaDispatch_ok_iff haccept).mp hl
  exact hperm

/-! ### Exactly the sizes that fit -/

/-- A call of a width that is accepted covers each column of each output row exactly when its
sizes fit. -/
theorem coversColumns_iff (α W : Type) [AddCommMonoid α] [Nontrivial α] [Zero W] (gdr : Bool)
    {hiddenSize : ℕ} (haccept : 0 < int32 hiddenSize) (call : Call) :
    CoversColumns α W gdr hiddenSize call ↔ call.Fits gdr hiddenSize := by
  have hpos : 0 < hiddenSize := by
    have hle := toNat_int32_le hiddenSize
    omega
  cases call with
  | permute numInputTokens topk =>
    exact ⟨permuteFits_of_covers haccept, fun h => permuteCovers_of_fits haccept hpos h.1 h.2⟩
  | gather numTokens =>
    exact ⟨gatherFits_of_covers haccept, fun h => gatherCovers_of_fits haccept hpos h.1 h.2⟩
  | sum n topk htopk =>
    exact ⟨sumFits_of_covers haccept htopk, fun h => sumCovers_of_fits haccept hpos htopk h.1 h.2⟩

/-- Each function on two rows or more: as many source pointers as the region holds are gathered,
and one more is refused. -/
theorem coversColumns_fullRegion : CoversColumns ℤ ℤ true 960 (.permute 2 2) ∧
    CoversColumns ℤ ℤ true 960 (.gather 16384) ∧ CoversColumns ℤ ℤ true 960 (.sum 8192 2 two_pos) ∧
    ¬ CoversColumns ℤ ℤ true 960 (.gather 16385) := by
  have haccept : 0 < int32 (960 : ℕ) := by
    rw [int32_natCast (by norm_num)]
    norm_num
  refine ⟨?_, ?_, ?_, fun h => ?_⟩
  · refine (coversColumns_iff ℤ ℤ true haccept _).mpr ⟨?_, fun _ => by decide⟩
    rw [int32_natCast (by norm_num)]
    norm_num
  · exact (coversColumns_iff ℤ ℤ true haccept _).mpr ⟨fun _ => by decide, fun _ => by decide⟩
  · exact (coversColumns_iff ℤ ℤ true haccept _).mpr ⟨fun _ => by decide, fun _ => by decide⟩
  · exact absurd (((coversColumns_iff ℤ ℤ true haccept _).mp h).1 rfl).2 (by decide)

/-- Rows of 200 columns are accepted, and the last 72 are not visited. -/
theorem width200_not_covered : 0 < int32 (200 : ℕ) ∧ ¬ CoversColumns ℤ ℤ true 200 (.gather 1) := by
  have haccept : 0 < int32 (200 : ℕ) := by
    rw [int32_natCast (by norm_num)]
    norm_num
  refine ⟨haccept, fun h => ?_⟩
  exact absurd ((gatherFits_of_covers haccept h).2 one_ne_zero) (by decide)

end StreamInfer.Cuda
