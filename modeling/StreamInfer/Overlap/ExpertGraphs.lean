import StreamInfer.Cuda.CopyAndPad
import StreamInfer.Engine.ExpertsExecutor
import StreamInfer.Overlap.GraphSizes

/-! The graphs of the expert layers. Sizes double from 128 and end with the first that reaches
the limit, and the static buffers have as many rows as the limit: a batch finds the smallest
graph that is large enough, but the largest graph fits the buffers only when doubling meets
the limit. -/

namespace StreamInfer.Overlap

open Cuda Engine

/-- The sizes of the static buffers; `positive` is the assertion on the limit. -/
structure CUDAGraphExpertsExecutor where
  expertCls : ExpertClass
  localNumExperts : ℕ
  hiddenSize : ℕ
  maxBatchSize : ℕ
  positive : 0 < maxBatchSize

namespace CUDAGraphExpertsExecutor

variable {α : Type}

/-- `graph_batch_sizes`. -/
def graphBatchSizes (x : CUDAGraphExpertsExecutor) : List ℕ := expertGraphBatchSizes x.maxBatchSize

/-- `copy_` between rows: the slice of the buffer has to have the shape of the tensor. -/
def copyRows (x : CUDAGraphExpertsExecutor) (inp : PadInput α) : Except Fault (List (StaticWrite α)) :=
  if min inp.numTokens x.maxBatchSize = inp.numTokens then
    .ok ((List.range (inp.numTokens * x.hiddenSize)).map fun i => .hidden i (inp.hiddens i))
  else .error (.assertion "static_input_hiddens[:num_tokens].copy_")

/-- The writes of `cuda_graph_preprocess`; two rows for each block. -/
def cudaGraphPreprocess (x : CUDAGraphExpertsExecutor) (inp : PadInput α) (bucketSize : ℕ) :
    Except Fault (List (StaticWrite α)) :=
  if x.expertCls = .cutlass ∨ x.expertCls = .cutlassFp8 then do
    let rows ← x.copyRows inp
    return rows ++ (List.range inp.numExperts).map fun i => .batchSize i (inp.batchSizes i)
  else .ok (launchCopyAndPad 2 inp bucketSize)

/-- The rows of `static_input_hiddens[:graph_batch_size]`, which a replay reads. -/
def replayRows (x : CUDAGraphExpertsExecutor) (graphBatchSize : ℕ) : ℕ :=
  min graphBatchSize x.maxBatchSize

/-- A copy that succeeds and stays in the buffers, with rows for the whole graph. -/
def Fits (x : CUDAGraphExpertsExecutor) (inp : PadInput α) (bucketSize : ℕ) : Prop :=
  (∃ writes, x.cudaGraphPreprocess inp bucketSize = .ok writes ∧
    ∀ w ∈ writes, w.InBounds x.maxBatchSize x.hiddenSize x.localNumExperts) ∧
  x.replayRows bucketSize = bucketSize

/-- A batch for this executor. -/
structure Accepts (x : CUDAGraphExpertsExecutor) (inp : PadInput α) : Prop where
  numExperts : inp.numExperts = x.localNumExperts
  hiddenSize : inp.hiddenSize = x.hiddenSize

/-- Every batch within the limit has a smallest graph, and the copies of capture, whose
dummy batches fill the graph, and of a run stay in the buffers. -/
structure BucketsFit (α : Type) (x : CUDAGraphExpertsExecutor) : Prop where
  bucket : ∀ n, 1 ≤ n → n ≤ x.maxBatchSize →
    ∃ b ∈ x.graphBatchSizes, getBucketByNumTokens x.graphBatchSizes n = .ok b ∧ n ≤ b ∧
      ∀ b' ∈ x.graphBatchSizes, n ≤ b' → b ≤ b'
  le_max : ∀ b ∈ x.graphBatchSizes, b ≤ x.maxBatchSize
  capture : ∀ b ∈ x.graphBatchSizes, ∀ inp : PadInput α, x.Accepts inp → inp.numTokens = b →
    x.Fits inp b
  run : ∀ (b : ℕ) (inp : PadInput α), x.Accepts inp → 1 ≤ inp.numTokens →
    inp.numTokens ≤ x.maxBatchSize →
    getBucketByNumTokens x.graphBatchSizes inp.numTokens = .ok b → x.Fits inp b

/-! ### Doubling -/

theorem le_of_mem_doublingSizes {limit bsz : ℕ} {h : 0 < bsz} {size : ℕ}
    (hmem : size ∈ doublingSizes limit bsz h) : bsz ≤ size := by
  induction bsz, h using doublingSizes.induct limit with
  | case1 bsz h hlt ih =>
    unfold doublingSizes at hmem
    rw [if_pos hlt] at hmem
    rcases List.mem_cons.mp hmem with rfl | hmem
    · exact le_rfl
    · have hnext := ih hmem
      omega
  | case2 bsz h hge =>
    unfold doublingSizes at hmem
    rw [if_neg hge] at hmem
    exact (List.mem_singleton.mp hmem).ge

theorem pairwise_doublingSizes (limit bsz : ℕ) (h : 0 < bsz) :
    (doublingSizes limit bsz h).Pairwise (· < ·) := by
  induction bsz, h using doublingSizes.induct limit with
  | case1 bsz h hlt ih =>
    unfold doublingSizes
    rw [if_pos hlt, List.pairwise_cons]
    refine ⟨fun size hmem => ?_, ih⟩
    have hnext := le_of_mem_doublingSizes hmem
    omega
  | case2 bsz h hge =>
    unfold doublingSizes
    rw [if_neg hge]
    exact List.pairwise_singleton _ _

/-- The last size is within the limit when doubling meets it. -/
theorem doublingSizes_le_iff (limit bsz : ℕ) (h : 0 < bsz) :
    (∀ size ∈ doublingSizes limit bsz h, size ≤ limit) ↔ ∃ k, limit = bsz * 2 ^ k := by
  induction bsz, h using doublingSizes.induct limit with
  | case1 bsz h hlt ih =>
    unfold doublingSizes
    rw [if_pos hlt, List.forall_mem_cons, and_iff_right (Nat.le_of_lt hlt), ih]
    constructor
    · rintro ⟨k, hk⟩
      exact ⟨k + 1, by rw [hk, Nat.pow_succ', Nat.mul_assoc]⟩
    · rintro ⟨k, hk⟩
      cases k with
      | zero => omega
      | succ k => exact ⟨k, by rw [hk, Nat.pow_succ', Nat.mul_assoc]⟩
  | case2 bsz h hge =>
    unfold doublingSizes
    rw [if_neg hge]
    constructor
    · intro hle
      have hbsz := hle bsz (List.mem_singleton_self bsz)
      exact ⟨0, by omega⟩
    · rintro ⟨k, rfl⟩ size hmem
      rw [List.mem_singleton.mp hmem]
      exact Nat.le_mul_of_pos_right _ (Nat.two_pow_pos k)

theorem pairwise_expertGraphBatchSizes (limit : ℕ) :
    (expertGraphBatchSizes limit).Pairwise (· < ·) := by
  unfold expertGraphBatchSizes
  split_ifs
  · exact List.pairwise_singleton _ _
  · exact pairwise_doublingSizes limit 128 _

theorem expertGraphBatchSizes_le_iff (limit : ℕ) :
    (∀ size ∈ expertGraphBatchSizes limit, size ≤ limit) ↔ limit ≤ 128 ∨ ∃ k, limit = 128 * 2 ^ k := by
  unfold expertGraphBatchSizes
  split_ifs with hsmall
  · exact iff_of_true (fun size hmem => (List.mem_singleton.mp hmem).le) (.inl hsmall)
  · rw [doublingSizes_le_iff, or_iff_right hsmall]

/-- Among ascending sizes the first that is large enough is the smallest. -/
theorem getBucketByNumTokens_least {sizes : List ℕ} (hsorted : sizes.Pairwise (· < ·)) {n b : ℕ}
    (h : getBucketByNumTokens sizes n = .ok b) :
    b ∈ sizes ∧ n ≤ b ∧ ∀ b' ∈ sizes, n ≤ b' → b ≤ b' := by
  unfold getBucketByNumTokens at h
  cases hfind : sizes.find? fun size => decide (size ≥ n) with
  | none =>
    rw [hfind] at h
    cases h
  | some size =>
    rw [hfind] at h
    obtain rfl : size = b := Except.ok.inj h
    obtain ⟨hlarge, before, after, rfl, hbefore⟩ := List.find?_eq_some_iff_append.mp hfind
    refine ⟨List.mem_of_find?_eq_some hfind, of_decide_eq_true hlarge, fun b' hmem hle => ?_⟩
    rcases List.mem_append.mp hmem with hmem | hmem
    · have hnot := hbefore b' hmem
      simp only [decide_eq_true hle, Bool.not_true, Bool.false_eq_true] at hnot
    · rcases List.mem_cons.mp hmem with rfl | hmem
      · exact le_rfl
      · have hrest := (List.pairwise_append.mp hsorted).2.1
        exact Nat.le_of_lt ((List.pairwise_cons.mp hrest).1 b' hmem)

/-! ### Copies -/

variable {x : CUDAGraphExpertsExecutor} {inp : PadInput α} {b : ℕ}

theorem copyRows_inBounds (hn : inp.numTokens ≤ x.maxBatchSize) :
    ∃ writes, x.copyRows inp = .ok writes ∧
      ∀ w ∈ writes, w.InBounds x.maxBatchSize x.hiddenSize x.localNumExperts := by
  refine ⟨_, if_pos (min_eq_left hn), fun w hw => ?_⟩
  obtain ⟨i, hi, rfl⟩ := List.mem_map.mp hw
  exact Nat.lt_of_lt_of_le (List.mem_range.mp hi) (Nat.mul_le_mul_right _ hn)

theorem fits_of_le (hinp : x.Accepts inp) (hn : inp.numTokens ≤ b) (hb : b ≤ x.maxBatchSize) :
    x.Fits inp b := by
  refine ⟨?_, min_eq_left hb⟩
  unfold cudaGraphPreprocess
  split_ifs
  · obtain ⟨rows, hrows, hbounds⟩ := copyRows_inBounds (hn.trans hb)
    rw [hrows]
    refine ⟨_, rfl, fun w hw => ?_⟩
    rcases List.mem_append.mp hw with hw | hw
    · exact hbounds w hw
    · obtain ⟨i, hi, rfl⟩ := List.mem_map.mp hw
      exact hinp.numExperts ▸ List.mem_range.mp hi
  · refine ⟨_, rfl, ?_⟩
    rw [← hinp.hiddenSize, ← hinp.numExperts]
    exact (launchCopyAndPad_inBounds_iff hn).mpr hb

theorem exists_bucket {n : ℕ} (hn : n ≤ x.maxBatchSize) :
    ∃ b ∈ x.graphBatchSizes, getBucketByNumTokens x.graphBatchSizes n = .ok b ∧ n ≤ b ∧
      ∀ b' ∈ x.graphBatchSizes, n ≤ b' → b ≤ b' := by
  obtain ⟨b, hb, -⟩ := getBucketByNumTokens_ok (exists_mem_expertGraphBatchSizes x.maxBatchSize) hn
  obtain ⟨hmem, hle, hleast⟩ := getBucketByNumTokens_least (pairwise_expertGraphBatchSizes _) hb
  exact ⟨b, hmem, hb, hle, hleast⟩

/-- The graphs fit the buffers exactly for one graph, and for limits that doubling meets. -/
theorem bucketsFit_iff (α : Type) (x : CUDAGraphExpertsExecutor) :
    x.BucketsFit α ↔ x.maxBatchSize ≤ 128 ∨ ∃ k, x.maxBatchSize = 128 * 2 ^ k := by
  constructor
  · intro h
    exact (expertGraphBatchSizes_le_iff _).mp h.le_max
  · intro h
    have hle := (expertGraphBatchSizes_le_iff _).mpr h
    refine ⟨fun n _ hn => exists_bucket hn, hle, fun b hb inp hinp hn => ?_,
      fun b inp hinp _ _ hb => ?_⟩
    · exact fits_of_le hinp (Nat.le_of_eq hn) (hle b hb)
    · obtain ⟨hmem, hn, -⟩ := getBucketByNumTokens_least (pairwise_expertGraphBatchSizes _) hb
      exact fits_of_le hinp hn (hle b hmem)

/-- With 300 rows the largest graph has 512: a batch of 257 tokens runs in it, and the copy
writes past the indices. -/
theorem limit300_past_buffers : ∃ x : CUDAGraphExpertsExecutor, x.maxBatchSize = 300 ∧
    ¬ x.BucketsFit ℕ ∧ getBucketByNumTokens x.graphBatchSizes 257 = .ok 512 ∧
    ∀ inp : PadInput ℕ, x.Accepts inp → inp.numTokens = 257 →
      ∃ writes, x.cudaGraphPreprocess inp 512 = .ok writes ∧
        ¬ ∀ w ∈ writes, w.InBounds x.maxBatchSize x.hiddenSize x.localNumExperts := by
  have hsizes : expertGraphBatchSizes 300 = [128, 256, 512] := by
    simp [expertGraphBatchSizes, doublingSizes]
  refine ⟨⟨.deepGemmBf16, 4, 64, 300, by decide⟩, rfl, fun h => ?_, ?_, fun inp hinp hn => ⟨_, rfl, ?_⟩⟩
  · have hle := h.le_max 512 (by rw [graphBatchSizes, hsizes]; decide)
    exact absurd hle (by decide)
  · rw [graphBatchSizes, hsizes]
    rfl
  · rw [← hinp.hiddenSize, ← hinp.numExperts, launchCopyAndPad_inBounds_iff (by omega)]
    decide

end CUDAGraphExpertsExecutor

end StreamInfer.Overlap
