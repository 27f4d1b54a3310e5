import StreamInfer.Cuda.GroupedGemm
import StreamInfer.Fault

/-! The FP8 experts: quantise the activations, project, gate, quantise again, project. A
projection gives the scaled product for all weights exactly when the quantiser's scales
are one wherever a row is not zero; the code keeps no other trace of them. -/

namespace StreamInfer.Cuda

open General Finset

/-- `gs_w13` and `gs_w2`. -/
def groupSize (K : ℕ) : ℕ := if K % 128 = 0 then 128 else 64

theorem groupSize_pos (K : ℕ) : 0 < groupSize K := by
  unfold groupSize
  split_ifs <;> decide

namespace CutlassGemmRunnerFP8

/-- Quantise, `setup_meta` and `run`; the returned scales are not used. -/
def project (r : CutlassGemmRunnerFP8) (quantiser : GroupQuantiser) (gemm : GroupedGemm)
    (x c : ℕ → ℚ) (batchSizes : ℕ → ℕ) : Except Fault (ℕ → ℚ) :=
  if r.K % groupSize r.K = 0 then
    let (xFp8, _sf) := quantiser.quantise (groupSize r.K) x
    .ok (r.run gemm xFp8 c batchSizes)
  else .error (.assertion "x.shape[-1] % group_size == 0")

/-- Every element of a segment is the product of its row with its expert's weights, times
its expert's scale; later rows are as they were. -/
def Scaled (r : CutlassGemmRunnerFP8) (batchSizes : ℕ → ℕ) (x c out : ℕ → ℚ) : Prop :=
  (∀ e < r.numExperts, ∀ row, segmentStart batchSizes e ≤ row → row < segmentStart batchSizes (e + 1) →
    ∀ n < r.N, out (row * r.N + n) =
      (∑ k ∈ range r.K, x (row * r.K + k) * r.fp8Weight e k n) * r.weightScale e n) ∧
  ∀ row, segmentStart batchSizes r.numExperts ≤ row →
    ∀ n < r.N, out (row * r.N + n) = c (row * r.N + n)

end CutlassGemmRunnerFP8

/-- The two projections of a layer. -/
structure MoEExpertsCUTLASSFP8 where
  hiddenSize : ℕ
  intermediateSize : ℕ
  w13Runner : CutlassGemmRunnerFP8
  w2Runner : CutlassGemmRunnerFP8

namespace MoEExpertsCUTLASSFP8

/-- `act_fn(cache_up[:, :I]) * cache_up[:, I:]`. -/
def gate (m : MoEExpertsCUTLASSFP8) (actFn : ℚ → ℚ) (cacheUp : ℕ → ℚ) (idx : ℕ) : ℚ :=
  let row := idx / m.intermediateSize
  let col := idx % m.intermediateSize
  actFn (cacheUp (row * (m.intermediateSize * 2) + col)) *
    cacheUp (row * (m.intermediateSize * 2) + m.intermediateSize + col)

/-- `forward`, with the contents of the two new tensors and the activation function. -/
def forward (m : MoEExpertsCUTLASSFP8) (quantiser : GroupQuantiser) (gemm : GroupedGemm)
    (actFn : ℚ → ℚ) (cacheUp downOut hiddens : ℕ → ℚ) (batchSizes : ℕ → ℕ) :
    Except Fault (ℕ → ℚ) := do
  let cacheUp ← m.w13Runner.project quantiser gemm hiddens cacheUp batchSizes
  m.w2Runner.project quantiser gemm (m.gate actFn cacheUp) downOut batchSizes

end MoEExpertsCUTLASSFP8

/-! ### When the scales may be dropped -/

namespace CutlassGemmRunnerFP8

/-- The dropped factors cancel out of every element: the scales `s` of the values `q`, and
past the threads of the scale kernel the weight scales too. -/
def Cancels (r : CutlassGemmRunnerFP8) (q s : ℕ → ℚ) (batchSizes : ℕ → ℕ) : Prop :=
  ∀ e < r.numExperts, ∀ row, segmentStart batchSizes e ≤ row → row < segmentStart batchSizes (e + 1) →
    ∀ n < r.N,
      (row * r.N + n < r.scaleThreads → r.weightScale e n = 0 ∨ ∑ k ∈ range r.K,
        q (row * r.K + k) * (s ((row * r.K + k) / groupSize r.K) - 1) * r.fp8Weight e k n = 0) ∧
      (r.scaleThreads ≤ row * r.N + n → ∑ k ∈ range r.K, q (row * r.K + k) *
        (s ((row * r.K + k) / groupSize r.K) * r.weightScale e n - 1) * r.fp8Weight e k n = 0)

/-- Scale one on every group of a row that has a value, within the threads of the scale
kernel. -/
def UnitScales (r : CutlassGemmRunnerFP8) (q s : ℕ → ℚ) (batchSizes : ℕ → ℕ) : Prop :=
  ∀ row < segmentStart batchSizes r.numExperts, ∀ n < r.N, ∀ k < r.K, q (row * r.K + k) = 0 ∨
    s ((row * r.K + k) / groupSize r.K) = 1 ∧ row * r.N + n < r.scaleThreads

variable {r : CutlassGemmRunnerFP8} {quantiser : GroupQuantiser} {gemm : GroupedGemm}
  {x c out q s : ℕ → ℚ} {batchSizes : ℕ → ℕ}

theorem project_eq (r : CutlassGemmRunnerFP8) (quantiser : GroupQuantiser) (gemm : GroupedGemm)
    (x c : ℕ → ℚ) (batchSizes : ℕ → ℕ) (hK : r.K % groupSize r.K = 0) :
    r.project quantiser gemm x c batchSizes =
      .ok (r.run gemm (quantiser.quantise (groupSize r.K) x).1 c batchSizes) :=
  if_pos hK

theorem project_ok (h : r.project quantiser gemm x c batchSizes = .ok out) :
    out = r.run gemm (quantiser.quantise (groupSize r.K) x).1 c batchSizes := by
  unfold project at h
  split_ifs at h
  exact (Except.ok.inj h).symm

/-- What the product of quantised values misses. -/
theorem sum_quantised {gs : ℕ} (hx : ∀ idx, x idx = q idx * s (idx / gs)) (w : ℕ → ℚ) (scale : ℚ)
    (K row : ℕ) :
    (∑ k ∈ range K, x (row * K + k) * w k) * scale - ∑ k ∈ range K, q (row * K + k) * w k =
      ∑ k ∈ range K, q (row * K + k) * (s ((row * K + k) / gs) * scale - 1) * w k := by
  rw [sum_mul, ← sum_sub_distrib]
  refine sum_congr rfl fun k _ => ?_
  rw [hx]
  ring

theorem scaled_iff (h : r.project quantiser gemm x c batchSizes = .ok out) :
    r.Scaled batchSizes x c out ↔ r.Cancels (quantiser.quantise (groupSize r.K) x).1
      (quantiser.quantise (groupSize r.K) x).2 batchSizes := by
  have hx := fun idx => quantiser.exact (groupSize r.K) x idx (groupSize_pos _)
  rw [project_ok h]
  generalize (quantiser.quantise (groupSize r.K) x).1 = q at hx ⊢
  generalize (quantiser.quantise (groupSize r.K) x).2 = s at hx ⊢
  refine (and_iff_left fun row hrow n hn => run_beyond hrow hn).trans ?_
  refine forall₂_congr fun e he => forall₃_congr fun row hstart hend => forall₂_congr fun n hn => ?_
  rw [run_segment he hstart hend hn]
  split_ifs with hidx
  · rw [and_iff_left fun hle => absurd hidx (Nat.not_lt.mpr hle), imp_iff_right hidx]
    have hmiss := sum_quantised hx (fun k => r.fp8Weight e k n) 1 r.K row
    simp only [mul_one] at hmiss
    rw [← hmiss, mul_eq_mul_right_iff, sub_eq_zero, or_comm, eq_comm (a := ∑ k ∈ _, x _ * _)]
  · rw [and_iff_right fun hlt => absurd hlt hidx, imp_iff_right (Nat.le_of_not_lt hidx),
      ← sum_quantised hx (fun k => r.fp8Weight e k n) (r.weightScale e n), mul_one, sub_eq_zero]
    exact eq_comm

/-- A row of the segments belongs to an expert. -/
theorem exists_segment {row n : ℕ} (h : row < segmentStart batchSizes n) :
    ∃ e < n, segmentStart batchSizes e ≤ row ∧ row < segmentStart batchSizes (e + 1) := by
  induction n with
  | zero => exact absurd h (Nat.not_lt_zero _)
  | succ n ih =>
    by_cases hn : row < segmentStart batchSizes n
    · obtain ⟨e, he, hrow⟩ := ih hn
      exact ⟨e, by omega, hrow⟩
    · exact ⟨n, by omega, by omega, h⟩

/-- Weights that pick one column of the activations. -/
theorem sum_pick (f : ℕ → ℚ) {K k : ℕ} (hk : k < K) :
    ∑ l ∈ range K, f l * (if l = k then 1 else 0) = f k := by
  rw [sum_eq_single_of_mem k (mem_range.mpr hk) fun l _ hl => by rw [if_neg hl, mul_zero],
    if_pos rfl, mul_one]

/-- The factors cancel for all weights only when they are one. -/
theorem cancels_iff_unitScales : (∀ (w : ℕ → ℕ → ℕ → ℚ) (scale : ℕ → ℕ → ℚ),
    { r with fp8Weight := w, weightScale := scale }.Cancels q s batchSizes) ↔
      r.UnitScales q s batchSizes := by
  constructor
  · intro h row hrow n hn k hk
    obtain ⟨e, he, hstart, hend⟩ := exists_segment hrow
    by_cases hidx : row * r.N + n < r.scaleThreads
    · have hone := (h (fun _ l _ => if l = k then 1 else 0) (fun _ _ => 1) e he row hstart hend n hn).1
        hidx
      have hpick := hone.resolve_left one_ne_zero
      rw [sum_pick _ hk] at hpick
      exact (mul_eq_zero.mp hpick).imp_right fun hs => ⟨sub_eq_zero.mp hs, hidx⟩
    · have hzero := (h (fun _ l _ => if l = k then 1 else 0) (fun _ _ => 0) e he row hstart hend n hn).2
        (Nat.le_of_not_lt hidx)
      rw [sum_pick _ hk] at hzero
      left
      simpa using hzero
  · intro h w scale e he row hstart hend n hn
    have hrow : row < segmentStart batchSizes r.numExperts :=
      hend.trans_le (segmentStart_mono batchSizes he)
    constructor
    · intro hidx
      refine .inr (sum_eq_zero fun k hk => ?_)
      rcases h row hrow n hn k (mem_range.mp hk) with hq | ⟨hs, -⟩
      · show q (row * r.K + k) * _ * _ = 0
        rw [hq, zero_mul, zero_mul]
      · show _ * (s ((row * r.K + k) / groupSize r.K) - 1) * _ = 0
        rw [hs, sub_self, mul_zero, zero_mul]
    · intro hidx
      refine sum_eq_zero fun k hk => ?_
      rcases h row hrow n hn k (mem_range.mp hk) with hq | ⟨-, hlt⟩
      · show q (row * r.K + k) * _ * _ = 0
        rw [hq, zero_mul, zero_mul]
      · exact absurd hlt (Nat.not_lt.mpr hidx)

/-- A projection gives the scaled product exactly when the dropped scales cancel, and it does
so for all weights exactly when they are one. -/
theorem project_scaled_iff (quantiser : GroupQuantiser) (gemm : GroupedGemm)
    (r : CutlassGemmRunnerFP8) (x c : ℕ → ℚ) (batchSizes : ℕ → ℕ) (hK : r.K % groupSize r.K = 0) :
    let (q, s) := quantiser.quantise (groupSize r.K) x
    (∀ out, r.project quantiser gemm x c batchSizes = .ok out →
      (r.Scaled batchSizes x c out ↔ r.Cancels q s batchSizes)) ∧
    ((∀ (w : ℕ → ℕ → ℕ → ℚ) (scale : ℕ → ℕ → ℚ) (out : ℕ → ℚ),
      { r with fp8Weight := w, weightScale := scale }.project quantiser gemm x c batchSizes = .ok out →
        { r with fp8Weight := w, weightScale := scale }.Scaled batchSizes x c out) ↔
      r.UnitScales q s batchSizes) := by
  refine ⟨fun out h => scaled_iff h, ?_⟩
  rw [← cancels_iff_unitScales]
  constructor
  · intro h w scale
    have hok := project_eq { r with fp8Weight := w, weightScale := scale } quantiser gemm x c batchSizes hK
    exact (scaled_iff hok).mp (h w scale _ hok)
  · intro h w scale out hout
    exact (scaled_iff hout).mpr (h w scale)

/-- Both projections of a layer lose their scales. -/
theorem forward_scaled_iff {m : MoEExpertsCUTLASSFP8} {actFn : ℚ → ℚ} {cacheUp downOut : ℕ → ℚ}
    (h : m.forward quantiser gemm actFn cacheUp downOut x batchSizes = .ok out) :
    ∃ up,
      (m.w13Runner.Scaled batchSizes x cacheUp up ↔ m.w13Runner.Cancels
        (quantiser.quantise (groupSize m.w13Runner.K) x).1
        (quantiser.quantise (groupSize m.w13Runner.K) x).2 batchSizes) ∧
      (m.w2Runner.Scaled batchSizes (m.gate actFn up) downOut out ↔ m.w2Runner.Cancels
        (quantiser.quantise (groupSize m.w2Runner.K) (m.gate actFn up)).1
        (quantiser.quantise (groupSize m.w2Runner.K) (m.gate actFn up)).2 batchSizes) := by
  unfold MoEExpertsCUTLASSFP8.forward at h
  cases hup : m.w13Runner.project quantiser gemm x cacheUp batchSizes with
  | error e =>
    rw [hup] at h
    cases h
  | ok up =>
    rw [hup] at h
    exact ⟨up, scaled_iff hup, scaled_iff h⟩

/-! ### A row that is not scaled back -/

/-- One expert with rows of 64 values and one output channel. -/
def oneChannel : CutlassGemmRunnerFP8 where
  numExperts := 1
  K := 64
  N := 1
  maxTokens := 2
  fp8Weight _ _ _ := 1
  weightScale _ _ := 1

/-- A row that starts with twice the largest value of the format. -/
def largeFirst (idx : ℕ) : ℚ := if idx = 0 then 2 * fp8Max else 0

/-- The scale of the group is two, and the output is half of what it should be. -/
theorem largeFirst_not_scaled : ∃ out,
    oneChannel.project perTokenGroupQuant .reference largeFirst (fun _ => 0) (fun _ => 1) = .ok out ∧
      ¬ oneChannel.Scaled (fun _ => 1) largeFirst (fun _ => 0) out := by
  refine ⟨_, project_eq _ _ _ _ _ _ rfl, fun hscaled => ?_⟩
  have hcancels := (scaled_iff (project_eq oneChannel _ _ _ _ _ rfl)).mp hscaled
  have hzero := ((hcancels 0 Nat.one_pos 0 (Nat.zero_le _) (by decide) 0 Nat.one_pos).1
    (by decide)).resolve_left one_ne_zero
  have hone : ∑ k ∈ range 64, (perTokenGroupQuant.quantise 64 largeFirst).1 (0 * 64 + k) *
      ((perTokenGroupQuant.quantise 64 largeFirst).2 ((0 * 64 + k) / 64) - 1) * 1 = 0 := hzero
  exact absurd hone (by decide +kernel)

theorem project_scaled_iff_largeFirst :
    (¬ ∀ (w : ℕ → ℕ → ℕ → ℚ) (scale : ℕ → ℕ → ℚ) (out : ℕ → ℚ),
      { oneChannel with fp8Weight := w, weightScale := scale }.project perTokenGroupQuant .reference
          largeFirst (fun _ => 0) (fun _ => 1) = .ok out →
        { oneChannel with fp8Weight := w, weightScale := scale }.Scaled (fun _ => 1) largeFirst
          (fun _ => 0) out) := by
  rw [(project_scaled_iff perTokenGroupQuant .reference oneChannel largeFirst (fun _ => 0)
    (fun _ => 1) rfl).2]
  intro h
  rcases h 0 (by decide) 0 Nat.one_pos 0 (by decide) with hq | ⟨hs, -⟩
  · exact absurd hq (by decide +kernel)
  · exact absurd hs (by decide +kernel)

end CutlassGemmRunnerFP8

end StreamInfer.Cuda
