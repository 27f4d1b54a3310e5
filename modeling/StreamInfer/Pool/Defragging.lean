import StreamInfer.General.Reach
import StreamInfer.General.Window
import StreamInfer.Pool.Policies
import StreamInfer.Pool.TokenCounts

/-! The defragging policy over whole runs. In every state a decision is the first layer
with the largest reference score among the layers with tokens: its own tokens and, decayed,
those of the layers behind it in pipeline order, with the mean of their last snapshots. The
windows hold the last snapshots and the sums are theirs. The decision is also written with
each access and division checked, and no check fails. -/

namespace StreamInfer.Pool

open General General.Stateful Batch

variable {W R : Type}

/-! ### The decision with its accesses -/

def divide {σ : Type} (num den : ℚ) : EStateM Fault σ ℚ := do
  ensure (den ≠ 0) "division by zero"
  return num / den

namespace LayerScheduler

def effectiveTokensChecked (s : LayerScheduler W R) (layerIdx : ℕ) (rawTokens : ℤ) : SchedulerM W R ℚ :=
  if rawTokens ≤ 0 then return 0
  else if layerIdx < s.numAttnLayers ∨ s.topK ≤ 1 then return rawTokens
  else divide rawTokens s.topK

def historyScoreChecked (d : Defrag) (curLayer : ℕ) : SchedulerM W R ℚ :=
  if 0 < d.lookbackSteps ∧ d.historyTokensInLayer ≠ [] then do
    let window ← readAt "history_tokens_in_layer[cur_layer]" d.historyTokensInLayer curLayer
    let total ← readAt "sum_history_tokens_in_layer[cur_layer]" d.sumHistoryTokensInLayer curLayer
    if window ≠ [] ∧ 0 < total then divide total window.length else return 0
  else return 0

def lookaheadScoreChecked (s : LayerScheduler W R) (d : Defrag) (effectiveTokens : List ℚ) (pipePos : ℕ) :
    ℕ → ℕ → ℚ → SchedulerM W R ℚ
  | _, 0, _ => return 0
  | k, steps + 1, decay => do
    ensure (s.numLayers ≠ 0) "(pipe_pos + k) % total_pipeline"
    let curLayer := s.fromPipelinePos ((pipePos + k) % s.numLayers)
    let numTokensCurLayer ← readAt "effective_tokens[cur_layer]" effectiveTokens curLayer
    let historyScore ← historyScoreChecked d curLayer
    let rest ← lookaheadScoreChecked s d effectiveTokens pipePos (k + 1) steps (decay * d.weightDecay)
    return (numTokensCurLayer + historyScore) * decay + rest

def scoreChecked (s : LayerScheduler W R) (d : Defrag) (effectiveTokens : List ℚ) (i : ℕ) :
    SchedulerM W R ℚ := do
  let immediate ← readAt "effective_tokens[i]" effectiveTokens i
  if immediate ≤ 0 then return 0
  else
    let lookahead ← lookaheadScoreChecked s d effectiveTokens (s.toPipelinePos i) 1
      (d.lookaheadSteps - 1) d.weightDecay
    return lookahead + immediate

/-- One pass of the loop of `step_end`: the window and the sum of a layer. -/
def pushChecked (lookbackSteps : ℕ) (windows : List (List ℤ)) (sums snapshot : List ℤ) (i : ℕ) :
    SchedulerM W R (List ℤ × ℤ) := do
  let histQ ← readAt "history_tokens_in_layer[i]" windows i
  let sum ← readAt "sum_history_tokens_in_layer[i]" sums i
  let tokens ← readAt "effective_tokens_snapshot[i]" snapshot i
  if lookbackSteps ≤ histQ.length then
    let front ← readAt "hist_q.front()" histQ 0
    return (histQ.tail ++ [tokens], sum - front + tokens)
  else return (histQ ++ [tokens], sum + tokens)

def stepEndChecked (d : Defrag) (numLayers : ℕ) (snapshot : List ℤ) : SchedulerM W R Defrag :=
  if d.lookbackSteps = 0 then return d
  else do
    let windows := if d.historyTokensInLayer = [] then List.replicate numLayers []
      else d.historyTokensInLayer
    let sums := if d.historyTokensInLayer = [] then List.replicate numLayers 0
      else d.sumHistoryTokensInLayer
    let pushed ← (List.range numLayers).mapM (pushChecked d.lookbackSteps windows sums snapshot)
    return { d with
      historyTokensInLayer := pushed.map Prod.fst
      sumHistoryTokensInLayer := pushed.map Prod.snd }

/-- `schedule` of the defragging scheduler, access by access. -/
def scheduleChecked (d : Defrag) : SchedulerM W R ℤ := do
  let s ← get
  let rawTokens ← (List.range s.numLayers).mapM fun i => do
    let l ← readAt "layers[i]" s.layers i
    return l.numTokens
  let effectiveTokens ← (List.range s.numLayers).mapM fun i => do
    let tokens ← readAt "raw_tokens[i]" rawTokens i
    effectiveTokensChecked s i tokens
  if rawTokens.sum = 0 then return -1
  else
    let scores ← (List.range s.numLayers).mapM (scoreChecked s d effectiveTokens)
    let next ← stepEndChecked d s.numLayers (effectiveTokens.map fun tokens => ⌊tokens⌋)
    set { s with defrag := some next }
    return (scores.zipIdx.foldl
      (fun best p => if p.1 > best.1 then (p.1, (p.2 : ℤ)) else best) ((0 : ℚ), (-1 : ℤ))).2

end LayerScheduler

/-! ### The reference -/

/-- The parameters of the scheduler; there is one attention layer more than expert layers. -/
structure DefragConfig where
  numExpertLayers : ℕ
  topK : ℕ
  lookbackSteps : ℕ
  lookaheadSteps : ℤ
  weightDecay : ℚ

namespace DefragConfig

structure Valid (c : DefragConfig) : Prop where
  numExpertLayers : 1 ≤ c.numExpertLayers
  topK : 1 ≤ c.topK
  weightDecay : 0 ≤ c.weightDecay

def numLayers (c : DefragConfig) : ℕ := 2 * c.numExpertLayers + 1

/-- Tokens of an expert layer count a fraction. -/
def effective (c : DefragConfig) (tokens : ℕ → ℤ) (i : ℕ) : ℚ :=
  if c.numExpertLayers < i ∧ 1 < c.topK then tokens i / c.topK else tokens i

/-- The next layer: an attention layer's expert layer, an expert layer's next attention layer, and
after the last attention layer the first. -/
def next (c : DefragConfig) (i : ℕ) : ℕ :=
  if i < c.numExpertLayers then c.numExpertLayers + 1 + i
  else if i = c.numExpertLayers then 0
  else i - c.numExpertLayers

/-- The mean of the last snapshots of a layer, zero when there are none. -/
def history (c : DefragConfig) (snapshots : List (ℕ → ℤ)) (j : ℕ) : ℚ :=
  let recent : List ℤ := (window c.lookbackSteps snapshots).map fun snapshot => snapshot j
  ((recent.sum : ℤ) : ℚ) / recent.length

def referenceScore (c : DefragConfig) (tokens : ℕ → ℤ) (snapshots : List (ℕ → ℤ)) (i : ℕ) : ℚ :=
  c.effective tokens i + ∑ k ∈ Finset.Ico 1 c.lookaheadSteps.toNat,
    c.weightDecay ^ k * (c.effective tokens (c.next^[k] i) + c.history snapshots (c.next^[k] i))

/-- The first layer of largest score among the layers with tokens, or `-1` without tokens. -/
def Chosen (c : DefragConfig) (tokens : ℕ → ℤ) (snapshots : List (ℕ → ℤ)) (id : ℤ) : Prop :=
  (id = -1 ∧ ∀ i < c.numLayers, tokens i = 0) ∨
    ∃ i < c.numLayers, id = i ∧ 0 < tokens i ∧
      (∀ j < c.numLayers, 0 < tokens j →
        c.referenceScore tokens snapshots j ≤ c.referenceScore tokens snapshots i) ∧
      ∀ j < i, 0 < tokens j → c.referenceScore tokens snapshots j < c.referenceScore tokens snapshots i

def scheduler (c : DefragConfig) : LayerScheduler W R :=
  .newDefrag (c.numExpertLayers + 1) c.numExpertLayers c.topK c.lookbackSteps c.lookaheadSteps.toNat
    c.weightDecay

/-- The state of the policy after the decisions with these snapshots. -/
def recorded (c : DefragConfig) (snapshots : List (ℕ → ℤ)) : Defrag where
  lookbackSteps := c.lookbackSteps
  lookaheadSteps := c.lookaheadSteps.toNat
  weightDecay := c.weightDecay
  historyTokensInLayer :=
    if 0 < c.lookbackSteps then
      (List.range c.numLayers).map fun j => (window c.lookbackSteps snapshots).map fun snapshot => snapshot j
    else []
  sumHistoryTokensInLayer :=
    if 0 < c.lookbackSteps then
      (List.range c.numLayers).map fun j =>
        ((window c.lookbackSteps snapshots).map fun snapshot => snapshot j).sum
    else []

end DefragConfig

/-- A scheduler and the snapshots of the decisions that found tokens. -/
structure DefragRun (W R : Type) where
  scheduler : LayerScheduler W R
  snapshots : List (ℕ → ℤ)

namespace DefragRun

variable [Zero W] [Row R] {S : ComparatorSort} {c : DefragConfig} {s s' : DefragRun W R}

def tokens (s : DefragRun W R) (i : ℕ) : ℤ := s.scheduler.numTokensAt i

/-- Integer parts of the effective tokens, recorded unless there are no tokens. -/
def record (c : DefragConfig) (s : DefragRun W R) : List (ℕ → ℤ) :=
  if ∀ i < c.numLayers, s.tokens i = 0 then s.snapshots
  else s.snapshots ++ [fun i => ⌊c.effective s.tokens i⌋]

/-- Calls that add, drain or decide. -/
inductive Step (S : ComparatorSort) (c : DefragConfig) : DefragRun W R → DefragRun W R → Prop
  | queue {s : DefragRun W R} {t : LayerScheduler W R} (h : LayerScheduler.QueueCall S s.scheduler t) :
      Step S c s { s with scheduler := t }
  | schedule {s : DefragRun W R} {id : ℤ} {t : LayerScheduler W R}
      (h : LayerScheduler.schedule s.scheduler = .ok id t) : Step S c s ⟨t, s.record c⟩
  | scheduleWithSnapshot {s : DefragRun W R} {id : ℤ} {snapshot : List ℤ} {t : LayerScheduler W R}
      (h : LayerScheduler.scheduleWithSnapshot s.scheduler = .ok (id, snapshot) t) :
      Step S c s ⟨t, s.record c⟩

def Run (S : ComparatorSort) (c : DefragConfig) : DefragRun W R → Prop :=
  Reach (· = ⟨c.scheduler, []⟩) (Step S c)

end DefragRun

/-! ### The reference and the code -/

namespace DefragConfig

variable {c : DefragConfig} {tokens : ℕ → ℤ} {snapshots : List (ℕ → ℤ)}

theorem effective_nonneg (h : ∀ i, 0 ≤ tokens i) (i : ℕ) : 0 ≤ c.effective tokens i := by
  have htok : (0 : ℚ) ≤ tokens i := by exact_mod_cast h i
  unfold effective
  split_ifs
  · positivity
  · exact htok

/-- The scheduler has the layers of the configuration. -/
structure Shapes (c : DefragConfig) (s : LayerScheduler W R) : Prop where
  numAttnLayers : s.numAttnLayers = c.numExpertLayers + 1
  numExpertLayers : s.numExpertLayers = c.numExpertLayers
  topK : s.topK = c.topK

variable {s : LayerScheduler W R}

theorem Shapes.numLayers (h : c.Shapes s) : s.numLayers = c.numLayers := by
  rw [LayerScheduler.numLayers, h.numAttnLayers, h.numExpertLayers, DefragConfig.numLayers]
  omega

theorem Shapes.getEffectiveTokens (h : c.Shapes s) {i : ℕ} (hi : 0 ≤ tokens i) :
    s.getEffectiveTokens i (tokens i) = c.effective tokens i := by
  unfold LayerScheduler.getEffectiveTokens effective
  rw [h.numAttnLayers, h.topK]
  by_cases hle : tokens i ≤ 0
  · have hzero : tokens i = 0 := le_antisymm hle hi
    simp [hzero]
  · rw [if_neg hle]
    by_cases hexp : c.numExpertLayers < i ∧ 1 < c.topK
    · rw [if_neg (by omega), if_pos hexp]
    · rw [if_pos (by omega), if_neg hexp]

theorem Shapes.fromPipelinePos_lt (h : c.Shapes s) {pos : ℕ} (hpos : pos < c.numLayers) :
    s.fromPipelinePos pos < c.numLayers := by
  unfold LayerScheduler.fromPipelinePos
  rw [h.numAttnLayers]
  unfold DefragConfig.numLayers at *
  split_ifs <;> omega

/-- One position on in the pipeline is the next layer. -/
theorem Shapes.fromPipelinePos_succ (h : c.Shapes s) {pos : ℕ} (hpos : pos < c.numLayers) :
    s.fromPipelinePos ((pos + 1) % c.numLayers) = c.next (s.fromPipelinePos pos) := by
  unfold LayerScheduler.fromPipelinePos next
  rw [h.numAttnLayers]
  unfold DefragConfig.numLayers at *
  by_cases hlast : pos = 2 * c.numExpertLayers
  · have heven : pos % 2 = 0 := by omega
    have hhalf : pos / 2 = c.numExpertLayers := by omega
    rw [← hlast, Nat.mod_self, if_pos heven, hhalf]
    simp
  · rw [Nat.mod_eq_of_lt (by omega : pos + 1 < 2 * c.numExpertLayers + 1)]
    by_cases heven : pos % 2 = 0
    · have hodd : (pos + 1) % 2 ≠ 0 := by omega
      rw [if_neg hodd, if_pos heven, if_pos (by omega : pos / 2 < c.numExpertLayers)]
      omega
    · have heven' : (pos + 1) % 2 = 0 := by omega
      rw [if_pos heven', if_neg heven,
        if_neg (by omega : ¬ c.numExpertLayers + 1 + pos / 2 < c.numExpertLayers),
        if_neg (by omega : ¬ c.numExpertLayers + 1 + pos / 2 = c.numExpertLayers)]
      omega

theorem Shapes.fromPipelinePos_toPipelinePos (h : c.Shapes s) {i : ℕ} (hi : i < c.numLayers) :
    s.toPipelinePos i < c.numLayers ∧ s.fromPipelinePos (s.toPipelinePos i) = i := by
  unfold LayerScheduler.toPipelinePos LayerScheduler.fromPipelinePos
  rw [h.numAttnLayers]
  unfold DefragConfig.numLayers at *
  by_cases hattn : i < c.numExpertLayers + 1
  · rw [if_pos hattn, if_pos (by omega)]
    omega
  · rw [if_neg hattn, if_neg (by omega)]
    omega

/-- The layer that the loop reads in pass `k` is the `k`-th after `i`. -/
theorem Shapes.successor (h : c.Shapes s) {i : ℕ} (hi : i < c.numLayers) (k : ℕ) :
    s.fromPipelinePos ((s.toPipelinePos i + k) % c.numLayers) = c.next^[k] i := by
  obtain ⟨hpos, hfrom⟩ := h.fromPipelinePos_toPipelinePos hi
  induction k with
  | zero => rw [Nat.add_zero, Nat.mod_eq_of_lt hpos, hfrom, Function.iterate_zero_apply]
  | succ k ih =>
    have hlt : (s.toPipelinePos i + k) % c.numLayers < c.numLayers :=
      Nat.mod_lt _ (by unfold DefragConfig.numLayers; omega)
    rw [Function.iterate_succ_apply', ← ih, ← h.fromPipelinePos_succ hlt, ← Nat.add_assoc,
      Nat.mod_add_mod]

/-! ### Histories -/

theorem recorded_getElem? (snapshots : List (ℕ → ℤ)) (hl : 0 < c.lookbackSteps) {j : ℕ} (hj : j < c.numLayers) :
    (c.recorded snapshots).historyTokensInLayer[j]? =
        some ((window c.lookbackSteps snapshots).map fun snapshot => snapshot j) ∧
      (c.recorded snapshots).sumHistoryTokensInLayer[j]? =
        some ((window c.lookbackSteps snapshots).map fun snapshot => snapshot j).sum := by
  simp [recorded, hl, List.getElem?_range hj]

theorem recorded_ne_nil (snapshots : List (ℕ → ℤ)) (hl : 0 < c.lookbackSteps) : (c.recorded snapshots).historyTokensInLayer ≠ [] := by
  intro hnil
  have hlen := congrArg List.length hnil
  simp [recorded, hl, numLayers] at hlen

theorem sum_nonneg_of (h : ∀ snapshot ∈ snapshots, ∀ j, 0 ≤ snapshot j) (j : ℕ) :
    0 ≤ ((window c.lookbackSteps snapshots).map fun snapshot => snapshot j).sum := by
  refine List.sum_nonneg fun x hx => ?_
  obtain ⟨snapshot, hmem, rfl⟩ := List.mem_map.mp hx
  exact h snapshot (mem_of_mem_window hmem) j

theorem historyScore_recorded (h : ∀ snapshot ∈ snapshots, ∀ j, 0 ≤ snapshot j) {j : ℕ}
    (hj : j < c.numLayers) :
    LayerScheduler.historyScore (c.recorded snapshots) j = c.history snapshots j := by
  by_cases hl : 0 < c.lookbackSteps
  · obtain ⟨hwin, hsum⟩ := recorded_getElem? snapshots hl hj
    have hnonneg := sum_nonneg_of (c := c) h j
    unfold LayerScheduler.historyScore history
    rw [List.getD_eq_getElem?_getD, hwin, List.getD_eq_getElem?_getD, hsum, Option.getD_some,
      Option.getD_some]
    set recent := (window c.lookbackSteps snapshots).map fun snapshot => snapshot j
    by_cases hpos : 0 < recent.sum
    · have hne : recent ≠ [] := fun hnil => by simp [hnil] at hpos
      rw [if_pos ⟨hl, recorded_ne_nil snapshots hl, hne, hpos⟩]
    · have hzero : recent.sum = 0 := le_antisymm (not_lt.mp hpos) hnonneg
      rw [if_neg fun hand => hpos hand.2.2.2]
      simp [hzero]
  · have hzero : c.lookbackSteps = 0 := Nat.eq_zero_of_not_pos hl
    unfold LayerScheduler.historyScore history
    rw [if_neg fun hand => hl hand.1, hzero]
    simp [window]

theorem window_map_concat (hl : 0 < c.lookbackSteps) (f : ℕ → ℤ) (j : ℕ) :
    (window c.lookbackSteps (snapshots ++ [f])).map (fun snapshot => snapshot j) =
      (if c.lookbackSteps ≤ ((window c.lookbackSteps snapshots).map fun snapshot => snapshot j).length then
        ((window c.lookbackSteps snapshots).map fun snapshot => snapshot j).tail
      else (window c.lookbackSteps snapshots).map fun snapshot => snapshot j) ++ [f j] := by
  rw [← map_window, ← map_window, List.map_append]
  exact window_concat hl _ _

theorem sum_window_map_concat (hl : 0 < c.lookbackSteps) (f : ℕ → ℤ) (j : ℕ) :
    ((window c.lookbackSteps (snapshots ++ [f])).map fun snapshot => snapshot j).sum =
      (if c.lookbackSteps ≤ ((window c.lookbackSteps snapshots).map fun snapshot => snapshot j).length then
        ((window c.lookbackSteps snapshots).map fun snapshot => snapshot j).sum -
          ((window c.lookbackSteps snapshots).map fun snapshot => snapshot j).headD 0
      else ((window c.lookbackSteps snapshots).map fun snapshot => snapshot j).sum) + f j := by
  rw [← map_window, ← map_window, List.map_append]
  exact sum_window_concat hl _ _

/-- A decision adds its snapshot to every window. -/
theorem stepEnd_recorded (f : ℕ → ℤ) :
    LayerScheduler.stepEnd (c.recorded snapshots) c.numLayers ((List.range c.numLayers).map f) =
      c.recorded (snapshots ++ [f]) := by
  unfold LayerScheduler.stepEnd
  by_cases hl : 0 < c.lookbackSteps
  · have hne := recorded_ne_nil snapshots hl
    have hzero : ¬ (c.recorded snapshots).lookbackSteps = 0 := by
      change ¬ c.lookbackSteps = 0
      omega
    rw [if_neg hzero, if_neg hne, if_neg hne]
    simp only [recorded, hl, if_true]
    congr 1
    · refine List.map_congr_left fun j hj => ?_
      rw [List.mem_range] at hj
      rw [window_map_concat hl]
      simp only [List.getD_eq_getElem?_getD, List.getElem?_map, List.getElem?_range hj, Option.map_some,
        Option.getD_some]
    · refine List.map_congr_left fun j hj => ?_
      rw [List.mem_range] at hj
      rw [sum_window_map_concat hl]
      simp only [List.getD_eq_getElem?_getD, List.getElem?_map, List.getElem?_range hj, Option.map_some,
        Option.getD_some]
  · have hzero : c.lookbackSteps = 0 := Nat.eq_zero_of_not_pos hl
    rw [if_pos (show (c.recorded snapshots).lookbackSteps = 0 from hzero)]
    simp [recorded, hzero]

/-! ### Scores -/

theorem Shapes.lookaheadScore_eq (h : c.Shapes s) (hn : ∀ j, 0 ≤ s.numTokensAt j)
    (hs : ∀ snapshot ∈ snapshots, ∀ j, 0 ≤ snapshot j) {i : ℕ} (hi : i < c.numLayers) (k steps : ℕ)
    (decay : ℚ) :
    s.lookaheadScore (c.recorded snapshots) (s.toPipelinePos i) k steps decay =
      ∑ m ∈ Finset.range steps, decay * c.weightDecay ^ m *
        (c.effective s.numTokensAt (c.next^[k + m] i) + c.history snapshots (c.next^[k + m] i)) := by
  induction steps generalizing k decay with
  | zero => rfl
  | succ steps ih =>
    have hpos : 0 < c.numLayers := by unfold DefragConfig.numLayers; omega
    have hlt : c.next^[k] i < c.numLayers := by
      rw [← h.successor hi]
      exact h.fromPipelinePos_lt (Nat.mod_lt _ hpos)
    rw [LayerScheduler.lookaheadScore, ih, h.numLayers, h.successor hi,
      h.getEffectiveTokens (hn _), historyScore_recorded hs hlt, Finset.sum_range_succ', add_comm]
    congr 1
    · refine Finset.sum_congr rfl fun m _ => ?_
      rw [show k + 1 + m = k + (m + 1) by omega]
      change decay * c.weightDecay * c.weightDecay ^ m * _ = _
      ring
    · rw [pow_zero, Nat.add_zero]
      ring

/-- A layer with tokens has the reference score, and one without has none. -/
theorem Shapes.score_eq (h : c.Shapes s) (hv : c.Valid) (hn : ∀ j, 0 ≤ s.numTokensAt j)
    (hs : ∀ snapshot ∈ snapshots, ∀ j, 0 ≤ snapshot j) {i : ℕ} (hi : i < c.numLayers)
    (htok : 0 < s.numTokensAt i) :
    s.score (c.recorded snapshots) i = c.referenceScore s.numTokensAt snapshots i := by
  have htop : 0 < s.topK := by
    rw [h.topK]
    exact hv.topK
  have himm : 0 < s.getEffectiveTokens i (s.numTokensAt i) :=
    (LayerScheduler.getEffectiveTokens_pos htop).mpr htok
  unfold LayerScheduler.score
  rw [if_neg (not_le.mpr himm), h.lookaheadScore_eq hn hs hi, h.getEffectiveTokens (hn i),
    referenceScore, add_comm, Finset.sum_Ico_eq_sum_range]
  refine congrArg _ (Finset.sum_congr rfl fun m _ => ?_)
  change c.weightDecay * c.weightDecay ^ m * _ = _
  rw [pow_add, pow_one]

/-- The decision of the code is the one of the reference. -/
theorem Shapes.bestLayer_chosen (h : c.Shapes s) (hv : c.Valid) (hn : ∀ j, 0 ≤ s.numTokensAt j)
    (hs : ∀ snapshot ∈ snapshots, ∀ j, 0 ≤ snapshot j) (hbusy : ∃ i < c.numLayers, 0 < s.numTokensAt i) :
    c.Chosen s.numTokensAt snapshots (s.bestLayer (c.recorded snapshots)).2 := by
  have htop : 0 < s.topK := by
    rw [h.topK]
    exact hv.topK
  have hscore : ∀ i, 0 < s.score (c.recorded snapshots) i ↔ 0 < s.numTokensAt i :=
    LayerScheduler.score_pos htop (d := c.recorded snapshots) hv.weightDecay
  have hbest := foldl_firstLargest (s.score (c.recorded snapshots)) 0 s.numLayers
  dsimp only at hbest
  rw [h.numLayers] at hbest
  unfold LayerScheduler.bestLayer
  rw [h.numLayers]
  rcases hbest with ⟨-, hall⟩ | ⟨i, hi, hres, hpos, hmax, hfirst⟩
  · obtain ⟨i, hi, htok⟩ := hbusy
    exact absurd ((hscore i).mpr htok) (not_lt.mpr (hall i hi))
  · have htok := (hscore i).mp hpos
    refine .inr ⟨i, hi, by rw [hres], htok, fun j hj hjtok => ?_, fun j hj hjtok => ?_⟩
    · rw [← h.score_eq hv hn hs hj hjtok, ← h.score_eq hv hn hs hi htok]
      exact hmax j hj
    · rw [← h.score_eq hv hn hs (hj.trans hi) hjtok, ← h.score_eq hv hn hs hi htok]
      exact hfirst j hj

end DefragConfig

/-! ### No check fails -/

namespace LayerScheduler

theorem mapM_eq_pure {σ α β : Type} {f : α → EStateM Fault σ β} {g : α → β} {l : List α}
    (h : ∀ a ∈ l, f a = pure (g a)) : l.mapM f = pure (l.map g) := by
  induction l with
  | nil => rfl
  | cons a l ih =>
    rw [List.mapM_cons, h a (by simp), pure_bind, ih fun b hb => h b (by simp [hb]), pure_bind]
    rfl

theorem readAt_of_some {σ α : Type} (access : String) {xs : List α} {i : ℕ} {x : α} (h : xs[i]? = some x) :
    (readAt access xs i : EStateM Fault σ α) = pure x := by
  rw [readAt, h]

theorem divide_eq {σ : Type} {num den : ℚ} (h : den ≠ 0) :
    (divide num den : EStateM Fault σ ℚ) = pure (num / den) := by
  rw [divide, ensure, if_pos h, pure_bind]

end LayerScheduler

namespace DefragConfig

open LayerScheduler

variable {c : DefragConfig} {snapshots : List (ℕ → ℤ)} {s : LayerScheduler W R}

theorem Shapes.effectiveTokensChecked_eq (h : c.Shapes s) (hv : c.Valid) (i : ℕ) (raw : ℤ) :
    (s.effectiveTokensChecked i raw : SchedulerM W R ℚ) = pure (s.getEffectiveTokens i raw) := by
  have htop : (s.topK : ℚ) ≠ 0 := by
    have := hv.topK
    rw [h.topK]
    exact_mod_cast (by omega : c.topK ≠ 0)
  unfold effectiveTokensChecked LayerScheduler.getEffectiveTokens
  split_ifs
  · rfl
  · rfl
  · exact divide_eq htop

theorem historyScoreChecked_eq {j : ℕ} (hj : j < c.numLayers) :
    (historyScoreChecked (c.recorded snapshots) j : SchedulerM W R ℚ) =
      pure (historyScore (c.recorded snapshots) j) := by
  unfold historyScoreChecked historyScore
  by_cases hl : 0 < c.lookbackSteps
  · obtain ⟨hwin, hsum⟩ := recorded_getElem? snapshots hl hj
    rw [if_pos ⟨hl, recorded_ne_nil snapshots hl⟩, readAt_of_some _ hwin, pure_bind, readAt_of_some _ hsum, pure_bind,
      List.getD_eq_getElem?_getD, hwin, List.getD_eq_getElem?_getD, hsum, Option.getD_some,
      Option.getD_some]
    set recent := (window c.lookbackSteps snapshots).map fun snapshot => snapshot j
    by_cases hpos : recent ≠ [] ∧ 0 < recent.sum
    · have hlen : ((recent.length : ℕ) : ℚ) ≠ 0 := by
        exact_mod_cast fun hzero => hpos.1 (List.length_eq_zero_iff.mp hzero)
      rw [if_pos hpos, if_pos ⟨hl, recorded_ne_nil snapshots hl, hpos⟩]
      exact divide_eq hlen
    · rw [if_neg hpos, if_neg fun hand => hpos hand.2.2]
  · rw [if_neg fun hand => hl hand.1, if_neg fun hand => hl hand.1]

/-- The effective tokens of all layers. -/
def effectiveTokens (c : DefragConfig) (s : LayerScheduler W R) : List ℚ :=
  (List.range c.numLayers).map fun i => s.getEffectiveTokens i (s.numTokensAt i)

theorem effectiveTokens_getElem? {i : ℕ} (hi : i < c.numLayers) :
    (c.effectiveTokens s)[i]? = some (s.getEffectiveTokens i (s.numTokensAt i)) := by
  rw [effectiveTokens, List.getElem?_map, List.getElem?_range hi]
  rfl

theorem Shapes.lookaheadScoreChecked_eq (h : c.Shapes s) (pipePos k steps : ℕ) (decay : ℚ) :
    (s.lookaheadScoreChecked (c.recorded snapshots) (c.effectiveTokens s) pipePos k steps decay :
      SchedulerM W R ℚ) = pure (s.lookaheadScore (c.recorded snapshots) pipePos k steps decay) := by
  induction steps generalizing k decay with
  | zero => rfl
  | succ steps ih =>
    have hpos : s.numLayers ≠ 0 := by
      rw [h.numLayers, DefragConfig.numLayers]
      omega
    have hlt : s.fromPipelinePos ((pipePos + k) % s.numLayers) < c.numLayers :=
      h.fromPipelinePos_lt ((Nat.mod_lt _ (Nat.pos_of_ne_zero hpos)).trans_eq h.numLayers)
    rw [lookaheadScoreChecked, lookaheadScore, ensure, if_pos hpos, pure_bind]
    simp only [readAt_of_some _ (effectiveTokens_getElem? hlt), historyScoreChecked_eq hlt, ih, pure_bind]

theorem Shapes.scoreChecked_eq (h : c.Shapes s) {i : ℕ} (hi : i < c.numLayers) :
    (s.scoreChecked (c.recorded snapshots) (c.effectiveTokens s) i : SchedulerM W R ℚ) =
      pure (s.score (c.recorded snapshots) i) := by
  rw [scoreChecked, readAt_of_some _ (effectiveTokens_getElem? hi), pure_bind, score]
  split_ifs
  · rfl
  · rw [h.lookaheadScoreChecked_eq, pure_bind]

/-- The new window and sum of a layer. -/
theorem pushChecked_eq (snapshots : List (ℕ → ℤ)) (hl : 0 < c.lookbackSteps) (f : ℕ → ℤ) {i : ℕ} (hi : i < c.numLayers) :
    (pushChecked c.lookbackSteps (c.recorded snapshots).historyTokensInLayer
      (c.recorded snapshots).sumHistoryTokensInLayer ((List.range c.numLayers).map f) i :
      SchedulerM W R (List ℤ × ℤ)) =
      pure ((window c.lookbackSteps (snapshots ++ [f])).map (fun snapshot => snapshot i),
        ((window c.lookbackSteps (snapshots ++ [f])).map fun snapshot => snapshot i).sum) := by
  obtain ⟨hwin, hsum⟩ := recorded_getElem? snapshots hl hi
  have hsnap : ((List.range c.numLayers).map f)[i]? = some (f i) := by
    rw [List.getElem?_map, List.getElem?_range hi]
    rfl
  rw [sum_window_map_concat hl, window_map_concat hl, pushChecked, readAt_of_some _ hwin, pure_bind,
    readAt_of_some _ hsum, pure_bind, readAt_of_some _ hsnap, pure_bind]
  set recent := (window c.lookbackSteps snapshots).map fun snapshot => snapshot i
  by_cases hfull : c.lookbackSteps ≤ recent.length
  · have hpos : 0 < recent.length := hl.trans_le hfull
    have hfront : recent[0]? = some (recent.headD 0) := by
      cases hrec : recent with
      | nil => simp [hrec] at hpos
      | cons a w => rfl
    rw [if_pos hfull, if_pos hfull, if_pos hfull, readAt_of_some _ hfront, pure_bind]
  · rw [if_neg hfull, if_neg hfull, if_neg hfull]

theorem stepEndChecked_eq (f : ℕ → ℤ) :
    (stepEndChecked (c.recorded snapshots) c.numLayers ((List.range c.numLayers).map f) :
      SchedulerM W R Defrag) = pure (c.recorded (snapshots ++ [f])) := by
  unfold stepEndChecked
  by_cases hl : 0 < c.lookbackSteps
  · have hzero : ¬ (c.recorded snapshots).lookbackSteps = 0 := by
      change ¬ c.lookbackSteps = 0
      omega
    have hne := recorded_ne_nil snapshots hl
    rw [if_neg hzero, if_neg hne, if_neg hne]
    have hpush : ∀ i ∈ List.range c.numLayers, _ :=
      fun i hi => pushChecked_eq (W := W) (R := R) snapshots hl f (List.mem_range.mp hi)
    change ((List.range c.numLayers).mapM (pushChecked c.lookbackSteps _ _ _) >>= _) = _
    rw [mapM_eq_pure hpush, pure_bind, List.map_map, List.map_map]
    simp only [recorded, hl, if_true]
    rfl
  · have hzero : c.lookbackSteps = 0 := Nat.eq_zero_of_not_pos hl
    rw [if_pos (show (c.recorded snapshots).lookbackSteps = 0 from hzero)]
    simp [recorded, hzero]

end DefragConfig

/-! ### Runs -/

namespace DefragRun

open LayerScheduler DefragConfig

/-- The layers count their queues, and the policy holds what its decisions recorded. -/
structure Recorded (c : DefragConfig) (s : DefragRun W R) : Prop where
  counts : s.scheduler.Counts
  shapes : c.Shapes s.scheduler
  defrag : s.scheduler.defrag = some (c.recorded s.snapshots)
  nonneg : ∀ snapshot ∈ s.snapshots, ∀ j, 0 ≤ snapshot j

variable {c : DefragConfig} {s s' : DefragRun W R}

theorem recorded_start (hv : c.Valid) : Recorded c (⟨c.scheduler, []⟩ : DefragRun W R) where
  counts := counts_new _ _ _ _
  shapes := ⟨rfl, rfl, if_pos hv.topK⟩
  defrag := by
    have hlen : c.numExpertLayers + 1 + c.numExpertLayers = c.numLayers := by
      rw [DefragConfig.numLayers]
      omega
    change some _ = some _
    rw [hlen]
    congr 1
    simp [recorded, window]
  nonneg := by simp

theorem Recorded.nonneg_record (h : Recorded c s) : ∀ snapshot ∈ s.record c, ∀ j, 0 ≤ snapshot j := by
  unfold record
  split_ifs
  · exact h.nonneg
  · intro snapshot hmem j
    rcases List.mem_append.mp hmem with hmem | hmem
    · exact h.nonneg snapshot hmem j
    · obtain rfl := List.mem_singleton.mp hmem
      exact Int.floor_nonneg.mpr (effective_nonneg h.counts.numTokensAt_nonneg j)

/-- There are no tokens exactly when the counters add up to nothing. -/
theorem Recorded.sum_snapshot (h : Recorded c s) :
    s.scheduler.getPoolSnapshot.sum = 0 ↔ ∀ i < c.numLayers, s.tokens i = 0 := by
  have hnat : s.scheduler.getPoolSnapshot =
      ((List.range c.numLayers).map fun i => (s.tokens i).toNat).map (Nat.cast : ℕ → ℤ) := by
    rw [getPoolSnapshot, h.shapes.numLayers, List.map_map]
    exact List.map_congr_left fun i _ => (Int.toNat_of_nonneg (h.counts.numTokensAt_nonneg i)).symm
  rw [hnat, ← Nat.cast_list_sum, Int.natCast_eq_zero, List.sum_eq_zero_iff]
  simp only [List.mem_map, List.mem_range, forall_exists_index, and_imp, forall_apply_eq_imp_iff₂]
  refine forall₂_congr fun i _ => ?_
  have := h.counts.numTokensAt_nonneg i
  change (s.scheduler.numTokensAt i).toNat = 0 ↔ s.scheduler.numTokensAt i = 0
  omega

theorem Recorded.effectiveSnapshot_eq (h : Recorded c s) : s.scheduler.effectiveSnapshot =
    (List.range c.numLayers).map fun i => ⌊c.effective s.tokens i⌋ := by
  rw [effectiveSnapshot, h.shapes.numLayers]
  exact List.map_congr_left fun i _ => by
    rw [h.shapes.getEffectiveTokens (h.counts.numTokensAt_nonneg i)]
    rfl

/-- The state after a decision. -/
def decided (c : DefragConfig) (s : DefragRun W R) : LayerScheduler W R :=
  { s.scheduler with defrag := some (c.recorded (s.record c)) }

theorem Recorded.schedule_idle (h : Recorded c s) (hidle : ∀ i < c.numLayers, s.tokens i = 0) :
    LayerScheduler.schedule s.scheduler = .ok (-1) (s.decided c) := by
  have hdecided : s.decided c = s.scheduler := by
    rw [decided, record, if_pos hidle, ← h.defrag]
  rw [LayerScheduler.schedule, get_bind]
  simp only [h.defrag]
  rw [if_pos (h.sum_snapshot.mpr hidle), hdecided]
  rfl

theorem Recorded.schedule_busy (h : Recorded c s) (hbusy : ¬ ∀ i < c.numLayers, s.tokens i = 0) :
    LayerScheduler.schedule s.scheduler =
      .ok (s.scheduler.bestLayer (c.recorded s.snapshots)).2 (s.decided c) := by
  rw [LayerScheduler.schedule, get_bind]
  simp only [h.defrag]
  rw [if_neg fun hsum => hbusy (h.sum_snapshot.mp hsum), h.shapes.numLayers, h.effectiveSnapshot_eq,
    stepEnd_recorded, decided, record, if_neg hbusy]
  rfl

/-- A decision returns the layer of the reference and records its snapshot. -/
theorem Recorded.schedule (h : Recorded c s) (hv : c.Valid) :
    ∃ id, LayerScheduler.schedule s.scheduler = .ok id (s.decided c) ∧ c.Chosen s.tokens s.snapshots id := by
  by_cases hidle : ∀ i < c.numLayers, s.tokens i = 0
  · exact ⟨-1, h.schedule_idle hidle, .inl ⟨rfl, hidle⟩⟩
  · refine ⟨_, h.schedule_busy hidle, h.shapes.bestLayer_chosen hv h.counts.numTokensAt_nonneg h.nonneg ?_⟩
    simp only [not_forall] at hidle
    obtain ⟨i, hi, hne⟩ := hidle
    exact ⟨i, hi, lt_of_le_of_ne (h.counts.numTokensAt_nonneg i) (Ne.symm hne)⟩

theorem Recorded.decided (h : Recorded c s) : Recorded c ⟨s.decided c, s.record c⟩ where
  counts := ⟨h.counts.length, h.counts.layer⟩
  shapes := ⟨h.shapes.numAttnLayers, h.shapes.numExpertLayers, h.shapes.topK⟩
  defrag := rfl
  nonneg := h.nonneg_record

/-! ### The checked decision -/

theorem zipIdx_map_range {α : Type} (f : ℕ → α) (n : ℕ) :
    ((List.range n).map f).zipIdx = (List.range n).map fun i => (f i, i) := by
  refine List.ext_getElem (by simp) fun i _ _ => ?_
  simp

theorem Recorded.rawTokens_eq (h : Recorded c s) :
    ((List.range s.scheduler.numLayers).mapM fun i => do
      let l ← readAt "layers[i]" s.scheduler.layers i
      return l.numTokens : SchedulerM W R (List ℤ)) = pure s.scheduler.getPoolSnapshot := by
  refine mapM_eq_pure fun i hi => ?_
  have hlt : i < s.scheduler.layers.length := by
    rw [h.counts.length]
    exact List.mem_range.mp hi
  rw [readAt_eq hlt, pure_bind, numTokensAt, List.getElem?_eq_getElem hlt]
  rfl

theorem Recorded.effectiveTokens_eq (h : Recorded c s) (hv : c.Valid) :
    ((List.range s.scheduler.numLayers).mapM fun i => do
      let tokens ← readAt "raw_tokens[i]" s.scheduler.getPoolSnapshot i
      effectiveTokensChecked s.scheduler i tokens : SchedulerM W R (List ℚ)) =
      pure (c.effectiveTokens s.scheduler) := by
  rw [h.shapes.numLayers]
  refine mapM_eq_pure fun i hi => ?_
  have hraw : s.scheduler.getPoolSnapshot[i]? = some (s.scheduler.numTokensAt i) := by
    rw [getPoolSnapshot, h.shapes.numLayers, List.getElem?_map, List.getElem?_range (List.mem_range.mp hi)]
    rfl
  rw [readAt_of_some _ hraw, pure_bind, h.shapes.effectiveTokensChecked_eq hv]

theorem Recorded.floors_eq (h : Recorded c s) : (c.effectiveTokens s.scheduler).map (fun tokens => ⌊tokens⌋) =
    (List.range c.numLayers).map fun i => ⌊c.effective s.tokens i⌋ := by
  rw [effectiveTokens, List.map_map]
  exact List.map_congr_left fun i _ => by
    rw [Function.comp_apply, h.shapes.getEffectiveTokens (h.counts.numTokensAt_nonneg i)]
    rfl

/-- No check fails. -/
theorem Recorded.scheduleChecked (h : Recorded c s) (hv : c.Valid) :
    LayerScheduler.scheduleChecked (c.recorded s.snapshots) s.scheduler =
      LayerScheduler.schedule s.scheduler := by
  rw [LayerScheduler.scheduleChecked, get_bind, h.rawTokens_eq, pure_bind, h.effectiveTokens_eq hv, pure_bind]
  by_cases hidle : ∀ i < c.numLayers, s.tokens i = 0
  · have hdecided : s.decided c = s.scheduler := by
      rw [DefragRun.decided, record, if_pos hidle, ← h.defrag]
    rw [if_pos (h.sum_snapshot.mpr hidle), h.schedule_idle hidle, hdecided]
    rfl
  · have hscores : ∀ i ∈ List.range c.numLayers,
        (s.scheduler.scoreChecked (c.recorded s.snapshots) (c.effectiveTokens s.scheduler) i :
          SchedulerM W R ℚ) = pure (s.scheduler.score (c.recorded s.snapshots) i) :=
      fun i hi => h.shapes.scoreChecked_eq (List.mem_range.mp hi)
    rw [if_neg fun hsum => hidle (h.sum_snapshot.mp hsum), h.schedule_busy hidle, h.shapes.numLayers,
      mapM_eq_pure hscores, pure_bind, h.floors_eq, stepEndChecked_eq, pure_bind, zipIdx_map_range,
      List.foldl_map, DefragRun.decided, record, if_neg hidle, bestLayer, h.shapes.numLayers]
    rfl

/-! ### The result -/

/-- What is true in every state. -/
structure Decides (c : DefragConfig) (s : DefragRun W R) : Prop where
  decision : ∃ id t, LayerScheduler.schedule s.scheduler = .ok id t ∧
    LayerScheduler.scheduleWithSnapshot s.scheduler = .ok (id, s.scheduler.getPoolSnapshot) t ∧
    c.Chosen s.tokens s.snapshots id
  windows : ∀ d, s.scheduler.defrag = some d → ∀ w ∈ d.historyTokensInLayer,
    w.length = min c.lookbackSteps s.snapshots.length
  contents : ∀ d, s.scheduler.defrag = some d → 0 < c.lookbackSteps → ∀ j < c.numLayers,
    d.historyTokensInLayer[j]? = some ((window c.lookbackSteps s.snapshots).map fun snapshot => snapshot j)
  sums : ∀ d, s.scheduler.defrag = some d →
    d.sumHistoryTokensInLayer = d.historyTokensInLayer.map List.sum
  checked : ∀ d, s.scheduler.defrag = some d →
    LayerScheduler.scheduleChecked d s.scheduler = LayerScheduler.schedule s.scheduler

theorem Recorded.decisions (h : Recorded c s) (hv : c.Valid) : Decides c s := by
  have hdefrag : ∀ d, s.scheduler.defrag = some d → d = c.recorded s.snapshots := by
    intro d hd
    rw [h.defrag] at hd
    exact (Option.some.inj hd).symm
  refine ⟨?_, fun d hd w hw => ?_, fun d hd hl j hj => ?_, fun d hd => ?_, fun d hd => ?_⟩
  · obtain ⟨id, hrun, hchosen⟩ := h.schedule hv
    refine ⟨id, s.decided c, hrun, ?_, hchosen⟩
    rw [LayerScheduler.scheduleWithSnapshot, get_bind, bind_of_ok hrun]
    rfl
  · obtain rfl := hdefrag d hd
    simp only [recorded] at hw
    split_ifs at hw
    · obtain ⟨j, -, rfl⟩ := List.mem_map.mp hw
      rw [List.length_map, length_window]
    · simp at hw
  · obtain rfl := hdefrag d hd
    exact (recorded_getElem? s.snapshots hl hj).1
  · obtain rfl := hdefrag d hd
    simp only [recorded]
    split_ifs
    · rw [List.map_map]
      rfl
    · rfl
  · obtain rfl := hdefrag d hd
    exact h.scheduleChecked hv

variable [Zero W] [Row R] {S : ComparatorSort}

theorem Recorded.step (hv : c.Valid) (h : Recorded c s) (hstep : Step S c s s') : Recorded c s' := by
  cases hstep with
  | queue hcall =>
    obtain ⟨hcounts, hsame⟩ := h.counts.queueCall hcall
    exact ⟨hcounts, ⟨hsame.numAttnLayers.trans h.shapes.numAttnLayers,
      hsame.numExpertLayers.trans h.shapes.numExpertLayers, hsame.topK.trans h.shapes.topK⟩,
      hsame.defrag.trans h.defrag, h.nonneg⟩
  | schedule hrun =>
    obtain ⟨id', hrun', -⟩ := h.schedule hv
    rw [hrun] at hrun'
    obtain ⟨-, rfl⟩ := EStateM.Result.ok.inj hrun'
    exact h.decided
  | scheduleWithSnapshot hrun =>
    obtain ⟨id', hrun', -⟩ := h.schedule hv
    rw [LayerScheduler.scheduleWithSnapshot, get_bind, bind_of_ok hrun'] at hrun
    obtain ⟨-, rfl⟩ := pure_ok_iff.mp hrun
    exact h.decided

/-- In every state the decision is the one of the reference score. -/
theorem Run.decides (hv : c.Valid) (h : Run S c s) : Decides c s := by
  have hrec : Recorded c s :=
    Reach.invariant (fun t ht => ht ▸ recorded_start hv) (fun _ _ hI hstep => hI.step hv hstep) h
  exact hrec.decisions hv

/-- One expert layer between two attention layers. -/
def threeLayers : DefragConfig where
  numExpertLayers := 1
  topK := 2
  lookbackSteps := 2
  lookaheadSteps := 3
  weightDecay := 1 / 2

theorem decides_threeLayers : ∃ s : DefragRun ℕ (List ℕ), s.snapshots.length = 1 ∧
    Decides threeLayers s := by
  have hv : threeLayers.Valid := ⟨by decide, by decide, by norm_num [threeLayers]⟩
  let s₀ : DefragRun ℕ (List ℕ) := ⟨threeLayers.scheduler, []⟩
  have h₀ : Run .insertion threeLayers s₀ := Reach.start rfl
  let batch : TokenBatch ℕ (List ℕ) :=
    ⟨[[1], [2], [3]], ⟨.attention, (3, 1), "bf16", 0, [7, 8, 9], [], [], [0, 0, 0], [-1, -1, -1],
      some 0, some 0, some 3⟩⟩
  obtain ⟨t, ht, htok⟩ : ∃ t, LayerScheduler.addBatch batch s₀.scheduler = .ok ⟨⟩ t ∧
      t.numTokensAt 0 = 3 := ⟨_, rfl, rfl⟩
  let s₁ : DefragRun ℕ (List ℕ) := ⟨t, []⟩
  have h₁ : Run .insertion threeLayers s₁ := h₀.next (.queue (.addBatch ht))
  obtain ⟨id, u, hu, -⟩ := (Run.decides hv h₁).decision
  have h₂ : Run .insertion threeLayers ⟨u, s₁.record threeLayers⟩ := h₁.next (.schedule hu)
  have hbusy : ¬ ∀ i < threeLayers.numLayers, s₁.tokens i = 0 := by
    intro hidle
    have hzero : t.numTokensAt 0 = 0 := hidle 0 (by decide)
    omega
  refine ⟨_, ?_, Run.decides hv h₂⟩
  change (s₁.record threeLayers).length = 1
  rw [record, if_neg hbusy]
  rfl

end DefragRun

end StreamInfer.Pool
