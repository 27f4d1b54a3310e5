import StreamInfer.Fault
import StreamInfer.General.Binary32
import StreamInfer.General.Reach
import StreamInfer.General.Traces

/-! `AdvancedLayerScheduler`. A layer that gets its first tokens is held back for a few
decisions, or until it has many tokens; then it is ready, and a ready layer that waits too
long becomes urgent. A decision takes the urgent layer that is ready longest, else the ready
layer of largest score, else the first held layer. Scores are computed in single precision,
every operation with its rounding. No layer with tokens starves: once the decisions of its
hold and the waiting time are over, it is taken after at most as many decisions as there are
layers. -/

namespace StreamInfer.Pool

open General General.Stateful General.Binary32

inductive LayerStatus where
  | hold
  | ready
  | urgent
  | idle
  deriving DecidableEq, Repr

/-- The entries of a layer in the arrays of the scheduler. Its tokens are counted as by an `int`
that does not overflow. -/
structure LayerState where
  status : LayerStatus
  numTokens : ℕ
  numStepsToHold : ℤ
  readyTimestampMs : ℤ
  deriving DecidableEq

namespace LayerState

def create : LayerState := ⟨.idle, 0, 0, 0⟩

def setToIdle (l : LayerState) : LayerState := { l with numTokens := 0, status := .idle }

def setToReady (now : ℤ) (l : LayerState) : LayerState := { l with status := .ready, readyTimestampMs := now }

def setToHold (holdSteps : ℤ) (l : LayerState) : LayerState :=
  { l with status := .hold, numStepsToHold := holdSteps }

def setToUrgent (l : LayerState) : LayerState := { l with status := .urgent }

/-- A difference of clock readings cast to an `int`. -/
def elapse (cur since : ℤ) : ℤ := (cur - since).bmod (2 ^ 32)

def maxWaitTimeMs : ℤ := 100

/-- A ready layer that waits too long becomes urgent. -/
def label (cur : ℤ) (l : LayerState) : LayerState :=
  if l.status = .ready ∧ elapse cur l.readyTimestampMs > maxWaitTimeMs then l.setToUrgent else l

/-- One decision less to hold a held layer back. -/
def holdStep (now : ℤ) (l : LayerState) : LayerState :=
  if l.status = .hold then
    let l := { l with numStepsToHold := l.numStepsToHold - 1 }
    if l.numStepsToHold ≤ 0 then l.setToReady now else l
  else l

def threshhold : ℕ := 256

def addTokens (holdSteps now : ℤ) (numTokens : ℕ) (l : LayerState) : LayerState :=
  let l := { l with numTokens := l.numTokens + numTokens }
  if l.status = .idle then
    if l.numTokens ≥ threshhold ∨ holdSteps = 0 then l.setToReady now else l.setToHold holdSteps
  else if l.status = .hold then
    if l.numTokens ≥ threshhold then l.setToReady now else l
  else l

end LayerState

/-- No decision looks back, so nothing is recorded when one ends. -/
structure AdvancedLayerScheduler where
  holdSteps : ℤ
  layers : List LayerState
  deriving DecidableEq

namespace AdvancedLayerScheduler

def create (nLayers : ℕ) (holdSteps : ℤ) : AdvancedLayerScheduler :=
  ⟨holdSteps, List.replicate nLayers .create⟩

abbrev AdvancedM := EStateM Fault AdvancedLayerScheduler

def layerAt (s : AdvancedLayerScheduler) (i : ℕ) : LayerState := s.layers.getD i .create

/-- The layers with a status, in the order of the loop that collects them. -/
def withStatus (s : AdvancedLayerScheduler) (status : LayerStatus) : List ℕ :=
  (List.range s.layers.length).filter fun i => (s.layerAt i).status = status

/-- The urgent layer that is ready longest. -/
def longestReady (s : AdvancedLayerScheduler) : List ℕ → Option ℕ
  | [] => none
  | first :: rest => some (rest.foldl (fun best i =>
      if (s.layerAt i).readyTimestampMs < (s.layerAt best).readyTimestampMs then i else best) first)

def lookaheadSteps : ℕ := 8

/-- `0.8` as a `float`. -/
def weightDecay : ℚ := rounded (4 / 5)

/-- The loop over the following layers from `j` on, with `steps` steps left. -/
def lookahead (s : AdvancedLayerScheduler) (layerId : ℕ) : ℕ → ℕ → ℚ → ℚ → ℚ
  | _, 0, _, score => score
  | j, steps + 1, decay, score =>
    let curLayer := s.layerAt ((layerId + j) % s.layers.length)
    lookahead s layerId (j + 1) steps (rounded (decay * weightDecay))
      (rounded (score + rounded (rounded curLayer.numTokens * decay)))

def score (s : AdvancedLayerScheduler) (layerId : ℕ) : ℚ :=
  if (s.layerAt layerId).numTokens = 0 then 0
  else s.lookahead layerId 1 (lookaheadSteps - 1) weightDecay (rounded (s.layerAt layerId).numTokens)

/-- The first ready layer of largest positive score. -/
def bestReady (s : AdvancedLayerScheduler) (ready : List ℕ) : ℚ × Option ℕ :=
  ready.foldl (fun best i => if s.score i > best.1 then (s.score i, some i) else best) (0, none)

/-- `none` is the layer -1. -/
def layerToSchedule (s : AdvancedLayerScheduler) : Option ℕ :=
  if s.withStatus .urgent ≠ [] then s.longestReady (s.withStatus .urgent)
  else if s.withStatus .ready ≠ [] then (s.bestReady (s.withStatus .ready)).2
  else (s.withStatus .hold).head?

/-- `cur` is the reading of the clock at the start of the call and `now i` the one when layer
`i` becomes ready in it. -/
def schedule (cur : ℤ) (now : ℕ → ℤ) : AdvancedM ℕ := do
  modify fun s => { s with layers := s.layers.map (LayerState.label cur) }
  let layerToSchedule ← valueOf "num_tokens_in_layer[layer_to_schedule]" (← get).layerToSchedule
  modify fun s =>
    { s with layers := s.layers.mapIdx fun i l => if i = layerToSchedule then l else l.holdStep (now i) }
  ensure (0 < ((← get).layerAt layerToSchedule).numTokens) "num_tokens_in_layer[layer_to_schedule] > 0"
  modify fun s => { s with layers := s.layers.modify layerToSchedule LayerState.setToIdle }
  return layerToSchedule

def addTokensToLayer (now : ℤ) (layerId numTokens : ℕ) : AdvancedM Unit := do
  let s ← get
  let l ← readAt "num_tokens_in_layer[layer_id]" s.layers layerId
  set { s with layers := s.layers.set layerId (l.addTokens s.holdSteps now numTokens) }

/-! ### Layers -/

variable {s s' : AdvancedLayerScheduler} {cur : ℤ} {now : ℕ → ℤ} {i id : ℕ}

theorem layerAt_eq (hi : i < s.layers.length) : s.layerAt i = s.layers[i] := by
  rw [layerAt, List.getD_eq_getElem?_getD, List.getElem?_eq_getElem hi, Option.getD_some]

theorem layerAt_of_length_le (hi : s.layers.length ≤ i) : s.layerAt i = .create := by
  rw [layerAt, List.getD_eq_getElem?_getD, List.getElem?_eq_none hi, Option.getD_none]

theorem mem_withStatus {status : LayerStatus} :
    i ∈ s.withStatus status ↔ i < s.layers.length ∧ (s.layerAt i).status = status := by
  simp [withStatus]

/-- The layers with a status come in ascending order. -/
theorem le_of_head?_withStatus {status : LayerStatus} (hid : (s.withStatus status).head? = some id)
    (hi : i ∈ s.withStatus status) : id ≤ i := by
  have hsorted : (s.withStatus status).Pairwise (· < ·) := List.pairwise_lt_range.filter _
  cases hlist : s.withStatus status with
  | nil => simp [hlist] at hid
  | cons first rest =>
    rw [hlist] at hid hi hsorted
    obtain rfl := Option.some_inj.mp hid
    rcases List.mem_cons.mp hi with rfl | hi
    · exact le_rfl
    · exact (List.rel_of_pairwise_cons hsorted hi).le

/-- The layers after the loop that labels them. -/
def labelled (s : AdvancedLayerScheduler) (cur : ℤ) : AdvancedLayerScheduler :=
  { s with layers := s.layers.map (LayerState.label cur) }

/-- The layers after the loop over the held ones. -/
def held (s : AdvancedLayerScheduler) (cur : ℤ) (now : ℕ → ℤ) (id : ℕ) : AdvancedLayerScheduler :=
  { s with
    layers := (s.labelled cur).layers.mapIdx fun i l => if i = id then l else l.holdStep (now i) }

/-- The layers after a decision for `id`. -/
def decided (s : AdvancedLayerScheduler) (cur : ℤ) (now : ℕ → ℤ) (id : ℕ) : AdvancedLayerScheduler :=
  { s with layers := (s.held cur now id).layers.modify id LayerState.setToIdle }

@[simp] theorem length_labelled : (s.labelled cur).layers.length = s.layers.length := by
  simp [labelled]

@[simp] theorem length_held : (s.held cur now id).layers.length = s.layers.length := by
  simp [held]

@[simp] theorem length_decided : (s.decided cur now id).layers.length = s.layers.length := by
  simp [decided]

theorem label_create : LayerState.create.label cur = .create := rfl

theorem layerAt_labelled : (s.labelled cur).layerAt i = (s.layerAt i).label cur := by
  rcases lt_or_ge i s.layers.length with hi | hi
  · rw [layerAt_eq (by simpa using hi), layerAt_eq hi]
    exact List.getElem_map _
  · rw [layerAt_of_length_le (by simpa using hi), layerAt_of_length_le hi, label_create]

theorem layerAt_held (hi : i < s.layers.length) :
    (s.held cur now id).layerAt i =
      if i = id then (s.layerAt i).label cur else ((s.layerAt i).label cur).holdStep (now i) := by
  rw [← layerAt_labelled, layerAt_eq (by simpa using hi), layerAt_eq (by simpa using hi)]
  exact List.getElem_mapIdx

theorem layerAt_decided (hi : i < s.layers.length) :
    (s.decided cur now id).layerAt i =
      if i = id then ((s.layerAt i).label cur).setToIdle else ((s.layerAt i).label cur).holdStep (now i) := by
  have hheld := @layerAt_held s cur now i id hi
  rw [layerAt_eq (by simpa using hi)] at hheld ⊢
  by_cases h : i = id
  · subst h
    rw [if_pos rfl] at hheld ⊢
    simp only [decided, List.getElem_modify_eq, hheld]
  · rw [if_neg h] at hheld ⊢
    simp only [decided, List.getElem_modify, if_neg (Ne.symm h), hheld]

@[simp] theorem numTokens_label (l : LayerState) : (l.label cur).numTokens = l.numTokens := by
  unfold LayerState.label
  split_ifs <;> rfl

@[simp] theorem numTokens_holdStep (l : LayerState) (now : ℤ) : (l.holdStep now).numTokens = l.numTokens := by
  unfold LayerState.holdStep
  dsimp only
  split_ifs <;> rfl

theorem numTokens_held : ((s.held cur now id).layerAt i).numTokens = (s.layerAt i).numTokens := by
  rcases lt_or_ge i s.layers.length with hi | hi
  · rw [layerAt_held hi]
    split_ifs
    · exact numTokens_label _
    · rw [numTokens_holdStep, numTokens_label]
  · rw [layerAt_of_length_le (by simpa using hi), layerAt_of_length_le hi]

/-- What a decision does. -/
theorem schedule_ok_iff :
    schedule cur now s = .ok id s' ↔
      (s.labelled cur).layerToSchedule = some id ∧ 0 < (s.layerAt id).numTokens ∧
        s' = s.decided cur now id := by
  simp only [schedule, bind_ok_iff, modify_ok_iff, get_bind, valueOf_ok_iff, ensure_ok_iff, pure_ok_iff]
  constructor
  · rintro ⟨-, _, rfl, id', _, ⟨hid, rfl⟩, -, _, rfl, -, _, ⟨hpos, rfl⟩, -, _, rfl, rfl, rfl⟩
    exact ⟨hid, (numTokens_held (s := s)).symm ▸ hpos, rfl⟩
  · rintro ⟨hid, hpos, rfl⟩
    exact ⟨⟨⟩, _, rfl, id, _, ⟨hid, rfl⟩, ⟨⟩, _, rfl, ⟨⟩, _, ⟨numTokens_held.symm ▸ hpos, rfl⟩,
      ⟨⟩, _, rfl, rfl, rfl⟩

/-- What an addition does. -/
theorem addTokensToLayer_ok_iff {now : ℤ} {k : ℕ} :
    addTokensToLayer now i k s = .ok ⟨⟩ s' ↔
      i < s.layers.length ∧
        s' = { s with layers := s.layers.set i ((s.layerAt i).addTokens s.holdSteps now k) } := by
  simp only [addTokensToLayer, get_bind, bind_ok_iff, readAt_ok_iff, set_ok_iff]
  constructor
  · rintro ⟨l, _, ⟨hl, rfl⟩, rfl⟩
    obtain ⟨hi, rfl⟩ := List.getElem?_eq_some_iff.mp hl
    exact ⟨hi, by rw [layerAt_eq hi]⟩
  · rintro ⟨hi, rfl⟩
    exact ⟨_, s, ⟨List.getElem?_eq_getElem hi, rfl⟩, by rw [layerAt_eq hi]⟩

/-! ### Choices -/

/-- The loop over urgent layers finds one that is ready no later than the others. -/
theorem longestReady_spec {layers : List ℕ} (hne : layers ≠ []) :
    ∃ id ∈ layers, s.longestReady layers = some id ∧
      ∀ j ∈ layers, (s.layerAt id).readyTimestampMs ≤ (s.layerAt j).readyTimestampMs := by
  cases layers with
  | nil => exact absurd rfl hne
  | cons first rest =>
    induction rest using List.reverseRecOn with
    | nil => exact ⟨first, by simp, rfl, by simp⟩
    | append_singleton rest i ih =>
      obtain ⟨id, hmem, hid, hmin⟩ := ih (by simp)
      have hfold := Option.some_inj.mp hid
      rw [longestReady, List.foldl_append, hfold, List.foldl_cons, List.foldl_nil]
      split_ifs with hlt
      · refine ⟨i, by simp, rfl, fun j hj => ?_⟩
        rcases List.mem_append.mp (List.cons_append ▸ hj : j ∈ (first :: rest) ++ [i]) with hj | hj
        · exact hlt.le.trans (hmin j hj)
        · rw [List.mem_singleton.mp hj]
      · refine ⟨id, List.cons_append ▸ List.mem_append_left _ hmem, rfl, fun j hj => ?_⟩
        rcases List.mem_append.mp (List.cons_append ▸ hj : j ∈ (first :: rest) ++ [i]) with hj | hj
        · exact hmin j hj
        · rw [List.mem_singleton.mp hj]
          exact not_lt.mp hlt

/-- The loop over ready layers finds the largest score when one is positive. -/
theorem bestReady_spec (ready : List ℕ) :
    s.bestReady ready = (0, none) ∧ (∀ j ∈ ready, s.score j ≤ 0) ∨
      ∃ id ∈ ready, s.bestReady ready = (s.score id, some id) ∧ 0 < s.score id ∧
        ∀ j ∈ ready, s.score j ≤ s.score id := by
  induction ready using List.reverseRecOn with
  | nil => exact .inl ⟨rfl, by simp⟩
  | append_singleton ready i ih =>
    rw [bestReady, List.foldl_append, List.foldl_cons, List.foldl_nil]
    rcases ih with ⟨hbest, hall⟩ | ⟨id, hmem, hbest, hpos, hmax⟩
    · rw [← bestReady, hbest]
      by_cases hi : s.score i > 0
      · refine .inr ⟨i, by simp, if_pos hi, hi, List.forall_mem_append.mpr ⟨fun j hj => ?_, by simp⟩⟩
        exact (hall j hj).trans hi.le
      · exact .inl ⟨if_neg hi, List.forall_mem_append.mpr ⟨hall, by simpa using hi⟩⟩
    · rw [← bestReady, hbest]
      by_cases hi : s.score i > s.score id
      · refine .inr ⟨i, by simp, if_pos hi, hpos.trans hi,
          List.forall_mem_append.mpr ⟨fun j hj => ?_, by simp⟩⟩
        exact (hmax j hj).trans hi.le
      · exact .inr ⟨id, by simp [hmem], if_neg hi, hpos,
          List.forall_mem_append.mpr ⟨hmax, by simpa using hi⟩⟩

/-! ### Scores -/

/-- The tokens of the layer `k` layers after one, decayed. -/
def decayed (s : AdvancedLayerScheduler) (i k : ℕ) : ℚ :=
  (s.layerAt ((i + k) % s.layers.length)).numTokens * (4 / 5) ^ k

theorem decayed_nonneg (i k : ℕ) : 0 ≤ s.decayed i k :=
  mul_nonneg (Nat.cast_nonneg _) (by positivity)

/-- The loop adds the decayed counts of the following layers. The decay of a step and the
product with a count take two roundings more than those of the step before; a sum takes one. -/
theorem lookahead_near (layerId j steps k : ℕ) {decay score y : ℚ} (hk : 2 * (j + steps) ≤ k)
    (hdecay : Near (2 * j) decay ((4 / 5) ^ j)) (hscore : Near k score y) (hy : 0 ≤ y) :
    Near (k + steps) (s.lookahead layerId j steps decay score)
      (y + ∑ m ∈ Finset.range steps, s.decayed layerId (j + m)) := by
  induction steps generalizing j k decay score y with
  | zero => simpa [lookahead] using hscore
  | succ steps ih =>
    have hpow : (0 : ℚ) ≤ (4 / 5) ^ j := by positivity
    have hcount : (0 : ℚ) ≤ (s.layerAt ((layerId + j) % s.layers.length)).numTokens := Nat.cast_nonneg _
    have hnext : Near (2 * (j + 1)) (rounded (decay * weightDecay)) ((4 / 5) ^ (j + 1)) := by
      have hweight : Near 1 weightDecay (4 / 5) := (near_zero_self _).rounded (by norm_num)
      rw [pow_succ]
      exact (hdecay.mul hweight hpow (by norm_num)).rounded (by positivity)
    have hproduct := ((near_zero_self _).rounded hcount).mul hdecay hcount hpow
    have hterm : Near k _ (s.decayed layerId j) :=
      (hproduct.rounded (decayed_nonneg layerId j)).mono (decayed_nonneg layerId j) (by omega)
    have hsum := (hscore.add hterm).rounded (add_nonneg hy (decayed_nonneg layerId j))
    have hrest := ih (j + 1) (k + 1) (by omega) hnext hsum (add_nonneg hy (decayed_nonneg layerId j))
    have hindex : ∀ m, j + 1 + m = j + (m + 1) := fun m => by omega
    have hsplit : y + ∑ m ∈ Finset.range (steps + 1), s.decayed layerId (j + m) =
        y + s.decayed layerId j + ∑ m ∈ Finset.range steps, s.decayed layerId (j + 1 + m) := by
      simp only [hindex]
      rw [Finset.sum_range_succ', Nat.add_zero]
      ring
    rw [lookahead, hsplit, show k + (steps + 1) = k + 1 + steps by omega]
    exact hrest

/-- The tokens of a layer and, decayed, those of the seven layers after it. -/
def referenceScore (s : AdvancedLayerScheduler) (i : ℕ) : ℚ := ∑ k ∈ Finset.range 8, s.decayed i k

theorem decayed_zero (hi : i < s.layers.length) : s.decayed i 0 = (s.layerAt i).numTokens := by
  rw [decayed, Nat.add_zero, Nat.mod_eq_of_lt hi, pow_zero, mul_one]

theorem referenceScore_pos (hi : i < s.layers.length) (h : 0 < (s.layerAt i).numTokens) :
    0 < s.referenceScore i := by
  refine Finset.sum_pos' (fun k _ => decayed_nonneg i k) ⟨0, by simp, ?_⟩
  rw [decayed_zero hi]
  exact_mod_cast h

/-- A score takes at most 23 roundings. -/
theorem score_near (hi : i < s.layers.length) (h : 0 < (s.layerAt i).numTokens) :
    Near 23 (s.score i) (s.referenceScore i) := by
  have hcount : (0 : ℚ) ≤ (s.layerAt i).numTokens := Nat.cast_nonneg _
  have hweight : Near (2 * 1) weightDecay ((4 / 5) ^ 1) := by
    rw [pow_one]
    exact ((near_zero_self _).rounded (by norm_num)).mono (by norm_num) (by decide)
  have hstart : Near 16 (rounded (s.layerAt i).numTokens) (s.layerAt i).numTokens :=
    ((near_zero_self _).rounded hcount).mono hcount (by decide)
  have hnear := s.lookahead_near i 1 7 16 le_rfl hweight hstart hcount
  have hsum : s.referenceScore i =
      (s.layerAt i).numTokens + ∑ m ∈ Finset.range 7, s.decayed i (1 + m) := by
    rw [referenceScore, Finset.sum_range_succ', add_comm, decayed_zero hi]
    simp only [Nat.add_comm 1]
  rw [score, if_neg h.ne', hsum]
  exact hnear

theorem score_pos (hi : i < s.layers.length) (h : 0 < (s.layerAt i).numTokens) : 0 < s.score i :=
  (score_near hi h).pos (referenceScore_pos hi h)

/-- What is lost where the rounded scores decide. -/
theorem referenceScore_le {j : ℕ} (hi : i < s.layers.length) (hpos : 0 < (s.layerAt i).numTokens)
    (hj : j < s.layers.length) (hpos' : 0 < (s.layerAt j).numTokens) (hle : s.score j ≤ s.score i) :
    s.referenceScore j ≤ (1 + 1 / 2 ^ 18) * s.referenceScore i := by
  have href := (referenceScore_pos hi hpos).le
  have hroundings : (1 + unitRoundoff) ^ 23 ≤ (1 - unitRoundoff) ^ 23 * (1 + 1 / 2 ^ 18) := by
    norm_num [unitRoundoff]
  have hchain : (1 - unitRoundoff) ^ 23 * s.referenceScore j ≤
      (1 - unitRoundoff) ^ 23 * ((1 + 1 / 2 ^ 18) * s.referenceScore i) := by
    calc (1 - unitRoundoff) ^ 23 * s.referenceScore j ≤ s.score j := (score_near hj hpos').lower
      _ ≤ s.score i := hle
      _ ≤ (1 + unitRoundoff) ^ 23 * s.referenceScore i := (score_near hi hpos).upper
      _ ≤ (1 - unitRoundoff) ^ 23 * (1 + 1 / 2 ^ 18) * s.referenceScore i :=
        mul_le_mul_of_nonneg_right hroundings href
      _ = (1 - unitRoundoff) ^ 23 * ((1 + 1 / 2 ^ 18) * s.referenceScore i) := by ring
  exact le_of_mul_le_mul_left hchain (pow_pos one_sub_pos 23)

/-! ### Runs -/

/-- A scheduler and the last reading of the clock. -/
structure State where
  scheduler : AdvancedLayerScheduler
  clock : ℤ
  deriving DecidableEq

inductive Call where
  | add (layerId numTokens : ℕ)
  | decide (cur : ℤ) (chosen : ℕ)

/-- Calls that add some tokens or decide. Readings do not go back and stay below `limit`. -/
inductive Step (limit : ℤ) : Call → State → State → Prop
  | add {s : State} {now : ℤ} {layerId numTokens : ℕ} {t : AdvancedLayerScheduler} (hpos : 0 < numTokens)
      (hnow : s.clock ≤ now) (hlimit : now < limit)
      (h : addTokensToLayer now layerId numTokens s.scheduler = .ok ⟨⟩ t) :
      Step limit (.add layerId numTokens) s ⟨t, now⟩
  | decide {s : State} {cur last : ℤ} {now : ℕ → ℤ} {chosen : ℕ} {t : AdvancedLayerScheduler}
      (hcur : s.clock ≤ cur) (hnow : ∀ i, cur ≤ now i ∧ now i ≤ last) (hlimit : last < limit)
      (h : schedule cur now s.scheduler = .ok chosen t) : Step limit (.decide cur chosen) s ⟨t, last⟩

/-- Readings of a run fit an `int` when counted from its start. -/
def Run (nLayers : ℕ) (holdSteps start : ℤ) : State → Prop :=
  Reach (· = ⟨create nLayers holdSteps, start⟩) fun s s' => ∃ call, Step (start + 2 ^ 31) call s s'

end AdvancedLayerScheduler

/-! ### The invariant -/

/-- What holds of a layer in a run that began at `start`. -/
structure LayerState.Valid (holdSteps start clock : ℤ) (l : LayerState) : Prop where
  idle : l.status = .idle ↔ l.numTokens = 0
  held : l.status = .hold → l.numStepsToHold ≤ holdSteps
  since : l.status = .ready ∨ l.status = .urgent → start ≤ l.readyTimestampMs ∧ l.readyTimestampMs ≤ clock

namespace LayerState.Valid

variable {holdSteps start clock cur now : ℤ} {l : LayerState}

theorem create : LayerState.create.Valid holdSteps start clock := by
  refine ⟨by simp [LayerState.create], ?_, ?_⟩ <;> simp [LayerState.create]

theorem later (h : l.Valid holdSteps start clock) {clock' : ℤ} (hle : clock ≤ clock') :
    l.Valid holdSteps start clock' :=
  ⟨h.idle, h.held, fun hs => ⟨(h.since hs).1, (h.since hs).2.trans hle⟩⟩

theorem setToIdle (l : LayerState) : l.setToIdle.Valid holdSteps start clock := by
  refine ⟨by simp [LayerState.setToIdle], ?_, ?_⟩ <;> simp [LayerState.setToIdle]

theorem setToReady (hpos : 0 < l.numTokens) (hstart : start ≤ now) (hnow : now ≤ clock) :
    (l.setToReady now).Valid holdSteps start clock := by
  refine ⟨?_, by simp [LayerState.setToReady], fun _ => ⟨hstart, hnow⟩⟩
  simp [LayerState.setToReady, hpos.ne']

theorem label (h : l.Valid holdSteps start clock) : (l.label cur).Valid holdSteps start clock := by
  unfold LayerState.label
  split_ifs with hready
  · have hpos : l.numTokens ≠ 0 := fun h₀ => by simp [h.idle.mpr h₀] at hready
    exact ⟨by simp [LayerState.setToUrgent, hpos], by simp [LayerState.setToUrgent],
      fun _ => h.since (.inl hready.1)⟩
  · exact h

theorem holdStep (h : l.Valid holdSteps start clock) (hstart : start ≤ now) (hnow : now ≤ clock) :
    (l.holdStep now).Valid holdSteps start clock := by
  unfold LayerState.holdStep
  split_ifs with hhold
  · have hpos : l.numTokens ≠ 0 := fun h₀ => by simp [h.idle.mpr h₀] at hhold
    dsimp only
    split_ifs
    · exact setToReady (Nat.pos_of_ne_zero hpos) hstart hnow
    · refine ⟨h.idle, fun _ => ?_, h.since⟩
      have hle := h.held hhold
      show l.numStepsToHold - 1 ≤ holdSteps
      omega
  · exact h

theorem addTokens (h : l.Valid holdSteps start clock) {numTokens : ℕ} (hpos : 0 < numTokens)
    (hstart : start ≤ now) (hnow : now ≤ clock) :
    (l.addTokens holdSteps now numTokens).Valid holdSteps start clock := by
  have hmore : l.numTokens + numTokens ≠ 0 := by omega
  have hready : ({ l with numTokens := l.numTokens + numTokens }.setToReady now).Valid holdSteps start clock :=
    setToReady (Nat.pos_of_ne_zero hmore) hstart hnow
  unfold LayerState.addTokens
  dsimp only
  split_ifs with hidle hmany hhold hmany
  · exact hready
  · refine ⟨?_, fun _ => le_rfl, by simp [LayerState.setToHold]⟩
    simp [LayerState.setToHold, hpos.ne']
  · exact hready
  · exact ⟨by simp [hidle, hpos.ne'], h.held, h.since⟩
  · exact ⟨by simp [hidle, hpos.ne'], h.held, h.since⟩

end LayerState.Valid

namespace AdvancedLayerScheduler

/-- Every layer is valid, and the clock is in range. -/
structure Inv (nLayers : ℕ) (holdSteps start : ℤ) (s : State) : Prop where
  steps : s.scheduler.holdSteps = holdSteps
  nLayers : s.scheduler.layers.length = nLayers
  started : start ≤ s.clock
  limit : s.clock < start + 2 ^ 31
  valid : ∀ i, (s.scheduler.layerAt i).Valid holdSteps start s.clock

variable {s : AdvancedLayerScheduler} {n i id : ℕ} {holdSteps start cur : ℤ} {a b : State}

theorem Inv.created : Inv n holdSteps start ⟨create n holdSteps, start⟩ where
  steps := rfl
  nLayers := List.length_replicate
  started := le_rfl
  limit := by
    show start < start + 2 ^ 31
    omega
  valid := fun i => by
    have hcreate : (create n holdSteps).layerAt i = .create := by
      rcases lt_or_ge i n with hi | hi
      · rw [layerAt_eq (by simpa [create] using hi)]
        simp [create]
      · exact layerAt_of_length_le (by simpa [create] using hi)
    rw [hcreate]
    exact .create

theorem layerAt_addTokens {now : ℤ} {k j : ℕ} (hi : i < s.layers.length) :
    ({ s with layers := s.layers.set i ((s.layerAt i).addTokens s.holdSteps now k) } :
      AdvancedLayerScheduler).layerAt j =
      if j = i then (s.layerAt i).addTokens s.holdSteps now k else s.layerAt j := by
  by_cases hj : j = i
  · subst hj
    rw [layerAt_eq (by simpa using hi), if_pos rfl]
    exact List.getElem_set_self _
  · rw [if_neg hj]
    show (s.layers.set i _).getD j .create = s.layers.getD j .create
    rw [List.getD_eq_getElem?_getD, List.getElem?_set_ne (Ne.symm hj), ← List.getD_eq_getElem?_getD]

/-- Each call keeps every layer valid. -/
theorem Inv.step {call : Call} (h : Inv n holdSteps start a) (hs : Step (start + 2 ^ 31) call a b) :
    Inv n holdSteps start b := by
  cases hs with
  | @add _ now layerId numTokens t hpos hnow hlimit hadd =>
    obtain ⟨hi, rfl⟩ := addTokensToLayer_ok_iff.mp hadd
    refine ⟨h.steps, by simpa using h.nLayers, h.started.trans hnow, hlimit, fun j => ?_⟩
    rw [layerAt_addTokens hi, h.steps]
    split_ifs
    · exact ((h.valid layerId).later hnow).addTokens hpos (h.started.trans hnow) le_rfl
    · exact (h.valid j).later hnow
  | @decide _ cur last now chosen t hcur hnow hlimit hdecide =>
    obtain ⟨-, -, rfl⟩ := schedule_ok_iff.mp hdecide
    have hlast : a.clock ≤ last := hcur.trans ((hnow 0).1.trans (hnow 0).2)
    refine ⟨h.steps, by simpa using h.nLayers, h.started.trans hlast, hlimit, fun j => ?_⟩
    rcases lt_or_ge j a.scheduler.layers.length with hj | hj
    · rw [layerAt_decided hj]
      split_ifs
      · exact .setToIdle _
      · exact (((h.valid j).later hlast).label).holdStep
          (h.started.trans (hcur.trans (hnow j).1)) (hnow j).2
    · rw [layerAt_of_length_le (by simpa using hj)]
      exact .create

theorem Run.inv (h : Run n holdSteps start a) : Inv n holdSteps start a := by
  refine Reach.invariant ?_ ?_ h
  · rintro _ rfl
    exact .created
  · rintro s s' hI ⟨call, hs⟩
    exact hI.step hs

/-! ### Decisions -/

/-- A layer that is urgent, or ready and becomes so at the reading. -/
def Overdue (s : AdvancedLayerScheduler) (cur : ℤ) (i : ℕ) : Prop :=
  (s.layerAt i).status = .urgent ∨
    (s.layerAt i).status = .ready ∧ LayerState.elapse cur (s.layerAt i).readyTimestampMs > 100

/-- The layer a decision takes: the overdue one that is ready longest, else a ready one of
largest score (and all but the largest exact score), else the first held one. -/
structure Takes (s : AdvancedLayerScheduler) (cur : ℤ) (id : ℕ) : Prop where
  tokens : id < s.layers.length ∧ 0 < (s.layerAt id).numTokens
  overdue : ∀ j, s.Overdue cur j →
    s.Overdue cur id ∧ (s.layerAt id).readyTimestampMs ≤ (s.layerAt j).readyTimestampMs
  ready : (∀ j, ¬ s.Overdue cur j) → ∀ j, (s.layerAt j).status = .ready →
    (s.layerAt id).status = .ready ∧ s.score j ≤ s.score id ∧
      s.referenceScore j ≤ (1 + 1 / 2 ^ 18) * s.referenceScore id
  held : (∀ j, ¬ s.Overdue cur j ∧ (s.layerAt j).status ≠ .ready) →
    (s.layerAt id).status = .hold ∧ ∀ j < id, (s.layerAt j).status ≠ .hold

theorem status_label_urgent_iff :
    ((s.layerAt i).label cur).status = .urgent ↔ s.Overdue cur i := by
  unfold LayerState.label Overdue
  split_ifs with h
  · simp only [LayerState.setToUrgent, true_iff]
    exact .inr h
  · constructor
    · exact .inl
    · rintro (hurgent | hready)
      · exact hurgent
      · exact absurd hready h

theorem status_label_ready_iff :
    ((s.layerAt i).label cur).status = .ready ↔ (s.layerAt i).status = .ready ∧ ¬ s.Overdue cur i := by
  unfold LayerState.label Overdue
  split_ifs with h
  · simp only [LayerState.setToUrgent, reduceCtorEq, false_iff, not_and, not_not]
    exact fun _ => .inr h
  · constructor
    · intro hready
      refine ⟨hready, ?_⟩
      rintro (hurgent | hlong)
      · simp [hready] at hurgent
      · exact h hlong
    · exact And.left

theorem status_label_hold_iff :
    ((s.layerAt i).label cur).status = .hold ↔ (s.layerAt i).status = .hold := by
  unfold LayerState.label
  split_ifs with h
  · simp [LayerState.setToUrgent, h.1]
  · rfl

theorem readyTimestampMs_label (l : LayerState) : (l.label cur).readyTimestampMs = l.readyTimestampMs := by
  unfold LayerState.label
  split_ifs <;> rfl

theorem lookahead_labelled (layerId j steps : ℕ) (decay score : ℚ) :
    (s.labelled cur).lookahead layerId j steps decay score = s.lookahead layerId j steps decay score := by
  induction steps generalizing j decay score with
  | zero => rfl
  | succ steps ih =>
    rw [lookahead, lookahead, ih, layerAt_labelled, numTokens_label, length_labelled]

theorem score_labelled : (s.labelled cur).score i = s.score i := by
  rw [score, score, lookahead_labelled, layerAt_labelled, numTokens_label]

theorem mem_withStatus_labelled_urgent :
    i ∈ (s.labelled cur).withStatus .urgent ↔ i < s.layers.length ∧ s.Overdue cur i := by
  rw [mem_withStatus, layerAt_labelled, length_labelled, status_label_urgent_iff]

theorem mem_withStatus_labelled_ready :
    i ∈ (s.labelled cur).withStatus .ready ↔
      i < s.layers.length ∧ (s.layerAt i).status = .ready ∧ ¬ s.Overdue cur i := by
  rw [mem_withStatus, layerAt_labelled, length_labelled, status_label_ready_iff]

theorem mem_withStatus_labelled_hold :
    i ∈ (s.labelled cur).withStatus .hold ↔ i < s.layers.length ∧ (s.layerAt i).status = .hold := by
  rw [mem_withStatus, layerAt_labelled, length_labelled, status_label_hold_iff]

theorem lt_length_of_status (h : (s.layerAt i).status ≠ .idle) : i < s.layers.length := by
  by_contra hge
  rw [layerAt_of_length_le (not_lt.mp hge)] at h
  exact h rfl

theorem Overdue.lt_length (h : s.Overdue cur i) : i < s.layers.length := by
  apply lt_length_of_status
  rcases h with h | h
  · simp [h]
  · simp [h.1]

/-- Where layers without tokens are the idle ones, the choice is as described. -/
theorem layerToSchedule_takes (hidle : ∀ i, (s.layerAt i).status = .idle ↔ (s.layerAt i).numTokens = 0)
    (h : (s.labelled cur).layerToSchedule = some id) : s.Takes cur id := by
  have htokens : ∀ i, (s.layerAt i).status ≠ .idle → 0 < (s.layerAt i).numTokens := fun i hi =>
    Nat.pos_of_ne_zero fun h₀ => hi ((hidle i).mpr h₀)
  unfold layerToSchedule at h
  split_ifs at h with hurgent hready
  · -- an urgent layer
    obtain ⟨id', hmem, hid, hmin⟩ := longestReady_spec (s := s.labelled cur) hurgent
    obtain rfl := Option.some_inj.mp (hid.symm.trans h)
    obtain ⟨hlt, hover⟩ := mem_withStatus_labelled_urgent.mp hmem
    refine ⟨⟨hlt, htokens _ ?_⟩, fun j hj => ⟨hover, ?_⟩, fun hno => absurd hover (hno _),
      fun hno => absurd hover (hno _).1⟩
    · rcases hover with hover | hover
      · simp [hover]
      · simp [hover.1]
    · have hle := hmin j (mem_withStatus_labelled_urgent.mpr ⟨hj.lt_length, hj⟩)
      rwa [layerAt_labelled, layerAt_labelled, readyTimestampMs_label, readyTimestampMs_label] at hle
  · -- a ready layer
    have hnone : ∀ j, ¬ s.Overdue cur j := fun j hj => hurgent fun hnil => by
      have hmem := mem_withStatus_labelled_urgent.mpr ⟨hj.lt_length, hj⟩
      rw [hnil] at hmem
      simp at hmem
    rcases bestReady_spec (s := s.labelled cur) ((s.labelled cur).withStatus .ready) with
      ⟨hbest, -⟩ | ⟨id', hmem, hbest, -, hmax⟩
    · rw [hbest] at h
      simp at h
    · rw [hbest] at h
      obtain rfl := Option.some_inj.mp h
      obtain ⟨hlt, hstatus, -⟩ := mem_withStatus_labelled_ready.mp hmem
      have hpos := htokens id' (by simp [hstatus])
      refine ⟨⟨hlt, hpos⟩, fun j hj => absurd hj (hnone j), fun _ j hj => ?_,
        fun hno => absurd hstatus (hno _).2⟩
      have hj' := lt_length_of_status (s := s) (i := j) (by simp [hj])
      have hle := hmax j (mem_withStatus_labelled_ready.mpr ⟨hj', hj, hnone j⟩)
      rw [score_labelled, score_labelled] at hle
      exact ⟨hstatus, hle, referenceScore_le hlt hpos hj' (htokens j (by simp [hj])) hle⟩
  · -- a held layer
    have hnone : ∀ j, ¬ s.Overdue cur j := fun j hj => hurgent fun hnil => by
      have hmem := mem_withStatus_labelled_urgent.mpr ⟨hj.lt_length, hj⟩
      rw [hnil] at hmem
      simp at hmem
    obtain ⟨hlt, hstatus⟩ := mem_withStatus_labelled_hold.mp (List.mem_of_mem_head? h)
    refine ⟨⟨hlt, htokens _ (by simp [hstatus])⟩, fun j hj => absurd hj (hnone j), fun _ j hj => ?_,
      fun _ => ⟨hstatus, fun j hj hhold => ?_⟩⟩
    · refine absurd ?_ hready
      intro hnil
      have hmem := mem_withStatus_labelled_ready.mpr
        ⟨lt_length_of_status (s := s) (i := j) (by simp [hj]), hj, hnone j⟩
      rw [hnil] at hmem
      simp at hmem
    · have hle := le_of_head?_withStatus h
        (mem_withStatus_labelled_hold.mpr ⟨lt_length_of_status (by simp [hhold]), hhold⟩)
      omega

/-- Rounding makes the scores of the first and the last layer equal; the exact score of the
last is larger. -/
example :
    layerToSchedule ⟨2, [285, 292, 273, 288, 257, 284].map fun n => ⟨.ready, n, 0, 0⟩⟩ = some 0 := by
  decide +kernel

/-- A layer with tokens is a choice. -/
theorem exists_layerToSchedule (hidle : ∀ i, (s.layerAt i).status = .idle ↔ (s.layerAt i).numTokens = 0)
    (hsome : ∃ i, 0 < (s.layerAt i).numTokens) :
    ∃ id, (s.labelled cur).layerToSchedule = some id := by
  obtain ⟨i, hi⟩ := hsome
  have hstatus : (s.layerAt i).status ≠ .idle := fun h => hi.ne' ((hidle i).mp h)
  have hlt := lt_length_of_status hstatus
  unfold layerToSchedule
  split_ifs with hurgent hready
  · obtain ⟨id, -, hid, -⟩ := longestReady_spec (s := s.labelled cur) hurgent
    exact ⟨id, hid⟩
  · rcases bestReady_spec (s := s.labelled cur) ((s.labelled cur).withStatus .ready) with
      ⟨-, hall⟩ | ⟨id, -, hbest, -⟩
    · obtain ⟨j, hj⟩ := List.exists_mem_of_ne_nil _ hready
      obtain ⟨hjlt, hjready, -⟩ := mem_withStatus_labelled_ready.mp hj
      have htokens : 0 < ((s.labelled cur).layerAt j).numTokens := by
        rw [layerAt_labelled, numTokens_label]
        exact Nat.pos_of_ne_zero fun h₀ => by simp [(hidle j).mpr h₀] at hjready
      exact absurd (hall j hj) (not_le.mpr (score_pos (by simpa using hjlt) htokens))
    · exact ⟨id, by rw [hbest]⟩
  · have hmem : i ∈ (s.labelled cur).withStatus .hold := by
      rw [mem_withStatus_labelled_hold]
      refine ⟨hlt, ?_⟩
      cases hi' : (s.layerAt i).status with
      | hold => rfl
      | ready =>
        by_cases hover : s.Overdue cur i
        · exact absurd (List.ne_nil_of_mem (mem_withStatus_labelled_urgent.mpr ⟨hlt, hover⟩)) hurgent
        · exact absurd (List.ne_nil_of_mem (mem_withStatus_labelled_ready.mpr ⟨hlt, hi', hover⟩)) hready
      | urgent =>
        exact absurd (List.ne_nil_of_mem (mem_withStatus_labelled_urgent.mpr ⟨hlt, .inl hi'⟩)) hurgent
      | idle => exact absurd hi' hstatus
    cases hlist : (s.labelled cur).withStatus .hold with
    | nil => simp [hlist] at hmem
    | cons id rest => exact ⟨id, rfl⟩

theorem layerToSchedule_eq_none (hnone : ∀ i, (s.layerAt i).status = .idle) :
    (s.labelled cur).layerToSchedule = none := by
  have hnil : ∀ status : LayerStatus, status ≠ .idle → (s.labelled cur).withStatus status = [] := by
    intro status hne
    rw [withStatus, List.filter_eq_nil_iff]
    intro i _
    have hidle : (s.layerAt i).label cur = s.layerAt i := by
      rw [LayerState.label, if_neg]
      simp [hnone i]
    simp [layerAt_labelled, hidle, hnone i, Ne.symm hne]
  simp [layerToSchedule, hnil]

/-- In every run a decision takes all tokens of the layer described, and no others. It reads the
layer -1 exactly when there are no tokens. -/
theorem Run.takes (h : Run n holdSteps start a) (cur : ℤ) (now : ℕ → ℤ) :
    ((∃ i, 0 < (a.scheduler.layerAt i).numTokens) →
      ∃ id s', schedule cur now a.scheduler = .ok id s' ∧ a.scheduler.Takes cur id ∧
        ∀ j, (s'.layerAt j).numTokens = if j = id then 0 else (a.scheduler.layerAt j).numTokens) ∧
    ((∀ i, (a.scheduler.layerAt i).numTokens = 0) →
      schedule cur now a.scheduler =
        .error (.outOfRange "num_tokens_in_layer[layer_to_schedule]") (a.scheduler.labelled cur)) := by
  have hidle : ∀ i, (a.scheduler.layerAt i).status = .idle ↔ (a.scheduler.layerAt i).numTokens = 0 :=
    fun i => (h.inv.valid i).idle
  constructor
  · intro hsome
    obtain ⟨id, hid⟩ := @exists_layerToSchedule _ cur hidle hsome
    have htakes := layerToSchedule_takes hidle hid
    refine ⟨id, _, schedule_ok_iff.mpr ⟨hid, htakes.tokens.2, rfl⟩, htakes, fun j => ?_⟩
    rcases lt_or_ge j a.scheduler.layers.length with hj | hj
    · rw [layerAt_decided hj]
      split_ifs
      · rfl
      · rw [numTokens_holdStep, numTokens_label]
    · rw [layerAt_of_length_le (by simpa using hj), layerAt_of_length_le hj]
      exact (ite_self 0).symm
  · intro hnone
    have hstatus : ∀ i, (a.scheduler.layerAt i).status = .idle := fun i => (hidle i).mpr (hnone i)
    have hlayer := @layerToSchedule_eq_none _ cur hstatus
    rw [labelled] at hlayer
    unfold schedule
    rw [bind_of_ok (a := ⟨⟩) (modify_ok_iff.mpr rfl), get_bind, hlayer]
    rfl

/-! ### Waiting layers -/

/-- A layer that is not held back any more. -/
def Waits (s : AdvancedLayerScheduler) (i : ℕ) : Prop :=
  (s.layerAt i).status = .ready ∨ (s.layerAt i).status = .urgent

theorem Waits.lt_length (h : s.Waits i) : i < s.layers.length := by
  apply lt_length_of_status
  rcases h with h | h <;> simp [h]

def Call.chosen : Call → Option ℕ
  | .add _ _ => none
  | .decide _ chosen => some chosen

def Call.chosenAfter (t : ℤ) : Call → Option ℕ
  | .add _ _ => none
  | .decide cur chosen => if t < cur then some chosen else none

/-- The layers that decisions take. -/
def decisions (calls : List Call) : List ℕ := calls.filterMap Call.chosen

/-- The layers that decisions after a reading take. -/
def decisionsAfter (t : ℤ) (calls : List Call) : List ℕ := calls.filterMap (Call.chosenAfter t)

theorem readyTimestampMs_holdStep {l : LayerState} (h : l.status ≠ .hold) (now : ℤ) : l.holdStep now = l := by
  rw [LayerState.holdStep, if_neg h]

theorem status_label_waits (l : LayerState) (h : l.status = .ready ∨ l.status = .urgent) :
    (l.label cur).status = .ready ∨ (l.label cur).status = .urgent := by
  unfold LayerState.label
  split_ifs
  · exact .inr rfl
  · exact h

theorem addTokens_of_waits {l : LayerState} {now : ℤ} {k : ℕ} (h : l.status = .ready ∨ l.status = .urgent) :
    l.addTokens holdSteps now k = { l with numTokens := l.numTokens + k } := by
  unfold LayerState.addTokens
  rcases h with h | h <;> simp [h]

theorem Step.clock_le {limit : ℤ} {call : Call} (hs : Step limit call a b) : a.clock ≤ b.clock := by
  cases hs with
  | add _ hnow _ _ => exact hnow
  | decide hcur hnow _ _ => exact hcur.trans ((hnow 0).1.trans (hnow 0).2)

/-- A layer that waits does so, ready since the same reading, until a decision takes it. -/
theorem Step.waits {limit : ℤ} {call : Call} (hs : Step limit call a b) (h : a.scheduler.Waits i)
    (hnot : call.chosen ≠ some i) :
    b.scheduler.Waits i ∧
      (b.scheduler.layerAt i).readyTimestampMs = (a.scheduler.layerAt i).readyTimestampMs := by
  cases hs with
  | @add _ now layerId numTokens t _ _ _ hadd =>
    obtain ⟨hi, rfl⟩ := addTokensToLayer_ok_iff.mp hadd
    unfold Waits
    dsimp only
    rw [layerAt_addTokens hi]
    split_ifs with heq
    · subst heq
      rw [addTokens_of_waits h]
      exact ⟨h, rfl⟩
    · exact ⟨h, rfl⟩
  | @decide _ cur last now chosen t _ _ _ hdecide =>
    obtain ⟨-, -, rfl⟩ := schedule_ok_iff.mp hdecide
    have hne : i ≠ chosen := fun heq => hnot (congrArg some heq.symm)
    have hstatus := @status_label_waits cur (a.scheduler.layerAt i) h
    unfold Waits
    dsimp only
    rw [layerAt_decided h.lt_length, if_neg hne, readyTimestampMs_holdStep
      (by rcases hstatus with hs | hs <;> simp [hs])]
    exact ⟨hstatus, readyTimestampMs_label _⟩

theorem waits_of_label {l : LayerState}
    (h : (l.label cur).status = .ready ∨ (l.label cur).status = .urgent) :
    l.status = .ready ∨ l.status = .urgent := by
  unfold LayerState.label at h
  split_ifs at h with hready
  · exact .inl hready.1
  · exact h

/-- The loop over held layers makes a layer wait from its reading on. -/
theorem holdStep_of_since {l : LayerState} {now t : ℤ} (ht : t < now)
    (h : (l.holdStep now).status = .ready ∨ (l.holdStep now).status = .urgent)
    (hsince : (l.holdStep now).readyTimestampMs ≤ t) : l.holdStep now = l := by
  unfold LayerState.holdStep at h hsince ⊢
  split_ifs with hhold
  · rw [if_pos hhold] at h hsince
    dsimp only at h hsince ⊢
    split_ifs at h hsince with hsteps
    · simp only [LayerState.setToReady] at hsince
      omega
    · simp [hhold] at h
  · rfl

/-- An addition makes a layer wait from its reading on. -/
theorem waits_of_addTokens {l : LayerState} {now t : ℤ} {k : ℕ} (ht : t < now)
    (h : (l.addTokens holdSteps now k).status = .ready ∨ (l.addTokens holdSteps now k).status = .urgent)
    (hsince : (l.addTokens holdSteps now k).readyTimestampMs ≤ t) :
    (l.status = .ready ∨ l.status = .urgent) := by
  unfold LayerState.addTokens at h hsince
  dsimp only at h hsince
  split_ifs at h hsince with hidle hmany hhold hmany
  · simp only [LayerState.setToReady] at hsince
    omega
  · simp [LayerState.setToHold] at h
  · simp only [LayerState.setToReady] at hsince
    omega
  · simp [hhold] at h
  · exact h

/-- A layer that waits since a reading before the call did so before it. -/
theorem Step.waited {limit : ℤ} {call : Call} (hs : Step limit call a b) {t : ℤ}
    (ht : t < a.clock ∨ ∃ cur chosen, call = .decide cur chosen ∧ t < cur) (h : b.scheduler.Waits i)
    (hi : (b.scheduler.layerAt i).readyTimestampMs ≤ t) :
    a.scheduler.Waits i ∧
      (a.scheduler.layerAt i).readyTimestampMs = (b.scheduler.layerAt i).readyTimestampMs ∧
      call.chosen ≠ some i := by
  cases hs with
  | @add _ now layerId numTokens t' _ hnow _ hadd =>
    have hlater : t < now := by
      rcases ht with ht | ⟨_, _, heq, -⟩
      · exact ht.trans_le hnow
      · cases heq
    obtain ⟨hlt, rfl⟩ := addTokensToLayer_ok_iff.mp hadd
    unfold Waits at h ⊢
    dsimp only at h hi ⊢
    rw [layerAt_addTokens hlt] at h hi ⊢
    split_ifs at h hi ⊢ with heq
    · subst heq
      have hwaits := waits_of_addTokens hlater h hi
      rw [addTokens_of_waits hwaits]
      exact ⟨hwaits, rfl, by simp [Call.chosen]⟩
    · exact ⟨h, rfl, by simp [Call.chosen]⟩
  | @decide _ cur last now chosen t' hcur hnow _ hdecide =>
    have hlater : t < now i := by
      rcases ht with ht | ⟨_, _, heq, ht⟩
      · exact ht.trans_le (hcur.trans (hnow i).1)
      · cases heq
        exact ht.trans_le (hnow i).1
    obtain ⟨-, -, rfl⟩ := schedule_ok_iff.mp hdecide
    have hlt : i < a.scheduler.layers.length := by simpa using h.lt_length
    unfold Waits at h ⊢
    dsimp only at h hi ⊢
    rw [layerAt_decided hlt] at h hi ⊢
    split_ifs at h hi ⊢ with heq
    · simp [LayerState.setToIdle] at h
    · have hsame := holdStep_of_since hlater h hi
      rw [hsame] at h ⊢
      exact ⟨waits_of_label h, (readyTimestampMs_label _).symm, fun hc => heq (Option.some_inj.mp hc).symm⟩

/-- The other layers that wait at least as long as a layer. -/
def ahead (s : AdvancedLayerScheduler) (i : ℕ) : Finset ℕ :=
  {j ∈ Finset.range s.layers.length |
    j ≠ i ∧ ((s.layerAt j).status = .ready ∨ (s.layerAt j).status = .urgent) ∧
      (s.layerAt j).readyTimestampMs ≤ (s.layerAt i).readyTimestampMs}

theorem mem_ahead {j : ℕ} :
    j ∈ s.ahead i ↔
      j ≠ i ∧ s.Waits j ∧ (s.layerAt j).readyTimestampMs ≤ (s.layerAt i).readyTimestampMs := by
  simp only [ahead, Finset.mem_filter, Finset.mem_range]
  exact ⟨And.right, fun h => ⟨h.2.1.lt_length, h⟩⟩

theorem card_ahead_lt (hi : i < s.layers.length) : (s.ahead i).card + 1 ≤ s.layers.length := by
  have hsub : s.ahead i ⊆ (Finset.range s.layers.length).erase i := by
    intro j hj
    obtain ⟨hne, hwaits, -⟩ := mem_ahead.mp hj
    exact Finset.mem_erase.mpr ⟨hne, Finset.mem_range.mpr hwaits.lt_length⟩
  have hcard := Finset.card_le_card hsub
  rw [Finset.card_erase_of_mem (Finset.mem_range.mpr hi), Finset.card_range] at hcard
  omega

/-- No layer gets ahead of one that waits since before a call. -/
theorem Step.ahead_subset {limit : ℤ} {call : Call} (hs : Step limit call a b) (h : a.scheduler.Waits i)
    (hnot : call.chosen ≠ some i)
    (ht : (a.scheduler.layerAt i).readyTimestampMs < a.clock ∨
      ∃ cur chosen, call = .decide cur chosen ∧ (a.scheduler.layerAt i).readyTimestampMs < cur) :
    ∀ j ∈ b.scheduler.ahead i, j ∈ a.scheduler.ahead i ∧ call.chosen ≠ some j := by
  intro j hj
  obtain ⟨hne, hwaits, hle⟩ := mem_ahead.mp hj
  rw [(hs.waits h hnot).2] at hle
  obtain ⟨hbefore, hsince, hchosen⟩ := hs.waited ht hwaits hle
  exact ⟨mem_ahead.mpr ⟨hne, hbefore, hsince ▸ hle⟩, hchosen⟩

/-- Counted from the start of the run, a wait fits an `int`. -/
theorem Inv.elapse_eq (h : Inv n holdSteps start a) (hi : a.scheduler.Waits i) (hle : a.clock ≤ cur)
    (hlimit : cur < start + 2 ^ 31) :
    LayerState.elapse cur (a.scheduler.layerAt i).readyTimestampMs =
      cur - (a.scheduler.layerAt i).readyTimestampMs := by
  obtain ⟨hstart, hclock⟩ := (h.valid i).since hi
  unfold LayerState.elapse
  apply Int.bmod_eq_of_le
  · norm_num
    omega
  · norm_num at hlimit ⊢
    omega

/-- A decision made long after a layer became ready takes it or one ahead of it. -/
theorem Inv.decide_late {now : ℕ → ℤ} {chosen : ℕ} {t : AdvancedLayerScheduler}
    (h : Inv n holdSteps start a) (hi : a.scheduler.Waits i) (hcur : a.clock ≤ cur)
    (hlimit : cur < start + 2 ^ 31) (hlate : (a.scheduler.layerAt i).readyTimestampMs + 100 < cur)
    (hs : schedule cur now a.scheduler = .ok chosen t) (hne : chosen ≠ i) :
    chosen ∈ a.scheduler.ahead i := by
  obtain ⟨hid, -, -⟩ := schedule_ok_iff.mp hs
  have htakes := layerToSchedule_takes (fun j => (h.valid j).idle) hid
  have hover : a.scheduler.Overdue cur i := by
    rcases hi with hready | hurgent
    · refine .inr ⟨hready, ?_⟩
      rw [h.elapse_eq (.inl hready) hcur hlimit]
      omega
    · exact .inl hurgent
  obtain ⟨hchosen, hle⟩ := htakes.overdue i hover
  refine mem_ahead.mpr ⟨hne, ?_, hle⟩
  rcases hchosen with hurgent | hready
  · exact .inr hurgent
  · exact .inl hready.1

theorem decisions_cons (call : Call) (calls : List Call) :
    i ∉ decisions (call :: calls) ↔ call.chosen ≠ some i ∧ i ∉ decisions calls := by
  unfold decisions
  rw [List.filterMap_cons]
  cases h : call.chosen with
  | none => simp
  | some j =>
    rw [List.mem_cons, not_or]
    exact and_congr_left fun _ => by simp [eq_comm]

/-- The decisions after a waiting time that pass over a layer each take one ahead of it. -/
theorem Inv.length_decisionsAfter_lt {r : ℤ} {calls : List Call} (h : Inv n holdSteps start a)
    (hi : a.scheduler.Waits i) (hr : (a.scheduler.layerAt i).readyTimestampMs ≤ r)
    (hnot : i ∉ decisions calls) (hrun : RunsTo (Step (start + 2 ^ 31)) calls a b) :
    ((a.scheduler.layerAt i).readyTimestampMs < a.clock →
      (decisionsAfter (r + 100) calls).length ≤ (a.scheduler.ahead i).card) ∧
    (decisionsAfter (r + 100) calls).length < n := by
  induction calls generalizing a with
  | nil =>
    have hlt := hi.lt_length
    rw [h.nLayers] at hlt
    exact ⟨fun _ => Nat.zero_le _, (Nat.zero_le i).trans_lt hlt⟩
  | cons call calls ih =>
    obtain ⟨mid, hs, hrest⟩ := hrun
    obtain ⟨hcall, hcalls⟩ := (decisions_cons call calls).mp hnot
    obtain ⟨hwaits, hsince⟩ := hs.waits hi hcall
    obtain ⟨hahead, hbound⟩ := ih (h.step hs) hwaits (hsince ▸ hr) hcalls hrest
    rw [hsince] at hahead
    have hclock : a.clock ≤ mid.clock := hs.clock_le
    cases hafter : call.chosenAfter (r + 100) with
    | none =>
      rw [decisionsAfter, List.filterMap_cons, hafter]
      refine ⟨fun hlt => ?_, hbound⟩
      exact (hahead (hlt.trans_le hclock)).trans
        (Finset.card_le_card fun j hj => (hs.ahead_subset hi hcall (.inl hlt) j hj).1)
    | some chosen =>
      rw [decisionsAfter, List.filterMap_cons, hafter, List.length_cons]
      cases hs with
      | add => simp [Call.chosenAfter] at hafter
      | @decide _ cur last now chosen' t hcur hnow hlimit hdecide =>
        have hlate : r + 100 < cur := by
          by_contra hle
          simp [Call.chosenAfter, hle] at hafter
        have hmem := h.decide_late hi hcur (((hnow 0).1.trans (hnow 0).2).trans_lt hlimit) (by omega)
          hdecide (fun heq => hcall (congrArg some heq))
        have hstep : Step (start + 2 ^ 31) (.decide cur chosen') a ⟨t, last⟩ :=
          .decide hcur hnow hlimit hdecide
        have hsub := hstep.ahead_subset hi hcall (.inr ⟨cur, chosen', rfl, by omega⟩)
        have hcard : (t.ahead i).card < (a.scheduler.ahead i).card := by
          refine Finset.card_lt_card (Finset.ssubset_iff_of_subset (fun j hj => (hsub j hj).1) |>.mpr ?_)
          exact ⟨chosen', hmem, fun hin => (hsub chosen' hin).2 rfl⟩
        have hfew := hahead (by
          have := (hnow 0).1.trans (hnow 0).2
          show _ < last
          omega)
        have hall := card_ahead_lt hi.lt_length
        rw [h.nLayers] at hall
        show (_ → (decisionsAfter (r + 100) calls).length + 1 ≤ _) ∧
          (decisionsAfter (r + 100) calls).length + 1 < n
        refine ⟨fun _ => ?_, ?_⟩ <;> dsimp only at hfew <;> omega

/-! ### Held layers -/

/-- A layer that waits, or is held after `k` decisions. -/
def Progress (holdSteps : ℤ) (s : AdvancedLayerScheduler) (i k : ℕ) : Prop :=
  s.Waits i ∨ (s.layerAt i).status = .hold ∧ (s.layerAt i).numStepsToHold ≤ holdSteps - k ∧
    (0 < k → 0 < (s.layerAt i).numStepsToHold)

theorem addTokens_of_hold {l : LayerState} {now : ℤ} {k : ℕ} (h : l.status = .hold) :
    (l.addTokens holdSteps now k).status = .ready ∨
      (l.addTokens holdSteps now k).status = .hold ∧
        (l.addTokens holdSteps now k).numStepsToHold = l.numStepsToHold := by
  unfold LayerState.addTokens
  rw [if_neg (by simp [h]), if_pos (by simp [h])]
  split_ifs
  · exact .inl rfl
  · exact .inr ⟨h, rfl⟩

theorem holdStep_of_hold {l : LayerState} {now : ℤ} (h : l.status = .hold) :
    (l.holdStep now).status = .ready ∨
      (l.holdStep now).status = .hold ∧ (l.holdStep now).numStepsToHold = l.numStepsToHold - 1 ∧
        0 < (l.holdStep now).numStepsToHold := by
  unfold LayerState.holdStep
  rw [if_pos h]
  dsimp only
  split_ifs with hsteps
  · exact .inl rfl
  · exact .inr ⟨h, rfl, not_le.mp hsteps⟩

/-- Each decision that passes over a held layer brings it nearer to waiting. -/
theorem Step.progress {limit : ℤ} {call : Call} {k : ℕ} (hs : Step limit call a b)
    (h : Progress holdSteps a.scheduler i k) (hnot : call.chosen ≠ some i) :
    Progress holdSteps b.scheduler i (k + call.chosen.toList.length) := by
  rcases h with hwaits | ⟨hhold, hsteps, hpos⟩
  · exact .inl (hs.waits hwaits hnot).1
  · have hlt : i < a.scheduler.layers.length := lt_length_of_status (by simp [hhold])
    cases hs with
    | @add _ now layerId numTokens t _ _ _ hadd =>
      obtain ⟨hi, rfl⟩ := addTokensToLayer_ok_iff.mp hadd
      unfold Progress Waits
      dsimp only
      rw [layerAt_addTokens hi]
      split_ifs with heq
      · subst heq
        rcases @addTokens_of_hold a.scheduler.holdSteps _ now numTokens hhold with
          hready | ⟨hhold', hsteps'⟩
        · exact .inl (.inl hready)
        · rw [hsteps']
          exact .inr ⟨hhold', hsteps, hpos⟩
      · exact .inr ⟨hhold, hsteps, hpos⟩
    | @decide _ cur last now chosen t _ _ _ hdecide =>
      obtain ⟨-, -, rfl⟩ := schedule_ok_iff.mp hdecide
      have hne : i ≠ chosen := fun heq => hnot (congrArg some heq.symm)
      have hlabel : (a.scheduler.layerAt i).label cur = a.scheduler.layerAt i := by
        rw [LayerState.label, if_neg (by simp [hhold])]
      unfold Progress Waits
      dsimp only
      rw [layerAt_decided hlt, if_neg hne, hlabel]
      rcases @holdStep_of_hold _ (now i) hhold with hready | ⟨hhold', hsteps', hpos'⟩
      · exact .inl (.inl hready)
      · refine .inr ⟨hhold', ?_, fun _ => hpos'⟩
        rw [hsteps']
        simp only [Call.chosen, Option.toList_some, List.length_singleton]
        push_cast
        omega

theorem length_decisions_cons (call : Call) (calls : List Call) :
    (decisions (call :: calls)).length = call.chosen.toList.length + (decisions calls).length := by
  unfold decisions
  rw [List.filterMap_cons]
  cases call.chosen with
  | none => simp
  | some j => simp [add_comm]

theorem progress_of_runsTo {limit : ℤ} {calls : List Call} {k : ℕ} (h : Progress holdSteps a.scheduler i k)
    (hnot : i ∉ decisions calls) (hrun : RunsTo (Step limit) calls a b) :
    Progress holdSteps b.scheduler i (k + (decisions calls).length) := by
  induction calls generalizing a k with
  | nil =>
    obtain rfl : b = a := hrun
    exact h
  | cons call calls ih =>
    obtain ⟨mid, hs, hrest⟩ := hrun
    obtain ⟨hcall, hcalls⟩ := (decisions_cons call calls).mp hnot
    rw [length_decisions_cons, ← Nat.add_assoc]
    exact ih (hs.progress h hcall) hcalls hrest

theorem Inv.of_runsTo {calls : List Call} (h : Inv n holdSteps start a)
    (hrun : RunsTo (Step (start + 2 ^ 31)) calls a b) : Inv n holdSteps start b := by
  induction calls generalizing a with
  | nil =>
    obtain rfl : b = a := hrun
    exact h
  | cons call calls ih =>
    obtain ⟨mid, hs, hrest⟩ := hrun
    exact ih (h.step hs) hrest

/-- No layer with tokens starves. After the decisions of its hold, `n` decisions made more than
the waiting time later take it, if none before did. -/
theorem Run.serves {c : State} {holding rest : List Call} (h : Run n holdSteps start a)
    (hi : 0 < (a.scheduler.layerAt i).numTokens)
    (hholding : RunsTo (Step (start + 2 ^ 31)) holding a b)
    (hheld : max 1 holdSteps ≤ (decisions holding).length)
    (hrest : RunsTo (Step (start + 2 ^ 31)) rest b c)
    (hlate : n ≤ (decisionsAfter (b.clock + 100) rest).length) :
    i ∈ decisions holding ∨ i ∈ decisions rest := by
  by_contra hnot
  obtain ⟨hnot₁, hnot₂⟩ := not_or.mp hnot
  have hvalid := h.inv.valid i
  have hstart : Progress holdSteps a.scheduler i 0 := by
    cases hstatus : (a.scheduler.layerAt i).status with
    | hold =>
      refine .inr ⟨hstatus, ?_, fun hk => absurd hk (lt_irrefl 0)⟩
      simpa using hvalid.held hstatus
    | ready => exact .inl (.inl hstatus)
    | urgent => exact .inl (.inr hstatus)
    | idle => exact absurd (hvalid.idle.mp hstatus) hi.ne'
  have hinv : Inv n holdSteps start b := h.inv.of_runsTo hholding
  have hwaits : b.scheduler.Waits i := by
    rcases progress_of_runsTo hstart hnot₁ hholding with hwaits | ⟨-, hsteps, hpos⟩
    · exact hwaits
    · have hpos := hpos (by omega)
      push_cast at hsteps
      omega
  have hsince := ((hinv.valid i).since hwaits).2
  have hfew := (hinv.length_decisionsAfter_lt hwaits hsince hnot₂ hrest).2
  omega

/-- A layer with many tokens and one that is held. -/
def twoLayers : State :=
  ⟨⟨1, [⟨.ready, 300, 0, 0⟩, ⟨.hold, 5, 1, 0⟩]⟩, 0⟩

theorem twoLayers_run : Run 2 1 0 twoLayers := by
  have hfirst : Step (0 + 2 ^ 31) (.add 0 300) ⟨create 2 1, 0⟩ ⟨⟨1, [⟨.ready, 300, 0, 0⟩, .create]⟩, 0⟩ :=
    .add (by decide) le_rfl (by decide) (addTokensToLayer_ok_iff.mpr ⟨by decide, by decide +kernel⟩)
  have hsecond : Step (0 + 2 ^ 31) (.add 1 5) ⟨⟨1, [⟨.ready, 300, 0, 0⟩, .create]⟩, 0⟩ twoLayers :=
    .add (by decide) le_rfl (by decide) (addTokensToLayer_ok_iff.mpr ⟨by decide, by decide +kernel⟩)
  exact Reach.next (Reach.next (Reach.start rfl) ⟨_, hfirst⟩) ⟨_, hsecond⟩

theorem takes_twoLayers :
    ∃ id s', schedule 10 (fun _ => 10) twoLayers.scheduler = .ok id s' ∧
      twoLayers.scheduler.Takes 10 id ∧
        ∀ j, (s'.layerAt j).numTokens = if j = id then 0 else (twoLayers.scheduler.layerAt j).numTokens :=
  (twoLayers_run.takes 10 fun _ => 10).1 ⟨1, by decide⟩

/-- The held layer is passed over once and is taken in the first decision after its wait. -/
theorem serves_twoLayers :
    1 ∈ decisions [.decide 10 0] ∨ 1 ∈ decisions [.add 0 300, .decide 200 1, .decide 300 0] := by
  refine twoLayers_run.serves (i := 1) (by decide)
    (b := ⟨⟨1, [⟨.idle, 0, 0, 0⟩, ⟨.ready, 5, 0, 10⟩]⟩, 10⟩)
    (c := ⟨⟨1, [⟨.idle, 0, 0, 20⟩, ⟨.idle, 0, 0, 10⟩]⟩, 300⟩) ?_ (by decide) ?_ (by decide)
  · exact ⟨_, .decide (show (0 : ℤ) ≤ 10 by decide) (fun _ => ⟨le_rfl, le_rfl⟩)
      (by decide) (schedule_ok_iff.mpr ⟨by decide +kernel, by decide, rfl⟩), show (_ : State) = _ by decide +kernel⟩
  · refine ⟨_, .add (by decide) (show (10 : ℤ) ≤ 20 by decide) (by decide)
      (addTokensToLayer_ok_iff.mpr ⟨by decide, rfl⟩), ?_⟩
    refine ⟨_, .decide (show (20 : ℤ) ≤ 200 by decide) (fun _ => ⟨le_rfl, le_rfl⟩)
      (by decide) (schedule_ok_iff.mpr ⟨by decide +kernel, by decide +kernel, rfl⟩), ?_⟩
    exact ⟨_, .decide (show (200 : ℤ) ≤ 300 by decide) (fun _ => ⟨le_rfl, le_rfl⟩)
      (by decide) (schedule_ok_iff.mpr ⟨by decide +kernel, by decide +kernel, rfl⟩),
      show (_ : State) = _ by decide +kernel⟩

end AdvancedLayerScheduler

end StreamInfer.Pool
