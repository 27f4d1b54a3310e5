import StreamInfer.Pool.UnifiedLayer

/-! The layer schedulers of the unified pool: attention layers and then expert
layers in one list, gets from a layer by index, and the two policies that pick
one. First-layer-first-serve walks the layers in pipeline order; the defragging
policy scores a layer by its tokens and those waiting behind it. Scores are
exact fractions. -/

namespace StreamInfer.Pool

open General General.Stateful Batch

variable {W R : Type}

/-- The state of the defragging policy. -/
structure Defrag where
  lookbackSteps : ℕ
  lookaheadSteps : ℕ
  weightDecay : ℚ
  historyTokensInLayer : List (List ℤ)
  sumHistoryTokensInLayer : List ℤ
  deriving DecidableEq

structure LayerScheduler (W R : Type) where
  numAttnLayers : ℕ
  numExpertLayers : ℕ
  topK : ℕ
  attnUseTokenQueue : Bool
  /-- Attention layers first, then expert layers. -/
  layers : List (UnifiedLayer W R)
  /-- Without it the policy is first-layer-first-serve. -/
  defrag : Option Defrag
  deriving DecidableEq

namespace LayerScheduler

abbrev SchedulerM (W R : Type) := EStateM Fault (LayerScheduler W R)

def numLayers (s : LayerScheduler W R) : ℕ := s.numAttnLayers + s.numExpertLayers

def new (numAttnLayers numExpertLayers topk : ℕ) (defrag : Option Defrag) : LayerScheduler W R where
  numAttnLayers := numAttnLayers
  numExpertLayers := numExpertLayers
  topK := if 0 < topk then topk else 1
  attnUseTokenQueue := 1 < topk
  layers := (List.range numAttnLayers).map UnifiedLayer.create ++
    (List.range numExpertLayers).map UnifiedLayer.create
  defrag := defrag

/-- The constructor of the defragging scheduler; histories are kept when it looks back. -/
def newDefrag (numAttnLayers numExpertLayers topk lookbackSteps lookaheadSteps : ℕ) (weightDecay : ℚ) :
    LayerScheduler W R :=
  new numAttnLayers numExpertLayers topk (some
    { lookbackSteps := lookbackSteps
      lookaheadSteps := lookaheadSteps
      weightDecay := weightDecay
      historyTokensInLayer :=
        if 0 < lookbackSteps then List.replicate (numAttnLayers + numExpertLayers) [] else []
      sumHistoryTokensInLayer :=
        if 0 < lookbackSteps then List.replicate (numAttnLayers + numExpertLayers) 0 else [] })

def isAttnLayer (s : LayerScheduler W R) (layerId : ℤ) : Bool := layerId < s.numAttnLayers

def layerUsesTokenQueue (s : LayerScheduler W R) (layerId : ℤ) : Bool :=
  s.attnUseTokenQueue && s.isAttnLayer layerId && 0 < layerId

/-- An operation of `layers[i]`. -/
def onLayer {α : Type} (i : ℕ) (x : UnifiedLayer.LayerM W R α) : SchedulerM W R α := fun s =>
  match s.layers[i]? with
  | none => .error (.outOfRange "layers[i]") s
  | some l =>
    match x l with
    | .ok a l' => .ok a { s with layers := s.layers.set i l' }
    | .error e l' => .error e { s with layers := s.layers.set i l' }

def onAttnLayer {α : Type} (i : ℕ) (x : UnifiedLayer.LayerM W R α) : SchedulerM W R α := do
  if i < (← get).numAttnLayers then onLayer i x else throw (.outOfRange "attn_layers[i]")

def onExpertLayer {α : Type} (i : ℕ) (x : UnifiedLayer.LayerM W R α) : SchedulerM W R α := do
  let s ← get
  if i < s.numExpertLayers then onLayer (s.numAttnLayers + i) x
  else throw (.outOfRange "expert_layers[i]")

def attnAddTokens (layerId : ℕ) (tokens : List (TokenTopKInfo R)) : SchedulerM W R Unit :=
  onAttnLayer layerId (UnifiedLayer.addTokens tokens)

def addBatch (batch : TokenBatch W R) : SchedulerM W R Unit :=
  if batch.metadata.isAttention then
    onAttnLayer batch.metadata.layerId (UnifiedLayer.addBatch batch)
  else if batch.metadata.isExpert then
    onExpertLayer batch.metadata.layerId (UnifiedLayer.addBatch batch)
  else throw (.assertion "Invalid batch metadata")

/-- The value of a call that keeps no state. -/
def returned {σ α : Type} (x : Except Fault α) : EStateM Fault σ α :=
  match x with
  | .ok a => pure a
  | .error e => throw e

/-- `none` is the batch without data. -/
def getBatchFromLayer [Zero W] [Row R] (S : ComparatorSort) (layerId : ℤ) :
    SchedulerM W R (Option (TokenBatch W R)) := do
  let s ← get
  if layerId < 0 ∨ layerId ≥ (s.numAttnLayers + s.numExpertLayers : ℕ) then return none
  else if s.layerUsesTokenQueue layerId then
    let tokens ← onLayer layerId.toNat UnifiedLayer.getAllTokens
    let batch ← returned (TokenBatch.packTopkTokens S layerId.toNat tokens)
    return some batch
  else
    let batches ← onLayer layerId.toNat UnifiedLayer.getAllBatches
    returned (TokenBatch.merge batches)

def getBatchFromLayerRestricted [Zero W] [Row R] (S : ComparatorSort) (layerId tokenThreshold : ℤ) :
    SchedulerM W R (Option (TokenBatch W R)) := do
  let s ← get
  if layerId < 0 ∨ layerId ≥ (s.numAttnLayers + s.numExpertLayers : ℕ) then return none
  else if s.layerUsesTokenQueue layerId then
    let tokens ← onLayer layerId.toNat (UnifiedLayer.getTokensRestricted tokenThreshold)
    let batch ← returned (TokenBatch.packTopkTokens S layerId.toNat tokens)
    return some batch
  else
    let batches ← onLayer layerId.toNat (UnifiedLayer.getBatchesRestricted tokenThreshold)
    returned (TokenBatch.merge batches)

/-! ### Policies -/

/-- `layers[i]->get_num_tokens()`. -/
def numTokensAt (s : LayerScheduler W R) (i : ℕ) : ℤ := (s.layers[i]?).elim 0 (·.numTokens)

/-- `layers[i]->get_layer_id()`. -/
def layerIdOf (s : LayerScheduler W R) (i : ℕ) : ℕ := (s.layers[i]?).elim 0 (·.layerId)

def getPoolSnapshot (s : LayerScheduler W R) : List ℤ :=
  (List.range s.numLayers).map s.numTokensAt

/-- First-layer-first-serve: attention layer, then expert layer of each index. -/
def flfsSchedule (s : LayerScheduler W R) : ℤ :=
  ((List.range s.numAttnLayers).findSome? fun i =>
    if 0 < s.numTokensAt i then some (s.layerIdOf i : ℤ)
    else if i < s.numExpertLayers ∧ 0 < s.numTokensAt (s.numAttnLayers + i) then
      some ((s.layerIdOf (s.numAttnLayers + i) + s.numAttnLayers : ℕ) : ℤ)
    else none).getD (-1)

/-- Expert tokens count a fraction. -/
def getEffectiveTokens (s : LayerScheduler W R) (layerIdx : ℕ) (rawTokens : ℤ) : ℚ :=
  if rawTokens ≤ 0 then 0
  else if layerIdx < s.numAttnLayers ∨ s.topK ≤ 1 then rawTokens
  else rawTokens / s.topK

def toPipelinePos (s : LayerScheduler W R) (unifiedIdx : ℕ) : ℕ :=
  if unifiedIdx < s.numAttnLayers then 2 * unifiedIdx else 2 * (unifiedIdx - s.numAttnLayers) + 1

def fromPipelinePos (s : LayerScheduler W R) (pos : ℕ) : ℕ :=
  if pos % 2 = 0 then pos / 2 else s.numAttnLayers + pos / 2

/-- The mean of the layer's window, if it is positive. -/
def historyScore (d : Defrag) (curLayer : ℕ) : ℚ :=
  let window := d.historyTokensInLayer.getD curLayer []
  let total := d.sumHistoryTokensInLayer.getD curLayer 0
  if 0 < d.lookbackSteps ∧ d.historyTokensInLayer ≠ [] ∧ window ≠ [] ∧ 0 < total then
    (total : ℚ) / window.length
  else 0

/-- The loop from `k` on with `steps` steps left. -/
def lookaheadScore (s : LayerScheduler W R) (d : Defrag) (pipePos : ℕ) : ℕ → ℕ → ℚ → ℚ
  | _, 0, _ => 0
  | k, steps + 1, decay =>
    let curLayer := s.fromPipelinePos ((pipePos + k) % s.numLayers)
    (s.getEffectiveTokens curLayer (s.numTokensAt curLayer) + historyScore d curLayer) * decay +
      lookaheadScore s d pipePos (k + 1) steps (decay * d.weightDecay)

def score (s : LayerScheduler W R) (d : Defrag) (i : ℕ) : ℚ :=
  let immediate := s.getEffectiveTokens i (s.numTokensAt i)
  if immediate ≤ 0 then 0
  else s.lookaheadScore d (s.toPipelinePos i) 1 (d.lookaheadSteps - 1) d.weightDecay + immediate

/-- The first layer with the largest positive score. -/
def bestLayer (s : LayerScheduler W R) (d : Defrag) : ℚ × ℤ :=
  (List.range s.numLayers).foldl
    (fun best i => if s.score d i > best.1 then (s.score d i, (i : ℤ)) else best) (0, -1)

/-- One more entry in every window of at most `lookback_steps`. -/
def stepEnd (d : Defrag) (numLayers : ℕ) (snapshot : List ℤ) : Defrag :=
  if d.lookbackSteps = 0 then d
  else
    let windows := if d.historyTokensInLayer = [] then List.replicate numLayers []
      else d.historyTokensInLayer
    let sums := if d.historyTokensInLayer = [] then List.replicate numLayers 0
      else d.sumHistoryTokensInLayer
    let full := fun i => d.lookbackSteps ≤ (windows.getD i []).length
    { d with
      historyTokensInLayer := (List.range numLayers).map fun i =>
        (if full i then (windows.getD i []).tail else windows.getD i []) ++ [snapshot.getD i 0]
      sumHistoryTokensInLayer := (List.range numLayers).map fun i =>
        (if full i then sums.getD i 0 - (windows.getD i []).headD 0 else sums.getD i 0) +
          snapshot.getD i 0 }

/-- Integer parts of the effective tokens. -/
def effectiveSnapshot (s : LayerScheduler W R) : List ℤ :=
  (List.range s.numLayers).map fun i => (s.getEffectiveTokens i (s.numTokensAt i)).floor

def schedule : SchedulerM W R ℤ := do
  let s ← get
  match s.defrag with
  | none => return s.flfsSchedule
  | some d =>
    if (s.getPoolSnapshot).sum = 0 then return -1
    else
      set { s with defrag := some (stepEnd d s.numLayers s.effectiveSnapshot) }
      return (s.bestLayer d).2

/-- The decision with the queue depths it was made on. -/
def scheduleWithSnapshot : SchedulerM W R (ℤ × List ℤ) := do
  let snapshot := (← get).getPoolSnapshot
  let bestLayer ← schedule
  return (bestLayer, snapshot)

end LayerScheduler

end StreamInfer.Pool
