import StreamInfer.Colocated.System
import StreamInfer.General.Portions

/-! The tokens of the colocated system. A request is one token on its way through an attention
layer and `top_k` copies on their way through the experts of a layer; the census lists all of
them with the place that each is in. -/

namespace StreamInfer.Colocated

open General Batch BatchMetadata Pool Placement

variable {W R : Type}

inductive Stage
  | attention (layer : ℕ)
  | experts (layer : ℕ)
  deriving DecidableEq

/-- Copies on their way say which rank they belong to, and which expert they are for. -/
inductive Place
  /-- Queued for attention or executing. -/
  | attention (device : ℕ)
  /-- At the dispatcher of an attention device. -/
  | routed (device rank expert : ℕ)
  | toExpert (device rank expert : ℕ)
  /-- Queued for an expert or executing. -/
  | expert (device rank expert : ℕ)
  /-- At the dispatcher of an expert device. -/
  | returned (device rank : ℕ)
  | toAttention (device rank : ℕ)
  /-- Waiting for the other copies before a layer. -/
  | collected (device layer : ℕ)

structure Token where
  reqId : ℤ
  stage : Stage
  place : Place

/-- A token without its place. -/
def Token.label (t : Token) : ℤ × Stage := (t.reqId, t.stage)

/-! ### Tokens of batches and queues -/

def attentionToken (d layer : ℕ) (reqId : ℤ) : Token := ⟨reqId, .attention layer, .attention d⟩

/-- A copy of the layer before `i`. -/
def collectedToken (d i : ℕ) (reqId : ℤ) : Token := ⟨reqId, .experts (i - 1), .collected d i⟩

/-- A copy for the experts of a layer; its place takes its rank and its expert. -/
def copyToken (layer : ℕ) (place : ℕ → ℕ → Place) (x : TokenMetadata W × R) : Token :=
  ⟨x.1.reqId, .experts layer, place x.1.attnDpRank x.1.expId⟩

variable [Zero W]

def executingTokens (d : ℕ) (b : TokenBatch W R) : Multiset Token :=
  if b.metadata.isAttention then
    ((b.entries .attention).map fun x => attentionToken d b.metadata.layerId x.1.reqId : List Token)
  else ((b.entries .routing).map (copyToken b.metadata.layerId (.expert d)) : List Token)

/-- A batch that a dispatcher sends, before or after it is sent. -/
def sentTokens (routed : ℕ → ℕ → Place) (returned : ℕ → Place) (b : TokenBatch W R) : Multiset Token :=
  if b.metadata.isAttention then
    ((b.entries .routing).map (copyToken b.metadata.layerId routed) : List Token)
  else ((b.entries .returning).map
    (copyToken (b.metadata.layerId - 1) fun rank _ => returned rank) : List Token)

theorem sentTokens_attention (routed : ℕ → ℕ → Place) (returned : ℕ → Place) {b : TokenBatch W R}
    (htag : b.metadata.batchTag = .attention) : sentTokens routed returned b =
      ((b.entries .routing).map (copyToken b.metadata.layerId routed) : List Token) := by
  rw [sentTokens, if_pos (by simp [isAttention, htag])]

theorem sentTokens_expert (routed : ℕ → ℕ → Place) (returned : ℕ → Place) {b : TokenBatch W R}
    (htag : b.metadata.batchTag = .expert) : sentTokens routed returned b =
      ((b.entries .returning).map
        (copyToken (b.metadata.layerId - 1) fun rank _ => returned rank) : List Token) := by
  rw [sentTokens, if_neg (by simp [isAttention, htag])]

def dispatcherTokens (d : ℕ) : TokenBatch W R → Multiset Token := sentTokens (.routed d) (.returned d)

def messageTokens (m : ℕ × TokenBatch W R) : Multiset Token :=
  sentTokens (.toExpert m.1) (.toAttention m.1) m.2

/-- An entry of a batch in the queue of layer `i`. -/
def entryToken (d numAttnLayers i : ℕ) (x : TokenMetadata W × R) : Token :=
  if i < numAttnLayers then attentionToken d i x.1.reqId
  else copyToken (i - numAttnLayers) (.expert d) x

omit [Zero W] in
theorem entryToken_attention (d : ℕ) {numAttnLayers i : ℕ} (hi : i < numAttnLayers) :
    (entryToken d numAttnLayers i : TokenMetadata W × R → Token) =
      fun x => attentionToken d i x.1.reqId := by
  funext x
  rw [entryToken, if_pos hi]

omit [Zero W] in
theorem entryToken_expert (d : ℕ) {numAttnLayers i : ℕ} (hi : ¬ i < numAttnLayers) :
    (entryToken d numAttnLayers i : TokenMetadata W × R → Token) =
      copyToken (i - numAttnLayers) (.expert d) := by
  funext x
  rw [entryToken, if_neg hi]

def layerTokens (d : ℕ) (s : LayerScheduler W R) (i : ℕ) : Multiset Token :=
  ((s.queuedEntries i).map (entryToken d s.numAttnLayers i) : List Token) +
    ((s.queuedTokens i).map fun t => attentionToken d i t.seqId : List Token)

omit [Zero W] in
/-- The rows of a token that waits for the others. -/
def rowTokens (d i : ℕ) (t : TokenTopKInfo R) : List Token :=
  List.replicate t.count (collectedToken d i t.seqId)

def collectedTokens (d i : ℕ) (t : TokenTopKPool R) : Multiset Token :=
  (t.pool.entries.flatMap fun e => rowTokens d i e.2 : List Token)

def poolTokens (d : ℕ) (p : UnifiedPool W R) : Multiset Token :=
  ∑ i ∈ Finset.range p.layerScheduler.numLayers, layerTokens d p.layerScheduler i +
    ∑ i ∈ Finset.range p.topkPools.length, (p.topkPools[i]?).elim 0 (collectedTokens d i)

def Device.tokens (d : ℕ) (dev : Device W R) : Multiset Token :=
  poolTokens d dev.pool + (dev.executing.map (executingTokens d)).sum +
    (dev.dispatcher.map (dispatcherTokens d)).sum

/-- All tokens on the devices and in flight. -/
def System.census (numDevices : ℕ) (σ : System W R) : Multiset Token :=
  ∑ d ∈ Finset.range numDevices, (σ.device d).tokens d + (σ.flight.map messageTokens).sum

/-! ### What parts hold -/

inductive Executable (numLayers : ℕ) (b : TokenBatch W R) : Prop
  | attention (htag : b.metadata.batchTag = .attention) (hl : b.metadata.layerId ≤ numLayers)
      (hb : Carries .attention b (b.entries .attention))
  | expert (htag : b.metadata.batchTag = .expert) (hl : b.metadata.layerId < numLayers)
      (hb : Carries .routing b (b.entries .routing))

inductive Sendable (numLayers : ℕ) (b : TokenBatch W R) : Prop
  | routed (htag : b.metadata.batchTag = .attention) (hl : b.metadata.layerId < numLayers)
      (hb : Carries .routing b (b.entries .routing))
      (hid : ∀ x ∈ b.entries .routing, x.1.expId < maxNumExperts)
  | returned (htag : b.metadata.batchTag = .expert) (hpos : 1 ≤ b.metadata.layerId)
      (hl : b.metadata.layerId ≤ numLayers) (hb : Carries .returning b (b.entries .returning))

structure PoolSound (cfg : Config) (p : UnifiedPool W R) : Prop where
  topK : p.topK = cfg.topK
  attnLayers : p.layerScheduler.numAttnLayers = cfg.model.numLayers + 1
  expertLayers : p.layerScheduler.numExpertLayers = cfg.model.numLayers
  wired : UnifiedPool.Wired (fun _ => True) p
  rows : ∀ t ∈ p.topkPools, ∀ r u, t.pool.lookup r = some u → 1 ≤ u.count
  keeps : ∃ c, LayerScheduler.Keeps (layerKind (cfg.model.numLayers + 1)) p.layerScheduler c

structure DeviceSound (cfg : Config) (dev : Device W R) : Prop where
  pool : PoolSound cfg dev.pool
  executing : ∀ b ∈ dev.executing, Executable cfg.model.numLayers b
  dispatcher : ∀ b ∈ dev.dispatcher, Sendable cfg.model.numLayers b

omit [Zero W] in
/-- A token is on its request's device, or on the way to its expert or back. -/
def Token.Placed (cfg : Config) (home : ℤ → Option ℕ) (t : Token) : Prop :=
  match t.stage, t.place with
  | .attention _, .attention d => home t.reqId = some d
  | .experts _, .routed d rank e => home t.reqId = some d ∧ rank = d ∧ e < cfg.model.numExperts
  | .experts _, .toExpert d rank e | .experts _, .expert d rank e => home t.reqId = some rank ∧
      e < cfg.model.numExperts ∧ d = ColocatePlacement.hostIn cfg.model cfg.expertAllocation e
  | .experts _, .returned d rank => home t.reqId = some rank ∧
      ∃ e < cfg.model.numExperts, ColocatePlacement.hostIn cfg.model cfg.expertAllocation e = d
  | .experts _, .toAttention d rank => home t.reqId = some rank ∧ d = rank
  | .experts l, .collected d i => home t.reqId = some d ∧ i = l + 1
  | _, _ => False

end StreamInfer.Colocated
