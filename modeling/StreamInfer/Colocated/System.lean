import StreamInfer.Engine.ExpertEpilogue
import StreamInfer.Engine.AttentionEpilogue
import StreamInfer.Frontend.Sampler
import StreamInfer.General.Reach
import StreamInfer.Placement.Tables
import StreamInfer.Pool.Serving

/-! The colocated system: every device runs an engine with a pool, a sampler and a dispatcher,
and any of its parts may act next. Messages reach their device in any order. What the devices
compute, which experts the gate chooses and how long requests are is open. A batch that the
engine took stays with it until it is sampled or its result is at the dispatcher, so the plain
and the overlapped loop are both among the runs. -/

namespace StreamInfer.Colocated

open General Batch BatchMetadata Pool Engine Frontend Placement

/-- What all engines are configured with. -/
structure Config where
  model : ModelConfig
  numDevices : ℕ
  expertAllocation : Option (List ℕ)
  topK : ℕ
  numGroups : ℕ
  defrag : Option (ℕ × ℕ × ℚ)
  attnScheduleTokenThreshold : ℤ
  expertScheduleTokenThreshold : ℤ
  hiddenSize : ℕ
  useGdrcopyOptimization : Bool

structure Device (W R : Type) where
  pool : UnifiedPool W R
  /-- The layer that the scheduler picked. -/
  pending : Option ℤ
  sampler : DummySampler
  executing : List (TokenBatch W R)
  /-- The queue of the dispatcher. -/
  dispatcher : List (TokenBatch W R)

structure System (W R : Type) where
  device : ℕ → Device W R
  /-- Messages with their receivers. -/
  flight : List (ℕ × TokenBatch W R)
  /-- The device that took a request in. -/
  home : ℤ → Option ℕ
  finished : List ℤ

variable {W R : Type}

def Device.start (cfg : Config) : Device W R where
  pool := (Serving.start cfg.model.numLayers cfg.numGroups cfg.topK cfg.defrag
    cfg.attnScheduleTokenThreshold cfg.expertScheduleTokenThreshold).pool
  pending := none
  sampler := .new
  executing := []
  dispatcher := []

/-- The metadata of `recv_new_request`. -/
def requestMeta (cfg : Config) (one : W) (attnDpRank : ℕ) (reqId initPrefillLen : ℤ) : BatchMetadata W where
  batchTag := .tokenizer
  shape := (1, cfg.hiddenSize)
  dtype := "bfloat16"
  layerId := 0
  reqIds := [reqId]
  expIds := [0]
  topkWeights := [one]
  attnDpRanks := [attnDpRank]
  initPrefillLens := [initPrefillLen]

/-- The device behind a channel. -/
def peer (p : ModelPlacement) (d : ℕ) (channel : ℤ) : Option ℕ :=
  if channel < 0 then none else (p.outDeviceIds d)[channel.toNat]?

/-- The pieces with the devices that they are sent to. -/
def addressees (p : ModelPlacement) (d : ℕ) (sent : List (ℤ × TokenBatch W R)) :
    Except Fault (List (ℕ × TokenBatch W R)) :=
  sent.mapM fun piece =>
    match peer p d piece.1 with
    | some receiver => .ok (receiver, piece.2)
    | none => .error (.outOfRange "channels[channel_id]")

/-- The gate's choices: a row of experts and one of weights for each token. -/
structure Gated (cfg : Config) (n : ℕ) (expertIds : List (List ℕ)) (expertWeights : List (List W)) :
    Prop where
  idRows : expertIds.length = n
  idRow : ∀ row ∈ expertIds, row.length = cfg.topK
  weightRows : expertWeights.length = n
  weightRow : ∀ row ∈ expertWeights, row.length = cfg.topK
  experts : ∀ e ∈ expertIds.flatten, e < cfg.model.numExperts

namespace System

def start (cfg : Config) : System W R where
  device := fun _ => .start cfg
  flight := []
  home := fun _ => none
  finished := []

/-- Device `d` is in a new state. -/
def setDevice (σ : System W R) (d : ℕ) (dev : Device W R) : System W R :=
  { σ with device := Function.update σ.device d dev }

@[simp] theorem setDevice_self (σ : System W R) (d : ℕ) (dev : Device W R) :
    (σ.setDevice d dev).device d = dev := Function.update_self _ _ _

theorem setDevice_of_ne (σ : System W R) {d i : ℕ} (dev : Device W R) (hi : i ≠ d) :
    (σ.setDevice d dev).device i = σ.device i := Function.update_of_ne hi _ _

variable [Zero W] [Row R]

/-- A part of an engine acts, or a message arrives. -/
inductive Step (cfg : Config) (p : ModelPlacement) (S : ComparatorSort) (scale : W → R → R)
    (σ : System W R) : System W R → Prop
  /-- `recv_new_request`; request ids are not used twice. -/
  | request (d : ℕ) (hd : d < cfg.numDevices) (reqId initPrefillLen maxOutputLen : ℤ) (one : W) (row : R)
      (hnew : σ.home reqId = none) (pool : UnifiedPool W R)
      (hput : UnifiedPool.putBatch ⟨[row], requestMeta cfg one (p.attnDpRankAt d) reqId initPrefillLen⟩
        (σ.device d).pool = .ok ⟨⟩ pool) :
      Step cfg p S scale σ { σ.setDevice d { σ.device d with
        pool
        sampler := (σ.device d).sampler.createRequest reqId maxOutputLen } with
          home := Function.update σ.home reqId (some d) }
  | schedule (d : ℕ) (hd : d < cfg.numDevices) (hp : (σ.device d).pending = none) (id : ℤ)
      (pool : UnifiedPool W R)
      (hok : UnifiedPool.onScheduler LayerScheduler.schedule (σ.device d).pool = .ok id pool) :
      Step cfg p S scale σ (σ.setDevice d { σ.device d with
        pool
        pending := some id })
  | get (d : ℕ) (hd : d < cfg.numDevices) (id : ℤ) (hp : (σ.device d).pending = some id)
      (b : Option (TokenBatch W R)) (pool : UnifiedPool W R)
      (hok : UnifiedPool.getBatchFromLayer S id (σ.device d).pool = .ok b pool) :
      Step cfg p S scale σ (σ.setDevice d { σ.device d with
        pool
        pending := none
        executing := (σ.device d).executing ++ b.toList })
  /-- The result of an attention layer. -/
  | attention (d : ℕ) (hd : d < cfg.numDevices) (b : TokenBatch W R) (rest : List (TokenBatch W R))
      (hb : (σ.device d).executing.Perm (b :: rest)) (htag : b.metadata.isAttention = true)
      (hlayer : b.metadata.layerId ≠ cfg.model.numLayers) (hiddens : List R)
      (hrows : hiddens.length = b.metadata.numTokens) (expertIds : List (List ℕ))
      (expertWeights : List (List W)) (hgate : Gated cfg b.metadata.numTokens expertIds expertWeights)
      (out : TokenBatch W R) (hout : postprocessBatchAttn cfg.topK (p.attnDpRankAt d) b.metadata hiddens
        expertIds expertWeights = .ok out) :
      Step cfg p S scale σ (σ.setDevice d { σ.device d with
        executing := rest
        dispatcher := (σ.device d).dispatcher ++ [out] })
  /-- After the last attention layer requests end or go back to the first. -/
  | sample (d : ℕ) (hd : d < cfg.numDevices) (b : TokenBatch W R) (rest : List (TokenBatch W R))
      (hb : (σ.device d).executing.Perm (b :: rest)) (htag : b.metadata.isAttention = true)
      (hlayer : b.metadata.layerId = cfg.model.numLayers) (continued : TokenBatch W R)
      (finishReqIds : List ℤ) (result : BatchDecodeResult) (sampler : DummySampler)
      (hsample : sampleResults (p.attnDpRankAt d) ⟨b.metadata.reqIds, b.data, b.metadata⟩
        (σ.device d).sampler = .ok (continued, finishReqIds, result) sampler) (pool : UnifiedPool W R)
      (hput : UnifiedPool.putBatch continued (σ.device d).pool = .ok ⟨⟩ pool) :
      Step cfg p S scale σ { σ.setDevice d { σ.device d with
        pool
        sampler
        executing := rest } with
          finished := σ.finished ++ finishReqIds }
  /-- The result of the experts of a layer. -/
  | expert (d : ℕ) (hd : d < cfg.numDevices) (b : TokenBatch W R) (rest : List (TokenBatch W R))
      (hb : (σ.device d).executing.Perm (b :: rest)) (htag : b.metadata.isExpert = true)
      (hiddens : List R) (hrows : hiddens.length = b.metadata.numTokens) (out : TokenBatch W R)
      (hout : executeBatchExpert cfg.useGdrcopyOptimization S scale b.metadata hiddens = .ok out) :
      Step cfg p S scale σ (σ.setDevice d { σ.device d with
        executing := rest
        dispatcher := (σ.device d).dispatcher ++ [out] })
  /-- The dispatcher sends the first batch of its queue, piece by piece. -/
  | send (d : ℕ) (hd : d < cfg.numDevices) (b : TokenBatch W R) (rest : List (TokenBatch W R))
      (hb : (σ.device d).dispatcher = b :: rest) (disp : UnifiedDispatcher)
      (hdisp : p.dispatcherAt cfg.model d = .ok disp) (sent : List (ℤ × TokenBatch W R))
      (hsent : disp.sendOnce b = .ok sent) (messages : List (ℕ × TokenBatch W R))
      (hmessages : addressees p d sent = .ok messages) :
      Step cfg p S scale σ { σ.setDevice d { σ.device d with dispatcher := rest } with
        flight := σ.flight ++ messages }
  | deliver (d : ℕ) (hd : d < cfg.numDevices) (b : TokenBatch W R) (rest : List (ℕ × TokenBatch W R))
      (hb : σ.flight.Perm ((d, b) :: rest)) (pool : UnifiedPool W R)
      (hok : UnifiedPool.processBatch b.data b.metadata (σ.device d).pool = .ok ⟨⟩ pool) :
      Step cfg p S scale σ { σ.setDevice d { σ.device d with pool } with flight := rest }

/-- The states that the system reaches. -/
def Reached (cfg : Config) (p : ModelPlacement) (S : ComparatorSort) (scale : W → R → R)
    (σ : System W R) : Prop :=
  Reach (· = start cfg) (Step cfg p S scale) σ

end System

end StreamInfer.Colocated
