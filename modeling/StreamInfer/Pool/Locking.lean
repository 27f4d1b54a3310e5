import StreamInfer.Batch.Mergeable
import StreamInfer.Pool.Contents

/-! The gets under the scheduler's mutex. The mutex is locked and unlocked by hand
around the drain of a layer, and the tokens are merged or packed afterwards. So a
failure of the drain keeps the mutex, and any failure keeps what the drain took. -/

namespace StreamInfer.Pool

open General General.Stateful Batch

variable {W R : Type}

/-- A scheduler, and whether the calling thread holds `scheduler_mutex`. -/
structure LockedScheduler (W R : Type) where
  scheduler : LayerScheduler W R
  held : Bool

namespace LockedScheduler

abbrev LockedM (W R : Type) := EStateM Fault (LockedScheduler W R)

/-- A second lock by the thread that holds the mutex is undefined. -/
def lock : LockedM W R Unit := fun m =>
  if m.held then .error (.outOfRange "scheduler_mutex") m else .ok ⟨⟩ { m with held := true }

def unlock : LockedM W R Unit := modify fun m => { m with held := false }

def onScheduler {α : Type} (x : LayerScheduler.SchedulerM W R α) : LockedM W R α :=
  onPart (·.scheduler) (fun m s => { m with scheduler := s }) x

section

variable [Zero W] [Row R]

/-- The body that the gets share, with the drains of a token queue and a batch queue. -/
def drainLayer (S : ComparatorSort) (layerId : ℤ)
    (takeTokens : UnifiedLayer.LayerM W R (List (TokenTopKInfo R)))
    (takeBatches : UnifiedLayer.LayerM W R (List (TokenBatch W R))) :
    LockedM W R (Option (TokenBatch W R)) := do
  let m ← get
  let s := m.scheduler
  if layerId < 0 ∨ layerId ≥ (s.numAttnLayers + s.numExpertLayers : ℕ) then return none
  else if s.layerUsesTokenQueue layerId then
    lock
    let tokens ← onScheduler (LayerScheduler.onLayer layerId.toNat takeTokens)
    unlock
    let batch ← LayerScheduler.returned (TokenBatch.packTopkTokens S layerId.toNat tokens)
    return some batch
  else
    lock
    let batches ← onScheduler (LayerScheduler.onLayer layerId.toNat takeBatches)
    unlock
    LayerScheduler.returned (TokenBatch.merge batches)

def getBatchFromLayer (S : ComparatorSort) (layerId : ℤ) :
    LockedM W R (Option (TokenBatch W R)) :=
  drainLayer S layerId UnifiedLayer.getAllTokens UnifiedLayer.getAllBatches

def getBatchFromLayerRestricted (S : ComparatorSort) (layerId tokenThreshold : ℤ) :
    LockedM W R (Option (TokenBatch W R)) :=
  drainLayer S layerId (UnifiedLayer.getTokensRestricted tokenThreshold)
    (UnifiedLayer.getBatchesRestricted tokenThreshold)

end

/-- The outcome of a call without the mutex. -/
def forget {α : Type} : EStateM.Result Fault (LockedScheduler W R) α →
    EStateM.Result Fault (LayerScheduler W R) α
  | .ok a m => .ok a m.scheduler
  | .error e m => .error e m.scheduler

/-- A returned value that is passed on. -/
theorem returned_bind {σ α β : Type} (x : Except Fault α) (g : α → β) :
    (do let a ← LayerScheduler.returned x; return g a : EStateM Fault σ β) =
      LayerScheduler.returned (g <$> x) := by
  cases x <;> rfl

section Drain

variable {m : LockedScheduler W R} {α β : Type}

/-- A drain under the mutex and a use of what it took. -/
def drain (x : LayerScheduler.SchedulerM W R β) (f : β → Except Fault α) : LockedM W R α := do
  lock
  let b ← onScheduler x
  unlock
  LayerScheduler.returned (f b)

theorem lock_of_free (hfree : m.held = false) :
    (lock m : EStateM.Result Fault (LockedScheduler W R) Unit) = .ok ⟨⟩ { m with held := true } := by
  rw [lock, hfree]
  rfl

/-- A drain that fails keeps the mutex. -/
theorem drain_of_error {x : LayerScheduler.SchedulerM W R β} (f : β → Except Fault α)
    (hfree : m.held = false) {e : Fault} {s' : LayerScheduler W R}
    (hx : x m.scheduler = .error e s') :
    drain x f m = .error e { scheduler := s', held := true } := by
  have herr : onScheduler x { m with held := true } = .error e { scheduler := s', held := true } := by
    simp only [onScheduler, onPart, hx]
  rw [drain, bind_of_ok (lock_of_free hfree), bind_of_error herr]

theorem drain_of_ok {x : LayerScheduler.SchedulerM W R β} (f : β → Except Fault α)
    (hfree : m.held = false) {b : β} {s' : LayerScheduler W R} (hx : x m.scheduler = .ok b s') :
    drain x f m = LayerScheduler.returned (f b) { scheduler := s', held := false } := by
  have hok : onScheduler x { m with held := true } = .ok b { scheduler := s', held := true } := by
    simp only [onScheduler, onPart, hx]
  rw [drain, bind_of_ok (lock_of_free hfree), bind_of_ok hok]
  rfl

theorem forget_drain (x : LayerScheduler.SchedulerM W R β) (f : β → Except Fault α)
    (hfree : m.held = false) :
    forget (drain x f m) = (do let b ← x; LayerScheduler.returned (f b)) m.scheduler := by
  cases hx : x m.scheduler with
  | error e s' =>
    rw [drain_of_error f hfree hx, bind_of_error hx]
    rfl
  | ok b s' =>
    rw [drain_of_ok f hfree hx, bind_of_ok hx]
    cases f b <;> rfl

end Drain

section Forget

variable [Zero W] [Row R] {m : LockedScheduler W R}

theorem drainLayer_eq (S : ComparatorSort) (layerId : ℤ)
    (takeTokens : UnifiedLayer.LayerM W R (List (TokenTopKInfo R)))
    (takeBatches : UnifiedLayer.LayerM W R (List (TokenBatch W R))) :
    drainLayer S layerId takeTokens takeBatches m =
      (if layerId < 0 ∨ layerId ≥
          (m.scheduler.numAttnLayers + m.scheduler.numExpertLayers : ℕ) then return none
      else if m.scheduler.layerUsesTokenQueue layerId then
        drain (LayerScheduler.onLayer layerId.toNat takeTokens) fun tokens =>
          some <$> TokenBatch.packTopkTokens S layerId.toNat tokens
      else drain (LayerScheduler.onLayer layerId.toNat takeBatches) TokenBatch.merge) m := by
  unfold drainLayer drain
  rw [get_bind]
  simp only [returned_bind]

/-- The mutex changes neither what a get returns nor the layers it leaves. -/
theorem forget_getBatchFromLayerRestricted (S : ComparatorSort) (layerId tokenThreshold : ℤ)
    (hfree : m.held = false) :
    forget (getBatchFromLayerRestricted S layerId tokenThreshold m) =
      LayerScheduler.getBatchFromLayerRestricted S layerId tokenThreshold m.scheduler := by
  rw [getBatchFromLayerRestricted, drainLayer_eq, LayerScheduler.getBatchFromLayerRestricted, get_bind]
  simp only [returned_bind]
  split_ifs
  · rfl
  · exact forget_drain _ _ hfree
  · exact forget_drain _ _ hfree

theorem forget_getBatchFromLayer (S : ComparatorSort) (layerId : ℤ) (hfree : m.held = false) :
    forget (getBatchFromLayer S layerId m) =
      LayerScheduler.getBatchFromLayer S layerId m.scheduler := by
  rw [getBatchFromLayer, drainLayer_eq, LayerScheduler.getBatchFromLayer, get_bind]
  simp only [returned_bind]
  split_ifs
  · rfl
  · exact forget_drain _ _ hfree
  · exact forget_drain _ _ hfree

end Forget

/-! ### Faults -/

end LockedScheduler

end StreamInfer.Pool
