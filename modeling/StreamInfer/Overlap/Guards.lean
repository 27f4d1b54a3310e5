import StreamInfer.General.Returning
import StreamInfer.Overlap.Loop

/-! Facts about a result that later work leaves alone. A guard is a fact about one
tensor and one half of the expert ids and weights, established by kernels that may
read one half of the expert weights and of the expert mapping. Kernels that fill
other tensors and halves keep it, and so do host copies into other halves. -/

namespace StreamInfer.Overlap

open General Batch Stream

variable {W R : Type} (scale : W → R → R)

structure Guard (W R : Type) where
  tensor : ℕ
  topkIds : Bool
  topkWeights : Bool
  expertTokenWeights : Bool
  expertTokenMapping : Bool
  host : Staging W → Prop
  device : Memory W R → Prop
  host_local : ∀ h h' : Staging W,
    h'.expertTokenWeights expertTokenWeights = h.expertTokenWeights expertTokenWeights →
    h'.expertTokenMapping expertTokenMapping = h.expertTokenMapping expertTokenMapping →
      host h → host h'
  device_local : ∀ m m' : Memory W R, m'.hiddens tensor = m.hiddens tensor →
    m'.expertIds tensor = m.expertIds tensor → m'.expertWeights tensor = m.expertWeights tensor →
    m'.topkIds topkIds = m.topkIds topkIds → m'.topkWeights topkWeights = m.topkWeights topkWeights →
      device m → device m'

namespace Guard

variable {scale} {g : Guard W R} {e n : ℕ} {k : Kernel W R}
  {stream : Stream (Kernel W R) (Staging W) (Memory W R)}

variable (scale) in
/-- The fact holds from the event on, about a tensor that exists. -/
structure On (g : Guard W R) (e : ℕ) (stream : Stream (Kernel W R) (Staging W) (Memory W R))
    (nextTensor : ℕ) : Prop where
  holds : stream.From (run scale) g.host e g.device
  allocated : g.tensor < nextTensor

/-- The halves are those handed out last. -/
structure Current (g : Guard W R) (s : Loop W R) : Prop where
  topkIds : g.topkIds = s.index .attnTopkIds
  topkWeights : g.topkWeights = s.index .attnTopkWeights
  expertTokenWeights : g.expertTokenWeights = s.index .expertTokenWeights
  expertTokenMapping : g.expertTokenMapping = s.index .expertTokenMapping

/-- The kernel fills neither the tensor nor the halves. -/
structure Spares (g : Guard W R) (k : Kernel W R) : Prop where
  tensor : k.tensor ≠ some g.tensor
  topkIds : ∀ p, k.topk = some p → p.1 ≠ g.topkIds
  topkWeights : ∀ p, k.topk = some p → p.2 ≠ g.topkWeights

theorem Spares.keeps (h : g.Spares k) : Keeps (run scale) g.host k g.device := by
  intro x _ m hm
  obtain ⟨hids, hweights⟩ := run_expertIds scale x m h.tensor
  exact g.device_local m _ (run_hiddens scale x m h.tensor) hids hweights
    (run_topkIds scale x m h.topkIds) (run_topkWeights scale x m h.topkWeights) hm

theorem spares_of_reads_only (ht : k.tensor = none) (hp : k.topk = none) : g.Spares k :=
  ⟨by simp [ht], by simp [hp], by simp [hp]⟩

/-- A kernel that fills a new tensor and no half. -/
theorem On.spares (h : g.On scale e stream n) {t : ℕ} (ht : n ≤ t) (hk : k.tensor = some t)
    (hp : k.topk = none) : g.Spares k := by
  refine ⟨?_, by simp [hp], by simp [hp]⟩
  rw [hk]
  intro heq
  have hlt := h.allocated
  have heq' := Option.some.inj heq
  omega

namespace On

theorem launch (h : g.On scale e stream n) (hk : g.Spares k) :
    g.On scale e (stream.launch (run scale) k) n :=
  ⟨h.holds.launch hk.keeps, h.allocated⟩

theorem newTensor (h : g.On scale e stream n) : g.On scale e stream (n + 1) :=
  ⟨h.holds, Nat.lt_succ_of_lt h.allocated⟩

theorem write (h : g.On scale e stream n) {f : Staging W → Staging W}
    (hf : ∀ x, g.host x → g.host (f x)) : g.On scale e (stream.write (run scale) f) n :=
  ⟨h.holds.write (hf _ h.holds.host), h.allocated⟩

theorem wait (h : g.On scale e stream n) (m : ℕ) : g.On scale e (stream.wait (run scale) m) n :=
  ⟨h.holds.wait m, h.allocated⟩

theorem tick (h : g.On scale e stream n) : g.On scale e (stream.tick (run scale)) n :=
  ⟨h.holds.tick, h.allocated⟩

end On

end Guard

/-- A part of an iteration that leaves the queue, the last batch and what was dispatched,
hands out halves of the regions `rs` only, and keeps the guards in `c`. -/
structure Carries (rs : List Region) (c : Guard W R → Prop) (s s' : Loop W R) : Prop where
  resultQueue : s'.resultQueue = s.resultQueue
  lastBatch : s'.lastBatch = s.lastBatch
  dispatched : s'.dispatched = s.dispatched
  index : ∀ r ∉ rs, s'.index r = s.index r
  guards : ∀ g e, c g → g.On scale e s.stream s.nextTensor → g.On scale e s'.stream s'.nextTensor

namespace Carries

variable {scale} {rs rs' : List Region} {c c' : Guard W R → Prop} {s s' s'' : Loop W R}

theorem refl (s : Loop W R) : Carries scale [] (fun _ => True) s s :=
  ⟨rfl, rfl, rfl, fun _ _ => rfl, fun _ _ _ h => h⟩

theorem trans (h : Carries scale rs c s s') (h' : Carries scale rs' c' s' s'') :
    Carries scale (rs ++ rs') (fun g => c g ∧ c' g) s s'' where
  resultQueue := h'.resultQueue.trans h.resultQueue
  lastBatch := h'.lastBatch.trans h.lastBatch
  dispatched := h'.dispatched.trans h.dispatched
  index r hr := by
    rw [List.mem_append, not_or] at hr
    rw [h'.index r hr.2, h.index r hr.1]
  guards g e hg hon := h'.guards g e hg.2 (h.guards g e hg.1 hon)

theorem mono (h : Carries scale rs c s s') (hr : rs ⊆ rs') (hc : ∀ g, c' g → c g) :
    Carries scale rs' c' s s' :=
  ⟨h.resultQueue, h.lastBatch, h.dispatched, fun r hn => h.index r fun hm => hn (hr hm),
    fun g e hg => h.guards g e (hc g hg)⟩

end Carries

section Operations

variable {scale} (s : Loop W R)

/-- A half is handed out, filled by the host and read by a kernel. -/
theorem stage_carries (r : Region) {k : Kernel W R} (ht : k.tensor = none) (hp : k.topk = none)
    (overwritten : List Half) :
    Carries scale [r] (fun _ => True) s { s with
      index := Function.update s.index r (!s.index r)
      overwritten
      stream := (s.stream.write (run scale) id).launch (run scale) k } where
  resultQueue := rfl
  lastBatch := rfl
  dispatched := rfl
  index r' hr' := by
    rw [List.mem_singleton] at hr'
    exact Function.update_of_ne hr' _ _
  guards _ _ _ h := (h.write fun _ hx => hx).launch (Guard.spares_of_reads_only ht hp)

theorem schedule_returns (load : Load) : Returns (schedule scale load) s fun _ s' =>
    Carries scale [.gatherSrcPtrs, .gatherAndSumSrcPtrs] (fun _ => True) s s' := by
  cases load with
  | one =>
    exact .pure ((Carries.refl s).mono (by simp) fun _ h => h)
  | gather =>
    exact .of_ok rfl ((stage_carries s .gatherSrcPtrs rfl rfl _).mono (by simp) fun _ h => h)
  | gatherAndSum =>
    exact .of_ok rfl ((stage_carries s .gatherAndSumSrcPtrs rfl rfl _).mono (by simp) fun _ h => h)

theorem sampleResults_returns (continueIds : List ℕ) :
    Returns (sampleResults scale continueIds) s fun _ s' =>
      Carries scale [.sampleContinueIds] (fun _ => True) s s' := by
  unfold sampleResults
  split_ifs with hne
  · exact .of_ok rfl (stage_carries s .sampleContinueIds rfl rfl _)
  · exact .pure ((Carries.refl s).mono (by simp) fun _ h => h)

end Operations

end StreamInfer.Overlap
