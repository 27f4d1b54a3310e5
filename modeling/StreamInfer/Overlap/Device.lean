import StreamInfer.General.Stream
import StreamInfer.Engine.AttentionEpilogue
import StreamInfer.Engine.ExpertEpilogue

/-! The memory of a device and the kernels that the engine launches. Regions that
the host overwrites come in two halves. What attention and the experts compute is
not modelled: a kernel that computes carries its outputs, and writes them when it
runs. -/

namespace StreamInfer.Overlap

open General Batch

inductive Region where
  | attnTokenMapping
  | attnTopkWeights
  | attnTopkIds
  | sampleContinueIds
  | expertTokenMapping
  | expertTokenWeights
  | batchSizes
  | tokenMIndices
  | batchTensorBuffer
  | gatherSrcPtrs
  | gatherAndSumSrcPtrs
  deriving DecidableEq, Repr

/-- One of the two buffers of a region. -/
structure Half where
  region : Region
  index : Bool
  deriving DecidableEq, Repr

/-- What an attention layer computes for its rows. -/
structure Outputs (W R : Type) where
  hiddens : List R
  expertIds : List (List ℕ)
  expertWeights : List (List W)

namespace Outputs

variable {W R : Type}

/-- `outputs[:n]`. -/
def take (n : ℕ) (o : Outputs W R) : Outputs W R :=
  ⟨o.hiddens.take n, o.expertIds.take n, o.expertWeights.take n⟩

structure OfSize (topK n : ℕ) (o : Outputs W R) : Prop where
  hiddens : o.hiddens.length = n
  expertIds : o.expertIds.length = n
  idRow : ∀ row ∈ o.expertIds, row.length = topK
  expertWeights : o.expertWeights.length = n
  weightRow : ∀ row ∈ o.expertWeights, row.length = topK

end Outputs

/-- A copy to the start of a buffer. -/
def copyTo {α : Type} (xs old : List α) : List α := xs ++ old.drop xs.length

/-- The halves that the host fills and whose contents reach a result. -/
structure Staging (W : Type) where
  attnTokenMapping : Bool → List ℕ
  expertTokenMapping : Bool → List ℕ
  expertTokenWeights : Bool → List W

/-- Hidden rows are a tensor of their own or the outputs of an expert graph. -/
inductive Hiddens where
  | tensor (t : ℕ)
  | graph (bucket layerId numTokens : ℕ)
  deriving DecidableEq, Repr

/-- Tensors by the number of their allocation, the halves that kernels fill, and the
outputs of the captured graphs. -/
structure Memory (W R : Type) where
  hiddens : ℕ → Except Fault (List R)
  expertIds : ℕ → List (List ℕ)
  expertWeights : ℕ → List (List W)
  topkIds : Bool → List ℕ
  topkWeights : Bool → List W
  attnGraphs : ℕ → ℕ → Outputs W R
  expertGraphs : ℕ → ℕ → List R

inductive Kernel (W R : Type) where
  | gather (src : Half)
  | indexSelect (src : Half)
  | positions (src : Half)
  | graphPreprocess (src : Option Half)
  | attnReplay (bucket layerId : ℕ) (out : Outputs W R)
  | copyGraphResults (bucket layerId numTokens t : ℕ) (ids weights : Bool)
  | attnForward (src : Half) (out : Outputs W R) (t : ℕ)
  | permuteTokens (mapping : Bool) (len src dst : ℕ)
  | expertReplay (bucket layerId : ℕ) (out : List R)
  | expertForward (src : Option Half) (out : List R) (t : ℕ)
  | applyWeights (weights mapping : Bool) (src : Hiddens) (dst : ℕ)

namespace Kernel

variable {W R : Type}

/-- The halves that the kernel reads and the host overwrites. -/
def reads : Kernel W R → List Half
  | gather src => [src]
  | indexSelect src => [src]
  | positions src => [src]
  | graphPreprocess src => src.toList
  | attnReplay _ _ _ => []
  | copyGraphResults _ _ _ _ _ _ => []
  | attnForward src _ _ => [src]
  | permuteTokens mapping _ _ _ => [⟨.attnTokenMapping, mapping⟩]
  | expertReplay _ _ _ => []
  | expertForward src _ _ => src.toList
  | applyWeights weights mapping _ _ =>
    [⟨.expertTokenWeights, weights⟩, ⟨.expertTokenMapping, mapping⟩]

/-- The tensor that the kernel fills. -/
def tensor : Kernel W R → Option ℕ
  | copyGraphResults _ _ _ t _ _ => some t
  | attnForward _ _ t => some t
  | permuteTokens _ _ _ dst => some dst
  | expertForward _ _ t => some t
  | applyWeights _ _ _ dst => some dst
  | _ => none

/-- The halves of the expert ids and weights that the kernel fills. -/
def topk : Kernel W R → Option (Bool × Bool)
  | copyGraphResults _ _ _ _ ids weights => some (ids, weights)
  | _ => none

end Kernel

namespace Memory

variable {W R : Type}

/-- The rows behind a reference. -/
def rows (m : Memory W R) : Hiddens → Except Fault (List R)
  | .tensor t => m.hiddens t
  | .graph bucket layerId numTokens => .ok ((m.expertGraphs bucket layerId).take numTokens)

def setHiddens (m : Memory W R) (t : ℕ) (rows : Except Fault (List R)) : Memory W R :=
  { m with hiddens := Function.update m.hiddens t rows }

end Memory

variable {W R : Type}

/-- What a kernel does when the device runs it. -/
def run (scale : W → R → R) (k : Kernel W R) (h : Staging W) (m : Memory W R) : Memory W R :=
  match k with
  | .attnReplay bucket layerId out =>
    { m with
      attnGraphs := Function.update m.attnGraphs bucket
        (Function.update (m.attnGraphs bucket) layerId out) }
  | .copyGraphResults bucket layerId numTokens t ids weights =>
    let out := (m.attnGraphs bucket layerId).take numTokens
    { m with
      hiddens := Function.update m.hiddens t (.ok out.hiddens)
      topkIds := Function.update m.topkIds ids (copyTo out.expertIds.flatten (m.topkIds ids))
      topkWeights := Function.update m.topkWeights weights
        (copyTo out.expertWeights.flatten (m.topkWeights weights)) }
  | .attnForward _ out t =>
    { m with
      hiddens := Function.update m.hiddens t (.ok out.hiddens)
      expertIds := Function.update m.expertIds t out.expertIds
      expertWeights := Function.update m.expertWeights t out.expertWeights }
  | .permuteTokens mapping len src dst =>
    m.setHiddens dst do
      permuteTokens (← m.hiddens src) ((h.attnTokenMapping mapping).take len)
  | .expertReplay bucket layerId out =>
    { m with
      expertGraphs := Function.update m.expertGraphs bucket
        (Function.update (m.expertGraphs bucket) layerId out) }
  | .expertForward _ out t => m.setHiddens t (.ok out)
  | .applyWeights weights mapping src dst =>
    m.setHiddens dst do
      let tokens ← m.rows src
      Engine.applyWeightsAndPermuteTokens scale tokens
        ((h.expertTokenWeights weights).take tokens.length)
        ((h.expertTokenMapping mapping).take tokens.length)
  | .gather _ | .indexSelect _ | .positions _ | .graphPreprocess _ => m

/-! ### What a kernel leaves as it was -/

section Frame

variable (scale : W → R → R) {k : Kernel W R} (h : Staging W) (m : Memory W R) {t : ℕ} {i : Bool}

theorem run_hiddens (hk : k.tensor ≠ some t) : (run scale k h m).hiddens t = m.hiddens t := by
  have hne : ∀ {t'}, k.tensor = some t' → t ≠ t' := fun ht heq => hk (heq ▸ ht)
  cases k with
  | copyGraphResults | attnForward | permuteTokens | expertForward | applyWeights =>
    exact Function.update_of_ne (hne rfl) _ _
  | _ => rfl

theorem run_expertIds (hk : k.tensor ≠ some t) :
    (run scale k h m).expertIds t = m.expertIds t ∧
      (run scale k h m).expertWeights t = m.expertWeights t := by
  cases k with
  | attnForward src out t' =>
    have ht : t ≠ t' := fun h => hk (congrArg some h.symm)
    exact ⟨Function.update_of_ne ht _ _, Function.update_of_ne ht _ _⟩
  | _ => exact ⟨rfl, rfl⟩

theorem run_topkIds (hk : ∀ p, k.topk = some p → p.1 ≠ i) :
    (run scale k h m).topkIds i = m.topkIds i := by
  cases k with
  | copyGraphResults bucket layerId numTokens t' ids weights =>
    exact Function.update_of_ne (Ne.symm (hk _ rfl)) _ _
  | _ => rfl

theorem run_topkWeights (hk : ∀ p, k.topk = some p → p.2 ≠ i) :
    (run scale k h m).topkWeights i = m.topkWeights i := by
  cases k with
  | copyGraphResults bucket layerId numTokens t' ids weights =>
    exact Function.update_of_ne (Ne.symm (hk _ rfl)) _ _
  | _ => rfl

end Frame

/-! ### Copies to the start of a buffer -/

theorem take_copyTo {α : Type} (xs old : List α) : (copyTo xs old).take xs.length = xs := by
  rw [copyTo, List.take_left]

end StreamInfer.Overlap
