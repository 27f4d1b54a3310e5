import StreamInfer.Cuda.Launch
import StreamInfer.General.Fallible
import StreamInfer.General.Interleaving
import StreamInfer.Staging.GdrContext

/-! The two functions that gather token rows from the addresses in a vector of the host. A
build with GDRCopy puts the addresses into a registered region of a fixed size. A gathered
sum is accumulated in place by the one thread that has the element. -/

namespace StreamInfer.Cuda

open General Staging

variable {α W : Type}

/-- `gather_tokens_kernel`; `dInPtr` holds addresses. -/
def gatherTokensKernel [Zero W] (mul : α → W → α) (memory : ℕ → α) (dInPtr : ℕ → ℕ)
    (hiddenSize : ℤ) (tokenId chunkId tid : ℕ) : List (ℤ × α) :=
  moveOneTokenKernel mul false (chunkSize hiddenSize.toNat) memory (int32 (tokenId * hiddenSize))
    (dInPtr tokenId) (0 : W) chunkId tid

/-- `_gather_tokens_cuda`. -/
def gatherTokensCuda [Zero W] (mul : α → W → α) (memory : ℕ → α) (srcPtr : ℕ → ℕ)
    (numTokens hiddenSize : ℤ) : Except Fault (Launch (ℤ × α)) :=
  if ¬ 0 < hiddenSize then .error (.assertion "hidden_size > 0") else
    .ok ⟨numTokens, hiddenSize, gatherTokensKernel mul memory srcPtr hiddenSize⟩

def sizeofUintptr : ℕ := 8

/-- `get_gather_src_ptrs_gdr()->copy_from_host(..)` of `n` addresses, in a build with GDRCopy. -/
def copySrcPtrs (gdr : Bool) (n : ℕ) : Except Fault Unit :=
  if gdr then (GdrContext.ofTensor maxGatherTokens sizeofUintptr).copyFromHost n sizeofUintptr else .ok ()

/-- A build with GDRCopy takes this many source pointers. -/
def PointersFit (gdr : Bool) (n : ℕ) : Prop := gdr = true → n ≠ 0 ∧ n ≤ maxGatherTokens

theorem copySrcPtrs_ok_iff (gdr : Bool) (n : ℕ) : copySrcPtrs gdr n = .ok () ↔ PointersFit gdr n := by
  cases gdr with
  | false => simp [copySrcPtrs, PointersFit]
  | true =>
    rw [copySrcPtrs, if_pos rfl, GdrContext.copyFromHost_ok_iff (by decide)]
    simp [PointersFit]

/-- What follows the copy runs when the pointers fit. -/
theorem copySrcPtrs_bind_ok_iff {β : Type} {gdr : Bool} {n : ℕ} {x : Except Fault β} {b : β} :
    (copySrcPtrs gdr n >>= fun _ => x) = .ok b ↔ PointersFit gdr n ∧ x = .ok b := by
  rw [bind_eq_ok_iff, ← copySrcPtrs_ok_iff]
  exact ⟨fun ⟨(), hcopy, h⟩ => ⟨hcopy, h⟩, fun ⟨hcopy, h⟩ => ⟨(), hcopy, h⟩⟩

/-- `gather_tokens_cuda_dispatch`; `gdr` is `KERNEL_USE_GDRCOPY == 1`. -/
def gatherTokensCudaDispatch [Zero W] (gdr : Bool) (mul : α → W → α) (memory : ℕ → α) (srcPtr : ℕ → ℕ)
    (numTokens hiddenSize : ℕ) : Except Fault (Launch (ℤ × α)) := do
  copySrcPtrs gdr numTokens
  gatherTokensCuda mul memory srcPtr (int32 numTokens) (int32 hiddenSize)

theorem gatherTokensCudaDispatch_ok_iff [Zero W] {gdr : Bool} {mul : α → W → α} {memory : ℕ → α}
    {srcPtr : ℕ → ℕ} {numTokens hiddenSize : ℕ} (haccept : 0 < int32 hiddenSize)
    {l : Launch (ℤ × α)} :
    gatherTokensCudaDispatch gdr mul memory srcPtr numTokens hiddenSize = .ok l ↔
      PointersFit gdr numTokens ∧ l = ⟨int32 numTokens, int32 hiddenSize,
        gatherTokensKernel mul memory srcPtr (int32 hiddenSize)⟩ := by
  rw [gatherTokensCudaDispatch, copySrcPtrs_bind_ok_iff, gatherTokensCuda,
    if_neg (not_not.mpr haccept), Except.ok.injEq, eq_comm (b := l)]

/-- A call of `gather_tokens` turns the output memory `out` into `out'`. -/
def GatherTokens [Zero W] (gdr : Bool) (mul : α → W → α) (memory : ℕ → α) (srcPtr : ℕ → ℕ)
    (numTokens hiddenSize : ℕ) (out out' : ℤ → α) : Prop :=
  ∃ l, gatherTokensCudaDispatch gdr mul memory srcPtr numTokens hiddenSize = .ok l ∧
    StoredInSomeOrder l.accesses out out'

/-! ### Gathered sums -/

/-- An access of the sum kernel to an output element. -/
inductive SumAccess (α : Type) where
  | copy (addr : ℤ) (val : α)
  | add (addr : ℤ) (val : α)

def SumAccess.addr : SumAccess α → ℤ
  | copy addr _ | add addr _ => addr

/-- The element after an access. -/
def SumAccess.act [Add α] : SumAccess α → α → α
  | copy _ val, _ => val
  | add _ val, acc => val + acc

/-- `gather_and_sum_tokens_kernel` of one thread. -/
def gatherAndSumTokensKernel (memory : ℕ → α) (dInPtr : ℤ → ℕ) (n topk hiddenSize : ℤ)
    (outputTokenId chunkId tid : ℕ) : List (SumAccess α) :=
  if outputTokenId ≥ n then [] else
    let out := int32 (outputTokenId * hiddenSize)
    let firstTokenIdx := int32 (outputTokenId * topk)
    let offsets := threadOffsets (chunkSize hiddenSize.toNat) chunkId tid
    (offsets.map fun e => .copy (out + e) (memory (dInPtr firstTokenIdx + e))) ++
      (List.range' 1 (topk.toNat - 1)).flatMap fun (k : ℕ) =>
        let tokenIdx := int32 (firstTokenIdx + k)
        offsets.map fun e => .add (out + e) (memory (dInPtr tokenIdx + e))

/-- `_gather_and_sum_tokens_cuda`. -/
def gatherAndSumTokensCuda (memory : ℕ → α) (srcPtr : ℤ → ℕ) (n topk hiddenSize : ℤ) :
    Except Fault (Launch (SumAccess α)) :=
  if ¬ 0 < hiddenSize then .error (.assertion "hidden_size > 0") else
    .ok ⟨n, hiddenSize, gatherAndSumTokensKernel memory srcPtr n topk hiddenSize⟩

/-- `gather_and_sum_tokens_cuda_dispatch`. -/
def gatherAndSumTokensCudaDispatch (gdr : Bool) (memory : ℕ → α) (srcPtr : ℤ → ℕ)
    (n topk hiddenSize : ℕ) : Except Fault (Launch (SumAccess α)) := do
  copySrcPtrs gdr (n * topk)
  gatherAndSumTokensCuda memory srcPtr (int32 n) (int32 topk) (int32 hiddenSize)

theorem gatherAndSumTokensCudaDispatch_ok_iff {gdr : Bool} {memory : ℕ → α} {srcPtr : ℤ → ℕ}
    {n topk hiddenSize : ℕ} (haccept : 0 < int32 hiddenSize) {l : Launch (SumAccess α)} :
    gatherAndSumTokensCudaDispatch gdr memory srcPtr n topk hiddenSize = .ok l ↔
      PointersFit gdr (n * topk) ∧ l = ⟨int32 n, int32 hiddenSize,
        gatherAndSumTokensKernel memory srcPtr (int32 n) (int32 topk) (int32 hiddenSize)⟩ := by
  rw [gatherAndSumTokensCudaDispatch, copySrcPtrs_bind_ok_iff, gatherAndSumTokensCuda,
    if_neg (not_not.mpr haccept), Except.ok.injEq, eq_comm (b := l)]

/-- A call of `gather_and_sum_tokens`: the accesses of all threads in some order. -/
def GatherAndSumTokens [Add α] (gdr : Bool) (memory : ℕ → α) (srcPtr : ℤ → ℕ)
    (n topk hiddenSize : ℕ) (out out' : ℤ → α) : Prop :=
  ∃ l, gatherAndSumTokensCudaDispatch gdr memory srcPtr n topk hiddenSize = .ok l ∧
    ∃ order, Interleaves l.threads order ∧
      out' = order.foldl (fun mem a => Function.update mem a.addr (a.act (mem a.addr))) out

theorem foldl_add_range' [AddCommMonoid α] (f : ℕ → α) (m : ℕ) :
    (List.range' 1 m).foldl (fun acc k => f k + acc) (f 0) = ∑ k ∈ Finset.range (m + 1), f k := by
  induction m with
  | zero => simp
  | succ m ih =>
    rw [List.range'_1_concat, List.foldl_append, ih, Finset.sum_range_succ _ (m + 1), Nat.add_comm 1 m]
    exact add_comm _ _

end StreamInfer.Cuda
