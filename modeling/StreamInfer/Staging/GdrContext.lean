import StreamInfer.Fault

/-! Registered regions of the device. A copy from the host into one is checked against its
size; the source pointers of a gather are copied into one of a fixed size. -/

namespace StreamInfer.Staging

/-- A registered region and its bytes. -/
structure GdrContext where
  size : ℕ

namespace GdrContext

/-- `GdrContext(get_cuda_aligned_tensor(numel, dtype))`. -/
def ofTensor (numel itemsize : ℕ) : GdrContext := ⟨numel * itemsize⟩

def overflow : Fault := .assertion "GdrContext::copy_from_host overflow"

/-- A copy of a vector of `n` elements; the data of an empty vector is a null pointer. -/
def copyFromHost (g : GdrContext) (n itemsize : ℕ) : Except Fault Unit :=
  if n = 0 then .error (.assertion "GdrContext::copy_from_host: src == nullptr")
  else if n * itemsize > g.size then .error overflow
  else .ok ()

/-- A copy of at most the elements of the tensor fits. -/
theorem copyFromHost_ne_overflow {n numel : ℕ} (h : n ≤ numel) (itemsize : ℕ) :
    (ofTensor numel itemsize).copyFromHost n itemsize ≠ .error overflow := by
  have hle : n * itemsize ≤ numel * itemsize := Nat.mul_le_mul_right _ h
  unfold copyFromHost ofTensor
  split_ifs with hn hlt
  · simp [overflow]
  · exact absurd hlt (Nat.not_lt_of_le hle)
  · simp

theorem copyFromHost_overflow {n numel itemsize : ℕ} (h : numel < n) (hi : 0 < itemsize) :
    (ofTensor numel itemsize).copyFromHost n itemsize = .error overflow := by
  have hlt : numel * itemsize < n * itemsize := Nat.mul_lt_mul_of_pos_right h hi
  have hn : n ≠ 0 := by omega
  rw [copyFromHost, if_neg hn]
  exact if_pos hlt

theorem copyFromHost_ok_iff {n numel itemsize : ℕ} (hi : 0 < itemsize) :
    (ofTensor numel itemsize).copyFromHost n itemsize = .ok () ↔ n ≠ 0 ∧ n ≤ numel := by
  rw [copyFromHost, ofTensor]
  split_ifs with hn hlt
  · simp [hn]
  · simpa using fun _ => Nat.lt_of_mul_lt_mul_right hlt
  · simpa using ⟨hn, Nat.le_of_mul_le_mul_right (not_lt.mp hlt) hi⟩

end GdrContext

def maxGatherTokens : ℕ := 1024 * 16

end StreamInfer.Staging
