import StreamInfer.Cuda.MoveToken
import StreamInfer.General.Int32

/-! The launches of the dispatch functions, and what a launch covers. Each thread has elements
of its own, and the threads of a row together have those below the last whole chunk: every
column of a row is visited once exactly when the chunk size divides the hidden size. A grid
that the device refuses visits nothing, and no launcher looks at the error. -/

namespace StreamInfer.Cuda

open General

/-! ### The columns of a row -/

/-- The elements that the threads of a row visit. -/
def rowOffsets (hiddenSize : ℕ) : List ℕ :=
  (List.range (hiddenSize / chunkSize hiddenSize)).flatMap fun chunkId =>
    (List.range numThreads).flatMap fun tid => threadOffsets (chunkSize hiddenSize) chunkId tid

theorem threadOffsets_nodup (task chunkId tid : ℕ) : (threadOffsets (16 * task) chunkId tid).Nodup := by
  unfold threadOffsets lanes
  rw [List.nodup_flatMap]
  constructor
  · intro i _
    refine List.nodup_range.map fun k k' hk => ?_
    have hk : _ + k = _ + k' := Nat.add_left_cancel hk
    exact Nat.add_left_cancel hk
  · refine List.Pairwise.imp ?_ (List.nodup_range' warpSize (by decide))
    intro i i' hne e h h'
    obtain ⟨k, hk, rfl⟩ := List.mem_map.mp h
    obtain ⟨k', hk', heq⟩ := List.mem_map.mp h'
    rw [List.mem_range] at hk hk'
    unfold vecSize at *
    omega

/-- An element belongs to one thread. -/
theorem threadOffsets_unique {task chunkId chunkId' tid tid' e : ℕ} (ht : tid < numThreads)
    (ht' : tid' < numThreads) (h : e ∈ threadOffsets (16 * task) chunkId tid)
    (h' : e ∈ threadOffsets (16 * task) chunkId' tid') : chunkId = chunkId' ∧ tid = tid' := by
  have htask : 0 < task := by
    obtain ⟨i, hi, -⟩ := mem_threadOffsets.mp h
    omega
  have hchunk := (mem_block htask).mp ⟨tid, ht, h⟩
  have hchunk' := (mem_block htask).mp ⟨tid', ht', h'⟩
  refine ⟨hchunk.symm.trans hchunk', ?_⟩
  rw [← hchunk.symm.trans hchunk'] at h'
  rw [mem_threadOffsets] at h h'
  unfold numThreads warpSize vecSize at *
  obtain ⟨i, hi, hmod, k, hk, rfl⟩ := h
  obtain ⟨i', hi', hmod', k', hk', heq⟩ := h'
  have hvec : tid / 32 * task + i = tid' / 32 * task + i' := by omega
  have hwarp : tid / 32 = tid' / 32 := by
    have hdiv := congrArg (· / task) hvec
    simpa only [Nat.mul_comm _ task, Nat.mul_add_div htask, Nat.div_eq_of_lt hi,
      Nat.div_eq_of_lt hi', Nat.add_zero] using hdiv
  rw [hwarp] at hvec
  omega

theorem rowOffsets_nodup (hiddenSize : ℕ) : (rowOffsets hiddenSize).Nodup := by
  obtain ⟨task, htask, hchunk⟩ := chunkSize_eq hiddenSize
  rw [rowOffsets, hchunk, List.nodup_flatMap]
  constructor
  · intro chunkId _
    rw [List.nodup_flatMap]
    refine ⟨fun tid _ => threadOffsets_nodup task chunkId tid, ?_⟩
    refine List.nodup_range.imp_of_mem fun {tid tid'} ht ht' hne e h h' => ?_
    exact hne (threadOffsets_unique (List.mem_range.mp ht) (List.mem_range.mp ht') h h').2
  · refine List.nodup_range.imp fun {c c'} hne e h h' => ?_
    obtain ⟨tid, ht, h⟩ := List.mem_flatMap.mp h
    obtain ⟨tid', ht', h'⟩ := List.mem_flatMap.mp h'
    exact hne (threadOffsets_unique (List.mem_range.mp ht) (List.mem_range.mp ht') h h').1

/-- The threads of a row visit what lies below the last whole chunk, once. -/
theorem rowOffsets_perm (hiddenSize : ℕ) : (rowOffsets hiddenSize).Perm
    (List.range (hiddenSize / chunkSize hiddenSize * chunkSize hiddenSize)) := by
  refine (List.perm_ext_iff_of_nodup (rowOffsets_nodup hiddenSize) List.nodup_range).mpr fun e => ?_
  obtain ⟨task, htask, hchunk⟩ := chunkSize_eq hiddenSize
  have hblock : ∀ chunkId, (∃ tid < numThreads, e ∈ threadOffsets (16 * task) chunkId tid) ↔
      e / (16 * task) = chunkId := fun _ => mem_block htask
  simp only [rowOffsets, hchunk, List.mem_flatMap, List.mem_range, hblock, exists_eq_right']
  rw [Nat.div_lt_iff_lt_mul (by omega)]

/-- Every column is visited once exactly when the chunks tile the row. -/
theorem rowOffsets_perm_iff (hiddenSize : ℕ) :
    (rowOffsets hiddenSize).Perm (List.range hiddenSize) ↔ chunkSize hiddenSize ∣ hiddenSize := by
  constructor
  · intro h
    have hlen := h.length_eq.symm.trans (rowOffsets_perm hiddenSize).length_eq
    rw [List.length_range, List.length_range] at hlen
    exact ⟨hiddenSize / chunkSize hiddenSize, by rw [Nat.mul_comm]; exact hlen⟩
  · intro h
    have hperm := rowOffsets_perm hiddenSize
    rwa [Nat.div_mul_cancel h] at hperm

theorem chunkSize_dvd_iff (hiddenSize : ℕ) :
    chunkSize hiddenSize ∣ hiddenSize ↔ 128 ∣ hiddenSize ∨ 960 ∣ hiddenSize := by
  unfold chunkSize
  split_ifs <;> omega

theorem zero_mem_threadOffsets (hiddenSize : ℕ) : 0 ∈ threadOffsets (chunkSize hiddenSize) 0 0 := by
  obtain ⟨task, htask, hchunk⟩ := chunkSize_eq hiddenSize
  rw [hchunk, mem_threadOffsets]
  exact ⟨0, htask, rfl, 0, by decide, by simp⟩

/-- What is done at each column of each row. -/
def columns {β : Type} (numTokens hiddenSize : ℕ) (f : ℕ → ℕ → List β) : List β :=
  (List.range numTokens).flatMap fun i => (List.range hiddenSize).flatMap (f i)

theorem length_columns {β : Type} {f : ℕ → ℕ → List β} {k : ℕ} (hf : ∀ i e, (f i e).length = k)
    (numTokens hiddenSize : ℕ) : (columns numTokens hiddenSize f).length = numTokens * (hiddenSize * k) := by
  simp [columns, List.length_flatMap, hf]

/-! ### Launches -/

/-- The largest second dimension of a grid. -/
def maxGridDimY : ℕ := 65535

/-- `kernel<<<grid(num_tokens, hidden_size / chunk_size, 1), block>>>`. -/
structure Launch (β : Type) where
  numTokens : ℤ
  hiddenSize : ℤ
  thread : ℕ → ℕ → ℕ → List β

namespace Launch

variable {β : Type}

def numChunks (l : Launch β) : ℕ := l.hiddenSize.toNat / chunkSize l.hiddenSize.toNat

/-- What the threads do. Neither a negative number of blocks nor too many chunks are launched. -/
def accesses (l : Launch β) : List β :=
  if l.numChunks ≤ maxGridDimY then grid l.numTokens.toNat l.hiddenSize.toNat l.thread else []

/-- What one thread does: of a token, a chunk and an index in the block. -/
def threads (l : Launch β) (t : ℕ × ℕ × ℕ) : List β :=
  if l.numChunks ≤ maxGridDimY ∧ t.1 < l.numTokens.toNat ∧ t.2.1 < l.numChunks ∧ t.2.2 < numThreads
  then l.thread t.1 t.2.1 t.2.2 else []

/-- What a thread of a launched grid does. -/
theorem mem_accesses {l : Launch β} (hchunks : l.numChunks ≤ maxGridDimY) {i chunkId tid : ℕ}
    (hi : i < l.numTokens.toNat) (hc : chunkId < l.numChunks) (ht : tid < numThreads) {a : β}
    (ha : a ∈ l.thread i chunkId tid) : a ∈ l.accesses := by
  rw [accesses, if_pos hchunks]
  simp only [grid, List.mem_flatMap, List.mem_range]
  exact ⟨i, hi, chunkId, hc, tid, ht, ha⟩

/-- Threads that do something at each of their offsets do it at each column. -/
theorem accesses_perm {l : Launch β} {n hiddenSize : ℕ} (hn : l.numTokens = n)
    (hh : l.hiddenSize = hiddenSize) (hdvd : chunkSize hiddenSize ∣ hiddenSize)
    (hchunks : hiddenSize / chunkSize hiddenSize ≤ maxGridDimY) {f : ℕ → ℕ → List β}
    (hthread : ∀ i < n, ∀ chunkId tid, (l.thread i chunkId tid).Perm
      ((threadOffsets (chunkSize hiddenSize) chunkId tid).flatMap (f i))) :
    l.accesses.Perm (columns n hiddenSize f) := by
  rw [accesses, numChunks, hn, hh, Int.toNat_natCast, Int.toNat_natCast, if_pos hchunks]
  refine List.Perm.flatMap_left _ fun i hi => ?_
  have hrow : ((rowOffsets hiddenSize).flatMap (f i)).Perm ((List.range hiddenSize).flatMap (f i)) :=
    ((rowOffsets_perm_iff hiddenSize).mpr hdvd).flatMap_right (f i)
  refine List.Perm.trans ?_ hrow
  simp only [rowOffsets, List.flatMap_assoc]
  exact List.Perm.flatMap_left _ fun chunkId _ => List.Perm.flatMap_left _ fun tid _ =>
    hthread i (List.mem_range.mp hi) chunkId tid

/-- Threads that do `m` things at each of their offsets. -/
theorem length_accesses {l : Launch β} {m : ℕ} (hchunks : l.numChunks ≤ maxGridDimY)
    (hthread : ∀ i < l.numTokens.toNat, ∀ chunkId tid, (l.thread i chunkId tid).length =
      (threadOffsets (chunkSize l.hiddenSize.toNat) chunkId tid).length * m) :
    l.accesses.length =
      l.numTokens.toNat * (l.numChunks * chunkSize l.hiddenSize.toNat * m) := by
  have hrow : ∀ i < l.numTokens.toNat, ((List.range l.numChunks).flatMap fun chunkId =>
      (List.range numThreads).flatMap fun tid => l.thread i chunkId tid).length =
        l.numChunks * chunkSize l.hiddenSize.toNat * m := by
    intro i hi
    have hoffsets : (rowOffsets l.hiddenSize.toNat).length =
        l.numChunks * chunkSize l.hiddenSize.toNat := by
      rw [(rowOffsets_perm _).length_eq, List.length_range, numChunks]
    rw [← hoffsets, rowOffsets, List.length_flatMap, List.length_flatMap, ← List.sum_map_mul_right]
    congr 1
    refine List.map_congr_left fun chunkId _ => ?_
    rw [List.length_flatMap, List.length_flatMap, ← List.sum_map_mul_right]
    congr 1
    exact List.map_congr_left fun tid _ => hthread i hi chunkId tid
  rw [accesses, if_pos hchunks, grid, ← numChunks, List.length_flatMap,
    List.map_congr_left fun i hi => hrow i (List.mem_range.mp hi)]
  simp

/-- The sizes of a launch are no larger than those of its call. When it does as much as the
call asks for, they are the same, and the chunks tile a row. -/
theorem tiled_of_length {l : Launch β} {n hiddenSize m k : ℕ}
    (hthread : ∀ i < l.numTokens.toNat, ∀ chunkId tid, (l.thread i chunkId tid).length =
      (threadOffsets (chunkSize l.hiddenSize.toNat) chunkId tid).length * m)
    (hn : l.numTokens.toNat ≤ n) (hh : l.hiddenSize.toNat ≤ hiddenSize) (hm : m ≤ k)
    (hpos : 0 < n * (hiddenSize * k)) (hlen : l.accesses.length = n * (hiddenSize * k)) :
    l.numChunks ≤ maxGridDimY ∧ l.numTokens.toNat = n ∧ l.hiddenSize.toNat = hiddenSize ∧
      chunkSize hiddenSize ∣ hiddenSize ∧ m = k := by
  have hchunks : l.numChunks ≤ maxGridDimY := by
    by_contra hrefused
    rw [accesses, if_neg hrefused] at hlen
    exact hpos.ne hlen
  rw [length_accesses hchunks hthread] at hlen
  have hcols : l.numChunks * chunkSize l.hiddenSize.toNat ≤ l.hiddenSize.toNat :=
    Nat.div_mul_le_self _ _
  have hrow := Nat.mul_le_mul (hcols.trans hh) hm
  rw [← hlen] at hpos
  have hrow0 := Nat.pos_of_mul_pos_left hpos
  obtain ⟨hrows, hsame⟩ := (mul_eq_mul_iff_eq_and_eq_of_pos' hn hrow
    (by rw [hlen] at hpos; exact Nat.pos_of_mul_pos_right hpos) hrow0).mp hlen
  have hk : 0 < k := by
    rw [hsame] at hrow0
    exact Nat.pos_of_mul_pos_left hrow0
  obtain ⟨htiled, hm'⟩ := (mul_eq_mul_iff_eq_and_eq_of_pos (hcols.trans hh) hm
    (Nat.pos_of_mul_pos_right hrow0) hk).mp hsame
  have hsize : l.hiddenSize.toNat = hiddenSize := hh.antisymm (htiled.symm.trans_le hcols)
  refine ⟨hchunks, hrows, hsize, ⟨l.numChunks, ?_⟩, hm'⟩
  rw [← hsize, Nat.mul_comm, htiled, hsize]

end Launch

end StreamInfer.Cuda
