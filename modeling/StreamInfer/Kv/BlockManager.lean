import StreamInfer.Batch.Metadata
import StreamInfer.General.Holdings

/-! The block manager of `block_manager.cpp`: a queue of free blocks and a block
table for every request. Each operation has one lemma saying when it succeeds
and what it leaves; a new request takes its blocks off the front of the queue,
and a further token takes one more exactly when the length so far is a multiple
of the block size. -/

namespace StreamInfer.Kv

open General General.Stateful Batch

structure BlockManager where
  blockSize : ℕ
  numBlocks : ℕ
  reservedBlocks : ℕ
  freeBlocks : List ℕ
  blockTables : AList fun _ : ℤ => List ℕ
  deriving DecidableEq

namespace BlockManager

abbrev BlockM := EStateM Fault BlockManager

def new (blockSize numBlocks reservedBlocks : ℕ) : BlockManager where
  blockSize := blockSize
  numBlocks := numBlocks
  reservedBlocks := reservedBlocks
  freeBlocks := List.range (numBlocks + reservedBlocks)
  blockTables := ∅

def numFreeBlocks (m : BlockManager) : ℕ := m.freeBlocks.length

def hasSeqBlockList (m : BlockManager) (reqId : ℤ) : Bool := (m.blockTables.lookup reqId).isSome

def getOneFreeBlock : BlockM ℕ := do
  let m ← get
  match m.freeBlocks with
  | [] => throw (.assertion "free_blocks_.size() > 0")
  | blockId :: free =>
    set { m with freeBlocks := free }
    return blockId

def release (reqId : ℤ) : BlockM Unit := do
  let m ← get
  match m.blockTables.lookup reqId with
  | none => throw (.assertion "block_tables_.find(req_ids) != block_tables_.end()")
  | some blocks =>
    set { m with
      freeBlocks := m.freeBlocks ++ blocks
      blockTables := m.blockTables.erase reqId }

def batchRelease (reqIds : List ℤ) : BlockM Unit := forM reqIds release

/-- `n` calls of `get_one_free_block`. -/
def takeFreeBlocks : ℕ → BlockM (List ℕ)
  | 0 => return []
  | n + 1 => do
    let blockId ← getOneFreeBlock
    let blockIds ← takeFreeBlocks n
    return blockId :: blockIds

def allocate (reqId seqLen : ℤ) : BlockM Unit := do
  let m ← get
  ensure (m.hasSeqBlockList reqId = false) "block_tables_.find(req_id) == block_tables_.end()"
  let blocksNeeded := (seqLen - 1).tdiv m.blockSize + 1
  ensure (blocksNeeded + m.reservedBlocks ≤ m.numFreeBlocks)
    "num_free_blocks() >= blocks_needed + reserved_blocks_"
  if blocksNeeded < 0 then throw (.outOfRange "std::vector<int>(blocks_needed)")
  let blockList ← takeFreeBlocks blocksNeeded.toNat
  modify fun m => { m with blockTables := m.blockTables.insert reqId blockList }

/-- One free block at the end of the request's table. -/
def pushFreeBlock (reqId : ℤ) : BlockM Unit := do
  let blockId ← getOneFreeBlock
  let m ← get
  match m.blockTables.lookup reqId with
  | none => throw (.assertion "seq_block_list != block_tables_.end()")
  | some blocks => set { m with blockTables := m.blockTables.insert reqId (blocks ++ [blockId]) }

def appendBlock (reqId : ℤ) : BlockM Unit := do
  ensure (0 < (← get).numFreeBlocks) "num_free_blocks() > 0"
  pushFreeBlock reqId

/-- The free slots of the last block of a sequence. -/
def remainSlots (blockSize : ℕ) (contextLen : ℤ) : ℤ :=
  let remain := (blockSize : ℤ) - contextLen.tmod blockSize
  if remain = blockSize then 0 else remain

def appendTokens (reqId contextLen numTokens : ℤ) : BlockM Unit := do
  let m ← get
  ensure (1 ≤ numTokens) "num_tokens >= 1"
  ensure (m.hasSeqBlockList reqId = true) "has_seq_block_list(req_id)"
  ensure (0 < contextLen) "context_len > 0"
  let remain := remainSlots m.blockSize contextLen
  if remain < numTokens then
    let blocksToAdd := (numTokens - remain - 1).tdiv m.blockSize + 1
    ensure (blocksToAdd < m.numFreeBlocks) "num_free_blocks() > blocks_to_add"
    forM (List.replicate blocksToAdd.toNat reqId) pushFreeBlock

def updateBlockTable {W : Type} (metaC : BatchMetadata W) (contextLens : List ℤ) : BlockM Unit := do
  let numPrefillTokens ← valueOf "num_prefill_tokens" metaC.numPrefillTokens
  let _ ← valueOf "num_decode_tokens" metaC.numDecodeTokens
  forM (List.range numPrefillTokens) fun i => do
    let reqId ← readAt "req_ids[i]" metaC.reqIds i
    ensure ((← get).hasSeqBlockList reqId = false) "!has_seq_block_list(req_id)"
    let initPrefillLen ← readAt "init_prefill_lens[i]" metaC.initPrefillLens i
    allocate reqId initPrefillLen
  forM (List.range metaC.numTokens) fun i => do
    let reqId ← readAt "req_ids[i]" metaC.reqIds i
    ensure ((← get).hasSeqBlockList reqId = true) "has_seq_block_list(req_id)"
    let contextLen ← readAt "context_lens[i]" contextLens i
    appendTokens reqId contextLen 1

/-! ### When the operations succeed -/

variable {m m' : BlockManager}

theorem getOneFreeBlock_ok_iff {b : ℕ} :
    getOneFreeBlock m = .ok b m' ↔
      ∃ free, m.freeBlocks = b :: free ∧ m' = { m with freeBlocks := free } := by
  rw [getOneFreeBlock, get_bind]
  cases h : m.freeBlocks with
  | nil => simp
  | cons b' free =>
    simp only [bind_ok_iff, set_ok_iff, pure_ok_iff]
    constructor
    · rintro ⟨_, _, rfl, rfl, rfl⟩
      exact ⟨free, rfl, rfl⟩
    · rintro ⟨free', hfree, rfl⟩
      obtain ⟨rfl, rfl⟩ := List.cons.inj hfree
      exact ⟨⟨⟩, _, rfl, rfl, rfl⟩

theorem takeFreeBlocks_ok_iff {n : ℕ} {blocks : List ℕ} :
    takeFreeBlocks n m = .ok blocks m' ↔ n ≤ m.freeBlocks.length ∧
      blocks = m.freeBlocks.take n ∧ m' = { m with freeBlocks := m.freeBlocks.drop n } := by
  induction n generalizing m m' blocks with
  | zero => simp [takeFreeBlocks]
  | succ n ih =>
    simp only [takeFreeBlocks, bind_ok_iff, getOneFreeBlock_ok_iff, ih, pure_ok_iff]
    constructor
    · rintro ⟨b, m₁, ⟨free, hfree, rfl⟩, rest, m₂, ⟨hn, rfl, rfl⟩, rfl, rfl⟩
      simp [hfree, hn]
    · rintro ⟨hn, rfl, rfl⟩
      cases hfree : m.freeBlocks with
      | nil => simp [hfree] at hn
      | cons b free =>
        rw [hfree] at hn
        exact ⟨b, _, ⟨free, rfl, rfl⟩, _, _, ⟨by simpa using hn, rfl, rfl⟩, by simp⟩

theorem hasSeqBlockList_iff {reqId : ℤ} : m.hasSeqBlockList reqId = true ↔ reqId ∈ m.blockTables :=
  AList.lookup_isSome

theorem release_ok_iff {reqId : ℤ} {u : Unit} :
    release reqId m = .ok u m' ↔ ∃ blocks, m.blockTables.lookup reqId = some blocks ∧
      m' = { m with
        freeBlocks := m.freeBlocks ++ blocks
        blockTables := m.blockTables.erase reqId } := by
  rw [release, get_bind]
  cases h : m.blockTables.lookup reqId with
  | none => simp
  | some blocks => simp

/-- `(seq_len - 1) / block_size + 1` rounds up. -/
theorem blocksNeeded_eq {blockSize seqLen : ℕ} (hb : 0 < blockSize) (hl : 1 ≤ seqLen) :
    ((seqLen : ℤ) - 1).tdiv blockSize + 1 = (seqLen ⌈/⌉ blockSize : ℕ) := by
  have hpred : (seqLen : ℤ) - 1 = ((seqLen - 1 : ℕ) : ℤ) := by omega
  have hceil : seqLen ⌈/⌉ blockSize = (seqLen - 1) / blockSize + 1 := by
    rw [Nat.ceilDiv_eq_add_pred_div, ← Nat.add_div_right _ hb]
    congr 1
    omega
  rw [hpred, ← Int.ofNat_tdiv, hceil]
  rfl

/-- A new request takes its blocks off the front of the queue. -/
theorem allocate_ok_iff {reqId : ℤ} {seqLen : ℕ} {u : Unit} (hb : 0 < m.blockSize)
    (hl : 1 ≤ seqLen) :
    allocate reqId seqLen m = .ok u m' ↔ reqId ∉ m.blockTables ∧
      seqLen ⌈/⌉ m.blockSize + m.reservedBlocks ≤ m.freeBlocks.length ∧
      m' = { m with
        freeBlocks := m.freeBlocks.drop (seqLen ⌈/⌉ m.blockSize)
        blockTables := m.blockTables.insert reqId
          (m.freeBlocks.take (seqLen ⌈/⌉ m.blockSize)) } := by
  generalize hk : seqLen ⌈/⌉ m.blockSize = k
  have hneg : ¬ (k : ℤ) < 0 := by omega
  have hroom : (k : ℤ) + m.reservedBlocks ≤ m.numFreeBlocks ↔
      k + m.reservedBlocks ≤ m.freeBlocks.length := by
    unfold numFreeBlocks
    omega
  rw [allocate, get_bind, blocksNeeded_eq hb hl, hk]
  simp only [bind_ok_iff, ensure_ok_iff, Bool.eq_false_iff, ne_eq, hasSeqBlockList_iff, hneg,
    ↓reduceIte, Int.toNat_natCast, takeFreeBlocks_ok_iff, modify_ok_iff, hroom]
  constructor
  · rintro ⟨_, _, ⟨hnew, rfl⟩, _, _, ⟨hfree, rfl⟩, _, _, ⟨-, rfl, rfl⟩, rfl⟩
    exact ⟨hnew, hfree, rfl⟩
  · rintro ⟨hnew, hfree, rfl⟩
    exact ⟨⟨⟩, m, ⟨hnew, rfl⟩, ⟨⟩, m, ⟨hfree, rfl⟩, _, _, ⟨by omega, rfl, rfl⟩, rfl⟩

theorem remainSlots_lt_one {blockSize : ℕ} (contextLen : ℕ) (hb : 0 < blockSize) :
    remainSlots blockSize contextLen < 1 ↔ contextLen % blockSize = 0 := by
  have hlt := Nat.mod_lt contextLen hb
  rw [remainSlots, ← Int.ofNat_tmod]
  split_ifs <;> omega

/-- One more block at the end of the table of a request that has one. -/
theorem pushFreeBlock_ok_iff {reqId : ℤ} {u : Unit} :
    pushFreeBlock reqId m = .ok u m' ↔ ∃ b free blocks, m.freeBlocks = b :: free ∧
      m.blockTables.lookup reqId = some blocks ∧
      m' = { m with
        freeBlocks := free
        blockTables := m.blockTables.insert reqId (blocks ++ [b]) } := by
  simp only [pushFreeBlock, bind_ok_iff, getOneFreeBlock_ok_iff, get_bind]
  constructor
  · rintro ⟨b, m₁, ⟨free, hfree, rfl⟩, hset⟩
    cases hblocks : m.blockTables.lookup reqId with
    | none => simp [hblocks] at hset
    | some blocks =>
      simp only [hblocks, set_ok_iff] at hset
      exact ⟨b, free, blocks, hfree, rfl, hset⟩
  · rintro ⟨b, free, blocks, hfree, hblocks, rfl⟩
    exact ⟨b, _, ⟨free, hfree, rfl⟩, by simp [hblocks]⟩

/-- One token needs a new block exactly when the length is a multiple of the block
size, and then the queue has to hold two. -/
theorem appendTokens_ok_iff {reqId : ℤ} {contextLen : ℕ} {u : Unit} (hb : 0 < m.blockSize)
    (hl : 1 ≤ contextLen) :
    appendTokens reqId contextLen 1 m = .ok u m' ↔ reqId ∈ m.blockTables ∧
      if contextLen % m.blockSize = 0 then
        1 < m.freeBlocks.length ∧ pushFreeBlock reqId m = .ok u m'
      else m' = m := by
  have hpos : (0 : ℤ) < contextLen := by omega
  rw [appendTokens, get_bind]
  simp only [bind_ok_iff, ensure_ok_iff, le_refl, true_and, hasSeqBlockList_iff, hpos]
  by_cases hmod : contextLen % m.blockSize = 0
  · have hremain : remainSlots m.blockSize contextLen = 0 := by
      rw [remainSlots, ← Int.ofNat_tmod, hmod]
      simp
    have hone : ((1 : ℤ) - 0 - 1).tdiv m.blockSize + 1 = 1 := by simp
    have hloop : ∀ k : BlockManager, (forM (List.replicate 1 reqId) pushFreeBlock : BlockM PUnit) k =
        .ok u m' ↔ pushFreeBlock reqId k = .ok u m' := by
      intro k
      simp
    simp only [hremain, hmod, ↓reduceIte, zero_lt_one, hone, bind_ok_iff, ensure_ok_iff, hloop,
      numFreeBlocks, Int.toNat_one]
    constructor
    · rintro ⟨_, _, rfl, _, _, ⟨hmem, rfl⟩, _, _, rfl, _, _, ⟨hfree, rfl⟩, hpush⟩
      exact ⟨hmem, by omega, hpush⟩
    · rintro ⟨hmem, hfree, hpush⟩
      exact ⟨⟨⟩, m, rfl, ⟨⟩, m, ⟨hmem, rfl⟩, ⟨⟩, m, rfl, ⟨⟩, m, ⟨by omega, rfl⟩, hpush⟩
  · have hlt := (remainSlots_lt_one contextLen hb).not.mpr hmod
    simp [hlt, hmod]

/-- Allocate for each new request of a batch. -/
def allocateAll (requests : List (ℤ × ℤ)) : BlockM Unit :=
  forM requests fun p => do
    ensure ((← get).hasSeqBlockList p.1 = false) "!has_seq_block_list(req_id)"
    allocate p.1 p.2

/-- Make room for one token of each request of a batch. -/
def appendAll (requests : List (ℤ × ℤ)) : BlockM Unit :=
  forM requests fun p => do
    ensure ((← get).hasSeqBlockList p.1 = true) "has_seq_block_list(req_id)"
    appendTokens p.1 p.2 1

/-- On aligned columns the loops run over the requests. -/
theorem updateBlockTable_eq {W : Type} {metaC : BatchMetadata W} {contextLens : List ℤ} {k d : ℕ}
    (hk : metaC.numPrefillTokens = some k) (hd : metaC.numDecodeTokens = some d)
    (hq : metaC.reqIds.length = metaC.numTokens)
    (hp : metaC.initPrefillLens.length = metaC.numTokens)
    (hc : contextLens.length = metaC.numTokens) (hkn : k ≤ metaC.numTokens) :
    updateBlockTable metaC contextLens =
      (do allocateAll ((metaC.reqIds.zip metaC.initPrefillLens).take k)
          appendAll (metaC.reqIds.zip contextLens)) := by
  have htake : ((metaC.reqIds.zip metaC.initPrefillLens).take k).length = k := by
    rw [List.length_take, List.length_zip]
    omega
  have hzip : (metaC.reqIds.zip contextLens).length = metaC.numTokens := by
    rw [List.length_zip]
    omega
  have halloc := forM_range (l := (metaC.reqIds.zip metaC.initPrefillLens).take k)
    (f := fun i => do
      let reqId ← readAt "req_ids[i]" metaC.reqIds i
      ensure ((← get).hasSeqBlockList reqId = false) "!has_seq_block_list(req_id)"
      let initPrefillLen ← readAt "init_prefill_lens[i]" metaC.initPrefillLens i
      allocate reqId initPrefillLen)
    (g := fun p => do
      ensure ((← get).hasSeqBlockList p.1 = false) "!has_seq_block_list(req_id)"
      allocate p.1 p.2) (by
        intro i hi
        rw [htake] at hi
        rw [readAt_eq (by omega), readAt_eq (by omega), List.getElem_take, List.getElem_zip]
        simp only [pure_bind])
  have happend := forM_range (l := metaC.reqIds.zip contextLens)
    (f := fun i => do
      let reqId ← readAt "req_ids[i]" metaC.reqIds i
      ensure ((← get).hasSeqBlockList reqId = true) "has_seq_block_list(req_id)"
      let contextLen ← readAt "context_lens[i]" contextLens i
      appendTokens reqId contextLen 1)
    (g := fun p => do
      ensure ((← get).hasSeqBlockList p.1 = true) "has_seq_block_list(req_id)"
      appendTokens p.1 p.2 1) (by
        intro i hi
        rw [hzip] at hi
        rw [readAt_eq (by omega), readAt_eq (by omega), List.getElem_zip]
        simp only [pure_bind])
  rw [htake] at halloc
  rw [hzip] at happend
  rw [allocateAll, appendAll, ← halloc, ← happend, updateBlockTable, hk, hd]
  rfl

end BlockManager

end StreamInfer.Kv
