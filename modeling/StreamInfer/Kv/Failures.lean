import StreamInfer.Kv.Room
import StreamInfer.Kv.Runs
import StreamInfer.General.Reach

/-! Block manager calls that fail. A call about one request checks everything it
needs before it changes anything, so a failure leaves the queue and the tables
as they were. The calls about a batch go through it request by request and keep
what the passes before the failing one did; no block is lost on the way. The
worker records prompt lengths before the tables are updated, so these stay. -/

namespace StreamInfer.Kv

open General General.Stateful Batch

namespace BlockManager

variable {W : Type} {m m' : BlockManager} {reqId : ℤ} {e : Fault}

/-- All blocks, free or in a table. -/
def allBlocks (m : BlockManager) : List ℕ := m.freeBlocks ++ holdings m.blockTables

/-! ### Calls about one request -/

theorem release_atomic (reqId : ℤ) : Atomic (release reqId) := by
  intro m
  refine AtomicAt.get_bind ?_
  cases m.blockTables.lookup reqId with
  | none =>
    intro e m' h
    exact (throw_error_iff.mp h).2
  | some blocks => exact atomicAt_of_ok rfl

/-- The room is checked before the first block is taken. -/
theorem allocate_atomic (reqId seqLen : ℤ) : Atomic (allocate reqId seqLen) := by
  intro m
  refine AtomicAt.get_bind (atomicAt_ensure fun _ => atomicAt_ensure fun hroom => ?_)
  generalize (seqLen - 1).tdiv m.blockSize + 1 = k at hroom ⊢
  split_ifs with hk
  · intro e m' h
    simp [bind_error_iff] at h
    exact h.2
  · have hlen : k.toNat ≤ m.freeBlocks.length := by
      unfold numFreeBlocks at hroom
      omega
    have htake : takeFreeBlocks k.toNat m = .ok (m.freeBlocks.take k.toNat)
        { m with freeBlocks := m.freeBlocks.drop k.toNat } :=
      takeFreeBlocks_ok_iff.mpr ⟨hlen, rfl, rfl⟩
    exact atomicAt_of_ok ((bind_of_ok htake).trans rfl)

/-- What a successful allocation leaves. -/
theorem allocate_ok {seqLen : ℤ} {u : Unit} (h : allocate reqId seqLen m = .ok u m') :
    reqId ∉ m.blockTables ∧ ∃ k ≤ m.freeBlocks.length,
      m' = { m with
        freeBlocks := m.freeBlocks.drop k
        blockTables := m.blockTables.insert reqId (m.freeBlocks.take k) } := by
  rw [allocate, get_bind] at h
  simp only [bind_ok_iff, ensure_ok_iff, Bool.eq_false_iff, ne_eq, hasSeqBlockList_iff] at h
  obtain ⟨_, _, ⟨hnew, rfl⟩, _, _, ⟨-, rfl⟩, h⟩ := h
  split_ifs at h
  · simp [bind_ok_iff] at h
  · simp only [bind_ok_iff, takeFreeBlocks_ok_iff, modify_ok_iff] at h
    obtain ⟨_, _, ⟨hk, rfl, rfl⟩, rfl⟩ := h
    exact ⟨hnew, _, hk, rfl⟩

theorem mem_of_pushFreeBlock {u : Unit} (h : pushFreeBlock reqId m = .ok u m') :
    reqId ∈ m'.blockTables ∧ m.freeBlocks.length = m'.freeBlocks.length + 1 := by
  obtain ⟨b, free, blocks, hfree, -, rfl⟩ := pushFreeBlock_ok_iff.mp h
  exact ⟨(AList.mem_insert _).mpr (.inl rfl), by rw [hfree]; rfl⟩

/-- A request with a table takes as many blocks as there are. -/
theorem exists_pushFreeBlocks {n : ℕ} (hmem : reqId ∈ m.blockTables)
    (hn : n ≤ m.freeBlocks.length) :
    ∃ m', (forM (List.replicate n reqId) pushFreeBlock : BlockM PUnit) m = .ok ⟨⟩ m' := by
  induction n generalizing m with
  | zero => exact ⟨m, rfl⟩
  | succ n ih =>
    obtain ⟨blocks, hblocks⟩ := Option.isSome_iff_exists.mp (AList.lookup_isSome.mpr hmem)
    obtain ⟨b, free, hfree⟩ : ∃ b free, m.freeBlocks = b :: free := by
      cases hfree : m.freeBlocks with
      | nil => simp [hfree] at hn
      | cons b free => exact ⟨b, free, rfl⟩
    obtain ⟨m₁, hone⟩ : ∃ m₁, pushFreeBlock reqId m = .ok ⟨⟩ m₁ :=
      ⟨_, pushFreeBlock_ok_iff.mpr ⟨b, free, blocks, hfree, hblocks, rfl⟩⟩
    obtain ⟨hmem₁, hlen⟩ := mem_of_pushFreeBlock hone
    obtain ⟨m₂, hrest⟩ := ih hmem₁ (by omega)
    exact ⟨m₂, by rw [List.replicate_succ, List.forM_cons, bind_of_ok hone]; exact hrest⟩

theorem appendTokens_atomic (reqId contextLen numTokens : ℤ) :
    Atomic (appendTokens reqId contextLen numTokens) := by
  intro m
  refine AtomicAt.get_bind (atomicAt_ensure fun _ => atomicAt_ensure fun hlist =>
    atomicAt_ensure fun _ => ?_)
  rw [hasSeqBlockList_iff] at hlist
  dsimp only
  split_ifs
  · refine atomicAt_ensure fun hroom => ?_
    obtain ⟨m', hpush⟩ := exists_pushFreeBlocks hlist (Int.toNat_le.mpr hroom.le)
    exact atomicAt_of_ok hpush
  · exact atomicAt_of_ok rfl

/-- A block is taken before the table is looked up. -/
theorem appendBlock_atomicAt (h : reqId ∈ m.blockTables ∨ m.freeBlocks = []) :
    AtomicAt (appendBlock reqId) m := by
  refine AtomicAt.get_bind (atomicAt_ensure fun hfree => ?_)
  have hmem : reqId ∈ m.blockTables := h.resolve_right (List.ne_nil_of_length_pos hfree)
  obtain ⟨m', hpush⟩ := exists_pushFreeBlocks hmem (n := 1) hfree
  rw [List.replicate_one, List.forM_cons] at hpush
  obtain ⟨_, m₁, hone, -⟩ := bind_ok_iff.mp hpush
  exact atomicAt_of_ok hone

/-! ### Calls about a batch -/

/-- The first loop of `update_block_table` at one index. -/
def allocatePass (metaC : BatchMetadata W) (i : ℕ) : BlockM Unit := do
  let reqId ← readAt "req_ids[i]" metaC.reqIds i
  ensure ((← get).hasSeqBlockList reqId = false) "!has_seq_block_list(req_id)"
  let initPrefillLen ← readAt "init_prefill_lens[i]" metaC.initPrefillLens i
  allocate reqId initPrefillLen

/-- The second loop of `update_block_table` at one index. -/
def appendPass (metaC : BatchMetadata W) (contextLens : List ℤ) (i : ℕ) : BlockM Unit := do
  let reqId ← readAt "req_ids[i]" metaC.reqIds i
  ensure ((← get).hasSeqBlockList reqId = true) "has_seq_block_list(req_id)"
  let contextLen ← readAt "context_lens[i]" contextLens i
  appendTokens reqId contextLen 1

theorem updateBlockTable_eq_passes (metaC : BatchMetadata W) (contextLens : List ℤ) :
    updateBlockTable metaC contextLens = (do
      let k ← valueOf "num_prefill_tokens" metaC.numPrefillTokens
      let _ ← valueOf "num_decode_tokens" metaC.numDecodeTokens
      forM (List.range k) (allocatePass metaC)
      forM (List.range metaC.numTokens) (appendPass metaC contextLens)) := rfl

theorem allocatePass_atomic (metaC : BatchMetadata W) (i : ℕ) : Atomic (allocatePass metaC i) := by
  intro m
  refine atomicAt_readAt fun reqId _ => AtomicAt.get_bind (atomicAt_ensure fun _ => ?_)
  exact atomicAt_readAt fun seqLen _ => allocate_atomic reqId seqLen m

theorem appendPass_atomic (metaC : BatchMetadata W) (contextLens : List ℤ) (i : ℕ) :
    Atomic (appendPass metaC contextLens i) := by
  intro m
  refine atomicAt_readAt fun reqId _ => AtomicAt.get_bind (atomicAt_ensure fun _ => ?_)
  exact atomicAt_readAt fun contextLen _ => appendTokens_atomic reqId contextLen 1 m

theorem batchRelease_error {reqIds : List ℤ} (h : batchRelease reqIds m = .error e m') :
    ∃ done q rest, reqIds = done ++ q :: rest ∧ batchRelease done m = .ok ⟨⟩ m' ∧
      q ∉ m'.blockTables := by
  obtain ⟨done, q, rest, hsplit, hdone, hq⟩ := forM_error release_atomic h
  refine ⟨done, q, rest, hsplit, hdone, fun hmem => ?_⟩
  obtain ⟨blocks, hblocks⟩ := Option.isSome_iff_exists.mp (AList.lookup_isSome.mpr hmem)
  rw [release_ok_iff (u := ⟨⟩).mpr ⟨blocks, hblocks, rfl⟩] at hq
  simp at hq

/-- The passes a failing `update_block_table` completed. -/
def Completed (metaC : BatchMetadata W) (contextLens : List ℤ) (m m' : BlockManager) : Prop :=
  ∃ k, metaC.numPrefillTokens = some k ∧
    ((∃ i < k, (forM (List.range i) (allocatePass metaC) : BlockM PUnit) m = .ok ⟨⟩ m' ∧
        ∃ e, allocatePass metaC i m' = .error e m') ∨
      ∃ m₁, (forM (List.range k) (allocatePass metaC) : BlockM PUnit) m = .ok ⟨⟩ m₁ ∧
        ∃ i < metaC.numTokens,
          (forM (List.range i) (appendPass metaC contextLens) : BlockM PUnit) m₁ = .ok ⟨⟩ m' ∧
          ∃ e, appendPass metaC contextLens i m' = .error e m')

theorem updateBlockTable_error {metaC : BatchMetadata W} {contextLens : List ℤ}
    (h : updateBlockTable metaC contextLens m = .error e m') :
    m' = m ∨ Completed metaC contextLens m m' := by
  rw [updateBlockTable_eq_passes] at h
  cases hk : metaC.numPrefillTokens with
  | none =>
    simp [valueOf, hk, bind_error_iff] at h
    exact .inl h.2
  | some k =>
    cases hd : metaC.numDecodeTokens with
    | none =>
      simp [valueOf, hk, hd, bind_error_iff] at h
      exact .inl h.2
    | some d =>
      simp only [hk, hd, valueOf, pure_bind, bind_error_iff] at h
      refine .inr ⟨k, hk, ?_⟩
      rcases h with h | ⟨⟨⟩, m₁, h₁, h₂⟩
      · obtain ⟨i, hi, hdone, hfail⟩ := forM_range_error (allocatePass_atomic metaC) h
        exact .inl ⟨i, hi, hdone, e, hfail⟩
      · obtain ⟨i, hi, hdone, hfail⟩ := forM_range_error (appendPass_atomic metaC contextLens) h₂
        exact .inr ⟨m₁, h₁, i, hi, hdone, e, hfail⟩

/-! ### No block is lost -/

/-- Blocks moved between the queue and the tables of some requests. -/
structure MovedFor (touched : ℤ → Prop) (m m' : BlockManager) : Prop where
  blocks : m'.allBlocks.Perm m.allBlocks
  others : ∀ q, ¬ touched q → m'.blockTables.lookup q = m.blockTables.lookup q

theorem MovedFor.refl (touched : ℤ → Prop) (m : BlockManager) : MovedFor touched m m :=
  ⟨.refl _, fun _ _ => rfl⟩

theorem MovedFor.trans {touched : ℤ → Prop} {m₀ : BlockManager} (h : MovedFor touched m₀ m)
    (h' : MovedFor touched m m') : MovedFor touched m₀ m' :=
  ⟨h'.blocks.trans h.blocks, fun q hq => (h'.others q hq).trans (h.others q hq)⟩

theorem MovedFor.mono {touched touched' : ℤ → Prop} (h : MovedFor touched m m')
    (hsub : ∀ q, touched q → touched' q) : MovedFor touched' m m' :=
  ⟨h.blocks, fun q hq => h.others q fun ht => hq (hsub q ht)⟩

theorem allocate_moved {seqLen : ℤ} {u : Unit} (h : allocate reqId seqLen m = .ok u m') :
    MovedFor (· = reqId) m m' := by
  obtain ⟨hnew, k, -, rfl⟩ := allocate_ok h
  refine ⟨?_, fun q hq => AList.lookup_insert_ne hq⟩
  simp only [allBlocks, holdings_insert_of_notMem hnew, ← List.append_assoc]
  exact (List.perm_append_comm.trans (.of_eq (List.take_append_drop _ _))).append_right _

theorem pushFreeBlock_moved {u : Unit} (h : pushFreeBlock reqId m = .ok u m') :
    MovedFor (· = reqId) m m' := by
  obtain ⟨b, free, blocks, hfree, hblocks, rfl⟩ := pushFreeBlock_ok_iff.mp h
  refine ⟨?_, fun q hq => AList.lookup_insert_ne hq⟩
  have hmiddle : (free ++ blocks ++ b :: holdings (m.blockTables.erase reqId)).Perm
      (b :: (free ++ blocks ++ holdings (m.blockTables.erase reqId))) := List.perm_middle
  refine List.Perm.trans ?_ (List.Perm.append_left _ (holdings_perm hblocks).symm)
  rw [hfree, allBlocks, holdings_insert]
  simpa only [List.append_assoc, List.cons_append, List.nil_append] using hmiddle

theorem release_moved {u : Unit} (h : release reqId m = .ok u m') : MovedFor (· = reqId) m m' := by
  obtain ⟨blocks, hblocks, rfl⟩ := release_ok_iff.mp h
  refine ⟨?_, fun q hq => AList.lookup_erase_ne hq⟩
  simp only [allBlocks, List.append_assoc]
  exact (holdings_perm hblocks).symm.append_left _

theorem appendTokens_moved {contextLen numTokens : ℤ} {u : Unit}
    (h : appendTokens reqId contextLen numTokens m = .ok u m') : MovedFor (· = reqId) m m' := by
  rw [appendTokens, get_bind] at h
  simp only [bind_ok_iff, ensure_ok_iff] at h
  obtain ⟨_, _, ⟨-, rfl⟩, _, _, ⟨-, rfl⟩, _, _, ⟨-, rfl⟩, h⟩ := h
  split_ifs at h
  · simp only [bind_ok_iff, ensure_ok_iff] at h
    obtain ⟨_, _, ⟨-, rfl⟩, h⟩ := h
    refine forM_keeps (I := MovedFor (· = reqId) _) ?_ (.refl _ _) h
    intro q hq m₁ m₂ h₁ hpush
    obtain rfl := List.eq_of_mem_replicate hq
    exact h₁.trans (pushFreeBlock_moved hpush)
  · obtain ⟨-, rfl⟩ := pure_ok_iff.mp h
    exact .refl _ _

theorem allocatePass_moved {metaC : BatchMetadata W} {i : ℕ} {u : Unit}
    (h : allocatePass metaC i m = .ok u m') : MovedFor (· ∈ metaC.reqIds) m m' := by
  simp only [allocatePass, bind_ok_iff, readAt_ok_iff, get_bind, ensure_ok_iff] at h
  obtain ⟨q, _, ⟨hq, rfl⟩, _, _, ⟨-, rfl⟩, l, _, ⟨-, rfl⟩, h⟩ := h
  exact (allocate_moved h).mono fun r hr => hr ▸ List.mem_of_getElem? hq

theorem appendPass_moved {metaC : BatchMetadata W} {contextLens : List ℤ} {i : ℕ} {u : Unit}
    (h : appendPass metaC contextLens i m = .ok u m') : MovedFor (· ∈ metaC.reqIds) m m' := by
  simp only [appendPass, bind_ok_iff, readAt_ok_iff, get_bind, ensure_ok_iff] at h
  obtain ⟨q, _, ⟨hq, rfl⟩, _, _, ⟨-, rfl⟩, l, _, ⟨-, rfl⟩, h⟩ := h
  exact (appendTokens_moved h).mono fun r hr => hr ▸ List.mem_of_getElem? hq

/-- However it ends, `update_block_table` moves blocks for its requests alone. -/
theorem updateBlockTable_keeps (metaC : BatchMetadata W) (contextLens : List ℤ)
    (m₀ : BlockManager) :
    Keeps (MovedFor (· ∈ metaC.reqIds) m₀) (updateBlockTable metaC contextLens) := by
  rw [updateBlockTable_eq_passes]
  refine (valueOf_keeps _ _ _).bind fun k => (valueOf_keeps _ _ _).bind fun _ => ?_
  refine (Keeps.forM fun i _ => ?_).bind fun _ => Keeps.forM fun i _ => ?_
  · refine Atomic.keeps (allocatePass_atomic metaC i) fun m₁ u m₂ h₁ hpass => ?_
    exact h₁.trans (allocatePass_moved hpass)
  · refine Atomic.keeps (appendPass_atomic metaC contextLens i) fun m₁ u m₂ h₁ hpass => ?_
    exact h₁.trans (appendPass_moved hpass)

theorem batchRelease_keeps (reqIds : List ℤ) (m₀ : BlockManager) :
    Keeps (MovedFor (· ∈ reqIds) m₀) (batchRelease reqIds) := by
  refine Keeps.forM fun r hr => Atomic.keeps (release_atomic r) fun m₁ u m₂ h₁ hone => ?_
  exact h₁.trans ((release_moved hone).mono fun q hq => hq ▸ hr)

/-! ### Any call -/

/-- The calls of a block manager. -/
inductive Call (W : Type)
  | allocate (reqId seqLen : ℤ)
  | appendBlock (reqId : ℤ)
  | appendTokens (reqId contextLen numTokens : ℤ)
  | release (reqId : ℤ)
  | batchRelease (reqIds : List ℤ)
  | updateBlockTable (metaC : BatchMetadata W) (contextLens : List ℤ)

namespace Call

def run : Call W → BlockM Unit
  | allocate reqId seqLen => BlockManager.allocate reqId seqLen
  | appendBlock reqId => BlockManager.appendBlock reqId
  | appendTokens reqId contextLen numTokens => BlockManager.appendTokens reqId contextLen numTokens
  | release reqId => BlockManager.release reqId
  | batchRelease reqIds => BlockManager.batchRelease reqIds
  | updateBlockTable metaC contextLens => BlockManager.updateBlockTable metaC contextLens

/-- An appended block has a table to go to, or there is none to append. -/
def Placed (m : BlockManager) : Call W → Prop
  | appendBlock reqId => reqId ∈ m.blockTables ∨ m.freeBlocks = []
  | _ => True

/-- What a failing call may leave: a call about one request the state before it,
a call about a batch what its completed passes did. -/
def Left (m m' : BlockManager) : Call W → Prop
  | batchRelease reqIds => ∃ done q rest, reqIds = done ++ q :: rest ∧
      BlockManager.batchRelease done m = .ok ⟨⟩ m' ∧ q ∉ m'.blockTables
  | updateBlockTable metaC contextLens => m' = m ∨ Completed metaC contextLens m m'
  | _ => m' = m

/-- The requests a call may change. -/
def Touches (q : ℤ) : Call W → Prop
  | batchRelease reqIds => q ∈ reqIds
  | updateBlockTable metaC _ => q ∈ metaC.reqIds
  | _ => False

theorem run_error {c : Call W} (hc : c.Placed m) (h : c.run m = .error e m') :
    c.Left m m' ∧ MovedFor (fun q => c.Touches q) m m' := by
  have hsame : m' = m → MovedFor (fun q => c.Touches q) m m' := by
    rintro rfl
    exact .refl _ _
  cases c with
  | allocate reqId seqLen =>
    have hm := allocate_atomic reqId seqLen m e m' h
    exact ⟨hm, hsame hm⟩
  | appendBlock reqId =>
    have hm := appendBlock_atomicAt hc e m' h
    exact ⟨hm, hsame hm⟩
  | appendTokens reqId contextLen numTokens =>
    have hm := appendTokens_atomic reqId contextLen numTokens m e m' h
    exact ⟨hm, hsame hm⟩
  | release reqId =>
    have hm := release_atomic reqId m e m' h
    exact ⟨hm, hsame hm⟩
  | batchRelease reqIds =>
    exact ⟨batchRelease_error h, (batchRelease_keeps reqIds m m (.refl _ _)).2 e m' h⟩
  | updateBlockTable metaC contextLens =>
    exact ⟨updateBlockTable_error h,
      (updateBlockTable_keeps metaC contextLens m m (.refl _ _)).2 e m' h⟩

end Call

end BlockManager

namespace CPUBlockManager

variable {W : Type} {s s' : CPUBlockManager} {e : Fault}

/-! ### Recording lengths -/

/-- The first loop of `update_block_table` at one index. -/
def recordPass (initReqIds initPrefillLens : List ℤ) (i : ℕ) : CpuM Unit := do
  let reqId ← readAt "init_req_ids[i]" initReqIds i
  let initPrefillLen ← readAt "batch.init_prefill_lens[i]" initPrefillLens i
  updateDecodeSeqLens reqId initPrefillLen

theorem recordPass_atomic (initReqIds initPrefillLens : List ℤ) (i : ℕ) :
    Atomic (recordPass initReqIds initPrefillLens i) := fun _ =>
  atomicAt_readAt fun _ _ => atomicAt_readAt fun _ _ => atomicAt_of_ok rfl

/-- The passes record the first prompt lengths. -/
theorem forM_recordPass {initReqIds initPrefillLens : List ℤ} {i : ℕ}
    (h : (forM (List.range i) (recordPass initReqIds initPrefillLens) : CpuM PUnit) s = .ok ⟨⟩ s') :
    s' = { s with
      decodeSeqLens := recordAll s.decodeSeqLens ((initReqIds.zip initPrefillLens).take i) } := by
  induction i generalizing s' with
  | zero => cases h; rfl
  | succ i ih =>
    rw [List.range_succ, List.forM_append, bind_ok_iff] at h
    obtain ⟨⟨⟩, s₁, hfirst, hlast⟩ := h
    have h₁ := ih hfirst
    simp only [List.forM_cons, List.forM_nil, recordPass, bind_ok_iff, readAt_ok_iff] at hlast
    obtain ⟨_, _, ⟨q, _, ⟨hq, rfl⟩, l, _, ⟨hl, rfl⟩, hmod⟩, hend⟩ := hlast
    obtain ⟨-, rfl⟩ := pure_ok_iff.mp hend
    rw [updateDecodeSeqLens, modify_ok_iff] at hmod
    have hzip : (initReqIds.zip initPrefillLens)[i]? = some (q, l) := by
      rw [List.getElem?_zip_eq_some]
      exact ⟨hq, hl⟩
    rw [hmod, h₁, List.take_add_one, hzip, recordAll, recordAll, List.foldl_append]
    rfl

theorem getDecodeSeqLens_ok {reqIds lens : List ℤ} (h : getDecodeSeqLens reqIds s = .ok lens s') :
    s' = s ∧ reqIds.map (fun q => s.decodeSeqLens.lookup q) = lens.map some := by
  rw [getDecodeSeqLens, get_bind, mapM_valueOf_ok_iff] at h
  exact ⟨h.2, h.1⟩

theorem getDecodeSeqLens_atomic (reqIds : List ℤ) : Atomic (getDecodeSeqLens reqIds) := fun _ =>
  AtomicAt.get_bind (mapM_valueOf_atomicAt _ _ _ _)

/-! ### Failing visits -/

/-- The new requests of a visit with their prompt lengths. -/
def newPrompts (metaC : BatchMetadata W) : List (ℤ × ℤ) :=
  (metaC.reqIds.take (metaC.numPrefillSeqs.getD metaC.reqIds.length)).zip metaC.initPrefillLens

theorem forM_updateLens (reqIds lens : List ℤ) (s : CPUBlockManager) :
    (forM (reqIds.zip lens) fun p => updateDecodeSeqLens p.1 (p.2 + 1) : CpuM PUnit) s =
      .ok ⟨⟩ { s with
        decodeSeqLens := recordAll s.decodeSeqLens (reqIds.zip (lens.map (· + 1))) } := by
  rw [← forM_updateDecodeSeqLens, List.zip_map_right, List.forM_map]
  rfl

/-- A failing visit of the first layer leaves some of its prompt lengths recorded, and
the tables as their update left them; a later layer leaves everything. -/
def LeftByVisit (metaC : BatchMetadata W) (s s' : CPUBlockManager) : Prop :=
  if metaC.layerId = s.firstLayerId then
    ∃ i m', s' = { s with
        blockMgr := m'
        decodeSeqLens := recordAll s.decodeSeqLens ((newPrompts metaC).take i) } ∧
      (m' = s.blockMgr ∨ ∃ (lens : List ℤ) (e : Fault),
        BlockManager.updateBlockTable metaC lens s.blockMgr = .error e m' ∧
        metaC.reqIds.map (fun q => s'.decodeSeqLens.lookup q) = lens.map some)
  else s' = s

theorem updateBlockTable_error {metaC : BatchMetadata W}
    (h : updateBlockTable metaC s = .error e s') : LeftByVisit metaC s s' := by
  rw [updateBlockTable, get_bind] at h
  unfold LeftByVisit
  split_ifs at h ⊢ with hlayer
  · rw [bind_error_iff] at h
    rcases h with h | ⟨⟨⟩, s₁, hrec, h⟩
    · obtain ⟨i, -, hdone, -⟩ := forM_range_error (recordPass_atomic _ metaC.initPrefillLens) h
      exact ⟨i, s.blockMgr, forM_recordPass hdone, .inl rfl⟩
    obtain rfl := forM_recordPass hrec
    rcases bind_error_iff.mp h with h | ⟨lens, s₂, hlens, h⟩
    · rw [getDecodeSeqLens_atomic _ _ _ _ h]
      exact ⟨_, s.blockMgr, rfl, .inl rfl⟩
    obtain ⟨rfl, hread⟩ := getDecodeSeqLens_ok hlens
    rcases bind_error_iff.mp h with h | ⟨⟨⟩, s₃, -, h⟩
    · obtain ⟨m', htab, rfl⟩ := onPart_error_iff.mp h
      exact ⟨_, m', rfl, .inr ⟨lens, e, htab, hread⟩⟩
    · rw [bind_of_ok (forM_updateLens metaC.reqIds lens s₃)] at h
      simp at h
  · exact getDecodeSeqLens_atomic _ _ _ _ h

/-! ### Runs -/

/-- Every request with a table has a recorded length. -/
def Recorded (s : CPUBlockManager) : Prop := ∀ q ∈ s.blockMgr.blockTables, q ∈ s.decodeSeqLens

theorem mem_recordAll {lens : AList fun _ : ℤ => ℤ} {q : ℤ} (hq : q ∈ lens)
    (requests : List (ℤ × ℤ)) : q ∈ recordAll lens requests := by
  induction requests generalizing lens with
  | nil => exact hq
  | cons p requests ih => exact ih ((AList.mem_insert _).mpr (.inr hq))

/-- Tables that changed for recorded requests alone. -/
theorem Recorded.moved (hs : Recorded s) {reqIds : List ℤ} {m' : BlockManager}
    {lens : AList fun _ : ℤ => ℤ} (hm : BlockManager.MovedFor (· ∈ reqIds) s.blockMgr m')
    (hold : ∀ q ∈ s.decodeSeqLens, q ∈ lens) (hnew : ∀ q ∈ reqIds, q ∈ lens) :
    Recorded { s with blockMgr := m', decodeSeqLens := lens } := by
  intro q hq
  by_cases hin : q ∈ reqIds
  · exact hnew q hin
  · have hsame : q ∈ s.blockMgr.blockTables := by
      rw [← AList.lookup_isSome, ← hm.others q hin, AList.lookup_isSome]
      exact hq
    exact hold q (hs q hsame)

/-- The lengths that were read are recorded. -/
theorem mem_of_read {lens : AList fun _ : ℤ => ℤ} {reqIds read : List ℤ}
    (h : reqIds.map (fun q => lens.lookup q) = read.map some) : ∀ q ∈ reqIds, q ∈ lens := by
  intro q hq
  have hmem : lens.lookup q ∈ read.map some := h ▸ List.mem_map_of_mem hq
  obtain ⟨l, -, hl⟩ := List.mem_map.mp hmem
  exact AList.lookup_isSome.mp (by rw [← hl]; rfl)

theorem updateBlockTable_recorded (metaC : BatchMetadata W) :
    Keeps Recorded (updateBlockTable metaC) := by
  intro s hs
  constructor
  · intro lens s' h
    rw [updateBlockTable, get_bind] at h
    split_ifs at h
    · obtain ⟨⟨⟩, s₁, hrec, h⟩ := bind_ok_iff.mp h
      obtain rfl := forM_recordPass hrec
      obtain ⟨read, s₂, hlens, h⟩ := bind_ok_iff.mp h
      obtain ⟨rfl, hread⟩ := getDecodeSeqLens_ok hlens
      obtain ⟨⟨⟩, s₃, htab, h⟩ := bind_ok_iff.mp h
      obtain ⟨m', hmoved, rfl⟩ := onPart_ok_iff.mp htab
      rw [bind_of_ok (forM_updateLens metaC.reqIds read _)] at h
      obtain ⟨-, rfl⟩ := pure_ok_iff.mp h
      refine hs.moved ((BlockManager.updateBlockTable_keeps metaC read s.blockMgr s.blockMgr
        (.refl _ _)).1 _ m' hmoved) (fun q hq => mem_recordAll (mem_recordAll hq _) _) fun q hq => ?_
      exact mem_recordAll (mem_of_read hread q hq) _
    · rw [(getDecodeSeqLens_ok h).1]
      exact hs
  · intro e s' h
    have hleft := updateBlockTable_error h
    unfold LeftByVisit at hleft
    split_ifs at hleft
    · obtain ⟨i, m', rfl, rfl | ⟨lens, e', htab, hread⟩⟩ := hleft
      · exact fun q hq => mem_recordAll (hs q hq) _
      · exact hs.moved ((BlockManager.updateBlockTable_keeps metaC lens s.blockMgr s.blockMgr
          (.refl _ _)).2 e' m' htab) (fun q hq => mem_recordAll hq _) (mem_of_read hread)
    · rw [hleft]
      exact hs

theorem batchRelease_ok {m m' : BlockManager} {reqIds : List ℤ} {u : Unit}
    (h : BlockManager.batchRelease reqIds m = .ok u m') :
    reqIds.Nodup ∧ (∀ q ∈ reqIds, q ∈ m.blockTables) ∧
      ∀ q, q ∈ m'.blockTables ↔ q ∈ m.blockTables ∧ q ∉ reqIds := by
  induction reqIds generalizing m with
  | nil =>
    cases h
    simp
  | cons r reqIds ih =>
    rw [BlockManager.batchRelease, List.forM_cons, bind_ok_iff] at h
    obtain ⟨⟨⟩, m₁, hone, hrest⟩ := h
    obtain ⟨blocks, hblocks, rfl⟩ := BlockManager.release_ok_iff.mp hone
    obtain ⟨hnd, hlive, hmem⟩ := ih hrest
    have hr : r ∈ m.blockTables := AList.lookup_isSome.mp (by rw [hblocks]; rfl)
    simp only [AList.mem_erase] at hlive hmem
    refine ⟨List.nodup_cons.mpr ⟨fun hin => (hlive r hin).1 rfl, hnd⟩, ?_, fun q => ?_⟩
    · intro q hq
      rcases List.mem_cons.mp hq with rfl | hq
      · exact hr
      · exact (hlive q hq).2
    · rw [hmem q, List.mem_cons]
      tauto

theorem releaseSeqs_error (hs : Recorded s) {reqIds : List ℤ}
    (h : releaseSeqs reqIds s = .error e s') :
    ∃ m', s' = { s with blockMgr := m' } ∧
      BlockManager.batchRelease reqIds s.blockMgr = .error e m' := by
  rcases bind_error_iff.mp h with h | ⟨⟨⟩, s₁, htab, h⟩
  · obtain ⟨m', htab, rfl⟩ := onPart_error_iff.mp h
    exact ⟨m', rfl, htab⟩
  · obtain ⟨m', hrelease, rfl⟩ := onPart_ok_iff.mp htab
    obtain ⟨hnd, hlive, -⟩ := batchRelease_ok hrelease
    obtain ⟨s₂, hpop⟩ := exists_forM_releaseReq (s := { s with blockMgr := m' }) hnd
      fun q hq => hs q (hlive q hq)
    rw [hpop] at h
    simp at h

theorem releaseSeqs_recorded (reqIds : List ℤ) : Keeps Recorded (releaseSeqs reqIds) := by
  intro s hs
  constructor
  · intro u s' h
    obtain ⟨⟨⟩, s₁, htab, hpop⟩ := bind_ok_iff.mp h
    obtain ⟨m', hrelease, rfl⟩ := onPart_ok_iff.mp htab
    obtain ⟨-, -, hmem⟩ := batchRelease_ok hrelease
    have hkeep : s'.blockMgr = m' ∧ ∀ q ∉ reqIds, q ∈ s.decodeSeqLens → q ∈ s'.decodeSeqLens := by
      refine forM_keeps (I := fun s₁ : CPUBlockManager => s₁.blockMgr = m' ∧
        ∀ q ∉ reqIds, q ∈ s.decodeSeqLens → q ∈ s₁.decodeSeqLens)
        (s := { s with blockMgr := m' }) ?_ ⟨rfl, fun _ _ h => h⟩ hpop
      intro r hr s₁ s₂ hI hone
      simp only [releaseReq, get_bind, bind_ok_iff, valueOf_ok_iff, set_ok_iff] at hone
      obtain ⟨_, _, ⟨-, rfl⟩, rfl⟩ := hone
      exact ⟨hI.1, fun q hq hin => AList.mem_erase.mpr ⟨fun he => hq (he ▸ hr), hI.2 q hq hin⟩⟩
    intro q hq
    rw [hkeep.1, hmem q] at hq
    exact hkeep.2 q hq.2 (hs q hq.1)
  · intro e s' h
    obtain ⟨m', rfl, htab⟩ := releaseSeqs_error hs h
    obtain ⟨done, r, rest, -, hdone, -⟩ := BlockManager.batchRelease_error htab
    obtain ⟨-, -, hmem⟩ := batchRelease_ok hdone
    exact fun q hq => hs q ((hmem q).mp hq).1

/-- A call and the state it leaves, whether it returns or fails. -/
inductive Called (W : Type) (s s' : CPUBlockManager) : Prop
  | visit (metaC : BatchMetadata W) (h : Ends (updateBlockTable metaC) s s')
  | release (reqIds : List ℤ) (h : Ends (releaseSeqs reqIds) s s')

/-- The states that calls reach from a new manager. -/
def Reached (W : Type) : CPUBlockManager → Prop :=
  Reach (fun s => ∃ blockSize numBlocks reservedBlocks firstLayerId,
    s = new blockSize numBlocks reservedBlocks firstLayerId) (Called W)

theorem Reached.recorded (h : Reached W s) : Recorded s := by
  refine Reach.invariant ?_ ?_ h
  · rintro s ⟨_, _, _, _, rfl⟩ q hq
    exact absurd hq (AList.notMem_empty q)
  · rintro s s' hs (⟨metaC, h⟩ | ⟨reqIds, h⟩)
    · exact (updateBlockTable_recorded metaC).ends hs h
    · exact (releaseSeqs_recorded reqIds).ends hs h

/-- What failing calls leave: nothing of a call about one request, of a call about a
batch what its completed passes did, and the prompt lengths recorded before the
tables were updated. -/
theorem failing_calls_leave (W : Type) :
    (∀ (m m' : BlockManager) (c : BlockManager.Call W) (e : Fault), c.Placed m →
      c.run m = .error e m' → c.Left m m' ∧ BlockManager.MovedFor (fun q => c.Touches q) m m') ∧
    ∀ s s' : CPUBlockManager, Reached W s →
      (∀ (reqIds : List ℤ) (e : Fault), releaseSeqs reqIds s = .error e s' →
        ∃ m', s' = { s with blockMgr := m' } ∧
          BlockManager.batchRelease reqIds s.blockMgr = .error e m') ∧
      ∀ (metaC : BatchMetadata W) (e : Fault), updateBlockTable metaC s = .error e s' →
        LeftByVisit metaC s s' :=
  ⟨fun _ _ _ _ hc h => BlockManager.Call.run_error hc h, fun _ _ hs =>
    ⟨fun _ _ h => releaseSeqs_error hs.recorded h, fun _ _ h => updateBlockTable_error h⟩⟩

theorem reached_afterPrompt : Reached ℕ afterPrompt :=
  (Reach.start ⟨2, 4, 0, 0, rfl⟩).next (.visit promptBatch (.inl ⟨[3], rfl⟩))

/-- Request 5 is released before request 6 turns out to have no table. -/
theorem releaseSeqs_not_atomic :
    ¬ ∀ (s s' : CPUBlockManager) (reqIds : List ℤ) (e : Fault), Reached ℕ s →
      releaseSeqs reqIds s = .error e s' → s'.blockMgr.freeBlocks = s.blockMgr.freeBlocks := by
  intro h
  have hfree := h afterPrompt _ [5, 6] _ reached_afterPrompt rfl
  exact absurd hfree (by decide)

theorem failing_calls_leave_afterPrompt :
    (∃ m, BlockManager.allocate 5 1 afterPrompt.blockMgr = .error
        (.assertion "block_tables_.find(req_id) == block_tables_.end()") m ∧
      m = afterPrompt.blockMgr) ∧
    ∃ m, BlockManager.batchRelease [5, 6] afterPrompt.blockMgr = .error
      (.assertion "block_tables_.find(req_ids) != block_tables_.end()") m := by
  have hall := failing_calls_leave ℕ
  obtain ⟨m, -, h⟩ := (hall.2 afterPrompt _ reached_afterPrompt).1 [5, 6] _ rfl
  exact ⟨⟨_, rfl, (hall.1 _ _ (.allocate 5 1) _ trivial rfl).1⟩, m, h⟩

end CPUBlockManager

end StreamInfer.Kv
