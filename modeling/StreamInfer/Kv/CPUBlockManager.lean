import StreamInfer.Kv.Lengths

/-! The block manager of an attention worker: the block tables and, next to them,
the recorded length of every live request. A visit of the first layer records
the prompt lengths of the new requests, reads all lengths, updates the tables
and records one token more for every request; later layers only read. -/

namespace StreamInfer.Kv

open General General.Stateful Batch BatchMetadata Lengths

structure CPUBlockManager where
  blockMgr : BlockManager
  /-- `req_manager.decode_seq_lens`. -/
  decodeSeqLens : AList fun _ : ℤ => ℤ
  /-- `model_config.layer_ids[0]`. -/
  firstLayerId : ℕ
  deriving DecidableEq

namespace CPUBlockManager

variable {W : Type}

abbrev CpuM := EStateM Fault CPUBlockManager

def new (blockSize numBlocks reservedBlocks firstLayerId : ℕ) : CPUBlockManager :=
  ⟨BlockManager.new blockSize numBlocks reservedBlocks, ∅, firstLayerId⟩

def onBlockMgr {α : Type} (x : BlockManager.BlockM α) : CpuM α :=
  onPart blockMgr (fun s m => { s with blockMgr := m }) x

def updateDecodeSeqLens (reqId seqLen : ℤ) : CpuM Unit :=
  modify fun s => { s with decodeSeqLens := s.decodeSeqLens.insert reqId seqLen }

/-- The recorded lengths of the listed requests. -/
def getDecodeSeqLens (reqIds : List ℤ) : CpuM (List ℤ) := do
  let s ← get
  reqIds.mapM fun reqId => valueOf "decode_seq_lens[req_id]" (s.decodeSeqLens.lookup reqId)

def releaseReq (reqId : ℤ) : CpuM Unit := do
  let s ← get
  let _ ← valueOf "decode_seq_lens.pop(req_id)" (s.decodeSeqLens.lookup reqId)
  set { s with decodeSeqLens := s.decodeSeqLens.erase reqId }

def releaseSeqs (reqIds : List ℤ) : CpuM Unit := do
  onBlockMgr (BlockManager.batchRelease reqIds)
  forM reqIds releaseReq

/-- Returns `batch.seq_lens`. -/
def updateBlockTable (metaC : BatchMetadata W) : CpuM (List ℤ) := do
  let initReqIds := metaC.reqIds.take (metaC.numPrefillSeqs.getD metaC.reqIds.length)
  if metaC.layerId = (← get).firstLayerId then
    forM (List.range initReqIds.length) fun i => do
      let reqId ← readAt "init_req_ids[i]" initReqIds i
      let initPrefillLen ← readAt "batch.init_prefill_lens[i]" metaC.initPrefillLens i
      updateDecodeSeqLens reqId initPrefillLen
    let decodeSeqLens ← getDecodeSeqLens metaC.reqIds
    onBlockMgr (BlockManager.updateBlockTable metaC decodeSeqLens)
    forM (metaC.reqIds.zip decodeSeqLens) fun p => updateDecodeSeqLens p.1 (p.2 + 1)
    return decodeSeqLens.map (· + 1)
  else getDecodeSeqLens metaC.reqIds

/-! ### Recorded lengths -/

/-- Tables and recorded lengths of the same live requests. -/
structure Serves (s : CPUBlockManager) (len : Lengths) : Prop where
  tracks : Tracks s.blockMgr len
  recorded : ∀ r, s.decodeSeqLens.lookup r = (len r).map fun n : ℕ => (n : ℤ)
  positive : ∀ r n, len r = some n → 1 ≤ n

theorem serves_new (blockSize numBlocks reservedBlocks firstLayerId : ℕ) :
    Serves (new blockSize numBlocks reservedBlocks firstLayerId) fun _ => none :=
  ⟨tracks_new _ _ _, fun _ => rfl, fun _ _ h => by simp at h⟩

/-- The recorded lengths after recording some more. -/
def recordAll (lens : AList fun _ : ℤ => ℤ) (requests : List (ℤ × ℤ)) : AList fun _ : ℤ => ℤ :=
  requests.foldl (fun lens p => lens.insert p.1 p.2) lens

theorem forM_updateDecodeSeqLens (requests : List (ℤ × ℤ)) (s : CPUBlockManager) :
    (forM requests fun p => updateDecodeSeqLens p.1 p.2 : CpuM PUnit) s =
      .ok ⟨⟩ { s with decodeSeqLens := recordAll s.decodeSeqLens requests } := by
  induction requests generalizing s with
  | nil => rfl
  | cons p requests ih =>
    rw [List.forM_cons]
    exact ih { s with decodeSeqLens := s.decodeSeqLens.insert p.1 p.2 }

theorem lookup_recordAll {lens : AList fun _ : ℤ => ℤ} {len : Lengths}
    (h : ∀ r, lens.lookup r = (len r).map fun n : ℕ => (n : ℤ)) (requests : List (ℤ × ℕ)) (r : ℤ) :
    (recordAll lens (Tracks.asInts requests)).lookup r =
      (len.setAll requests r).map fun n : ℕ => (n : ℤ) := by
  induction requests generalizing lens len with
  | nil => exact h r
  | cons p requests ih =>
    have hone : ∀ q, (lens.insert p.1 (p.2 : ℤ)).lookup q =
        (Function.update len p.1 (some p.2) q).map fun n : ℕ => (n : ℤ) := by
      intro q
      by_cases hq : q = p.1
      · subst hq
        simp
      · rw [AList.lookup_insert_ne hq, Function.update_of_ne hq, h q]
    exact ih hone

/-! ### A visit of the first layer -/

/-- Distinct requests: `k` new ones with their prompt lengths, then running ones. -/
structure VisitsLayer (layer : ℕ) (metaC : BatchMetadata W) (k : ℕ) : Prop where
  layer : metaC.layerId = layer
  seqs : metaC.numPrefillSeqs = some k
  tokens : metaC.numPrefillTokens = some k
  decodes : metaC.numDecodeTokens = some (metaC.numTokens - k)
  reqIds : metaC.reqIds.length = metaC.numTokens
  lens : metaC.initPrefillLens.length = metaC.numTokens
  le : k ≤ metaC.numTokens
  nodup : metaC.reqIds.Nodup
  prompt : ∀ l ∈ metaC.initPrefillLens.take k, 1 ≤ l

abbrev FirstVisit (s : CPUBlockManager) (metaC : BatchMetadata W) (k : ℕ) : Prop :=
  VisitsLayer s.firstLayerId metaC k

/-- The new requests of a visit with their prompt lengths. -/
def newRequests (metaC : BatchMetadata W) (k : ℕ) : List (ℤ × ℕ) :=
  (metaC.reqIds.take k).zip ((metaC.initPrefillLens.take k).map Int.toNat)

/-- The requests of a visit with the lengths their tokens are appended to. -/
def visited (len : Lengths) (metaC : BatchMetadata W) (k : ℕ) : List (ℤ × ℕ) :=
  metaC.reqIds.map fun r => (r, (len.setAll (newRequests metaC k) r).getD 0)

/-- One token more for every request. -/
def grown (requests : List (ℤ × ℕ)) : List (ℤ × ℕ) := requests.map fun p => (p.1, p.2 + 1)

/-- The lengths after a visit. -/
def afterVisit (len : Lengths) (metaC : BatchMetadata W) (k : ℕ) : Lengths :=
  (len.setAll (newRequests metaC k)).setAll (grown (visited len metaC k))

/-- All requests of a visit are new or live. -/
def AllKnown (len : Lengths) (metaC : BatchMetadata W) (k : ℕ) : Prop :=
  ∀ r ∈ metaC.reqIds, (len.setAll (newRequests metaC k) r).isSome = true

/-- The table operations of a visit. -/
def visitTables (len : Lengths) (metaC : BatchMetadata W) (k : ℕ) : BlockManager.BlockM Unit := do
  BlockManager.allocateAll (Tracks.asInts (newRequests metaC k))
  BlockManager.appendAll (Tracks.asInts (visited len metaC k))

/-- A list of options without gaps. -/
theorem map_some_iff {α : Type} (f : α → Option ℕ) (as : List α) (bs : List ℤ) :
    (as.map fun a => (f a).map fun n : ℕ => (n : ℤ)) = bs.map some ↔
      (∀ a ∈ as, (f a).isSome = true) ∧ bs = as.map fun a => (((f a).getD 0 : ℕ) : ℤ) := by
  induction as generalizing bs with
  | nil => cases bs <;> simp
  | cons a as ih =>
    cases bs with
    | nil => simp
    | cons b bs =>
      simp only [List.map_cons, List.cons.injEq, ih, List.forall_mem_cons]
      cases hf : f a with
      | none => simp
      | some n =>
        simp only [Option.map_some, Option.some_inj, Option.isSome_some, true_and, Option.getD_some]
        rw [eq_comm, and_left_comm]

section Visit

variable {s : CPUBlockManager} {metaC : BatchMetadata W} {k layer : ℕ} {len : Lengths}

theorem VisitsLayer.asInts_newRequests (hv : VisitsLayer layer metaC k) :
    Tracks.asInts (newRequests metaC k) = (metaC.reqIds.zip metaC.initPrefillLens).take k := by
  have hk := hv.le
  have hq := hv.reqIds
  have hl := hv.lens
  apply List.ext_getElem
  · simp only [Tracks.asInts, newRequests, List.length_map, List.length_zip, List.length_take]
    omega
  · intro i h₁ h₂
    have hi : i < k := by
      rw [List.length_take] at h₂
      omega
    have hpos : 1 ≤ metaC.initPrefillLens[i] := by
      apply hv.prompt
      rw [List.mem_take_iff_getElem]
      exact ⟨i, by omega, rfl⟩
    simp [Tracks.asInts, newRequests]
    omega

theorem VisitsLayer.length_newRequests (hv : VisitsLayer layer metaC k) :
    (newRequests metaC k).length = k := by
  have hk := hv.le
  have hq := hv.reqIds
  have hl := hv.lens
  simp [newRequests]
  omega

theorem VisitsLayer.one_le_newRequests (hv : VisitsLayer layer metaC k) :
    ∀ p ∈ newRequests metaC k, 1 ≤ p.2 := by
  intro p hp
  obtain ⟨l, hl, hlp⟩ := List.mem_map.mp (List.of_mem_zip hp).2
  have := hv.prompt l hl
  omega

theorem AllKnown.visited (h : AllKnown len metaC k) {p : ℤ × ℕ}
    (hp : p ∈ CPUBlockManager.visited len metaC k) :
    len.setAll (newRequests metaC k) p.1 = some p.2 := by
  obtain ⟨r, hr, rfl⟩ := List.mem_map.mp hp
  obtain ⟨n, hn⟩ := Option.isSome_iff_exists.mp (h r hr)
  rw [hn, Option.getD_some]

theorem map_fst_visited (len : Lengths) (metaC : BatchMetadata W) (k : ℕ) :
    (visited len metaC k).map Prod.fst = metaC.reqIds := by
  simp [visited, Function.comp_def]

/-- The recorded lengths after a visit. -/
def recordVisit (s : CPUBlockManager) (len : Lengths) (metaC : BatchMetadata W) (k : ℕ) :
    AList fun _ : ℤ => ℤ :=
  recordAll (recordAll s.decodeSeqLens (Tracks.asInts (newRequests metaC k)))
    (Tracks.asInts (grown (visited len metaC k)))

/-- What a visit of the first layer does, as one step. -/
theorem updateBlockTable_ok_iff (h : Serves s len) (hv : FirstVisit s metaC k) {lens : List ℤ}
    {s' : CPUBlockManager} :
    updateBlockTable metaC s = .ok lens s' ↔ AllKnown len metaC k ∧
      lens = (grown (visited len metaC k)).map (fun p => (p.2 : ℤ)) ∧
      ∃ m', visitTables len metaC k s.blockMgr = .ok ⟨⟩ m' ∧
        s' = { s with blockMgr := m', decodeSeqLens := recordVisit s len metaC k } := by
  have hnew := hv.length_newRequests
  have hprefill : (forM (List.range (metaC.reqIds.take k).length) fun i => do
      let reqId ← readAt "init_req_ids[i]" (metaC.reqIds.take k) i
      let initPrefillLen ← readAt "batch.init_prefill_lens[i]" metaC.initPrefillLens i
      updateDecodeSeqLens reqId initPrefillLen : CpuM PUnit) =
      forM (Tracks.asInts (newRequests metaC k)) fun p => updateDecodeSeqLens p.1 p.2 := by
    have hlen : (metaC.reqIds.take k).length = (Tracks.asInts (newRequests metaC k)).length := by
      rw [Tracks.asInts, List.length_map, hnew, List.length_take, hv.reqIds, Nat.min_eq_left hv.le]
    rw [hlen]
    apply forM_range
    intro i hi
    have hik : i < k := by rwa [Tracks.asInts, List.length_map, hnew] at hi
    have hk := hv.le
    have hq := hv.reqIds
    have hl := hv.lens
    rw [readAt_eq (by rw [List.length_take]; omega), readAt_eq (by omega)]
    simp only [pure_bind, hv.asInts_newRequests, List.getElem_take, List.getElem_zip]
  have hzip : metaC.reqIds.zip ((visited len metaC k).map fun p => (p.2 : ℤ)) =
      Tracks.asInts (visited len metaC k) := by
    rw [Tracks.asInts, ← map_fst_visited len metaC k, List.zip_map']
  have htables : BlockManager.updateBlockTable metaC
      ((visited len metaC k).map fun p => (p.2 : ℤ)) = visitTables len metaC k := by
    rw [BlockManager.updateBlockTable_eq hv.tokens hv.decodes hv.reqIds hv.lens
      (by simp [visited, hv.reqIds]) hv.le, ← hv.asInts_newRequests, hzip, visitTables]
  have hrecord : (forM (Tracks.asInts (visited len metaC k)) fun p =>
      updateDecodeSeqLens p.1 (p.2 + 1) : CpuM PUnit) =
      forM (Tracks.asInts (grown (visited len metaC k))) fun p => updateDecodeSeqLens p.1 p.2 := by
    simp [Tracks.asInts, grown, List.forM_map]
  have hseq : (grown (visited len metaC k)).map (fun p => (p.2 : ℤ)) =
      ((visited len metaC k).map fun p => (p.2 : ℤ)).map (· + 1) := by
    simp [grown]
  have hD := lookup_recordAll h.recorded (newRequests metaC k)
  set D := recordAll s.decodeSeqLens (Tracks.asInts (newRequests metaC k)) with hDdef
  have hget : ∀ {s₁ s₂ : CPUBlockManager} {lens}, s₁.decodeSeqLens = D →
      (getDecodeSeqLens metaC.reqIds s₁ = .ok lens s₂ ↔ AllKnown len metaC k ∧
        lens = (visited len metaC k).map (fun p => (p.2 : ℤ)) ∧ s₂ = s₁) := by
    intro s₁ s₂ lens hs
    rw [getDecodeSeqLens, get_bind, mapM_valueOf_ok_iff, hs, ← and_assoc]
    refine and_congr_left fun _ => ?_
    have hmap : metaC.reqIds.map (fun r => D.lookup r) = metaC.reqIds.map fun r =>
        (len.setAll (newRequests metaC k) r).map fun n : ℕ => (n : ℤ) :=
      List.map_congr_left fun r _ => hD r
    rw [hmap, visited, List.map_map]
    exact map_some_iff _ _ _
  simp only [updateBlockTable, hv.seqs, Option.getD_some, get_bind, hv.layer, ↓reduceIte, hprefill]
  rw [bind_of_ok (forM_updateDecodeSeqLens _ s)]
  simp only [bind_ok_iff, onBlockMgr, onPart_ok_iff, pure_ok_iff]
  constructor
  · rintro ⟨lens', s₁, hlens, _, s₂, ⟨m', htab, rfl⟩, _, s₃, hrec, rfl, rfl⟩
    obtain ⟨hknown, rfl, rfl⟩ := (hget rfl).mp hlens
    rw [htables] at htab
    rw [hzip, hrecord, forM_updateDecodeSeqLens] at hrec
    cases hrec
    exact ⟨hknown, hseq.symm, m', htab, rfl⟩
  · rintro ⟨hknown, rfl, m', htab, rfl⟩
    refine ⟨_, _, (hget rfl).mpr ⟨hknown, rfl, rfl⟩, ⟨⟩, _, ⟨m', htables ▸ htab, rfl⟩, ⟨⟩, _, ?_,
      hseq, rfl⟩
    rw [hzip, hrecord, forM_updateDecodeSeqLens]
    rfl

/-- A visit leaves tables and recorded lengths of the grown requests. -/
theorem updateBlockTable_serves (h : Serves s len) (hb : 0 < s.blockMgr.blockSize)
    (hv : FirstVisit s metaC k) {lens : List ℤ} {s' : CPUBlockManager}
    (hok : updateBlockTable metaC s = .ok lens s') :
    Serves s' (afterVisit len metaC k) ∧ Grows s.blockMgr s'.blockMgr ∧
      s'.firstLayerId = s.firstLayerId ∧
      s.blockMgr.freeBlocks.length = s'.blockMgr.freeBlocks.length +
        Tracks.prefillBlocks s.blockMgr.blockSize (newRequests metaC k) +
        Tracks.boundaryCount s.blockMgr.blockSize (visited len metaC k) := by
  obtain ⟨hknown, -, m', htab, rfl⟩ := (updateBlockTable_ok_iff h hv).mp hok
  rw [visitTables, bind_ok_iff] at htab
  obtain ⟨⟨⟩, m₁, halloc, happ⟩ := htab
  obtain ⟨h₁, hg₁, hf₁⟩ := h.tracks.allocateAll hb hv.one_le_newRequests halloc
  have hpos : ∀ r n, len.setAll (newRequests metaC k) r = some n → 1 ≤ n := fun r n hn =>
    setAll_forall h.positive hv.one_le_newRequests hn
  have hlen := fun p hp => hknown.visited (p := p) hp
  obtain ⟨h₂, hg₂, hf₂⟩ := h₁.appendAll (by rwa [hg₁.blockSize]) (fun p hp => hpos _ _ (hlen p hp))
    (by rw [map_fst_visited]; exact hv.nodup) hlen happ
  refine ⟨⟨h₂, fun r => ?_, fun r n hn => ?_⟩, hg₁.trans hg₂, rfl, ?_⟩
  · exact lookup_recordAll (lookup_recordAll h.recorded _) _ r
  · refine setAll_forall hpos (fun p hp => ?_) hn
    obtain ⟨q, -, rfl⟩ := List.mem_map.mp hp
    exact Nat.le_add_left _ _
  · rw [hg₁.blockSize] at hf₂
    change s.blockMgr.freeBlocks.length = m'.freeBlocks.length + _ + _
    omega

end Visit

theorem forM_releaseReq {s s' : CPUBlockManager} {len : Lengths} {reqIds : List ℤ}
    (h : ∀ r, s.decodeSeqLens.lookup r = (len r).map fun n : ℕ => (n : ℤ))
    (hok : (forM reqIds releaseReq : CpuM PUnit) s = .ok ⟨⟩ s') :
    s'.blockMgr = s.blockMgr ∧ s'.firstLayerId = s.firstLayerId ∧
      ∀ r, s'.decodeSeqLens.lookup r = (len.clearAll reqIds r).map fun n : ℕ => (n : ℤ) := by
  induction reqIds generalizing s len with
  | nil =>
    cases hok
    exact ⟨rfl, rfl, by simpa using h⟩
  | cons q reqIds ih =>
    rw [List.forM_cons, bind_ok_iff] at hok
    obtain ⟨⟨⟩, s₁, hone, hrest⟩ := hok
    simp only [releaseReq, get_bind, bind_ok_iff, valueOf_ok_iff, set_ok_iff] at hone
    obtain ⟨_, _, ⟨-, hs⟩, rfl⟩ := hone
    have hlook : ∀ r, (s.decodeSeqLens.erase q).lookup r =
        (Function.update len q none r).map fun n : ℕ => (n : ℤ) := by
      intro r
      by_cases hr : r = q
      · subst hr
        simp
      · rw [AList.lookup_erase_ne hr, Function.update_of_ne hr, h r]
    obtain ⟨hm, hf, hl⟩ := ih hlook hrest
    exact ⟨hm, hf, fun r => by rw [hl r, clearAll_cons]⟩

/-- Releasing requests ends their tables and recorded lengths. -/
theorem releaseSeqs_serves {s s' : CPUBlockManager} {len : Lengths} {reqIds : List ℤ} {u : Unit}
    (h : Serves s len) (hok : releaseSeqs reqIds s = .ok u s') :
    Serves s' (len.clearAll reqIds) ∧
      s'.firstLayerId = s.firstLayerId ∧ s'.blockMgr.blockSize = s.blockMgr.blockSize ∧
      s'.blockMgr.numBlocks = s.blockMgr.numBlocks ∧
      s'.blockMgr.reservedBlocks = s.blockMgr.reservedBlocks ∧
      ∀ q ∉ reqIds, s'.blockMgr.blockTables.lookup q = s.blockMgr.blockTables.lookup q := by
  rw [releaseSeqs, bind_ok_iff] at hok
  obtain ⟨⟨⟩, s₁, htab, hreq⟩ := hok
  rw [onBlockMgr, onPart_ok_iff] at htab
  obtain ⟨m', htab, rfl⟩ := htab
  obtain ⟨ht, hbs, hnb, hrb, hq⟩ := h.tracks.batchRelease htab
  obtain ⟨hm, hf, hl⟩ := forM_releaseReq (s := { s with blockMgr := m' }) h.recorded hreq
  rw [hm]
  refine ⟨⟨hm ▸ ht, hl, fun r n hn => ?_⟩, hf, hbs, hnb, hrb, hq⟩
  unfold clearAll at hn
  split_ifs at hn
  exact h.positive r n hn

end CPUBlockManager

end StreamInfer.Kv
