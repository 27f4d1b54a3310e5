import StreamInfer.Batch.TokenBatch

/-! The sampler of an attention engine, after `engine.py`. It counts the tokens of each
request and ends a request that has its output length; the tokens of the others go back to
the first layer, and the detokenizer is told of every token. Sampled ids are not computed.
Releasing a request's blocks is left to the block manager; its ids are returned. -/

namespace StreamInfer.Frontend

open General General.Stateful Batch

structure DummySampler where
  reqMaxOutputLen : AList fun _ : ℤ => ℤ
  outputLen : AList fun _ : ℤ => ℤ
  deriving DecidableEq

structure BatchDecodeResult where
  reqIds : List ℤ
  tokenIds : List ℤ
  isEos : List Bool
  deriving DecidableEq, Repr

structure AttentionScheduleBatch (W R : Type) where
  reqIds : List ℤ
  data : List R
  metaC : BatchMetadata W

namespace DummySampler

abbrev SamplerM := EStateM Fault DummySampler

def new : DummySampler := ⟨∅, ∅⟩

def createRequest (reqId maxOutputLen : ℤ) (s : DummySampler) : DummySampler where
  reqMaxOutputLen := s.reqMaxOutputLen.insert reqId maxOutputLen
  outputLen := s.outputLen.insert reqId 0

def cleanRequest (reqId : ℤ) (s : DummySampler) : DummySampler where
  reqMaxOutputLen := s.reqMaxOutputLen.erase reqId
  outputLen := s.outputLen.erase reqId

def checkEnd (reqId : ℤ) : SamplerM Bool := do
  let s ← get
  let len ← valueOf "output_len[req_id]" (s.outputLen.lookup reqId)
  let maxLen ← valueOf "req_max_output_len[req_id]" (s.reqMaxOutputLen.lookup reqId)
  return decide (maxLen ≤ len)

/-- One pass of the loop: whether the request ends. -/
def sampleRequest (req : ℤ) : SamplerM Bool := do
  let s ← get
  ensure (req ∈ s.outputLen) "req in output_len"
  let len ← valueOf "output_len[req]" (s.outputLen.lookup req)
  set { s with outputLen := s.outputLen.insert req (len + 1) }
  let ended ← checkEnd req
  if ended then modify (cleanRequest req)
  return ended

/-- The loop, from position `i` on. -/
def sampleFrom (i : ℕ) : List ℤ → SamplerM (List ℕ × List ℤ)
  | [] => return ([], [])
  | req :: reqIds => do
    let ended ← sampleRequest req
    let (continueIds, finishReqIds) ← sampleFrom (i + 1) reqIds
    return if ended then (continueIds, req :: finishReqIds) else (i :: continueIds, finishReqIds)

/-- The positions of the requests that go on, and the requests that end. -/
def sampleOnce (reqIds : List ℤ) : SamplerM (List ℕ × List ℤ) := sampleFrom 0 reqIds

end DummySampler

/-- Every token ends its request but those at the given positions. -/
def decodeResult (reqIds : List ℤ) (continueIds : List ℕ) : BatchDecodeResult where
  reqIds := reqIds
  tokenIds := List.replicate reqIds.length 0
  isEos := continueIds.foldl (fun isEos i => isEos.set i false) (List.replicate reqIds.length true)

variable {W R : Type} [Zero W]

def continueMeta (attnDpRank : ℕ) (metaC : BatchMetadata W) (continueIds : List ℕ) : BatchMetadata W :=
  { metaC.indexSelect continueIds with
    initPrefillLens := List.replicate continueIds.length (-1)
    attnDpRanks := List.replicate continueIds.length attnDpRank
    layerId := 0 }

/-- The tokens that go on, the requests to release, and the message to the detokenizer. -/
def sampleResults (attnDpRank : ℕ) (batch : AttentionScheduleBatch W R) :
    DummySampler.SamplerM (TokenBatch W R × List ℤ × BatchDecodeResult) := do
  let (continueIds, finishReqIds) ← DummySampler.sampleOnce batch.reqIds
  let data ← continueIds.mapM fun i => readAt "batch.data[continue_ids]" batch.data i
  return (⟨data, continueMeta attnDpRank batch.metaC continueIds⟩, finishReqIds,
    decodeResult batch.reqIds continueIds)

/-! ### One call -/

namespace DummySampler

variable {s s' : DummySampler} {reqIds : List ℤ}

/-- The requests have a count and a limit, which the tests are about. -/
structure Counting (s : DummySampler) (len maxLen : ℤ → ℤ) (reqIds : List ℤ) : Prop where
  len : ∀ r ∈ reqIds, s.outputLen.lookup r = some (len r)
  maxLen : ∀ r ∈ reqIds, s.reqMaxOutputLen.lookup r = some (maxLen r)

/-- One more token reaches the limit. -/
def Ends (len maxLen : ℤ → ℤ) (r : ℤ) : Bool := decide (maxLen r ≤ len r + 1)

/-- The positions, from `i` on, of the requests that go on. -/
def continuing (ends : ℤ → Bool) : ℕ → List ℤ → List ℕ
  | _, [] => []
  | i, r :: reqIds => if ends r then continuing ends (i + 1) reqIds else i :: continuing ends (i + 1) reqIds

/-- What a call does to the entries of its requests. -/
structure Sampled (s s' : DummySampler) (len maxLen : ℤ → ℤ) (reqIds : List ℤ) : Prop where
  outputLen : ∀ r, s'.outputLen.lookup r =
    if r ∈ reqIds then if Ends len maxLen r then none else some (len r + 1) else s.outputLen.lookup r
  reqMaxOutputLen : ∀ r, s'.reqMaxOutputLen.lookup r =
    if r ∈ reqIds ∧ Ends len maxLen r then none else s.reqMaxOutputLen.lookup r

variable {len maxLen : ℤ → ℤ}

theorem sampleRequest_ok {r : ℤ} (hlen : s.outputLen.lookup r = some (len r))
    (hmax : s.reqMaxOutputLen.lookup r = some (maxLen r)) :
    ∃ s', sampleRequest r s = .ok (Ends len maxLen r) s' ∧ Sampled s s' len maxLen [r] := by
  have hmem : r ∈ s.outputLen := AList.lookup_isSome.mp (by rw [hlen]; rfl)
  have hcheck : ∀ t : DummySampler, t.outputLen.lookup r = some (len r + 1) →
      t.reqMaxOutputLen.lookup r = some (maxLen r) → checkEnd r t = .ok (Ends len maxLen r) t := by
    intro t h₁ h₂
    rw [checkEnd, get_bind, h₁, h₂]
    rfl
  let t : DummySampler := { s with outputLen := s.outputLen.insert r (len r + 1) }
  have ht : checkEnd r t = .ok (Ends len maxLen r) t := hcheck t (AList.lookup_insert _) hmax
  have hrun : sampleRequest r s =
      .ok (Ends len maxLen r) (if Ends len maxLen r then cleanRequest r t else t) := by
    rw [sampleRequest, get_bind, ensure_bind hmem, hlen]
    change (checkEnd r >>= _) t = _
    rw [bind_of_ok ht]
    cases Ends len maxLen r <;> rfl
  refine ⟨_, hrun, ⟨fun r' => ?_, fun r' => ?_⟩⟩
  · by_cases hr : r' = r
    · subst hr
      cases hend : Ends len maxLen r' <;> simp [t, cleanRequest]
    · cases hend : Ends len maxLen r <;> simp [t, cleanRequest, hr, AList.lookup_insert_ne]
  · by_cases hr : r' = r
    · subst hr
      cases hend : Ends len maxLen r' <;> simp [t, cleanRequest, hmax]
    · cases hend : Ends len maxLen r <;> simp [t, cleanRequest, hr]

theorem sampleFrom_ok {i : ℕ} (hnodup : reqIds.Nodup) (h : Counting s len maxLen reqIds) :
    ∃ s', sampleFrom i reqIds s =
        .ok (continuing (Ends len maxLen) i reqIds, reqIds.filter (Ends len maxLen)) s' ∧
      Sampled s s' len maxLen reqIds := by
  induction reqIds generalizing s i with
  | nil => exact ⟨s, rfl, by simp, by simp⟩
  | cons r reqIds ih =>
    obtain ⟨hr, hnodup⟩ := List.nodup_cons.mp hnodup
    obtain ⟨t, ht, hst⟩ := sampleRequest_ok (h.len r (by simp)) (h.maxLen r (by simp))
    have hne : ∀ r' ∈ reqIds, r' ≠ r := fun r' hr' heq => hr (heq ▸ hr')
    have hrest : Counting t len maxLen reqIds := by
      refine ⟨fun r' hr' => ?_, fun r' hr' => ?_⟩
      · rw [hst.outputLen, if_neg (by simpa using hne r' hr')]
        exact h.len r' (by simp [hr'])
      · rw [hst.reqMaxOutputLen, if_neg fun hand => hne r' hr' (by simpa using hand.1)]
        exact h.maxLen r' (by simp [hr'])
    obtain ⟨s', hs', hts⟩ := ih (i := i + 1) hnodup hrest
    refine ⟨s', ?_, fun r' => ?_, fun r' => ?_⟩
    · rw [sampleFrom, bind_of_ok ht, bind_of_ok hs']
      cases hend : Ends len maxLen r <;> simp [continuing, hend]
    · rw [hts.outputLen, hst.outputLen]
      by_cases hr' : r' = r
      · subst hr'
        simp [hr]
      · simp [hr']
    · rw [hts.reqMaxOutputLen, hst.reqMaxOutputLen]
      by_cases hr' : r' = r
      · subst hr'
        simp [hr]
      · simp [hr']

/-! ### The message -/

theorem mem_continuing {ends : ℤ → Bool} {i j : ℕ} :
    j ∈ continuing ends i reqIds ↔ ∃ k, j = i + k ∧ ∃ r, reqIds[k]? = some r ∧ ends r = false := by
  induction reqIds generalizing i with
  | nil => simp [continuing]
  | cons r reqIds ih =>
    have hsplit : (∃ k, j = i + k ∧ ∃ r', (r :: reqIds)[k]? = some r' ∧ ends r' = false) ↔
        (j = i ∧ ends r = false) ∨ j ∈ continuing ends (i + 1) reqIds := by
      rw [ih]
      constructor
      · rintro ⟨k, rfl, r', hr', hend⟩
        cases k with
        | zero => exact .inl ⟨rfl, by simpa [← Option.some_inj.mp hr'] using hend⟩
        | succ k => exact .inr ⟨k, by omega, r', by simpa using hr', hend⟩
      · rintro (⟨rfl, hend⟩ | ⟨k, rfl, r', hr', hend⟩)
        · exact ⟨0, rfl, r, rfl, hend⟩
        · exact ⟨k + 1, by omega, r', by simpa using hr', hend⟩
    rw [hsplit, continuing]
    cases hend : ends r <;> simp

end DummySampler

open DummySampler

/-- Setting entries of a list to one value. -/
theorem foldl_set_getElem? {α : Type} (idxs : List ℕ) (a : α) (l : List α) (j : ℕ) :
    (idxs.foldl (fun l i => l.set i a) l)[j]? = if j ∈ idxs ∧ j < l.length then some a else l[j]? := by
  induction idxs generalizing l with
  | nil => simp
  | cons i idxs ih =>
    rw [List.foldl_cons, ih, List.length_set, List.getElem?_set]
    by_cases hj : j < l.length
    · by_cases hi : j = i
      · subst hi
        simp [hj]
      · by_cases hmem : j ∈ idxs <;> simp [hi, hmem, hj, Ne.symm hi]
    · by_cases hi : i = j <;> simp [hi, hj]

/-- A token is marked as the last exactly when its request ends. -/
theorem decodeResult_isEos (ends : ℤ → Bool) (reqIds : List ℤ) :
    (decodeResult reqIds (continuing ends 0 reqIds)).isEos = reqIds.map ends := by
  apply List.ext_getElem?
  intro j
  change ((continuing ends 0 reqIds).foldl _ (List.replicate reqIds.length true))[j]? = _
  rw [foldl_set_getElem?, List.getElem?_map, List.getElem?_replicate]
  simp only [mem_continuing, List.length_replicate, Nat.zero_add, exists_eq_left']
  by_cases hj : j < reqIds.length
  · cases hend : ends reqIds[j] <;> simp [hj, hend]
  · simp [hj]

theorem exists_mapM_readAt {σ α : Type} (access : String) {xs : List α} {idxs : List ℕ}
    (h : ∀ i ∈ idxs, i < xs.length) (s : σ) :
    ∃ ys, (idxs.mapM fun i => readAt access xs i : EStateM Fault σ (List α)) s = .ok ys s := by
  induction idxs with
  | nil => exact ⟨[], rfl⟩
  | cons i idxs ih =>
    obtain ⟨ys, hys⟩ := ih fun j hj => h j (by simp [hj])
    refine ⟨xs.get ⟨i, h i (by simp)⟩ :: ys, ?_⟩
    rw [List.mapM_cons, readAt_eq (h i (by simp)), pure_bind, bind_of_ok hys]
    rfl

variable {s : DummySampler} {batch : AttentionScheduleBatch W R} {len maxLen : ℤ → ℤ}

/-- Sampling distinct requests with a row each counts one token for each of them. -/
theorem sampleResults_ok (attnDpRank : ℕ) (hnodup : batch.reqIds.Nodup)
    (hrows : batch.data.length = batch.reqIds.length) (h : Counting s len maxLen batch.reqIds) :
    ∃ b msg s', sampleResults attnDpRank batch s =
        .ok (b, batch.reqIds.filter (Ends len maxLen), msg) s' ∧
      msg.reqIds = batch.reqIds ∧ msg.isEos = batch.reqIds.map (Ends len maxLen) ∧
      Sampled s s' len maxLen batch.reqIds := by
  obtain ⟨s', hs', hsampled⟩ := sampleFrom_ok (i := 0) hnodup h
  have hread : ∀ i ∈ continuing (Ends len maxLen) 0 batch.reqIds, i < batch.data.length := by
    intro i hi
    obtain ⟨k, rfl, r, hr, -⟩ := mem_continuing.mp hi
    have hk : k < batch.reqIds.length := (List.getElem?_eq_some_iff.mp hr).1
    omega
  obtain ⟨rows, hrows⟩ := exists_mapM_readAt "batch.data[continue_ids]" hread s'
  refine ⟨⟨rows, continueMeta attnDpRank batch.metaC (continuing (Ends len maxLen) 0 batch.reqIds)⟩,
    decodeResult batch.reqIds (continuing (Ends len maxLen) 0 batch.reqIds), s', ?_, rfl,
    decodeResult_isEos _ _, hsampled⟩
  rw [sampleResults, sampleOnce, bind_of_ok hs']
  simp only [bind_of_ok hrows]
  rfl

end StreamInfer.Frontend
