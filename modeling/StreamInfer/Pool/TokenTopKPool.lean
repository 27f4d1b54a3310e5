import StreamInfer.Batch.TokenBatch
import StreamInfer.Fault

/-! The pool that collects the expert outputs of a token. It is keyed by request
id alone: the first copy opens an entry with its prefill length and rank, each
further one appends its row, and the `top_k`-th makes the token ready. -/

namespace StreamInfer.Pool

open General.Stateful Batch

variable {W R : Type}

structure TokenTopKPool (R : Type) where
  topK : ℕ
  pool : AList fun _ : ℤ => TokenTopKInfo R
  readyTokens : List (TokenTopKInfo R)
  deriving DecidableEq

namespace TokenTopKPool

abbrev TopKM (R : Type) := EStateM Fault (TokenTopKPool R)

def new (topK : ℕ) : TokenTopKPool R := ⟨topK, ∅, []⟩

/-- A row of a batch with its columns. -/
structure TokenCopy (R : Type) where
  reqId : ℤ
  initPrefillLen : ℤ
  attnDpRank : ℕ
  row : R
  deriving DecidableEq

/-- The token of a first copy. -/
def TokenCopy.token (c : TokenCopy R) : TokenTopKInfo R :=
  ⟨c.reqId, c.initPrefillLen, c.attnDpRank, [c.row]⟩

/-- The body of the loop of `put_batch`. -/
def putToken (p : TokenTopKPool R) (c : TokenCopy R) : TokenTopKPool R :=
  match p.pool.lookup c.reqId with
  | none => { p with pool := p.pool.insert c.reqId c.token }
  | some token =>
    if (token.appendTensor c.row).count = p.topK then
      { p with
        readyTokens := p.readyTokens ++ [token.appendTensor c.row]
        pool := p.pool.erase c.reqId }
    else { p with pool := p.pool.insert c.reqId (token.appendTensor c.row) }

def copies (batch : TokenBatch W R) : List (TokenCopy R) :=
  batch.data.zipIdx.map fun p =>
    { reqId := batch.metadata.reqIds.getD p.2 0
      initPrefillLen := batch.metadata.initPrefillLens.getD p.2 0
      attnDpRank := batch.metadata.attnDpRanks.getD p.2 0
      row := p.1 }

def putBatch [Row R] (batch : TokenBatch W R) : TopKM R Unit := do
  ensure (batch.data.length = batch.metadata.numTokens) "Batch data shape mismatch"
  ensure (∀ row ∈ batch.data, Row.size row = batch.metadata.tokenHiddenDim)
    "Batch data shape mismatch"
  ensure (batch.metadata.numTokens = batch.metadata.reqIds.length) "Batch data shape mismatch"
  ensure (batch.metadata.numTokens = batch.metadata.attnDpRanks.length) "Batch data shape mismatch"
  ensure (batch.metadata.numTokens = batch.metadata.initPrefillLens.length)
    "Batch data shape mismatch"
  modify fun p => (copies batch).foldl putToken p

def fetchReadyTokens : TopKM R (List (TokenTopKInfo R)) := do
  let p ← get
  set { p with readyTokens := [] }
  return p.readyTokens

/-! ### Waiting and ready tokens -/

/-- Entries of fewer than `top_k` rows under their own ids, ready tokens of `top_k`;
the prefill lengths are among `lens`. -/
structure WellFormed (lens : ℤ → Prop) (p : TokenTopKPool R) : Prop where
  keyed : ∀ r t, p.pool.lookup r = some t →
    t.seqId = r ∧ t.count < p.topK ∧ lens t.initPrefillLen
  ready : ∀ t ∈ p.readyTokens, t.count = p.topK ∧ lens t.initPrefillLen

variable {lens : ℤ → Prop} {p p' : TokenTopKPool R}

theorem wellFormed_new (lens : ℤ → Prop) (topK : ℕ) :
    WellFormed lens (new topK : TokenTopKPool R) :=
  ⟨fun r t h => by simp [new] at h, by simp [new]⟩

theorem count_appendTensor (t : TokenTopKInfo R) (row : R) :
    (t.appendTensor row).count = t.count + 1 := by
  simp [TokenTopKInfo.count, TokenTopKInfo.appendTensor]

theorem topK_putToken (p : TokenTopKPool R) (c : TokenCopy R) : (p.putToken c).topK = p.topK := by
  unfold putToken
  split
  · rfl
  · split_ifs <;> rfl

theorem WellFormed.putToken (h : WellFormed lens p) (hk : 1 < p.topK) {c : TokenCopy R}
    (hc : lens c.initPrefillLen) : WellFormed lens (p.putToken c) := by
  unfold TokenTopKPool.putToken
  cases hl : p.pool.lookup c.reqId with
  | none =>
    refine ⟨fun r t ht => ?_, h.ready⟩
    by_cases hr : r = c.reqId
    · subst hr
      obtain rfl : c.token = t := by simpa using ht
      exact ⟨rfl, hk, hc⟩
    · rw [AList.lookup_insert_ne hr] at ht
      exact h.keyed r t ht
  | some token =>
    obtain ⟨hid, hlt, hlen⟩ := h.keyed _ _ hl
    have hcount := count_appendTensor token c.row
    dsimp only
    split_ifs with hfull
    · refine ⟨fun r t ht => ?_, fun t ht => ?_⟩
      · by_cases hr : r = c.reqId
        · subst hr
          simp at ht
        · rw [AList.lookup_erase_ne hr] at ht
          exact h.keyed r t ht
      · rcases List.mem_append.mp ht with ht | ht
        · exact h.ready t ht
        · rw [List.mem_singleton.mp ht]
          exact ⟨hfull, hlen⟩
    · refine ⟨fun r t ht => ?_, h.ready⟩
      by_cases hr : r = c.reqId
      · subst hr
        rw [AList.lookup_insert, Option.some_inj] at ht
        subst ht
        exact ⟨hid, lt_of_le_of_ne (hcount ▸ hlt) hfull, hlen⟩
      · rw [AList.lookup_insert_ne hr] at ht
        exact h.keyed r t ht

theorem WellFormed.foldl_putToken (h : WellFormed lens p) (hk : 1 < p.topK)
    {cs : List (TokenCopy R)} (hcs : ∀ c ∈ cs, lens c.initPrefillLen) :
    WellFormed lens (cs.foldl TokenTopKPool.putToken p) ∧
      (cs.foldl TokenTopKPool.putToken p).topK = p.topK := by
  induction cs generalizing p with
  | nil => exact ⟨h, rfl⟩
  | cons c cs ih =>
    have htop := topK_putToken p c
    obtain ⟨hc, hcs⟩ := List.forall_mem_cons.mp hcs
    obtain ⟨hwf, hk'⟩ := ih (h.putToken hk hc) (by rwa [htop]) hcs
    exact ⟨hwf, hk'.trans htop⟩

/-- The copies of a batch have its prefill lengths. -/
theorem initPrefillLen_of_mem_copies {batch : TokenBatch W R}
    (hl : batch.data.length = batch.metadata.initPrefillLens.length) {c : TokenCopy R}
    (hc : c ∈ copies batch) : c.initPrefillLen ∈ batch.metadata.initPrefillLens := by
  obtain ⟨⟨row, i⟩, hi, rfl⟩ := List.mem_map.mp hc
  have hlt : i < batch.metadata.initPrefillLens.length := by
    have := List.snd_lt_of_mem_zipIdx hi
    omega
  dsimp only
  rw [List.getD_eq_getElem?_getD, List.getElem?_eq_getElem hlt]
  exact List.getElem_mem hlt

theorem putBatch_ok_iff [Row R] {batch : TokenBatch W R} {u : Unit} :
    putBatch batch p = .ok u p' ↔
      (batch.data.length = batch.metadata.numTokens ∧
        (∀ row ∈ batch.data, Row.size row = batch.metadata.tokenHiddenDim) ∧
        batch.metadata.numTokens = batch.metadata.reqIds.length ∧
        batch.metadata.numTokens = batch.metadata.attnDpRanks.length ∧
        batch.metadata.numTokens = batch.metadata.initPrefillLens.length) ∧
      p' = (copies batch).foldl putToken p := by
  simp only [putBatch, bind_ok_iff, ensure_ok_iff, modify_ok_iff]
  constructor
  · rintro ⟨_, _, ⟨h₁, rfl⟩, _, _, ⟨h₂, rfl⟩, _, _, ⟨h₃, rfl⟩, _, _, ⟨h₄, rfl⟩, _, _, ⟨h₅, rfl⟩, rfl⟩
    exact ⟨⟨h₁, h₂, h₃, h₄, h₅⟩, rfl⟩
  · rintro ⟨⟨h₁, h₂, h₃, h₄, h₅⟩, rfl⟩
    exact ⟨⟨⟩, p, ⟨h₁, rfl⟩, ⟨⟩, p, ⟨h₂, rfl⟩, ⟨⟩, p, ⟨h₃, rfl⟩, ⟨⟩, p, ⟨h₄, rfl⟩, ⟨⟩, p, ⟨h₅, rfl⟩,
      rfl⟩

theorem fetchReadyTokens_ok_iff {ts : List (TokenTopKInfo R)} :
    fetchReadyTokens p = .ok ts p' ↔ ts = p.readyTokens ∧ p' = { p with readyTokens := [] } := by
  rw [fetchReadyTokens, get_bind]
  simp only [bind_ok_iff, set_ok_iff, pure_ok_iff]
  constructor
  · rintro ⟨_, _, rfl, rfl, rfl⟩
    exact ⟨rfl, rfl⟩
  · rintro ⟨rfl, rfl⟩
    exact ⟨⟨⟩, _, rfl, rfl, rfl⟩

end TokenTopKPool

end StreamInfer.Pool
