import StreamInfer.Pool.BatchKind
import StreamInfer.Fault

/-! A layer of the pool: a queue of batches, a queue of tokens and a counter. A
get takes batches from the front up to a threshold and cuts the last one; a
failed get keeps what it did. With tokens queued and a positive threshold it
takes exactly the first tokens, and the counter stays the number of tokens. -/

namespace StreamInfer.Pool

open General General.Stateful Batch

variable {W R : Type}

/-- A cut in two takes all rows, and gives batches of the asked sizes. -/
theorem splitWithSizes_two_iff {b : TokenBatch W R} {bs : List (TokenBatch W R)} {m n : ℕ} :
    b.splitWithSizes [m, n] = .ok bs ↔ m + n = b.data.length ∧ ∃ first second : BatchMetadata W,
      b.metadata.splitWithSizes [m, n] = [first, second] ∧ first.numTokens = m ∧ second.numTokens = n ∧
        bs = [⟨b.data.take m, first⟩, ⟨(b.data.drop m).take n, second⟩] := by
  obtain ⟨first, second, hmetas, hfirst, hsecond⟩ : ∃ first second : BatchMetadata W,
      b.metadata.splitWithSizes [m, n] = [first, second] ∧ first.numTokens = m ∧ second.numTokens = n := by
    refine ⟨_, _, rfl, ?_, ?_⟩
    · cases b.metadata.isAttention <;> rfl
    · cases b.metadata.isAttention <;> rfl
  have hsum : [m, n].sum = m + n := by rw [List.sum_cons, List.sum_singleton]
  unfold TokenBatch.splitWithSizes TokenBatch.splitTensorBySize
  rw [hmetas, hsum]
  split_ifs with hrows
  · simp only [List.splitLengths_cons, List.splitLengths_nil]
    constructor
    · intro h
      exact ⟨hrows, first, second, rfl, hfirst, hsecond, (Except.ok.inj h).symm⟩
    · rintro ⟨-, first', second', hsame, -, -, rfl⟩
      obtain ⟨rfl, hrest⟩ := List.cons.inj hsame
      obtain ⟨rfl, -⟩ := List.cons.inj hrest
      rfl
  · constructor
    · intro h
      cases h
    · rintro ⟨hsame, -⟩
      exact absurd hsame hrows
structure UnifiedLayer (W R : Type) where
  layerId : ℕ
  numTokens : ℤ
  batchQueue : List (TokenBatch W R)
  tokenQueue : List (TokenTopKInfo R)
  deriving DecidableEq

namespace UnifiedLayer

abbrev LayerM (W R : Type) := EStateM Fault (UnifiedLayer W R)

def create (layerId : ℕ) : UnifiedLayer W R := ⟨layerId, 0, [], []⟩

def addBatch (batch : TokenBatch W R) : LayerM W R Unit :=
  modify fun l => { l with
    batchQueue := l.batchQueue ++ [batch]
    numTokens := l.numTokens + batch.metadata.numTokens }

def addTokens (tokens : List (TokenTopKInfo R)) : LayerM W R Unit :=
  modify fun l => { l with
    tokenQueue := l.tokenQueue ++ tokens
    numTokens := l.numTokens + tokens.length }

def setBatchQueue (queue : List (TokenBatch W R)) : LayerM W R Unit :=
  modify fun l => { l with batchQueue := queue }

def getAllBatches : LayerM W R (List (TokenBatch W R)) :=
  modifyGet fun l => (l.batchQueue, { l with
    batchQueue := []
    numTokens := 0 })

def getAllTokens : LayerM W R (List (TokenTopKInfo R)) :=
  modifyGet fun l => (l.tokenQueue, { l with
    tokenQueue := []
    numTokens := 0 })

/-- The loop of `get_batches_restricted` over the queue, with the tokens taken so
far. After a cut the threshold is reached. -/
def takeBatches (tokenThreshold : ℤ) : List (TokenBatch W R) → ℤ →
    LayerM W R (List (TokenBatch W R) × ℤ)
  | [], totalTokens => return ([], totalTokens)
  | firstBatch :: queue, totalTokens =>
    if totalTokens < tokenThreshold then
      if totalTokens + firstBatch.metadata.numTokens > tokenThreshold then do
        let needTokens := (tokenThreshold - totalTokens).toNat
        match firstBatch.splitWithSizes [needTokens, firstBatch.metadata.numTokens - needTokens] with
        | .ok [head, tail] =>
          setBatchQueue (tail :: queue)
          return ([head], totalTokens + head.metadata.numTokens)
        | .ok _ => throw (.outOfRange "batches[1]")
        | .error e => throw e
      else do
        setBatchQueue queue
        let rest ← takeBatches tokenThreshold queue (totalTokens + firstBatch.metadata.numTokens)
        return (firstBatch :: rest.1, rest.2)
    else return ([], totalTokens)

/-- The text of the failed assertion reads `batch_queue.front()`. -/
def getBatchesRestricted (tokenThreshold : ℤ) : LayerM W R (List (TokenBatch W R)) := do
  let (result, totalTokens) ← takeBatches tokenThreshold (← get).batchQueue 0
  modify fun l => { l with numTokens := l.numTokens - totalTokens }
  if 0 < totalTokens ∧ result ≠ [] then return result
  else if (← get).batchQueue = [] then throw (.outOfRange "batch_queue.front()")
  else throw (.assertion "Got nothing from layer")

def getTokensRestricted (tokenThreshold : ℤ) : LayerM W R (List (TokenTopKInfo R)) := do
  let l ← get
  let result := l.tokenQueue.take tokenThreshold.toNat
  set { l with
    tokenQueue := l.tokenQueue.drop tokenThreshold.toNat
    numTokens := l.numTokens - result.length }
  return result

/-! ### Batches and their tokens -/

section Batches

variable [Zero W]

/-- The batches of a kind hold these tokens, and the counter counts them. -/
structure Holds (K : BatchKind W R) (l : UnifiedLayer W R) (xs : List (TokenMetadata W × R)) :
    Prop where
  batches : ∃ xss, List.Forall₂ K.Good l.batchQueue xss ∧ xss.flatten = xs
  noTokens : l.tokenQueue = []
  counter : l.numTokens = xs.length

variable {K : BatchKind W R} {l : UnifiedLayer W R} {xs : List (TokenMetadata W × R)}

theorem holds_create (layerId : ℕ) : Holds K (create layerId) [] :=
  ⟨⟨[], .nil, rfl⟩, rfl, rfl⟩

theorem Holds.addBatch (h : Holds K l xs) {b : TokenBatch W R} {ys : List (TokenMetadata W × R)}
    (hb : K.Good b ys) : ∃ l', UnifiedLayer.addBatch b l = .ok ⟨⟩ l' ∧ Holds K l' (xs ++ ys) := by
  obtain ⟨xss, hall, rfl⟩ := h.batches
  refine ⟨_, rfl, ⟨xss ++ [ys], ?_, by simp⟩, h.noTokens, ?_⟩
  · exact List.rel_append hall (.cons hb .nil)
  · simp [h.counter, K.numTokens hb]

/-- Taking batches cuts the queued tokens at what the threshold leaves room for. -/
theorem takeBatches_ok (tokenThreshold : ℤ) {queue : List (TokenBatch W R)}
    {xss : List (List (TokenMetadata W × R))} (h : List.Forall₂ K.Good queue xss) (total : ℤ)
    (hl : l.batchQueue = queue) :
    ∃ bs rest yss rss, takeBatches tokenThreshold queue total l =
        .ok (bs, total + yss.flatten.length) { l with batchQueue := rest } ∧
      List.Forall₂ K.Good bs yss ∧ List.Forall₂ K.Good rest rss ∧
      yss.flatten = xss.flatten.take (tokenThreshold - total).toNat ∧
      rss.flatten = xss.flatten.drop (tokenThreshold - total).toNat := by
  induction h generalizing l total with
  | nil => exact ⟨[], [], [], [], by simp [takeBatches, ← hl], .nil, .nil, by simp, by simp⟩
  | @cons b xs queue xss hb hall ih =>
    have hn := K.numTokens hb
    rw [takeBatches]
    by_cases hlt : total < tokenThreshold
    · rw [if_pos hlt]
      by_cases hcut : total + b.metadata.numTokens > tokenThreshold
      · -- the cut batch leaves its tail at the front
        rw [if_pos hcut]
        set need := (tokenThreshold - total).toNat with hneed
        have hle : need ≤ xs.length := by omega
        have hsizes : [need, b.metadata.numTokens - need].sum = xs.length := by
          simp
          omega
        obtain ⟨bs, hok, hparts⟩ := K.splits hb hsizes
        simp only [List.splitLengths_cons, List.splitLengths_nil, List.forall₂_cons_right_iff,
          List.forall₂_nil_right_iff] at hparts
        obtain ⟨head, _, hhead, ⟨tail, _, htail, rfl, rfl⟩, rfl⟩ := hparts
        rw [List.take_of_length_le (by simp [hn])] at htail
        refine ⟨[head], tail :: queue, [xs.take need], xs.drop need :: xss, ?_, .cons hhead .nil,
          .cons htail hall, ?_, ?_⟩
        · simp only [hok, K.numTokens hhead]
          simp
          rfl
        · simp [List.take_append_of_le_length hle]
        · simp [List.drop_append_of_le_length hle]
      · rw [if_neg hcut]
        obtain ⟨bs, rest, yss, rss, hok, hbs, hrest, htake, hdrop⟩ :=
          ih (l := { l with batchQueue := queue }) (total + b.metadata.numTokens) rfl
        have hroom : (tokenThreshold - total).toNat =
            xs.length + (tokenThreshold - (total + b.metadata.numTokens)).toNat := by omega
        refine ⟨b :: bs, rest, xs :: yss, rss, ?_, .cons hb hbs, hrest, ?_, ?_⟩
        · simp only [setBatchQueue, bind_ok_iff, modify_ok_iff]
          refine ⟨⟨⟩, _, rfl, _, _, hok, ?_⟩
          simp [hn]
          omega
        · rw [List.flatten_cons, List.flatten_cons, htake, hroom, List.take_length_add_append]
        · rw [List.flatten_cons, hdrop, hroom, List.drop_length_add_append]
    · rw [if_neg hlt]
      have hzero : (tokenThreshold - total).toNat = 0 := by omega
      exact ⟨[], b :: queue, [], xs :: xss, by simp [← hl], .nil, .cons hb hall, by simp [hzero],
        by simp [hzero]⟩

/-- A get with tokens queued takes the first ones, up to the threshold. -/
theorem Holds.getBatchesRestricted (h : Holds K l xs) (hne : xs ≠ []) {tokenThreshold : ℤ}
    (ht : 1 ≤ tokenThreshold) :
    ∃ bs yss l', UnifiedLayer.getBatchesRestricted tokenThreshold l = .ok bs l' ∧ bs ≠ [] ∧
      List.Forall₂ K.Good bs yss ∧ yss.flatten = xs.take tokenThreshold.toNat ∧
      Holds K l' (xs.drop tokenThreshold.toNat) ∧ l'.layerId = l.layerId := by
  obtain ⟨xss, hall, rfl⟩ := h.batches
  obtain ⟨bs, rest, yss, rss, hok, hbs, hrest, htake, hdrop⟩ :=
    takeBatches_ok tokenThreshold hall 0 (rfl : l.batchQueue = l.batchQueue)
  rw [Int.sub_zero] at htake hdrop
  have hpos : 0 < yss.flatten.length := by
    rw [htake, List.length_take]
    have := List.length_pos_iff.mpr hne
    omega
  have hbne : bs ≠ [] := by
    rintro rfl
    cases hbs
    simp at hpos
  refine ⟨bs, yss, { l with batchQueue := rest, numTokens := l.numTokens - yss.flatten.length }, ?_,
    hbne, hbs, htake, ⟨⟨rss, hrest, hdrop⟩, h.noTokens, ?_⟩, rfl⟩
  · rw [UnifiedLayer.getBatchesRestricted, get_bind, bind_of_ok hok]
    simp only [bind_ok_iff, modify_ok_iff]
    refine ⟨⟨⟩, _, rfl, ?_⟩
    rw [if_pos ⟨by omega, hbne⟩]
    simp
  · change l.numTokens - (yss.flatten.length : ℤ) = _
    rw [h.counter, htake, List.length_take, List.length_drop]
    omega

end Batches

/-! ### Queued tokens -/

variable {l : UnifiedLayer W R}

/-- The token queue holds tokens of `topk` rows, and the counter counts them. -/
structure HoldsTokens (topk : ℕ) (l : UnifiedLayer W R) (ts : List (TokenTopKInfo R)) : Prop where
  tokens : l.tokenQueue = ts
  noBatches : l.batchQueue = []
  counter : l.numTokens = ts.length
  counts : ∀ t ∈ ts, t.count = topk

theorem holdsTokens_create (topk layerId : ℕ) : HoldsTokens topk (create (W := W) (R := R) layerId) [] :=
  ⟨rfl, rfl, rfl, by simp⟩

theorem HoldsTokens.addTokens {topk : ℕ} {ts us : List (TokenTopKInfo R)} (h : HoldsTokens topk l ts)
    (hc : ∀ t ∈ us, t.count = topk) :
    ∃ l', UnifiedLayer.addTokens us l = .ok ⟨⟩ l' ∧ HoldsTokens topk l' (ts ++ us) := by
  refine ⟨_, rfl, by simp [h.tokens], h.noBatches, by simp [h.counter], fun t ht => ?_⟩
  exact (List.mem_append.mp ht).elim (h.counts t) (hc t)

theorem HoldsTokens.getTokensRestricted {topk : ℕ} {ts : List (TokenTopKInfo R)}
    (h : HoldsTokens topk l ts) (tokenThreshold : ℤ) :
    ∃ l', UnifiedLayer.getTokensRestricted tokenThreshold l =
        .ok (ts.take tokenThreshold.toNat) l' ∧
      HoldsTokens topk l' (ts.drop tokenThreshold.toNat) ∧ l'.layerId = l.layerId := by
  have hcounter : l.numTokens - ((ts.take tokenThreshold.toNat).length : ℤ) =
      (ts.drop tokenThreshold.toNat).length := by
    rw [h.counter, List.length_take, List.length_drop]
    omega
  refine ⟨{ l with
    tokenQueue := ts.drop tokenThreshold.toNat
    numTokens := l.numTokens - (ts.take tokenThreshold.toNat).length }, ?_,
    ⟨rfl, h.noBatches, hcounter, fun t ht => h.counts t (List.mem_of_mem_drop ht)⟩, rfl⟩
  rw [UnifiedLayer.getTokensRestricted, get_bind, h.tokens]
  rfl

end UnifiedLayer

end StreamInfer.Pool
