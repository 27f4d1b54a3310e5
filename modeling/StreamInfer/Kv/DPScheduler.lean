import StreamInfer.Fault

/-! The global scheduler that gives every new request a data-parallel rank. It
keeps, for each rank, the blocks not yet reserved; a request reserves blocks for
its whole lifetime, prompt and output rounded up apart. The capacity-aware
policies only return a rank with room for the request. Block sizes are
positive; weights are exact fractions. -/

namespace StreamInfer.Kv

open General.Stateful

inductive Policy where
  | rr
  | max
  | capRR
  | weighted (weights : List ℚ)
  deriving DecidableEq

/-- All policies but plain round-robin look at the stats. -/
def Policy.capacityAware (p : Policy) : Bool := p != .rr

structure DPScheduler where
  dpSize : ℕ
  blockSize : ℕ
  policy : Policy
  kvCacheStats : List ℤ
  seqRanks : AList fun _ : ℤ => ℕ
  /-- Prompt and output length. -/
  seqMaxLen : AList fun _ : ℤ => ℕ × ℕ
  curRank : ℕ
  deriving DecidableEq

namespace DPScheduler

abbrev SchedM := EStateM Fault DPScheduler

def new (dpSize blockSize : ℕ) (policy : Policy) : DPScheduler where
  dpSize := dpSize
  blockSize := blockSize
  policy := policy
  kvCacheStats := List.replicate dpSize 0
  seqRanks := ∅
  seqMaxLen := ∅
  curRank := 0

/-- Weights are scaled to sum `1`. -/
def getDpScheduler (dpSize blockSize : ℕ) (policy : Policy) : Except Fault DPScheduler :=
  match policy with
  | .weighted weights =>
    if weights.length = dpSize then
      if weights ≠ [] ∧ weights.sum = 0 then .error (.outOfRange "w / total")
      else .ok (new dpSize blockSize (.weighted (weights.map (· / weights.sum))))
    else .error (.assertion "len(weights) == dp_size")
  | policy => .ok (new dpSize blockSize policy)

def setStat (rank : ℕ) (numBlocks : ℤ) : SchedM Unit := do
  let s ← get
  let _ ← readAt "kv_cache_stats[rank]" s.kvCacheStats rank
  set { s with kvCacheStats := s.kvCacheStats.set rank numBlocks }

def initKvCacheStats (stats : List (ℕ × ℤ)) : SchedM Unit :=
  forM stats fun p => setStat p.1 p.2

def requiredBlocks (s : DPScheduler) (prefillLen outputLen : ℕ) : ℕ :=
  (prefillLen + s.blockSize - 1) / s.blockSize + (outputLen + s.blockSize - 1) / s.blockSize

def addSeq (seqId : ℤ) (prefillLen outputLen rank : ℕ) : SchedM Unit := do
  modify fun s => { s with seqMaxLen := s.seqMaxLen.insert seqId (prefillLen, outputLen) }
  let s ← get
  let stat ← readAt "kv_cache_stats[rank]" s.kvCacheStats rank
  setStat rank (stat - s.requiredBlocks prefillLen outputLen)
  modify fun s => { s with seqRanks := s.seqRanks.insert seqId rank }

def delSeq (seqId : ℤ) : SchedM Unit := do
  let s ← get
  let rank ← valueOf "seq_ranks[seq_id]" (s.seqRanks.lookup seqId)
  modify fun s => { s with seqRanks := s.seqRanks.erase seqId }
  let lens ← valueOf "seq_max_len[seq_id]" (s.seqMaxLen.lookup seqId)
  let stat ← readAt "kv_cache_stats[rank]" s.kvCacheStats rank
  setStat rank (stat + s.requiredBlocks lens.1 lens.2)
  modify fun s => { s with seqMaxLen := s.seqMaxLen.erase seqId }

/-! ### Policies -/

/-- `cur_rank` moves on; its old value is returned. -/
def nextRank : SchedM ℕ := do
  let s ← get
  if s.dpSize = 0 then throw (.outOfRange "(cur_rank + 1) % dp_size")
  set { s with curRank := (s.curRank + 1) % s.dpSize }
  return s.curRank

/-- The first rank with the most blocks, if it has any. -/
def maxRank (stats : List ℤ) : ℤ × ℤ :=
  stats.zipIdx.foldl (fun best p => if p.1 > best.1 then (p.1, (p.2 : ℤ)) else best) (0, -1)

def capRRSchedule (required : ℕ) : ℕ → SchedM ℤ
  | 0 => return -1
  | n + 1 => do
    let rank ← nextRank
    let stat ← readAt "kv_cache_stats[rank]" (← get).kvCacheStats rank
    if (required : ℤ) ≤ stat then return rank else capRRSchedule required n

/-- The first rank with the best score among those with room. -/
def weightedRank (required : ℕ) (weights : List ℚ) (stats : List ℤ) : ℚ × ℤ :=
  stats.zipIdx.foldl (fun best p =>
    if p.1 < (required : ℤ) then best
    else if (p.1 : ℚ) * weights.getD p.2 0 > best.1 then
      ((p.1 : ℚ) * weights.getD p.2 0, (p.2 : ℤ))
    else best) (-1, -1)

/-- `_schedule` of the policy: a rank, or `-1`. -/
def policySchedule (prefillLen outputLen : ℕ) : SchedM ℤ := do
  let s ← get
  let required := s.requiredBlocks prefillLen outputLen
  match s.policy with
  | .rr => return (← nextRank)
  | .max =>
    let best := maxRank s.kvCacheStats
    return if best.1 < required then -1 else best.2
  | .capRR => capRRSchedule required s.dpSize
  | .weighted weights => return (weightedRank required weights s.kvCacheStats).2

/-- Place requests one by one. -/
def schedule : List (ℤ × ℕ × ℕ) → SchedM (List ℤ)
  | [] => return []
  | (req, plen, olen) :: requests => do
    let rank ← policySchedule plen olen
    if 0 ≤ rank then addSeq req plen olen rank.toNat
    let ranks ← schedule requests
    return rank :: ranks

/-! ### What the operations do -/

variable {s s' : DPScheduler}

theorem setStat_ok_iff {rank : ℕ} {numBlocks : ℤ} {u : Unit} :
    setStat rank numBlocks s = .ok u s' ↔ rank < s.kvCacheStats.length ∧
      s' = { s with kvCacheStats := s.kvCacheStats.set rank numBlocks } := by
  simp only [setStat, get_bind, bind_ok_iff, readAt_ok_iff, set_ok_iff]
  constructor
  · rintro ⟨_, _, ⟨hread, rfl⟩, rfl⟩
    exact ⟨(List.getElem?_eq_some_iff.mp hread).1, rfl⟩
  · rintro ⟨hlt, rfl⟩
    exact ⟨_, s, ⟨List.getElem?_eq_getElem hlt, rfl⟩, rfl⟩

/-- Setting the stats changes nothing else. -/
theorem initKvCacheStats_ok {stats : List (ℕ × ℤ)} {s s' : DPScheduler}
    (h : initKvCacheStats stats s = .ok ⟨⟩ s') :
    ∃ xs : List ℤ, xs.length = s.kvCacheStats.length ∧ s' = { s with kvCacheStats := xs } := by
  refine forM_keeps (I := fun t => ∃ xs : List ℤ, xs.length = s.kvCacheStats.length ∧
    t = { s with kvCacheStats := xs }) (fun p _ t t' hI ht => ?_) ⟨_, rfl, rfl⟩ h
  obtain ⟨xs, hxs, rfl⟩ := hI
  obtain ⟨-, rfl⟩ := setStat_ok_iff.mp ht
  exact ⟨xs.set p.1 p.2, by rw [List.length_set, hxs], rfl⟩

/-- A new scheduler has the policy it is asked for, with scaled weights. -/
theorem getDpScheduler_ok {dpSize blockSize : ℕ} {policy : Policy} {d : DPScheduler}
    (h : getDpScheduler dpSize blockSize policy = .ok d) :
    ∃ policy', d = new dpSize blockSize policy' ∧ policy'.capacityAware = policy.capacityAware ∧
      ∀ ws, policy' = .weighted ws → ∃ weights, policy = .weighted weights ∧ weights.length = dpSize ∧
        ws = weights.map (· / weights.sum) := by
  cases policy with
  | weighted weights =>
    rw [getDpScheduler] at h
    split_ifs at h with hlen hsum
    cases h
    refine ⟨_, rfl, rfl, fun ws hws => ?_⟩
    cases hws
    exact ⟨weights, rfl, hlen, rfl⟩
  | rr => cases h; exact ⟨_, rfl, rfl, by simp⟩
  | max => cases h; exact ⟨_, rfl, rfl, by simp⟩
  | capRR => cases h; exact ⟨_, rfl, rfl, by simp⟩

/-- A placed request reserves its blocks on its rank. -/
theorem addSeq_ok_iff {r : ℤ} {P O rank : ℕ} {u : Unit} :
    addSeq r P O rank s = .ok u s' ↔ ∃ stat, s.kvCacheStats[rank]? = some stat ∧
      s' = { s with
        kvCacheStats := s.kvCacheStats.set rank (stat - s.requiredBlocks P O)
        seqRanks := s.seqRanks.insert r rank
        seqMaxLen := s.seqMaxLen.insert r (P, O) } := by
  simp only [addSeq, bind_ok_iff, modify_ok_iff, get_bind, readAt_ok_iff, setStat_ok_iff]
  constructor
  · rintro ⟨_, _, rfl, stat, _, ⟨hread, rfl⟩, _, _, ⟨-, rfl⟩, rfl⟩
    exact ⟨stat, hread, rfl⟩
  · rintro ⟨stat, hread, rfl⟩
    exact ⟨⟨⟩, _, rfl, stat, _, ⟨hread, rfl⟩, ⟨⟩, _,
      ⟨(List.getElem?_eq_some_iff.mp hread).1, rfl⟩, rfl⟩

/-- A deleted request gives its blocks back. -/
theorem delSeq_ok_iff {r : ℤ} {u : Unit} :
    delSeq r s = .ok u s' ↔ ∃ rank P O stat, s.seqRanks.lookup r = some rank ∧
      s.seqMaxLen.lookup r = some (P, O) ∧ s.kvCacheStats[rank]? = some stat ∧
      s' = { s with
        kvCacheStats := s.kvCacheStats.set rank (stat + s.requiredBlocks P O)
        seqRanks := s.seqRanks.erase r
        seqMaxLen := s.seqMaxLen.erase r } := by
  simp only [delSeq, bind_ok_iff, modify_ok_iff, get_bind, readAt_ok_iff, setStat_ok_iff,
    valueOf_ok_iff]
  constructor
  · rintro ⟨rank, _, ⟨hrank, rfl⟩, _, _, rfl, ⟨P, O⟩, _, ⟨hlen, rfl⟩, stat, _, ⟨hread, rfl⟩, _, _,
      ⟨-, rfl⟩, rfl⟩
    exact ⟨rank, P, O, stat, hrank, hlen, hread, rfl⟩
  · rintro ⟨rank, P, O, stat, hrank, hlen, hread, rfl⟩
    exact ⟨rank, s, ⟨hrank, rfl⟩, ⟨⟩, _, rfl, (P, O), _, ⟨hlen, rfl⟩, stat, _, ⟨hread, rfl⟩, ⟨⟩, _,
      ⟨(List.getElem?_eq_some_iff.mp hread).1, rfl⟩, rfl⟩

/-- What a choice by scanning the stats keeps. -/
theorem foldl_zipIdx_keeps {β : Type} {I : β → Prop} {pick : β → ℤ × ℕ → β} {stats : List ℤ}
    {start : β} (h₀ : I start)
    (h : ∀ best n i, stats[i]? = some n → I best → I (pick best (n, i))) :
    I (stats.zipIdx.foldl pick start) := by
  refine List.foldlRecOn stats.zipIdx pick h₀ fun best hbest p hp => ?_
  exact h best p.1 p.2 (List.mem_zipIdx_iff_getElem?.mp hp) hbest

/-- The chosen rank has the required blocks. -/
def HasRoom (s : DPScheduler) (required : ℕ) (rank : ℤ) : Prop :=
  ∃ (i : ℕ) (stat : ℤ), rank = i ∧ s.kvCacheStats[i]? = some stat ∧ (required : ℤ) ≤ stat

theorem nextRank_ok {rank : ℕ} (h : nextRank s = .ok rank s') :
    ∃ c, s' = { s with curRank := c } := by
  simp only [nextRank, get_bind] at h
  split_ifs at h
  · simp [bind_ok_iff] at h
  · simp only [bind_ok_iff, set_ok_iff, pure_ok_iff] at h
    obtain ⟨_, _, rfl, -, rfl⟩ := h
    exact ⟨_, rfl⟩

theorem capRRSchedule_ok {required n : ℕ} {rank : ℤ} (h : capRRSchedule required n s = .ok rank s') :
    (∃ c, s' = { s with curRank := c }) ∧ (rank = -1 ∨ HasRoom s required rank) := by
  induction n generalizing s with
  | zero =>
    obtain ⟨rfl, rfl⟩ := pure_ok_iff.mp h
    exact ⟨⟨s'.curRank, rfl⟩, .inl rfl⟩
  | succ n ih =>
    simp only [capRRSchedule, bind_ok_iff, get_bind, readAt_ok_iff] at h
    obtain ⟨i, s₁, hnext, stat, _, ⟨hread, rfl⟩, hrest⟩ := h
    obtain ⟨c, rfl⟩ := nextRank_ok hnext
    split_ifs at hrest with hroom
    · obtain ⟨rfl, rfl⟩ := pure_ok_iff.mp hrest
      exact ⟨⟨c, rfl⟩, .inr ⟨i, stat, rfl, hread, hroom⟩⟩
    · obtain ⟨⟨c', rfl⟩, hroom'⟩ := ih hrest
      exact ⟨⟨c', rfl⟩, hroom'⟩

/-- A capacity-aware policy returns no rank or one with room. -/
theorem policySchedule_ok (hcap : s.policy.capacityAware = true) {P O : ℕ} {rank : ℤ}
    (h : policySchedule P O s = .ok rank s') :
    (∃ c, s' = { s with curRank := c }) ∧ (rank = -1 ∨ HasRoom s (s.requiredBlocks P O) rank) := by
  rw [policySchedule, get_bind] at h
  obtain ⟨policy, hp⟩ : ∃ policy, s.policy = policy := ⟨_, rfl⟩
  cases policy with
  | rr => simp [hp, Policy.capacityAware] at hcap
  | capRR =>
    rw [hp] at h
    exact capRRSchedule_ok h
  | max =>
    rw [hp] at h
    have hrank : rank = if (maxRank s.kvCacheStats).1 < (s.requiredBlocks P O : ℤ) then -1
      else (maxRank s.kvCacheStats).2 := (pure_ok_iff.mp h).1
    obtain rfl := (pure_ok_iff.mp h).2
    refine ⟨⟨s'.curRank, rfl⟩, ?_⟩
    have hbest : (maxRank s'.kvCacheStats = (0, -1)) ∨ ∃ i : ℕ,
        (maxRank s'.kvCacheStats).2 = i ∧ s'.kvCacheStats[i]? = some (maxRank s'.kvCacheStats).1 := by
      refine foldl_zipIdx_keeps (I := fun best => best = (0, -1) ∨ ∃ i : ℕ, best.2 = (i : ℤ) ∧
        s'.kvCacheStats[i]? = some best.1) (.inl rfl) fun best n i hn hbest => ?_
      dsimp only
      split_ifs
      · exact .inr ⟨i, rfl, hn⟩
      · exact hbest
    rw [hrank]
    split_ifs with hlt
    · exact .inl rfl
    · rcases hbest with hnone | ⟨i, hi, hstat⟩
      · exact .inl (by rw [hnone])
      · exact .inr ⟨i, _, hi, hstat, not_lt.mp hlt⟩
  | weighted weights =>
    rw [hp] at h
    obtain ⟨rfl, rfl⟩ := pure_ok_iff.mp h
    refine ⟨⟨s'.curRank, rfl⟩, ?_⟩
    refine foldl_zipIdx_keeps (I := fun best : ℚ × ℤ => best.2 = -1 ∨
      HasRoom s' (s'.requiredBlocks P O) best.2) (.inl rfl) fun best n i hn hbest => ?_
    dsimp only
    split_ifs with hlt hscore
    · exact hbest
    · exact .inr ⟨i, n, rfl, hn, not_lt.mp hlt⟩
    · exact hbest

/-- Placing one request: nothing changes, or it reserves blocks on a rank with room. -/
theorem schedule_one_ok (hcap : s.policy.capacityAware = true) {r : ℤ} {P O : ℕ}
    {ranks : List ℤ} (h : schedule [(r, P, O)] s = .ok ranks s') :
    (ranks = [-1] ∧ ∃ c, s' = { s with curRank := c }) ∨
    ∃ (rank : ℕ) (stat : ℤ) (c : ℕ), ranks = [(rank : ℤ)] ∧ s.kvCacheStats[rank]? = some stat ∧
      (s.requiredBlocks P O : ℤ) ≤ stat ∧
      s' = { s with
        kvCacheStats := s.kvCacheStats.set rank (stat - s.requiredBlocks P O)
        seqRanks := s.seqRanks.insert r rank
        seqMaxLen := s.seqMaxLen.insert r (P, O)
        curRank := c } := by
  rw [schedule, bind_ok_iff] at h
  obtain ⟨rank, s₁, hpolicy, h⟩ := h
  obtain ⟨⟨c, rfl⟩, rfl | ⟨i, stat, rfl, hstat, hroom⟩⟩ := policySchedule_ok hcap hpolicy
  · simp only [schedule, pure_bind, Int.reduceLE, ↓reduceIte, pure_ok_iff] at h
    exact .inl ⟨h.1, c, h.2⟩
  · simp only [Int.natCast_nonneg, ↓reduceIte, Int.toNat_natCast, schedule, pure_bind, bind_ok_iff,
      pure_ok_iff] at h
    obtain ⟨_, _, hadd, rfl, rfl⟩ := h
    obtain ⟨stat', hstat', rfl⟩ := addSeq_ok_iff.mp hadd
    obtain rfl : stat = stat' := Option.some.inj (hstat.symm.trans hstat')
    exact .inr ⟨i, stat, c, rfl, hstat, hroom, rfl⟩

end DPScheduler

end StreamInfer.Kv
