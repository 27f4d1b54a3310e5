import StreamInfer.Kv.Choice
import StreamInfer.Kv.Reservations
import StreamInfer.General.Reach

/-! The scheduler over a whole run of placements and releases. On every rank the
free blocks and the blocks of the live requests are the blocks it started with;
a request is placed exactly when some rank has the blocks for it, and a refused
one leaves no trace in the stats and the records. -/

namespace StreamInfer.Kv.DPScheduler

open General General.Stateful Admission

/-- A request with its prompt and output lengths. -/
abbrev Request := ℤ × ℕ × ℕ

def Request.required (s : DPScheduler) (q : Request) : ℕ := s.requiredBlocks q.2.1 q.2.2

/-- The request reserves its blocks on a rank that has them. -/
structure Reserved (s : DPScheduler) (q : Request) (rank : ℤ) (s' : DPScheduler) : Prop where
  room : HasRoom s (q.required s) rank
  state : ∃ (k : ℕ) (stat : ℤ) (c : ℕ), rank = k ∧ s.kvCacheStats[k]? = some stat ∧
    s' = { s with
      kvCacheStats := s.kvCacheStats.set k (stat - q.required s)
      seqRanks := s.seqRanks.insert q.1 k
      seqMaxLen := s.seqMaxLen.insert q.1 q.2
      curRank := c }

/-- No rank has the blocks; only the round-robin pointer may move. -/
structure Refused (s : DPScheduler) (q : Request) (rank : ℤ) (s' : DPScheduler) : Prop where
  rank : rank = -1
  noRoom : NoRoom s (q.required s)
  state : ∃ c, s' = { s with curRank := c }

/-- The requests of a call, one after the other, with their ranks. -/
inductive Placements : DPScheduler → List Request → List ℤ → DPScheduler → Prop
  | nil (s : DPScheduler) : Placements s [] [] s
  | cons {s s₁ s' : DPScheduler} {q : Request} {qs : List Request} {rank : ℤ} {ranks : List ℤ}
      (h : Reserved s q rank s₁ ∨ Refused s q rank s₁) (hs : Placements s₁ qs ranks s') :
      Placements s (q :: qs) (rank :: ranks) s'

/-- Requests of at least one prompt and one output token, with ids that are not live. -/
structure Fresh (s : DPScheduler) (qs : List Request) : Prop where
  lens : ∀ q ∈ qs, 1 ≤ q.2.1 ∧ 1 ≤ q.2.2
  nodup : (qs.map Prod.fst).Nodup
  new : ∀ q ∈ qs, q.1 ∉ s.seqRanks

/-- A call that returned. -/
inductive Step (s s' : DPScheduler) : Prop
  | schedule (qs : List Request) (ranks : List ℤ) (hf : Fresh s qs)
      (h : schedule qs s = .ok ranks s')
  | delSeq (r : ℤ) (hr : r ∈ s.seqRanks) (h : delSeq r s = .ok ⟨⟩ s')

/-- The account of every rank, from the stats `initial`. -/
structure Accounts (blockSize : ℕ) (initial : List ℤ) (s : DPScheduler) : Prop where
  ready : Ready s
  size : s.blockSize = blockSize
  length : s.kvCacheStats.length = initial.length
  reserves : ∀ (rank numBlocks : ℕ), initial[rank]? = some (numBlocks : ℤ) →
    ∃ K, Reserves rank numBlocks blockSize s K

/-! ### Starting -/

/-- Positive weights of a weighted policy. -/
def Policy.Positive : Policy → Prop
  | .weighted weights => ∀ w ∈ weights, 0 < w
  | _ => True

/-- A new scheduler of a capacity-aware policy with the stats of the ranks. -/
structure Configured (dpSize blockSize : ℕ) (policy : Policy) (s : DPScheduler) : Prop where
  capacityAware : policy.capacityAware = true
  positive : Policy.Positive policy
  stats : ∃ (stats : List (ℕ × ℤ)) (d : DPScheduler), getDpScheduler dpSize blockSize policy = .ok d ∧
    initKvCacheStats stats d = .ok ⟨⟩ s

structure Starts (dpSize blockSize : ℕ) (policy : Policy) (s : DPScheduler) : Prop
    extends Configured dpSize blockSize policy s where
  nonneg : ∀ stat ∈ s.kvCacheStats, 0 ≤ stat

/-- Scaled weights are positive, one for each rank. -/
theorem Configured.weights {dpSize blockSize : ℕ} {policy : Policy} {s : DPScheduler}
    (h : Configured dpSize blockSize policy s) {weights : List ℚ} (hw : policy = .weighted weights) :
    ∀ w ∈ weights.map (· / weights.sum), 0 < w := by
  intro w hmem
  have hpos := h.positive
  rw [hw] at hpos
  obtain ⟨v, hv, rfl⟩ := List.mem_map.mp hmem
  have hv' : 0 < v := hpos v hv
  have hnn : ∀ u ∈ weights, (0 : ℚ) ≤ u := fun u hu => le_of_lt (hpos u hu)
  have hle : v ≤ weights.sum := List.single_le_sum hnn v hv
  exact div_pos hv' (lt_of_lt_of_le hv' hle)

theorem Configured.eq {dpSize blockSize : ℕ} {policy : Policy} {s : DPScheduler}
    (h : Configured dpSize blockSize policy s) :
    ∃ (policy' : Policy) (xs : List ℤ), xs.length = dpSize ∧ Ready s ∧
      s = { new dpSize blockSize policy' with kvCacheStats := xs } := by
  obtain ⟨stats, d, hget, hinit⟩ := h.stats
  obtain ⟨policy', rfl, hcap, hweights⟩ := getDpScheduler_ok hget
  obtain ⟨xs, hxs, rfl⟩ := initKvCacheStats_ok hinit
  have hlen : xs.length = dpSize := by simpa [new] using hxs
  refine ⟨policy', xs, hlen, ⟨hcap.trans h.capacityAware, hlen, fun h0 => Nat.pos_of_ne_zero h0,
    fun ws hws => ?_, fun r rank hr => ?_⟩, rfl⟩
  · obtain ⟨weights, hpolicy, hsize, rfl⟩ := hweights ws hws
    exact ⟨(List.length_map _).trans hsize, h.weights hpolicy⟩
  · simp [new] at hr

theorem Starts.accounts {dpSize blockSize : ℕ} {policy : Policy} {s : DPScheduler}
    (h : Starts dpSize blockSize policy s) :
    Accounts blockSize s.kvCacheStats s ∧ s.kvCacheStats.length = dpSize := by
  obtain ⟨policy', xs, hlen, hready, rfl⟩ := h.toConfigured.eq
  refine ⟨⟨hready, rfl, rfl, fun rank numBlocks hrank => ?_⟩, hlen⟩
  refine ⟨∅, hready.capacityAware, rfl, fun r => ?_, fun r k hr => ?_, numBlocks, hrank, ?_⟩
  · simp [new]
  · simp [new] at hr
  · simp

/-! ### Steps -/

variable {blockSize : ℕ} {initial : List ℤ} {s s' : DPScheduler}

theorem Accounts.refused (h : Accounts blockSize initial s) {c : ℕ}
    (hc : s.dpSize ≠ 0 → c < s.dpSize) : Accounts blockSize initial { s with curRank := c } where
  ready := h.ready.turn hc
  size := h.size
  length := h.length
  reserves k n hk := by
    obtain ⟨K, hK⟩ := h.reserves k n hk
    exact ⟨K, hK.capacityAware, hK.blockSize, hK.mem_iff, hK.known, hK.stat⟩

theorem Accounts.reserved (h : Accounts blockSize initial s) {q : Request} {k c : ℕ} {stat : ℤ}
    (hq : q.1 ∉ s.seqRanks) (hstat : s.kvCacheStats[k]? = some stat)
    (hroom : (q.required s : ℤ) ≤ stat) (hc : s.dpSize ≠ 0 → c < s.dpSize)
    (hs : s' = { s with
      kvCacheStats := s.kvCacheStats.set k (stat - q.required s)
      seqRanks := s.seqRanks.insert q.1 k
      seqMaxLen := s.seqMaxLen.insert q.1 q.2
      curRank := c }) : Accounts blockSize initial s' where
  ready := by
    rw [hs]
    exact h.ready.place (List.getElem?_eq_some_iff.mp hstat).1 hc
  size := by rw [hs]; exact h.size
  length := by rw [hs]; simpa using h.length
  reserves rank n hrank := by
    obtain ⟨K, hK⟩ := h.reserves rank n hrank
    exact ⟨_, hK.place hq hstat hroom hs⟩

theorem schedule_cons_placed {s₁ s₂ : DPScheduler} {r : ℤ} {P O k : ℕ} {qs : List Request}
    {ranks : List ℤ} (hpolicy : policySchedule P O s = .ok (k : ℤ) s₁)
    (hadd : addSeq r P O k s₁ = .ok ⟨⟩ s₂) (hrest : schedule qs s₂ = .ok ranks s') :
    schedule ((r, P, O) :: qs) s = .ok ((k : ℤ) :: ranks) s' := by
  rw [schedule, bind_ok_iff]
  refine ⟨k, s₁, hpolicy, ?_⟩
  simp only [Int.natCast_nonneg, ↓reduceIte, Int.toNat_natCast, bind_ok_iff, pure_ok_iff]
  exact ⟨⟨⟩, s₂, hadd, ranks, s', hrest, rfl, rfl⟩

theorem schedule_cons_refused {s₁ : DPScheduler} {r : ℤ} {P O : ℕ} {qs : List Request}
    {ranks : List ℤ} (hpolicy : policySchedule P O s = .ok (-1) s₁)
    (hrest : schedule qs s₁ = .ok ranks s') :
    schedule ((r, P, O) :: qs) s = .ok (-1 :: ranks) s' := by
  rw [schedule, bind_ok_iff]
  refine ⟨-1, s₁, hpolicy, ?_⟩
  simp only [Int.reduceNeg, Int.reduceLE, ↓reduceIte, bind_ok_iff, pure_ok_iff]
  exact ⟨ranks, s', hrest, rfl, rfl⟩

/-- A call with fresh requests returns, and places what can be placed. -/
theorem Accounts.schedule (hb : 0 < blockSize) (h : Accounts blockSize initial s)
    {qs : List Request} (hf : Fresh s qs) :
    ∃ ranks s', schedule qs s = .ok ranks s' ∧ Placements s qs ranks s' ∧
      Accounts blockSize initial s' := by
  induction qs generalizing s with
  | nil => exact ⟨[], s, rfl, .nil s, h⟩
  | cons q qs ih =>
    obtain ⟨r, P, O⟩ := q
    obtain ⟨hq, hlens⟩ := List.forall_mem_cons.mp hf.lens
    obtain ⟨hrnew, hnew⟩ := List.forall_mem_cons.mp hf.new
    obtain ⟨hnotin, hnodup⟩ := List.nodup_cons.mp hf.nodup
    have hpos : 0 < s.requiredBlocks P O := requiredBlocks_pos s (by rw [h.size]; exact hb) hq.1
    obtain ⟨rank, c, hpolicy, hc, hroom | ⟨rfl, hno⟩⟩ := policySchedule_total h.ready P O
    · obtain ⟨k, stat, rfl, hstat, hle⟩ := hroom
      have hadd : addSeq r P O k { s with curRank := c } = .ok ⟨⟩ _ :=
        addSeq_ok_iff.mpr ⟨stat, hstat, rfl⟩
      have hacc := h.reserved (q := (r, P, O)) hrnew hstat hle hc rfl
      have hfresh : Fresh { s with
          kvCacheStats := s.kvCacheStats.set k (stat - s.requiredBlocks P O)
          seqRanks := s.seqRanks.insert r k
          seqMaxLen := s.seqMaxLen.insert r (P, O)
          curRank := c } qs := by
        refine ⟨hlens, hnodup, fun q hq hmem => ?_⟩
        rcases (AList.mem_insert _).mp hmem with heq | hmem
        · have hin : q.1 ∈ qs.map Prod.fst := List.mem_map_of_mem hq
          rw [heq] at hin
          exact hnotin hin
        · exact hnew q hq hmem
      obtain ⟨ranks, s', hok, hplaced, hacc'⟩ := ih hacc hfresh
      refine ⟨(k : ℤ) :: ranks, s', ?_, .cons (.inl ⟨⟨k, stat, rfl, hstat, hle⟩, k, stat, c, rfl,
        hstat, rfl⟩) hplaced, hacc'⟩
      exact schedule_cons_placed hpolicy hadd hok
    · have hfresh : Fresh { s with curRank := c } qs := ⟨hlens, hnodup, hnew⟩
      obtain ⟨ranks, s', hok, hplaced, hacc'⟩ := ih (h.refused hc) hfresh
      refine ⟨-1 :: ranks, s', ?_, .cons (.inr ⟨rfl, hno hpos, c, rfl⟩) hplaced, hacc'⟩
      exact schedule_cons_refused hpolicy hok

/-- A live request is released. -/
theorem Accounts.delSeq (h : Accounts blockSize initial s) {r : ℤ} (hr : r ∈ s.seqRanks) :
    ∃ s', DPScheduler.delSeq r s = .ok ⟨⟩ s' ∧ Accounts blockSize initial s' := by
  obtain ⟨s', hok⟩ := h.ready.delSeq hr
  obtain ⟨rank, P, O, stat, -, -, -, heq⟩ := delSeq_ok_iff.mp hok
  refine ⟨s', hok, h.ready.delete hok, by rw [heq]; exact h.size,
    by rw [heq]; simpa using h.length, fun k n hk => ?_⟩
  obtain ⟨K, hK⟩ := h.reserves k n hk
  exact ⟨_, hK.delete hok⟩

theorem Accounts.step (hb : 0 < blockSize) (h : Accounts blockSize initial s) (hs : Step s s') :
    Accounts blockSize initial s' := by
  cases hs with
  | schedule qs ranks hf hok =>
    obtain ⟨ranks', t, hok', -, hacc⟩ := h.schedule hb hf
    cases hok.symm.trans hok'
    exact hacc
  | delSeq r hr hok =>
    obtain ⟨t, hok', hacc⟩ := h.delSeq hr
    cases hok.symm.trans hok'
    exact hacc

/-- In every state of a run the accounts of all ranks balance, a call with fresh
requests places each that some rank has the blocks for and leaves the others
without a trace, and live requests can be released. -/
theorem accounts_balance {dpSize : ℕ} (hb : 1 ≤ blockSize) {policy : Policy} {s₀ : DPScheduler}
    (hstart : Starts dpSize blockSize policy s₀) (h : Reach (· = s₀) Step s) :
    (∀ rank < dpSize, ∃ (numBlocks : ℕ) (K : Finset ℤ),
      s₀.kvCacheStats[rank]? = some (numBlocks : ℤ) ∧ Reserves rank numBlocks blockSize s K) ∧
    (∀ qs, Fresh s qs → ∃ ranks s', schedule qs s = .ok ranks s' ∧ Placements s qs ranks s') ∧
    ∀ r ∈ s.seqRanks, ∃ s', delSeq r s = .ok ⟨⟩ s' := by
  have hacc : Accounts blockSize s₀.kvCacheStats s :=
    h.invariant (by rintro _ rfl; exact hstart.accounts.1) fun _ _ hI hs => hI.step hb hs
  refine ⟨fun rank hrank => ?_, fun qs hf => ?_, fun r hr => ?_⟩
  · have hlt : rank < s₀.kvCacheStats.length := by
      rw [hstart.accounts.2]
      exact hrank
    have hpos : ((s₀.kvCacheStats[rank].toNat : ℕ) : ℤ) = s₀.kvCacheStats[rank] :=
      Int.toNat_of_nonneg (hstart.nonneg _ (List.getElem_mem hlt))
    have hget : s₀.kvCacheStats[rank]? = some ((s₀.kvCacheStats[rank].toNat : ℕ) : ℤ) := by
      rw [hpos, List.getElem?_eq_getElem hlt]
    obtain ⟨K, hK⟩ := hacc.reserves rank _ hget
    exact ⟨_, K, hget, hK⟩
  · obtain ⟨ranks, s', hok, hplaced, -⟩ := hacc.schedule hb hf
    exact ⟨ranks, s', hok, hplaced⟩
  · obtain ⟨s', hok, -⟩ := hacc.delSeq hr
    exact ⟨s', hok⟩

/-- Two ranks of 3 and 5 blocks. -/
def twoFree : DPScheduler := { new 2 4 .max with kvCacheStats := [3, 5] }

theorem accounts_balance_twoFree :
    ∃ s, schedule [(7, 5, 4)] twoFree = .ok [1] s ∧
      (∀ rank < 2, ∃ (numBlocks : ℕ) (K : Finset ℤ),
        twoFree.kvCacheStats[rank]? = some (numBlocks : ℤ) ∧ Reserves rank numBlocks 4 s K) := by
  have hstart : Starts 2 4 .max twoFree :=
    ⟨⟨rfl, trivial, [(0, 3), (1, 5)], _, rfl, rfl⟩, by decide⟩
  have hf : Fresh twoFree [(7, 5, 4)] := by constructor <;> decide
  have hok : schedule [(7, 5, 4)] twoFree = .ok [1] { twoFree with
      kvCacheStats := [3, 2]
      seqRanks := AList.insert 7 1 ∅
      seqMaxLen := AList.insert 7 (5, 4) ∅ } := rfl
  have hrun : Reach (· = twoFree) Step twoFree := .start rfl
  exact ⟨_, hok, (accounts_balance (by decide) hstart (hrun.next (.schedule _ _ hf hok))).1⟩

end StreamInfer.Kv.DPScheduler
