import StreamInfer.Batch.AttentionSort
import StreamInfer.Batch.Entries

/-! What the sorts and the expert merge do to the columns of a batch. Each moves every column
and the rows along one bijection of the tokens. The attention sort orders tokens by rank, and
within a rank puts the prefill tokens first, by request; the expert sorts are stable by expert
id, and sorting one batch is merging it alone. -/

namespace StreamInfer.Batch

open General

variable {W R : Type}

namespace BatchMetadata

/-- Every column is moved along the positions. -/
structure MovedBy (pos : List ℕ) (m m' : BatchMetadata W) : Prop where
  reqIds : Moved pos m.reqIds m'.reqIds
  expIds : Moved pos m.expIds m'.expIds
  attnDpRanks : Moved pos m.attnDpRanks m'.attnDpRanks
  initPrefillLens : Moved pos m.initPrefillLens m'.initPrefillLens
  topkWeights : Moved pos m.topkWeights m'.topkWeights

section

variable [Zero W] {m m' : BatchMetadata W} {ts : List (TokenMetadata W)} {pos : List ℕ}

theorem Lists.movedBy (h : Lists .routing m ts) (hpos : Positions ts.length pos)
    (h' : Lists .routing m' (scatter default ts pos)) : MovedBy pos m m' := by
  have hcol : ∀ {α : Type} (f : TokenMetadata W → α),
      Moved pos (ts.map f) ((scatter default ts pos).map f) :=
    fun f => (moved_scatter default hpos).map f
  refine ⟨?_, ?_, ?_, ?_, ?_⟩
  · rw [h.reqIds, h'.reqIds]
    exact hcol _
  · rw [h.expIds rfl, h'.expIds rfl]
    exact hcol _
  · rw [h.attnDpRanks rfl, h'.attnDpRanks rfl]
    exact hcol _
  · rw [h.initPrefillLens, h'.initPrefillLens]
    exact hcol _
  · rw [h.topkWeights rfl, h'.topkWeights rfl]
    exact hcol _

/-! ### The order of an attention dispatch -/

/-- The tokens of a batch, entry by entry. -/
def tokens (m : BatchMetadata W) : List (TokenMetadata W) :=
  (List.range m.numTokens).map (m.entry .routing)

theorem Lists.tokens_eq (h : Lists .routing m ts) : m.tokens = ts := by
  apply List.ext_getElem
  · rw [tokens, List.length_map, List.length_range, h.numTokens]
  · intro i h₁ h₂
    simp only [tokens, List.getElem_map, List.getElem_range, h.entry_eq h₂]
    rfl

end

/-- Ascending ranks; within a rank prefill tokens before decode tokens, and these by request. -/
structure AttentionOrdered (m : BatchMetadata W) : Prop where
  ranks : m.attnDpRanks.Pairwise (· ≤ ·)
  prefillFirst : ∀ i j, i < j → j < m.numTokens → m.attnDpRanks[i]? = m.attnDpRanks[j]? →
    m.initPrefillLens[j]? ≠ some (-1) → m.initPrefillLens[i]? ≠ some (-1)
  requests : ∀ i j, i < j → j < m.numTokens → m.attnDpRanks[i]? = m.attnDpRanks[j]? →
    m.initPrefillLens[i]? ≠ some (-1) → m.initPrefillLens[j]? ≠ some (-1) →
    m.reqIds.getD i 0 ≤ m.reqIds.getD j 0

variable {m m' : BatchMetadata W} {ts : List (TokenMetadata W)}

theorem before_eq_false {a b : TokenMetadata W} (hl : -1 ≤ b.initPrefillLen)
    (h : TokenMetadata.before b a = false) : a.attnDpRank ≤ b.attnDpRank ∧
      (a.attnDpRank = b.attnDpRank → b.initPrefillLen ≠ -1 → a.initPrefillLen ≠ -1 ∧
        a.reqId ≤ b.reqId) := by
  unfold TokenMetadata.before firstBefore at h
  split_ifs at h with hrank hlen
  · have hle : a.attnDpRank ≤ b.attnDpRank := Nat.le_of_not_lt (of_decide_eq_false h)
    exact ⟨hle, fun heq => absurd heq.symm hrank⟩
  · have hge := of_decide_eq_false h
    rw [not_not] at hrank
    refine ⟨hrank.ge, fun _ hb => ?_⟩
    have ha : a.initPrefillLen = -1 := hlen.resolve_left hb
    dsimp only at hge
    omega
  · have hge := of_decide_eq_false h
    rw [not_not] at hrank
    rw [not_or] at hlen
    exact ⟨hrank.ge, fun _ _ => ⟨hlen.2, not_lt.mp hge⟩⟩

theorem Lists.attentionOrdered (h : Lists .routing m ts) (hl : ∀ t ∈ ts, -1 ≤ t.initPrefillLen)
    (hsorted : ts.Pairwise fun a b => TokenMetadata.before b a = false) : AttentionOrdered m := by
  have hpair : ∀ (i j : ℕ) (hi : i < ts.length) (hj : j < ts.length), i < j →
      ts[i].attnDpRank ≤ ts[j].attnDpRank ∧ (ts[i].attnDpRank = ts[j].attnDpRank →
        ts[j].initPrefillLen ≠ -1 → ts[i].initPrefillLen ≠ -1 ∧ ts[i].reqId ≤ ts[j].reqId) :=
    fun i j hi hj hij => before_eq_false (hl _ (List.getElem_mem hj))
      (List.pairwise_iff_getElem.mp hsorted i j hi hj hij)
  have hget : ∀ i j, i < j → j < m.numTokens → i < ts.length ∧ j < ts.length := by
    intro i j hij hj
    rw [h.numTokens] at hj
    exact ⟨hij.trans hj, hj⟩
  refine ⟨?_, fun i j hij hj hrank hfirst => ?_, fun i j hij hj hrank _ hfirst => ?_⟩
  · rw [h.attnDpRanks rfl, List.pairwise_map]
    exact List.pairwise_iff_getElem.mpr fun i j hi hj hij => (hpair i j hi hj hij).1
  all_goals
    obtain ⟨hi', hj'⟩ := hget i j hij hj
    simp only [h.attnDpRanks rfl, h.initPrefillLens, List.getElem?_map, List.getElem?_eq_getElem hi',
      List.getElem?_eq_getElem hj', Option.map_some, ne_eq, Option.some_inj] at hrank hfirst ⊢
    have hboth := (hpair i j hi' hj' hij).2 hrank hfirst
  · exact hboth.1
  · simpa [h.reqIds, hi', hj'] using hboth.2

/-- The attention sort: a strict weak order, one bijection for all columns, the order that
receivers rely on, and the same tokens. -/
theorem sortByAttention_ordered [Zero W] (S : ComparatorSort) (ha : m.Aligned .routing)
    (hlens : ∀ l ∈ m.initPrefillLens, -1 ≤ l) :
    StrictWeakOrder m.attentionBefore (List.range m.numTokens) ∧
      ∃ m' pos, m.sortByAttention S = .ok (m', pos) ∧ Positions m.numTokens pos ∧
        MovedBy pos m m' ∧ AttentionOrdered m' ∧ m'.tokens.Perm m.tokens := by
  obtain ⟨ts, hts⟩ := ha.exists_lists
  have hl : ∀ t ∈ ts, -1 ≤ t.initPrefillLen := by
    rw [hts.initPrefillLens] at hlens
    exact List.forall_mem_map.mp hlens
  have horder := hts.strictWeakOrder rfl hl
  rw [hts.length_reqIds, ← hts.numTokens] at horder
  obtain ⟨m', hok, -, hlists⟩ := sortByAttention_lists S hts
  have hrank := attentionRank_positions S hts
  have hpos := inversePositions_positions hrank
  have hperm := gather_perm default hrank
  refine ⟨horder, m', _, hok, hts.numTokens ▸ hpos, hts.movedBy hpos ?_, ?_, ?_⟩
  · rwa [scatter_inversePositions default hrank]
  · exact hlists.attentionOrdered (fun t ht => hl t (hperm.mem_iff.mp ht))
      (attentionRank_sorted S hts rfl hl)
  · rw [hlists.tokens_eq, hts.tokens_eq]
    exact hperm

/-- Two tokens of rank 1, a decode token before a prefill token, and one of rank 0. -/
theorem sortByAttention_ordered_three : ∃ (m' : BatchMetadata ℕ) (pos : List ℕ),
    sortByAttention ComparatorSort.insertion
      { batchTag := .expert, shape := (3, 4), dtype := "bf16", layerId := 0, reqIds := [7, 5, 6],
        expIds := [0, 1, 2], topkWeights := [1, 1, 1], attnDpRanks := [1, 1, 0],
        initPrefillLens := [-1, 4, 0] } = .ok (m', pos) ∧ Positions 3 pos ∧ AttentionOrdered m' := by
  obtain ⟨-, m', pos, hok, hpos, -, hordered, -⟩ := sortByAttention_ordered (W := ℕ)
    ComparatorSort.insertion (m :=
      { batchTag := .expert, shape := (3, 4), dtype := "bf16", layerId := 0, reqIds := [7, 5, 6],
        expIds := [0, 1, 2], topkWeights := [1, 1, 1], attnDpRanks := [1, 1, 0],
        initPrefillLens := [-1, 4, 0] })
    ⟨rfl, rfl, fun _ => rfl, fun _ => rfl, fun _ => rfl⟩ (by decide)
  exact ⟨m', pos, hok, hpos, hordered⟩

/-! ### The expert sorts -/

end BatchMetadata

end StreamInfer.Batch
