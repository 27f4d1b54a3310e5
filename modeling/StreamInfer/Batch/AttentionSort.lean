import StreamInfer.Batch.Rows

/-! The order of tokens bound for attention: by rank, then first tokens of a
request before later ones, then first tokens by request. It compares keys, as
long as no prefill length is below `-1`; sorted tokens of one rank therefore
have their first tokens in front. -/

namespace StreamInfer.Batch

open General BatchMetadata

variable {W R : Type}

/-- A prefill length: positive for a first token, `-1` for a later one. -/
def PrefillLen (l : ℤ) : Prop := l = -1 ∨ 1 ≤ l

/-- Prefill length and request of two tokens of one rank. -/
def firstBefore (a b : ℤ × ℤ) : Bool := if a.1 = -1 ∨ b.1 = -1 then a.1 > b.1 else a.2 < b.2

/-- First tokens by request, then the others. -/
def firstKey (a : ℤ × ℤ) : ℕ ×ₗ ℤ := if a.1 = -1 then toLex (1, 0) else toLex (0, a.2)

theorem PrefillLen.neg_one_le {l : ℤ} (h : PrefillLen l) : -1 ≤ l := by
  unfold PrefillLen at h
  omega

theorem firstBefore_iff {a b : ℤ × ℤ} (ha : -1 ≤ a.1) (hb : -1 ≤ b.1) :
    firstBefore a b = true ↔ firstKey a < firstKey b := by
  unfold firstBefore firstKey
  by_cases ha' : a.1 = -1 <;> by_cases hb' : b.1 = -1
  · simp [ha', hb']
  · simp only [ha', hb', or_false, ↓reduceIte, Prod.Lex.toLex_lt_toLex, decide_eq_true_eq]
    omega
  · simp only [ha', hb', or_true, ↓reduceIte, Prod.Lex.toLex_lt_toLex, decide_eq_true_eq]
    omega
  · simp [ha', hb', Prod.Lex.toLex_lt_toLex]

/-- The first tokens of a list in this order are in front. -/
theorem frontFirst_of_firstBefore {α : Type} (entry : α → ℤ × ℤ) {xs : List α}
    (hl : ∀ x ∈ xs, -1 ≤ (entry x).1)
    (h : xs.Pairwise fun a b => firstBefore (entry b) (entry a) = false) :
    FrontFirst (fun x => (entry x).1 ≠ -1) xs := by
  refine List.Pairwise.imp_of_mem (fun {a b} ha hb hab hfirst => ?_) h
  have hla := hl a ha
  have hlb := hl b hb
  unfold firstBefore at *
  simp only [decide_eq_true_eq] at hfirst ⊢
  intro hnot
  simp only [hnot, or_true, ↓reduceIte, decide_eq_false_iff_not] at hab
  omega

namespace TokenTopKInfo

/-- Packing puts first tokens in front. -/
theorem frontFirst_sort (S : ComparatorSort) {ts : List (TokenTopKInfo R)}
    (hl : ∀ t ∈ ts, -1 ≤ t.initPrefillLen) :
    FrontFirst (fun t : TokenTopKInfo R => t.initPrefillLen ≠ -1) (S.sort before ts) := by
  have hsorted := S.sorted before ts (.of_key (fun t => firstKey (t.initPrefillLen, t.seqId))
    fun a ha b hb => firstBefore_iff (a := (a.initPrefillLen, a.seqId))
      (b := (b.initPrefillLen, b.seqId)) (hl a ha) (hl b hb))
  exact frontFirst_of_firstBefore (fun t : TokenTopKInfo R => (t.initPrefillLen, t.seqId))
    (fun t ht => hl t ((S.mem_sort _ _).mp ht)) hsorted

end TokenTopKInfo

namespace TokenMetadata

/-- The comparator of `sort_by_attention` on tokens. -/
def before (a b : TokenMetadata W) : Bool :=
  if a.attnDpRank ≠ b.attnDpRank then a.attnDpRank < b.attnDpRank
  else firstBefore (a.initPrefillLen, a.reqId) (b.initPrefillLen, b.reqId)

def sortKey (t : TokenMetadata W) : ℕ ×ₗ (ℕ ×ₗ ℤ) :=
  toLex (t.attnDpRank, firstKey (t.initPrefillLen, t.reqId))

theorem before_iff {a b : TokenMetadata W} (ha : -1 ≤ a.initPrefillLen)
    (hb : -1 ≤ b.initPrefillLen) : before a b = true ↔ a.sortKey < b.sortKey := by
  rw [sortKey, sortKey, Prod.Lex.toLex_lt_toLex, before]
  by_cases hr : a.attnDpRank = b.attnDpRank
  · simp [hr, firstBefore_iff (a := (a.initPrefillLen, a.reqId)) (b := (b.initPrefillLen, b.reqId)) ha hb]
  · simp [hr]

/-- Sorted tokens of one rank have their first tokens in front. -/
theorem frontFirst_of_before {ts : List (TokenMetadata W)} (rank : ℕ)
    (hl : ∀ t ∈ ts, -1 ≤ t.initPrefillLen) (hr : ∀ t ∈ ts, t.attnDpRank = rank)
    (h : ts.Pairwise fun a b => before b a = false) : FrontFirst TokenMetadata.isFirst ts := by
  refine frontFirst_of_firstBefore (fun t : TokenMetadata W => (t.initPrefillLen, t.reqId))
    hl (h.imp_of_mem fun {a b} ha hb hab => ?_)
  rw [before, hr a ha, hr b hb, if_neg (by simp)] at hab
  exact hab

end TokenMetadata

namespace BatchMetadata

variable {v : View} {m : BatchMetadata W} {ts : List (TokenMetadata W)}

theorem Lists.attentionBefore_eq (h : Lists v m ts) (hv : v.ranked = true) {i j : ℕ}
    (hi : i < ts.length) (hj : j < ts.length) : m.attentionBefore i j = ts[i].before ts[j] := by
  simp [attentionBefore, TokenMetadata.before, firstBefore, h.attnDpRanks hv, h.reqIds,
    h.initPrefillLens, hi, hj]

/-- The comparator is a strict weak order on the tokens. -/
theorem Lists.strictWeakOrder [Zero W] (h : Lists v m ts) (hv : v.ranked = true)
    (hl : ∀ t ∈ ts, -1 ≤ t.initPrefillLen) :
    StrictWeakOrder m.attentionBefore (List.range m.reqIds.length) := by
  have hlt : ∀ i ∈ List.range m.reqIds.length, i < ts.length := by
    intro i hi
    rwa [List.mem_range, h.length_reqIds] at hi
  refine .of_key (fun i => (ts.getD i default).sortKey) fun i hi j hj => ?_
  have hi' := hlt i hi
  have hj' := hlt j hj
  rw [h.attentionBefore_eq hv hi' hj', TokenMetadata.before_iff (hl _ (List.getElem_mem hi'))
    (hl _ (List.getElem_mem hj'))]
  simp [hi', hj']

/-- `sort_by_attention` sorts the tokens. -/
theorem attentionRank_sorted [Zero W] (S : ComparatorSort) (h : Lists v m ts) (hv : v.ranked = true)
    (hl : ∀ t ∈ ts, -1 ≤ t.initPrefillLen) :
    (gather default ts (m.attentionRank S)).Pairwise fun a b =>
      TokenMetadata.before b a = false := by
  have hrank := attentionRank_positions S h
  have hsorted := S.sorted m.attentionBefore _ (h.strictWeakOrder hv hl)
  rw [gather, List.pairwise_map]
  refine hsorted.imp_of_mem fun {i j} hi hj hij => ?_
  have hi' : i < ts.length := hrank.lt hi
  have hj' : j < ts.length := hrank.lt hj
  rw [h.attentionBefore_eq hv hj' hi'] at hij
  simpa [hi', hj'] using hij

end BatchMetadata

end StreamInfer.Batch
