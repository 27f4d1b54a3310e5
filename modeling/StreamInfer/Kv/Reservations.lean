import StreamInfer.Kv.DPScheduler

/-! The account of one rank: its free blocks and the blocks reserved for the live
requests on it are the blocks it started with. Placing a request and deleting
one keep it. -/

namespace StreamInfer.Kv

namespace Admission

/-- The blocks reserved for a request. -/
def reserved (d : DPScheduler) (r : ℤ) : ℕ :=
  ((d.seqMaxLen.lookup r).map fun p => d.requiredBlocks p.1 p.2).getD 0

/-- The stats of the rank are its blocks without the reserved ones. -/
structure Reserves (rank numBlocks blockSize : ℕ) (d : DPScheduler) (K : Finset ℤ) : Prop where
  capacityAware : d.policy.capacityAware = true
  blockSize : d.blockSize = blockSize
  mem_iff : ∀ r, r ∈ K ↔ d.seqRanks.lookup r = some rank
  known : ∀ r k, d.seqRanks.lookup r = some k →
    k < d.kvCacheStats.length ∧ (d.seqMaxLen.lookup r).isSome = true
  stat : ∃ stat : ℤ, d.kvCacheStats[rank]? = some stat ∧ 0 ≤ stat ∧
    stat + (∑ r ∈ K, reserved d r : ℕ) = numBlocks

theorem requiredBlocks_eq (d : DPScheduler) (P O : ℕ) :
    d.requiredBlocks P O = P ⌈/⌉ d.blockSize + O ⌈/⌉ d.blockSize := by
  rw [Nat.ceilDiv_eq_add_pred_div, Nat.ceilDiv_eq_add_pred_div]
  rfl

theorem ceilDiv_add_le {b : ℕ} (hb : 0 < b) {P O v : ℕ} (hv : v ≤ O) :
    (P + v) ⌈/⌉ b ≤ P ⌈/⌉ b + O ⌈/⌉ b := by
  rw [ceilDiv_le_iff_le_mul hb, Nat.mul_add]
  have hP : P ≤ b * (P ⌈/⌉ b) := by rw [← ceilDiv_le_iff_le_mul hb]
  have hO : O ≤ b * (O ⌈/⌉ b) := by rw [← ceilDiv_le_iff_le_mul hb]
  omega

theorem requiredBlocks_pos (d : DPScheduler) (hb : 0 < d.blockSize) {P O : ℕ} (hP : 1 ≤ P) :
    0 < d.requiredBlocks P O := by
  rw [requiredBlocks_eq, Nat.ceilDiv_eq_add_pred_div]
  have : 0 < (P + d.blockSize - 1) / d.blockSize := Nat.div_pos (by omega) hb
  omega

variable {rank numBlocks blockSize : ℕ} {d d' : DPScheduler} {K : Finset ℤ}

theorem reserved_insert {r q : ℤ} (P O : ℕ) (hq : q ≠ r)
    (hd : d'.seqMaxLen = d.seqMaxLen.insert r (P, O)) (hb : d'.blockSize = d.blockSize) :
    reserved d' q = reserved d q := by
  unfold reserved DPScheduler.requiredBlocks
  rw [hd, hb, AList.lookup_insert_ne hq]

theorem Reserves.place (h : Reserves rank numBlocks blockSize d K) {r : ℤ} {P O k c : ℕ} {stat : ℤ}
    (hr : r ∉ d.seqRanks) (hstat : d.kvCacheStats[k]? = some stat)
    (hroom : (d.requiredBlocks P O : ℤ) ≤ stat)
    (hd : d' = { d with
      kvCacheStats := d.kvCacheStats.set k (stat - d.requiredBlocks P O)
      seqRanks := d.seqRanks.insert r k
      seqMaxLen := d.seqMaxLen.insert r (P, O)
      curRank := c }) :
    Reserves rank numBlocks blockSize d' (if k = rank then insert r K else K) := by
  obtain ⟨old, hold, hpos, hsum⟩ := h.stat
  have hrK : r ∉ K := by
    rw [h.mem_iff]
    intro hl
    exact hr (AList.lookup_isSome.mp (by rw [hl]; rfl))
  have hkept : ∑ q ∈ K, reserved d' q = ∑ q ∈ K, reserved d q := by
    refine Finset.sum_congr rfl fun q hq => ?_
    exact reserved_insert P O (ne_of_mem_of_not_mem hq hrK) (by rw [hd]) (by rw [hd])
  have hnew : reserved d' r = d.requiredBlocks P O := by
    rw [reserved, hd, AList.lookup_insert]
    rfl
  refine ⟨by rw [hd]; exact h.capacityAware, by rw [hd]; exact h.blockSize, fun q => ?_,
    fun q j hj => ?_, ?_⟩
  · rw [hd]
    by_cases hq : q = r
    · subst hq
      rw [AList.lookup_insert, Option.some_inj]
      split_ifs with hk <;> simp [hk, hrK]
    · rw [AList.lookup_insert_ne hq, ← h.mem_iff]
      split_ifs <;> simp [hq]
  · rw [hd] at hj ⊢
    rw [List.length_set]
    by_cases hq : q = r
    · subst hq
      rw [AList.lookup_insert, Option.some_inj] at hj
      exact ⟨hj ▸ (List.getElem?_eq_some_iff.mp hstat).1, by rw [AList.lookup_insert]; rfl⟩
    · rw [AList.lookup_insert_ne hq] at hj ⊢
      exact h.known q j hj
  · by_cases hk : k = rank
    · subst hk
      obtain rfl : stat = old := Option.some.inj (hstat.symm.trans hold)
      refine ⟨stat - d.requiredBlocks P O, ?_, by omega, ?_⟩
      · rw [hd, List.getElem?_set_self (List.getElem?_eq_some_iff.mp hstat).1]
      · rw [if_pos rfl, Finset.sum_insert hrK, hkept, hnew, Nat.cast_add]
        omega
    · refine ⟨old, by rw [hd, List.getElem?_set_ne hk, hold], hpos, ?_⟩
      rw [if_neg hk, hkept, hsum]

theorem Reserves.delete (h : Reserves rank numBlocks blockSize d K) {r : ℤ} {u : Unit}
    (hok : DPScheduler.delSeq r d = .ok u d') : Reserves rank numBlocks blockSize d' (K.erase r) := by
  obtain ⟨k, P, O, stat, hrank, hlens, hstat, hd⟩ := DPScheduler.delSeq_ok_iff.mp hok
  obtain ⟨old, hold, hpos, hsum⟩ := h.stat
  have hkept : ∑ q ∈ K.erase r, reserved d' q = ∑ q ∈ K.erase r, reserved d q := by
    refine Finset.sum_congr rfl fun q hq => ?_
    rw [reserved, reserved, hd, AList.lookup_erase_ne (Finset.ne_of_mem_erase hq)]
    rfl
  have hgone : reserved d r = d.requiredBlocks P O := by
    rw [reserved, hlens]
    rfl
  refine ⟨by rw [hd]; exact h.capacityAware, by rw [hd]; exact h.blockSize, fun q => ?_,
    fun q j hj => ?_, ?_⟩
  · rw [hd, Finset.mem_erase]
    by_cases hq : q = r
    · subst hq
      simp
    · rw [AList.lookup_erase_ne hq, ← h.mem_iff]
      simp [hq]
  · rw [hd] at hj ⊢
    rw [List.length_set]
    by_cases hq : q = r
    · subst hq
      simp at hj
    · rw [AList.lookup_erase_ne hq] at hj ⊢
      exact h.known q j hj
  · by_cases hk : k = rank
    · subst hk
      obtain rfl : stat = old := Option.some.inj (hstat.symm.trans hold)
      have hrK : r ∈ K := (h.mem_iff r).mpr hrank
      refine ⟨stat + d.requiredBlocks P O, ?_, by omega, ?_⟩
      · rw [hd, List.getElem?_set_self (List.getElem?_eq_some_iff.mp hstat).1]
      · have := Finset.add_sum_erase K (reserved d) hrK
        rw [hkept]
        omega
    · have hrK : r ∉ K := by
        rw [h.mem_iff, hrank, Option.some_inj]
        exact hk
      refine ⟨old, by rw [hd, List.getElem?_set_ne hk, hold], hpos, ?_⟩
      rw [hkept, Finset.erase_eq_of_notMem hrK, hsum]

end Admission

end StreamInfer.Kv
