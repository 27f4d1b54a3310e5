import StreamInfer.Kv.DPScheduler

/-! Every capacity-aware policy finds a rank with room if there is one: the scan
for the most blocks, the round of all ranks from the current one, and the scan
for the best score among the ranks with room. Weights are positive. -/

namespace StreamInfer.Kv.DPScheduler

open General.Stateful

/-- The scheduler's lists have an entry for every rank, and its records agree. -/
structure Ready (s : DPScheduler) : Prop where
  capacityAware : s.policy.capacityAware = true
  stats : s.kvCacheStats.length = s.dpSize
  curRank : s.dpSize ≠ 0 → s.curRank < s.dpSize
  weights : ∀ ws, s.policy = .weighted ws → ws.length = s.dpSize ∧ ∀ w ∈ ws, 0 < w
  known : ∀ r rank, s.seqRanks.lookup r = some rank →
    rank < s.dpSize ∧ (s.seqMaxLen.lookup r).isSome = true

/-- No rank has the required blocks. -/
def NoRoom (s : DPScheduler) (required : ℕ) : Prop :=
  ∀ (i : ℕ) (stat : ℤ), s.kvCacheStats[i]? = some stat → stat < required

/-- What a scan keeps, and what it says of every entry it has seen. -/
theorem foldl_covers {β γ : Type} {I : β → Prop} {P : β → γ → Prop} {pick : β → γ → β}
    {l : List γ} {start : β} (h₀ : I start) (hI : ∀ b, ∀ x ∈ l, I b → I (pick b x))
    (hself : ∀ b, ∀ x ∈ l, I b → P (pick b x) x)
    (hkeep : ∀ b, ∀ x ∈ l, ∀ y, I b → P b y → P (pick b x) y) :
    I (l.foldl pick start) ∧ ∀ x ∈ l, P (l.foldl pick start) x := by
  induction l using List.reverseRecOn with
  | nil => exact ⟨h₀, by simp⟩
  | append_singleton l x ih =>
    have hx : x ∈ l ++ [x] := by simp
    obtain ⟨hrun, hseen⟩ := ih (fun b y hy => hI b y (List.mem_append_left _ hy))
      (fun b y hy => hself b y (List.mem_append_left _ hy))
      fun b y hy => hkeep b y (List.mem_append_left _ hy)
    rw [List.foldl_append, List.foldl_cons, List.foldl_nil]
    refine ⟨hI _ x hx hrun, fun y hy => ?_⟩
    rcases List.mem_append.mp hy with hy | hy
    · exact hkeep _ x hx y hrun (hseen y hy)
    · rw [List.mem_singleton.mp hy]
      exact hself _ x hx hrun

variable {s s' : DPScheduler}

/-- The scan for the most blocks ends at least as high as every rank. -/
theorem le_maxRank {stats : List ℤ} {i : ℕ} {n : ℤ} (h : stats[i]? = some n) :
    n ≤ (maxRank stats).1 := by
  refine (foldl_covers (I := fun _ => True) (P := fun (b : ℤ × ℤ) (p : ℤ × ℕ) => p.1 ≤ b.1) trivial
    (fun _ _ _ _ => trivial) (fun b p _ _ => ?_) (fun b p _ q _ hq => ?_)).2 (n, i)
    (List.mem_zipIdx_iff_getElem?.mpr h)
  · split_ifs <;> omega
  · split_ifs <;> omega

/-- A rank with room and a positive weight has a score above the start of the scan. -/
theorem weightedRank_nonneg {required : ℕ} {weights : List ℚ} {stats : List ℤ}
    (hl : weights.length = stats.length) (hw : ∀ w ∈ weights, 0 < w) {i : ℕ} {n : ℤ}
    (h : stats[i]? = some n) (hroom : (required : ℤ) ≤ n) :
    0 ≤ (weightedRank required weights stats).2 := by
  refine (foldl_covers (I := fun b : ℚ × ℤ => b = (-1, -1) ∨ 0 ≤ b.2)
    (P := fun (b : ℚ × ℤ) (p : ℤ × ℕ) => (required : ℤ) ≤ p.1 → 0 ≤ b.2) (.inl rfl)
    (fun b p _ hb => ?_) (fun b p hp hb hroom => ?_) (fun b p _ q _ hq hroom => ?_)).2 (n, i)
    (List.mem_zipIdx_iff_getElem?.mpr h) hroom
  · split_ifs
    · exact hb
    · exact .inr (Int.natCast_nonneg _)
    · exact hb
  · rw [if_neg (not_lt.mpr hroom)]
    split_ifs with hlow
    · exact Int.natCast_nonneg _
    · refine hb.resolve_left fun hstart => hlow ?_
      have hget := List.mem_zipIdx_iff_getElem?.mp hp
      have hi : p.2 < weights.length := hl ▸ (List.getElem?_eq_some_iff.mp hget).1
      have hweight : 0 < weights.getD p.2 0 := by
        rw [List.getD_eq_getElem?_getD, List.getElem?_eq_getElem hi]
        exact hw _ (List.getElem_mem hi)
      have hblocks : (0 : ℚ) ≤ p.1 := by
        have : (0 : ℤ) ≤ p.1 := le_trans (Int.natCast_nonneg _) hroom
        exact_mod_cast this
      have hscore : (0 : ℚ) ≤ p.1 * weights.getD p.2 0 := mul_nonneg hblocks hweight.le
      rw [hstart]
      exact lt_of_lt_of_le (by norm_num) hscore
  · split_ifs
    · exact hq hroom
    · exact Int.natCast_nonneg _
    · exact hq hroom

theorem nextRank_eq (h : s.dpSize ≠ 0) :
    nextRank s = .ok s.curRank { s with curRank := (s.curRank + 1) % s.dpSize } := by
  rw [nextRank, get_bind]
  simp only [h, ↓reduceIte]
  rfl

/-- A round of `n` ranks returns one with room, or none of them has it. -/
theorem capRRSchedule_total (hstats : s.kvCacheStats.length = s.dpSize)
    (hcur : s.dpSize ≠ 0 → s.curRank < s.dpSize) (required n : ℕ) (hn : s.dpSize = 0 → n = 0) :
    ∃ rank c, capRRSchedule required n s = .ok rank { s with curRank := c } ∧
      (s.dpSize ≠ 0 → c < s.dpSize) ∧
      (0 ≤ rank ∨ rank = -1 ∧ ∀ j < n, ∀ stat : ℤ,
        s.kvCacheStats[(s.curRank + j) % s.dpSize]? = some stat → stat < required) := by
  induction n generalizing s with
  | zero => exact ⟨-1, s.curRank, rfl, hcur, .inr ⟨rfl, by simp⟩⟩
  | succ n ih =>
    have hpos : s.dpSize ≠ 0 := fun h0 => Nat.succ_ne_zero n (hn h0)
    have hlt := hcur hpos
    have hlen : s.curRank < s.kvCacheStats.length := by omega
    have hnext := nextRank_eq hpos
    have hc : (s.curRank + 1) % s.dpSize < s.dpSize := Nat.mod_lt _ (by omega)
    have hread : s.kvCacheStats[s.curRank]? = some s.kvCacheStats[s.curRank] :=
      List.getElem?_eq_getElem hlen
    have hrun : capRRSchedule required (n + 1) s =
        if (required : ℤ) ≤ s.kvCacheStats[s.curRank] then
          .ok (s.curRank : ℤ) { s with curRank := (s.curRank + 1) % s.dpSize }
        else capRRSchedule required n { s with curRank := (s.curRank + 1) % s.dpSize } := by
      rw [capRRSchedule, bind_of_ok hnext, get_bind, readAt_eq hlen, pure_bind]
      split_ifs <;> rfl
    rw [hrun]
    by_cases hroom : (required : ℤ) ≤ s.kvCacheStats[s.curRank]
    · exact ⟨_, _, if_pos hroom, fun _ => hc, .inl (Int.natCast_nonneg _)⟩
    · obtain ⟨rank, c, hok, hc', hrest⟩ := ih (s := { s with curRank := (s.curRank + 1) % s.dpSize })
        hstats (fun _ => hc) (fun h0 => absurd h0 hpos)
      refine ⟨rank, c, by rw [if_neg hroom]; exact hok, hc', hrest.imp_right fun hrest => ?_⟩
      obtain ⟨hr, hall⟩ := hrest
      refine ⟨hr, fun j hj stat hstat => ?_⟩
      cases j with
      | zero =>
        rw [Nat.add_zero, Nat.mod_eq_of_lt hlt, hread, Option.some_inj] at hstat
        omega
      | succ j =>
        refine hall j (by omega) stat ?_
        rw [← hstat]
        dsimp only
        rw [Nat.mod_add_mod, Nat.add_assoc, Nat.add_comm 1 j]

/-- A policy returns a rank with room if there is one, except that `max` returns
none for a request of no blocks when no rank has a block. -/
theorem policySchedule_total (h : Ready s) (P O : ℕ) :
    ∃ rank c, policySchedule P O s = .ok rank { s with curRank := c } ∧
      (s.dpSize ≠ 0 → c < s.dpSize) ∧
      (HasRoom s (s.requiredBlocks P O) rank ∨
        rank = -1 ∧ (0 < s.requiredBlocks P O → NoRoom s (s.requiredBlocks P O))) := by
  have hsound : ∀ {rank c}, policySchedule P O s = .ok rank { s with curRank := c } →
      (rank = -1 → 0 < s.requiredBlocks P O → NoRoom s (s.requiredBlocks P O)) →
      (HasRoom s (s.requiredBlocks P O) rank ∨
        rank = -1 ∧ (0 < s.requiredBlocks P O → NoRoom s (s.requiredBlocks P O))) := by
    intro rank c hok hnone
    rcases (policySchedule_ok h.capacityAware hok).2 with hneg | hroom
    · exact .inr ⟨hneg, hnone hneg⟩
    · exact .inl hroom
  obtain ⟨policy, hp⟩ : ∃ policy, s.policy = policy := ⟨_, rfl⟩
  cases policy with
  | rr => exact absurd h.capacityAware (by simp [hp, Policy.capacityAware])
  | max =>
    have hok : policySchedule P O s = .ok
        (if (maxRank s.kvCacheStats).1 < s.requiredBlocks P O then -1 else (maxRank s.kvCacheStats).2)
        { s with curRank := s.curRank } := by
      rw [policySchedule, get_bind, hp]
      rfl
    have hbest : 0 < (maxRank s.kvCacheStats).1 → 0 ≤ (maxRank s.kvCacheStats).2 := by
      refine foldl_zipIdx_keeps (I := fun b : ℤ × ℤ => 0 < b.1 → 0 ≤ b.2) (by simp)
        fun best n i _ hbest => ?_
      dsimp only
      split_ifs
      · exact fun _ => Int.natCast_nonneg _
      · exact hbest
    refine ⟨_, s.curRank, hok, h.curRank, hsound hok fun hrank hpos => ?_⟩
    split_ifs at hrank with hlt
    · exact fun i stat hstat => lt_of_le_of_lt (le_maxRank hstat) hlt
    · have := hbest (by omega)
      omega
  | capRR =>
    have hok : policySchedule P O s = capRRSchedule (s.requiredBlocks P O) s.dpSize s := by
      rw [policySchedule, get_bind, hp]
    obtain ⟨rank, c, hrun, hc, hrest⟩ :=
      capRRSchedule_total h.stats h.curRank (s.requiredBlocks P O) s.dpSize id
    refine ⟨rank, c, hok.trans hrun, hc, hsound (hok.trans hrun) fun hrank _ i stat hstat => ?_⟩
    have hall := (hrest.resolve_left (by omega)).2
    have hi : i < s.dpSize := h.stats ▸ (List.getElem?_eq_some_iff.mp hstat).1
    have hlt := h.curRank (by omega)
    -- the round starts at `curRank` and comes back to `i`
    refine hall ((i + s.dpSize - s.curRank) % s.dpSize) (Nat.mod_lt _ (by omega)) stat ?_
    rw [Nat.add_mod_mod, show s.curRank + (i + s.dpSize - s.curRank) = i + s.dpSize by omega,
      Nat.add_mod_right, Nat.mod_eq_of_lt hi, hstat]
  | weighted weights =>
    have hok : policySchedule P O s = .ok
        (weightedRank (s.requiredBlocks P O) weights s.kvCacheStats).2
        { s with curRank := s.curRank } := by
      rw [policySchedule, get_bind, hp]
      rfl
    obtain ⟨hl, hw⟩ := h.weights weights hp
    refine ⟨_, s.curRank, hok, h.curRank, hsound hok fun hrank _ i stat hstat => ?_⟩
    by_contra hroom
    have := weightedRank_nonneg (hl.trans h.stats.symm) hw hstat (not_lt.mp hroom)
    omega

/-! ### The records stay in order -/

theorem Ready.turn (h : Ready s) {c : ℕ} (hc : s.dpSize ≠ 0 → c < s.dpSize) :
    Ready { s with curRank := c } :=
  ⟨h.capacityAware, h.stats, hc, h.weights, h.known⟩

theorem Ready.place (h : Ready s) {r : ℤ} {P O k c : ℕ} {stat : ℤ} (hk : k < s.kvCacheStats.length)
    (hc : s.dpSize ≠ 0 → c < s.dpSize) :
    Ready { s with
      kvCacheStats := s.kvCacheStats.set k stat
      seqRanks := s.seqRanks.insert r k
      seqMaxLen := s.seqMaxLen.insert r (P, O)
      curRank := c } := by
  refine ⟨h.capacityAware, by simpa using h.stats, hc, h.weights, fun q rank hq => ?_⟩
  dsimp only at hq ⊢
  by_cases hqr : q = r
  · subst hqr
    rw [AList.lookup_insert, Option.some_inj] at hq
    exact ⟨by rw [← hq, ← h.stats]; exact hk, by rw [AList.lookup_insert]; rfl⟩
  · rw [AList.lookup_insert_ne hqr] at hq ⊢
    exact h.known q rank hq

/-- A live request can be deleted. -/
theorem Ready.delSeq (h : Ready s) {r : ℤ} (hr : r ∈ s.seqRanks) :
    ∃ s', DPScheduler.delSeq r s = .ok ⟨⟩ s' := by
  obtain ⟨rank, hrank⟩ := Option.isSome_iff_exists.mp (AList.lookup_isSome.mpr hr)
  obtain ⟨hlt, hknown⟩ := h.known r rank hrank
  obtain ⟨⟨P, O⟩, hlens⟩ := Option.isSome_iff_exists.mp hknown
  have hstat := List.getElem?_eq_getElem (h.stats ▸ hlt : rank < s.kvCacheStats.length)
  exact ⟨_, delSeq_ok_iff.mpr ⟨rank, P, O, _, hrank, hlens, hstat, rfl⟩⟩

/-- An unknown id raises before anything is changed. -/
theorem delSeq_unknown {r : ℤ} (hr : r ∉ s.seqRanks) :
    DPScheduler.delSeq r s = .error (.outOfRange "seq_ranks[seq_id]") s := by
  have hnone : s.seqRanks.lookup r = none := by
    rw [← Option.not_isSome_iff_eq_none, AList.lookup_isSome]
    exact hr
  rw [DPScheduler.delSeq, get_bind, hnone]
  rfl

theorem Ready.delete (h : Ready s) {r : ℤ} {u : Unit} (hok : DPScheduler.delSeq r s = .ok u s') :
    Ready s' := by
  obtain ⟨rank, P, O, stat, -, -, -, rfl⟩ := delSeq_ok_iff.mp hok
  refine ⟨h.capacityAware, by simpa using h.stats, h.curRank, h.weights, fun q k hk => ?_⟩
  dsimp only at hk ⊢
  by_cases hq : q = r
  · subst hq
    simp at hk
  · rw [AList.lookup_erase_ne hq] at hk ⊢
    exact h.known q k hk

end StreamInfer.Kv.DPScheduler
