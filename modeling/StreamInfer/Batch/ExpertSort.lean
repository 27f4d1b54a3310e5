import StreamInfer.Batch.Metadata

/-! The counting sort of `sort_by_expert` and `merge_by_expert` computes the
counting positions of the expert ids. The counts become starts of the experts'
segments by prefix sums, and the placing loop keeps each start ahead by the
tokens of its expert placed so far. The sort fails exactly on an id outside the
count array. -/

namespace StreamInfer.Batch.BatchMetadata

open General

theorem countExperts_ok (eids cnts : List ℕ) (h : ∀ e ∈ eids, e < cnts.length) :
    ∃ cnts', countExperts cnts eids = .ok cnts' ∧ cnts'.length = cnts.length ∧
      ∀ k, cnts'.getD k 0 = cnts.getD k 0 + eids.countP (· == k) := by
  induction eids generalizing cnts with
  | nil => exact ⟨cnts, rfl, rfl, by simp⟩
  | cons e eids ih =>
    have he : e < cnts.length := h e (by simp)
    obtain ⟨cnts', hc, hl, hk⟩ := ih (cnts.set e (cnts.getD e 0 + 1))
      (by simpa using fun x hx => h x (by simp [hx]))
    refine ⟨cnts', by rw [countExperts, if_pos he, hc], by simpa using hl, ?_⟩
    intro k
    rw [hk k, List.countP_cons]
    by_cases hek : e = k
    · subst hek
      simp [List.getD_eq_getElem?_getD, he]
      omega
    · simp [List.getD_eq_getElem?_getD, List.getElem?_set_ne hek, hek]

theorem lt_of_countExperts {eids cnts cnts' : List ℕ} (h : countExperts cnts eids = .ok cnts') :
    ∀ e ∈ eids, e < cnts.length := by
  induction eids generalizing cnts with
  | nil => simp
  | cons e eids ih =>
    simp only [countExperts] at h
    split_ifs at h with he
    have htail := ih h
    simp only [List.length_set] at htail
    intro x hx
    rcases List.mem_cons.mp hx with rfl | hx
    · exact he
    · exact htail x hx

@[simp] theorem length_prefixSums (before : ℕ) (cnts : List ℕ) :
    (prefixSums before cnts).length = cnts.length := by
  induction cnts generalizing before with
  | nil => rfl
  | cons c cnts ih => simp [prefixSums, ih]

theorem getD_prefixSums (before : ℕ) (cnts : List ℕ) {k : ℕ} (hk : k < cnts.length) :
    (prefixSums before cnts).getD k 0 = before + (cnts.take (k + 1)).sum := by
  induction cnts generalizing before k with
  | nil => simp at hk
  | cons c cnts ih =>
    cases k with
    | zero => simp [prefixSums]
    | succ k =>
      simp only [prefixSums, List.getD_cons_succ, List.take_succ_cons, List.sum_cons]
      rw [ih _ (by simpa using hk)]
      omega

/-- Counts by expert add up to the tokens of all smaller experts. -/
theorem sum_take_counts (eids cnts : List ℕ) (h : ∀ k, cnts.getD k 0 = eids.countP (· == k))
    {k : ℕ} (hk : k ≤ cnts.length) : (cnts.take k).sum = eids.countP (· < k) := by
  induction k with
  | zero => simp
  | succ k ih =>
    have hlt : k < cnts.length := by omega
    have hget : cnts[k] = eids.countP (· == k) := by
      rw [← h k]; simp [hlt]
    rw [List.take_succ_eq_append_getElem hlt, List.sum_append, ih (by omega), List.sum_singleton,
      hget]
    clear h hget ih hk
    induction eids with
    | nil => simp
    | cons e eids ih =>
      simp only [List.countP_cons]
      have hsplit : (if decide (e < k + 1) = true then 1 else 0) =
          (if decide (e < k) = true then 1 else 0) + if (e == k) = true then 1 else 0 := by
        simp only [decide_eq_true_eq, beq_iff_eq]
        split_ifs <;> omega
      omega

/-- The placing loop: with each expert's entry at its segment start plus its
placed tokens, the rest of the ids get the counting positions. -/
theorem expertPositions_ok (start : ℕ → ℕ) (placed eids cnts : List ℕ) (first : ℕ)
    (hfirst : first = start 0 + placed.countP (· == 0))
    (hcnts : ∀ e < cnts.length, cnts.getD e 0 = start (e + 1) + placed.countP (· == e + 1))
    (hlt : ∀ e ∈ eids, e < cnts.length + 1) :
    expertPositions first cnts eids = .ok ((List.range eids.length).map fun i =>
      start (eids.getD i 0) + placed.countP (· == eids.getD i 0) +
        (eids.take i).countP (· == eids.getD i 0)) := by
  induction eids generalizing placed cnts first with
  | nil => rfl
  | cons e eids ih =>
    have htail : ∀ x ∈ eids, x < cnts.length + 1 := fun x hx => hlt x (by simp [hx])
    -- the tail is placed after `e`, so its positions count `e` among the placed ids
    have hshift : ∀ i, start (eids.getD i 0) + (placed ++ [e]).countP (· == eids.getD i 0) +
        (eids.take i).countP (· == eids.getD i 0) =
        start ((e :: eids).getD (i + 1) 0) + placed.countP (· == (e :: eids).getD (i + 1) 0) +
        ((e :: eids).take (i + 1)).countP (· == (e :: eids).getD (i + 1) 0) := by
      intro i
      simp only [List.getD_cons_succ, List.take_succ_cons, List.countP_append, List.countP_cons,
        List.countP_nil]
      omega
    have hmap : (List.range (e :: eids).length).map (fun i =>
          start ((e :: eids).getD i 0) + placed.countP (· == (e :: eids).getD i 0) +
            ((e :: eids).take i).countP (· == (e :: eids).getD i 0)) =
        (start e + placed.countP (· == e)) :: (List.range eids.length).map fun i =>
          start (eids.getD i 0) + (placed ++ [e]).countP (· == eids.getD i 0) +
            (eids.take i).countP (· == eids.getD i 0) := by
      rw [List.length_cons, List.range_succ_eq_map, List.map_cons, List.map_map]
      congr 1
      apply List.map_congr_left
      intro i _
      exact (hshift i).symm
    cases e with
    | zero =>
      have hrec := ih (placed ++ [0]) cnts (first + 1)
        (by simp [List.countP_append]; omega)
        (by simpa using hcnts) htail
      rw [hmap, expertPositions, hrec, hfirst]
      rfl
    | succ e =>
      have he : e < cnts.length := by simpa using hlt (e + 1) (by simp)
      have hrec := ih (placed ++ [e + 1]) (cnts.set e (cnts.getD e 0 + 1)) first
        (by simpa using hfirst) (by
          intro k hk
          rw [List.length_set] at hk
          rw [List.countP_append, List.countP_singleton]
          by_cases hke : e = k
          · subst hke
            have := hcnts e hk
            simp [List.getD_eq_getElem?_getD, hk] at this ⊢
            omega
          · have := hcnts k hk
            simp [List.getD_eq_getElem?_getD, List.getElem?_set_ne hke, hke] at this ⊢
            omega) (by simpa using htail)
      rw [hmap, expertPositions, if_pos he, hrec, hcnts e he]
      rfl

/-- In-range expert ids get their counting positions. -/
theorem expertDestinations_ok (eids : List ℕ) (h : ∀ e ∈ eids, e < maxNumExperts) :
    expertDestinations eids eids.length = .ok (countingPositions eids) := by
  obtain ⟨cnts, hc, hl, hk⟩ := countExperts_ok eids (List.replicate maxNumExperts 0)
    (by simpa using h)
  have hl' : cnts.length = maxNumExperts := by simpa using hl
  have hk' : ∀ k, cnts.getD k 0 = eids.countP (· == k) := by
    intro k
    rw [hk k]
    by_cases hb : k < maxNumExperts <;> simp [List.getD_eq_getElem?_getD, hb]
  have hstart : ∀ e < (prefixSums 0 cnts).length, (prefixSums 0 cnts).getD e 0 =
      eids.countP (· < e + 1) + ([] : List ℕ).countP (· == e + 1) := by
    intro e he
    rw [length_prefixSums] at he
    rw [getD_prefixSums 0 cnts he, sum_take_counts eids cnts hk' (by omega)]
    simp
  have hpos := expertPositions_ok (fun k => eids.countP (· < k)) [] eids (prefixSums 0 cnts) 0
    (by simp) hstart (by intro e he; have := h e he; rw [length_prefixSums]; omega)
  simp only [expertDestinations, hc, bind, Except.bind, le_refl, ↓reduceIte, List.take_length, hpos]
  simp [countingPositions]

/-- The sort reads every id as an index of the count array. -/
theorem lt_of_expertDestinations {eids pos : List ℕ} {n : ℕ}
    (h : expertDestinations eids n = .ok pos) : ∀ e ∈ eids, e < maxNumExperts := by
  cases hc : countExperts (List.replicate maxNumExperts 0) eids with
  | error e => simp [expertDestinations, hc, bind, Except.bind] at h
  | ok cnts => simpa using lt_of_countExperts hc

theorem lt_of_sortByExpert {W : Type} [Zero W] {m : BatchMetadata W}
    {r : BatchMetadata W × List ℕ} (h : m.sortByExpert = .ok r) :
    ∀ e ∈ m.expIds, e < maxNumExperts := by
  cases hd : expertDestinations m.expIds m.numTokens with
  | error e => simp [sortByExpert, hd, bind, Except.bind] at h
  | ok pos => exact lt_of_expertDestinations hd

end StreamInfer.Batch.BatchMetadata
