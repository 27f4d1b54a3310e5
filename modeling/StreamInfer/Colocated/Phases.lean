import StreamInfer.Colocated.Census

/-! The way of a request. It waits for one attention layer or for the experts of one layer, and
each phase says which tokens the request has. When a step takes all tokens of some requests in
one phase and puts those of the next, the tokens of every request are those of its new phase. -/

namespace StreamInfer.Colocated

open General

inductive Phase
  | unknown
  | attention (layer : ℕ)
  | experts (layer : ℕ)
  | finished

namespace Phase

/-- From layer to layer; after the last attention layer again from the first, or done. -/
inductive Next (numLayers : ℕ) : Phase → Phase → Prop
  | arrive : Next numLayers .unknown (.attention 0)
  | route {layer : ℕ} (hl : layer < numLayers) : Next numLayers (.attention layer) (.experts layer)
  | gather {layer : ℕ} (hl : layer < numLayers) : Next numLayers (.experts layer) (.attention (layer + 1))
  | again : Next numLayers (.attention numLayers) (.attention 0)
  | finish : Next numLayers (.attention numLayers) .finished

/-- Each request stays or goes on. -/
def Advance (numLayers : ℕ) (phase phase' : ℤ → Phase) : Prop :=
  ∀ r, phase' r = phase r ∨ Next numLayers (phase r) (phase' r)

/-- The tokens of a request, without their places. -/
def labels (topK : ℕ) (r : ℤ) : Phase → Multiset (ℤ × Stage)
  | .unknown | .finished => 0
  | .attention layer => {(r, .attention layer)}
  | .experts layer => topK • {(r, .experts layer)}

/-- A request with tokens. -/
def Live : Phase → Prop
  | .unknown | .finished => False
  | .attention _ | .experts _ => True

/-- The layers that there are. -/
def InRange (numLayers : ℕ) : Phase → Prop
  | .unknown | .finished => True
  | .attention layer => layer ≤ numLayers
  | .experts layer => layer < numLayers

variable {topK numLayers : ℕ} {P P' : Phase} {r : ℤ}

theorem labels_keyed (topK : ℕ) (r : ℤ) (P : Phase) : Keyed Prod.fst r (P.labels topK r) := by
  intro a ha
  cases P with
  | unknown => simp [labels] at ha
  | finished => simp [labels] at ha
  | attention layer =>
    rw [Multiset.mem_singleton.mp ha]
  | experts layer =>
    rw [Multiset.mem_singleton.mp (Multiset.mem_of_mem_nsmul ha)]

theorem labels_ne_zero (hk : 1 ≤ topK) (h : P.Live) : P.labels topK r ≠ 0 := by
  cases P with
  | unknown => exact h.elim
  | finished => exact h.elim
  | attention layer => exact Multiset.singleton_ne_zero _
  | experts layer =>
    rw [labels, Multiset.nsmul_singleton, ← Multiset.card_pos, Multiset.card_replicate]
    exact hk

/-- A token tells the phase. -/
theorem eq_of_mem_labels {a : ℤ × Stage} (h : a ∈ P.labels topK r) (h' : a ∈ P'.labels topK r) :
    P' = P := by
  have hstage : ∀ {P : Phase}, a ∈ P.labels topK r →
      (∃ l, P = .attention l ∧ a.2 = .attention l) ∨ ∃ l, P = .experts l ∧ a.2 = .experts l := by
    intro P ha
    cases P with
    | unknown => simp [labels] at ha
    | finished => simp [labels] at ha
    | attention layer => exact .inl ⟨layer, rfl, by rw [Multiset.mem_singleton.mp ha]⟩
    | experts layer =>
      exact .inr ⟨layer, rfl, by rw [Multiset.mem_singleton.mp (Multiset.mem_of_mem_nsmul ha)]⟩
  rcases hstage h with ⟨l, rfl, hl⟩ | ⟨l, rfl, hl⟩ <;>
    rcases hstage h' with ⟨l', rfl, hl'⟩ | ⟨l', rfl, hl'⟩ <;> simp_all

/-- From the layer before. -/
theorem Next.gather_of_pos {layer : ℕ} (hpos : 1 ≤ layer) (hl : layer ≤ numLayers) :
    Next numLayers (.experts (layer - 1)) (.attention layer) := by
  have hgather : Next numLayers (.experts (layer - 1)) (.attention (layer - 1 + 1)) := .gather (by omega)
  rwa [Nat.sub_add_cancel hpos] at hgather

theorem Next.inRange (h : Next numLayers P P') : P'.InRange numLayers := by
  cases h with
  | arrive | again => exact Nat.zero_le _
  | route hl | gather hl => exact hl
  | finish => trivial

/-! ### Portions -/

variable {phase : ℤ → Phase} {m m' : Multiset (ℤ × Stage)} {ks : List ℤ}

/-- Taking tokens of live requests takes all of them. -/
theorem takesAll (hk : 1 ≤ topK) (hm : ∀ r, portion Prod.fst r m = (phase r).labels topK r)
    (hlive : P.Live) (hle : (ks.map fun k => P.labels topK k).sum ≤ m) :
    TakesAll Prod.fst ks (P.labels topK) m ∧ ∀ k ∈ ks, phase k = P := by
  have hphase : ∀ k ∈ ks, phase k = P := by
    intro k hks
    obtain ⟨a, ha⟩ := Multiset.exists_mem_of_ne_zero (labels_ne_zero (r := k) hk hlive)
    have hsum : P.labels topK k ≤ (ks.map fun k => P.labels topK k).sum :=
      List.single_le_sum (fun _ _ => Multiset.zero_le _) _ (List.mem_map_of_mem hks)
    have hmem : a ∈ portion Prod.fst k m :=
      Multiset.mem_filter.mpr ⟨Multiset.mem_of_le (hsum.trans hle) ha, labels_keyed _ _ _ a ha⟩
    rw [hm] at hmem
    exact eq_of_mem_labels ha hmem
  refine ⟨⟨fun k _ => labels_keyed _ _ _, fun k _ => labels_ne_zero hk hlive, fun k hks => ?_⟩, hphase⟩
  rw [hm, hphase k hks]

/-- The next phases. -/
theorem portions_advance (hk : 1 ≤ topK) (hm : ∀ r, portion Prod.fst r m = (phase r).labels topK r)
    (hlive : P.Live) {Q : ℤ → Phase}
    (hx : Exchange (ks.map fun k => P.labels topK k).sum (ks.map fun k => (Q k).labels topK k).sum m m') :
    (∀ k ∈ ks, phase k = P) ∧
      ∀ r, portion Prod.fst r m' = ((if r ∈ ks then Q r else phase r) : Phase).labels topK r := by
  obtain ⟨htakes, hphase⟩ := takesAll hk hm hlive hx.taken_le
  obtain ⟨-, hportion⟩ := htakes.portion_eq (G := fun k => (Q k).labels topK k)
    (fun k _ => labels_keyed _ _ _) hx
  refine ⟨hphase, fun r => ?_⟩
  rw [hportion]
  split_ifs
  · rfl
  · exact hm r

/-- Requests that end have no tokens, so the tokens are those of the others. -/
theorem labels_sampled {continued finishReqIds : List ℤ} (hperm : (continued ++ finishReqIds).Perm ks)
    (hnodup : (continued ++ finishReqIds).Nodup) :
    (ks.map fun k => (if k ∈ finishReqIds then .finished else .attention 0 : Phase).labels topK k).sum =
      (continued.map fun k => (Phase.attention 0).labels topK k).sum := by
  have hdisjoint := (List.nodup_append.mp hnodup).2.2
  have hgone : (finishReqIds.map fun k =>
      (if k ∈ finishReqIds then .finished else .attention 0 : Phase).labels topK k).sum = 0 := by
    refine List.sum_eq_zero fun a ha => ?_
    obtain ⟨k, hk, rfl⟩ := List.mem_map.mp ha
    rw [if_pos hk]
    rfl
  rw [← (hperm.map _).sum_eq, List.map_append, List.sum_append, hgone, add_zero]
  congr 1
  refine List.map_congr_left fun k hk => ?_
  rw [if_neg fun hfin => hdisjoint k hk k hfin rfl]

/-- A new request is at the first layer. -/
theorem advance_arrive {k : ℤ} (hnew : phase k = .unknown) :
    Advance numLayers phase (Function.update phase k (.attention 0)) := by
  intro r
  by_cases hr : r = k
  · subst hr
    rw [Function.update_self, hnew]
    exact .inr .arrive
  · exact .inl (Function.update_of_ne hr _ _)

theorem portions_arrive {k : ℤ} (hm : ∀ r, portion Prod.fst r m = (phase r).labels topK r)
    (hnew : phase k = .unknown) (hx : Exchange 0 {(k, .attention 0)} m m') (r : ℤ) :
    portion Prod.fst r m' = (Function.update phase k (.attention 0) r).labels topK r := by
  obtain ⟨others, hbefore, rfl⟩ := hx
  have hothers : portion Prod.fst r others = (phase r).labels topK r := by
    rw [← hm, hbefore, zero_add]
  have hkey : Keyed Prod.fst k ((Phase.attention 0).labels topK k) := labels_keyed _ _ _
  rw [portion_add, hothers]
  refine (congrArg (· + _) hkey.portion_eq).trans ?_
  by_cases hr : r = k
  · subst hr
    rw [if_pos rfl, hnew, Function.update_self]
    exact add_zero _
  · rw [if_neg hr, zero_add, Function.update_of_ne hr]

end Phase

end StreamInfer.Colocated
