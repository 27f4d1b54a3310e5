import StreamInfer.General.Window
import StreamInfer.Pool.Contents

/-! What the two policies pick. A layer scores above zero exactly when it holds
tokens, because everything else a score adds is not negative; so the defragging
policy, like first-layer-first-serve, picks a layer with tokens whenever there is
one. A decision moves no token. -/

namespace StreamInfer.Pool

open General General.Stateful Batch

variable {W R : Type}

namespace LayerScheduler

/-- A layer with tokens, or none if there is no such layer. -/
def Picks (s : LayerScheduler W R) (id : ℤ) : Prop :=
  (id = -1 ∧ ∀ i < s.numLayers, s.held i = 0) ∨ ∃ i < s.numLayers, id = i ∧ 0 < s.held i

/-- Of the two policies, only the defragging one has a decay. -/
def NonnegDecay (s : LayerScheduler W R) : Prop := ∀ d, s.defrag = some d → 0 ≤ d.weightDecay

variable [Zero W] {K : ℕ → BatchKind W R} {s s' : LayerScheduler W R} {c : Contents W R}

/-! ### First layer, first serve -/

theorem Keeps.layerIdOf_eq (h : Keeps K s c) {i : ℕ} (hi : i < s.numLayers) :
    s.layerIdOf i = s.layerIdAt i := by
  obtain ⟨l, hl, hid, -⟩ := h.layer i hi
  rw [layerIdOf, hl]
  exact hid

theorem Keeps.flfsSchedule_picks (h : Keeps K s c) (hl : s.numExpertLayers ≤ s.numAttnLayers) :
    s.Picks s.flfsSchedule := by
  have hattn : ∀ i < s.numAttnLayers, i < s.numLayers := fun i hi => Nat.lt_add_right _ hi
  have hexp : ∀ i < s.numExpertLayers, s.numAttnLayers + i < s.numLayers :=
    fun i hi => Nat.add_lt_add_left hi _
  unfold flfsSchedule
  cases hf : (List.range s.numAttnLayers).findSome? _ with
  | none =>
    rw [List.findSome?_eq_none_iff] at hf
    refine .inl ⟨rfl, fun i hi => ?_⟩
    have hzero : s.numTokensAt i ≤ 0 := by
      by_cases ha : i < s.numAttnLayers
      · have hnone := hf i (List.mem_range.mpr ha)
        by_contra hpos
        simp [not_le.mp hpos] at hnone
      · -- an expert layer is looked at with the attention layer of its index
        obtain ⟨e, rfl⟩ := Nat.exists_eq_add_of_le (not_lt.mp ha)
        have he : e < s.numExpertLayers := Nat.lt_of_add_lt_add_left hi
        have hnone := hf e (List.mem_range.mpr (he.trans_le hl))
        by_contra hpos
        simp only [he, not_le.mp hpos, and_self, ↓reduceIte] at hnone
        split_ifs at hnone
    rw [h.numTokensAt_eq hi] at hzero
    omega
  | some id =>
    obtain ⟨i, hi, hpick⟩ := List.exists_of_findSome?_eq_some hf
    rw [List.mem_range] at hi
    refine .inr ?_
    split_ifs at hpick with ha he
    · refine ⟨i, hattn i hi, ?_, ?_⟩
      · rw [← Option.some.inj hpick, h.layerIdOf_eq (hattn i hi), layerIdAt, if_pos hi]
        rfl
      · rw [h.numTokensAt_eq (hattn i hi)] at ha
        exact_mod_cast ha
    · refine ⟨s.numAttnLayers + i, hexp i he.1, ?_, ?_⟩
      · rw [← Option.some.inj hpick, h.layerIdOf_eq (hexp i he.1), layerIdAt, if_neg (by omega),
          Nat.add_sub_cancel_left, Nat.add_comm]
        rfl
      · have hpos := he.2
        rw [h.numTokensAt_eq (hexp i he.1)] at hpos
        exact_mod_cast hpos

/-! ### Scores -/

omit [Zero W] in
theorem getEffectiveTokens_nonneg (s : LayerScheduler W R) (i : ℕ) (raw : ℤ) :
    0 ≤ s.getEffectiveTokens i raw := by
  unfold getEffectiveTokens
  split_ifs with hneg ha
  · exact le_rfl
  · exact_mod_cast (not_le.mp hneg).le
  · have hraw : (0 : ℚ) ≤ raw := by exact_mod_cast (not_le.mp hneg).le
    positivity

omit [Zero W] in
theorem getEffectiveTokens_pos (ht : 0 < s.topK) {i : ℕ} {raw : ℤ} :
    0 < s.getEffectiveTokens i raw ↔ 0 < raw := by
  unfold getEffectiveTokens
  split_ifs with hneg ha
  · simpa using hneg
  · exact_mod_cast Iff.rfl
  · have hraw : (0 : ℚ) < raw := by exact_mod_cast not_le.mp hneg
    have htop : (0 : ℚ) < s.topK := by exact_mod_cast ht
    exact ⟨fun _ => not_le.mp hneg, fun _ => div_pos hraw htop⟩

theorem historyScore_nonneg (d : Defrag) (i : ℕ) : 0 ≤ historyScore d i := by
  unfold historyScore
  dsimp only
  split_ifs with h
  · have htotal : (0 : ℚ) ≤ (d.sumHistoryTokensInLayer.getD i 0 : ℤ) := by
      exact_mod_cast h.2.2.2.le
    positivity
  · exact le_rfl

omit [Zero W] in
theorem lookaheadScore_nonneg (s : LayerScheduler W R) {d : Defrag} (hd : 0 ≤ d.weightDecay)
    (pipePos k steps : ℕ) {decay : ℚ} (hdecay : 0 ≤ decay) :
    0 ≤ s.lookaheadScore d pipePos k steps decay := by
  induction steps generalizing k decay with
  | zero => exact le_rfl
  | succ steps ih =>
    have htokens := s.getEffectiveTokens_nonneg (s.fromPipelinePos ((pipePos + k) % s.numLayers))
      (s.numTokensAt (s.fromPipelinePos ((pipePos + k) % s.numLayers)))
    have hhistory := historyScore_nonneg d (s.fromPipelinePos ((pipePos + k) % s.numLayers))
    have hrest := ih (k + 1) (mul_nonneg hdecay hd)
    rw [lookaheadScore]
    positivity

omit [Zero W] in
/-- A layer scores exactly when it has tokens. -/
theorem score_pos (ht : 0 < s.topK) {d : Defrag} (hd : 0 ≤ d.weightDecay) (i : ℕ) :
    0 < s.score d i ↔ 0 < s.numTokensAt i := by
  unfold score
  dsimp only
  split_ifs with h
  · rw [← getEffectiveTokens_pos ht (i := i)]
    exact ⟨fun h' => absurd h' (lt_irrefl _), fun h' => absurd h' (not_lt.mpr h)⟩
  · have hlook := s.lookaheadScore_nonneg hd (s.toPipelinePos i) 1 (d.lookaheadSteps - 1) hd
    have hpos := not_le.mp h
    exact ⟨fun _ => (getEffectiveTokens_pos ht).mp hpos, fun _ => add_pos_of_nonneg_of_pos hlook hpos⟩

theorem Keeps.bestLayer_picks (h : Keeps K s c) {d : Defrag} (hd : 0 ≤ d.weightDecay) :
    s.Picks (s.bestLayer d).2 := by
  have hscore : ∀ i < s.numLayers, 0 < s.score d i ↔ 0 < s.held i := by
    intro i hi
    rw [score_pos h.topK hd, h.numTokensAt_eq hi]
    exact Int.natCast_pos
  rcases foldl_firstLargest (s.score d) 0 s.numLayers with
    ⟨hnone, hall⟩ | ⟨i, hi, hbest, hpos, -, -⟩
  · refine .inl ⟨congrArg Prod.snd hnone, fun i hi => ?_⟩
    have hle := hall i hi
    by_contra hne
    exact absurd ((hscore i hi).mpr (Nat.pos_of_ne_zero hne)) (not_lt.mpr hle)
  · exact .inr ⟨i, hi, congrArg Prod.snd hbest, (hscore i hi).mp hpos⟩

/-! ### Decisions -/

theorem Keeps.sum_getPoolSnapshot (h : Keeps K s c) :
    s.getPoolSnapshot.sum = 0 ↔ ∀ i < s.numLayers, s.held i = 0 := by
  have hsnapshot : s.getPoolSnapshot = ((List.range s.numLayers).map s.held).map (Nat.cast : ℕ → ℤ) := by
    rw [getPoolSnapshot, List.map_map]
    exact List.map_congr_left fun i hi => h.numTokensAt_eq (List.mem_range.mp hi)
  rw [hsnapshot, ← Nat.cast_list_sum, Int.natCast_eq_zero, List.sum_eq_zero_iff]
  simp

/-- The queues do not depend on the policy's state. -/
theorem Keeps.withDefrag (h : Keeps K s c) (d : Option Defrag) :
    Keeps K { s with defrag := d } c := ⟨h.length, h.topK, h.layer⟩

/-- A decision picks a layer with tokens and leaves the queues. -/
theorem Keeps.schedule (h : Keeps K s c) (hl : s.numExpertLayers ≤ s.numAttnLayers)
    (hd : s.NonnegDecay) :
    ∃ id s', LayerScheduler.schedule s = .ok id s' ∧ s.Picks id ∧ s'.layers = s.layers ∧
      SameShape s s' ∧ s'.NonnegDecay ∧ Keeps K s' c := by
  rw [LayerScheduler.schedule, get_bind]
  cases hdefrag : s.defrag with
  | none => exact ⟨_, s, rfl, h.flfsSchedule_picks hl, rfl, .refl s, hd, h⟩
  | some d =>
    dsimp only
    split_ifs with hsum
    · exact ⟨-1, s, rfl, .inl ⟨rfl, h.sum_getPoolSnapshot.mp hsum⟩, rfl, .refl s, hd, h⟩
    · refine ⟨_, _, rfl, h.bestLayer_picks (hd d hdefrag), rfl, ⟨rfl, rfl, rfl, rfl⟩, ?_,
        h.withDefrag _⟩
      intro d' hd'
      obtain rfl := Option.some.inj hd'
      rw [show (stepEnd d s.numLayers s.effectiveSnapshot).weightDecay = d.weightDecay by
        unfold stepEnd; split_ifs <;> rfl]
      exact hd d hdefrag

end LayerScheduler

end StreamInfer.Pool
