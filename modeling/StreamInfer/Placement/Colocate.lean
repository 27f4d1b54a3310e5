import StreamInfer.Placement.ModelPlacement

/-! The colocated placement: every device runs the attention of all layers, and hosts a
block of experts. The blocks are equal, or have the sizes of an allocation; either
way an expert has one host, the same for all layers, and its rank is its host. -/

namespace StreamInfer.Placement

open General ModelPlacement

namespace ColocatePlacement

/-- The loop over the experts of equal blocks: device, layer and expert. -/
def uniformExperts (numLayers numExperts perRank : ℕ) : List (ℕ × ℕ × ℕ) :=
  (List.range numExperts).flatMap fun i =>
    (List.range numLayers).map fun layer => (i / perRank, layer, i)

/-- The loop over the counts of an allocation, from a device and an expert id on, and the
expert id it ends with. -/
def allocatedExperts (numLayers : ℕ) : ℕ → ℕ → List ℕ → List (ℕ × ℕ × ℕ) × ℕ
  | _, expertId, [] => ([], expertId)
  | dev, expertId, count :: counts =>
    let rest := allocatedExperts numLayers (dev + 1) (expertId + count) counts
    ((List.range' expertId count).flatMap (fun i =>
      (List.range numLayers).map fun layer => (dev, layer, i)) ++ rest.1, rest.2)

def fillExperts (numDevices : ℕ) (places : List (ℕ × ℕ × ℕ)) :
    Except Fault (List (List (ℕ × ℕ))) :=
  match fillBuckets (List.replicate numDevices []) places with
  | some experts => .ok experts
  | none => .error (.outOfRange "experts[dev_id]")

def placeExperts (c : ModelConfig) (numDevices : ℕ) :
    Option (List ℕ) → Except Fault (List (List (ℕ × ℕ)))
  | some counts => do
    if numDevices < counts.length then
      throw (.assertion "len(self.expert_allocation) <= num_devices")
    let placed := allocatedExperts c.numLayers 0 0 counts
    let experts ← fillExperts numDevices placed.1
    if placed.2 ≠ c.numExperts then throw (.assertion "expert_id == n_expert")
    return experts
  | none => fillExperts numDevices (uniformExperts c.numLayers c.numExperts c.numExpertsPerRank)

/-- `_solve`, before the links and ranks. -/
def place (c : ModelConfig) (numDevices : ℕ) (expertAllocation : Option (List ℕ)) :
    Except Fault ModelPlacement := do
  let experts ← placeExperts c numDevices expertAllocation
  return {
    attn := List.replicate numDevices (List.range c.numLayers)
    expert := experts
    inDeviceIds := fun _ => []
    outDeviceIds := fun _ => []
    expertRanks := fun _ => none
    attnDpRanks := fun _ => none
    localExpertCounts := experts.map fun xs => (xs.map Prod.snd).dedup.length }

def updateExpertRank (c : ModelConfig) (expertAllocation : Option (List ℕ)) (p : ModelPlacement) :
    ModelPlacement :=
  match expertAllocation with
  | some _ =>
    { p with expertRanks := dictOf (p.expert.zipIdx.flatMap fun x => x.1.map fun e => (e, x.2)) }
  | none =>
    { p with expertRanks := dictOf ((List.range c.numLayers).flatMap fun layer =>
      (List.range c.numExperts).map fun e => ((layer, e), e / c.numExpertsPerRank)) }

def updateAttnDpRank (p : ModelPlacement) : ModelPlacement :=
  { p with attnDpRanks := dictOf ((List.range p.attn.length).map fun dev => (dev, dev)) }

def solve (c : ModelConfig) (numDevices : ℕ) (expertAllocation : Option (List ℕ)) :
    Except Fault ModelPlacement := do
  if expertAllocation.any (·.sum ≠ c.numExperts) then
    throw (.assertion "sum(self.expert_allocation) == model_config.num_experts")
  let p ← place c numDevices expertAllocation
  let p ← p.addEdges c.numLayers
  return updateAttnDpRank (updateExpertRank c expertAllocation p)

/-! ### Hosts -/

/-- The device of an expert in an allocation. -/
def hostOf : List ℕ → ℕ → ℕ
  | [], _ => 0
  | count :: counts, e => if e < count then 0 else hostOf counts (e - count) + 1

/-- Each expert of each layer, with its host. -/
def hostedExperts (numLayers numExperts : ℕ) (host : ℕ → ℕ) : List (ℕ × ℕ × ℕ) :=
  (List.range numExperts).flatMap fun i => (List.range numLayers).map fun layer => (host i, layer, i)

theorem hostOf_lt {counts : List ℕ} {e : ℕ} (h : e < counts.sum) : hostOf counts e < counts.length := by
  induction counts generalizing e with
  | nil => simp at h
  | cons count counts ih =>
    rw [List.sum_cons] at h
    rw [hostOf, List.length_cons]
    split_ifs with he
    · exact Nat.succ_pos _
    · exact Nat.succ_lt_succ (ih (by omega))

theorem allocatedExperts_eq (numLayers dev expertId : ℕ) (counts : List ℕ) :
    allocatedExperts numLayers dev expertId counts =
      ((List.range' expertId counts.sum).flatMap fun i => (List.range numLayers).map fun layer =>
        (dev + hostOf counts (i - expertId), layer, i), expertId + counts.sum) := by
  induction counts generalizing dev expertId with
  | nil => simp [allocatedExperts]
  | cons count counts ih =>
    rw [allocatedExperts, ih, List.sum_cons, ← List.range'_append_1, List.flatMap_append]
    dsimp only
    rw [Prod.mk.injEq]
    refine ⟨?_, Nat.add_assoc _ _ _⟩
    congr 1
    · refine List.flatMap_congr fun i hi => ?_
      rw [List.mem_range'_1] at hi
      rw [hostOf, if_pos (by omega)]
      rfl
    · refine List.flatMap_congr fun i hi => ?_
      rw [List.mem_range'_1] at hi
      rw [hostOf, if_neg (by omega), Nat.sub_sub, Nat.add_assoc, Nat.add_comm 1]

theorem uniformExperts_eq (numLayers numExperts perRank : ℕ) :
    uniformExperts numLayers numExperts perRank = hostedExperts numLayers numExperts (· / perRank) :=
  rfl

theorem allocatedExperts_zero (numLayers : ℕ) (counts : List ℕ) :
    allocatedExperts numLayers 0 0 counts =
      (hostedExperts numLayers counts.sum (hostOf counts), counts.sum) := by
  rw [allocatedExperts_eq, Nat.zero_add, ← List.range_eq_range']
  simp only [Nat.zero_add, Nat.sub_zero, hostedExperts]

theorem mem_hostedExperts {numLayers numExperts : ℕ} {host : ℕ → ℕ} {d layer e : ℕ} :
    (d, layer, e) ∈ hostedExperts numLayers numExperts host ↔
      layer < numLayers ∧ e < numExperts ∧ host e = d := by
  simp only [hostedExperts, List.mem_flatMap, List.mem_range, List.mem_map, Prod.mk.injEq]
  constructor
  · rintro ⟨i, hi, l, hl, rfl, rfl, rfl⟩
    exact ⟨hl, hi, rfl⟩
  · rintro ⟨hl, he, rfl⟩
    exact ⟨e, he, layer, hl, rfl, rfl, rfl⟩

/-- Every expert of every layer is placed once. -/
theorem nodup_hostedExperts (numLayers numExperts : ℕ) (host : ℕ → ℕ) :
    ((hostedExperts numLayers numExperts host).map Prod.snd).Nodup := by
  rw [hostedExperts, List.map_flatMap, List.nodup_flatMap]
  refine ⟨fun i _ => ?_, List.Pairwise.imp ?_ List.nodup_range⟩
  · rw [List.map_map]
    exact List.nodup_range.map fun l l' h => (Prod.mk.inj h).1
  · intro i j hij x hx hy
    simp only [List.map_map, List.mem_map] at hx hy
    obtain ⟨l, -, rfl⟩ := hx
    obtain ⟨l', -, h⟩ := hy
    exact hij (Prod.mk.inj h).2.symm

/-! ### The solved placement -/

/-- The configurations of the colocated engine: equal blocks over all devices, or an
allocation of at most that many counts. -/
structure Configured (c : ModelConfig) (numDevices : ℕ) (expertAllocation : Option (List ℕ)) :
    Prop where
  layers : 1 ≤ c.numLayers
  dpSize : c.dpSize = numDevices
  blocks : expertAllocation = none → c.epSize = numDevices ∧ numDevices ∣ c.numExperts
  counts : ∀ counts, expertAllocation = some counts →
    counts.length ≤ numDevices ∧ counts.sum = c.numExperts

def hostIn (c : ModelConfig) : Option (List ℕ) → ℕ → ℕ
  | some counts => hostOf counts
  | none => (· / c.numExpertsPerRank)

variable {c : ModelConfig} {numDevices : ℕ} {expertAllocation : Option (List ℕ)}

theorem Configured.hostIn_lt (h : Configured c numDevices expertAllocation) {e : ℕ}
    (he : e < c.numExperts) : hostIn c expertAllocation e < numDevices := by
  cases expertAllocation with
  | some counts =>
    obtain ⟨hlen, hsum⟩ := h.counts counts rfl
    exact Nat.lt_of_lt_of_le (hostOf_lt (hsum ▸ he)) hlen
  | none =>
    obtain ⟨hep, k, hk⟩ := h.blocks rfl
    have hD : 0 < numDevices := by
      rcases Nat.eq_zero_or_pos numDevices with h0 | h0
      · rw [h0, Nat.zero_mul] at hk
        omega
      · exact h0
    have hper : c.numExpertsPerRank = k := by
      rw [ModelConfig.numExpertsPerRank, hep, hk, Nat.mul_div_cancel_left k hD]
    rw [hostIn, hper]
    exact Nat.div_lt_of_lt_mul (by rw [Nat.mul_comm, ← hk]; exact he)

theorem Configured.placeExperts_ok (h : Configured c numDevices expertAllocation) :
    ∃ experts, placeExperts c numDevices expertAllocation = .ok experts ∧
      experts.length = numDevices ∧ ∀ d, experts.getD d [] =
        entriesOf (hostedExperts c.numLayers c.numExperts (hostIn c expertAllocation)) d := by
  have hhosts : ∀ p ∈ hostedExperts c.numLayers c.numExperts (hostIn c expertAllocation),
      p.1 < numDevices := by
    rintro ⟨d, layer, e⟩ hp
    obtain ⟨-, he, rfl⟩ := mem_hostedExperts.mp hp
    exact h.hostIn_lt he
  obtain ⟨experts, hfill, hlen, hall⟩ := fillBuckets_replicate hhosts
  refine ⟨experts, ?_, hlen, hall⟩
  cases expertAllocation with
  | some counts =>
    obtain ⟨hcounts, hsum⟩ := h.counts counts rfl
    have hfill' : fillExperts numDevices (hostedExperts c.numLayers c.numExperts (hostOf counts)) =
        .ok experts := by
      rw [fillExperts]
      simp only [hostIn] at hfill
      rw [hfill]
    simp [placeExperts, allocatedExperts_zero, hfill', hsum, Nat.not_lt_of_le hcounts, bind,
      Except.bind, pure, Except.pure]
  | none =>
    rw [placeExperts, uniformExperts_eq, fillExperts]
    simp only [hostIn] at hfill
    rw [hfill]

/-- A device hosts an expert. -/
def Hosts (c : ModelConfig) (expertAllocation : Option (List ℕ)) (d : ℕ) : Prop :=
  ∃ e < c.numExperts, hostIn c expertAllocation e = d

/-- What a placement says: experts at their hosts, ranks that are the hosts, and links
between every device and every host. -/
structure Solved (c : ModelConfig) (numDevices : ℕ) (expertAllocation : Option (List ℕ))
    (p : ModelPlacement) : Prop where
  length : p.expert.length = numDevices
  mem_expert : ∀ d layer e, (layer, e) ∈ p.expertIdsAt d ↔
    layer < c.numLayers ∧ e < c.numExperts ∧ hostIn c expertAllocation e = d
  nodup_expert : ∀ d, (p.expertIdsAt d).Nodup
  mem_out : ∀ a b, b ∈ p.outDeviceIds a ↔
    (a < numDevices ∧ Hosts c expertAllocation b) ∨ (Hosts c expertAllocation a ∧ b < numDevices)
  mem_in : ∀ a b, a ∈ p.inDeviceIds b ↔ b ∈ p.outDeviceIds a
  nodup_out : ∀ a, (p.outDeviceIds a).Nodup
  nodup_in : ∀ b, (p.inDeviceIds b).Nodup
  expertRanks : ∀ layer < c.numLayers, ∀ e < c.numExperts,
    p.expertRanks (layer, e) = some (hostIn c expertAllocation e)
  attnDpRanks : ∀ d < numDevices, p.attnDpRanks d = some d

theorem getD_replicate (n d : ℕ) (xs : List ℕ) :
    (List.replicate n xs).getD d [] = if d < n then xs else [] := by
  rw [List.getD_eq_getElem?_getD, List.getElem?_replicate]
  split_ifs <;> rfl

/-- The links of a placement whose experts are at their hosts. -/
theorem Configured.addEdges_ok (h : Configured c numDevices expertAllocation) {p : ModelPlacement}
    (hattn : p.attn = List.replicate numDevices (List.range c.numLayers))
    (hexpert : ∀ d layer e, (layer, e) ∈ p.expert.getD d [] ↔
      layer < c.numLayers ∧ e < c.numExperts ∧ hostIn c expertAllocation e = d)
    (hin : ∀ d, p.inDeviceIds d = []) (hout : ∀ d, p.outDeviceIds d = []) :
    ∃ (p' : ModelPlacement) (es : List (ℕ × ℕ)), p.addEdges c.numLayers = .ok p' ∧ Linked p' es ∧
      p'.attn = p.attn ∧ p'.expert = p.expert ∧
      ∀ a b, (a, b) ∈ es ↔ (a < numDevices ∧ Hosts c expertAllocation b) ∨
        (Hosts c expertAllocation a ∧ b < numDevices) := by
  have hlayers : ∀ d, (p.expert.map fun xs => xs.map Prod.fst).getD d [] =
      (p.expert.getD d []).map Prod.fst := by
    intro d
    rw [List.getD_eq_getElem?_getD, List.getD_eq_getElem?_getD, List.getElem?_map]
    cases p.expert[d]? <;> rfl
  have hattn' : ∀ l d, l ∈ p.attn.getD d [] ↔ d < numDevices ∧ l < c.numLayers := by
    intro l d
    rw [hattn, getD_replicate]
    split_ifs with hd <;> simp [hd]
  have hexpert' : ∀ l d, l ∈ (p.expert.map fun xs => xs.map Prod.fst).getD d [] ↔
      l < c.numLayers ∧ Hosts c expertAllocation d := by
    intro l d
    rw [hlayers, List.mem_map]
    constructor
    · rintro ⟨⟨l', e⟩, hmem, rfl⟩
      obtain ⟨hl, he, hd⟩ := (hexpert d l' e).mp hmem
      exact ⟨hl, e, he, hd⟩
    · rintro ⟨hl, e, he, hd⟩
      exact ⟨(l, e), (hexpert d l e).mpr ⟨hl, he, hd⟩, rfl⟩
  have hattnLayers : ∀ xs ∈ p.attn, ∀ l ∈ xs, l < c.numLayers := by
    intro xs hxs l hl
    rw [hattn] at hxs
    rw [List.eq_of_mem_replicate hxs] at hl
    exact List.mem_range.mp hl
  have hexpertLayers : ∀ xs ∈ p.expert.map fun xs => xs.map Prod.fst, ∀ l ∈ xs, l < c.numLayers := by
    intro xs hxs l hl
    obtain ⟨d, hd⟩ := List.mem_iff_getElem?.mp hxs
    refine ((hexpert' l d).mp ?_).1
    rw [List.getD_eq_getElem?_getD, hd]
    exact hl
  obtain ⟨attnDevs, hattnDevs, hA⟩ := devsByLayer_ok hattnLayers
  obtain ⟨expDevs, hexpDevs, hE⟩ := devsByLayer_ok hexpertLayers
  have hA' : ∀ l < c.numLayers, ∀ d, d ∈ attnDevs.getD l [] ↔ d < numDevices := by
    intro l hl d
    rw [hA, hattn']
    exact ⟨And.left, fun hd => ⟨hd, hl⟩⟩
  have hE' : ∀ l < c.numLayers, ∀ d, d ∈ expDevs.getD l [] ↔ Hosts c expertAllocation d := by
    intro l hl d
    rw [hE, hexpert']
    exact ⟨And.right, fun hd => ⟨hl, hd⟩⟩
  have hedges := mem_edges h.layers hA' hE'
  have hlinked := foldl_addEdge (linked_nil hin hout) (edges c.numLayers attnDevs expDevs)
  rw [List.nil_append] at hlinked
  refine ⟨_, _, ?_, hlinked, (foldl_addEdge_rest _).1, (foldl_addEdge_rest _).2, hedges⟩
  have hne : c.numLayers ≠ 0 := Nat.ne_of_gt h.layers
  simp [addEdges, hattnDevs, hexpDevs, hne, bind, Except.bind, pure, Except.pure]

/-- The rank of an expert is its host. -/
theorem expertRanks_eq {p : ModelPlacement}
    (hexpert : ∀ d layer e, (layer, e) ∈ p.expert.getD d [] ↔
      layer < c.numLayers ∧ e < c.numExperts ∧ hostIn c expertAllocation e = d)
    {layer e : ℕ} (hl : layer < c.numLayers) (he : e < c.numExperts) :
    (updateExpertRank c expertAllocation p).expertRanks (layer, e) =
      some (hostIn c expertAllocation e) := by
  cases expertAllocation with
  | some counts =>
    have hentry : ∀ d, ((layer, e), d) ∈
        (p.expert.zipIdx.flatMap fun x => x.1.map fun y => (y, x.2)) ↔ hostOf counts e = d := by
      intro d
      simp only [List.mem_flatMap, List.mem_map, Prod.mk.injEq, Prod.exists,
        List.mem_zipIdx_iff_getElem?]
      constructor
      · rintro ⟨xs, d', hget, l', e', hmem, ⟨rfl, rfl⟩, rfl⟩
        refine ((hexpert d' l' e').mp ?_).2.2
        rw [List.getD_eq_getElem?_getD, hget]
        exact hmem
      · intro hd
        have hmem := (hexpert d layer e).mpr ⟨hl, he, hd⟩
        rw [List.getD_eq_getElem?_getD] at hmem
        cases hget : p.expert[d]? with
        | none => simp [hget] at hmem
        | some xs => exact ⟨xs, d, hget, layer, e, by simpa [hget] using hmem, ⟨rfl, rfl⟩, rfl⟩
    exact dictOf_eq (fun d hd => ((hentry d).mp hd).symm) ((hentry _).mpr rfl)
  | none =>
    have hentry : ∀ d, ((layer, e), d) ∈ ((List.range c.numLayers).flatMap fun layer =>
        (List.range c.numExperts).map fun e => ((layer, e), e / c.numExpertsPerRank)) ↔
        d = e / c.numExpertsPerRank := by
      intro d
      simp only [List.mem_flatMap, List.mem_range, List.mem_map, Prod.mk.injEq]
      constructor
      · rintro ⟨l', hl', e', he', ⟨rfl, rfl⟩, rfl⟩
        rfl
      · rintro rfl
        exact ⟨layer, hl, e, he, ⟨rfl, rfl⟩, rfl⟩
    exact dictOf_eq (fun d hd => (hentry d).mp hd) ((hentry _).mpr rfl)

theorem Configured.solve_ok (h : Configured c numDevices expertAllocation) :
    ∃ p, solve c numDevices expertAllocation = .ok p ∧ Solved c numDevices expertAllocation p := by
  obtain ⟨experts, hplace, hlen, hall⟩ := h.placeExperts_ok
  have hmem : ∀ d layer e, (layer, e) ∈ experts.getD d [] ↔
      layer < c.numLayers ∧ e < c.numExperts ∧ hostIn c expertAllocation e = d := by
    intro d layer e
    rw [hall, mem_entriesOf, mem_hostedExperts]
  obtain ⟨p, es, hedges, hlinked, hattn, hexpert, hes⟩ := h.addEdges_ok (p := {
    attn := List.replicate numDevices (List.range c.numLayers)
    expert := experts
    inDeviceIds := fun _ => []
    outDeviceIds := fun _ => []
    expertRanks := fun _ => none
    attnDpRanks := fun _ => none
    localExpertCounts := experts.map fun xs => (xs.map Prod.snd).dedup.length }) rfl hmem
    (fun _ => rfl) fun _ => rfl
  have hsum : expertAllocation.any (·.sum ≠ c.numExperts) = false := by
    cases expertAllocation with
    | none => rfl
    | some counts => simp [(h.counts counts rfl).2]
  have hmem' : ∀ d layer e, (layer, e) ∈ p.expert.getD d [] ↔
      layer < c.numLayers ∧ e < c.numExperts ∧ hostIn c expertAllocation e = d := by
    rw [hexpert]
    exact hmem
  have hrest : (updateExpertRank c expertAllocation p).attn = p.attn ∧
      (updateExpertRank c expertAllocation p).expert = p.expert ∧
      (updateExpertRank c expertAllocation p).outDeviceIds = p.outDeviceIds ∧
      (updateExpertRank c expertAllocation p).inDeviceIds = p.inDeviceIds := by
    cases expertAllocation <;> exact ⟨rfl, rfl, rfl, rfl⟩
  obtain ⟨hattn', hexpert', hout', hin'⟩ := hrest
  refine ⟨updateAttnDpRank (updateExpertRank c expertAllocation p), ?_, ?_⟩
  · simp only [solve, hsum, place, hplace, bind, Except.bind, pure, Except.pure,
      Bool.false_eq_true, ↓reduceIte, hedges]
  exact
    { length := by
        rw [updateAttnDpRank, hexpert', hexpert]
        exact hlen
      mem_expert := fun d layer e => by
        rw [expertIdsAt, updateAttnDpRank, hexpert']
        exact hmem' d layer e
      nodup_expert := fun d => by
        rw [expertIdsAt, updateAttnDpRank, hexpert', hexpert, hall]
        exact (nodup_hostedExperts _ _ _).sublist (entriesOf_sublist _ _)
      mem_out := fun a b => by
        rw [updateAttnDpRank, hout', hlinked.mem_out, hes]
      mem_in := fun a b => by
        rw [updateAttnDpRank, hout', hin', hlinked.mem_in, hlinked.mem_out]
      nodup_out := fun a => by
        rw [updateAttnDpRank, hout']
        exact hlinked.nodup_out a
      nodup_in := fun b => by
        rw [updateAttnDpRank, hin']
        exact hlinked.nodup_in b
      expertRanks := fun layer hl e he => expertRanks_eq hmem' hl he
      attnDpRanks := fun d hd => by
        refine dictOf_eq (v := d) (fun d' hd' => ?_) ?_
        · obtain ⟨x, -, hx⟩ := List.mem_map.mp hd'
          obtain ⟨rfl, rfl⟩ := Prod.mk.inj hx
          rfl
        · rw [hattn', hattn, List.length_replicate]
          exact List.mem_map.mpr ⟨d, List.mem_range.mpr hd, rfl⟩ }

end ColocatePlacement

end StreamInfer.Placement
