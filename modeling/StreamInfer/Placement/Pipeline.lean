import StreamInfer.Placement.ModelPlacement
import StreamInfer.General.ListDict
import StreamInfer.General.Fallible

/-! The pipeline placement. Layers are dealt to virtual attention and expert devices;
a virtual attention device stands for its ranks and tensor-parallel groups, and a
virtual expert device for the ranks of its experts. Dealing by `i % p` always hits a
device; dealing by `i // (num_layers // p)` runs past the last device when the
number of devices does not divide the number of layers. -/

namespace StreamInfer.Placement

open General

structure PipelinePlacement where
  modelConfig : ModelConfig
  tpSize : ℕ
  nNode : ℕ
  nGpu : ℕ
  stepAttn : ℕ
  stepExpert : ℕ
  zigzagAttn : Bool

/-- The dictionaries of `_solve_virtual`. -/
structure VirtualPlacement where
  attn : ListDict ℕ ℕ
  expert : ListDict ℕ ℕ

/-- The dictionaries of `_solve_physical`, by device id. -/
structure DevicePlacement where
  attn : ListDict ℕ ℕ
  expert : ListDict ℕ (ℕ × ℕ)
  deviceGroups : ListDict ℕ ℕ

namespace PipelinePlacement

/-- `//` and `%`. -/
def floorDiv (a b : ℕ) : Except Fault ℕ :=
  if b = 0 then .error (.assertion "integer division or modulo by zero") else .ok (a / b)

def floorMod (a b : ℕ) : Except Fault ℕ :=
  if b = 0 then .error (.assertion "integer division or modulo by zero") else .ok (a % b)

/-- A dictionary access. -/
def found {α : Type} (access : String) : Option α → Except Fault α
  | some a => .ok a
  | none => .error (.outOfRange access)

def attnDev (c : PipelinePlacement) (i : ℕ) : Except Fault ℕ :=
  if c.zigzagAttn then floorMod i c.stepAttn
  else do
    let layers ← floorDiv c.modelConfig.numLayers c.stepAttn
    floorDiv i layers

/-- One pass of the loop over the layers. -/
def placeLayer (c : PipelinePlacement) (v : VirtualPlacement) (i : ℕ) :
    Except Fault VirtualPlacement := do
  let attnDev ← c.attnDev i
  let expDev ← floorMod i c.stepExpert
  let attn ← found "attns[attn_dev]" (v.attn.extend attnDev [i])
  let expert ← found "experts[exp_dev]" (v.expert.extend expDev [i])
  return ⟨attn, expert⟩

def solveVirtual (c : PipelinePlacement) : Except Fault VirtualPlacement :=
  (List.range c.modelConfig.numLayers).foldlM c.placeLayer
    ⟨.ofKeys (List.range c.stepAttn), .ofKeys (List.range c.stepExpert)⟩

def numAttnWorkers (c : PipelinePlacement) : ℕ := c.stepAttn * c.tpSize * c.modelConfig.dpSize

/-- The layers of a virtual device, for the driver of each of its ranks. -/
def attnExtensions (c : PipelinePlacement) (v : VirtualPlacement) : List (ℕ × List ℕ) :=
  v.attn.items.flatMap fun item => (List.range c.modelConfig.dpSize).map fun j =>
    ((item.1 * c.modelConfig.dpSize + j) * c.tpSize, item.2)

/-- The experts of the layers of a virtual device, one by one. -/
def expertExtensions (c : PipelinePlacement) (v : VirtualPlacement) : List (ℕ × List (ℕ × ℕ)) :=
  v.expert.items.flatMap fun item => (List.range c.modelConfig.numExperts).flatMap fun e =>
    item.2.map fun l => (c.numAttnWorkers + item.1 * c.modelConfig.epSize +
      e / c.modelConfig.numExpertsPerRank, [(l, e)])

def solvePhysical (c : PipelinePlacement) (v : VirtualPlacement) : Except Fault DevicePlacement := do
  let attn ← found "attns[dev_id]"
    ((ListDict.ofKeys (List.range c.numAttnWorkers)).extendAll (c.attnExtensions v))
  if c.modelConfig.numExperts ≠ 0 ∧ c.modelConfig.numExpertsPerRank = 0 then
    throw (.assertion "integer division or modulo by zero")
  let expert ← found "experts[dev_id]"
    ((ListDict.ofKeys (List.range' c.numAttnWorkers (c.stepExpert * c.modelConfig.epSize))).extendAll
      (c.expertExtensions v))
  return {
    attn := attn
    expert := expert
    deviceGroups := ⟨List.range (c.stepAttn * c.modelConfig.dpSize),
      fun i => List.range' (i * c.tpSize) c.tpSize⟩ }

/-- `_solve`. -/
def solve (c : PipelinePlacement) : Except Fault DevicePlacement := do
  if c.nNode * c.nGpu < c.numAttnWorkers + c.stepExpert * c.modelConfig.epSize then
    throw (.assertion "No enough GPUs for the placement")
  let v ← c.solveVirtual
  c.solvePhysical v

/-- `_update_attn_dp_rank`. -/
def updateAttnDpRank (c : PipelinePlacement) (p : DevicePlacement) : ℕ → Option ℕ :=
  dictOf (p.attn.keys.map fun dev => (dev, dev / c.tpSize % c.modelConfig.dpSize))

/-! ### The virtual devices -/

/-- The sizes a pipeline may have. -/
structure Configured (c : PipelinePlacement) : Prop where
  stepAttn : 1 ≤ c.stepAttn
  layers : c.stepAttn ≤ c.modelConfig.numLayers
  stepExpert : 1 ≤ c.stepExpert
  tpSize : 1 ≤ c.tpSize
  dpSize : 1 ≤ c.modelConfig.dpSize
  epSize : 1 ≤ c.modelConfig.epSize
  experts : c.modelConfig.epSize ∣ c.modelConfig.numExperts
  gpus : c.numAttnWorkers + c.stepExpert * c.modelConfig.epSize ≤ c.nNode * c.nGpu

/-- The attention device of a layer. -/
def attnDevOf (c : PipelinePlacement) (i : ℕ) : ℕ :=
  if c.zigzagAttn then i % c.stepAttn else i / (c.modelConfig.numLayers / c.stepAttn)

variable {c : PipelinePlacement}

theorem Configured.attnDev_eq (h : Configured c) (i : ℕ) : c.attnDev i = .ok (c.attnDevOf i) := by
  have hp : c.stepAttn ≠ 0 := Nat.one_le_iff_ne_zero.mp h.stepAttn
  have hdiv : c.modelConfig.numLayers / c.stepAttn ≠ 0 :=
    Nat.ne_of_gt (Nat.div_pos h.layers h.stepAttn)
  unfold attnDev attnDevOf
  split_ifs with hz
  · rw [floorMod, if_neg hp]
  · rw [floorDiv, if_neg hp]
    show floorDiv i (c.modelConfig.numLayers / c.stepAttn) = _
    rw [floorDiv, if_neg hdiv]

/-- A layer is dealt when its attention device exists. -/
theorem Configured.placeLayer_eq (h : Configured c) {v : VirtualPlacement}
    (hexpert : v.expert.keys = List.range c.stepExpert) (i : ℕ) (v' : VirtualPlacement) :
    c.placeLayer v i = .ok v' ↔ c.attnDevOf i ∈ v.attn.keys ∧
      v' = ⟨⟨v.attn.keys, Function.update v.attn.lists (c.attnDevOf i)
          (v.attn.lists (c.attnDevOf i) ++ [i])⟩,
        ⟨v.expert.keys, Function.update v.expert.lists (i % c.stepExpert)
          (v.expert.lists (i % c.stepExpert) ++ [i])⟩⟩ := by
  have hq : c.stepExpert ≠ 0 := Nat.one_le_iff_ne_zero.mp h.stepExpert
  have hmod : i % c.stepExpert ∈ v.expert.keys := by
    rw [hexpert]
    exact List.mem_range.mpr (Nat.mod_lt i h.stepExpert)
  rw [placeLayer, h.attnDev_eq, floorMod, if_neg hq]
  show (do
    let attn ← found "attns[attn_dev]" (v.attn.extend (c.attnDevOf i) [i])
    let expert ← found "experts[exp_dev]" (v.expert.extend (i % c.stepExpert) [i])
    return (⟨attn, expert⟩ : VirtualPlacement)) = Except.ok v' ↔ _
  rw [ListDict.extend, ListDict.extend, if_pos hmod]
  split_ifs with hattn
  · constructor
    · rintro ⟨⟩
      exact ⟨hattn, rfl⟩
    · rintro ⟨-, rfl⟩
      rfl
  · constructor
    · rintro ⟨⟩
    · exact fun hv => absurd hv.1 hattn

/-- The layers below a bound are dealt. -/
structure Dealt (c : PipelinePlacement) (n : ℕ) (v : VirtualPlacement) : Prop where
  attn_keys : v.attn.keys = List.range c.stepAttn
  expert_keys : v.expert.keys = List.range c.stepExpert
  attn : ∀ dev layer, (v.attn.lists dev).count layer =
    if layer < n ∧ c.attnDevOf layer = dev then 1 else 0
  expert : ∀ dev layer, (v.expert.lists dev).count layer =
    if layer < n ∧ layer % c.stepExpert = dev then 1 else 0

theorem count_deal {lists : ℕ → List ℕ} {devOf : ℕ → ℕ} {n : ℕ}
    (h : ∀ dev layer, (lists dev).count layer = if layer < n ∧ devOf layer = dev then 1 else 0)
    (dev layer : ℕ) :
    (Function.update lists (devOf n) (lists (devOf n) ++ [n]) dev).count layer =
      if layer < n + 1 ∧ devOf layer = dev then 1 else 0 := by
  rw [ListDict.count_update, h]
  by_cases hlayer : layer = n
  · subst hlayer
    rw [if_neg (fun hlt => absurd hlt.1 (lt_irrefl _)), List.count_singleton_self, Nat.zero_add]
    simp
  · have hne : (n == layer) = false := by simpa using Ne.symm hlayer
    have hlt : layer < n + 1 ↔ layer < n := by omega
    simp [List.count_singleton, hne, hlt]

theorem Dealt.next {n : ℕ} {v : VirtualPlacement} (h : Dealt c n v) :
    Dealt c (n + 1) ⟨⟨v.attn.keys, Function.update v.attn.lists (c.attnDevOf n)
        (v.attn.lists (c.attnDevOf n) ++ [n])⟩,
      ⟨v.expert.keys, Function.update v.expert.lists (n % c.stepExpert)
        (v.expert.lists (n % c.stepExpert) ++ [n])⟩⟩ where
  attn_keys := h.attn_keys
  expert_keys := h.expert_keys
  attn := count_deal h.attn
  expert := count_deal h.expert

theorem dealt_zero (c : PipelinePlacement) :
    Dealt c 0 ⟨.ofKeys (List.range c.stepAttn), .ofKeys (List.range c.stepExpert)⟩ where
  attn_keys := rfl
  expert_keys := rfl
  attn dev layer := by simp [ListDict.ofKeys]
  expert dev layer := by simp [ListDict.ofKeys]

/-- Where every layer has a device, all layers are dealt. -/
theorem Configured.solveVirtual_ok (h : Configured c)
    (hdev : ∀ i < c.modelConfig.numLayers, c.attnDevOf i < c.stepAttn) :
    ∃ v, c.solveVirtual = .ok v ∧ Dealt c c.modelConfig.numLayers v := by
  refine exists_foldlM_range_ok (I := Dealt c) (dealt_zero c) fun i hi v hv => ?_
  refine ⟨_, (h.placeLayer_eq hv.expert_keys i _).mpr ⟨?_, rfl⟩, hv.next⟩
  rw [hv.attn_keys]
  exact List.mem_range.mpr (hdev i hi)

/-- Virtual devices that were solved had a device for every layer. -/
theorem Configured.attnDevOf_lt (h : Configured c) {v : VirtualPlacement}
    (hv : c.solveVirtual = .ok v) : ∀ i < c.modelConfig.numLayers, c.attnDevOf i < c.stepAttn := by
  refine (foldlM_range_ok (I := fun n v => (v.attn.keys = List.range c.stepAttn ∧
    v.expert.keys = List.range c.stepExpert) ∧ ∀ i < n, c.attnDevOf i < c.stepAttn)
    ⟨⟨rfl, rfl⟩, by simp⟩ ?_ hv).2
  rintro n - v v' ⟨⟨hattn, hexpert⟩, hlt⟩ hok
  obtain ⟨hmem, rfl⟩ := (h.placeLayer_eq hexpert n v').mp hok
  refine ⟨⟨hattn, hexpert⟩, fun i hi => ?_⟩
  rcases Nat.lt_succ_iff_lt_or_eq.mp hi with hi | rfl
  · exact hlt i hi
  · rw [hattn] at hmem
    exact List.mem_range.mp hmem

/-- Every layer has a device when layers are dealt in turn, or in equal runs. -/
theorem Configured.attnDevOf_lt_iff (h : Configured c) :
    (∀ i < c.modelConfig.numLayers, c.attnDevOf i < c.stepAttn) ↔
      c.zigzagAttn ∨ c.stepAttn ∣ c.modelConfig.numLayers := by
  have hp := h.stepAttn
  have hL := h.layers
  unfold attnDevOf
  split_ifs with hz
  · exact ⟨fun _ => .inl hz, fun _ i _ => Nat.mod_lt i hp⟩
  · have hrun : 0 < c.modelConfig.numLayers / c.stepAttn := Nat.div_pos hL hp
    rw [or_iff_right hz]
    constructor
    · intro hlt
      have hlast := hlt (c.modelConfig.numLayers - 1) (by omega)
      rw [Nat.div_lt_iff_lt_mul hrun] at hlast
      refine ⟨c.modelConfig.numLayers / c.stepAttn, ?_⟩
      have hle := Nat.mul_div_le c.modelConfig.numLayers c.stepAttn
      omega
    · rintro hdvd i hi
      rw [Nat.div_lt_iff_lt_mul hrun, Nat.mul_div_cancel' hdvd]
      exact hi

/-! ### The physical devices -/

/-- The first device of a group, which runs the group's attention. -/
def IsDriver (p : DevicePlacement) (dev : ℕ) : Prop :=
  ∃ g ∈ p.deviceGroups.keys, (p.deviceGroups.lists g).head? = some dev

/-- The driver of a rank of a virtual device. -/
def driver (c : PipelinePlacement) (v rank : ℕ) : ℕ := (v * c.modelConfig.dpSize + rank) * c.tpSize

/-- The host of an expert of a layer. -/
def expertHost (c : PipelinePlacement) (layer e : ℕ) : ℕ :=
  c.numAttnWorkers + layer % c.stepExpert * c.modelConfig.epSize +
    e / c.modelConfig.numExpertsPerRank

theorem mul_add_lt {a b i j : ℕ} (hi : i < a) (hj : j < b) : i * b + j < a * b := by
  have hle : (i + 1) * b ≤ a * b := Nat.mul_le_mul_right b hi
  rw [Nat.add_mul, Nat.one_mul] at hle
  omega

theorem Configured.driver_lt (h : Configured c) {v rank : ℕ} (hv : v < c.stepAttn)
    (hrank : rank < c.modelConfig.dpSize) : c.driver v rank < c.numAttnWorkers := by
  have hlt := mul_add_lt (mul_add_lt hv hrank) h.tpSize
  rw [driver, numAttnWorkers, Nat.mul_right_comm]
  exact hlt

theorem Configured.rank_driver (h : Configured c) {v rank : ℕ} (hrank : rank < c.modelConfig.dpSize) :
    c.driver v rank / c.tpSize % c.modelConfig.dpSize = rank := by
  rw [driver, Nat.mul_div_cancel _ h.tpSize, Nat.mul_comm v, Nat.mul_add_mod, Nat.mod_eq_of_lt hrank]

theorem Configured.offset_lt (h : Configured c) {e : ℕ} (he : e < c.modelConfig.numExperts) :
    e / c.modelConfig.numExpertsPerRank < c.modelConfig.epSize := by
  obtain ⟨k, hk⟩ := h.experts
  have hper : c.modelConfig.numExpertsPerRank = k := by
    rw [ModelConfig.numExpertsPerRank, hk, Nat.mul_div_cancel_left k h.epSize]
  rw [hper]
  exact Nat.div_lt_of_lt_mul (by rw [Nat.mul_comm, ← hk]; exact he)

theorem Configured.expertHost_lt (h : Configured c) (layer : ℕ) {e : ℕ}
    (he : e < c.modelConfig.numExperts) :
    c.expertHost layer e < c.numAttnWorkers + c.stepExpert * c.modelConfig.epSize := by
  have hlt := mul_add_lt (Nat.mod_lt layer h.stepExpert) (h.offset_lt he)
  rw [expertHost]
  omega

theorem Dealt.attn_items {n : ℕ} {v : VirtualPlacement} (h : Dealt c n v) :
    v.attn.items = (List.range c.stepAttn).map fun i => (i, v.attn.lists i) := by
  rw [ListDict.items, h.attn_keys]

theorem Dealt.expert_items {n : ℕ} {v : VirtualPlacement} (h : Dealt c n v) :
    v.expert.items = (List.range c.stepExpert).map fun i => (i, v.expert.lists i) := by
  rw [ListDict.items, h.expert_keys]

/-- Among the devices of a rank, a layer is put once on the driver of its device. -/
theorem Dealt.timesIn_attn {n : ℕ} {v : VirtualPlacement} (h : Dealt c n v) (hc : Configured c)
    {layer dev : ℕ} (hlayer : layer < n) (hdev : c.attnDevOf layer < c.stepAttn)
    (hrank : dev / c.tpSize % c.modelConfig.dpSize < c.modelConfig.dpSize) :
    ListDict.timesIn (c.attnExtensions v) dev layer =
      if c.driver (c.attnDevOf layer) (dev / c.tpSize % c.modelConfig.dpSize) = dev then 1 else 0 := by
  rw [attnExtensions, h.attn_items, List.flatMap_map, ListDict.timesIn_flatMap_range,
    Finset.sum_eq_single (c.attnDevOf layer)]
  · rw [ListDict.timesIn_map_range,
      Finset.sum_eq_single (dev / c.tpSize % c.modelConfig.dpSize)]
    · have hone : (v.attn.lists (c.attnDevOf layer)).count layer = 1 := by
        rw [h.attn, if_pos ⟨hlayer, rfl⟩]
      show (if c.driver (c.attnDevOf layer) _ = dev then _ else 0) = _
      rw [hone]
    · intro j hj hne
      refine if_neg fun heq => hne ?_
      rw [← heq]
      exact (hc.rank_driver (Finset.mem_range.mp hj)).symm
    · exact fun hnot => absurd (Finset.mem_range.mpr hrank) hnot
  · rintro i - hne
    rw [ListDict.timesIn_map_range]
    refine Finset.sum_eq_zero fun j _ => ?_
    have hzero : (v.attn.lists i).count layer = 0 := by
      rw [h.attn, if_neg fun hi => hne hi.2.symm]
    dsimp only
    rw [hzero, ite_self]
  · exact fun hnot => absurd (Finset.mem_range.mpr hdev) hnot

theorem Dealt.timesIn_expert {n : ℕ} {v : VirtualPlacement} (h : Dealt c n v) (hc : Configured c)
    {layer e : ℕ} (hlayer : layer < n) (he : e < c.modelConfig.numExperts) (dev : ℕ) :
    ListDict.timesIn (c.expertExtensions v) dev (layer, e) =
      if c.expertHost layer e = dev then 1 else 0 := by
  have hcount : ∀ (ls : List ℕ) (e' : ℕ), (ls.map fun l => (l, e')).count (layer, e) =
      if e' = e then ls.count layer else 0 := by
    intro ls e'
    split_ifs with heq
    · subst heq
      exact List.count_map_of_injective ls (fun l => (l, e')) (fun a b hab => (Prod.mk.inj hab).1) layer
    · refine List.count_eq_zero_of_not_mem fun hmem => heq ?_
      obtain ⟨l, -, hl⟩ := List.mem_map.mp hmem
      exact (Prod.mk.inj hl).2
  rw [expertExtensions, h.expert_items, List.flatMap_map, ListDict.timesIn_flatMap_range,
    Finset.sum_eq_single (layer % c.stepExpert)]
  · rw [ListDict.timesIn_flatMap_range, Finset.sum_eq_single e]
    · have hone : (v.expert.lists (layer % c.stepExpert)).count layer = 1 := by
        rw [h.expert, if_pos ⟨hlayer, rfl⟩]
      rw [ListDict.timesIn_map_single, hcount, if_pos rfl, hone]
      rfl
    · rintro e' - hne
      rw [ListDict.timesIn_map_single, hcount, if_neg hne, ite_self]
    · exact fun hnot => absurd (Finset.mem_range.mpr he) hnot
  · rintro i - hne
    rw [ListDict.timesIn_flatMap_range]
    refine Finset.sum_eq_zero fun e' _ => ?_
    have hzero : (v.expert.lists i).count layer = 0 := by
      rw [h.expert, if_neg fun hi => hne hi.2.symm]
    rw [ListDict.timesIn_map_single, hcount]
    dsimp only
    rw [hzero, ite_self, ite_self]
  · exact fun hnot => absurd (Finset.mem_range.mpr (Nat.mod_lt layer hc.stepExpert)) hnot

theorem Dealt.attnExtensions_keys {n : ℕ} {v : VirtualPlacement} (h : Dealt c n v)
    (hc : Configured c) : ∀ p ∈ c.attnExtensions v, p.1 ∈ List.range c.numAttnWorkers := by
  intro p hp
  rw [attnExtensions, h.attn_items] at hp
  simp only [List.mem_flatMap, List.mem_map, List.mem_range] at hp
  obtain ⟨_, ⟨i, hi, rfl⟩, j, hj, rfl⟩ := hp
  exact List.mem_range.mpr (hc.driver_lt hi hj)

theorem Dealt.expertExtensions_keys {n : ℕ} {v : VirtualPlacement} (h : Dealt c n v)
    (hc : Configured c) : ∀ p ∈ c.expertExtensions v,
      p.1 ∈ List.range' c.numAttnWorkers (c.stepExpert * c.modelConfig.epSize) := by
  intro p hp
  rw [expertExtensions, h.expert_items] at hp
  simp only [List.mem_flatMap, List.mem_map, List.mem_range] at hp
  obtain ⟨_, ⟨i, hi, rfl⟩, e, he, l, -, rfl⟩ := hp
  have hlt := hc.expertHost_lt i he
  rw [expertHost, Nat.mod_eq_of_lt hi] at hlt
  refine List.mem_range'_1.mpr ⟨?_, hlt⟩
  exact Nat.le_add_right_of_le (Nat.le_add_right _ _)

/-- What a placement of the layers and experts promises. -/
structure Covers (c : PipelinePlacement) (v : VirtualPlacement) (p : DevicePlacement) : Prop where
  virtual_keys : v.attn.keys = List.range c.stepAttn
  /-- A layer stands once on one virtual device. -/
  layer : ∀ layer < c.modelConfig.numLayers, ∃ dev < c.stepAttn, ∀ dev',
    (v.attn.lists dev').count layer = if dev' = dev then 1 else 0
  /-- Among the devices of a rank it stands once, on a driver. -/
  rank : ∀ layer < c.modelConfig.numLayers, ∀ rank < c.modelConfig.dpSize,
    ∃ dev ∈ p.attn.keys, IsDriver p dev ∧ c.updateAttnDpRank p dev = some rank ∧
      ∀ dev' ∈ p.attn.keys, c.updateAttnDpRank p dev' = some rank →
        (p.attn.lists dev').count layer = if dev' = dev then 1 else 0
  /-- An expert of a layer stands once, in the group of the layer and at its offset there. -/
  expert : ∀ layer < c.modelConfig.numLayers, ∀ e < c.modelConfig.numExperts,
    e / c.modelConfig.numExpertsPerRank < c.modelConfig.epSize ∧
      c.expertHost layer e ∈ p.expert.keys ∧
      ∀ dev, (p.expert.lists dev).count (layer, e) = if dev = c.expertHost layer e then 1 else 0
  disjoint : ∀ dev ∈ p.attn.keys, dev ∉ p.expert.keys

theorem updateAttnDpRank_eq {p : DevicePlacement} {dev : ℕ} (hdev : dev ∈ p.attn.keys) :
    c.updateAttnDpRank p dev = some (dev / c.tpSize % c.modelConfig.dpSize) := by
  refine dictOf_eq (fun rank hrank => ?_) (List.mem_map.mpr ⟨dev, hdev, rfl⟩)
  obtain ⟨dev', -, heq⟩ := List.mem_map.mp hrank
  obtain ⟨rfl, rfl⟩ := Prod.mk.inj heq
  rfl

/-- Dealt layers are placed, and the placement covers them. -/
theorem Dealt.solvePhysical_ok {v : VirtualPlacement} (h : Dealt c c.modelConfig.numLayers v)
    (hc : Configured c) (hdev : ∀ i < c.modelConfig.numLayers, c.attnDevOf i < c.stepAttn) :
    ∃ p, c.solvePhysical v = .ok p ∧ Covers c v p := by
  obtain ⟨attn, hattn, hattnKeys, hattnCount⟩ := ListDict.extendAll_ok
    (d := ListDict.ofKeys (List.range c.numAttnWorkers)) (h.attnExtensions_keys hc)
  obtain ⟨expert, hexpert, hexpertKeys, hexpertCount⟩ := ListDict.extendAll_ok
    (d := ListDict.ofKeys (List.range' c.numAttnWorkers (c.stepExpert * c.modelConfig.epSize)))
    (h.expertExtensions_keys hc)
  have hper : ¬ (c.modelConfig.numExperts ≠ 0 ∧ c.modelConfig.numExpertsPerRank = 0) := by
    rintro ⟨hne, hzero⟩
    have hlt := hc.offset_lt (Nat.pos_of_ne_zero hne)
    rw [ModelConfig.numExpertsPerRank, Nat.div_eq_zero_iff] at hzero
    have hle := Nat.le_of_dvd (Nat.pos_of_ne_zero hne) hc.experts
    have := hc.epSize
    omega
  refine ⟨⟨attn, expert, ⟨List.range (c.stepAttn * c.modelConfig.dpSize),
    fun i => List.range' (i * c.tpSize) c.tpSize⟩⟩, ?_, ?_⟩
  · rw [solvePhysical, hattn, hexpert]
    show (if c.modelConfig.numExperts ≠ 0 ∧ c.modelConfig.numExpertsPerRank = 0 then _ else _) = _
    rw [if_neg hper]
    rfl
  · have hmemAttn : ∀ dev, dev ∈ attn.keys ↔ dev < c.numAttnWorkers := fun dev => by
      rw [hattnKeys]
      exact List.mem_range
    refine ⟨h.attn_keys, fun layer hlayer => ?_, fun layer hlayer rank hrank => ?_,
      fun layer hlayer e he => ⟨hc.offset_lt he, ?_, fun dev => ?_⟩, fun dev hattn hexpert => ?_⟩
    · refine ⟨c.attnDevOf layer, hdev layer hlayer, fun dev' => ?_⟩
      rw [h.attn]
      simp [hlayer, eq_comm]
    · have hlt := hc.driver_lt (hdev layer hlayer) hrank
      refine ⟨c.driver (c.attnDevOf layer) rank, (hmemAttn _).mpr hlt, ?_, ?_, ?_⟩
      · refine ⟨c.attnDevOf layer * c.modelConfig.dpSize + rank,
          List.mem_range.mpr (mul_add_lt (hdev layer hlayer) hrank), ?_⟩
        have htp := hc.tpSize
        obtain ⟨tp, htp⟩ : ∃ tp, c.tpSize = tp + 1 := ⟨c.tpSize - 1, by omega⟩
        rw [driver, htp]
        rfl
      · rw [updateAttnDpRank_eq ((hmemAttn _).mpr hlt), hc.rank_driver hrank]
      · intro dev' hdev' hrank'
        rw [updateAttnDpRank_eq hdev', Option.some_inj] at hrank'
        rw [hattnCount, h.timesIn_attn hc hlayer (hdev layer hlayer) (hrank'.trans_lt hrank), hrank']
        simp [ListDict.ofKeys, eq_comm]
    · rw [hexpertKeys]
      exact List.mem_range'_1.mpr
        ⟨Nat.le_add_right_of_le (Nat.le_add_right _ _), hc.expertHost_lt layer he⟩
    · rw [hexpertCount, h.timesIn_expert hc hlayer he]
      simp [ListDict.ofKeys, eq_comm]
    · have hlt := (hmemAttn dev).mp hattn
      rw [hexpertKeys] at hexpert
      have hge := (List.mem_range'_1.mp hexpert).1
      omega

/-- The pipeline is solved and covered. -/
def Solves (c : PipelinePlacement) : Prop :=
  ∃ v p, c.solveVirtual = .ok v ∧ c.solve = .ok p ∧ Covers c v p

/-- A pipeline is solved and covered exactly when layers are dealt in turn or the
virtual attention devices divide them. -/
theorem solves_iff (h : Configured c) :
    Solves c ↔ c.zigzagAttn ∨ c.stepAttn ∣ c.modelConfig.numLayers := by
  rw [← h.attnDevOf_lt_iff]
  constructor
  · rintro ⟨v, -, hv, -⟩
    exact h.attnDevOf_lt hv
  · intro hdev
    obtain ⟨v, hv, hdealt⟩ := h.solveVirtual_ok hdev
    obtain ⟨p, hp, hcovers⟩ := hdealt.solvePhysical_ok h hdev
    refine ⟨v, p, hv, ?_, hcovers⟩
    rw [solve, if_neg (not_lt.mpr h.gpus)]
    show (c.solveVirtual >>= c.solvePhysical) = _
    rw [hv]
    exact hp

/-- Five layers in turn over two virtual devices, two ranks of two devices each, and
six experts over three ranks. -/
def zigzagOfFive : PipelinePlacement where
  modelConfig := { numLayers := 5, numExperts := 6, epSize := 3, dpSize := 2 }
  tpSize := 2
  nNode := 2
  nGpu := 7
  stepAttn := 2
  stepExpert := 2
  zigzagAttn := true

theorem solves_iff_zigzagOfFive : Solves zigzagOfFive :=
  (solves_iff ⟨by decide, by decide, by decide, by decide, by decide, by decide, by decide,
    by decide⟩).mpr (.inl rfl)

/-- The same layers in runs of two: the last one is dealt to a third device. -/
def runsOfFive : PipelinePlacement := { zigzagOfFive with zigzagAttn := false }

theorem runsOfFive_not_solves : Configured runsOfFive ∧ ¬ Solves runsOfFive := by
  refine ⟨⟨by decide, by decide, by decide, by decide, by decide, by decide, by decide,
    by decide⟩, ?_⟩
  rintro ⟨v, -, hv, -⟩
  cases hv

end PipelinePlacement

end StreamInfer.Placement
