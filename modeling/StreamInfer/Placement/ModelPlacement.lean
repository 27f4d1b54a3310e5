import StreamInfer.Fault
import StreamInfer.General.Buckets

/-! Where the layers and experts of a model live, and the links between devices. Devices
are numbered from zero, so the dictionaries over all devices are lists; a link that
is added twice is listed once, at both of its ends. -/

namespace StreamInfer.Placement

open General

structure ModelConfig where
  numLayers : ℕ
  numExperts : ℕ
  epSize : ℕ
  dpSize : ℕ

def ModelConfig.numExpertsPerRank (c : ModelConfig) : ℕ := c.numExperts / c.epSize

structure ModelPlacement where
  /-- Layers of each device. -/
  attn : List (List ℕ)
  /-- Layer and expert id of each expert of each device. -/
  expert : List (List (ℕ × ℕ))
  /-- Empty for a device without links. -/
  inDeviceIds : ℕ → List ℕ
  outDeviceIds : ℕ → List ℕ
  expertRanks : ℕ × ℕ → Option ℕ
  attnDpRanks : ℕ → Option ℕ
  localExpertCounts : List ℕ

namespace ModelPlacement

def expertIdsAt (p : ModelPlacement) (deviceId : ℕ) : List (ℕ × ℕ) := p.expert.getD deviceId []

def attnLayerIdsAt (p : ModelPlacement) (deviceId : ℕ) : List ℕ := p.attn.getD deviceId []

def attnDpRankAt (p : ModelPlacement) (deviceId : ℕ) : ℕ := (p.attnDpRanks deviceId).getD 0

def addEdge (p : ModelPlacement) (src dst : ℕ) : ModelPlacement :=
  if src ∈ p.inDeviceIds dst then p
  else
    { p with
      inDeviceIds := Function.update p.inDeviceIds dst (p.inDeviceIds dst ++ [src])
      outDeviceIds := Function.update p.outDeviceIds src (p.outDeviceIds src ++ [dst]) }

/-- `attn_devs` and `exp_devs`: the devices of each layer, once for each entry. -/
def devsByLayer (numLayers : ℕ) (layersOf : List (List ℕ)) : Except Fault (List (List ℕ)) :=
  match fillBuckets (List.replicate numLayers [])
      (layersOf.zipIdx.flatMap fun x => x.1.map fun layer => (layer, x.2)) with
  | some devs => .ok devs
  | none => .error (.outOfRange "devs[layer_id]")

/-- The links in the order they are added. -/
def edges (numLayers : ℕ) (attnDevs expDevs : List (List ℕ)) : List (ℕ × ℕ) :=
  let inner := (List.range numLayers).flatMap fun layer =>
    (if 0 < layer then (attnDevs.getD layer []).flatMap fun dev =>
      (expDevs.getD (layer - 1) []).map fun prevDev => (prevDev, dev) else []) ++
    (attnDevs.getD layer []).flatMap fun dev => (expDevs.getD layer []).map fun expDev => (dev, expDev)
  inner ++ (attnDevs.getD 0 []).flatMap fun dev =>
    (expDevs.getD (numLayers - 1) []).map fun prevDev => (prevDev, dev)

/-- `_add_edges`, for at least one layer. -/
def addEdges (numLayers : ℕ) (p : ModelPlacement) : Except Fault ModelPlacement := do
  let attnDevs ← devsByLayer numLayers p.attn
  let expDevs ← devsByLayer numLayers (p.expert.map fun xs => xs.map Prod.fst)
  if numLayers = 0 then throw (.outOfRange "attn_devs[0]")
  return (edges numLayers attnDevs expDevs).foldl (fun p e => p.addEdge e.1 e.2) p

/-! ### Links -/

/-- The links are listed at both ends, once each. -/
structure Linked (p : ModelPlacement) (es : List (ℕ × ℕ)) : Prop where
  mem_out : ∀ a b, b ∈ p.outDeviceIds a ↔ (a, b) ∈ es
  mem_in : ∀ a b, a ∈ p.inDeviceIds b ↔ (a, b) ∈ es
  nodup_out : ∀ a, (p.outDeviceIds a).Nodup
  nodup_in : ∀ b, (p.inDeviceIds b).Nodup

variable {p : ModelPlacement} {es : List (ℕ × ℕ)}

theorem nodup_update {f : ℕ → List ℕ} {k x : ℕ} (h : ∀ a, (f a).Nodup) (hx : x ∉ f k) (a : ℕ) :
    (Function.update f k (f k ++ [x]) a).Nodup := by
  by_cases ha : a = k
  · subst ha
    rw [Function.update_self, List.nodup_append]
    refine ⟨h a, List.nodup_singleton x, fun y hy z hz hyz => hx ?_⟩
    rw [List.mem_singleton.mp hz] at hyz
    exact hyz ▸ hy
  · rw [Function.update_of_ne ha]
    exact h a

theorem Linked.addEdge (h : Linked p es) (src dst : ℕ) :
    Linked (p.addEdge src dst) (es ++ [(src, dst)]) := by
  unfold ModelPlacement.addEdge
  split_ifs with hold
  · have hmem : (src, dst) ∈ es := (h.mem_in src dst).mp hold
    have hsame : ∀ e, e ∈ es ++ [(src, dst)] ↔ e ∈ es := fun e => by
      rw [List.mem_append, List.mem_singleton]
      exact ⟨fun he => he.elim id fun heq => heq ▸ hmem, .inl⟩
    exact ⟨fun a b => (h.mem_out a b).trans (hsame _).symm,
      fun a b => (h.mem_in a b).trans (hsame _).symm, h.nodup_out, h.nodup_in⟩
  · have hnew : (src, dst) ∉ es := fun hmem => hold ((h.mem_in src dst).mpr hmem)
    refine ⟨fun a b => ?_, fun a b => ?_, fun a => ?_, fun b => ?_⟩
    · rw [List.mem_append, List.mem_singleton, Prod.mk.injEq]
      by_cases ha : a = src
      · subst ha
        simp [h.mem_out]
      · simp [h.mem_out, ha]
    · rw [List.mem_append, List.mem_singleton, Prod.mk.injEq]
      by_cases hb : b = dst
      · subst hb
        simp [h.mem_in]
      · simp [h.mem_in, hb]
    · exact nodup_update h.nodup_out (fun hmem => hnew ((h.mem_out src dst).mp hmem)) a
    · exact nodup_update h.nodup_in hold b

theorem foldl_addEdge (h : Linked p es) (new : List (ℕ × ℕ)) :
    Linked (new.foldl (fun p e => p.addEdge e.1 e.2) p) (es ++ new) := by
  induction new generalizing p es with
  | nil => rwa [List.append_nil]
  | cons e new ih =>
    have hnext := ih (h.addEdge e.1 e.2)
    rwa [List.append_assoc, List.singleton_append] at hnext

/-- Adding links leaves the rest of the placement as it is. -/
theorem foldl_addEdge_rest (new : List (ℕ × ℕ)) :
    (new.foldl (fun p e => p.addEdge e.1 e.2) p).attn = p.attn ∧
      (new.foldl (fun p e => p.addEdge e.1 e.2) p).expert = p.expert := by
  induction new generalizing p with
  | nil => exact ⟨rfl, rfl⟩
  | cons e new ih =>
    obtain ⟨hattn, hexpert⟩ := ih (p := p.addEdge e.1 e.2)
    rw [List.foldl_cons, hattn, hexpert, ModelPlacement.addEdge]
    split_ifs <;> exact ⟨rfl, rfl⟩

theorem linked_nil (hin : ∀ d, p.inDeviceIds d = []) (hout : ∀ d, p.outDeviceIds d = []) :
    Linked p [] where
  mem_out a b := by simp [hout]
  mem_in a b := by simp [hin]
  nodup_out a := by simp [hout]
  nodup_in b := by simp [hin]

/-- The devices of a layer are those that have it. -/
theorem devsByLayer_ok {numLayers : ℕ} {layersOf : List (List ℕ)}
    (h : ∀ xs ∈ layersOf, ∀ l ∈ xs, l < numLayers) :
    ∃ devs, devsByLayer numLayers layersOf = .ok devs ∧
      ∀ l d, d ∈ devs.getD l [] ↔ l ∈ layersOf.getD d [] := by
  have hmem : ∀ l d, (l, d) ∈ (layersOf.zipIdx.flatMap fun x => x.1.map fun layer => (layer, x.2)) ↔
      l ∈ layersOf.getD d [] := by
    intro l d
    simp only [List.mem_flatMap, List.mem_map, Prod.mk.injEq, Prod.exists, List.mem_zipIdx_iff_getElem?]
    rw [List.getD_eq_getElem?_getD]
    constructor
    · rintro ⟨xs, d', hget, l', hl, rfl, rfl⟩
      rw [hget]
      exact hl
    · intro hl
      cases hget : layersOf[d]? with
      | none => simp [hget] at hl
      | some xs => exact ⟨xs, d, hget, l, by simpa [hget] using hl, rfl, rfl⟩
  have hlt : ∀ p ∈ layersOf.zipIdx.flatMap fun x => x.1.map fun layer => (layer, x.2),
      p.1 < numLayers := by
    rintro ⟨l, d⟩ hp
    rw [hmem, List.getD_eq_getElem?_getD] at hp
    cases hget : layersOf[d]? with
    | none => simp [hget] at hp
    | some xs => exact h xs (List.mem_of_getElem? hget) l (by simpa [hget] using hp)
  obtain ⟨devs, hok, -, hall⟩ := fillBuckets_replicate hlt
  refine ⟨devs, by rw [devsByLayer, hok], fun l d => ?_⟩
  rw [hall, mem_entriesOf, hmem]

/-- With one set of attention devices and one of expert devices for all layers, each
attention device is linked with each expert device, both ways. -/
theorem mem_edges {numLayers : ℕ} {attnDevs expDevs : List (List ℕ)} {A H : ℕ → Prop}
    (hL : 0 < numLayers) (hA : ∀ l < numLayers, ∀ d, d ∈ attnDevs.getD l [] ↔ A d)
    (hH : ∀ l < numLayers, ∀ d, d ∈ expDevs.getD l [] ↔ H d) (a b : ℕ) :
    (a, b) ∈ edges numLayers attnDevs expDevs ↔ (A a ∧ H b) ∨ (H a ∧ A b) := by
  have hlast : ∀ d, d ∈ expDevs.getD (numLayers - 1) [] ↔ H d := hH _ (by omega)
  simp only [edges, List.mem_append, List.mem_flatMap, List.mem_range, List.mem_map, Prod.mk.injEq]
  constructor
  · rintro (⟨l, hl, h⟩ | ⟨dev, hdev, prev, hprev, rfl, rfl⟩)
    · rcases h with h | ⟨dev, hdev, exp, hexp, rfl, rfl⟩
      · split_ifs at h with hpos
        · simp only [List.mem_flatMap, List.mem_map, Prod.mk.injEq] at h
          obtain ⟨dev, hdev, prev, hprev, rfl, rfl⟩ := h
          exact .inr ⟨(hH _ (by omega) _).mp hprev, (hA l hl _).mp hdev⟩
        · cases h
      · exact .inl ⟨(hA l hl _).mp hdev, (hH l hl _).mp hexp⟩
    · exact .inr ⟨(hlast _).mp hprev, (hA 0 hL _).mp hdev⟩
  · rintro (⟨ha, hb⟩ | ⟨ha, hb⟩)
    · exact .inl ⟨0, hL, .inr ⟨a, (hA 0 hL a).mpr ha, b, (hH 0 hL b).mpr hb, rfl, rfl⟩⟩
    · exact .inr ⟨b, (hA 0 hL b).mpr hb, a, (hlast a).mpr ha, rfl, rfl⟩

end ModelPlacement

end StreamInfer.Placement
