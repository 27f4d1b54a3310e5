import StreamInfer.Placement.Tables

/-! From an allocation file to running engines. The file's entries are matched against the
workers and summed for each device, the colocated placement is solved for the counts, and
every device is set up with the rank of the experts it hosts. A device without experts has
no such rank, although both checks before accept a count of zero. -/

namespace StreamInfer.Placement

open General Engine

/-! ### The allocation -/

/-- A value of an entry or of a worker's identity; one that is no integer is given by its
`str`. -/
inductive Field where
  | int (n : ℤ)
  | text (s : String)

def Field.str : Field → String
  | int n => toString n
  | text s => s

abbrev Record := String → Option Field

/-- What the file holds: `none` for entries that are no objects, and for allocations that
are no list. -/
inductive AllocationFile where
  | other
  | object (allocations : Option (List (Option Record)))

def identityKeys : List String := ["host_ip", "ray_node_id", "ray_actor_id", "cuda_device"]

def selectorsOf (entry : Record) : List (String × String) :=
  identityKeys.filterMap fun k => (entry k).map fun v => (k, v.str)

def selected (selectors : List (String × String)) (worker : Record) : Bool :=
  selectors.all fun s => ((worker s.1).elim "" Field.str) == s.2

def numExpertsOf (entry : Record) : Except Fault ℕ :=
  if (entry "num_experts").isNone then .error (.assertion "'num_experts' in entry")
  else if (entry "cuda_device").isNone then .error (.assertion "'cuda_device' in entry")
  else if (entry "host_ip").isNone ∧ (entry "ray_node_id").isNone ∧ (entry "ray_actor_id").isNone then
    .error (.assertion "'host_ip' in entry or 'ray_node_id' in entry or 'ray_actor_id' in entry")
  else
    match entry "num_experts" with
    | some (.int n) =>
      if 0 ≤ n then .ok n.toNat else .error (.assertion "type(num_experts) is int and num_experts >= 0")
    | _ => .error (.assertion "type(num_experts) is int and num_experts >= 0")

def deviceOf (workers : List Record) (entry : Record) : Except Fault ℕ :=
  if selectorsOf entry = [] then .error (.assertion "len(selectors) > 0")
  else
    match workers.filter (selected (selectorsOf entry)) with
    | [worker] =>
      match worker "device_id" with
      | some (.int n) =>
        if 0 ≤ n ∧ n < workers.length then .ok n.toNat
        else .error (.assertion "type(device_id) is int and 0 <= device_id < num_devices")
      | _ => .error (.assertion "type(device_id) is int and 0 <= device_id < num_devices")
    | _ => .error (.assertion "len(matched) == 1")

def allocateEntry (workers : List Record) (counts : List ℕ) : Option Record → Except Fault (List ℕ)
  | none => .error (.assertion "isinstance(entry, dict)")
  | some entry => do
    let numExperts ← numExpertsOf entry
    let deviceId ← deviceOf workers entry
    return counts.modify deviceId (· + numExperts)

/-- The counts; the weights and overrides that the file may also hold are handed on. -/
def resolveExpertAllocation (workers : List Record) (totalNumExperts : ℕ) :
    Option AllocationFile → Except Fault (Option (List ℕ))
  | none => .ok none
  | some .other => .error (.assertion "isinstance(config, dict)")
  | some (.object none) => .error (.assertion "isinstance(allocations, list)")
  | some (.object (some allocations)) => do
    let counts ← allocations.foldlM (allocateEntry workers) (List.replicate workers.length 0)
    if counts.sum ≠ totalNumExperts then
      throw (.assertion "sum(expert_allocation) == total_num_experts")
    return some counts

theorem allocateEntry_length {workers : List Record} {counts counts' : List ℕ} {entry : Option Record}
    (h : allocateEntry workers counts entry = .ok counts') : counts'.length = counts.length := by
  cases entry with
  | none => cases h
  | some entry =>
    obtain ⟨n, -, h⟩ := bind_eq_ok_iff.mp h
    obtain ⟨d, -, h⟩ := bind_eq_ok_iff.mp h
    rw [← Except.ok.inj h]
    exact List.length_modify _ _ _

theorem allocateEntries_length {workers : List Record} {counts counts' : List ℕ}
    {entries : List (Option Record)}
    (h : entries.foldlM (allocateEntry workers) counts = .ok counts') :
    counts'.length = counts.length := by
  induction entries generalizing counts with
  | nil => rw [← Except.ok.inj h]
  | cons entry entries ih =>
    rw [List.foldlM_cons] at h
    obtain ⟨next, hnext, hrest⟩ := bind_eq_ok_iff.mp h
    rw [ih hrest, allocateEntry_length hnext]

/-- An accepted file gives every device a count, and the counts the experts in all. -/
theorem resolveExpertAllocation_ok {workers : List Record} {totalNumExperts : ℕ}
    {file : Option AllocationFile} {counts : List ℕ}
    (h : resolveExpertAllocation workers totalNumExperts file = .ok (some counts)) :
    counts.length = workers.length ∧ counts.sum = totalNumExperts := by
  match file with
  | none => cases h
  | some .other => cases h
  | some (.object none) => cases h
  | some (.object (some allocations)) =>
    obtain ⟨counts', hfold, h⟩ := bind_eq_ok_iff.mp h
    have hlen := allocateEntries_length hfold
    rw [List.length_replicate] at hlen
    by_cases hsum : counts'.sum = totalNumExperts
    · rw [if_neg (not_not_intro hsum)] at h
      obtain rfl := Option.some.inj (Except.ok.inj h)
      exact ⟨hlen, hsum⟩
    · rw [if_pos hsum] at h
      cases h

/-! ### Ranks -/

namespace ModelPlacement

def expertRankAt (p : ModelPlacement) (deviceId : ℕ) : Except Fault ℕ := do
  if p.expert.length ≤ deviceId then throw (.assertion "device_id in self.expert")
  let ranks ← (p.expertIdsAt deviceId).mapM fun x =>
    match p.expertRanks x with
    | some rank => .ok rank
    | none => .error (.outOfRange "self.expert_ranks[(layer_id, expert_id)]")
  if ranks.dedup.length ≠ 1 then throw (.assertion "len(set(ranks)) == 1")
  match ranks with
  | rank :: _ => .ok rank
  | [] => .error (.outOfRange "ranks[0]")

def attnRankAt (p : ModelPlacement) (deviceGroups : ℕ → List ℕ) (deviceId : ℕ) : Except Fault ℕ :=
  if p.attn.length ≤ deviceId then .error (.assertion "device_id in self.attn")
  else .ok (((deviceGroups deviceId).idxOf? deviceId).getD 0)

def rankAt (p : ModelPlacement) (deviceGroups : ℕ → List ℕ) (deviceId : ℕ) : Except Fault ℕ :=
  if deviceId < p.expert.length then p.expertRankAt deviceId else p.attnRankAt deviceGroups deviceId

end ModelPlacement

/-- `TOKENIZER_PORT_BASE`. -/
def tokenizerPortBase : ℕ := 22000

/-- The addresses of the tokenizer's sockets, host and port; a request for a rank is pushed to
the socket of that index. -/
def initTokenizerSockets (localIp : String) (dpSize : ℕ) : List (String × ℕ) :=
  (List.range dpSize).map fun i => (localIp, tokenizerPortBase + i)

/-- The loop of `init_engine` over the devices: the rank and the tokenizer's address that each
engine is set up with. -/
def setupEngines (p : ModelPlacement) (deviceGroups : ℕ → List ℕ) (tokenizerAddrs : List (String × ℕ))
    (deviceIds : List ℕ) : Except Fault (List (ℕ × String × ℕ)) :=
  deviceIds.mapM fun deviceId => do
    let rank ← p.rankAt deviceGroups deviceId
    match tokenizerAddrs[rank]? with
    | some addr => return (rank, addr)
    | none => throw (.outOfRange "self.tokenizer_addrs[rank]")

namespace ColocatePlacement

open ModelPlacement

def deviceGroups (i : ℕ) : List ℕ := [i]

variable {c : ModelConfig} {numDevices : ℕ} {expertAllocation : Option (List ℕ)} {p : ModelPlacement}
  {counts : List ℕ}

/-- A device of an allocation hosts an expert when its count is not zero. -/
theorem exists_hostOf_iff (counts : List ℕ) (d : ℕ) :
    (∃ e < counts.sum, hostOf counts e = d) ↔ 0 < counts.getD d 0 := by
  induction counts generalizing d with
  | nil => simp
  | cons count counts ih =>
    rw [List.sum_cons]
    cases d with
    | zero =>
      rw [List.getD_cons_zero]
      constructor
      · rintro ⟨e, -, he⟩
        by_contra hcount
        rw [hostOf, if_neg (by omega)] at he
        exact Nat.succ_ne_zero _ he
      · intro hcount
        exact ⟨0, by omega, by rw [hostOf, if_pos hcount]⟩
    | succ d =>
      rw [List.getD_cons_succ, ← ih]
      constructor
      · rintro ⟨e, hlt, he⟩
        rw [hostOf] at he
        split_ifs at he with hcount
        exact ⟨e - count, by omega, Nat.succ.inj he⟩
      · rintro ⟨e, hlt, he⟩
        refine ⟨count + e, by omega, ?_⟩
        rw [hostOf, if_neg (by omega), Nat.add_sub_cancel_left, he]

theorem hosts_some_iff (hsum : counts.sum = c.numExperts) (d : ℕ) :
    Hosts c (some counts) d ↔ 0 < counts.getD d 0 := by
  rw [← exists_hostOf_iff, hsum]
  rfl

/-- All experts of a device have its rank. -/
theorem Solved.expertRanks_at (hp : Solved c numDevices expertAllocation p) (d : ℕ) :
    ((p.expertIdsAt d).mapM fun x =>
      match p.expertRanks x with
      | some rank => .ok rank
      | none => .error (.outOfRange "self.expert_ranks[(layer_id, expert_id)]")) =
    Except.ok (ε := Fault) (List.replicate (p.expertIdsAt d).length d) := by
  have hall : ∀ x ∈ p.expertIdsAt d, p.expertRanks x = some d := by
    intro x hx
    obtain ⟨hl, he, hhost⟩ := (hp.mem_expert d x.1 x.2).mp hx
    rw [← hhost]
    exact hp.expertRanks x.1 hl x.2 he
  rw [mapM_eq_ok_iff, ← List.map_const', List.forall₂_map_right_iff]
  exact List.forall₂_same.mpr fun x hx => by rw [hall x hx]

theorem Solved.expertIdsAt_ne_nil_iff (hp : Solved c numDevices expertAllocation p)
    (hlayers : 1 ≤ c.numLayers) (d : ℕ) : p.expertIdsAt d ≠ [] ↔ Hosts c expertAllocation d := by
  constructor
  · intro hne
    obtain ⟨x, hx⟩ := List.exists_mem_of_ne_nil _ hne
    obtain ⟨-, he, hhost⟩ := (hp.mem_expert d x.1 x.2).mp hx
    exact ⟨x.2, he, hhost⟩
  · rintro ⟨e, he, hhost⟩
    exact List.ne_nil_of_mem ((hp.mem_expert d 0 e).mpr ⟨hlayers, he, hhost⟩)

theorem Solved.rankAt_of_hosts (hp : Solved c numDevices expertAllocation p)
    (hlayers : 1 ≤ c.numLayers) {d : ℕ} (hd : d < numDevices) (hhosts : Hosts c expertAllocation d) :
    p.rankAt deviceGroups d = .ok d := by
  have hlt : d < p.expert.length := by
    rw [hp.length]
    exact hd
  obtain ⟨n, hn⟩ := Nat.exists_eq_succ_of_ne_zero
    (mt List.length_eq_zero_iff.mp ((hp.expertIdsAt_ne_nil_iff hlayers d).mpr hhosts))
  have hdedup : (List.replicate (n + 1) d).dedup.length = 1 := by
    rw [List.replicate_dedup (Nat.succ_ne_zero n)]
    rfl
  rw [rankAt, if_pos hlt, expertRankAt, if_neg (Nat.not_le_of_lt hlt), hp.expertRanks_at, hn]
  show (if (List.replicate (n + 1) d).dedup.length ≠ 1 then _ else _) = _
  rw [if_neg (not_not_intro hdedup)]

/-- The lookup asserts on the ranks of a device without experts. -/
theorem Solved.rankAt_of_not_hosts (hp : Solved c numDevices expertAllocation p)
    (hlayers : 1 ≤ c.numLayers) {d : ℕ} (hd : d < numDevices) (hhosts : ¬ Hosts c expertAllocation d) :
    p.rankAt deviceGroups d = .error (.assertion "len(set(ranks)) == 1") := by
  have hlt : d < p.expert.length := by
    rw [hp.length]
    exact hd
  have hnil : p.expertIdsAt d = [] := by
    by_contra hne
    exact hhosts ((hp.expertIdsAt_ne_nil_iff hlayers d).mp hne)
  rw [rankAt, if_pos hlt, expertRankAt, if_neg (Nat.not_le_of_lt hlt), hnil]
  rfl

/-! ### Launching -/

theorem addEdges_zero (p : ModelPlacement) : ∃ e, p.addEdges 0 = .error e := by
  unfold addEdges
  cases devsByLayer 0 p.attn with
  | error e => exact ⟨e, rfl⟩
  | ok attnDevs =>
    cases devsByLayer 0 (p.expert.map fun xs => xs.map Prod.fst) with
    | error e => exact ⟨e, rfl⟩
    | ok expDevs => exact ⟨_, rfl⟩

/-- A placement is solved only for at least one layer, and for at most as many counts as
devices. -/
theorem solve_some_ok (h : solve c numDevices (some counts) = .ok p) :
    1 ≤ c.numLayers ∧ counts.length ≤ numDevices ∧ counts.sum = c.numExperts := by
  unfold solve at h
  by_cases hsum : counts.sum = c.numExperts
  · have hany : (some counts).any (·.sum ≠ c.numExperts) = false := by simp [hsum]
    rw [hany, if_neg Bool.false_ne_true] at h
    obtain ⟨placed, hplace, h⟩ := bind_eq_ok_iff.mp h
    obtain ⟨linked, hlinked, -⟩ := bind_eq_ok_iff.mp h
    refine ⟨Nat.one_le_iff_ne_zero.mpr fun hzero => ?_, Nat.le_of_not_lt fun hlong => ?_, hsum⟩
    · obtain ⟨e, he⟩ := addEdges_zero placed
      rw [hzero, he] at hlinked
      cases hlinked
    · rw [place, placeExperts, if_pos hlong] at hplace
      cases hplace
  · have hany : (some counts).any (·.sum ≠ c.numExperts) = true := by simp [hsum]
    rw [hany, if_pos rfl] at h
    cases h

/-- Every device is set up with its own rank, its rank as an attention replica, and with the
address that its requests are pushed to. -/
structure Launchable (c : ModelConfig) (numDevices : ℕ) (p : ModelPlacement) : Prop where
  rank : ∀ d < numDevices, p.rankAt deviceGroups d = .ok (p.attnDpRankAt d)
  distinct : ∀ d < numDevices, ∀ d' < numDevices,
    p.rankAt deviceGroups d = p.rankAt deviceGroups d' → d = d'
  address : ∀ localIp, setupEngines p deviceGroups (initTokenizerSockets localIp c.dpSize)
    (List.range numDevices) = .ok ((List.range numDevices).map fun d =>
      (p.attnDpRankAt d, localIp, tokenizerPortBase + d))

theorem getElem?_initTokenizerSockets (localIp : String) (dpSize i : ℕ) :
    (initTokenizerSockets localIp dpSize)[i]? =
      if i < dpSize then some (localIp, tokenizerPortBase + i) else none := by
  rw [initTokenizerSockets, List.getElem?_map]
  split_ifs with hi
  · rw [List.getElem?_range hi]
    rfl
  · rw [List.getElem?_eq_none (by rw [List.length_range]; exact Nat.le_of_not_lt hi)]
    rfl

theorem configured_some (hlayers : 1 ≤ c.numLayers) (hdp : c.dpSize = numDevices)
    (hlen : counts.length ≤ numDevices) (hsum : counts.sum = c.numExperts) :
    Configured c numDevices (some counts) where
  layers := hlayers
  dpSize := hdp
  blocks hnone := (Option.some_ne_none _ hnone).elim
  counts _ hcounts := Option.some.inj hcounts ▸ ⟨hlen, hsum⟩

/-- A solved allocation is launched exactly when every device has an expert, and a socket. -/
theorem launchable_of_solve_iff (hsolve : solve c numDevices (some counts) = .ok p) :
    Launchable c numDevices p ↔ (∀ d < numDevices, 0 < counts.getD d 0) ∧ numDevices ≤ c.dpSize := by
  obtain ⟨hlayers, hlen, hsum⟩ := solve_some_ok hsolve
  -- Solving does not read `dpSize`, so the placement is that of a matching one.
  have hconfig : Configured { c with dpSize := numDevices } numDevices (some counts) :=
    configured_some hlayers rfl hlen hsum
  obtain ⟨p', hsolve', hp⟩ := hconfig.solve_ok
  obtain rfl : p' = p := Except.ok.inj (hsolve'.symm.trans hsolve)
  have hhosts : ∀ d, Hosts { c with dpSize := numDevices } (some counts) d ↔ 0 < counts.getD d 0 :=
    hosts_some_iff hsum
  constructor
  · intro hlaunch
    refine ⟨fun d hd => ?_, ?_⟩
    · by_contra hcount
      have hrank := hlaunch.rank d hd
      rw [hp.rankAt_of_not_hosts hlayers hd (mt (hhosts d).mp hcount)] at hrank
      cases hrank
    · by_contra hlt
      have hd : c.dpSize < numDevices := Nat.lt_of_not_le hlt
      obtain ⟨setup, hsetup⟩ := exists_mapM_ok_iff.mp ⟨_, hlaunch.address ""⟩ _ (List.mem_range.mpr hd)
      rw [hlaunch.rank _ hd, hp.attnDpRankAt_eq hd] at hsetup
      simp only [bind, Except.bind, getElem?_initTokenizerSockets, lt_self_iff_false, if_false] at hsetup
      cases hsetup
  · rintro ⟨hcounts, hdp⟩
    have hrank : ∀ d < numDevices, p'.rankAt deviceGroups d = .ok d := fun d hd =>
      hp.rankAt_of_hosts hlayers hd ((hhosts d).mpr (hcounts d hd))
    refine ⟨fun d hd => ?_, fun d hd d' hd' heq => ?_, fun localIp => ?_⟩
    · rw [hrank d hd, hp.attnDpRankAt_eq hd]
    · rw [hrank d hd, hrank d' hd'] at heq
      exact Except.ok.inj heq
    · rw [setupEngines, mapM_eq_ok_iff, List.forall₂_map_right_iff]
      refine List.forall₂_same.mpr fun d hd => ?_
      have hlt : d < numDevices := List.mem_range.mp hd
      rw [hrank d hlt, hp.attnDpRankAt_eq hlt]
      simp only [bind, Except.bind, getElem?_initTokenizerSockets, if_pos (Nat.lt_of_lt_of_le hlt hdp)]
      rfl

/-- The placement accepts what the file's check accepts, and launches it exactly when every
device has an expert, and a socket. -/
theorem launchable_iff (hlayers : 1 ≤ c.numLayers) {workers : List Record} {file : Option AllocationFile}
    (hfile : resolveExpertAllocation workers c.numExperts file = .ok (some counts)) :
    ∃ p, solve c workers.length (some counts) = .ok p ∧ (Launchable c workers.length p ↔
      (∀ d < workers.length, 0 < counts.getD d 0) ∧ workers.length ≤ c.dpSize) := by
  obtain ⟨hlen, hsum⟩ := resolveExpertAllocation_ok hfile
  have hconfig : Configured { c with dpSize := workers.length } workers.length (some counts) :=
    configured_some hlayers rfl (Nat.le_of_eq hlen) hsum
  obtain ⟨p, hsolve, -⟩ := hconfig.solve_ok
  exact ⟨p, hsolve, launchable_of_solve_iff hsolve⟩

/-- Workers on one machine, and entries for them. -/
def workerOn (cuda : ℕ) : Record := fun k =>
  if k = "host_ip" then some (.text "10.0.0.1")
  else if k = "cuda_device" then some (.text (toString cuda))
  else if k = "device_id" then some (.int cuda) else none

def entryFor (cuda n : ℕ) : Record := fun k =>
  if k = "host_ip" then some (.text "10.0.0.1")
  else if k = "cuda_device" then some (.int cuda)
  else if k = "num_experts" then some (.int n) else none

/-- Two devices with three experts and one. -/
theorem launchable_iff_twoDevices : ∃ p, solve ⟨2, 4, 1, 2⟩ 2 (some [3, 1]) = .ok p ∧
    Launchable ⟨2, 4, 1, 2⟩ 2 p := by
  have hfile : resolveExpertAllocation [workerOn 0, workerOn 1] (ModelConfig.numExperts ⟨2, 4, 1, 2⟩)
      (some (.object (some [some (entryFor 1 1), some (entryFor 0 3)]))) = .ok (some [3, 1]) := rfl
  obtain ⟨p, hsolve, hiff⟩ := launchable_iff (c := ⟨2, 4, 1, 2⟩) (by decide) hfile
  refine ⟨p, hsolve, hiff.mpr ⟨fun d hd => ?_, Nat.le_refl 2⟩⟩
  rcases d with _ | _ | d
  · exact Nat.succ_pos 2
  · exact Nat.succ_pos 0
  · exact absurd hd (Nat.not_lt_of_le (Nat.le_add_left 2 d))

/-- A device with a count of zero is accepted and has no rank. -/
theorem empty_device_not_launchable : ∃ p,
    resolveExpertAllocation [workerOn 0, workerOn 1] 4 (some (.object (some [some (entryFor 0 4)]))) =
      .ok (some [4, 0]) ∧
    solve ⟨2, 4, 1, 2⟩ 2 (some [4, 0]) = .ok p ∧
    p.rankAt deviceGroups 1 = .error (.assertion "len(set(ranks)) == 1") ∧
    ¬ Launchable ⟨2, 4, 1, 2⟩ 2 p := by
  have hconfig : Configured ⟨2, 4, 1, 2⟩ 2 (some [4, 0]) :=
    configured_some (by decide) rfl (by decide) rfl
  obtain ⟨p, hsolve, hp⟩ := hconfig.solve_ok
  have hnot : ¬ Hosts ⟨2, 4, 1, 2⟩ (some [4, 0]) 1 :=
    mt (hosts_some_iff rfl 1).mp (Nat.lt_irrefl 0)
  have hrank := hp.rankAt_of_not_hosts (by decide) (by decide) hnot
  refine ⟨p, rfl, hsolve, hrank, fun hlaunch => ?_⟩
  have hok := hlaunch.rank 1 (by decide)
  rw [hrank] at hok
  cases hok

end ColocatePlacement

end StreamInfer.Placement
