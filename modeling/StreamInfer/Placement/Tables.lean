import StreamInfer.Engine.Dispatcher
import StreamInfer.Engine.ExpertsExecutor
import StreamInfer.Placement.Colocate

/-! The tables that devices build from a placement: the dispatcher's ranks and channels,
and the executor's local expert ids. A dispatcher forgets the layer of a rank, which is
harmless because an expert has one host for all layers. -/

namespace StreamInfer.Engine

open General

/-- The part of the parallel configuration that dispatchers read. -/
structure ParallelConfig where
  ep : ℕ
  dp : ℕ
  nExpPerRank : ℕ
  nTotalExperts : ℕ
  /-- Layer, expert id and rank. -/
  expertRanks : List (ℕ × ℕ × ℕ)

structure ChannelInfo where
  expertIds : List (ℕ × ℕ)
  attnLayerIds : List ℕ
  attnDpRank : ℕ

/-- `table[k] = v`, entry by entry. -/
def writeTable (access : String) (table : List ℤ) (ps : List (ℕ × ℤ)) : Except Fault (List ℤ) :=
  match writeAll table ps with
  | some table' => .ok table'
  | none => .error (.outOfRange access)

/-- The constructor; channels are given by their peers. -/
def UnifiedDispatcher.new (cfg : ParallelConfig) (channels : List ℕ)
    (channelInfos : List ChannelInfo) : Except Fault UnifiedDispatcher := do
  let numExperts := if 0 < cfg.nTotalExperts then cfg.nTotalExperts else cfg.ep * cfg.nExpPerRank
  let expertToRank ← writeTable "expert_to_rank[exp_id]" (List.replicate numExperts (-1))
    (cfg.expertRanks.map fun t => (t.2.1, (t.2.2 : ℤ)))
  let dpRanks ← (List.range channels.length).mapM fun i =>
    match channelInfos[i]? with
    | some info => .ok (info.attnDpRank, (i : ℤ))
    | none => .error (.outOfRange "channel_infos[i]")
  let rankToChannel ← writeTable "rank_to_channel[dp_rank]" (List.replicate cfg.dp (-1)) dpRanks
  return ⟨expertToRank, rankToChannel⟩

namespace ExpertsExecutor

theorem assignLocalIds_total {table : List ℤ} (localIdx : ℕ) {ids : List ℕ}
    (h : ∀ id ∈ ids, id < table.length) : ∃ table', assignLocalIds table localIdx ids = .ok table' := by
  induction ids generalizing table localIdx with
  | nil => exact ⟨table, rfl⟩
  | cons id ids ih =>
    obtain ⟨hid, hids⟩ := List.forall_mem_cons.mp h
    rw [assignLocalIds, if_pos hid]
    exact ih (localIdx + 1) (by simpa using hids)

/-- Distinct listed experts have local ids. -/
theorem build_ok (expertCls : ExpertClass) {numExperts : ℕ} (numExpertsPerRank rankInGroup : ℕ)
    {ids : List ℕ} (hne : ids ≠ []) (hnodup : ids.Nodup) (hlt : ∀ id ∈ ids, id < numExperts) :
    ∃ ex, build expertCls numExperts numExpertsPerRank rankInGroup ids = .ok ex ∧
      ∀ id ∈ ids, ∃ localIdx : ℕ, ex.globalToLocalExpertRank[id]? = some (localIdx : ℤ) := by
  have hlt' : ∀ id ∈ ids, id < (List.replicate numExperts (-1 : ℤ)).length := by simpa using hlt
  obtain ⟨table, htable⟩ := assignLocalIds_total 0 hlt'
  obtain ⟨-, -, hget, -⟩ := assignLocalIds_ok hnodup htable
  refine ⟨⟨expertCls, numExperts, ids, table⟩, ?_, fun id hid => ?_⟩
  · simp only [build, if_pos hne, htable, bind, Except.bind, pure, Except.pure]
  · obtain ⟨k, hk, rfl⟩ := List.getElem_of_mem hid
    exact ⟨_, hget k hk⟩

end ExpertsExecutor

end StreamInfer.Engine

namespace StreamInfer.Placement

open General Engine

namespace ModelPlacement

/-- The experts behind the links of a device, with their ranks. -/
def outExpertRanksAt (p : ModelPlacement) (deviceId : ℕ) : Except Fault (List (ℕ × ℕ × ℕ)) :=
  ((p.outDeviceIds deviceId).flatMap p.expertIdsAt).mapM fun x =>
    match p.expertRanks x with
    | some rank => .ok (x.1, x.2, rank)
    | none => .error (.outOfRange "self.expert_ranks[(layer_id, expert_id)]")

/-- `sorted(set(...))` of the expert ids. -/
def uniqueExpertIdsAt (p : ModelPlacement) (deviceId : ℕ) : List ℕ :=
  ((p.expertIdsAt deviceId).map Prod.snd).dedup.mergeSort

def channelInfosAt (p : ModelPlacement) (deviceId : ℕ) : List ChannelInfo :=
  (p.outDeviceIds deviceId).map fun out =>
    ⟨p.expertIdsAt out, p.attnLayerIdsAt out, p.attnDpRankAt out⟩

def localNumExpertsAt (p : ModelPlacement) (deviceId : ℕ) : ℕ :=
  (p.localExpertCounts[deviceId]?).getD (p.uniqueExpertIdsAt deviceId).length

/-- The dispatcher that a device builds. -/
def dispatcherAt (c : ModelConfig) (p : ModelPlacement) (deviceId : ℕ) :
    Except Fault UnifiedDispatcher := do
  let expertRanks ← p.outExpertRanksAt deviceId
  let nExpPerRank := if 0 < p.localNumExpertsAt deviceId then p.localNumExpertsAt deviceId
    else c.numExpertsPerRank
  UnifiedDispatcher.new ⟨c.epSize, c.dpSize, nExpPerRank, c.numExperts, expertRanks⟩
    (p.outDeviceIds deviceId) (p.channelInfosAt deviceId)

/-- The expert executor that a device builds. -/
def executorAt (c : ModelConfig) (p : ModelPlacement) (deviceId : ℕ) (expertCls : ExpertClass)
    (rankInGroup : ℕ) : Except Fault ExpertsExecutor :=
  ExpertsExecutor.build expertCls c.numExperts c.numExpertsPerRank rankInGroup
    (p.uniqueExpertIdsAt deviceId)

theorem mem_uniqueExpertIdsAt {p : ModelPlacement} {deviceId e : ℕ} :
    e ∈ p.uniqueExpertIdsAt deviceId ↔ ∃ layer, (layer, e) ∈ p.expertIdsAt deviceId := by
  rw [uniqueExpertIdsAt, List.mem_mergeSort, List.mem_dedup, List.mem_map]
  exact ⟨fun ⟨x, hx, he⟩ => ⟨x.1, he ▸ hx⟩, fun ⟨layer, hx⟩ => ⟨(layer, e), hx, rfl⟩⟩

theorem nodup_uniqueExpertIdsAt (p : ModelPlacement) (deviceId : ℕ) :
    (p.uniqueExpertIdsAt deviceId).Nodup :=
  (List.mergeSort_perm _ _).nodup_iff.mpr (List.nodup_dedup _)

end ModelPlacement

/-! ### Agreement -/

namespace ColocatePlacement

open ModelPlacement

variable {c : ModelConfig} {numDevices : ℕ} {expertAllocation : Option (List ℕ)} {p : ModelPlacement}

theorem Configured.lt_of_mem_out (h : Configured c numDevices expertAllocation)
    (hp : Solved c numDevices expertAllocation p) {a b : ℕ} (hb : b ∈ p.outDeviceIds a) :
    b < numDevices := by
  rcases (hp.mem_out a b).mp hb with ⟨-, e, he, rfl⟩ | ⟨-, hb⟩
  · exact h.hostIn_lt he
  · exact hb

theorem Solved.outExpertRanksAt_ok (hp : Solved c numDevices expertAllocation p) (d : ℕ) :
    p.outExpertRanksAt d = .ok (((p.outDeviceIds d).flatMap p.expertIdsAt).map fun x =>
      (x.1, x.2, hostIn c expertAllocation x.2)) := by
  rw [outExpertRanksAt, mapM_eq_ok_iff, List.forall₂_map_right_iff]
  refine List.forall₂_same.mpr fun x hx => ?_
  obtain ⟨out, -, hmem⟩ := List.mem_flatMap.mp hx
  obtain ⟨hl, he, -⟩ := (hp.mem_expert out x.1 x.2).mp hmem
  rw [hp.expertRanks x.1 hl x.2 he]

theorem Solved.attnDpRankAt_eq (hp : Solved c numDevices expertAllocation p) {d : ℕ}
    (hd : d < numDevices) : p.attnDpRankAt d = d := by
  rw [attnDpRankAt, hp.attnDpRanks d hd]
  rfl

/-- The dispatcher's tables: experts to their hosts, devices to their channels. -/
theorem Configured.dispatcherAt_ok (h : Configured c numDevices expertAllocation)
    (hp : Solved c numDevices expertAllocation p) (d : ℕ) :
    ∃ disp, dispatcherAt c p d = .ok disp ∧
      (∀ e < c.numExperts, hostIn c expertAllocation e ∈ p.outDeviceIds d →
        disp.expertToRank[e]? = some (hostIn c expertAllocation e : ℤ)) ∧
      ∀ (i b : ℕ), (p.outDeviceIds d)[i]? = some b → disp.rankToChannel[b]? = some (i : ℤ) := by
  let ranks : List (ℕ × ℤ) := ((p.outDeviceIds d).flatMap p.expertIdsAt).map fun x =>
    (x.2, (hostIn c expertAllocation x.2 : ℤ))
  let channels : List (ℕ × ℤ) := (p.outDeviceIds d).mapIdx fun i b => (b, (i : ℤ))
  have hranks : ∀ e r, (e, r) ∈ ranks → e < c.numExperts ∧ r = (hostIn c expertAllocation e : ℤ) := by
    intro e r hmem
    obtain ⟨x, hx, heq⟩ := List.mem_map.mp hmem
    obtain ⟨rfl, rfl⟩ := Prod.mk.inj heq
    obtain ⟨out, -, hx⟩ := List.mem_flatMap.mp hx
    exact ⟨((hp.mem_expert out x.1 x.2).mp hx).2.1, rfl⟩
  have hchannels : ∀ b k, (b, k) ∈ channels ↔ ∃ i : ℕ, (p.outDeviceIds d)[i]? = some b ∧ k = (i : ℤ) := by
    intro b k
    rw [List.mem_mapIdx]
    constructor
    · rintro ⟨i, hi, heq⟩
      obtain ⟨rfl, rfl⟩ := Prod.mk.inj heq
      exact ⟨i, List.getElem?_eq_getElem hi, rfl⟩
    · rintro ⟨i, hi, rfl⟩
      obtain ⟨hlt, hget⟩ := List.getElem?_eq_some_iff.mp hi
      exact ⟨i, hlt, by rw [hget]⟩
  have hranksLt : ∀ x ∈ ranks, x.1 < (List.replicate
      (if 0 < c.numExperts then c.numExperts else c.epSize *
        (if 0 < p.localNumExpertsAt d then p.localNumExpertsAt d else c.numExpertsPerRank))
      (-1 : ℤ)).length := by
    rintro ⟨e, r⟩ hmem
    have he := (hranks e r hmem).1
    rw [List.length_replicate, if_pos (Nat.zero_lt_of_lt he)]
    exact he
  have hchannelsLt : ∀ x ∈ channels, x.1 < (List.replicate c.dpSize (-1 : ℤ)).length := by
    rintro ⟨b, k⟩ hmem
    obtain ⟨i, hi, -⟩ := (hchannels b k).mp hmem
    rw [List.length_replicate, h.dpSize]
    exact h.lt_of_mem_out hp (List.mem_of_getElem? hi)
  obtain ⟨toRank, hok, -, hall⟩ := writeAll_ok hranksLt
  obtain ⟨toChannel, hok', -, hall'⟩ := writeAll_ok hchannelsLt
  have hinfos : ((List.range (p.outDeviceIds d).length).mapM fun i =>
      match (p.channelInfosAt d)[i]? with
      | some info => .ok (info.attnDpRank, (i : ℤ))
      | none => .error (.outOfRange "channel_infos[i]")) = Except.ok (ε := Fault) channels := by
    have hlen : (p.outDeviceIds d).length = channels.length := List.length_mapIdx.symm
    rw [hlen]
    refine mapM_range_ok fun i hi => ?_
    have hi' : i < (p.outDeviceIds d).length := hlen ▸ hi
    have hlt := h.lt_of_mem_out hp (List.getElem_mem hi')
    simp only [channelInfosAt, List.getElem?_map, List.getElem?_eq_getElem hi', Option.map_some,
      hp.attnDpRankAt_eq hlt, channels, List.getElem_mapIdx]
  refine ⟨⟨toRank, toChannel⟩, ?_, fun e he hout => ?_, fun i b hi => ?_⟩
  · have hmap : (((p.outDeviceIds d).flatMap p.expertIdsAt).map fun x =>
        (x.1, x.2, hostIn c expertAllocation x.2)).map (fun t => (t.2.1, (t.2.2 : ℤ))) = ranks := by
      rw [List.map_map]
      rfl
    simp only [dispatcherAt, hp.outExpertRanksAt_ok, UnifiedDispatcher.new, writeTable, hmap, hok, hok',
      hinfos, bind, Except.bind, pure, Except.pure]
  · refine hall e _ (fun r hr => (hranks e r hr).2) (.inr ?_)
    refine List.mem_map.mpr ⟨(0, e), List.mem_flatMap.mpr ⟨_, hout, ?_⟩, rfl⟩
    exact (hp.mem_expert _ 0 e).mpr ⟨h.layers, he, rfl⟩
  · refine hall' b _ (fun k hk => ?_) (.inr ((hchannels b i).mpr ⟨i, hi, rfl⟩))
    obtain ⟨j, hj, rfl⟩ := (hchannels b k).mp hk
    have hlt := (List.getElem?_eq_some_iff.mp hj).1
    rw [(List.getElem?_inj hlt (hp.nodup_out d)).mp (hj.trans hi.symm)]

/-- A listed device is reached through its channel. -/
theorem exists_channel {disp : UnifiedDispatcher} {d b : ℕ}
    (hchannels : ∀ (i b : ℕ), (p.outDeviceIds d)[i]? = some b → disp.rankToChannel[b]? = some (i : ℤ))
    (hb : b ∈ p.outDeviceIds d) : ∃ channel : ℕ, disp.rankToChannel[b]? = some (channel : ℤ) ∧
      (p.outDeviceIds d)[channel]? = some b := by
  obtain ⟨i, hi⟩ := List.mem_iff_getElem?.mp hb
  exact ⟨i, hchannels i b hi, hi⟩

/-- A host has a local id for each of its experts. -/
theorem Solved.executorAt_ok (hp : Solved c numDevices expertAllocation p) {host layer e : ℕ}
    (hmem : (layer, e) ∈ p.expertIdsAt host) (expertCls : ExpertClass) (rankInGroup : ℕ) :
    ∃ (ex : ExpertsExecutor) (localIdx : ℕ), executorAt c p host expertCls rankInGroup = .ok ex ∧
      ex.globalToLocalExpertRank[e]? = some (localIdx : ℤ) := by
  have hin : e ∈ p.uniqueExpertIdsAt host := mem_uniqueExpertIdsAt.mpr ⟨layer, hmem⟩
  have hlt : ∀ id ∈ p.uniqueExpertIdsAt host, id < c.numExperts := by
    intro id hid
    obtain ⟨l, hl⟩ := mem_uniqueExpertIdsAt.mp hid
    exact ((hp.mem_expert host l id).mp hl).2.1
  obtain ⟨ex, hok, hall⟩ := ExpertsExecutor.build_ok expertCls c.numExpertsPerRank rankInGroup
    (List.ne_nil_of_mem hin) (nodup_uniqueExpertIdsAt p host) hlt
  obtain ⟨localIdx, hlocal⟩ := hall e hin
  exact ⟨ex, localIdx, hok, hlocal⟩

/-- The placement puts every expert of every layer on one device, links are listed at both
ends, and on every device the tables lead each expert to its host, where it has a
local id, and on a host each rank to its device. -/
theorem tables_agree (h : Configured c numDevices expertAllocation) :
    ∃ p, solve c numDevices expertAllocation = .ok p ∧
      (∀ layer < c.numLayers, ∀ e < c.numExperts, ∃! d, (layer, e) ∈ p.expertIdsAt d) ∧
      (∀ d, (p.expertIdsAt d).Nodup ∧ (p.inDeviceIds d).Nodup ∧ (p.outDeviceIds d).Nodup) ∧
      (∀ a b, a ∈ p.inDeviceIds b ↔ b ∈ p.outDeviceIds a) ∧
      ∀ d < numDevices, ∃ disp, dispatcherAt c p d = .ok disp ∧
        (∀ layer < c.numLayers, ∀ e < c.numExperts, ∃ channel host : ℕ,
          disp.expertGetChannelId e = .ok channel ∧ (p.outDeviceIds d)[channel]? = some host ∧
          (layer, e) ∈ p.expertIdsAt host ∧ ∀ expertCls rankInGroup,
            ∃ (ex : ExpertsExecutor) (localIdx : ℕ),
              executorAt c p host expertCls rankInGroup = .ok ex ∧
              ex.globalToLocalExpertRank[e]? = some (localIdx : ℤ)) ∧
        (p.expertIdsAt d ≠ [] → ∀ dpRank < c.dpSize, ∃ channel dev : ℕ,
          disp.attnGetChannelId dpRank = .ok channel ∧ (p.outDeviceIds d)[channel]? = some dev ∧
          p.attnDpRankAt dev = dpRank) := by
  obtain ⟨p, hok, hp⟩ := h.solve_ok
  refine ⟨p, hok, fun layer hl e he => ⟨hostIn c expertAllocation e, ?_, ?_⟩,
    fun d => ⟨hp.nodup_expert d, hp.nodup_in d, hp.nodup_out d⟩, hp.mem_in, fun d hd => ?_⟩
  · exact (hp.mem_expert _ layer e).mpr ⟨hl, he, rfl⟩
  · exact fun d' hd' => ((hp.mem_expert d' layer e).mp hd').2.2.symm
  obtain ⟨disp, hdisp, hranks, hchannels⟩ := h.dispatcherAt_ok hp d
  refine ⟨disp, hdisp, fun layer hl e he => ?_, fun hne dpRank hr => ?_⟩
  · have hout : hostIn c expertAllocation e ∈ p.outDeviceIds d :=
      (hp.mem_out _ _).mpr (.inl ⟨hd, e, he, rfl⟩)
    obtain ⟨channel, htable, hchannel⟩ := exists_channel hchannels hout
    have hmem := (hp.mem_expert _ layer e).mpr ⟨hl, he, rfl⟩
    refine ⟨channel, _, ?_, hchannel, hmem, fun expertCls rankInGroup =>
      hp.executorAt_ok hmem expertCls rankInGroup⟩
    have hpos : ¬ ((hostIn c expertAllocation e : ℤ) < 0) := not_lt.mpr (Int.natCast_nonneg _)
    rw [UnifiedDispatcher.expertGetChannelId, hranks e he hout]
    simp only [if_neg hpos, Int.toNat_natCast, htable]
  · obtain ⟨⟨layer, e⟩, hmem⟩ := List.exists_mem_of_ne_nil _ hne
    obtain ⟨-, he, hhost⟩ := (hp.mem_expert d layer e).mp hmem
    have hlt : dpRank < numDevices := h.dpSize ▸ hr
    have hout : dpRank ∈ p.outDeviceIds d := (hp.mem_out _ _).mpr (.inr ⟨⟨e, he, hhost⟩, hlt⟩)
    obtain ⟨channel, htable, hchannel⟩ := exists_channel hchannels hout
    refine ⟨channel, dpRank, ?_, hchannel, hp.attnDpRankAt_eq hlt⟩
    rw [UnifiedDispatcher.attnGetChannelId, htable]

/-- Four experts of two layers over three devices, none on the second. The first device
reaches the host of expert 3, where it has a local id, and the device of rank 2. -/
theorem tables_agree_unevenBlocks : ∃ p, solve ⟨2, 4, 1, 3⟩ 3 (some [3, 0, 1]) = .ok p ∧
    (∀ layer < 2, ∀ e < 4, ∃! d, (layer, e) ∈ p.expertIdsAt d) ∧
    ∃ disp, dispatcherAt ⟨2, 4, 1, 3⟩ p 0 = .ok disp ∧
      (∃ channel host : ℕ, disp.expertGetChannelId 3 = .ok channel ∧
        (p.outDeviceIds 0)[channel]? = some host ∧ (1, 3) ∈ p.expertIdsAt host ∧
        ∃ (ex : ExpertsExecutor) (localIdx : ℕ),
          executorAt ⟨2, 4, 1, 3⟩ p host .cutlass 0 = .ok ex ∧
          ex.globalToLocalExpertRank[3]? = some (localIdx : ℤ)) ∧
      ∃ channel dev : ℕ, disp.attnGetChannelId 2 = .ok channel ∧
        (p.outDeviceIds 0)[channel]? = some dev ∧ p.attnDpRankAt dev = 2 := by
  have h : Configured ⟨2, 4, 1, 3⟩ 3 (some [3, 0, 1]) := by
    refine ⟨by decide, rfl, fun hnone => ?_, fun counts hcounts => ?_⟩
    · cases hnone
    · obtain rfl := Option.some.inj hcounts
      exact ⟨by decide, rfl⟩
  obtain ⟨p, hok, hplaced, -, -, htables⟩ := tables_agree h
  obtain ⟨disp, hdisp, hexperts, hranks⟩ := htables 0 (by decide)
  obtain ⟨channel, host, hchannel, hout, hmem, hlocal⟩ := hexperts 1 (by decide) 3 (by decide)
  have hfirst : (0, 0) ∈ p.expertIdsAt 0 := by
    obtain ⟨p', hok', hp⟩ := h.solve_ok
    obtain rfl : p' = p := Except.ok.inj (hok'.symm.trans hok)
    exact (hp.mem_expert 0 0 0).mpr ⟨by decide, by decide, by decide⟩
  exact ⟨p, hok, hplaced, disp, hdisp, ⟨channel, host, hchannel, hout, hmem, hlocal .cutlass 0⟩,
    hranks (List.ne_nil_of_mem hfirst) 2 (by decide)⟩

end ColocatePlacement

end StreamInfer.Placement
