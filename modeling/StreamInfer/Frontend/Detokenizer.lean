import StreamInfer.Frontend.Sampler

/-! The detokenizer process, after `tokenizer.py` and `datatypes.py`. A batch of sampled
tokens is read twice: the first pass opens the statistics of a new request or adds the time
of a token, the second closes those of the requests that end. A fetch hands the closed
ones out. Times are in milliseconds and exact; the throughput line is not printed. -/

namespace StreamInfer.Frontend

open General General.Stateful

structure SloStat where
  reqId : ℤ
  tPrefill : ℚ
  tPrefillStd : ℚ
  tDecode : ℚ
  tTokens : List ℚ
  /-- Kept for selecting a window of time. -/
  tTokenTimestamps : Option (List ℚ) := none
  deriving DecidableEq

structure SamplerStepInfo where
  numTokens : ℕ
  timeStamp : ℤ
  deriving DecidableEq, Repr

/-- Milliseconds become seconds, and times of tokens become the gaps between them. -/
def SloStat.postProcess (stat : SloStat) : SloStat :=
  let msToS : ℚ := 1 / 1000
  { stat with
    tDecode := (stat.tDecode - stat.tPrefill) * msToS
    tPrefill := stat.tPrefill * msToS
    tPrefillStd := stat.tPrefillStd * msToS
    tTokenTimestamps := some (stat.tTokens.map (· * msToS))
    tTokens := List.zipWith (fun x y => (x - y) * msToS) stat.tTokens.tail stat.tTokens.dropLast }

/-- The finished requests are a set; their order here is that of their ends. -/
structure Detokenizer where
  finishedSeqs : List ℤ
  activeNumRequests : ℤ
  sloStats : AList fun _ : ℤ => SloStat
  stepInfos : List SamplerStepInfo
  tokenProcessed : ℕ
  itlBuffer : List ℚ
  lastLogMs : ℤ
  deriving DecidableEq

namespace Detokenizer

abbrev DetokenizerM := EStateM Fault Detokenizer

def new (nowMs : ℤ) : Detokenizer where
  finishedSeqs := []
  activeNumRequests := 0
  sloStats := ∅
  stepInfos := []
  tokenProcessed := 0
  itlBuffer := []
  lastLogMs := nowMs

def logThroughput (numTokens : ℕ) (curTimeMs : ℤ) (s : Detokenizer) : Detokenizer :=
  if 10000 ≤ curTimeMs - s.lastLogMs then
    { s with itlBuffer := [], tokenProcessed := 0, lastLogMs := curTimeMs }
  else { s with tokenProcessed := s.tokenProcessed + numTokens }

/-- The pass of the first loop over one token. -/
def observe (curTimeMs : ℤ) (s : Detokenizer) (rid : ℤ) : Detokenizer :=
  match s.sloStats.lookup rid with
  | some stat =>
    { s with
      itlBuffer := s.itlBuffer ++ (stat.tTokens.getLast?.map ((curTimeMs : ℚ) - ·)).toList
      sloStats := s.sloStats.insert rid { stat with tTokens := stat.tTokens ++ [(curTimeMs : ℚ)] } }
  | none =>
    { s with
      activeNumRequests := s.activeNumRequests + 1
      sloStats := s.sloStats.insert rid ⟨rid, curTimeMs, curTimeMs, 0, [], none⟩ }

/-- The pass of the second loop over the last token of a request. -/
def finish (curTimeMs : ℤ) (rid : ℤ) : DetokenizerM Unit := do
  modify fun s => { s with activeNumRequests := s.activeNumRequests - 1 }
  let s ← get
  ensure (rid ∈ s.sloStats) "rid in slo_stats"
  let stat ← valueOf "slo_stats[rid]" (s.sloStats.lookup rid)
  set { s with
    sloStats := s.sloStats.insert rid { stat with tDecode := (curTimeMs : ℚ) }.postProcess
    finishedSeqs := s.finishedSeqs.insert rid }

def processBatch (curTimeMs : ℤ) (batch : BatchDecodeResult) : DetokenizerM ℕ := do
  let numTokens := batch.reqIds.length
  modify (logThroughput numTokens curTimeMs)
  modify fun s => batch.reqIds.foldl (observe curTimeMs) s
  modify fun s => { s with stepInfos := s.stepInfos ++ [⟨numTokens, curTimeMs⟩] }
  forM (List.range numTokens) fun i => do
    let rid ← readAt "req_ids[i]" batch.reqIds i
    let eos ← readAt "is_eos[i]" batch.isEos i
    if eos then finish curTimeMs rid
  return numTokens

def takeResult (reqId : ℤ) : DetokenizerM SloStat := do
  let s ← get
  let stat ← valueOf "slo_stats[req_id]" (s.sloStats.lookup reqId)
  set { s with sloStats := s.sloStats.erase reqId }
  return stat

/-- `order` is the order in which the set of finished requests is read. -/
def fetchFinishedResults (order : List ℤ) : DetokenizerM (List SloStat) := do
  let res ← order.mapM takeResult
  modify fun s => { s with finishedSeqs := [] }
  return res

def fetchSamplerStepInfos : DetokenizerM (List SamplerStepInfo) := do
  let s ← get
  set { s with stepInfos := [] }
  return s.stepInfos

/-! ### A batch -/

/-- The statistics of a request after one more token. -/
def observed (curTimeMs rid : ℤ) : Option SloStat → SloStat
  | some stat => { stat with tTokens := stat.tTokens ++ [(curTimeMs : ℚ)] }
  | none => ⟨rid, curTimeMs, curTimeMs, 0, [], none⟩

/-- The statistics of a request after its last token. -/
def closed (curTimeMs : ℤ) (stat : SloStat) : SloStat := { stat with tDecode := (curTimeMs : ℚ) }.postProcess

/-- What a batch with the last tokens `eos` does. -/
structure Processed (s s' : Detokenizer) (curTimeMs : ℤ) (reqIds : List ℤ) (eos : ℤ → Bool) : Prop where
  sloStats : ∀ r, s'.sloStats.lookup r =
    if r ∈ reqIds then
      some (if eos r then closed curTimeMs (observed curTimeMs r (s.sloStats.lookup r))
        else observed curTimeMs r (s.sloStats.lookup r))
    else s.sloStats.lookup r
  finishedSeqs : ∀ r, s'.finishedSeqs.count r =
    s.finishedSeqs.count r + if r ∈ reqIds ∧ eos r then 1 else 0
  active : s'.activeNumRequests = s.activeNumRequests +
    (reqIds.map fun r => (if (s.sloStats.lookup r).isNone then 1 else 0) - if eos r then 1 else 0).sum
  stepInfos : s'.stepInfos = s.stepInfos ++ [⟨reqIds.length, curTimeMs⟩]

variable {s : Detokenizer} {curTimeMs : ℤ} {reqIds : List ℤ} {eos : ℤ → Bool}

theorem observe_sloStats (r r' : ℤ) : (observe curTimeMs s r).sloStats.lookup r' =
    if r' = r then some (observed curTimeMs r (s.sloStats.lookup r)) else s.sloStats.lookup r' := by
  by_cases hr : r' = r
  · subst hr
    cases h : s.sloStats.lookup r' <;> simp [observe, observed, h]
  · cases h : s.sloStats.lookup r <;> simp [observe, h, hr, AList.lookup_insert_ne]

theorem observe_rest (s : Detokenizer) (curTimeMs r : ℤ) : (observe curTimeMs s r).finishedSeqs = s.finishedSeqs ∧
    (observe curTimeMs s r).stepInfos = s.stepInfos ∧
    (observe curTimeMs s r).activeNumRequests =
      s.activeNumRequests + if (s.sloStats.lookup r).isNone then 1 else 0 := by
  cases h : s.sloStats.lookup r <;> simp [observe, h]

theorem observe_all (s : Detokenizer) (curTimeMs : ℤ) (hnodup : reqIds.Nodup) :
    (∀ r, (reqIds.foldl (observe curTimeMs) s).sloStats.lookup r =
      if r ∈ reqIds then some (observed curTimeMs r (s.sloStats.lookup r)) else s.sloStats.lookup r) ∧
    (reqIds.foldl (observe curTimeMs) s).finishedSeqs = s.finishedSeqs ∧
    (reqIds.foldl (observe curTimeMs) s).stepInfos = s.stepInfos ∧
    (reqIds.foldl (observe curTimeMs) s).activeNumRequests = s.activeNumRequests +
      (reqIds.map fun r => if (s.sloStats.lookup r).isNone then (1 : ℤ) else 0).sum := by
  induction reqIds generalizing s with
  | nil => simp
  | cons r reqIds ih =>
    obtain ⟨hr, hnodup⟩ := List.nodup_cons.mp hnodup
    have hne : ∀ r' ∈ reqIds, r' ≠ r := fun r' hr' heq => hr (heq ▸ hr')
    obtain ⟨hslo, hfin, hinfos, hactive⟩ := ih (observe curTimeMs s r) hnodup
    obtain ⟨hfin₁, hinfos₁, hactive₁⟩ := observe_rest s curTimeMs r
    refine ⟨fun r' => ?_, hfin.trans hfin₁, hinfos.trans hinfos₁, ?_⟩
    · rw [List.foldl_cons, hslo, observe_sloStats]
      by_cases hr' : r' = r
      · subst hr'
        simp [hr]
      · simp [hr']
    · have hsame : (reqIds.map fun r' =>
          if ((observe curTimeMs s r).sloStats.lookup r').isNone then (1 : ℤ) else 0) =
          reqIds.map fun r' => if (s.sloStats.lookup r').isNone then (1 : ℤ) else 0 :=
        List.map_congr_left fun r' hr' => by rw [observe_sloStats, if_neg (hne r' hr')]
      rw [List.foldl_cons, hactive, hactive₁, hsame, List.map_cons, List.sum_cons, add_assoc]

theorem finish_ok {r : ℤ} {stat : SloStat} (hstat : s.sloStats.lookup r = some stat) :
    finish curTimeMs r s = .ok ⟨⟩ { s with
      activeNumRequests := s.activeNumRequests - 1
      sloStats := s.sloStats.insert r (closed curTimeMs stat)
      finishedSeqs := s.finishedSeqs.insert r } := by
  have hmem : r ∈ s.sloStats := AList.lookup_isSome.mp (by rw [hstat]; rfl)
  have hmod : (modify fun s : Detokenizer => { s with activeNumRequests := s.activeNumRequests - 1 } :
      DetokenizerM PUnit) s = .ok ⟨⟩ { s with activeNumRequests := s.activeNumRequests - 1 } := rfl
  rw [finish, bind_of_ok hmod, get_bind, ensure_bind hmem, hstat]
  rfl

/-- The second loop closes the known requests that end. -/
theorem finish_all (curTimeMs : ℤ) (eos : ℤ → Bool) (hnodup : reqIds.Nodup) (hknown : ∀ r ∈ reqIds, (s.sloStats.lookup r).isSome)
    (hopen : ∀ r ∈ reqIds, r ∉ s.finishedSeqs) :
    ∃ s', (forM reqIds fun r => if eos r then finish curTimeMs r else pure ⟨⟩ : DetokenizerM Unit) s =
        .ok ⟨⟩ s' ∧
      (∀ r, s'.sloStats.lookup r = if r ∈ reqIds ∧ eos r then (s.sloStats.lookup r).map (closed curTimeMs)
        else s.sloStats.lookup r) ∧
      (∀ r, s'.finishedSeqs.count r = s.finishedSeqs.count r + if r ∈ reqIds ∧ eos r then 1 else 0) ∧
      s'.activeNumRequests = s.activeNumRequests - (reqIds.map fun r => if eos r then (1 : ℤ) else 0).sum ∧
      s'.stepInfos = s.stepInfos := by
  induction reqIds generalizing s with
  | nil => exact ⟨s, rfl, by simp, by simp, by simp, rfl⟩
  | cons r reqIds ih =>
    obtain ⟨hr, hnodup⟩ := List.nodup_cons.mp hnodup
    have hne : ∀ r' ∈ reqIds, r' ≠ r := fun r' hr' heq => hr (heq ▸ hr')
    cases hend : eos r with
    | false =>
      obtain ⟨s', hs', hslo, hfin, hactive, hinfos⟩ := ih hnodup
        (fun r' hr' => hknown r' (by simp [hr'])) fun r' hr' => hopen r' (by simp [hr'])
      refine ⟨s', ?_, fun r' => ?_, fun r' => ?_, ?_, hinfos⟩
      · rw [List.forM_cons, hend]
        exact hs'
      · rw [hslo]
        by_cases hr' : r' = r
        · subst hr'
          simp [hr, hend]
        · simp [hr']
      · rw [hfin]
        by_cases hr' : r' = r
        · subst hr'
          simp [hr, hend]
        · simp [hr']
      · simp [hactive, hend]
    | true =>
      obtain ⟨stat, hstat⟩ := Option.isSome_iff_exists.mp (hknown r (by simp))
      have hopen₀ : r ∉ s.finishedSeqs := hopen r (by simp)
      let t : Detokenizer := { s with
        activeNumRequests := s.activeNumRequests - 1
        sloStats := s.sloStats.insert r (closed curTimeMs stat)
        finishedSeqs := s.finishedSeqs.insert r }
      have hlook : ∀ r', t.sloStats.lookup r' =
          if r' = r then some (closed curTimeMs stat) else s.sloStats.lookup r' := by
        intro r'
        by_cases hr' : r' = r
        · subst hr'
          simp [t]
        · simp [t, hr', AList.lookup_insert_ne]
      obtain ⟨s', hs', hslo, hfin, hactive, hinfos⟩ := ih (s := t) hnodup
        (fun r' hr' => by rw [hlook, if_neg (hne r' hr')]; exact hknown r' (by simp [hr']))
        fun r' hr' => by simpa [t, hne r' hr'] using hopen r' (by simp [hr'])
      refine ⟨s', ?_, fun r' => ?_, fun r' => ?_, ?_, hinfos⟩
      · rw [List.forM_cons, hend, if_pos rfl, bind_of_ok (finish_ok hstat)]
        exact hs'
      · rw [hslo, hlook]
        by_cases hr' : r' = r
        · subst hr'
          simp [hr, hend, hstat]
        · simp [hr']
      · rw [hfin]
        change (s.finishedSeqs.insert r).count r' + _ = _
        rw [List.insert_of_not_mem hopen₀]
        by_cases hr' : r' = r
        · subst hr'
          simp [hr, hend]
        · simp [hr', Ne.symm hr']
      · rw [hactive, List.map_cons, List.sum_cons, hend, if_pos rfl]
        change s.activeNumRequests - 1 - _ = _
        omega

theorem logThroughput_rest (s : Detokenizer) (n : ℕ) (curTimeMs : ℤ) : (logThroughput n curTimeMs s).finishedSeqs = s.finishedSeqs ∧
    (logThroughput n curTimeMs s).sloStats = s.sloStats ∧
    (logThroughput n curTimeMs s).stepInfos = s.stepInfos ∧
    (logThroughput n curTimeMs s).activeNumRequests = s.activeNumRequests := by
  unfold logThroughput
  split_ifs <;> exact ⟨rfl, rfl, rfl, rfl⟩

theorem sum_map_sub {α : Type} (f g : α → ℤ) (l : List α) :
    (l.map fun a => f a - g a).sum = (l.map f).sum - (l.map g).sum := by
  induction l with
  | nil => rfl
  | cons a l ih =>
    rw [List.map_cons, List.map_cons, List.map_cons, List.sum_cons, List.sum_cons, List.sum_cons, ih]
    omega

/-- A batch of distinct requests none of which has finished is processed. -/
theorem processBatch_ok {batch : BatchDecodeResult} (hnodup : batch.reqIds.Nodup)
    (heos : batch.isEos = batch.reqIds.map eos) (hopen : ∀ r ∈ batch.reqIds, r ∉ s.finishedSeqs) :
    ∃ s', processBatch curTimeMs batch s = .ok batch.reqIds.length s' ∧
      Processed s s' curTimeMs batch.reqIds eos := by
  obtain ⟨hfin₀, hslo₀, hinfos₀, hactive₀⟩ :=
    logThroughput_rest s batch.reqIds.length curTimeMs
  let t := logThroughput batch.reqIds.length curTimeMs s
  obtain ⟨hslo₁, hfin₁, hinfos₁, hactive₁⟩ := observe_all t curTimeMs hnodup
  let u : Detokenizer := { batch.reqIds.foldl (observe curTimeMs) t with
    stepInfos := (batch.reqIds.foldl (observe curTimeMs) t).stepInfos ++
      [⟨batch.reqIds.length, curTimeMs⟩] }
  have hknown : ∀ r ∈ batch.reqIds, (u.sloStats.lookup r).isSome := by
    intro r hr
    change ((batch.reqIds.foldl (observe curTimeMs) t).sloStats.lookup r).isSome
    rw [hslo₁, if_pos hr]
    rfl
  have hopen₁ : ∀ r ∈ batch.reqIds, r ∉ u.finishedSeqs := by
    intro r hr
    change r ∉ (batch.reqIds.foldl (observe curTimeMs) t).finishedSeqs
    rw [hfin₁, hfin₀]
    exact hopen r hr
  obtain ⟨s', hs', hslo₂, hfin₂, hactive₂, hinfos₂⟩ :=
    finish_all curTimeMs eos hnodup hknown hopen₁
  have hloop : (forM (List.range batch.reqIds.length) fun i => do
      let rid ← readAt "req_ids[i]" batch.reqIds i
      let eos ← readAt "is_eos[i]" batch.isEos i
      if eos then finish curTimeMs rid : DetokenizerM Unit) =
      forM batch.reqIds fun r => if eos r then finish curTimeMs r else pure ⟨⟩ := by
    refine forM_range fun i hi => ?_
    have hi' : i < batch.isEos.length := by rw [heos, List.length_map]; exact hi
    rw [readAt_eq hi, readAt_eq hi', pure_bind, pure_bind]
    simp only [heos, List.getElem_map]
  have hrun : processBatch curTimeMs batch s = .ok batch.reqIds.length s' := by
    rw [processBatch, hloop]
    change ((forM batch.reqIds _ : DetokenizerM Unit) >>= _) u = _
    rw [bind_of_ok hs']
    rfl
  refine ⟨s', hrun, fun r => ?_, fun r => ?_, ?_, ?_⟩
  · rw [hslo₂]
    change (if _ then ((batch.reqIds.foldl (observe curTimeMs) t).sloStats.lookup r).map _
      else (batch.reqIds.foldl (observe curTimeMs) t).sloStats.lookup r) = _
    rw [hslo₁, hslo₀]
    by_cases hr : r ∈ batch.reqIds
    · cases hend : eos r <;> simp [hr]
    · simp [hr]
  · rw [hfin₂]
    change (batch.reqIds.foldl (observe curTimeMs) t).finishedSeqs.count r + _ = _
    rw [hfin₁, hfin₀]
  · rw [hactive₂]
    change (batch.reqIds.foldl (observe curTimeMs) t).activeNumRequests - _ = _
    rw [hactive₁, hactive₀, hslo₀, sum_map_sub]
    omega
  · rw [hinfos₂]
    change (batch.reqIds.foldl (observe curTimeMs) t).stepInfos ++ _ = _
    rw [hinfos₁, hinfos₀]

/-! ### Fetching -/

theorem takeResults_ok {order : List ℤ} (hnodup : order.Nodup)
    (hknown : ∀ r ∈ order, (s.sloStats.lookup r).isSome) :
    ∃ res s', (order.mapM takeResult) s = .ok res s' ∧
      order.map s.sloStats.lookup = res.map some ∧
      (∀ r, s'.sloStats.lookup r = if r ∈ order then none else s.sloStats.lookup r) ∧
      s'.activeNumRequests = s.activeNumRequests ∧ s'.stepInfos = s.stepInfos := by
  induction order generalizing s with
  | nil => exact ⟨[], s, rfl, rfl, by simp, rfl, rfl⟩
  | cons r order ih =>
    obtain ⟨hr, hnodup⟩ := List.nodup_cons.mp hnodup
    have hne : ∀ r' ∈ order, r' ≠ r := fun r' hr' heq => hr (heq ▸ hr')
    obtain ⟨stat, hstat⟩ := Option.isSome_iff_exists.mp (hknown r (by simp))
    let t : Detokenizer := { s with sloStats := s.sloStats.erase r }
    have ht : takeResult r s = .ok stat t := by
      rw [takeResult, get_bind, hstat]
      rfl
    have hlook : ∀ r', r' ≠ r → t.sloStats.lookup r' = s.sloStats.lookup r' :=
      fun r' hr' => AList.lookup_erase_ne hr'
    obtain ⟨res, s', hs', hres, hslo, hactive, hinfos⟩ := ih (s := t) hnodup
      fun r' hr' => by rw [hlook r' (hne r' hr')]; exact hknown r' (by simp [hr'])
    refine ⟨stat :: res, s', ?_, ?_, fun r' => ?_, hactive, hinfos⟩
    · rw [List.mapM_cons, bind_of_ok ht, bind_of_ok hs']
      rfl
    · rw [List.map_cons, List.map_cons, hstat, ← hres]
      exact congrArg _ (List.map_congr_left fun r' hr' => (hlook r' (hne r' hr')).symm)
    · rw [hslo]
      by_cases hr' : r' = r
      · subst hr'
        simp [hr, t]
      · simp [hr', hlook r' hr']

/-- A fetch hands out the statistics of the finished requests and forgets them. -/
theorem fetchFinishedResults_ok {order : List ℤ} (hnodup : order.Nodup)
    (hknown : ∀ r ∈ order, (s.sloStats.lookup r).isSome) :
    ∃ res s', fetchFinishedResults order s = .ok res s' ∧
      order.map s.sloStats.lookup = res.map some ∧ s'.finishedSeqs = [] ∧
      (∀ r, s'.sloStats.lookup r = if r ∈ order then none else s.sloStats.lookup r) ∧
      s'.activeNumRequests = s.activeNumRequests ∧ s'.stepInfos = s.stepInfos := by
  obtain ⟨res, t, ht, hres, hslo, hactive, hinfos⟩ := takeResults_ok hnodup hknown
  refine ⟨res, { t with finishedSeqs := [] }, ?_, hres, rfl, hslo, hactive, hinfos⟩
  rw [fetchFinishedResults, bind_of_ok ht]
  rfl

end Detokenizer

end StreamInfer.Frontend
