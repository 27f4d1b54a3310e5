import StreamInfer.General.Reach
import StreamInfer.Frontend.Detokenizer

/-! Runs of the samplers of several engines and the detokenizer they report to, with
batches in order from each engine and fetches at any time. Every request is sampled until
it has its tokens, released once, and reported once, after its last token was
processed. -/

namespace StreamInfer.Frontend

open General General.Stateful Batch DummySampler Detokenizer

/-- The engine and the output length of every request. -/
structure Requests (ε : Type) where
  owner : ℤ → ε
  maxOutputLen : ℤ → ℤ

def Requests.numTokens {ε : Type} (q : Requests ε) (r : ℤ) : ℕ := (max 1 (q.maxOutputLen r)).toNat

variable {ε : Type} {q : Requests ε}

namespace Requests

theorem numTokens_pos (q : Requests ε) (r : ℤ) : 0 < q.numTokens r := by
  unfold numTokens
  omega

/-- The test of the sampler is that the request now has its tokens. -/
theorem ends_eq {len : ℤ → ℤ} {r : ℤ} {n : ℕ} (hlen : len r = n) (hn : n < q.numTokens r) :
    DummySampler.Ends len q.maxOutputLen r = decide (n + 1 = q.numTokens r) := by
  unfold numTokens at hn ⊢
  rw [DummySampler.Ends, decide_eq_decide]
  omega

end Requests

theorem count_of_nodup {l : List ℤ} (h : l.Nodup) (r : ℤ) : l.count r = if r ∈ l then 1 else 0 := by
  split_ifs with hr
  · exact List.count_eq_one_of_mem h hr
  · exact List.count_eq_zero_of_not_mem hr

/-! ### Batches in a socket -/

/-- The tokens of a request in a socket. -/
def pending (socket : List BatchDecodeResult) (r : ℤ) : ℕ := (socket.flatMap (·.reqIds)).count r

/-- Each batch of a socket holds distinct requests, and marks those whose last token it holds,
counted from the tokens that came before. -/
def Numbered (q : Requests ε) : (ℤ → ℕ) → List BatchDecodeResult → Prop
  | _, [] => True
  | before, msg :: rest => msg.reqIds.Nodup ∧
      msg.isEos = msg.reqIds.map (fun r => decide (before r + 1 = q.numTokens r)) ∧
      Numbered q (fun r => before r + msg.reqIds.count r) rest

theorem pending_append (l : List BatchDecodeResult) (msg : BatchDecodeResult) (r : ℤ) :
    pending (l ++ [msg]) r = pending l r + msg.reqIds.count r := by
  simp [pending]

theorem pending_cons (msg : BatchDecodeResult) (l : List BatchDecodeResult) (r : ℤ) :
    pending (msg :: l) r = msg.reqIds.count r + pending l r := by
  simp [pending]

theorem Numbered.congr {before before' : ℤ → ℕ} {l : List BatchDecodeResult}
    (h : ∀ msg ∈ l, ∀ r ∈ msg.reqIds, before r = before' r) (hl : Numbered q before l) :
    Numbered q before' l := by
  induction l generalizing before before' with
  | nil => trivial
  | cons msg l ih =>
    obtain ⟨hnodup, heos, hrest⟩ := hl
    refine ⟨hnodup, ?_, ih (fun m hm r hr => ?_) hrest⟩
    · rw [heos]
      exact List.map_congr_left fun r hr => by rw [h msg (by simp) r hr]
    · rw [h m (by simp [hm]) r hr]

theorem Numbered.append {before : ℤ → ℕ} {l : List BatchDecodeResult} {msg : BatchDecodeResult}
    (hl : Numbered q before l) (hnodup : msg.reqIds.Nodup)
    (heos : msg.isEos = msg.reqIds.map fun r => decide (before r + pending l r + 1 = q.numTokens r)) :
    Numbered q before (l ++ [msg]) := by
  induction l generalizing before with
  | nil => exact ⟨hnodup, by simpa [pending] using heos, trivial⟩
  | cons m l ih =>
    obtain ⟨hm, hmeos, hrest⟩ := hl
    refine ⟨hm, hmeos, ih hrest ?_⟩
    rw [heos]
    exact List.map_congr_left fun r _ => by rw [pending_cons, ← add_assoc (before r)]

/-! ### Runs -/

/-- The processes and the sockets between them, with what was done so far: requests by the
tokens sampled and processed, blocks released, and what fetches returned. -/
structure Completion (ε : Type) where
  samplers : ε → DummySampler
  sockets : ε → List BatchDecodeResult
  detokenizer : Detokenizer
  created : Finset ℤ
  sampled : List ℤ
  released : List ℤ
  processed : List ℤ
  reported : List SloStat
  fetchedInfos : List SamplerStepInfo

namespace Completion

def start (nowMs : ℤ) : Completion ε where
  samplers _ := .new
  sockets _ := []
  detokenizer := .new nowMs
  created := ∅
  sampled := []
  released := []
  processed := []
  reported := []
  fetchedInfos := []

/-- A batch of unfinished requests of an engine, each at most once, with a row for each. -/
structure Given {W R : Type} (q : Requests ε) (s : Completion ε) (e : ε)
    (batch : AttentionScheduleBatch W R) : Prop where
  nodup : batch.reqIds.Nodup
  rows : batch.data.length = batch.reqIds.length
  unfinished : ∀ r ∈ batch.reqIds, q.owner r = e ∧ r ∈ s.created ∧ r ∉ s.released

variable [DecidableEq ε]

inductive Step (q : Requests ε) : Completion ε → Completion ε → Prop
  | create {s : Completion ε} {r : ℤ} (h : r ∉ s.created) :
      Step q s { s with
        samplers := Function.update s.samplers (q.owner r)
          ((s.samplers (q.owner r)).createRequest r (q.maxOutputLen r))
        created := insert r s.created }
  | sample {W R : Type} [Zero W] {s : Completion ε} {e : ε} {attnDpRank : ℕ}
      {batch : AttentionScheduleBatch W R} {b : TokenBatch W R} {finishReqIds : List ℤ}
      {msg : BatchDecodeResult} {sampler : DummySampler} (hgiven : Given q s e batch)
      (h : sampleResults attnDpRank batch (s.samplers e) = .ok (b, finishReqIds, msg) sampler) :
      Step q s { s with
        samplers := Function.update s.samplers e sampler
        sockets := Function.update s.sockets e (s.sockets e ++ [msg])
        sampled := s.sampled ++ batch.reqIds
        released := s.released ++ finishReqIds }
  | process {s : Completion ε} {e : ε} {curTimeMs : ℤ} {msg : BatchDecodeResult}
      {rest : List BatchDecodeResult} {n : ℕ} {d : Detokenizer} (hsocket : s.sockets e = msg :: rest)
      (h : processBatch curTimeMs msg s.detokenizer = .ok n d) :
      Step q s { s with
        sockets := Function.update s.sockets e rest
        detokenizer := d
        processed := s.processed ++ msg.reqIds }
  | fetchFinished {s : Completion ε} {order : List ℤ} {res : List SloStat} {d : Detokenizer}
      (horder : order.Perm s.detokenizer.finishedSeqs)
      (h : fetchFinishedResults order s.detokenizer = .ok res d) :
      Step q s { s with
        detokenizer := d
        reported := s.reported ++ res }
  | fetchInfos {s : Completion ε} {infos : List SamplerStepInfo} {d : Detokenizer}
      (h : fetchSamplerStepInfos s.detokenizer = .ok infos d) :
      Step q s { s with
        detokenizer := d
        fetchedInfos := s.fetchedInfos ++ infos }

def Run (q : Requests ε) : Completion ε → Prop := Reach (fun s => ∃ nowMs, s = start nowMs) (Step q)

/-! ### The invariant -/

/-- A time for each token after the first. -/
def Stamped (q : Requests ε) (stat : SloStat) : Prop :=
  ∃ times, stat.tTokenTimestamps = some times ∧ times.length + 1 = q.numTokens stat.reqId

/-- The request is in the maps of its sampler. -/
def Unsampled (q : Requests ε) (s : Completion ε) (e : ε) (r : ℤ) : Prop :=
  q.owner r = e ∧ r ∈ s.created ∧ s.sampled.count r < q.numTokens r

instance (q : Requests ε) (s : Completion ε) (e : ε) (r : ℤ) : Decidable (Unsampled q s e r) :=
  inferInstanceAs (Decidable (_ ∧ _ ∧ _))

/-- The samplers and the sockets. -/
structure Sampling (q : Requests ε) (s : Completion ε) : Prop where
  fresh : ∀ r, r ∉ s.created → s.sampled.count r = 0
  within : ∀ r, s.sampled.count r ≤ q.numTokens r
  outputLen : ∀ e r, (s.samplers e).outputLen.lookup r =
    if Unsampled q s e r then some (s.sampled.count r : ℤ) else none
  maxOutputLen : ∀ e r, (s.samplers e).reqMaxOutputLen.lookup r =
    if Unsampled q s e r then some (q.maxOutputLen r) else none
  released : ∀ r, s.released.count r = if s.sampled.count r = q.numTokens r then 1 else 0
  owned : ∀ e, ∀ msg ∈ s.sockets e, ∀ r ∈ msg.reqIds, q.owner r = e
  inFlight : ∀ r, s.processed.count r + pending (s.sockets (q.owner r)) r = s.sampled.count r
  numbered : ∀ e, Numbered q (s.processed.count ·) (s.sockets e)

/-- The detokenizer. -/
structure Tracking (q : Requests ε) (s : Completion ε) : Prop where
  known : ∀ r, (s.detokenizer.sloStats.lookup r).isSome ↔
    0 < s.processed.count r ∧ r ∉ s.reported.map (·.reqId)
  ended : ∀ r, (s.reported.map (·.reqId)).count r + s.detokenizer.finishedSeqs.count r =
    if s.processed.count r = q.numTokens r then 1 else 0
  named : ∀ r stat, s.detokenizer.sloStats.lookup r = some stat → stat.reqId = r
  timed : ∀ r stat, s.detokenizer.sloStats.lookup r = some stat →
    s.processed.count r < q.numTokens r → stat.tTokens.length + 1 = s.processed.count r
  stamped : ∀ r stat, s.detokenizer.sloStats.lookup r = some stat →
    s.processed.count r = q.numTokens r → Stamped q stat
  reported : ∀ stat ∈ s.reported, Stamped q stat
  active : s.detokenizer.activeNumRequests = ∑ r ∈ s.created,
    if 0 < s.processed.count r ∧ s.processed.count r < q.numTokens r then 1 else 0
  infos : ((s.fetchedInfos ++ s.detokenizer.stepInfos).map (·.numTokens)).sum = s.processed.length

variable {s s' : Completion ε}

theorem sampling_start (nowMs : ℤ) : Sampling q (start nowMs) where
  fresh _ _ := rfl
  within _ := Nat.zero_le _
  outputLen _ _ := by simp [start, DummySampler.new, Unsampled]
  maxOutputLen _ _ := by simp [start, DummySampler.new, Unsampled]
  released r := by simp [start, (q.numTokens_pos r).ne]
  owned _ msg hmsg := by simp [start] at hmsg
  inFlight _ := rfl
  numbered _ := trivial

omit [DecidableEq ε] in
theorem tracking_start (nowMs : ℤ) : Tracking q (start nowMs) where
  known r := by simp [start, Detokenizer.new]
  ended r := by simp [start, Detokenizer.new, (q.numTokens_pos r).ne]
  named r stat h := by simp [start, Detokenizer.new] at h
  timed r stat h := by simp [start, Detokenizer.new] at h
  stamped r stat h := by simp [start, Detokenizer.new] at h
  reported stat h := by simp [start] at h
  active := rfl
  infos := rfl

theorem Sampling.processed_le (h : Sampling q s) (r : ℤ) :
    s.processed.count r ≤ s.sampled.count r := by
  have := h.inFlight r
  omega

theorem Sampling.sampled_lt (h : Sampling q s) {r : ℤ} (hr : r ∉ s.released) :
    s.sampled.count r < q.numTokens r := by
  have hrel := h.released r
  rw [List.count_eq_zero_of_not_mem hr] at hrel
  have hne : s.sampled.count r ≠ q.numTokens r := fun heq => by simp [heq] at hrel
  exact lt_of_le_of_ne (h.within r) hne

/-! ### A new request -/

/-- The state after a request was made known to its engine. -/
def create (q : Requests ε) (s : Completion ε) (r : ℤ) : Completion ε :=
  { s with
    samplers := Function.update s.samplers (q.owner r)
      ((s.samplers (q.owner r)).createRequest r (q.maxOutputLen r))
    created := insert r s.created }

theorem create_lookup (r : ℤ) (e : ε) (r' : ℤ) :
    ((s.create q r).samplers e).outputLen.lookup r' =
        (if e = q.owner r ∧ r' = r then some 0 else (s.samplers e).outputLen.lookup r') ∧
      ((s.create q r).samplers e).reqMaxOutputLen.lookup r' =
        if e = q.owner r ∧ r' = r then some (q.maxOutputLen r)
        else (s.samplers e).reqMaxOutputLen.lookup r' := by
  by_cases he : e = q.owner r
  · subst he
    by_cases hr : r' = r
    · subst hr
      simp [create, createRequest]
    · simp [create, createRequest, hr, AList.lookup_insert_ne]
  · simp [create, he]

theorem unsampled_create {r : ℤ} (hcount : s.sampled.count r = 0) (e : ε) (r' : ℤ) :
    Unsampled q (s.create q r) e r' ↔ (e = q.owner r ∧ r' = r) ∨ Unsampled q s e r' := by
  have hpos := q.numTokens_pos r
  by_cases hr : r' = r
  · subst hr
    simp only [Unsampled, create, Finset.mem_insert_self, hcount, hpos, and_true]
    constructor
    · exact fun he => .inl he.symm
    · rintro (he | he)
      · exact he.symm
      · exact he.1
  · simp [Unsampled, create, hr]

theorem Sampling.create {r : ℤ} (h : Sampling q s) (hr : r ∉ s.created) : Sampling q (s.create q r) where
  fresh r' hr' := h.fresh r' fun hmem => hr' (Finset.mem_insert_of_mem hmem)
  within := h.within
  outputLen e r' := by
    have hcount := h.fresh r hr
    rw [(create_lookup r e r').1, h.outputLen]
    by_cases hnew : e = q.owner r ∧ r' = r
    · obtain ⟨rfl, rfl⟩ := hnew
      rw [if_pos ⟨rfl, rfl⟩, if_pos ((unsampled_create hcount _ _).mpr (.inl ⟨rfl, rfl⟩))]
      change some 0 = some ((s.sampled.count r' : ℕ) : ℤ)
      rw [hcount]
      rfl
    · rw [if_neg hnew, if_congr (unsampled_create hcount e r') rfl rfl]
      simp [hnew, Completion.create]
  maxOutputLen e r' := by
    have hcount := h.fresh r hr
    rw [(create_lookup r e r').2, h.maxOutputLen]
    by_cases hnew : e = q.owner r ∧ r' = r
    · obtain ⟨rfl, rfl⟩ := hnew
      rw [if_pos ⟨rfl, rfl⟩, if_pos ((unsampled_create hcount _ _).mpr (.inl ⟨rfl, rfl⟩))]
    · rw [if_neg hnew, if_congr (unsampled_create hcount e r') rfl rfl]
      simp [hnew]
  released := h.released
  owned := h.owned
  inFlight := h.inFlight
  numbered := h.numbered

theorem Tracking.create {r : ℤ} (hs : Sampling q s) (h : Tracking q s) (hr : r ∉ s.created) :
    Tracking q (s.create q r) where
  known := h.known
  ended := h.ended
  named := h.named
  timed := h.timed
  stamped := h.stamped
  reported := h.reported
  active := by
    have hzero : s.processed.count r = 0 := by
      have := hs.processed_le r
      have := hs.fresh r hr
      omega
    have hactive := h.active
    change s.detokenizer.activeNumRequests = ∑ r' ∈ insert r s.created,
      if 0 < s.processed.count r' ∧ s.processed.count r' < q.numTokens r' then 1 else 0
    rw [Finset.sum_insert hr, hzero, if_neg (by omega), zero_add]
    exact hactive
  infos := h.infos

/-! ### Sampling -/

section Sample

variable {W R : Type} {e : ε} {batch : AttentionScheduleBatch W R}

/-- The tokens that the next batch makes the last of their requests. -/
def lastToken (q : Requests ε) (s : Completion ε) (r : ℤ) : Bool :=
  decide (s.sampled.count r + 1 = q.numTokens r)

theorem Given.lt (hs : Sampling q s) (hg : Given q s e batch) {r : ℤ} (hr : r ∈ batch.reqIds) :
    s.sampled.count r < q.numTokens r := hs.sampled_lt (hg.unfinished r hr).2.2

theorem Given.counting (hs : Sampling q s) (hg : Given q s e batch) :
    Counting (s.samplers e) (fun r => (s.sampled.count r : ℤ)) q.maxOutputLen batch.reqIds where
  len r hr := by
    obtain ⟨howner, hmem, -⟩ := hg.unfinished r hr
    rw [hs.outputLen, if_pos ⟨howner, hmem, hg.lt hs hr⟩]
  maxLen r hr := by
    obtain ⟨howner, hmem, -⟩ := hg.unfinished r hr
    rw [hs.maxOutputLen, if_pos ⟨howner, hmem, hg.lt hs hr⟩]

variable [Zero W]

/-- A batch of unfinished requests is sampled. -/
theorem sample_ok (hs : Sampling q s) (hg : Given q s e batch) (attnDpRank : ℕ) :
    ∃ b msg sampler, sampleResults attnDpRank batch (s.samplers e) =
        .ok (b, batch.reqIds.filter (lastToken q s), msg) sampler ∧
      msg.reqIds = batch.reqIds ∧ msg.isEos = batch.reqIds.map (lastToken q s) ∧
      (∀ r, sampler.outputLen.lookup r = if r ∈ batch.reqIds then
        if lastToken q s r then none else some (s.sampled.count r + 1 : ℤ)
        else (s.samplers e).outputLen.lookup r) ∧
      ∀ r, sampler.reqMaxOutputLen.lookup r = if r ∈ batch.reqIds ∧ lastToken q s r then none
        else (s.samplers e).reqMaxOutputLen.lookup r := by
  have hends : ∀ r ∈ batch.reqIds,
      DummySampler.Ends (fun r => (s.sampled.count r : ℤ)) q.maxOutputLen r = lastToken q s r :=
    fun r hr => Requests.ends_eq rfl (hg.lt hs hr)
  obtain ⟨b, msg, sampler, hrun, hids, heos, hsampled⟩ :=
    sampleResults_ok attnDpRank hg.nodup hg.rows (hg.counting hs)
  rw [List.filter_congr hends] at hrun
  refine ⟨b, msg, sampler, hrun, hids, heos.trans (List.map_congr_left hends), fun r => ?_, fun r => ?_⟩
  · rw [hsampled.outputLen]
    by_cases hr : r ∈ batch.reqIds
    · rw [if_pos hr, if_pos hr, hends r hr]
    · rw [if_neg hr, if_neg hr]
  · rw [hsampled.reqMaxOutputLen]
    by_cases hr : r ∈ batch.reqIds
    · rw [hends r hr]
    · rw [if_neg fun hand => hr hand.1, if_neg fun hand => hr hand.1]

/-- The state after a batch was sampled. -/
def afterSample (s : Completion ε) (e : ε) (reqIds finishReqIds : List ℤ) (msg : BatchDecodeResult)
    (sampler : DummySampler) : Completion ε :=
  { s with
    samplers := Function.update s.samplers e sampler
    sockets := Function.update s.sockets e (s.sockets e ++ [msg])
    sampled := s.sampled ++ reqIds
    released := s.released ++ finishReqIds }

omit [DecidableEq ε] [Zero W] in
theorem Given.count_sampled (hg : Given q s e batch) (r : ℤ) :
    (s.sampled ++ batch.reqIds).count r = s.sampled.count r + if r ∈ batch.reqIds then 1 else 0 := by
  rw [List.count_append, count_of_nodup hg.nodup]

omit [Zero W] in
/-- The requests of the batch leave their maps with their last tokens. -/
theorem Given.unsampled_iff (h : Sampling q s) (hg : Given q s e batch) (finishReqIds : List ℤ)
    (msg : BatchDecodeResult) (sampler : DummySampler) (e' : ε) (r : ℤ) :
    Unsampled q (s.afterSample e batch.reqIds finishReqIds msg sampler) e' r ↔
      Unsampled q s e' r ∧ ¬ (r ∈ batch.reqIds ∧ lastToken q s r) := by
  simp only [Unsampled, afterSample, hg.count_sampled, lastToken, decide_eq_true_eq]
  by_cases hr : r ∈ batch.reqIds
  · obtain ⟨howner, hcreated, -⟩ := hg.unfinished r hr
    have := hg.lt h hr
    simp only [howner, hcreated, hr, if_true, true_and, and_assoc]
    exact and_congr_right fun _ => by omega
  · simp [hr]

theorem Sampling.sample {attnDpRank : ℕ} {b : TokenBatch W R} {finishReqIds : List ℤ}
    {msg : BatchDecodeResult} {sampler : DummySampler} (h : Sampling q s) (hg : Given q s e batch)
    (hrun : sampleResults attnDpRank batch (s.samplers e) = .ok (b, finishReqIds, msg) sampler) :
    Sampling q (s.afterSample e batch.reqIds finishReqIds msg sampler) := by
  obtain ⟨b', msg', sampler', hrun', hids, heos, hlen, hmax⟩ := sample_ok h hg attnDpRank
  rw [hrun] at hrun'
  simp only [EStateM.Result.ok.injEq, Prod.mk.injEq] at hrun'
  obtain ⟨⟨-, rfl, rfl⟩, rfl⟩ := hrun'
  have hcount := hg.count_sampled
  have howner : ∀ r ∈ batch.reqIds, q.owner r = e := fun r hr => (hg.unfinished r hr).1
  have hcreated : ∀ r ∈ batch.reqIds, r ∈ s.created := fun r hr => (hg.unfinished r hr).2.1
  have hlt : ∀ r ∈ batch.reqIds, s.sampled.count r < q.numTokens r := fun r hr => hg.lt h hr
  have hunsampled := hg.unsampled_iff h (batch.reqIds.filter (lastToken q s)) msg sampler
  refine ⟨fun r hr => ?_, fun r => ?_, fun e' r => ?_, fun e' r => ?_, fun r => ?_, fun e' => ?_,
    fun r => ?_, fun e' => ?_⟩
  · change (s.sampled ++ batch.reqIds).count r = 0
    rw [hcount, h.fresh r hr, if_neg fun hmem => hr (hcreated r hmem)]
  · change (s.sampled ++ batch.reqIds).count r ≤ _
    rw [hcount]
    split_ifs with hr
    · exact hlt r hr
    · exact h.within r
  · change ((Function.update s.samplers e sampler) e').outputLen.lookup r =
      if _ then some (((s.sampled ++ batch.reqIds).count r : ℕ) : ℤ) else none
    by_cases he : e' = e
    · subst he
      rw [Function.update_self, hlen, hcount, if_congr (hunsampled e' r) rfl rfl]
      by_cases hr : r ∈ batch.reqIds
      · have hun : Unsampled q s e' r := ⟨howner r hr, hcreated r hr, hlt r hr⟩
        cases hlast : lastToken q s r <;> simp [hr, hun]
      · rw [if_neg hr, h.outputLen]
        simp [hr]
    · rw [Function.update_of_ne he, h.outputLen, if_congr (hunsampled e' r) rfl rfl, hcount]
      by_cases hun : Unsampled q s e' r
      · have hr : r ∉ batch.reqIds := fun hr => he (hun.1.symm.trans (howner r hr))
        simp [hr]
      · rw [if_neg hun, if_neg fun hand => hun hand.1]
  · change ((Function.update s.samplers e sampler) e').reqMaxOutputLen.lookup r = _
    by_cases he : e' = e
    · subst he
      rw [Function.update_self, hmax, h.maxOutputLen, if_congr (hunsampled e' r) rfl rfl]
      by_cases hlast : r ∈ batch.reqIds ∧ lastToken q s r
      · rw [if_pos hlast, if_neg fun hand => hand.2 hlast]
      · simp [hlast]
    · rw [Function.update_of_ne he, h.maxOutputLen, if_congr (hunsampled e' r) rfl rfl]
      by_cases hun : Unsampled q s e' r
      · have hr : r ∉ batch.reqIds := fun hr => he (hun.1.symm.trans (howner r hr))
        simp [hr]
      · rw [if_neg hun, if_neg fun hand => hun hand.1]
  · change (s.released ++ batch.reqIds.filter (lastToken q s)).count r =
      if (s.sampled ++ batch.reqIds).count r = _ then 1 else 0
    rw [List.count_append, h.released, hcount, count_of_nodup (hg.nodup.filter _)]
    simp only [List.mem_filter, lastToken, decide_eq_true_eq]
    by_cases hr : r ∈ batch.reqIds
    · have := hlt r hr
      simp [hr, this.ne]
    · simp [hr]
  · intro m hm r hr
    by_cases he : e' = e
    · subst he
      simp only [afterSample, Function.update_self, List.mem_append, List.mem_singleton] at hm
      rcases hm with hm | rfl
      · exact h.owned e' m hm r hr
      · exact howner r (hids ▸ hr)
    · simp only [afterSample, Function.update_of_ne he] at hm
      exact h.owned e' m hm r hr
  · change s.processed.count r + pending ((Function.update s.sockets e _) (q.owner r)) r =
      (s.sampled ++ batch.reqIds).count r
    have hflight := h.inFlight r
    by_cases he : q.owner r = e
    · rw [he, Function.update_self, pending_append, hids, List.count_append]
      rw [he] at hflight
      omega
    · have hr : r ∉ batch.reqIds := fun hr => he (howner r hr)
      rw [Function.update_of_ne he, hcount, if_neg hr]
      exact hflight
  · change Numbered q (s.processed.count ·) ((Function.update s.sockets e _) e')
    by_cases he : e' = e
    · subst he
      rw [Function.update_self]
      refine (h.numbered e').append (hids ▸ hg.nodup) ?_
      rw [heos, hids]
      refine List.map_congr_left fun r hr => ?_
      have hflight := h.inFlight r
      rw [howner r hr] at hflight
      rw [lastToken, hflight]
    · rw [Function.update_of_ne he]
      exact h.numbered e'

end Sample

/-! ### Processing -/

section Process

variable {e : ε} {msg : BatchDecodeResult} {rest : List BatchDecodeResult} {d : Detokenizer}

/-- The first batch of a socket: its requests, with the marks of the last tokens. -/
structure First (q : Requests ε) (s : Completion ε) (e : ε) (msg : BatchDecodeResult) : Prop where
  nodup : msg.reqIds.Nodup
  owned : ∀ r ∈ msg.reqIds, q.owner r = e
  isEos : msg.isEos = msg.reqIds.map fun r => decide (s.processed.count r + 1 = q.numTokens r)
  lt : ∀ r ∈ msg.reqIds, s.processed.count r < s.sampled.count r

theorem Sampling.first (h : Sampling q s) (hsocket : s.sockets e = msg :: rest) : First q s e msg := by
  have hnum := h.numbered e
  rw [hsocket] at hnum
  have howned : ∀ r ∈ msg.reqIds, q.owner r = e := h.owned e msg (by simp [hsocket])
  refine ⟨hnum.1, howned, hnum.2.1, fun r hr => ?_⟩
  have hflight := h.inFlight r
  rw [howned r hr, hsocket, pending_cons] at hflight
  have hpos := List.count_pos_iff.mpr hr
  omega

/-- The state after a batch was processed. -/
def afterProcess (s : Completion ε) (e : ε) (msg : BatchDecodeResult) (rest : List BatchDecodeResult)
    (d : Detokenizer) : Completion ε :=
  { s with
    sockets := Function.update s.sockets e rest
    detokenizer := d
    processed := s.processed ++ msg.reqIds }

theorem Sampling.process (h : Sampling q s) (hsocket : s.sockets e = msg :: rest) :
    Sampling q (s.afterProcess e msg rest d) where
  fresh := h.fresh
  within := h.within
  outputLen := h.outputLen
  maxOutputLen := h.maxOutputLen
  released := h.released
  owned e' m hm r hr := by
    by_cases he : e' = e
    · subst he
      simp only [afterProcess, Function.update_self] at hm
      exact h.owned e' m (by simp [hsocket, hm]) r hr
    · simp only [afterProcess, Function.update_of_ne he] at hm
      exact h.owned e' m hm r hr
  inFlight r := by
    change (s.processed ++ msg.reqIds).count r + pending (Function.update s.sockets e rest _) r = _
    have hflight := h.inFlight r
    rw [List.count_append]
    by_cases he : q.owner r = e
    · rw [he, hsocket, pending_cons] at hflight
      rw [he, Function.update_self]
      change _ = s.sampled.count r
      omega
    · have hr : r ∉ msg.reqIds := fun hr => he ((h.first hsocket).owned r hr)
      rw [Function.update_of_ne he, List.count_eq_zero_of_not_mem hr]
      exact hflight
  numbered e' := by
    change Numbered q (fun r => (s.processed ++ msg.reqIds).count r) (Function.update s.sockets e rest e')
    have hnum := h.numbered e'
    by_cases he : e' = e
    · subst he
      rw [hsocket] at hnum
      rw [Function.update_self]
      exact hnum.2.2.congr fun m hm r hr => (List.count_append ..).symm
    · rw [Function.update_of_ne he]
      refine hnum.congr fun m hm r hr => ?_
      have hnot : r ∉ msg.reqIds := fun hmem =>
        he ((h.owned e' m hm r hr).symm.trans ((h.first hsocket).owned r hmem))
      rw [List.count_append, List.count_eq_zero_of_not_mem hnot, Nat.add_zero]

omit [DecidableEq ε] in
/-- Requests with tokens to come are neither finished nor reported. -/
theorem Tracking.unfinished (h : Tracking q s) {r : ℤ} (hr : s.processed.count r < q.numTokens r) :
    r ∉ s.detokenizer.finishedSeqs ∧ r ∉ s.reported.map (·.reqId) := by
  have hended := h.ended r
  rw [if_neg hr.ne] at hended
  exact ⟨List.count_eq_zero.mp (by omega), List.count_eq_zero.mp (by omega)⟩

theorem process_ok (hs : Sampling q s) (h : Tracking q s) (hsocket : s.sockets e = msg :: rest)
    (curTimeMs : ℤ) :
    ∃ d, processBatch curTimeMs msg s.detokenizer = .ok msg.reqIds.length d ∧
      Processed s.detokenizer d curTimeMs msg.reqIds
        fun r => decide (s.processed.count r + 1 = q.numTokens r) := by
  have hfirst := hs.first hsocket
  exact processBatch_ok hfirst.nodup hfirst.isEos fun r hr =>
    (h.unfinished ((hfirst.lt r hr).trans_le (hs.within r))).1

theorem observed_reqId (curTimeMs : ℤ) {r : ℤ} {stat : Option SloStat}
    (h : ∀ st, stat = some st → st.reqId = r) : (observed curTimeMs r stat).reqId = r := by
  cases stat with
  | none => rfl
  | some st => exact h st rfl

omit [DecidableEq ε] in
/-- The times that the statistics of an unfinished request have after one more token. -/
theorem Tracking.observed_length (h : Tracking q s) {r : ℤ} (curTimeMs : ℤ)
    (hr : s.processed.count r < q.numTokens r) :
    (observed curTimeMs r (s.detokenizer.sloStats.lookup r)).tTokens.length = s.processed.count r := by
  cases hstat : s.detokenizer.sloStats.lookup r with
  | none =>
    have hknown := (h.known r).not.mp (by simp [hstat])
    have hzero : s.processed.count r = 0 := by
      by_contra hne
      exact hknown ⟨by omega, (h.unfinished hr).2⟩
    rw [hzero]
    rfl
  | some stat =>
    have htimed := h.timed r stat hstat hr
    simpa [observed] using htimed

/-- The sum of a function that changes at some elements of the set. -/
theorem sum_eq_add_of_changed {A : Finset ℤ} {l : List ℤ} (hnodup : l.Nodup) (hsub : ∀ r ∈ l, r ∈ A)
    {f g : ℤ → ℤ} (hsame : ∀ r, r ∉ l → g r = f r) :
    ∑ r ∈ A, g r = ∑ r ∈ A, f r + (l.map fun r => g r - f r).sum := by
  have hsum : ∑ r ∈ l.toFinset, (g r - f r) = ∑ r ∈ A, (g r - f r) := by
    refine Finset.sum_subset (fun r hr => hsub r (List.mem_toFinset.mp hr)) fun r _ hr => ?_
    rw [hsame r fun hmem => hr (List.mem_toFinset.mpr hmem), sub_self]
  rw [← List.sum_toFinset _ hnodup, hsum, Finset.sum_sub_distrib]
  omega

theorem Tracking.process (hs : Sampling q s) (h : Tracking q s) (hsocket : s.sockets e = msg :: rest)
    {curTimeMs : ℤ} {n : ℕ} (hrun : processBatch curTimeMs msg s.detokenizer = .ok n d) :
    Tracking q (s.afterProcess e msg rest d) := by
  have hfirst := hs.first hsocket
  obtain ⟨d', hrun', hd⟩ := process_ok hs h hsocket curTimeMs
  rw [hrun] at hrun'
  simp only [EStateM.Result.ok.injEq] at hrun'
  obtain ⟨-, rfl⟩ := hrun'
  have hcount : ∀ r, (s.processed ++ msg.reqIds).count r =
      s.processed.count r + if r ∈ msg.reqIds then 1 else 0 := by
    intro r
    rw [List.count_append, count_of_nodup hfirst.nodup]
  have hlt : ∀ r ∈ msg.reqIds, s.processed.count r < q.numTokens r :=
    fun r hr => (hfirst.lt r hr).trans_le (hs.within r)
  refine ⟨fun r => ?_, fun r => ?_, fun r stat hstat => ?_, fun r stat hstat hr => ?_,
    fun r stat hstat hr => ?_, h.reported, ?_, ?_⟩
  · change (d.sloStats.lookup r).isSome ↔
      0 < (s.processed ++ msg.reqIds).count r ∧ r ∉ s.reported.map (·.reqId)
    rw [hd.sloStats, hcount]
    by_cases hr : r ∈ msg.reqIds
    · simpa [hr] using (h.unfinished (hlt r hr)).2
    · simpa [hr] using h.known r
  · change (s.reported.map (·.reqId)).count r + d.finishedSeqs.count r =
      if (s.processed ++ msg.reqIds).count r = _ then 1 else 0
    rw [hd.finishedSeqs, ← add_assoc, h.ended, hcount]
    by_cases hr : r ∈ msg.reqIds
    · simp [hr, (hlt r hr).ne]
    · simp [hr]
  · change d.sloStats.lookup r = some stat at hstat
    rw [hd.sloStats] at hstat
    by_cases hr : r ∈ msg.reqIds
    · have hid := observed_reqId curTimeMs (h.named r)
      rw [if_pos hr, Option.some_inj] at hstat
      rw [← hstat]
      split_ifs <;> exact hid
    · rw [if_neg hr] at hstat
      exact h.named r stat hstat
  · change (s.processed ++ msg.reqIds).count r < _ at hr
    change _ = (s.processed ++ msg.reqIds).count r
    change d.sloStats.lookup r = some stat at hstat
    rw [hd.sloStats] at hstat
    rw [hcount] at hr ⊢
    by_cases hmem : r ∈ msg.reqIds
    · rw [if_pos hmem] at hr hstat ⊢
      rw [if_neg (by simpa using hr.ne), Option.some_inj] at hstat
      rw [← hstat, h.observed_length curTimeMs (hlt r hmem)]
    · rw [if_neg hmem] at hr hstat ⊢
      exact h.timed r stat hstat hr
  · change (s.processed ++ msg.reqIds).count r = _ at hr
    change d.sloStats.lookup r = some stat at hstat
    rw [hd.sloStats] at hstat
    rw [hcount] at hr
    by_cases hmem : r ∈ msg.reqIds
    · rw [if_pos hmem] at hr hstat
      rw [if_pos (by simpa using hr), Option.some_inj] at hstat
      have hid : stat.reqId = r := by
        rw [← hstat]
        exact observed_reqId curTimeMs (h.named r)
      refine ⟨_, by rw [← hstat]; rfl, ?_⟩
      change (List.map _ (observed curTimeMs r _).tTokens).length + 1 = _
      rw [List.length_map, h.observed_length curTimeMs (hlt r hmem), hr, hid]
    · rw [if_neg hmem] at hr hstat
      exact h.stamped r stat hstat hr
  · change d.activeNumRequests = ∑ r ∈ s.created, if 0 < (s.processed ++ msg.reqIds).count r ∧
      (s.processed ++ msg.reqIds).count r < q.numTokens r then 1 else 0
    have hcreated : ∀ r ∈ msg.reqIds, r ∈ s.created := by
      intro r hr
      by_contra hnot
      have := hs.fresh r hnot
      have := hfirst.lt r hr
      omega
    rw [sum_eq_add_of_changed hfirst.nodup hcreated
      (f := fun r => if 0 < s.processed.count r ∧ s.processed.count r < q.numTokens r then 1 else 0)
      fun r hr => by simp [hcount, hr], ← h.active, hd.active]
    refine congrArg _ (congrArg List.sum (List.map_congr_left fun r hr => ?_))
    have hlt := hlt r hr
    have hknown := h.known r
    have hunrep := (h.unfinished hlt).2
    have hnone : (s.detokenizer.sloStats.lookup r).isNone ↔ s.processed.count r = 0 := by
      rw [← Option.not_isSome, Bool.not_eq_true', ← Bool.not_eq_true, hknown]
      simp only [hunrep, not_false_eq_true, and_true]
      omega
    rw [hcount, if_pos hr, if_congr hnone rfl rfl]
    simp only [decide_eq_true_eq]
    split_ifs <;> omega
  · change ((s.fetchedInfos ++ d.stepInfos).map (·.numTokens)).sum = (s.processed ++ msg.reqIds).length
    have hinfos := h.infos
    rw [hd.stepInfos, ← List.append_assoc, List.map_append, List.sum_append, hinfos]
    simp

end Process

/-! ### Fetching -/

section Fetch

omit [DecidableEq ε]

variable {order : List ℤ} {res : List SloStat} {d : Detokenizer}

theorem Tracking.finished_nodup (h : Tracking q s) : s.detokenizer.finishedSeqs.Nodup := by
  rw [List.nodup_iff_count_le_one]
  intro r
  have hended := h.ended r
  split_ifs at hended <;> omega

/-- A finished request has all its tokens and was not reported. -/
theorem Tracking.finished (h : Tracking q s) {r : ℤ} (hr : r ∈ s.detokenizer.finishedSeqs) :
    s.processed.count r = q.numTokens r ∧ r ∉ s.reported.map (·.reqId) := by
  have hended := h.ended r
  have hpos := List.count_pos_iff.mpr hr
  by_cases hall : s.processed.count r = q.numTokens r
  · rw [if_pos hall] at hended
    exact ⟨hall, List.count_eq_zero.mp (by omega)⟩
  · rw [if_neg hall] at hended
    omega

theorem fetch_ok (h : Tracking q s) (horder : order.Perm s.detokenizer.finishedSeqs) :
    ∃ res d, fetchFinishedResults order s.detokenizer = .ok res d ∧
      order.map s.detokenizer.sloStats.lookup = res.map some ∧ d.finishedSeqs = [] ∧
      (∀ r, d.sloStats.lookup r = if r ∈ order then none else s.detokenizer.sloStats.lookup r) ∧
      d.activeNumRequests = s.detokenizer.activeNumRequests ∧ d.stepInfos = s.detokenizer.stepInfos := by
  refine fetchFinishedResults_ok (horder.nodup_iff.mpr h.finished_nodup) fun r hr => ?_
  obtain ⟨hall, hnot⟩ := h.finished (horder.mem_iff.mp hr)
  have hpos := q.numTokens_pos r
  exact (h.known r).mpr ⟨by omega, hnot⟩

/-- Entries that carry their keys, read at some keys, are those of the keys. -/
theorem map_reqId_of_lookup {f : ℤ → Option SloStat} (hnamed : ∀ r stat, f r = some stat → stat.reqId = r)
    (h : order.map f = res.map some) : res.map (·.reqId) = order := by
  induction order generalizing res with
  | nil =>
    cases res with
    | nil => rfl
    | cons stat res => simp at h
  | cons r order ih =>
    cases res with
    | nil => simp at h
    | cons stat res =>
      obtain ⟨hstat, hrest⟩ := List.cons.inj h
      rw [List.map_cons, hnamed r stat hstat, ih hrest]

theorem Tracking.fetch (h : Tracking q s) (horder : order.Perm s.detokenizer.finishedSeqs)
    (hrun : fetchFinishedResults order s.detokenizer = .ok res d) :
    Tracking q { s with
      detokenizer := d
      reported := s.reported ++ res } := by
  obtain ⟨res', d', hrun', hres, hfin, hslo, hactive, hinfos⟩ := fetch_ok h horder
  rw [hrun] at hrun'
  simp only [EStateM.Result.ok.injEq] at hrun'
  obtain ⟨rfl, rfl⟩ := hrun'
  have hids : res.map (·.reqId) = order := map_reqId_of_lookup h.named hres
  have hold : ∀ r stat, d.sloStats.lookup r = some stat → s.detokenizer.sloStats.lookup r = some stat := by
    intro r stat hstat
    rw [hslo] at hstat
    split_ifs at hstat
    exact hstat
  have hstats : ∀ stat ∈ res, Stamped q stat := by
    intro stat hstat
    have hmem : some stat ∈ order.map s.detokenizer.sloStats.lookup :=
      hres ▸ List.mem_map_of_mem hstat
    obtain ⟨r, hr, hlook⟩ := List.mem_map.mp hmem
    exact h.stamped r stat hlook (h.finished (horder.mem_iff.mp hr)).1
  refine ⟨fun r => ?_, fun r => ?_, fun r stat hstat => h.named r stat (hold r stat hstat),
    fun r stat hstat => h.timed r stat (hold r stat hstat),
    fun r stat hstat => h.stamped r stat (hold r stat hstat), fun stat hstat => ?_,
    hactive.trans h.active, ?_⟩
  · change (d.sloStats.lookup r).isSome ↔
      0 < s.processed.count r ∧ r ∉ (s.reported ++ res).map (·.reqId)
    rw [hslo, List.map_append, hids, List.mem_append, not_or]
    by_cases hr : r ∈ order
    · simp [hr]
    · rw [if_neg hr, h.known]
      simp only [hr, not_false_eq_true, and_true]
  · change ((s.reported ++ res).map (·.reqId)).count r + d.finishedSeqs.count r = _
    rw [List.map_append, hids, List.count_append, hfin, horder.count_eq]
    exact h.ended r
  · rcases List.mem_append.mp hstat with hstat | hstat
    · exact h.reported stat hstat
    · exact hstats stat hstat
  · change ((s.fetchedInfos ++ d.stepInfos).map (·.numTokens)).sum = _
    rw [hinfos]
    exact h.infos

theorem Tracking.fetchInfos (h : Tracking q s) {infos : List SamplerStepInfo}
    (hrun : fetchSamplerStepInfos s.detokenizer = .ok infos d) :
    Tracking q { s with
      detokenizer := d
      fetchedInfos := s.fetchedInfos ++ infos } := by
  cases hrun
  refine ⟨h.known, h.ended, h.named, h.timed, h.stamped, h.reported, h.active, ?_⟩
  change (List.map SamplerStepInfo.numTokens (s.fetchedInfos ++ s.detokenizer.stepInfos ++ [])).sum = _
  rw [List.append_nil]
  exact h.infos

end Fetch

/-! ### Runs -/

theorem step_keeps (h : Sampling q s ∧ Tracking q s) (hstep : Step q s s') :
    Sampling q s' ∧ Tracking q s' := by
  obtain ⟨hs, ht⟩ := h
  cases hstep with
  | create hr => exact ⟨hs.create hr, ht.create hs hr⟩
  | sample hgiven hrun =>
    exact ⟨hs.sample hgiven hrun,
      ⟨ht.known, ht.ended, ht.named, ht.timed, ht.stamped, ht.reported, ht.active, ht.infos⟩⟩
  | process hsocket hrun => exact ⟨hs.process hsocket, ht.process hs hsocket hrun⟩
  | fetchFinished horder hrun =>
    exact ⟨⟨hs.fresh, hs.within, hs.outputLen, hs.maxOutputLen, hs.released, hs.owned, hs.inFlight,
      hs.numbered⟩, ht.fetch horder hrun⟩
  | fetchInfos hrun =>
    exact ⟨⟨hs.fresh, hs.within, hs.outputLen, hs.maxOutputLen, hs.released, hs.owned, hs.inFlight,
      hs.numbered⟩, ht.fetchInfos hrun⟩

theorem Run.keeps (h : Run q s) : Sampling q s ∧ Tracking q s := by
  refine Reach.invariant (I := fun s => Sampling q s ∧ Tracking q s) ?_
    (fun _ _ hI hstep => step_keeps hI hstep) h
  rintro _ ⟨nowMs, rfl⟩
  exact ⟨sampling_start nowMs, tracking_start nowMs⟩

/-- What is true of the requests in every state. -/
structure Completes (q : Requests ε) (s : Completion ε) : Prop where
  sampled : ∀ r, s.sampled.count r ≤ q.numTokens r
  released : ∀ r, s.released.count r = if s.sampled.count r = q.numTokens r then 1 else 0
  processed : ∀ r, s.processed.count r ≤ s.sampled.count r
  drained : (∀ e, s.sockets e = []) → ∀ r, s.processed.count r = s.sampled.count r
  reported : ∀ r, (s.reported.map (·.reqId)).count r + s.detokenizer.finishedSeqs.count r =
    if s.processed.count r = q.numTokens r then 1 else 0
  stamped : ∀ stat ∈ s.reported, Stamped q stat
  active : s.detokenizer.activeNumRequests =
    (s.created.filter fun r => 0 < s.processed.count r ∧ s.processed.count r < q.numTokens r).card
  infos : ((s.fetchedInfos ++ s.detokenizer.stepInfos).map (·.numTokens)).sum = s.processed.length

/-- The calls of the next steps return. -/
structure Answers (q : Requests ε) (s : Completion ε) : Prop where
  sample : ∀ (W R : Type) [Zero W] (e : ε) (attnDpRank : ℕ) (batch : AttentionScheduleBatch W R),
    Given q s e batch → ∃ res sampler, sampleResults attnDpRank batch (s.samplers e) = .ok res sampler
  process : ∀ e curTimeMs msg rest, s.sockets e = msg :: rest →
    ∃ n d, processBatch curTimeMs msg s.detokenizer = .ok n d
  fetch : ∀ order : List ℤ, order.Perm s.detokenizer.finishedSeqs →
    ∃ res d, fetchFinishedResults order s.detokenizer = .ok res d

/-- Each request is sampled, released and reported as often as it should be, whatever the order of
batches, messages and fetches. -/
theorem Run.completes (h : Run q s) : Completes q s ∧ Answers q s := by
  obtain ⟨hs, ht⟩ := h.keeps
  refine ⟨⟨hs.within, hs.released, hs.processed_le, fun hempty r => ?_, ht.ended, ht.reported, ?_,
    ht.infos⟩, ⟨fun W R _ e attnDpRank batch hg => ?_, fun e curTimeMs msg rest hsocket => ?_,
    fun order horder => ?_⟩⟩
  · have hflight := hs.inFlight r
    rw [hempty] at hflight
    exact hflight
  · rw [ht.active, Finset.sum_boole]
  · obtain ⟨b, msg, sampler, hrun, -⟩ := sample_ok hs hg attnDpRank
    exact ⟨_, sampler, hrun⟩
  · obtain ⟨d, hrun, -⟩ := process_ok hs ht hsocket curTimeMs
    exact ⟨_, d, hrun⟩
  · obtain ⟨res, d, hrun, -⟩ := fetch_ok ht horder
    exact ⟨res, d, hrun⟩

/-- One request of two tokens on one engine. -/
def twoTokens : Requests Unit where
  owner _ := ()
  maxOutputLen _ := 2

def twoTokensBatch : AttentionScheduleBatch ℕ ℕ where
  reqIds := [7]
  data := [5]
  metaC :=
    { batchTag := .attention
      shape := (1, 1)
      dtype := "bf16"
      layerId := 3
      reqIds := [7]
      expIds := []
      topkWeights := []
      attnDpRanks := [0]
      initPrefillLens := [-1] }

theorem completes_twoTokens : ∃ s : Completion Unit, s.sampled = [7, 7] ∧ s.released = [7] ∧
    s.reported.map (·.reqId) = [7] ∧ Completes twoTokens s ∧ Answers twoTokens s := by
  let s₀ : Completion Unit := start 0
  have h₀ : Run twoTokens s₀ := Reach.start ⟨0, rfl⟩
  let s₁ : Completion Unit := s₀.create twoTokens 7
  have h₁ : Run twoTokens s₁ := h₀.next (.create (by decide))
  -- the first token goes back to the first layer
  let sampler : DummySampler := ⟨AList.insert 7 2 ∅, AList.insert 7 1 ∅⟩
  let s₂ := s₁.afterSample () [7] [] ⟨[7], [0], [false]⟩ sampler
  have hg₁ : Given twoTokens s₁ () twoTokensBatch := ⟨by decide, rfl, by decide⟩
  have hsample₁ : sampleResults 0 twoTokensBatch (s₁.samplers ()) =
      .ok (⟨[5], continueMeta 0 twoTokensBatch.metaC [0]⟩, [], ⟨[7], [0], [false]⟩) sampler := rfl
  have h₂ : Run twoTokens s₂ := h₁.next (.sample hg₁ hsample₁)
  -- the second token is the last
  let s₃ := s₂.afterSample () [7] [7] ⟨[7], [0], [true]⟩ ⟨∅, ∅⟩
  have hg₂ : Given twoTokens s₂ () twoTokensBatch := ⟨by decide, rfl, by decide⟩
  have hsample₂ : sampleResults 0 twoTokensBatch (s₂.samplers ()) =
      .ok (⟨[], continueMeta 0 twoTokensBatch.metaC []⟩, [7], ⟨[7], [0], [true]⟩) ⟨∅, ∅⟩ := rfl
  have h₃ : Run twoTokens s₃ := h₂.next (.sample hg₂ hsample₂)
  let opened : SloStat := ⟨7, 3, 3, 0, [], none⟩
  let d₁ : Detokenizer := ⟨[], 1, AList.insert 7 opened ∅, [⟨1, 3⟩], 1, [], 0⟩
  let s₄ := s₃.afterProcess () ⟨[7], [0], [false]⟩ [⟨[7], [0], [true]⟩] d₁
  have hprocess₁ : processBatch 3 ⟨[7], [0], [false]⟩ s₃.detokenizer = .ok 1 d₁ := rfl
  have h₄ : Run twoTokens s₄ := h₃.next (.process rfl hprocess₁)
  let ended : SloStat := closed 5 (observed 5 7 (some opened))
  let d₂ : Detokenizer := ⟨[7], 0, AList.insert 7 ended ∅, [⟨1, 3⟩, ⟨1, 5⟩], 2, [], 0⟩
  let s₅ := s₄.afterProcess () ⟨[7], [0], [true]⟩ [] d₂
  have hprocess₂ : processBatch 5 ⟨[7], [0], [true]⟩ s₄.detokenizer = .ok 1 d₂ := rfl
  have h₅ : Run twoTokens s₅ := h₄.next (.process rfl hprocess₂)
  have hfetch : fetchFinishedResults [7] d₂ = .ok [ended] ⟨[], 0, ∅, [⟨1, 3⟩, ⟨1, 5⟩], 2, [], 0⟩ := rfl
  have h₆ := h₅.next (.fetchFinished (.refl _) hfetch)
  exact ⟨_, rfl, rfl, rfl, Run.completes h₆⟩

end Completion

end StreamInfer.Frontend
