import StreamInfer.Kv.Accounts

/-! The loop that takes requests from the waiting queue and submits them. Other
callbacks run only where it awaits: they put requests, and delete sequences,
which sets the event the loop waits for. Beside the state stand all requests put
and all submissions. Requests leave in the order they came, and a loop that
waits with the event clear waits for a request no rank has the blocks for. -/

namespace StreamInfer.Kv

open General General.Stateful

structure RequestItem where
  reqId : ℤ
  prefillLen : ℕ
  outputLen : ℕ
  deriving DecidableEq

/-- The task of `waiting_queue.get()`. -/
inductive GetTask where
  | created
  /-- It found the queue empty and waits for a put. -/
  | parked
  | woken
  deriving DecidableEq

/-- Where the loop stands. -/
inductive LoopAt where
  /-- The task of the loop has not run. -/
  | created
  /-- In `asyncio.wait` for the get task. -/
  | waiting (get : GetTask)
  /-- The get task is done, `asyncio.wait` has not returned. -/
  | taken (item : RequestItem)
  /-- Awaiting the cancelled task of `end_event.wait()`. -/
  | cancelling (item : RequestItem)
  /-- About to call `schedule`; the only point without an await. -/
  | trying (item : RequestItem)
  /-- In `sch_event.wait()`. -/
  | parked (item : RequestItem)
  /-- The event was set, `sch_event.wait()` has not returned. -/
  | woken (item : RequestItem)
  deriving DecidableEq

/-- A call of a request's function, with the scheduler before it gave the rank. -/
structure Submission where
  item : RequestItem
  rank : ℤ
  before : DPScheduler

structure WaitingLoop where
  scheduler : DPScheduler
  schEvent : Bool
  waitingQueue : List RequestItem
  loopAt : LoopAt
  /-- All requests put. -/
  put : List RequestItem
  submitted : List Submission

namespace RequestItem

def request (item : RequestItem) : DPScheduler.Request := (item.reqId, item.prefillLen, item.outputLen)

def required (item : RequestItem) (d : DPScheduler) : ℕ :=
  d.requiredBlocks item.prefillLen item.outputLen

end RequestItem

namespace LoopAt

/-- The request the loop has taken from the queue. -/
def held : LoopAt → List RequestItem
  | .created => []
  | .waiting _ => []
  | .taken item => [item]
  | .cancelling item => [item]
  | .trying item => [item]
  | .parked item => [item]
  | .woken item => [item]

/-- A put wakes a parked get task. -/
def afterPut : LoopAt → LoopAt
  | .waiting .parked => .waiting .woken
  | l => l

/-- Setting the event wakes a parked loop. -/
def afterSet : LoopAt → LoopAt
  | .parked item => .woken item
  | l => l

theorem held_afterPut (l : LoopAt) : l.afterPut.held = l.held := by
  unfold afterPut
  split <;> rfl

theorem held_afterSet (l : LoopAt) : l.afterSet.held = l.held := by
  unfold afterSet
  split <;> rfl

theorem afterPut_ne_waiting_parked (l : LoopAt) : l.afterPut ≠ .waiting .parked := by
  unfold afterPut
  split
  · simp
  · next h => exact h

theorem afterPut_eq_parked {l : LoopAt} {item : RequestItem} (h : l.afterPut = .parked item) :
    l = .parked item := by
  unfold afterPut at h
  split at h
  · cases h
  · exact h

theorem afterSet_ne_parked (l : LoopAt) (item : RequestItem) : l.afterSet ≠ .parked item := by
  unfold afterSet
  split
  · simp
  · next h => exact h item

theorem afterSet_eq_waiting {l : LoopAt} {get : GetTask} (h : l.afterSet = .waiting get) :
    l = .waiting get := by
  unfold afterSet at h
  split at h
  · cases h
  · exact h

end LoopAt

namespace WaitingLoop

def start (scheduler : DPScheduler) : WaitingLoop where
  scheduler := scheduler
  schEvent := false
  waitingQueue := []
  loopAt := .created
  put := []
  submitted := []

def putRequest (s : WaitingLoop) (item : RequestItem) : WaitingLoop :=
  { s with
    waitingQueue := s.waitingQueue ++ [item]
    loopAt := s.loopAt.afterPut
    put := s.put ++ [item] }

/-- A call for an unknown sequence raises in its caller, before the event is set. -/
def delSeq (s : WaitingLoop) (seqId : ℤ) : WaitingLoop :=
  match DPScheduler.delSeq seqId s.scheduler with
  | .ok _ scheduler =>
    { s with scheduler := scheduler, schEvent := true, loopAt := s.loopAt.afterSet }
  | .error _ scheduler => { s with scheduler := scheduler }

/-- The get task runs. -/
def runGet (s : WaitingLoop) : WaitingLoop :=
  match s.waitingQueue with
  | [] => { s with loopAt := .waiting .parked }
  | item :: rest => { s with waitingQueue := rest, loopAt := .taken item }

/-- `schedule` answered with `rank`. The event may be set before the loop waits for
it: then the wait returns at once and the event is cleared. -/
def tried (s : WaitingLoop) (item : RequestItem) (rank : ℤ) (scheduler : DPScheduler) :
    WaitingLoop :=
  if rank < 0 then
    if s.schEvent then
      { s with scheduler := scheduler, schEvent := false, loopAt := .trying item }
    else { s with scheduler := scheduler, loopAt := .parked item }
  else
    { s with
      scheduler := scheduler
      loopAt := .waiting .created
      submitted := s.submitted ++ [⟨item, rank, s.scheduler⟩] }

/-- A piece of the loop between two awaits. -/
inductive LoopStep (s : WaitingLoop) : WaitingLoop → Prop
  | enter (h : s.loopAt = .created) : LoopStep s { s with loopAt := .waiting .created }
  | get (g : GetTask) (h : s.loopAt = .waiting g) (hg : g ≠ .parked) : LoopStep s s.runGet
  | wait (item : RequestItem) (h : s.loopAt = .taken item) :
      LoopStep s { s with loopAt := .cancelling item }
  | cancelled (item : RequestItem) (h : s.loopAt = .cancelling item) :
      LoopStep s { s with loopAt := .trying item }
  | schedule (item : RequestItem) (rank : ℤ) (scheduler : DPScheduler) (h : s.loopAt = .trying item)
      (hok : DPScheduler.schedule [item.request] s.scheduler = .ok [rank] scheduler) :
      LoopStep s (s.tried item rank scheduler)
  | resume (item : RequestItem) (h : s.loopAt = .woken item) :
      LoopStep s { s with schEvent := false, loopAt := .trying item }

/-- The loop runs, or another callback does while the loop awaits. -/
inductive Step (s : WaitingLoop) : WaitingLoop → Prop
  | loop {s' : WaitingLoop} (h : LoopStep s s') : Step s s'
  | putRequest (item : RequestItem) (h : ∀ i, s.loopAt ≠ .trying i) : Step s (s.putRequest item)
  | delSeq (seqId : ℤ) (h : ∀ i, s.loopAt ≠ .trying i) : Step s (s.delSeq seqId)

/-! ### One request -/

/-- Scheduling one request answers with a rank that has the blocks, or with none when
no rank has them. -/
theorem schedule_one_total {d : DPScheduler} (h : d.Ready) (item : RequestItem) :
    ∃ rank d', DPScheduler.schedule [item.request] d = .ok [rank] d' ∧ d'.Ready ∧
      (0 ≤ rank ∧ DPScheduler.HasRoom d (item.required d) rank ∨
        rank = -1 ∧ item.required d' = item.required d ∧
          (0 < item.required d' → d'.NoRoom (item.required d'))) := by
  obtain ⟨rank, c, hpolicy, hc, hroom | ⟨rfl, hno⟩⟩ :=
    DPScheduler.policySchedule_total h item.prefillLen item.outputLen
  · obtain ⟨k, stat, rfl, hstat, hle⟩ := hroom
    have hadd : DPScheduler.addSeq item.reqId item.prefillLen item.outputLen k
        { d with curRank := c } = .ok ⟨⟩ _ := DPScheduler.addSeq_ok_iff.mpr ⟨stat, hstat, rfl⟩
    refine ⟨k, _, DPScheduler.schedule_cons_placed hpolicy hadd rfl,
      h.place (List.getElem?_eq_some_iff.mp hstat).1 hc, .inl ⟨Int.natCast_nonneg k, ?_⟩⟩
    exact ⟨k, stat, rfl, hstat, hle⟩
  · exact ⟨-1, _, DPScheduler.schedule_cons_refused hpolicy rfl, h.turn hc, .inr ⟨rfl, rfl, hno⟩⟩

/-! ### The invariant -/

/-- Requests in order, and what a parked loop and a parked get task know. -/
structure Inv (s : WaitingLoop) : Prop where
  ready : s.scheduler.Ready
  order : s.put = s.submitted.map (·.item) ++ s.loopAt.held ++ s.waitingQueue
  room : ∀ sub ∈ s.submitted, DPScheduler.HasRoom sub.before (sub.item.required sub.before) sub.rank
  parked : ∀ item, s.loopAt = .parked item → s.schEvent = false ∧
    (0 < item.required s.scheduler → s.scheduler.NoRoom (item.required s.scheduler))
  empty : s.loopAt = .waiting .parked → s.waitingQueue = []

variable {s s' : WaitingLoop}

theorem Inv.start {d : DPScheduler} (h : d.Ready) : Inv (start d) :=
  ⟨h, rfl, by simp [WaitingLoop.start], by simp [WaitingLoop.start], by simp [WaitingLoop.start]⟩

theorem Inv.putRequest (h : Inv s) (item : RequestItem) : Inv (s.putRequest item) where
  ready := h.ready
  order := by
    simp only [WaitingLoop.putRequest, LoopAt.held_afterPut]
    rw [h.order, List.append_assoc]
  room := h.room
  parked i hi := h.parked i (LoopAt.afterPut_eq_parked hi)
  empty hw := absurd hw (LoopAt.afterPut_ne_waiting_parked _)

/-- A release wakes the loop. -/
theorem Inv.delSeq (h : Inv s) (seqId : ℤ) : Inv (s.delSeq seqId) := by
  unfold WaitingLoop.delSeq
  by_cases hlive : seqId ∈ s.scheduler.seqRanks
  · obtain ⟨d, hdel⟩ := h.ready.delSeq hlive
    rw [hdel]
    refine ⟨h.ready.delete hdel, ?_, h.room, fun item hi => ?_, fun hw => ?_⟩
    · dsimp only
      rw [LoopAt.held_afterSet, h.order]
    · exact absurd hi (LoopAt.afterSet_ne_parked _ item)
    · exact h.empty (LoopAt.afterSet_eq_waiting hw)
  · rw [DPScheduler.delSeq_unknown hlive]
    exact h

theorem Inv.runGet (h : Inv s) {g : GetTask} (hl : s.loopAt = .waiting g) : Inv s.runGet := by
  have horder := h.order
  rw [hl] at horder
  unfold WaitingLoop.runGet
  cases hq : s.waitingQueue with
  | nil =>
    rw [hq] at horder
    exact ⟨h.ready, horder, h.room, by simp, fun _ => rfl⟩
  | cons item rest =>
    rw [hq] at horder
    exact ⟨h.ready, by simpa [LoopAt.held] using horder, h.room, by simp, by simp⟩

/-- Moving on with the same request. -/
theorem Inv.move (h : Inv s) {l : LoopAt} (hheld : l.held = s.loopAt.held)
    (hparked : ∀ item, l ≠ .parked item) (hget : l ≠ .waiting .parked) (event : Bool) :
    Inv { s with schEvent := event, loopAt := l } :=
  ⟨h.ready, by rw [h.order, ← hheld], h.room, fun item hi => absurd hi (hparked item),
    fun hw => absurd hw hget⟩

theorem Inv.tried (h : Inv s) {item : RequestItem} {rank : ℤ} {d : DPScheduler}
    (hl : s.loopAt = .trying item)
    (hok : DPScheduler.schedule [item.request] s.scheduler = .ok [rank] d) :
    Inv (s.tried item rank d) := by
  obtain ⟨rank', d', hok', hready, hcases⟩ := schedule_one_total h.ready item
  cases hok.symm.trans hok'
  have horder := h.order
  rw [hl] at horder
  unfold WaitingLoop.tried
  rcases hcases with ⟨hrank, hroom⟩ | ⟨rfl, -, hno⟩
  · rw [if_neg (not_lt.mpr hrank)]
    refine ⟨hready, by simpa [LoopAt.held] using horder, fun sub hsub => ?_, by simp, by simp⟩
    rcases List.mem_append.mp hsub with hsub | hsub
    · exact h.room sub hsub
    · rw [List.mem_singleton.mp hsub]
      exact hroom
  · rw [if_pos (by decide)]
    split_ifs with hevent
    · exact ⟨hready, horder, h.room, by simp, by simp⟩
    · refine ⟨hready, horder, h.room, fun i hi => ?_, by simp⟩
      cases hi
      exact ⟨by simpa using hevent, hno⟩

theorem Inv.loop (h : Inv s) (hs : LoopStep s s') : Inv s' := by
  cases hs with
  | enter hl => exact h.move (by rw [hl]; rfl) (by simp) (by simp) s.schEvent
  | get g hl hg => exact h.runGet hl
  | wait item hl => exact h.move (by rw [hl]; rfl) (by simp) (by simp) s.schEvent
  | cancelled item hl => exact h.move (by rw [hl]; rfl) (by simp) (by simp) s.schEvent
  | schedule item rank d hl hok => exact h.tried hl hok
  | resume item hl => exact h.move (by rw [hl]; rfl) (by simp) (by simp) false

theorem Inv.step (h : Inv s) (hs : Step s s') : Inv s' := by
  cases hs with
  | loop hloop => exact h.loop hloop
  | putRequest item hl => exact h.putRequest item
  | delSeq seqId hl => exact h.delSeq seqId

/-- A loop that cannot run waits for a request no rank has the blocks for, or for a
request to be put. -/
theorem Inv.runs (h : Inv s) : (∃ s', LoopStep s s') ∨ (∃ item, s.loopAt = .parked item) ∨
    s.loopAt = .waiting .parked := by
  cases hl : s.loopAt with
  | created => exact .inl ⟨_, .enter hl⟩
  | waiting g =>
    cases g with
    | created => exact .inl ⟨_, .get _ hl (by simp)⟩
    | parked => exact .inr (.inr rfl)
    | woken => exact .inl ⟨_, .get _ hl (by simp)⟩
  | taken item => exact .inl ⟨_, .wait item hl⟩
  | cancelling item => exact .inl ⟨_, .cancelled item hl⟩
  | trying item =>
    obtain ⟨rank, d, hok, -⟩ := schedule_one_total h.ready item
    exact .inl ⟨_, .schedule item rank d hl hok⟩
  | parked item => exact .inr (.inl ⟨item, rfl⟩)
  | woken item => exact .inl ⟨_, .resume item hl⟩

/-- In every state of a run the requests put are those submitted, the one the loop
holds and those queued, in order; each was submitted with a rank that had its
blocks; and a loop that waits for the event, or cannot run, has nothing to do: no
rank has the blocks for its request, or no request is queued. A request of no
blocks is left out: `max` may give it no rank. -/
theorem submits_in_order {dpSize blockSize : ℕ} {policy : Policy} {d : DPScheduler}
    (hd : DPScheduler.Configured dpSize blockSize policy d) (h : Reach (· = start d) Step s) :
    s.put = s.submitted.map (·.item) ++ s.loopAt.held ++ s.waitingQueue ∧
    (∀ sub ∈ s.submitted,
      DPScheduler.HasRoom sub.before (sub.item.required sub.before) sub.rank) ∧
    (∀ item, s.loopAt = .parked item → s.schEvent = false ∧
      (0 < item.required s.scheduler → s.scheduler.NoRoom (item.required s.scheduler))) ∧
    ((∃ s', LoopStep s s') ∨ (∃ item, s.loopAt = .parked item) ∨
      s.loopAt = .waiting .parked ∧ s.waitingQueue = []) := by
  obtain ⟨-, -, -, hready, -⟩ := hd.eq
  have hinv : Inv s :=
    h.invariant (by rintro _ rfl; exact .start hready) fun _ _ hI hs => hI.step hs
  refine ⟨hinv.order, hinv.room, hinv.parked, ?_⟩
  rcases hinv.runs with hrun | hparked | hwait
  · exact .inl hrun
  · exact .inr (.inl hparked)
  · exact .inr (.inr ⟨hwait, hinv.empty hwait⟩)

/-- The loop over two ranks of 3 and 5 blocks, waiting for a request of 11. -/
theorem submits_in_order_elevenBlocks :
    ∃ s : WaitingLoop, s.loopAt = .parked ⟨7, 40, 4⟩ ∧ s.put = [⟨7, 40, 4⟩] ∧
      (0 < RequestItem.required ⟨7, 40, 4⟩ s.scheduler →
        s.scheduler.NoRoom (RequestItem.required ⟨7, 40, 4⟩ s.scheduler)) := by
  have hd : DPScheduler.Configured 2 4 .max DPScheduler.twoFree :=
    ⟨rfl, trivial, [(0, 3), (1, 5)], _, rfl, rfl⟩
  have hstart : Reach (· = start DPScheduler.twoFree) Step (start DPScheduler.twoFree) := .start rfl
  have henter := hstart.next (.loop (.enter rfl))
  have hput := henter.next (.putRequest ⟨7, 40, 4⟩ (by simp))
  have hget := hput.next (.loop (.get .created rfl (by simp)))
  have hwait := hget.next (.loop (.wait ⟨7, 40, 4⟩ rfl))
  have hcancelled := hwait.next (.loop (.cancelled ⟨7, 40, 4⟩ rfl))
  have hparked := hcancelled.next (.loop (.schedule ⟨7, 40, 4⟩ (-1) DPScheduler.twoFree rfl rfl))
  exact ⟨_, rfl, rfl, ((submits_in_order hd hparked).2.2.1 ⟨7, 40, 4⟩ rfl).2⟩

end WaitingLoop

end StreamInfer.Kv
