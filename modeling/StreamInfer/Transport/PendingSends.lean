import StreamInfer.General.Reach

/-! The pending sends of a dispatcher and its spin counter. The counter is raised by
`clean_pending_sends` when the first send is not ready, and cleared by it when that
send retires. A send that retires in `drain_pending_sends_to` leaves the counter as it
is, and so does one that completes behind the first. While neither happens with the
counter raised, the counter never exceeds the queries that the first send has been
waited for, and the dispatcher aborts on a stuck send only. -/

namespace StreamInfer.Transport

open General

variable {B : Type}

/-- A batch that was sent and whether its event has completed. -/
structure PendingSend (B : Type) where
  batch : B
  done : Bool
  deriving DecidableEq

/-- Where `run` is. A message to send comes with whether its channel is a NIXL channel. -/
inductive RunLocation (B : Type) where
  | cleaning
  | waiting
  | sending (messages : List (Bool × B))
  | aborted
  deriving DecidableEq

structure MuDispatcher (B : Type) where
  maxPendingSends : ℕ
  pendingSends : List (PendingSend B)
  spinCount : ℕ
  location : RunLocation B
  deriving DecidableEq

namespace MuDispatcher

def new (maxPendingSends : ℕ) : MuDispatcher B := ⟨maxPendingSends, [], 0, .cleaning⟩

/-- A pass of the loop of `clean_pending_sends`. -/
def cleanPendingSends (d : MuDispatcher B) : MuDispatcher B :=
  match d.pendingSends with
  | [] => { d with location := .waiting }
  | pr :: rest =>
    if pr.done then { d with
      pendingSends := rest
      spinCount := 0 }
    else if 10000 < d.spinCount + 1 then { d with
      pendingSends := []
      spinCount := d.spinCount + 1
      location := .aborted }
    else { d with
      spinCount := d.spinCount + 1
      location := .waiting }

section

variable {d : MuDispatcher B} {batch : B} {rest : List (PendingSend B)}

theorem cleanPendingSends_nil (hp : d.pendingSends = []) :
    d.cleanPendingSends = { d with location := .waiting } := by
  simp [cleanPendingSends, hp]

theorem cleanPendingSends_done (hp : d.pendingSends = ⟨batch, true⟩ :: rest) :
    d.cleanPendingSends = { d with
      pendingSends := rest
      spinCount := 0 } := by
  simp [cleanPendingSends, hp]

theorem cleanPendingSends_blocked (hp : d.pendingSends = ⟨batch, false⟩ :: rest) :
    d.cleanPendingSends = if 10000 < d.spinCount + 1 then { d with
        pendingSends := []
        spinCount := d.spinCount + 1
        location := .aborted }
      else { d with
        spinCount := d.spinCount + 1
        location := .waiting } := by
  simp [cleanPendingSends, hp]

end

/-- A pass of the loop of `drain_pending_sends_to`. -/
def drainPendingSends (d : MuDispatcher B) : MuDispatcher B :=
  match d.pendingSends with
  | [] => d
  | pr :: rest => if pr.done then { d with pendingSends := rest } else d

/-- The end of `send_batch_nonblocking`, which records an event but for NIXL channels. -/
def sendBatch (isNixl : Bool) (batch : B) (d : MuDispatcher B) : MuDispatcher B :=
  if isNixl then d else { d with pendingSends := d.pendingSends ++ [⟨batch, false⟩] }

end MuDispatcher

/-- A dispatcher and the queries that found its first pending send not ready since a
pending send completed last. -/
structure Watched (B : Type) where
  dispatcher : MuDispatcher B
  waited : ℕ
  deriving DecidableEq

namespace Watched

/-- What the thread does next, or the event of a pending send that completes. -/
inductive Action (B : Type) where
  | clean
  | fetch (messages : List (Bool × B))
  | drain
  | send
  | sent
  | complete (j : ℕ)

/-- The count after a query of the first pending send. -/
def afterQuery (w : Watched B) : ℕ :=
  match w.dispatcher.pendingSends with
  | [] => w.waited
  | pr :: _ => if pr.done then 0 else w.waited + 1

theorem afterQuery_done {w : Watched B} {batch : B} {rest : List (PendingSend B)}
    (hp : w.dispatcher.pendingSends = ⟨batch, true⟩ :: rest) : w.afterQuery = 0 := by
  simp [afterQuery, hp]

theorem afterQuery_blocked {w : Watched B} {batch : B} {rest : List (PendingSend B)}
    (hp : w.dispatcher.pendingSends = ⟨batch, false⟩ :: rest) : w.afterQuery = w.waited + 1 := by
  simp [afterQuery, hp]

def at_ (w : Watched B) (location : RunLocation B) : Watched B :=
  { w with dispatcher := { w.dispatcher with location := location } }

/-- A step of `run`, or the completion of a send. -/
def step (a : Action B) (w : Watched B) : Option (Watched B) :=
  match a, w.dispatcher.location with
  | .clean, .cleaning => some ⟨w.dispatcher.cleanPendingSends, w.afterQuery⟩
  | .fetch messages, .waiting => some (w.at_ (.sending messages))
  | .drain, .sending (_ :: _) =>
    if w.dispatcher.maxPendingSends ≤ w.dispatcher.pendingSends.length then
      some ⟨w.dispatcher.drainPendingSends, w.afterQuery⟩
    else none
  | .send, .sending ((isNixl, batch) :: messages) =>
    if w.dispatcher.pendingSends.length < w.dispatcher.maxPendingSends then
      some (({ w with dispatcher := w.dispatcher.sendBatch isNixl batch } : Watched B).at_
        (.sending messages))
    else none
  | .sent, .sending [] => some (w.at_ .cleaning)
  | .complete j, _ =>
    match w.dispatcher.pendingSends[j]? with
    | some ⟨batch, false⟩ => some
        { dispatcher := { w.dispatcher with
            pendingSends := w.dispatcher.pendingSends.set j ⟨batch, true⟩ }
          waited := 0 }
    | _ => none
  | _, _ => none

/-- The first pending send has not completed. -/
def Blocked (w : Watched B) : Prop :=
  ∃ batch rest, w.dispatcher.pendingSends = ⟨batch, false⟩ :: rest

/-- A send retires in the drain, or completes behind one that has not, only while the
counter is zero. -/
def Counts (a : Action B) (w : Watched B) : Prop :=
  match a with
  | .drain => ¬ w.Blocked → w.dispatcher.spinCount = 0
  | .complete j => 0 < j → w.Blocked → w.dispatcher.spinCount = 0
  | _ => True

def start (maxPendingSends : ℕ) : Watched B := ⟨.new maxPendingSends, 0⟩

def Run (maxPendingSends : ℕ) : Watched B → Prop :=
  Reach (· = start maxPendingSends) fun w w' => ∃ a, step a w = some w'

/-- A run whose steps all keep the counter. -/
def CountedRun (maxPendingSends : ℕ) : Watched B → Prop :=
  Reach (· = start maxPendingSends) fun w w' => ∃ a, step a w = some w' ∧ w.Counts a

/-! ### The counter -/

/-- The counter is at most the queries that the first pending send was waited for. -/
structure Counted (w : Watched B) : Prop where
  idle : w.dispatcher.location ≠ .aborted → w.dispatcher.pendingSends = [] →
    w.dispatcher.spinCount = 0
  blocked : w.Blocked → w.dispatcher.spinCount ≤ w.waited
  aborted : w.dispatcher.location = .aborted → w.dispatcher.pendingSends = [] ∧ 10000 < w.waited

theorem counted_start (maxPendingSends : ℕ) : Counted (start maxPendingSends : Watched B) where
  idle _ _ := rfl
  blocked h := by
    obtain ⟨batch, rest, hpr⟩ := h
    exact absurd hpr nofun
  aborted h := absurd h nofun

variable {w w' : Watched B}

theorem Counted.clean (h : w.Counted) (hl : w.dispatcher.location = .cleaning) :
    Counted ⟨w.dispatcher.cleanPendingSends, w.afterQuery⟩ := by
  have hrun : w.dispatcher.location ≠ .aborted := by simp [hl]
  rcases hp : w.dispatcher.pendingSends with _ | ⟨⟨batch, _ | _⟩, rest⟩
  · rw [MuDispatcher.cleanPendingSends_nil hp]
    refine ⟨fun _ _ => h.idle hrun hp, ?_, fun hab => absurd hab nofun⟩
    rintro ⟨batch, rest, hpr⟩
    rw [hp] at hpr
    exact absurd hpr nofun
  · have hle := h.blocked ⟨batch, rest, hp⟩
    rw [MuDispatcher.cleanPendingSends_blocked hp, afterQuery_blocked hp]
    split_ifs with habort
    · refine ⟨fun hne => absurd rfl hne, ?_, fun _ => ⟨rfl, by dsimp only; omega⟩⟩
      rintro ⟨batch, rest, hpr⟩
      exact absurd hpr nofun
    · refine ⟨fun _ hnil => ?_, fun _ => Nat.succ_le_succ hle, fun hab => absurd hab nofun⟩
      rw [hp] at hnil
      exact absurd hnil nofun
  · rw [MuDispatcher.cleanPendingSends_done hp, afterQuery_done hp]
    exact ⟨fun _ _ => rfl, fun _ => Nat.zero_le _, fun hab => absurd hab hrun⟩

theorem Counted.drain (h : w.Counted) (hrun : w.dispatcher.location ≠ .aborted)
    (hc : ¬ w.Blocked → w.dispatcher.spinCount = 0) :
    Counted ⟨w.dispatcher.drainPendingSends, w.afterQuery⟩ := by
  rcases hp : w.dispatcher.pendingSends with _ | ⟨⟨batch, _ | _⟩, rest⟩
  · have hsame : (⟨w.dispatcher.drainPendingSends, w.afterQuery⟩ : Watched B) = w := by
      simp [MuDispatcher.drainPendingSends, afterQuery, hp]
    rw [hsame]
    exact h
  · have hsame : w.dispatcher.drainPendingSends = w.dispatcher := by
      simp [MuDispatcher.drainPendingSends, hp]
    rw [hsame, afterQuery_blocked hp]
    exact ⟨h.idle, fun hb => (h.blocked hb).trans (Nat.le_succ _), fun hab => absurd hab hrun⟩
  · have hzero : w.dispatcher.spinCount = 0 := by
      apply hc
      rintro ⟨batch', rest', hb⟩
      rw [hp] at hb
      exact absurd hb (by simp)
    have hretired : w.dispatcher.drainPendingSends = { w.dispatcher with pendingSends := rest } := by
      simp [MuDispatcher.drainPendingSends, hp]
    rw [hretired]
    exact ⟨fun _ _ => hzero, fun _ => hzero.trans_le (Nat.zero_le _), fun hab => absurd hab hrun⟩

theorem Counted.sendBatch (h : w.Counted) (hrun : w.dispatcher.location ≠ .aborted)
    (isNixl : Bool) (batch : B) :
    Counted { w with dispatcher := w.dispatcher.sendBatch isNixl batch } := by
  unfold MuDispatcher.sendBatch
  split_ifs
  · exact h
  · refine ⟨fun _ hnil => absurd hnil (by simp), ?_, fun hab => absurd hab hrun⟩
    rintro ⟨batch', rest', hb⟩
    -- the counter is zero when the new send is the first
    rcases hp : w.dispatcher.pendingSends with _ | ⟨pr, rest⟩
    · exact (h.idle hrun hp).trans_le (Nat.zero_le _)
    · rw [hp] at hb
      obtain ⟨rfl, -⟩ := List.cons.inj hb
      exact h.blocked ⟨batch', rest, hp⟩

theorem Counted.complete (h : w.Counted) {j : ℕ} {batch : B}
    (hj : w.dispatcher.pendingSends[j]? = some ⟨batch, false⟩)
    (hc : 0 < j → w.Blocked → w.dispatcher.spinCount = 0) :
    Counted
      { dispatcher := { w.dispatcher with
          pendingSends := w.dispatcher.pendingSends.set j ⟨batch, true⟩ }
        waited := 0 } := by
  rcases hp : w.dispatcher.pendingSends with _ | ⟨pr, rest⟩
  · rw [hp] at hj
    exact absurd hj nofun
  · refine ⟨fun _ hnil => absurd hnil (by simp), ?_, ?_⟩
    · rintro ⟨batch', rest', hb⟩
      cases j with
      | zero => exact absurd (List.cons.inj hb).1 (by simp)
      | succ j =>
        obtain ⟨rfl, -⟩ := List.cons.inj hb
        exact (hc j.succ_pos ⟨batch', rest, hp⟩).le
    · intro hab
      exact absurd (hp.symm.trans (h.aborted hab).1) nofun

theorem Counted.at_ (h : w.Counted) (hrun : w.dispatcher.location ≠ .aborted)
    {location : RunLocation B} (hl : location ≠ .aborted) : (w.at_ location).Counted :=
  ⟨fun _ => h.idle hrun, h.blocked, fun hab => absurd hab hl⟩

theorem Counted.step {a : Action B} (h : w.Counted) (hs : w.step a = some w')
    (hc : w.Counts a) : w'.Counted := by
  unfold Watched.step at hs
  split at hs
  · rename_i hl
    obtain rfl := Option.some.inj hs
    exact h.clean hl
  · rename_i hl
    obtain rfl := Option.some.inj hs
    exact h.at_ (by simp [hl]) (by simp)
  · rename_i hl
    split_ifs at hs
    obtain rfl := Option.some.inj hs
    exact h.drain (by simp [hl]) hc
  · rename_i isNixl batch messages hl
    split_ifs at hs
    obtain rfl := Option.some.inj hs
    have hrun : w.dispatcher.location ≠ .aborted := by simp [hl]
    refine (h.sendBatch hrun isNixl batch).at_ ?_ (by simp)
    unfold MuDispatcher.sendBatch
    split_ifs <;> exact hrun
  · rename_i hl
    obtain rfl := Option.some.inj hs
    exact h.at_ (by simp [hl]) (by simp)
  · split at hs
    · rename_i hj
      obtain rfl := Option.some.inj hs
      exact h.complete hj hc
    · exact absurd hs nofun
  · exact absurd hs nofun

/-- In a run that keeps the counter, the dispatcher aborts only when one pending send was
found not ready by more than 10000 queries without a completion in between. -/
theorem aborts_only_when_stuck {maxPendingSends : ℕ} (h : CountedRun maxPendingSends w)
    (hab : w.dispatcher.location = .aborted) : 10000 < w.waited := by
  have hcounted : w.Counted := by
    refine Reach.invariant (fun s hs => hs ▸ counted_start maxPendingSends) ?_ h
    rintro s s' hI ⟨a, hs, hc⟩
    exact hI.step hs hc
  exact (hcounted.aborted hab).2

/-! ### Two runs that abort -/

/-- A dispatcher with one send pending. -/
def onePending (maxPendingSends spinCount waited : ℕ) (location : RunLocation Unit) :
    Watched Unit :=
  ⟨⟨maxPendingSends, [⟨(), false⟩], spinCount, location⟩, waited⟩

theorem step_clean_onePending {maxPendingSends spinCount waited : ℕ} (h : spinCount < 10000) :
    (onePending maxPendingSends spinCount waited .cleaning).step .clean =
      some (onePending maxPendingSends (spinCount + 1) (waited + 1) .waiting) := by
  have hspin : ¬ 10000 < spinCount + 1 := by omega
  simp [Watched.step, onePending, MuDispatcher.cleanPendingSends, afterQuery, hspin]

theorem step_clean_abort {maxPendingSends waited : ℕ} :
    (onePending maxPendingSends 10000 waited .cleaning).step .clean =
      some ⟨⟨maxPendingSends, [], 10001, .aborted⟩, waited + 1⟩ := by
  simp [Watched.step, onePending, MuDispatcher.cleanPendingSends, afterQuery]

/-- The first send is stuck and what follows goes to NIXL channels. -/
theorem countedRun_stuck {n : ℕ} (hn : n ≤ 10000) : CountedRun 2 (onePending 2 n n .cleaning) := by
  induction n with
  | zero =>
    have hstart : CountedRun 2 (start 2 : Watched Unit) := .start rfl
    have hfetched := (hstart.next ⟨.clean, rfl, trivial⟩).next ⟨.fetch [(false, ())], rfl, trivial⟩
    exact (hfetched.next ⟨.send, rfl, trivial⟩).next ⟨.sent, rfl, trivial⟩
  | succ n ih =>
    have hcleaned := (ih (by omega)).next ⟨.clean, step_clean_onePending (by omega), trivial⟩
    have hfetched := hcleaned.next ⟨.fetch [(true, ())], rfl, trivial⟩
    exact (hfetched.next ⟨.send, rfl, trivial⟩).next ⟨.sent, rfl, trivial⟩

theorem aborts_only_when_stuck_stuck :
    CountedRun 2 (⟨⟨2, [], 10001, .aborted⟩, 10001⟩ : Watched Unit) ∧ 10000 < 10001 := by
  have hrun : CountedRun 2 (⟨⟨2, [], 10001, .aborted⟩, 10001⟩ : Watched Unit) :=
    (countedRun_stuck le_rfl).next ⟨.clean, step_clean_abort, trivial⟩
  exact ⟨hrun, aborts_only_when_stuck hrun rfl⟩

/-- With room for one send, each new send waits in the drain for the one before it. -/
theorem run_turnover {n : ℕ} (hn : n ≤ 10000) : Run 1 (onePending 1 n 0 .cleaning) := by
  induction n with
  | zero =>
    have hstart : Run 1 (start 1 : Watched Unit) := .start rfl
    have hfetched := (hstart.next ⟨.clean, rfl⟩).next ⟨.fetch [(false, ())], rfl⟩
    exact (hfetched.next ⟨.send, rfl⟩).next ⟨.sent, rfl⟩
  | succ n ih =>
    have hcleaned := (ih (by omega)).next ⟨.clean, step_clean_onePending (by omega)⟩
    have hfetched := hcleaned.next ⟨.fetch [(false, ())], rfl⟩
    have hdrained := (hfetched.next ⟨.complete 0, rfl⟩).next ⟨.drain, rfl⟩
    exact (hdrained.next ⟨.send, rfl⟩).next ⟨.sent, rfl⟩

/-- A dispatcher aborts although every send but the last completed, each after one query
that found it not ready. -/
theorem turnover_aborts :
    ∃ w : Watched Unit, Run 1 w ∧ w.dispatcher.location = .aborted ∧ w.waited = 1 :=
  ⟨_, (run_turnover le_rfl).next ⟨.clean, step_clean_abort⟩, rfl, rfl⟩

end Watched

end StreamInfer.Transport
