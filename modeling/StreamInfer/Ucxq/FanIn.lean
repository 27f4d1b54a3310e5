import StreamInfer.Ucxq.BoundedFifo

/-! The receiver on its ring. Both enqueue sites of the progress thread try 64 times and
then assert. Where `dequeue` follows, no enqueue overflows, and what it has returned is a
prefix of the messages that completed. What it has not returned is in the ring or in the
hands of the progress thread, and the two threads bring it out without another receive. A
consumer that pauses while 1024 messages complete makes an assertion fail. -/

namespace StreamInfer.Ucxq

open General Relation

variable {T : Type}

/-- The two enqueue sites. -/
inductive Site where
  | progressThread
  | onRecvCallback
  deriving DecidableEq

/-- Where the progress thread is. -/
inductive Progress (T : Type) where
  | idle
  /-- Attempt `spin` to enqueue `m`. -/
  | spinning (site : Site) (m : T) (spin : ℕ)
  /-- The assertion of the site failed. -/
  | overflowed (site : Site) (m : T)

/-- The message of a receive that completed and is not yet behind `head_`. -/
def Progress.pending : Progress T → List T
  | .idle => []
  | .spinning _ m _ | .overflowed _ m => [m]

/-- A receiver and the messages whose receives completed. Those that `dequeue` returned are
the dequeued items of the ring. -/
structure FanInQueueReceiver (T : Type) where
  q : RingThreads T
  producer : Progress T
  completed : List T

namespace FanInQueueReceiver

/-- A receive completes with a status. -/
def complete (site : Site) (ok : Bool) (m : T) (s : FanInQueueReceiver T) :
    Option (FanInQueueReceiver T) :=
  match s.producer with
  | .idle => some <|
    if ok then { s with
      q := { s.q with item := m }
      producer := .spinning site m 0
      completed := s.completed ++ [m] }
    else s
  | _ => none

/-- The last attempt of an enqueue loads `tail_` when at most 1023 messages, its own among
them, are not returned by `dequeue`. -/
def MayLoad (s : FanInQueueReceiver T) : Prop :=
  match s.producer, s.q.producer with
  | .spinning _ _ 63, .loadedHead _ _ => s.completed.length ≤ s.q.dequeued.length + 1023
  | _, _ => True

section

variable [Inhabited T]

def start : FanInQueueReceiver T := ⟨.start 1024, .idle, []⟩

/-- The next access of the progress thread within an enqueue. -/
def produce (s : FanInQueueReceiver T) : Option (FanInQueueReceiver T) :=
  match s.producer with
  | .spinning site m spin => some <|
    match s.q.produce s.q.item with
    | (.enqueueTrue, q) => { s with
        q := q
        producer := .idle }
    | (.enqueueFalse _, q) => { s with
        q := q
        producer := if spin + 1 < 64 then .spinning site m (spin + 1) else .overflowed site m }
    | (_, q) => { s with q := q }
  | _ => none

/-- The next access of the receiving thread. A call that blocks repeats `try_dequeue`. -/
def consume (s : FanInQueueReceiver T) : FanInQueueReceiver T :=
  { s with q := s.q.consume.2 }

end

inductive Action (T : Type) where
  | complete (site : Site) (ok : Bool) (m : T)
  | produce
  | consume

/-- The condition on an action of a run in which `dequeue` follows. -/
def Follows (a : Action T) (s : FanInQueueReceiver T) : Prop :=
  match a with
  | .produce => s.MayLoad
  | _ => True

section

variable [Inhabited T]

def step (a : Action T) (s : FanInQueueReceiver T) : Option (FanInQueueReceiver T) :=
  match a with
  | .complete site ok m => s.complete site ok m
  | .produce => s.produce
  | .consume => some s.consume

def Run : FanInQueueReceiver T → Prop :=
  Reach (· = start) fun s s' => ∃ a, step a s = some s'

/-- A run in which `dequeue` follows. -/
def FollowedRun : FanInQueueReceiver T → Prop :=
  Reach (· = start) fun s s' => ∃ a, step a s = some s' ∧ s.Follows a

/-- A step of one of the two threads within its loop. -/
def ThreadStep (s s' : FanInQueueReceiver T) : Prop :=
  s.produce = some s' ∨ s.consume = s'

end

end FanInQueueReceiver

/-! ### The receiver in a run -/

/-- A call of `try_enqueue` is for `m`. -/
def Enqueue.IsFor (m item : T) : Enqueue T → Prop
  | .idle => item = m
  | .entered arg | .loadedHead arg _ | .hasRoom arg _ | .moved arg _ => arg = m

/-- The progress thread calls for the message of its site. -/
def Progress.Calls (q : RingThreads T) : Progress T → Prop
  | .idle => q.producer = .idle
  | .spinning _ m spin => q.producer.IsFor m q.item ∧ spin ≤ 63
  | .overflowed _ _ => False

namespace FanInQueueReceiver

/-- The ring is in order, and completed messages are in it or at the site that spins. -/
structure Holds (s : FanInQueueReceiver T) : Prop where
  counts : s.q.Counts 1024
  completed : s.completed = s.q.enqueued ++ s.producer.pending
  calls : s.producer.Calls s.q

variable {s s' : FanInQueueReceiver T}

theorem Holds.complete (h : s.Holds) {site : Site} {ok : Bool} {m : T}
    (hs : s.complete site ok m = some s') : s'.Holds := by
  unfold FanInQueueReceiver.complete at hs
  split at hs
  · rename_i hidle
    obtain rfl := Option.some.inj hs
    cases ok with
    | false => exact h
    | true =>
      have hq : s.q.producer = .idle := by
        have hcalls := h.calls
        rw [hidle] at hcalls
        exact hcalls
      have hall : s.completed = s.q.enqueued := by
        rw [h.completed, hidle]
        exact List.append_nil _
      refine ⟨{ h.counts with producer := ?_ }, congrArg (· ++ [m]) hall, ?_, Nat.zero_le 63⟩
      · show s.q.producer.Fits 1024 _ _ _ m
        rw [hq]
        trivial
      · show s.q.producer.IsFor m m
        rw [hq]
        rfl
  · exact absurd hs nofun

/-- The length of what completed while a site spins. -/
theorem Holds.length_completed (h : s.Holds) {site : Site} {m : T} {spin : ℕ}
    (hp : s.producer = .spinning site m spin) :
    s.completed.length = s.q.enqueued.length + 1 := by
  rw [h.completed, hp]
  exact List.length_append

theorem Holds.mayLoad (h : s.Holds) (hd : s.q.dequeued = s.q.enqueued) : s.MayLoad := by
  unfold MayLoad
  split
  · rename_i hp hq
    have hlength := h.length_completed hp
    rw [hd]
    omega
  · trivial

theorem Holds.calls_for (h : s.Holds) {site : Site} {m : T} {spin : ℕ}
    (hp : s.producer = .spinning site m spin) : s.q.producer.IsFor m s.q.item ∧ spin ≤ 63 := by
  have hcalls := h.calls
  rw [hp] at hcalls
  exact hcalls

theorem Holds.not_overflowed (h : s.Holds) (site : Site) (m : T) :
    s.producer ≠ .overflowed site m := by
  intro hp
  have hcalls := h.calls
  rw [hp] at hcalls
  exact hcalls

/-- The enqueue of a spinning site goes on. -/
theorem Holds.goes_on (h : s.Holds) {site : Site} {m : T} {spin : ℕ}
    (hp : s.producer = .spinning site m spin) {q : RingThreads T} (hcounts : q.Counts 1024)
    (henqueued : q.enqueued = s.q.enqueued) (hfor : q.producer.IsFor m q.item) :
    Holds { s with q := q } := by
  refine ⟨hcounts, ?_, ?_⟩
  · show s.completed = q.enqueued ++ s.producer.pending
    rw [henqueued]
    exact h.completed
  · show s.producer.Calls q
    rw [hp]
    exact ⟨hfor, (h.calls_for hp).2⟩

section

variable [Inhabited T]

theorem holds_start : (start : FanInQueueReceiver T).Holds :=
  ⟨RingThreads.counts_start (k := 10), rfl, rfl⟩

theorem Holds.consume (h : s.Holds) : s.consume.Holds := by
  obtain ⟨hproducer, hitem, henqueued⟩ := s.q.consume_frame
  refine ⟨h.counts.consume, ?_, ?_⟩
  · show s.completed = s.q.consume.2.enqueued ++ s.producer.pending
    rw [henqueued]
    exact h.completed
  · have hcalls := h.calls
    show s.producer.Calls s.q.consume.2
    cases hp : s.producer with
    | idle =>
      rw [hp] at hcalls
      exact hproducer.trans hcalls
    | spinning site m spin =>
      rw [hp] at hcalls
      show s.q.consume.2.producer.IsFor m s.q.consume.2.item ∧ spin ≤ 63
      rw [hproducer, hitem]
      exact hcalls
    | overflowed site m => exact absurd hp (h.not_overflowed site m)

theorem Holds.produce (h : s.Holds) (hs : s.produce = some s') (hload : s.MayLoad) :
    s'.Holds := by
  unfold FanInQueueReceiver.produce at hs
  split at hs
  · rename_i site m spin hp
    obtain rfl := Option.some.inj hs
    have hlength := h.length_completed hp
    have hcounts := h.counts.produce s.q.item
    obtain ⟨hcalls, hspin⟩ := h.calls_for hp
    have hcompleted : s.completed = s.q.enqueued ++ [m] := by
      rw [h.completed, hp]
      rfl
    cases hq : s.q.producer with
    | idle =>
      rw [hq] at hcalls
      simp only [RingThreads.produce, hq] at hcounts ⊢
      exact h.goes_on hp hcounts rfl hcalls
    | entered arg =>
      rw [hq] at hcalls
      simp only [RingThreads.produce, hq] at hcounts ⊢
      exact h.goes_on hp hcounts rfl hcalls
    | loadedHead arg head =>
      rw [hq] at hcalls
      have hfits := h.counts.producer
      rw [hq] at hfits
      obtain ⟨hitem, hhead⟩ := hfits
      by_cases hfull : s.q.q.next head = s.q.q.tail
      · have heq := (h.counts.full_iff hhead).mp hfull
        have hagain : spin + 1 < 64 := by
          by_contra hno
          obtain rfl : spin = 63 := by omega
          unfold MayLoad at hload
          rw [hp, hq] at hload
          have hload : s.completed.length ≤ s.q.dequeued.length + 1023 := hload
          omega
        simp only [RingThreads.produce, hq, hfull, if_true, hagain] at hcounts ⊢
        exact ⟨hcounts, hcompleted, hitem.trans hcalls, by omega⟩
      · simp only [RingThreads.produce, hq, hfull, if_false] at hcounts ⊢
        exact h.goes_on hp hcounts rfl hcalls
    | hasRoom arg head =>
      rw [hq] at hcalls
      simp only [RingThreads.produce, hq] at hcounts ⊢
      exact h.goes_on hp hcounts rfl hcalls
    | moved arg head =>
      rw [hq] at hcalls
      obtain rfl : arg = m := hcalls
      simp only [RingThreads.produce, hq] at hcounts ⊢
      exact ⟨hcounts, hcompleted.trans (List.append_nil _).symm, rfl⟩
  · exact absurd hs nofun

theorem Holds.step {a : Action T} (h : s.Holds) (hs : s.step a = some s') (hf : s.Follows a) :
    s'.Holds := by
  cases a with
  | complete site ok m => exact h.complete hs
  | produce => exact h.produce hs hf
  | consume => exact Option.some.inj hs ▸ h.consume

theorem FollowedRun.holds (h : FollowedRun s) : s.Holds := by
  refine Reach.invariant (I := Holds) ?_ ?_ h
  · rintro s rfl
    exact holds_start
  · rintro s s' hI ⟨a, hs, hf⟩
    exact hI.step hs hf

/-! ### Bringing the messages out -/

/-- The receiving thread empties the ring. The induction is on its accesses. -/
theorem Holds.drained (h : s.Holds) :
    ∃ s', ReflTransGen ThreadStep s s' ∧ s'.Holds ∧ s'.q.dequeued = s.q.enqueued ∧
      s'.q.enqueued = s.q.enqueued ∧ s'.producer = s.producer ∧ s'.completed = s.completed := by
  induction hn : s.q.toDrain using Nat.strong_induction_on generalizing s with
  | _ n ih =>
    rcases h.counts.length_le.eq_or_lt with heq | hlt
    · exact ⟨s, .refl, h, h.counts.inOrder.eq_of_length heq, rfl, rfl, rfl⟩
    · have hless : s.consume.q.toDrain < n := hn ▸ h.counts.consume_toDrain hlt
      obtain ⟨s', hr, hs', hd, he, hp, hc⟩ := ih _ hless h.consume rfl
      have henqueued : s.consume.q.enqueued = s.q.enqueued := s.q.consume_frame.2.2
      exact ⟨s', hr.head (.inr rfl), hs', hd.trans henqueued, he.trans henqueued, hp, hc⟩

/-- On an empty ring an access of a spinning site brings the enqueue nearer to its end. -/
theorem Holds.spin_empty (h : s.Holds) (hd : s.q.dequeued = s.q.enqueued) {site : Site} {m : T}
    {spin : ℕ} (hp : s.producer = .spinning site m spin) :
    ∃ s', s.produce = some s' ∧ s'.completed = s.completed ∧
      (s'.producer = .idle ∨ s'.producer = s.producer ∧ s'.q.dequeued = s'.q.enqueued ∧
        s'.q.producer.toStore < s.q.producer.toStore) := by
  unfold FanInQueueReceiver.produce
  rw [hp]
  refine ⟨_, rfl, ?_⟩
  cases hq : s.q.producer with
  | idle =>
    simp only [RingThreads.produce, hq]
    exact ⟨trivial, .inr ⟨trivial, hd, Nat.lt_succ_self 4⟩⟩
  | entered arg =>
    simp only [RingThreads.produce, hq]
    exact ⟨trivial, .inr ⟨trivial, hd, Nat.lt_succ_self 3⟩⟩
  | loadedHead arg head =>
    have hfits := h.counts.producer
    rw [hq] at hfits
    have hroom : s.q.q.next head ≠ s.q.q.tail := fun hfull => by
      have heq := (h.counts.full_iff hfits.2).mp hfull
      rw [hd] at heq
      omega
    simp only [RingThreads.produce, hq, hroom, if_false]
    exact ⟨trivial, .inr ⟨trivial, hd, Nat.lt_succ_self 2⟩⟩
  | hasRoom arg head =>
    simp only [RingThreads.produce, hq]
    exact ⟨trivial, .inr ⟨trivial, hd, Nat.lt_succ_self 1⟩⟩
  | moved arg head =>
    simp only [RingThreads.produce, hq]
    exact ⟨trivial, .inl trivial⟩

/-- On an empty ring the progress thread finishes its enqueue. -/
theorem Holds.stored (h : s.Holds) (hd : s.q.dequeued = s.q.enqueued) :
    ∃ s', ReflTransGen ThreadStep s s' ∧ s'.Holds ∧ s'.producer = .idle ∧
      s'.completed = s.completed := by
  induction hn : s.q.producer.toStore using Nat.strong_induction_on generalizing s with
  | _ n ih =>
    cases hp : s.producer with
    | idle => exact ⟨s, .refl, h, hp, rfl⟩
    | spinning site m spin =>
      obtain ⟨s₁, hs₁, hc₁, hidle | ⟨hp₁, hd₁, hless⟩⟩ := h.spin_empty hd hp
      · exact ⟨s₁, .single (.inl hs₁), h.produce hs₁ (h.mayLoad hd), hidle, hc₁⟩
      · obtain ⟨s', hr, hs', hidle, hc⟩ :=
          ih _ (hn ▸ hless) (h.produce hs₁ (h.mayLoad hd)) hd₁ rfl
        exact ⟨s', hr.head (.inl hs₁), hs', hidle, hc.trans hc₁⟩
    | overflowed site m => exact absurd hp (h.not_overflowed site m)

/-- In a run in which `dequeue` follows, neither assertion fails, `dequeue` has returned
messages that completed, once each and in their order, and the two threads bring out the
others. -/
theorem delivers_all (h : FollowedRun s) :
    (∀ site m, s.producer ≠ .overflowed site m) ∧ s.q.dequeued <+: s.completed ∧
      ∃ s', ReflTransGen ThreadStep s s' ∧ s'.completed = s.completed ∧
        s'.q.dequeued = s.completed := by
  have hs := h.holds
  refine ⟨hs.not_overflowed, ?_, ?_⟩
  · rw [hs.completed]
    exact hs.counts.inOrder.trans (List.prefix_append _ _)
  · obtain ⟨s₁, hr₁, h₁, hd₁, he₁, -, hc₁⟩ := hs.drained
    obtain ⟨s₂, hr₂, h₂, hp₂, hc₂⟩ := h₁.stored (hd₁.trans he₁.symm)
    obtain ⟨s₃, hr₃, h₃, hd₃, he₃, hp₃, hc₃⟩ := h₂.drained
    have hall : s₂.completed = s₂.q.enqueued := by
      rw [h₂.completed, hp₂]
      exact List.append_nil _
    have hcompleted : s₂.completed = s.completed := hc₂.trans hc₁
    exact ⟨s₃, (hr₁.trans hr₂).trans hr₃, hc₃.trans hcompleted,
      hd₃.trans (hall.symm.trans hcompleted)⟩

/-- A load of `tail_` in the last attempt that does not follow makes the assertion of its
site fail. -/
theorem Holds.overflows (h : s.Holds) {site : Site} {m arg : T} {head : ℕ}
    (hp : s.producer = .spinning site m 63) (hq : s.q.producer = .loadedHead arg head)
    (hf : ¬ s.Follows .produce) :
    ∃ s', s.produce = some s' ∧ s'.producer = .overflowed site m := by
  have hlag : s.q.dequeued.length + 1023 < s.completed.length := by
    unfold Follows MayLoad at hf
    rw [hp, hq] at hf
    exact Nat.lt_of_not_le hf
  have hlength := h.length_completed hp
  have hroom := h.counts.room
  have hfits := h.counts.producer
  rw [hq] at hfits
  have hfull := (h.counts.full_iff hfits.2).mpr (by omega)
  unfold FanInQueueReceiver.produce
  rw [hp]
  refine ⟨_, rfl, ?_⟩
  simp [RingThreads.produce, hq, hfull]

/-! ### Runs in which the consumer pauses -/

variable (message : ℕ → T)

/-- The ring after `n` messages that nobody dequeued. -/
def filled (n : ℕ) (producer : Enqueue T) (item : T) : RingThreads T :=
  ⟨⟨1023, fun i => if i < n then message i else default, n, 0⟩, item, producer, .idle,
    (List.range n).map message, []⟩

/-- A site tries to enqueue message `n`. -/
def attempting (n spin : ℕ) (producer : Enqueue T) (item : T) : FanInQueueReceiver T :=
  ⟨filled message n producer item, .spinning .onRecvCallback (message n) spin,
    (List.range (n + 1)).map message⟩

/-- The call of an attempt. -/
theorem produce_call {n spin : ℕ} {item : T} : (attempting message n spin .idle item).produce =
    some (attempting message n spin (.entered item) item) := rfl

/-- The load of `head_`. -/
theorem produce_load {n spin : ℕ} {arg item : T} :
    (attempting message n spin (.entered arg) item).produce =
      some (attempting message n spin (.loadedHead arg n) item) := rfl

theorem followedRun_produce {n spin : ℕ} {p : Enqueue T} {item : T} (hspin : spin < 63)
    (h : FollowedRun (attempting message n spin p item))
    (hs : (attempting message n spin p item).produce = some s') : FollowedRun s' := by
  refine h.next ⟨.produce, hs, ?_⟩
  show (attempting message n spin p item).MayLoad
  unfold MayLoad
  split
  · rename_i hp _
    injection hp
    omega
  · trivial

theorem followedRun_loaded {n spin : ℕ} (hspin : spin < 63)
    (h : FollowedRun (attempting message n spin .idle (message n))) :
    FollowedRun (attempting message n spin (.loadedHead (message n) n) (message n)) :=
  followedRun_produce message hspin
    (followedRun_produce message hspin h (produce_call message)) (produce_load message)

omit [Inhabited T] in
theorem map_range_succ (n : ℕ) :
    (List.range (n + 1)).map message = (List.range n).map message ++ [message n] := by
  rw [List.range_succ, List.map_append]
  rfl

theorem followedRun_attempting {n : ℕ}
    (h : FollowedRun ⟨filled message n .idle default, .idle, (List.range n).map message⟩) :
    FollowedRun (attempting message n 0 .idle (message n)) := by
  have hcompleted := h.next ⟨.complete .onRecvCallback true (message n), rfl, trivial⟩
  rw [attempting, map_range_succ]
  exact hcompleted

theorem filled_zero : filled message 0 .idle default = .start 1024 := by
  have hbuffer : (fun i => if i < 0 then message i else default) = fun _ => (default : T) :=
    funext fun i => if_neg (Nat.not_lt_zero i)
  rw [filled, hbuffer]
  rfl

theorem filled_succ {n : ℕ} (hn : n < 1023) : filled message (n + 1) .idle default =
    ⟨⟨1023, Function.update (fun i => if i < n then message i else default) n (message n),
      (n + 1) &&& 1023, 0⟩, default, .idle, .idle, (List.range n).map message ++ [message n], []⟩ := by
  have hnext : (n + 1) &&& 1023 = n + 1 := by
    rw [Nat.and_two_pow_sub_one_eq_mod (n + 1) 10]
    omega
  have hcell : Function.update (fun i => if i < n then message i else default) n (message n) =
      fun i => if i < n + 1 then message i else default := by
    funext i
    rcases eq_or_ne i n with rfl | hne
    · rw [Function.update_self, if_pos (Nat.lt_succ_self i)]
    · rw [Function.update_of_ne hne]
      exact if_congr (by omega) rfl rfl
  rw [filled, map_range_succ, hcell, hnext]

/-- The first `n` messages that completed are in the ring. -/
theorem followedRun_filled {n : ℕ} (hn : n ≤ 1023) :
    FollowedRun ⟨filled message n .idle default, .idle, (List.range n).map message⟩ := by
  induction n with
  | zero =>
    rw [filled_zero]
    exact .start rfl
  | succ n ih =>
    have hroom : ¬ (n + 1) &&& 1023 = 0 := by
      rw [Nat.and_two_pow_sub_one_eq_mod (n + 1) 10]
      omega
    have hcompare : (attempting message n 0 (.loadedHead (message n) n) (message n)).produce =
        some (attempting message n 0 (.hasRoom (message n) n) (message n)) := by
      simp [FanInQueueReceiver.produce, attempting, filled, RingThreads.produce, SpscRing.next, hroom]
    have hloaded :=
      followedRun_loaded message (by omega) (followedRun_attempting message (ih (by omega)))
    have hmoved := followedRun_produce message (by omega)
      (followedRun_produce message (by omega) hloaded hcompare) rfl
    rw [filled_succ message (by omega)]
    exact hmoved.next ⟨.produce, rfl, trivial⟩

/-- The comparison of an attempt on the full ring. -/
theorem produce_full (spin : ℕ) :
    (attempting message 1023 spin (.loadedHead (message 1023) 1023) (message 1023)).produce =
      some ⟨filled message 1023 .idle (message 1023),
        if spin + 1 < 64 then .spinning .onRecvCallback (message 1023) (spin + 1)
          else .overflowed .onRecvCallback (message 1023), (List.range 1024).map message⟩ := by
  simp [FanInQueueReceiver.produce, attempting, filled, RingThreads.produce, SpscRing.next]

/-- Nobody dequeues while a site tries to enqueue the 1024th message. -/
theorem followedRun_spinning {spin : ℕ} (hspin : spin ≤ 63) :
    FollowedRun (attempting message 1023 spin .idle (message 1023)) := by
  induction spin with
  | zero => exact followedRun_attempting message (followedRun_filled message le_rfl)
  | succ spin ih =>
    have hloaded := followedRun_loaded message (by omega) (ih (by omega))
    have hretry : (attempting message 1023 spin (.loadedHead (message 1023) 1023)
        (message 1023)).produce = some (attempting message 1023 (spin + 1) .idle (message 1023)) := by
      rw [produce_full, if_pos (by omega)]
      rfl
    exact followedRun_produce message (by omega) hloaded hretry

theorem FollowedRun.run (h : FollowedRun s) : Run s :=
  h.mono fun _ _ ⟨a, hs, _⟩ => ⟨a, hs⟩

theorem FollowedRun.consume (h : FollowedRun s) : FollowedRun s.consume :=
  h.next ⟨.consume, rfl, trivial⟩

/-- While the consumer pauses, 1024 messages complete, and the last one finds no room. -/
theorem paused_consumer_overflows :
    ∃ s : FanInQueueReceiver (List UInt8), Run s ∧ s.producer = .overflowed .onRecvCallback [] := by
  have hspinning := (followedRun_spinning (fun _ => ([] : List UInt8)) le_rfl).run
  have hloaded := (hspinning.next ⟨.produce, produce_call _⟩).next ⟨.produce, produce_load _⟩
  have hfull := produce_full (fun _ => ([] : List UInt8)) 63
  rw [if_neg (by omega)] at hfull
  exact ⟨_, hloaded.next ⟨.produce, hfull⟩, rfl⟩

end

/-- After the first attempt to enqueue message 1023 failed, the consumer returned message 0. -/
def retrying : FanInQueueReceiver ℕ :=
  (attempting id 1023 1 .idle 1023).consume.consume.consume.consume.consume

theorem delivers_all_retrying :
    FollowedRun retrying ∧ retrying.q.dequeued = [0] ∧ ∃ s', ReflTransGen ThreadStep retrying s' ∧
      s'.completed = List.range 1024 ∧ s'.q.dequeued = List.range 1024 := by
  have hspinning := followedRun_spinning (id : ℕ → ℕ) (show 1 ≤ 63 by decide)
  have hrun : FollowedRun retrying := hspinning.consume.consume.consume.consume.consume
  have hcompleted : retrying.completed = List.range 1024 := by
    simp only [retrying, consume, attempting, List.map_id]
  have hdequeued : retrying.q.dequeued = [0] := by
    simp [retrying, consume, RingThreads.consume, attempting, filled]
  refine ⟨hrun, hdequeued, ?_⟩
  rw [← hcompleted]
  exact (delivers_all hrun).2.2

end FanInQueueReceiver

end StreamInfer.Ucxq
