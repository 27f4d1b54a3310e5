import StreamInfer.General.Reach

/-! The ring between the thread that enqueues and the thread that dequeues. They share
the buffer, `head_` and `tail_`, and each load, buffer access and store of a call is a
step of its own, so that the other thread may run in between. -/

namespace StreamInfer.Ucxq

open General

variable {T : Type}

/-- The buffer as a function of the index. -/
structure SpscRing (T : Type) where
  capacityMask : ℕ
  buffer : ℕ → T
  head : ℕ
  tail : ℕ

namespace SpscRing

def new [Inhabited T] (capacityPow2 : ℕ) : SpscRing T :=
  ⟨capacityPow2 - 1, fun _ => default, 0, 0⟩

def next (q : SpscRing T) (i : ℕ) : ℕ :=
  (i + 1) &&& q.capacityMask

end SpscRing

/-- Where the producer is in `try_enqueue`, with the registers it has loaded. -/
inductive Enqueue (T : Type) where
  | idle
  /-- Called with an argument that is still at the caller. -/
  | entered (arg : T)
  | loadedHead (arg : T) (head : ℕ)
  /-- `tail_` was not `next`; the next access is to `buffer_[head]`. -/
  | hasRoom (arg : T) (head : ℕ)
  /-- The next access stores `head_`. -/
  | moved (arg : T) (head : ℕ)

/-- Where the consumer is in `try_dequeue`. -/
inductive Dequeue (T : Type) where
  | idle
  | entered
  | loadedTail (tail : ℕ)
  /-- `head_` was not `tail`; the next access is to `buffer_[tail]`. -/
  | hasItem (tail : ℕ)
  /-- The next access stores `tail_`. -/
  | moved (tail : ℕ) (out : T)

/-- The ring, the object that the producer's argument refers to, and the items whose calls
returned true. -/
structure RingThreads (T : Type) where
  q : SpscRing T
  item : T
  producer : Enqueue T
  consumer : Dequeue T
  enqueued : List T
  dequeued : List T

/-- What a step shows: a call, its result, or an access in between. -/
inductive RingEvent (T : Type) where
  | call
  | access
  | enqueueTrue
  | enqueueFalse (arg : T)
  | dequeueTrue (out : T)
  | dequeueFalse

namespace RingThreads

variable [Inhabited T]

def start (capacityPow2 : ℕ) : RingThreads T :=
  ⟨.new capacityPow2, default, .idle, .idle, [], []⟩

/-- The producer calls with `arg`, or takes the next step of its call. -/
def produce (arg : T) (s : RingThreads T) : RingEvent T × RingThreads T :=
  match s.producer with
  | .idle => (.call, { s with item := arg, producer := .entered arg })
  | .entered arg => (.access, { s with producer := .loadedHead arg s.q.head })
  | .loadedHead arg head =>
    if s.q.next head = s.q.tail then (.enqueueFalse arg, { s with producer := .idle })
    else (.access, { s with producer := .hasRoom arg head })
  | .hasRoom arg head => (.access, { s with
      q := { s.q with buffer := Function.update s.q.buffer head s.item }
      item := default
      producer := .moved arg head })
  | .moved arg head => (.enqueueTrue, { s with
      q := { s.q with head := s.q.next head }
      producer := .idle
      enqueued := s.enqueued ++ [arg] })

/-- The consumer calls, or takes the next step of its call. -/
def consume (s : RingThreads T) : RingEvent T × RingThreads T :=
  match s.consumer with
  | .idle => (.call, { s with consumer := .entered })
  | .entered => (.access, { s with consumer := .loadedTail s.q.tail })
  | .loadedTail tail =>
    if tail = s.q.head then (.dequeueFalse, { s with consumer := .idle })
    else (.access, { s with consumer := .hasItem tail })
  | .hasItem tail => (.access, { s with
      q := { s.q with buffer := Function.update s.q.buffer tail default }
      consumer := .moved tail (s.q.buffer tail) })
  | .moved tail out => (.dequeueTrue out, { s with
      q := { s.q with tail := s.q.next tail }
      consumer := .idle
      dequeued := s.dequeued ++ [out] })

/-- A step of one of the two threads. -/
inductive Step (s : RingThreads T) : RingEvent T → RingThreads T → Prop
  | produce (arg : T) : Step s (s.produce arg).1 (s.produce arg).2
  | consume : Step s s.consume.1 s.consume.2

def Run (capacityPow2 : ℕ) : RingThreads T → Prop :=
  Reach (· = start capacityPow2) fun s s' => ∃ ev, Step s ev s'

end RingThreads

end StreamInfer.Ucxq
