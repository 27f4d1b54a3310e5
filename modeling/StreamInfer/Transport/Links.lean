import Mathlib

/-! Batches on their way to a `MuPool`, over a local or an NCCL channel. A call of
`send_batch_nonblocking` sends the metadata through the message queue and then the
payload through the channel of the peer. The pool's thread takes messages of any
peers, posts a receive for each, and looks for receives that completed. Both
transports keep the order of one peer, and nothing else ties them together. -/

namespace StreamInfer.Transport

variable {M D : Type*}

/-- `MU_POOL_GROUP_RECV_LIMIT`. -/
def groupRecvLimit : ℕ := 16

/-! ### A dispatcher -/

/-- What one dispatcher has sent to the pool. -/
structure Sender (M D : Type*) where
  /-- Metadata and payload of each call. -/
  calls : List (M × D)
  /-- What went into the message queue. -/
  messages : List M
  /-- The payload of a call whose metadata was sent. -/
  sending : Option D
  /-- What went into the channel. -/
  payloads : List D
  pendingSends : List D

namespace Sender

def new : Sender M D := ⟨[], [], none, [], []⟩

def sendMessage (x : Sender M D) (metadata : M) (data : D) : Sender M D :=
  { x with
    calls := x.calls ++ [(metadata, data)]
    messages := x.messages ++ [metadata]
    sending := some data }

def sendPayload (x : Sender M D) (data : D) : Sender M D :=
  { x with
    sending := none
    payloads := x.payloads ++ [data]
    pendingSends := x.pendingSends ++ [data] }

/-- Any interleaving of the dispatcher's steps; a call waits until fewer than
`maxPending` sends are pending. -/
inductive Step (maxPending : ℕ) (x : Sender M D) : Sender M D → Prop
  | message (metadata : M) (data : D) (h : x.sending = none)
      (hroom : x.pendingSends.length < maxPending) : Step maxPending x (x.sendMessage metadata data)
  | payload {data : D} (h : x.sending = some data) : Step maxPending x (x.sendPayload data)
  | clean {data : D} {rest : List D} (h : x.pendingSends = data :: rest) :
      Step maxPending x { x with pendingSends := rest }

end Sender

/-! ### The pool -/

/-- How far the pool is with one peer. -/
structure Inbox where
  /-- Messages taken from the queue. -/
  popped : ℕ
  /-- The tensors of the receives posted on the channel, in order. -/
  recvs : List ℕ
  /-- Payloads that left the channel. -/
  moved : ℕ

/-- `MuPoolPendingRecv`, with the number of its message. -/
structure PendingRecv (M : Type*) where
  peerId : ℕ
  metadata : M
  tensor : ℕ
  index : ℕ

/-- Where the pool's thread is: taking messages, waiting for a local payload, or
going through `pending_recvs`. -/
inductive Thread (M : Type*) where
  | draining (drainCount : ℕ)
  | receiving (entry : PendingRecv M) (drainCount : ℕ)
  | polling (it : ℕ)

structure Pool (M D : Type*) where
  sender : ℕ → Sender M D
  inbox : ℕ → Inbox
  /-- Tensors by address; `none` until a receive wrote it. -/
  tensors : ℕ → Option D
  /-- Whether the event of a tensor's receive is signalled. -/
  completed : ℕ → Bool
  numTensors : ℕ
  pendingRecvs : List (PendingRecv M)
  thread : Thread M
  /-- Arguments of the calls of `process_batch`. -/
  processed : List (PendingRecv M × Option D)

namespace Pool

def new : Pool M D :=
  ⟨fun _ => .new, fun _ => ⟨0, [], 0⟩, fun _ => none, fun _ => false, 0, [], .draining 0, []⟩

/-- The message taken from `peer`'s queue, with a new tensor. -/
def entryOf (s : Pool M D) (peer : ℕ) (metadata : M) : PendingRecv M :=
  ⟨peer, metadata, s.numTensors, (s.inbox peer).popped⟩

/-- A message of a remote peer: `recv_batch` posts a receive. -/
def recvRemote (s : Pool M D) (peer : ℕ) (metadata : M) (drainCount : ℕ) : Pool M D :=
  { s with
    inbox := Function.update s.inbox peer
      { s.inbox peer with
        popped := (s.inbox peer).popped + 1
        recvs := (s.inbox peer).recvs ++ [s.numTensors] }
    numTensors := s.numTensors + 1
    pendingRecvs := s.pendingRecvs ++ [s.entryOf peer metadata]
    thread := .draining (drainCount + 1) }

/-- A message of a local peer: `recv_batch` waits for the payload. -/
def recvLocal (s : Pool M D) (peer : ℕ) (metadata : M) (drainCount : ℕ) : Pool M D :=
  { s with
    inbox := Function.update s.inbox peer
      { s.inbox peer with popped := (s.inbox peer).popped + 1 }
    numTensors := s.numTensors + 1
    thread := .receiving (s.entryOf peer metadata) drainCount }

/-- The oldest payload of a channel goes to a tensor. -/
def transfer (s : Pool M D) (peer tensor : ℕ) (data : D) : Pool M D :=
  { s with
    inbox := Function.update s.inbox peer
      { s.inbox peer with moved := (s.inbox peer).moved + 1 }
    tensors := Function.update s.tensors tensor (some data) }

/-- The local payload is copied, and `sync` waits for the copy. -/
def copyLocal (s : Pool M D) (entry : PendingRecv M) (drainCount : ℕ) (data : D) : Pool M D :=
  { s.transfer entry.peerId entry.tensor data with
    completed := Function.update s.completed entry.tensor true
    thread := .draining (drainCount + 1)
    processed := s.processed ++ [(entry, some data)] }

def complete (s : Pool M D) (tensor : ℕ) : Pool M D :=
  { s with completed := Function.update s.completed tensor true }

/-- A pending receive that completed is processed and erased. -/
def process (s : Pool M D) (it : ℕ) (entry : PendingRecv M) : Pool M D :=
  { s with
    pendingRecvs := s.pendingRecvs.eraseIdx it
    processed := s.processed ++ [(entry, s.tensors entry.tensor)] }

/-! ### What the operations change -/

@[simp] theorem transfer_recvs (s : Pool M D) (peer tensor : ℕ) (data : D) (q : ℕ) :
    ((s.transfer peer tensor data).inbox q).recvs = (s.inbox q).recvs := by
  by_cases hq : q = peer
  · subst hq
    simp [transfer]
  · simp [transfer, hq]

@[simp] theorem transfer_popped (s : Pool M D) (peer tensor : ℕ) (data : D) (q : ℕ) :
    ((s.transfer peer tensor data).inbox q).popped = (s.inbox q).popped := by
  by_cases hq : q = peer
  · subst hq
    simp [transfer]
  · simp [transfer, hq]

@[simp] theorem transfer_moved (s : Pool M D) (peer tensor : ℕ) (data : D) (q : ℕ) :
    ((s.transfer peer tensor data).inbox q).moved =
      if q = peer then (s.inbox q).moved + 1 else (s.inbox q).moved := by
  by_cases hq : q = peer
  · subst hq
    simp [transfer]
  · simp [transfer, hq]

@[simp] theorem transfer_tensors (s : Pool M D) (peer tensor : ℕ) (data : D) :
    (s.transfer peer tensor data).tensors = Function.update s.tensors tensor (some data) := rfl

@[simp] theorem copyLocal_inbox (s : Pool M D) (entry : PendingRecv M) (drainCount : ℕ) (data : D) :
    (s.copyLocal entry drainCount data).inbox =
      (s.transfer entry.peerId entry.tensor data).inbox := rfl

@[simp] theorem copyLocal_tensors (s : Pool M D) (entry : PendingRecv M) (drainCount : ℕ)
    (data : D) : (s.copyLocal entry drainCount data).tensors =
      Function.update s.tensors entry.tensor (some data) := rfl

@[simp] theorem copyLocal_completed (s : Pool M D) (entry : PendingRecv M) (drainCount : ℕ)
    (data : D) : (s.copyLocal entry drainCount data).completed =
      Function.update s.completed entry.tensor true := rfl

@[simp] theorem complete_completed (s : Pool M D) (tensor : ℕ) :
    (s.complete tensor).completed = Function.update s.completed tensor true := rfl

@[simp] theorem recvRemote_recvs (s : Pool M D) (peer : ℕ) (metadata : M) (drainCount q : ℕ) :
    ((s.recvRemote peer metadata drainCount).inbox q).recvs =
      if q = peer then (s.inbox q).recvs ++ [s.numTensors] else (s.inbox q).recvs := by
  by_cases hq : q = peer
  · subst hq
    simp [recvRemote]
  · simp [recvRemote, hq]

@[simp] theorem recvRemote_popped (s : Pool M D) (peer : ℕ) (metadata : M) (drainCount q : ℕ) :
    ((s.recvRemote peer metadata drainCount).inbox q).popped =
      if q = peer then (s.inbox q).popped + 1 else (s.inbox q).popped := by
  by_cases hq : q = peer
  · subst hq
    simp [recvRemote]
  · simp [recvRemote, hq]

@[simp] theorem recvRemote_moved (s : Pool M D) (peer : ℕ) (metadata : M) (drainCount q : ℕ) :
    ((s.recvRemote peer metadata drainCount).inbox q).moved = (s.inbox q).moved := by
  by_cases hq : q = peer
  · subst hq
    simp [recvRemote]
  · simp [recvRemote, hq]

@[simp] theorem recvLocal_recvs (s : Pool M D) (peer : ℕ) (metadata : M) (drainCount q : ℕ) :
    ((s.recvLocal peer metadata drainCount).inbox q).recvs = (s.inbox q).recvs := by
  by_cases hq : q = peer
  · subst hq
    simp [recvLocal]
  · simp [recvLocal, hq]

@[simp] theorem recvLocal_popped (s : Pool M D) (peer : ℕ) (metadata : M) (drainCount q : ℕ) :
    ((s.recvLocal peer metadata drainCount).inbox q).popped =
      if q = peer then (s.inbox q).popped + 1 else (s.inbox q).popped := by
  by_cases hq : q = peer
  · subst hq
    simp [recvLocal]
  · simp [recvLocal, hq]

@[simp] theorem recvLocal_moved (s : Pool M D) (peer : ℕ) (metadata : M) (drainCount q : ℕ) :
    ((s.recvLocal peer metadata drainCount).inbox q).moved = (s.inbox q).moved := by
  by_cases hq : q = peer
  · subst hq
    simp [recvLocal]
  · simp [recvLocal, hq]

/-! ### Steps -/

/-- Any interleaving of the dispatchers, the channels and the pool's thread. -/
inductive Step (isLocal : ℕ → Bool) (maxPending : ℕ) (s : Pool M D) : Pool M D → Prop
  | send {peer : ℕ} {x : Sender M D} (h : (s.sender peer).Step maxPending x) :
      Step isLocal maxPending s { s with sender := Function.update s.sender peer x }
  | transfer {peer tensor : ℕ} {data : D} (hremote : isLocal peer = false)
      (htensor : (s.inbox peer).recvs[(s.inbox peer).moved]? = some tensor)
      (hdata : (s.sender peer).payloads[(s.inbox peer).moved]? = some data) :
      Step isLocal maxPending s (s.transfer peer tensor data)
  | complete {tensor : ℕ} {data : D} (h : s.tensors tensor = some data) :
      Step isLocal maxPending s (s.complete tensor)
  | recvRemote {peer drainCount : ℕ} {metadata : M} (hthread : s.thread = .draining drainCount)
      (hlimit : drainCount < groupRecvLimit)
      (hmessage : (s.sender peer).messages[(s.inbox peer).popped]? = some metadata)
      (hremote : isLocal peer = false) :
      Step isLocal maxPending s (s.recvRemote peer metadata drainCount)
  | recvLocal {peer drainCount : ℕ} {metadata : M} (hthread : s.thread = .draining drainCount)
      (hlimit : drainCount < groupRecvLimit)
      (hmessage : (s.sender peer).messages[(s.inbox peer).popped]? = some metadata)
      (hlocal : isLocal peer = true) :
      Step isLocal maxPending s (s.recvLocal peer metadata drainCount)
  | copyLocal {entry : PendingRecv M} {drainCount : ℕ} {data : D}
      (hthread : s.thread = .receiving entry drainCount)
      (hdata : (s.sender entry.peerId).payloads[(s.inbox entry.peerId).moved]? = some data) :
      Step isLocal maxPending s (s.copyLocal entry drainCount data)
  -- `recv_metadata` blocks for the first message of an iteration that has nothing pending
  | stop {drainCount : ℕ} (hthread : s.thread = .draining drainCount)
      (h : 0 < drainCount ∨ s.pendingRecvs ≠ []) :
      Step isLocal maxPending s { s with thread := .polling 0 }
  | process {it : ℕ} {entry : PendingRecv M} (hthread : s.thread = .polling it)
      (hentry : s.pendingRecvs[it]? = some entry) (hdone : s.completed entry.tensor = true) :
      Step isLocal maxPending s (s.process it entry)
  | skip {it : ℕ} {entry : PendingRecv M} (hthread : s.thread = .polling it)
      (hentry : s.pendingRecvs[it]? = some entry) (hwait : s.completed entry.tensor = false) :
      Step isLocal maxPending s { s with thread := .polling (it + 1) }
  | restart {it : ℕ} (hthread : s.thread = .polling it) (hend : s.pendingRecvs.length ≤ it) :
      Step isLocal maxPending s { s with thread := .draining 0 }

end Pool

end StreamInfer.Transport
