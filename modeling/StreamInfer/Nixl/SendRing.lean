import StreamInfer.Fault
import StreamInfer.General.Reach

/-! The ring of send slots of a NIXL context, after `nixl_context.cpp` and
`nixl_channel.cpp`. A sender acquires a slot and hands it over with a post; a worker
takes the post, writes it and adds a pending transfer; a drain releases the slots of
the transfers that are over. Each lock covers one move, and a drain is several moves
under its lock, so senders and workers interleave with all of it. -/

namespace StreamInfer.Nixl

open General General.Stateful

/-- `NIXL_SEND_RING_SIZE`. -/
def sendRingSize : ℕ := 32

structure SendRing where
  sendSlotBusy : List Bool
  nextSendSlot : ℕ
  deriving DecidableEq

namespace SendRing

abbrev RingM := EStateM Fault SendRing

def new : SendRing := ⟨List.replicate sendRingSize false, 0⟩

/-- The condition that `acquire_send_slot` waits for. -/
def HasFree (r : SendRing) : Prop := false ∈ r.sendSlotBusy

/-- The loop over the offsets. -/
def tryOffsets : List ℕ → RingM ℕ
  | [] => throw (.assertion "Failed to allocate NIXL send slot")
  | offset :: offsets => do
    let r ← get
    let slot := (r.nextSendSlot + offset) % sendRingSize
    let busy ← readAt "send_slot_busy_[slot]" r.sendSlotBusy slot
    if busy then tryOffsets offsets
    else
      set { r with
        sendSlotBusy := r.sendSlotBusy.set slot true
        nextSendSlot := (slot + 1) % sendRingSize }
      return slot

/-- `acquire_send_slot` after its wait. -/
def acquireSendSlot : RingM ℕ := tryOffsets (List.range sendRingSize)

def releaseSendSlot (slotId : ℕ) : RingM Unit := do
  let r ← get
  let _ ← readAt "send_slot_busy_[slot_id]" r.sendSlotBusy slotId
  set { r with sendSlotBusy := r.sendSlotBusy.set slotId false }

/-! ### Slots of the ring -/

variable {r : SendRing}

/-- What an acquisition finds: a slot that was free. -/
def Acquires (r : SendRing) (slot : ℕ) (r' : SendRing) : Prop :=
  r.sendSlotBusy[slot]? = some false ∧ r'.sendSlotBusy = r.sendSlotBusy.set slot true

theorem tryOffsets_ok (hlen : r.sendSlotBusy.length = sendRingSize) {offsets : List ℕ}
    (hfree : ∃ offset ∈ offsets,
      r.sendSlotBusy[(r.nextSendSlot + offset) % sendRingSize]? = some false) :
    ∃ slot r', tryOffsets offsets r = .ok slot r' ∧ Acquires r slot r' := by
  induction offsets with
  | nil => exact absurd hfree (by simp)
  | cons offset offsets ih =>
    have hpos : 0 < sendRingSize := by decide
    have hslot : (r.nextSendSlot + offset) % sendRingSize < r.sendSlotBusy.length :=
      (Nat.mod_lt _ hpos).trans_eq hlen.symm
    cases hbusy : r.sendSlotBusy[(r.nextSendSlot + offset) % sendRingSize] with
    | false =>
      refine ⟨_, { r with
        sendSlotBusy := r.sendSlotBusy.set ((r.nextSendSlot + offset) % sendRingSize) true
        nextSendSlot := ((r.nextSendSlot + offset) % sendRingSize + 1) % sendRingSize }, ?_,
        List.getElem?_eq_some_iff.mpr ⟨hslot, hbusy⟩, rfl⟩
      rw [tryOffsets, get_bind, readAt_eq hslot, hbusy]
      rfl
    | true =>
      obtain ⟨offset', hmem, hfree'⟩ := hfree
      have hrest : offset' ∈ offsets := by
        rcases List.mem_cons.mp hmem with rfl | hmem
        · rw [List.getElem?_eq_getElem hslot, hbusy] at hfree'
          cases hfree'
        · exact hmem
      obtain ⟨slot, r', hok, hacquires⟩ := ih ⟨offset', hrest, hfree'⟩
      refine ⟨slot, r', ?_, hacquires⟩
      rw [tryOffsets, get_bind, readAt_eq hslot, hbusy]
      exact hok

/-- The offsets go round the ring. -/
theorem exists_offset (next : ℕ) {slot : ℕ} (h : slot < sendRingSize) :
    ∃ offset ∈ List.range sendRingSize, (next + offset) % sendRingSize = slot := by
  refine ⟨(slot + sendRingSize - next % sendRingSize) % sendRingSize,
    List.mem_range.mpr (Nat.mod_lt _ (by decide)), ?_⟩
  unfold sendRingSize at *
  omega

/-- An acquisition after the wait finds a free slot: the assertion is not reached. -/
theorem acquireSendSlot_ok (hlen : r.sendSlotBusy.length = sendRingSize) (hfree : r.HasFree) :
    ∃ slot r', acquireSendSlot r = .ok slot r' ∧ Acquires r slot r' := by
  obtain ⟨slot, hslot, hat⟩ := List.getElem_of_mem hfree
  obtain ⟨offset, hmem, hoffset⟩ := exists_offset r.nextSendSlot (hlen ▸ hslot)
  refine tryOffsets_ok hlen ⟨offset, hmem, ?_⟩
  rw [hoffset]
  exact List.getElem?_eq_some_iff.mpr ⟨hslot, hat⟩

theorem releaseSendSlot_ok {slotId : ℕ} (h : slotId < r.sendSlotBusy.length) :
    releaseSendSlot slotId r = .ok ⟨⟩ { r with sendSlotBusy := r.sendSlotBusy.set slotId false } := by
  rw [releaseSendSlot, get_bind, readAt_eq h]
  rfl

end SendRing

/-! ### Threads -/

/-- A send: its place among the acquisitions, and its slot. -/
structure Send where
  id : ℕ
  sendSlot : ℕ
  deriving DecidableEq

/-- What `xfer_status` finds. -/
inductive XferStatus where
  | unposted
  | inProgress
  | finished
  | failed (code : ℤ)
  deriving DecidableEq

/-- The transfer is over. -/
def XferStatus.Over (status : XferStatus) : Prop := status ≠ .unposted ∧ status ≠ .inProgress

/-- Where a drain stands with the transfer at its iterator. -/
inductive DrainPhase where
  | query | release | erase
  deriving DecidableEq

structure Drain where
  index : ℕ
  phase : DrainPhase
  deriving DecidableEq

/-- A context with any sender threads `τ` and any post workers `ω`. -/
structure SendPath (τ ω : Type) where
  ring : SendRing
  /-- Between `acquire_send_slot` and `enqueue_post`. -/
  held : List (τ × Send)
  postQueue : List Send
  /-- Popped by a worker, before `post_write`. -/
  posting : List (ω × Send)
  /-- Written by a worker, before `enqueue_pending_xfer`. -/
  posted : List (ω × Send)
  pendingXfers : List Send
  /-- The drain that holds `pending_xfers_mutex_`. -/
  drain : Option Drain
  status : ℕ → XferStatus
  acquired : List Send
  released : List Send

namespace SendPath

variable {τ ω : Type} [DecidableEq τ] [DecidableEq ω]

def start : SendPath τ ω where
  ring := .new
  held := []
  postQueue := []
  posting := []
  posted := []
  pendingXfers := []
  drain := none
  status := fun _ => .unposted
  acquired := []
  released := []

/-- One move of a thread, or of the network. -/
inductive Step : SendPath τ ω → SendPath τ ω → Prop
  | acquireSendSlot {s : SendPath τ ω} {t : τ} {slot : ℕ} {ring : SendRing}
      (ht : t ∉ s.held.map Prod.fst) (hfree : s.ring.HasFree)
      (h : SendRing.acquireSendSlot s.ring = .ok slot ring) :
      Step s { s with
        ring := ring
        held := (t, ⟨s.acquired.length, slot⟩) :: s.held
        acquired := s.acquired ++ [⟨s.acquired.length, slot⟩] }
  | enqueuePost {s : SendPath τ ω} {t : τ} {x : Send} (h : (t, x) ∈ s.held) :
      Step s { s with
        held := s.held.erase (t, x)
        postQueue := s.postQueue ++ [x] }
  | takePost {s : SendPath τ ω} {w : ω} {x : Send} {rest : List Send}
      (hw : w ∉ s.posting.map Prod.fst ++ s.posted.map Prod.fst) (h : s.postQueue = x :: rest) :
      Step s { s with
        postQueue := rest
        posting := (w, x) :: s.posting }
  | postWrite {s : SendPath τ ω} {w : ω} {x : Send} (h : (w, x) ∈ s.posting) :
      Step s { s with
        posting := s.posting.erase (w, x)
        posted := (w, x) :: s.posted
        status := Function.update s.status x.id .inProgress }
  | enqueuePendingXfer {s : SendPath τ ω} {w : ω} {x : Send} (h : (w, x) ∈ s.posted)
      (hlock : s.drain = none) :
      Step s { s with
        posted := s.posted.erase (w, x)
        pendingXfers := s.pendingXfers ++ [x] }
  | transfer {s : SendPath τ ω} {id : ℕ} {status : XferStatus} (h : s.status id = .inProgress)
      (hover : status.Over) :
      Step s { s with status := Function.update s.status id status }
  | startDrain {s : SendPath τ ω} (hlock : s.drain = none) :
      Step s { s with drain := some ⟨0, .query⟩ }
  | query {s : SendPath τ ω} {i : ℕ} {x : Send} (hd : s.drain = some ⟨i, .query⟩)
      (h : s.pendingXfers[i]? = some x) :
      Step s { s with
        drain := some (if s.status x.id = .inProgress then ⟨i + 1, .query⟩ else ⟨i, .release⟩) }
  | releaseSendSlot {s : SendPath τ ω} {i : ℕ} {x : Send} {ring : SendRing}
      (hd : s.drain = some ⟨i, .release⟩) (h : s.pendingXfers[i]? = some x)
      (hr : SendRing.releaseSendSlot x.sendSlot s.ring = .ok ⟨⟩ ring) :
      Step s { s with
        ring := ring
        drain := some ⟨i, .erase⟩
        released := s.released ++ [x] }
  | erase {s : SendPath τ ω} {i : ℕ} (hd : s.drain = some ⟨i, .erase⟩) :
      Step s { s with
        pendingXfers := s.pendingXfers.eraseIdx i
        drain := some ⟨i, .query⟩ }
  | endDrain {s : SendPath τ ω} {i : ℕ} (hd : s.drain = some ⟨i, .query⟩)
      (h : s.pendingXfers.length ≤ i) : Step s { s with drain := none }

def Run : SendPath τ ω → Prop := Reach (· = start) Step

/-- The pending transfers, without the one that the drain has released and not yet erased. -/
def pending (s : SendPath τ ω) : List Send :=
  match s.drain with
  | some ⟨i, .erase⟩ => s.pendingXfers.eraseIdx i
  | _ => s.pendingXfers

/-- The sends that own a slot: held by a sender, queued, with a worker, or pending. -/
def owners (s : SendPath τ ω) : List Send :=
  s.held.map Prod.snd ++ (s.postQueue ++ (s.posting.map Prod.snd ++ (s.posted.map Prod.snd ++ s.pending)))

end SendPath

end StreamInfer.Nixl
