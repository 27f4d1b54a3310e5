import StreamInfer.Fault

/-! What a NIXL context keeps for one peer, after `nixl_context.cpp`. As a sender it
lists the peer's receive slots that are free and remembers for each slot the
sequence number whose credit it waits for; as a receiver it remembers for each of
its own slots the number in flight and the last one completed. Sequence numbers
are 32-bit: they wrap, and travel unsigned. -/

namespace StreamInfer.Nixl

/-- `NIXL_RECV_RING_SIZE`. -/
def recvRingSize : ℕ := 8

/-! ### 32-bit numbers -/

/-- `fetch_add(1)` on a 32-bit int. -/
def addOne (x : ℤ) : ℤ := if x = 2147483647 then -2147483648 else x + 1

/-- `static_cast<uint32_t>` of an int. -/
def toUint32 (x : ℤ) : ℤ := if x < 0 then x + 4294967296 else x

/-- `static_cast<int>` of an unsigned number. -/
def toInt (x : ℤ) : ℤ := if x < 2147483648 then x else x - 4294967296

/-- A number sent in a header and read at the other end. -/
def viaHeader (seq : ℤ) : ℤ := toInt (toUint32 seq)

/-- An int survives the way. -/
theorem viaHeader_eq {seq : ℤ} (h₁ : -2147483648 ≤ seq) (h₂ : seq < 2147483648) :
    viaHeader seq = seq := by
  unfold viaHeader toInt toUint32
  split_ifs <;> omega

/-! ### Slots -/

structure SlotState where
  expectedCreditSeq : ℤ := -1
  inflightRecvSeq : ℤ := -1
  completedRecvSeq : ℤ := -1
  deriving DecidableEq

structure PeerState where
  availableRecvSlots : List ℕ
  nextSeq : ℤ
  slotState : List SlotState
  deriving DecidableEq

namespace PeerState

def new : PeerState := ⟨List.range recvRingSize, 0, List.replicate recvRingSize {}⟩

/-- `none` waits for a credit. -/
def acquireRecvSlot (p : PeerState) : Option (ℕ × PeerState) :=
  match p.availableRecvSlots with
  | [] => none
  | slot :: rest => some (slot, { p with availableRecvSlots := rest })

def nextSendSeq (p : PeerState) : ℤ × PeerState :=
  (p.nextSeq, { p with nextSeq := addOne p.nextSeq })

def setSlot (p : PeerState) (slotId : ℕ) (st : SlotState) : PeerState :=
  { p with slotState := p.slotState.set slotId st }

def noteSendPosted (p : PeerState) (slotId : ℕ) (seq : ℤ) : Except Fault PeerState :=
  if slotId < recvRingSize then
    match p.slotState[slotId]? with
    | none => .error (.outOfRange "slot_state[slot_id]")
    | some st =>
      if st.expectedCreditSeq = -1 then .ok (p.setSlot slotId { st with expectedCreditSeq := seq })
      else .error (.assertion "note_send_posted: remote recv slot reused before credit")
  else .error (.assertion "note_send_posted: slot OOR")

def onRecvCredit (p : PeerState) (slotId : ℕ) (seq : ℤ) : PeerState :=
  if slotId < recvRingSize then
    match p.slotState[slotId]? with
    | none => p
    | some st =>
      if st.expectedCreditSeq = seq then
        { p.setSlot slotId { st with expectedCreditSeq := -1 } with
          availableRecvSlots := p.availableRecvSlots ++ [slotId] }
      else p
  else p

/-- Whether the notif is new, and the state after it. -/
def acceptDataNotif (p : PeerState) (slotId : ℕ) (seq : ℤ) : Bool × PeerState :=
  if slotId < recvRingSize then
    match p.slotState[slotId]? with
    | none => (false, p)
    | some st =>
      if st.inflightRecvSeq = seq ∨ st.completedRecvSeq ≥ seq then (false, p)
      else (true, p.setSlot slotId { st with inflightRecvSeq := seq })
  else (false, p)

def markRecvCompleted (p : PeerState) (slotId : ℕ) (seq : ℤ) : PeerState :=
  if slotId < recvRingSize then
    match p.slotState[slotId]? with
    | none => p
    | some st =>
      p.setSlot slotId
        { st with
          completedRecvSeq := if st.completedRecvSeq < seq then seq else st.completedRecvSeq
          inflightRecvSeq := if st.inflightRecvSeq = seq then -1 else st.inflightRecvSeq }
  else p

/-! ### What the operations do -/

/-- The state of a slot; a slot out of range has none. -/
def slotAt (p : PeerState) (slot : ℕ) : SlotState := p.slotState.getD slot {}

def expectedAt (p : PeerState) (slot : ℕ) : ℤ := (p.slotAt slot).expectedCreditSeq

def inflightAt (p : PeerState) (slot : ℕ) : ℤ := (p.slotAt slot).inflightRecvSeq

def completedAt (p : PeerState) (slot : ℕ) : ℤ := (p.slotAt slot).completedRecvSeq

/-- A state for every slot of the ring. -/
def Sized (p : PeerState) : Prop := p.slotState.length = recvRingSize

variable {p p' : PeerState} {slot : ℕ} {seq : ℤ}

theorem Sized.getElem? (h : p.Sized) (hs : slot < recvRingSize) :
    p.slotState[slot]? = some (p.slotAt slot) := by
  have hlt : slot < p.slotState.length := by rwa [h]
  rw [slotAt, List.getD_eq_getElem?_getD, List.getElem?_eq_getElem hlt]
  rfl

theorem Sized.setSlot (h : p.Sized) (slot : ℕ) (st : SlotState) : (p.setSlot slot st).Sized := by
  rw [Sized, PeerState.setSlot, List.length_set]
  exact h

theorem Sized.slotAt_setSlot (h : p.Sized) (hs : slot < recvRingSize) (st : SlotState) :
    (p.setSlot slot st).slotAt = Function.update p.slotAt slot st := by
  have hlt : slot < p.slotState.length := by rwa [h]
  funext j
  rw [slotAt, PeerState.setSlot, List.getD_eq_getElem?_getD]
  by_cases hj : j = slot
  · subst hj
    rw [List.getElem?_set_self hlt, Function.update_self]
    rfl
  · rw [List.getElem?_set_ne (Ne.symm hj), Function.update_of_ne hj, slotAt,
      List.getD_eq_getElem?_getD]

theorem sized_new : new.Sized := by simp [Sized, new]

theorem slotAt_new (slot : ℕ) : new.slotAt slot = {} := by
  rw [slotAt, new, List.getD_eq_getElem?_getD]
  by_cases hs : slot < recvRingSize
  · rw [List.getElem?_replicate_of_lt hs]
    rfl
  · rw [List.getElem?_eq_none (by simpa using hs)]
    rfl

/-- The state changed at most in its role as a sender. -/
structure SameReceiver (p p' : PeerState) : Prop where
  sized : p.Sized → p'.Sized
  inflight : p'.inflightAt = p.inflightAt
  completed : p'.completedAt = p.completedAt

/-- The state changed at most in its role as a receiver. -/
structure SameSender (p p' : PeerState) : Prop where
  sized : p.Sized → p'.Sized
  available : p'.availableRecvSlots = p.availableRecvSlots
  nextSeq : p'.nextSeq = p.nextSeq
  expected : p'.expectedAt = p.expectedAt

section SetSlot

variable (h : p.Sized) (hs : slot < recvRingSize)
include h hs

theorem expectedAt_setSlot (st : SlotState) : (p.setSlot slot st).expectedAt =
    Function.update p.expectedAt slot st.expectedCreditSeq := by
  funext j
  rw [expectedAt, h.slotAt_setSlot hs]
  by_cases hj : j = slot
  · subst hj
    rw [Function.update_self, Function.update_self]
  · rw [Function.update_of_ne hj, Function.update_of_ne hj]
    rfl

theorem inflightAt_setSlot (st : SlotState) : (p.setSlot slot st).inflightAt =
    Function.update p.inflightAt slot st.inflightRecvSeq := by
  funext j
  rw [inflightAt, h.slotAt_setSlot hs]
  by_cases hj : j = slot
  · subst hj
    rw [Function.update_self, Function.update_self]
  · rw [Function.update_of_ne hj, Function.update_of_ne hj]
    rfl

theorem completedAt_setSlot (st : SlotState) : (p.setSlot slot st).completedAt =
    Function.update p.completedAt slot st.completedRecvSeq := by
  funext j
  rw [completedAt, h.slotAt_setSlot hs]
  by_cases hj : j = slot
  · subst hj
    rw [Function.update_self, Function.update_self]
  · rw [Function.update_of_ne hj, Function.update_of_ne hj]
    rfl

/-- Setting the sender's number of a slot. -/
theorem sameReceiver_setSlot (e : ℤ) :
    SameReceiver p (p.setSlot slot { p.slotAt slot with expectedCreditSeq := e }) where
  sized hp := hp.setSlot _ _
  inflight := by
    rw [inflightAt_setSlot h hs]
    exact Function.update_eq_self slot p.inflightAt
  completed := by
    rw [completedAt_setSlot h hs]
    exact Function.update_eq_self slot p.completedAt

/-- Setting the receiver's numbers of a slot. -/
theorem sameSender_setSlot (i c : ℤ) :
    SameSender p (p.setSlot slot
      { p.slotAt slot with inflightRecvSeq := i, completedRecvSeq := c }) where
  sized hp := hp.setSlot _ _
  available := rfl
  nextSeq := rfl
  expected := by
    rw [expectedAt_setSlot h hs]
    exact Function.update_eq_self slot p.expectedAt

theorem noteSendPosted_eq : p.noteSendPosted slot seq =
    if p.expectedAt slot = -1 then
      .ok (p.setSlot slot { p.slotAt slot with expectedCreditSeq := seq })
    else .error (.assertion "note_send_posted: remote recv slot reused before credit") := by
  rw [noteSendPosted, if_pos hs, h.getElem? hs]
  rfl

theorem onRecvCredit_eq : p.onRecvCredit slot seq =
    if p.expectedAt slot = seq then
      { p.setSlot slot { p.slotAt slot with expectedCreditSeq := -1 } with
        availableRecvSlots := p.availableRecvSlots ++ [slot] }
    else p := by
  rw [onRecvCredit, if_pos hs, h.getElem? hs]
  rfl

theorem acceptDataNotif_eq : p.acceptDataNotif slot seq =
    if p.inflightAt slot = seq ∨ seq ≤ p.completedAt slot then (false, p)
    else (true, p.setSlot slot { p.slotAt slot with inflightRecvSeq := seq }) := by
  rw [acceptDataNotif, if_pos hs, h.getElem? hs]
  rfl

theorem markRecvCompleted_eq : p.markRecvCompleted slot seq =
    p.setSlot slot
      { p.slotAt slot with
        completedRecvSeq := max (p.completedAt slot) seq
        inflightRecvSeq := if p.inflightAt slot = seq then -1 else p.inflightAt slot } := by
  have hmax : max (p.completedAt slot) seq =
      if p.completedAt slot < seq then seq else p.completedAt slot := by
    split_ifs <;> omega
  rw [markRecvCompleted, if_pos hs, h.getElem? hs, hmax]
  rfl

end SetSlot

end PeerState

end StreamInfer.Nixl
