import StreamInfer.Nixl.PeerState

/-! One direction between two contexts: the sender's state, the receiver's state and
the traffic between them. A send reserves a slot, draws a number, waits for the
credit of both and is written; its data notif and the credit for it may arrive
late, in any order and more than once, but each was sent. -/

namespace StreamInfer.Nixl

open PeerState

/-- A send: its slot, its sequence number, and its place among the sends. -/
structure Use where
  slot : ℕ
  seq : ℤ
  id : ℕ
  deriving DecidableEq

structure Traffic where
  /-- Slots reserved by sends without a number. -/
  acquired : List ℕ
  /-- Sends with a number, before `note_send_posted`. -/
  numbered : List Use
  /-- Sends with the post worker. -/
  posts : List Use
  /-- Sends whose write was posted, with their data notifs. -/
  written : List Use
  /-- Data notifs that arrived. -/
  delivered : List Use
  /-- Accepted and being received. -/
  arrivals : List Use
  /-- Marked completed. -/
  completed : List Use
  /-- Completed, before `send_credit`. -/
  toCredit : List Use
  /-- Credit notifs that were sent. -/
  credits : List Use
  /-- Credits that freed their slot. -/
  credited : List Use
  numSends : ℕ

namespace Traffic

def empty : Traffic := ⟨[], [], [], [], [], [], [], [], [], [], 0⟩

/-- Sends that have a number. -/
def uses (t : Traffic) : List Use := t.numbered ++ t.posts ++ t.written

/-- Slots of sends before `note_send_posted`. -/
def reserved (t : Traffic) : List ℕ := t.acquired ++ t.numbered.map (·.slot)

def acquire (t : Traffic) (slot : ℕ) : Traffic := { t with acquired := slot :: t.acquired }

def number (t : Traffic) (slot : ℕ) (seq : ℤ) : Traffic :=
  { t with
    acquired := t.acquired.erase slot
    numbered := ⟨slot, seq, t.numSends⟩ :: t.numbered
    numSends := t.numSends + 1 }

def notePosted (t : Traffic) (u : Use) : Traffic :=
  { t with numbered := t.numbered.erase u, posts := u :: t.posts }

def write (t : Traffic) (u : Use) : Traffic :=
  { t with posts := t.posts.erase u, written := u :: t.written }

def credit (t : Traffic) (u : Use) : Traffic := { t with credited := u :: t.credited }

def deliver (t : Traffic) (u : Use) (accepted : Bool) : Traffic :=
  { t with
    delivered := u :: t.delivered
    arrivals := if accepted then u :: t.arrivals else t.arrivals }

def complete (t : Traffic) (u : Use) : Traffic :=
  { t with
    arrivals := t.arrivals.erase u
    completed := u :: t.completed
    toCredit := u :: t.toCredit }

def sendCredit (t : Traffic) (u : Use) : Traffic :=
  { t with toCredit := t.toCredit.erase u, credits := u :: t.credits }

end Traffic

/-- Steps of the sender; a number is drawn only if it satisfies `C`. -/
inductive SendStep (C : ℤ → Prop) (snd : PeerState) (t : Traffic) : PeerState → Traffic → Prop
  | acquire {slot : ℕ} {snd' : PeerState} (h : snd.acquireRecvSlot = some (slot, snd')) :
      SendStep C snd t snd' (t.acquire slot)
  | number {slot : ℕ} (h : slot ∈ t.acquired) (hc : C snd.nextSeq) :
      SendStep C snd t snd.nextSendSeq.2 (t.number slot snd.nextSendSeq.1)
  | notePosted {u : Use} {snd' : PeerState} (h : u ∈ t.numbered)
      (hok : snd.noteSendPosted u.slot u.seq = .ok snd') :
      SendStep C snd t snd' (t.notePosted u)
  | write {u : Use} (h : u ∈ t.posts) : SendStep C snd t snd (t.write u)
  | credit {u : Use} (h : u ∈ t.credits) :
      SendStep C snd t (snd.onRecvCredit u.slot (viaHeader u.seq))
        (if snd.expectedAt u.slot = viaHeader u.seq then t.credit u else t)

/-- Steps of the receiver. -/
inductive ReceiveStep (rcv : PeerState) (t : Traffic) : PeerState → Traffic → Prop
  | data {u : Use} (h : u ∈ t.written) :
      ReceiveStep rcv t (rcv.acceptDataNotif u.slot (viaHeader u.seq)).2
        (t.deliver u (rcv.acceptDataNotif u.slot (viaHeader u.seq)).1)
  | complete {u : Use} (h : u ∈ t.arrivals) :
      ReceiveStep rcv t (rcv.markRecvCompleted u.slot (viaHeader u.seq)) (t.complete u)
  | sendCredit {u : Use} (h : u ∈ t.toCredit) : ReceiveStep rcv t rcv (t.sendCredit u)

/-! ### Invariants -/

/-- Numbers below `2^31` name the sends, and go through a header unchanged. -/
structure Numbered (snd : PeerState) (t : Traffic) : Prop where
  seq : ∀ u ∈ t.uses, u.seq = u.id ∧ u.id < t.numSends
  bound : t.numSends ≤ 2147483648
  next : 0 ≤ snd.nextSeq → snd.nextSeq = t.numSends ∧ t.numSends < 2147483648
  ids : ∀ u ∈ t.uses, ∀ v ∈ t.uses, u.id = v.id → u = v
  nodup : t.uses.Nodup

/-- Each slot is free, reserved or waiting for one credit. Of the sends to a slot all
but the last are completed, and all are when the slot is free or just reserved. -/
structure Sending (snd : PeerState) (t : Traffic) : Prop extends Numbered snd t where
  sized : snd.Sized
  inRange : ∀ slot ∈ snd.availableRecvSlots ++ t.acquired, slot < recvRingSize
  slot_lt : ∀ u ∈ t.uses, u.slot < recvRingSize
  once : ∀ slot < recvRingSize, snd.availableRecvSlots.count slot + t.acquired.count slot +
    (t.numbered.map (·.slot)).count slot + (if snd.expectedAt slot = -1 then 0 else 1) = 1
  older : ∀ u ∈ t.uses, ∀ v ∈ t.uses, u.slot = v.slot → u.id < v.id → u ∈ t.completed
  free : ∀ slot ∈ snd.availableRecvSlots ++ t.acquired, ∀ u ∈ t.uses, u.slot = slot →
    u ∈ t.completed
  last : ∀ u ∈ t.numbered, ∀ v ∈ t.uses, v.slot = u.slot → v.id ≤ u.id
  expected : ∀ slot < recvRingSize, snd.expectedAt slot ≠ -1 → ∃ u ∈ t.posts ++ t.written,
    u.slot = slot ∧ u.seq = snd.expectedAt slot ∧ ∀ v ∈ t.uses, v.slot = slot → v.id ≤ u.id
  awaited : ∀ u ∈ t.posts, snd.expectedAt u.slot = u.seq
  credited : ∀ u ∈ t.credited, u ∈ t.written ∧ snd.expectedAt u.slot ≠ u.seq

/-- A data notif that arrived was accepted once; the slot's numbers are those of the
send being received and of the last one completed. -/
structure Receiving (rcv : PeerState) (t : Traffic) : Prop where
  sized : rcv.Sized
  delivered : ∀ u ∈ t.delivered, u ∈ t.written
  accepted : ∀ u, u ∈ t.delivered ↔ u ∈ t.arrivals ∨ u ∈ t.completed
  once : (t.arrivals ++ t.completed).Nodup
  inflight : ∀ u ∈ t.arrivals, rcv.inflightAt u.slot = u.seq
  inflightOf : ∀ slot, rcv.inflightAt slot ≠ -1 →
    ∃ u ∈ t.arrivals, u.slot = slot ∧ u.seq = rcv.inflightAt slot
  completed : ∀ u ∈ t.completed, u.seq ≤ rcv.completedAt u.slot
  completedOf : ∀ slot, rcv.completedAt slot = -1 ∨
    ∃ u ∈ t.completed, u.slot = slot ∧ u.seq = rcv.completedAt slot
  credits : ∀ u ∈ t.toCredit ++ t.credits, u ∈ t.completed

theorem sending_empty : Sending PeerState.new Traffic.empty where
  seq := by simp [Traffic.uses, Traffic.empty]
  bound := by simp [Traffic.empty]
  next _ := ⟨rfl, by simp [Traffic.empty]⟩
  ids := by simp [Traffic.uses, Traffic.empty]
  nodup := by simp [Traffic.uses, Traffic.empty]
  sized := sized_new
  inRange := by simp [Traffic.empty, PeerState.new]
  slot_lt := by simp [Traffic.uses, Traffic.empty]
  once slot hs := by
    have hcount : PeerState.new.availableRecvSlots.count slot = 1 :=
      List.count_eq_one_of_mem List.nodup_range (List.mem_range.mpr hs)
    have hexpected : PeerState.new.expectedAt slot = -1 := by rw [expectedAt, slotAt_new]
    rw [hcount, if_pos hexpected]
    simp [Traffic.empty]
  older := by simp [Traffic.uses, Traffic.empty]
  free := by simp [Traffic.uses, Traffic.empty]
  last := by simp [Traffic.empty]
  expected slot _ h := absurd (by rw [expectedAt, slotAt_new]) h
  awaited := by simp [Traffic.empty]
  credited := by simp [Traffic.empty]

theorem receiving_empty : Receiving PeerState.new Traffic.empty where
  sized := sized_new
  delivered := by simp [Traffic.empty]
  accepted := by simp [Traffic.empty]
  once := by simp [Traffic.empty]
  inflight := by simp [Traffic.empty]
  inflightOf slot h := absurd (by rw [inflightAt, slotAt_new]) h
  completed := by simp [Traffic.empty]
  completedOf slot := .inl (by rw [completedAt, slotAt_new])
  credits := by simp [Traffic.empty]

/-! ### Steps of the sender -/

section Sender

variable {snd snd' : PeerState} {t : Traffic} {slot : ℕ} {u : Use}

theorem Traffic.uses_notePosted (t : Traffic) (h : u ∈ t.numbered) :
    (t.notePosted u).uses.Perm t.uses := by
  simp only [Traffic.uses, Traffic.notePosted, List.append_assoc, List.cons_append]
  refine List.perm_middle.trans ?_
  rw [← List.cons_append]
  exact (List.perm_cons_erase h).symm.append_right _

theorem Traffic.uses_write (t : Traffic) (h : u ∈ t.posts) : (t.write u).uses.Perm t.uses := by
  simp only [Traffic.uses, Traffic.write, List.append_assoc]
  refine List.Perm.append_left _ (List.perm_middle.trans ?_)
  rw [← List.cons_append]
  exact (List.perm_cons_erase h).symm.append_right _

theorem Sending.mem_of_written (hu : u ∈ t.written) : u ∈ t.uses := by
  simp [Traffic.uses, hu]

theorem Sending.mem_of_posts (hu : u ∈ t.posts) : u ∈ t.uses := by
  simp [Traffic.uses, hu]

theorem Sending.mem_of_sent (hu : u ∈ t.posts ++ t.written) : u ∈ t.uses := by
  rw [Traffic.uses, List.append_assoc]
  exact List.mem_append_right _ hu

theorem Sending.mem_of_numbered (hu : u ∈ t.numbered) : u ∈ t.uses := by
  simp [Traffic.uses, hu]

/-- Sends with one slot and one number are one send. -/
theorem Numbered.eq_of_seq (h : Numbered snd t) {v : Use} (hu : u ∈ t.uses) (hv : v ∈ t.uses)
    (hseq : u.seq = v.seq) : u = v := by
  have h₁ := (h.seq u hu).1
  have h₂ := (h.seq v hv).1
  exact h.ids u hu v hv (by omega)

theorem Numbered.viaHeader (h : Numbered snd t) (hu : u ∈ t.uses) :
    viaHeader u.seq = u.seq ∧ 0 ≤ u.seq := by
  obtain ⟨hseq, hlt⟩ := h.seq u hu
  have := h.bound
  exact ⟨viaHeader_eq (by omega) (by omega), by omega⟩

theorem Sending.acquire (h : Sending snd t) (hok : snd.acquireRecvSlot = some (slot, snd')) :
    Sending snd' (t.acquire slot) ∧ SameReceiver snd snd' := by
  cases hfree : snd.availableRecvSlots with
  | nil => simp [acquireRecvSlot, hfree] at hok
  | cons first rest =>
    obtain ⟨rfl, rfl⟩ : first = slot ∧ { snd with availableRecvSlots := rest } = snd' := by
      simpa [acquireRecvSlot, hfree] using hok
    have hmem : ∀ s ∈ rest ++ (t.acquire first).acquired, s ∈ snd.availableRecvSlots ++ t.acquired := by
      intro s hs
      simp only [Traffic.acquire, List.mem_append, List.mem_cons, hfree] at hs ⊢
      tauto
    refine ⟨?_, ⟨id, rfl, rfl⟩⟩
    exact
      { seq := h.seq, bound := h.bound, next := h.next, ids := h.ids, nodup := h.nodup
        sized := h.sized
        inRange := fun s hs => h.inRange s (hmem s hs)
        slot_lt := h.slot_lt
        once := fun s hs => by
          have honce := h.once s hs
          have hexpected : ({ snd with availableRecvSlots := rest } : PeerState).expectedAt s =
            snd.expectedAt s := rfl
          rw [hfree, List.count_cons] at honce
          rw [hexpected, Traffic.acquire, List.count_cons]
          dsimp only
          omega
        older := h.older
        free := fun s hs => h.free s (hmem s hs)
        last := h.last
        expected := h.expected
        awaited := h.awaited
        credited := h.credited }

theorem Sending.number (h : Sending snd t) (hslot : slot ∈ t.acquired) (hpos : 0 ≤ snd.nextSeq) :
    Sending snd.nextSendSeq.2 (t.number slot snd.nextSendSeq.1) ∧
      SameReceiver snd snd.nextSendSeq.2 := by
  refine ⟨?_, ⟨id, rfl, rfl⟩⟩
  obtain ⟨hnext, hbound⟩ := h.next hpos
  have hlt : slot < recvRingSize := h.inRange slot (List.mem_append_right _ hslot)
  have honce := h.once slot hlt
  have hcount := List.count_pos_iff.mpr hslot
  have huses : (t.number slot snd.nextSeq).uses = ⟨slot, snd.nextSeq, t.numSends⟩ :: t.uses := rfl
  have hfree : ∀ u ∈ t.uses, u.slot = slot → u ∈ t.completed :=
    h.free slot (List.mem_append_right _ hslot)
  have hunexpected : snd.expectedAt slot = -1 := by
    by_contra hne
    rw [if_neg hne] at honce
    omega
  have hnumbered : ∀ u ∈ t.numbered, u.slot ≠ slot := by
    intro u hu heq
    have hin : u.slot ∈ t.numbered.map (·.slot) := List.mem_map_of_mem hu
    have := List.count_pos_iff.mpr hin
    rw [heq] at this
    omega
  have hgone : ∀ s ∈ snd.availableRecvSlots ++ t.acquired.erase slot,
      s ∈ snd.availableRecvSlots ++ t.acquired ∧ s ≠ slot := by
    intro s hs
    rcases List.mem_append.mp hs with hin | hin
    · refine ⟨List.mem_append_left _ hin, fun heq => ?_⟩
      have := List.count_pos_iff.mpr hin
      rw [heq] at this
      omega
    · refine ⟨List.mem_append_right _ (List.mem_of_mem_erase hin), fun heq => ?_⟩
      have := List.count_pos_iff.mpr hin
      rw [heq, List.count_erase_self] at this
      omega
  exact
    { seq := by
        rw [nextSendSeq, huses, List.forall_mem_cons]
        refine ⟨⟨hnext, Nat.lt_succ_self _⟩, fun u hu => ?_⟩
        obtain ⟨hs, hid⟩ := h.seq u hu
        exact ⟨hs, Nat.lt_succ_of_lt hid⟩
      bound := hbound
      next := fun hpos' => by
        simp only [nextSendSeq, addOne, Traffic.number] at hpos' ⊢
        split_ifs at hpos' ⊢ with hmax
        · omega
        · push_cast
          omega
      ids := by
        rw [nextSendSeq, huses]
        intro u hu v hv hid
        rcases List.mem_cons.mp hu with rfl | hu <;> rcases List.mem_cons.mp hv with rfl | hv
        · rfl
        · have := (h.seq v hv).2
          dsimp only at hid
          omega
        · have := (h.seq u hu).2
          dsimp only at hid
          omega
        · exact h.ids u hu v hv hid
      nodup := by
        rw [nextSendSeq, huses, List.nodup_cons]
        refine ⟨fun hmem => ?_, h.nodup⟩
        have := (h.seq _ hmem).2
        dsimp only at this
        omega
      sized := h.sized
      inRange := fun s hs => h.inRange s (hgone s hs).1
      slot_lt := by
        rw [nextSendSeq, huses, List.forall_mem_cons]
        exact ⟨hlt, h.slot_lt⟩
      once := fun s hs => by
        have honce' := h.once s hs
        have hexpected : snd.nextSendSeq.2.expectedAt s = snd.expectedAt s := rfl
        rw [hexpected]
        by_cases hss : slot = s
        · subst hss
          simp only [Traffic.number, nextSendSeq, List.map_cons, List.count_cons_self,
            List.count_erase_self]
          omega
        · simp only [Traffic.number, nextSendSeq, List.map_cons, List.count_cons_of_ne hss,
            List.count_erase_of_ne (Ne.symm hss)]
          omega
      older := by
        rw [nextSendSeq, huses]
        intro u hu v hv hslots hid
        rcases List.mem_cons.mp hu with rfl | hu <;> rcases List.mem_cons.mp hv with rfl | hv
        · exact absurd hid (Nat.lt_irrefl _)
        · have := (h.seq v hv).2
          dsimp only at hid
          omega
        · exact hfree u hu hslots
        · exact h.older u hu v hv hslots hid
      free := by
        intro s hs
        rw [nextSendSeq, huses, List.forall_mem_cons]
        exact ⟨fun heq => absurd heq.symm (hgone s hs).2, h.free s (hgone s hs).1⟩
      last := by
        rw [nextSendSeq, huses]
        intro u hu
        rw [List.forall_mem_cons]
        rcases List.mem_cons.mp hu with rfl | hu
        · exact ⟨fun _ => Nat.le_refl _, fun v hv _ => Nat.le_of_lt (h.seq v hv).2⟩
        · exact ⟨fun heq => absurd heq.symm (hnumbered u hu), h.last u hu⟩
      expected := by
        intro s hs hne
        obtain ⟨w, hw, hws, hwseq, hlast⟩ := h.expected s hs hne
        refine ⟨w, hw, hws, hwseq, ?_⟩
        rw [nextSendSeq, huses, List.forall_mem_cons]
        refine ⟨fun heq => ?_, hlast⟩
        dsimp only at heq
        rw [← heq] at hne
        exact absurd hunexpected hne
      awaited := h.awaited
      credited := h.credited }

/-- The same sends, in another state of sending. -/
theorem Numbered.congr (h : Numbered snd t) {t' : Traffic} (huses : t'.uses.Perm t.uses)
    (hn : t'.numSends = t.numSends) (hnext : snd'.nextSeq = snd.nextSeq) : Numbered snd' t' where
  seq u hu := by
    rw [hn]
    exact h.seq u (huses.mem_iff.mp hu)
  bound := by
    rw [hn]
    exact h.bound
  next := by
    rw [hn, hnext]
    exact h.next
  ids u hu v hv := h.ids u (huses.mem_iff.mp hu) v (huses.mem_iff.mp hv)
  nodup := huses.nodup_iff.mpr h.nodup

/-- The assertion of `note_send_posted` holds, and the slot waits for the send's credit. -/
theorem Sending.expectedAt_of_numbered (h : Sending snd t) (hu : u ∈ t.numbered) :
    snd.expectedAt u.slot = -1 := by
  have hin : u.slot ∈ t.numbered.map (·.slot) := List.mem_map_of_mem hu
  have hpos := List.count_pos_iff.mpr hin
  have honce := h.once u.slot (h.slot_lt u (mem_of_numbered hu))
  by_contra hne
  rw [if_neg hne] at honce
  omega

theorem Sending.notePosted (h : Sending snd t) (hu : u ∈ t.numbered)
    (hok : snd.noteSendPosted u.slot u.seq = .ok snd') :
    Sending snd' (t.notePosted u) ∧ SameReceiver snd snd' := by
  have hmem := mem_of_numbered hu
  have hlt := h.slot_lt u hmem
  have hunexpected := h.expectedAt_of_numbered hu
  rw [noteSendPosted_eq h.sized hlt, if_pos hunexpected] at hok
  obtain rfl := Except.ok.inj hok
  refine ⟨?_, sameReceiver_setSlot h.sized hlt u.seq⟩
  have hexpected := expectedAt_setSlot h.sized hlt { snd.slotAt u.slot with expectedCreditSeq := u.seq }
  have huses := t.uses_notePosted hu
  have hseq : u.seq ≠ -1 := by
    have := (h.seq u hmem).1
    omega
  have hin : u.slot ∈ t.numbered.map (·.slot) := List.mem_map_of_mem hu
  have herase : ∀ s, (t.numbered.map (·.slot)).count s =
      ((t.numbered.erase u).map (·.slot)).count s + if u.slot = s then 1 else 0 := by
    intro s
    rw [((List.perm_cons_erase hu).map (·.slot)).count_eq, List.map_cons, List.count_cons]
    simp only [beq_iff_eq]
  exact
    { toNumbered := h.toNumbered.congr huses rfl rfl
      sized := h.sized.setSlot _ _
      inRange := h.inRange
      slot_lt := fun v hv => h.slot_lt v (huses.mem_iff.mp hv)
      once := fun s hs => by
        have honce := h.once s hs
        rw [herase] at honce
        rw [hexpected]
        by_cases hss : s = u.slot
        · subst hss
          rw [Function.update_self, if_neg hseq]
          rw [if_pos rfl, if_pos hunexpected] at honce
          exact honce
        · rw [Function.update_of_ne hss]
          rw [if_neg (Ne.symm hss)] at honce
          exact honce
      older := fun v hv w hw => h.older v (huses.mem_iff.mp hv) w (huses.mem_iff.mp hw)
      free := fun s hs v hv => h.free s hs v (huses.mem_iff.mp hv)
      last := fun v hv w hw => h.last v (List.mem_of_mem_erase hv) w (huses.mem_iff.mp hw)
      expected := fun s hs hne => by
        rw [hexpected] at hne ⊢
        by_cases hss : s = u.slot
        · subst hss
          rw [Function.update_self]
          exact ⟨u, by simp [Traffic.notePosted], rfl, rfl,
            fun v hv => h.last u hu v (huses.mem_iff.mp hv)⟩
        · rw [Function.update_of_ne hss] at hne ⊢
          obtain ⟨w, hw, hws, hwseq, hlast⟩ := h.expected s hs hne
          refine ⟨w, ?_, hws, hwseq, fun v hv => hlast v (huses.mem_iff.mp hv)⟩
          simp only [Traffic.notePosted, List.cons_append, List.mem_cons]
          exact .inr hw
      awaited := fun v hv => by
        rw [hexpected]
        rcases List.mem_cons.mp hv with rfl | hv
        · exact Function.update_self _ _ _
        · have hawait := h.awaited v hv
          have hne : v.slot ≠ u.slot := by
            intro heq
            have := (h.seq v (mem_of_posts hv)).1
            rw [heq, hunexpected] at hawait
            omega
          rw [Function.update_of_ne hne, hawait]
      credited := fun v hv => by
        obtain ⟨hw, hcredit⟩ := h.credited v hv
        refine ⟨hw, ?_⟩
        rw [hexpected]
        by_cases hvs : v.slot = u.slot
        · rw [hvs, Function.update_self]
          intro heq
          have huv := h.eq_of_seq hmem (mem_of_written hw) heq
          have hdisj := (List.nodup_append.mp h.nodup).2.2 u
            (List.mem_append_left _ hu) v hw
          exact hdisj huv
        · rw [Function.update_of_ne hvs]
          exact hcredit }

theorem Sending.write (h : Sending snd t) (hu : u ∈ t.posts) : Sending snd (t.write u) := by
  have huses := t.uses_write hu
  have hsub : ∀ v ∈ t.posts ++ t.written, v ∈ (t.write u).posts ++ (t.write u).written := by
    intro v hv
    simp only [Traffic.write, List.mem_append, List.mem_cons] at hv ⊢
    by_cases hvu : v = u
    · exact .inr (.inl hvu)
    · rcases hv with hv | hv
      · exact .inl ((List.mem_erase_of_ne hvu).mpr hv)
      · exact .inr (.inr hv)
  exact
    { toNumbered := h.toNumbered.congr huses rfl rfl
      sized := h.sized
      inRange := h.inRange
      slot_lt := fun v hv => h.slot_lt v (huses.mem_iff.mp hv)
      once := h.once
      older := fun v hv w hw => h.older v (huses.mem_iff.mp hv) w (huses.mem_iff.mp hw)
      free := fun s hs v hv => h.free s hs v (huses.mem_iff.mp hv)
      last := fun v hv w hw => h.last v hv w (huses.mem_iff.mp hw)
      expected := fun s hs hne => by
        obtain ⟨w, hw, hws, hwseq, hlast⟩ := h.expected s hs hne
        exact ⟨w, hsub w hw, hws, hwseq, fun v hv => hlast v (huses.mem_iff.mp hv)⟩
      awaited := fun v hv => h.awaited v (List.mem_of_mem_erase hv)
      credited := fun v hv => ⟨List.mem_cons_of_mem _ (h.credited v hv).1, (h.credited v hv).2⟩ }

/-- A send whose number the slot waits for is the slot's last one. -/
theorem Sending.last_of_expected (h : Sending snd t) (hu : u ∈ t.uses)
    (hexpected : snd.expectedAt u.slot = u.seq) : ∀ v ∈ t.uses, v.slot = u.slot → v.id ≤ u.id := by
  have hseq := (h.seq u hu).1
  obtain ⟨w, hw, hws, hwseq, hlast⟩ := h.expected u.slot (h.slot_lt u hu) (by omega)
  obtain rfl := h.eq_of_seq (mem_of_sent hw) hu (hwseq.trans hexpected)
  exact hlast

/-- The credit a slot waits for frees it; every other one changes nothing. -/
theorem Sending.credit (h : Sending snd t) (hw : u ∈ t.written) (hdone : u ∈ t.completed) :
    Sending (snd.onRecvCredit u.slot u.seq)
        (if snd.expectedAt u.slot = u.seq then t.credit u else t) ∧
      SameReceiver snd (snd.onRecvCredit u.slot u.seq) := by
  have hmem := mem_of_written hw
  have hlt := h.slot_lt u hmem
  rw [onRecvCredit_eq h.sized hlt]
  split_ifs with hawait
  swap
  · exact ⟨h, id, rfl, rfl⟩
  have hlast := h.last_of_expected hmem hawait
  have hseq : u.seq ≠ -1 := by
    have := (h.seq u hmem).1
    omega
  have hsame := sameReceiver_setSlot h.sized hlt (-1)
  refine ⟨?_, hsame.sized, hsame.inflight, hsame.completed⟩
  have hexpected := expectedAt_setSlot h.sized hlt { snd.slotAt u.slot with expectedCreditSeq := -1 }
  have hall : ∀ v ∈ t.uses, v.slot = u.slot → v ∈ t.completed := by
    intro v hv hvs
    rcases Nat.lt_or_eq_of_le (hlast v hv hvs) with hid | hid
    · exact h.older v hv u hmem hvs hid
    · rwa [h.ids v hv u hmem hid]
  have hget : ∀ s, ({ snd.setSlot u.slot { snd.slotAt u.slot with expectedCreditSeq := -1 } with
      availableRecvSlots := snd.availableRecvSlots ++ [u.slot] } : PeerState).expectedAt s =
      Function.update snd.expectedAt u.slot (-1) s := fun s => congrFun hexpected s
  exact
    { toNumbered := h.toNumbered.congr (List.Perm.refl _) rfl rfl
      sized := h.sized.setSlot _ _
      inRange := fun s hs => by
        simp only [Traffic.credit, List.mem_append, List.mem_singleton] at hs
        rcases hs with (hs | rfl) | hs
        · exact h.inRange s (List.mem_append_left _ hs)
        · exact hlt
        · exact h.inRange s (List.mem_append_right _ hs)
      slot_lt := h.slot_lt
      once := fun s hs => by
        have honce := h.once s hs
        rw [hget, List.count_append, List.count_singleton]
        by_cases hss : s = u.slot
        · subst hss
          rw [hawait, if_neg hseq] at honce
          rw [Function.update_self, if_pos rfl, if_pos (beq_self_eq_true _)]
          simp only [Traffic.credit]
          omega
        · rw [Function.update_of_ne hss, if_neg (by simpa using Ne.symm hss)]
          exact honce
      older := h.older
      free := fun s hs => by
        simp only [Traffic.credit, List.mem_append, List.mem_singleton] at hs
        rcases hs with (hs | rfl) | hs
        · exact h.free s (List.mem_append_left _ hs)
        · exact hall
        · exact h.free s (List.mem_append_right _ hs)
      last := h.last
      expected := fun s hs hne => by
        rw [hget] at hne ⊢
        by_cases hss : s = u.slot
        · subst hss
          rw [Function.update_self] at hne
          exact absurd rfl hne
        · rw [Function.update_of_ne hss] at hne ⊢
          exact h.expected s hs hne
      awaited := fun v hv => by
        rw [hget]
        by_cases hvs : v.slot = u.slot
        · have hvu := h.eq_of_seq (mem_of_posts hv) hmem (by rw [← h.awaited v hv, hvs, hawait])
          have hdisj := (List.nodup_append.mp h.nodup).2.2 v (List.mem_append_right _ hv) u hw
          exact absurd hvu hdisj
        · rw [Function.update_of_ne hvs]
          exact h.awaited v hv
      credited := fun v hv => by
        rw [hget]
        rcases List.mem_cons.mp hv with rfl | hv
        · exact ⟨hw, by rw [Function.update_self]; exact hseq.symm⟩
        · obtain ⟨hvw, hne⟩ := h.credited v hv
          refine ⟨hvw, ?_⟩
          by_cases hvs : v.slot = u.slot
          · have := (h.seq v (mem_of_written hvw)).1
            rw [hvs, Function.update_self]
            omega
          · rw [Function.update_of_ne hvs]
            exact hne }

end Sender

end StreamInfer.Nixl
