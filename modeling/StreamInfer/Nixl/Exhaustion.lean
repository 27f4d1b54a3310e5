import StreamInfer.Nixl.Network

/-! Drawing more numbers than a signed 32-bit int has. The first `2^31` sends to a peer
are told apart; the number of the next one is negative, not above the `-1` a slot
starts with, so the receiver takes its data notif for an old one. -/

namespace StreamInfer.Nixl

open General Relation

/-! ### Numbers in range -/

def Int32 (x : ℤ) : Prop := -2147483648 ≤ x ∧ x < 2147483648

theorem int32_addOne {x : ℤ} (h : Int32 x) : Int32 (addOne x) := by
  unfold Int32 addOne at *
  split_ifs <;> omega

/-- A slot's completed number is no less than its first. -/
structure InRange (p : PeerState) : Prop where
  nextSeq : Int32 p.nextSeq
  completed : ∀ st ∈ p.slotState, -1 ≤ st.completedRecvSeq

variable {p p' : PeerState} {t t' : Traffic} {slot : ℕ} {seq : ℤ}

theorem InRange.setSlot (h : InRange p) {st : SlotState} (hst : -1 ≤ st.completedRecvSeq) :
    InRange (p.setSlot slot st) where
  nextSeq := h.nextSeq
  completed st' hmem := by
    rcases List.mem_or_eq_of_mem_set hmem with hmem | rfl
    · exact h.completed st' hmem
    · exact hst

theorem inRange_new : InRange PeerState.new where
  nextSeq := by simp [Int32, PeerState.new]
  completed st hst := by
    rw [List.eq_of_mem_replicate hst]

theorem InRange.acquireRecvSlot (h : InRange p) (hok : p.acquireRecvSlot = some (slot, p')) :
    InRange p' := by
  cases hfree : p.availableRecvSlots with
  | nil => simp [PeerState.acquireRecvSlot, hfree] at hok
  | cons first rest =>
    obtain ⟨-, rfl⟩ : first = slot ∧ { p with availableRecvSlots := rest } = p' := by
      simpa [PeerState.acquireRecvSlot, hfree] using hok
    exact ⟨h.nextSeq, h.completed⟩

theorem InRange.nextSendSeq (h : InRange p) : InRange p.nextSendSeq.2 :=
  ⟨int32_addOne h.nextSeq, h.completed⟩

theorem InRange.noteSendPosted (h : InRange p) (hok : p.noteSendPosted slot seq = .ok p') :
    InRange p' := by
  unfold PeerState.noteSendPosted at hok
  split_ifs at hok
  split at hok
  · cases hok
  · next st hst =>
    split_ifs at hok
    obtain rfl := Except.ok.inj hok
    exact h.setSlot (h.completed st (List.mem_of_getElem? hst))

theorem InRange.onRecvCredit (h : InRange p) (slot : ℕ) (seq : ℤ) :
    InRange (p.onRecvCredit slot seq) := by
  unfold PeerState.onRecvCredit
  split_ifs
  · split
    · exact h
    · next st hst =>
      split_ifs
      · have hset : InRange (p.setSlot slot { st with expectedCreditSeq := -1 }) :=
          h.setSlot (h.completed st (List.mem_of_getElem? hst))
        exact ⟨hset.nextSeq, hset.completed⟩
      · exact h
  · exact h

theorem InRange.acceptDataNotif (h : InRange p) (slot : ℕ) (seq : ℤ) :
    InRange (p.acceptDataNotif slot seq).2 := by
  unfold PeerState.acceptDataNotif
  split_ifs
  · split
    · exact h
    · next st hst =>
      split_ifs
      · exact h
      · exact h.setSlot (h.completed st (List.mem_of_getElem? hst))
  · exact h

theorem InRange.markRecvCompleted (h : InRange p) (slot : ℕ) (seq : ℤ) :
    InRange (p.markRecvCompleted slot seq) := by
  unfold PeerState.markRecvCompleted
  split_ifs
  · split
    · exact h
    · next st hst =>
      have hst' := h.completed st (List.mem_of_getElem? hst)
      refine h.setSlot ?_
      dsimp only
      split_ifs <;> omega
  · exact h

/-- A negative number is not above a slot's completed number. -/
theorem InRange.rejects (h : InRange p) (hseq : Int32 seq) (hneg : seq < 0) :
    (p.acceptDataNotif slot (viaHeader seq)).1 = false := by
  rw [viaHeader_eq hseq.1 hseq.2, PeerState.acceptDataNotif]
  split_ifs
  · split
    · rfl
    · next st hst =>
      have hst' := h.completed st (List.mem_of_getElem? hst)
      rw [if_pos (.inr (by omega))]
  · rfl

theorem SendStep.inRange {C : ℤ → Prop} (hp : InRange p) (ht : ∀ u ∈ t.uses, Int32 u.seq)
    (h : SendStep C p t p' t') : InRange p' ∧ ∀ u ∈ t'.uses, Int32 u.seq := by
  cases h with
  | acquire h => exact ⟨hp.acquireRecvSlot h, ht⟩
  | @number slot h hc =>
    refine ⟨hp.nextSendSeq, ?_⟩
    have huses : (t.number slot p.nextSeq).uses = ⟨slot, p.nextSeq, t.numSends⟩ :: t.uses := rfl
    rw [PeerState.nextSendSeq, huses, List.forall_mem_cons]
    exact ⟨hp.nextSeq, ht⟩
  | notePosted h hok =>
    exact ⟨hp.noteSendPosted hok, fun u hu => ht u ((t.uses_notePosted h).mem_iff.mp hu)⟩
  | write h => exact ⟨hp, fun u hu => ht u ((t.uses_write h).mem_iff.mp hu)⟩
  | credit h =>
    refine ⟨hp.onRecvCredit _ _, ?_⟩
    split_ifs <;> exact ht

theorem ReceiveStep.inRange (hp : InRange p) (h : ReceiveStep p t p' t') :
    InRange p' ∧ t'.uses = t.uses := by
  cases h with
  | data h => exact ⟨hp.acceptDataNotif _ _, rfl⟩
  | complete h => exact ⟨hp.markRecvCompleted _ _, rfl⟩
  | sendCredit h => exact ⟨hp, rfl⟩

/-! ### Runs of any length -/

namespace Network

variable {s s' : Network}

/-- The numbers of all directions are 32-bit. -/
def AllInRange (s : Network) : Prop :=
  ∀ a b, InRange (s.peer a b) ∧ ∀ u ∈ (s.traffic a b).uses, Int32 u.seq

theorem AllInRange.step {C : ℤ → Prop} (h : s.AllInRange) (hs : Step C s s') : s'.AllInRange := by
  cases hs with
  | @send a b p t hstep =>
    obtain ⟨hp, ht⟩ := hstep.inRange (h a b).1 (h a b).2
    intro c d
    by_cases hcd : c = a ∧ d = b
    · obtain ⟨rfl, rfl⟩ := hcd
      simp only [send, setEntry_self]
      exact ⟨hp, ht⟩
    · simp only [send, setEntry_of_ne _ _ hcd]
      exact h c d
  | @receive a b p t hstep =>
    obtain ⟨hp, ht⟩ := hstep.inRange (h b a).1
    intro c d
    refine ⟨?_, ?_⟩
    · by_cases hcd : c = b ∧ d = a
      · obtain ⟨rfl, rfl⟩ := hcd
        simpa only [receive, setEntry_self] using hp
      · simpa only [receive, setEntry_of_ne _ _ hcd] using (h c d).1
    · by_cases hcd : c = a ∧ d = b
      · obtain ⟨rfl, rfl⟩ := hcd
        simpa only [receive, setEntry_self, ht] using (h c d).2
      · simpa only [receive, setEntry_of_ne _ _ hcd] using (h c d).2

theorem allInRange_of_reach {C : ℤ → Prop} (h : Reach (· = new) (Step C) s) : s.AllInRange := by
  refine h.invariant ?_ fun _ _ hI hs => hI.step hs
  rintro _ rfl a b
  exact ⟨inRange_new, by simp [new, Traffic.uses, Traffic.empty]⟩

theorem rejects_of_reach {C : ℤ → Prop} (h : Reach (· = new) (Step C) s) {a b : ℕ} {u : Use}
    (hu : u ∈ (s.traffic a b).written) (hneg : u.seq < 0) :
    ((s.peer b a).acceptDataNotif u.slot (viaHeader u.seq)).1 = false :=
  have hall := allInRange_of_reach h
  (hall b a).1.rejects ((hall a b).2 u (Sending.mem_of_written hu)) hneg

/-! ### A send from start to end -/

section Round

variable {a b : ℕ} {rest : List ℕ}

/-- The send that draws the next number for the first free slot is written. -/
theorem sendRun_written {C : ℤ → Prop} (hs : Sending p t) (hc : C p.nextSeq)
    (hfree : p.availableRecvSlots = slot :: rest) :
    ∃ p' t', SendRun C (p, t) (p', t') ∧ ⟨slot, p.nextSeq, t.numSends⟩ ∈ t'.written ∧
      t'.delivered = t.delivered ∧ t'.numSends = t.numSends + 1 ∧
      p'.nextSeq = addOne p.nextSeq ∧ p'.expectedAt slot = p.nextSeq := by
  have hin : slot ∈ p.availableRecvSlots ++ t.acquired := by
    rw [hfree]
    exact List.mem_append_left _ List.mem_cons_self
  have hlt := hs.inRange slot hin
  have hunexpected : p.expectedAt slot = -1 := by
    have honce := hs.once slot hlt
    rw [hfree, List.count_cons_self] at honce
    by_contra hne
    rw [if_neg hne] at honce
    omega
  let u : Use := ⟨slot, p.nextSeq, t.numSends⟩
  let p₂ : PeerState := ⟨rest, addOne p.nextSeq, p.slotState⟩
  have hsized : p₂.Sized := hs.sized
  have hacquire : p.acquireRecvSlot = some (slot, { p with availableRecvSlots := rest }) := by
    rw [PeerState.acquireRecvSlot, hfree]
  have hnote : p₂.noteSendPosted u.slot u.seq =
      .ok (p₂.setSlot slot { p₂.slotAt slot with expectedCreditSeq := p.nextSeq }) :=
    (PeerState.noteSendPosted_eq hsized hlt).trans (if_pos hunexpected)
  have hstart : SendRun C (p, t) (p, t) := .refl
  have hnumber := (hstart.acquire hacquire).number slot List.mem_cons_self hc
  have hwritten := (hnumber.notePosted u List.mem_cons_self hnote).write u List.mem_cons_self
  refine ⟨_, _, hwritten, List.mem_cons_self, rfl, rfl, rfl, ?_⟩
  rw [PeerState.expectedAt_setSlot hsized hlt, Function.update_self]

/-- A free slot is written. -/
theorem exists_written {C : ℤ → Prop} (h : Reach (· = new) (Step C) s)
    (hs : Sending (s.peer a b) (s.traffic a b)) (hr : Receiving (s.peer b a) (s.traffic a b))
    (hc : C (s.peer a b).nextSeq) (hfree : (s.peer a b).availableRecvSlots = slot :: rest) :
    ∃ s', Reach (· = new) (Step C) s' ∧ ∃ u ∈ (s'.traffic a b).written,
      u ∉ (s'.traffic a b).delivered ∧ u.seq = (s.peer a b).nextSeq ∧
      u.id = (s.traffic a b).numSends ∧ (s'.peer a b).expectedAt u.slot = u.seq ∧
      (s'.traffic a b).numSends = (s.traffic a b).numSends + 1 ∧
      (s'.peer a b).nextSeq = addOne (s.peer a b).nextSeq := by
  obtain ⟨p', t', hrun, hwritten, hdelivered, hsends, hnext, hexpected⟩ := sendRun_written hs hc hfree
  have hnew : (⟨slot, (s.peer a b).nextSeq, (s.traffic a b).numSends⟩ : Use) ∉ t'.delivered := by
    rw [hdelivered]
    intro hmem
    have hid := (hs.seq _ (Sending.mem_of_written (hr.delivered _ hmem))).2
    exact absurd hid (Nat.lt_irrefl _)
  refine ⟨s.send a b p' t', reach_send h hrun, ?_⟩
  simp only [send, setEntry_self]
  exact ⟨_, hwritten, hnew, rfl, rfl, hexpected, hsends, hnext⟩

/-- A data notif that is accepted is received and credited. -/
theorem receiveRun_credited {q : PeerState} {u : Use} (hu : u ∈ t.written)
    (hok : (q.acceptDataNotif u.slot (viaHeader u.seq)).1 = true) :
    ∃ q' t', ReceiveRun (q, t) (q', t') ∧ u ∈ t'.credits ∧ t'.numSends = t.numSends := by
  have hstart : ReceiveRun (q, t) (q, t) := .refl
  have hdata : ReceiveRun (q, t) ((q.acceptDataNotif u.slot (viaHeader u.seq)).2, t.deliver u true) := by
    rw [← hok]
    exact hstart.data u hu
  have hcredited := (hdata.complete u List.mem_cons_self).sendCredit u List.mem_cons_self
  exact ⟨_, _, hcredited, List.mem_cons_self, rfl⟩

/-- A written send is received and credited, and its slot is free again. -/
theorem exists_credited (h : Reach (· = new) (Step (0 ≤ ·)) s) (hab : a ≠ b) {u : Use}
    (hu : u ∈ (s.traffic a b).written) (hnew : u ∉ (s.traffic a b).delivered)
    (hexpected : (s.peer a b).expectedAt u.slot = u.seq) :
    ∃ s', Reach (· = new) (Step (0 ≤ ·)) s' ∧ (s'.peer a b).availableRecvSlots ≠ [] ∧
      (s'.traffic a b).numSends = (s.traffic a b).numSends ∧
      (s'.peer a b).nextSeq = (s.peer a b).nextSeq := by
  obtain ⟨hs, hr⟩ := ordered_of_reach h a b
  have hmem := Sending.mem_of_written hu
  have hheader := (hs.viaHeader hmem).1
  have hok := (hr.accepts_iff hs hu).mpr hnew
  rw [← hheader] at hok
  obtain ⟨q, t, hrun, hcredit, hsends⟩ := receiveRun_credited hu hok
  have hreceived := reach_receive h hrun
  have hpeer : (s.receive a b q t).peer a b = s.peer a b :=
    setEntry_of_ne _ _ fun heq => hab heq.1
  have htraffic : (s.receive a b q t).traffic a b = t := setEntry_self _ _ _ _
  have hcredit' : SendStep (0 ≤ ·) ((s.receive a b q t).peer a b) ((s.receive a b q t).traffic a b)
      (((s.receive a b q t).peer a b).onRecvCredit u.slot (viaHeader u.seq)) _ :=
    .credit (by rwa [htraffic])
  refine ⟨_, hreceived.next (.send hcredit'), ?_⟩
  simp only [send, setEntry_self]
  rw [hpeer, htraffic, hheader, PeerState.onRecvCredit_eq hs.sized (hs.slot_lt u hmem),
    if_pos hexpected, if_pos hexpected]
  exact ⟨List.append_ne_nil_of_right_ne_nil _ (List.cons_ne_nil _ _), hsends, rfl⟩

/-- A send from start to end draws one number and leaves a free slot. -/
theorem exists_next (h : Reach (· = new) (Step (0 ≤ ·)) s) (hab : a ≠ b)
    (hfree : (s.peer a b).availableRecvSlots ≠ []) (hpos : 0 ≤ (s.peer a b).nextSeq) :
    ∃ s', Reach (· = new) (Step (0 ≤ ·)) s' ∧ (s'.peer a b).availableRecvSlots ≠ [] ∧
      (s'.traffic a b).numSends = (s.traffic a b).numSends + 1 ∧
      (s'.peer a b).nextSeq = addOne (s.peer a b).nextSeq := by
  obtain ⟨slot, rest, hfree⟩ := List.exists_cons_of_ne_nil hfree
  obtain ⟨hs, hr⟩ := ordered_of_reach h a b
  obtain ⟨s₁, h₁, u, hu, hnew, -, -, hexpected, hsends, hnext⟩ := exists_written h hs hr hpos hfree
  obtain ⟨s₂, h₂, hfree₂, hsends₂, hnext₂⟩ := exists_credited h₁ hab hu hnew hexpected
  exact ⟨s₂, h₂, hfree₂, hsends₂.trans hsends, hnext₂.trans hnext⟩

/-- Every number up to the largest is reached with a free slot. -/
theorem exists_nextSeq (hab : a ≠ b) (n : ℕ) (hn : n ≤ 2147483647) :
    ∃ s, Reach (· = new) (Step (0 ≤ ·)) s ∧ (s.peer a b).availableRecvSlots ≠ [] ∧
      (s.traffic a b).numSends = n ∧ (s.peer a b).nextSeq = n := by
  induction n with
  | zero => exact ⟨new, .start rfl, List.cons_ne_nil _ _, rfl, rfl⟩
  | succ n ih =>
    obtain ⟨s, h, hfree, hsends, hnext⟩ := ih (by omega)
    obtain ⟨s₁, h₁, hfree₁, hsends₁, hnext₁⟩ := exists_next h hab hfree (by omega)
    refine ⟨s₁, h₁, hfree₁, by rw [hsends₁, hsends], ?_⟩
    rw [hnext₁, hnext, addOne, if_neg (by omega)]
    push_cast
    rfl

end Round

/-! ### After `2^31` sends -/

/-- As long as fewer than `2^31` numbers were drawn for a peer when a send draws its
own, its data notif is accepted exactly when it first arrives. In a run of any
length the data notif of a send with a wrapped number is never accepted. -/
theorem accepts_unwrapped (s : Network) (a b : ℕ) (u : Use) (hu : u ∈ (s.traffic a b).written) :
    (Reach (· = new) (Step (0 ≤ ·)) s →
      (((s.peer b a).acceptDataNotif u.slot (viaHeader u.seq)).1 = true ↔
        u ∉ (s.traffic a b).delivered)) ∧
    (Reach (· = new) (Step fun _ => True) s → u.seq < 0 →
      ((s.peer b a).acceptDataNotif u.slot (viaHeader u.seq)).1 = false) := by
  refine ⟨fun h => ?_, fun h hneg => rejects_of_reach h hu hneg⟩
  obtain ⟨hs, hr⟩ := ordered_of_reach h a b
  rw [(hs.viaHeader (Sending.mem_of_written hu)).1]
  exact hr.accepts_iff hs hu

theorem accepts_unwrapped_reused : ∃ s, Reach (· = new) (Step (0 ≤ ·)) s ∧
    firstUse ∈ (s.traffic 0 1).written ∧ secondUse ∈ (s.traffic 0 1).written ∧
    ((s.peer 1 0).acceptDataNotif 0 (viaHeader 0)).1 = false ∧
    ((s.peer 1 0).acceptDataNotif 0 (viaHeader 1)).1 = true := by
  obtain ⟨s, h, hwritten, hdelivered, -⟩ := exists_reused
  have hu : firstUse ∈ (s.traffic 0 1).written := by simp [hwritten]
  have hv : secondUse ∈ (s.traffic 0 1).written := by simp [hwritten]
  have hfirst := (accepts_unwrapped s 0 1 firstUse hu).1 h
  have hsecond := (accepts_unwrapped s 0 1 secondUse hv).1 h
  refine ⟨s, h, hu, hv, ?_, ?_⟩
  · simpa [hdelivered, firstUse] using hfirst
  · simpa [hdelivered, firstUse, secondUse] using hsecond

/-- The data notif of send `2^31` arrives for the first time, and is rejected. -/
theorem rejects_wrapped : ∃ s, Reach (· = new) (Step fun _ => True) s ∧
    ∃ u ∈ (s.traffic 0 1).written, u.id = 2147483648 ∧ u ∉ (s.traffic 0 1).delivered ∧
      ((s.peer 1 0).acceptDataNotif u.slot (viaHeader u.seq)).1 = false := by
  have hab : (0 : ℕ) ≠ 1 := by decide
  obtain ⟨s, h, hfree, hsends, hnext⟩ := exists_nextSeq hab 2147483647 (Nat.le_refl _)
  obtain ⟨s₁, h₁, hfree₁, hsends₁, hnext₁⟩ := exists_next h hab hfree (by omega)
  have hwrapped : (s₁.peer 0 1).nextSeq = -2147483648 := by
    rw [hnext₁, hnext]
    rfl
  obtain ⟨slot, rest, hfree₁⟩ := List.exists_cons_of_ne_nil hfree₁
  obtain ⟨hs, hr⟩ := ordered_of_reach h₁ 0 1
  have hany : Reach (· = new) (Step fun _ => True) s₁ :=
    h₁.mono fun _ _ hstep => hstep.mono fun _ _ => trivial
  obtain ⟨s₂, h₂, u, hu, hnew, hseq, hid, -⟩ := exists_written hany hs hr trivial hfree₁
  refine ⟨s₂, h₂, u, hu, by rw [hid, hsends₁, hsends], hnew, rejects_of_reach h₂ hu ?_⟩
  omega

end Network

end StreamInfer.Nixl
