import StreamInfer.General.Reach
import StreamInfer.Nixl.Receipts

/-! Any number of contexts, each keeping a state for every peer. A context sends to a
peer and receives from it through the same state, so a step of one direction
leaves the other direction's role alone. -/

namespace StreamInfer.Nixl

open General PeerState Relation

/-! ### One direction -/

section Direction

variable {snd snd' rcv rcv' : PeerState} {t t' : Traffic}

theorem SendStep.mono {C C' : ℤ → Prop} (hsub : ∀ x, C x → C' x) (h : SendStep C snd t snd' t') :
    SendStep C' snd t snd' t' := by
  cases h with
  | acquire h => exact .acquire h
  | number h hc => exact .number h (hsub _ hc)
  | notePosted h hok => exact .notePosted h hok
  | write h => exact .write h
  | credit h => exact .credit h

theorem SendStep.keeps (hs : Sending snd t) (hr : Receiving rcv t)
    (h : SendStep (0 ≤ ·) snd t snd' t') :
    Sending snd' t' ∧ SameReceiver snd snd' ∧
      (t'.delivered, t'.arrivals, t'.completed, t'.toCredit, t'.credits) =
        (t.delivered, t.arrivals, t.completed, t.toCredit, t.credits) ∧
      ∀ u ∈ t.written, u ∈ t'.written := by
  cases h with
  | acquire h =>
    obtain ⟨hs', hsame⟩ := hs.acquire h
    exact ⟨hs', hsame, rfl, fun _ hu => hu⟩
  | number h hc =>
    obtain ⟨hs', hsame⟩ := hs.number h hc
    exact ⟨hs', hsame, rfl, fun _ hu => hu⟩
  | notePosted h hok =>
    obtain ⟨hs', hsame⟩ := hs.notePosted h hok
    exact ⟨hs', hsame, rfl, fun _ hu => hu⟩
  | write h => exact ⟨hs.write h, ⟨id, rfl, rfl⟩, rfl, fun _ hu => List.mem_cons_of_mem _ hu⟩
  | @credit u h =>
    have hdone := hr.credits u (List.mem_append_right _ h)
    have hwritten := hr.delivered u (hr.mem_delivered (.inr hdone))
    rw [(hs.viaHeader (Sending.mem_of_written hwritten)).1]
    obtain ⟨hs', hsame⟩ := hs.credit hwritten hdone
    refine ⟨hs', hsame, ?_⟩
    split_ifs <;> exact ⟨rfl, fun _ hu => hu⟩

theorem ReceiveStep.keeps (hs : Sending snd t) (hr : Receiving rcv t)
    (h : ReceiveStep rcv t rcv' t') :
    Receiving rcv' t' ∧ SameSender rcv rcv' ∧
      (t'.acquired, t'.numbered, t'.posts, t'.written, t'.credited, t'.numSends) =
        (t.acquired, t.numbered, t.posts, t.written, t.credited, t.numSends) ∧
      ∀ u ∈ t.completed, u ∈ t'.completed := by
  cases h with
  | @data u h =>
    rw [(hs.viaHeader (Sending.mem_of_written h)).1]
    obtain ⟨hr', hsame⟩ := hr.data hs h
    exact ⟨hr', hsame, rfl, fun _ hu => hu⟩
  | @complete u h =>
    rw [(hs.viaHeader (hr.mem_uses (.inl h))).1]
    obtain ⟨hr', hsame⟩ := hr.complete hs h
    exact ⟨hr', hsame, rfl, fun _ hu => List.mem_cons_of_mem _ hu⟩
  | sendCredit h => exact ⟨hr.sendCredit h, ⟨id, rfl, rfl, rfl⟩, rfl, fun _ hu => hu⟩

end Direction

/-! ### The network -/

/-- Each context's state for each peer, and the traffic from each to each. -/
structure Network where
  peer : ℕ → ℕ → PeerState
  traffic : ℕ → ℕ → Traffic

namespace Network

/-- One entry of a table is replaced. -/
def setEntry {α : Type*} (f : ℕ → ℕ → α) (a b : ℕ) (x : α) : ℕ → ℕ → α :=
  Function.update f a (Function.update (f a) b x)

theorem setEntry_self {α : Type*} (f : ℕ → ℕ → α) (a b : ℕ) (x : α) : setEntry f a b x a b = x := by
  rw [setEntry, Function.update_self, Function.update_self]

theorem setEntry_of_ne {α : Type*} (f : ℕ → ℕ → α) {a b c d : ℕ} (x : α) (h : ¬(c = a ∧ d = b)) :
    setEntry f a b x c d = f c d := by
  rw [setEntry]
  by_cases hc : c = a
  · subst hc
    rw [Function.update_self, Function.update_of_ne fun hd => h ⟨rfl, hd⟩]
  · rw [Function.update_of_ne hc]

/-- An entry is the new one, or the old one. -/
theorem setEntry_rel {α : Type*} {f : ℕ → ℕ → α} {a b : ℕ} {x : α} {r : α → α → Prop}
    (hrefl : ∀ y, r y y) (hx : r (f a b) x) (c d : ℕ) : r (f c d) (setEntry f a b x c d) := by
  by_cases h : c = a ∧ d = b
  · obtain ⟨rfl, rfl⟩ := h
    rwa [setEntry_self]
  · rw [setEntry_of_ne f x h]
    exact hrefl _

theorem setEntry_eq_self {α : Type*} (f : ℕ → ℕ → α) (a b : ℕ) : setEntry f a b (f a b) = f := by
  rw [setEntry, Function.update_eq_self, Function.update_eq_self]

theorem setEntry_setEntry {α : Type*} (f : ℕ → ℕ → α) (a b : ℕ) (x y : α) :
    setEntry (setEntry f a b x) a b y = setEntry f a b y := by
  rw [setEntry, setEntry, Function.update_self, Function.update_idem, Function.update_idem, setEntry]

def new : Network := ⟨fun _ _ => PeerState.new, fun _ _ => Traffic.empty⟩

/-- `snd` sends to `rcv`: a step of the sender. -/
def send (s : Network) (snd rcv : ℕ) (p : PeerState) (t : Traffic) : Network :=
  ⟨setEntry s.peer snd rcv p, setEntry s.traffic snd rcv t⟩

/-- `snd` sends to `rcv`: a step of the receiver. -/
def receive (s : Network) (snd rcv : ℕ) (p : PeerState) (t : Traffic) : Network :=
  ⟨setEntry s.peer rcv snd p, setEntry s.traffic snd rcv t⟩

/-- Any two contexts, in any order; numbers are drawn while they satisfy `C`. -/
inductive Step (C : ℤ → Prop) (s : Network) : Network → Prop
  | send {a b : ℕ} {p : PeerState} {t : Traffic}
      (h : SendStep C (s.peer a b) (s.traffic a b) p t) : Step C s (s.send a b p t)
  | receive {a b : ℕ} {p : PeerState} {t : Traffic}
      (h : ReceiveStep (s.peer b a) (s.traffic a b) p t) : Step C s (s.receive a b p t)

theorem Step.mono {C C' : ℤ → Prop} (hsub : ∀ x, C x → C' x) {s s' : Network}
    (h : Step C s s') : Step C' s s' := by
  cases h with
  | send h => exact .send (h.mono hsub)
  | receive h => exact .receive h

/-- Every direction is in order. -/
def Ordered (s : Network) : Prop :=
  ∀ a b, Sending (s.peer a b) (s.traffic a b) ∧ Receiving (s.peer b a) (s.traffic a b)

theorem ordered_new : new.Ordered := fun _ _ => ⟨sending_empty, receiving_empty⟩

variable {s s' : Network}

theorem Ordered.step (h : s.Ordered) (hs : Step (0 ≤ ·) s s') : s'.Ordered := by
  cases hs with
  | @send a b p t hstep =>
    obtain ⟨hsend, hsame, hfields, hwritten⟩ := hstep.keeps (h a b).1 (h a b).2
    have hpeer : ∀ c d, SameReceiver (s.peer c d) (setEntry s.peer a b p c d) :=
      setEntry_rel (fun _ => ⟨id, rfl, rfl⟩) hsame
    intro c d
    by_cases hcd : c = a ∧ d = b
    · obtain ⟨rfl, rfl⟩ := hcd
      simp only [send, setEntry_self]
      exact ⟨hsend, (h c d).2.mono (hpeer d c) hfields hwritten⟩
    · simp only [send, setEntry_of_ne _ _ hcd]
      exact ⟨(h c d).1, (h c d).2.mono (hpeer d c) rfl fun _ hu => hu⟩
  | @receive a b p t hstep =>
    obtain ⟨hreceive, hsame, hfields, hcompleted⟩ := hstep.keeps (h a b).1 (h a b).2
    have hpeer : ∀ c d, SameSender (s.peer c d) (setEntry s.peer b a p c d) :=
      setEntry_rel (fun _ => ⟨id, rfl, rfl, rfl⟩) hsame
    intro c d
    by_cases hcd : c = a ∧ d = b
    · obtain ⟨rfl, rfl⟩ := hcd
      simp only [receive, setEntry_self]
      exact ⟨((h c d).1.mono hfields hcompleted).congr (hpeer c d), hreceive⟩
    · have hdc : ¬(d = b ∧ c = a) := fun hdc => hcd ⟨hdc.2, hdc.1⟩
      simp only [receive, setEntry_of_ne _ _ hcd, setEntry_of_ne _ _ hdc]
      exact ⟨(h c d).1.congr (hpeer c d), (h c d).2⟩

theorem ordered_of_reach (h : Reach (· = new) (Step (0 ≤ ·)) s) : s.Ordered :=
  h.invariant (by rintro _ rfl; exact ordered_new) fun _ _ hI hs => hI.step hs

/-! ### Steps of one side -/

section Sides

variable {a b : ℕ}

/-- Steps of one sender. -/
def SendRun (C : ℤ → Prop) : PeerState × Traffic → PeerState × Traffic → Prop :=
  ReflTransGen fun x y => SendStep C x.1 x.2 y.1 y.2

section SendRun

variable {C : ℤ → Prop} {x : PeerState × Traffic} {p p' : PeerState} {t : Traffic}

theorem SendRun.acquire (h : SendRun C x (p, t)) {slot : ℕ}
    (hok : p.acquireRecvSlot = some (slot, p')) : SendRun C x (p', t.acquire slot) :=
  h.tail (.acquire hok)

theorem SendRun.number (h : SendRun C x (p, t)) (slot : ℕ) (hslot : slot ∈ t.acquired)
    (hc : C p.nextSeq) : SendRun C x (p.nextSendSeq.2, t.number slot p.nextSendSeq.1) :=
  h.tail (.number hslot hc)

theorem SendRun.notePosted (h : SendRun C x (p, t)) (u : Use) (hu : u ∈ t.numbered)
    (hok : p.noteSendPosted u.slot u.seq = .ok p') : SendRun C x (p', t.notePosted u) :=
  h.tail (.notePosted hu hok)

theorem SendRun.write (h : SendRun C x (p, t)) (u : Use) (hu : u ∈ t.posts) :
    SendRun C x (p, t.write u) :=
  h.tail (.write hu)

theorem SendRun.credit (h : SendRun C x (p, t)) (u : Use) (hu : u ∈ t.credits) :
    SendRun C x (p.onRecvCredit u.slot (viaHeader u.seq),
      if p.expectedAt u.slot = viaHeader u.seq then t.credit u else t) :=
  h.tail (.credit hu)

end SendRun

theorem reach_send {C : ℤ → Prop} (h : Reach (· = new) (Step C) s) {q : PeerState × Traffic}
    (hrun : SendRun C (s.peer a b, s.traffic a b) q) :
    Reach (· = new) (Step C) (s.send a b q.1 q.2) := by
  induction hrun with
  | refl =>
    rw [send, setEntry_eq_self, setEntry_eq_self]
    exact h
  | @tail q q' _ hstep ih =>
    have hlast : Step C (s.send a b q.1 q.2) ((s.send a b q.1 q.2).send a b q'.1 q'.2) := by
      refine .send ?_
      simpa only [send, setEntry_self] using hstep
    have hnext := ih.next hlast
    rw [send, send, setEntry_setEntry, setEntry_setEntry] at hnext
    exact hnext

/-- Steps of one receiver. -/
def ReceiveRun : PeerState × Traffic → PeerState × Traffic → Prop :=
  ReflTransGen fun x y => ReceiveStep x.1 x.2 y.1 y.2

section ReceiveRun

variable {x : PeerState × Traffic} {p : PeerState} {t : Traffic}

theorem ReceiveRun.data (h : ReceiveRun x (p, t)) (u : Use) (hu : u ∈ t.written) :
    ReceiveRun x ((p.acceptDataNotif u.slot (viaHeader u.seq)).2,
      t.deliver u (p.acceptDataNotif u.slot (viaHeader u.seq)).1) :=
  h.tail (.data hu)

theorem ReceiveRun.complete (h : ReceiveRun x (p, t)) (u : Use) (hu : u ∈ t.arrivals) :
    ReceiveRun x (p.markRecvCompleted u.slot (viaHeader u.seq), t.complete u) :=
  h.tail (.complete hu)

theorem ReceiveRun.sendCredit (h : ReceiveRun x (p, t)) (u : Use) (hu : u ∈ t.toCredit) :
    ReceiveRun x (p, t.sendCredit u) :=
  h.tail (.sendCredit hu)

end ReceiveRun

theorem reach_receive {C : ℤ → Prop} (h : Reach (· = new) (Step C) s) {q : PeerState × Traffic}
    (hrun : ReceiveRun (s.peer b a, s.traffic a b) q) :
    Reach (· = new) (Step C) (s.receive a b q.1 q.2) := by
  induction hrun with
  | refl =>
    rw [receive, setEntry_eq_self, setEntry_eq_self]
    exact h
  | @tail q q' _ hstep ih =>
    have hlast : Step C (s.receive a b q.1 q.2) ((s.receive a b q.1 q.2).receive a b q'.1 q'.2) := by
      refine .receive ?_
      simpa only [receive, setEntry_self] using hstep
    have hnext := ih.next hlast
    rw [receive, receive, setEntry_setEntry, setEntry_setEntry] at hnext
    exact hnext

end Sides

/-! ### Safety -/

/-- A slot is listed once, reserved by one send, or outstanding for one send. -/
def InOneState (p : PeerState) (t : Traffic) (slot : ℕ) : Prop :=
  (p.availableRecvSlots.count slot = 1 ∧ t.reserved.count slot = 0 ∧ p.expectedAt slot = -1) ∨
  (p.availableRecvSlots.count slot = 0 ∧ t.reserved.count slot = 1 ∧ p.expectedAt slot = -1) ∨
  (p.availableRecvSlots.count slot = 0 ∧ t.reserved.count slot = 0 ∧ p.expectedAt slot ≠ -1 ∧
    ∃! u, u ∈ t.posts ++ t.written ∧ u.slot = slot ∧ u.seq = p.expectedAt slot)

theorem inOneState_of_sending {p : PeerState} {t : Traffic} (h : Sending p t) {slot : ℕ}
    (hslot : slot < recvRingSize) : InOneState p t slot := by
  have honce := h.once slot hslot
  rw [InOneState, Traffic.reserved, List.count_append]
  by_cases hexpected : p.expectedAt slot = -1
  · rw [if_pos hexpected] at honce
    rcases Nat.eq_zero_or_pos (p.availableRecvSlots.count slot) with hfree | hfree
    · exact .inr (.inl ⟨hfree, by omega, hexpected⟩)
    · exact .inl ⟨by omega, by omega, hexpected⟩
  · rw [if_neg hexpected] at honce
    refine .inr (.inr ⟨by omega, by omega, hexpected, ?_⟩)
    obtain ⟨u, hu, hus, huseq, -⟩ := h.expected slot hslot hexpected
    refine ⟨u, ⟨hu, hus, huseq⟩, ?_⟩
    rintro v ⟨hv, -, hvseq⟩
    exact h.eq_of_seq (Sending.mem_of_sent hv) (Sending.mem_of_sent hu) (hvseq.trans huseq.symm)

/-- A send that waits to be written is the slot's last, and the others are completed. -/
theorem completed_of_posts {p : PeerState} {t : Traffic} (h : Sending p t) {u v : Use}
    (hu : u ∈ t.posts) (hv : v ∈ t.uses) (hslot : v.slot = u.slot) (hne : v ≠ u) :
    v ∈ t.completed := by
  have hmem := Sending.mem_of_posts hu
  have hle := h.last_of_expected hmem (h.awaited u hu) v hv hslot
  have hid : v.id ≠ u.id := fun hid => hne (h.ids v hv u hmem hid)
  exact h.older v hv u hmem hslot (Nat.lt_of_le_of_ne hle hid)

/-- A credit that freed its slot, or whose slot was used again, changes nothing. -/
theorem onRecvCredit_stale {p q : PeerState} {t : Traffic} (h : Sending p t) (hr : Receiving q t)
    {u : Use} (hu : u ∈ t.credits)
    (hstale : u ∈ t.credited ∨ ∃ v ∈ t.uses, v.slot = u.slot ∧ u.id < v.id) :
    p.onRecvCredit u.slot (viaHeader u.seq) = p := by
  have hdone := hr.credits u (List.mem_append_right _ hu)
  have hmem := hr.mem_uses (.inr hdone)
  have hne : p.expectedAt u.slot ≠ u.seq := by
    intro hawait
    rcases hstale with hcredited | ⟨v, hv, hslot, hid⟩
    · exact (h.credited u hcredited).2 hawait
    · have hle := h.last_of_expected hmem hawait v hv hslot
      omega
  rw [(h.viaHeader hmem).1, onRecvCredit_eq h.sized (h.slot_lt u hmem), if_neg hne]

/-- In every state of every run, for any two contexts: a slot is in one of its three
states; `note_send_posted` does not assert; a slot is written when its other sends
are completed; a stale or duplicate credit frees nothing; and a data notif is
accepted when it first arrives, and never again. -/
theorem slots_safe (h : Reach (· = new) (Step (0 ≤ ·)) s) (a b : ℕ) :
    (∀ slot < recvRingSize, InOneState (s.peer a b) (s.traffic a b) slot) ∧
    (∀ u ∈ (s.traffic a b).numbered, ∃ p, (s.peer a b).noteSendPosted u.slot u.seq = .ok p) ∧
    (∀ u ∈ (s.traffic a b).posts, ∀ v ∈ (s.traffic a b).uses, v.slot = u.slot → v ≠ u →
      v ∈ (s.traffic a b).completed) ∧
    (∀ u ∈ (s.traffic a b).credits,
      (u ∈ (s.traffic a b).credited ∨
        ∃ v ∈ (s.traffic a b).uses, v.slot = u.slot ∧ u.id < v.id) →
      (s.peer a b).onRecvCredit u.slot (viaHeader u.seq) = s.peer a b) ∧
    (∀ u ∈ (s.traffic a b).written,
      ((s.peer b a).acceptDataNotif u.slot (viaHeader u.seq)).1 = true ↔
        u ∉ (s.traffic a b).delivered) ∧
    ((s.traffic a b).arrivals ++ (s.traffic a b).completed).Nodup := by
  obtain ⟨hs, hr⟩ := ordered_of_reach h a b
  refine ⟨fun slot hslot => inOneState_of_sending hs hslot, fun u hu => ?_,
    fun u hu v hv => completed_of_posts hs hu hv, fun u hu => onRecvCredit_stale hs hr hu,
    fun u hu => ?_, hr.once⟩
  · rw [noteSendPosted_eq hs.sized (hs.slot_lt u (Sending.mem_of_numbered hu)),
      if_pos (hs.expectedAt_of_numbered hu)]
    exact ⟨_, rfl⟩
  · rw [(hs.viaHeader (Sending.mem_of_written hu)).1]
    exact hr.accepts_iff hs hu

/-! ### A slot that is used again -/

/-- The first two sends to slot 0. -/
def firstUse : Use := ⟨0, 0, 0⟩

def secondUse : Use := ⟨0, 1, 1⟩

/-- Context 0 has reserved all slots of context 1 and written slot 0. -/
def reservedTraffic : Traffic :=
  { Traffic.empty with
    acquired := [7, 6, 5, 4, 3, 2, 1]
    written := [firstUse]
    numSends := 1 }

/-- The receiver has completed it and sent the credit. -/
def creditedTraffic : Traffic :=
  { reservedTraffic with
    delivered := [firstUse]
    completed := [firstUse]
    credits := [firstUse] }

theorem sendRun_firstUse : SendRun (0 ≤ ·) (PeerState.new, Traffic.empty)
    (⟨[], 1, { expectedCreditSeq := 0 } :: List.replicate 7 {}⟩, reservedTraffic) := by
  have hstart : SendRun (0 ≤ ·) (PeerState.new, Traffic.empty) (PeerState.new, Traffic.empty) := .refl
  have hfour := (((hstart.acquire rfl).acquire rfl).acquire rfl).acquire rfl
  have hall := (((hfour.acquire rfl).acquire rfl).acquire rfl).acquire rfl
  exact ((hall.number 0 (by decide) le_rfl).notePosted firstUse (by decide) rfl).write firstUse
    (by decide)

theorem receiveRun_firstUse : ReceiveRun (PeerState.new, reservedTraffic)
    (⟨List.range 8, 0, { completedRecvSeq := 0 } :: List.replicate 7 {}⟩, creditedTraffic) := by
  have hstart : ReceiveRun (PeerState.new, reservedTraffic) (PeerState.new, reservedTraffic) := .refl
  exact ((hstart.data firstUse (by decide)).complete firstUse (by decide)).sendCredit firstUse
    (by decide)

/-- The credit frees slot 0, the next send writes it, and the credit arrives again. -/
theorem sendRun_secondUse : SendRun (0 ≤ ·)
    (⟨[], 1, { expectedCreditSeq := 0 } :: List.replicate 7 {}⟩, creditedTraffic)
    (⟨[], 2, { expectedCreditSeq := 1 } :: List.replicate 7 {}⟩,
      { creditedTraffic with
        written := [secondUse, firstUse]
        credited := [firstUse]
        numSends := 2 }) := by
  have hstart : SendRun (0 ≤ ·)
      (⟨[], 1, { expectedCreditSeq := 0 } :: List.replicate 7 {}⟩, creditedTraffic) _ := .refl
  have hfree := (hstart.credit firstUse (by decide)).acquire rfl
  have hwritten := ((hfree.number 0 (by decide) (by decide)).notePosted secondUse (by decide)
    rfl).write secondUse (by decide)
  exact hwritten.credit firstUse (by decide)

/-- Slot 0 is written again, and the first data notif and the first credit arrive twice. -/
theorem exists_reused : ∃ s, Reach (· = new) (Step (0 ≤ ·)) s ∧
    (s.traffic 0 1).written = [secondUse, firstUse] ∧
    (s.traffic 0 1).delivered = [firstUse, firstUse] ∧
    (s.traffic 0 1).credits = [firstUse] ∧ (s.traffic 0 1).credited = [firstUse] := by
  have hstart : Reach (· = new) (Step (0 ≤ ·)) new := .start rfl
  have hfirst := @reach_send _ 0 1 _ hstart _ sendRun_firstUse
  have hreceived := @reach_receive _ 0 1 _ hfirst _ receiveRun_firstUse
  have hsecond := @reach_send _ 0 1 _ hreceived _ sendRun_secondUse
  have hagain := hsecond.next (@Step.receive _ _ 0 1 _ _ (@ReceiveStep.data _ _ firstUse (by decide)))
  exact ⟨_, hagain, rfl, rfl, rfl, rfl⟩

/-- Slot 0 is written again: the stale credit changes nothing, the first data notif is
rejected and the second one accepted. -/
theorem slots_safe_reused : ∃ s, Reach (· = new) (Step (0 ≤ ·)) s ∧
    InOneState (s.peer 0 1) (s.traffic 0 1) 0 ∧
    (s.peer 0 1).onRecvCredit 0 (viaHeader 0) = s.peer 0 1 ∧
    ((s.peer 1 0).acceptDataNotif 0 (viaHeader 0)).1 = false ∧
    ((s.peer 1 0).acceptDataNotif 0 (viaHeader 1)).1 = true := by
  obtain ⟨s, h, hwritten, hdelivered, hcredits, hcredited⟩ := exists_reused
  obtain ⟨hstate, -, -, hstale, haccepts, -⟩ := slots_safe h 0 1
  have hfirst := haccepts firstUse (by simp [hwritten])
  have hsecond := haccepts secondUse (by simp [hwritten])
  refine ⟨s, h, hstate 0 (by decide), ?_, ?_, ?_⟩
  · exact hstale firstUse (by simp [hcredits]) (.inl (by simp [hcredited]))
  · simpa [hdelivered, firstUse] using hfirst
  · simpa [hdelivered, firstUse, secondUse] using hsecond

end Network

end StreamInfer.Nixl
