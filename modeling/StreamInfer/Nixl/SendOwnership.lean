import StreamInfer.Nixl.SendRing

/-! Who owns a send slot. In every interleaving a busy slot belongs to one send, and a
send that was acquired is either with one of the threads and queues or released, once,
after its transfer was over. -/

namespace StreamInfer.Nixl

open General General.Stateful SendRing

namespace SendPath

variable {τ ω : Type} {s s' : SendPath τ ω}

/-- The owners have the busy slots, one each; the acquired sends are the owners and the
released ones; and a release waits for the end of the transfer. -/
structure Owned (s : SendPath τ ω) : Prop where
  size : s.ring.sendSlotBusy.length = sendRingSize
  slots : (s.owners.map Send.sendSlot).Nodup
  busy : ∀ slot, s.ring.sendSlotBusy[slot]? = some true ↔ slot ∈ s.owners.map Send.sendSlot
  accounts : s.acquired.Perm (s.owners ++ s.released)
  ids : s.acquired.map Send.id = List.range s.acquired.length
  written : ∀ x, x ∈ s.posted.map Prod.snd ∨ x ∈ s.pendingXfers → s.status x.id ≠ .unposted
  ended : ∀ x ∈ s.released, (s.status x.id).Over
  drained : ∀ i phase, s.drain = some ⟨i, phase⟩ → phase ≠ .query →
    ∃ x, s.pendingXfers[i]? = some x ∧ (s.status x.id).Over ∧ (phase = .erase → x ∈ s.released)

theorem owned_start : Owned (start : SendPath τ ω) where
  size := List.length_replicate
  slots := List.nodup_nil
  busy slot := by
    constructor
    · intro h
      have hfalse := List.eq_of_mem_replicate (List.mem_of_getElem? h)
      cases hfalse
    · exact fun h => absurd h List.not_mem_nil
  accounts := .refl _
  ids := rfl
  written x h := absurd h (by simp [start])
  ended x h := absurd h List.not_mem_nil
  drained i phase h := nomatch h

/-- A send that is taken out of a list of threads. -/
theorem map_erase_perm {α : Type} [DecidableEq α] {held : List (α × Send)} {t : α} {x : Send}
    (h : (t, x) ∈ held) : (held.map Prod.snd).Perm (x :: (held.erase (t, x)).map Prod.snd) :=
  (List.perm_cons_erase h).map Prod.snd

/-- A move that keeps the owners, the ring and the releases. -/
theorem Owned.move (h : Owned s) (hring : s'.ring = s.ring)
    (howners : s'.owners.Perm s.owners) (hacquired : s'.acquired = s.acquired)
    (hreleased : s'.released = s.released)
    (hwritten : ∀ x, x ∈ s'.posted.map Prod.snd ∨ x ∈ s'.pendingXfers → s'.status x.id ≠ .unposted)
    (hended : ∀ x ∈ s'.released, (s'.status x.id).Over)
    (hdrained : ∀ i phase, s'.drain = some ⟨i, phase⟩ → phase ≠ .query →
      ∃ x, s'.pendingXfers[i]? = some x ∧ (s'.status x.id).Over ∧
        (phase = .erase → x ∈ s'.released)) : Owned s' where
  size := hring ▸ h.size
  slots := (howners.map _).nodup_iff.mpr h.slots
  busy slot := by rw [hring, h.busy, (howners.map _).mem_iff]
  accounts := by
    rw [hacquired, hreleased]
    exact h.accounts.trans (howners.symm.append_right _)
  ids := hacquired ▸ h.ids
  written := hwritten
  ended := hended
  drained := hdrained

theorem Owned.nodup (h : Owned s) : (s.owners ++ s.released).Nodup := by
  have hids : (s.acquired.map Send.id).Nodup := h.ids ▸ List.nodup_range
  exact h.accounts.nodup_iff.mp (.of_map _ hids)

/-- No two acquired sends have one id. -/
theorem Owned.id_inj (h : Owned s) {x y : Send} (hx : x ∈ s.owners ++ s.released)
    (hy : y ∈ s.owners ++ s.released) (hid : x.id = y.id) : x = y := by
  have hids : (s.acquired.map Send.id).Nodup := h.ids ▸ List.nodup_range
  exact List.inj_on_of_nodup_map hids (h.accounts.mem_iff.mpr hx) (h.accounts.mem_iff.mpr hy) hid

/-- A send that is with a worker is not pending or released. -/
theorem Owned.id_ne_of_posting (h : Owned s) {x y : Send} (hx : x ∈ s.posting.map Prod.snd)
    (hy : y ∈ s.pending ∨ y ∈ s.released) : y.id ≠ x.id := by
  have hxo : x ∈ s.owners :=
    List.mem_append_right _ (List.mem_append_right _ (List.mem_append_left _ hx))
  have hyo : y ∈ s.owners ++ s.released := by
    rcases hy with hy | hy
    · exact List.mem_append_left _ (List.mem_append_right _ (List.mem_append_right _
        (List.mem_append_right _ (List.mem_append_right _ hy))))
    · exact List.mem_append_right _ hy
  intro hid
  obtain rfl := h.id_inj hyo (List.mem_append_left _ hxo) hid
  obtain ⟨howners, -, hdisj⟩ := List.nodup_append.mp h.nodup
  rcases hy with hy | hy
  · -- the posting workers come before the pending transfers among the owners
    have hworkers := (List.nodup_append.mp (List.nodup_append.mp howners).2.1).2.1
    exact (List.nodup_append.mp hworkers).2.2 _ hx _ (List.mem_append_right _ hy) rfl
  · exact hdisj _ hxo _ hy rfl

/-- A send at the end of a list, brought to the front. -/
theorem append_perm_cons {x : Send} {xs xs' : List Send} (front : List Send) (h : xs.Perm (x :: xs')) :
    (front ++ xs).Perm (x :: (front ++ xs')) := (h.append_left front).trans List.perm_middle

/-! ### The moves -/

/-- A free slot is taken by a new send. -/
theorem Owned.acquire (h : Owned s) {t : τ} {slot : ℕ} {ring : SendRing}
    (ha : Acquires s.ring slot ring) :
    Owned { s with
      ring := ring
      held := (t, ⟨s.acquired.length, slot⟩) :: s.held
      acquired := s.acquired ++ [⟨s.acquired.length, slot⟩] } := by
  obtain ⟨hfree, hring⟩ := ha
  have hslot : slot < s.ring.sendSlotBusy.length := (List.getElem?_eq_some_iff.mp hfree).1
  have hnot : slot ∉ s.owners.map Send.sendSlot := by
    intro hmem
    have hbusy := (h.busy slot).mpr hmem
    rw [hfree] at hbusy
    cases hbusy
  refine ⟨?_, List.nodup_cons.mpr ⟨hnot, h.slots⟩, fun j => ?_, ?_, ?_, h.written, h.ended, h.drained⟩
  · show ring.sendSlotBusy.length = _
    rw [hring, List.length_set, h.size]
  · show ring.sendSlotBusy[j]? = some true ↔ j ∈ slot :: s.owners.map Send.sendSlot
    rw [hring, List.mem_cons, ← h.busy]
    by_cases hj : slot = j
    · subst hj
      simp [hslot]
    · rw [List.getElem?_set_ne hj]
      simp [Ne.symm hj]
  · exact (List.perm_append_singleton _ _).trans (h.accounts.cons _)
  · show (s.acquired ++ [(⟨s.acquired.length, slot⟩ : Send)]).map Send.id = _
    rw [List.map_append, h.ids, List.length_append, List.length_singleton, List.range_succ]
    rfl

/-- A send whose transfer is over gives its slot back. -/
theorem Owned.release (h : Owned s) {i : ℕ} {x : Send} (hd : s.drain = some ⟨i, .release⟩)
    (hx : s.pendingXfers[i]? = some x) :
    ∃ ring, releaseSendSlot x.sendSlot s.ring = .ok ⟨⟩ ring ∧ Owned { s with
      ring := ring
      drain := some ⟨i, .erase⟩
      released := s.released ++ [x] } := by
  obtain ⟨hi, hat⟩ := List.getElem?_eq_some_iff.mp hx
  have hpending : s.pending = s.pendingXfers := by rw [pending, hd]
  set s' : SendPath τ ω := { s with
    ring := { s.ring with sendSlotBusy := s.ring.sendSlotBusy.set x.sendSlot false }
    drain := some ⟨i, .erase⟩
    released := s.released ++ [x] } with hs'
  have howners : s.owners.Perm (x :: s'.owners) := by
    have hcut : s.pending.Perm (x :: s.pendingXfers.eraseIdx i) := by
      rw [hpending, ← hat]
      exact (List.getElem_cons_eraseIdx_perm hi).symm
    exact append_perm_cons _ (append_perm_cons _ (append_perm_cons _ (append_perm_cons _ hcut)))
  have hslot : x.sendSlot < s.ring.sendSlotBusy.length := by
    have hbusy := (h.busy x.sendSlot).mpr ((howners.map _).mem_iff.mpr List.mem_cons_self)
    exact (List.getElem?_eq_some_iff.mp hbusy).1
  obtain ⟨y, hy, hended, -⟩ := h.drained i .release hd nofun
  obtain rfl : y = x := Option.some.inj (hy.symm.trans hx)
  have hnodup := (howners.map Send.sendSlot).nodup_iff.mp h.slots
  obtain ⟨hnot, hslots⟩ := List.nodup_cons.mp hnodup
  refine ⟨_, releaseSendSlot_ok hslot, ?_, hslots, fun j => ?_, ?_, h.ids, h.written, ?_, ?_⟩
  · exact List.length_set.trans h.size
  · show (s.ring.sendSlotBusy.set y.sendSlot false)[j]? = some true ↔ j ∈ s'.owners.map Send.sendSlot
    have hbusy : s.ring.sendSlotBusy[j]? = some true ↔ j = y.sendSlot ∨ j ∈ s'.owners.map Send.sendSlot := by
      rw [h.busy, (howners.map Send.sendSlot).mem_iff, List.map_cons, List.mem_cons]
    by_cases hj : y.sendSlot = j
    · subst hj
      rw [List.getElem?_set_self hslot]
      exact ⟨nofun, fun hmem => absurd hmem hnot⟩
    · rw [List.getElem?_set_ne hj, hbusy, or_iff_right (Ne.symm hj)]
  · refine (h.accounts.trans (howners.append_right _)).trans ?_
    show (y :: (s'.owners ++ s.released)).Perm (s'.owners ++ (s.released ++ [y]))
    rw [← List.append_assoc]
    exact (List.perm_append_singleton _ _).symm
  · intro z hz
    rcases List.mem_append.mp hz with hz | hz
    · exact h.ended z hz
    · rw [List.mem_singleton.mp hz]
      exact hended
  · rintro j phase hj -
    obtain ⟨rfl, -⟩ := Drain.mk.inj (Option.some.inj hj)
    exact ⟨y, hx, hended, fun _ => List.mem_append_right _ (List.mem_singleton.mpr rfl)⟩

/-- Ends of transfers stay ends, and what is written stays written. -/
theorem Owned.transfer (h : Owned s) {id : ℕ} {status : XferStatus} (hover : status.Over) :
    Owned { s with status := Function.update s.status id status } := by
  have hkeeps : ∀ j, (s.status j).Over → (Function.update s.status id status j).Over := by
    intro j hj
    by_cases hsame : j = id
    · rw [hsame, Function.update_self]
      exact hover
    · rwa [Function.update_of_ne hsame]
  refine h.move rfl (.refl _) rfl rfl (fun x hx => ?_) (fun x hx => hkeeps _ (h.ended x hx)) ?_
  · show Function.update s.status id status x.id ≠ .unposted
    by_cases hsame : x.id = id
    · rw [hsame, Function.update_self]
      exact hover.1
    · rw [Function.update_of_ne hsame]
      exact h.written x hx
  · intro i phase hd hphase
    obtain ⟨x, hx, hended, hreleased⟩ := h.drained i phase hd hphase
    exact ⟨x, hx, hkeeps _ hended, hreleased⟩

theorem Owned.takePost (h : Owned s) {w : ω} {x : Send} {rest : List Send}
    (hq : s.postQueue = x :: rest) :
    Owned { s with
      postQueue := rest
      posting := (w, x) :: s.posting } := by
  refine h.move rfl ?_ rfl rfl h.written h.ended h.drained
  show (s.held.map Prod.snd ++ (rest ++ (x :: s.posting.map Prod.snd ++
    (s.posted.map Prod.snd ++ s.pending)))).Perm s.owners
  rw [owners, hq]
  exact List.perm_middle.append_left _

/-- A drain that looks at a transfer, or ends. -/
theorem Owned.queried (h : Owned s) {i : ℕ} (hd : s.drain = some ⟨i, .query⟩) {drain : Option Drain}
    (hkeeps : pending { s with drain := drain } = s.pendingXfers)
    (hdrain : ∀ j phase, drain = some ⟨j, phase⟩ → phase ≠ .query →
      ∃ x, s.pendingXfers[j]? = some x ∧ (s.status x.id).Over ∧
        (phase = .erase → x ∈ s.released)) :
    Owned { s with drain := drain } := by
  refine h.move rfl ?_ rfl rfl h.written h.ended hdrain
  have hpending : s.pending = s.pendingXfers := by rw [pending, hd]
  show (s.held.map Prod.snd ++ (s.postQueue ++ (s.posting.map Prod.snd ++ (s.posted.map Prod.snd ++
    pending { s with drain := drain })))).Perm s.owners
  rw [owners, hkeeps, hpending]

theorem Owned.enqueuePost [DecidableEq τ] (h : Owned s) {t : τ} {x : Send} (ht : (t, x) ∈ s.held) :
    Owned { s with
      held := s.held.erase (t, x)
      postQueue := s.postQueue ++ [x] } := by
  refine h.move rfl ?_ rfl rfl h.written h.ended h.drained
  show ((s.held.erase (t, x)).map Prod.snd ++ ((s.postQueue ++ [x]) ++ (s.posting.map Prod.snd ++
    (s.posted.map Prod.snd ++ s.pending)))).Perm s.owners
  rw [List.append_assoc s.postQueue [x], ← List.append_assoc]
  refine List.perm_middle.trans ?_
  rw [← List.cons_append, ← List.cons_append, List.append_assoc]
  exact (map_erase_perm ht).symm.append_right _

theorem Owned.postWrite [DecidableEq ω] (h : Owned s) {w : ω} {x : Send} (hw : (w, x) ∈ s.posting) :
    Owned { s with
      posting := s.posting.erase (w, x)
      posted := (w, x) :: s.posted
      status := Function.update s.status x.id .inProgress } := by
  have hx : x ∈ s.posting.map Prod.snd := List.mem_map.mpr ⟨_, hw, rfl⟩
  have hsame : ∀ y, y ∈ s.pending ∨ y ∈ s.released →
      Function.update s.status x.id .inProgress y.id = s.status y.id :=
    fun y hy => Function.update_of_ne (h.id_ne_of_posting hx hy) _ _
  refine h.move rfl ?_ rfl rfl (fun y hy => ?_) (fun y hy => ?_) fun i phase hd hphase => ?_
  · show (s.held.map Prod.snd ++ (s.postQueue ++ ((s.posting.erase (w, x)).map Prod.snd ++
      (x :: s.posted.map Prod.snd ++ s.pending)))).Perm s.owners
    refine List.Perm.append_left _ (List.Perm.append_left _ (List.perm_middle.trans ?_))
    exact (map_erase_perm hw).symm.append_right _
  · show Function.update s.status x.id .inProgress y.id ≠ .unposted
    by_cases hid : y.id = x.id
    · rw [hid, Function.update_self]
      exact nofun
    · rw [Function.update_of_ne hid]
      refine h.written y (hy.imp_left fun hy => ?_)
      exact (List.mem_cons.mp hy).resolve_left fun hyx => hid (congrArg Send.id hyx)
  · show (Function.update s.status x.id .inProgress y.id).Over
    rw [hsame y (.inr hy)]
    exact h.ended y hy
  · obtain ⟨y, hy, hended, hreleased⟩ := h.drained i phase hd hphase
    refine ⟨y, hy, ?_, hreleased⟩
    show (Function.update s.status x.id .inProgress y.id).Over
    rw [hsame y ?_]
    · exact hended
    · cases phase with
      | query => exact absurd rfl hphase
      | release =>
        have hpending : s.pending = s.pendingXfers := by
          rw [pending, show s.drain = some ⟨i, .release⟩ from hd]
        exact .inl (hpending ▸ List.mem_of_getElem? hy)
      | erase => exact .inr (hreleased rfl)

theorem Owned.enqueuePendingXfer [DecidableEq ω] (h : Owned s) {w : ω} {x : Send} (hw : (w, x) ∈ s.posted)
    (hlock : s.drain = none) :
    Owned { s with
      posted := s.posted.erase (w, x)
      pendingXfers := s.pendingXfers ++ [x] } := by
  have hpending : s.pending = s.pendingXfers := by rw [pending, hlock]
  have hpending' : pending { s with
      posted := s.posted.erase (w, x)
      pendingXfers := s.pendingXfers ++ [x] } = s.pendingXfers ++ [x] := by
    simp only [pending, hlock]
  refine h.move rfl ?_ rfl rfl (fun y hy => h.written y ?_) h.ended ?_
  · show (s.held.map Prod.snd ++ (s.postQueue ++ (s.posting.map Prod.snd ++
      ((s.posted.erase (w, x)).map Prod.snd ++ pending { s with
        posted := s.posted.erase (w, x)
        pendingXfers := s.pendingXfers ++ [x] })))).Perm s.owners
    rw [hpending', owners, hpending]
    refine List.Perm.append_left _ (List.Perm.append_left _ (List.Perm.append_left _ ?_))
    rw [← List.append_assoc]
    refine (List.perm_append_singleton _ _).trans ?_
    exact (map_erase_perm hw).symm.append_right _
  · rcases hy with hy | hy
    · exact .inl ((List.erase_sublist.map Prod.snd).subset hy)
    · rcases List.mem_append.mp hy with hy | hy
      · exact .inr hy
      · rw [List.mem_singleton.mp hy]
        exact .inl (List.mem_map.mpr ⟨_, hw, rfl⟩)
  · intro i phase hd
    rw [show s.drain = some ⟨i, phase⟩ from hd] at hlock
    cases hlock

variable [DecidableEq τ] [DecidableEq ω]

theorem Owned.step (h : Owned s) (hs : Step s s') : Owned s' := by
  cases hs with
  | acquireSendSlot ht hfree hacquire =>
    obtain ⟨slot', ring', hok, hacquires⟩ := acquireSendSlot_ok h.size hfree
    obtain ⟨rfl, rfl⟩ := EStateM.Result.ok.inj (hok.symm.trans hacquire)
    exact h.acquire hacquires
  | enqueuePost ht => exact h.enqueuePost ht
  | takePost hw hq => exact h.takePost hq
  | postWrite hw => exact h.postWrite hw
  | enqueuePendingXfer hw hlock => exact h.enqueuePendingXfer hw hlock
  | transfer hid hover => exact h.transfer hover
  | startDrain hlock =>
    refine h.move rfl ?_ rfl rfl h.written h.ended ?_
    · simp [owners, pending, hlock]
    · rintro i phase hd hphase
      obtain ⟨-, rfl⟩ := Drain.mk.inj (Option.some.inj hd)
      exact absurd rfl hphase
  | @query i x hd hx =>
    refine h.queried hd ?_ fun j phase hj hphase => ?_
    · unfold pending
      split_ifs <;> rfl
    · split_ifs at hj with hprogress
      · obtain ⟨-, rfl⟩ := Drain.mk.inj (Option.some.inj hj)
        exact absurd rfl hphase
      · obtain ⟨rfl, rfl⟩ := Drain.mk.inj (Option.some.inj hj)
        exact ⟨x, hx, ⟨h.written x (.inr (List.mem_of_getElem? hx)), hprogress⟩, nofun⟩
  | releaseSendSlot hd hx hr =>
    obtain ⟨ring', hok, howned⟩ := h.release hd hx
    obtain ⟨-, rfl⟩ := EStateM.Result.ok.inj (hok.symm.trans hr)
    exact howned
  | @erase i hd =>
    refine h.move rfl ?_ rfl rfl (fun y hy => h.written y ?_) h.ended ?_
    · simp [owners, pending, hd]
    · exact hy.imp_right fun hy => (List.eraseIdx_sublist _ _).subset hy
    · rintro j phase hj hphase
      obtain ⟨-, rfl⟩ := Drain.mk.inj (Option.some.inj hj)
      exact absurd rfl hphase
  | endDrain hd hlen =>
    exact h.queried hd rfl fun j phase hj => nomatch hj

theorem Run.owned (h : Run s) : Owned s := by
  refine h.invariant (fun s hs => ?_) fun s s' howned hs => howned.step hs
  rw [hs]
  exact owned_start

/-- In every interleaving: the owners' slots lie in the ring, a busy slot has one owner and a
free one none; each acquired send is with the owners or released, once, and a released one had
its transfer over; an acquisition after its wait finds a free slot, and a release its slot. -/
theorem Run.ownership (h : Run s) :
    (s.drain = none → s.pending = s.pendingXfers) ∧
    (∀ x ∈ s.owners, x.sendSlot < sendRingSize) ∧
    s.ring.sendSlotBusy.length = sendRingSize ∧
    (∀ slot < sendRingSize, (s.owners.map Send.sendSlot).count slot =
      if s.ring.sendSlotBusy[slot]? = some true then 1 else 0) ∧
    s.acquired.Perm (s.owners ++ s.released) ∧ s.acquired.Nodup ∧
    (∀ x ∈ s.released, (s.status x.id).Over) ∧
    (s.ring.HasFree → ∃ slot ring, acquireSendSlot s.ring = .ok slot ring ∧
      s.ring.sendSlotBusy[slot]? = some false) ∧
    ∀ i x, s.drain = some ⟨i, .release⟩ → s.pendingXfers[i]? = some x →
      ∃ ring, releaseSendSlot x.sendSlot s.ring = .ok ⟨⟩ ring := by
  have howned := h.owned
  refine ⟨fun hlock => by rw [pending, hlock], fun x hx => ?_, howned.size, fun slot _ => ?_, howned.accounts, ?_, howned.ended,
    fun hfree => ?_, fun i x hd hx => ?_⟩
  · have hbusy := (howned.busy x.sendSlot).mpr (List.mem_map_of_mem hx)
    exact howned.size ▸ (List.getElem?_eq_some_iff.mp hbusy).1
  · split_ifs with hbusy
    · exact List.count_eq_one_of_mem howned.slots ((howned.busy slot).mp hbusy)
    · exact List.count_eq_zero_of_not_mem fun hmem => hbusy ((howned.busy slot).mpr hmem)
  · exact .of_map Send.id (howned.ids ▸ List.nodup_range)
  · obtain ⟨slot, ring, hok, hacquires⟩ := acquireSendSlot_ok howned.size hfree
    exact ⟨slot, ring, hok, hacquires.1⟩
  · obtain ⟨ring, hok, -⟩ := howned.release hd hx
    exact ⟨ring, hok⟩

/-- One send, from its acquisition to its release. -/
theorem ownership_oneSend : ∃ s : SendPath Unit Unit, Run s ∧ s.released.length = 1 ∧
    s.acquired.Perm (s.owners ++ s.released) ∧ ∀ x ∈ s.released, (s.status x.id).Over := by
  have h₀ : Run (start : SendPath Unit Unit) := .start rfl
  have hfree : SendRing.new.HasFree := List.mem_replicate.mpr ⟨by decide, rfl⟩
  obtain ⟨-, -, -, -, -, -, -, hacquire, -⟩ := h₀.ownership
  obtain ⟨slot, ring, hok, -⟩ := hacquire hfree
  have h₁ := h₀.next (.acquireSendSlot (t := ()) List.not_mem_nil hfree hok)
  have h₂ := h₁.next (.enqueuePost List.mem_cons_self)
  have h₃ := h₂.next (.takePost (w := ()) List.not_mem_nil rfl)
  have h₄ := h₃.next (.postWrite List.mem_cons_self)
  have h₅ := h₄.next (.enqueuePendingXfer List.mem_cons_self rfl)
  have hfinished : XferStatus.finished.Over := ⟨by decide, by decide⟩
  have h₆ := h₅.next (.transfer (Function.update_self _ _ _) hfinished)
  have h₇ := h₆.next (.startDrain rfl)
  have h₈ := h₇.next (.query rfl rfl)
  have hrelease : some (if Function.update (Function.update (fun _ => XferStatus.unposted) 0 .inProgress)
      0 .finished 0 = .inProgress then (⟨0 + 1, .query⟩ : Drain) else ⟨0, .release⟩) =
      some ⟨0, .release⟩ := by
    rw [Function.update_self]
    rfl
  obtain ⟨-, -, -, -, -, -, -, -, hreleases⟩ := Run.ownership h₈
  obtain ⟨ring', hok'⟩ := hreleases 0 ⟨0, slot⟩ hrelease rfl
  have h₉ := Reach.next h₈ (.releaseSendSlot hrelease rfl hok')
  obtain ⟨-, -, -, -, haccounts, -, hover, -⟩ := Run.ownership h₉
  exact ⟨_, h₉, rfl, haccounts, hover⟩

end SendPath

end StreamInfer.Nixl
