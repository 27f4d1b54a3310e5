import StreamInfer.Nixl.Link

/-! The receiving end of a link. The first arrival of a data notif is accepted and
every later one rejected: an earlier send to the slot is completed before the
slot is written again, so the numbers the receiver remembers tell them apart. -/

namespace StreamInfer.Nixl

open PeerState

variable {snd snd' rcv rcv' : PeerState} {t t' : Traffic} {u : Use}

/-! ### What the ends leave alone -/

/-- The receiver's fields change, and no completed send is forgotten. -/
theorem Sending.mono (h : Sending snd t)
    (hsame : (t'.acquired, t'.numbered, t'.posts, t'.written, t'.credited, t'.numSends) =
      (t.acquired, t.numbered, t.posts, t.written, t.credited, t.numSends))
    (hcompleted : ∀ u ∈ t.completed, u ∈ t'.completed) : Sending snd t' := by
  simp only [Prod.mk.injEq] at hsame
  obtain ⟨hacquired, hnumbered, hposts, hwritten, hcredited, hsends⟩ := hsame
  have huses : t'.uses = t.uses := by rw [Traffic.uses, Traffic.uses, hnumbered, hposts, hwritten]
  exact
    { toNumbered := h.toNumbered.congr (by rw [huses]) hsends rfl
      sized := h.sized
      inRange := by
        rw [hacquired]
        exact h.inRange
      slot_lt := by
        rw [huses]
        exact h.slot_lt
      once := by
        rw [hacquired, hnumbered]
        exact h.once
      older := by
        rw [huses]
        exact fun v hv w hw hs hid => hcompleted v (h.older v hv w hw hs hid)
      free := by
        rw [huses, hacquired]
        exact fun s hs v hv hvs => hcompleted v (h.free s hs v hv hvs)
      last := by
        rw [huses, hnumbered]
        exact h.last
      expected := by
        rw [huses, hposts, hwritten]
        exact h.expected
      awaited := by
        rw [hposts]
        exact h.awaited
      credited := by
        rw [hcredited, hwritten]
        exact h.credited }

/-- The sender's role of the state and its fields change, and no written send is forgotten. -/
theorem Receiving.mono (h : Receiving rcv t) (hr : SameReceiver rcv rcv')
    (hsame : (t'.delivered, t'.arrivals, t'.completed, t'.toCredit, t'.credits) =
      (t.delivered, t.arrivals, t.completed, t.toCredit, t.credits))
    (hwritten : ∀ u ∈ t.written, u ∈ t'.written) : Receiving rcv' t' := by
  simp only [Prod.mk.injEq] at hsame
  obtain ⟨hdelivered, harrivals, hcompleted, htoCredit, hcredits⟩ := hsame
  exact
    { sized := hr.sized h.sized
      delivered := by
        rw [hdelivered]
        exact fun v hv => hwritten v (h.delivered v hv)
      accepted := by
        rw [hdelivered, harrivals, hcompleted]
        exact h.accepted
      once := by
        rw [harrivals, hcompleted]
        exact h.once
      inflight := by
        rw [harrivals, hr.inflight]
        exact h.inflight
      inflightOf := by
        rw [harrivals, hr.inflight]
        exact h.inflightOf
      completed := by
        rw [hcompleted, hr.completed]
        exact h.completed
      completedOf := by
        rw [hcompleted, hr.completed]
        exact h.completedOf
      credits := by
        rw [htoCredit, hcredits, hcompleted]
        exact h.credits }

/-- The receiver's role of the state changes. -/
theorem Sending.congr (h : Sending snd t) (hs : SameSender snd snd') : Sending snd' t where
  toNumbered := h.toNumbered.congr (List.Perm.refl _) rfl hs.nextSeq
  sized := hs.sized h.sized
  inRange := by
    rw [hs.available]
    exact h.inRange
  slot_lt := h.slot_lt
  once := by
    rw [hs.available, hs.expected]
    exact h.once
  older := h.older
  free := by
    rw [hs.available]
    exact h.free
  last := h.last
  expected := by
    rw [hs.expected]
    exact h.expected
  awaited := by
    rw [hs.expected]
    exact h.awaited
  credited := by
    rw [hs.expected]
    exact h.credited

/-! ### Steps of the receiver -/

theorem Receiving.mem_delivered (h : Receiving rcv t) (hu : u ∈ t.arrivals ∨ u ∈ t.completed) :
    u ∈ t.delivered := (h.accepted u).mpr hu

theorem Receiving.mem_uses (h : Receiving rcv t) (hu : u ∈ t.arrivals ∨ u ∈ t.completed) :
    u ∈ t.uses := Sending.mem_of_written (h.delivered u (h.mem_delivered hu))

/-- A slot receives one send at a time. -/
theorem Receiving.eq_of_slot (h : Receiving rcv t) (hs : Sending snd t) {v : Use}
    (hu : u ∈ t.uses) (hnew : u ∉ t.completed) (hv : v ∈ t.arrivals) (hslot : v.slot = u.slot) :
    v = u := by
  have hvu := h.mem_uses (.inl hv)
  rcases Nat.lt_trichotomy v.id u.id with hid | hid | hid
  · have hdone := hs.older v hvu u hu hslot hid
    exact absurd rfl ((List.nodup_append.mp h.once).2.2 v hv v hdone)
  · exact hs.ids v hvu u hu hid
  · exact absurd (hs.older u hu v hvu hslot.symm hid) hnew

/-- A data notif is accepted exactly when it arrives for the first time. -/
theorem Receiving.accepts_iff (h : Receiving rcv t) (hs : Sending snd t) (hu : u ∈ t.written) :
    (rcv.acceptDataNotif u.slot u.seq).1 = true ↔ u ∉ t.delivered := by
  have hmem := Sending.mem_of_written hu
  have hseq := (hs.seq u hmem).1
  have hreject : (rcv.inflightAt u.slot = u.seq ∨ u.seq ≤ rcv.completedAt u.slot) ↔
      u ∈ t.delivered := by
    rw [h.accepted]
    constructor
    · rintro (hin | hle)
      · obtain ⟨v, hv, -, hvseq⟩ := h.inflightOf u.slot (by omega)
        obtain rfl := hs.eq_of_seq (h.mem_uses (.inl hv)) hmem (hvseq.trans hin)
        exact .inl hv
      · rcases h.completedOf u.slot with hnone | ⟨v, hv, hvslot, hvseq⟩
        · omega
        · have hvu := h.mem_uses (.inr hv)
          have hvid := (hs.seq v hvu).1
          rcases Nat.lt_or_eq_of_le (show u.id ≤ v.id by omega) with hid | hid
          · exact .inr (hs.older u hmem v hvu hvslot.symm hid)
          · exact .inr (hs.ids u hmem v hvu hid ▸ hv)
    · rintro (hv | hv)
      · exact .inl (h.inflight u hv)
      · exact .inr (h.completed u hv)
  rw [acceptDataNotif_eq h.sized (hs.slot_lt u hmem), ← hreject]
  split_ifs with hold <;> simp [hold]

theorem Receiving.data (h : Receiving rcv t) (hs : Sending snd t) (hu : u ∈ t.written) :
    Receiving (rcv.acceptDataNotif u.slot u.seq).2
        (t.deliver u (rcv.acceptDataNotif u.slot u.seq).1) ∧
      SameSender rcv (rcv.acceptDataNotif u.slot u.seq).2 := by
  have hmem := Sending.mem_of_written hu
  have hlt := hs.slot_lt u hmem
  have hiff := h.accepts_iff hs hu
  rw [acceptDataNotif_eq h.sized hlt] at hiff ⊢
  have hdelivered : ∀ v ∈ u :: t.delivered, v ∈ t.written := by
    rw [List.forall_mem_cons]
    exact ⟨hu, h.delivered⟩
  split_ifs at hiff ⊢ with hold
  · have hold' : u ∈ t.delivered := by simpa using hiff
    refine ⟨?_, id, rfl, rfl, rfl⟩
    exact
      { sized := h.sized
        delivered := hdelivered
        accepted := fun v => by
          rw [Traffic.deliver, if_neg Bool.false_ne_true, ← h.accepted v, List.mem_cons]
          exact ⟨fun hv => hv.elim (fun heq => heq ▸ hold') id, .inr⟩
        once := h.once
        inflight := h.inflight
        inflightOf := h.inflightOf
        completed := h.completed
        completedOf := h.completedOf
        credits := h.credits }
  · have hnew : u ∉ t.delivered := by simpa using hiff
    have hnone : u ∉ t.completed := fun hdone => hnew (h.mem_delivered (.inr hdone))
    have hin := inflightAt_setSlot h.sized hlt { rcv.slotAt u.slot with inflightRecvSeq := u.seq }
    have hdone := completedAt_setSlot h.sized hlt { rcv.slotAt u.slot with inflightRecvSeq := u.seq }
    have hsame := sameSender_setSlot h.sized hlt u.seq (rcv.completedAt u.slot)
    have hkeep : (rcv.setSlot u.slot { rcv.slotAt u.slot with inflightRecvSeq := u.seq }).completedAt =
        rcv.completedAt := hdone.trans (Function.update_eq_self u.slot rcv.completedAt)
    refine ⟨?_, hsame⟩
    exact
      { sized := h.sized.setSlot _ _
        delivered := hdelivered
        accepted := fun v => by
          rw [Traffic.deliver, if_pos rfl, List.mem_cons, List.mem_cons, h.accepted v, or_assoc]
        once := by
          rw [Traffic.deliver, if_pos rfl, List.cons_append, List.nodup_cons]
          refine ⟨fun hold => hnew (h.mem_delivered (List.mem_append.mp hold)), h.once⟩
        inflight := fun v hv => by
          rw [hin]
          rw [Traffic.deliver, if_pos rfl] at hv
          rcases List.mem_cons.mp hv with rfl | hv
          · exact Function.update_self _ _ _
          · by_cases hvs : v.slot = u.slot
            · have hvu := h.eq_of_slot hs hmem hnone hv hvs
              exact absurd (h.mem_delivered (.inl (hvu ▸ hv))) hnew
            · rw [Function.update_of_ne hvs]
              exact h.inflight v hv
        inflightOf := fun s hne => by
          rw [hin] at hne ⊢
          rw [Traffic.deliver, if_pos rfl]
          by_cases hsu : s = u.slot
          · subst hsu
            exact ⟨u, List.mem_cons_self, rfl, by rw [Function.update_self]⟩
          · rw [Function.update_of_ne hsu] at hne ⊢
            obtain ⟨v, hv, hvs⟩ := h.inflightOf s hne
            exact ⟨v, List.mem_cons_of_mem _ hv, hvs⟩
        completed := by
          rw [hkeep]
          exact h.completed
        completedOf := by
          rw [hkeep]
          exact h.completedOf
        credits := h.credits }

theorem Receiving.complete (h : Receiving rcv t) (hs : Sending snd t) (hu : u ∈ t.arrivals) :
    Receiving (rcv.markRecvCompleted u.slot u.seq) (t.complete u) ∧
      SameSender rcv (rcv.markRecvCompleted u.slot u.seq) := by
  have hmem := h.mem_uses (.inl hu)
  have hlt := hs.slot_lt u hmem
  have hinu := h.inflight u hu
  obtain ⟨harr, -, hdisj⟩ := List.nodup_append.mp h.once
  have hnew : u ∉ t.completed := fun hdone => hdisj u hu u hdone rfl
  rw [markRecvCompleted_eq h.sized hlt, if_pos hinu]
  have hin := inflightAt_setSlot h.sized hlt { rcv.slotAt u.slot with
    completedRecvSeq := max (rcv.completedAt u.slot) u.seq, inflightRecvSeq := -1 }
  have hdone := completedAt_setSlot h.sized hlt { rcv.slotAt u.slot with
    completedRecvSeq := max (rcv.completedAt u.slot) u.seq, inflightRecvSeq := -1 }
  refine ⟨?_, sameSender_setSlot h.sized hlt _ _⟩
  exact
    { sized := h.sized.setSlot _ _
      delivered := h.delivered
      accepted := fun v => by
        rw [Traffic.complete, List.mem_cons, harr.mem_erase_iff]
        refine (h.accepted v).trans ?_
        by_cases hvu : v = u
        · subst hvu
          simp [hu]
        · simp [hvu]
      once := by
        refine List.Perm.nodup_iff ?_ |>.mpr h.once
        rw [Traffic.complete]
        refine List.perm_middle.trans ?_
        rw [← List.cons_append]
        exact (List.perm_cons_erase hu).symm.append_right _
      inflight := fun v hv => by
        obtain ⟨hvu, hv⟩ := harr.mem_erase_iff.mp hv
        have hvs : v.slot ≠ u.slot := fun hvs => hvu (h.eq_of_slot hs hmem hnew hv hvs)
        rw [hin, Function.update_of_ne hvs]
        exact h.inflight v hv
      inflightOf := fun s hne => by
        rw [hin] at hne ⊢
        by_cases hsu : s = u.slot
        · subst hsu
          rw [Function.update_self] at hne
          exact absurd rfl hne
        · rw [Function.update_of_ne hsu] at hne ⊢
          obtain ⟨v, hv, hvs, hvseq⟩ := h.inflightOf s hne
          refine ⟨v, harr.mem_erase_iff.mpr ⟨?_, hv⟩, hvs, hvseq⟩
          rintro rfl
          exact hsu hvs.symm
      completed := fun v hv => by
        rw [hdone]
        rcases List.mem_cons.mp hv with rfl | hv
        · rw [Function.update_self]
          exact le_max_right _ _
        · have hle := h.completed v hv
          by_cases hvs : v.slot = u.slot
          · rw [hvs] at hle ⊢
            rw [Function.update_self]
            exact le_trans hle (le_max_left _ _)
          · rw [Function.update_of_ne hvs]
            exact hle
      completedOf := fun s => by
        rw [hdone]
        by_cases hsu : s = u.slot
        · subst hsu
          rw [Function.update_self]
          rcases le_total (rcv.completedAt u.slot) u.seq with hle | hle
          · exact .inr ⟨u, List.mem_cons_self, rfl, (max_eq_right hle).symm⟩
          · rw [max_eq_left hle]
            refine (h.completedOf u.slot).imp_right fun hlast => ?_
            obtain ⟨v, hv, hvs⟩ := hlast
            exact ⟨v, List.mem_cons_of_mem _ hv, hvs⟩
        · rw [Function.update_of_ne hsu]
          refine (h.completedOf s).imp_right fun hlast => ?_
          obtain ⟨v, hv, hvs⟩ := hlast
          exact ⟨v, List.mem_cons_of_mem _ hv, hvs⟩
      credits := fun v hv => by
        rcases List.mem_cons.mp hv with rfl | hv
        · exact List.mem_cons_self
        · exact List.mem_cons_of_mem _ (h.credits v hv) }

theorem Receiving.sendCredit (h : Receiving rcv t) (hu : u ∈ t.toCredit) :
    Receiving rcv (t.sendCredit u) where
  sized := h.sized
  delivered := h.delivered
  accepted := h.accepted
  once := h.once
  inflight := h.inflight
  inflightOf := h.inflightOf
  completed := h.completed
  completedOf := h.completedOf
  credits v hv := by
    simp only [Traffic.sendCredit, List.mem_append, List.mem_cons] at hv
    rcases hv with hv | rfl | hv
    · exact h.credits v (List.mem_append_left _ (List.mem_of_mem_erase hv))
    · exact h.credits v (List.mem_append_left _ hu)
    · exact h.credits v (List.mem_append_right _ hv)

end StreamInfer.Nixl
