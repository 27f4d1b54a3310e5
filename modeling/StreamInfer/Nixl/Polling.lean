import StreamInfer.Nixl.Notifs

/-! A poll treats each notif by itself exactly when no blob that does not decode arrives
for the first time in it. Credits may wait until the end of the poll, since they and the
data notifs change different numbers of a slot. A blob that is rejected after its slot
was marked ends the poll, and what the poll had collected is lost. -/

namespace StreamInfer.Nixl

open General General.Stateful

variable {M : Type}

namespace PeerState
variable {p : PeerState} {slot slot' : ℕ} {seq seq' : ℤ}

theorem onRecvCredit_of_some {st : SlotState} (hs : slot < recvRingSize)
    (hst : p.slotState[slot]? = some st) : p.onRecvCredit slot seq =
      if st.expectedCreditSeq = seq then
        { p.setSlot slot { st with expectedCreditSeq := -1 } with
          availableRecvSlots := p.availableRecvSlots ++ [slot] }
      else p := by
  rw [onRecvCredit, if_pos hs, hst]

theorem acceptDataNotif_of_some {st : SlotState} (hs : slot < recvRingSize)
    (hst : p.slotState[slot]? = some st) : p.acceptDataNotif slot seq =
      if st.inflightRecvSeq = seq ∨ st.completedRecvSeq ≥ seq then (false, p)
      else (true, p.setSlot slot { st with inflightRecvSeq := seq }) := by
  rw [acceptDataNotif, if_pos hs, hst]

theorem onRecvCredit_of_none (h : ¬ slot < recvRingSize ∨ p.slotState[slot]? = none) :
    p.onRecvCredit slot seq = p := by
  unfold onRecvCredit
  rcases h with h | h
  · rw [if_neg h]
  · split_ifs
    · rw [h]
    · rfl

theorem acceptDataNotif_of_none (h : ¬ slot < recvRingSize ∨ p.slotState[slot]? = none) :
    p.acceptDataNotif slot seq = (false, p) := by
  unfold acceptDataNotif
  rcases h with h | h
  · rw [if_neg h]
  · split_ifs
    · rw [h]
    · rfl

theorem length_onRecvCredit :
    (p.onRecvCredit slot seq).slotState.length = p.slotState.length := by
  unfold onRecvCredit
  split_ifs
  · split
    · rfl
    · split_ifs
      · exact List.length_set
      · rfl
  · rfl

theorem length_acceptDataNotif :
    (p.acceptDataNotif slot seq).2.slotState.length = p.slotState.length := by
  unfold acceptDataNotif
  split_ifs
  · split
    · rfl
    · split_ifs
      · rfl
      · exact List.length_set
  · rfl

/-- A credit and a data notif change different numbers of a slot. -/
theorem acceptDataNotif_onRecvCredit (p : PeerState) (slot slot' : ℕ) (seq seq' : ℤ) :
    (p.onRecvCredit slot' seq').acceptDataNotif slot seq =
      ((p.acceptDataNotif slot seq).1, (p.acceptDataNotif slot seq).2.onRecvCredit slot' seq') := by
  by_cases hn' : ¬ slot' < recvRingSize ∨ p.slotState[slot']? = none
  · have hnone : ¬ slot' < recvRingSize ∨ (p.acceptDataNotif slot seq).2.slotState[slot']? = none := by
      rwa [List.getElem?_eq_none_iff, length_acceptDataNotif, ← List.getElem?_eq_none_iff]
    rw [onRecvCredit_of_none hn', onRecvCredit_of_none hnone]
  by_cases hn : ¬ slot < recvRingSize ∨ p.slotState[slot]? = none
  · have hnone : ¬ slot < recvRingSize ∨ (p.onRecvCredit slot' seq').slotState[slot]? = none := by
      rwa [List.getElem?_eq_none_iff, length_onRecvCredit, ← List.getElem?_eq_none_iff]
    rw [acceptDataNotif_of_none hn, acceptDataNotif_of_none hnone]
  obtain ⟨hs', hst'⟩ := not_or.mp hn'
  obtain ⟨hs, hst⟩ := not_or.mp hn
  rw [not_not] at hs hs'
  obtain ⟨st', hst'⟩ := Option.ne_none_iff_exists'.mp hst'
  obtain ⟨st, hst⟩ := Option.ne_none_iff_exists'.mp hst
  have hlt' := (List.getElem?_eq_some_iff.mp hst').1
  have hlt := (List.getElem?_eq_some_iff.mp hst).1
  rw [onRecvCredit_of_some hs' hst', acceptDataNotif_of_some hs hst]
  rcases eq_or_ne slot slot' with rfl | hne
  · obtain rfl : st = st' := Option.some.inj (hst.symm.trans hst')
    split_ifs with he ha ha
    · rw [acceptDataNotif_of_some hs (List.getElem?_set_self hlt), if_pos ha,
        onRecvCredit_of_some hs hst, if_pos he]
    · rw [acceptDataNotif_of_some hs (List.getElem?_set_self hlt), if_neg ha,
        onRecvCredit_of_some hs (List.getElem?_set_self hlt), if_pos he]
      simp only [setSlot, List.set_set]
    · rw [acceptDataNotif_of_some hs hst, if_pos ha, onRecvCredit_of_some hs hst, if_neg he]
    · rw [acceptDataNotif_of_some hs hst, if_neg ha,
        onRecvCredit_of_some hs (List.getElem?_set_self hlt), if_neg he]
  · have hset : ∀ x : SlotState, (p.slotState.set slot' x)[slot]? = some st := fun x => by
      rw [List.getElem?_set_ne hne.symm, hst]
    have hset' : ∀ x : SlotState, (p.slotState.set slot x)[slot']? = some st' := fun x => by
      rw [List.getElem?_set_ne hne, hst']
    split_ifs with he ha ha
    · rw [acceptDataNotif_of_some hs (hset _), if_pos ha, onRecvCredit_of_some hs' hst', if_pos he]
    · rw [acceptDataNotif_of_some hs (hset _), if_neg ha, onRecvCredit_of_some hs' (hset' _), if_pos he]
      simp only [setSlot, List.set_comm _ _ hne]
    · rw [acceptDataNotif_of_some hs hst, if_pos ha, onRecvCredit_of_some hs' hst', if_neg he]
    · rw [acceptDataNotif_of_some hs hst, if_neg ha, onRecvCredit_of_some hs' (hset' _), if_neg he]

end PeerState

namespace NixlContext

variable {c : NixlContext M}

theorem peerState_ok {peerId : ℤ} {p : PeerState} (h : c.peers peerId = some p) :
    peerState peerId c = .ok p c := by
  rw [peerState, get_bind, h]
  rfl

theorem setPeer_self {peerId : ℤ} {p : PeerState} (h : c.peers peerId = some p) :
    c.setPeer peerId p = c := by
  have hsame : Function.update c.peers peerId (some p) = c.peers := by
    rw [← h]
    exact Function.update_eq_self peerId c.peers
  simp only [setPeer, hsame]

theorem onRecvCredit_ok {peerId : ℤ} (h : (c.peers peerId).isSome) (slotId : ℕ) (seq : ℤ) :
    onRecvCredit peerId slotId seq c = .ok ⟨⟩ (c.credited peerId slotId seq) := by
  obtain ⟨p, hp⟩ := Option.isSome_iff_exists.mp h
  rw [onRecvCredit, bind_of_ok (peerState_ok hp), credited, hp]
  rfl

theorem acceptDataNotif_ok {peerId : ℤ} {p : PeerState} (h : c.peers peerId = some p)
    (slotId : ℕ) (seq : ℤ) :
    acceptDataNotif peerId slotId seq c =
      .ok (p.acceptDataNotif slotId seq).1 (c.setPeer peerId (p.acceptDataNotif slotId seq).2) := by
  rw [acceptDataNotif, bind_of_ok (peerState_ok h)]
  rfl

theorem isSome_setPeer {peerId peerId' : ℤ} {p : PeerState} (h : (c.peers peerId').isSome) :
    ((c.setPeer peerId p).peers peerId').isSome := by
  rcases eq_or_ne peerId' peerId with rfl | hne
  · exact congrArg Option.isSome (Function.update_self peerId' _ c.peers)
  · exact (congrArg Option.isSome (Function.update_of_ne hne _ c.peers)).trans h

theorem isSome_credited {peerId peerId' : ℤ} {slotId : ℕ} {seq : ℤ} (h : (c.peers peerId').isSome) :
    ((c.credited peerId slotId seq).peers peerId').isSome := by
  unfold credited
  split
  · exact isSome_setPeer h
  · exact h

/-! ### Credits at the end -/

/-- A credit that comes before a data notif may as well come after it. -/
theorem arrived_credited (peerId peerId' : ℤ) (slotId slotId' : ℕ) (seq seq' : ℤ)
    (metadata : Option M) (c : NixlContext M) :
    (c.credited peerId' slotId' seq').arrived peerId slotId seq metadata =
      (c.arrived peerId slotId seq metadata).credited peerId' slotId' seq' := by
  cases hp' : c.peers peerId' with
  | none =>
    have hnone : (c.arrived peerId slotId seq metadata).peers peerId' = none := by
      unfold arrived
      split
      · rename_i p hp
        split_ifs
        · have hne : peerId' ≠ peerId := fun heq => absurd ((heq ▸ hp').symm.trans hp) nofun
          exact (Function.update_of_ne hne _ c.peers).trans hp'
        · exact hp'
      · exact hp'
    simp only [credited, hp', hnone]
  | some p' =>
    cases hp : c.peers peerId with
    | none =>
      have hne : peerId ≠ peerId' := fun heq => absurd ((heq ▸ hp).symm.trans hp') nofun
      have hnone : (c.setPeer peerId' (p'.onRecvCredit slotId' seq')).peers peerId = none :=
        (Function.update_of_ne hne _ c.peers).trans hp
      simp only [credited, hp', arrived, hp, hnone]
    | some p =>
      rcases eq_or_ne peerId peerId' with rfl | hne
      · obtain rfl : p = p' := Option.some.inj (hp.symm.trans hp')
        simp only [credited, arrived, hp, setPeer, Function.update_self,
          PeerState.acceptDataNotif_onRecvCredit, Function.update_idem]
        split_ifs
        · simp only [Function.update_self, Function.update_idem]
        · simp only [hp]
      · simp only [credited, arrived, hp, hp', setPeer, Function.update_of_ne hne]
        split_ifs
        · simp only [Function.update_of_ne hne.symm, hp', Function.update_comm hne]
        · simp only [hp']

/-- The credits of a poll, one after the other. -/
def creditedAll (credits : List (ℤ × ℕ × ℤ)) (c : NixlContext M) : NixlContext M :=
  credits.foldl (fun c cr => c.credited cr.1 cr.2.1 cr.2.2) c

theorem creditedAll_append_singleton (credits : List (ℤ × ℕ × ℤ)) (cr : ℤ × ℕ × ℤ) (c : NixlContext M) :
    creditedAll (credits ++ [cr]) c = (creditedAll credits c).credited cr.1 cr.2.1 cr.2.2 := by
  rw [creditedAll, List.foldl_append]
  rfl

theorem creditedAll_arrived (credits : List (ℤ × ℕ × ℤ)) (peerId : ℤ) (slotId : ℕ) (seq : ℤ)
    (metadata : Option M) (c : NixlContext M) :
    creditedAll credits (c.arrived peerId slotId seq metadata) =
      (creditedAll credits c).arrived peerId slotId seq metadata := by
  induction credits generalizing c with
  | nil => rfl
  | cons cr credits ih =>
    show creditedAll credits ((c.arrived peerId slotId seq metadata).credited cr.1 cr.2.1 cr.2.2) = _
    rw [← arrived_credited]
    exact ih _

/-- What a poll publishes. -/
def published (v : Poll M) (c : NixlContext M) : NixlContext M :=
  creditedAll v.creditReturns { c with
    pendingArrivals := c.pendingArrivals ++ v.newArrivals
    arrivalCount := c.arrivalCount + v.newArrivals.length }

theorem publish_ok {v : Poll M} (h : ∀ cr ∈ v.creditReturns, (c.peers cr.1).isSome) :
    publish v c = .ok ⟨⟩ (published v c) := by
  have hall : ∀ (credits : List (ℤ × ℕ × ℤ)) (c : NixlContext M),
      (∀ cr ∈ credits, (c.peers cr.1).isSome) →
      (forM credits fun cr => onRecvCredit cr.1 cr.2.1 cr.2.2 :
        EStateM Fault (NixlContext M) PUnit) c = .ok ⟨⟩ (creditedAll credits c) := by
    intro credits
    induction credits with
    | nil => exact fun _ _ => rfl
    | cons cr credits ih =>
      intro c hc
      obtain ⟨hcr, hcs⟩ := List.forall_mem_cons.mp hc
      rw [List.forM_cons, bind_of_ok (onRecvCredit_ok hcr _ _)]
      exact ih _ fun cr' hcr' => isSome_credited (hcs cr' hcr')
  exact hall v.creditReturns { c with
    pendingArrivals := c.pendingArrivals ++ v.newArrivals
    arrivalCount := c.arrivalCount + v.newArrivals.length } h

theorem credited_of_le {peerId : ℤ} {slotId : ℕ} {seq : ℤ} (h : ¬ slotId < recvRingSize) :
    c.credited peerId slotId seq = c := by
  unfold credited
  split
  · rename_i p hp
    rw [PeerState.onRecvCredit_of_none (.inl h)]
    exact setPeer_self hp
  · rfl

section

variable {peerId : ℤ} {p : PeerState} {slotId : ℕ} {seq : ℤ} {v : Poll M} {metadata : Option M}

theorem arrived_published (h : c.peers peerId = some p)
    (ha : (p.acceptDataNotif slotId seq).1 = true) :
    (c.published v).arrived peerId slotId seq metadata =
      (c.setPeer peerId (p.acceptDataNotif slotId seq).2).published
        { v with newArrivals := v.newArrivals ++ [⟨peerId, seq, slotId, metadata⟩] } := by
  rw [published, ← creditedAll_arrived]
  simp only [arrived, h, ha, if_true, published, setPeer, List.append_assoc, List.length_append,
    List.length_singleton, Nat.add_assoc]

theorem arrived_published_of_not (h : c.peers peerId = some p)
    (ha : (p.acceptDataNotif slotId seq).1 = false) :
    (c.published v).arrived peerId slotId seq metadata = c.published v := by
  rw [published, ← creditedAll_arrived]
  simp [arrived, h, ha]

end

theorem published_credit (v : Poll M) (cr : ℤ × ℕ × ℤ) :
    c.published { v with creditReturns := v.creditReturns ++ [cr] } =
      (c.published v).credited cr.1 cr.2.1 cr.2.2 :=
  creditedAll_append_singleton v.creditReturns cr _

end NixlContext

/-! ### The loop -/

namespace PeerState

variable {p : PeerState} {slot : ℕ} {seq : ℤ}

theorem acceptDataNotif_fst_iff : (p.acceptDataNotif slot seq).1 = true ↔ slot < recvRingSize ∧
    ∃ st, p.slotState[slot]? = some st ∧ st.inflightRecvSeq ≠ seq ∧ st.completedRecvSeq < seq := by
  by_cases hn : ¬ slot < recvRingSize ∨ p.slotState[slot]? = none
  · rw [acceptDataNotif_of_none hn]
    rcases hn with hn | hn <;> simp [hn]
  · obtain ⟨hs, hst⟩ := not_or.mp hn
    rw [not_not] at hs
    obtain ⟨st, hst⟩ := Option.ne_none_iff_exists'.mp hst
    rw [acceptDataNotif_of_some hs hst]
    by_cases ha : st.inflightRecvSeq = seq ∨ st.completedRecvSeq ≥ seq
    · rw [if_pos ha]
      simp [hst]
      grind
    · rw [if_neg ha]
      simp [hst]
      grind

theorem acceptDataNotif_of_not (h : (p.acceptDataNotif slot seq).1 = false) :
    (p.acceptDataNotif slot seq).2 = p := by
  unfold acceptDataNotif at h ⊢
  split_ifs at h ⊢
  · split at h
    · rfl
    · split_ifs at h ⊢
      rfl
  · rfl

/-- The slot of a data notif that is not completed has its number in flight. -/
theorem getElem?_acceptDataNotif {slot' : ℕ} (hs : slot < recvRingSize) :
    (p.acceptDataNotif slot' seq).2.slotState[slot]? = p.slotState[slot]?.map fun st =>
      if slot' = slot ∧ st.completedRecvSeq < seq then { st with inflightRecvSeq := seq } else st := by
  by_cases hn : ¬ slot' < recvRingSize ∨ p.slotState[slot']? = none
  · rw [acceptDataNotif_of_none hn]
    cases hst : p.slotState[slot]? with
    | none => rfl
    | some st =>
      have hne : slot' ≠ slot := by
        rintro rfl
        exact hn.elim (· hs) fun h => absurd (h.symm.trans hst) nofun
      simp [hne]
  · obtain ⟨hs', hst'⟩ := not_or.mp hn
    rw [not_not] at hs'
    obtain ⟨st', hst'⟩ := Option.ne_none_iff_exists'.mp hst'
    have hlt := (List.getElem?_eq_some_iff.mp hst').1
    rw [acceptDataNotif_of_some hs' hst']
    rcases eq_or_ne slot' slot with rfl | hne
    · by_cases ha : st'.inflightRecvSeq = seq ∨ st'.completedRecvSeq ≥ seq
      · rw [if_pos ha, hst', Option.map_some]
        split_ifs with hc
        · obtain rfl := ha.resolve_right (not_le.mpr hc.2)
          rfl
        · rfl
      · have hc : st'.completedRecvSeq < seq := not_le.mp fun h => ha (.inr h)
        rw [if_neg ha, hst', Option.map_some, if_pos ⟨rfl, hc⟩]
        exact List.getElem?_set_self hlt
    · simp only [hne, false_and, if_false]
      split_ifs
      · exact Option.map_id'.symm
      · exact (List.getElem?_set_ne hne).trans Option.map_id'.symm

end PeerState

theorem SlotState.latest_append (st : SlotState) (numbers : List ℤ) (seq : ℤ) :
    st.latest (numbers ++ [seq]) =
      if st.completedRecvSeq < seq then seq else st.latest numbers := by
  unfold SlotState.latest
  rw [List.filter_append]
  split_ifs with h <;> simp [h]

theorem named_append (peerId : ℤ) (slotId : ℕ) (notifs : List (ℤ × List UInt8))
    (notif : ℤ × List UInt8) :
    named peerId slotId (notifs ++ [notif]) = named peerId slotId notifs ++
      match Notif.ofBytes notif.2 with
      | .data slot seq _ => if notif.1 = peerId ∧ slot = slotId then [seq] else []
      | _ => [] := by
  rw [named, named, List.filterMap_append, List.append_cancel_left_eq]
  cases hn : Notif.ofBytes notif.2 with
  | ignored => simp [hn]
  | credit slot seq => simp [hn]
  | data slot seq blob =>
    by_cases hslot : notif.1 = peerId ∧ slot = slotId
    · simp [hn, hslot]
    · rw [List.filterMap_cons_none (by rw [hn]; exact if_neg hslot)]
      exact (if_neg hslot).symm

section

variable (decode : List UInt8 → Option M)

/-- The loop has read some notifs. -/
structure Polled (c : NixlContext M) (earlier : List (ℤ × List UInt8)) (v : Poll M)
    (c' : NixlContext M) : Prop where
  published : c'.published v = earlier.foldl (NixlContext.handle decode) c
  known : ∀ cr ∈ v.creditReturns, (c'.peers cr.1).isSome
  slots : ∀ peerId p, c.peers peerId = some p → ∃ p', c'.peers peerId = some p' ∧
    ∀ slot < recvRingSize, p'.slotState[slot]? = p.slotState[slot]?.map fun st =>
      { st with inflightRecvSeq := st.latest (named peerId slot earlier) }

variable {decode} {c c' : NixlContext M} {earlier : List (ℤ × List UInt8)} {v : Poll M}
  {notif : ℤ × List UInt8}

theorem polled_start : Polled decode c [] {} c where
  published := by simp [NixlContext.published, NixlContext.creditedAll]
  known _ h := absurd h (by simp)
  slots peerId p hp := ⟨p, hp, fun slot _ => by simp [named, SlotState.latest]⟩

/-- A notif that changes no slot. -/
theorem Polled.skip (h : Polled decode c earlier v c')
    (hnot : ∀ slot seq blob, Notif.ofBytes notif.2 ≠ .data slot seq blob) {v' : Poll M}
    (hp : c'.published v' = NixlContext.handle decode (c'.published v) notif)
    (hk : ∀ cr ∈ v'.creditReturns, (c'.peers cr.1).isSome) :
    Polled decode c (earlier ++ [notif]) v' c' where
  published := by rw [hp, h.published, List.foldl_append]; rfl
  known := hk
  slots peerId p hp := by
    obtain ⟨p', hp', hslots⟩ := h.slots peerId p hp
    refine ⟨p', hp', fun slot hs => ?_⟩
    have hsame : named peerId slot (earlier ++ [notif]) = named peerId slot earlier := by
      rw [named_append]
      split
      · rename_i hdata
        exact absurd hdata (hnot _ _ _)
      · exact List.append_nil _
    rw [hsame]
    exact hslots slot hs

/-- A data notif, whether accepted or not. -/
theorem Polled.data (h : Polled decode c earlier v c') {slotId : ℕ} {seq : ℤ} {blob : List UInt8}
    (hdata : Notif.ofBytes notif.2 = .data slotId seq blob) {p' : PeerState}
    (hp' : c'.peers notif.1 = some p') {v' : Poll M}
    (hpub : (c'.setPeer notif.1 (p'.acceptDataNotif slotId seq).2).published v' =
      NixlContext.handle decode (c'.published v) notif)
    (hcredits : v'.creditReturns = v.creditReturns) :
    Polled decode c (earlier ++ [notif]) v'
      (c'.setPeer notif.1 (p'.acceptDataNotif slotId seq).2) where
  published := by rw [hpub, h.published, List.foldl_append]; rfl
  known cr hcr := NixlContext.isSome_setPeer (h.known cr (hcredits ▸ hcr))
  slots peerId p hp := by
    obtain ⟨p₁, hp₁, hslots⟩ := h.slots peerId p hp
    rcases eq_or_ne notif.1 peerId with rfl | hne
    · obtain rfl : p₁ = p' := Option.some.inj (hp₁.symm.trans hp')
      refine ⟨_, Function.update_self _ _ _, fun slot hs => ?_⟩
      rw [PeerState.getElem?_acceptDataNotif hs, hslots slot hs, Option.map_map, named_append, hdata]
      congr 1
      funext st
      by_cases hslot : slotId = slot
      · simp [hslot, SlotState.latest_append]
        split_ifs <;> rfl
      · simp [hslot]
    · refine ⟨p₁, (Function.update_of_ne hne.symm _ _).trans hp₁, fun slot hs => ?_⟩
      rw [hslots slot hs, named_append, hdata]
      simp [hne]

/-- A pass on a notif with no fault. -/
theorem Polled.next (h : Polled decode c earlier v c') (hknown : (c.peers notif.1).isSome)
    (hr : ¬ Rejected decode c earlier notif) :
    ∃ v' c'', pollNotif decode notif.1 v notif.2 c' = .ok v' c'' ∧
      Polled decode c (earlier ++ [notif]) v' c'' := by
  obtain ⟨p, hp⟩ := Option.isSome_iff_exists.mp hknown
  obtain ⟨p', hp', hslots⟩ := h.slots notif.1 p hp
  unfold pollNotif
  cases hn : Notif.ofBytes notif.2 with
  | ignored =>
    refine ⟨v, c', rfl, h.skip (by simp [hn]) ?_ h.known⟩
    simp [NixlContext.handle, Reading.ofBytes, hn]
  | credit slotId seq =>
    refine ⟨_, c', rfl, h.skip (by simp [hn]) ?_ ?_⟩
    · rw [NixlContext.published_credit]
      by_cases hs : slotId < recvRingSize
      · simp [NixlContext.handle, Reading.ofBytes, hn, hs]
      · simp [NixlContext.handle, Reading.ofBytes, hn, hs, NixlContext.credited_of_le hs]
    · intro cr hcr
      rcases List.mem_append.mp hcr with hcr | hcr
      · exact h.known cr hcr
      · rw [List.mem_singleton.mp hcr, hp']
        rfl
  | data slotId seq blob =>
    simp only []
    rw [bind_of_ok (NixlContext.acceptDataNotif_ok hp' slotId seq)]
    cases ha : (p'.acceptDataNotif slotId seq).1 with
    | false =>
      refine ⟨v, _, rfl, h.data hn hp' ?_ rfl⟩
      rw [PeerState.acceptDataNotif_of_not ha, NixlContext.setPeer_self hp']
      unfold NixlContext.handle Reading.ofBytes
      rw [hn]
      have hnot : ∀ metadata, (c'.published v).arrived notif.1 slotId seq metadata =
          c'.published v := fun _ => NixlContext.arrived_published_of_not hp' ha
      dsimp only
      split_ifs
      · exact (hnot none).symm
      · cases decode blob with
        | some metadata => exact (hnot (some metadata)).symm
        | none => rfl
      · rfl
    | true =>
      obtain ⟨hs, st', hst', hne, hlt⟩ := PeerState.acceptDataNotif_fst_iff.mp ha
      have hdecoded : ∃ metadata, ∀ c : NixlContext M,
          decerealize decode blob c = .ok metadata c ∧
          c.handle decode notif = c.arrived notif.1 slotId seq metadata := by
        unfold decerealize NixlContext.handle Reading.ofBytes
        rw [hn]
        dsimp only
        rw [if_pos hs]
        by_cases hb : blob = []
        · exact ⟨none, fun c => by simp only [if_pos hb]; exact ⟨rfl, trivial⟩⟩
        · simp only [if_neg hb]
          cases hd : decode blob with
          | some metadata => exact ⟨some metadata, fun c => ⟨rfl, rfl⟩⟩
          | none =>
            rw [hslots slotId hs] at hst'
            obtain ⟨st, hst, rfl⟩ := Option.map_eq_some_iff.mp hst'
            exact absurd ⟨slotId, seq, blob, p, st, hn, hb, hd, hs, hp, hst, hlt, hne⟩ hr
      obtain ⟨metadata, hdecoded⟩ := hdecoded
      refine ⟨_, _, bind_of_ok (hdecoded _).1, h.data hn hp' ?_ rfl⟩
      rw [(hdecoded _).2]
      exact (NixlContext.arrived_published hp' ha).symm

/-- A blob that is rejected ends the loop. -/
theorem Polled.error (h : Polled decode c earlier v c') (hr : Rejected decode c earlier notif) :
    ∃ e c'', pollNotif decode notif.1 v notif.2 c' = .error e c'' := by
  obtain ⟨slotId, seq, blob, p, st, hn, hb, hd, hs, hp, hst, hlt, hne⟩ := hr
  obtain ⟨p', hp', hslots⟩ := h.slots notif.1 p hp
  have ha : (p'.acceptDataNotif slotId seq).1 = true := by
    refine PeerState.acceptDataNotif_fst_iff.mpr
      ⟨hs, { st with inflightRecvSeq := st.latest (named notif.1 slotId earlier) }, ?_, hne, hlt⟩
    rw [hslots slotId hs, hst]
    rfl
  refine ⟨.assertion "decerealize_", c'.setPeer notif.1 (p'.acceptDataNotif slotId seq).2, ?_⟩
  unfold pollNotif
  rw [hn]
  simp only []
  rw [bind_of_ok (NixlContext.acceptDataNotif_ok hp' slotId seq), ha, if_pos rfl, decerealize,
    if_neg hb, hd]
  rfl

/-- No blob that is rejected arrives for the first time. -/
def NoneRejected (decode : List UInt8 → Option M) (c : NixlContext M)
    (notifs : List (ℤ × List UInt8)) : Prop :=
  ∀ earlier notif later, notifs = earlier ++ notif :: later → ¬ Rejected decode c earlier notif

theorem Polled.loop {rest : List (ℤ × List UInt8)} (h : Polled decode c earlier v c')
    (hknown : ∀ notif ∈ rest, (c.peers notif.1).isSome)
    (hr : ∀ pre notif post, rest = pre ++ notif :: post → ¬ Rejected decode c (earlier ++ pre) notif) :
    ∃ v' c'', rest.foldlM (fun v n => pollNotif decode n.1 v n.2) v c' = .ok v' c'' ∧
      Polled decode c (earlier ++ rest) v' c'' := by
  induction rest generalizing earlier v c' with
  | nil => exact ⟨v, c', rfl, by rwa [List.append_nil]⟩
  | cons notif rest ih =>
    obtain ⟨hn, hns⟩ := List.forall_mem_cons.mp hknown
    have hfirst : ¬ Rejected decode c earlier notif := by
      have hf := hr [] notif rest rfl
      rwa [List.append_nil] at hf
    obtain ⟨v₁, c₁, h₁, hp₁⟩ := h.next hn hfirst
    obtain ⟨v₂, c₂, h₂, hp₂⟩ := ih hp₁ hns fun pre notif' post hrest => by
      have hl := hr (notif :: pre) notif' post (congrArg (notif :: ·) hrest)
      rwa [List.append_assoc]
    refine ⟨v₂, c₂, ?_, ?_⟩
    · rw [List.foldlM_cons, bind_of_ok h₁]
      exact h₂
    · rwa [List.append_assoc] at hp₂

theorem Polled.loop_error {pre rest post : List (ℤ × List UInt8)} (h : Polled decode c earlier v c')
    (hknown : ∀ notif ∈ rest, (c.peers notif.1).isSome) (hrest : rest = pre ++ notif :: post)
    (hr : Rejected decode c (earlier ++ pre) notif) :
    ∃ e c'', rest.foldlM (fun v n => pollNotif decode n.1 v n.2) v c' = .error e c'' := by
  induction pre generalizing earlier v c' rest with
  | nil =>
    rw [List.append_nil] at hr
    obtain ⟨e, c'', he⟩ := h.error hr
    refine ⟨e, c'', ?_⟩
    rw [hrest, List.nil_append, List.foldlM_cons, bind_of_error he]
  | cons first pre ih =>
    subst hrest
    obtain ⟨hn, hns⟩ := List.forall_mem_cons.mp hknown
    by_cases hfirst : Rejected decode c earlier first
    · obtain ⟨e, c'', he⟩ := h.error hfirst
      refine ⟨e, c'', ?_⟩
      rw [List.cons_append, List.foldlM_cons, bind_of_error he]
    · obtain ⟨v₁, c₁, h₁, hp₁⟩ := h.next hn hfirst
      obtain ⟨e, c'', he⟩ := ih hp₁ hns rfl (by rwa [List.append_assoc])
      refine ⟨e, c'', ?_⟩
      rw [List.cons_append, List.foldlM_cons, bind_of_ok h₁]
      exact he

variable {agents : List (String × List (List UInt8))}

theorem pollNotifs_eq : pollNotifs decode agents = (do
    let v ← (received agents).foldlM (fun v n => pollNotif decode n.1 v n.2) {}
    publish v : EStateM Fault (NixlContext M) PUnit) := by
  have hloop : ∀ (agents : List (String × List (List UInt8))) (v : Poll M),
      agents.foldlM (fun v agent =>
        let senderId := parseAgentRank agent.1
        if senderId < 0 then pure v else agent.2.foldlM (pollNotif decode senderId) v) v =
      (received agents).foldlM (fun v n => pollNotif decode n.1 v n.2) v := by
    intro agents
    induction agents with
    | nil => exact fun _ => rfl
    | cons agent agents ih =>
      intro v
      have hagent : (if parseAgentRank agent.1 < 0 then pure v
          else agent.2.foldlM (pollNotif decode (parseAgentRank agent.1)) v) =
          (if parseAgentRank agent.1 < 0 then [] else agent.2.map (parseAgentRank agent.1, ·)).foldlM
            (fun v n => pollNotif decode n.1 v n.2) v := by
        split_ifs
        · rfl
        · rw [List.foldlM_map]
      rw [received, List.flatMap_cons, List.foldlM_append, List.foldlM_cons, ← hagent]
      exact bind_congr fun v => ih v
  rw [pollNotifs, hloop]

/-- A poll treats each notif by itself exactly when no blob that is rejected arrives in it
for the first time. -/
theorem pollNotifs_independent_iff (hknown : ∀ notif ∈ received agents, (c.peers notif.1).isSome) :
    pollNotifs decode agents c = .ok ⟨⟩ ((received agents).foldl (NixlContext.handle decode) c) ↔
      NoneRejected decode c (received agents) := by
  rw [pollNotifs_eq]
  constructor
  · intro hok earlier notif later hsplit hr
    obtain ⟨e, c', he⟩ := polled_start.loop_error hknown hsplit hr
    rw [bind_of_error he] at hok
    exact absurd hok nofun
  · intro hnone
    obtain ⟨v, c', hloop, hp⟩ := polled_start.loop hknown hnone
    rw [bind_of_ok hloop, NixlContext.publish_ok hp.known, hp.published]
    rfl

end

/-! ### A bad blob between an arrival and a credit -/

/-- Metadata need eight bytes at least. -/
def decodeLong (blob : List UInt8) : Option (List UInt8) :=
  if blob.length < 8 then none else some blob

/-- The peer's state; the credit for slot 3 is awaited with number 9. -/
def awaitingPeer : PeerState := PeerState.new.setSlot 3 { expectedCreditSeq := 9 }

def awaiting : NixlContext (List UInt8) :=
  ⟨fun peerId => if peerId = 1 then some awaitingPeer else none, [], 0⟩

/-- Slot 2 has number 5, without metadata. -/
def plainNotif : List UInt8 := [68, 0, 0, 0, 5, 0, 0, 0, 2, 0, 0, 0, 0, 0, 0, 0]

/-- Slot 4 has number 6, with a blob of one byte. -/
def shortNotif : List UInt8 := [68, 0, 0, 0, 6, 0, 0, 0, 4, 0, 0, 0, 1, 0, 0, 0, 255]

def creditNotif : List UInt8 := [67, 0, 0, 0, 9, 0, 0, 0, 3, 0, 0, 0, 0, 0, 0, 0]

def mixedAgents : List (String × List (List UInt8)) :=
  [("rank_1", [plainNotif, shortNotif, creditNotif])]

theorem pollNotifs_independent_iff_mixed :
    (∀ notif ∈ received mixedAgents, (awaiting.peers notif.1).isSome) ∧
      (pollNotifs decodeLong mixedAgents awaiting =
          .ok ⟨⟩ ((received mixedAgents).foldl (NixlContext.handle decodeLong) awaiting) ↔
        NoneRejected decodeLong awaiting (received mixedAgents)) := by
  have hknown : ∀ notif ∈ received mixedAgents, (awaiting.peers notif.1).isSome := by decide
  exact ⟨hknown, pollNotifs_independent_iff hknown⟩

theorem pollNotifs_mixed : pollNotifs decodeLong mixedAgents awaiting =
    .error (.assertion "decerealize_") (awaiting.setPeer 1
      ((awaitingPeer.acceptDataNotif 2 5).2.acceptDataNotif 4 6).2) := by
  have hreceived : received mixedAgents = [(1, plainNotif), (1, shortNotif), (1, creditNotif)] := by
    decide
  have hplain : Notif.ofBytes plainNotif = .data 2 5 [] := by decide
  have hshort : Notif.ofBytes shortNotif = .data 4 6 [255] := by decide
  have hfirst : pollNotif decodeLong 1 {} plainNotif awaiting = .ok ⟨[⟨1, 5, 2, none⟩], []⟩
      (awaiting.setPeer 1 (awaitingPeer.acceptDataNotif 2 5).2) := by
    rw [pollNotif, hplain]
    rfl
  have hsecond : pollNotif decodeLong 1 ⟨[⟨1, 5, 2, none⟩], []⟩ shortNotif
      (awaiting.setPeer 1 (awaitingPeer.acceptDataNotif 2 5).2) =
      .error (.assertion "decerealize_")
        ((awaiting.setPeer 1 (awaitingPeer.acceptDataNotif 2 5).2).setPeer 1
          ((awaitingPeer.acceptDataNotif 2 5).2.acceptDataNotif 4 6).2) := by
    rw [pollNotif, hshort]
    rfl
  have hloop : [(1, plainNotif), (1, shortNotif), (1, creditNotif)].foldlM
      (fun v n => pollNotif decodeLong n.1 v n.2) {} awaiting = .error _ _ :=
    (bind_of_ok hfirst).trans (bind_of_error hsecond)
  rw [pollNotifs_eq, hreceived, bind_of_error hloop]
  simp only [NixlContext.setPeer, Function.update_idem]

/-- The poll throws. The arrival and the credit are lost, and both slots are marked. -/
theorem bad_blob_loses_poll :
    pollNotifs decodeLong mixedAgents awaiting ≠
        .ok ⟨⟩ ((received mixedAgents).foldl (NixlContext.handle decodeLong) awaiting) ∧
      ∃ c', pollNotifs decodeLong mixedAgents awaiting = .error (.assertion "decerealize_") c' ∧
        c'.pendingArrivals = [] ∧ (c'.peers 1).map (·.expectedAt 3) = some 9 ∧
        (c'.peers 1).map (·.inflightAt 2) = some 5 ∧ (c'.peers 1).map (·.inflightAt 4) = some 6 := by
  refine ⟨?_, _, pollNotifs_mixed, rfl, rfl, rfl, rfl⟩
  rw [pollNotifs_mixed]
  exact nofun

end StreamInfer.Nixl
