import StreamInfer.Ucxq.SpscRing

/-! The ring as a bounded queue. Counters of the stored and the returned items tell what
the masked indices mean: the indices are the counters modulo the capacity, and the
counters differ by less than it. -/

namespace StreamInfer.Ucxq

open General Relation

variable {T : Type}

namespace RingThreads

/-- The items from `tail_` up to `head_`; one that the consumer has moved out is still
among them until `tail_` is stored. -/
def contents (s : RingThreads T) : List T :=
  let count := (s.q.head + (s.q.capacityMask + 1) - s.q.tail) % (s.q.capacityMask + 1)
  match s.consumer with
  | .moved _ out => out :: (List.range (count - 1)).map fun i =>
      s.q.buffer ((s.q.tail + (i + 1)) &&& s.q.capacityMask)
  | _ => (List.range count).map fun i => s.q.buffer ((s.q.tail + i) &&& s.q.capacityMask)

/-- The buffer cell that the next step of the producer accesses. -/
def producerCell (s : RingThreads T) : Option ℕ :=
  match s.producer with
  | .hasRoom _ head => some head
  | _ => none

/-- The buffer cell that the next step of the consumer accesses. -/
def consumerCell (s : RingThreads T) : Option ℕ :=
  match s.consumer with
  | .hasItem tail => some tail
  | _ => none

end RingThreads

/-! ### Masked indices -/

section

variable {c d n : ℕ}

theorem mod_eq_iff_of_near (hle : d ≤ n) (hlt : n < d + c) : n % c = d % c ↔ n = d := by
  constructor
  · intro h
    have hdvd : c ∣ n - d := (Nat.modEq_iff_dvd' hle).mp h.symm
    have hzero := Nat.eq_zero_of_dvd_of_lt hdvd (by omega)
    omega
  · rintro rfl
    rfl

theorem succ_mod_eq_iff (hle : d ≤ n) (hlt : n < d + c) : (n + 1) % c = d % c ↔ n + 1 = d + c := by
  rcases Nat.lt_or_ge (n + 1) (d + c) with hnear | hfar
  · rw [mod_eq_iff_of_near (by omega) hnear]
    omega
  · have hfull : n + 1 = d + c := by omega
    rw [hfull, Nat.add_mod_right]
    exact ⟨fun _ => rfl, fun _ => rfl⟩

/-- The distance of two masked indices is the distance of the counters. -/
theorem masked_sub (hle : d ≤ n) (hlt : n < d + c) : (n % c + c - d % c) % c = n - d := by
  have hc : 0 < c := by omega
  have hd := Nat.mod_lt d hc
  have hcongr : d + (n % c + c - d % c) ≡ d + (n - d) [MOD c] := by
    have h₁ : d % c + (n % c + c - d % c) = n % c + c := by omega
    calc d + (n % c + c - d % c) ≡ d % c + (n % c + c - d % c) [MOD c] :=
          Nat.ModEq.add_right _ (Nat.mod_modEq d c).symm
      _ = n % c + c := h₁
      _ ≡ n [MOD c] := by simp [Nat.ModEq]
      _ = d + (n - d) := by omega
  exact Nat.ModEq.eq_of_lt_of_lt ((Nat.mod_modEq _ c).trans (hcongr.add_left_cancel' d))
    (Nat.mod_lt _ hc) (by omega)

end

/-! ### The counters behind the indices -/

/-- The registers of the producer after `n` stored and `d` returned items. -/
def Enqueue.Fits (c n d : ℕ) (buffer : ℕ → T) (item : T) : Enqueue T → Prop
  | .idle => True
  | .entered arg => item = arg
  | .loadedHead arg head => item = arg ∧ head = n % c
  | .hasRoom arg head => item = arg ∧ head = n % c ∧ n + 1 < d + c
  | .moved arg head => head = n % c ∧ n + 1 < d + c ∧ buffer (n % c) = arg

/-- The registers of the consumer after the items `stored` and `d` returned ones. -/
def Dequeue.Fits (c d : ℕ) (stored : List T) : Dequeue T → Prop
  | .idle | .entered => True
  | .loadedTail tail => tail = d % c
  | .hasItem tail => tail = d % c ∧ d < stored.length
  | .moved tail out => tail = d % c ∧ stored[d]? = some out

/-- The first item that the consumer has not moved out. -/
def Dequeue.first (d : ℕ) : Dequeue T → ℕ
  | .moved _ _ => d + 1
  | _ => d

/-- The accesses until the next store of `head_`, when the ring has room. -/
def Enqueue.toStore : Enqueue T → ℕ
  | .idle => 5
  | .entered _ => 4
  | .loadedHead _ _ => 3
  | .hasRoom _ _ => 2
  | .moved _ _ => 1

/-- The accesses until the next store of `tail_`, when the ring has an item. -/
def Dequeue.toStore : Dequeue T → ℕ
  | .idle => 5
  | .entered => 4
  | .loadedTail _ => 3
  | .hasItem _ => 2
  | .moved _ _ => 1

/-- A returned item makes more room. -/
theorem Enqueue.Fits.mono {c n d : ℕ} {buffer : ℕ → T} {item : T} {p : Enqueue T}
    (h : p.Fits c n d buffer item) : p.Fits c n (d + 1) buffer item := by
  cases p with
  | idle => trivial
  | entered arg => exact h
  | loadedHead arg head => exact h
  | hasRoom arg head =>
    obtain ⟨hitem, hhead, hroom⟩ := h
    exact ⟨hitem, hhead, by omega⟩
  | moved arg head =>
    obtain ⟨hhead, hroom, hcell⟩ := h
    exact ⟨hhead, by omega, hcell⟩

/-- The indices are the counters of the enqueued and the dequeued items. -/
structure RingThreads.Counts (c : ℕ) (s : RingThreads T) : Prop where
  capacity : s.q.capacityMask + 1 = c
  masked : ∀ i, i &&& s.q.capacityMask = i % c
  head : s.q.head = s.enqueued.length % c
  tail : s.q.tail = s.dequeued.length % c
  inOrder : s.dequeued <+: s.enqueued
  room : s.enqueued.length < s.dequeued.length + c
  cells : ∀ j m, s.consumer.first s.dequeued.length ≤ j → s.enqueued[j]? = some m →
    s.q.buffer (j % c) = m
  producer : s.producer.Fits c s.enqueued.length s.dequeued.length s.q.buffer s.item
  consumer : s.consumer.Fits c s.dequeued.length s.enqueued

theorem Dequeue.le_first (d : ℕ) (p : Dequeue T) : d ≤ p.first d := by
  cases p <;> simp [first]

namespace RingThreads

variable {c : ℕ} {s s' : RingThreads T}

theorem Counts.length_le (h : s.Counts c) : s.dequeued.length ≤ s.enqueued.length :=
  h.inOrder.length_le

theorem Counts.next (h : s.Counts c) (i : ℕ) : s.q.next i = (i + 1) % c := h.masked (i + 1)

/-- The comparison of `next` with `tail_` finds the ring full. -/
theorem Counts.full_iff (h : s.Counts c) {head : ℕ} (hhead : head = s.enqueued.length % c) :
    s.q.next head = s.q.tail ↔ s.enqueued.length + 1 = s.dequeued.length + c := by
  rw [h.next, h.tail, hhead, Nat.mod_add_mod]
  exact succ_mod_eq_iff h.length_le h.room

/-- The comparison of `tail` with `head_` finds the ring empty. -/
theorem Counts.empty_iff (h : s.Counts c) :
    s.dequeued.length % c = s.q.head ↔ s.enqueued.length = s.dequeued.length := by
  rw [h.head, eq_comm]
  exact mod_eq_iff_of_near h.length_le h.room

section

variable [Inhabited T]

theorem counts_start {k : ℕ} : (start (2 ^ k) : RingThreads T).Counts (2 ^ k) where
  capacity := Nat.sub_add_cancel Nat.one_le_two_pow
  masked i := Nat.and_two_pow_sub_one_eq_mod i k
  head := (Nat.zero_mod _).symm
  tail := (Nat.zero_mod _).symm
  inOrder := List.nil_prefix
  room := by simp [start]
  cells _ _ _ hj := absurd hj (by simp [start])
  producer := trivial
  consumer := trivial

theorem Counts.produce (h : s.Counts c) (arg : T) : (s.produce arg).2.Counts c := by
  have hfits := h.producer
  unfold RingThreads.produce
  cases hp : s.producer with
  | idle => exact { h with producer := rfl }
  | entered arg =>
    rw [hp] at hfits
    exact { h with producer := ⟨hfits, h.head⟩ }
  | loadedHead arg head =>
    rw [hp] at hfits
    obtain ⟨hitem, rfl⟩ := hfits
    dsimp only
    split_ifs with hfull
    · exact { h with producer := trivial }
    · have hroom := mt (h.full_iff rfl).mpr hfull
      have hlt : s.enqueued.length + 1 < s.dequeued.length + c := by
        have := h.room
        omega
      exact { h with producer := ⟨hitem, rfl, hlt⟩ }
  | hasRoom arg head =>
    rw [hp] at hfits
    obtain ⟨hitem, rfl, hroom⟩ := hfits
    refine { h with
      cells := ?_
      producer := ⟨rfl, hroom, ?_⟩ }
    · intro j m hj hm
      have hjn : j < s.enqueued.length := (List.getElem?_eq_some_iff.mp hm).1
      have hjd : s.dequeued.length ≤ j := (Dequeue.le_first _ s.consumer).trans hj
      have hne : j % c ≠ s.enqueued.length % c := fun heq => by
        have hnear := (mod_eq_iff_of_near hjn.le (by omega)).mp heq.symm
        omega
      show Function.update s.q.buffer _ s.item (j % c) = m
      rw [Function.update_of_ne hne]
      exact h.cells j m hj hm
    · show Function.update s.q.buffer _ s.item _ = arg
      rw [Function.update_self, hitem]
  | moved arg head =>
    rw [hp] at hfits
    obtain ⟨rfl, hroom, hcell⟩ := hfits
    have hlength : (s.enqueued ++ [arg]).length = s.enqueued.length + 1 := List.length_append
    refine ⟨h.capacity, h.masked, ?_, h.tail, h.inOrder.trans (List.prefix_append _ _), ?_, ?_,
      trivial, ?_⟩
    · show s.q.next _ = (s.enqueued ++ [arg]).length % c
      rw [h.next, hlength, Nat.mod_add_mod]
    · show (s.enqueued ++ [arg]).length < _
      rw [hlength]
      exact hroom
    · intro j m hj hm
      rcases Nat.lt_trichotomy j s.enqueued.length with hlt | rfl | hgt
      · exact h.cells j m hj ((List.getElem?_append_left hlt).symm.trans hm)
      · have hm : (s.enqueued ++ [arg])[s.enqueued.length]? = some m := hm
        rw [List.getElem?_concat_length] at hm
        exact hcell.trans (Option.some.inj hm)
      · have hm : (s.enqueued ++ [arg])[j]? = some m := hm
        rw [List.getElem?_eq_none (by omega)] at hm
        cases hm
    · have hfits := h.consumer
      show s.consumer.Fits c _ (s.enqueued ++ [arg])
      cases hc : s.consumer with
      | idle => trivial
      | entered => trivial
      | loadedTail tail => rw [hc] at hfits; exact hfits
      | hasItem tail =>
        rw [hc] at hfits
        exact ⟨hfits.1, hfits.2.trans_le (by rw [hlength]; exact Nat.le_succ _)⟩
      | moved tail out =>
        rw [hc] at hfits
        have hlt := (List.getElem?_eq_some_iff.mp hfits.2).1
        exact ⟨hfits.1, (List.getElem?_append_left hlt).trans hfits.2⟩

/-- The consumer leaves alone what the producer writes, the cells apart. -/
theorem consume_frame (s : RingThreads T) :
    s.consume.2.producer = s.producer ∧ s.consume.2.item = s.item ∧
      s.consume.2.enqueued = s.enqueued := by
  unfold RingThreads.consume
  cases s.consumer with
  | idle => exact ⟨rfl, rfl, rfl⟩
  | entered => exact ⟨rfl, rfl, rfl⟩
  | loadedTail tail =>
    dsimp only
    split_ifs
    · exact ⟨rfl, rfl, rfl⟩
    · exact ⟨rfl, rfl, rfl⟩
  | hasItem tail => exact ⟨rfl, rfl, rfl⟩
  | moved tail out => exact ⟨rfl, rfl, rfl⟩

theorem Counts.consume (h : s.Counts c) : s.consume.2.Counts c := by
  have hfits := h.consumer
  have hcells := h.cells
  unfold RingThreads.consume
  cases hc : s.consumer with
  | idle =>
    rw [hc] at hcells
    exact { h with
      cells := hcells
      consumer := trivial }
  | entered =>
    rw [hc] at hcells
    exact { h with
      cells := hcells
      consumer := h.tail }
  | loadedTail tail =>
    rw [hc] at hfits hcells
    obtain rfl : tail = s.dequeued.length % c := hfits
    dsimp only
    split_ifs with hempty
    · exact { h with
        cells := hcells
        consumer := trivial }
    · have hlt : s.dequeued.length < s.enqueued.length :=
        lt_of_le_of_ne h.length_le (Ne.symm (mt h.empty_iff.mpr hempty))
      exact { h with
        cells := hcells
        consumer := ⟨rfl, hlt⟩ }
  | hasItem tail =>
    rw [hc] at hfits hcells
    obtain ⟨rfl, hlt⟩ := hfits
    have hfirst : ∀ n, s.dequeued.length < n → n < s.dequeued.length + c →
        n % c ≠ s.dequeued.length % c := fun n hdn hnc heq => by
      have hnear := (mod_eq_iff_of_near hdn.le hnc).mp heq
      omega
    refine { h with
      cells := ?_
      producer := ?_
      consumer := ⟨rfl, ?_⟩ }
    · intro j m hj hm
      have hjn : j < s.enqueued.length := (List.getElem?_eq_some_iff.mp hm).1
      have hjd : s.dequeued.length < j := hj
      show Function.update s.q.buffer _ default (j % c) = m
      rw [Function.update_of_ne (hfirst j hjd (hjn.trans h.room))]
      exact hcells j m hjd.le hm
    · have hp := h.producer
      show s.producer.Fits c _ _ (Function.update s.q.buffer _ default) s.item
      cases hpr : s.producer with
      | idle => trivial
      | entered arg => rw [hpr] at hp; exact hp
      | loadedHead arg head => rw [hpr] at hp; exact hp
      | hasRoom arg head => rw [hpr] at hp; exact hp
      | moved arg head =>
        rw [hpr] at hp
        refine ⟨hp.1, hp.2.1, ?_⟩
        rw [Function.update_of_ne (hfirst _ hlt h.room)]
        exact hp.2.2
    · have hget := List.getElem?_eq_getElem hlt
      show s.enqueued[s.dequeued.length]? = some (s.q.buffer _)
      rw [hget, hcells s.dequeued.length _ le_rfl hget]
  | moved tail out =>
    rw [hc] at hfits hcells
    obtain ⟨rfl, hout⟩ := hfits
    have hlength : (s.dequeued ++ [out]).length = s.dequeued.length + 1 := List.length_append
    refine ⟨h.capacity, h.masked, h.head, ?_, ?_, ?_, ?_, ?_, trivial⟩
    · show s.q.next _ = (s.dequeued ++ [out]).length % c
      rw [h.next, hlength, Nat.mod_add_mod]
    · have htake : s.dequeued ++ [out] = s.enqueued.take (s.dequeued.length + 1) := by
        rw [List.take_add_one, ← List.prefix_iff_eq_take.mp h.inOrder, hout]
        rfl
      show s.dequeued ++ [out] <+: s.enqueued
      rw [htake]
      exact List.take_prefix _ _
    · have hroom := h.room
      show s.enqueued.length < (s.dequeued ++ [out]).length + c
      omega
    · intro j m hj hm
      have hj : (s.dequeued ++ [out]).length ≤ j := hj
      rw [hlength] at hj
      exact hcells j m hj hm
    · have hp := h.producer
      show s.producer.Fits c _ (s.dequeued ++ [out]).length s.q.buffer s.item
      rw [hlength]
      exact hp.mono

/-- The accesses of the consumer until it has returned every stored item. -/
def toDrain (s : RingThreads T) : ℕ :=
  5 * (s.enqueued.length - s.dequeued.length) + s.consumer.toStore

theorem Counts.consume_toDrain (h : s.Counts c) (hlt : s.dequeued.length < s.enqueued.length) :
    s.consume.2.toDrain < s.toDrain := by
  unfold toDrain RingThreads.consume
  cases hc : s.consumer with
  | idle => exact Nat.lt_succ_self _
  | entered => exact Nat.lt_succ_self _
  | loadedTail tail =>
    have hfits := h.consumer
    rw [hc] at hfits
    obtain rfl : tail = s.dequeued.length % c := hfits
    have hne : s.dequeued.length % c ≠ s.q.head := mt h.empty_iff.mp hlt.ne'
    simp only [hne, if_false]
    exact Nat.lt_succ_self _
  | hasItem tail => exact Nat.lt_succ_self _
  | moved tail out =>
    simp only [List.length_append, List.length_singleton, Dequeue.toStore]
    omega

theorem Run.counts {k : ℕ} (h : Run (2 ^ k) s) : s.Counts (2 ^ k) := by
  refine Reach.invariant (I := Counts (2 ^ k)) ?_ ?_ h
  · rintro s rfl
    exact counts_start
  · rintro s s' hI ⟨ev, hs⟩
    cases hs with
    | produce arg => exact hI.produce arg
    | consume => exact hI.consume

end

/-! ### What the ring holds -/

theorem Counts.contents_eq (h : s.Counts c) : s.contents = s.enqueued.drop s.dequeued.length := by
  have hcount : (s.q.head + (s.q.capacityMask + 1) - s.q.tail) % (s.q.capacityMask + 1) =
      s.enqueued.length - s.dequeued.length := by
    rw [h.capacity, h.head, h.tail]
    exact masked_sub h.length_le h.room
  have hcell : ∀ i, (s.q.tail + i) &&& s.q.capacityMask = (s.dequeued.length + i) % c := fun i => by
    rw [h.masked, h.tail, Nat.mod_add_mod]
  have hget : ∀ i, s.consumer.first s.dequeued.length ≤ s.dequeued.length + i →
      (hi : s.dequeued.length + i < s.enqueued.length) →
      s.q.buffer ((s.dequeued.length + i) % c) = s.enqueued[s.dequeued.length + i] := fun i hfirst hi =>
    h.cells _ _ hfirst (List.getElem?_eq_getElem hi)
  have hplain : s.consumer.first s.dequeued.length = s.dequeued.length →
      ((List.range (s.enqueued.length - s.dequeued.length)).map fun i =>
        s.q.buffer ((s.q.tail + i) &&& s.q.capacityMask)) = s.enqueued.drop s.dequeued.length := by
    intro hfirst
    apply List.ext_getElem
    · simp
    · intro i h₁ h₂
      simp only [List.getElem_map, List.getElem_range, List.getElem_drop, hcell]
      rw [List.length_drop] at h₂
      exact hget i (by omega) (by omega)
  unfold contents
  rw [hcount]
  cases hc : s.consumer with
  | idle => exact hplain (by rw [hc]; rfl)
  | entered => exact hplain (by rw [hc]; rfl)
  | loadedTail tail => exact hplain (by rw [hc]; rfl)
  | hasItem tail => exact hplain (by rw [hc]; rfl)
  | moved tail out =>
    have hfits := h.consumer
    rw [hc] at hfits
    obtain ⟨-, hout⟩ := hfits
    obtain ⟨hlt, hout⟩ := List.getElem?_eq_some_iff.mp hout
    rw [List.drop_eq_getElem_cons hlt, hout]
    refine congrArg (out :: ·) ?_
    apply List.ext_getElem
    · simp
      omega
    · intro i h₁ h₂
      simp only [List.getElem_map, List.getElem_range, List.getElem_drop, hcell]
      rw [List.length_drop] at h₂
      have hread := hget (i + 1) (by rw [hc]; simp only [Dequeue.first]; omega) (by omega)
      rw [hread]
      congr 1
      omega

/-- The ring of capacity `c` keeps to a bounded queue: the items that were enqueued are
those dequeued, in order, and then the stored ones. -/
structure BoundedFifo (c : ℕ) (s : RingThreads T) : Prop where
  inOrder : s.enqueued = s.dequeued ++ s.contents
  bounded : s.contents.length ≤ c - 1
  apart : ∀ i, s.producerCell = some i → s.consumerCell ≠ some i

/-- What a step may report: a failed enqueue found the ring full and left its argument, a
failed dequeue found the ring empty, and a dequeue that succeeds returns the oldest item. -/
def Reports (c : ℕ) (s s' : RingThreads T) : RingEvent T → Prop
  | .call | .access | .enqueueTrue => True
  | .enqueueFalse arg => s.contents.length = c - 1 ∧ s'.item = arg
  | .dequeueTrue out => s.contents.head? = some out
  | .dequeueFalse => s.contents = []

theorem Counts.boundedFifo (h : s.Counts c) : s.BoundedFifo c where
  inOrder := by
    rw [h.contents_eq]
    conv_lhs => rw [← List.take_append_drop s.dequeued.length s.enqueued]
    rw [← List.prefix_iff_eq_take.mp h.inOrder]
  bounded := by
    have hroom := h.room
    rw [h.contents_eq, List.length_drop]
    omega
  apart := by
    intro i hp hc
    unfold producerCell at hp
    unfold consumerCell at hc
    cases hpr : s.producer with
    | hasRoom arg head =>
      cases hco : s.consumer with
      | hasItem tail =>
        have hpf := h.producer
        have hcf := h.consumer
        rw [hpr] at hpf hp
        rw [hco] at hcf hc
        obtain rfl := Option.some.inj hp
        obtain rfl := Option.some.inj hc
        have heq := (mod_eq_iff_of_near hcf.2.le h.room).mp (hpf.2.1.symm.trans hcf.1)
        exact hcf.2.ne' heq
      | idle => rw [hco] at hc; cases hc
      | entered => rw [hco] at hc; cases hc
      | loadedTail tail => rw [hco] at hc; cases hc
      | moved tail out => rw [hco] at hc; cases hc
    | idle => rw [hpr] at hp; cases hp
    | entered arg => rw [hpr] at hp; cases hp
    | loadedHead arg head => rw [hpr] at hp; cases hp
    | moved arg head => rw [hpr] at hp; cases hp

variable [Inhabited T]

theorem Counts.reports (h : s.Counts c) {ev : RingEvent T} (hs : Step s ev s') :
    s.Reports c s' ev := by
  have hlen : s.contents.length = s.enqueued.length - s.dequeued.length := by
    rw [h.contents_eq, List.length_drop]
  cases hs with
  | produce arg =>
    have hfits := h.producer
    unfold RingThreads.produce
    cases hp : s.producer with
    | loadedHead arg' head =>
      rw [hp] at hfits
      obtain ⟨hitem, rfl⟩ := hfits
      dsimp only
      split_ifs with hfull
      · have heq := (h.full_iff rfl).mp hfull
        exact ⟨by rw [hlen]; omega, hitem⟩
      · trivial
    | idle => trivial
    | entered arg' => trivial
    | hasRoom arg' head => trivial
    | moved arg' head => trivial
  | consume =>
    have hfits := h.consumer
    unfold RingThreads.consume
    cases hc : s.consumer with
    | loadedTail tail =>
      rw [hc] at hfits
      obtain rfl : tail = s.dequeued.length % c := hfits
      dsimp only
      split_ifs with hempty
      · have heq := h.empty_iff.mp hempty
        exact List.eq_nil_of_length_eq_zero (by rw [hlen]; omega)
      · trivial
    | moved tail out =>
      rw [hc] at hfits
      show s.contents.head? = some out
      rw [h.contents_eq, List.head?_drop]
      exact hfits.2
    | idle => trivial
    | entered => trivial
    | hasItem tail => trivial

/-- Every run of a producer and a consumer keeps to a bounded queue, and every step reports
what the queue allows. -/
theorem bounded_fifo (k : ℕ) {s : RingThreads T} (h : Run (2 ^ k) s) :
    s.BoundedFifo (2 ^ k) ∧ ∀ ev s', Step s ev s' → s.Reports (2 ^ k) s' ev :=
  ⟨h.counts.boundedFifo, fun _ _ hs => h.counts.reports hs⟩

/-- A ring of two cells, in which the producer takes its first steps with the item 7. -/
def afterSteps : ℕ → RingThreads ℕ
  | 0 => start 2
  | n + 1 => ((afterSteps n).produce 7).2

theorem run_afterSteps (n : ℕ) : Run (2 ^ 1) (afterSteps n) := by
  induction n with
  | zero => exact Reach.start rfl
  | succ n ih => exact ih.next ⟨_, .produce 7⟩

/-- The first call fills the ring, and the second one fails at its second load. -/
theorem bounded_fifo_afterSteps :
    (afterSteps 5).contents.length ≤ 1 ∧ (afterSteps 7).contents.length = 1 :=
  ⟨(bounded_fifo 1 (run_afterSteps 5)).1.bounded,
    ((bounded_fifo 1 (run_afterSteps 7)).2 _ _ (.produce 7)).1⟩

end RingThreads

end StreamInfer.Ucxq
