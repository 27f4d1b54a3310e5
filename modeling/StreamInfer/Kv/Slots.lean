import StreamInfer.Kv.CPUBlockManager
import StreamInfer.General.Fallible
import StreamInfer.General.Scatter
import StreamInfer.General.Reach

/-! The KV slots of a batch. Position `q` of a request lies in the block at index
`q / block_size` of its table. Both ways of preparing a batch pad the tables to
one width and read each request's last position back from its padded row; as the
table covers the position, the padding is never read. Blocks have one owner, so
slots of different requests or positions differ, and tables of live requests
only grow, so a position keeps its slot. -/

namespace StreamInfer.Kv

open General General.Stateful Batch BatchMetadata Lengths

namespace BlockManager

variable {W : Type}

/-- The block lists of the requests of a batch. -/
def batchBlockLists (m : BlockManager) (metaC : BatchMetadata W) : Except Fault (List (List ℕ)) :=
  (List.range metaC.numTokens).mapM fun i =>
    match metaC.reqIds[i]? with
    | none => .error (.outOfRange "req_ids[i]")
    | some id =>
      match m.blockTables.lookup id with
      | none => .error (.assertion "has_seq_block_list(id)")
      | some list => .ok list

/-- One row of the table, padded with `-1`. -/
def padRow (width : ℕ) (list : List ℕ) : List ℤ :=
  list.map (fun b : ℕ => (b : ℤ)) ++ List.replicate (width - list.length) (-1)

/-- The slot of the last position of row `i`. -/
def readSlot (blockSize width : ℕ) (table : List ℤ) (i : ℕ) (seqLen : ℤ) : Except Fault ℤ :=
  let lastIdx := seqLen - 1
  let blockId := lastIdx.tdiv blockSize
  let idInBlock := lastIdx.tmod blockSize
  let at_ := (i * width : ℕ) + blockId
  match if 0 ≤ at_ then table[at_.toNat]? else none with
  | none => .error (.outOfRange "block_table[i * m + block_id]")
  | some block => .ok (block * blockSize + idInBlock)

/-- Write the slots behind the table they are read from. -/
def writeSlots (blockSize width : ℕ) : ℕ → ℕ → List ℤ → List ℤ → Except Fault (List ℤ)
  | _, _, [], table => .ok table
  | i, slotIdx, seqLen :: seqLens, table => do
    let slot ← readSlot blockSize width table i seqLen
    writeSlots blockSize width (i + 1) (slotIdx + 1) seqLens (table.set slotIdx slot)

/-- The padded table and, behind it, the slots. -/
def prepareBlockTable (m : BlockManager) (metaC : BatchMetadata W) (decodeSeqLens : List ℤ) :
    Except Fault (List ℤ) := do
  let lists ← m.batchBlockLists metaC
  let width := (lists.map List.length).foldl max 0
  let n := metaC.numTokens
  let table := lists.flatMap (padRow width) ++ List.replicate n (-1)
  if n ≤ decodeSeqLens.length then
    writeSlots m.blockSize width 0 (n * width) (decodeSeqLens.take n) table
  else throw (.outOfRange "decode_seq_lens[i]")

/-- The padded table, the slots and the width. -/
def prepareBlockTableGdr (m : BlockManager) (metaC : BatchMetadata W) (decodeSeqLens : List ℤ) :
    Except Fault (List ℤ × List ℤ × ℕ) := do
  let lists ← m.batchBlockLists metaC
  let width := (lists.map List.length).foldl max 0
  let table := lists.flatMap (padRow width)
  let slots ← (List.range metaC.numTokens).mapM fun i =>
    match decodeSeqLens[i]? with
    | none => .error (.outOfRange "decode_seq_lens[i]")
    | some seqLen => readSlot m.blockSize width table i seqLen
  return (table, slots, width)

/-- The slot of position `q` of a request in the request's own table. -/
def slotAt (m : BlockManager) (r : ℤ) (q : ℕ) : Option ℕ := do
  let table ← m.blockTables.lookup r
  let block ← table[q / m.blockSize]?
  return block * m.blockSize + q % m.blockSize

/-! ### Slots of one state -/

theorem foldl_max_ge (xs : List ℕ) {x : ℕ} (a : ℕ) (h : x ∈ xs ∨ x ≤ a) : x ≤ xs.foldl max a := by
  induction xs generalizing a with
  | nil => simpa using h
  | cons y xs ih =>
    rw [List.foldl_cons]
    apply ih
    rcases h with h | h
    · rcases List.mem_cons.mp h with rfl | h
      · exact .inr (Nat.le_max_right _ _)
      · exact .inl h
    · exact .inr (h.trans (Nat.le_max_left _ _))

/-- Inside the table of its request, the padded row reads that table. -/
theorem readSlot_row {blockSize width : ℕ} {lists : List (List ℕ)}
    (hw : ∀ l ∈ lists, l.length ≤ width) {i q b : ℕ} {t : List ℕ} (ht : lists[i]? = some t)
    (hb : t[q / blockSize]? = some b) (extra : List ℤ) :
    readSlot blockSize width (lists.flatMap (padRow width) ++ extra) i ((q + 1 : ℕ) : ℤ) =
      .ok ((b * blockSize + q % blockSize : ℕ) : ℤ) := by
  obtain ⟨hq, hbv⟩ := List.getElem?_eq_some_iff.mp hb
  have htw : t.length ≤ width := hw t (List.mem_of_getElem? ht)
  have hrow : (lists.flatMap (padRow width))[i * width + q / blockSize]? = some (b : ℤ) := by
    rw [getElem?_flatMap_uniform (padRow width) width lists
      (fun l hl => by simp [padRow, hw l hl]) (by omega), ht]
    simp [padRow, List.getElem?_append_left, hq, hbv]
  obtain ⟨hlt, -⟩ := List.getElem?_eq_some_iff.mp hrow
  have hlast : (((q + 1 : ℕ) : ℤ) - 1) = (q : ℤ) := by omega
  have hat : ((i * width : ℕ) : ℤ) + ((q / blockSize : ℕ) : ℤ) =
      ((i * width + q / blockSize : ℕ) : ℤ) := by omega
  rw [readSlot, hlast, ← Int.ofNat_tdiv, ← Int.ofNat_tmod, hat]
  simp only [Int.natCast_nonneg, ↓reduceIte, Int.toNat_natCast]
  rw [List.getElem?_append_left hlt, hrow]
  simp

/-- The writes behind the table do not reach the rows the slots are read from. -/
theorem writeSlots_ok {blockSize width : ℕ} (rows seqLens done slots : List ℤ)
    (hl : slots.length = seqLens.length)
    (hread : ∀ i (hi : i < seqLens.length), ∀ extra,
      readSlot blockSize width (rows ++ extra) (done.length + i) seqLens[i] = .ok (slots.get ⟨i, by omega⟩)) :
    writeSlots blockSize width done.length (rows.length + done.length) seqLens
      (rows ++ done ++ List.replicate seqLens.length (-1)) = .ok (rows ++ done ++ slots) := by
  induction seqLens generalizing done slots with
  | nil =>
    obtain rfl := List.length_eq_zero_iff.mp hl
    rfl
  | cons seqLen seqLens ih =>
    obtain ⟨slot, slots, rfl⟩ := List.exists_cons_of_length_eq_add_one hl
    have hslot : readSlot blockSize width
        (rows ++ done ++ List.replicate (seqLen :: seqLens).length (-1)) done.length seqLen =
          .ok slot := by
      rw [List.append_assoc]
      exact hread 0 (by simp) _
    have hset : (rows ++ done ++ List.replicate (seqLen :: seqLens).length (-1)).set
        (rows.length + done.length) slot =
          rows ++ (done ++ [slot]) ++ List.replicate seqLens.length (-1) := by
      rw [← List.length_append, List.set_append_right _ _ le_rfl, Nat.sub_self,
        List.length_cons, List.replicate_succ, List.set_cons_zero]
      simp
    have hnext := ih (done ++ [slot]) slots (by simpa using hl) (by
      intro i hi extra
      have := hread (i + 1) (by simpa using hi) extra
      simpa [Nat.add_assoc, Nat.add_comm 1 i] using this)
    rw [List.length_append, List.length_singleton, ← Nat.add_assoc] at hnext
    rw [writeSlots, hslot]
    change writeSlots _ _ _ _ _ _ = _
    rw [hset, hnext]
    simp

theorem batchBlockLists_ok {m : BlockManager} {metaC : BatchMetadata W}
    (hq : metaC.reqIds.length = metaC.numTokens) {lists : List (List ℕ)}
    (hl : List.Forall₂ (fun r t => m.blockTables.lookup r = some t) metaC.reqIds lists) :
    m.batchBlockLists metaC = .ok lists := by
  have hlen : metaC.numTokens = lists.length := hq.symm.trans hl.length_eq
  rw [batchBlockLists, hlen]
  apply mapM_range_ok
  intro i hi
  have hir : i < metaC.reqIds.length := by omega
  have hlook : m.blockTables.lookup metaC.reqIds[i] = some lists[i] := hl.get hir hi
  rw [List.getElem?_eq_getElem hir]
  simp only [hlook]

/-- Every position of a live request has a slot. -/
theorem exists_slotAt {m : BlockManager} {len : Lengths} (h : Tracks m len) (hb : 0 < m.blockSize)
    {r : ℤ} {n q : ℕ} (hn : len r = some n) (hq : q < n) : ∃ v, m.slotAt r q = some v := by
  obtain ⟨t, ht, hl⟩ := h.exists_table hn
  have hlt : q / m.blockSize < t.length := by
    rw [hl, Nat.ceilDiv_eq_add_pred_div, Nat.div_lt_iff_lt_mul hb]
    have := Nat.div_add_mod (n + m.blockSize - 1) m.blockSize
    have := Nat.mod_lt (n + m.blockSize - 1) hb
    rw [Nat.mul_comm]
    omega
  exact ⟨t[q / m.blockSize] * m.blockSize + q % m.blockSize, by simp [slotAt, ht, hlt]⟩

section Prepare

variable {m : BlockManager} {metaC : BatchMetadata W} {len : Lengths} {decodeSeqLens : List ℤ}

/-- The length of a live request. -/
def Recorded (len : Lengths) (r l : ℤ) : Prop := ∃ q, len r = some (q + 1) ∧ l = ((q + 1 : ℕ) : ℤ)

/-- The slot of the last position of a live request. -/
def LastSlot (m : BlockManager) (len : Lengths) (r slot : ℤ) : Prop :=
  ∃ q v, len r = some (q + 1) ∧ m.slotAt r q = some v ∧ slot = (v : ℤ)

/-- A live request has a table, and its last position has a slot there. -/
theorem Recorded.exists_last (h : Tracks m len) (hb : 0 < m.blockSize) {r l : ℤ}
    (hr : Recorded len r l) :
    (∃ t, m.blockTables.lookup r = some t) ∧ ∃ slot, LastSlot m len r slot := by
  obtain ⟨q, hq, -⟩ := hr
  obtain ⟨t, ht, -⟩ := h.exists_table hq
  obtain ⟨v, hv⟩ := exists_slotAt h hb hq (Nat.lt_succ_self q)
  exact ⟨⟨t, ht⟩, v, q, v, hq, hv, rfl⟩

/-- The row of a live request gives its last slot. -/
theorem LastSlot.readSlot_eq {width : ℕ} {lists : List (List ℕ)}
    (hw : ∀ l ∈ lists, l.length ≤ width) {i : ℕ} {r l slot : ℤ} {t : List ℕ}
    (hslot : LastSlot m len r slot) (hl : Recorded len r l)
    (ht : m.blockTables.lookup r = some t) (hi : lists[i]? = some t) (extra : List ℤ) :
    readSlot m.blockSize width (lists.flatMap (padRow width) ++ extra) i l = .ok slot := by
  obtain ⟨q, v, hq, hv, rfl⟩ := hslot
  obtain ⟨q', hq', rfl⟩ := hl
  obtain rfl : q = q' := by simpa using hq.symm.trans hq'
  simp only [slotAt, ht, Option.bind_eq_bind, Option.bind_some, Option.bind_eq_some_iff,
    Option.pure_def, Option.some_inj] at hv
  obtain ⟨b, hb, rfl⟩ := hv
  exact readSlot_row hw hi hb extra

/-- Both ways of preparing a batch pad the tables of its requests and read the slots off
the rows. -/
theorem prepare_lists (hq : metaC.reqIds.length = metaC.numTokens) {lists : List (List ℕ)}
    {slots : List ℤ} (hlists : List.Forall₂ (fun r t => m.blockTables.lookup r = some t) metaC.reqIds lists)
    (hdn : decodeSeqLens.length = metaC.numTokens) (hsn : slots.length = metaC.numTokens)
    (hread : ∀ width, (∀ l ∈ lists, l.length ≤ width) → ∀ i (hi : i < decodeSeqLens.length) extra,
      readSlot m.blockSize width (lists.flatMap (padRow width) ++ extra) i decodeSeqLens[i] =
        .ok (slots.get ⟨i, by omega⟩)) :
    let width := (lists.map List.length).foldl max 0
    (∀ t ∈ lists, t.length ≤ width) ∧
      m.prepareBlockTable metaC decodeSeqLens = .ok (lists.flatMap (padRow width) ++ slots) ∧
      m.prepareBlockTableGdr metaC decodeSeqLens = .ok (lists.flatMap (padRow width), slots, width) := by
  intro width
  have hok := batchBlockLists_ok hq hlists
  have hw : ∀ l ∈ lists, l.length ≤ width := fun l hl =>
    foldl_max_ge _ 0 (.inl (List.mem_map_of_mem hl))
  have hread := hread width hw
  have htable : (lists.flatMap (padRow width)).length = metaC.numTokens * width := by
    rw [length_flatMap_uniform (padRow width) width lists fun l hl => by simp [padRow, hw l hl],
      ← hlists.length_eq, hq]
  refine ⟨hw, ?_, ?_⟩
  · have hwrite := writeSlots_ok (lists.flatMap (padRow width)) decodeSeqLens [] slots (by omega)
      (by simpa using hread)
    simp only [List.length_nil, Nat.add_zero, List.append_nil, hdn, htable] at hwrite
    simp only [prepareBlockTable, hok, bind, Except.bind, hdn, le_refl, ↓reduceIte,
      List.take_of_length_le hdn.le]
    exact hwrite
  · have hmap := mapM_range_ok (f := fun i =>
      match decodeSeqLens[i]? with
      | none => Except.error (Fault.outOfRange "decode_seq_lens[i]")
      | some seqLen =>
        readSlot m.blockSize width (lists.flatMap (padRow width)) i seqLen) (l := slots) (by
        intro i hi
        rw [List.getElem?_eq_getElem (show i < decodeSeqLens.length by omega)]
        simpa using hread i (by omega) [])
    rw [hsn] at hmap
    simp only [prepareBlockTableGdr, hok, bind, Except.bind]
    rw [hmap]
    rfl

/-- Both ways of preparing live requests agree. -/
theorem prepare_rows (h : Tracks m len) (hb : 0 < m.blockSize)
    (hq : metaC.reqIds.length = metaC.numTokens)
    (hlens : List.Forall₂ (Recorded len) metaC.reqIds decodeSeqLens) :
    ∃ lists slots width, List.Forall₂ (fun r t => m.blockTables.lookup r = some t) metaC.reqIds lists ∧
      (∀ t ∈ lists, t.length ≤ width) ∧
      m.prepareBlockTable metaC decodeSeqLens = .ok (lists.flatMap (padRow width) ++ slots) ∧
      m.prepareBlockTableGdr metaC decodeSeqLens = .ok (lists.flatMap (padRow width), slots, width) ∧
      List.Forall₂ (LastSlot m len) metaC.reqIds slots := by
  have hlive : ∀ r ∈ metaC.reqIds, (∃ t, m.blockTables.lookup r = some t) ∧
      ∃ slot, LastSlot m len r slot := by
    intro r hr
    obtain ⟨i, hi, rfl⟩ := List.mem_iff_getElem.mp hr
    exact Recorded.exists_last h hb (hlens.get hi (hlens.length_eq ▸ hi))
  obtain ⟨lists, hlists⟩ := exists_forall₂ fun r hr => (hlive r hr).1
  obtain ⟨slots, hslots⟩ := exists_forall₂ fun r hr => (hlive r hr).2
  have hdn : decodeSeqLens.length = metaC.numTokens := hlens.length_eq.symm.trans hq
  have hsn : slots.length = metaC.numTokens := hslots.length_eq.symm.trans hq
  obtain ⟨hw, hplain, hgdr⟩ := prepare_lists hq hlists hdn hsn fun width hw i hi extra => by
    have hir : i < metaC.reqIds.length := by omega
    have hil : i < lists.length := hlists.length_eq ▸ hir
    exact (hslots.get hir (by omega)).readSlot_eq hw (hlens.get hir hi) (hlists.get hir hil)
      (List.getElem?_eq_getElem hil) extra
  exact ⟨lists, slots, _, hlists, hw, hplain, hgdr, hslots⟩

/-- What both ways of preparing a batch compute. -/
theorem prepare_ok (h : Tracks m len) (hb : 0 < m.blockSize)
    (hq : metaC.reqIds.length = metaC.numTokens)
    (hlens : List.Forall₂ (Recorded len) metaC.reqIds decodeSeqLens) :
    ∃ table slots width, m.prepareBlockTable metaC decodeSeqLens = .ok (table ++ slots) ∧
      m.prepareBlockTableGdr metaC decodeSeqLens = .ok (table, slots, width) ∧
      table.length = metaC.numTokens * width ∧
      List.Forall₂ (LastSlot m len) metaC.reqIds slots := by
  obtain ⟨lists, slots, width, hlists, hw, hplain, hgdr, hslots⟩ := prepare_rows h hb hq hlens
  refine ⟨_, slots, width, hplain, hgdr, ?_, hslots⟩
  rw [length_flatMap_uniform (padRow width) width lists fun l hl => by simp [padRow, hw l hl],
    ← hlists.length_eq, hq]

end Prepare

/-- A slot tells its request and position. -/
theorem slotAt_inj {m : BlockManager} {len : Lengths} (h : Tracks m len) (hb : 0 < m.blockSize)
    {r r' : ℤ} {q q' v : ℕ} (hv : m.slotAt r q = some v) (hv' : m.slotAt r' q' = some v) :
    r = r' ∧ q = q' := by
  simp only [slotAt, Option.bind_eq_bind, Option.bind_eq_some_iff, Option.pure_def,
    Option.some_inj] at hv hv'
  obtain ⟨t, ht, b, hbt, rfl⟩ := hv
  obtain ⟨t', ht', b', hbt', heq⟩ := hv'
  have hmod := Nat.mod_lt q hb
  have hmod' := Nat.mod_lt q' hb
  have hblock : b' = b := by
    have hdiv := congrArg (· / m.blockSize) heq
    simp only [Nat.mul_comm _ m.blockSize, Nat.mul_add_div hb, Nat.div_eq_of_lt hmod,
      Nat.div_eq_of_lt hmod', Nat.add_zero] at hdiv
    exact hdiv
  subst hblock
  have hrest : q' % m.blockSize = q % m.blockSize := by omega
  obtain ⟨hr, hqdiv⟩ := holder_unique (List.nodup_append.mp h.nodup).2.1 ht ht' hbt hbt'
  refine ⟨hr, ?_⟩
  rw [← Nat.div_add_mod q m.blockSize, ← Nat.div_add_mod q' m.blockSize, hqdiv, hrest]

end BlockManager

/-- Growing tables keep the slots they had. -/
theorem Grows.slotAt_eq {m m' : BlockManager} (h : Grows m m') {r : ℤ} {q v : ℕ}
    (hv : m.slotAt r q = some v) : m'.slotAt r q = some v := by
  simp only [BlockManager.slotAt, Option.bind_eq_bind, Option.bind_eq_some_iff, Option.pure_def,
    Option.some_inj] at hv ⊢
  obtain ⟨t, ht, b, hbt, rfl⟩ := hv
  obtain ⟨t', ht', hp⟩ := h.tables r t ht
  refine ⟨t', ht', b, ?_, by rw [h.blockSize]⟩
  rw [h.blockSize]
  obtain ⟨hlt, hbv⟩ := List.getElem?_eq_some_iff.mp hbt
  obtain ⟨extra, rfl⟩ := hp
  rw [List.getElem?_append_left hlt, hbt]

end StreamInfer.Kv
