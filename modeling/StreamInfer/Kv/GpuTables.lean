import StreamInfer.Kv.GPUBlockManager
import StreamInfer.Kv.Lengths

/-! The rows of the device tables against the blocks that live requests hold. A live
request has a row of its own, which starts with its blocks; the unused pages and the
held blocks share out the slots. A new request takes an unused row, a further token
goes to the first column behind the blocks, and a release gives row and blocks back. -/

namespace StreamInfer.Kv

open General General.Stateful Batch Lengths

namespace GPUBlockManager

/-- The row of a request that holds the listed blocks. -/
structure Row (g : GPUBlockManager) (fresh : Set ℤ) (r : ℤ) (blocks : List ℕ) (row : ℕ) : Prop where
  indice : g.reqToIndice.lookup r = some row
  line : ∃ line, g.reqToTokenPool.reqToToken[row]? = some line ∧ blocks <+: line
  seqLen : r ∉ fresh → g.reqSeqLens[row]? = some (blocks.length : ℤ)

/-- The live requests hold the blocks of `tables`; the listed rows and pages are
unused, and the device does not have the lengths of the `fresh` requests yet. -/
structure Holds (g : GPUBlockManager) (rows pages : List ℕ) (fresh : Set ℤ)
    (tables : AList fun _ : ℤ => List ℕ) : Prop where
  recorded : ∀ r, g.decodeSeqLens.lookup r = (tables.lookup r).map fun t => (t.length : ℤ)
  partition : (pages ++ holdings tables).Perm (List.range' 1 g.tokenAllocator.size)
  nodup : rows.Nodup
  lt : ∀ row ∈ rows, row < g.reqToTokenPool.reqToToken.length
  width : ∀ (i : ℕ) (line : List ℕ), g.reqToTokenPool.reqToToken[i]? = some line →
    line.length = g.reqToTokenPool.maxContextLen
  lens : g.reqSeqLens.length = g.reqToTokenPool.reqToToken.length
  live : ∀ r t, tables.lookup r = some t → ∃ row, Row g fresh r t row ∧ row ∉ rows
  inj : ∀ r ∈ tables, ∀ r' ∈ tables, g.reqToIndice.lookup r = g.reqToIndice.lookup r' → r = r'

variable {g : GPUBlockManager} {rows pages : List ℕ} {fresh : Set ℤ}
  {tables : AList fun _ : ℤ => List ℕ} {r : ℤ} {row : ℕ} {t blocks : List ℕ} {page : ℕ}

namespace Holds

theorem mono (h : Holds g rows pages fresh tables) {fresh' : Set ℤ} (hf : fresh ⊆ fresh') :
    Holds g rows pages fresh' tables where
  __ := h
  live r t ht := by
    obtain ⟨row, hrow, hnot⟩ := h.live r t ht
    exact ⟨row, ⟨hrow.indice, hrow.line, fun hr => hrow.seqLen fun hmem => hr (hf hmem)⟩, hnot⟩

/-- The free lists themselves are not part of what is held. -/
theorem withFree (h : Holds g rows pages fresh tables) (slots : List ℕ)
    {a : TokenToKVPoolAllocator} (ha : a.size = g.tokenAllocator.size) :
    Holds { g with
      reqToTokenPool := { g.reqToTokenPool with freeSlots := slots }
      tokenAllocator := a } rows pages fresh tables where
  recorded := h.recorded
  partition := by rw [ha]; exact h.partition
  nodup := h.nodup
  lt := h.lt
  width := h.width
  lens := h.lens
  live r t ht := by
    obtain ⟨row, hrow, hnot⟩ := h.live r t ht
    exact ⟨row, ⟨hrow.indice, hrow.line, hrow.seqLen⟩, hnot⟩
  inj := h.inj

theorem mem_iff (h : Holds g rows pages fresh tables) : r ∈ g.decodeSeqLens ↔ r ∈ tables := by
  rw [← AList.lookup_isSome, ← AList.lookup_isSome, h.recorded, Option.isSome_map]

theorem row_unique (h : Holds g rows pages fresh tables) {r' : ℤ} {row' : ℕ} (hr : r ∈ tables)
    (hr' : r' ∈ tables) (hrow : g.reqToIndice.lookup r = some row)
    (hrow' : g.reqToIndice.lookup r' = some row') (hne : r' ≠ r) : row' ≠ row := by
  rintro rfl
  exact hne (h.inj r' hr' r hr (hrow'.trans hrow.symm))

theorem pages_nodup (h : Holds g rows pages fresh tables) : (pages ++ holdings tables).Nodup :=
  h.partition.nodup_iff.mpr List.nodup_range'

end Holds

theorem mem_of_lookup (ht : tables.lookup r = some t) : r ∈ tables :=
  AList.lookup_isSome.mp (by rw [ht]; rfl)

theorem getElem?_modify_ne {lines : List (List ℕ)} {f : List ℕ → List ℕ} {i j : ℕ} (h : j ≠ i) :
    (lines.modify i f)[j]? = lines[j]? := by
  rw [List.getElem?_modify]
  cases lines[j]? <;> simp [h.symm]

theorem getElem?_modify_self {lines : List (List ℕ)} {f : List ℕ → List ℕ} {i : ℕ} {line : List ℕ}
    (h : lines[i]? = some line) : (lines.modify i f)[i]? = some (f line) := by
  rw [List.getElem?_modify, h]
  simp

/-- Lines keep their width when one of them is changed within it. -/
theorem width_modify {lines : List (List ℕ)} {f : List ℕ → List ℕ} {i n : ℕ}
    (hw : ∀ (j : ℕ) (line : List ℕ), lines[j]? = some line → line.length = n)
    (hf : ∀ line : List ℕ, line.length = n → (f line).length = n) (j : ℕ) (line : List ℕ)
    (hj : (lines.modify i f)[j]? = some line) : line.length = n := by
  rw [List.getElem?_modify] at hj
  obtain ⟨old, hold, rfl⟩ := Option.map_eq_some_iff.mp hj
  have hlen := hw j old hold
  show (if i = j then f old else old).length = n
  split_ifs
  · exact hf old hlen
  · exact hlen

/-! ### A new request -/

/-- Row and blocks of a new request. -/
def admitted (g : GPUBlockManager) (r : ℤ) (row : ℕ) (blocks : List ℕ) : GPUBlockManager :=
  { g with
    reqToIndice := g.reqToIndice.insert r row
    decodeSeqLens := g.decodeSeqLens.insert r (blocks.length : ℤ)
    reqToTokenPool := { g.reqToTokenPool with
      reqToToken := g.reqToTokenPool.reqToToken.modify row
        fun line => blocks ++ line.drop blocks.length } }

theorem Holds.admitted (h : Holds g (row :: rows) (blocks ++ pages) fresh tables) (hr : r ∉ tables)
    (hn : blocks.length ≤ g.reqToTokenPool.maxContextLen) :
    Holds (g.admitted r row blocks) rows pages (insert r fresh) (tables.insert r blocks) := by
  obtain ⟨hrow, hnodup⟩ := List.nodup_cons.mp h.nodup
  have hlive : ∀ q t, (tables.insert r blocks).lookup q = some t → q ≠ r →
      ∃ row', Row g fresh q t row' ∧ row' ∉ row :: rows := by
    intro q t ht hq
    rw [AList.lookup_insert_ne hq] at ht
    exact h.live q t ht
  have hother : ∀ q ∈ tables.insert r blocks, q ≠ r →
      q ∈ tables ∧ ∃ row', g.reqToIndice.lookup q = some row' ∧ row' ≠ row := by
    intro q hq hne
    have hmem := ((AList.mem_insert _).mp hq).resolve_left hne
    obtain ⟨t, ht⟩ := Option.isSome_iff_exists.mp (AList.lookup_isSome.mpr hmem)
    obtain ⟨row', hrow', hnot⟩ := h.live q t ht
    exact ⟨hmem, row', hrow'.indice, fun he => hnot (he ▸ List.mem_cons_self)⟩
  constructor
  · intro q
    by_cases hq : q = r
    · subst hq
      simp [GPUBlockManager.admitted]
    · rw [AList.lookup_insert_ne hq, ← h.recorded q]
      exact AList.lookup_insert_ne hq
  · refine List.Perm.trans ?_ h.partition
    rw [holdings_insert_of_notMem hr, List.append_assoc]
    exact List.perm_append_comm_assoc _ _ _
  · exact hnodup
  · intro row' hrow'
    show row' < (g.reqToTokenPool.reqToToken.modify row _).length
    rw [List.length_modify]
    exact h.lt row' (List.mem_cons_of_mem _ hrow')
  · refine width_modify (n := g.reqToTokenPool.maxContextLen) h.width fun line hline => ?_
    rw [List.length_append, List.length_drop, hline]
    omega
  · show g.reqSeqLens.length = (g.reqToTokenPool.reqToToken.modify row _).length
    rw [List.length_modify, h.lens]
  · intro q t ht
    by_cases hq : q = r
    · subst hq
      rw [AList.lookup_insert, Option.some_inj] at ht
      subst ht
      have hlt := h.lt row List.mem_cons_self
      refine ⟨row, ⟨AList.lookup_insert _, ⟨_, getElem?_modify_self
        (List.getElem?_eq_getElem hlt), List.prefix_append _ _⟩, fun hf => ?_⟩, hrow⟩
      exact absurd (Set.mem_insert q fresh) hf
    · obtain ⟨row', hrow', hnot⟩ := hlive q t ht hq
      obtain ⟨line, hline, hpre⟩ := hrow'.line
      have hne : row' ≠ row := fun he => hnot (he ▸ List.mem_cons_self)
      refine ⟨row', ⟨?_, ⟨line, ?_, hpre⟩, fun hf => hrow'.seqLen fun hmem =>
        hf (Set.mem_insert_of_mem _ hmem)⟩, fun hmem => hnot (List.mem_cons_of_mem _ hmem)⟩
      · exact (AList.lookup_insert_ne hq).trans hrow'.indice
      · exact (getElem?_modify_ne hne).trans hline
  · intro q hq q' hq' heq
    change (g.reqToIndice.insert r row).lookup q = (g.reqToIndice.insert r row).lookup q' at heq
    by_cases hqr : q = r <;> by_cases hqr' : q' = r
    · rw [hqr, hqr']
    · obtain ⟨-, row', hrow', hne⟩ := hother q' hq' hqr'
      rw [hqr, AList.lookup_insert, AList.lookup_insert_ne hqr', hrow', Option.some_inj] at heq
      exact absurd heq.symm hne
    · obtain ⟨-, row', hrow', hne⟩ := hother q hq hqr
      rw [hqr', AList.lookup_insert, AList.lookup_insert_ne hqr, hrow', Option.some_inj] at heq
      exact absurd heq hne
    · rw [AList.lookup_insert_ne hqr, AList.lookup_insert_ne hqr'] at heq
      exact h.inj q (hother q hq hqr).1 q' (hother q' hq' hqr').1 heq

/-! ### One token more -/

/-- One block more for a request of length `n`. -/
def grown (g : GPUBlockManager) (r : ℤ) (row n page : ℕ) : GPUBlockManager :=
  { g with
    decodeSeqLens := g.decodeSeqLens.insert r ((n + 1 : ℕ) : ℤ)
    reqSeqLens := g.reqSeqLens.set row ((n + 1 : ℕ) : ℤ)
    reqToTokenPool := { g.reqToTokenPool with
      reqToToken := g.reqToTokenPool.reqToToken.modify row fun line => line.set n page } }

theorem prefix_set {line : List ℕ} (h : t <+: line) (hlt : t.length < line.length) (page : ℕ) :
    t ++ [page] <+: line.set t.length page := by
  obtain ⟨rest, rfl⟩ := h
  cases rest with
  | nil => simp at hlt
  | cons old rest =>
    rw [List.set_append_right _ _ le_rfl, Nat.sub_self, List.set_cons_zero]
    exact ⟨rest, by simp⟩

theorem Holds.grown (h : Holds g rows (page :: pages) fresh tables) (ht : tables.lookup r = some t)
    (hrow : g.reqToIndice.lookup r = some row) (hn : t.length < g.reqToTokenPool.maxContextLen) :
    Holds (g.grown r row t.length page) rows pages (fresh \ {r}) (tables.insert r (t ++ [page])) := by
  have hr := mem_of_lookup ht
  have hmem : ∀ q, q ∈ tables.insert r (t ++ [page]) ↔ q ∈ tables := by
    intro q
    rw [AList.mem_insert]
    exact ⟨fun hq => hq.elim (fun he => he ▸ hr) id, .inr⟩
  constructor
  · intro q
    by_cases hq : q = r
    · subst hq
      simp [GPUBlockManager.grown]
    · rw [AList.lookup_insert_ne hq, ← h.recorded q]
      exact AList.lookup_insert_ne hq
  · refine List.Perm.trans ?_ h.partition
    refine List.Perm.trans ?_ (List.Perm.append_left _ (holdings_perm ht).symm)
    rw [holdings_insert]
    have hmiddle : (pages ++ t ++ page :: holdings (tables.erase r)).Perm
        (page :: (pages ++ t ++ holdings (tables.erase r))) := List.perm_middle
    simpa only [List.append_assoc, List.cons_append, List.nil_append] using hmiddle
  · exact h.nodup
  · intro row' hrow'
    show row' < (g.reqToTokenPool.reqToToken.modify row _).length
    rw [List.length_modify]
    exact h.lt row' hrow'
  · exact width_modify h.width fun line hline => by rw [List.length_set, hline]
  · show (g.reqSeqLens.set row _).length = (g.reqToTokenPool.reqToToken.modify row _).length
    rw [List.length_set, List.length_modify, h.lens]
  · intro q t' ht'
    by_cases hq : q = r
    · subst hq
      rw [AList.lookup_insert, Option.some_inj] at ht'
      subst ht'
      obtain ⟨row', hrow', hnot⟩ := h.live q t ht
      obtain rfl : row' = row := Option.some.inj (hrow'.indice.symm.trans hrow)
      obtain ⟨line, hline, hpre⟩ := hrow'.line
      have hlt : t.length < line.length := by rw [h.width row' line hline]; exact hn
      obtain ⟨hrowlt, -⟩ := List.getElem?_eq_some_iff.mp hline
      refine ⟨row', ⟨hrow, ⟨_, getElem?_modify_self hline, prefix_set hpre hlt page⟩, fun _ => ?_⟩,
        hnot⟩
      rw [List.length_append, List.length_singleton]
      exact List.getElem?_set_self (h.lens ▸ hrowlt)
    · rw [AList.lookup_insert_ne hq] at ht'
      obtain ⟨row', hrow', hnot⟩ := h.live q t' ht'
      obtain ⟨line, hline, hpre⟩ := hrow'.line
      have hne := h.row_unique hr (mem_of_lookup ht') hrow hrow'.indice hq
      refine ⟨row', ⟨hrow'.indice, ⟨line, (getElem?_modify_ne hne).trans hline, hpre⟩, fun hf => ?_⟩,
        hnot⟩
      have hfresh : q ∉ fresh := fun hmem => hf ⟨hmem, hq⟩
      exact (List.getElem?_set_ne hne.symm).trans (hrow'.seqLen hfresh)
  · exact fun q hq q' hq' => h.inj q ((hmem q).mp hq) q' ((hmem q').mp hq')

/-! ### A release -/

def forgotten (g : GPUBlockManager) (r : ℤ) : GPUBlockManager :=
  { g with decodeSeqLens := g.decodeSeqLens.erase r }

theorem Holds.forgotten (h : Holds g rows pages fresh tables) (ht : tables.lookup r = some t)
    (hrow : g.reqToIndice.lookup r = some row) :
    Holds (g.forgotten r) (rows ++ [row]) (pages ++ t) fresh (tables.erase r) := by
  have hr := mem_of_lookup ht
  obtain ⟨row', hrow', hnot⟩ := h.live r t ht
  obtain rfl : row' = row := Option.some.inj (hrow'.indice.symm.trans hrow)
  constructor
  · intro q
    by_cases hq : q = r
    · subst hq
      simp [GPUBlockManager.forgotten]
    · rw [AList.lookup_erase_ne hq, ← h.recorded q]
      exact AList.lookup_erase_ne hq
  · refine List.Perm.trans ?_ h.partition
    rw [List.append_assoc]
    exact List.Perm.append_left _ (holdings_perm ht).symm
  · rw [List.nodup_append]
    refine ⟨h.nodup, List.nodup_singleton _, fun a ha b hb hab => ?_⟩
    rw [List.mem_singleton.mp hb] at hab
    exact hnot (hab ▸ ha)
  · intro row hmem
    rcases List.mem_append.mp hmem with hmem | hmem
    · exact h.lt row hmem
    · obtain ⟨line, hline, -⟩ := hrow'.line
      rw [List.mem_singleton.mp hmem]
      exact (List.getElem?_eq_some_iff.mp hline).1
  · exact h.width
  · exact h.lens
  · intro q t' ht'
    have hq : q ≠ r := by
      rintro rfl
      simp at ht'
    rw [AList.lookup_erase_ne hq] at ht'
    obtain ⟨row, hq', hnot'⟩ := h.live q t' ht'
    refine ⟨row, ⟨hq'.indice, hq'.line, hq'.seqLen⟩, fun hmem => ?_⟩
    rcases List.mem_append.mp hmem with hmem | hmem
    · exact hnot' hmem
    · exact h.row_unique hr (mem_of_lookup ht') hrow hq'.indice hq (List.mem_singleton.mp hmem)
  · exact fun q hq q' hq' => h.inj q (AList.mem_erase.mp hq).2 q' (AList.mem_erase.mp hq').2

/-! ### Between calls -/

/-- The lengths of the live requests. -/
def lengths (tables : AList fun _ : ℤ => List ℕ) : Lengths := fun r =>
  (tables.lookup r).map List.length

/-- Between two calls the live requests hold the blocks of `tables`, and the rest is
free. -/
structure Represents (g : GPUBlockManager) (tables : AList fun _ : ℤ => List ℕ) : Prop where
  holds : Holds g g.reqToTokenPool.freeSlots g.tokenAllocator.freePages ∅ tables
  positive : ∀ r n, lengths tables r = some n → 1 ≤ n
  needSort : g.tokenAllocator.needSort = false
  isNotInFreeGroup : g.tokenAllocator.isNotInFreeGroup = true

theorem represents_new (numGpuBlocks maxRunningReqs maxSeqLen : ℕ) {reqSeqLens : List ℤ}
    (h : reqSeqLens.length = maxRunningReqs) :
    Represents (new numGpuBlocks maxRunningReqs maxSeqLen reqSeqLens) ∅ := by
  refine ⟨⟨fun r => rfl, ?_, List.nodup_range, ?_, ?_, ?_, fun r t ht => ?_, fun r hr => ?_⟩,
    fun r n hn => ?_, rfl, rfl⟩
  · simp [new, TokenToKVPoolAllocator.new]
  · simp [new, ReqToTokenPool.new]
  · intro i line hline
    have hmem : line ∈ List.replicate maxRunningReqs (List.replicate maxSeqLen 0) :=
      List.mem_of_getElem? hline
    rw [List.eq_of_mem_replicate hmem, List.length_replicate]
    rfl
  · simp [new, ReqToTokenPool.new, h]
  · simp at ht
  · exact absurd hr (AList.notMem_empty r)
  · simp [lengths] at hn

/-- The blocks of a request, read from its row. -/
def blocksOf (g : GPUBlockManager) (r : ℤ) : Option (List ℕ) := do
  let seqLen ← g.decodeSeqLens.lookup r
  let row ← g.reqToIndice.lookup r
  let line ← g.reqToTokenPool.reqToToken[row]?
  return line.take seqLen.toNat

theorem Holds.blocksOf_eq (h : Holds g rows pages fresh tables) : g.blocksOf r = tables.lookup r := by
  unfold blocksOf
  cases ht : tables.lookup r with
  | none => simp [h.recorded, ht]
  | some t =>
    obtain ⟨row, hrow, -⟩ := h.live r t ht
    obtain ⟨line, hline, hpre⟩ := hrow.line
    simp [h.recorded, ht, hrow.indice, hline, List.prefix_iff_eq_take.mp hpre |>.symm]

theorem Holds.lookup_decodeSeqLens (h : Holds g rows pages fresh tables) :
    g.decodeSeqLens.lookup r = (lengths tables r).map fun n : ℕ => (n : ℤ) := by
  rw [h.recorded, lengths, Option.map_map]
  rfl

theorem lengths_insert (tables : AList fun _ : ℤ => List ℕ) (r : ℤ) (t : List ℕ) :
    lengths (tables.insert r t) = Function.update (lengths tables) r (some t.length) := by
  funext q
  by_cases hq : q = r
  · subst hq
    simp [lengths]
  · rw [Function.update_of_ne hq, lengths, lengths, AList.lookup_insert_ne hq]

end GPUBlockManager

end StreamInfer.Kv
