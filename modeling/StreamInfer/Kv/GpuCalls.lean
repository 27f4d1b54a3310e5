import StreamInfer.Kv.GpuTables
import StreamInfer.Kv.CPUBlockManager

/-! Visits of the first layer by new requests only or by running requests only. The
loop over the new requests gives each its row and blocks. The increments are made one
component at a time, over all requests of the batch; as the requests are distinct this
is one growth after the other. -/

namespace StreamInfer.Kv

open General General.Stateful Batch BatchMetadata Lengths

/-! ### Free lists -/

theorem stopAt_natCast {length n : ℕ} (h : n ≤ length) : stopAt length n = n := by
  rw [stopAt, if_pos (Int.natCast_nonneg n), Int.toNat_natCast, Nat.min_eq_left h]

theorem tensorIndex_natCast {length n : ℕ} (h : n < length) : tensorIndex length n = some n := by
  rw [tensorIndex, if_pos (Int.natCast_nonneg n), if_pos (by omega), Int.toNat_natCast]

theorem TokenToKVPoolAllocator.alloc_ok {a : TokenToKVPoolAllocator} (hs : a.needSort = false) {n : ℕ}
    (hn : n ≤ a.freePages.length) :
    alloc n a = .ok (some (a.freePages.take n)) { a with freePages := a.freePages.drop n } := by
  have hroom : ¬ (a.freePages.length : ℤ) < n := by omega
  have hmerge : (modify fun a : TokenToKVPoolAllocator =>
      if a.needSort = true ∧ (a.freePages.length : ℤ) < n then a.mergeAndSortFree else a : AllocM PUnit)
        a = .ok ⟨⟩ a := by
    rw [modify_ok_iff, if_neg (by simp [hs])]
  rw [alloc, bind_of_ok hmerge, get_bind, if_neg hroom, stopAt_natCast hn]
  rfl

theorem ReqToTokenPool.alloc_ok {p : ReqToTokenPool} {n : ℕ} (hn : n ≤ p.freeSlots.length) :
    alloc n p = .ok (some (p.freeSlots.take n)) { p with freeSlots := p.freeSlots.drop n } := by
  rw [alloc, get_bind, if_neg (by omega)]
  rfl

theorem set_eq_modify {lines : List (List ℕ)} {i : ℕ} {line : List ℕ} (h : lines[i]? = some line)
    (f : List ℕ → List ℕ) : lines.set i (f line) = lines.modify i f := by
  apply List.ext_getElem?
  intro j
  obtain ⟨hi, -⟩ := List.getElem?_eq_some_iff.mp h
  by_cases hj : j = i
  · subst hj
    rw [List.getElem?_set_self hi, GPUBlockManager.getElem?_modify_self h]
  · rw [List.getElem?_set_ne (Ne.symm hj), GPUBlockManager.getElem?_modify_ne hj]

namespace GPUBlockManager

variable {W : Type} {g : GPUBlockManager} {rows pages : List ℕ} {fresh : Set ℤ}
  {tables : AList fun _ : ℤ => List ℕ} {r : ℤ} {row n : ℕ} {line : List ℕ}

theorem onPool_ok {α : Type} {x : ReqToTokenPool.PoolM α} {a : α} {p : ReqToTokenPool}
    (h : x g.reqToTokenPool = .ok a p) : onPool x g = .ok a { g with reqToTokenPool := p } :=
  onPart_ok_iff.mpr ⟨p, h, rfl⟩

theorem onAllocator_ok {α : Type} {x : TokenToKVPoolAllocator.AllocM α} {a : α}
    {t : TokenToKVPoolAllocator} (h : x g.tokenAllocator = .ok a t) :
    onAllocator x g = .ok a { g with tokenAllocator := t } :=
  onPart_ok_iff.mpr ⟨t, h, rfl⟩

/-- Some slots off the front of the free list. -/
def tookPages (g : GPUBlockManager) (n : ℕ) : GPUBlockManager :=
  { g with tokenAllocator := { g.tokenAllocator with
      freePages := g.tokenAllocator.freePages.drop n } }

theorem allocPages_ok (hs : g.tokenAllocator.needSort = false)
    (hn : n ≤ g.tokenAllocator.freePages.length) :
    onAllocator (TokenToKVPoolAllocator.alloc n) g =
      .ok (some (g.tokenAllocator.freePages.take n)) (g.tookPages n) :=
  onAllocator_ok (TokenToKVPoolAllocator.alloc_ok hs hn)

/-! ### New requests -/

theorem admitReq_ok (hs : g.tokenAllocator.needSort = false)
    (hn : n ≤ g.tokenAllocator.freePages.length)
    (hline : g.reqToTokenPool.reqToToken[row]? = some line) (hw : n ≤ line.length) :
    admitReq r row n g =
      .ok ⟨⟩ ((g.admitted r row (g.tokenAllocator.freePages.take n)).tookPages n) := by
  have htake : (g.tokenAllocator.freePages.take n).length = n := by
    rw [List.length_take, Nat.min_eq_left hn]
  have hwrite : ReqToTokenPool.write row n (g.tokenAllocator.freePages.take n) g.reqToTokenPool =
      .ok ⟨⟩ { g.reqToTokenPool with
        reqToToken := g.reqToTokenPool.reqToToken.modify row fun line =>
          g.tokenAllocator.freePages.take n ++
            line.drop (g.tokenAllocator.freePages.take n).length } := by
    rw [ReqToTokenPool.write, get_bind, bind_of_ok (readAt_ok_iff.mpr ⟨hline, rfl⟩),
      ensure_bind (by rw [htake, stopAt_natCast hw]), ← set_eq_modify hline]
    rfl
  have hindice : (modify fun g : GPUBlockManager =>
      { g with reqToIndice := g.reqToIndice.insert r row } : GpuM PUnit) g =
        .ok ⟨⟩ { g with reqToIndice := g.reqToIndice.insert r row } := rfl
  have hpages := allocPages_ok (g := { g with reqToIndice := g.reqToIndice.insert r row }) hs hn
  have hpool := onPool_ok
    (g := { g with reqToIndice := g.reqToIndice.insert r row }.tookPages n) hwrite
  rw [admitReq, bind_of_ok hindice, bind_of_ok hpages, bind_of_ok (valueOf_ok_iff.mpr ⟨rfl, rfl⟩),
    bind_of_ok hpool, admitted, htake]
  rfl

/-- The ids, rows and prompt lengths of new requests. -/
abbrev NewRows := List (ℤ × ℕ × ℕ)

/-- What the loop over new requests leaves as it was. -/
structure Admits (g g' : GPUBlockManager) (entries : NewRows) : Prop where
  allocator : g'.tokenAllocator =
    (g.tookPages (entries.map fun e => e.2.2).sum).tokenAllocator
  freeSlots : g'.reqToTokenPool.freeSlots = g.reqToTokenPool.freeSlots
  maxContextLen : g'.reqToTokenPool.maxContextLen = g.reqToTokenPool.maxContextLen
  other : ∀ q ∉ entries.map Prod.fst, g'.reqToIndice.lookup q = g.reqToIndice.lookup q
  own : ∀ e ∈ entries, g'.reqToIndice.lookup e.1 = some e.2.1

theorem Holds.admitAll {entries : NewRows}
    (h : Holds g (entries.map (fun e => e.2.1) ++ rows) g.tokenAllocator.freePages fresh tables)
    (hs : g.tokenAllocator.needSort = false) (hnew : ∀ e ∈ entries, e.1 ∉ tables)
    (hnd : (entries.map Prod.fst).Nodup)
    (hw : ∀ e ∈ entries, e.2.2 ≤ g.reqToTokenPool.maxContextLen)
    (hroom : (entries.map fun e => e.2.2).sum ≤ g.tokenAllocator.freePages.length) :
    ∃ g' tables', (forM entries fun e => admitReq e.1 e.2.1 e.2.2 : GpuM PUnit) g = .ok ⟨⟩ g' ∧
      Holds g' rows g'.tokenAllocator.freePages (fresh ∪ {q | q ∈ entries.map Prod.fst}) tables' ∧
      Admits g g' entries ∧ (∀ q ∉ entries.map Prod.fst, tables'.lookup q = tables.lookup q) ∧
      lengths tables' = (lengths tables).setAll (entries.map fun e => (e.1, e.2.2)) := by
  induction entries generalizing g fresh tables with
  | nil =>
    refine ⟨g, tables, rfl, h.mono Set.subset_union_left, ⟨rfl, rfl, rfl, fun _ _ => rfl, ?_⟩,
      fun _ _ => rfl, rfl⟩
    simp
  | cons e entries ih =>
    obtain ⟨r, row, n⟩ := e
    simp only [List.map_cons, List.sum_cons, List.cons_append, List.nodup_cons] at h hnd hroom
    have hn : n ≤ g.tokenAllocator.freePages.length := by omega
    have hlen : (g.tokenAllocator.freePages.take n).length = n := by
      rw [List.length_take, Nat.min_eq_left hn]
    have hrow := h.lt row List.mem_cons_self
    have hline := List.getElem?_eq_getElem hrow
    have hwn : n ≤ g.reqToTokenPool.maxContextLen := hw (r, row, n) List.mem_cons_self
    have hone := admitReq_ok (r := r) hs hn hline (by rw [h.width _ _ hline]; exact hwn)
    rw [← List.take_append_drop n g.tokenAllocator.freePages] at h
    have h₁ := (h.admitted (hnew _ List.mem_cons_self) (by rw [hlen]; exact hwn)).withFree
      g.reqToTokenPool.freeSlots
      (a := ((g.admitted r row (g.tokenAllocator.freePages.take n)).tookPages n).tokenAllocator) rfl
    have hnew₁ : ∀ e ∈ entries,
        e.1 ∉ tables.insert r (g.tokenAllocator.freePages.take n) := by
      intro e he hmem
      rcases (AList.mem_insert _).mp hmem with rfl | hmem
      · exact hnd.1 (List.mem_map_of_mem he)
      · exact hnew e (List.mem_cons_of_mem _ he) hmem
    have hroom₁ : (entries.map fun e => e.2.2).sum ≤
        (g.tokenAllocator.freePages.drop n).length := by
      rw [List.length_drop]
      omega
    obtain ⟨g', tables', hrest, h', hadm, hother, hlens⟩ := ih h₁ hs hnew₁ hnd.2
      (fun e he => hw e (List.mem_cons_of_mem _ he)) hroom₁
    refine ⟨g', tables', ?_, h'.mono ?_, ⟨?_, hadm.freeSlots, hadm.maxContextLen, ?_, ?_⟩, ?_, ?_⟩
    · rw [List.forM_cons, bind_of_ok hone]
      exact hrest
    · rintro q ((rfl | hq) | hq)
      · exact .inr (by simp)
      · exact .inl hq
      · exact .inr (List.mem_cons_of_mem _ hq)
    · rw [hadm.allocator]
      simp only [tookPages, List.map_cons, List.sum_cons, List.drop_drop]
      rfl
    · intro q hq
      rw [List.map_cons, List.mem_cons, not_or] at hq
      rw [hadm.other q hq.2]
      exact AList.lookup_insert_ne hq.1
    · intro e he
      rcases List.mem_cons.mp he with rfl | he
      · rw [hadm.other _ hnd.1]
        exact AList.lookup_insert _
      · exact hadm.own e he
    · intro q hq
      rw [List.map_cons, List.mem_cons, not_or] at hq
      rw [hother q hq.2, AList.lookup_insert_ne hq.1]
    · rw [hlens, lengths_insert, hlen]
      rfl

/-! ### One token more for every request -/

/-- A request with its row, its length and the slot of its next token. -/
structure Growth where
  reqId : ℤ
  row : ℕ
  len : ℕ
  page : ℕ

/-- The growths one after the other. -/
def growAll (g : GPUBlockManager) (growths : List Growth) : GPUBlockManager :=
  growths.foldl (fun g e => g.grown e.reqId e.row e.len e.page) g

/-- The growths one component after the other. -/
theorem growAll_eq (g : GPUBlockManager) (growths : List Growth) :
    g.growAll growths = { g with
      decodeSeqLens := growths.foldl (fun lens e => lens.insert e.reqId ((e.len + 1 : ℕ) : ℤ))
        g.decodeSeqLens
      reqSeqLens := growths.foldl (fun lens e => lens.set e.row ((e.len + 1 : ℕ) : ℤ)) g.reqSeqLens
      reqToTokenPool := { g.reqToTokenPool with
        reqToToken := growths.foldl (fun lines e => lines.modify e.row fun line =>
          line.set e.len e.page) g.reqToTokenPool.reqToToken } } := by
  induction growths generalizing g with
  | nil => rfl
  | cons e growths ih => exact ih (g.grown e.reqId e.row e.len e.page)

theorem forM_countOne {growths : List Growth} (hnd : (growths.map Growth.reqId).Nodup)
    (hlen : ∀ e ∈ growths, g.decodeSeqLens.lookup e.reqId = some (e.len : ℤ)) :
    (forM (growths.map Growth.reqId) countOne : GpuM PUnit) g = .ok ⟨⟩ { g with
      decodeSeqLens := growths.foldl (fun lens e => lens.insert e.reqId ((e.len + 1 : ℕ) : ℤ))
        g.decodeSeqLens } := by
  induction growths generalizing g with
  | nil => rfl
  | cons e growths ih =>
    obtain ⟨he, hnd⟩ := List.nodup_cons.mp hnd
    have hone : countOne e.reqId g = .ok ⟨⟩ { g with
        decodeSeqLens := g.decodeSeqLens.insert e.reqId ((e.len + 1 : ℕ) : ℤ) } := by
      rw [countOne, get_bind,
        bind_of_ok (valueOf_ok_iff.mpr ⟨hlen e List.mem_cons_self, rfl⟩)]
      rfl
    rw [List.map_cons, List.forM_cons, bind_of_ok hone]
    refine ih hnd fun e' he' => ?_
    have hne : e'.reqId ≠ e.reqId := fun heq => he (heq ▸ List.mem_map_of_mem he')
    exact (AList.lookup_insert_ne hne).trans (hlen e' (List.mem_cons_of_mem _ he'))

theorem forM_recordOne {growths : List Growth} (hlt : ∀ e ∈ growths, e.row < g.reqSeqLens.length) :
    (forM (growths.map fun e => (e.row, ((e.len + 1 : ℕ) : ℤ))) fun e => recordOne e.1 e.2 :
      GpuM PUnit) g = .ok ⟨⟩ { g with
        reqSeqLens := growths.foldl (fun lens e => lens.set e.row ((e.len + 1 : ℕ) : ℤ))
          g.reqSeqLens } := by
  induction growths generalizing g with
  | nil => rfl
  | cons e growths ih =>
    have hone : recordOne e.row ((e.len + 1 : ℕ) : ℤ) g = .ok ⟨⟩ { g with
        reqSeqLens := g.reqSeqLens.set e.row ((e.len + 1 : ℕ) : ℤ) } := by
      rw [recordOne, get_bind, bind_of_ok (readAt_ok_iff.mpr
        ⟨List.getElem?_eq_getElem (hlt e List.mem_cons_self), rfl⟩)]
      rfl
    rw [List.map_cons, List.forM_cons, bind_of_ok hone]
    refine ih fun e' he' => ?_
    rw [List.length_set]
    exact hlt e' (List.mem_cons_of_mem _ he')

theorem ReqToTokenPool.forM_writeOne {p : ReqToTokenPool} {growths : List Growth} {w : ℕ}
    (hw : ∀ (i : ℕ) (line : List ℕ), p.reqToToken[i]? = some line → line.length = w)
    (hlt : ∀ e ∈ growths, e.row < p.reqToToken.length ∧ e.len < w) :
    (forM (growths.map fun e => (e.row, (e.len : ℤ), e.page)) fun e =>
      ReqToTokenPool.writeOne e.1 e.2.1 e.2.2 : ReqToTokenPool.PoolM PUnit) p = .ok ⟨⟩ { p with
        reqToToken := growths.foldl (fun lines e => lines.modify e.row fun line =>
          line.set e.len e.page) p.reqToToken } := by
  induction growths generalizing p with
  | nil => rfl
  | cons e growths ih =>
    obtain ⟨hrow, hcol⟩ := hlt e List.mem_cons_self
    have hline := List.getElem?_eq_getElem hrow
    have hcol' : e.len < p.reqToToken[e.row].length := by rw [hw _ _ hline]; exact hcol
    have hone : ReqToTokenPool.writeOne e.row e.len e.page p = .ok ⟨⟩ { p with
        reqToToken := p.reqToToken.modify e.row fun line => line.set e.len e.page } := by
      rw [ReqToTokenPool.writeOne, get_bind, bind_of_ok (readAt_ok_iff.mpr ⟨hline, rfl⟩),
        bind_of_ok (valueOf_ok_iff.mpr ⟨tensorIndex_natCast hcol', rfl⟩),
        ← set_eq_modify hline fun line => line.set e.len e.page]
      rfl
    rw [List.map_cons, List.forM_cons, bind_of_ok hone]
    refine ih (width_modify hw fun line hline => by rw [List.length_set, hline]) fun e' he' => ?_
    rw [List.length_modify]
    exact hlt e' (List.mem_cons_of_mem _ he')

/-- Blocks are only added. -/
def TablesGrow (tables tables' : AList fun _ : ℤ => List ℕ) : Prop :=
  ∀ q t, tables.lookup q = some t → ∃ t', tables'.lookup q = some t' ∧ t <+: t'

theorem TablesGrow.trans {tables' tables'' : AList fun _ : ℤ => List ℕ}
    (h : TablesGrow tables tables') (h' : TablesGrow tables' tables'') :
    TablesGrow tables tables'' := by
  intro q t ht
  obtain ⟨t', ht', hp⟩ := h q t ht
  obtain ⟨t'', ht'', hp'⟩ := h' q t' ht'
  exact ⟨t'', ht'', hp.trans hp'⟩

theorem Holds.growAll {growths : List Growth}
    (h : Holds g rows (growths.map Growth.page ++ pages) fresh tables)
    (hnd : (growths.map Growth.reqId).Nodup)
    (hrow : ∀ e ∈ growths, g.reqToIndice.lookup e.reqId = some e.row)
    (hlen : ∀ e ∈ growths, lengths tables e.reqId = some e.len)
    (hw : ∀ e ∈ growths, e.len < g.reqToTokenPool.maxContextLen) :
    ∃ tables', Holds (g.growAll growths) rows pages (fresh \ {q | q ∈ growths.map Growth.reqId})
        tables' ∧ TablesGrow tables tables' ∧
      lengths tables' = (lengths tables).setAll (growths.map fun e => (e.reqId, e.len + 1)) := by
  induction growths generalizing g fresh tables with
  | nil =>
    refine ⟨tables, ?_, fun q t ht => ⟨t, ht, List.prefix_rfl⟩, rfl⟩
    show Holds g rows pages (fresh \ {q | q ∈ []}) tables
    simpa using h
  | cons e growths ih =>
    obtain ⟨he, hnd⟩ := List.nodup_cons.mp hnd
    obtain ⟨t, ht, hte⟩ := Option.map_eq_some_iff.mp (hlen e List.mem_cons_self)
    have h₁ := h.grown ht (hrow e List.mem_cons_self) (by rw [hte]; exact hw e List.mem_cons_self)
    rw [hte] at h₁
    have hlens₁ := lengths_insert tables e.reqId (t ++ [e.page])
    rw [List.length_append, List.length_singleton, hte] at hlens₁
    obtain ⟨tables', h', hgrow, hlens⟩ := ih h₁ hnd
      (fun e' he' => hrow e' (List.mem_cons_of_mem _ he'))
      (fun e' he' => by
        have hne : e'.reqId ≠ e.reqId := fun heq => he (heq ▸ List.mem_map_of_mem he')
        rw [hlens₁, Function.update_of_ne hne]
        exact hlen e' (List.mem_cons_of_mem _ he'))
      fun e' he' => hw e' (List.mem_cons_of_mem _ he')
    refine ⟨tables', h'.mono ?_, TablesGrow.trans (fun q t' ht' => ?_) hgrow, ?_⟩
    · rintro q ⟨⟨hq, hne⟩, hnot⟩
      refine ⟨hq, fun hmem => ?_⟩
      rcases List.mem_cons.mp hmem with rfl | hmem
      · exact hne rfl
      · exact hnot hmem
    · by_cases hq : q = e.reqId
      · subst hq
        obtain rfl : t = t' := Option.some.inj (ht.symm.trans ht')
        exact ⟨_, AList.lookup_insert _, List.prefix_append _ _⟩
      · exact ⟨t', (AList.lookup_insert_ne hq).trans ht', List.prefix_rfl⟩
    · rw [hlens, hlens₁]
      rfl

end GPUBlockManager

end StreamInfer.Kv
