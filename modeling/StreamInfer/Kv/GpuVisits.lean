import StreamInfer.Kv.GpuCalls

/-! Calls of `update_block_table`. A visit of the first layer whose requests are all
new or all running lists rows and lengths in one order, so every request gets its
prompt's slots and the slot of its token in its own row. Later layers read the rows
and lengths of the live requests. -/

namespace StreamInfer.Kv

open General General.Stateful Batch BatchMetadata Lengths

namespace GPUBlockManager

variable {W : Type}

/-- A visit of the first layer. -/
abbrev FirstLayer (metaC : BatchMetadata W) (k : ℕ) : Prop := CPUBlockManager.VisitsLayer 0 metaC k

/-- The recorded lengths of the live requests. -/
def recordedLens (g : GPUBlockManager) : Lengths := fun r =>
  (g.decodeSeqLens.lookup r).map Int.toNat

/-- The prompts of the new requests of a visit. -/
def promptSlots (metaC : BatchMetadata W) (k : ℕ) : ℕ :=
  ((CPUBlockManager.newRequests metaC k).map Prod.snd).sum

/-- The first `k` requests are new, the others live, and rows, slots and columns
suffice. -/
structure Servable (g : GPUBlockManager) (metaC : BatchMetadata W) (k : ℕ) : Prop where
  new : ∀ r ∈ metaC.reqIds.take k, r ∉ g.decodeSeqLens
  running : ∀ r ∈ metaC.reqIds.drop k, r ∈ g.decodeSeqLens
  rows : k ≤ g.reqToTokenPool.freeSlots.length
  pages : promptSlots metaC k + metaC.numTokens ≤ g.tokenAllocator.freePages.length
  columns : ∀ p ∈ CPUBlockManager.visited g.recordedLens metaC k,
    p.2 < g.reqToTokenPool.maxContextLen

/-- Rows and lengths that a call lists are those of the batch's requests. -/
structure Scheduled (g : GPUBlockManager) (reqIds : List ℤ) (batch : ScheduledLens) : Prop where
  rows : reqIds.map g.reqToIndice.lookup = batch.reqIndices.map some
  lens : batch.seqLens = reqIds.map g.decodeSeqLens.lookup
  tensor : batch.seqLens = batch.seqLensTensor.map some

theorem Holds.recordedLens_eq {g : GPUBlockManager} {rows pages : List ℕ} {fresh : Set ℤ}
    {tables : AList fun _ : ℤ => List ℕ} (h : Holds g rows pages fresh tables) :
    g.recordedLens = lengths tables := by
  funext r
  rw [recordedLens, h.recorded, lengths, Option.map_map]
  rfl

/-! ### The requests of a visit -/

/-- The new requests with the rows they get. -/
def newRows (metaC : BatchMetadata W) (k : ℕ) (slots : List ℕ) : NewRows :=
  ((CPUBlockManager.newRequests metaC k).zip slots).map fun p => (p.1.1, p.2, p.1.2)

/-- The requests of a visit with rows, lengths and the slots of their tokens. -/
def growths (rowOf len : ℤ → ℕ) (reqIds : List ℤ) (pages : List ℕ) : List Growth :=
  (reqIds.zip pages).map fun p => ⟨p.1, rowOf p.1, len p.1, p.2⟩

section Growths

variable {rowOf len : ℤ → ℕ} {reqIds : List ℤ} {pages : List ℕ}

theorem mem_growths {e : Growth} (he : e ∈ growths rowOf len reqIds pages) :
    e.reqId ∈ reqIds ∧ e.row = rowOf e.reqId ∧ e.len = len e.reqId := by
  obtain ⟨p, hp, rfl⟩ := List.mem_map.mp he
  exact ⟨(List.of_mem_zip hp).1, rfl, rfl⟩

theorem map_growths {α : Type} (f : ℤ → ℕ → ℕ → α) (h : reqIds.length = pages.length) :
    (growths rowOf len reqIds pages).map (fun e => f e.reqId e.row e.len) =
      reqIds.map fun r => f r (rowOf r) (len r) := by
  conv_rhs => rw [← List.map_fst_zip h.le]
  rw [growths, List.map_map, List.map_map]
  rfl

theorem map_page_growths (h : reqIds.length = pages.length) :
    (growths rowOf len reqIds pages).map Growth.page = pages := by
  conv_rhs => rw [← List.map_snd_zip h.ge]
  rw [growths, List.map_map]
  rfl

end Growths

section NewRows

variable {metaC : BatchMetadata W} {k : ℕ}

theorem FirstLayer.map_fst_newRequests (hb : FirstLayer metaC k) :
    (CPUBlockManager.newRequests metaC k).map Prod.fst = metaC.reqIds.take k := by
  have hle : (metaC.reqIds.take k).length ≤
      ((metaC.initPrefillLens.take k).map Int.toNat).length := by
    simp [hb.reqIds, hb.lens]
  rw [CPUBlockManager.newRequests, List.map_fst_zip hle]

theorem FirstLayer.nodup_newRequests (hb : FirstLayer metaC k) :
    ((CPUBlockManager.newRequests metaC k).map Prod.fst).Nodup := by
  rw [hb.map_fst_newRequests]
  exact hb.nodup.sublist (List.take_sublist _ _)

variable {slots : List ℕ} (hl : slots.length = k)

include hl

theorem FirstLayer.map_newRows (hb : FirstLayer metaC k) {α : Type} (f : ℤ × ℕ → α) :
    (newRows metaC k slots).map (fun e => f (e.1, e.2.2)) =
      (CPUBlockManager.newRequests metaC k).map f := by
  have hle : (CPUBlockManager.newRequests metaC k).length ≤ slots.length := by
    rw [hb.length_newRequests, hl]
  conv_rhs => rw [← List.map_fst_zip hle]
  rw [newRows, List.map_map, List.map_map]
  rfl

theorem FirstLayer.map_row_newRows (hb : FirstLayer metaC k) :
    (newRows metaC k slots).map (fun e => e.2.1) = slots := by
  have hle : slots.length ≤ (CPUBlockManager.newRequests metaC k).length := by
    rw [hb.length_newRequests, hl]
  conv_rhs => rw [← List.map_snd_zip hle]
  rw [newRows, List.map_map]
  rfl

theorem FirstLayer.map_fst_newRows (hb : FirstLayer metaC k) :
    (newRows metaC k slots).map Prod.fst = metaC.reqIds.take k :=
  (hb.map_newRows hl Prod.fst).trans hb.map_fst_newRequests

/-- The loop over the new requests. -/
theorem FirstLayer.forM_admitReq (hb : FirstLayer metaC k) :
    (forM (List.range (metaC.reqIds.take k).length) fun i => do
      let reqId ← readAt "init_req_ids[i]" (metaC.reqIds.take k) i
      let reqIndice ← readAt "new_req_indices[i]" slots i
      let initPrefillLen ← readAt "batch.init_prefill_lens[i]" metaC.initPrefillLens i
      admitReq reqId reqIndice initPrefillLen : GpuM PUnit) =
      forM (newRows metaC k slots) fun e => admitReq e.1 e.2.1 e.2.2 := by
  have hlen : (newRows metaC k slots).length = k := by
    have hmap := congrArg List.length (hb.map_row_newRows hl)
    rwa [List.length_map, hl] at hmap
  have hk := hb.le
  have hq := hb.reqIds
  have hp := hb.lens
  have htake : (metaC.reqIds.take k).length = (newRows metaC k slots).length := by
    rw [hlen, List.length_take, hq, Nat.min_eq_left hk]
  rw [htake]
  apply forM_range
  intro i hi
  have hik : i < k := by rwa [hlen] at hi
  have hpos : 1 ≤ metaC.initPrefillLens[i] := by
    apply hb.prompt
    rw [List.mem_take_iff_getElem]
    exact ⟨i, by omega, rfl⟩
  have hentry : (newRows metaC k slots)[i] =
      (metaC.reqIds[i], slots[i], metaC.initPrefillLens[i].toNat) := by
    simp [newRows, CPUBlockManager.newRequests]
  rw [readAt_eq (by rw [List.length_take]; omega), readAt_eq (by omega), readAt_eq (by omega), hentry]
  simp only [pure_bind, List.getElem_take, Int.toNat_of_nonneg (show 0 ≤ metaC.initPrefillLens[i] by omega)]

end NewRows

/-! ### One token more for a batch -/

section GrowBatch

variable {g : GPUBlockManager} {rows pages : List ℕ} {fresh : Set ℤ}
  {tables : AList fun _ : ℤ => List ℕ} {reqIds : List ℤ} {batchReqIndices : List ℕ}

theorem lensOf_ok (h : Holds g rows pages fresh tables) {grows : List Growth}
    (hlen : ∀ e ∈ grows, lengths tables e.reqId = some e.len) :
    lensOf (grows.map Growth.reqId) g = .ok (grows.map fun e => (e.len : ℤ)) g := by
  rw [lensOf, get_bind, mapM_valueOf_ok_iff, List.map_map, List.map_map]
  refine ⟨List.map_congr_left fun e he => ?_, rfl⟩
  rw [Function.comp_apply, h.lookup_decodeSeqLens, hlen e he]
  rfl

/-- With the requests' own rows the call is one growth after the other. -/
theorem Holds.growBatch_eq (h : Holds g rows g.tokenAllocator.freePages fresh tables)
    (hs : g.tokenAllocator.needSort = false) {grows : List Growth}
    (hpages : grows.map Growth.page = g.tokenAllocator.freePages.take grows.length)
    (hnd : (grows.map Growth.reqId).Nodup)
    (hlen : ∀ e ∈ grows, lengths tables e.reqId = some e.len)
    (hrow : ∀ e ∈ grows, e.row < g.reqToTokenPool.reqToToken.length)
    (hw : ∀ e ∈ grows, e.len < g.reqToTokenPool.maxContextLen) :
    growBatch (grows.map Growth.reqId) (grows.map Growth.row) grows.length g =
      .ok ⟨grows.map fun e => some ((e.len : ℤ) + 1), grows.map fun e => (e.len : ℤ) + 1,
        grows.map Growth.row⟩ ((g.growAll grows).tookPages grows.length) := by
  have hn : grows.length ≤ g.tokenAllocator.freePages.length := by
    have hl := congrArg List.length hpages
    rw [List.length_map, List.length_take] at hl
    omega
  have hcount := forM_countOne hnd fun e he => by
    rw [h.lookup_decodeSeqLens, hlen e he]
    rfl
  have hfields := growAll_eq g grows
  set g₁ : GPUBlockManager := { g with
    decodeSeqLens := grows.foldl (fun lens e => lens.insert e.reqId ((e.len + 1 : ℕ) : ℤ))
      g.decodeSeqLens } with hg₁
  have halloc := allocPages_ok (g := g₁) hs hn
  have hwrite : ReqToTokenPool.writeLoc (grows.map Growth.row) (grows.map fun e => (e.len : ℤ))
      (grows.map Growth.page) g.reqToTokenPool = .ok ⟨⟩ (g.growAll grows).reqToTokenPool := by
    rw [ReqToTokenPool.writeLoc, ensure_bind (by simp), List.zip_map', List.zip_map', hfields]
    exact ReqToTokenPool.forM_writeOne h.width fun e he => ⟨hrow e he, hw e he⟩
  rw [hpages] at hwrite
  have hpool := onPool_ok (g := g₁.tookPages grows.length) hwrite
  have hrecord := forM_recordOne (g := { g₁.tookPages grows.length with
    reqToTokenPool := (g.growAll grows).reqToTokenPool }) (fun e he => h.lens ▸ hrow e he)
  have hzip : (grows.map Growth.row).zip ((grows.map fun e => (e.len : ℤ)).map (· + 1)) =
      grows.map fun e => (e.row, ((e.len + 1 : ℕ) : ℤ)) := by
    rw [List.map_map, List.zip_map']
    rfl
  rw [growBatch, bind_of_ok (lensOf_ok h hlen), bind_of_ok hcount, bind_of_ok halloc,
    bind_of_ok (valueOf_ok_iff.mpr ⟨rfl, rfl⟩), bind_of_ok hpool, hzip, bind_of_ok hrecord,
    List.map_map, List.map_map, hfields]
  rfl

/-- The batch's requests with their rows and lengths and the next free slots. -/
theorem Holds.exists_growths (h : Holds g rows pages fresh tables)
    (hrows : reqIds.map g.reqToIndice.lookup = batchReqIndices.map some)
    (hlive : ∀ r ∈ reqIds, r ∈ tables) (next : List ℕ) (hnext : reqIds.length = next.length) :
    ∃ grows : List Growth, grows.length = reqIds.length ∧ grows.map Growth.reqId = reqIds ∧
      grows.map Growth.row = batchReqIndices ∧ grows.map Growth.page = next ∧
      (grows.map fun e => (e.reqId, e.len)) = reqIds.map (fun r => (r, (lengths tables r).getD 0)) ∧
      ∀ e ∈ grows, lengths tables e.reqId = some e.len ∧ g.reqToIndice.lookup e.reqId = some e.row ∧
        e.row < g.reqToTokenPool.reqToToken.length := by
  set len : ℤ → ℕ := fun r => (lengths tables r).getD 0 with hlendef
  set rowOf : ℤ → ℕ := fun r => (g.reqToIndice.lookup r).getD 0 with hrowdef
  have hown : ∀ r ∈ reqIds, lengths tables r = some (len r) ∧
      g.reqToIndice.lookup r = some (rowOf r) ∧ rowOf r < g.reqToTokenPool.reqToToken.length := by
    intro r hr
    obtain ⟨t, ht⟩ := Option.isSome_iff_exists.mp (AList.lookup_isSome.mpr (hlive r hr))
    obtain ⟨row, hrow, -⟩ := h.live r t ht
    obtain ⟨line, hline, -⟩ := hrow.line
    have hr : rowOf r = row := by rw [hrowdef]; simp [hrow.indice]
    refine ⟨by simp [hlendef, lengths, ht], by rw [hr, hrow.indice], ?_⟩
    rw [hr]
    exact (List.getElem?_eq_some_iff.mp hline).1
  have hbatch : reqIds.map rowOf = batchReqIndices := by
    apply List.map_injective_iff.mpr (Option.some_injective ℕ)
    rw [← hrows, List.map_map]
    exact (List.map_congr_left fun r hr => (hown r hr).2.1).symm
  have hids : (growths rowOf len reqIds next).map Growth.reqId = reqIds :=
    (map_growths (fun r _ _ => r) hnext).trans (List.map_id' _)
  refine ⟨growths rowOf len reqIds next, ?_, hids,
    (map_growths (fun _ row _ => row) hnext).trans hbatch, map_page_growths hnext,
    map_growths (fun r _ n => (r, n)) hnext, fun e he => ?_⟩
  · rw [← hids, List.length_map, hids]
  · obtain ⟨hr, hrow, hn⟩ := mem_growths he
    rw [hrow, hn]
    exact hown _ hr

/-- One slot more for every request of a batch with the requests' own rows. -/
theorem Holds.growBatch (h : Holds g rows g.tokenAllocator.freePages fresh tables)
    (hs : g.tokenAllocator.needSort = false) (hnd : reqIds.Nodup)
    (hrows : reqIds.map g.reqToIndice.lookup = batchReqIndices.map some)
    (hlive : ∀ r ∈ reqIds, r ∈ tables)
    (hn : reqIds.length ≤ g.tokenAllocator.freePages.length)
    (hw : ∀ r ∈ reqIds, (lengths tables r).getD 0 < g.reqToTokenPool.maxContextLen) :
    ∃ batch g' tables', growBatch reqIds batchReqIndices reqIds.length g = .ok batch g' ∧
      Holds g' rows g'.tokenAllocator.freePages (fresh \ {q | q ∈ reqIds}) tables' ∧
      TablesGrow tables tables' ∧ Scheduled g' reqIds batch ∧
      lengths tables' = (lengths tables).setAll
        (reqIds.map fun r => (r, (lengths tables r).getD 0 + 1)) ∧
      g'.tokenAllocator = (g.tookPages reqIds.length).tokenAllocator ∧
      g'.reqToTokenPool.freeSlots = g.reqToTokenPool.freeSlots := by
  obtain ⟨grows, hlength, hids, hrow, hpage, hlen, hown⟩ := h.exists_growths hrows hlive
    (g.tokenAllocator.freePages.take reqIds.length) (by rw [List.length_take, Nat.min_eq_left hn])
  have hcol : ∀ e ∈ grows, e.len < g.reqToTokenPool.maxContextLen := by
    intro e he
    have hlt := hw e.reqId (hids ▸ List.mem_map_of_mem he)
    rwa [(hown e he).1, Option.getD_some] at hlt
  have hok := h.growBatch_eq hs (hlength ▸ hpage) (hids.symm ▸ hnd) (fun e he => (hown e he).1)
    (fun e he => (hown e he).2.2) hcol
  rw [hids, hrow, hlength] at hok
  have hsplit : g.tokenAllocator.freePages = grows.map Growth.page ++
      g.tokenAllocator.freePages.drop reqIds.length := by
    rw [hpage, List.take_append_drop]
  rw [hsplit] at h
  obtain ⟨tables', h', hgrow, hlens⟩ := h.growAll (hids.symm ▸ hnd) (fun e he => (hown e he).2.1)
    (fun e he => (hown e he).1) hcol
  have hfields := growAll_eq g grows
  have hafter : (grows.map fun e => (e.reqId, e.len + 1)) =
      reqIds.map fun r => (r, (lengths tables r).getD 0 + 1) := by
    have hmap := congrArg (List.map fun p : ℤ × ℕ => (p.1, p.2 + 1)) hlen
    simpa only [List.map_map, Function.comp_def] using hmap
  rw [hids] at h'
  rw [hafter] at hlens
  have halloc : (g.growAll grows).tokenAllocator = g.tokenAllocator := by rw [hfields]
  have hindice : (g.growAll grows).reqToIndice = g.reqToIndice := by rw [hfields]
  have hfree : Holds ((g.growAll grows).tookPages reqIds.length) rows
      (g.tokenAllocator.freePages.drop reqIds.length) (fresh \ {q | q ∈ reqIds}) tables' :=
    h'.withFree (g.growAll grows).reqToTokenPool.freeSlots rfl
  have hlook : ∀ e ∈ grows, ((g.growAll grows).tookPages reqIds.length).decodeSeqLens.lookup
      e.reqId = some ((e.len : ℤ) + 1) := by
    intro e he
    have hkeys : ((grows.map fun e => (e.reqId, e.len + 1)).map Prod.fst).Nodup := by
      rw [List.map_map]
      exact hids.symm ▸ hnd
    rw [hfree.lookup_decodeSeqLens, hlens, ← hafter,
      setAll_of_mem _ hkeys (p := (e.reqId, e.len + 1)) (List.mem_map_of_mem he)]
    rfl
  refine ⟨_, (g.growAll grows).tookPages reqIds.length, tables', hok, ?_, hgrow, ⟨?_, ?_, ?_⟩,
    hlens, ?_, ?_⟩
  · show Holds _ rows ((g.growAll grows).tokenAllocator.freePages.drop reqIds.length) _ _
    rw [halloc]
    exact hfree
  · show reqIds.map (g.growAll grows).reqToIndice.lookup = _
    rw [hindice, hrows]
  · show (grows.map fun e => some ((e.len : ℤ) + 1)) = _
    rw [← List.map_congr_left hlook]
    have hmap := congrArg (List.map fun r =>
      ((g.growAll grows).tookPages reqIds.length).decodeSeqLens.lookup r) hids
    rwa [List.map_map] at hmap
  · rw [List.map_map]
    rfl
  · show ((g.growAll grows).tookPages reqIds.length).tokenAllocator = _
    rw [tookPages, halloc]
    rfl
  · show (g.growAll grows).reqToTokenPool.freeSlots = _
    rw [hfields]

end GrowBatch

/-! ### The first layer -/

section FirstLayer

variable {g : GPUBlockManager} {tables : AList fun _ : ℤ => List ℕ} {metaC : BatchMetadata W}
  {k : ℕ}

/-- The rows that the loop over the new requests hands out. -/
def tookRows (g : GPUBlockManager) (k : ℕ) : GPUBlockManager :=
  { g with reqToTokenPool := { g.reqToTokenPool with
      freeSlots := g.reqToTokenPool.freeSlots.drop k } }

theorem Servable.prompt_lt (hs : Servable g metaC k) (hb : FirstLayer metaC k) {p : ℤ × ℕ}
    (hp : p ∈ CPUBlockManager.newRequests metaC k) : p.2 < g.reqToTokenPool.maxContextLen := by
  have hmem : p.1 ∈ metaC.reqIds := by
    have htake : p.1 ∈ metaC.reqIds.take k := hb.map_fst_newRequests ▸ List.mem_map_of_mem hp
    exact List.mem_of_mem_take htake
  have hlen := setAll_of_mem g.recordedLens hb.nodup_newRequests hp
  refine hs.columns p (List.mem_map.mpr ⟨p.1, hmem, ?_⟩)
  rw [hlen]
  rfl

theorem exists_rows {rows pages : List ℕ} {fresh : Set ℤ} (h : Holds g rows pages fresh tables)
    (reqIds : List ℤ) (hlive : ∀ r ∈ reqIds, r ∈ tables) :
    ∃ indices : List ℕ, reqIds.map g.reqToIndice.lookup = indices.map some := by
  refine ⟨reqIds.map fun r => (g.reqToIndice.lookup r).getD 0, ?_⟩
  rw [List.map_map]
  apply List.map_congr_left
  intro r hr
  obtain ⟨t, ht⟩ := Option.isSome_iff_exists.mp (AList.lookup_isSome.mpr (hlive r hr))
  obtain ⟨row, hrow, -⟩ := h.live r t ht
  simp [hrow.indice]

/-- Running rows then new rows is the order of the batch when one kind is missing. -/
theorem map_append_of_unmixed {α β : Type} {as : List α} {f : α → Option β} {new running : List β}
    (hu : k = 0 ∨ k = as.length) (hnew : (as.take k).map f = new.map some)
    (hrunning : (as.drop k).map f = running.map some) :
    as.map f = (running ++ new).map some := by
  rcases hu with rfl | rfl
  · have hnil : new = [] := List.map_eq_nil_iff.mp hnew.symm
    rw [hnil, List.append_nil, ← hrunning, List.drop_zero]
  · rw [List.drop_length] at hrunning
    have hnil : running = [] := List.map_eq_nil_iff.mp hrunning.symm
    rw [hnil, List.nil_append, ← hnew, List.take_length]

/-- The loop over the new requests gives them rows and their prompts' slots. -/
theorem Represents.admitNew (h : Represents g tables) (hb : FirstLayer metaC k)
    (hs : Servable g metaC k) :
    ∃ g₁ tables₁,
      (forM (newRows metaC k (g.reqToTokenPool.freeSlots.take k)) fun e => admitReq e.1 e.2.1 e.2.2 :
        GpuM PUnit) (g.tookRows k) = .ok ⟨⟩ g₁ ∧
      Holds g₁ (g.reqToTokenPool.freeSlots.drop k) g₁.tokenAllocator.freePages
        {q | q ∈ metaC.reqIds.take k} tables₁ ∧
      lengths tables₁ = (lengths tables).setAll (CPUBlockManager.newRequests metaC k) ∧
      TablesGrow tables tables₁ ∧ (∀ r ∈ metaC.reqIds, r ∈ tables₁) ∧
      (metaC.reqIds.take k).map g₁.reqToIndice.lookup =
        (g.reqToTokenPool.freeSlots.take k).map some ∧
      g₁.tokenAllocator = (g.tookPages (promptSlots metaC k)).tokenAllocator ∧
      g₁.reqToTokenPool.freeSlots = g.reqToTokenPool.freeSlots.drop k ∧
      g₁.reqToTokenPool.maxContextLen = g.reqToTokenPool.maxContextLen := by
  set slots := g.reqToTokenPool.freeSlots.take k with hslots
  have hl : slots.length = k := by rw [hslots, List.length_take, Nat.min_eq_left hs.rows]
  have h₀ : Holds (g.tookRows k) ((newRows metaC k slots).map (fun e => e.2.1) ++
      g.reqToTokenPool.freeSlots.drop k) (g.tookRows k).tokenAllocator.freePages ∅ tables := by
    rw [hb.map_row_newRows hl, List.take_append_drop]
    exact h.holds.withFree _ rfl
  have hnew : ∀ e ∈ newRows metaC k slots, e.1 ∉ tables := by
    intro e he hmem
    refine hs.new e.1 ?_ (h.holds.mem_iff.mpr hmem)
    rw [← hb.map_fst_newRows hl]
    exact List.mem_map_of_mem he
  have hprompt : ∀ e ∈ newRows metaC k slots,
      e.2.2 ≤ (g.tookRows k).reqToTokenPool.maxContextLen := by
    intro e he
    have hmem : (e.1, e.2.2) ∈ CPUBlockManager.newRequests metaC k := by
      rw [← List.map_id (CPUBlockManager.newRequests metaC k), ← hb.map_newRows hl id]
      exact List.mem_map_of_mem he
    exact (hs.prompt_lt hb hmem).le
  have hsum : ((newRows metaC k slots).map fun e => e.2.2).sum = promptSlots metaC k :=
    congrArg List.sum (hb.map_newRows hl Prod.snd)
  obtain ⟨g₁, tables₁, hloop, h₁, hadm, hother, hlens₁⟩ := h₀.admitAll h.needSort hnew
    (by rw [hb.map_fst_newRows hl, ← hb.map_fst_newRequests]; exact hb.nodup_newRequests) hprompt
    (by rw [hsum]; exact (Nat.le_add_right _ _).trans hs.pages)
  rw [hb.map_fst_newRows hl, Set.empty_union] at h₁
  rw [hb.map_fst_newRows hl] at hother
  rw [show ((newRows metaC k slots).map fun e => (e.1, e.2.2)) = CPUBlockManager.newRequests metaC k
    from (hb.map_newRows hl id).trans (List.map_id _)] at hlens₁
  have hold : ∀ q ∈ tables, tables₁.lookup q = tables.lookup q := fun q hq =>
    hother q fun htake => hs.new q htake (h.holds.mem_iff.mpr hq)
  refine ⟨g₁, tables₁, hloop, h₁, hlens₁, ?_, ?_, ?_, ?_, hadm.freeSlots, hadm.maxContextLen⟩
  · intro q t ht
    exact ⟨t, (hold q (mem_of_lookup ht)).trans ht, List.prefix_rfl⟩
  · intro r hr
    rw [← List.take_append_drop k metaC.reqIds, List.mem_append] at hr
    rcases hr with hr | hr
    · rw [← hb.map_fst_newRequests] at hr
      obtain ⟨p, hp, rfl⟩ := List.mem_map.mp hr
      have hlen := setAll_of_mem (lengths tables) hb.nodup_newRequests hp
      rw [← hlens₁] at hlen
      obtain ⟨t, ht, -⟩ := Option.map_eq_some_iff.mp hlen
      exact mem_of_lookup ht
    · have hmem := h.holds.mem_iff.mp (hs.running r hr)
      rw [← AList.lookup_isSome, hold r hmem, AList.lookup_isSome]
      exact hmem
  · rw [← hb.map_fst_newRows hl]
    conv_rhs => rw [← hb.map_row_newRows hl]
    rw [List.map_map, List.map_map]
    exact List.map_congr_left hadm.own
  · rw [hadm.allocator, hsum]
    rfl

/-- A visit of the first layer by new requests only or by running requests only. -/
theorem Represents.firstLayer (h : Represents g tables) (hb : FirstLayer metaC k)
    (hs : Servable g metaC k) (hu : k = 0 ∨ k = metaC.numTokens) :
    ∃ batch g' tables', updateBlockTable metaC g = .ok batch g' ∧ Represents g' tables' ∧
      TablesGrow tables tables' ∧ Scheduled g' metaC.reqIds batch ∧
      lengths tables' = CPUBlockManager.afterVisit (lengths tables) metaC k := by
  have hl : (g.reqToTokenPool.freeSlots.take k).length = k := by
    rw [List.length_take, Nat.min_eq_left hs.rows]
  obtain ⟨g₁, tables₁, hloop, h₁, hlens₁, hgrow₁, hlive₁, hrowsNew, halloc, hfree, hwidth⟩ :=
    h.admitNew hb hs
  obtain ⟨running, hrunning⟩ := exists_rows h₁ (metaC.reqIds.drop k) fun r hr =>
    hlive₁ r (List.mem_of_mem_drop hr)
  have hrows := map_append_of_unmixed (by rwa [hb.reqIds]) hrowsNew hrunning
  have hrowsOf : rowsOf (metaC.reqIds.drop k) g₁ = .ok running g₁ := by
    rw [rowsOf, get_bind, mapM_valueOf_ok_iff]
    exact ⟨hrunning, rfl⟩
  have hvisit : CPUBlockManager.visited (lengths tables) metaC k =
      metaC.reqIds.map fun r => (r, (lengths tables₁ r).getD 0) := by
    rw [hlens₁]
    rfl
  obtain ⟨batch, g', tables', hok, h', hgrow, hsched, hlens, halloc', hfree'⟩ :=
    h₁.growBatch (by rw [halloc]; exact h.needSort) hb.nodup hrows hlive₁ (by
      have hpages := hs.pages
      rw [halloc, hb.reqIds]
      show _ ≤ (g.tokenAllocator.freePages.drop _).length
      rw [List.length_drop]
      omega) (fun r hr => by
      have hcol := hs.columns (r, (lengths tables₁ r).getD 0) (by
        rw [h.holds.recordedLens_eq, hvisit]
        exact List.mem_map_of_mem hr)
      rwa [hwidth])
  have hafter : lengths tables' = CPUBlockManager.afterVisit (lengths tables) metaC k := by
    rw [hlens, CPUBlockManager.afterVisit, hvisit, CPUBlockManager.grown, List.map_map, hlens₁]
    rfl
  have hpool : onPool (ReqToTokenPool.alloc k) g =
      .ok (some (g.reqToTokenPool.freeSlots.take k)) (g.tookRows k) :=
    onPool_ok (ReqToTokenPool.alloc_ok hs.rows)
  have htotal : metaC.numTokens - k + k = metaC.reqIds.length := by
    rw [Nat.sub_add_cancel hb.le, hb.reqIds]
  have hadmit := hb.forM_admitReq hl
  refine ⟨batch, g', tables', ?_, ⟨?_, ?_, ?_, ?_⟩, hgrow₁.trans hgrow, hsched, hafter⟩
  · simp only [updateBlockTable, hb.seqs, Option.getD_some]
    rw [bind_of_ok (valueOf_ok_iff.mpr ⟨hb.decodes, rfl⟩),
      bind_of_ok (valueOf_ok_iff.mpr ⟨hb.tokens, rfl⟩), if_pos hb.layer,
      bind_of_ok (valueOf_ok_iff.mpr ⟨rfl, rfl⟩), bind_of_ok hpool,
      bind_of_ok (valueOf_ok_iff.mpr ⟨rfl, rfl⟩), hadmit, bind_of_ok hloop, bind_of_ok hrowsOf, htotal]
    exact hok
  · rw [hfree', hfree]
    refine h'.mono fun q hq => ?_
    exact absurd (List.mem_of_mem_take hq.1) hq.2
  · intro r n hn
    rw [hafter] at hn
    refine setAll_forall (fun q m hm => ?_) (fun p hp => ?_) hn
    · exact setAll_forall h.positive hb.one_le_newRequests hm
    · obtain ⟨p', -, rfl⟩ := List.mem_map.mp hp
      exact Nat.le_add_left _ _
  · rw [halloc', tookPages, halloc]
    exact h.needSort
  · rw [halloc', tookPages, halloc]
    exact h.isNotInFreeGroup

end FirstLayer

end GPUBlockManager

end StreamInfer.Kv
