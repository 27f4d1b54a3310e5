import StreamInfer.Kv.GpuPacking

/-! Releases on the device manager. The rows are those of the live ids; the loop pairs
them with all the ids in order. When the live ids come first and without repetition,
each pair is a live request with its own row, and the group that is freed at the end is
the blocks of the released requests. -/

namespace StreamInfer.Kv

open General General.Stateful Batch BatchMetadata Lengths

namespace TokenToKVPoolAllocator

variable {a : TokenToKVPoolAllocator}

theorem free_eq (hs : a.needSort = false) (hg : a.isNotInFreeGroup = true) (freeIndex : List ℕ) :
    a.free freeIndex = { a with freePages := a.freePages ++ freeIndex } := by
  unfold free
  cases freeIndex with
  | nil => simp
  | cons page freeIndex => simp [hs, hg]

theorem freeGroupEnd_eq (hs : a.needSort = false) :
    a.freeGroupEnd = { a with
      isNotInFreeGroup := true
      freePages := a.freePages ++ a.freeGroup.flatten } := by
  have hfree := free_eq (a := { a with isNotInFreeGroup := true }) hs rfl a.freeGroup.flatten
  unfold freeGroupEnd
  cases hgroup : a.freeGroup with
  | nil => simp
  | cons pages group =>
    rw [hgroup] at hfree
    simpa [hgroup] using hfree

end TokenToKVPoolAllocator

namespace GPUBlockManager

variable {g : GPUBlockManager} {rows pages : List ℕ} {fresh : Set ℤ}
  {tables : AList fun _ : ℤ => List ℕ} {reqIds : List ℤ}

/-- The live ones of the listed requests. -/
def liveOf (g : GPUBlockManager) (reqIds : List ℤ) : List ℤ :=
  reqIds.filter fun reqId => reqId ∈ g.decodeSeqLens

/-- The live requests come first, each once. -/
structure LiveFirst (g : GPUBlockManager) (reqIds : List ℤ) : Prop where
  first : g.liveOf reqIds <+: reqIds
  nodup : (g.liveOf reqIds).Nodup

/-- One release inside a group. -/
def pended (g : GPUBlockManager) (r : ℤ) (blocks : List ℕ) : GPUBlockManager :=
  { g with
    tokenAllocator := { g.tokenAllocator with
      freeGroup := g.tokenAllocator.freeGroup ++ [blocks] }
    decodeSeqLens := g.decodeSeqLens.erase r }

theorem releaseOne_ok {r : ℤ} {blocks line : List ℕ} {row : ℕ}
    (hg : g.tokenAllocator.isNotInFreeGroup = false)
    (hlen : g.decodeSeqLens.lookup r = some (blocks.length : ℤ))
    (hline : g.reqToTokenPool.reqToToken[row]? = some line) (hpre : blocks <+: line)
    (hne : blocks ≠ []) : releaseOne r row g = .ok ⟨⟩ (g.pended r blocks) := by
  have htake : line.take (stopAt line.length (blocks.length : ℤ)) = blocks := by
    rw [stopAt_natCast hpre.length_le, ← List.prefix_iff_eq_take.mp hpre]
  have hfree : g.tokenAllocator.free blocks = { g.tokenAllocator with
      freeGroup := g.tokenAllocator.freeGroup ++ [blocks] } := by
    rw [TokenToKVPoolAllocator.free, if_neg (by simpa using hne), if_neg (by simp [hg])]
  rw [releaseOne, get_bind, bind_of_ok (valueOf_ok_iff.mpr ⟨hlen, rfl⟩),
    bind_of_ok (readAt_ok_iff.mpr ⟨hline, rfl⟩), htake, hfree]
  rfl

/-- The loop over live requests with their own rows. -/
theorem Holds.releaseAll (h : Holds g rows pages fresh tables) (blocksOf : ℤ → List ℕ)
    (entries : List (ℤ × ℕ)) (hg : g.tokenAllocator.isNotInFreeGroup = false)
    (hnd : (entries.map Prod.fst).Nodup)
    (hown : ∀ e ∈ entries, tables.lookup e.1 = some (blocksOf e.1) ∧ blocksOf e.1 ≠ [] ∧
      g.reqToIndice.lookup e.1 = some e.2) :
    ∃ g' tables', (forM entries fun e => releaseOne e.1 e.2 : GpuM PUnit) g = .ok ⟨⟩ g' ∧
      Holds g' (rows ++ entries.map Prod.snd) (pages ++ entries.flatMap fun e => blocksOf e.1) fresh
        tables' ∧
      (∀ q, tables'.lookup q = if q ∈ entries.map Prod.fst then none else tables.lookup q) ∧
      g'.reqToTokenPool = g.reqToTokenPool ∧
      g'.tokenAllocator = { g.tokenAllocator with
        freeGroup := g.tokenAllocator.freeGroup ++ entries.map fun e => blocksOf e.1 } := by
  induction entries generalizing g rows pages tables with
  | nil =>
    refine ⟨g, tables, rfl, ?_, fun q => by simp, rfl, ?_⟩
    · simpa using h
    · rw [List.map_nil, List.append_nil]
  | cons e entries ih =>
    obtain ⟨r, row⟩ := e
    obtain ⟨hr, hrest⟩ := List.nodup_cons.mp hnd
    obtain ⟨ht, hne, hrow⟩ := hown (r, row) List.mem_cons_self
    obtain ⟨row', hheld, -⟩ := h.live r _ ht
    obtain rfl : row' = row := Option.some.inj (hheld.indice.symm.trans hrow)
    obtain ⟨line, hline, hpre⟩ := hheld.line
    have hone := releaseOne_ok hg (by rw [h.recorded, ht]; rfl) hline hpre hne
    have h₁ : Holds (g.pended r (blocksOf r)) (rows ++ [row']) (pages ++ blocksOf r) fresh
        (tables.erase r) := (h.forgotten ht hrow).withFree g.reqToTokenPool.freeSlots rfl
    obtain ⟨g', tables', hloop, h', hlook, hpool, halloc⟩ := ih h₁ hg hrest fun e he => by
      obtain ⟨ht', hne', hrow'⟩ := hown e (List.mem_cons_of_mem _ he)
      have hq : e.1 ≠ r := by
        rintro rfl
        have hmem : e.1 ∈ entries.map Prod.fst := List.mem_map_of_mem he
        exact hr hmem
      exact ⟨(AList.lookup_erase_ne hq).trans ht', hne', hrow'⟩
    refine ⟨g', tables', ?_, ?_, fun q => ?_, hpool, ?_⟩
    · rw [List.forM_cons, bind_of_ok hone]
      exact hloop
    · simpa only [List.map_cons, List.flatMap_cons, List.append_assoc, List.cons_append,
        List.nil_append] using h'
    · rw [hlook q, List.map_cons]
      by_cases hq : q = r
      · subst hq
        simp
      · simp only [List.mem_cons, hq, false_or]
        rw [AList.lookup_erase_ne hq]
    · rw [halloc]
      simp only [pended, List.map_cons, List.append_assoc, List.cons_append, List.nil_append]

/-- A release whose live ids come first gives back exactly the blocks of these
requests and keeps everything else. -/
theorem Represents.releaseSeqs (h : Represents g tables) (ho : LiveFirst g reqIds) :
    ∃ g' tables', releaseSeqs reqIds g = .ok ⟨⟩ g' ∧ Represents g' tables' ∧
      lengths tables' = (lengths tables).clearAll reqIds ∧
      g'.tokenAllocator.freePages = g.tokenAllocator.freePages ++
        (g.liveOf reqIds).flatMap (fun r => (tables.lookup r).getD []) ∧
      ∀ q ∉ reqIds, tables'.lookup q = tables.lookup q := by
  have hlive : ∀ r ∈ g.liveOf reqIds, r ∈ tables := fun r hr =>
    h.holds.mem_iff.mp (of_decide_eq_true (List.mem_filter.mp hr).2)
  obtain ⟨blocksOf, rowOf, lineOf, hown⟩ := h.exists_batch hlive
  have hrows : rowsOf (g.liveOf reqIds) g = .ok ((g.liveOf reqIds).map rowOf) g := by
    rw [rowsOf, get_bind, mapM_valueOf_ok_iff, List.map_map]
    exact ⟨List.map_congr_left fun r hr => (hown r hr).2.indice, rfl⟩
  have hzip : reqIds.zip ((g.liveOf reqIds).map rowOf) =
      (g.liveOf reqIds).map fun r => (r, rowOf r) := by
    obtain ⟨rest, hrest⟩ := ho.first
    have happend : (g.liveOf reqIds ++ rest).zip ((g.liveOf reqIds).map rowOf ++ []) =
        (g.liveOf reqIds).zip ((g.liveOf reqIds).map rowOf) ++ rest.zip [] :=
      List.zip_append (List.length_map _).symm
    rw [hrest, List.append_nil, List.zip_nil_right, List.append_nil] at happend
    rw [happend]
    conv_lhs => rw [← List.map_id (g.liveOf reqIds)]
    rw [List.map_map, List.zip_map']
    rfl
  set g₁ : GPUBlockManager := { g with
    reqToTokenPool := g.reqToTokenPool.free ((g.liveOf reqIds).map rowOf)
    tokenAllocator := g.tokenAllocator.freeGroupBegin } with hg₁
  have h₁ : Holds g₁ g.reqToTokenPool.freeSlots g.tokenAllocator.freePages ∅ tables :=
    h.holds.withFree _ rfl
  obtain ⟨g₂, tables', hloop, h₂, hlook, hpool, halloc⟩ := h₁.releaseAll blocksOf
    ((g.liveOf reqIds).map fun r => (r, rowOf r)) rfl
    (by rw [List.map_map]; exact (List.map_id _).symm ▸ ho.nodup) fun e he => by
      obtain ⟨r, hr, rfl⟩ := List.mem_map.mp he
      exact ⟨(hown r hr).1, (hown r hr).2.ne_nil, (hown r hr).2.indice⟩
  have hids : ((g.liveOf reqIds).map fun r => (r, rowOf r)).map Prod.fst = g.liveOf reqIds := by
    rw [List.map_map]
    exact List.map_id _
  rw [hids] at hlook
  have hdead : ∀ q ∈ reqIds, q ∉ g.liveOf reqIds → tables.lookup q = none := by
    intro q hq hnot
    have hq' : q ∉ g.decodeSeqLens := fun hmem =>
      hnot (List.mem_filter.mpr ⟨hq, decide_eq_true hmem⟩)
    rw [h.holds.mem_iff] at hq'
    exact AList.lookup_eq_none.mpr hq'
  have hlengths : lengths tables' = (lengths tables).clearAll reqIds := by
    funext q
    rw [lengths, hlook q, clearAll]
    by_cases hq : q ∈ reqIds
    · rw [if_pos hq]
      split_ifs with hmem
      · rfl
      · rw [hdead q hq hmem]
        rfl
    · have hmem : q ∉ g.liveOf reqIds := fun hmem => hq (List.mem_of_mem_filter hmem)
      rw [if_neg hmem, if_neg hq]
      rfl
  have hblocks : ((g.liveOf reqIds).map fun r => (r, rowOf r)).flatMap (fun e => blocksOf e.1) =
      (g.liveOf reqIds).flatMap fun r => (tables.lookup r).getD [] := by
    rw [List.flatMap_map]
    refine List.flatMap_congr fun r hr => ?_
    rw [(hown r hr).1]
    rfl
  have hend := TokenToKVPoolAllocator.freeGroupEnd_eq (a := g₂.tokenAllocator) (by
    rw [halloc]
    exact h.needSort)
  have hgroup : g₂.tokenAllocator.freeGroup.flatten =
      (g.liveOf reqIds).flatMap fun r => (tables.lookup r).getD [] := by
    rw [halloc, ← hblocks]
    rfl
  have hpages : g₂.tokenAllocator.freePages = g.tokenAllocator.freePages := by
    rw [halloc]
    rfl
  rw [hgroup, hpages] at hend
  rw [hblocks, List.map_map] at h₂
  have hslots : g₂.reqToTokenPool.freeSlots =
      g.reqToTokenPool.freeSlots ++ (g.liveOf reqIds).map rowOf := by
    rw [hpool]
    rfl
  have hfreed : g₂.tokenAllocator.freeGroupEnd.freePages = g.tokenAllocator.freePages ++
      (g.liveOf reqIds).flatMap fun r => (tables.lookup r).getD [] := by
    rw [hend]
  refine ⟨{ g₂ with tokenAllocator := g₂.tokenAllocator.freeGroupEnd }, tables', ?_,
    ⟨?_, ?_, ?_, ?_⟩, hlengths, ?_, fun q hq => ?_⟩
  · set rows := (g.liveOf reqIds).map rowOf
    have hrowsFree : (modify fun g : GPUBlockManager => { g with
        reqToTokenPool := g.reqToTokenPool.free (rows) } : GpuM PUnit) g =
          .ok ⟨⟩ { g with reqToTokenPool := g.reqToTokenPool.free rows } := rfl
    have hbegin : (modify fun g : GPUBlockManager => { g with
        tokenAllocator := g.tokenAllocator.freeGroupBegin } : GpuM PUnit)
          { g with reqToTokenPool := g.reqToTokenPool.free rows } =
            .ok ⟨⟩ g₁ := rfl
    rw [GPUBlockManager.releaseSeqs, get_bind]
    change (rowsOf (g.liveOf reqIds) >>= _) g = _
    rw [bind_of_ok hrows, bind_of_ok hrowsFree, bind_of_ok hbegin, hzip, bind_of_ok hloop]
    rfl
  · show Holds _ g₂.reqToTokenPool.freeSlots g₂.tokenAllocator.freeGroupEnd.freePages ∅ tables'
    rw [hslots, hfreed]
    exact h₂.withFree g₂.reqToTokenPool.freeSlots (by rw [hend])
  · intro r n hn
    rw [hlengths, clearAll] at hn
    split_ifs at hn
    exact h.positive r n hn
  · rw [hend, halloc]
    exact h.needSort
  · rw [hend]
  · rw [hend]
  · have hnot : q ∉ g.liveOf reqIds := fun hmem => hq (List.mem_of_mem_filter hmem)
    rw [hlook q, if_neg hnot]

end GPUBlockManager

end StreamInfer.Kv
